import Mathlib.Data.Finset.Insert
import Mathlib.Data.List.Basic
import Mathlib.Tactic.TypeStar

/-! A registry issues entries under the serial numbers 0, 1, 2, … and retires
them one by one. Its live entries are the issued and not yet retired ones,
read from the newest to the oldest. -/

structure Registry (α : Type*) where
  issued : List α
  retired : Finset ℕ
  retired_lt : ∀ k ∈ retired, k < issued.length

namespace Registry

variable {α κ : Type*} {r : Registry α} {a b : α} {k j : ℕ}

def empty : Registry α := ⟨[], ∅, by simp⟩

def issue (r : Registry α) (a : α) : Registry α where
  issued := r.issued ++ [a]
  retired := r.retired
  retired_lt k hk := by
    have hlt := r.retired_lt k hk
    simp only [List.length_append, List.length_singleton]
    omega

def Live (r : Registry α) (k : ℕ) (a : α) : Prop := r.issued[k]? = some a ∧ k ∉ r.retired

/-- Retiring a number that was never issued does nothing. -/
def retire (r : Registry α) (k : ℕ) : Registry α :=
  if h : k < r.issued.length then
    { r with
      retired := insert k r.retired
      retired_lt := by
        intro j hj
        rcases Finset.mem_insert.mp hj with rfl | hj
        · exact h
        · exact r.retired_lt j hj }
  else r

def live (r : Registry α) : List ℕ := (List.range r.issued.length).reverse.filter (· ∉ r.retired)

def entries (r : Registry α) : List α := r.live.filterMap (r.issued[·]?)

def newest (r : Registry α) (p : α → Bool) : Option ℕ :=
  r.live.find? fun k => (r.issued[k]?).any p

theorem mem_live : k ∈ r.live ↔ k < r.issued.length ∧ k ∉ r.retired := by
  simp [live]

theorem live_pairwise (r : Registry α) : r.live.Pairwise (· > ·) := by
  rw [live, List.filter_reverse, List.pairwise_reverse]
  exact List.pairwise_lt_range.filter _

theorem Live.mem_live (h : r.Live k a) : k ∈ r.live :=
  Registry.mem_live.mpr ⟨(List.getElem?_eq_some_iff.mp h.1).1, h.2⟩

theorem exists_live_of_mem (h : k ∈ r.live) : ∃ a, r.Live k a := by
  obtain ⟨hk, hr⟩ := mem_live.mp h
  exact ⟨r.issued[k], List.getElem?_eq_getElem hk, hr⟩

theorem mem_entries : a ∈ r.entries ↔ ∃ k, r.Live k a := by
  rw [entries, List.mem_filterMap]
  constructor
  · intro hh
    obtain ⟨k, hk, ha⟩ := hh
    exact ⟨k, ha, (mem_live.mp hk).2⟩
  · intro hh
    obtain ⟨k, h⟩ := hh
    exact ⟨k, h.mem_live, h.1⟩

@[simp]
theorem entries_empty : (empty : Registry α).entries = [] := rfl

theorem live_issue (r : Registry α) (a : α) : (r.issue a).live = r.issued.length :: r.live := by
  have hn : r.issued.length ∉ r.retired := fun h => lt_irrefl _ (r.retired_lt _ h)
  change (List.range (r.issued ++ [a]).length).reverse.filter (· ∉ r.retired) = _
  rw [List.length_append, List.length_singleton, List.range_succ, List.reverse_append,
    List.reverse_singleton, List.singleton_append, List.filter_cons_of_pos (by simpa using hn)]
  rfl

theorem entries_issue (r : Registry α) (a : α) : (r.issue a).entries = a :: r.entries := by
  have hrest : r.live.filterMap ((r.issued ++ [a])[·]?) = r.live.filterMap (r.issued[·]?) :=
    List.filterMap_congr fun k hk => List.getElem?_append_left (mem_live.mp hk).1
  rw [entries, live_issue]
  simp only [issue, List.filterMap_cons, List.getElem?_concat_length]
  rw [hrest]
  rfl

theorem newest_eq_some_iff {p : α → Bool} :
    r.newest p = some k ↔ (∃ a, r.Live k a ∧ p a = true) ∧
      ∀ j b, r.Live j b → p b = true → j ≤ k := by
  have hany : ∀ j, ((r.issued[j]?).any p = true ∧ j ∈ r.live) ↔ ∃ b, r.Live j b ∧ p b = true := by
    intro j
    constructor
    · intro hh
      obtain ⟨h, hj⟩ := hh
      obtain ⟨b, hb⟩ := exists_live_of_mem hj
      exact ⟨b, hb, by simpa [hb.1] using h⟩
    · intro hh
      obtain ⟨b, hb, hp⟩ := hh
      exact ⟨by simp [hb.1, hp], hb.mem_live⟩
  rw [newest, List.find?_eq_some_iff_append]
  constructor
  · intro hh
    obtain ⟨hk, l₁, l₂, hl, hno⟩ := hh
    refine ⟨(hany k).mp ⟨hk, by simp [hl]⟩, ?_⟩
    intro j b hj hp
    have hm := (hany j).mpr ⟨b, hj, hp⟩
    have hgt := r.live_pairwise
    rw [hl, List.pairwise_append, List.pairwise_cons] at hgt
    have hmem := hm.2
    rw [hl, List.mem_append, List.mem_cons] at hmem
    rcases hmem with h | h | h
    · have hh := hno j h
      simp [hm.1] at hh
    · exact h.le
    · exact (hgt.2.1.1 j h).le
  · intro hh
    obtain ⟨hk, hmax⟩ := hh
    have hm := (hany k).mpr hk
    obtain ⟨l₁, l₂, hl⟩ := List.append_of_mem hm.2
    refine ⟨hm.1, l₁, l₂, hl, ?_⟩
    intro j hj
    have hgt := r.live_pairwise
    rw [hl, List.pairwise_append] at hgt
    have hlt := hgt.2.2 j hj k (by simp)
    rw [Bool.not_eq_true', Bool.eq_false_iff]
    intro ha
    obtain ⟨b, hb, hp⟩ := (hany j).mp ⟨ha, by simp [hl, hj]⟩
    have hle := hmax j b hb hp
    omega

theorem find_entries (r : Registry α) (p : α → Bool) :
    r.entries.find? p = (r.newest p).bind (r.issued[·]?) :=
  List.find?_filterMap

@[simp]
theorem issued_retire (r : Registry α) (k : ℕ) : (r.retire k).issued = r.issued := by
  unfold retire
  split <;> rfl

theorem entries_retire (h : r.Live k a) :
    ∃ newer older, r.entries = newer ++ a :: older ∧ (r.retire k).entries = newer ++ older ∧
      ∀ b, b ∈ newer ↔ ∃ j, k < j ∧ r.Live j b := by
  obtain ⟨l₁, l₂, hl⟩ := List.append_of_mem h.mem_live
  have hlt : k < r.issued.length := (List.getElem?_eq_some_iff.mp h.1).1
  have hgt := r.live_pairwise
  rw [hl, List.pairwise_append, List.pairwise_cons] at hgt
  have hne₁ : ∀ j ∈ l₁, j ≠ k := fun j hj => (hgt.2.2 j hj k (by simp)).ne'
  have hne₂ : ∀ j ∈ l₂, j ≠ k := fun j hj => (hgt.2.1.1 j hj).ne
  have hlive : (r.retire k).live = l₁ ++ l₂ := by
    have hf : (r.retire k).live = r.live.filter (· ≠ k) := by
      simp [live, retire, hlt, List.filter_filter]
    rw [hf, hl, List.filter_append, List.filter_cons_of_neg (by simp),
      List.filter_eq_self.mpr (by simpa using hne₁), List.filter_eq_self.mpr (by simpa using hne₂)]
  refine ⟨l₁.filterMap (r.issued[·]?), l₂.filterMap (r.issued[·]?), ?_, ?_, ?_⟩
  · simp [entries, hl, h.1]
  · simp [entries, hlive]
  · intro b
    rw [List.mem_filterMap]
    constructor
    · intro hh
      obtain ⟨j, hj, hb⟩ := hh
      exact ⟨j, hgt.2.2 j hj k (by simp), hb, (mem_live.mp (by simp [hl, hj])).2⟩
    · intro hh
      obtain ⟨j, hj, hb⟩ := hh
      have hm := hb.mem_live
      rw [hl, List.mem_append, List.mem_cons] at hm
      rcases hm with hm | hm | hm
      · exact ⟨j, hm, hb.1⟩
      · omega
      · have hjk : k > j := hgt.2.1.1 j hm
        omega

end Registry
