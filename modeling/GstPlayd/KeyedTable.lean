import Mathlib.Data.List.AList

/-! Tables filled from sequences of entries. The entry that comes last under a
key is the one that stays. -/

namespace KeyedTable

variable {κ β : Type*} [DecidableEq κ]

def insertAll (t : AList fun _ : κ => β) (l : List (κ × β)) : AList fun _ : κ => β :=
  l.foldl (fun t p => t.insert p.1 p.2) t

/-- The value of the first entry under a key. -/
def valueAt (l : List (κ × β)) (k : κ) : Option β := (l.find? fun p => p.1 = k).map Prod.snd

variable {t : AList fun _ : κ => β} {l l' : List (κ × β)} {k : κ} {b : β}

theorem insertAll_flatten (t : AList fun _ : κ => β) (ls : List (List (κ × β))) :
    insertAll t ls.flatten = ls.foldl insertAll t := by
  induction ls generalizing t with
  | nil => rfl
  | cons l ls ih =>
    rw [List.flatten_cons, List.foldl_cons, ← ih, insertAll, insertAll, List.foldl_append]
    rfl

theorem valueAt_append : valueAt (l ++ l') k = (valueAt l k).or (valueAt l' k) := by
  rw [valueAt, List.find?_append, Option.map_or]
  rfl

theorem valueAt_flatten (ls : List (List (κ × β))) (k : κ) :
    valueAt ls.flatten k = ls.findSome? fun l => valueAt l k := by
  induction ls with
  | nil => rfl
  | cons l ls ih =>
    rw [List.flatten_cons, valueAt_append, ih, List.findSome?_cons]
    cases valueAt l k <;> rfl

theorem lookup_insertAll (t : AList fun _ : κ => β) (l : List (κ × β)) (k : κ) :
    (insertAll t l).lookup k = (valueAt l.reverse k).or (t.lookup k) := by
  induction l generalizing t with
  | nil => rfl
  | cons p l ih =>
    rw [insertAll, List.foldl_cons, ← insertAll, ih, List.reverse_cons, valueAt_append, Option.or_assoc]
    congr 1
    by_cases hk : p.1 = k
    · subst hk
      simp [valueAt]
    · simp [valueAt, hk, AList.lookup_insert_ne (Ne.symm hk)]

theorem valueAt_eq_some_iff (hn : (l.map Prod.fst).Nodup) : valueAt l k = some b ↔ (k, b) ∈ l := by
  induction l with
  | nil => simp [valueAt]
  | cons p l ih =>
    obtain ⟨hp, hl⟩ := List.nodup_cons.mp hn
    by_cases hk : p.1 = k
    · subst hk
      have hno : (p.1, b) ∉ l := fun hm => hp (List.mem_map.mpr ⟨_, hm, rfl⟩)
      have hcons : valueAt (p :: l) p.1 = some p.2 := by simp [valueAt]
      rw [hcons, List.mem_cons, or_iff_left hno]
      constructor
      · intro h
        exact (Prod.ext rfl (Option.some.inj h).symm)
      · intro h
        rw [← h]
    · have hcons : valueAt (p :: l) k = valueAt l k := by simp [valueAt, hk]
      have hne : (k, b) ≠ p := fun h => hk (h ▸ rfl)
      rw [hcons, ih hl, List.mem_cons, or_iff_right hne]

theorem valueAt_reverse (hn : (l.map Prod.fst).Nodup) : valueAt l.reverse k = valueAt l k := by
  have hr : (l.reverse.map Prod.fst).Nodup := by rwa [List.map_reverse, List.nodup_reverse]
  apply Option.ext
  intro b
  rw [valueAt_eq_some_iff hr, valueAt_eq_some_iff hn, List.mem_reverse]

/-- The last of several lists that has the key decides. -/
theorem lookup_insertAll_flatten {ls : List (List (κ × β))} (hn : ∀ l ∈ ls, (l.map Prod.fst).Nodup) (k : κ) :
    (insertAll ∅ ls.flatten).lookup k = ls.reverse.findSome? fun l => valueAt l k := by
  rw [lookup_insertAll, List.reverse_flatten, valueAt_flatten, AList.lookup_empty, Option.or_none]
  have hrev : (ls.map List.reverse).reverse = ls.reverse.map List.reverse := List.map_reverse.symm
  rw [hrev, List.findSome?_map]
  induction ls with
  | nil => rfl
  | cons l ls ih =>
    rw [List.reverse_cons, List.findSome?_append, List.findSome?_append,
      ih (fun l' hl' => hn l' (List.mem_cons_of_mem l hl')) List.map_reverse.symm]
    congr 1
    simp [valueAt_reverse (hn l List.mem_cons_self)]

end KeyedTable
