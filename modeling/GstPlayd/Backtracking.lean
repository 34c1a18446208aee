import Mathlib.Data.List.Basic
import Mathlib.Data.List.TakeWhile

/-! Backtracking matching over an arbitrary alphabet. A pattern run at a
position lists its successes in the order in which a backtracking engine finds
them, so the match that the engine reports is the first of the list. -/

namespace Backtracking

variable {α : Type*}

structure Found (α : Type*) where
  taken : List α
  rest : List α
  groups : List (Nat × List α)
  deriving Repr, DecidableEq

/-- `look` tests the symbols passed (last first) and the symbols left. The
repetitions are over one class of symbols and greedy. -/
inductive Pattern (α : Type*)
  | look (test : List α → List α → Bool)
  | one (p : α → Bool)
  | opt (p : α → Bool)
  | star (p : α → Bool)
  | plus (p : α → Bool)
  | seq (a b : Pattern α)
  | group (i : Nat) (a : Pattern α)

def splits (p : α → Bool) (l : List α) : List (List α × List α) :=
  (List.range ((l.takeWhile p).length + 1)).reverse.map fun k => (l.take k, l.drop k)

def run : Pattern α → List α → List α → List (Found α)
  | .look test, before, after => if test before after then [⟨[], after, []⟩] else []
  | .one p, _, after => match after with
    | [] => []
    | x :: xs => if p x then [⟨[x], xs, []⟩] else []
  | .opt p, _, after => match after with
    | [] => [⟨[], [], []⟩]
    | x :: xs => if p x then [⟨[x], xs, []⟩, ⟨[], x :: xs, []⟩] else [⟨[], x :: xs, []⟩]
  | .star p, _, after => (splits p after).map fun s => ⟨s.1, s.2, []⟩
  | .plus p, _, after =>
    (splits p after).flatMap fun s => if s.1.isEmpty then [] else [⟨s.1, s.2, []⟩]
  | .seq a b, before, after => (run a before after).flatMap fun x =>
    (run b (x.taken.reverse ++ before) x.rest).map fun y =>
      ⟨x.taken ++ y.taken, y.rest, x.groups ++ y.groups⟩
  | .group i a, before, after =>
    (run a before after).map fun x => { x with groups := (i, x.taken) :: x.groups }

def search (r : Pattern α) : List α → List α → Option (Found α)
  | before, [] => (run r before []).head?
  | before, x :: xs => (run r before (x :: xs)).head?.or (search r (x :: before) xs)

def Found.group (x : Found α) (i : Nat) : Option (List α) := x.groups.lookup i

theorem search_anchored {r : Pattern α} (h : ∀ x before after, run r (x :: before) after = [])
    (l : List α) : search r [] l = (run r [] l).head? := by
  have hnone : ∀ (l : List α) (x : α) (before : List α), search r (x :: before) l = none := by
    intro l
    induction l with
    | nil => intro x before; simp [search, h]
    | cons y ys ih => intro x before; simp [search, h, ih]
  cases l with
  | nil => rfl
  | cons y ys => simp [search, hnone]

theorem search_of_head {r : Pattern α} {before l : List α} {x : Found α}
    (h : (run r before l).head? = some x) : search r before l = some x := by
  cases l with
  | nil => exact h
  | cons y ys => simp [search, h]

theorem take_length_takeWhile (p : α → Bool) (l : List α) :
    l.take (l.takeWhile p).length = l.takeWhile p :=
  (List.prefix_iff_eq_take.mp (List.takeWhile_prefix p)).symm

theorem drop_length_takeWhile (p : α → Bool) (l : List α) :
    l.drop (l.takeWhile p).length = l.dropWhile p := by
  conv_lhs => rw [← List.takeWhile_append_dropWhile (p := p) (l := l)]
  rw [List.drop_left' (by simp)]

theorem exists_of_lt_takeWhile (p : α → Bool) {l : List α} {k : Nat}
    (hk : k < (l.takeWhile p).length) : ∃ x xs, l.drop k = x :: xs ∧ p x = true := by
  have hl : (l.takeWhile p).length ≤ l.length := (List.takeWhile_prefix p).length_le
  refine ⟨l[k], l.drop (k + 1), List.drop_eq_getElem_cons (by omega), ?_⟩
  have hp := List.mem_takeWhile_imp (List.getElem_mem hk)
  rwa [(List.takeWhile_prefix p).getElem hk] at hp

theorem splits_eq (p : α → Bool) (l : List α) :
    splits p l = (l.takeWhile p, l.dropWhile p) ::
      (List.range (l.takeWhile p).length).reverse.map fun k => (l.take k, l.drop k) := by
  simp [splits, List.range_succ, take_length_takeWhile, drop_length_takeWhile]

/-- When what follows a repetition cannot start inside its class, no shorter
split survives. -/
theorem flatMap_splits_of_dead {β : Type*} (p : α → Bool) (l : List α)
    {f : List α × List α → List β} (h : ∀ t x xs, p x = true → f (t, x :: xs) = []) :
    (splits p l).flatMap f = f (l.takeWhile p, l.dropWhile p) := by
  have hrest : ((List.range (l.takeWhile p).length).reverse.map
      fun k => (l.take k, l.drop k)).flatMap f = [] := by
    simp only [List.flatMap_eq_nil_iff, List.mem_map, List.mem_reverse, List.mem_range]
    rintro _ ⟨k, hk, rfl⟩
    obtain ⟨x, xs, hd, hp⟩ := exists_of_lt_takeWhile p hk
    rw [hd, h _ _ _ hp]
  rw [splits_eq, List.flatMap_cons, hrest, List.append_nil]

theorem run_seq_group (i : Nat) (a b : Pattern α) (before after : List α) :
    run (.seq (.group i a) b) before after = (run a before after).flatMap fun x =>
      (run b (x.taken.reverse ++ before) x.rest).map fun y =>
        ⟨x.taken ++ y.taken, y.rest, (i, x.taken) :: (x.groups ++ y.groups)⟩ := by
  simp [run, List.flatMap_map]

/-- A group takes what its pattern takes. -/
theorem map_taken_run_group (i : Nat) (a b : Pattern α) (before after : List α) :
    (run (.seq (.group i a) b) before after).map Found.taken =
      (run (.seq a b) before after).map Found.taken := by
  simp [run, List.flatMap_map, List.map_flatMap, Function.comp_def]

theorem run_seq_look_true {test : List α → List α → Bool} {before after : List α}
    (h : test before after = true) (b : Pattern α) :
    run (.seq (.look test) b) before after = run b before after := by
  simp [run, h]

theorem run_seq_look_false {test : List α → List α → Bool} {before after : List α}
    (h : test before after = false) (b : Pattern α) :
    run (.seq (.look test) b) before after = [] := by
  simp [run, h]

theorem head_run_seq {a b : Pattern α} {before after : List α} {x y : Found α}
    (hx : (run a before after).head? = some x)
    (hy : (run b (x.taken.reverse ++ before) x.rest).head? = some y) :
    (run (.seq a b) before after).head? =
      some ⟨x.taken ++ y.taken, y.rest, x.groups ++ y.groups⟩ := by
  obtain ⟨xs, hxs⟩ := List.head?_eq_some_iff.mp hx
  obtain ⟨ys, hys⟩ := List.head?_eq_some_iff.mp hy
  simp [run, hxs, hys]

theorem head_run_group {a : Pattern α} {before after : List α} {x : Found α} (i : Nat)
    (hx : (run a before after).head? = some x) :
    (run (.group i a) before after).head? = some { x with groups := (i, x.taken) :: x.groups } := by
  obtain ⟨xs, hxs⟩ := List.head?_eq_some_iff.mp hx
  simp [run, hxs]

theorem head_run_plus {p : α → Bool} {after : List α} (h : after.takeWhile p ≠ []) (before : List α) :
    (run (.plus p) before after).head? = some ⟨after.takeWhile p, after.dropWhile p, []⟩ := by
  simp [run, splits_eq, h]

theorem head_run_star_back {p : α → Bool} {b : Pattern α} {before t s : List α} {y : Found α} (i : Nat)
    (ht : ∀ c ∈ t, p c = true) (hy : (run b (t.reverse ++ before) s).head? = some y)
    (hdead : ∀ t' s', t ++ s = t' ++ s' → t.length < t'.length → run b (t'.reverse ++ before) s' = []) :
    (run (.seq (.group i (.star p)) b) before (t ++ s)).head? =
      some ⟨t ++ y.taken, y.rest, (i, t) :: y.groups⟩ := by
  have hlen : t.length ≤ ((t ++ s).takeWhile p).length := by
    rw [List.takeWhile_append_of_pos ht, List.length_append]
    exact Nat.le_add_right _ _
  obtain ⟨m, hm⟩ := Nat.exists_eq_add_of_le hlen
  have hsplits : splits p (t ++ s) = ((List.range m).map (t.length + 1 + ·)).reverse.map
      (fun k => ((t ++ s).take k, (t ++ s).drop k)) ++ (t, s) :: (List.range t.length).reverse.map
      (fun k => ((t ++ s).take k, (t ++ s).drop k)) := by
    have hr : List.range (t.length + m + 1) = List.range t.length ++ t.length ::
        (List.range m).map (t.length + 1 + ·) := by
      rw [show t.length + m + 1 = t.length + 1 + m by omega, List.range_add, List.range_succ]
      simp
    simp [splits, hm, hr]
  have hle : t.length + m ≤ (t ++ s).length := by
    rw [← hm]
    exact (List.takeWhile_prefix p).length_le
  obtain ⟨ys, hys⟩ := List.head?_eq_some_iff.mp hy
  rw [run_seq_group, run, List.flatMap_map, List.head?_flatMap, hsplits, List.findSome?_append,
    List.findSome?_eq_none_iff.mpr, Option.none_or, List.findSome?_cons, hys]
  · simp
  · simp only [List.mem_map, List.mem_reverse, List.mem_range]
    rintro _ ⟨_, ⟨k, hk, rfl⟩, rfl⟩
    rw [hdead _ _ (List.take_append_drop _ _).symm, List.map_nil, List.head?_nil]
    rw [List.length_take]
    omega

end Backtracking
