import Mathlib.Data.List.Count
import Mathlib.Data.List.Induction

/-! Sequences cut into lines after every separator, and lines taken two by
two. The separator stays at the end of its line. -/

namespace LineFraming

variable {α : Type*} {sep x : α} {s t : List α}

/-- Slices of two, the last of which may be short. -/
def slices : List α → List (α × Option α)
  | [] => []
  | [x] => [(x, none)]
  | x :: y :: l => (x, some y) :: slices l

theorem length_slices (l : List α) : (slices l).length = (l.length + 1) / 2 := by
  induction l using slices.induct with
  | case1 => simp [slices]
  | case2 x => simp [slices]
  | case3 x y l ih =>
    simp only [slices, List.length_cons, ih]
    omega

variable [DecidableEq α]

def lines (sep : α) : List α → List (List α)
  | [] => []
  | x :: xs =>
    if x = sep then [x] :: lines sep xs
    else match lines sep xs with
      | [] => [[x]]
      | l :: ls => (x :: l) :: ls

theorem lines_append_sep (h : sep ∉ s) (t : List α) :
    lines sep (s ++ sep :: t) = (s ++ [sep]) :: lines sep t := by
  induction s with
  | nil => simp [lines]
  | cons x s ih =>
    have hx : x ≠ sep := fun he => h (he ▸ List.mem_cons_self)
    have hs : sep ∉ s := fun hm => h (List.mem_cons_of_mem x hm)
    simp [lines, hx, ih hs]

theorem length_lines (s : List α) : (lines sep (s ++ [sep])).length = (s ++ [sep]).count sep := by
  induction s with
  | nil => simp [lines]
  | cons x s ih =>
    rw [List.cons_append, lines]
    by_cases hx : x = sep
    · simp [hx, ih]
    · have hne : lines sep (s ++ [sep]) ≠ [] := by
        intro h0
        rw [h0] at ih
        simp at ih
      obtain ⟨l, ls, hl⟩ := List.exists_cons_of_ne_nil hne
      rw [if_neg hx, hl, List.count_cons_of_ne hx, ← ih, hl]
      rfl

end LineFraming
