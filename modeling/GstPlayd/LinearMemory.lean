import Mathlib.Data.Int.Init
import Mathlib.Data.List.Basic
import Mathlib.Tactic.Common
import Mathlib.Tactic.TypeStar

/-! What a program has written around a pointer. Cells are counted from the
pointer and may lie before it, and a cell that was never written is `none`. -/

namespace LinearMemory

abbrev Memory (α : Type*) := ℤ → Option α

variable {α : Type*}

def blank : Memory α := fun _ => none

def put (m : Memory α) (p : ℤ) (a : α) : Memory α := fun i => if i = p then some a else m i

def write (m : Memory α) (p : ℤ) : List α → Memory α
  | [] => m
  | a :: l => write (put m p a) (p + 1) l

/-- What `n` cells from the pointer on hold that had the value `a` before. -/
def contents (m : Memory α) (a : α) (n : ℕ) : List α := (List.range n).map fun i : ℕ => (m i).getD a

variable {m : Memory α} {p i : ℤ} {a b : α} {l l' l'' : List α}

theorem put_self : put m p a p = some a := if_pos rfl

theorem put_of_ne (h : i ≠ p) : put m p a i = m i := if_neg h

theorem write_append : write m p (l ++ l') = write (write m p l) (p + l.length) l' := by
  induction l generalizing m p with
  | nil => simp [write]
  | cons a l ih =>
    have hp : p + 1 + (l.length : ℕ) = p + ((a :: l).length : ℕ) := by
      rw [List.length_cons]
      omega
    rw [List.cons_append, write, write, ih, hp]

theorem write_of_outside (h : i < p ∨ p + l.length ≤ i) : write m p l i = m i := by
  induction l generalizing m p with
  | nil => rfl
  | cons a l ih =>
    rw [List.length_cons] at h
    rw [write, ih (by omega), put_of_ne (by omega)]

theorem write_of_inside {k : ℕ} (h : k < l.length) : write m p l (p + k) = l[k]? := by
  induction l generalizing m p k with
  | nil => exact absurd h (Nat.not_lt_zero k)
  | cons a l ih =>
    cases k with
    | zero =>
      have hp : p + (0 : ℕ) = p := Int.add_zero p
      rw [write, hp, write_of_outside (.inl (by omega)), put_self]
      rfl
    | succ k =>
      have hk : p + (k + 1 : ℕ) = p + 1 + k := by omega
      rw [write, hk, ih (Nat.lt_of_succ_lt_succ h)]
      rfl

/-- A list written over the end of another replaces that end. -/
theorem write_write (h : l'.length ≤ l''.length) :
    write (write m p (l ++ l')) (p + l.length) l'' = write m p (l ++ l'') := by
  funext i
  rw [write_append, write_append]
  by_cases hin : p + l.length ≤ i ∧ i < p + l.length + l''.length
  · obtain ⟨k, hk⟩ := Int.le.dest hin.1
    have hlt : k < l''.length := by omega
    rw [← hk, write_of_inside hlt, write_of_inside hlt]
  · rw [write_of_outside (l := l'') (by omega), write_of_outside (l := l'') (by omega),
      write_of_outside (l := l') (by omega)]

theorem put_write : put (write m p (l ++ a :: l')) (p + l.length) b = write m p (l ++ b :: l') := by
  funext i
  rw [write_append, write_append, write, write]
  by_cases hi : i = p + l.length
  · subst hi
    rw [put_self, write_of_outside (.inl (by omega)), put_self]
  · rw [put_of_ne hi]
    by_cases hin : p + l.length + 1 ≤ i ∧ i < p + l.length + 1 + l'.length
    · obtain ⟨k, hk⟩ := Int.le.dest hin.1
      have hlt : k < l'.length := by omega
      rw [← hk, write_of_inside hlt, write_of_inside hlt]
    · rw [write_of_outside (l := l') (by omega), write_of_outside (l := l') (by omega), put_of_ne hi,
        put_of_ne hi]

theorem write_replicate (l l' l'' : List α) (b : α) :
    write m p (l ++ List.replicate l'.length b ++ l'') i =
      if p + l.length ≤ i ∧ i < p + l.length + l'.length then some b
      else write m p (l ++ l' ++ l'') i := by
  have hlen : (l ++ List.replicate l'.length b).length = (l ++ l').length := by simp
  rw [write_append, write_append (l := l), write_append (l := l ++ l'), write_append (l := l), hlen]
  have happ := @List.length_append α l l'
  have hrep := @List.length_replicate α l'.length b
  by_cases hafter : p + (l ++ l').length ≤ i ∧ i < p + (l ++ l').length + l''.length
  · obtain ⟨k, hk⟩ := Int.le.dest hafter.1
    rw [← hk, write_of_inside (by omega), write_of_inside (by omega), if_neg (by omega)]
  · rw [write_of_outside (l := l'') (by omega), write_of_outside (l := l'') (by omega)]
    by_cases hin : p + l.length ≤ i ∧ i < p + l.length + l'.length
    · obtain ⟨k, hk⟩ := Int.le.dest hin.1
      have hlt : k < (List.replicate l'.length b).length := by omega
      rw [if_pos hin, ← hk, write_of_inside hlt, List.getElem?_eq_getElem hlt, List.getElem_replicate]
    · rw [if_neg hin, write_of_outside (l := List.replicate _ b) (by omega),
        write_of_outside (l := l') (by omega)]

theorem write_blank_isSome_iff : (write blank p l i).isSome = true ↔ p ≤ i ∧ i < p + l.length := by
  by_cases hin : p ≤ i ∧ i < p + l.length
  · obtain ⟨k, hk⟩ := Int.le.dest hin.1
    have hlt : k < l.length := by omega
    rw [← hk, write_of_inside hlt, List.getElem?_eq_getElem hlt]
    simp only [Option.isSome_some, true_iff]
    omega
  · rw [write_of_outside (by omega)]
    simp only [blank, Option.isSome_none, Bool.false_eq_true, false_iff]
    exact hin

theorem contents_write {n : ℕ} (h : l.length ≤ n) :
    contents (write blank 0 l) a n = l ++ List.replicate (n - l.length) a := by
  apply List.ext_getElem
  · simp [contents, h]
  · intro k hk hk'
    simp only [contents, List.getElem_map, List.getElem_range]
    by_cases hlt : k < l.length
    · have hin := @write_of_inside _ blank 0 l k hlt
      rw [Int.zero_add] at hin
      rw [hin, List.getElem?_eq_getElem hlt, List.getElem_append_left hlt]
      rfl
    · rw [write_of_outside (by omega), List.getElem_append_right (by omega), List.getElem_replicate]
      rfl

end LinearMemory
