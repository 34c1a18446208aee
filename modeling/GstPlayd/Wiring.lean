import Mathlib.Data.Option.Basic
import Mathlib.Tactic.SplitIfs
import Mathlib.Tactic.TypeStar

/-! Partial matchings: every point is joined to at most one other point, and
the other point knows it. -/

structure Wiring (π : Type*) where
  peer : π → Option π
  symm : ∀ {p q}, peer p = some q → peer q = some p

namespace Wiring

variable {π : Type*} {w : Wiring π} {p q x y z : π}

def empty : Wiring π := ⟨fun _ => none, fun h => by simp at h⟩

def keep (w : Wiring π) (k : π → π → Bool) : Wiring π where
  peer x := (w.peer x).filter fun y => k x y && k y x
  symm h := by
    simp only [Option.filter_eq_some_iff, Bool.and_eq_true] at h ⊢
    exact ⟨w.symm h.1, h.2.2, h.2.1⟩

/-- Join two points, both of which have to be free. -/
def join [DecidableEq π] (w : Wiring π) (p q : π) : Wiring π :=
  if h : w.peer p = none ∧ w.peer q = none ∧ p ≠ q then
    { peer := fun x => if x = p then some q else if x = q then some p else w.peer x
      symm := by
        obtain ⟨hp, hq, hne⟩ := h
        intro x y hx
        split_ifs at hx with hxp hxq
        · obtain rfl := Option.some.inj hx
          simp [hxp, hne.symm]
        · obtain rfl := Option.some.inj hx
          simp [hxq]
        · have hy := w.symm hx
          have hyp : y ≠ p := by rintro rfl; simp [hp] at hy
          have hyq : y ≠ q := by rintro rfl; simp [hq] at hy
          simp [hyp, hyq, hy] }
  else w

theorem peer_symm : w.peer p = some q ↔ w.peer q = some p := ⟨w.symm, w.symm⟩

theorem peer_unique (hx : w.peer x = some z) (hy : w.peer y = some z) : x = y :=
  Option.some.inj ((w.symm hx).symm.trans (w.symm hy))

@[simp]
theorem peer_empty : (empty : Wiring π).peer x = none := rfl

@[simp]
theorem peer_keep {k : π → π → Bool} :
    (w.keep k).peer x = some y ↔ w.peer x = some y ∧ k x y = true ∧ k y x = true := by
  simp [keep, Option.filter_eq_some_iff]

theorem peer_join [DecidableEq π] (hp : w.peer p = none) (hq : w.peer q = none) (hne : p ≠ q) :
    (w.join p q).peer x = some y ↔ (x = p ∧ y = q) ∨ (x = q ∧ y = p) ∨ w.peer x = some y := by
  have hj : (w.join p q).peer x = if x = p then some q else if x = q then some p else w.peer x := by
    rw [join, dif_pos ⟨hp, hq, hne⟩]
  rw [hj]
  by_cases hxp : x = p
  · simp [hxp, hp, hne, eq_comm]
  · by_cases hxq : x = q
    · simp [hxq, hq, hne.symm, eq_comm]
    · simp [hxp, hxq]

end Wiring
