import Mathlib.Tactic.TypeStar
import Mathlib.Data.List.Induction

/-! Machines with a partial step and a guard on what the environment may
answer. A fact about one guarded step becomes a fact about every run, about
the inputs of the run, or about an abstract machine that follows it. -/

namespace StepMachine

/-- `step` fails with a `κ` where the program stops; `allowed` is the promise
of the environment about the input taken in a state. -/
structure Machine (σ ε κ : Type*) where
  step : σ → ε → Except κ σ
  allowed : σ → ε → Prop

namespace Machine

variable {σ τ ε ε' κ κ' : Type*} {M N : Machine σ ε κ} {s t u : σ} {e : ε} {es fs : List ε}

def Steps (M : Machine σ ε κ) (s : σ) (e : ε) (t : σ) : Prop :=
  M.allowed s e ∧ M.step s e = .ok t

inductive Reaches (M : Machine σ ε κ) : σ → List ε → σ → Prop
  | nil (s : σ) : Reaches M s [] s
  | cons {s t u : σ} {e : ε} {es : List ε} (h : M.Steps s e t) (hr : Reaches M t es u) :
      Reaches M s (e :: es) u

/-- Some allowed input of the sequence stops the program with `k`. -/
def Fails (M : Machine σ ε κ) (s : σ) (es : List ε) (k : κ) : Prop :=
  ∃ pre e post t, es = pre ++ e :: post ∧ M.Reaches s pre t ∧ M.allowed t e ∧
    M.step t e = .error k

/-- The sequence leads to `t` with `e` as the next input. -/
def Meets (M : Machine σ ε κ) (s : σ) (es : List ε) (t : σ) (e : ε) : Prop :=
  ∃ pre post, es = pre ++ e :: post ∧ M.Reaches s pre t ∧ M.allowed t e

theorem Steps.unique (h : M.Steps s e t) (h' : M.Steps s e u) : t = u :=
  Except.ok.inj (h.2.symm.trans h'.2)

theorem reaches_nil_iff : M.Reaches s [] t ↔ s = t := by
  constructor
  · rintro ⟨⟩
    rfl
  · rintro rfl
    exact .nil s

theorem reaches_cons_iff : M.Reaches s (e :: es) u ↔ ∃ t, M.Steps s e t ∧ M.Reaches t es u := by
  constructor
  · intro hh
    rcases hh with _ | ⟨h, hr⟩
    exact ⟨_, h, hr⟩
  · intro hh
    obtain ⟨t, h, hr⟩ := hh
    exact .cons h hr

theorem reaches_append_iff :
    M.Reaches s (es ++ fs) u ↔ ∃ t, M.Reaches s es t ∧ M.Reaches t fs u := by
  induction es generalizing s with
  | nil =>
    simp only [List.nil_append, reaches_nil_iff]
    exact ⟨fun h => ⟨s, rfl, h⟩, fun ⟨_, he, h⟩ => he ▸ h⟩
  | cons e es ih =>
    simp only [List.cons_append, reaches_cons_iff, ih]
    constructor
    · intro hh
      obtain ⟨t, h, r, hr, hu⟩ := hh
      exact ⟨r, ⟨t, h, hr⟩, hu⟩
    · intro hh
      obtain ⟨r, ⟨t, h, hr⟩, hu⟩ := hh
      exact ⟨t, h, r, hr, hu⟩

theorem reaches_snoc_iff :
    M.Reaches s (es ++ [e]) u ↔ ∃ t, M.Reaches s es t ∧ M.Steps t e u := by
  simp [reaches_append_iff, reaches_cons_iff, reaches_nil_iff]

theorem Reaches.unique (h : M.Reaches s es t) (h' : M.Reaches s es u) : t = u := by
  induction h with
  | nil s => exact reaches_nil_iff.mp h'
  | cons hs _ ih =>
    obtain ⟨r, hr, hu⟩ := reaches_cons_iff.mp h'
    exact ih (hs.unique hr ▸ hu)

theorem Reaches.invariant {P : σ → Prop} (h : M.Reaches s es t) (h0 : P s)
    (hstep : ∀ r e u, P r → M.Steps r e u → P u) : P t := by
  induction h with
  | nil s => exact h0
  | cons hs _ ih => exact ih (hstep _ _ _ h0 hs)

/-- The same for a predicate that also mentions the inputs taken so far. -/
theorem Reaches.history {P : List ε → σ → Prop} (h : M.Reaches s es t) (h0 : P [] s)
    (hstep : ∀ pre r e u, M.Reaches s pre r → P pre r → M.Steps r e u → P (pre ++ [e]) u) :
    P es t := by
  induction es using List.reverseRecOn generalizing t with
  | nil => exact reaches_nil_iff.mp h ▸ h0
  | append_singleton es e ih =>
    obtain ⟨r, hr, hs⟩ := reaches_snoc_iff.mp h
    exact hstep es r e t hr (ih hr) hs

theorem Meets.append (h : M.Meets s es t e) (fs : List ε) : M.Meets s (es ++ fs) t e := by
  obtain ⟨pre, post, rfl, hr, ha⟩ := h
  exact ⟨pre, post ++ fs, by simp, hr, ha⟩

theorem Reaches.meets (h : M.Reaches s es t) (ha : M.allowed t e) : M.Meets s (es ++ [e]) t e :=
  ⟨es, [], rfl, h, ha⟩

theorem Reaches.mono (h : M.Reaches s es t) (hstep : M.step = N.step)
    (hallow : ∀ r e, M.allowed r e → N.allowed r e) : N.Reaches s es t := by
  induction h with
  | nil s => exact .nil s
  | cons hs _ ih => exact .cons ⟨hallow _ _ hs.1, hstep ▸ hs.2⟩ ih

/-- A machine `A` that matches every step of `M` matches its runs. -/
theorem Reaches.simulate {A : Machine τ ε' κ'} {R : σ → τ → Prop} (h : M.Reaches s es t)
    (hstep : ∀ r e u a, R r a → M.Steps r e u → ∃ fs b, A.Reaches a fs b ∧ R u b) {a : τ} (ha : R s a) :
    ∃ fs b, A.Reaches a fs b ∧ R t b := by
  induction h generalizing a with
  | nil s => exact ⟨[], a, .nil a, ha⟩
  | cons hs _ ih =>
    obtain ⟨fs, b, hab, hb⟩ := hstep _ _ _ a ha hs
    obtain ⟨gs, c, hbc, hc⟩ := ih hb
    exact ⟨fs ++ gs, c, reaches_append_iff.mpr ⟨b, hab, hbc⟩, hc⟩

end Machine

end StepMachine
