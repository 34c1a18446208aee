import GstPlayd.StepMachine
import Mathlib.Data.Multiset.AddSub
import Mathlib.Data.Multiset.MapFold

/-! References that a program acquires, uses and gives back. Actions are judged
from the references they start with to the ones they end with, and any others
that are held stay out of it. -/

namespace ResourceLedger

open StepMachine StepMachine.Machine

inductive Action (ω : Type*)
  | acquire (o : ω)
  | use (o : ω)
  | release (o : ω)
  deriving DecidableEq

variable {ω : Type*} [DecidableEq ω]

/-- Nothing can be used or released of which no reference is held. -/
def Action.apply (held : Multiset ω) : Action ω → Option (Multiset ω)
  | .acquire o => some (o ::ₘ held)
  | .use o => if o ∈ held then some held else none
  | .release o => if o ∈ held then some (held.erase o) else none

def run (held : Multiset ω) (acts : List (Action ω)) : Option (Multiset ω) := acts.foldlM Action.apply held

/-- The actions are safe with `P` held, and leave `Q`. -/
def Triple (P : Multiset ω) (acts : List (Action ω)) (Q : Multiset ω) : Prop := run P acts = some Q

def acquireAll (os : List ω) : List (Action ω) := os.map .acquire

def useAll (os : List ω) : List (Action ω) := os.map .use

def releaseAll (os : List ω) : List (Action ω) := os.map .release

variable {P Q R P' Q' : Multiset ω} {acts acts' : List (Action ω)} {o : ω} {os : List ω}

theorem run_append (held : Multiset ω) (acts acts' : List (Action ω)) :
    run held (acts ++ acts') = (run held acts).bind fun held => run held acts' := by
  simp [run, List.foldlM_append, Option.bind_eq_bind]

theorem triple_nil (P : Multiset ω) : Triple P [] P := rfl

theorem Triple.append (h : Triple P acts Q) (h' : Triple Q acts' R) : Triple P (acts ++ acts') R := by
  rw [Triple, run_append, h, Option.bind_some, h']

theorem triple_acquire (P : Multiset ω) (o : ω) : Triple P [.acquire o] (o ::ₘ P) := rfl

theorem triple_use (h : o ∈ P) : Triple P [.use o] P := by simp [Triple, run, Action.apply, h]

theorem triple_release (P : Multiset ω) (o : ω) : Triple (o ::ₘ P) [.release o] P := by
  simp [Triple, run, Action.apply]

@[simp]
theorem triple_nil_iff : Triple P [] R ↔ P = R := Option.some_inj

@[simp]
theorem triple_cons_acquire : Triple P (.acquire o :: acts) R ↔ Triple (o ::ₘ P) acts R := Iff.rfl

@[simp]
theorem triple_cons_use (h : o ∈ P) : Triple P (.use o :: acts) R ↔ Triple P acts R := by
  simp [Triple, run, Action.apply, h]

@[simp]
theorem triple_cons_release (h : o ∈ P) : Triple P (.release o :: acts) R ↔ Triple (P.erase o) acts R := by
  simp [Triple, run, Action.apply, h]

theorem apply_add {held held' : Multiset ω} {act : Action ω} (h : act.apply held = some held')
    (r : Multiset ω) : act.apply (held + r) = some (held' + r) := by
  cases act with
  | acquire o =>
    obtain rfl := Option.some.inj h
    rw [Action.apply, Multiset.cons_add]
  | use o =>
    rw [Action.apply] at h
    split_ifs at h with ho
    obtain rfl := Option.some.inj h
    rw [Action.apply, if_pos (Multiset.mem_add.mpr (.inl ho))]
  | release o =>
    rw [Action.apply] at h
    split_ifs at h with ho
    obtain rfl := Option.some.inj h
    rw [Action.apply, if_pos (Multiset.mem_add.mpr (.inl ho)), Multiset.erase_add_left_pos r ho]

/-- References that the actions do not need change nothing. -/
theorem Triple.frame (h : Triple P acts Q) (r : Multiset ω) : Triple (P + r) acts (Q + r) := by
  induction acts generalizing P with
  | nil =>
    obtain rfl := Option.some.inj h
    rfl
  | cons act acts ih =>
    rw [Triple, run, List.foldlM_cons, Option.bind_eq_bind, Option.bind_eq_some_iff] at h
    obtain ⟨held, hact, hrest⟩ := h
    rw [Triple, run, List.foldlM_cons, Option.bind_eq_bind, apply_add hact r]
    exact ih hrest

theorem Triple.frame_left (h : Triple P acts Q) (r : Multiset ω) : Triple (r + P) acts (r + Q) := by
  rw [Multiset.add_comm r P, Multiset.add_comm r Q]
  exact h.frame r

theorem triple_acquireAll (P : Multiset ω) (os : List ω) :
    Triple P (acquireAll os) ((os : Multiset ω) + P) := by
  induction os generalizing P with
  | nil => simp [acquireAll]
  | cons o os ih =>
    have hrest := (triple_acquire P o).append (ih (o ::ₘ P))
    rw [Multiset.add_cons] at hrest
    rwa [← Multiset.cons_coe, Multiset.cons_add]

theorem triple_useAll (h : ∀ o ∈ os, o ∈ P) : Triple P (useAll os) P := by
  induction os with
  | nil => exact triple_nil P
  | cons o os ih =>
    exact (triple_use (h o List.mem_cons_self)).append (ih fun o ho => h o (List.mem_cons_of_mem _ ho))

theorem triple_releaseAll (P : Multiset ω) (os : List ω) :
    Triple ((os : Multiset ω) + P) (releaseAll os) P := by
  induction os generalizing P with
  | nil => simp [releaseAll]
  | cons o os ih =>
    rw [← Multiset.cons_coe, Multiset.cons_add]
    exact (triple_release _ o).append (ih P)

/-- What is acquired around safe actions and released after them. -/
theorem Triple.scoped (h : Triple (o ::ₘ P) acts (o ::ₘ Q)) :
    Triple P (.acquire o :: (acts ++ [.release o])) Q :=
  (triple_acquire P o).append (h.append (triple_release Q o))

section

variable {ψ : Type*} [DecidableEq ψ] {f : ω → ψ}

def Action.map (f : ω → ψ) : Action ω → Action ψ
  | .acquire o => .acquire (f o)
  | .use o => .use (f o)
  | .release o => .release (f o)

theorem apply_map (hf : Function.Injective f) {held held' : Multiset ω} {act : Action ω}
    (h : act.apply held = some held') : (act.map f).apply (held.map f) = some (held'.map f) := by
  cases act with
  | acquire o =>
    obtain rfl := Option.some.inj h
    rw [Action.map, Action.apply, Multiset.map_cons]
  | use o =>
    rw [Action.apply] at h
    split_ifs at h with ho
    obtain rfl := Option.some.inj h
    rw [Action.map, Action.apply, if_pos (Multiset.mem_map_of_mem f ho)]
  | release o =>
    rw [Action.apply] at h
    split_ifs at h with ho
    obtain rfl := Option.some.inj h
    rw [Action.map, Action.apply, if_pos (Multiset.mem_map_of_mem f ho), Multiset.map_erase f hf]

/-- A ledger is read under other names, as long as these stay apart. -/
theorem Triple.map (hf : Function.Injective f) (h : Triple P acts Q) :
    Triple (P.map f) (acts.map (Action.map f)) (Q.map f) := by
  induction acts generalizing P with
  | nil =>
    obtain rfl := Option.some.inj h
    rfl
  | cons act acts ih =>
    rw [Triple, run, List.foldlM_cons, Option.bind_eq_bind, Option.bind_eq_some_iff] at h
    obtain ⟨held, hact, hrest⟩ := h
    rw [Triple, run, List.map_cons, List.foldlM_cons, Option.bind_eq_bind, apply_map hf hact]
    exact ih hrest

end

section

variable {σ ε κ β : Type*} {M : Machine σ ε κ} {s t : σ} {es : List ε}

/-- What the steps of a run give. Each of them knows how many came before it. -/
def collect (M : Machine σ ε κ) (f : ℕ → σ → ε → List β) : ℕ → σ → List ε → List β
  | _, _, [] => []
  | n, s, e :: es =>
    f n s e ++
      match M.step s e with
      | .ok t => collect M f (n + 1) t es
      | .error _ => []

theorem collect_snoc {f : ℕ → σ → ε → List β} (h : M.Reaches s es t) (n : ℕ) (e : ε) :
    collect M f n s (es ++ [e]) = collect M f n s es ++ f (n + es.length) t e := by
  induction es generalizing n s with
  | nil =>
    obtain rfl := reaches_nil_iff.mp h
    rw [List.nil_append, collect, collect, List.nil_append]
    cases M.step s e <;> exact List.append_nil _
  | cons d es ih =>
    obtain ⟨u, hs, hrest⟩ := reaches_cons_iff.mp h
    have hok : M.step s d = .ok u := hs.2
    rw [List.cons_append, collect, collect, hok]
    show _ ++ collect M f (n + 1) u (es ++ [e]) = _ ++ collect M f (n + 1) u es ++ _
    rw [ih hrest, List.append_assoc, List.length_cons, Nat.add_right_comm, Nat.add_assoc n]

/-- A run is safe if each step is safe with what the steps before it hold. -/
theorem reaches_triple {I : List ε → σ → Multiset ω → Prop} {f : ℕ → σ → ε → List (Action ω)}
    (h : M.Reaches s es t) (h0 : I [] s P)
    (hstep : ∀ pre r e u held, M.Reaches s pre r → I pre r held → M.Steps r e u →
      ∃ held', Triple held (f pre.length r e) held' ∧ I (pre ++ [e]) u held') :
    ∃ held, Triple P (collect M f 0 s es) held ∧ I es t held := by
  refine h.history (P := fun es t => ∃ held, Triple P (collect M f 0 s es) held ∧ I es t held) ?_ ?_
  · exact ⟨P, triple_nil P, h0⟩
  · intro pre r e u hr ih hs
    obtain ⟨held, hpre, hI⟩ := ih
    obtain ⟨held', hact, hI'⟩ := hstep pre r e u held hr hI hs
    refine ⟨held', ?_, hI'⟩
    rw [collect_snoc hr, Nat.zero_add]
    exact hpre.append hact

end

end ResourceLedger
