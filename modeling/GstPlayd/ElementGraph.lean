import GstPlayd.Wiring
import Mathlib.Data.List.Basic
import Mathlib.Logic.Function.Basic

/-! Elements in a GStreamer bin, their pads and the links between them. Every
operation is total: a null argument is refused with a warning, and whether a
call that may fail succeeds is an argument of the operation. -/

namespace ElementGraph

abbrev Element := Nat

abbrev Caps := List Char

inductive PadName
  | src
  | sink
  | request (n : Nat)
  | sometimes (n : Nat)
  deriving DecidableEq, Repr

structure Pad where
  element : Element
  name : PadName
  deriving DecidableEq, Repr

def Pad.isSource (p : Pad) : Bool :=
  match p.name with
  | .src | .sometimes _ => true
  | .sink | .request _ => false

inductive GstState
  | voidPending
  | null
  | ready
  | paused
  | playing
  deriving DecidableEq, Repr

inductive GstStateChangeReturn
  | failure
  | success
  | async
  | noPreroll
  deriving DecidableEq, Repr

/-- `state` is the state that each element was last driven to. -/
structure Graph where
  children : List Element
  requestPads : List Pad
  announced : List (Pad × Caps)
  wiring : Wiring Pad
  state : Element → GstState

namespace Graph

def empty : Graph := ⟨[], [], [], .empty, fun _ => .null⟩

def gstElementFactoryMake (g : Graph) : Option Element → Graph
  | none => g
  | some e => { g with state := Function.update g.state e .null }

def gstBinAdd (g : Graph) : Option Element → Graph
  | none => g
  | some e => { g with children := e :: g.children }

/-- `gst_element_link` to an element with request sink pads: pad `n` is made
for the link, unless there is no `n` because the link is refused. -/
def gstElementLinkRequest (g : Graph) (src dst : Option Element) (n : Option Nat) : Option Graph :=
  match src, dst, n with
  | some s, some d, some n =>
    some { g with
      requestPads := ⟨d, .request n⟩ :: g.requestPads
      wiring := g.wiring.join ⟨s, .src⟩ ⟨d, .request n⟩ }
  | _, _, _ => none

/-- `gst_element_link` to an element with one static sink pad: it takes the
first announced pad that is free and of a kind that the sink accepts. -/
def gstElementLinkStatic (accepts : Caps → Bool) (g : Graph) (src dst : Option Element) :
    Option Graph :=
  match src, dst with
  | some s, some d =>
    if g.wiring.peer ⟨d, .sink⟩ = none then
      match g.announced.find? fun a =>
        a.1.element = s && (g.wiring.peer a.1 = none) && accepts a.2 with
      | some a => some { g with wiring := g.wiring.join a.1 ⟨d, .sink⟩ }
      | none => none
    else none
  | _, _ => none

def gstElementLinkPads (g : Graph) (src dst : Element) : Graph :=
  { g with wiring := g.wiring.join ⟨src, .src⟩ ⟨dst, .sink⟩ }

def linkGoes (s d : Element) (p q : Pad) : Bool :=
  p.element = s && p.isSource && q.element = d

def gstElementUnlink (g : Graph) (src dst : Option Element) : Graph :=
  match src, dst with
  | some s, some d =>
    { g with wiring := g.wiring.keep fun p q => !(linkGoes s d p q) }
  | _, _ => g

def gstElementGetStaticPad (e : Option Element) (name : PadName) : Option Pad :=
  e.map fun e => ⟨e, name⟩

def gstPadGetPeer (g : Graph) (p : Option Pad) : Option Pad := p.bind g.wiring.peer

def gstElementReleaseRequestPad (g : Graph) : Option Pad → Graph
  | none => g
  | some p =>
    { g with
      requestPads := g.requestPads.erase p
      wiring := g.wiring.keep fun x _ => x ≠ p }

/-- The pads of the element are unlinked, and go with it when the bin held the
last reference. -/
def gstBinRemove (g : Graph) : Option Element → Graph
  | none => g
  | some e =>
    if e ∈ g.children then
      { g with
        children := g.children.erase e
        announced := g.announced.filter fun a => a.1.element ≠ e
        wiring := g.wiring.keep fun x _ => x.element ≠ e }
    else g

def gstElementSetState (g : Graph) (st : GstState) : Option Element → Graph
  | none => g
  | some e => { g with state := Function.update g.state e st }

def gstBinSetState (g : Graph) (st : GstState) : Graph :=
  { g with state := fun e => if e ∈ g.children then st else g.state e }

def announce (g : Graph) (p : Pad) (caps : Caps) : Graph :=
  { g with announced := (p, caps) :: g.announced }

variable {g : Graph} {e src dst : Option Element} {d : Element} {n : Option Nat} {q : Option Pad}
  {st : GstState} {x y : Pad}

@[simp]
theorem gstElementFactoryMake_frame : (g.gstElementFactoryMake e).children = g.children ∧
    (g.gstElementFactoryMake e).requestPads = g.requestPads ∧
    (g.gstElementFactoryMake e).announced = g.announced ∧
    (g.gstElementFactoryMake e).wiring = g.wiring := by
  cases e <;> exact ⟨rfl, rfl, rfl, rfl⟩

theorem gstElementFactoryMake_state (x : Element) :
    (g.gstElementFactoryMake e).state x = if x ∈ e then .null else g.state x := by
  cases e with
  | none => rfl
  | some e => simp [gstElementFactoryMake, Function.update_apply, eq_comm]

@[simp]
theorem gstBinAdd_children : (g.gstBinAdd e).children = e.toList ++ g.children := by
  cases e <;> rfl

@[simp]
theorem gstBinAdd_frame : (g.gstBinAdd e).requestPads = g.requestPads ∧
    (g.gstBinAdd e).announced = g.announced ∧ (g.gstBinAdd e).wiring = g.wiring ∧
    (g.gstBinAdd e).state = g.state := by
  cases e <;> exact ⟨rfl, rfl, rfl, rfl⟩

@[simp]
theorem gstElementSetState_frame : (g.gstElementSetState st e).children = g.children ∧
    (g.gstElementSetState st e).requestPads = g.requestPads ∧
    (g.gstElementSetState st e).announced = g.announced ∧
    (g.gstElementSetState st e).wiring = g.wiring := by
  cases e <;> exact ⟨rfl, rfl, rfl, rfl⟩

theorem gstElementSetState_state (x : Element) :
    (g.gstElementSetState st e).state x = if x ∈ e then st else g.state x := by
  cases e with
  | none => rfl
  | some e => simp [gstElementSetState, Function.update_apply, eq_comm]

@[simp]
theorem gstBinSetState_frame : (g.gstBinSetState st).children = g.children ∧
    (g.gstBinSetState st).requestPads = g.requestPads ∧
    (g.gstBinSetState st).announced = g.announced ∧ (g.gstBinSetState st).wiring = g.wiring :=
  ⟨rfl, rfl, rfl, rfl⟩

@[simp]
theorem gstElementLinkRequest_frame :
    ((g.gstElementLinkRequest src dst n).getD g).children = g.children ∧
    ((g.gstElementLinkRequest src dst n).getD g).announced = g.announced ∧
    ((g.gstElementLinkRequest src dst n).getD g).state = g.state := by
  cases src <;> cases dst <;> cases n <;> exact ⟨rfl, rfl, rfl⟩

theorem gstElementLinkRequest_requestPads :
    ((g.gstElementLinkRequest src (some d) n).getD g).requestPads =
      ((src.bind fun _ => n).map fun n => ⟨d, .request n⟩).toList ++ g.requestPads := by
  cases src <;> cases n <;> rfl

theorem gstElementLinkRequest_peer (hs : ∀ s ∈ src, g.wiring.peer ⟨s, .src⟩ = none)
    (hd : ∀ m ∈ n, g.wiring.peer ⟨d, .request m⟩ = none) :
    ((g.gstElementLinkRequest src (some d) n).getD g).wiring.peer x = some y ↔
      g.wiring.peer x = some y ∨ ∃ s m, src = some s ∧ n = some m ∧
        ((x = ⟨s, .src⟩ ∧ y = ⟨d, .request m⟩) ∨ (x = ⟨d, .request m⟩ ∧ y = ⟨s, .src⟩)) := by
  cases src with
  | none => simp [gstElementLinkRequest]
  | some s =>
    cases n with
    | none => simp [gstElementLinkRequest]
    | some m =>
      have hj : (g.wiring.join ⟨s, .src⟩ ⟨d, .request m⟩).peer x = some y ↔ _ :=
        Wiring.peer_join (hs s rfl) (hd m rfl) (by simp)
      simp only [gstElementLinkRequest, Option.getD_some, hj]
      constructor
      · intro hh
        rcases hh with h | h | h
        · exact .inr ⟨s, m, rfl, rfl, .inl h⟩
        · exact .inr ⟨s, m, rfl, rfl, .inr h⟩
        · exact .inl h
      · intro hh
        rcases hh with h | ⟨_, _, ⟨⟩, ⟨⟩, h | h⟩
        · exact .inr (.inr h)
        · exact .inl h
        · exact .inr (.inl h)

theorem gstElementLinkStatic_state {accepts : Caps → Bool} {g' : Graph}
    (h : g.gstElementLinkStatic accepts src dst = some g') : g'.state = g.state := by
  unfold gstElementLinkStatic at h
  split at h
  · split_ifs at h
    split at h
    · exact Option.some.inj h ▸ rfl
    · cases h
  · cases h

@[simp]
theorem gstElementUnlink_frame : (g.gstElementUnlink src dst).children = g.children ∧
    (g.gstElementUnlink src dst).requestPads = g.requestPads ∧
    (g.gstElementUnlink src dst).announced = g.announced ∧
    (g.gstElementUnlink src dst).state = g.state := by
  cases src <;> cases dst <;> exact ⟨rfl, rfl, rfl, rfl⟩

theorem gstElementUnlink_peer : (g.gstElementUnlink src dst).wiring.peer x = some y ↔
    g.wiring.peer x = some y ∧ ∀ s ∈ src, ∀ d ∈ dst,
      linkGoes s d x y = false ∧ linkGoes s d y x = false := by
  cases src <;> cases dst <;> simp [gstElementUnlink]

@[simp]
theorem gstElementReleaseRequestPad_requestPads :
    (g.gstElementReleaseRequestPad q).requestPads = g.requestPads.diff q.toList := by
  cases q <;> simp [gstElementReleaseRequestPad]

@[simp]
theorem gstElementReleaseRequestPad_frame :
    (g.gstElementReleaseRequestPad q).children = g.children ∧
    (g.gstElementReleaseRequestPad q).announced = g.announced ∧
    (g.gstElementReleaseRequestPad q).state = g.state := by
  cases q <;> exact ⟨rfl, rfl, rfl⟩

theorem gstElementReleaseRequestPad_peer :
    (g.gstElementReleaseRequestPad q).wiring.peer x = some y ↔
      g.wiring.peer x = some y ∧ x ∉ q ∧ y ∉ q := by
  cases q with
  | none => simp [gstElementReleaseRequestPad]
  | some p => simp [gstElementReleaseRequestPad, @eq_comm _ p]

@[simp]
theorem gstBinRemove_children : (g.gstBinRemove e).children = g.children.diff e.toList := by
  cases e with
  | none => simp [gstBinRemove]
  | some e =>
    by_cases h : e ∈ g.children
    · simp [gstBinRemove, h]
    · simp [gstBinRemove, h, List.erase_of_not_mem h]

@[simp]
theorem gstBinRemove_frame : (g.gstBinRemove e).requestPads = g.requestPads ∧
    (g.gstBinRemove e).state = g.state := by
  cases e with
  | none => exact ⟨rfl, rfl⟩
  | some e => simp only [gstBinRemove]; split <;> exact ⟨rfl, rfl⟩

theorem gstBinRemove_peer (h : ∀ e' ∈ e, e' ∈ g.children) :
    (g.gstBinRemove e).wiring.peer x = some y ↔
      g.wiring.peer x = some y ∧ x.element ∉ e ∧ y.element ∉ e := by
  cases e with
  | none => simp [gstBinRemove]
  | some e => simp [gstBinRemove, h e rfl, @eq_comm _ e]

theorem mem_gstBinRemove_announced {a : Pad × Caps} (h : ∀ e' ∈ e, e' ∈ g.children) :
    a ∈ (g.gstBinRemove e).announced ↔ a ∈ g.announced ∧ a.1.element ∉ e := by
  cases e with
  | none => simp [gstBinRemove]
  | some e => simp [gstBinRemove, h e rfl, @eq_comm _ e]

end Graph

end ElementGraph
