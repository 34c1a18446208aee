import GstPlayd.ElementGraph
import GstPlayd.Parser
import GstPlayd.StepMachine

/-! The playback pipeline: the handlers of PLAY, STOP and DUMPGRAPH, the
"pad-added" callback of a source, and the life of the playback context. What
the calls into GStreamer, the allocator and the clock answer is an input. -/

namespace GstPlayd

open ElementGraph ElementGraph.Graph StepMachine

structure SourceItem where
  address : UInt64
  uri : Text
  createdAt : Int64
  element : Option Element
  ac : Option Element
  deriving DecidableEq

/-- `freed` lists the items given to `g_free` so far. -/
structure PlaybackCtx where
  pipeline : Graph
  mux : Element
  audioSink : Element
  sources : List SourceItem
  freed : List SourceItem

/-- Answers to the calls of `source_new_and_link`: the address of the new item,
the time, the two elements, the request pad made for the link to the mux, the
state of the pipeline and the outcome of the state change. -/
structure PlayCalls where
  item : UInt64
  now : Int64
  element : Option Element
  ac : Option Element
  muxPad : Option Nat
  current : GstState
  pending : GstState
  stateChange : GstStateChangeReturn

/-- `gst_element_set_state` refuses a null element. -/
def setStateReturn (e : Option Element) (answer : GstStateChangeReturn) : GstStateChangeReturn :=
  if e = none then .failure else answer

def onNewSourcePadLink (accepts : Caps → Bool) (src mux : Option Element) (g : Graph) :
    Result Graph :=
  match g.gstElementLinkStatic accepts src mux with
  | some g => .ok g
  | none => .error (.gError "Couldn't link source to mux".toList)

def playedItem (uri : Text) (calls : PlayCalls) : SourceItem :=
  ⟨calls.item, uri, calls.now, calls.element, calls.ac⟩

def startsPipeline (calls : PlayCalls) : Bool :=
  calls.pending ≠ .playing && calls.current ≠ .playing

/-- The graph when the state of the pipeline is asked for. -/
def addSource (item : SourceItem) (muxPad : Option Nat) (g : Graph) (mux : Element) : Graph :=
  let g := (g.gstElementFactoryMake item.element).gstElementFactoryMake item.ac
  let g := g.gstBinAdd item.ac
  let g := (g.gstElementLinkRequest item.ac (some mux) muxPad).getD g
  g.gstBinAdd item.element

def startAnswer (calls : PlayCalls) : GstStateChangeReturn :=
  if startsPipeline calls then calls.stateChange else setStateReturn calls.element calls.stateChange

/-- The graph once the pipeline or the element has been driven. -/
def playedGraph (uri : Text) (calls : PlayCalls) (pipeline : Graph) (mux : Element) : Graph :=
  let g := addSource (playedItem uri calls) calls.muxPad pipeline mux
  if startsPipeline calls then g.gstBinSetState .playing
  else g.gstElementSetState .playing calls.element

def sourceNewAndLink (uri : Text) (calls : PlayCalls) (pipeline : Graph) (mux : Element) :
    Result (Option SourceItem × Graph) :=
  if startAnswer calls = .failure then .error (.gError "Couldn't move element state to PLAYING".toList)
  else .ok (some (playedItem uri calls), playedGraph uri calls pipeline mux)

/-- The graph once the element has been driven and the item unlinked. -/
def removeSource (item : SourceItem) (g : Graph) (mux : Element) : Graph :=
  let g := g.gstElementSetState .playing item.element
  let muxSink := g.gstPadGetPeer (gstElementGetStaticPad item.ac .src)
  let g := (g.gstElementUnlink item.element item.ac).gstElementUnlink item.ac (some mux)
  let g := g.gstElementReleaseRequestPad muxSink
  (g.gstBinRemove item.element).gstBinRemove item.ac

def sourceFreeAndUnlink (item : SourceItem) (stateChange : GstStateChangeReturn) (pipeline : Graph)
    (mux : Element) : Result Graph :=
  if setStateReturn item.element stateChange = .failure then
    .error (.gError "Couldn't move element state to READY".toList)
  else .ok (removeSource item pipeline mux)

def sourceItemText (item : SourceItem) : Text :=
  item.uri ++ " 0x".toList ++ fmtPointer item.address ++ ' ' ::
    fmtUnsigned item.createdAt.toUInt64.toNat

def sourceItemToId (item : SourceItem) : UInt32 := gStrHash (sourceItemText item)

def sourceItemFromId (itemList : List SourceItem) (id : UInt32) : Option SourceItem :=
  itemList.find? fun needle => sourceItemToId needle == id

def playerIdReply (id : UInt32) : Text := "OK player id: ".toList ++ fmtUnsigned id.toNat

def opPlayParse (param : Text) (calls : PlayCalls) (ctx : PlaybackCtx) :
    Result (Text × PlaybackCtx) := do
  let (toAdd, pipeline) ← sourceNewAndLink param calls ctx.pipeline ctx.mux
  match toAdd with
  | none => return ("FAIL Can't load source: ".toList ++ param, { ctx with pipeline })
  | some item =>
    return (playerIdReply (sourceItemToId item),
      { ctx with pipeline, sources := item :: ctx.sources })

def stopId (param : Text) : UInt32 := UInt32.ofInt (atoll param)

/-- `g_slist_remove`: the first entry that holds the pointer goes. -/
def gSlistRemove (sources : List SourceItem) (item : SourceItem) : List SourceItem :=
  sources.eraseP fun s => s.address == item.address

def opStopParse (param : Text) (stateChange : GstStateChangeReturn) (ctx : PlaybackCtx) :
    Result (Text × PlaybackCtx) := do
  match sourceItemFromId ctx.sources (stopId param) with
  | none => return ("FAIL id is invalid".toList, ctx)
  | some toRemove =>
    let pipeline ← sourceFreeAndUnlink toRemove stateChange ctx.pipeline ctx.mux
    return (playerIdReply (stopId param),
      { ctx with
        pipeline
        sources := gSlistRemove ctx.sources toRemove
        freed := ctx.freed ++ [toRemove] })

def opDumpgraphParse (_param : Text) (ctx : PlaybackCtx) : Result (Text × PlaybackCtx) :=
  .ok ("OK".toList, ctx)

def newPlaybackCtx (sink mux ac : Element) : PlaybackCtx :=
  let g := ((Graph.empty.gstBinAdd (some mux)).gstBinAdd (some ac)).gstBinAdd (some sink)
  ⟨(g.gstElementLinkPads mux ac).gstElementLinkPads ac sink, mux, sink, [], []⟩

/-- `sink`, `mux` and `ac` are the elements that the factories make, `linked`
is whether the three could be linked. Without a sink the message of an error
that was never set is read. -/
def opPlaybackNew (sink mux ac : Option Element) (linked : Bool) : Result PlaybackCtx :=
  match sink, mux, ac with
  | none, _, _ => .error .invalidPointer
  | _, none, _ => .error (.gError "Couldn't create mixer".toList)
  | _, _, none => .error (.gError "Couldn't link mux".toList)
  | some sink, some mux, some ac =>
    if linked then .ok (newPlaybackCtx sink mux ac)
    else .error (.gError "Couldn't link mux".toList)

def freeSources (stateChange : SourceItem → GstStateChangeReturn) :
    List SourceItem → PlaybackCtx → Result PlaybackCtx
  | [], ctx => .ok ctx
  | item :: iter, ctx => do
    let pipeline ← sourceFreeAndUnlink item (stateChange item) ctx.pipeline ctx.mux
    freeSources stateChange iter { ctx with pipeline, freed := ctx.freed ++ [item] }

def opPlaybackFree (stateChange : SourceItem → GstStateChangeReturn) (ctx : PlaybackCtx) :
    Result PlaybackCtx := do
  let ctx ← freeSources stateChange ctx.sources ctx
  return { ctx with pipeline := ctx.pipeline.gstBinSetState .ready, sources := [] }

inductive PlaybackEvent
  | play (uri : Text) (calls : PlayCalls)
  | stop (param : Text) (stateChange : GstStateChangeReturn)
  | padAdded (source : SourceItem) (pad : Nat) (caps : Caps)

def padAdded (accepts : Caps → Bool) (source : SourceItem) (pad : Nat) (caps : Caps)
    (ctx : PlaybackCtx) : Result PlaybackCtx :=
  match source.element with
  | none => .ok ctx
  | some e => do
    let g := ctx.pipeline.announce ⟨e, .sometimes pad⟩ caps
    let pipeline ← onNewSourcePadLink accepts source.element source.ac g
    return { ctx with pipeline }

def playbackStep (accepts : Caps → Bool) (ctx : PlaybackCtx) : PlaybackEvent → Result PlaybackCtx
  | .play uri calls => (opPlayParse uri calls ctx).map Prod.snd
  | .stop param stateChange => (opStopParse param stateChange ctx).map Prod.snd
  | .padAdded source pad caps => padAdded accepts source pad caps ctx

/-- Live items have distinct addresses, and only live sources show pads: a
removed element has lost its last reference. -/
def AllocatorAnswers (ctx : PlaybackCtx) : PlaybackEvent → Prop
  | .play _ calls => ∀ item ∈ ctx.sources, item.address ≠ calls.item
  | .stop _ _ => True
  | .padAdded source _ _ => source ∈ ctx.sources

def NewElement (g : Graph) (e : Element) : Prop :=
  e ∉ g.children ∧ ∀ name, g.wiring.peer ⟨e, name⟩ = none

def NewPad (g : Graph) (p : Pad) : Prop :=
  p ∉ g.requestPads ∧ (∀ caps, (p, caps) ∉ g.announced) ∧ g.wiring.peer p = none

/-- Whatever PLAY is given by the factories and by the mux is new. -/
def GstreamerAnswers (ctx : PlaybackCtx) : PlaybackEvent → Prop
  | .play _ calls =>
    (∀ e ∈ calls.element, NewElement ctx.pipeline e ∧ e ∉ calls.ac) ∧
      (∀ a ∈ calls.ac, NewElement ctx.pipeline a) ∧
      ∀ n ∈ calls.muxPad, NewPad ctx.pipeline ⟨ctx.mux, .request n⟩
  | .stop _ _ => True
  | .padAdded source pad _ =>
    ∃ e, source.element = some e ∧ NewPad ctx.pipeline ⟨e, .sometimes pad⟩

def CallsSucceed (calls : PlayCalls) : Prop :=
  calls.element ≠ none ∧ calls.ac ≠ none ∧ calls.muxPad ≠ none

def playbackMachine (accepts : Caps → Bool) : Machine PlaybackCtx PlaybackEvent Halt where
  step := playbackStep accepts
  allowed := AllocatorAnswers

def gstreamerMachine (accepts : Caps → Bool) : Machine PlaybackCtx PlaybackEvent Halt where
  step := playbackStep accepts
  allowed ctx e := AllocatorAnswers ctx e ∧ GstreamerAnswers ctx e

/-- The NULL check of `op_play_parse` never fires: PLAY aborts or adds a source. -/
theorem opPlayParse_eq (uri : Text) (calls : PlayCalls) (ctx : PlaybackCtx) :
    opPlayParse uri calls ctx =
      if startAnswer calls = .failure then
        .error (.gError "Couldn't move element state to PLAYING".toList)
      else .ok (playerIdReply (sourceItemToId (playedItem uri calls)),
        { ctx with
          pipeline := playedGraph uri calls ctx.pipeline ctx.mux
          sources := playedItem uri calls :: ctx.sources }) := by
  by_cases h : startAnswer calls = .failure
  · simp only [opPlayParse, sourceNewAndLink, h, if_true]
    rfl
  · simp only [opPlayParse, sourceNewAndLink, h, if_false]
    rfl

theorem opStopParse_of_none {param : Text} {ctx : PlaybackCtx}
    (h : sourceItemFromId ctx.sources (stopId param) = none) (stateChange : GstStateChangeReturn) :
    opStopParse param stateChange ctx = .ok ("FAIL id is invalid".toList, ctx) := by
  simp only [opStopParse, h]
  rfl

theorem opStopParse_of_some {param : Text} {ctx : PlaybackCtx} {item : SourceItem}
    (h : sourceItemFromId ctx.sources (stopId param) = some item)
    (stateChange : GstStateChangeReturn) :
    opStopParse param stateChange ctx =
      if setStateReturn item.element stateChange = .failure then
        .error (.gError "Couldn't move element state to READY".toList)
      else .ok (playerIdReply (stopId param),
        { ctx with
          pipeline := removeSource item ctx.pipeline ctx.mux
          sources := gSlistRemove ctx.sources item
          freed := ctx.freed ++ [item] }) := by
  by_cases hf : setStateReturn item.element stateChange = .failure
  · simp only [opStopParse, h, sourceFreeAndUnlink, hf, if_true]
    rfl
  · simp only [opStopParse, h, sourceFreeAndUnlink, hf, if_false]
    rfl

variable {accepts : Caps → Bool} {ctx ctx₀ ctx' : PlaybackCtx} {es : List PlaybackEvent}

theorem reaches_playbackMachine (h : (gstreamerMachine accepts).Reaches ctx₀ es ctx) :
    (playbackMachine accepts).Reaches ctx₀ es ctx :=
  h.mono rfl fun _ _ hallow => hallow.1

variable (accepts)

theorem playbackStep_play_iff {uri : Text} {calls : PlayCalls} :
    playbackStep accepts ctx (.play uri calls) = .ok ctx' ↔
      startAnswer calls ≠ .failure ∧
        { ctx with
          pipeline := playedGraph uri calls ctx.pipeline ctx.mux
          sources := playedItem uri calls :: ctx.sources } = ctx' := by
  rw [playbackStep, opPlayParse_eq]
  by_cases h : startAnswer calls = .failure <;> simp [h, Except.map]

theorem playbackStep_stop_iff {param : Text} {stateChange : GstStateChangeReturn} :
    playbackStep accepts ctx (.stop param stateChange) = .ok ctx' ↔
      (sourceItemFromId ctx.sources (stopId param) = none ∧ ctx = ctx') ∨
      ∃ item, sourceItemFromId ctx.sources (stopId param) = some item ∧
        setStateReturn item.element stateChange ≠ .failure ∧
        { ctx with
          pipeline := removeSource item ctx.pipeline ctx.mux
          sources := gSlistRemove ctx.sources item
          freed := ctx.freed ++ [item] } = ctx' := by
  cases h : sourceItemFromId ctx.sources (stopId param) with
  | none => simp [playbackStep, opStopParse_of_none h, Except.map]
  | some item =>
    rw [playbackStep, opStopParse_of_some h]
    by_cases hf : setStateReturn item.element stateChange = .failure <;> simp [hf, Except.map]

variable {accepts}

theorem playbackStep_padAdded {source : SourceItem} {pad : Nat} {caps : Caps}
    (h : playbackStep accepts ctx (.padAdded source pad caps) = .ok ctx') :
    ∃ pipeline, { ctx with pipeline } = ctx' := by
  cases he : source.element with
  | none =>
    simp only [playbackStep, padAdded, he, Except.ok.injEq] at h
    exact ⟨ctx.pipeline, h⟩
  | some e =>
    cases hl : onNewSourcePadLink accepts (some e) source.ac
        (ctx.pipeline.announce ⟨e, .sometimes pad⟩ caps) with
    | error k => simp [playbackStep, padAdded, he, hl, bind, Except.bind] at h
    | ok g =>
      simp only [playbackStep, padAdded, he, hl, bind, Except.bind, pure, Except.pure,
        Except.ok.injEq] at h
      exact ⟨g, h⟩

end GstPlayd
