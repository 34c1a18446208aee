import GstPlayd.SourceGraph

/-! The state that an element is in when it leaves the pipeline, at STOP and
when the playback context is freed. -/

namespace GstPlayd

open ElementGraph ElementGraph.Graph StepMachine StepMachine.Machine

variable {accepts : Caps → Bool} {out : Output} {ports : List Port} {item : SourceItem} {g : Graph}
  {mux e : Element} {ctx : PlaybackCtx} {es : List PlaybackEvent}
  {answers : SourceItem → GstStateChangeReturn}

def stateLevel : GstState → Nat
  | .voidPending => 0
  | .null => 1
  | .ready => 2
  | .paused => 3
  | .playing => 4

abbrev Removal := Element × GstState

def AtRest (r : Removal) : Prop := stateLevel r.2 ≤ stateLevel .ready

/-- What `gst_bin_remove` takes out of the bin, and the state that it is in. -/
def binRemovals (g : Graph) (e : Option Element) : List Removal :=
  (e.toList.filter (· ∈ g.children)).map fun e => (e, g.state e)

/-- The graph of `source_free_and_unlink` before its two removals. -/
def detachSource (item : SourceItem) (g : Graph) (mux : Element) : Graph :=
  let g := g.gstElementSetState .playing item.element
  let muxSink := g.gstPadGetPeer (gstElementGetStaticPad item.ac .src)
  let g := (g.gstElementUnlink item.element item.ac).gstElementUnlink item.ac (some mux)
  g.gstElementReleaseRequestPad muxSink

def sourceRemovals (item : SourceItem) (g : Graph) (mux : Element) : List Removal :=
  let g := detachSource item g mux
  binRemovals g item.element ++ binRemovals (g.gstBinRemove item.element) item.ac

def stepRemovals (ctx : PlaybackCtx) : PlaybackEvent → List Removal
  | .stop param stateChange =>
    match sourceItemFromId ctx.sources (stopId param) with
    | none => []
    | some item =>
      if setStateReturn item.element stateChange = .failure then []
      else sourceRemovals item ctx.pipeline ctx.mux
  | _ => []

/-- The removals of `op_playback_free`, up to the state change that is refused
if one is. -/
def freeRemovals (answers : SourceItem → GstStateChangeReturn) (mux : Element) :
    List SourceItem → Graph → List Removal
  | [], _ => []
  | item :: iter, g =>
    if setStateReturn item.element (answers item) = .failure then []
    else sourceRemovals item g mux ++ freeRemovals answers mux iter (removeSource item g mux)

/-- In a run that ends with `op_playback_free`, elements leave the pipeline in
READY or lower. -/
def RemovedAtRest (accepts : Caps → Bool) (out : Output) (es : List PlaybackEvent) (ctx : PlaybackCtx)
    (answers : SourceItem → GstStateChangeReturn) : Prop :=
  (∀ pre e post s, es = pre ++ e :: post → (gstreamerMachine accepts).Reaches out.new pre s →
    ∀ r ∈ stepRemovals s e, AtRest r) ∧
  ∀ r ∈ freeRemovals answers ctx.mux ctx.sources ctx.pipeline, AtRest r

theorem gstBinRemove_children_removals (g : Graph) (e : Option Element) :
    (g.gstBinRemove e).children = g.children.diff ((binRemovals g e).map Prod.fst) := by
  cases e with
  | none => simp [gstBinRemove, binRemovals]
  | some e =>
    by_cases he : e ∈ g.children
    · simp [gstBinRemove, binRemovals, he]
    · simp [gstBinRemove, binRemovals, he]

theorem removeSource_children_removals (item : SourceItem) (g : Graph) (mux : Element) :
    (removeSource item g mux).children =
      g.children.diff ((sourceRemovals item g mux).map Prod.fst) := by
  have hdetach : (detachSource item g mux).children = g.children := by simp [detachSource]
  have hremove : removeSource item g mux =
    ((detachSource item g mux).gstBinRemove item.element).gstBinRemove item.ac := rfl
  rw [hremove, gstBinRemove_children_removals, gstBinRemove_children_removals, hdetach,
    sourceRemovals, List.map_append, List.diff_append]

theorem mem_sourceRemovals_element (he : item.element = some e) (hm : e ∈ g.children) :
    (e, .playing) ∈ sourceRemovals item g mux := by
  have hchildren : (detachSource item g mux).children = g.children := by simp [detachSource]
  have hstate : (detachSource item g mux).state e = .playing := by
    simp [detachSource, gstElementSetState_state, he]
  refine List.mem_append_left _ ?_
  simp [binRemovals, he, hchildren, hm, hstate]

theorem removed_playing (h : Realizes out ports ctx) (hi : item ∈ ctx.sources) {answer : GstStateChangeReturn}
    (hs : setStateReturn item.element answer ≠ .failure) :
    ∃ r ∈ sourceRemovals item ctx.pipeline ctx.mux, ¬ AtRest r := by
  obtain ⟨e, he⟩ : ∃ e, item.element = some e := by
    apply Option.ne_none_iff_exists'.mp
    intro hn
    simp [setStateReturn, hn] at hs
  obtain ⟨p, hp, rfl⟩ := h.exists_port hi
  have hchild : e ∈ ctx.pipeline.children := by
    refine h.children.symm.subset (List.mem_append_right _ (List.mem_flatMap.mpr ⟨p, hp, ?_⟩))
    simp [SourceItem.elements, he]
  exact ⟨(e, .playing), mem_sourceRemovals_element he hchild, by simp [AtRest, stateLevel]⟩

/-- No STOP finds a source, and the first source that is left is refused its
state change. -/
def RemovesNothing (accepts : Caps → Bool) (out : Output) (es : List PlaybackEvent) (ctx : PlaybackCtx)
    (answers : SourceItem → GstStateChangeReturn) : Prop :=
  (∀ pre param stateChange post s, es = pre ++ .stop param stateChange :: post →
    (gstreamerMachine accepts).Reaches out.new pre s → sourceItemFromId s.sources (stopId param) = none) ∧
  ∀ item ∈ ctx.sources.head?, setStateReturn item.element (answers item) = .failure

/-- The state change that is to make a source READY makes it PLAYING, so
elements leave at rest exactly in the runs in which none leaves. -/
theorem removedAtRest_iff (h : (gstreamerMachine accepts).Reaches out.new es ctx)
    (answers : SourceItem → GstStateChangeReturn) :
    RemovedAtRest accepts out es ctx answers ↔ RemovesNothing accepts out es ctx answers := by
  constructor
  · intro hh
    obtain ⟨hrun, hfree⟩ := hh
    constructor
    · intro pre param stateChange post s hes hr
      subst hes
      by_contra hn
      obtain ⟨item, hf⟩ := Option.ne_none_iff_exists'.mp hn
      obtain ⟨c, hc, hrest⟩ := reaches_append_iff.mp h
      obtain rfl := hr.unique hc
      obtain ⟨t, hstep, -⟩ := reaches_cons_iff.mp hrest
      have hstop : playbackStep accepts s (.stop param stateChange) = .ok t := hstep.2
      rcases (playbackStep_stop_iff accepts).mp hstop with ⟨hnone, -⟩ | ⟨item', hf', hs, -⟩
      · exact hn hnone
      · obtain rfl := Option.some.inj (hf.symm.trans hf')
        obtain ⟨r, hm, hr'⟩ := removed_playing (realizes_of_reaches hr) (List.mem_of_find?_eq_some hf) hs
        refine hr' (hrun pre _ post s rfl hr r ?_)
        simpa only [stepRemovals, hf, hs, if_false] using hm
    · intro item hi
      by_contra hs
      obtain ⟨rest, hsrc⟩ := List.head?_eq_some_iff.mp hi
      have hlive : item ∈ ctx.sources := hsrc ▸ List.mem_cons_self
      obtain ⟨r, hm, hr'⟩ := removed_playing (realizes_of_reaches h) hlive hs
      refine hr' (hfree r ?_)
      rw [hsrc, freeRemovals, if_neg hs]
      exact List.mem_append_left _ hm
  · intro hh
    obtain ⟨hrun, hfree⟩ := hh
    constructor
    · intro pre e post s hes hr r hm
      cases e with
      | play uri calls => simp [stepRemovals] at hm
      | padAdded source pad caps => simp [stepRemovals] at hm
      | stop param stateChange => simp [stepRemovals, hrun pre param stateChange post s hes hr] at hm
    · intro r hm
      cases hsrc : ctx.sources with
      | nil => simp [hsrc, freeRemovals] at hm
      | cons item rest => simp [hsrc, freeRemovals, hfree item (by simp [hsrc])] at hm

theorem sources_ne_nil_of_play (h : (gstreamerMachine accepts).Reaches out.new es ctx)
    (hstops : ∀ pre param stateChange post s, es = pre ++ .stop param stateChange :: post →
      (gstreamerMachine accepts).Reaches out.new pre s → sourceItemFromId s.sources (stopId param) = none)
    {uri : Text} {calls : PlayCalls} (hm : .play uri calls ∈ es) : ctx.sources ≠ [] := by
  revert hstops uri calls
  refine h.history (P := fun es ctx => (∀ pre param stateChange post s,
    es = pre ++ .stop param stateChange :: post → (gstreamerMachine accepts).Reaches out.new pre s →
      sourceItemFromId s.sources (stopId param) = none) →
    ∀ {uri calls}, .play uri calls ∈ es → ctx.sources ≠ []) ?_ ?_
  · simp
  · intro pre s e t hr ih hstep hstops uri calls hm
    have hpre := @ih fun pre' param stateChange post s' hes =>
      hstops pre' param stateChange (post ++ [e]) s' (by simp [hes])
    have hok : playbackStep accepts s e = .ok t := hstep.2
    cases e with
    | play uri' calls' =>
      obtain ⟨-, rfl⟩ := (playbackStep_play_iff accepts).mp hok
      exact List.cons_ne_nil _ _
    | stop param stateChange =>
      have hnone := hstops pre param stateChange [] s rfl hr
      rcases (playbackStep_stop_iff accepts).mp hok with ⟨-, rfl⟩ | ⟨item, hf, -, -⟩
      · exact hpre (by simpa using hm)
      · rw [hnone] at hf
        cases hf
    | padAdded source pad caps =>
      obtain ⟨pipeline, rfl⟩ := playbackStep_padAdded hok
      exact hpre (by simpa using hm)

theorem sources_eq_nil_of_no_play (h : (gstreamerMachine accepts).Reaches out.new es ctx)
    (hno : ∀ uri calls, .play uri calls ∉ es) : ctx.sources = [] := by
  have hissued : (history es).issued = [] := by
    rw [history_issued, List.filterMap_eq_nil_iff]
    intro e he
    cases e with
    | play uri calls => exact absurd he (hno uri calls)
    | stop param stateChange => rfl
    | padAdded source pad caps => rfl
  have hperm := freed_sources_perm_issued (reaches_playbackMachine h)
  rw [hissued] at hperm
  exact (List.append_eq_nil_iff.mp hperm.eq_nil).2

/-- A run that ends with a full `op_playback_free` removes nothing exactly if
nothing was ever played. -/
theorem removesNothing_iff_no_play {after : PlaybackCtx}
    (h : (gstreamerMachine accepts).Reaches out.new es ctx) (hfree : opPlaybackFree answers ctx = .ok after) :
    RemovesNothing accepts out es ctx answers ↔ ∀ uri calls, .play uri calls ∉ es := by
  have hhead : (∀ item ∈ ctx.sources.head?, setStateReturn item.element (answers item) = .failure) ↔
      ctx.sources = [] := by
    cases hsrc : ctx.sources with
    | nil => simp
    | cons item rest =>
      have hs : setStateReturn item.element (answers item) ≠ .failure := by
        cases hf : freeSources answers ctx.sources ctx with
        | error k => simp [opPlaybackFree, hf, bind, Except.bind] at hfree
        | ok ctx' => exact (freeSources_iff.mp hf).1 item (by simp [hsrc])
      simp [hs]
  constructor
  · intro hh uri calls hm
    exact sources_ne_nil_of_play h hh.1 hm (hhead.mp hh.2)
  · intro hno
    refine ⟨?_, hhead.mpr (sources_eq_nil_of_no_play h hno)⟩
    intro pre param stateChange post s hes hr
    rw [sources_eq_nil_of_no_play hr fun uri calls hm => hno uri calls (by simp [hes, hm])]
    rfl

theorem removedAtRest_iff_playA :
    ∃ ctx, (gstreamerMachine fun _ => true).Reaches exampleOutput.new [playA] ctx ∧
      ¬ RemovedAtRest (fun _ => true) exampleOutput [playA] ctx fun _ => .success := by
  refine ⟨_, reaches_new_playA, fun hrest => ?_⟩
  have hnothing := (removedAtRest_iff (@reaches_new_playA fun _ => true) fun _ => .success).mp hrest
  exact absurd (hnothing.2 itemA rfl) (by decide)

/-- PLAY and then STOP with the id from its reply: the decoder is removed while
it plays. -/
theorem stop_removes_playing_source :
    ∃ ctx, (gstreamerMachine fun _ => true).Reaches exampleOutput.new [playA, stopA] ctx ∧
      ¬ RemovedAtRest (fun _ => true) exampleOutput [playA, stopA] ctx fun _ => .success := by
  have hf : sourceItemFromId [itemA] (stopId (fmtUnsigned (sourceItemToId itemA).toNat)) = some itemA := by
    rw [stopId_fmtUnsigned]
    exact @sourceItemFromId_first [] [] itemA _ (by simp) rfl
  have hplay := @reaches_new_playA fun _ => true
  refine ⟨_, reaches_new_stop hplay hf (by decide), fun hrest => ?_⟩
  have hm : (10, .playing) ∈ sourceRemovals itemA
      (playedGraph itemA.uri (exampleCalls 0x1000 10 11 0) exampleOutput.new.pipeline 2) 2 :=
    mem_sourceRemovals_element rfl (by decide)
  have hatRest := hrest.1 [playA] stopA [] _ rfl hplay (10, .playing) (by
    simp only [stopA, stepRemovals, hf]
    exact hm)
  exact absurd hatRest (by simp [AtRest, stateLevel])

end GstPlayd
