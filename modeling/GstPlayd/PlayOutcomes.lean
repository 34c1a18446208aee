import GstPlayd.SourceGraph

/-! What a PLAY leaves behind: when it is all or nothing, and which elements it
starts. -/

namespace GstPlayd

open ElementGraph ElementGraph.Graph StepMachine StepMachine.Machine

variable {accepts : Caps → Bool} {out : Output} {ports : List Port} {uri : Text} {calls : PlayCalls}
  {ctx ctx' after : PlaybackCtx} {es : List PlaybackEvent}

def FullyLinked (ctx : PlaybackCtx) (item : SourceItem) : Prop :=
  ∃ e a n, item.element = some e ∧ item.ac = some a ∧ e ∈ ctx.pipeline.children ∧
    a ∈ ctx.pipeline.children ∧ ⟨ctx.mux, .request n⟩ ∈ ctx.pipeline.requestPads ∧
    ctx.pipeline.wiring.peer ⟨a, .src⟩ = some ⟨ctx.mux, .request n⟩

/-- PLAY adds a fully linked source, or fails and leaves sources, elements and
request pads as they were. -/
def PlaysAtomically (uri : Text) (calls : PlayCalls) (ctx : PlaybackCtx) : Prop :=
  ∃ reply after, opPlayParse uri calls ctx = .ok (reply, after) ∧
    ((∃ item, reply = "OK player id: ".toList ++ fmtUnsigned (sourceItemToId item).toNat ∧
      item.uri = uri ∧ after.sources = item :: ctx.sources ∧ FullyLinked after item) ∨
    (reply = "FAIL Can't load source: ".toList ++ uri ∧ after.sources = ctx.sources ∧
      (∀ e, e ∈ after.pipeline.children ↔ e ∈ ctx.pipeline.children) ∧
      ∀ r, r ∈ after.pipeline.requestPads ↔ r ∈ ctx.pipeline.requestPads))

theorem playerIdReply_ne_cannot_load (id : UInt32) (uri : Text) :
    playerIdReply id ≠ "FAIL Can't load source: ".toList ++ uri := by
  intro h
  have hh : (playerIdReply id).head? = some 'F' := by rw [h]; rfl
  exact absurd (hh.symm.trans rfl : some 'F' = some 'O') (by decide)

theorem startAnswer_eq (he : calls.element ≠ none) : startAnswer calls = calls.stateChange := by
  simp [startAnswer, setStateReturn, he]

theorem fullyLinked_played (hnew : GstreamerAnswers ctx (.play uri calls)) :
    FullyLinked
      { ctx with
        pipeline := playedGraph uri calls ctx.pipeline ctx.mux
        sources := playedItem uri calls :: ctx.sources } (playedItem uri calls) ↔
      CallsSucceed calls := by
  obtain ⟨hchildren, hpads, _, _⟩ := playedGraph_fields uri calls ctx.pipeline ctx.mux
  have hpeer : ∀ x y, (playedGraph uri calls ctx.pipeline ctx.mux).wiring.peer x = some y ↔ _ :=
    fun x y => played_peer (fun a h => (hnew.2.1 a h).2 .src) (fun n h => (hnew.2.2 n h).2.2)
  constructor
  · intro hh
    obtain ⟨e, a, n, he, ha, _, _, _, hp⟩ := hh
    refine ⟨by simp [show calls.element = some e from he], by simp [show calls.ac = some a from ha], ?_⟩
    rcases (hpeer _ _).mp hp with hp | hw | hw
    · have hfree := (hnew.2.1 a ha).2 .src
      simp [hfree] at hp
    · cases hw with
      | toMux _ hn =>
        obtain ⟨_, _, hn⟩ := Option.bind_eq_some_iff.mp hn
        simp [hn]
    · cases hw
  · intro hh
    obtain ⟨he, ha, hn⟩ := hh
    obtain ⟨e, he⟩ := Option.ne_none_iff_exists'.mp he
    obtain ⟨a, ha⟩ := Option.ne_none_iff_exists'.mp ha
    obtain ⟨n, hn⟩ := Option.ne_none_iff_exists'.mp hn
    have hpad : (Port.played uri calls).pad = some n := by simp [Port.played, ha, hn]
    refine ⟨e, a, n, he, ha, ?_, ?_, ?_, (hpeer _ _).mpr (.inr (.inl (.toMux ha hpad)))⟩
    · simp [hchildren, SourceItem.elements, playedItem, he]
    · simp [hchildren, SourceItem.elements, playedItem, ha]
    · simp [hpads, Port.muxPad, hpad]

/-- PLAY is all or nothing exactly when nothing fails: no failure is rolled
back, and the failure reply is never sent. -/
theorem playsAtomically_iff (hnew : GstreamerAnswers ctx (.play uri calls)) :
    PlaysAtomically uri calls ctx ↔ CallsSucceed calls ∧ calls.stateChange ≠ .failure := by
  constructor
  · intro hh
    obtain ⟨reply, after, ho, hcase⟩ := hh
    rw [opPlayParse_eq] at ho
    split_ifs at ho with hs
    obtain ⟨rfl, rfl⟩ := Prod.mk.inj (Except.ok.inj ho)
    rcases hcase with ⟨item, _, _, hsrc, hl⟩ | ⟨hr, _⟩
    · obtain rfl := (List.cons.inj hsrc).1
      have hcalls := (fullyLinked_played hnew).mp hl
      exact ⟨hcalls, startAnswer_eq hcalls.1 ▸ hs⟩
    · exact absurd hr (playerIdReply_ne_cannot_load _ _)
  · intro hh
    obtain ⟨hcalls, hs⟩ := hh
    rw [← startAnswer_eq hcalls.1] at hs
    have hreply := opPlayParse_eq uri calls ctx
    rw [if_neg hs] at hreply
    refine ⟨_, _, hreply, .inl ⟨playedItem uri calls, rfl, rfl, rfl, ?_⟩⟩
    exact (fullyLinked_played hnew).mpr hcalls

theorem playsAtomically_iff_playC :
    ∃ ctx, (gstreamerMachine fun _ => true).Reaches exampleOutput.new [playA] ctx ∧ ctx.sources = [itemA] ∧
      PlaysAtomically itemC.uri (exampleCalls 0x2000 12 13 1) ctx := by
  obtain ⟨after, hr, -⟩ := @reaches_new_playA_playC fun _ => true
  have hsnoc : (gstreamerMachine fun _ => true).Reaches exampleOutput.new ([playA] ++ [playC]) after := hr
  obtain ⟨ctx, hplay, hstep⟩ := reaches_snoc_iff.mp hsnoc
  obtain rfl := hplay.unique reaches_new_playA
  refine ⟨_, hplay, rfl, (playsAtomically_iff hstep.1.2).mpr ⟨⟨?_, ?_, ?_⟩, ?_⟩⟩
  all_goals decide

/-- A refused state change aborts the daemon, and a source that could not be
made is answered with an id. -/
theorem play_not_atomic :
    opPlayParse itemA.uri { exampleCalls 0x1000 10 11 0 with stateChange := .failure } exampleOutput.new =
      .error (.gError "Couldn't move element state to PLAYING".toList) ∧
    ¬ PlaysAtomically itemA.uri { exampleCalls 0x1000 10 11 0 with stateChange := .failure }
      exampleOutput.new ∧
    ¬ PlaysAtomically itemA.uri { exampleCalls 0x1000 10 11 0 with element := none } exampleOutput.new := by
  have habort : opPlayParse itemA.uri { exampleCalls 0x1000 10 11 0 with stateChange := .failure }
      exampleOutput.new = .error (.gError "Couldn't move element state to PLAYING".toList) := by
    rw [opPlayParse_eq, if_pos (by decide)]
  refine ⟨habort, ?_, ?_⟩
  · intro hh
    obtain ⟨reply, after, ho, _⟩ := hh
    rw [habort] at ho
    cases ho
  · intro hh
    obtain ⟨reply, after, ho, hcase⟩ := hh
    rw [opPlayParse_eq, if_neg (by decide)] at ho
    obtain ⟨rfl, rfl⟩ := Prod.mk.inj (Except.ok.inj ho)
    rcases hcase with ⟨item, _, _, hsrc, e, _, _, he, _⟩ | ⟨hr, _⟩
    · obtain rfl := (List.cons.inj hsrc).1
      cases he
    · exact absurd hr (playerIdReply_ne_cannot_load _ _)

def Driven (ctx : PlaybackCtx) : Prop :=
  ∀ item ∈ ctx.sources, ∀ e ∈ item.elements, ctx.pipeline.state e = .playing

theorem startsPipeline_iff : startsPipeline calls = true ↔
    calls.pending ≠ .playing ∧ calls.current ≠ .playing := by
  simp [startsPipeline]

theorem playedGraph_state_pipeline (hs : startsPipeline calls = true) (g : Graph) (mux : Element) :
    ∀ e ∈ (playedGraph uri calls g mux).children, (playedGraph uri calls g mux).state e = .playing := by
  intro e he
  rw [playedGraph, if_pos hs] at he ⊢
  exact if_pos he

theorem playedGraph_state_element (hs : ¬ startsPipeline calls = true) (g : Graph) (mux : Element)
    (e : Element) : (playedGraph uri calls g mux).state e =
      if e ∈ calls.element then .playing else if e ∈ calls.ac then .null else g.state e := by
  rw [playedGraph, if_neg hs, gstElementSetState_state]
  by_cases he : e ∈ calls.element
  · rw [if_pos he, if_pos he]
  · rw [if_neg he, if_neg he]
    simp only [addSource, gstBinAdd_frame, gstElementLinkRequest_frame, gstElementFactoryMake_state,
      playedItem, if_neg he]

theorem removeSource_state (item : SourceItem) (g : Graph) (mux e : Element) :
    (removeSource item g mux).state e = if e ∈ item.element then .playing else g.state e := by
  simp [removeSource, gstElementSetState_state]

theorem padAdded_state {source : SourceItem} {pad : Nat} {caps : Caps}
    (h : padAdded accepts source pad caps ctx = .ok ctx') : ctx'.pipeline.state = ctx.pipeline.state := by
  cases he : source.element with
  | none =>
    simp only [padAdded, he, Except.ok.injEq] at h
    rw [h]
  | some e =>
    cases hl : (ctx.pipeline.announce ⟨e, .sometimes pad⟩ caps).gstElementLinkStatic accepts
        (some e) source.ac with
    | none => simp [padAdded, onNewSourcePadLink, he, hl, bind, Except.bind] at h
    | some g =>
      simp only [padAdded, onNewSourcePadLink, he, hl, bind, Except.bind, pure, Except.pure,
        Except.ok.injEq] at h
      rw [← h]
      exact (gstElementLinkStatic_state hl).trans rfl

theorem driven_step {e : PlaybackEvent} (hr : Realizes out ports ctx) (hd : Driven ctx)
    (hs : (gstreamerMachine accepts).Steps ctx e ctx')
    (hcalls : ∀ uri calls, e = .play uri calls → startsPipeline calls = true ∨ calls.ac = none) :
    Driven ctx' := by
  have hchild : ∀ item ∈ ctx.sources, ∀ e ∈ item.elements, e ∈ ctx.pipeline.children := by
    intro item hi e he
    obtain ⟨p, hp, rfl⟩ := hr.exists_port hi
    exact hr.children.symm.subset (List.mem_append_right _ (List.mem_flatMap.mpr ⟨p, hp, he⟩))
  obtain ⟨⟨hallow, hnew⟩, (hstep : playbackStep accepts ctx e = .ok ctx')⟩ := hs
  cases e with
  | play uri calls =>
    obtain ⟨_, rfl⟩ := (playbackStep_play_iff accepts).mp hstep
    have hchildren := (playedGraph_fields uri calls ctx.pipeline ctx.mux).1
    by_cases hs : startsPipeline calls = true
    · intro item hi e he
      refine playedGraph_state_pipeline hs ctx.pipeline ctx.mux e ?_
      rw [hchildren, List.mem_append]
      rcases List.mem_cons.mp hi with rfl | hi
      · exact .inl he
      · exact .inr (hchild item hi e he)
    · have hac : calls.ac = none := (hcalls uri calls rfl).resolve_left hs
      intro item hi e he
      change (playedGraph uri calls ctx.pipeline ctx.mux).state e = .playing
      rw [playedGraph_state_element hs, hac]
      rcases List.mem_cons.mp hi with rfl | hi
      · simp_all [SourceItem.elements, playedItem]
      · simp [hd item hi e he]
  | stop param stateChange =>
    rcases (playbackStep_stop_iff accepts).mp hstep with ⟨_, rfl⟩ | ⟨item, hf, _, rfl⟩
    · exact hd
    · intro x hx e he
      change (removeSource item ctx.pipeline ctx.mux).state e = .playing
      rw [removeSource_state, hd x (List.mem_of_mem_eraseP hx) e he, ite_self]
  | padAdded source pad caps =>
    have hst := padAdded_state hstep
    obtain ⟨pipeline, rfl⟩ := playbackStep_padAdded hstep
    intro item hi e he
    rw [hst]
    exact hd item hi e he

theorem driven_of_reaches (h : (gstreamerMachine accepts).Reaches out.new es ctx)
    (hcalls : ∀ uri calls, .play uri calls ∈ es → startsPipeline calls = true ∨ calls.ac = none) :
    Driven ctx := by
  refine h.history (P := fun es ctx => (∀ uri calls, .play uri calls ∈ es →
    startsPipeline calls = true ∨ calls.ac = none) → Driven ctx) ?_ ?_ hcalls
  · intro _ item hi
    simp [Output.new, newPlaybackCtx] at hi
  · intro pre s e t hr ih hs hcalls
    refine driven_step (realizes_of_reaches hr) (ih fun uri calls hm => hcalls uri calls (by simp [hm])) hs ?_
    rintro uri calls rfl
    exact hcalls uri calls (by simp)

/-- After every PLAY of a run all elements of the live sources were started,
exactly if the pipeline was never playing or about to when a PLAY that makes a
converter came. -/
theorem driven_after_play_iff (h : (gstreamerMachine accepts).Reaches out.new es ctx) :
    (∀ pre uri calls post t, es = pre ++ .play uri calls :: post →
      (gstreamerMachine accepts).Reaches out.new (pre ++ [.play uri calls]) t → Driven t) ↔
    ∀ uri calls, .play uri calls ∈ es →
      (calls.pending ≠ .playing ∧ calls.current ≠ .playing) ∨ calls.ac = none := by
  simp only [← startsPipeline_iff]
  constructor
  · intro hall uri calls hm
    by_contra hno
    obtain ⟨hs, hac⟩ := not_or.mp hno
    obtain ⟨a, ha⟩ := Option.ne_none_iff_exists'.mp hac
    obtain ⟨pre, post, rfl⟩ := List.append_of_mem hm
    obtain ⟨s, hr, hrest⟩ := reaches_append_iff.mp h
    obtain ⟨t, hstep, _⟩ := reaches_cons_iff.mp hrest
    have hd := hall pre uri calls post t rfl (reaches_snoc_iff.mpr ⟨s, hr, hstep⟩)
    obtain ⟨⟨_, hnew⟩, (hp : playbackStep accepts s (.play uri calls) = .ok t)⟩ := hstep
    obtain ⟨_, rfl⟩ := (playbackStep_play_iff accepts).mp hp
    have hst := hd (playedItem uri calls) (by simp) a (by simp [SourceItem.elements, playedItem, ha])
    have hne : a ∉ calls.element := fun he => (hnew.1 a he).2 ha
    change (playedGraph uri calls s.pipeline s.mux).state a = .playing at hst
    rw [playedGraph_state_element hs, if_neg hne, if_pos (Option.mem_def.mpr ha)] at hst
    cases hst
  · rintro hcalls pre uri calls post t rfl hr
    refine driven_of_reaches hr fun uri calls hm => hcalls uri calls ?_
    rw [← List.singleton_append, ← List.append_assoc]
    exact List.mem_append_left _ hm

def playLater : PlaybackEvent :=
  .play "file:///b.mp3".toList { exampleCalls 0x2000 12 13 1 with current := .playing }

theorem driven_after_playA_playC :
    ∃ ctx after, (gstreamerMachine fun _ => true).Reaches exampleOutput.new [playA, playC] ctx ∧
      ctx.sources = [itemC, itemA] ∧ Driven ctx ∧
      (gstreamerMachine fun _ => true).Reaches exampleOutput.new [playA, playC, stopA] after ∧
      after.sources = [itemC] := by
  obtain ⟨ctx, hr, hs⟩ := @reaches_new_playA_playC fun _ => true
  obtain ⟨after, hstop, hafter⟩ := @reaches_new_playA_playC_stopA fun _ => true
  have hcalls : ∀ uri calls, .play uri calls ∈ [playA, playC, stopA] →
      (calls.pending ≠ .playing ∧ calls.current ≠ .playing) ∨ calls.ac = none := by
    intro uri calls hm
    left
    rcases calls_of_mem_two_plays hm with rfl | rfl
    · exact ⟨by decide, by decide⟩
    · exact ⟨by decide, by decide⟩
  have hdriven := (driven_after_play_iff hstop).mpr hcalls [playA] _ _ [stopA] ctx rfl hr
  exact ⟨ctx, after, hr, hs, hdriven, hstop, hafter⟩

/-- The converter of a source that is added to a playing pipeline stays in its
NULL state. -/
theorem second_converter_not_started :
    ∃ ctx, (gstreamerMachine fun _ => true).Reaches exampleOutput.new [playA, playLater] ctx ∧
      ¬ Driven ctx := by
  refine ⟨_, reaches_new_play reaches_new_playA (by decide) (by decide) (by decide) (by decide) (by decide), ?_⟩
  intro hd
  have hst := hd _ (List.mem_cons_self ..) 13 (by decide)
  revert hst
  decide

end GstPlayd
