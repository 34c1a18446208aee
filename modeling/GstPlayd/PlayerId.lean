import GstPlayd.PlayHistory

/-! Player ids over whole runs: what a STOP does for every parameter, when ids
tell live sources apart, and what an id means after its source is gone. -/

namespace GstPlayd

open ElementGraph StepMachine StepMachine.Machine

variable {accepts : Caps → Bool} {ctx : PlaybackCtx} {es : List PlaybackEvent}
  {sink mux ac : Element}

def exampleCalls (item : UInt64) (e a : Element) (n : Nat) : PlayCalls :=
  ⟨item, 1350000000, some e, some a, some n, .null, .voidPending, .success⟩

def playA : PlaybackEvent := .play "file:///a.mp3".toList (exampleCalls 0x1000 10 11 0)

def itemA : SourceItem := playedItem "file:///a.mp3".toList (exampleCalls 0x1000 10 11 0)

/-- A second source whose text hashes like that of the first. -/
def playB : PlaybackEvent := .play "file:///j8wbbun.mp3".toList (exampleCalls 0x2000 12 13 1)

def itemB : SourceItem := playedItem "file:///j8wbbun.mp3".toList (exampleCalls 0x2000 12 13 1)

def playC : PlaybackEvent := .play "file:///c.mp3".toList (exampleCalls 0x2000 12 13 1)

def itemC : SourceItem := playedItem "file:///c.mp3".toList (exampleCalls 0x2000 12 13 1)

theorem reaches_play {ctx₀ : PlaybackCtx} {uri : Text} {calls : PlayCalls}
    (h : (playbackMachine accepts).Reaches ctx₀ es ctx)
    (hnew : ∀ item ∈ ctx.sources, item.address ≠ calls.item) (hs : startAnswer calls ≠ .failure) :
    (playbackMachine accepts).Reaches ctx₀ (es ++ [.play uri calls])
      { ctx with
        pipeline := playedGraph uri calls ctx.pipeline ctx.mux
        sources := playedItem uri calls :: ctx.sources } :=
  reaches_snoc_iff.mpr ⟨ctx, h, hnew, (playbackStep_play_iff accepts).mpr ⟨hs, rfl⟩⟩

theorem reaches_stop {ctx₀ : PlaybackCtx} {param : Text} {stateChange : GstStateChangeReturn}
    {item : SourceItem} (h : (playbackMachine accepts).Reaches ctx₀ es ctx)
    (hf : sourceItemFromId ctx.sources (stopId param) = some item)
    (hs : setStateReturn item.element stateChange ≠ .failure) :
    (playbackMachine accepts).Reaches ctx₀ (es ++ [.stop param stateChange])
      { ctx with
        pipeline := removeSource item ctx.pipeline ctx.mux
        sources := gSlistRemove ctx.sources item
        freed := ctx.freed ++ [item] } :=
  reaches_snoc_iff.mpr ⟨ctx, h, trivial, (playbackStep_stop_iff accepts).mpr (.inr ⟨item, hf, hs, rfl⟩)⟩

theorem opStopParse_first (param : Text) (hd : (ctx.sources.map SourceItem.address).Nodup)
    {stateChange : GstStateChangeReturn} {newer older : List SourceItem} {item : SourceItem}
    (hs : ctx.sources = newer ++ item :: older) (hnew : ∀ x ∈ newer, sourceItemToId x ≠ stopId param)
    (hid : sourceItemToId item = stopId param)
    (hsc : setStateReturn item.element stateChange ≠ .failure) :
    ∃ after, opStopParse param stateChange ctx = .ok (playerIdReply (stopId param), after) ∧
      after.sources = newer ++ older := by
  have hf : sourceItemFromId ctx.sources (stopId param) = some item := by
    rw [hs]
    exact sourceItemFromId_first hnew hid
  rw [opStopParse_of_some hf, if_neg hsc]
  refine ⟨_, rfl, ?_⟩
  rw [hs] at hd
  simp only [hs, gSlistRemove_middle hd]

theorem opStopParse_printed {id : UInt32} (hd : (ctx.sources.map SourceItem.address).Nodup)
    {stateChange : GstStateChangeReturn} {newer older : List SourceItem} {item : SourceItem}
    (hs : ctx.sources = newer ++ item :: older) (hnew : ∀ x ∈ newer, sourceItemToId x ≠ id)
    (hid : sourceItemToId item = id) (hsc : setStateReturn item.element stateChange ≠ .failure) :
    ∃ after, opStopParse (fmtUnsigned id.toNat) stateChange ctx = .ok (playerIdReply id, after) ∧
      after.sources = newer ++ older := by
  have hstop := stopId_fmtUnsigned id
  have hh := opStopParse_first (fmtUnsigned id.toNat) hd hs (by simpa only [hstop] using hnew)
    (hid.trans hstop.symm) hsc
  simpa only [hstop] using hh

theorem playerIdReply_ne_fail (id : UInt32) : playerIdReply id ≠ "FAIL id is invalid".toList := by
  intro h
  have hok : (playerIdReply id).head? = some 'O' := rfl
  rw [h] at hok
  exact absurd hok (by decide)

theorem opStopParse_ok_iff {param : Text} {stateChange : GstStateChangeReturn}
    (hsc : ∀ item ∈ sourceItemFromId ctx.sources (stopId param),
      setStateReturn item.element stateChange ≠ .failure) :
    (∃ after, opStopParse param stateChange ctx = .ok (playerIdReply (stopId param), after)) ↔
      ∃ item ∈ ctx.sources, sourceItemToId item = stopId param := by
  cases hf : sourceItemFromId ctx.sources (stopId param) with
  | none =>
    have hno := sourceItemFromId_eq_none_iff.mp hf
    rw [opStopParse_of_none hf]
    constructor
    · intro hh
      obtain ⟨after, h⟩ := hh
      exact absurd (Prod.mk.inj (Except.ok.inj h)).1.symm (playerIdReply_ne_fail _)
    · intro hh
      obtain ⟨item, hi, hid⟩ := hh
      exact absurd hid (hno item hi)
  | some item =>
    have hi : item ∈ ctx.sources := List.mem_of_find?_eq_some hf
    have hid : sourceItemToId item = stopId param := by
      simpa using List.find?_some hf
    rw [opStopParse_of_some hf, if_neg (hsc item (by simp [hf]))]
    exact ⟨fun _ => ⟨item, hi, hid⟩, fun _ => ⟨_, rfl⟩⟩

theorem opStopParse_reply {param reply : Text} {stateChange : GstStateChangeReturn} {after : PlaybackCtx}
    (h : opStopParse param stateChange ctx = .ok (reply, after)) :
    (reply = playerIdReply (stopId param) ∧ ∃ item ∈ ctx.sources, sourceItemToId item = stopId param) ∨
    (reply = "FAIL id is invalid".toList ∧ after = ctx ∧
      ∀ item ∈ ctx.sources, sourceItemToId item ≠ stopId param) := by
  cases hf : sourceItemFromId ctx.sources (stopId param) with
  | none =>
    rw [opStopParse_of_none hf] at h
    obtain ⟨rfl, rfl⟩ := Prod.mk.inj (Except.ok.inj h)
    exact .inr ⟨rfl, rfl, sourceItemFromId_eq_none_iff.mp hf⟩
  | some item =>
    rw [opStopParse_of_some hf] at h
    split_ifs at h
    obtain ⟨rfl, -⟩ := Prod.mk.inj (Except.ok.inj h)
    have hid : sourceItemToId item = stopId param := by simpa using List.find?_some hf
    exact .inl ⟨rfl, item, List.mem_of_find?_eq_some hf, hid⟩

theorem opStopParse_invalid {param : Text} {stateChange : GstStateChangeReturn} :
    (∃ after, opStopParse param stateChange ctx = .ok ("FAIL id is invalid".toList, after)) ↔
      ∀ item ∈ ctx.sources, sourceItemToId item ≠ stopId param := by
  constructor
  · intro hh
    obtain ⟨after, ho⟩ := hh
    rcases opStopParse_reply ho with ⟨hr, _⟩ | ⟨_, _, hno⟩
    · exact absurd hr.symm (playerIdReply_ne_fail _)
    · exact hno
  · intro hno
    exact ⟨ctx, opStopParse_of_none (sourceItemFromId_eq_none_iff.mpr hno) stateChange⟩

theorem Follows.nodup {r : Registry SourceItem} (h : Follows ctx r) : ctx.sources.Nodup :=
  h.distinct.of_map _

/-- The element of the newest live item with the id that the parameter denotes
cannot change its state. -/
def StopRefused (ctx : PlaybackCtx) (param : Text) (stateChange : GstStateChangeReturn) : Prop :=
  ∃ newer item older, ctx.sources = newer ++ item :: older ∧
    (∀ x ∈ newer, sourceItemToId x ≠ stopId param) ∧ sourceItemToId item = stopId param ∧
    (item.element = none ∨ stateChange = .failure)

theorem setStateReturn_eq_failure_iff {e : Option Element} {answer : GstStateChangeReturn} :
    setStateReturn e answer = .failure ↔ e = none ∨ answer = .failure := by
  by_cases he : e = none
  · simp [setStateReturn, he]
  · simp [setStateReturn, he]

theorem setStateReturn_ne_failure {e : Option Element} {answer : GstStateChangeReturn} (he : e ≠ none)
    (ha : answer ≠ .failure) : setStateReturn e answer ≠ .failure := by
  rw [Ne, setStateReturn_eq_failure_iff, not_or]
  exact ⟨he, ha⟩

theorem stopRefused_iff {param : Text} {stateChange : GstStateChangeReturn} :
    StopRefused ctx param stateChange ↔ ∃ item, sourceItemFromId ctx.sources (stopId param) = some item ∧
      setStateReturn item.element stateChange = .failure := by
  constructor
  · intro hh
    obtain ⟨newer, item, older, hs, hnew, hid, hrefused⟩ := hh
    exact ⟨item, hs ▸ sourceItemFromId_first hnew hid, setStateReturn_eq_failure_iff.mpr hrefused⟩
  · intro hh
    obtain ⟨item, hf, hrefused⟩ := hh
    obtain ⟨hid, newer, older, hs, hnew⟩ := List.find?_eq_some_iff_append.mp hf
    refine ⟨newer, item, older, hs, ?_, by simpa using hid, setStateReturn_eq_failure_iff.mp hrefused⟩
    intro x hx
    simpa using hnew x hx

theorem opStopParse_error_iff {param : Text} {stateChange : GstStateChangeReturn} :
    opStopParse param stateChange ctx = .error (.gError "Couldn't move element state to READY".toList) ↔
      StopRefused ctx param stateChange := by
  rw [stopRefused_iff]
  cases hf : sourceItemFromId ctx.sources (stopId param) with
  | none => simp [opStopParse_of_none hf]
  | some item =>
    rw [opStopParse_of_some hf]
    by_cases hrefused : setStateReturn item.element stateChange = .failure
    · simp [hrefused]
    · simp [hrefused]

/-- A PLAY that is part of a run has answered with the id of the item that it
put at the head of the list. -/
theorem opPlayParse_of_reaches {ctx₀ t : PlaybackCtx} {pre post : List PlaybackEvent} {uri : Text}
    {calls : PlayCalls} (h : (playbackMachine accepts).Reaches ctx₀ es ctx)
    (he : es = pre ++ .play uri calls :: post) (hr : (playbackMachine accepts).Reaches ctx₀ pre t) :
    ∃ after, opPlayParse uri calls t =
        .ok ("OK player id: ".toList ++ fmtUnsigned (sourceItemToId (playedItem uri calls)).toNat, after) ∧
      after.sources = playedItem uri calls :: t.sources := by
  subst he
  obtain ⟨s, hs, hrest⟩ := reaches_append_iff.mp h
  obtain rfl := hs.unique hr
  obtain ⟨u, hstep, -⟩ := reaches_cons_iff.mp hrest
  obtain ⟨hanswer, -⟩ := (playbackStep_play_iff accepts).mp hstep.2
  have hreply := opPlayParse_eq uri calls s
  rw [if_neg hanswer] at hreply
  exact ⟨_, hreply, rfl⟩

/-- The concrete list refines the history of the requests: it holds the items
played and not yet removed, newest first. A PLAY prints the id of its item. A
STOP aborts if the state change is refused on the newest item with the id that
its parameter denotes; else it takes that item out, or fails and changes nothing
where there is none. -/
theorem playback_refines_history
    (h : (playbackMachine accepts).Reaches (newPlaybackCtx sink mux ac) es ctx) :
    ctx.sources = (history es).entries ∧ ctx.sources.Nodup ∧
    (∀ pre uri calls post t, es = pre ++ .play uri calls :: post →
      (playbackMachine accepts).Reaches (newPlaybackCtx sink mux ac) pre t →
      ∃ after, opPlayParse uri calls t =
          .ok ("OK player id: ".toList ++ fmtUnsigned (sourceItemToId (playedItem uri calls)).toNat, after) ∧
        after.sources = playedItem uri calls :: t.sources) ∧
    (∀ param stateChange,
      opStopParse param stateChange ctx = .error (.gError "Couldn't move element state to READY".toList) ↔
        StopRefused ctx param stateChange) ∧
    (∀ param stateChange, ¬ StopRefused ctx param stateChange →
      ((∃ after, opStopParse param stateChange ctx =
          .ok ("OK player id: ".toList ++ fmtUnsigned (stopId param).toNat, after)) ↔
        ∃ item ∈ ctx.sources, sourceItemToId item = stopId param)) ∧
    (∀ param stateChange newer item older, ctx.sources = newer ++ item :: older →
      (∀ x ∈ newer, sourceItemToId x ≠ stopId param) → sourceItemToId item = stopId param →
      item.element ≠ none → stateChange ≠ .failure →
      ∃ after, opStopParse param stateChange ctx =
          .ok ("OK player id: ".toList ++ fmtUnsigned (stopId param).toNat, after) ∧
        after.sources = newer ++ older) ∧
    (∀ param stateChange, (∀ item ∈ ctx.sources, sourceItemToId item ≠ stopId param) →
      opStopParse param stateChange ctx = .ok ("FAIL id is invalid".toList, ctx)) ∧
    (∀ stateChange newer item older, ctx.sources = newer ++ item :: older →
      (∀ x ∈ newer, sourceItemToId x ≠ sourceItemToId item) →
      item.element ≠ none → stateChange ≠ .failure →
      ∃ after, opStopParse (fmtUnsigned (sourceItemToId item).toNat) stateChange ctx =
          .ok ("OK player id: ".toList ++ fmtUnsigned (sourceItemToId item).toNat, after) ∧
        after.sources = newer ++ older) ∧
    ∀ param stateChange reply after, opStopParse param stateChange ctx = .ok (reply, after) →
      (reply = "OK player id: ".toList ++ fmtUnsigned (stopId param).toNat ∧
        ∃ item ∈ ctx.sources, sourceItemToId item = stopId param) ∨
      (reply = "FAIL id is invalid".toList ∧ after = ctx ∧
        ∀ item ∈ ctx.sources, sourceItemToId item ≠ stopId param) := by
  have hf := follows_of_reaches h
  refine ⟨hf.sources, hf.nodup, fun pre uri calls post t he hr => opPlayParse_of_reaches h he hr,
    fun param stateChange => opStopParse_error_iff, ?_, ?_, ?_, ?_, ?_⟩
  · intro param stateChange hno
    refine opStopParse_ok_iff fun item hi hrefused => hno (stopRefused_iff.mpr ⟨item, hi, hrefused⟩)
  · intro param stateChange newer item older hs hnew hid he hsc
    exact opStopParse_first param hf.distinct hs hnew hid (setStateReturn_ne_failure he hsc)
  · intro param stateChange hno
    exact opStopParse_of_none (sourceItemFromId_eq_none_iff.mpr hno) stateChange
  · intro stateChange newer item older hs hnew he hsc
    exact opStopParse_printed hf.distinct hs hnew rfl (setStateReturn_ne_failure he hsc)
  · intro param stateChange reply after ho
    exact opStopParse_reply ho

theorem reaches_playA : (playbackMachine accepts).Reaches (newPlaybackCtx 1 2 3) [playA]
    { newPlaybackCtx 1 2 3 with
      pipeline := playedGraph itemA.uri (exampleCalls 0x1000 10 11 0) (newPlaybackCtx 1 2 3).pipeline 2
      sources := [itemA] } :=
  reaches_play (.nil _) (by simp [newPlaybackCtx]) (by decide)

theorem reaches_playA_playC : ∃ ctx,
    (playbackMachine accepts).Reaches (newPlaybackCtx 1 2 3) [playA, playC] ctx ∧ ctx.sources = [itemC, itemA] :=
  ⟨_, reaches_play reaches_playA (by simp [itemA, playedItem, exampleCalls]) (by decide), rfl⟩

theorem itemC_id_ne : sourceItemToId itemC ≠ sourceItemToId itemA := by decide +kernel

theorem playback_refines_history_two_plays :
    ∃ ctx, (playbackMachine fun _ => true).Reaches (newPlaybackCtx 1 2 3) [playA, playC] ctx ∧
      (history [playA, playC]).entries = [itemC, itemA] ∧
      ∃ after, opStopParse (fmtUnsigned (sourceItemToId itemA).toNat) .success ctx =
        .ok ("OK player id: ".toList ++ fmtUnsigned (sourceItemToId itemA).toNat, after) ∧
        after.sources = [itemC] := by
  obtain ⟨ctx, hr, hs⟩ := @reaches_playA_playC fun _ => true
  obtain ⟨hentries, -, -, -, -, -, -, hprinted, -⟩ := playback_refines_history hr
  refine ⟨ctx, hr, hentries.symm.trans hs, ?_⟩
  exact hprinted .success [itemC] itemA [] hs (by simpa using itemC_id_ne) (by decide) (by decide)

/-- A live source whose element refuses the state change: STOP with its id
aborts the daemon and answers nothing. -/
theorem stop_of_live_aborts :
    ∃ ctx, (playbackMachine fun _ => true).Reaches (newPlaybackCtx 1 2 3) [playA, playC] ctx ∧
      ctx.sources = [itemC, itemA] ∧
      opStopParse (fmtUnsigned (sourceItemToId itemA).toNat) .failure ctx =
        .error (.gError "Couldn't move element state to READY".toList) ∧
      ¬ ((∃ after, opStopParse (fmtUnsigned (sourceItemToId itemA).toNat) .failure ctx =
          .ok ("OK player id: ".toList ++ fmtUnsigned (sourceItemToId itemA).toNat, after)) ↔
        ∃ item ∈ ctx.sources, sourceItemToId item = stopId (fmtUnsigned (sourceItemToId itemA).toNat)) := by
  obtain ⟨ctx, hr, hs⟩ := @reaches_playA_playC fun _ => true
  have habort : opStopParse (fmtUnsigned (sourceItemToId itemA).toNat) .failure ctx =
      .error (.gError "Couldn't move element state to READY".toList) := by
    refine opStopParse_error_iff.mpr ⟨[itemC], itemA, [], hs, ?_, (stopId_fmtUnsigned _).symm, .inr rfl⟩
    simpa [stopId_fmtUnsigned] using itemC_id_ne
  refine ⟨ctx, hr, hs, habort, fun hiff => ?_⟩
  obtain ⟨after, ho⟩ := hiff.mpr ⟨itemA, by simp [hs], (stopId_fmtUnsigned _).symm⟩
  rw [habort] at ho
  cases ho

def IdsDistinct (ctx : PlaybackCtx) : Prop := (ctx.sources.map sourceItemToId).Nodup

/-- No PLAY of the run makes an item with the id of a source live at that time. -/
def CollisionFree (accepts : Caps → Bool) (ctx₀ : PlaybackCtx) (es : List PlaybackEvent) : Prop :=
  ∀ pre uri calls post ctx, es = pre ++ .play uri calls :: post →
    (playbackMachine accepts).Reaches ctx₀ pre ctx →
    ∀ item ∈ ctx.sources, sourceItemToId item ≠ sourceItemToId (playedItem uri calls)

theorem CollisionFree.of_prefix {ctx₀ : PlaybackCtx} {fs : List PlaybackEvent}
    (h : CollisionFree accepts ctx₀ (es ++ fs)) : CollisionFree accepts ctx₀ es := by
  rintro pre uri calls post ctx rfl
  exact h pre uri calls (post ++ fs) ctx (by simp)

theorem idsDistinct_step {after : PlaybackCtx} {e : PlaybackEvent} (h : IdsDistinct ctx)
    (hs : (playbackMachine accepts).Steps ctx e after)
    (hnew : ∀ uri calls, e = .play uri calls →
      ∀ item ∈ ctx.sources, sourceItemToId item ≠ sourceItemToId (playedItem uri calls)) :
    IdsDistinct after := by
  obtain ⟨_, (hstep : playbackStep accepts ctx e = .ok after)⟩ := hs
  cases e with
  | play uri calls =>
    obtain ⟨_, rfl⟩ := (playbackStep_play_iff accepts).mp hstep
    rw [IdsDistinct, List.map_cons, List.nodup_cons]
    refine ⟨?_, h⟩
    intro hm
    obtain ⟨item, hi, hid⟩ := List.mem_map.mp hm
    exact hnew uri calls rfl item hi hid
  | stop param stateChange =>
    rcases (playbackStep_stop_iff accepts).mp hstep with ⟨_, rfl⟩ | ⟨item, _, _, rfl⟩
    · exact h
    · exact h.sublist ((List.eraseP_sublist).map sourceItemToId)
  | padAdded source pad caps =>
    obtain ⟨pipeline, rfl⟩ := playbackStep_padAdded hstep
    exact h

theorem idsDistinct_of_reaches (h : (playbackMachine accepts).Reaches (newPlaybackCtx sink mux ac) es ctx)
    (hfree : CollisionFree accepts (newPlaybackCtx sink mux ac) es) : IdsDistinct ctx := by
  refine h.history (P := fun es ctx =>
    CollisionFree accepts (newPlaybackCtx sink mux ac) es → IdsDistinct ctx) ?_ ?_ hfree
  · intro _
    simp [IdsDistinct, newPlaybackCtx]
  · intro pre s e t hr ih hs hfree
    refine idsDistinct_step (ih hfree.of_prefix) hs ?_
    rintro uri calls rfl
    exact hfree pre uri calls [] s rfl hr

theorem collisionFree_of_idsDistinct {ctx₀ : PlaybackCtx}
    (h : (playbackMachine accepts).Reaches ctx₀ es ctx)
    (hd : ∀ pre post t, es = pre ++ post → (playbackMachine accepts).Reaches ctx₀ pre t → IdsDistinct t) :
    CollisionFree accepts ctx₀ es := by
  rintro pre uri calls post s rfl hr item hi hid
  obtain ⟨t, ht, hrest⟩ := reaches_append_iff.mp h
  obtain rfl := ht.unique hr
  obtain ⟨u, hs, _⟩ := reaches_cons_iff.mp hrest
  obtain ⟨_, rfl⟩ := (playbackStep_play_iff accepts).mp hs.2
  have hn := hd (pre ++ [.play uri calls]) post _ (by simp) (reaches_snoc_iff.mpr ⟨t, ht, hs⟩)
  rw [IdsDistinct, List.map_cons, List.nodup_cons] at hn
  exact hn.1 (hid ▸ List.mem_map_of_mem hi)

/-- Ids tell the live sources apart in every state of a run exactly when no
PLAY collides with a live source; then the id that a PLAY printed stops its own
source and no other. -/
theorem idsDistinct_iff_collisionFree
    (h : (playbackMachine accepts).Reaches (newPlaybackCtx sink mux ac) es ctx) :
    (CollisionFree accepts (newPlaybackCtx sink mux ac) es ↔
      ∀ pre post t, es = pre ++ post →
        (playbackMachine accepts).Reaches (newPlaybackCtx sink mux ac) pre t → IdsDistinct t) ∧
    (∀ pre uri calls post t, es = pre ++ .play uri calls :: post →
      (playbackMachine accepts).Reaches (newPlaybackCtx sink mux ac) pre t →
      ∃ after, opPlayParse uri calls t =
          .ok ("OK player id: ".toList ++ fmtUnsigned (sourceItemToId (playedItem uri calls)).toNat, after) ∧
        after.sources = playedItem uri calls :: t.sources) ∧
    (CollisionFree accepts (newPlaybackCtx sink mux ac) es →
      ∀ item ∈ ctx.sources, ∀ stateChange, setStateReturn item.element stateChange ≠ .failure →
        ∃ after, opStopParse (fmtUnsigned (sourceItemToId item).toNat) stateChange ctx =
          .ok ("OK player id: ".toList ++ fmtUnsigned (sourceItemToId item).toNat, after) ∧
          after.sources = ctx.sources.erase item) := by
  have hf := follows_of_reaches h
  refine ⟨⟨?_, collisionFree_of_idsDistinct h⟩,
    fun pre uri calls post t he hr => opPlayParse_of_reaches h he hr, ?_⟩
  · rintro hfree pre post t rfl hr
    exact idsDistinct_of_reaches hr hfree.of_prefix
  · intro hfree item hi stateChange hsc
    obtain ⟨newer, older, hs⟩ := List.append_of_mem hi
    have hd := idsDistinct_of_reaches h hfree
    rw [IdsDistinct, hs, List.map_append, List.map_cons, List.nodup_middle, List.nodup_cons] at hd
    have hnew : ∀ x ∈ newer, sourceItemToId x ≠ sourceItemToId item := fun x hx he =>
      hd.1 (List.mem_append_left _ (he ▸ List.mem_map_of_mem hx))
    obtain ⟨after, ho, ha⟩ := opStopParse_printed hf.distinct hs hnew rfl hsc
    have hnd := hf.nodup
    rw [hs, List.nodup_middle, List.nodup_cons, List.mem_append, not_or] at hnd
    refine ⟨after, ho, ?_⟩
    rw [ha, hs, List.erase_append_right _ hnd.1.1, List.erase_cons_head]

theorem collisionFree_playA_playC :
    CollisionFree (fun _ => true) (newPlaybackCtx 1 2 3) [playA, playC] := by
  obtain ⟨ctx, hr, hs⟩ := @reaches_playA_playC fun _ => true
  refine collisionFree_of_idsDistinct hr fun pre post t he ht => ?_
  match pre, he with
  | [], _ =>
    obtain rfl := ht.unique (.nil _)
    exact List.nodup_nil
  | [e], he =>
    obtain rfl := (List.cons.inj he).1
    obtain rfl := ht.unique reaches_playA
    exact List.nodup_singleton _
  | [e, e'], he =>
    obtain ⟨hfst, hrest⟩ := List.cons.inj he
    obtain rfl := hfst
    obtain rfl := (List.cons.inj hrest).1
    obtain rfl := ht.unique hr
    simpa [IdsDistinct, hs] using itemC_id_ne
  | _ :: _ :: _ :: _, he => simp at he

theorem idsDistinct_iff_collisionFree_two_plays :
    ∃ ctx, (playbackMachine fun _ => true).Reaches (newPlaybackCtx 1 2 3) [playA, playC] ctx ∧
      ctx.sources = [itemC, itemA] ∧ IdsDistinct ctx ∧
      ∃ after, opStopParse (fmtUnsigned (sourceItemToId itemA).toNat) .success ctx =
        .ok ("OK player id: ".toList ++ fmtUnsigned (sourceItemToId itemA).toNat, after) ∧
        after.sources = [itemC] := by
  obtain ⟨ctx, hr, hs⟩ := @reaches_playA_playC fun _ => true
  obtain ⟨hiff, -, hstop⟩ := idsDistinct_iff_collisionFree hr
  obtain ⟨after, ho, ha⟩ := hstop collisionFree_playA_playC itemA (by simp [hs]) .success (by decide)
  refine ⟨ctx, hr, hs, hiff.mp collisionFree_playA_playC _ [] ctx rfl hr, after, ho, ?_⟩
  rw [ha, hs]
  decide

/-- Two live sources share an id, and STOP with the id that the first PLAY
printed takes out the second source. -/
theorem stop_takes_colliding_source :
    ∃ ctx, (playbackMachine fun _ => true).Reaches (newPlaybackCtx 1 2 3) [playA, playB] ctx ∧
      ctx.sources = [itemB, itemA] ∧ ¬ IdsDistinct ctx ∧
      ∃ after, opStopParse (fmtUnsigned (sourceItemToId itemA).toNat) .success ctx =
        .ok (playerIdReply (sourceItemToId itemA), after) ∧ after.sources = [itemA] := by
  have hab : sourceItemToId itemB = sourceItemToId itemA := by decide +kernel
  have hr : ∃ ctx, (playbackMachine fun _ => true).Reaches (newPlaybackCtx 1 2 3) [playA, playB] ctx ∧
      ctx.sources = [itemB, itemA] :=
    ⟨_, reaches_play reaches_playA (by simp [itemA, playedItem, exampleCalls]) (by decide), rfl⟩
  obtain ⟨ctx, hr, hs⟩ := hr
  refine ⟨ctx, hr, hs, ?_, ?_⟩
  · simp [IdsDistinct, hs, hab]
  · have hs' : ctx.sources = [] ++ itemB :: [itemA] := hs
    exact opStopParse_printed (follows_of_reaches hr).distinct hs' (by simp) hab (by decide)

theorem opStopParse_cases {r : Registry SourceItem} (hf : Follows ctx r) {param reply : Text}
    {stateChange : GstStateChangeReturn} {after : PlaybackCtx}
    (h : opStopParse param stateChange ctx = .ok (reply, after)) :
    after = ctx ∨ ∃ k item, r.newest (hasId (stopId param)) = some k ∧ r.Live k item ∧
      sourceItemToId item = stopId param ∧ after.sources = (r.retire k).entries := by
  rcases sourceItemFromId_cases hf (stopId param) with ⟨hnone, _⟩ | ⟨k, item, hn, hl, hid, hsome⟩
  · rw [opStopParse_of_none hnone] at h
    exact .inl (Prod.mk.inj (Except.ok.inj h)).2.symm
  · obtain ⟨newer, older, _, hrem, hret, _⟩ := gSlistRemove_retire hf hl
    rw [opStopParse_of_some hsome] at h
    split_ifs at h with hsc
    obtain ⟨_, rfl⟩ := Prod.mk.inj (Except.ok.inj h)
    exact .inr ⟨k, item, hn, hl, hid, hrem.trans hret.symm⟩

/-- The id of a stopped source is invalid exactly as long as no live source has
the same id. Otherwise STOP removes the newest of those, never the stopped one. -/
theorem opStopParse_of_retired
    (h : (playbackMachine accepts).Reaches (newPlaybackCtx sink mux ac) es ctx) {k : ℕ}
    {item : SourceItem} (hk : k ∈ (history es).retired) (hitem : (history es).issued[k]? = some item)
    {param : Text} (hid : stopId param = sourceItemToId item) (stateChange : GstStateChangeReturn) :
    (opStopParse param stateChange ctx = .ok ("FAIL id is invalid".toList, ctx) ↔
      ∀ x ∈ ctx.sources, sourceItemToId x ≠ sourceItemToId item) ∧
    ((∀ j x, (history es).issued[j]? = some x → sourceItemToId x = sourceItemToId item → j = k) →
      opStopParse param stateChange ctx = .ok ("FAIL id is invalid".toList, ctx)) ∧
    ∀ reply after, opStopParse param stateChange ctx = .ok (reply, after) →
      after = ctx ∨ ∃ j x, j ≠ k ∧ (history es).newest (hasId (sourceItemToId item)) = some j ∧
        (history es).Live j x ∧ after.sources = ((history es).retire j).entries := by
  have hf := follows_of_reaches h
  have hiff : opStopParse param stateChange ctx = .ok ("FAIL id is invalid".toList, ctx) ↔
      ∀ x ∈ ctx.sources, sourceItemToId x ≠ sourceItemToId item := by
    rw [← hid]
    refine ⟨fun hfail => opStopParse_invalid.mp ⟨ctx, hfail⟩, fun hno => ?_⟩
    exact opStopParse_of_none (sourceItemFromId_eq_none_iff.mpr hno) stateChange
  refine ⟨hiff, ?_, ?_⟩
  · intro hunique
    refine hiff.mpr fun x hx he => ?_
    obtain ⟨j, hl⟩ := Registry.mem_entries.mp (hf.sources ▸ hx)
    exact hl.2 (hunique j x hl.1 he ▸ hk)
  · intro reply after ho
    rcases opStopParse_cases hf ho with rfl | ⟨j, x, hn, hl, _, ha⟩
    · exact .inl rfl
    · refine .inr ⟨j, x, ?_, hid ▸ hn, hl, ha⟩
      rintro rfl
      exact hl.2 hk

def stopA : PlaybackEvent := .stop (fmtUnsigned (sourceItemToId itemA).toNat) .success

theorem history_playA_stopA : history [playA, stopA] = (Registry.empty.issue itemA).retire 0 := by
  have hl : (Registry.empty.issue itemA).Live 0 itemA := ⟨rfl, by simp [Registry.issue, Registry.empty]⟩
  have hn : (Registry.empty.issue itemA).newest (hasId (sourceItemToId itemA)) = some 0 := by
    rw [Registry.newest_eq_some_iff]
    refine ⟨⟨itemA, hl, by simp [hasId]⟩, ?_⟩
    intro j x hj _
    have hlt := (List.getElem?_eq_some_iff.mp hj.1).1
    exact Nat.le_of_lt_succ hlt
  have hs : history [playA, stopA] = historyStep (historyStep .empty playA) stopA :=
    history_snoc [playA] stopA
  have hp : historyStep .empty playA = Registry.empty.issue itemA := rfl
  rw [hs, hp, stopA, historyStep, stopId_fmtUnsigned, hn]

theorem reaches_playA_stopA : ∃ es ctx, es = [playA, stopA] ∧
    (playbackMachine accepts).Reaches (newPlaybackCtx 1 2 3) es ctx ∧ ctx.sources = [] ∧
    0 ∈ (history es).retired ∧ (history es).issued[0]? = some itemA := by
  have hf : sourceItemFromId [itemA] (stopId (fmtUnsigned (sourceItemToId itemA).toNat)) = some itemA := by
    rw [stopId_fmtUnsigned]
    exact @sourceItemFromId_first [] [] itemA _ (by simp) rfl
  refine ⟨_, _, rfl, reaches_stop reaches_playA hf (by decide), by simp [gSlistRemove], ?_⟩
  rw [history_playA_stopA]
  simp [Registry.retire, Registry.issue, Registry.empty]

theorem opStopParse_of_retired_playA_stopA :
    ∃ ctx, (playbackMachine fun _ => true).Reaches (newPlaybackCtx 1 2 3) [playA, stopA] ctx ∧
      opStopParse (fmtUnsigned (sourceItemToId itemA).toNat) .success ctx =
        .ok ("FAIL id is invalid".toList, ctx) := by
  obtain ⟨es, ctx, he, hr, hs, hk, hitem⟩ := @reaches_playA_stopA fun _ => true
  have hh := opStopParse_of_retired hr hk hitem (stopId_fmtUnsigned _) .success
  exact ⟨ctx, he ▸ hr, hh.1.mpr (by simp [hs])⟩

/-- The allocator gives the address of a stopped source out again within the
second: the old id now stops a source of a later PLAY. -/
theorem stopped_id_stops_later_source :
    ∃ ctx, (playbackMachine fun _ => true).Reaches (newPlaybackCtx 1 2 3) [playA, stopA, playA] ctx ∧
      ((history [playA, stopA, playA]).issued.map SourceItem.createdAt).Pairwise (· ≤ ·) ∧
      0 ∈ (history [playA, stopA]).retired ∧ (history [playA, stopA]).issued[0]? = some itemA ∧
      ctx.sources = [itemA] ∧
      ∃ after, opStopParse (fmtUnsigned (sourceItemToId itemA).toNat) .success ctx =
        .ok (playerIdReply (sourceItemToId itemA), after) ∧ after.sources = [] := by
  obtain ⟨es, before, he, hb, hbs, hk, hitem⟩ := @reaches_playA_stopA fun _ => true
  have hr : ∃ ctx, (playbackMachine fun _ => true).Reaches (newPlaybackCtx 1 2 3)
      (es ++ [playA]) ctx ∧ ctx.sources = [itemA] :=
    ⟨_, reaches_play hb (by simp [hbs]) (by decide), by simp [hbs, itemA]⟩
  obtain ⟨ctx, hr, hs⟩ := hr
  refine ⟨ctx, by simpa [he] using hr, ?_, by rwa [← he], by rwa [← he], hs, ?_⟩
  · rw [history_issued]
    decide
  · have hs' : ctx.sources = [] ++ itemA :: [] := hs
    exact opStopParse_printed (follows_of_reaches hr).distinct hs' (by simp) rfl (by decide)

end GstPlayd
