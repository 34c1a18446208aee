import GstPlayd.MixerPorts
import GstPlayd.PlayerId

/-! The source list and the pipeline agree in every run in which the calls of
PLAY succeed, and `op_playback_free` takes everything down that was put up. -/

namespace GstPlayd

open ElementGraph ElementGraph.Graph StepMachine StepMachine.Machine

variable {accepts : Caps → Bool} {out : Output} {ports : List Port} {p q : Port}
  {ctx ctx' after : PlaybackCtx} {es : List PlaybackEvent} {sink mux ac : Element}

theorem freed_sources_perm_issued
    (h : (playbackMachine accepts).Reaches (newPlaybackCtx sink mux ac) es ctx) :
    (ctx.freed ++ ctx.sources).Perm (history es).issued := by
  refine h.history (P := fun es ctx => (ctx.freed ++ ctx.sources).Perm (history es).issued) .nil ?_
  intro pre s e t hr ih hs
  have hd := (follows_of_reaches hr).distinct
  obtain ⟨_, (hstep : playbackStep accepts s e = .ok t)⟩ := hs
  rw [history_issued] at ih ⊢
  rw [List.filterMap_append]
  cases e with
  | play uri calls =>
    obtain ⟨_, rfl⟩ := (playbackStep_play_iff accepts).mp hstep
    refine List.perm_middle.trans ((ih.cons _).trans ?_)
    exact (List.perm_append_singleton _ _).symm
  | stop param stateChange =>
    rcases (playbackStep_stop_iff accepts).mp hstep with ⟨_, rfl⟩ | ⟨item, hf, _, rfl⟩
    · simpa using ih
    · obtain ⟨newer, older, hsrc⟩ := List.append_of_mem (List.mem_of_find?_eq_some hf)
      rw [hsrc] at hd ih
      simp only [hsrc, gSlistRemove_middle hd, List.filterMap_cons, List.filterMap_nil, List.append_nil,
        List.append_assoc, List.singleton_append]
      exact (List.perm_middle.symm.append_left _).trans ih
  | padAdded source pad caps =>
    obtain ⟨pipeline, rfl⟩ := playbackStep_padAdded hstep
    simpa using ih

def Port.Complete (p : Port) : Prop := p.item.element ≠ none ∧ p.item.ac ≠ none ∧ p.pad ≠ none

theorem complete_played {uri : Text} {calls : PlayCalls} (h : CallsSucceed calls) :
    (Port.played uri calls).Complete := by
  obtain ⟨he, ha, hn⟩ := h
  obtain ⟨a, ha'⟩ := Option.ne_none_iff_exists'.mp ha
  exact ⟨he, ha, by simpa [Port.played, ha'] using hn⟩

theorem complete_portsStep {e : PlaybackEvent} (h : ∀ p ∈ ports, p.Complete)
    (hcalls : ∀ uri calls, e = .play uri calls → CallsSucceed calls) :
    ∀ p ∈ portsStep ports e, p.Complete := by
  cases e with
  | play uri calls =>
    intro p hp
    rcases List.mem_cons.mp hp with rfl | hp
    · exact complete_played (hcalls uri calls rfl)
    · exact h p hp
  | stop param stateChange => exact fun p hp => h p (List.mem_of_mem_eraseP hp)
  | padAdded source pad caps =>
    intro p hp
    obtain ⟨q, hq, rfl⟩ := List.mem_map.mp hp
    split
    · exact h q hq
    · exact h q hq

theorem complete_portsOf (hcalls : ∀ uri calls, .play uri calls ∈ es → CallsSucceed calls) :
    ∀ p ∈ portsOf es, p.Complete := by
  induction es using List.reverseRecOn with
  | nil => simp [portsOf]
  | append_singleton es e ih =>
    rw [portsOf_snoc]
    refine complete_portsStep (ih fun uri calls hm => hcalls uri calls (List.mem_append_left _ hm)) ?_
    rintro uri calls rfl
    exact hcalls uri calls (by simp)

/-- The list says what is in the pipeline, and the request pads of the mux and
the sources are in bijection. -/
structure Agrees (out : Output) (ctx : PlaybackCtx) : Prop where
  children : ctx.pipeline.children.Perm (out.elements ++ ctx.sources.flatMap SourceItem.elements)
  distinct : ctx.pipeline.children.Nodup
  both : ∀ item ∈ ctx.sources, ∃ e a, item.element = some e ∧ item.ac = some a
  pads : ctx.pipeline.requestPads.Nodup
  onePad : ∀ item ∈ ctx.sources, ∃! r, r ∈ ctx.pipeline.requestPads ∧
    ∃ a ∈ item.ac, ctx.pipeline.wiring.peer r = some ⟨a, .src⟩
  noOther : ∀ r ∈ ctx.pipeline.requestPads, r.element = ctx.mux ∧ ∃! item, item ∈ ctx.sources ∧
    ∃ a ∈ item.ac, ctx.pipeline.wiring.peer r = some ⟨a, .src⟩

theorem Realizes.peer_muxPad (h : Realizes out ports ctx) (hp : p ∈ ports) {r : Pad} {a : Element}
    (ha : p.item.ac = some a) :
    ctx.pipeline.wiring.peer r = some ⟨a, .src⟩ ↔ p.muxPad out.mux = some r := by
  have hh := h.peer_ac hp
  rw [ha, Option.bind_some] at hh
  rw [Wiring.peer_symm, hh]

theorem agrees_of_realizes (h : Realizes out ports ctx) (hc : ∀ p ∈ ports, p.Complete) : Agrees out ctx := by
  refine ⟨?_, h.children.nodup_iff.mpr h.distinct, ?_, h.requestPads.nodup_iff.mpr h.pads, ?_, ?_⟩
  · rw [h.sources, List.flatMap_map]
    exact h.children
  · intro item hi
    obtain ⟨p, hp, rfl⟩ := h.exists_port hi
    obtain ⟨he, ha, _⟩ := hc p hp
    obtain ⟨e, he⟩ := Option.ne_none_iff_exists'.mp he
    obtain ⟨a, ha⟩ := Option.ne_none_iff_exists'.mp ha
    exact ⟨e, a, he, ha⟩
  · intro item hi
    obtain ⟨p, hp, rfl⟩ := h.exists_port hi
    obtain ⟨_, ha, hn⟩ := hc p hp
    obtain ⟨a, ha⟩ := Option.ne_none_iff_exists'.mp ha
    obtain ⟨n, hn⟩ := Option.ne_none_iff_exists'.mp hn
    have hpad : p.muxPad out.mux = some ⟨out.mux, .request n⟩ := by simp [Port.muxPad, hn]
    refine ⟨⟨out.mux, .request n⟩, ⟨?_, a, ha, (h.peer_muxPad hp ha).mpr hpad⟩, ?_⟩
    · exact h.requestPads.symm.subset (List.mem_filterMap.mpr ⟨p, hp, hpad⟩)
    · intro r hh
      obtain ⟨_, b, hb, hr⟩ := hh
      obtain rfl := Option.some.inj (ha.symm.trans hb)
      exact Option.some.inj (((h.peer_muxPad hp ha).mp hr).symm.trans hpad)
  · intro r hr
    obtain ⟨p, hp, hpad⟩ := List.mem_filterMap.mp (h.requestPads.subset hr)
    obtain ⟨_, ha, _⟩ := hc p hp
    obtain ⟨a, ha⟩ := Option.ne_none_iff_exists'.mp ha
    have hpeer := (h.peer_muxPad hp ha).mpr hpad
    obtain ⟨n, _, rfl⟩ := Option.map_eq_some_iff.mp hpad
    refine ⟨h.mux.symm, p.item, ⟨?_, a, ha, hpeer⟩, ?_⟩
    · rw [h.sources]
      exact List.mem_map_of_mem hp
    · intro item hh
      obtain ⟨hi, b, hb, hr⟩ := hh
      obtain ⟨q, hq, rfl⟩ := h.exists_port hi
      obtain rfl : a = b := (Pad.mk.inj (Option.some.inj (hpeer.symm.trans hr))).1
      have hqp := h.port_unique hq hp (e := a) (by simpa [SourceItem.elements] using Or.inr hb)
        (by simp [SourceItem.elements, ha])
      rw [hqp]

def removeAll (items : List SourceItem) (g : Graph) (mux : Element) : Graph :=
  items.foldl (fun g item => removeSource item g mux) g

theorem freeSources_iff {stateChange : SourceItem → GstStateChangeReturn} {items : List SourceItem} :
    freeSources stateChange items ctx = .ok after ↔
      (∀ item ∈ items, setStateReturn item.element (stateChange item) ≠ .failure) ∧
        after = { ctx with
          pipeline := removeAll items ctx.pipeline ctx.mux
          freed := ctx.freed ++ items } := by
  induction items generalizing ctx with
  | nil => simp [freeSources, removeAll, eq_comm]
  | cons item items ih =>
    by_cases hf : setStateReturn item.element (stateChange item) = .failure
    · simp [freeSources, sourceFreeAndUnlink, hf, bind, Except.bind]
    · simp [freeSources, sourceFreeAndUnlink, hf, bind, Except.bind, ih, removeAll]

theorem realizes_removeAll (h : Realizes out ports ctx) (freed : List SourceItem) :
    Realizes out []
      { ctx with
        pipeline := removeAll ctx.sources ctx.pipeline ctx.mux
        sources := []
        freed } := by
  induction ports generalizing ctx with
  | nil =>
    have hs : ctx.sources = [] := h.sources
    rw [hs]
    exact { h with sources := rfl }
  | cons p ports ih =>
    have hs : ctx.sources = p.item :: ports.map Port.item := h.sources
    have hh : Realizes out ([] ++ p :: ports) ctx := h
    rw [hs]
    exact ih (realizes_stop hh freed)

/-- In every run in which the factory, add and link calls of PLAY succeed the
source list and the pipeline agree, and freeing the context frees every item
that is still live, leaves no request pad and cuts every wire but those of the
output. -/
theorem sources_agree_with_graph (h : (gstreamerMachine accepts).Reaches out.new es ctx)
    (hcalls : ∀ uri calls, .play uri calls ∈ es → CallsSucceed calls) :
    Agrees out ctx ∧
    ∀ stateChange : SourceItem → GstStateChangeReturn,
      ((∀ item ∈ ctx.sources, stateChange item ≠ .failure) →
        ∃ after, opPlaybackFree stateChange ctx = .ok after) ∧
      ∀ after, opPlaybackFree stateChange ctx = .ok after →
        after.freed.Perm (history es).issued ∧ after.pipeline.requestPads = [] ∧
        after.pipeline.children.Perm out.elements ∧
        ∀ x y, after.pipeline.wiring.peer x = some y ↔ out.Wire x y ∨ out.Wire y x := by
  have hr := realizes_of_reaches h
  have hagree := agrees_of_realizes hr (complete_portsOf hcalls)
  refine ⟨hagree, fun stateChange => ⟨?_, ?_⟩⟩
  · intro hsc
    have hok : ∀ item ∈ ctx.sources, setStateReturn item.element (stateChange item) ≠ .failure := by
      intro item hi
      obtain ⟨e, _, he, _⟩ := hagree.both item hi
      simpa [setStateReturn, he] using hsc item hi
    have hf : freeSources stateChange ctx.sources ctx = .ok _ := freeSources_iff.mpr ⟨hok, rfl⟩
    exact ⟨_, by rw [opPlaybackFree, hf]; rfl⟩
  · intro after ho
    cases hf : freeSources stateChange ctx.sources ctx with
    | error k => simp [opPlaybackFree, hf, bind, Except.bind] at ho
    | ok ctx' =>
      obtain ⟨_, rfl⟩ := freeSources_iff.mp hf
      simp only [opPlaybackFree, hf, bind, Except.bind, pure, Except.pure, Except.ok.injEq] at ho
      subst ho
      have hbare := realizes_removeAll hr (ctx.freed ++ ctx.sources)
      refine ⟨freed_sources_perm_issued (reaches_playbackMachine h), ?_, ?_, ?_⟩
      · simpa using hbare.requestPads
      · simpa using hbare.children
      · intro x y
        simpa [Wires] using hbare.wiring x y

def exampleOutput : Output := ⟨2, 3, 1, by decide⟩

theorem reaches_new_playA : (gstreamerMachine accepts).Reaches exampleOutput.new [playA]
    { exampleOutput.new with
      pipeline := playedGraph itemA.uri (exampleCalls 0x1000 10 11 0) exampleOutput.new.pipeline 2
      sources := [itemA] } :=
  reaches_new_play (.nil _) (by decide) (by decide) (by decide) (by decide) (by decide)

theorem reaches_new_playA_playC : ∃ ctx,
    (gstreamerMachine accepts).Reaches exampleOutput.new [playA, playC] ctx ∧ ctx.sources = [itemC, itemA] :=
  ⟨_, reaches_new_play reaches_new_playA (by decide) (by decide) (by decide) (by decide) (by decide), rfl⟩

theorem reaches_new_playA_playC_stopA : ∃ ctx,
    (gstreamerMachine accepts).Reaches exampleOutput.new [playA, playC, stopA] ctx ∧ ctx.sources = [itemC] := by
  obtain ⟨ctx, hr, hs⟩ := @reaches_new_playA_playC accepts
  have hf : sourceItemFromId ctx.sources (stopId (fmtUnsigned (sourceItemToId itemA).toNat)) = some itemA := by
    rw [hs, stopId_fmtUnsigned]
    exact @sourceItemFromId_first [itemC] [] itemA _ (by simpa using itemC_id_ne) rfl
  have hremoved : gSlistRemove [itemC, itemA] itemA = [itemC] := by decide
  refine ⟨_, @reaches_new_stop _ _ _ _ hr _ .success _ hf (by decide), ?_⟩
  rw [← hremoved, ← hs]

theorem calls_of_mem_two_plays {uri : Text} {calls : PlayCalls}
    (hm : .play uri calls ∈ [playA, playC, stopA]) :
    calls = exampleCalls 0x1000 10 11 0 ∨ calls = exampleCalls 0x2000 12 13 1 := by
  rcases List.mem_cons.mp hm with hm | hm
  · cases hm
    exact .inl rfl
  · rcases List.mem_cons.mp hm with hm | hm
    · cases hm
      exact .inr rfl
    · cases List.mem_singleton.mp hm

theorem sources_agree_with_graph_two_plays :
    ∃ ctx, (gstreamerMachine fun _ => true).Reaches exampleOutput.new [playA, playC, stopA] ctx ∧
      ctx.sources = [itemC] ∧ Agrees exampleOutput ctx ∧
      ∃ after, opPlaybackFree (fun _ => .success) ctx = .ok after ∧
        after.freed.Perm [itemA, itemC] ∧ after.pipeline.requestPads = [] := by
  obtain ⟨ctx, hr, hs⟩ := @reaches_new_playA_playC_stopA fun _ => true
  have hcalls : ∀ uri calls, .play uri calls ∈ [playA, playC, stopA] → CallsSucceed calls := by
    intro uri calls hm
    rcases calls_of_mem_two_plays hm with rfl | rfl
    · exact ⟨by decide, by decide, by decide⟩
    · exact ⟨by decide, by decide, by decide⟩
  have hissued : (history [playA, playC, stopA]).issued = [itemA, itemC] := history_issued _
  obtain ⟨hagree, hfree⟩ := sources_agree_with_graph hr hcalls
  obtain ⟨after, ho⟩ := (hfree fun _ => .success).1 fun _ _ => by decide
  obtain ⟨hfreed, hpads, -⟩ := (hfree fun _ => .success).2 after ho
  exact ⟨ctx, hr, hs, hagree, after, ho, hissued ▸ hfreed, hpads⟩

end GstPlayd
