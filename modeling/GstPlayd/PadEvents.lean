import GstPlayd.PlayOutcomes

/-! The "pad-added" signals of the sources in a run: when the callback aborts
the daemon, and what it leaves of the links of the sources. -/

namespace GstPlayd

open ElementGraph ElementGraph.Graph StepMachine StepMachine.Machine

variable {accepts : Caps → Bool} {out : Output} {ports : List Port} {p q : Port}
  {ctx ctx' : PlaybackCtx} {es : List PlaybackEvent}

def linkError : Halt := .gError "Couldn't link source to mux".toList

/-- The source has a converter, shows its first pad, and the converter takes
the kind of stream. -/
def FirstTakenPad (accepts : Caps → Bool) (ctx : PlaybackCtx) (source : SourceItem) (caps : Caps) : Prop :=
  source.ac ≠ none ∧ (∀ a ∈ ctx.pipeline.announced, a.1.element ∉ source.element) ∧ accepts caps = true

def StaysLinked (ctx after : PlaybackCtx) : Prop :=
  ∀ item ∈ ctx.sources, item ∈ after.sources → ∀ a ∈ item.ac, ∀ r,
    ctx.pipeline.wiring.peer ⟨a, .src⟩ = some r → after.pipeline.wiring.peer ⟨a, .src⟩ = some r

def FedOnce (ctx : PlaybackCtx) : Prop :=
  ∀ item ∈ ctx.sources, ∀ a ∈ item.ac, ∀ x, ctx.pipeline.wiring.peer x = some ⟨a, .sink⟩ →
    x.element ∈ item.element ∧ ∀ y, ctx.pipeline.wiring.peer y = some ⟨a, .sink⟩ → y = x

theorem firstTakenPad_iff (h : Realizes out ports ctx) (hp : p ∈ ports) (he : p.item.element ≠ none)
    (caps : Caps) : FirstTakenPad accepts ctx p.item caps ↔
      ¬ (p.item.ac = none ∨ p.feed ≠ none ∨ accepts caps = false) := by
  obtain ⟨e, he⟩ := Option.ne_none_iff_exists'.mp he
  have hfirst : (∀ a ∈ ctx.pipeline.announced, a.1.element ∉ p.item.element) ↔ p.feed = none := by
    rw [he]
    constructor
    · intro hno
      rw [Option.eq_none_iff_forall_ne_some]
      intro n hn
      have hm : (⟨e, .sometimes n⟩ : Pad) ∈ p.sourcePad := by simp [Port.sourcePad, he, hn]
      obtain ⟨caps, hc⟩ := (h.announced _).mpr ⟨p, hp, hm⟩
      exact hno _ hc rfl
    · intro hf hh hx hm
      obtain ⟨x, caps⟩ := hh
      obtain ⟨q, hq, hxq⟩ := (h.announced x).mp ⟨caps, hx⟩
      have hxp : x.element ∈ p.item.elements := by
        rw [SourceItem.elements, he]
        exact List.mem_append_left _ (Option.mem_toList.mpr hm)
      obtain rfl := h.port_unique hq hp (Port.sourcePad_elements hxq) hxp
      simp [Port.sourcePad_eq_none hf] at hxq
  simp only [FirstTakenPad, hfirst, not_or, ne_eq, not_not, Bool.not_eq_false]

theorem fedOnce_of_realizes (h : Realizes out ports ctx) : FedOnce ctx := by
  intro item hi a ha x hx
  obtain ⟨p, hp, rfl⟩ := h.exists_port hi
  refine ⟨Port.sourcePad_element ?_, fun y hy => Wiring.peer_unique hy hx⟩
  rw [← h.peer_sink hp ha]
  exact Wiring.peer_symm.mp hx

theorem portsStep_pad {e : PlaybackEvent} (hp : p ∈ portsStep ports e) :
    (∃ q ∈ ports, q.item = p.item ∧ q.pad = p.pad) ∨ ∃ uri calls, e = .play uri calls ∧
      p = .played uri calls := by
  cases e with
  | play uri calls =>
    rcases List.mem_cons.mp hp with rfl | hp
    · exact .inr ⟨uri, calls, rfl, rfl⟩
    · exact .inl ⟨p, hp, rfl, rfl⟩
  | stop param stateChange => exact .inl ⟨p, List.mem_of_mem_eraseP hp, rfl, rfl⟩
  | padAdded source pad caps =>
    obtain ⟨q, hq, rfl⟩ := List.mem_map.mp hp
    refine .inl ⟨q, hq, ?_⟩
    split <;> exact ⟨rfl, rfl⟩

theorem staysLinked_step {e : PlaybackEvent} (h : Realizes out ports ctx)
    (hd : (ctx.sources.map SourceItem.address).Nodup)
    (hs : (gstreamerMachine accepts).Steps ctx e ctx') : StaysLinked ctx ctx' := by
  have h' := realizes_step h hd hs
  intro item hi hi' a ha r hr
  obtain ⟨p, hp, rfl⟩ := h.exists_port hi
  obtain ⟨p', hp', hitem⟩ := h'.exists_port hi'
  have hmem : a ∈ p.item.elements := List.mem_append_right _ (Option.mem_toList.mpr ha)
  have hpad : p'.pad = p.pad := by
    rcases portsStep_pad hp' with ⟨q, hq, hqi, hqp⟩ | ⟨uri, calls, rfl, rfl⟩
    · obtain rfl := h.port_unique hq hp (by rwa [hqi, hitem]) hmem
      exact hqp.symm
    · exact absurd (congrArg SourceItem.address hitem).symm (hs.1.1 p.item hi)
  have hac := h.peer_ac hp
  have hac' := h'.peer_ac hp'
  rw [ha, Option.bind_some] at hac
  rw [hitem, ha, Option.bind_some] at hac'
  rw [hac', Port.muxPad, hpad, ← Port.muxPad, ← hac, hr]

theorem step_eq_linkError_iff {e : PlaybackEvent} (h : Realizes out ports ctx)
    (hallow : (gstreamerMachine accepts).allowed ctx e) :
    playbackStep accepts ctx e = .error linkError ↔
      ∃ source pad caps, e = .padAdded source pad caps ∧ ¬ FirstTakenPad accepts ctx source caps := by
  cases e with
  | play uri calls =>
    rw [playbackStep, opPlayParse_eq]
    split_ifs <;> simp [Except.map, linkError]
  | stop param stateChange =>
    rw [playbackStep]
    cases hf : sourceItemFromId ctx.sources (stopId param) with
    | none => simp [opStopParse_of_none hf, Except.map]
    | some item =>
      rw [opStopParse_of_some hf]
      split_ifs <;> simp [Except.map, linkError]
  | padAdded source pad caps =>
    obtain ⟨hm, e, he, hnew⟩ := hallow
    obtain ⟨p, hp, rfl⟩ := h.exists_port hm
    have hfirst : FirstTakenPad accepts ctx p.item caps ↔ _ := firstTakenPad_iff h hp (by simp [he]) caps
    have hone : (∃ source n c, PlaybackEvent.padAdded p.item pad caps = .padAdded source n c ∧
        ¬ FirstTakenPad accepts ctx source c) ↔ ¬ FirstTakenPad accepts ctx p.item caps := by
      constructor
      · intro hh
        obtain ⟨_, _, _, ⟨⟩, hno⟩ := hh
        exact hno
      · exact fun hno => ⟨_, _, _, rfl, hno⟩
    rw [hone, hfirst, not_not, playbackStep]
    by_cases hbad : p.item.ac = none ∨ p.feed ≠ none ∨ accepts caps = false
    · simp only [padAdded_error h hp he hbad, linkError, hbad]
    · simp only [not_or, ne_eq, not_not, Bool.not_eq_false] at hbad
      obtain ⟨hac, hf, hc⟩ := hbad
      obtain ⟨a, ha⟩ := Option.ne_none_iff_exists'.mp hac
      simp [padAdded_ok h hp he ha hf hc hnew, hac, hf, hc]

/-- In a run no signal aborts the daemon, no converter is fed twice and no
other source loses its link, exactly if every signal is for the first pad of
its source and for a stream that the converter takes. -/
theorem pad_signals_safe_iff (out : Output) (accepts : Caps → Bool) (es : List PlaybackEvent) :
    (¬ (gstreamerMachine accepts).Fails out.new es linkError ∧
      ∀ pre e post t u, es = pre ++ e :: post → (gstreamerMachine accepts).Reaches out.new pre t →
        (gstreamerMachine accepts).Steps t e u → FedOnce u ∧ StaysLinked t u) ↔
    ∀ pre source pad caps post t, es = pre ++ .padAdded source pad caps :: post →
      (gstreamerMachine accepts).Reaches out.new pre t →
      (gstreamerMachine accepts).allowed t (.padAdded source pad caps) →
      FirstTakenPad accepts t source caps := by
  constructor
  · rintro ⟨hsafe, _⟩ pre source pad caps post t rfl hr hallow
    by_contra hno
    refine hsafe ⟨pre, _, post, t, rfl, hr, hallow, ?_⟩
    exact (step_eq_linkError_iff (realizes_of_reaches hr) hallow).mpr ⟨source, pad, caps, rfl, hno⟩
  · intro hfirst
    constructor
    · intro hh
      obtain ⟨pre, e, post, t, rfl, hr, hallow, herr⟩ := hh
      obtain ⟨source, pad, caps, rfl, hno⟩ :=
        (step_eq_linkError_iff (realizes_of_reaches hr) hallow).mp herr
      exact hno (hfirst pre source pad caps post t rfl hr hallow)
    · rintro pre e post t u rfl hr hs
      have hd := (follows_of_reaches (reaches_playbackMachine hr)).distinct
      exact ⟨fedOnce_of_realizes (realizes_step (realizes_of_reaches hr) hd hs),
        staysLinked_step (realizes_of_reaches hr) hd hs⟩

def audioOnly (caps : Caps) : Bool := caps = "audio/x-raw".toList

def playVideo : List PlaybackEvent :=
  [playA, .padAdded itemA 0 "audio/x-raw".toList, .padAdded itemA 1 "video/x-raw".toList]

theorem reaches_first_pad (h : (gstreamerMachine accepts).Reaches out.new es ctx) {source : SourceItem}
    {e : Element} {n : Nat} {caps : Caps} (hm : source ∈ ctx.sources) (he : source.element = some e)
    (hfirst : FirstTakenPad accepts ctx source caps) :
    ∃ after, (gstreamerMachine accepts).Reaches out.new (es ++ [.padAdded source n caps]) after ∧
      after.sources = ctx.sources ∧
      after.pipeline.announced = (⟨e, .sometimes n⟩, caps) :: ctx.pipeline.announced := by
  have hr := realizes_of_reaches h
  obtain ⟨p, hp, rfl⟩ := hr.exists_port hm
  have hnew : NewPad ctx.pipeline ⟨e, .sometimes n⟩ :=
    hr.newSourcePad fun caps hc => hfirst.2.1 _ hc (by simp [he])
  have hok := (firstTakenPad_iff hr hp (by simp [he]) caps).mp hfirst
  simp only [not_or, ne_eq, not_not, Bool.not_eq_false] at hok
  obtain ⟨hac, hf, hc⟩ := hok
  obtain ⟨a, ha⟩ := Option.ne_none_iff_exists'.mp hac
  have hstep := padAdded_ok hr hp he ha hf hc hnew
  exact ⟨_, reaches_snoc_iff.mpr ⟨ctx, h, ⟨hm, e, he, hnew⟩, hstep⟩, rfl, rfl⟩

theorem second_pad_aborts :
    (gstreamerMachine audioOnly).Fails exampleOutput.new playVideo linkError := by
  obtain ⟨ctx, hr, hsrc, hann⟩ : ∃ ctx, (gstreamerMachine audioOnly).Reaches exampleOutput.new
      [playA, .padAdded itemA 0 "audio/x-raw".toList] ctx ∧ ctx.sources = [itemA] ∧
      ctx.pipeline.announced = [(⟨10, .sometimes 0⟩, "audio/x-raw".toList)] :=
    reaches_first_pad reaches_new_playA (List.mem_singleton.mpr rfl) rfl
      ⟨by decide, fun _ => (absurd · List.not_mem_nil), by decide⟩
  have hs := realizes_of_reaches hr
  have hnew : NewPad ctx.pipeline ⟨10, .sometimes 1⟩ := hs.newSourcePad fun caps => by
    rw [hann, List.mem_singleton, Prod.mk.injEq, not_and]
    intro he
    exact absurd he (by decide)
  have hallow : (gstreamerMachine audioOnly).allowed ctx (.padAdded itemA 1 "video/x-raw".toList) :=
    ⟨by simp [AllocatorAnswers, hsrc], 10, rfl, hnew⟩
  refine ⟨_, _, [], ctx, rfl, hr, hallow, (step_eq_linkError_iff hs hallow).mpr ⟨_, _, _, rfl, ?_⟩⟩
  intro hh
  obtain ⟨_, hfirst, _⟩ := hh
  exact hfirst (⟨10, .sometimes 0⟩, "audio/x-raw".toList) (by simp [hann]) rfl

end GstPlayd
