import GstPlayd.Playback
import GstPlayd.Registry

/-! The source list against the history of the requests. Every PLAY issues an
item and every STOP retires the newest live item whose id it names. -/

namespace GstPlayd

open ElementGraph StepMachine StepMachine.Machine

def hasId (id : UInt32) (item : SourceItem) : Bool := sourceItemToId item == id

def historyStep (r : Registry SourceItem) : PlaybackEvent → Registry SourceItem
  | .play uri calls => r.issue (playedItem uri calls)
  | .stop param _ =>
    match r.newest (hasId (stopId param)) with
    | none => r
    | some k => r.retire k
  | .padAdded _ _ _ => r

def history (es : List PlaybackEvent) : Registry SourceItem := es.foldl historyStep .empty

theorem history_snoc (es : List PlaybackEvent) (e : PlaybackEvent) :
    history (es ++ [e]) = historyStep (history es) e := by
  simp [history]

variable {accepts : Caps → Bool} {ctx ctx' : PlaybackCtx} {r : Registry SourceItem}
  {es : List PlaybackEvent} {sink mux ac : Element}

theorem sourceItemFromId_first {newer older : List SourceItem} {item : SourceItem} {id : UInt32}
    (hnew : ∀ x ∈ newer, sourceItemToId x ≠ id) (hid : sourceItemToId item = id) :
    sourceItemFromId (newer ++ item :: older) id = some item := by
  have hn : newer.find? (fun needle => sourceItemToId needle == id) = none :=
    List.find?_eq_none.mpr fun x hx => by simpa using hnew x hx
  rw [sourceItemFromId, List.find?_append, hn, Option.none_or, List.find?_cons_of_pos (by simpa using hid)]

theorem sourceItemFromId_eq_none_iff {sources : List SourceItem} {id : UInt32} :
    sourceItemFromId sources id = none ↔ ∀ item ∈ sources, sourceItemToId item ≠ id := by
  simp [sourceItemFromId, List.find?_eq_none]

/-- The list holds the live items of the history, at distinct addresses. -/
structure Follows (ctx : PlaybackCtx) (r : Registry SourceItem) : Prop where
  sources : ctx.sources = r.entries
  distinct : (ctx.sources.map SourceItem.address).Nodup

theorem gSlistRemove_middle {newer older : List SourceItem} {item : SourceItem}
    (h : ((newer ++ item :: older).map SourceItem.address).Nodup) :
    gSlistRemove (newer ++ item :: older) item = newer ++ older := by
  have hne : ∀ x ∈ newer, ¬ (x.address == item.address) = true := by
    intro x hx he
    rw [List.map_append, List.map_cons, List.nodup_middle] at h
    have hn := (List.nodup_cons.mp h).1
    simp only [beq_iff_eq] at he
    exact hn (List.mem_append_left _ (he ▸ List.mem_map_of_mem hx))
  rw [gSlistRemove, List.eraseP_append_right _ hne, List.eraseP_cons_of_pos (by simp)]

theorem sourceItemFromId_eq_newest (h : Follows ctx r) (id : UInt32) :
    sourceItemFromId ctx.sources id = (r.newest (hasId id)).bind (r.issued[·]?) := by
  rw [sourceItemFromId, h.sources]
  exact r.find_entries (hasId id)

theorem sourceItemFromId_cases (h : Follows ctx r) (id : UInt32) :
    (sourceItemFromId ctx.sources id = none ∧ r.newest (hasId id) = none) ∨
    ∃ k item, r.newest (hasId id) = some k ∧ r.Live k item ∧ sourceItemToId item = id ∧
      sourceItemFromId ctx.sources id = some item := by
  have he := sourceItemFromId_eq_newest h id
  cases hn : r.newest (hasId id) with
  | none => exact .inl ⟨by simpa [hn] using he, rfl⟩
  | some k =>
    obtain ⟨⟨item, hl, hid⟩, _⟩ := Registry.newest_eq_some_iff.mp hn
    refine .inr ⟨k, item, rfl, hl, by simpa [hasId] using hid, ?_⟩
    simpa [hn, hl.1] using he

theorem gSlistRemove_retire (h : Follows ctx r) {k : ℕ} {item : SourceItem} (hl : r.Live k item) :
    ∃ newer older, ctx.sources = newer ++ item :: older ∧
      gSlistRemove ctx.sources item = newer ++ older ∧ (r.retire k).entries = newer ++ older ∧
      ∀ x, x ∈ newer ↔ ∃ j, k < j ∧ r.Live j x := by
  obtain ⟨newer, older, he, hr, hnew⟩ := Registry.entries_retire hl
  have hs : ctx.sources = newer ++ item :: older := h.sources.trans he
  have hd := h.distinct
  rw [hs] at hd
  exact ⟨newer, older, hs, by rw [hs, gSlistRemove_middle hd], hr, hnew⟩

theorem follows_new : Follows (newPlaybackCtx sink mux ac) .empty := ⟨rfl, by simp [newPlaybackCtx]⟩

theorem follows_step {e : PlaybackEvent} (h : Follows ctx r)
    (hs : (playbackMachine accepts).Steps ctx e ctx') : Follows ctx' (historyStep r e) := by
  obtain ⟨hallow, (hstep : playbackStep accepts ctx e = .ok ctx')⟩ := hs
  cases e with
  | play uri calls =>
    obtain ⟨_, rfl⟩ := (playbackStep_play_iff accepts).mp hstep
    refine ⟨?_, ?_⟩
    · simp only [historyStep, Registry.entries_issue, h.sources]
    · rw [List.map_cons, List.nodup_cons]
      refine ⟨?_, h.distinct⟩
      intro hm
      obtain ⟨item, hi, ha⟩ := List.mem_map.mp hm
      exact hallow item hi ha
  | stop param stateChange =>
    rcases (playbackStep_stop_iff accepts).mp hstep with ⟨hnone, rfl⟩ | ⟨item, hsome, _, rfl⟩
    · rcases sourceItemFromId_cases h (stopId param) with ⟨_, hn⟩ | ⟨k, item, _, _, _, hf⟩
      · simpa only [historyStep, hn] using h
      · simp [hnone] at hf
    · rcases sourceItemFromId_cases h (stopId param) with ⟨hf, _⟩ | ⟨k, item', hn, hl, _, hf⟩
      · simp [hsome] at hf
      · obtain rfl : item = item' := Option.some.inj (hsome.symm.trans hf)
        obtain ⟨newer, older, hsplit, hrem, hret, _⟩ := gSlistRemove_retire h hl
        refine ⟨?_, ?_⟩
        · simp only [historyStep, hn, hrem, hret]
        · have hd := h.distinct
          rw [hsplit] at hd
          have hsub : (newer ++ older).Sublist (newer ++ item :: older) :=
            (List.sublist_cons_self item older).append_left newer
          simpa only [hrem] using hd.sublist (hsub.map SourceItem.address)
  | padAdded source pad caps =>
    obtain ⟨pipeline, rfl⟩ := playbackStep_padAdded hstep
    exact ⟨h.sources, h.distinct⟩

theorem follows_of_reaches (h : (playbackMachine accepts).Reaches (newPlaybackCtx sink mux ac) es ctx) :
    Follows ctx (history es) := by
  refine h.history (P := fun es ctx => Follows ctx (history es)) follows_new ?_
  intro pre s e t _ hf hs
  rw [history_snoc]
  exact follows_step hf hs

theorem history_issued (es : List PlaybackEvent) :
    (history es).issued = es.filterMap fun
      | .play uri calls => some (playedItem uri calls)
      | _ => none := by
  induction es using List.reverseRecOn with
  | nil => rfl
  | append_singleton es e ih =>
    rw [history_snoc, List.filterMap_append, ← ih]
    cases e with
    | play uri calls => rfl
    | padAdded source pad caps => simp [historyStep]
    | stop param stateChange =>
      cases hn : (history es).newest (hasId (stopId param)) with
      | none => simp [historyStep, hn]
      | some k => simp [historyStep, hn]

theorem stopId_fmtUnsigned (id : UInt32) : stopId (fmtUnsigned id.toNat) = id := by
  have hlt := id.toNat_lt
  rw [stopId, atoll_fmtUnsigned (by omega)]
  apply UInt32.toNat_inj.mp
  simp only [UInt32.ofInt, UInt32.toNat_ofNat']
  omega

end GstPlayd
