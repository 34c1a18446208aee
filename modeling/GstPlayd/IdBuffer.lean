import GstPlayd.ClientRequest
import GstPlayd.DaemonPlayback

/-! The texts that PLAY and STOP print into the buffer of `source_item_to_id`.
The handlers are followed with a record of these texts, and every text of a
run is that of a source which an earlier PLAY has made. -/

namespace GstPlayd

open ElementGraph StepMachine StepMachine.Machine

/-- `char to_hash[2048]`, with room for the terminator. -/
def FitsToHash (s : Text) : Prop := (textBytes s).length + 1 ≤ 2048

def sourceItemToIdRecorded (item : SourceItem) : List Text × UInt32 :=
  ([sourceItemText item], gStrHash (sourceItemText item))

def sourceItemFromIdRecorded : List SourceItem → UInt32 → List Text × Option SourceItem
  | [], _ => ([], none)
  | needle :: haystack, id =>
    let (texts, found) := sourceItemToIdRecorded needle
    if found == id then (texts, some needle)
    else (texts ++ (sourceItemFromIdRecorded haystack id).1, (sourceItemFromIdRecorded haystack id).2)

def opPlayParseRecorded (param : Text) (calls : PlayCalls) (ctx : PlaybackCtx) :
    List Text × Result (Text × PlaybackCtx) :=
  match sourceNewAndLink param calls ctx.pipeline ctx.mux with
  | .error k => ([], .error k)
  | .ok (none, pipeline) => ([], .ok ("FAIL Can't load source: ".toList ++ param, { ctx with pipeline }))
  | .ok (some toAdd, pipeline) =>
    let (texts, id) := sourceItemToIdRecorded toAdd
    (texts, .ok (playerIdReply id, { ctx with pipeline, sources := toAdd :: ctx.sources }))

def opStopParseRecorded (param : Text) (stateChange : GstStateChangeReturn) (ctx : PlaybackCtx) :
    List Text × Result (Text × PlaybackCtx) :=
  let (texts, toRemove) := sourceItemFromIdRecorded ctx.sources (stopId param)
  match toRemove with
  | none => (texts, .ok ("FAIL id is invalid".toList, ctx))
  | some toRemove =>
    (texts, (sourceFreeAndUnlink toRemove stateChange ctx.pipeline ctx.mux).map fun pipeline =>
      (playerIdReply (stopId param),
        { ctx with
          pipeline
          sources := gSlistRemove ctx.sources toRemove
          freed := ctx.freed ++ [toRemove] }))

/-- The texts of one event; a callback for a pad prints none. -/
def PlaybackEvent.texts (ctx : PlaybackCtx) : PlaybackEvent → List Text
  | .play uri calls => (opPlayParseRecorded uri calls ctx).1
  | .stop param stateChange => (opStopParseRecorded param stateChange ctx).1
  | .padAdded _ _ _ => []

def DaemonEvent.texts (nl : Newlines) (d : Daemon) (e : DaemonEvent) : List Text :=
  match d.world.playback, e.playbackEvent nl d with
  | some p, some pe => pe.texts p
  | _, _ => []

theorem sourceItemFromIdRecorded_cons (needle : SourceItem) (haystack : List SourceItem) (id : UInt32) :
    sourceItemFromIdRecorded (needle :: haystack) id =
      if sourceItemToId needle == id then ([sourceItemText needle], some needle)
      else (sourceItemText needle :: (sourceItemFromIdRecorded haystack id).1,
        (sourceItemFromIdRecorded haystack id).2) := rfl

theorem sourceItemFromIdRecorded_snd (sources : List SourceItem) (id : UInt32) :
    (sourceItemFromIdRecorded sources id).2 = sourceItemFromId sources id := by
  induction sources with
  | nil => rfl
  | cons needle haystack ih =>
    rw [sourceItemFromIdRecorded_cons, sourceItemFromId, List.find?_cons]
    cases h : sourceItemToId needle == id with
    | true => rfl
    | false => exact ih

/-- A lookup prints the texts of sources on the list only. -/
theorem mem_sourceItemFromIdRecorded {sources : List SourceItem} {id : UInt32} {s : Text}
    (h : s ∈ (sourceItemFromIdRecorded sources id).1) : ∃ item ∈ sources, s = sourceItemText item := by
  induction sources with
  | nil => cases h
  | cons needle haystack ih =>
    rw [sourceItemFromIdRecorded_cons] at h
    have hs : s = sourceItemText needle ∨ s ∈ (sourceItemFromIdRecorded haystack id).1 := by
      split_ifs at h
      · exact .inl (List.mem_singleton.mp h)
      · exact List.mem_cons.mp h
    rcases hs with rfl | hs
    · exact ⟨needle, List.mem_cons_self, rfl⟩
    · obtain ⟨item, hi, hs⟩ := ih hs
      exact ⟨item, List.mem_cons_of_mem _ hi, hs⟩

theorem opPlayParseRecorded_eq (param : Text) (calls : PlayCalls) (ctx : PlaybackCtx) :
    opPlayParseRecorded param calls ctx =
      (if startAnswer calls = .failure then [] else [sourceItemText (playedItem param calls)],
        opPlayParse param calls ctx) := by
  by_cases h : startAnswer calls = .failure
  · simp only [opPlayParseRecorded, opPlayParse_eq, sourceNewAndLink, h, if_true]
  · simp only [opPlayParseRecorded, opPlayParse_eq, sourceNewAndLink, h, if_false]
    rfl

/-- The record changes nothing. -/
theorem opStopParseRecorded_eq (param : Text) (stateChange : GstStateChangeReturn) (ctx : PlaybackCtx) :
    opStopParseRecorded param stateChange ctx =
      ((sourceItemFromIdRecorded ctx.sources (stopId param)).1, opStopParse param stateChange ctx) := by
  have hfind := sourceItemFromIdRecorded_snd ctx.sources (stopId param)
  cases hr : sourceItemFromIdRecorded ctx.sources (stopId param) with
  | mk texts toRemove =>
    rw [hr] at hfind
    cases toRemove with
    | none => rw [opStopParse_of_none hfind.symm, opStopParseRecorded, hr]
    | some item =>
      rw [opStopParse_of_some hfind.symm, opStopParseRecorded, hr]
      by_cases hf : setStateReturn item.element stateChange = .failure
      · simp only [sourceFreeAndUnlink, hf, if_true]
        rfl
      · simp only [sourceFreeAndUnlink, hf, if_false]
        rfl

/-- What the address and the time leave of the buffer is enough for the uri. -/
def RoomForUri (uri : Text) (calls : PlayCalls) : Prop :=
  (textBytes uri).length + (fmtPointer calls.item).length +
    (fmtUnsigned calls.now.toUInt64.toNat).length + 4 < 2048

theorem fitsToHash_playedItem {uri : Text} {calls : PlayCalls} :
    FitsToHash (sourceItemText (playedItem uri calls)) ↔ RoomForUri uri calls := by
  have hsep : (textBytes " 0x".toList).length = 3 := rfl
  have hspace : (textBytes (' ' :: fmtUnsigned calls.now.toUInt64.toNat)).length =
      1 + (fmtUnsigned calls.now.toUInt64.toNat).length := by
    have hh := textBytes_append [' '] (fmtUnsigned calls.now.toUInt64.toNat)
    rw [List.singleton_append] at hh
    rw [hh, List.length_append, length_textBytes_fmtUnsigned]
    rfl
  have htext : (textBytes (sourceItemText (playedItem uri calls))).length =
      (textBytes uri).length + 3 + (fmtPointer calls.item).length +
        (1 + (fmtUnsigned calls.now.toUInt64.toNat).length) := by
    simp only [sourceItemText, playedItem, textBytes_append, List.length_append, hsep, hspace,
      length_textBytes_fmtPointer]
  rw [FitsToHash, RoomForUri, htext]
  omega

theorem roomForUri_bounds (uri : Text) (calls : PlayCalls) :
    ((textBytes uri).length ≤ 2005 → RoomForUri uri calls) ∧
    (2040 ≤ (textBytes uri).length → ¬ RoomForUri uri calls) := by
  have hp := length_fmtPointer calls.item
  have ht := length_fmtUnsigned calls.now.toUInt64
  simp only [RoomForUri]
  omega

section

variable {nl : Newlines} {accepts : Caps → Bool} {d₀ d : Daemon} {es : List DaemonEvent} {e : DaemonEvent}
  {p p' : PlaybackCtx} {item : SourceItem}

/-- The run makes the item with a PLAY that the pipeline takes. -/
def Plays (nl : Newlines) (accepts : Caps → Bool) (d₀ : Daemon) (es : List DaemonEvent)
    (item : SourceItem) : Prop :=
  ∃ d e uri calls, (daemonMachine nl accepts daemonParser).Meets d₀ es d e ∧
    e.playbackEvent nl d = some (.play uri calls) ∧ startAnswer calls ≠ .failure ∧
    item = playedItem uri calls

theorem sources_of_playbackStep {pe : PlaybackEvent} (h : playbackStep accepts p pe = .ok p')
    (hi : item ∈ p'.sources) :
    item ∈ p.sources ∨ ∃ uri calls, pe = .play uri calls ∧ startAnswer calls ≠ .failure ∧
      item = playedItem uri calls := by
  cases pe with
  | play uri calls =>
    obtain ⟨hs, rfl⟩ := (playbackStep_play_iff accepts).mp h
    rcases List.mem_cons.mp hi with rfl | hi
    · exact .inr ⟨uri, calls, rfl, hs, rfl⟩
    · exact .inl hi
  | stop param stateChange =>
    rcases (playbackStep_stop_iff accepts).mp h with ⟨_, rfl⟩ | ⟨removed, _, _, rfl⟩
    · exact .inl hi
    · exact .inl (List.eraseP_subset hi)
  | padAdded source pad caps =>
    obtain ⟨pipeline, rfl⟩ := playbackStep_padAdded h
    exact .inl hi

/-- The invariant: every live source is one that a PLAY of the run made. -/
theorem plays_of_reaches (hp : d₀.world.playback = some p) (hnew : p.sources = [])
    (h : (daemonMachine nl accepts daemonParser).Reaches d₀ es d) :
    ∃ p', d.world.playback = some p' ∧ ∀ item ∈ p'.sources, Plays nl accepts d₀ es item := by
  refine h.history (P := fun es d =>
    ∃ p', d.world.playback = some p' ∧ ∀ item ∈ p'.sources, Plays nl accepts d₀ es item) ?_ ?_
  · exact ⟨p, hp, by simp [hnew]⟩
  · intro pre c e d hr ih hstep
    obtain ⟨q, hq, hplays⟩ := ih
    obtain ⟨q', hq', htakes⟩ := steps_takes hq hstep
    have hold : ∀ item ∈ q.sources, Plays nl accepts d₀ (pre ++ [e]) item := by
      intro item hi
      obtain ⟨b, f, uri, calls, hm, hf, hs, he⟩ := hplays item hi
      exact ⟨b, f, uri, calls, hm.append [e], hf, hs, he⟩
    refine ⟨q', hq', fun item hi => ?_⟩
    cases he : e.playbackEvent nl c with
    | none =>
      rw [he] at htakes
      exact hold item (htakes ▸ hi)
    | some pe =>
      rw [he] at htakes
      rcases sources_of_playbackStep htakes hi with hi | ⟨uri, calls, rfl, hs, hitem⟩
      · exact hold item hi
      · exact ⟨c, e, uri, calls, hr.meets hstep.1, he, hs, hitem⟩

theorem texts_of_play {uri : Text} {calls : PlayCalls} (hp : d.world.playback = some p)
    (he : e.playbackEvent nl d = some (.play uri calls)) (hs : startAnswer calls ≠ .failure) :
    e.texts nl d = [sourceItemText (playedItem uri calls)] := by
  simp only [DaemonEvent.texts, hp, he, PlaybackEvent.texts, opPlayParseRecorded_eq, hs, if_false]

theorem mem_texts {s : Text} (hp : d.world.playback = some p) (h : s ∈ e.texts nl d) :
    (∃ uri calls, e.playbackEvent nl d = some (.play uri calls) ∧ startAnswer calls ≠ .failure ∧
      s = sourceItemText (playedItem uri calls)) ∨
    ∃ item ∈ p.sources, s = sourceItemText item := by
  cases he : e.playbackEvent nl d with
  | none => simp [DaemonEvent.texts, hp, he] at h
  | some pe =>
    simp only [DaemonEvent.texts, hp, he] at h
    cases pe with
    | play uri calls =>
      rw [PlaybackEvent.texts, opPlayParseRecorded_eq] at h
      split_ifs at h with hs
      · cases h
      · exact .inl ⟨uri, calls, rfl, hs, List.mem_singleton.mp h⟩
    | stop param stateChange =>
      rw [PlaybackEvent.texts, opStopParseRecorded_eq] at h
      exact .inr (mem_sourceItemFromIdRecorded h)
    | padAdded source pad caps => cases h

end

/-- Every text of a run fits exactly when the uri of each PLAY does: what a
STOP prints again was printed by a PLAY before. -/
theorem fitsToHash_iff (nl : Newlines) (accepts : Caps → Bool) (services : OpServices)
    (sink mux ac : Element) (es : List DaemonEvent) :
    (∀ d e, (daemonMachine nl accepts daemonParser).Meets
        (.start ⟨services, some (newPlaybackCtx sink mux ac)⟩) es d e →
      ∀ s ∈ e.texts nl d, FitsToHash s) ↔
    ∀ d e uri calls, (daemonMachine nl accepts daemonParser).Meets
        (.start ⟨services, some (newPlaybackCtx sink mux ac)⟩) es d e →
      e.playbackEvent nl d = some (.play uri calls) → startAnswer calls ≠ .failure →
      RoomForUri uri calls := by
  have hinv : ∀ pre d, (daemonMachine nl accepts daemonParser).Reaches
      (.start ⟨services, some (newPlaybackCtx sink mux ac)⟩) pre d → ∃ p, d.world.playback = some p ∧
        ∀ item ∈ p.sources, Plays nl accepts
          (.start ⟨services, some (newPlaybackCtx sink mux ac)⟩) pre item :=
    fun pre d hr => plays_of_reaches rfl rfl hr
  constructor
  · intro hfits d e uri calls hm he hs
    obtain ⟨pre, post, -, hr, -⟩ := id hm
    obtain ⟨p, hp, -⟩ := hinv pre d hr
    have hh := hfits d e hm (sourceItemText (playedItem uri calls))
    rw [texts_of_play hp he hs] at hh
    exact fitsToHash_playedItem.mp (hh (List.mem_singleton_self _))
  · intro hroom d e hm s hin
    obtain ⟨pre, post, rfl, hr, -⟩ := id hm
    obtain ⟨p, hp, hplays⟩ := hinv pre d hr
    rcases mem_texts hp hin with ⟨uri, calls, he, hs, rfl⟩ | ⟨item, hi, rfl⟩
    · exact fitsToHash_playedItem.mpr (hroom d e uri calls hm he hs)
    · obtain ⟨b, f, uri, calls, hmet, hf, hs, rfl⟩ := hplays item hi
      exact fitsToHash_playedItem.mpr (hroom b f uri calls (hmet.append _) hf hs)

def playRequest (uri : Text) : DaemonEvent := .handle (.ok (clientPlay uri)) (.ok ()) exampleHandlerCalls

/-- A uri of 2040 bytes is too long whatever the address and the time. -/
theorem playRequest_overflows {nl : Newlines} {uri : Text} (hne : uri ≠ [])
    (hdot : ∀ c ∈ uri, nl.dot c = true) (hnul : '\x00' ∉ uri) (hlen : 2040 ≤ (textBytes uri).length) :
    ∃ d, (daemonMachine nl (fun _ => true) daemonParser).Meets (.start exampleWorld)
        [.tick, playRequest uri] d (playRequest uri) ∧
      ∃ s ∈ (playRequest uri).texts nl d, ¬ FitsToHash s := by
  have hup : ∀ c ∈ "PLAY".toList, c.isUpper = true := List.all_eq_true.mp (by decide)
  have hsplit : splitMessage nl (clientPlay uri) = some ("PLAY".toList, uri) :=
    splitMessage_clientRequest (by decide) hup hne hdot
  have hstring : cString (clientPlay uri) = clientPlay uri := by
    rw [cString, List.takeWhile_eq_self_iff]
    intro c hc
    refine decide_eq_true ?_
    rintro rfl
    simp [clientPlay, clientRequest, hnul] at hc
  have hevent : (playRequest uri).playbackEvent nl (Daemon.start exampleWorld).tick =
      some (.play uri exampleHandlerCalls.play) := by
    have hwait : (Daemon.start exampleWorld).tick.socket = .waitRecv := rfl
    rw [playRequest, DaemonEvent.playbackEvent, if_pos hwait, hstring, requestEvent, hsplit]
    rfl
  refine ⟨_, ⟨[.tick], [], rfl, .cons ⟨rfl, rfl⟩ (.nil _), rfl⟩, ?_⟩
  refine ⟨sourceItemText (playedItem uri exampleHandlerCalls.play), ?_, ?_⟩
  · rw [texts_of_play rfl hevent (by decide)]
    exact List.mem_singleton_self _
  · rw [fitsToHash_playedItem]
    exact (roomForUri_bounds _ _).2 hlen

def longUri (n : ℕ) : Text := "http://localhost/".toList ++ List.replicate n 'a'

theorem mem_longUri {n : ℕ} {c : Char} (h : c ∈ longUri n) :
    Newlines.any.dot c = true ∧ c ≠ '\x00' ∧ c.utf8Size = 1 := by
  have hhost : "http://localhost/".toList.all (fun c =>
      Newlines.any.dot c && c != '\x00' && c.utf8Size == 1) = true := by decide
  rcases List.mem_append.mp h with h | h
  · simpa [and_assoc] using List.all_eq_true.mp hhost c h
  · rw [List.eq_of_mem_replicate h]
    decide

theorem length_longUri (n : ℕ) : (textBytes (longUri n)).length = 17 + n := by
  have hone : ∀ c ∈ longUri n, c.utf8Size = 1 := fun c hc => (mem_longUri hc).2.2
  calc (textBytes (longUri n)).length = (longUri n).length := length_textBytes hone
    _ = 17 + (List.replicate n 'a').length := List.length_append
    _ = 17 + n := congrArg (17 + ·) List.length_replicate

/-- The parser hands a uri of 2048 characters on, and PLAY overflows the buffer. -/
theorem not_fitsToHash_long :
    splitMessage .any (clientPlay (longUri 2031)) = some ("PLAY".toList, longUri 2031) ∧
    ∃ d, (daemonMachine .any (fun _ => true) daemonParser).Meets (.start exampleWorld)
        [.tick, playRequest (longUri 2031)] d (playRequest (longUri 2031)) ∧
      ∃ s ∈ (playRequest (longUri 2031)).texts .any d, ¬ FitsToHash s := by
  have hup : ∀ c ∈ "PLAY".toList, c.isUpper = true := List.all_eq_true.mp (by decide)
  have hne : ∀ n, longUri n ≠ [] := fun n => List.append_ne_nil_of_left_ne_nil (by decide) _
  have hdot : ∀ n, ∀ c ∈ longUri n, Newlines.any.dot c = true := fun n c hc => (mem_longUri hc).1
  have hnul : ∀ n, '\x00' ∉ longUri n := fun n hc => (mem_longUri hc).2.1 rfl
  refine ⟨splitMessage_clientRequest (by decide) hup (hne _) (hdot _), ?_⟩
  refine playRequest_overflows (hne _) (hdot _) (hnul _) ?_
  rw [length_longUri]
  decide

end GstPlayd
