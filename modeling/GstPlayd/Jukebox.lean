import GstPlayd.DaemonPlayback
import GstPlayd.Linearization

/-! The daemon as its clients may think of it, a list of tracks that play, and
that whatever the daemon does is what such a jukebox may do. -/

namespace GstPlayd

open ElementGraph StepMachine StepMachine.Machine

structure Track where
  id : UInt32
  uri : Text
  deriving DecidableEq

def Track.hasId (id : UInt32) (track : Track) : Bool := track.id == id

/-- The tracks that play are listed newest first, `announced` is what has gone
to the subscribers. -/
structure Jukebox where
  live : List Track
  announced : List Text
  address : Text
  quitting : Bool

inductive Jukebox.Serves (j : Jukebox) : Text → Text → Text → Jukebox → Prop
  | ping (param : Text) (taken : Bool) : Serves j "PING".toList param ("OK Message was ".toList ++ param)
      { j with announced := j.announced ++ if taken then ["OK Message was ".toList ++ param] else [] }
  | pubsub (param : Text) : Serves j "PUBSUB".toList param ("OK ".toList ++ j.address) j
  | quit (param : Text) : Serves j "QUIT".toList param "OK".toList { j with quitting := true }
  | tags {param reply : Text} (h : (∃ message, reply = "FAIL ".toList ++ message) ∨
      ∃ fmt lists visit, visit.Perm (tagTableOf fmt lists).entries ∧ reply = tagsReply visit) :
      Serves j "TAGS".toList param reply j
  | play (uri : Text) (id : UInt32) :
      Serves j "PLAY".toList uri (playerIdReply id) { j with live := ⟨id, uri⟩ :: j.live }
  | stop {param : Text} (h : j.live.any (Track.hasId (stopId param)) = true) :
      Serves j "STOP".toList param (playerIdReply (stopId param))
        { j with live := j.live.eraseP (Track.hasId (stopId param)) }
  | stopInvalid {param : Text} (h : j.live.any (Track.hasId (stopId param)) = false) :
      Serves j "STOP".toList param "FAIL id is invalid".toList j
  | dumpgraph (param : Text) : Serves j "DUMPGRAPH".toList param "OK".toList j

/-- Messages are byte strings that end at their first NUL, both ways. -/
def jukeboxSpec (nl : Newlines) : Linearization.Spec Jukebox Text Text where
  serves j m r j' :=
    (r = "FAIL Message is Invalid".toList ∧ j' = j ∧
      ∀ word param, splitMessage nl (cString m) = some (word, param) → word ∉ commandWords) ∨
    ∃ word param reply, splitMessage nl (cString m) = some (word, param) ∧ r = cString reply ∧
      j.Serves word param reply j'
  drifts j j' := j' = { j with quitting := true } ∨
    ∃ message : PipelineMessage, ∃ text, message.text = some text ∧
      j' = { j with announced := j.announced ++ [text] }

def trackOf (item : SourceItem) : Track := ⟨sourceItemToId item, item.uri⟩

def jukeboxOf (world : World) : Jukebox where
  live := world.playback.elim [] fun p => p.sources.map trackOf
  announced := world.services.pubSub.sent
  address := world.services.pubSub.addr
  quitting := world.services.shouldQuit

variable {nl : Newlines} {accepts : Caps → Bool} {world world' : World} {p p' : PlaybackCtx}
  {calls : HandlerCalls} {m param reply word : Text} {d d' : Daemon} {es : List DaemonEvent}

theorem live_jukeboxOf (hp : world.playback = some p) :
    (jukeboxOf world).live = p.sources.map trackOf := by
  show world.playback.elim [] (fun p => p.sources.map trackOf) = _
  rw [hp]
  rfl

theorem serves_play {calls : PlayCalls} (hp : world.playback = some p)
    (h : opPlayParse param calls p = .ok (reply, p')) :
    (jukeboxOf world).Serves "PLAY".toList param reply (jukeboxOf { world with playback := some p' }) := by
  rw [opPlayParse_eq] at h
  split_ifs at h with hs
  obtain ⟨rfl, rfl⟩ := Prod.mk.inj (Except.ok.inj h)
  have hserve := Jukebox.Serves.play (j := jukeboxOf world) param (sourceItemToId (playedItem param calls))
  rw [live_jukeboxOf hp] at hserve
  exact hserve

theorem hasId_trackOf (id : UInt32) (item : SourceItem) : (trackOf item).hasId id = hasId id item := rfl

theorem eraseP_trackOf {newer older : List SourceItem} {item : SourceItem} {id : UInt32}
    (hnew : ∀ x ∈ newer, ¬ hasId id x = true) (hid : hasId id item = true) :
    ((newer ++ item :: older).map trackOf).eraseP (Track.hasId id) = (newer ++ older).map trackOf := by
  have hnot : ∀ t ∈ newer.map trackOf, ¬ t.hasId id = true := by
    intro t ht
    obtain ⟨x, hx, rfl⟩ := List.mem_map.mp ht
    exact hnew x hx
  have hfirst : (trackOf item).hasId id = true := hid
  rw [List.map_append, List.map_cons, List.eraseP_append_right _ hnot, List.eraseP_cons_of_pos hfirst,
    List.map_append]

theorem serves_stop {stateChange : GstStateChangeReturn} (hp : world.playback = some p)
    (hd : (p.sources.map SourceItem.address).Nodup)
    (h : opStopParse param stateChange p = .ok (reply, p')) :
    (jukeboxOf world).Serves "STOP".toList param reply (jukeboxOf { world with playback := some p' }) := by
  cases hf : sourceItemFromId p.sources (stopId param) with
  | none =>
    rw [opStopParse_of_none hf] at h
    obtain ⟨rfl, rfl⟩ := Prod.mk.inj (Except.ok.inj h)
    have hworld : { world with playback := some p } = world := by rw [← hp]
    rw [hworld]
    apply Jukebox.Serves.stopInvalid
    rw [live_jukeboxOf hp, List.any_map, List.any_eq_false]
    exact fun item hi => by simpa [hasId_trackOf, hasId] using sourceItemFromId_eq_none_iff.mp hf item hi
  | some item =>
    rw [opStopParse_of_some hf] at h
    split_ifs at h with hs
    obtain ⟨rfl, rfl⟩ := Prod.mk.inj (Except.ok.inj h)
    obtain ⟨hid, newer, older, hsources, hnew⟩ := List.find?_eq_some_iff_append.mp hf
    have hnewer : ∀ x ∈ newer, ¬ hasId (stopId param) x = true := fun x hx => by
      simpa [hasId] using hnew x hx
    have hany : (jukeboxOf world).live.any (Track.hasId (stopId param)) = true := by
      rw [live_jukeboxOf hp, hsources, List.any_map, List.any_eq_true]
      exact ⟨item, by simp, hid⟩
    have hserve := Jukebox.Serves.stop hany
    rw [live_jukeboxOf hp, hsources, eraseP_trackOf hnewer hid] at hserve
    rw [hsources] at hd
    have hremove : gSlistRemove p.sources item = newer ++ older := by
      rw [hsources, gSlistRemove_middle hd]
    rw [hremove]
    exact hserve

/-- The handlers of the daemon answer as a jukebox does. -/
theorem Handled.serves {r : Result (Text × World)} (hh : Handled calls param world p word r)
    (hp : world.playback = some p) (hd : (p.sources.map SourceItem.address).Nodup)
    (h : r = .ok (reply, world')) : (jukeboxOf world).Serves word param reply (jukeboxOf world') := by
  have hworld : { world with playback := some p } = world := by rw [← hp]
  cases hh with
  | ping =>
    obtain ⟨rfl, rfl⟩ := Prod.mk.inj (Except.ok.inj h)
    have hserve := Jukebox.Serves.ping (j := jukeboxOf world) param calls.published
    by_cases hpub : calls.published = true
    · rw [if_pos hpub] at hserve
      simp only [pubsubSendMessage, hpub, if_true]
      exact hserve
    · rw [if_neg hpub, List.append_nil] at hserve
      simp only [pubsubSendMessage, hpub]
      exact hserve
  | pubsub =>
    obtain ⟨rfl, rfl⟩ := Prod.mk.inj (Except.ok.inj h)
    exact .pubsub param
  | quit =>
    obtain ⟨rfl, rfl⟩ := Prod.mk.inj (Except.ok.inj h)
    exact .quit param
  | dumpgraph =>
    obtain ⟨rfl, rfl⟩ := Prod.mk.inj (Except.ok.inj h)
    rw [hworld]
    exact .dumpgraph param
  | tags =>
    obtain ⟨p', hf, rfl⟩ := map_playback_ok h
    obtain ⟨rfl, hreply⟩ := opTagsParse_reply hf
    rw [hworld]
    refine .tags ?_
    rcases hreply with hfail | ⟨lists, visit, hvisit, hr⟩
    · exact .inl hfail
    · exact .inr ⟨_, lists, visit, hvisit, hr⟩
  | play =>
    obtain ⟨p', hf, rfl⟩ := map_playback_ok h
    exact serves_play hp hf
  | stop =>
    obtain ⟨p', hf, rfl⟩ := map_playback_ok h
    exact serves_stop hp hd hf

theorem parseMessage_serves {data : Text} (hp : world.playback = some p)
    (hd : (p.sources.map SourceItem.address).Nodup)
    (h : parseMessage nl daemonParser (cString m) calls world = .ok (data, world')) :
    (jukeboxSpec nl).serves (jukeboxOf world) m (cString data) (jukeboxOf world') := by
  rcases parseMessage_cases nl (cString m) calls hp with ⟨hfail, hunknown⟩ | ⟨word, param, hs, hh⟩
  · rw [hfail] at h
    obtain ⟨rfl, rfl⟩ := Prod.mk.inj (Except.ok.inj h)
    exact .inl ⟨rfl, rfl, hunknown⟩
  · exact .inr ⟨word, param, data, hs, rfl, hh.serves hp hd h⟩

theorem backgroundStep_drifts {b : Background} (hp : world.playback = some p)
    (h : backgroundStep accepts world b = .ok world') :
    (jukeboxSpec nl).drifts (jukeboxOf world) (jukeboxOf world') ∨ jukeboxOf world = jukeboxOf world' := by
  cases b with
  | sigint =>
    obtain rfl := Except.ok.inj h
    exact .inl (.inl rfl)
  | pipelineMessage message published =>
    obtain rfl := Except.ok.inj h
    cases ht : message.text with
    | none =>
      simp only [playbackBusCallback, ht]
      exact .inr trivial
    | some text =>
      simp only [playbackBusCallback, ht, pubsubSendMessage]
      by_cases hpub : published = true
      · rw [if_pos hpub]
        exact .inl (.inr ⟨message, text, ht, rfl⟩)
      · rw [if_neg hpub]
        exact .inr rfl
  | padAdded source pad caps =>
    cases hs : padAdded accepts source pad caps p with
    | error k => simp [backgroundStep, hp, hs, Except.map] at h
    | ok p' =>
      simp only [backgroundStep, hp, hs, Except.map, Except.ok.injEq] at h
      have hstep : playbackStep accepts p (.padAdded source pad caps) = .ok p' := hs
      obtain ⟨pipeline, rfl⟩ := playbackStep_padAdded hstep
      refine .inr ?_
      subst h
      simp only [jukeboxOf, hp]
      rfl

end GstPlayd
