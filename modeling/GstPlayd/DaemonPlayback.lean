import GstPlayd.Daemon
import GstPlayd.PlayHistory

/-! The playback context inside a run of the whole daemon: it goes through a
run of PLAY, STOP and "pad-added" events of its own. -/

namespace GstPlayd

open ElementGraph StepMachine StepMachine.Machine

variable {nl : Newlines} {accepts : Caps → Bool} {world world' : World} {p : PlaybackCtx}
  {calls : HandlerCalls} {m reply : Text} {d d' : Daemon} {es : List DaemonEvent}

def commandEvent (word param : Text) (calls : HandlerCalls) : Option PlaybackEvent :=
  if word = "PLAY".toList then some (.play param calls.play)
  else if word = "STOP".toList then some (.stop param calls.stop)
  else none

def requestEvent (nl : Newlines) (m : Text) (calls : HandlerCalls) : Option PlaybackEvent :=
  (splitMessage nl m).bind fun s => commandEvent s.1 s.2 calls

def DaemonEvent.playbackEvent (nl : Newlines) (d : Daemon) : DaemonEvent → Option PlaybackEvent
  | .handle (.ok msg) _ calls => if d.socket = .waitRecv then requestEvent nl (cString msg) calls else none
  | .background (.padAdded source pad caps) => some (.padAdded source pad caps)
  | _ => none

/-- Runs of the daemon with its own plugins, in which live items have distinct addresses. -/
def allocatorMachine (nl : Newlines) (accepts : Caps → Bool) : Machine Daemon DaemonEvent Halt where
  step := daemonStep nl accepts daemonParser
  allowed d e := e.Allowed d ∧ ∀ pe ∈ e.playbackEvent nl d, ∀ p ∈ d.world.playback, AllocatorAnswers p pe

def Takes (accepts : Caps → Bool) (p p' : PlaybackCtx) : Option PlaybackEvent → Prop
  | none => p' = p
  | some e => playbackStep accepts p e = .ok p'

theorem commandEvent_of_unknown {word : Text} (h : word ∉ commandWords) (param : Text) :
    commandEvent word param calls = none := by
  have hplay : word ≠ "PLAY".toList := fun hw => h (hw ▸ by decide)
  have hstop : word ≠ "STOP".toList := fun hw => h (hw ▸ by decide)
  rw [commandEvent, if_neg hplay, if_neg hstop]

theorem Handled.takes {word param : Text} {r : Result (Text × World)} (hh : Handled calls param world p word r)
    (hp : world.playback = some p) (h : r = .ok (reply, world')) :
    ∃ p', world'.playback = some p' ∧ Takes accepts p p' (commandEvent word param calls) := by
  cases hh with
  | ping =>
    obtain ⟨-, rfl⟩ := Prod.mk.inj (Except.ok.inj h)
    exact ⟨p, hp, rfl⟩
  | pubsub =>
    obtain ⟨-, rfl⟩ := Prod.mk.inj (Except.ok.inj h)
    exact ⟨p, hp, rfl⟩
  | quit =>
    obtain ⟨-, rfl⟩ := Prod.mk.inj (Except.ok.inj h)
    exact ⟨p, hp, rfl⟩
  | dumpgraph =>
    obtain ⟨-, rfl⟩ := Prod.mk.inj (Except.ok.inj h)
    exact ⟨p, rfl, rfl⟩
  | tags =>
    obtain ⟨p', hf, rfl⟩ := map_playback_ok h
    exact ⟨p', rfl, (opTagsParse_reply hf).1⟩
  | play =>
    obtain ⟨p', hf, rfl⟩ := map_playback_ok h
    exact ⟨p', rfl, by simp [commandEvent, Takes, playbackStep, hf, Except.map]⟩
  | stop =>
    obtain ⟨p', hf, rfl⟩ := map_playback_ok h
    exact ⟨p', rfl, by simp [commandEvent, Takes, playbackStep, hf, Except.map]⟩

theorem parseMessage_takes (hp : world.playback = some p)
    (h : parseMessage nl daemonParser m calls world = .ok (reply, world')) :
    ∃ p', world'.playback = some p' ∧ Takes accepts p p' (requestEvent nl m calls) := by
  rcases parseMessage_cases nl m calls hp with ⟨hfail, hunknown⟩ | ⟨word, param, hs, hh⟩
  · rw [hfail] at h
    obtain ⟨-, rfl⟩ := Prod.mk.inj (Except.ok.inj h)
    refine ⟨p, hp, ?_⟩
    cases hs : splitMessage nl m with
    | none => simp [requestEvent, hs, Takes]
    | some s =>
      rw [requestEvent, hs, Option.bind_some, commandEvent_of_unknown (hunknown s.1 s.2 hs)]
      rfl
  · rw [requestEvent, hs, Option.bind_some]
    exact hh.takes hp h

theorem backgroundStep_takes {b : Background} (hp : world.playback = some p)
    (h : backgroundStep accepts world b = .ok world') :
    ∃ p', world'.playback = some p' ∧
      Takes accepts p p' ((DaemonEvent.background b).playbackEvent nl d) := by
  cases b with
  | sigint =>
    obtain rfl := Except.ok.inj h
    exact ⟨p, hp, rfl⟩
  | pipelineMessage message published =>
    obtain rfl := Except.ok.inj h
    exact ⟨p, hp, rfl⟩
  | padAdded source pad caps =>
    cases hs : padAdded accepts source pad caps p with
    | error k => simp [backgroundStep, hp, hs, Except.map] at h
    | ok p' =>
      simp only [backgroundStep, hp, hs, Except.map, Except.ok.injEq] at h
      exact ⟨p', h ▸ rfl, hs⟩

theorem steps_takes (hp : d.world.playback = some p) {e : DaemonEvent}
    (hstep : (daemonMachine nl accepts daemonParser).Steps d e d') :
    ∃ p', d'.world.playback = some p' ∧ Takes accepts p p' (e.playbackEvent nl d) := by
  cases e with
  | tick => exact ⟨p, by rw [(steps_tick hstep).2.1, hp], rfl⟩
  | background b => exact backgroundStep_takes hp (steps_background hstep).1
  | handle recv send calls =>
    rcases steps_handle hstep with ⟨-, hworld, -, hno⟩ | ⟨msg, data, hsock, rfl, hd, -, -⟩
    · refine ⟨p, hworld ▸ hp, ?_⟩
      rcases hno with hsock | ⟨err, rfl⟩
      · cases recv <;> simp [DaemonEvent.playbackEvent, hsock, Takes]
      · rfl
    · rw [DaemonEvent.playbackEvent, if_pos hsock]
      exact parseMessage_takes hp hd

theorem playback_of_reaches (hp : d.world.playback = some p)
    (hr : (daemonMachine nl accepts daemonParser).Reaches d es d') : ∃ p', d'.world.playback = some p' := by
  refine hr.invariant (P := fun d => ∃ p, d.world.playback = some p) ⟨p, hp⟩ ?_
  intro c e c' hh hstep
  obtain ⟨q, hq⟩ := hh
  obtain ⟨q', hq', -⟩ := steps_takes hq hstep
  exact ⟨q', hq'⟩

theorem steps_playback (hp : d.world.playback = some p) {e : DaemonEvent}
    (hstep : (allocatorMachine nl accepts).Steps d e d') :
    ∃ fs p', (playbackMachine accepts).Reaches p fs p' ∧ d'.world.playback = some p' := by
  have hdaemon : (daemonMachine nl accepts daemonParser).Steps d e d' := ⟨hstep.1.1, hstep.2⟩
  obtain ⟨p', hp', ht⟩ := steps_takes hp hdaemon
  cases he : e.playbackEvent nl d with
  | none =>
    rw [he] at ht
    exact ⟨[], p, .nil p, ht ▸ hp'⟩
  | some pe =>
    rw [he] at ht
    have hallow : AllocatorAnswers p pe := hstep.1.2 pe he p hp
    exact ⟨[pe], p', .cons ⟨hallow, ht⟩ (.nil p'), hp'⟩

/-- In every state of a daemon that came up, the playback context is one that
requests and pads alone lead to, and its sources are the live items of their
history. -/
theorem daemon_runs_playback {boot : HandlerCalls} {world₀ : World} {parser : DaemonParser}
    (hboot : registerPlugins parserOperations parseNew boot world₀ = .ok (parser, world))
    (h : (allocatorMachine nl accepts).Reaches (.start world) es d) :
    ∃ sink mux ac p pes, d.world.playback = some p ∧
      (playbackMachine accepts).Reaches (newPlaybackCtx sink mux ac) pes p ∧
      p.sources = (history pes).entries := by
  obtain ⟨-, -, sink, mux, ac, hw⟩ := registerPlugins_ok hboot
  obtain ⟨pes, p, hr, hp⟩ := h.simulate (R := fun d p => d.world.playback = some p)
    (fun _ _ _ _ hp hstep => steps_playback hp hstep) hw
  exact ⟨sink, mux, ac, p, pes, hp, hr, (follows_of_reaches hr).sources⟩

end GstPlayd
