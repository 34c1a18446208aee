import GstPlayd.DaemonPlayback

/-! Requests that arrive after QUIT. The flag that QUIT sets is looked at when
a tick begins, so the loop that took the QUIT still empties the socket. -/

namespace GstPlayd

open ElementGraph StepMachine StepMachine.Machine

variable {nl : Newlines} {accepts : Caps → Bool} {world world' : World} {p : PlaybackCtx}
  {calls : HandlerCalls} {m word param reply : Text} {d d' : Daemon} {es pre post : List DaemonEvent}

def Daemon.shouldQuit (d : Daemon) : Bool := d.world.services.shouldQuit

def DaemonEvent.isHandle : DaemonEvent → Bool
  | .handle _ _ _ => true
  | _ => false

def DaemonEvent.isTick : DaemonEvent → Bool
  | .tick => true
  | _ => false

/-- Once the flag is set, no request is taken from the socket any more. -/
def QuitIsBarrier (nl : Newlines) (accepts : Caps → Bool) (world : World) : Prop :=
  ∀ pre post d d', (daemonMachine nl accepts daemonParser).Reaches (.start world) pre d →
    d.shouldQuit = true → (daemonMachine nl accepts daemonParser).Reaches d post d' → d'.log = d.log

theorem Handled.shouldQuit {r : Result (Text × World)} (hh : Handled calls param world p word r)
    (hq : world.services.shouldQuit = true) (h : r = .ok (reply, world')) :
    world'.services.shouldQuit = true := by
  cases hh with
  | ping =>
    obtain ⟨-, rfl⟩ := Prod.mk.inj (Except.ok.inj h)
    exact hq
  | pubsub =>
    obtain ⟨-, rfl⟩ := Prod.mk.inj (Except.ok.inj h)
    exact hq
  | quit =>
    obtain ⟨-, rfl⟩ := Prod.mk.inj (Except.ok.inj h)
    rfl
  | dumpgraph =>
    obtain ⟨-, rfl⟩ := Prod.mk.inj (Except.ok.inj h)
    exact hq
  | tags =>
    obtain ⟨p', -, rfl⟩ := map_playback_ok h
    exact hq
  | play =>
    obtain ⟨p', -, rfl⟩ := map_playback_ok h
    exact hq
  | stop =>
    obtain ⟨p', -, rfl⟩ := map_playback_ok h
    exact hq

theorem parseMessage_shouldQuit (hp : world.playback = some p) (hq : world.services.shouldQuit = true)
    (h : parseMessage nl daemonParser m calls world = .ok (reply, world')) :
    world'.services.shouldQuit = true := by
  rcases parseMessage_cases nl m calls hp with ⟨hfail, -⟩ | ⟨word, param, -, hh⟩
  · rw [hfail] at h
    obtain ⟨-, rfl⟩ := Prod.mk.inj (Except.ok.inj h)
    exact hq
  · exact hh.shouldQuit hq h

theorem backgroundStep_shouldQuit {b : Background} (hq : world.services.shouldQuit = true)
    (h : backgroundStep accepts world b = .ok world') : world'.services.shouldQuit = true := by
  cases b with
  | sigint =>
    obtain rfl := Except.ok.inj h
    rfl
  | pipelineMessage message published =>
    obtain rfl := Except.ok.inj h
    cases message <;> exact hq
  | padAdded source pad caps =>
    cases hw : world.playback with
    | none =>
      simp only [backgroundStep, hw, Except.ok.injEq] at h
      exact h ▸ hq
    | some p =>
      simp only [backgroundStep, hw] at h
      cases hs : padAdded accepts source pad caps p with
      | error k => simp [hs, Except.map] at h
      | ok p' =>
        simp only [hs, Except.map, Except.ok.injEq] at h
        exact h ▸ hq

theorem shouldQuit_step {e : DaemonEvent} (hp : d.world.playback = some p) (hq : d.shouldQuit = true)
    (hstep : (daemonMachine nl accepts daemonParser).Steps d e d') : d'.shouldQuit = true := by
  cases e with
  | tick => rwa [Daemon.shouldQuit, (steps_tick hstep).2.1]
  | background b => exact backgroundStep_shouldQuit hq (steps_background hstep).1
  | handle recv send calls =>
    rcases steps_handle hstep with ⟨-, hworld, -, -⟩ | ⟨msg, data, -, -, hd, -, -⟩
    · rwa [Daemon.shouldQuit, hworld]
    · exact parseMessage_shouldQuit hp hq hd

theorem phase_background {b : Background}
    (hstep : (daemonMachine nl accepts daemonParser).Steps d (.background b) d') : d'.phase = d.phase := by
  obtain ⟨-, world, -, rfl⟩ := steps_background_iff.mp hstep
  rfl

/-- Outside the drain loop a daemon that is to quit takes no request, and its
next tick is its last. -/
theorem stops_step {e : DaemonEvent} (hq : d.shouldQuit = true) (hphase : d.phase ≠ .draining)
    (hstep : (daemonMachine nl accepts daemonParser).Steps d e d') :
    d'.phase ≠ .draining ∧ d'.log = d.log ∧ e.isHandle = false ∧
      (e.isTick = true ∨ d.phase = .stopped → d'.phase = .stopped) := by
  cases e with
  | handle recv send calls => exact absurd hstep.1 hphase
  | background b =>
    have hb := phase_background hstep
    rw [hb]
    exact ⟨hphase, (steps_background hstep).2.2, rfl, fun h => h.resolve_left (by simp [DaemonEvent.isTick])⟩
  | tick =>
    obtain rfl := Except.ok.inj hstep.2
    have hs : d.tick.phase = .stopped := congrArg Daemon.phase (if_pos hq)
    exact ⟨by simp [hs], (steps_tick hstep).2.2, rfl, fun _ => hs⟩

theorem stops_run (hp : d.world.playback = some p) (hq : d.shouldQuit = true) (hphase : d.phase ≠ .draining)
    (hr : (daemonMachine nl accepts daemonParser).Reaches d es d') :
    d'.log = d.log ∧ (∀ e ∈ es, e.isHandle = false) ∧
      ((∃ e ∈ es, e.isTick = true) ∨ d.phase = .stopped → d'.phase = .stopped) := by
  induction hr generalizing p with
  | nil s => exact ⟨rfl, by simp, fun h => h.resolve_left (by simp)⟩
  | cons hstep _ ih =>
    obtain ⟨hphase', hlog, hno, hstop⟩ := stops_step hq hphase hstep
    obtain ⟨p', hp', -⟩ := steps_takes hp hstep
    obtain ⟨hlog', hno', hstop'⟩ := ih hp' (shouldQuit_step hp hq hstep) hphase'
    refine ⟨hlog'.trans hlog, ?_, ?_⟩
    · intro e he
      rcases List.mem_cons.mp he with rfl | he
      · exact hno
      · exact hno' e he
    · intro h
      apply hstop'
      rcases h with ⟨e, he, ht⟩ | hs
      · rcases List.mem_cons.mp he with rfl | he
        · exact .inr (hstop (.inl ht))
        · exact .inl ⟨e, he, ht⟩
      · exact .inr (hstop (.inr hs))

/-- How a run goes on once the flag is set: the drain loop that is running
comes to its end, and after it nothing is received, until a tick stops the
main loop. -/
structure QuitsAfterDrain (nl : Newlines) (accepts : Caps → Bool) (d : Daemon) (post : List DaemonEvent)
    (d' c : Daemon) (drain rest : List DaemonEvent) : Prop where
  split : post = drain ++ rest
  drains : (daemonMachine nl accepts daemonParser).Reaches d drain c
  same_tick : ∀ e ∈ drain, e.isTick = false
  ended : rest = [] ∨ c.phase ≠ .draining
  nothing_received : d'.log = c.log ∧ ∀ e ∈ rest, e.isHandle = false
  stops : (∃ e ∈ rest, e.isTick = true) → d'.phase = .stopped

theorem quitsAfterDrain_of_reaches (hp : d.world.playback = some p) (hq : d.shouldQuit = true)
    (hr : (daemonMachine nl accepts daemonParser).Reaches d es d') :
    ∃ c drain rest, QuitsAfterDrain nl accepts d es d' c drain rest := by
  induction hr generalizing p with
  | nil s => exact ⟨s, [], [], rfl, .nil s, by simp, .inl rfl, ⟨rfl, by simp⟩, by simp⟩
  | @cons s t u e es hstep hr ih =>
    by_cases hphase : s.phase = .draining
    · obtain ⟨p', hp', -⟩ := steps_takes hp hstep
      obtain ⟨c, drain, rest, h⟩ := ih hp' (shouldQuit_step hp hq hstep)
      refine ⟨c, e :: drain, rest, ?_, .cons hstep h.drains, ?_, h.ended, h.nothing_received, h.stops⟩
      · rw [h.split, List.cons_append]
      · intro x hx
        rcases List.mem_cons.mp hx with rfl | hx
        · cases x with
          | tick => exact absurd (hstep.1.symm.trans hphase) (by decide)
          | handle recv send calls => rfl
          | background b => rfl
        · exact h.same_tick x hx
    · obtain ⟨hlog, hno, hstop⟩ := stops_run hp hq hphase (.cons hstep hr)
      exact ⟨s, [], e :: es, rfl, .nil s, by simp, .inr hphase, ⟨hlog, hno⟩, fun h => hstop (.inl h)⟩

/-- QUIT does not keep the requests behind it in the queue from being
dispatched, but only in the same tick. -/
theorem quits_after_drain {boot : HandlerCalls} {world₀ : World} {parser : DaemonParser}
    (hboot : registerPlugins parserOperations parseNew boot world₀ = .ok (parser, world))
    (hpre : (daemonMachine nl accepts parser).Reaches (.start world) pre d) (hq : d.shouldQuit = true)
    (hpost : (daemonMachine nl accepts parser).Reaches d post d') :
    ∃ c drain rest, QuitsAfterDrain nl accepts d post d' c drain rest := by
  obtain ⟨rfl, -, sink, mux, ac, hw⟩ := registerPlugins_ok hboot
  obtain ⟨p, hp⟩ := playback_of_reaches (d := .start world) hw hpre
  exact quitsAfterDrain_of_reaches hp hq hpost

def quitRequest : DaemonEvent := .handle (.ok "QUIT ".toList) (.ok ()) exampleHandlerCalls

def pingRequest : DaemonEvent := .handle (.ok "PING hi".toList) (.ok ()) exampleHandlerCalls

theorem reaches_quit_ping :
    ∃ d d', (daemonMachine .any (fun _ => true) daemonParser).Reaches (.start exampleWorld)
        [.tick, quitRequest] d ∧ d.shouldQuit = true ∧ d.log = [.received "QUIT ".toList, .sent "OK".toList] ∧
      (daemonMachine .any (fun _ => true) daemonParser).Reaches d [pingRequest] d' ∧
      d'.log = d.log ++ [.received "PING hi".toList, .sent "OK Message was hi".toList] := by
  obtain ⟨world, hquit, hq⟩ : ∃ world, parseMessage .any daemonParser (cString "QUIT ".toList)
      exampleHandlerCalls exampleWorld = .ok ("OK".toList, world) ∧ world.services.shouldQuit = true :=
    ⟨_, rfl, rfl⟩
  have htick : (daemonMachine .any (fun _ => true) daemonParser).Reaches (.start exampleWorld) [.tick]
      (Daemon.start exampleWorld).tick := .cons ⟨rfl, rfl⟩ (.nil _)
  have hsplit : splitMessage .any (cString "PING hi".toList) = some ("PING".toList, "hi".toList) := by decide
  have hping : parseMessage .any daemonParser (cString "PING hi".toList) exampleHandlerCalls world = _ :=
    parseMessage_of_lookup hsplit rfl _ _
  exact ⟨_, _, reaches_snoc_iff.mpr ⟨_, htick, steps_of_dispatch rfl rfl hquit⟩, hq, rfl,
    .cons (steps_of_dispatch rfl rfl hping) (.nil _), rfl⟩

/-- A PING that waits behind a QUIT is answered. -/
theorem quit_not_barrier : ¬ QuitIsBarrier .any (fun _ => true) exampleWorld := by
  intro h
  obtain ⟨d, d', hpre, hq, -, hpost, hlog⟩ := reaches_quit_ping
  have hh := congrArg List.length ((h _ _ d d' hpre hq hpost).symm.trans hlog)
  rw [List.length_append] at hh
  simp at hh

theorem quits_after_drain_quit_ping :
    ∃ d d' c drain rest, d.shouldQuit = true ∧
      QuitsAfterDrain .any (fun _ => true) d [pingRequest] d' c drain rest := by
  obtain ⟨d, d', hpre, hq, -, hpost, -⟩ := reaches_quit_ping
  have hboot : registerPlugins parserOperations parseNew exampleHandlerCalls exampleWorld =
    .ok (daemonParser, exampleWorld) := rfl
  obtain ⟨c, drain, rest, h⟩ := quits_after_drain hboot hpre hq hpost
  exact ⟨d, d', c, drain, rest, hq, h⟩

end GstPlayd
