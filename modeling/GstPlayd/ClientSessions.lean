import GstPlayd.ClientRequest
import GstPlayd.Jukebox

/-! One daemon and any number of clients that send it requests and wait for
the replies, each on a socket of its own. -/

namespace GstPlayd

open ElementGraph StepMachine StepMachine.Machine Linearization

/-- The reply to a message taken from the socket, and whether the socket sends
it. -/
def serveRequest (nl : Newlines) (d : Daemon) (m : Text) (answer : Except Errno Unit × HandlerCalls) :
    Result ((Text × Bool) × Daemon) :=
  (parseMessage nl daemonParser (cString m) answer.2 d.world).map fun r =>
    ((cString r.1, answer.1.isOk),
      { d with
        socket := (zmqMsgSend .waitSend answer.1).2
        world := r.2
        log := logExchange d.log m r.1 (zmqMsgSend .waitSend answer.1).1 })

def DaemonEvent.Receives (d : Daemon) : DaemonEvent → Prop
  | .handle (.ok _) _ _ => d.socket = .waitRecv
  | _ => False

/-- The daemon of `allocatorMachine`, on which `EAGAIN` says that no message
waits. -/
def sessionServer (nl : Newlines) (accepts : Caps → Bool) :
    Server Daemon Text Text (Except Errno Unit × HandlerCalls) DaemonEvent Halt where
  serve := serveRequest nl
  drift := daemonStep nl accepts daemonParser
  mayServe d m answer :=
    d.socket = .waitRecv ∧ (allocatorMachine nl accepts).allowed d (.handle (.ok m) answer.1 answer.2)
  mayDrift d e := ¬ e.Receives d ∧ (allocatorMachine nl accepts).allowed d e
  idles e := ∃ send calls, e = .handle (.error .eagain) send calls

def sessionMachine (nl : Newlines) (accepts : Caps → Bool) (κ : Type) [DecidableEq κ] :
    Machine (Net Daemon κ Text Text)
      (Event κ Text Text (Except Errno Unit × HandlerCalls) DaemonEvent) Halt :=
  netMachine (sessionServer nl accepts)

def exchanges {κ : Type} (n : Net Daemon κ Text Text) : List (Text × Text) :=
  n.served.map fun o => (o.request, o.reply)

section

variable {nl : Newlines} {accepts : Caps → Bool} {world : World} {parser : DaemonParser}
  {boot : HandlerCalls} {world₀ : World} {d d' : Daemon} {m r : Text}
  {answer : Except Errno Unit × HandlerCalls}
  {sent : Bool} {e : DaemonEvent} {κ : Type} [DecidableEq κ] {n n' : Net Daemon κ Text Text}
  {es : List (Event κ Text Text (Except Errno Unit × HandlerCalls) DaemonEvent)}

theorem serveRequest_ok (h : serveRequest nl d m answer = .ok ((r, sent), d')) :
    ∃ data, parseMessage nl daemonParser (cString m) answer.2 d.world = .ok (data, d'.world) ∧
      r = cString data ∧ sent = answer.1.isOk ∧
      d' = { d with
        socket := (zmqMsgSend .waitSend answer.1).2
        world := d'.world
        log := logExchange d.log m data (zmqMsgSend .waitSend answer.1).1 } := by
  cases hp : parseMessage nl daemonParser (cString m) answer.2 d.world with
  | error k => simp [serveRequest, hp, Except.map] at h
  | ok reply =>
    simp only [serveRequest, hp, Except.map, Except.ok.injEq, Prod.mk.injEq] at h
    obtain ⟨⟨rfl, rfl⟩, rfl⟩ := h
    exact ⟨reply.1, rfl, rfl, rfl, rfl⟩

/-- Serving a client is what `handle_message` does on its message. -/
theorem steps_of_serve (hm : (sessionServer nl accepts).mayServe d m answer)
    (hs : serveRequest nl d m answer = .ok ((r, sent), d')) :
    (allocatorMachine nl accepts).Steps d (.handle (.ok m) answer.1 answer.2) d' := by
  obtain ⟨hsock, hallow⟩ := hm
  obtain ⟨data, hp, -, -, hd'⟩ := serveRequest_ok hs
  have hstep : (daemonMachine nl accepts daemonParser).Steps d (.handle (.ok m) answer.1 answer.2) _ :=
    steps_of_dispatch hallow.1 hsock hp
  exact ⟨hallow, hd' ▸ hstep.2⟩

theorem daemon_of_sessions (h : (sessionMachine nl accepts κ).Reaches n es n') :
    ∃ fs, (allocatorMachine nl accepts).Reaches n.server fs n'.server := by
  refine h.invariant (P := fun t => ∃ fs, (allocatorMachine nl accepts).Reaches n.server fs t.server)
    ⟨[], .nil _⟩ ?_
  intro t e u hh hs
  obtain ⟨fs, hr⟩ := hh
  cases netMove_of_steps hs with
  | send _ => exact ⟨fs, hr⟩
  | arrive _ => exact ⟨fs, hr⟩
  | deliver _ => exact ⟨fs, hr⟩
  | lose _ => exact ⟨fs, hr⟩
  | serve _ hm hserve => exact ⟨_, reaches_snoc_iff.mpr ⟨_, hr, steps_of_serve hm hserve⟩⟩
  | drift hm hdrift _ => exact ⟨_, reaches_snoc_iff.mpr ⟨_, hr, hm.2, hdrift⟩⟩

/-- The source list is that of some history of requests. -/
def Playing (d : Daemon) : Prop := ∃ p r, d.world.playback = some p ∧ Follows p r

theorem Playing.step (h : Playing d) (hs : (allocatorMachine nl accepts).Steps d e d') : Playing d' := by
  obtain ⟨p, r, hp, hf⟩ := h
  obtain ⟨fs, p', hr, hp'⟩ := steps_playback hp hs
  have hfollows : ∃ r, Follows p' r :=
    hr.invariant (P := fun p => ∃ r, Follows p r) ⟨r, hf⟩ fun _ _ _ hh hstep => by
      obtain ⟨r, hf⟩ := hh
      exact ⟨_, follows_step hf hstep⟩
  obtain ⟨r', hf'⟩ := hfollows
  exact ⟨p', r', hp', hf'⟩

theorem playing_boot (hboot : registerPlugins parserOperations parseNew boot world₀ = .ok (parser, world)) :
    Playing (.start world) := by
  obtain ⟨-, -, sink, mux, ac, hw⟩ := registerPlugins_ok hboot
  exact ⟨_, _, hw, follows_new⟩

theorem drift_jukebox (hplay : Playing d) (hm : (sessionServer nl accepts).mayDrift d e)
    (hs : daemonStep nl accepts daemonParser d e = .ok d') :
    (jukeboxSpec nl).drifts (jukeboxOf d.world) (jukeboxOf d'.world) ∨
      jukeboxOf d.world = jukeboxOf d'.world := by
  obtain ⟨p, r, hp, hf⟩ := hplay
  have hstep : (daemonMachine nl accepts daemonParser).Steps d e d' := ⟨hm.2.1, hs⟩
  cases e with
  | tick => exact .inr (by rw [(steps_tick hstep).2.1])
  | background b => exact backgroundStep_drifts hp (steps_background hstep).1
  | handle recv send calls =>
    rcases steps_handle hstep with ⟨-, hworld, -, -⟩ | ⟨msg, data, hsock, rfl, -, -, -⟩
    · exact .inr (by rw [hworld])
    · exact absurd hsock hm.1

theorem serve_jukebox (hplay : Playing d) (hm : (sessionServer nl accepts).mayServe d m answer)
    (hs : serveRequest nl d m answer = .ok ((r, sent), d')) :
    (jukeboxSpec nl).serves (jukeboxOf d.world) m r (jukeboxOf d'.world) ∧ Playing d' := by
  have hstep := hplay.step (steps_of_serve hm hs)
  obtain ⟨p, q, hp, hf⟩ := hplay
  obtain ⟨data, hparse, rfl, -, -⟩ := serveRequest_ok hs
  exact ⟨parseMessage_serves hp hf.distinct hparse, hstep⟩

/-- A daemon alone on a list of requests answers as a jukebox. -/
theorem jukebox_of_legal {L : List (Text × Text)} (hplay : Playing d)
    (h : (sessionServer nl accepts).spec.Legal d L d') :
    (jukeboxSpec nl).Legal (jukeboxOf d.world) L (jukeboxOf d'.world) := by
  have hsim : ∃ j, (jukeboxSpec nl).Legal (jukeboxOf d.world) L j ∧ j = jukeboxOf d'.world ∧ Playing d' := by
    refine h.simulate (R := fun d j => j = jukeboxOf d.world ∧ Playing d) ?_ ?_ ⟨rfl, hplay⟩
    · intro t u j hh hd
      obtain ⟨rfl, ht⟩ := hh
      obtain ⟨e, hm, hs⟩ := hd
      exact ⟨_, drift_jukebox ht hm hs, rfl, ht.step ⟨hm.2, hs⟩⟩
    · intro t m r u j hh hserve
      obtain ⟨rfl, ht⟩ := hh
      obtain ⟨answer, sent, hm, hs⟩ := hserve
      obtain ⟨hj, hu⟩ := serve_jukebox ht hm hs
      exact ⟨_, hj, rfl, hu⟩
  obtain ⟨j, hj, rfl, -⟩ := hsim
  exact hj

theorem jukebox_of_sessions
    (hboot : registerPlugins parserOperations parseNew boot world₀ = .ok (parser, world))
    (h : (sessionMachine nl accepts κ).Reaches (.start (.start world)) es n) :
    (jukeboxSpec nl).Legal (jukeboxOf world) (exchanges n) (jukeboxOf n.server.world) :=
  jukebox_of_legal (playing_boot hboot) (legal_of_reaches h)

/-- Whatever order the messages travel in, the clients of a daemon that came up
see one jukebox that serves them one by one. -/
theorem sessions_linearize
    (hboot : registerPlugins parserOperations parseNew boot world₀ = .ok (parser, world))
    (h : (sessionMachine nl accepts κ).Reaches (.start (.start world)) es n) :
    Linearizes (Linearization.history es) n.served ∧
      (jukeboxSpec nl).Legal (jukeboxOf world) (exchanges n) (jukeboxOf n.server.world) ∧
      ∃ fs, (allocatorMachine nl accepts).Reaches (.start world) fs n.server :=
  ⟨linearizes_of_reaches h, jukebox_of_sessions hboot h, daemon_of_sessions h⟩

theorem reaches_first_exchange (c : κ) (hrun : (Daemon.start world).tick = ⟨.draining, .waitRecv, world, []⟩)
    (hserve : serveRequest nl (Daemon.start world).tick m answer = .ok ((r, true), d))
    (hallow : ∀ pe ∈ (DaemonEvent.handle (.ok m) answer.1 answer.2).playbackEvent nl (Daemon.start world).tick,
      ∀ p ∈ world.playback, AllocatorAnswers p pe) :
    (sessionMachine nl accepts κ).Reaches (.start (.start world))
      [.drift .tick, .send c m, .arrive c m, .serve c m answer, .deliver c r]
      ⟨d, fun _ => .idle, [⟨c, m, r⟩]⟩ := by
  have htick : (sessionMachine nl accepts κ).Steps (.start (.start world)) (.drift .tick)
      ⟨(Daemon.start world).tick, fun _ => .idle, []⟩ :=
    ⟨⟨⟨id, rfl, by simp [DaemonEvent.playbackEvent]⟩, fun _ _ _ h => by cases h⟩, rfl⟩
  have hmay : (sessionServer nl accepts).mayServe (Daemon.start world).tick m answer := by
    rw [hrun] at hallow ⊢
    exact ⟨rfl, rfl, hallow⟩
  exact reaches_cons_iff.mpr ⟨_, htick, reaches_exchange rfl hmay hserve⟩

def exampleId : UInt32 := sourceItemToId (playedItem "a".toList exampleHandlerCalls.play)

theorem example_session : ∃ es n,
    (sessionMachine .any (fun _ => true) Bool).Reaches (.start (.start exampleWorld)) es n ∧
      n.served = [⟨true, clientPlay "a".toList, playerIdReply exampleId⟩,
        ⟨false, clientStop (fmtUnsigned exampleId.toNat), playerIdReply exampleId⟩] := by
  obtain ⟨d1, d2, hplay, hstop, hready⟩ : ∃ d1 d2,
      serveRequest .any (Daemon.start exampleWorld).tick (clientPlay "a".toList) (.ok (), exampleHandlerCalls) =
        .ok ((playerIdReply exampleId, true), d1) ∧
      serveRequest .any d1 (clientStop (fmtUnsigned exampleId.toNat)) (.ok (), exampleHandlerCalls) =
        .ok ((playerIdReply exampleId, true), d2) ∧
      d1.socket = .waitRecv ∧ d1.phase = .draining ∧
      (DaemonEvent.handle (.ok (clientStop (fmtUnsigned exampleId.toNat))) (.ok ()) exampleHandlerCalls).playbackEvent
        .any d1 = some (.stop (fmtUnsigned exampleId.toNat) .success) := ⟨_, _, rfl, rfl, rfl, rfl, rfl⟩
  have hallow : ∀ pe ∈ (DaemonEvent.handle (.ok (clientPlay "a".toList)) (.ok ()) exampleHandlerCalls).playbackEvent
      .any (Daemon.start exampleWorld).tick, ∀ p ∈ exampleWorld.playback, AllocatorAnswers p pe := by
    intro pe hpe p hp
    obtain rfl : PlaybackEvent.play "a".toList exampleHandlerCalls.play = pe := Option.some.inj hpe
    obtain rfl : newPlaybackCtx 0 1 2 = p := Option.some.inj hp
    intro item hi
    cases hi
  have hfirst := @reaches_first_exchange .any (fun _ => true) _ _ _ _ _ _ _ true rfl hplay hallow
  have hmayStop : (sessionServer .any fun _ => true).mayServe d1
      (clientStop (fmtUnsigned exampleId.toNat)) (.ok (), exampleHandlerCalls) := by
    refine ⟨hready.1, hready.2.1, ?_⟩
    intro pe hpe p hp
    obtain rfl := Option.some.inj (hready.2.2.symm.trans hpe)
    trivial
  have hsecond := reaches_exchange (c := false)
    (n := ⟨_, fun _ => .idle, [⟨true, clientPlay "a".toList, playerIdReply exampleId⟩]⟩) rfl hmayStop hstop
  exact ⟨_, _, reaches_append_iff.mpr ⟨_, hfirst, hsecond⟩, rfl⟩

theorem sessions_linearize_two_clients : ∃ es n,
    (sessionMachine .any (fun _ => true) Bool).Reaches (.start (.start exampleWorld)) es n ∧
      n.served.length = 2 ∧ Linearizes (Linearization.history es) n.served := by
  have hboot : registerPlugins parserOperations parseNew exampleHandlerCalls exampleWorld =
    .ok (daemonParser, exampleWorld) := rfl
  obtain ⟨es, n, h, hserved⟩ := example_session
  exact ⟨es, n, h, by rw [hserved]; rfl, (sessions_linearize hboot h).1⟩

end

end GstPlayd
