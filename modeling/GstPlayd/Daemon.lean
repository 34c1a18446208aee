import GstPlayd.Operations

/-! The main loop of the daemon in server mode: the timer that drains the REP
socket, the signals, the bus of the playback pipeline and the pads of its
sources. What each call answers, and when anything happens, is an input. -/

namespace GstPlayd

open ElementGraph StepMachine

inductive Errno
  | eagain
  | eintr
  | efsm
  | other (code : Nat)
  deriving DecidableEq

/-- A REP socket alternates one successful receive with one successful send. -/
inductive RepSocket
  | waitRecv
  | waitSend
  deriving DecidableEq

def zmqMsgRecv (sock : RepSocket) (answer : Except Errno Text) : Except Errno Text × RepSocket :=
  match sock, answer with
  | .waitSend, _ => (.error .efsm, .waitSend)
  | .waitRecv, .ok msg => (.ok msg, .waitSend)
  | .waitRecv, .error e => (.error e, .waitRecv)

def zmqMsgSend (sock : RepSocket) (answer : Except Errno Unit) : Except Errno Unit × RepSocket :=
  match sock, answer with
  | .waitRecv, _ => (.error .efsm, .waitRecv)
  | .waitSend, .ok () => (.ok (), .waitRecv)
  | .waitSend, .error e => (.error e, .waitSend)

inductive Exchange
  | received (msg : Text)
  | sent (data : Text)
  deriving DecidableEq

/-- The timer callback runs in `draining`, and is gone in `stopped`. -/
inductive Phase
  | idle
  | draining
  | stopped
  deriving DecidableEq

structure Daemon where
  phase : Phase
  socket : RepSocket
  world : World
  log : List Exchange

def Daemon.start (world : World) : Daemon := ⟨.idle, .waitRecv, world, []⟩

inductive PipelineMessage
  | error (text : Text)
  | warning (text : Text)
  | info (text : Text)
  | other

def PipelineMessage.text : PipelineMessage → Option Text
  | .error text => some ("ERROR: ".toList ++ text)
  | .warning text => some ("WARNING: ".toList ++ text)
  | .info text => some ("INFO: ".toList ++ text)
  | .other => none

def playbackBusCallback (message : PipelineMessage) (published : Bool) (services : OpServices) :
    OpServices :=
  match message.text with
  | some msg => { services with pubSub := (pubsubSendMessage services.pubSub msg published).2 }
  | none => services

def handleSigint (services : OpServices) : OpServices := { services with shouldQuit := true }

inductive Background
  | sigint
  | pipelineMessage (message : PipelineMessage) (published : Bool)
  | padAdded (source : SourceItem) (pad : Nat) (caps : Caps)

inductive DaemonEvent
  | tick
  | handle (recv : Except Errno Text) (send : Except Errno Unit) (calls : HandlerCalls)
  | background (b : Background)

def backgroundStep (accepts : Caps → Bool) (world : World) : Background → Result World
  | .sigint => .ok { world with services := handleSigint world.services }
  | .pipelineMessage message published =>
    .ok { world with services := playbackBusCallback message published world.services }
  | .padAdded source pad caps =>
    match world.playback with
    | some p => (padAdded accepts source pad caps p).map fun p => { world with playback := some p }
    | none => .ok world

def logExchange (log : List Exchange) (msg data : Text) : Except Errno Unit → List Exchange
  | .ok () => log ++ [.received msg, .sent (cString data)]
  | .error _ => log ++ [.received msg]

/-- The returned error is 0 in `none`. The text of a request ends at its first
NUL, and so does what is sent. -/
def handleMessage (nl : Newlines) (parser : DaemonParser) (recv : Except Errno Text)
    (send : Except Errno Unit) (calls : HandlerCalls) (d : Daemon) : Result (Option Errno × Daemon) :=
  match zmqMsgRecv d.socket recv with
  | (.error .eintr, socket) => .ok (none, { d with socket })
  | (.error ret, socket) => .ok (some ret, { d with socket })
  | (.ok msg, socket) => do
    let (data, world) ← parseMessage nl parser (cString msg) calls d.world
    let (sent, socket) := zmqMsgSend socket send
    return (none, { d with socket, world, log := logExchange d.log msg data sent })

def Daemon.afterMessage (d : Daemon) : Option Errno → Daemon
  | none => d
  | some _ => { d with phase := .idle }

def Daemon.tick (d : Daemon) : Daemon :=
  if d.world.services.shouldQuit then { d with phase := .stopped } else { d with phase := .draining }

def daemonStep (nl : Newlines) (accepts : Caps → Bool) (parser : DaemonParser) (d : Daemon) :
    DaemonEvent → Result Daemon
  | .tick => .ok d.tick
  | .handle recv send calls =>
    (handleMessage nl parser recv send calls d).map fun r => r.2.afterMessage r.1
  | .background b => (backgroundStep accepts d.world b).map fun world => { d with world }

/-- The main loop runs one callback at a time; the sources run beside it. -/
def DaemonEvent.Allowed (d : Daemon) : DaemonEvent → Prop
  | .tick => d.phase = .idle
  | .handle _ _ _ => d.phase = .draining
  | .background (.padAdded source _ _) => ∃ p, d.world.playback = some p ∧ source ∈ p.sources
  | .background _ => d.phase = .idle

def daemonMachine (nl : Newlines) (accepts : Caps → Bool) (parser : DaemonParser) :
    Machine Daemon DaemonEvent Halt where
  step := daemonStep nl accepts parser
  allowed := DaemonEvent.Allowed

variable {nl : Newlines} {accepts : Caps → Bool} {parser : DaemonParser} {d d' : Daemon}

theorem handleMessage_waitSend (h : d.socket = .waitSend) (recv : Except Errno Text)
    (send : Except Errno Unit) (calls : HandlerCalls) :
    handleMessage nl parser recv send calls d = .ok (some .efsm, d) := by
  cases d
  subst h
  rfl

theorem handleMessage_error (h : d.socket = .waitRecv) (e : Errno) (send : Except Errno Unit)
    (calls : HandlerCalls) :
    handleMessage nl parser (.error e) send calls d = .ok (if e = .eintr then none else some e, d) := by
  cases d
  subst h
  cases e <;> rfl

theorem handleMessage_message (h : d.socket = .waitRecv) (msg : Text) (send : Except Errno Unit)
    (calls : HandlerCalls) :
    handleMessage nl parser (.ok msg) send calls d =
      (parseMessage nl parser (cString msg) calls d.world).map fun r =>
        (none, { d with
          socket := (zmqMsgSend .waitSend send).2
          world := r.2
          log := logExchange d.log msg r.1 (zmqMsgSend .waitSend send).1 }) := by
  simp only [handleMessage, h, zmqMsgRecv]
  cases parseMessage nl parser (cString msg) calls d.world <;> rfl

@[simp]
theorem afterMessage_fields (d : Daemon) (ret : Option Errno) :
    (d.afterMessage ret).socket = d.socket ∧ (d.afterMessage ret).world = d.world ∧
      (d.afterMessage ret).log = d.log := by
  cases ret <;> exact ⟨rfl, rfl, rfl⟩

@[simp]
theorem tick_fields (d : Daemon) :
    d.tick.socket = d.socket ∧ d.tick.world = d.world ∧ d.tick.log = d.log := by
  by_cases h : d.world.services.shouldQuit = true <;> simp [Daemon.tick, h]

theorem steps_handle {recv : Except Errno Text} {send : Except Errno Unit} {calls : HandlerCalls}
    (hstep : (daemonMachine nl accepts parser).Steps d (.handle recv send calls) d') :
    (d'.socket = d.socket ∧ d'.world = d.world ∧ d'.log = d.log ∧
      (d.socket = .waitSend ∨ ∃ e, recv = .error e)) ∨
    ∃ msg data, d.socket = .waitRecv ∧ recv = .ok msg ∧
      parseMessage nl parser (cString msg) calls d.world = .ok (data, d'.world) ∧
      d'.socket = (zmqMsgSend .waitSend send).2 ∧
      d'.log = logExchange d.log msg data (zmqMsgSend .waitSend send).1 := by
  have h : (handleMessage nl parser recv send calls d).map (fun r => r.2.afterMessage r.1) = .ok d' :=
    hstep.2
  cases hs : d.socket with
  | waitSend =>
    rw [handleMessage_waitSend hs] at h
    obtain rfl := Except.ok.inj h
    exact .inl ⟨by simp [hs], by simp, by simp, .inl rfl⟩
  | waitRecv =>
    cases recv with
    | error e =>
      rw [handleMessage_error hs] at h
      obtain rfl := Except.ok.inj h
      exact .inl ⟨by simp [hs], by simp, by simp, .inr ⟨e, rfl⟩⟩
    | ok msg =>
      rw [handleMessage_message hs] at h
      cases hp : parseMessage nl parser (cString msg) calls d.world with
      | error k => simp [hp, Except.map] at h
      | ok r =>
        rw [hp] at h
        obtain rfl := Except.ok.inj h
        exact .inr ⟨msg, r.1, rfl, rfl, hp, rfl, rfl⟩

theorem steps_of_dispatch {msg data : Text} {send : Except Errno Unit} {calls : HandlerCalls} {world : World}
    (hphase : d.phase = .draining) (hs : d.socket = .waitRecv)
    (hp : parseMessage nl parser (cString msg) calls d.world = .ok (data, world)) :
    (daemonMachine nl accepts parser).Steps d (.handle (.ok msg) send calls)
      { d with
        socket := (zmqMsgSend .waitSend send).2
        world
        log := logExchange d.log msg data (zmqMsgSend .waitSend send).1 } := by
  refine ⟨hphase, ?_⟩
  simp only [daemonMachine, daemonStep, handleMessage_message hs, hp, Except.map]
  rfl

theorem steps_tick (hstep : (daemonMachine nl accepts parser).Steps d .tick d') :
    d'.socket = d.socket ∧ d'.world = d.world ∧ d'.log = d.log := by
  obtain rfl := Except.ok.inj hstep.2
  exact tick_fields d

theorem steps_background_iff {b : Background} :
    (daemonMachine nl accepts parser).Steps d (.background b) d' ↔
      (DaemonEvent.background b).Allowed d ∧
        ∃ world, backgroundStep accepts d.world b = .ok world ∧ d' = { d with world } := by
  refine and_congr_right fun _ => ?_
  change (backgroundStep accepts d.world b).map (fun world => { d with world }) = .ok d' ↔ _
  cases backgroundStep accepts d.world b with
  | error k => simp [Except.map]
  | ok world => simp [Except.map, eq_comm]

theorem steps_background {b : Background}
    (hstep : (daemonMachine nl accepts parser).Steps d (.background b) d') :
    backgroundStep accepts d.world b = .ok d'.world ∧ d'.socket = d.socket ∧ d'.log = d.log := by
  obtain ⟨-, world, hb, rfl⟩ := steps_background_iff.mp hstep
  exact ⟨hb, rfl, rfl⟩

end GstPlayd
