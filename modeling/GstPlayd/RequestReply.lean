import GstPlayd.Daemon

/-! Every request of a run gets its own reply before the next one is received,
as long as no reply is lost in the socket. -/

namespace GstPlayd

open ElementGraph StepMachine Machine

variable (nl : Newlines) (accepts : Caps → Bool) (parser : DaemonParser)

/-- A log in which each request is followed by the reply that its own dispatch
made, in the world left by the requests before it. -/
inductive Answered (w : World) : List Exchange → World → Prop
  | start : Answered w [] w
  | background {log : List Exchange} {u v : World} {b : Background} (h : Answered w log u)
      (hb : backgroundStep accepts u b = .ok v) : Answered w log v
  | exchange {log : List Exchange} {u v : World} {msg data : Text} {calls : HandlerCalls}
      (h : Answered w log u) (hd : parseMessage nl parser (cString msg) calls u = .ok (data, v)) :
      Answered w (log ++ [.received msg, .sent (cString data)]) v

/-- In every state of the run all requests received so far are answered, and
the next call of `handle_message` returns. -/
def AnswersRequests (world : World) (es : List DaemonEvent) : Prop :=
  ∀ pre post d, es = pre ++ post → (daemonMachine nl accepts parser).Reaches (.start world) pre d →
    Answered nl accepts parser world d.log d.world ∧
    ∀ recv send calls rest, post = .handle recv send calls :: rest → d.phase = .draining →
      ∃ d', daemonStep nl accepts parser d (.handle recv send calls) = .ok d'

/-- A call that takes a request from the socket dispatches it to a handler
that returns, and its send succeeds. -/
def Delivers (d : Daemon) : DaemonEvent → Prop
  | .handle (.ok msg) send calls => d.phase = .draining → d.socket = .waitRecv →
      (∃ r, parseMessage nl parser (cString msg) calls d.world = .ok r) ∧ send = .ok ()
  | _ => True

variable {nl accepts parser} {world : World} {es pre post : List DaemonEvent} {d d' : Daemon}

theorem Answered.count_eq {log : List Exchange} {v : World} (h : Answered nl accepts parser world log v) :
    log.countP (fun x => x matches .received _) = log.countP (fun x => x matches .sent _) := by
  induction h with
  | start => rfl
  | background h hb ih => exact ih
  | exchange h hd ih => simp [ih]

theorem Answered.not_received {log : List Exchange} {u v : World}
    (h : Answered nl accepts parser world log u) (msg : Text) :
    ¬ Answered nl accepts parser world (log ++ [.received msg]) v := by
  intro h'
  have he := h.count_eq
  have he' := h'.count_eq
  simp only [List.countP_append, List.countP_singleton] at he'
  simp at he'
  omega

theorem answered_step {e : DaemonEvent} (h : Answered nl accepts parser world d.log d.world)
    (hs : d.socket = .waitRecv) (hstep : (daemonMachine nl accepts parser).Steps d e d')
    (hd : Delivers nl parser d e) :
    Answered nl accepts parser world d'.log d'.world ∧ d'.socket = .waitRecv := by
  cases e with
  | tick =>
    obtain ⟨hsock, hworld, hlog⟩ := steps_tick hstep
    rw [hsock, hworld, hlog]
    exact ⟨h, hs⟩
  | background b =>
    obtain ⟨hb, hsock, hlog⟩ := steps_background hstep
    exact ⟨hlog ▸ h.background hb, hsock.trans hs⟩
  | handle recv send calls =>
    rcases steps_handle hstep with ⟨hsock, hworld, hlog, -⟩ | ⟨msg, data, -, hrecv, hp, hsock, hlog⟩
    · rw [hsock, hworld, hlog]
      exact ⟨h, hs⟩
    · subst hrecv
      obtain ⟨-, rfl⟩ := hd hstep.1 hs
      rw [hsock, hlog]
      exact ⟨h.exchange hp, rfl⟩

theorem answered_of_reaches (hr : (daemonMachine nl accepts parser).Reaches (.start world) es d)
    (hd : ∀ pre e post d, es = pre ++ e :: post →
      (daemonMachine nl accepts parser).Reaches (.start world) pre d → Delivers nl parser d e) :
    Answered nl accepts parser world d.log d.world ∧ d.socket = .waitRecv := by
  induction es using List.reverseRecOn generalizing d with
  | nil =>
    obtain rfl := reaches_nil_iff.mp hr
    exact ⟨.start, rfl⟩
  | append_singleton es e ih =>
    obtain ⟨c, hc, hstep⟩ := reaches_snoc_iff.mp hr
    have hpre := ih hc fun pre e' post c' he => hd pre e' (post ++ [e]) c' (by simp [he])
    exact answered_step hpre.1 hpre.2 hstep (hd es e [] c rfl hc)

theorem AnswersRequests.delivers (h : AnswersRequests nl accepts parser world es) {e : DaemonEvent}
    (he : es = pre ++ e :: post)
    (hr : (daemonMachine nl accepts parser).Reaches (.start world) pre d) : Delivers nl parser d e := by
  cases e with
  | tick => trivial
  | background b => trivial
  | handle recv send calls =>
    cases recv with
    | error err => trivial
    | ok msg =>
      intro hphase hsock
      obtain ⟨hans, hret⟩ := h pre _ d he hr
      obtain ⟨d', hd'⟩ := hret (.ok msg) send calls post rfl hphase
      have hstep : (daemonMachine nl accepts parser).Steps d (.handle (.ok msg) send calls) d' := ⟨hphase, hd'⟩
      have hans' := (h _ post d' (by simp [he]) (reaches_snoc_iff.mpr ⟨d, hr, hstep⟩)).1
      rcases steps_handle hstep with ⟨-, -, -, hno⟩ | ⟨msg', data, -, hrecv, hp, -, hlog⟩
      · rcases hno with hno | ⟨err, hno⟩
        · rw [hsock] at hno
          exact absurd hno (by decide)
        · exact absurd hno (by simp)
      · obtain rfl := Except.ok.inj hrecv
        refine ⟨⟨_, hp⟩, ?_⟩
        cases send with
        | ok u => rfl
        | error err =>
          rw [hlog] at hans'
          exact absurd hans' (hans.not_received msg)

/-- Requests and replies alternate exactly in the runs in which every call that
takes a request dispatches it to an end and sends the reply. -/
theorem answersRequests_iff (nl : Newlines) (accepts : Caps → Bool) (parser : DaemonParser)
    (world : World) (es : List DaemonEvent) :
    AnswersRequests nl accepts parser world es ↔
      ∀ pre e post d, es = pre ++ e :: post →
        (daemonMachine nl accepts parser).Reaches (.start world) pre d → Delivers nl parser d e := by
  constructor
  · intro h pre e post d he hr
    exact h.delivers he hr
  · intro hd pre post d he hr
    have hinv := answered_of_reaches hr fun pre' e' post' d' he' hr' =>
      hd pre' e' (post' ++ post) d' (by simp [he, he']) hr'
    refine ⟨hinv.1, ?_⟩
    intro recv send calls rest hpost hphase
    cases recv with
    | error err =>
      rw [daemonStep, handleMessage_error hinv.2]
      exact ⟨_, rfl⟩
    | ok msg =>
      have he' : es = pre ++ .handle (.ok msg) send calls :: rest := by rw [he, hpost]
      obtain ⟨⟨r, hp⟩, -⟩ := hd pre _ rest d he' hr hphase hinv.2
      have hstep : (daemonMachine nl accepts parser).Steps d (.handle (.ok msg) send calls) _ :=
        steps_of_dispatch hphase hinv.2 hp
      exact ⟨_, hstep.2⟩

def interruptedPing : List DaemonEvent :=
  [.tick, .handle (.ok "PING hi".toList) (.error .eintr) exampleHandlerCalls]

/-- The request has no reply, and the socket waits for one. -/
theorem interrupted_ping_not_answered :
    (∃ d, (daemonMachine .any (fun _ => true) daemonParser).Reaches (.start exampleWorld) interruptedPing d ∧
      d.log = [.received "PING hi".toList] ∧ d.socket = .waitSend) ∧
    ¬ AnswersRequests .any (fun _ => true) daemonParser exampleWorld interruptedPing := by
  have hreach : (daemonMachine .any (fun _ => true) daemonParser).Reaches (.start exampleWorld) [.tick]
      (Daemon.start exampleWorld).tick := .cons ⟨rfl, rfl⟩ (.nil _)
  constructor
  · obtain ⟨world, hping⟩ : ∃ world, parseMessage .any daemonParser (cString "PING hi".toList)
        exampleHandlerCalls exampleWorld = .ok ("OK Message was hi".toList, world) := ⟨_, rfl⟩
    exact ⟨_, reaches_snoc_iff.mpr ⟨_, hreach, steps_of_dispatch rfl rfl hping⟩, rfl, rfl⟩
  · intro h
    have hes : interruptedPing = [.tick] ++
        .handle (.ok "PING hi".toList) (.error .eintr) exampleHandlerCalls :: [] := rfl
    obtain ⟨-, hsend⟩ := h.delivers hes hreach rfl rfl
    exact absurd hsend (by simp)

theorem wedged (hs : d.socket = .waitSend) (hr : (daemonMachine nl accepts parser).Reaches d es d') :
    d'.socket = .waitSend ∧ d'.log = d.log := by
  refine hr.invariant (P := fun c => c.socket = .waitSend ∧ c.log = d.log) ⟨hs, rfl⟩ ?_
  intro c e c' hh hstep
  obtain ⟨hsock, hlog⟩ := hh
  cases e with
  | tick =>
    obtain ⟨hsock', -, hlog'⟩ := steps_tick hstep
    exact ⟨hsock'.trans hsock, hlog'.trans hlog⟩
  | background b =>
    obtain ⟨-, hsock', hlog'⟩ := steps_background hstep
    exact ⟨hsock'.trans hsock, hlog'.trans hlog⟩
  | handle recv send calls =>
    rcases steps_handle hstep with ⟨hsock', -, hlog', -⟩ | ⟨_, _, hrecv, -⟩
    · exact ⟨hsock'.trans hsock, hlog'.trans hlog⟩
    · rw [hsock] at hrecv
      exact absurd hrecv (by decide)

end GstPlayd
