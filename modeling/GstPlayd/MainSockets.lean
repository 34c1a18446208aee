import GstPlayd.ResourceLedger
import GstPlayd.Subscribers

/-! The sockets that `main` opens in each of its modes. `zmq_ctx_destroy` at its
end waits until they are closed. -/

namespace GstPlayd

open ResourceLedger

inductive ZmqSocket
  | req
  | sub
  | pub
  | rep
  deriving DecidableEq

/-- `setsockopt` and `connect`, then the request and its reply. -/
def reqrepActions (calls : ReqrepCalls) : List (Action ZmqSocket) :=
  if calls.socket then
    .acquire .req :: (useAll [.req, .req] ++ (if calls.connected then useAll [.req, .req] else []) ++
      [.release .req])
  else []

def subOpened (calls : SubCalls) : Bool :=
  match utilSendReqrepMsg calls.reqrep with
  | none => false
  | some msg =>
    (msg ++ ['\x00'])[0]? = some 'O' && (msg ++ ['\x00'])[1]? = some 'K' && calls.socket

def createPubsubActions (calls : SubCalls) : List (Action ZmqSocket) :=
  reqrepActions calls.reqrep ++
    if subOpened calls then .acquire .sub :: useAll [.sub, .sub, .sub] else []

def pubsubNewActions (socket bound : Bool) : List (Action ZmqSocket) :=
  if socket then .acquire .pub :: (useAll [.pub, .pub] ++ if bound then [] else [.release .pub]) else []

def createServerActions (socket : Bool) : List (Action ZmqSocket) :=
  if socket then .acquire .rep :: useAll [.rep, .rep] else []

/-- What the loop of a server calls on a socket: a receive or a send on that of
the closure, a message on the PUB socket. -/
inductive LoopCall
  | poll
  | publish
  deriving DecidableEq

/-- ZeroMQ refuses a null socket. -/
def loopActions (zmqSocket : Option ZmqSocket) : LoopCall → List (Action ZmqSocket)
  | .poll => useAll zmqSocket.toList
  | .publish => useAll [.pub]

structure MainOptions where
  clientMessage : Option Text
  pubsubListen : Bool
  icecastPort : ℤ

/-- `polls` is how often the loop of a listener receives, `freed` what
`parse_free` comes to. -/
structure MainCalls where
  reqrep : ReqrepCalls
  sub : SubCalls
  polls : ℕ
  pubSocket : Bool
  pubBound : Bool
  boot : HandlerCalls
  repSocket : Bool
  repBound : Bool
  loop : List LoopCall
  freed : Result Unit

def MainCalls.serverSocket (calls : MainCalls) : Option ZmqSocket :=
  if calls.repSocket && calls.repBound then some .rep else none

/-- What has been done to the sockets when `main` comes to `zmq_ctx_destroy`,
and the status that it is about to return. -/
def runMain (options : MainOptions) (calls : MainCalls) : Result (List (Action ZmqSocket) × Nat) :=
  if options.clientMessage.isSome then
    .ok (reqrepActions calls.reqrep, if (utilSendReqrepMsg calls.reqrep).isSome then 0 else 1)
  else if options.pubsubListen then do
    match ← createPubsubSocket calls.sub with
    | none => return (createPubsubActions calls.sub, 0)
    | some _ =>
      return (createPubsubActions calls.sub ++ useAll (List.replicate calls.polls .sub) ++ [.release .sub], 0)
  else if calls.pubSocket && calls.pubBound then do
    let _ ← registerPlugins parserOperations parseNew calls.boot (serverWorld options.icecastPort)
    let _ ← calls.freed
    return (pubsubNewActions calls.pubSocket calls.pubBound ++ createServerActions calls.repSocket ++
      calls.loop.flatMap (loopActions calls.serverSocket) ++ [.release .pub] ++
      releaseAll calls.serverSocket.toList, 0)
  else .ok (pubsubNewActions calls.pubSocket calls.pubBound, 0)

/-- A REP socket that could not be bound, or a SUB socket that could not be
connected. -/
def leftOpen (options : MainOptions) (calls : MainCalls) : List ZmqSocket :=
  if options.clientMessage.isSome then []
  else if options.pubsubListen then
    if subOpened calls.sub && createPubsubSocket calls.sub = .ok none then [.sub] else []
  else if calls.pubSocket && calls.pubBound && calls.repSocket && !calls.repBound then [.rep] else []

section

variable {options : MainOptions} {calls : MainCalls} {sub : SubCalls} {acts : List (Action ZmqSocket)}
  {status : Nat}

theorem reqrepActions_balanced (calls : ReqrepCalls) : Triple 0 (reqrepActions calls) 0 := by
  rw [reqrepActions]
  by_cases hs : calls.socket = true
  · rw [if_pos hs]
    apply Triple.scoped
    by_cases hc : calls.connected = true
    · rw [if_pos hc]
      exact (triple_useAll (by simp)).append (triple_useAll (by simp))
    · rw [if_neg hc, List.append_nil]
      exact triple_useAll (by simp)
  · rw [if_neg hs]
    exact triple_nil 0

theorem createPubsubActions_held (calls : SubCalls) :
    Triple 0 (createPubsubActions calls) (if subOpened calls then {.sub} else 0) := by
  refine (reqrepActions_balanced calls.reqrep).append ?_
  by_cases ho : subOpened calls = true
  · rw [if_pos ho, if_pos ho]
    exact (triple_acquire 0 ZmqSocket.sub).append (triple_useAll (by simp))
  · rw [if_neg ho, if_neg ho]
    exact triple_nil 0

theorem subOpened_of_some {addr : Text} (h : createPubsubSocket sub = .ok (some addr)) :
    subOpened sub = true := by
  cases hm : utilSendReqrepMsg sub.reqrep with
  | none => simp [createPubsubSocket, hm] at h
  | some msg =>
    simp only [createPubsubSocket, hm] at h
    split_ifs at h with hno hlen hconn
    · cases h
    · simp only [not_or, not_not] at hno
      simp only [Bool.and_eq_true] at hconn
      simp only [subOpened, hm, hno.1, hno.2, hconn.1, decide_true, Bool.and_self]
    · cases h

theorem loop_held {sock : Option ZmqSocket} {P : Multiset ZmqSocket} (hpub : ZmqSocket.pub ∈ P)
    (hsock : ∀ o ∈ sock, o ∈ P) (loop : List LoopCall) : Triple P (loop.flatMap (loopActions sock)) P := by
  induction loop with
  | nil => exact triple_nil P
  | cons call loop ih =>
    rw [List.flatMap_cons]
    refine Triple.append ?_ ih
    cases call with
    | poll => exact triple_useAll fun o ho => hsock o (Option.mem_toList.mp ho)
    | publish => exact triple_useAll (by simpa using hpub)

theorem listener_held {addr : Option Text} (h : createPubsubSocket sub = .ok addr) (polls : ℕ) :
    Triple 0 (createPubsubActions sub ++
      if addr.isSome then useAll (List.replicate polls .sub) ++ [.release .sub] else [])
      (if subOpened sub && addr.isNone then {.sub} else 0) := by
  have hopen := createPubsubActions_held sub
  cases addr with
  | none => simpa using hopen
  | some addr =>
    rw [subOpened_of_some h, if_pos rfl] at hopen
    have hpolls : Triple {.sub} (useAll (List.replicate polls .sub)) {ZmqSocket.sub} :=
      triple_useAll fun o ho => by simp [List.eq_of_mem_replicate ho]
    rw [Option.isSome_some, if_pos rfl, subOpened_of_some h]
    exact hopen.append (hpolls.append (triple_release 0 _))

theorem failedPub_held {socket bound : Bool} (h : (socket && bound) = false) :
    Triple 0 (pubsubNewActions socket bound) 0 := by
  cases socket with
  | false => exact triple_nil 0
  | true =>
    obtain rfl : bound = false := h
    exact Triple.scoped (triple_useAll (by simp))

theorem createServer_held (socket : Bool) :
    Triple 0 (createServerActions socket) (if socket then {.rep} else 0) := by
  cases socket with
  | true => exact (triple_acquire 0 ZmqSocket.rep).append (triple_useAll (by simp))
  | false => exact triple_nil 0

theorem closeServer_held (calls : MainCalls) : Triple (if calls.repSocket then {.rep} else 0)
    (releaseAll calls.serverSocket.toList) (if calls.repSocket && !calls.repBound then {.rep} else 0) := by
  rw [MainCalls.serverSocket]
  cases calls.repSocket with
  | false => exact triple_nil 0
  | true =>
    cases calls.repBound with
    | false => exact triple_nil {ZmqSocket.rep}
    | true => exact triple_release 0 ZmqSocket.rep

theorem server_held (calls : MainCalls) (hs : calls.pubSocket = true) (hb : calls.pubBound = true) :
    Triple 0 (pubsubNewActions calls.pubSocket calls.pubBound ++ createServerActions calls.repSocket ++
      calls.loop.flatMap (loopActions calls.serverSocket) ++ [.release .pub] ++
      releaseAll calls.serverSocket.toList) (if calls.repSocket && !calls.repBound then {.rep} else 0) := by
  have hpub : Triple 0 (pubsubNewActions calls.pubSocket calls.pubBound) {.pub} := by
    rw [pubsubNewActions, if_pos hs, if_pos hb, List.append_nil]
    exact (triple_acquire 0 ZmqSocket.pub).append (triple_useAll (by simp))
  have hrep := (createServer_held calls.repSocket).frame_left {.pub}
  rw [Multiset.add_zero, Multiset.singleton_add] at hrep
  have hloop : Triple (.pub ::ₘ if calls.repSocket then {.rep} else 0)
      (calls.loop.flatMap (loopActions calls.serverSocket)) (.pub ::ₘ if calls.repSocket then {.rep} else 0) := by
    apply loop_held (Multiset.mem_cons_self _ _)
    intro o ho
    rw [MainCalls.serverSocket] at ho
    split_ifs at ho with hopen
    · obtain rfl := Option.some.inj ho
      rw [if_pos (Bool.and_eq_true_iff.mp hopen).1]
      simp
    · cases ho
  have hclose := (triple_release (if calls.repSocket then {.rep} else 0) ZmqSocket.pub).append
    (closeServer_held calls)
  have hall := ((hpub.append hrep).append hloop).append hclose
  rwa [← List.append_assoc] at hall

/-- Every socket that `main` closes was open, it uses none that is closed, and
it leaves open no others than a REP socket that could not be bound or a SUB
socket that could not be connected. Only a client returns a failure. -/
theorem main_closes_sockets (h : runMain options calls = .ok (acts, status)) :
    Triple 0 acts (leftOpen options calls) ∧
      (status = 0 ∨ (options.clientMessage.isSome = true ∧ utilSendReqrepMsg calls.reqrep = none)) := by
  rw [runMain] at h
  by_cases hclient : options.clientMessage.isSome = true
  · rw [if_pos hclient] at h
    obtain ⟨rfl, rfl⟩ := Prod.mk.inj (Except.ok.inj h)
    refine ⟨?_, ?_⟩
    · rw [leftOpen, if_pos hclient]
      exact reqrepActions_balanced calls.reqrep
    · cases hm : utilSendReqrepMsg calls.reqrep with
      | none => exact .inr ⟨hclient, rfl⟩
      | some msg => exact .inl rfl
  · rw [if_neg hclient] at h
    by_cases hlisten : options.pubsubListen = true
    · rw [if_pos hlisten] at h
      cases hsub : createPubsubSocket calls.sub with
      | error k => simp [hsub, bind, Except.bind] at h
      | ok addr =>
        have hheld := listener_held hsub calls.polls
        have hleft : (leftOpen options calls : Multiset ZmqSocket) =
            if subOpened calls.sub && addr.isNone then {.sub} else 0 := by
          rw [leftOpen, if_neg hclient, if_pos hlisten, hsub]
          cases addr <;> cases subOpened calls.sub <;> rfl
        have hresult : acts = createPubsubActions calls.sub ++ (if addr.isSome then
            useAll (List.replicate calls.polls .sub) ++ [.release .sub] else []) ∧ status = 0 := by
          cases addr <;> simp_all [bind, Except.bind, pure, Except.pure]
        rw [hleft, hresult.1]
        exact ⟨hheld, .inl hresult.2⟩
    · rw [if_neg hlisten] at h
      by_cases hpub : (calls.pubSocket && calls.pubBound) = true
      · rw [if_pos hpub] at h
        obtain ⟨hs, hb⟩ := Bool.and_eq_true_iff.mp hpub
        have hheld := server_held calls hs hb
        cases hboot : registerPlugins parserOperations parseNew calls.boot (serverWorld options.icecastPort) with
        | error k => simp [hboot, bind, Except.bind] at h
        | ok booted =>
          cases hfreed : calls.freed with
          | error k => simp [hboot, hfreed, bind, Except.bind] at h
          | ok u =>
            simp only [hboot, hfreed, bind, Except.bind, pure, Except.pure, Except.ok.injEq, Prod.mk.injEq] at h
            obtain ⟨rfl, rfl⟩ := h
            have hleft : (leftOpen options calls : Multiset ZmqSocket) =
                if calls.repSocket && !calls.repBound then {.rep} else 0 := by
              rw [leftOpen, if_neg hclient, if_neg hlisten, hpub, Bool.true_and]
              cases calls.repSocket && !calls.repBound <;> rfl
            rw [hleft]
            exact ⟨hheld, .inl rfl⟩
      · rw [if_neg hpub] at h
        obtain ⟨rfl, rfl⟩ := Prod.mk.inj (Except.ok.inj h)
        rw [leftOpen, if_neg hclient, if_neg hlisten, Bool.eq_false_iff.mpr hpub, Bool.false_and,
          Bool.false_and]
        exact ⟨failedPub_held (Bool.eq_false_iff.mpr hpub), .inl rfl⟩

def busyPortCalls : MainCalls where
  reqrep := ⟨true, true, none⟩
  sub := ⟨⟨true, true, none⟩, true, fun _ => true⟩
  polls := 0
  pubSocket := true
  pubBound := true
  boot := exampleHandlerCalls
  repSocket := true
  repBound := false
  loop := [.poll, .publish]
  freed := .ok ()

theorem main_closes_sockets_busy_port : ∃ acts, runMain ⟨none, false, 8000⟩ busyPortCalls = .ok (acts, 0) ∧
    Triple 0 acts {.rep} := by
  have h : ∃ acts, runMain ⟨none, false, 8000⟩ busyPortCalls = .ok (acts, 0) := ⟨_, rfl⟩
  obtain ⟨acts, hacts⟩ := h
  exact ⟨acts, hacts, (main_closes_sockets hacts).1⟩

end

end GstPlayd
