import GstPlayd.ClientCalls
import GstPlayd.ClientSessions
import GstPlayd.ParallelDaemons

/-! How a listener finds the PUB socket of a daemon, and what goes over it. -/

namespace GstPlayd

open ElementGraph StepMachine StepMachine.Machine Linearization

/-- What `main` hands to the plugins of a server. -/
def serverWorld (icecastPort : ℤ) : World := ⟨⟨⟨pubsubAddressFromPort localhost icecastPort, []⟩, false⟩, none⟩

/-- Answers to the calls of `util_send_reqrep_msg`. The message stays empty
when the receive fails. -/
structure ReqrepCalls where
  socket : Bool
  connected : Bool
  received : Option Text

def utilSendReqrepMsg (calls : ReqrepCalls) : Option Text :=
  if calls.socket && calls.connected then some (calls.received.getD []) else none

/-- `connected` is whether the SUB socket can be connected to an address. -/
structure SubCalls where
  reqrep : ReqrepCalls
  socket : Bool
  connected : Text → Bool

/-- The address that the SUB socket ends up connected to. The reply stands in a
buffer with one more NUL, and the address in it is logged before it is used. -/
def createPubsubSocket (calls : SubCalls) : Result (Option Text) :=
  match utilSendReqrepMsg calls.reqrep with
  | none => .ok none
  | some msg =>
    if (msg ++ ['\x00'])[0]? ≠ some 'O' ∨ (msg ++ ['\x00'])[1]? ≠ some 'K' then .ok none
    else if 3 < (msg ++ ['\x00']).length then
      if calls.socket && calls.connected (cString ((msg ++ ['\x00']).drop 3)) then
        .ok (some (cString ((msg ++ ['\x00']).drop 3)))
      else .ok none
    else .error .invalidPointer

def pubsubRequest : Text := "PUBSUB ".toList

section

variable {nl : Newlines} {j t u : Jukebox} {m r msg param : Text} {L L₁ L₂ : List (Text × Text)}
  {calls : SubCalls}

theorem eq_ok_of_short (h0 : (msg ++ ['\x00'])[0]? = some 'O') (h1 : (msg ++ ['\x00'])[1]? = some 'K')
    (hlen : ¬ 3 < (msg ++ ['\x00']).length) : msg = "OK".toList := by
  rw [List.length_append, List.length_singleton] at hlen
  match msg with
  | [] => simp at h0
  | [c] => simp at h1
  | [c, d] =>
    obtain rfl : c = 'O' := Option.some.inj h0
    obtain rfl : d = 'K' := Option.some.inj h1
    rfl
  | _ :: _ :: _ :: rest =>
    simp only [List.length_cons] at hlen
    omega

/-- The one reply after which the listener reads outside the buffer. -/
theorem createPubsubSocket_error_iff : (∃ k, createPubsubSocket calls = .error k) ↔
    utilSendReqrepMsg calls.reqrep = some "OK".toList := by
  cases hm : utilSendReqrepMsg calls.reqrep with
  | none => simp [createPubsubSocket, hm]
  | some msg =>
    rw [createPubsubSocket, hm, Option.some.injEq]
    dsimp only
    by_cases hok : (msg ++ ['\x00'])[0]? = some 'O' ∧ (msg ++ ['\x00'])[1]? = some 'K'
    · rw [if_neg fun h => h.elim (fun h => h hok.1) fun h => h hok.2]
      by_cases hlen : 3 < (msg ++ ['\x00']).length
      · rw [if_pos hlen]
        constructor
        · intro hh
          obtain ⟨k, hk⟩ := hh
          split_ifs at hk
        · intro he
          rw [he] at hlen
          exact absurd hlen (by decide)
      · rw [if_neg hlen]
        exact ⟨fun _ => eq_ok_of_short hok.1 hok.2 hlen, fun _ => ⟨_, rfl⟩⟩
    · rw [if_pos (by simpa only [not_and_or] using hok)]
      constructor
      · intro hh
        obtain ⟨k, hk⟩ := hh
        cases hk
      · rintro rfl
        exact absurd ⟨rfl, rfl⟩ hok

theorem createPubsubSocket_of_ok (hm : utilSendReqrepMsg calls.reqrep = some ("OK ".toList ++ msg))
    (hnul : '\x00' ∉ msg) : createPubsubSocket calls =
      .ok (if calls.socket && calls.connected msg then some msg else none) := by
  have hdrop : cString (("OK ".toList ++ msg ++ ['\x00']).drop 3) = msg := by
    have hd : ("OK ".toList ++ msg ++ ['\x00']).drop 3 = msg ++ '\x00' :: [] := rfl
    rw [hd, cString_append_nul hnul]
  have hhead : ¬ (("OK ".toList ++ msg ++ ['\x00'])[0]? ≠ some 'O' ∨
      ("OK ".toList ++ msg ++ ['\x00'])[1]? ≠ some 'K') := fun h => h.elim (fun h => h rfl) fun h => h rfl
  have hlen : 3 < ("OK ".toList ++ msg ++ ['\x00']).length := by
    simp only [List.length_append, List.length_singleton]
    have hthree : "OK ".toList.length = 3 := rfl
    omega
  rw [createPubsubSocket, hm]
  dsimp only
  rw [if_neg hhead, if_pos hlen, hdrop]
  split_ifs <;> rfl

theorem firstLine_of_not_mem (h : '\n' ∉ msg) : firstLine msg = msg := by
  rw [firstLine, List.takeWhile_eq_self_iff]
  intro c hc
  simpa [notNewline] using ne_of_mem_of_not_mem hc h

theorem legal_address (h : (jukeboxSpec nl).Legal j L t) : t.address = j.address := by
  refine h.history (I := fun _ t => t.address = j.address) rfl ?_ ?_
  · intro L t u ih hd
    rcases hd with rfl | ⟨message, text, -, rfl⟩
    · exact ih
    · exact ih
  · intro L t m r u ih hserve
    rcases hserve with ⟨-, rfl, -⟩ | ⟨word, param, reply, -, -, hserve⟩
    · exact ih
    · cases hserve with
      | _ => exact ih

theorem pubsub_reply (h : (jukeboxSpec nl).Legal j L u) (hL : L = L₁ ++ (pubsubRequest, r) :: L₂) :
    r = cString ("OK ".toList ++ j.address) := by
  have hup : ∀ c ∈ "PUBSUB".toList, c.isUpper = true := List.all_eq_true.mp (by decide)
  obtain ⟨q, hs⟩ : ∃ q, splitMessage nl pubsubRequest = some ("PUBSUB".toList, q) :=
    splitMessage_space hup (by decide) (by simp)
  obtain ⟨t, t', hlegal, hserve⟩ := h.split hL
  rcases hserve with ⟨-, -, hunknown⟩ | ⟨word, param, reply, hs', rfl, hserve⟩
  · exact absurd (by decide) (hunknown _ _ hs)
  · obtain ⟨rfl, rfl⟩ := Prod.mk.inj (Option.some.inj (hs.symm.trans hs'))
    generalize hw : "PUBSUB".toList = word at hserve
    cases hserve with
    | pubsub param => rw [legal_address hlegal]
    | _ => exact absurd hw (by decide)

theorem not_mem_tcpAddress {c : Char} (hc : c = '\x00' ∨ c = '\n') (n : ℤ) : c ∉ tcpAddress localhost n := by
  have hdigit : c ∉ fmtUnsigned n.natAbs := by
    intro hm
    have hd := isDigit_of_mem_fmtUnsigned hm
    rcases hc with rfl | rfl
    · exact absurd hd (by decide)
    · exact absurd hd (by decide)
  have hsigned : c ∉ fmtSigned n := by
    by_cases hn : n < 0
    · rw [fmtSigned, if_pos hn, List.mem_cons, not_or]
      exact ⟨by rcases hc with rfl | rfl <;> decide, hdigit⟩
    · rwa [fmtSigned, if_neg hn]
  have hhead : c ∉ "tcp://".toList ++ localhost := by
    rcases hc with rfl | rfl
    · decide
    · decide
  intro hm
  rcases List.mem_append.mp hm with hm | hm
  · exact hhead hm
  · rcases List.mem_cons.mp hm with rfl | hm
    · exact absurd hc (by decide)
    · exact hsigned hm

end

section

variable {nl : Newlines} {accepts : Caps → Bool} {boot : HandlerCalls} {world : World} {port : ℤ}
  {parser : DaemonParser} {κ : Type} [DecidableEq κ] {n : Net Daemon κ Text Text}
  {es : List (Event κ Text Text (Except Errno Unit × HandlerCalls) DaemonEvent)} {r : Text}
  {L₁ L₂ : List (Text × Text)}

/-- Whatever reply PUBSUB gets in a session, the listener and the client both
read the address from it at which the PUB socket of that daemon is bound. -/
theorem subscribers_find_publisher
    (hboot : registerPlugins parserOperations parseNew boot (serverWorld port) = .ok (parser, world))
    (h : (sessionMachine nl accepts κ).Reaches (.start (.start world)) es n)
    (hn : exchanges n = L₁ ++ (pubsubRequest, r) :: L₂) :
    (∀ connected : Text → Bool, createPubsubSocket ⟨⟨true, true, some r⟩, true, connected⟩ =
      .ok (if connected (addressOf port .pub) then some (addressOf port .pub) else none)) ∧
    parseResponse r = some (addressOf port .pub) ∧
    ∀ {bindable : Text → Bool} {ports : Set ℤ} {hs : List HostEvent} {host : Host},
      (hostMachine bindable ports).Reaches Host.boot hs host → host.phase port ≠ .down →
        host.bound (addressOf port .pub) = some (port, .pub) := by
  have hnul : '\x00' ∉ addressOf port .pub := not_mem_tcpAddress (.inl rfl) _
  have hline : '\n' ∉ addressOf port .pub := not_mem_tcpAddress (.inr rfl) _
  have haddress : (jukeboxOf world).address = addressOf port .pub := by
    obtain ⟨-, hservices, -⟩ := registerPlugins_ok hboot
    show world.services.pubSub.addr = _
    rw [hservices]
    rfl
  have hr : r = "OK ".toList ++ addressOf port .pub := by
    rw [pubsub_reply (jukebox_of_sessions hboot h) hn, haddress]
    apply cString_of_not_mem
    intro hm
    rcases List.mem_append.mp hm with hm | hm
    · exact absurd hm (by decide)
    · exact hnul hm
  subst hr
  refine ⟨?_, ?_, ?_⟩
  · intro connected
    exact createPubsubSocket_of_ok rfl hnul
  · rw [parseResponse_of_ok_blank, firstLine_of_not_mem hline]
  · intro bindable ports hs host hreach hup
    refine (consistent_of_reaches hreach _ _ _).mpr ⟨rfl, ?_⟩
    cases hphase : host.phase port with
    | down => exact absurd hphase hup
    | registering => rfl
    | mainLoop zmqSocket => exact .inl rfl

def exampleServer : World := { serverWorld 8000 with playback := some (newPlaybackCtx 0 1 2) }

theorem exampleServer_boot : registerPlugins parserOperations parseNew exampleHandlerCalls (serverWorld 8000) =
    .ok (daemonParser, exampleServer) := rfl

theorem subscribers_find_publisher_8000 : ∃ es n,
    (sessionMachine .any (fun _ => true) Unit).Reaches (.start (.start exampleServer)) es n ∧
      exchanges n = [] ++ (pubsubRequest, "OK tcp://127.0.0.1:18001".toList) :: [] ∧
      parseResponse "OK tcp://127.0.0.1:18001".toList = some (addressOf 8000 .pub) := by
  obtain ⟨d, hserve⟩ : ∃ d, serveRequest .any (Daemon.start exampleServer).tick pubsubRequest
      (.ok (), exampleHandlerCalls) = .ok (("OK tcp://127.0.0.1:18001".toList, true), d) := ⟨_, rfl⟩
  obtain ⟨es, n, h, hn⟩ : ∃ es n,
      (sessionMachine .any (fun _ => true) Unit).Reaches (.start (.start exampleServer)) es n ∧
        exchanges n = [] ++ (pubsubRequest, "OK tcp://127.0.0.1:18001".toList) :: [] :=
    ⟨_, _, reaches_first_exchange () rfl hserve (fun pe hpe => by cases hpe), rfl⟩
  exact ⟨es, n, h, hn, (subscribers_find_publisher exampleServer_boot h hn).2.1⟩

end

end GstPlayd
