import GstPlayd.ClientCalls
import GstPlayd.ClientRequest
import GstPlayd.ClientSessions

/-! PLAY and STOP as the clients see them: the replies so far decide whether a
STOP succeeds. -/

namespace GstPlayd

open ElementGraph StepMachine StepMachine.Machine Linearization

/-- A PLAY that was answered with the id. -/
def issues (nl : Newlines) (id : UInt32) (x : Text × Text) : Bool :=
  (splitMessage nl (cString x.1)).any (fun s => s.1 = "PLAY".toList) &&
    x.2 = "OK player id: ".toList ++ fmtUnsigned id.toNat

/-- A STOP of the id that succeeded. -/
def retires (nl : Newlines) (id : UInt32) (x : Text × Text) : Bool :=
  (splitMessage nl (cString x.1)).any (fun s => s.1 = "STOP".toList && stopId s.2 = id) &&
    x.2 = "OK player id: ".toList ++ fmtUnsigned id.toNat

section

variable {nl : Newlines} {j t u : Jukebox} {m m' r word param param' : Text} {id : UInt32}
  {L L₁ L₂ L₃ : List (Text × Text)}

theorem cString_playerIdReply (id : UInt32) : cString (playerIdReply id) = playerIdReply id := by
  apply cString_of_not_mem
  intro hm
  rcases List.mem_append.mp hm with hm | hm
  · exact absurd hm (by decide)
  · exact absurd (isDigit_of_mem_fmtUnsigned hm) (by decide)

theorem playerIdReply_inj {a b : UInt32} : playerIdReply a = playerIdReply b ↔ a = b := by
  constructor
  · intro h
    exact UInt32.toNat_inj.mp (fmtUnsigned_injective (List.append_cancel_left h))
  · intro h
    rw [h]

theorem issues_eq (x : Text × Text) : issues nl id x =
    ((splitMessage nl (cString x.1)).any (fun s => s.1 = "PLAY".toList) && x.2 = playerIdReply id) := rfl

theorem retires_eq (x : Text × Text) : retires nl id x =
    ((splitMessage nl (cString x.1)).any (fun s => s.1 = "STOP".toList && stopId s.2 = id) &&
      x.2 = playerIdReply id) := rfl

theorem issues_of_split (hs : splitMessage nl (cString m) = some (word, param)) :
    issues nl id (m, r) = (word = "PLAY".toList && r = playerIdReply id : Bool) := by
  simp only [issues_eq, hs, Option.any_some]

theorem retires_of_split (hs : splitMessage nl (cString m) = some (word, param)) :
    retires nl id (m, r) = (word = "STOP".toList && stopId param = id && r = playerIdReply id : Bool) := by
  simp only [retires_eq, hs, Option.any_some]

theorem fail_ne_playerIdReply (s : Text) (id : UInt32) : 'F' :: s ≠ playerIdReply id := by
  intro h
  exact absurd (List.cons.inj h).1 (by decide)

theorem countP_eraseP_hasId {live : List Track} {stopped : UInt32}
    (hany : live.any (Track.hasId stopped) = true) (id : UInt32) :
    (live.eraseP (Track.hasId stopped)).countP (Track.hasId id) + (decide (stopped = id)).toNat =
      live.countP (Track.hasId id) := by
  obtain ⟨x, hx, hid⟩ := List.any_eq_true.mp hany
  obtain ⟨y, newer, older, -, hy, hlive, herase⟩ := List.exists_of_eraseP hx hid
  rw [herase, hlive, List.countP_append, List.countP_append, List.countP_cons]
  have hiff : y.hasId id = decide (stopped = id) := by
    rw [Track.hasId, beq_iff_eq] at hy
    rw [Track.hasId, hy]
    rfl
  rw [hiff]
  by_cases h : stopped = id
  · simp [h]
    omega
  · simp [h]

/-- A request changes how many live tracks have an id by the replies alone. -/
theorem serves_count (h : (jukeboxSpec nl).serves t m r u) (id : UInt32) :
    u.live.countP (Track.hasId id) + (retires nl id (m, r)).toNat =
      t.live.countP (Track.hasId id) + (issues nl id (m, r)).toNat := by
  rcases h with ⟨rfl, rfl, -⟩ | ⟨word, param, reply, hs, rfl, hserve⟩
  · simp [issues_eq, retires_eq, fail_ne_playerIdReply]
  · rw [issues_of_split hs, retires_of_split hs]
    cases hserve with
    | ping param taken => rfl
    | pubsub param => rfl
    | quit param => rfl
    | tags h => rfl
    | dumpgraph param => rfl
    | play uri issued =>
      rw [cString_playerIdReply]
      by_cases hid : issued = id
      · simp [Track.hasId, hid]
      · simp [Track.hasId, hid, playerIdReply_inj]
    | @stop param hany =>
      have hcount := countP_eraseP_hasId hany id
      have hreply : decide (playerIdReply (stopId param) = playerIdReply id) = decide (stopId param = id) :=
        decide_eq_decide.mpr playerIdReply_inj
      rw [cString_playerIdReply, hreply, Bool.and_self_right]
      exact hcount
    | stopInvalid hnone =>
      have hreply : cString "FAIL id is invalid".toList ≠ playerIdReply id := fail_ne_playerIdReply _ id
      rw [decide_eq_false hreply, Bool.and_false, Bool.and_false]

theorem live_count (h : (jukeboxSpec nl).Legal j L t) (hj : j.live = []) (id : UInt32) :
    t.live.countP (Track.hasId id) + L.countP (retires nl id) = L.countP (issues nl id) := by
  refine h.history (I := fun L t => t.live.countP (Track.hasId id) + L.countP (retires nl id) =
    L.countP (issues nl id)) ?_ ?_ ?_
  · simp [hj]
  · intro L t u ih hd
    rcases hd with rfl | ⟨message, text, -, rfl⟩
    · exact ih
    · exact ih
  · intro L t m r u ih hserve
    have hcount := serves_count hserve id
    have hone : ∀ b : Bool, (if b = true then 1 else 0) = b.toNat := fun b => by cases b <;> rfl
    simp only [List.countP_append, List.countP_singleton, hone]
    omega

theorem stop_reply (h : (jukeboxSpec nl).Legal j L u) (hj : j.live = []) (hL : L = L₁ ++ (m, r) :: L₂)
    (hs : splitMessage nl (cString m) = some ("STOP".toList, param)) :
    r = if L₁.countP (retires nl (stopId param)) < L₁.countP (issues nl (stopId param)) then
      playerIdReply (stopId param) else "FAIL id is invalid".toList := by
  obtain ⟨t, t', hlegal, hserve⟩ := h.split hL
  have hcount := live_count hlegal hj (stopId param)
  rcases hserve with ⟨-, -, hunknown⟩ | ⟨word, param', reply, hs', rfl, hserve⟩
  · exact absurd (by decide) (hunknown _ _ hs)
  · obtain ⟨rfl, rfl⟩ := Prod.mk.inj (Option.some.inj (hs.symm.trans hs'))
    generalize hw : "STOP".toList = word at hserve
    cases hserve with
    | stop hany =>
      have hpos := List.countP_pos_iff.mpr (List.any_eq_true.mp hany)
      rw [if_pos (by omega), cString_playerIdReply]
    | stopInvalid hnone =>
      have hzero := List.countP_eq_zero.mpr (List.any_eq_false.mp hnone)
      rw [if_neg (by omega)]
      rfl
    | _ => exact absurd hw (by decide)

theorem play_reply (h : (jukeboxSpec nl).serves t m r u)
    (hs : splitMessage nl (cString m) = some ("PLAY".toList, param)) : ∃ id, r = playerIdReply id := by
  rcases h with ⟨-, -, hunknown⟩ | ⟨word, param', reply, hs', rfl, hserve⟩
  · exact absurd (by decide) (hunknown _ _ hs)
  · obtain ⟨rfl, rfl⟩ := Prod.mk.inj (Option.some.inj (hs.symm.trans hs'))
    generalize hw : "PLAY".toList = word at hserve
    cases hserve with
    | play uri id => exact ⟨id, cString_playerIdReply id⟩
    | _ => exact absurd hw (by decide)

theorem cString_clientRequest {command : Text} (hc : '\x00' ∉ command) (hp : '\x00' ∉ param) :
    cString (clientRequest command param) = clientRequest command param := by
  apply cString_of_not_mem
  intro hm
  rcases List.mem_append.mp hm with hm | hm
  · exact hc hm
  · exact hp ((List.mem_cons.mp hm).resolve_left (by decide))

/-- Between the PLAY and the STOP of the id, no STOP of it succeeds. -/
theorem stop_reply_of_play (h : (jukeboxSpec nl).Legal j L u) (hj : j.live = [])
    (hL : L = L₁ ++ (m, playerIdReply id) :: (L₂ ++ (m', r) :: L₃))
    (hplay : splitMessage nl (cString m) = some ("PLAY".toList, param))
    (hstop : splitMessage nl (cString m') = some ("STOP".toList, param')) (hid : stopId param' = id)
    (hkept : ∀ x ∈ L₂, retires nl id x = false) : r = playerIdReply id := by
  subst hid
  obtain ⟨t, t', hlegal, -⟩ := h.split hL
  have hbefore := live_count hlegal hj (stopId param')
  have hzero : L₂.countP (retires nl (stopId param')) = 0 :=
    List.countP_eq_zero.mpr fun x hx => by simp [hkept x hx]
  have hissued : issues nl (stopId param') (m, playerIdReply (stopId param')) = true := by
    rw [issues_of_split hplay]
    simp
  have hnot : retires nl (stopId param') (m, playerIdReply (stopId param')) = false := by
    rw [retires_of_split hplay]
    rfl
  have hcut : L = (L₁ ++ (m, playerIdReply (stopId param')) :: L₂) ++ (m', r) :: L₃ := by simp [hL]
  have hr := stop_reply h hj hcut hstop
  rwa [if_pos] at hr
  simp only [List.countP_append, List.countP_cons, hissued, hnot, hzero]
  simp only [Bool.false_eq_true, if_true, if_false]
  omega

end

section

variable {nl : Newlines} {accepts : Caps → Bool} {boot : HandlerCalls} {world₀ world : World}
  {parser : DaemonParser} {κ : Type} [DecidableEq κ] {n : Net Daemon κ Text Text}
  {es : List (Event κ Text Text (Except Errno Unit × HandlerCalls) DaemonEvent)} {m r r' uri param text : Text}
  {L₁ L₂ L₃ : List (Text × Text)}

theorem live_boot (hboot : registerPlugins parserOperations parseNew boot world₀ = .ok (parser, world)) :
    (jukeboxOf world).live = [] := by
  obtain ⟨-, -, sink, mux, ac, hw⟩ := registerPlugins_ok hboot
  rw [live_jukeboxOf hw]
  rfl

/-- In the order that the clients see, a STOP succeeds exactly when more PLAYs
were answered with its id than STOPs of it have succeeded. -/
theorem stop_succeeds_iff
    (hboot : registerPlugins parserOperations parseNew boot world₀ = .ok (parser, world))
    (h : (sessionMachine nl accepts κ).Reaches (.start (.start world)) es n)
    (hn : exchanges n = L₁ ++ (m, r) :: L₂)
    (hs : splitMessage nl (cString m) = some ("STOP".toList, param)) :
    r = if L₁.countP (retires nl (stopId param)) < L₁.countP (issues nl (stopId param)) then
      "OK player id: ".toList ++ fmtUnsigned (stopId param).toNat else "FAIL id is invalid".toList :=
  stop_reply (jukebox_of_sessions hboot h) (live_boot hboot) hn hs

theorem stop_succeeds_after_play : ∃ es n,
    (sessionMachine .any (fun _ => true) Bool).Reaches (.start (.start exampleWorld)) es n ∧
      exchanges n = [(clientPlay "a".toList, playerIdReply exampleId)] ++
        (clientStop (fmtUnsigned exampleId.toNat), playerIdReply exampleId) :: [] ∧
      [(clientPlay "a".toList, playerIdReply exampleId)].countP (retires .any exampleId) <
        [(clientPlay "a".toList, playerIdReply exampleId)].countP (issues .any exampleId) := by
  have hboot : registerPlugins parserOperations parseNew exampleHandlerCalls exampleWorld =
    .ok (daemonParser, exampleWorld) := rfl
  obtain ⟨es, n, h, hserved⟩ := example_session
  have hn : exchanges n = [(clientPlay "a".toList, playerIdReply exampleId)] ++
      (clientStop (fmtUnsigned exampleId.toNat), playerIdReply exampleId) :: [] := by
    rw [exchanges, hserved]
    rfl
  have hsplit : splitMessage .any (cString (clientStop (fmtUnsigned exampleId.toNat))) =
    some ("STOP".toList, fmtUnsigned exampleId.toNat) := rfl
  have hr := stop_succeeds_iff hboot h hn hsplit
  rw [stopId_fmtUnsigned] at hr
  refine ⟨es, n, h, hn, ?_⟩
  by_contra hlt
  rw [if_neg hlt] at hr
  exact playerIdReply_ne_fail exampleId hr

/-- What `play` returns is an id that `stop` takes: its STOP gets the reply
that the PLAY got, unless the track was stopped in between. -/
theorem played_id_stops
    (hboot : registerPlugins parserOperations parseNew boot world₀ = .ok (parser, world))
    (h : (sessionMachine nl accepts κ).Reaches (.start (.start world)) es n)
    (hdigit : ∀ c : Char, c.isDigit = true → nl.dot c = true) (hne : uri ≠ [])
    (huri : ∀ c ∈ uri, nl.dot c = true ∧ c ≠ '\x00')
    (hn : exchanges n = L₁ ++ (clientPlay uri, r) :: (L₂ ++ (clientStop text, r') :: L₃))
    (htext : clientPlayed r = some text) (hkept : ∀ x ∈ L₂, retires nl (stopId text) x = false) :
    r' = r ∧ r = "OK player id: ".toList ++ text ∧
      parseResponse r' = some ("player id: ".toList ++ text) := by
  have hjukebox := jukebox_of_sessions hboot h
  have hup : ∀ c ∈ "PLAY".toList, c.isUpper = true := List.all_eq_true.mp (by decide)
  have hups : ∀ c ∈ "STOP".toList, c.isUpper = true := List.all_eq_true.mp (by decide)
  have hplay : splitMessage nl (cString (clientPlay uri)) = some ("PLAY".toList, uri) := by
    rw [clientPlay, cString_clientRequest (by decide) fun hm => (huri _ hm).2 rfl]
    exact splitMessage_clientRequest (by decide) hup hne fun c hc => (huri c hc).1
  obtain ⟨t, t', -, hserve⟩ := hjukebox.split hn
  obtain ⟨id, rfl⟩ := play_reply hserve hplay
  obtain rfl := Option.some.inj ((clientPlayed_playerIdReply id).symm.trans htext)
  have hall : ∀ c ∈ fmtUnsigned id.toNat, c.isDigit = true := fun c => isDigit_of_mem_fmtUnsigned
  have hstop : splitMessage nl (cString (clientStop (fmtUnsigned id.toNat))) =
      some ("STOP".toList, fmtUnsigned id.toNat) := by
    rw [clientStop, cString_clientRequest (by decide) fun hm => absurd (hall _ hm) (by decide)]
    exact splitMessage_clientRequest (by decide) hups Nat.toDigits_ne_nil fun c hc => hdigit c (hall c hc)
  rw [stopId_fmtUnsigned] at hkept
  have hr := stop_reply_of_play hjukebox (live_boot hboot) hn hplay hstop (stopId_fmtUnsigned id) hkept
  rw [hr]
  exact ⟨rfl, rfl, parseResponse_playerIdReply id⟩

theorem played_id_stops_example : ∃ es n,
    (sessionMachine .any (fun _ => true) Bool).Reaches (.start (.start exampleWorld)) es n ∧
      clientPlayed (playerIdReply exampleId) = some (fmtUnsigned exampleId.toNat) ∧
      parseResponse (playerIdReply exampleId) = some ("player id: ".toList ++ fmtUnsigned exampleId.toNat) := by
  have hboot : registerPlugins parserOperations parseNew exampleHandlerCalls exampleWorld =
    .ok (daemonParser, exampleWorld) := rfl
  obtain ⟨es, n, h, hserved⟩ := example_session
  have hn : exchanges n = [] ++ (clientPlay "a".toList, playerIdReply exampleId) ::
      ([] ++ (clientStop (fmtUnsigned exampleId.toNat), playerIdReply exampleId) :: []) := by
    rw [exchanges, hserved]
    rfl
  have hbreak : ∀ s ∈ Newlines.any.sequences, ∀ c ∈ s.head?, c.isDigit = false := by simp [Newlines.any]
  have hdigit : ∀ c : Char, c.isDigit = true → Newlines.any.dot c = true := by
    intro c hc
    simp only [Newlines.dot, List.all_eq_true, bne_iff_ne]
    intro s hs he
    exact absurd (hbreak s hs c he) (by simp [hc])
  have huri : ∀ c ∈ "a".toList, Newlines.any.dot c = true ∧ c ≠ '\x00' := by
    intro c hc
    obtain rfl := List.mem_singleton.mp hc
    exact ⟨rfl, by decide⟩
  have htext := clientPlayed_playerIdReply exampleId
  exact ⟨es, n, h, htext, (played_id_stops hboot h hdigit (by decide) huri hn htext (by simp)).2.2⟩

end

end GstPlayd
