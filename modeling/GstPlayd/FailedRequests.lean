import GstPlayd.ClientCalls
import GstPlayd.ClientSessions
import GstPlayd.ReplyOutcome

/-! The shipped client raises an error exactly at the replies that start with
FAIL, and the requests that it raises one for might as well not have been sent. -/

namespace GstPlayd

open ElementGraph StepMachine StepMachine.Machine Linearization Backtracking

variable {nl : Newlines} {accepts : Caps → Bool} {boot : HandlerCalls} {world₀ world : World}
  {parser : DaemonParser} {κ : Type} [DecidableEq κ] {n : Net Daemon κ Text Text}
  {es : List (Event κ Text Text (Except Errno Unit × HandlerCalls) DaemonEvent)} {j j' : Jukebox}
  {word param reply m r s t : Text}

theorem cString_append (h : '\x00' ∉ s) (t : Text) : cString (s ++ t) = s ++ cString t := by
  have hs : ∀ c ∈ s, decide (c ≠ '\x00') = true := fun c hc => decide_eq_true fun he => h (he ▸ hc)
  rw [cString, List.takeWhile_append_of_pos hs]
  rfl

/-- What a reply may look like to the client: the word ends where it should. -/
inductive Readable : Text → Prop
  | ok {s : Text} (h : ∀ c ∈ s.head?, c.isUpper = false) : Readable ("OK".toList ++ s)
  | fail (s : Text) : Readable ("FAIL ".toList ++ s)

theorem Readable.cString (h : Readable reply) : Readable (GstPlayd.cString reply) := by
  cases h with
  | @ok s hs =>
    rw [cString_append (by decide)]
    apply Readable.ok
    intro c hc
    have hprefix : GstPlayd.cString s <+: s := List.takeWhile_prefix _
    obtain ⟨t, ht⟩ := List.head?_eq_some_iff.mp hc
    obtain ⟨u, hu⟩ := hprefix
    apply hs c
    rw [← hu, ht]
    rfl
  | fail s =>
    rw [cString_append (by decide)]
    exact .fail _

theorem Readable.search (h : Readable r) : (Backtracking.search responseRegex [] r).isSome = true := by
  cases h with
  | @ok s hs =>
    have hup : ∀ c ∈ "OK".toList, c.isUpper = true := List.all_eq_true.mp (by decide)
    obtain ⟨found, hf, -⟩ := search_responseRegex (by decide) hup hs
    rw [hf]
    rfl
  | fail s =>
    have hup : ∀ c ∈ "FAIL".toList, c.isUpper = true := List.all_eq_true.mp (by decide)
    have hs : ∀ c ∈ (' ' :: s).head?, c.isUpper = false := by
      intro c hc
      obtain rfl := Option.some.inj hc
      rfl
    obtain ⟨found, hf, -⟩ := search_responseRegex (by decide) hup hs
    have hword : "FAIL ".toList ++ s = "FAIL".toList ++ ' ' :: s := rfl
    rw [hword, hf]
    rfl

theorem Readable.parseResponse_eq_none_iff (h : Readable r) : parseResponse r = none ↔ SaysFail r := by
  cases h with
  | @ok s hs =>
    rw [parseResponse_of_ok hs]
    exact iff_of_false (by simp) (not_saysFail_of_saysOk ⟨s, rfl⟩)
  | fail s =>
    rw [parseResponse_of_fail]
    exact iff_of_true rfl ⟨s, rfl⟩

theorem readable_ok (hs : ∀ c ∈ s.head?, c.isUpper = false) :
    Readable ("OK".toList ++ s) ∧ (SaysFail ("OK".toList ++ s) → j' = j) :=
  ⟨.ok hs, fun hf => absurd hf (not_saysFail_of_saysOk ⟨s, rfl⟩)⟩

theorem readable_ok_blank (s : Text) :
    Readable ("OK ".toList ++ s) ∧ (SaysFail ("OK ".toList ++ s) → j' = j) := by
  have hs : ∀ c ∈ (' ' :: s).head?, c.isUpper = false := by
    intro c hc
    obtain rfl := Option.some.inj hc
    rfl
  exact readable_ok hs

theorem Jukebox.Serves.readable (h : j.Serves word param reply j') :
    Readable reply ∧ (SaysFail reply → j' = j) := by
  cases h with
  | ping param taken => exact readable_ok_blank ("Message was ".toList ++ param)
  | pubsub param => exact readable_ok_blank _
  | quit param => exact readable_ok (s := []) (by simp)
  | play uri id => exact readable_ok_blank ("player id: ".toList ++ _)
  | stop h => exact readable_ok_blank ("player id: ".toList ++ _)
  | stopInvalid h => exact ⟨.fail "id is invalid".toList, fun _ => rfl⟩
  | dumpgraph param => exact readable_ok (s := []) (by simp)
  | tags h =>
    rcases h with ⟨message, rfl⟩ | ⟨fmt, lists, visit, -, rfl⟩
    · exact ⟨.fail message, fun _ => rfl⟩
    · have hs : ∀ c ∈ ('\n' :: utilHashTableAsString visit).head?, c.isUpper = false := by
        intro c hc
        obtain rfl := Option.some.inj hc
        rfl
      exact readable_ok hs

theorem saysFail_cString (h : Readable reply) : SaysFail (cString reply) ↔ SaysFail reply := by
  cases h with
  | @ok s hs =>
    rw [cString_append (by decide)]
    exact iff_of_false (not_saysFail_of_saysOk ⟨_, rfl⟩) (not_saysFail_of_saysOk ⟨s, rfl⟩)
  | fail s =>
    rw [cString_append (by decide)]
    exact iff_of_true ⟨_, rfl⟩ ⟨s, rfl⟩

theorem spec_serves_readable (h : (jukeboxSpec nl).serves j m r j') : Readable r ∧ (SaysFail r → j' = j) := by
  rcases h with ⟨rfl, rfl, -⟩ | ⟨word, param, reply, -, rfl, hserve⟩
  · exact ⟨.fail "Message is Invalid".toList, fun _ => rfl⟩
  · obtain ⟨hread, hfail⟩ := hserve.readable
    exact ⟨hread.cString, fun h => hfail ((saysFail_cString hread).mp h)⟩

/-- The client takes each reply for what it is, and the requests after which it
raises an error can be left out of the session. -/
theorem raised_requests_do_nothing
    (hboot : registerPlugins parserOperations parseNew boot world₀ = .ok (parser, world))
    (h : (sessionMachine nl accepts κ).Reaches (.start (.start world)) es n) :
    (∀ x ∈ exchanges n, (search responseRegex [] x.2).isSome = true ∧
      (parseResponse x.2 = none ↔ SaysFail x.2)) ∧
    (jukeboxSpec nl).Legal (jukeboxOf world) ((exchanges n).filter fun x => (parseResponse x.2).isSome)
      (jukeboxOf n.server.world) := by
  have hlegal := jukebox_of_sessions hboot h
  constructor
  · intro x hx
    obtain ⟨newer, older, hsplit⟩ := List.append_of_mem hx
    obtain ⟨t, t', -, hserve⟩ := hlegal.split hsplit
    have hread := (spec_serves_readable hserve).1
    exact ⟨hread.search, hread.parseResponse_eq_none_iff⟩
  · apply hlegal.filter
    intro t m r u hserve hraised
    obtain ⟨hread, hfail⟩ := spec_serves_readable hserve
    apply hfail
    apply hread.parseResponse_eq_none_iff.mp
    simpa using hraised

theorem raised_requests_do_nothing_stop : ∃ es n,
    (sessionMachine .any (fun _ => true) Unit).Reaches (.start (.start exampleWorld)) es n ∧
      exchanges n = [(clientStop "7".toList, "FAIL id is invalid".toList)] ∧
      parseResponse "FAIL id is invalid".toList = none ∧
      (jukeboxSpec .any).Legal (jukeboxOf exampleWorld)
        ((exchanges n).filter fun x => (parseResponse x.2).isSome) (jukeboxOf n.server.world) := by
  have hboot : registerPlugins parserOperations parseNew exampleHandlerCalls exampleWorld =
    .ok (daemonParser, exampleWorld) := rfl
  obtain ⟨d, hserve⟩ : ∃ d, serveRequest .any (Daemon.start exampleWorld).tick (clientStop "7".toList)
      (.ok (), exampleHandlerCalls) = .ok (("FAIL id is invalid".toList, true), d) := ⟨_, rfl⟩
  have hallow : ∀ pe ∈ DaemonEvent.playbackEvent .any (Daemon.start exampleWorld).tick
      (.handle (.ok (clientStop "7".toList)) (.ok ()) exampleHandlerCalls), ∀ p ∈ exampleWorld.playback,
      AllocatorAnswers p pe := by
    intro pe hpe p hp
    obtain rfl : PlaybackEvent.stop "7".toList exampleHandlerCalls.stop = pe := Option.some.inj hpe
    trivial
  obtain ⟨es, n, h, hn⟩ : ∃ es n,
      (sessionMachine .any (fun _ => true) Unit).Reaches (.start (.start exampleWorld)) es n ∧
        exchanges n = [(clientStop "7".toList, "FAIL id is invalid".toList)] :=
    ⟨_, _, reaches_first_exchange () rfl hserve hallow, rfl⟩
  obtain ⟨hread, hlegal⟩ := raised_requests_do_nothing hboot h
  have hmem : (clientStop "7".toList, "FAIL id is invalid".toList) ∈ exchanges n := hn ▸ List.mem_cons_self
  exact ⟨es, n, h, hn, (hread _ hmem).2.mpr ⟨"id is invalid".toList, rfl⟩, hlegal⟩

end GstPlayd
