import GstPlayd.MessageDispatch

/-! What the shipped client sends, and what the daemon makes of it. -/

namespace GstPlayd

open Backtracking

variable {nl : Newlines} {command param : Text}

/-- `"#{command} #{param}"` -/
def clientRequest (command param : Text) : Text := command ++ ' ' :: param

def clientTags (uri : Text) : Text := clientRequest "TAGS".toList uri

def clientPlay (uri : Text) : Text := clientRequest "PLAY".toList uri

def clientStop (id : Text) : Text := clientRequest "STOP".toList id

theorem bodyText_of_dot (hne : param ≠ []) (hp : ∀ c ∈ param, nl.dot c = true) :
    bodyText nl param = some param := by
  have htake : param.takeWhile nl.dot = param := List.takeWhile_eq_self_iff.mpr hp
  have hdrop : param.dropWhile nl.dot = [] := List.dropWhile_eq_nil_iff.mpr hp
  rw [bodyText, htake, hdrop]
  exact if_pos ⟨hne, nl.atEnd_nil⟩

theorem paramText_separator (hne : param ≠ []) (hp : ∀ c ∈ param, nl.dot c = true) :
    paramText nl (' ' :: param) = some param := by
  rw [paramText, bodyText_of_dot hne hp]
  rfl

theorem splitMessage_clientRequest (hc : command ≠ []) (hup : ∀ c ∈ command, c.isUpper = true)
    (hne : param ≠ []) (hp : ∀ c ∈ param, nl.dot c = true) :
    splitMessage nl (clientRequest command param) = some (command, param) := by
  have hl : letterRun (clientRequest command param) = command := by
    rw [clientRequest, letterRun_append hup, letterRun_space, List.append_nil]
  have ha : afterLetters (clientRequest command param) = ' ' :: param := by
    rw [clientRequest, afterLetters_append hup, afterLetters_space]
  simp only [splitMessage, hl, ha, paramText_separator hne hp, hc, if_false]

/-- Both groups of the match come out as the client put them in, and the
handler registered for the command gets the parameter. -/
theorem parseMessage_clientRequest (nl : Newlines) {command param : Text} (hc : command ≠ [])
    (hup : ∀ c ∈ command, c.isUpper = true) (hne : param ≠ []) (hp : ∀ c ∈ param, nl.dot c = true) :
    (∃ found, search (msgRegex nl) [] (clientRequest command param) = some found ∧
      found.group 1 = some command ∧ found.group 2 = some param) ∧
    ∀ {γ ε σ : Type} (parser : ParseCtx γ ε σ) (calls : ε) (world : σ),
      (∀ entry, parser.messageTable.lookup command = some entry →
        parser.dispatch nl (clientRequest command param) = some (command, entry, param) ∧
        parseMessage nl parser (clientRequest command param) calls world =
          entry.parser param entry.pluginContext calls world) ∧
      (parser.messageTable.lookup command = none →
        parseMessage nl parser (clientRequest command param) calls world =
          .ok ("FAIL Message is Invalid".toList, world)) := by
  have hs := splitMessage_clientRequest hc hup hne hp
  constructor
  · have hgroups := search_msgRegex nl (clientRequest command param)
    rw [hs] at hgroups
    obtain ⟨found, hf, hg⟩ := Option.map_eq_some_iff.mp hgroups
    exact ⟨found, hf, by simp [Found.group, hg], by simp [Found.group, hg, List.lookup_cons]⟩
  · intro γ ε σ parser calls world
    constructor
    · intro entry he
      have hd : parser.dispatch nl (clientRequest command param) = some (command, entry, param) := by
        rw [dispatch_eq_splitMessage, hs, Option.bind_some, he, Option.map_some]
      exact ⟨hd, parseMessage_of_lookup hs he calls world⟩
    · intro he
      have hd : parser.dispatch nl (clientRequest command param) = none := by
        rw [dispatch_eq_splitMessage, hs, Option.bind_some, he, Option.map_none]
      rw [parseMessage, hd]

theorem parseMessage_clientRequest_ping :
    parseMessage .any daemonParser (clientRequest "PING".toList "  PING A".toList) exampleHandlerCalls
        exampleWorld =
      onServices (opPingParse "  PING A".toList true) .services exampleWorld := by
  have hup : ∀ c ∈ "PING".toList, c.isUpper = true := List.all_eq_true.mp (by decide)
  have hp : ∀ c ∈ "  PING A".toList, Newlines.any.dot c = true := List.all_eq_true.mp (by decide)
  exact (((parseMessage_clientRequest .any (by decide) hup (by decide) hp).2 daemonParser exampleHandlerCalls
    exampleWorld).1 _ rfl).2

/-- The methods of the client reach their handlers with what they were given. -/
theorem client_methods_reach_handlers (hne : param ≠ []) (hp : ∀ c ∈ param, nl.dot c = true)
    (calls : HandlerCalls) (world : World) :
    parseMessage nl daemonParser (clientTags param) calls world =
        onPlayback (opTagsParse param calls) .playback world ∧
      parseMessage nl daemonParser (clientPlay param) calls world =
        onPlayback (opPlayParse param calls.play) .playback world ∧
      parseMessage nl daemonParser (clientStop param) calls world =
        onPlayback (opStopParse param calls.stop) .playback world := by
  have htags : ∀ c ∈ "TAGS".toList, c.isUpper = true := List.all_eq_true.mp (by decide)
  have hplay : ∀ c ∈ "PLAY".toList, c.isUpper = true := List.all_eq_true.mp (by decide)
  have hstop : ∀ c ∈ "STOP".toList, c.isUpper = true := List.all_eq_true.mp (by decide)
  refine ⟨?_, ?_, ?_⟩
  · rw [clientTags, parseMessage_of_lookup (splitMessage_clientRequest (by decide) htags hne hp) rfl]
  · rw [clientPlay, parseMessage_of_lookup (splitMessage_clientRequest (by decide) hplay hne hp) rfl]
  · rw [clientStop, parseMessage_of_lookup (splitMessage_clientRequest (by decide) hstop hne hp) rfl]

end GstPlayd
