import GstPlayd.KeyedTable
import GstPlayd.MessageRegex

/-! Plugin registration and message dispatch. A handler is a function of the
parameter text, the context of its plugin, the answers that the libraries give
while it runs, and the state of the daemon. -/

namespace GstPlayd

open Backtracking KeyedTable

/-- Why a call does not return: `g_error` aborts, a pointer is not valid, or
the call waits for ever. -/
inductive Halt
  | gError (text : Text)
  | invalidPointer
  | blocked
  deriving DecidableEq, Repr

abbrev Result (α : Type) := Except Halt α

abbrev ParseHandlerCb (γ ε σ : Type) := Text → γ → ε → σ → Result (Text × σ)

structure MessageDispatchEntry (γ ε σ : Type) where
  messagePrefix : Text
  opParse : ParseHandlerCb γ ε σ

structure ParserPluginEntry (ρ γ ε σ : Type) where
  friendlyName : Text
  context : ρ
  pluginNew : ρ → ε → σ → Result (γ × σ)
  pluginRegister : γ → ε → σ → Result (Option (List (MessageDispatchEntry γ ε σ)) × σ)
  pluginFree : γ → ε → σ → Result σ

structure RegEntryWithCtx (γ ε σ : Type) where
  messagePrefix : Text
  pluginContext : γ
  parser : ParseHandlerCb γ ε σ

structure PluginEntryWithCtx (γ ε σ : Type) where
  ctx : γ
  pluginFree : γ → ε → σ → Result σ

structure ParseCtx (γ ε σ : Type) where
  messageTable : AList fun _ : Text => RegEntryWithCtx γ ε σ
  pluginList : List (PluginEntryWithCtx γ ε σ)

variable {ρ γ ε σ : Type}

def parseNew : ParseCtx γ ε σ := ⟨∅, []⟩

def insertEntries (ctx : γ) (table : AList fun _ : Text => RegEntryWithCtx γ ε σ)
    (msgs : List (MessageDispatchEntry γ ε σ)) : AList fun _ : Text => RegEntryWithCtx γ ε σ :=
  msgs.foldl (fun t msg => t.insert msg.messagePrefix ⟨msg.messagePrefix, ctx, msg.opParse⟩) table

def parseRegisterPlugin (parser : ParseCtx γ ε σ) (plugin : ParserPluginEntry ρ γ ε σ)
    (calls : ε) (world : σ) : Result (Bool × ParseCtx γ ε σ × σ) := do
  let (ctx, world) ← plugin.pluginNew plugin.context calls world
  let (regdMessages, world) ← plugin.pluginRegister ctx calls world
  match regdMessages with
  | none =>
    let world ← plugin.pluginFree ctx calls world
    return (false, parser, world)
  | some msgs =>
    return (true, ⟨insertEntries ctx parser.messageTable msgs,
      ⟨ctx, plugin.pluginFree⟩ :: parser.pluginList⟩, world)

def parseFree (parser : ParseCtx γ ε σ) (calls : ε) (world : σ) : Result σ :=
  parser.pluginList.foldlM (fun w entry => entry.pluginFree entry.ctx calls w) world

/-- The word looked up for a message, the entry found under it, and the
parameter that the entry's handler is called with. -/
def ParseCtx.dispatch (nl : Newlines) (parser : ParseCtx γ ε σ) (message : Text) :
    Option (Text × RegEntryWithCtx γ ε σ × Text) := do
  let found ← search (msgRegex nl) [] message
  let word ← found.group 1
  let entry ← parser.messageTable.lookup word
  let param ← found.group 2
  return (word, entry, param)

def parseMessage (nl : Newlines) (parser : ParseCtx γ ε σ) (message : Text) (calls : ε)
    (world : σ) : Result (Text × σ) :=
  match parser.dispatch nl message with
  | none => .ok ("FAIL Message is Invalid".toList, world)
  | some (_, entry, param) => entry.parser param entry.pluginContext calls world

def ParseCtx.Invokes (nl : Newlines) (parser : ParseCtx γ ε σ) (message word param : Text) : Prop :=
  ∃ entry, parser.dispatch nl message = some (word, entry, param)

variable {plugin : ParserPluginEntry ρ γ ε σ} {parser parser' : ParseCtx γ ε σ} {calls : ε}
  {world world' newWorld regWorld : σ} {ctx : γ} {msgs : List (MessageDispatchEntry γ ε σ)}

theorem parseRegisterPlugin_of_some
    (hn : plugin.pluginNew plugin.context calls world = .ok (ctx, newWorld))
    (hr : plugin.pluginRegister ctx calls newWorld = .ok (some msgs, regWorld)) :
    parseRegisterPlugin parser plugin calls world =
      .ok (true, ⟨insertEntries ctx parser.messageTable msgs,
        ⟨ctx, plugin.pluginFree⟩ :: parser.pluginList⟩, regWorld) := by
  simp only [parseRegisterPlugin, hn, hr, bind, Except.bind]
  rfl

theorem parseRegisterPlugin_of_none
    (hn : plugin.pluginNew plugin.context calls world = .ok (ctx, newWorld))
    (hr : plugin.pluginRegister ctx calls newWorld = .ok (none, regWorld))
    (hf : plugin.pluginFree ctx calls regWorld = .ok world') :
    parseRegisterPlugin parser plugin calls world = .ok (false, parser, world') := by
  simp only [parseRegisterPlugin, hn, hr, hf, bind, Except.bind]
  rfl

theorem parseRegisterPlugin_of_error {k : Halt}
    (hn : plugin.pluginNew plugin.context calls world = .error k) :
    parseRegisterPlugin parser plugin calls world = .error k := by
  simp only [parseRegisterPlugin, hn, bind, Except.bind]

theorem parseRegisterPlugin_cases {done : Bool}
    (h : parseRegisterPlugin parser plugin calls world = .ok (done, parser', world')) :
    ∃ ctx newWorld regWorld, plugin.pluginNew plugin.context calls world = .ok (ctx, newWorld) ∧
      ((plugin.pluginRegister ctx calls newWorld = .ok (none, regWorld) ∧
          plugin.pluginFree ctx calls regWorld = .ok world' ∧ done = false ∧ parser' = parser) ∨
        ∃ msgs, plugin.pluginRegister ctx calls newWorld = .ok (some msgs, regWorld) ∧ done = true ∧
          world' = regWorld ∧ parser' = ⟨insertEntries ctx parser.messageTable msgs,
            ⟨ctx, plugin.pluginFree⟩ :: parser.pluginList⟩) := by
  cases hn : plugin.pluginNew plugin.context calls world with
  | error k => simp [parseRegisterPlugin_of_error hn] at h
  | ok r =>
    obtain ⟨ctx, newWorld⟩ := r
    cases hr : plugin.pluginRegister ctx calls newWorld with
    | error k => simp [parseRegisterPlugin, hn, hr, bind, Except.bind] at h
    | ok r =>
      obtain ⟨regdMessages, regWorld⟩ := r
      refine ⟨ctx, newWorld, regWorld, rfl, ?_⟩
      cases regdMessages with
      | some msgs =>
        rw [parseRegisterPlugin_of_some hn hr] at h
        obtain ⟨rfl, rfl, rfl⟩ : true = done ∧ _ = parser' ∧ regWorld = world' := by simpa using h
        exact .inr ⟨msgs, hr, rfl, rfl, rfl⟩
      | none =>
        cases hf : plugin.pluginFree ctx calls regWorld with
        | error k => simp [parseRegisterPlugin, hn, hr, hf, bind, Except.bind] at h
        | ok w =>
          rw [parseRegisterPlugin_of_none hn hr hf] at h
          obtain ⟨rfl, rfl, rfl⟩ : false = done ∧ parser = parser' ∧ w = world' := by simpa using h
          exact .inl ⟨hr, rfl, rfl, rfl⟩

theorem insertEntries_eq (ctx : γ) (table : AList fun _ : Text => RegEntryWithCtx γ ε σ)
    (msgs : List (MessageDispatchEntry γ ε σ)) : insertEntries ctx table msgs =
      insertAll table (msgs.map fun msg => (msg.messagePrefix, ⟨msg.messagePrefix, ctx, msg.opParse⟩)) := by
  rw [insertEntries, insertAll, List.foldl_map]

/-- A later entry for a word replaces the ones before it. -/
theorem lookup_insertEntries (ctx : γ) (table : AList fun _ : Text => RegEntryWithCtx γ ε σ)
    (msgs : List (MessageDispatchEntry γ ε σ)) (word : Text) :
    (insertEntries ctx table msgs).lookup word =
      ((msgs.reverse.find? fun msg => msg.messagePrefix = word).map fun msg =>
        ⟨msg.messagePrefix, ctx, msg.opParse⟩).or (table.lookup word) := by
  rw [insertEntries_eq, lookup_insertAll, ← List.map_reverse, valueAt, List.find?_map, Option.map_map]
  rfl

theorem dispatch_eq_splitMessage (nl : Newlines) (parser : ParseCtx γ ε σ) (m : Text) :
    parser.dispatch nl m = (splitMessage nl m).bind fun s =>
      (parser.messageTable.lookup s.1).map fun entry => (s.1, entry, s.2) := by
  have hs := search_msgRegex nl m
  cases hf : search (msgRegex nl) [] m with
  | none =>
    have hn : splitMessage nl m = none := by simpa [hf] using hs.symm
    simp [ParseCtx.dispatch, hf, hn]
  | some found =>
    obtain ⟨s, hsplit, hg⟩ : ∃ s, splitMessage nl m = some s ∧ found.groups = [(1, s.1), (2, s.2)] := by
      cases hsp : splitMessage nl m with
      | none => simp [hf, hsp] at hs
      | some s => exact ⟨s, rfl, by simpa [hf, hsp] using hs⟩
    cases he : parser.messageTable.lookup s.1 <;>
      simp [ParseCtx.dispatch, hf, hsplit, Found.group, hg, he, List.lookup_cons]

theorem invokes_iff (nl : Newlines) (parser : ParseCtx γ ε σ) (m word param : Text) :
    parser.Invokes nl m word param ↔
      splitMessage nl m = some (word, param) ∧ word ∈ parser.messageTable := by
  rw [ParseCtx.Invokes, dispatch_eq_splitMessage]
  constructor
  · intro hh
    obtain ⟨entry, h⟩ := hh
    obtain ⟨s, hs, h⟩ := Option.bind_eq_some_iff.mp h
    obtain ⟨e, he, h⟩ := Option.map_eq_some_iff.mp h
    obtain ⟨rfl, rfl, rfl⟩ : s.1 = word ∧ e = entry ∧ s.2 = param := by simpa using h
    exact ⟨hs, AList.lookup_isSome.mp (by simp [he])⟩
  · intro hh
    obtain ⟨hs, hm⟩ := hh
    obtain ⟨e, he⟩ := Option.isSome_iff_exists.mp (AList.lookup_isSome.mpr hm)
    exact ⟨e, by simp [hs, he]⟩

theorem parseMessage_of_not_invokes {nl : Newlines} {parser : ParseCtx γ ε σ} {m : Text}
    (h : ∀ word param, ¬ parser.Invokes nl m word param) (calls : ε) (world : σ) :
    parseMessage nl parser m calls world = .ok ("FAIL Message is Invalid".toList, world) := by
  cases hd : parser.dispatch nl m with
  | none => simp [parseMessage, hd]
  | some d => exact absurd ⟨d.2.1, hd⟩ (h d.1 d.2.2)

theorem parseMessage_of_lookup {nl : Newlines} {parser : ParseCtx γ ε σ} {m word param : Text}
    {entry : RegEntryWithCtx γ ε σ} (hs : splitMessage nl m = some (word, param))
    (he : parser.messageTable.lookup word = some entry) (calls : ε) (world : σ) :
    parseMessage nl parser m calls world = entry.parser param entry.pluginContext calls world := by
  simp only [parseMessage, dispatch_eq_splitMessage, hs, Option.bind_some, he, Option.map_some]

end GstPlayd
