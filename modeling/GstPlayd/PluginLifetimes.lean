import GstPlayd.Parser
import GstPlayd.StepMachine
import Mathlib.Data.List.Perm.Basic

/-! The plugins of a parser from `plugin_new` to `plugin_free`. A plugin is
watched by one that passes every call on and writes it down; the parser cannot
tell the two apart, and the record shows what it does with its plugins. -/

namespace GstPlayd

open StepMachine StepMachine.Machine

inductive ParserEvent (ρ γ ε σ : Type)
  | register (plugin : ParserPluginEntry ρ γ ε σ) (calls : ε)
  | message (m : Text) (calls : ε)

variable {ρ γ ε σ : Type}

def parserStep (nl : Newlines) (s : ParseCtx γ ε σ × σ) : ParserEvent ρ γ ε σ → Result (ParseCtx γ ε σ × σ)
  | .register plugin calls => (parseRegisterPlugin s.1 plugin calls s.2).map fun r => (r.2.1, r.2.2)
  | .message m calls => (parseMessage nl s.1 m calls s.2).map fun r => (s.1, r.2)

def parserMachine (nl : Newlines) : Machine (ParseCtx γ ε σ × σ) (ParserEvent ρ γ ε σ) Halt where
  step := parserStep nl
  allowed _ _ := True

/-- A plugin that said TRUE. Its context has the number of its `plugin_new`. -/
structure Registration (γ ε σ : Type) where
  serial : ℕ
  ctx : γ
  pluginFree : γ → ε → σ → Result σ
  messages : List (MessageDispatchEntry γ ε σ)

inductive PluginCall (γ ε σ : Type)
  | new (k : ℕ)
  | accepted (r : Registration γ ε σ)
  | refused (k : ℕ)
  | handle (k : ℕ)
  | free (k : ℕ)

abbrev CallLog (γ ε σ : Type) := List (PluginCall γ ε σ)

def newSerials (log : CallLog γ ε σ) : List ℕ := log.filterMap fun | .new k => some k | _ => none

def nextSerial (log : CallLog γ ε σ) : ℕ := (newSerials log).length

def freedSerials (log : CallLog γ ε σ) : List ℕ := log.filterMap fun | .free k => some k | _ => none

def refusedSerials (log : CallLog γ ε σ) : List ℕ := log.filterMap fun | .refused k => some k | _ => none

def registrations (log : CallLog γ ε σ) : List (Registration γ ε σ) :=
  log.filterMap fun | .accepted r => some r | _ => none

def watchedHandler (f : ParseHandlerCb γ ε σ) : ParseHandlerCb (ℕ × γ) ε (σ × CallLog γ ε σ) :=
  fun param ctx calls w => (f param ctx.2 calls w.1).map fun r => (r.1, r.2, w.2 ++ [.handle ctx.1])

def watchedFree (f : γ → ε → σ → Result σ) : ℕ × γ → ε → σ × CallLog γ ε σ → Result (σ × CallLog γ ε σ) :=
  fun ctx calls w => (f ctx.2 calls w.1).map fun world => (world, w.2 ++ [.free ctx.1])

def MessageDispatchEntry.watched (msg : MessageDispatchEntry γ ε σ) :
    MessageDispatchEntry (ℕ × γ) ε (σ × CallLog γ ε σ) :=
  ⟨msg.messagePrefix, watchedHandler msg.opParse⟩

def ParserPluginEntry.watched (plugin : ParserPluginEntry ρ γ ε σ) :
    ParserPluginEntry ρ (ℕ × γ) ε (σ × CallLog γ ε σ) where
  friendlyName := plugin.friendlyName
  context := plugin.context
  pluginNew c calls w := (plugin.pluginNew c calls w.1).map fun r =>
    ((nextSerial w.2, r.1), r.2, w.2 ++ [.new (nextSerial w.2)])
  pluginRegister ctx calls w := (plugin.pluginRegister ctx.2 calls w.1).map fun
    | (none, world) => (none, world, w.2 ++ [.refused ctx.1])
    | (some msgs, world) => (some (msgs.map MessageDispatchEntry.watched), world,
        w.2 ++ [.accepted ⟨ctx.1, ctx.2, plugin.pluginFree, msgs⟩])
  pluginFree := watchedFree plugin.pluginFree

def ParserEvent.watched : ParserEvent ρ γ ε σ → ParserEvent ρ (ℕ × γ) ε (σ × CallLog γ ε σ)
  | .register plugin calls => .register plugin.watched calls
  | .message m calls => .message m calls

abbrev Declaration (γ ε σ : Type) := Registration γ ε σ × MessageDispatchEntry γ ε σ

def Declaration.entry (d : Declaration γ ε σ) : RegEntryWithCtx γ ε σ :=
  ⟨d.2.messagePrefix, d.1.ctx, d.2.opParse⟩

def Declaration.watchedEntry (d : Declaration γ ε σ) : RegEntryWithCtx (ℕ × γ) ε (σ × CallLog γ ε σ) :=
  ⟨d.2.messagePrefix, (d.1.serial, d.1.ctx), watchedHandler d.2.opParse⟩

def declarations (regs : List (Registration γ ε σ)) : List (Declaration γ ε σ) :=
  regs.flatMap fun r => r.messages.map fun msg => (r, msg)

def lastDeclared (regs : List (Registration γ ε σ)) (word : Text) : Option (Declaration γ ε σ) :=
  (declarations regs).reverse.find? fun d => d.2.messagePrefix = word

/-- The record that the events make, and the state after them. A plugin that
is registered answers its two calls with a context and its messages, one that is
refused is freed at once, and a message goes to the last registered plugin that
declares its word. -/
inductive Recorded (nl : Newlines) (world₀ : σ) : List (ParserEvent ρ γ ε σ) → CallLog γ ε σ → σ → Prop
  | start : Recorded nl world₀ [] [] world₀
  | accepted {es : List (ParserEvent ρ γ ε σ)} {log : CallLog γ ε σ} {world newWorld world' : σ}
      {plugin : ParserPluginEntry ρ γ ε σ} {calls : ε} {ctx : γ} {msgs : List (MessageDispatchEntry γ ε σ)}
      (h : Recorded nl world₀ es log world)
      (hn : plugin.pluginNew plugin.context calls world = .ok (ctx, newWorld))
      (hr : plugin.pluginRegister ctx calls newWorld = .ok (some msgs, world')) :
      Recorded nl world₀ (es ++ [.register plugin calls])
        (log ++ [.new (nextSerial log), .accepted ⟨nextSerial log, ctx, plugin.pluginFree, msgs⟩]) world'
  | refused {es : List (ParserEvent ρ γ ε σ)} {log : CallLog γ ε σ} {world newWorld regWorld world' : σ}
      {plugin : ParserPluginEntry ρ γ ε σ} {calls : ε} {ctx : γ} (h : Recorded nl world₀ es log world)
      (hn : plugin.pluginNew plugin.context calls world = .ok (ctx, newWorld))
      (hr : plugin.pluginRegister ctx calls newWorld = .ok (none, regWorld))
      (hf : plugin.pluginFree ctx calls regWorld = .ok world') :
      Recorded nl world₀ (es ++ [.register plugin calls])
        (log ++ [.new (nextSerial log), .refused (nextSerial log), .free (nextSerial log)]) world'
  | handled {es : List (ParserEvent ρ γ ε σ)} {log : CallLog γ ε σ} {world world' : σ}
      {m word param reply : Text} {calls : ε} {d : Declaration γ ε σ} (h : Recorded nl world₀ es log world)
      (hs : splitMessage nl m = some (word, param)) (hd : lastDeclared (registrations log) word = some d)
      (hp : d.2.opParse param d.1.ctx calls world = .ok (reply, world')) :
      Recorded nl world₀ (es ++ [.message m calls]) (log ++ [.handle d.1.serial]) world'
  | invalid {es : List (ParserEvent ρ γ ε σ)} {log : CallLog γ ε σ} {world : σ} {m : Text} {calls : ε}
      (h : Recorded nl world₀ es log world)
      (hno : ∀ word param, splitMessage nl m = some (word, param) →
        lastDeclared (registrations log) word = none) :
      Recorded nl world₀ (es ++ [.message m calls]) log world

/-- A parser, the same parser with watched plugins, and the record. -/
structure Watches (parser : ParseCtx γ ε σ) (watched : ParseCtx (ℕ × γ) ε (σ × CallLog γ ε σ))
    (log : CallLog γ ε σ) : Prop where
  table : ∀ word, parser.messageTable.lookup word =
    (lastDeclared (registrations log) word).map Declaration.entry
  watchedTable : ∀ word, watched.messageTable.lookup word =
    (lastDeclared (registrations log) word).map Declaration.watchedEntry
  list : parser.pluginList = (registrations log).reverse.map fun r => ⟨r.ctx, r.pluginFree⟩
  watchedList : watched.pluginList =
    (registrations log).reverse.map fun r => ⟨(r.serial, r.ctx), watchedFree r.pluginFree⟩

variable {nl : Newlines} {parser parser' : ParseCtx γ ε σ} {plugin : ParserPluginEntry ρ γ ε σ}
  {watched : ParseCtx (ℕ × γ) ε (σ × CallLog γ ε σ)} {log : CallLog γ ε σ} {calls : ε} {world₀ world world' : σ}
  {es : List (ParserEvent ρ γ ε σ)}

theorem lastDeclared_snoc (regs : List (Registration γ ε σ)) (r : Registration γ ε σ) (word : Text) :
    lastDeclared (regs ++ [r]) word =
      ((r.messages.reverse.find? fun msg => msg.messagePrefix = word).map fun msg => (r, msg)).or
        (lastDeclared regs word) := by
  simp only [lastDeclared, declarations, List.flatMap_append, List.flatMap_singleton, List.reverse_append,
    List.find?_append, ← List.map_reverse, List.find?_map, Function.comp_def]

theorem watches_new : Watches (parseNew : ParseCtx γ ε σ) parseNew [] where
  table _ := rfl
  watchedTable _ := rfl
  list := rfl
  watchedList := rfl

theorem registrations_append (log log' : CallLog γ ε σ) :
    registrations (log ++ log') = registrations log ++ registrations log' :=
  List.filterMap_append

theorem Watches.append (h : Watches parser watched log) {log' : CallLog γ ε σ} (hno : registrations log' = []) :
    Watches parser watched (log ++ log') := by
  have ha : registrations (log ++ log') = registrations log := by rw [registrations_append, hno, List.append_nil]
  exact ⟨ha ▸ h.table, ha ▸ h.watchedTable, ha ▸ h.list, ha ▸ h.watchedList⟩

theorem Watches.accept (h : Watches parser watched log) (r : Registration γ ε σ) :
    Watches ⟨insertEntries r.ctx parser.messageTable r.messages, ⟨r.ctx, r.pluginFree⟩ :: parser.pluginList⟩
      ⟨insertEntries (r.serial, r.ctx) watched.messageTable (r.messages.map MessageDispatchEntry.watched),
        ⟨(r.serial, r.ctx), watchedFree r.pluginFree⟩ :: watched.pluginList⟩
      (log ++ [.new (nextSerial log), .accepted r]) := by
  have ha : registrations (log ++ [.new (nextSerial log), .accepted r]) = registrations log ++ [r] :=
    registrations_append _ _
  constructor
  · intro word
    rw [ha, lastDeclared_snoc, lookup_insertEntries, h.table, Option.map_or, Option.map_map]
    rfl
  · intro word
    rw [ha, lastDeclared_snoc, lookup_insertEntries, h.watchedTable, Option.map_or, Option.map_map,
      ← List.map_reverse, List.find?_map, Option.map_map]
    rfl
  · rw [ha, h.list, List.reverse_append]
    rfl
  · rw [ha, h.watchedList, List.reverse_append]
    rfl

theorem watches_register {done : Bool} (h : Watches parser watched log) (hrec : Recorded nl world₀ es log world)
    (hp : parseRegisterPlugin parser plugin calls world = .ok (done, parser', world')) :
    ∃ watched' log', parseRegisterPlugin watched plugin.watched calls (world, log) =
      .ok (done, watched', world', log') ∧ Watches parser' watched' log' ∧
      Recorded nl world₀ (es ++ [.register plugin calls]) log' world' := by
  obtain ⟨ctx, newWorld, regWorld, hn, hcase⟩ := parseRegisterPlugin_cases hp
  have hn' : plugin.watched.pluginNew plugin.watched.context calls (world, log) =
      .ok ((nextSerial log, ctx), newWorld, log ++ [.new (nextSerial log)]) := by
    simp only [ParserPluginEntry.watched, hn, Except.map]
  rcases hcase with ⟨hr, hf, rfl, rfl⟩ | ⟨msgs, hr, rfl, rfl, rfl⟩
  · have hr' : plugin.watched.pluginRegister (nextSerial log, ctx) calls
        (newWorld, log ++ [.new (nextSerial log)]) =
          .ok (none, regWorld, log ++ [.new (nextSerial log)] ++ [.refused (nextSerial log)]) := by
      simp only [ParserPluginEntry.watched, hr, Except.map]
    have hf' : plugin.watched.pluginFree (nextSerial log, ctx) calls
        (regWorld, log ++ [.new (nextSerial log)] ++ [.refused (nextSerial log)]) =
          .ok (world', log ++ [.new (nextSerial log)] ++ [.refused (nextSerial log)] ++
            [.free (nextSerial log)]) := by
      simp only [ParserPluginEntry.watched, watchedFree, hf, Except.map]
    refine ⟨_, _, parseRegisterPlugin_of_none hn' hr' hf', ?_⟩
    simp only [List.append_assoc, List.singleton_append]
    exact ⟨h.append rfl, hrec.refused hn hr hf⟩
  · have hr' : plugin.watched.pluginRegister (nextSerial log, ctx) calls
        (newWorld, log ++ [.new (nextSerial log)]) =
          .ok (some (msgs.map MessageDispatchEntry.watched), world', log ++ [.new (nextSerial log)] ++
            [.accepted ⟨nextSerial log, ctx, plugin.pluginFree, msgs⟩]) := by
      simp only [ParserPluginEntry.watched, hr, Except.map]
    refine ⟨_, _, parseRegisterPlugin_of_some hn' hr', ?_⟩
    simp only [List.append_assoc, List.singleton_append]
    exact ⟨h.accept ⟨nextSerial log, ctx, plugin.pluginFree, msgs⟩, hrec.accepted hn hr⟩

theorem mem_of_lastDeclared {regs : List (Registration γ ε σ)} {word : Text} {d : Declaration γ ε σ}
    (h : lastDeclared regs word = some d) : d.1 ∈ regs := by
  have hm := List.mem_reverse.mp (List.mem_of_find?_eq_some h)
  obtain ⟨r, hr, hd⟩ := List.mem_flatMap.mp hm
  obtain ⟨msg, -, rfl⟩ := List.mem_map.mp hd
  exact hr

theorem watches_message {m reply : Text} (h : Watches parser watched log)
    (hrec : Recorded nl world₀ es log world)
    (hp : parseMessage nl parser m calls world = .ok (reply, world')) :
    ∃ log', parseMessage nl watched m calls (world, log) = .ok (reply, world', log') ∧
      Watches parser watched log' ∧ Recorded nl world₀ (es ++ [.message m calls]) log' world' := by
  cases hs : splitMessage nl m with
  | none =>
    simp only [parseMessage, dispatch_eq_splitMessage, hs, Option.bind_none] at hp ⊢
    obtain ⟨rfl, rfl⟩ := Prod.mk.inj (Except.ok.inj hp)
    exact ⟨log, rfl, h, hrec.invalid fun word param hsome => by simp [hs] at hsome⟩
  | some s =>
    cases hd : lastDeclared (registrations log) s.1 with
    | none =>
      simp only [parseMessage, dispatch_eq_splitMessage, hs, Option.bind_some, h.table, h.watchedTable, hd,
        Option.map_none] at hp ⊢
      obtain ⟨rfl, rfl⟩ := Prod.mk.inj (Except.ok.inj hp)
      refine ⟨log, rfl, h, hrec.invalid fun word param hsome => ?_⟩
      obtain rfl := Option.some.inj (hs.symm.trans hsome)
      exact hd
    | some d =>
      have he : parser.messageTable.lookup s.1 = some (Declaration.entry d) := by rw [h.table, hd]; rfl
      have he' : watched.messageTable.lookup s.1 = some (Declaration.watchedEntry d) := by
        rw [h.watchedTable, hd]
        rfl
      rw [parseMessage_of_lookup hs he] at hp
      have hp' : d.2.opParse s.2 d.1.ctx calls world = .ok (reply, world') := hp
      refine ⟨log ++ [.handle d.1.serial], ?_, h.append rfl, hrec.handled hs hd hp'⟩
      rw [parseMessage_of_lookup hs he']
      simp only [Declaration.watchedEntry, watchedHandler, hp', Except.map]

theorem watchedFree_run (regs : List (Registration γ ε σ))
    (hp : (regs.map fun r => (⟨r.ctx, r.pluginFree⟩ : PluginEntryWithCtx γ ε σ)).foldlM
      (fun w entry => entry.pluginFree entry.ctx calls w) world = .ok world') :
    (regs.map fun r => (⟨(r.serial, r.ctx), watchedFree r.pluginFree⟩ :
      PluginEntryWithCtx (ℕ × γ) ε (σ × CallLog γ ε σ))).foldlM
        (fun w entry => entry.pluginFree entry.ctx calls w) (world, log) =
      .ok (world', log ++ regs.map fun r => .free r.serial) := by
  induction regs generalizing world log with
  | nil =>
    obtain rfl := Except.ok.inj hp
    simp [pure, Except.pure]
  | cons r regs ih =>
    rw [List.map_cons, List.foldlM_cons] at hp ⊢
    cases hf : r.pluginFree r.ctx calls world with
    | error k => simp [hf, bind, Except.bind] at hp
    | ok w =>
      simp only [hf, bind, Except.bind] at hp
      simp only [watchedFree, hf, Except.map, bind, Except.bind, ih hp, List.append_assoc, List.map_cons,
        List.singleton_append]

theorem watches_free (h : Watches parser watched log) (hp : parseFree parser calls world = .ok world') :
    parseFree watched calls (world, log) =
      .ok (world', log ++ (registrations log).reverse.map fun r => .free r.serial) := by
  rw [parseFree, h.list] at hp
  rw [parseFree, h.watchedList]
  exact watchedFree_run _ hp

theorem watches_of_reaches (h : (parserMachine nl).Reaches (parseNew, world) es (parser, world')) :
    ∃ watched log, (parserMachine nl).Reaches (parseNew, world, []) (es.map ParserEvent.watched)
      (watched, world', log) ∧ Watches parser watched log ∧ Recorded nl world es log world' := by
  refine h.history (P := fun es s => ∃ watched log,
    (parserMachine nl).Reaches (parseNew, world, []) (es.map ParserEvent.watched) (watched, s.2, log) ∧
      Watches s.1 watched log ∧ Recorded nl world es log s.2) ?_ ?_
  · exact ⟨parseNew, [], .nil _, watches_new, .start⟩
  · intro pre s e t _ ih hstep
    obtain ⟨watched, log, hr, hw, hrec⟩ := ih
    have hok : parserStep nl s e = .ok t := hstep.2
    rw [List.map_append, List.map_singleton]
    cases e with
    | register plugin calls =>
      cases hp : parseRegisterPlugin s.1 plugin calls s.2 with
      | error k => simp [parserStep, hp, Except.map] at hok
      | ok r =>
        simp only [parserStep, hp, Except.map] at hok
        obtain rfl := Except.ok.inj hok
        obtain ⟨watched', log', hp', hw'⟩ := watches_register hw hrec hp
        refine ⟨watched', log', reaches_snoc_iff.mpr ⟨_, hr, trivial, ?_⟩, hw'⟩
        simp only [parserMachine, ParserEvent.watched, parserStep, hp', Except.map]
    | message m calls =>
      cases hp : parseMessage nl s.1 m calls s.2 with
      | error k => simp [parserStep, hp, Except.map] at hok
      | ok r =>
        simp only [parserStep, hp, Except.map] at hok
        obtain rfl := Except.ok.inj hok
        obtain ⟨log', hp', hw'⟩ := watches_message hw hrec hp
        refine ⟨watched, log', reaches_snoc_iff.mpr ⟨_, hr, trivial, ?_⟩, hw'⟩
        simp only [parserMachine, ParserEvent.watched, parserStep, hp', Except.map]

theorem newSerials_new (log : CallLog γ ε σ) (k : ℕ) {rest : CallLog γ ε σ} (hr : newSerials rest = []) :
    newSerials (log ++ .new k :: rest) = newSerials log ++ [k] := by
  have hk : newSerials (.new k :: rest) = k :: newSerials rest := rfl
  rw [newSerials, List.filterMap_append, ← newSerials, ← newSerials, hk, hr]

theorem Recorded.newSerials_eq (h : Recorded nl world₀ es log world) :
    newSerials log = List.range (nextSerial log) := by
  have hnext : ∀ (log : CallLog γ ε σ) {rest}, newSerials rest = [] →
      nextSerial (log ++ .new (nextSerial log) :: rest) = nextSerial log + 1 := fun log _ hr =>
    (congrArg List.length (newSerials_new log (nextSerial log) hr)).trans List.length_append
  induction h with
  | start => rfl
  | @accepted es log _ _ _ _ _ _ _ h hn hr ih =>
    rw [newSerials_new _ _ rfl, hnext log rfl, List.range_succ, ← ih]
  | @refused es log _ _ _ _ _ _ _ h hn hr hf ih =>
    rw [newSerials_new _ _ rfl, hnext log rfl, List.range_succ, ← ih]
  | @handled es log _ _ _ _ _ _ _ d h hs hd hp ih =>
    have hn : newSerials (log ++ [.handle d.1.serial]) = newSerials log := by simp [newSerials]
    rw [nextSerial, hn]
    exact ih
  | invalid h hno ih => exact ih

theorem Recorded.settled (h : Recorded nl world₀ es log world) :
    (refusedSerials log ++ (registrations log).map Registration.serial).Perm (newSerials log) := by
  induction h with
  | start => exact .nil
  | accepted h hn hr ih =>
    simp only [newSerials, refusedSerials, registrations, List.filterMap_append] at ih ⊢
    simpa [newSerials] using ih.append_right _
  | refused h hn hr hf ih =>
    simp only [newSerials, refusedSerials, registrations, List.filterMap_append] at ih ⊢
    simpa using List.perm_middle.trans ((ih.cons _).trans (List.perm_append_singleton _ _).symm)
  | handled h hs hd hp ih => simpa [newSerials, refusedSerials, registrations] using ih
  | invalid h hno ih => exact ih

theorem Recorded.freedSerials_eq (h : Recorded nl world₀ es log world) :
    freedSerials log = refusedSerials log := by
  induction h with
  | start => rfl
  | accepted h hn hr ih => simpa [freedSerials, refusedSerials] using ih
  | refused h hn hr hf ih => simpa [freedSerials, refusedSerials] using ih
  | handled h hs hd hp ih => simpa [freedSerials, refusedSerials] using ih
  | invalid h hno ih => exact ih

theorem Recorded.handle_mem (h : Recorded nl world₀ es log world) {k : ℕ} (hk : .handle k ∈ log) :
    ∃ r ∈ registrations log, r.serial = k := by
  have hkeep : ∀ {log log' : CallLog γ ε σ}, (∃ r ∈ registrations log, r.serial = k) →
      ∃ r ∈ registrations (log ++ log'), r.serial = k := by
    intro log log' hh
    obtain ⟨r, hr, he⟩ := hh
    rw [registrations_append]
    exact ⟨r, List.mem_append_left _ hr, he⟩
  induction h with
  | start => cases hk
  | accepted h hn hr ih => exact hkeep (ih (by simpa using hk))
  | refused h hn hr hf ih => exact hkeep (ih (by simpa using hk))
  | @handled es log _ _ _ _ _ _ _ d h hs hd hp ih =>
    rcases List.mem_append.mp hk with hk | hk
    · exact hkeep (ih hk)
    · obtain rfl : k = d.1.serial := by simpa using hk
      exact hkeep ⟨d.1, mem_of_lastDeclared hd, rfl⟩
  | invalid h hno ih => exact ih hk

theorem Recorded.nodup (h : Recorded nl world₀ es log world) : (newSerials log).Nodup := by
  rw [h.newSerials_eq]
  exact List.nodup_range

theorem Recorded.not_refused (h : Recorded nl world₀ es log world) {k : ℕ} (hk : .handle k ∈ log) :
    .refused k ∉ log := by
  intro hr
  obtain ⟨r, hm, rfl⟩ := h.handle_mem hk
  have hd := List.nodup_append.mp (h.settled.nodup_iff.mpr h.nodup)
  have hr' : r.serial ∈ refusedSerials log := List.mem_filterMap.mpr ⟨_, hr, rfl⟩
  exact hd.2.2 _ hr' _ (List.mem_map_of_mem hm) rfl

/-- The whole record of a parser: all contexts that were made are freed. -/
theorem Recorded.matched (h : Recorded nl world₀ es log world) (log' : CallLog γ ε σ)
    (he : log' = log ++ (registrations log).reverse.map fun r => .free r.serial) :
    (newSerials log').Nodup ∧ (freedSerials log').Perm (newSerials log') := by
  have hn : newSerials log' = newSerials log := by
    rw [he, newSerials, List.filterMap_append, ← newSerials]
    exact List.append_right_eq_self.mpr (by simp)
  have hf : freedSerials log' = refusedSerials log ++ ((registrations log).map Registration.serial).reverse := by
    rw [he, freedSerials, List.filterMap_append, ← freedSerials, h.freedSerials_eq, List.filterMap_map,
      ← List.map_reverse]
    simp
  rw [hn, hf]
  exact ⟨h.nodup, ((List.reverse_perm _).append_left _).trans h.settled⟩

/-- In every run of registrations and messages the record is the one that the
answers of the plugins make. The table holds the last registered declaration of
each word and nothing else; a registration says TRUE or FALSE as its plugin does
and changes nothing when it says FALSE; handlers get contexts of registered
plugins only; and when the parser is freed, each context that a plugin made has
been freed once. -/
theorem plugins_registered_and_freed (h : (parserMachine nl).Reaches (parseNew, world) es (parser, world')) :
    ∃ watched log, (parserMachine nl).Reaches (parseNew, world, []) (es.map ParserEvent.watched)
        (watched, world', log) ∧
      Recorded nl world es log world' ∧
      (∀ word, parser.messageTable.lookup word =
        (lastDeclared (registrations log) word).map Declaration.entry) ∧
      (∀ (plugin : ParserPluginEntry ρ γ ε σ) calls ctx newWorld regdMessages regWorld,
        plugin.pluginNew plugin.context calls world' = .ok (ctx, newWorld) →
        plugin.pluginRegister ctx calls newWorld = .ok (regdMessages, regWorld) →
        (∀ done after w, parseRegisterPlugin parser plugin calls world' = .ok (done, after, w) →
          done = regdMessages.isSome ∧ (done = false → after = parser)) ∧
        (regdMessages ≠ none →
          ∃ after, parseRegisterPlugin parser plugin calls world' = .ok (true, after, regWorld)) ∧
        ∀ w, regdMessages = none → plugin.pluginFree ctx calls regWorld = .ok w →
          parseRegisterPlugin parser plugin calls world' = .ok (false, parser, w)) ∧
      (∀ k, .handle k ∈ log → (∃ r ∈ registrations log, r.serial = k) ∧ .refused k ∉ log) ∧
      ∀ calls w, parseFree parser calls world' = .ok w →
        ∃ log', parseFree watched calls (world', log) = .ok (w, log') ∧
          log' = log ++ ((registrations log).reverse.map fun r => .free r.serial) ∧
          (newSerials log').Nodup ∧ (freedSerials log').Perm (newSerials log') := by
  obtain ⟨watched, log, hr, hw, hrec⟩ := watches_of_reaches h
  refine ⟨watched, log, hr, hrec, hw.table, ?_, ?_, ?_⟩
  · intro plugin calls ctx newWorld regdMessages regWorld hn hreg
    refine ⟨?_, ?_, ?_⟩
    · intro done after w hp
      obtain ⟨ctx', newWorld', regWorld', hn', hcase⟩ := parseRegisterPlugin_cases hp
      obtain ⟨rfl, rfl⟩ := Prod.mk.inj (Except.ok.inj (hn.symm.trans hn'))
      rcases hcase with ⟨hreg', -, rfl, hparser⟩ | ⟨msgs, hreg', rfl, -, -⟩
      · obtain ⟨rfl, rfl⟩ := Prod.mk.inj (Except.ok.inj (hreg.symm.trans hreg'))
        exact ⟨rfl, fun _ => hparser⟩
      · obtain ⟨rfl, rfl⟩ := Prod.mk.inj (Except.ok.inj (hreg.symm.trans hreg'))
        exact ⟨rfl, fun hdone => by cases hdone⟩
    · intro hsome
      obtain ⟨msgs, rfl⟩ := Option.ne_none_iff_exists'.mp hsome
      exact ⟨_, parseRegisterPlugin_of_some hn hreg⟩
    · rintro w rfl hfree
      exact parseRegisterPlugin_of_none hn hreg hfree
  · intro k hk
    exact ⟨hrec.handle_mem hk, hrec.not_refused hk⟩
  · intro calls w hp
    exact ⟨_, watches_free hw hp, rfl, hrec.matched _ rfl⟩

def examplePlugin (registers : Bool) : ParserPluginEntry Unit Unit Unit Unit where
  friendlyName := "Example".toList
  context := ()
  pluginNew _ _ _ := .ok ((), ())
  pluginRegister _ _ _ :=
    .ok (if registers then some [⟨"A".toList, fun param _ _ _ => .ok (param, ())⟩] else none, ())
  pluginFree _ _ _ := .ok ()

def exampleEvents : List (ParserEvent Unit Unit Unit Unit) :=
  [.register (examplePlugin false) (), .register (examplePlugin true) (), .message "A b".toList (),
    .register (examplePlugin true) ()]

theorem plugins_registered_and_freed_three_plugins :
    ∃ watched log log', (parserMachine .any).Reaches (parseNew, (), []) (exampleEvents.map ParserEvent.watched)
        (watched, (), log) ∧
      Recorded .any () exampleEvents log () ∧ PluginCall.handle 1 ∈ log ∧
      parseFree watched () ((), log) = .ok ((), log') ∧ freedSerials log' = [0, 2, 1] ∧
      (freedSerials log').Perm (newSerials log') := by
  obtain ⟨parser, hr, hf⟩ : ∃ parser : ParseCtx Unit Unit Unit,
      (parserMachine .any).Reaches (parseNew, ()) exampleEvents (parser, ()) ∧ parseFree parser () () = .ok () :=
    ⟨_, .cons ⟨trivial, rfl⟩ (.cons ⟨trivial, rfl⟩ (.cons ⟨trivial, rfl⟩ (.cons ⟨trivial, rfl⟩ (.nil _)))), rfl⟩
  obtain ⟨watched, log, hr', hrec, -, -, -, hfree⟩ := plugins_registered_and_freed hr
  obtain ⟨log', hf', -, -, hperm⟩ := hfree () () hf
  obtain ⟨watched₂, log₂, log₂', hr₂, hhandle, hf₂, hfreed⟩ : ∃ watched₂ log₂ log₂',
      (parserMachine .any).Reaches (parseNew, (), []) (exampleEvents.map ParserEvent.watched)
        (watched₂, (), log₂) ∧ PluginCall.handle 1 ∈ log₂ ∧
      parseFree watched₂ () ((), log₂) = .ok ((), log₂') ∧ freedSerials log₂' = [0, 2, 1] :=
    ⟨_, _, _, .cons ⟨trivial, rfl⟩
      (.cons ⟨trivial, rfl⟩ (.cons ⟨trivial, rfl⟩ (.cons ⟨trivial, rfl⟩ (.nil _)))),
      by simp [nextSerial, newSerials], rfl, rfl⟩
  obtain ⟨rfl, hlog⟩ := Prod.mk.inj (hr'.unique hr₂)
  obtain ⟨-, rfl⟩ := Prod.mk.inj hlog
  obtain ⟨-, rfl⟩ := Prod.mk.inj (Except.ok.inj (hf'.symm.trans hf₂))
  exact ⟨watched, log, log', hr', hrec, hhandle, hf', hfreed, hperm⟩

end GstPlayd
