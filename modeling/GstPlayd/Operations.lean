import GstPlayd.Playback
import GstPlayd.TagTable

/-! The handlers of the three plugins over one state of the daemon, and the
registration that `main` makes. -/

namespace GstPlayd

open ElementGraph

structure PubsubCtx where
  addr : Text
  sent : List Text

structure OpServices where
  pubSub : PubsubCtx
  shouldQuit : Bool

/-- What the plugins reach: the services, and the playback context from
`op_playback_new` to `op_playback_free`. -/
structure World where
  services : OpServices
  playback : Option PlaybackCtx

inductive PluginCtx
  | null
  | services
  | playback
  deriving DecidableEq

inductive BusMessage
  | asyncDone
  | tag (tags : GstTagList)
  | error (text : Text)

inductive TagsEvent
  | padAdded (linked : Bool)
  | popped (msg : BusMessage)

structure HashOrder where
  visit : TagTable → List (Σ _ : Text, Text)
  perm : ∀ table, (visit table).Perm table.entries

/-- What the libraries answer while one function of a plugin runs. -/
structure HandlerCalls where
  published : Bool
  sink : Option Element
  mux : Option Element
  ac : Option Element
  linked : Bool
  play : PlayCalls
  stop : GstStateChangeReturn
  free : SourceItem → GstStateChangeReturn
  tags : List TagsEvent
  formats : Formats
  order : HashOrder

def pubsubGetAddress (ctx : PubsubCtx) : Text := ctx.addr

def pubsubSendMessage (ctx : PubsubCtx) (message : Text) (published : Bool) : Bool × PubsubCtx :=
  (true, if published then { ctx with sent := ctx.sent ++ [message] } else ctx)

def opPingParse (param : Text) (published : Bool) (services : OpServices) :
    Result (Text × OpServices) :=
  let ret := "OK Message was ".toList ++ param
  .ok (ret, { services with pubSub := (pubsubSendMessage services.pubSub ret published).2 })

def opPubsubParse (_param : Text) (services : OpServices) : Result (Text × OpServices) :=
  .ok ("OK ".toList ++ pubsubGetAddress services.pubSub, services)

def opQuitParse (_param : Text) (services : OpServices) : Result (Text × OpServices) :=
  .ok ("OK".toList, { services with shouldQuit := true })

/-- The loop of `op_tags_parse`. `sinkLinked` is what `on_new_pad_tags` finds
out about the sink; when the bus has no further message the loop waits. -/
def tagsLoop (fmt : Formats) : Bool → List TagsEvent → TagTable → Result (Option Text × TagTable)
  | _, [], _ => .error .blocked
  | sinkLinked, .padAdded linked :: es, table =>
    if sinkLinked || linked then tagsLoop fmt true es table
    else .error (.gError "Failed to link pads!".toList)
  | _, .popped (.error text) :: _, table => .ok (some ("FAIL ".toList ++ text), table)
  | _, .popped .asyncDone :: _, table => .ok (none, table)
  | sinkLinked, .popped (.tag tags) :: es, table =>
    tagsLoop fmt sinkLinked es (gsuTagsToHashTable fmt tags table)

def opTagsParse (_param : Text) (calls : HandlerCalls) (ctx : PlaybackCtx) :
    Result (Text × PlaybackCtx) := do
  let (ret, table) ← tagsLoop calls.formats false calls.tags ∅
  match ret with
  | some ret =>
    if table.entries.length > 0 then return (tagsReply (calls.order.visit table), ctx)
    else return (ret, ctx)
  | none => return (tagsReply (calls.order.visit table), ctx)

def onServices (f : OpServices → Result (Text × OpServices)) (ctx : PluginCtx) (world : World) :
    Result (Text × World) :=
  match ctx with
  | .services => (f world.services).map fun r => (r.1, { world with services := r.2 })
  | _ => .error .invalidPointer

def onPlayback (f : PlaybackCtx → Result (Text × PlaybackCtx)) (ctx : PluginCtx) (world : World) :
    Result (Text × World) :=
  match ctx, world.playback with
  | .playback, some p => (f p).map fun r => (r.1, { world with playback := some r.2 })
  | _, _ => .error .invalidPointer

abbrev DispatchEntry := MessageDispatchEntry PluginCtx HandlerCalls World

abbrev PluginEntry := ParserPluginEntry PluginCtx PluginCtx HandlerCalls World

abbrev DaemonParser := ParseCtx PluginCtx HandlerCalls World

def pingMessages : List DispatchEntry :=
  [⟨"PING".toList, fun param ctx calls => onServices (opPingParse param calls.published) ctx⟩]

def controlMessages : List DispatchEntry :=
  [⟨"PUBSUB".toList, fun param ctx _ => onServices (opPubsubParse param) ctx⟩,
    ⟨"QUIT".toList, fun param ctx _ => onServices (opQuitParse param) ctx⟩]

def playbackMessages : List DispatchEntry :=
  [⟨"TAGS".toList, fun param ctx calls => onPlayback (opTagsParse param calls) ctx⟩,
    ⟨"PLAY".toList, fun param ctx calls => onPlayback (opPlayParse param calls.play) ctx⟩,
    ⟨"STOP".toList, fun param ctx calls => onPlayback (opStopParse param calls.stop) ctx⟩,
    ⟨"DUMPGRAPH".toList, fun param ctx _ => onPlayback (opDumpgraphParse param) ctx⟩]

/-- `op_ping_new` and `op_control_new` hand the services on, and their
`free` functions do nothing. -/
def servicesPlugin (friendlyName : Text) (messages : List DispatchEntry) : PluginEntry where
  friendlyName
  context := .services
  pluginNew opServices _ world := .ok (opServices, world)
  pluginRegister _ _ world := .ok (some messages, world)
  pluginFree _ _ world := .ok world

def pingPlugin : PluginEntry := servicesPlugin "Ping".toList pingMessages

def controlPlugin : PluginEntry := servicesPlugin "Control".toList controlMessages

def playbackNew (_opServices : PluginCtx) (calls : HandlerCalls) (world : World) :
    Result (PluginCtx × World) :=
  (opPlaybackNew calls.sink calls.mux calls.ac calls.linked).map fun p =>
    (.playback, { world with playback := some p })

def opPlaybackRegister (ctx : PluginCtx) : Option (List DispatchEntry) :=
  if ctx = .null then none else some playbackMessages

def playbackFree (ctx : PluginCtx) (calls : HandlerCalls) (world : World) : Result World :=
  match ctx, world.playback with
  | .playback, some p => (opPlaybackFree calls.free p).map fun _ => { world with playback := none }
  | _, _ => .error .invalidPointer

def playbackPlugin : PluginEntry where
  friendlyName := "Playback".toList
  context := .services
  pluginNew := playbackNew
  pluginRegister ctx _ world := .ok (opPlaybackRegister ctx, world)
  pluginFree := playbackFree

def parserOperations : List PluginEntry := [pingPlugin, controlPlugin, playbackPlugin]

def registerPlugins : List PluginEntry → DaemonParser → HandlerCalls → World →
    Result (DaemonParser × World)
  | [], parser, _, world => .ok (parser, world)
  | op :: ops, parser, calls, world => do
    let (_, parser, world) ← parseRegisterPlugin parser op calls world
    registerPlugins ops parser calls world

def daemonParser : DaemonParser where
  messageTable := insertEntries .playback
    (insertEntries .services (insertEntries .services ∅ pingMessages) controlMessages) playbackMessages
  pluginList := [⟨.playback, playbackPlugin.pluginFree⟩, ⟨.services, controlPlugin.pluginFree⟩,
    ⟨.services, pingPlugin.pluginFree⟩]

theorem registerPlugins_cons_of_ok {op : PluginEntry} {parser parser' : DaemonParser} {calls : HandlerCalls}
    {world world' : World} {done : Bool}
    (h : parseRegisterPlugin parser op calls world = .ok (done, parser', world')) (ops : List PluginEntry) :
    registerPlugins (op :: ops) parser calls world = registerPlugins ops parser' calls world' := by
  simp only [registerPlugins, h, bind, Except.bind]

theorem registerPlugins_cons_of_error {op : PluginEntry} {parser : DaemonParser} {calls : HandlerCalls}
    {world : World} {k : Halt} (h : parseRegisterPlugin parser op calls world = .error k)
    (ops : List PluginEntry) : registerPlugins (op :: ops) parser calls world = .error k := by
  simp only [registerPlugins, h, bind, Except.bind]

theorem registerPlugins_eq (calls : HandlerCalls) (world : World) :
    registerPlugins parserOperations parseNew calls world =
      (opPlaybackNew calls.sink calls.mux calls.ac calls.linked).map fun p =>
        (daemonParser, { world with playback := some p }) := by
  have hping : parseRegisterPlugin parseNew pingPlugin calls world = _ := parseRegisterPlugin_of_some rfl rfl
  have hcontrol : ∀ parser, parseRegisterPlugin parser controlPlugin calls world = _ := fun parser =>
    parseRegisterPlugin_of_some rfl rfl
  rw [parserOperations, registerPlugins_cons_of_ok hping, registerPlugins_cons_of_ok (hcontrol _)]
  cases h : opPlaybackNew calls.sink calls.mux calls.ac calls.linked with
  | error k =>
    have hn : playbackNew .services calls world = .error k := by
      rw [playbackNew, h]
      rfl
    rw [registerPlugins_cons_of_error (parseRegisterPlugin_of_error hn)]
    rfl
  | ok p =>
    have hn : playbackNew .services calls world = .ok (.playback, { world with playback := some p }) := by
      rw [playbackNew, h]
      rfl
    have hr : playbackPlugin.pluginRegister .playback calls { world with playback := some p } =
      .ok (some playbackMessages, { world with playback := some p }) := rfl
    have hplayback : ∀ parser, parseRegisterPlugin parser playbackPlugin calls world = _ := fun parser =>
      parseRegisterPlugin_of_some hn hr
    rw [registerPlugins_cons_of_ok (hplayback _)]
    rfl

theorem opPlaybackNew_ok {sink mux ac : Option Element} {linked : Bool} {p : PlaybackCtx}
    (h : opPlaybackNew sink mux ac linked = .ok p) : ∃ s m a, p = newPlaybackCtx s m a := by
  unfold opPlaybackNew at h
  split at h
  · cases h
  · cases h
  · cases h
  · split at h
    · exact ⟨_, _, _, (Except.ok.inj h).symm⟩
    · cases h

theorem registerPlugins_ok {calls : HandlerCalls} {world world' : World} {parser : DaemonParser}
    (h : registerPlugins parserOperations parseNew calls world = .ok (parser, world')) :
    parser = daemonParser ∧ world'.services = world.services ∧
      ∃ sink mux ac, world'.playback = some (newPlaybackCtx sink mux ac) := by
  rw [registerPlugins_eq] at h
  cases hp : opPlaybackNew calls.sink calls.mux calls.ac calls.linked with
  | error k => simp [hp, Except.map] at h
  | ok p =>
    obtain ⟨sink, mux, ac, rfl⟩ := opPlaybackNew_ok hp
    simp only [hp, Except.map, Except.ok.injEq, Prod.mk.injEq] at h
    obtain ⟨rfl, rfl⟩ := h
    exact ⟨rfl, rfl, sink, mux, ac, rfl⟩

def commandWords : List Text :=
  (pingMessages ++ controlMessages ++ playbackMessages).map MessageDispatchEntry.messagePrefix

theorem mem_insertEntries {γ ε σ : Type} {ctx : γ} {table : AList fun _ : Text => RegEntryWithCtx γ ε σ}
    {msgs : List (MessageDispatchEntry γ ε σ)} {word : Text} :
    word ∈ insertEntries ctx table msgs ↔
      word ∈ table ∨ word ∈ msgs.map MessageDispatchEntry.messagePrefix := by
  rw [← AList.lookup_isSome, lookup_insertEntries, Option.isSome_or, Option.isSome_map, Bool.or_eq_true,
    AList.lookup_isSome, List.find?_isSome, List.mem_map, or_comm]
  simp

theorem mem_of_lookup_insertEntries {γ ε σ : Type} {ctx : γ}
    {table : AList fun _ : Text => RegEntryWithCtx γ ε σ} {msgs : List (MessageDispatchEntry γ ε σ)}
    {word : Text} {entry : RegEntryWithCtx γ ε σ}
    (h : (insertEntries ctx table msgs).lookup word = some entry) :
    (∃ msg ∈ msgs, word = msg.messagePrefix ∧ entry = ⟨msg.messagePrefix, ctx, msg.opParse⟩) ∨
      table.lookup word = some entry := by
  rw [lookup_insertEntries, Option.or_eq_some_iff] at h
  rcases h with h | ⟨-, h⟩
  · obtain ⟨msg, hf, he⟩ := Option.map_eq_some_iff.mp h
    have hw : msg.messagePrefix = word := by simpa using List.find?_some hf
    exact .inl ⟨msg, List.mem_reverse.mp (List.mem_of_find?_eq_some hf), hw.symm, he.symm⟩
  · exact .inr h

theorem lookup_daemonParser {word : Text} {entry : RegEntryWithCtx PluginCtx HandlerCalls World}
    (h : daemonParser.messageTable.lookup word = some entry) :
    (∃ msg ∈ pingMessages ++ controlMessages, word = msg.messagePrefix ∧
      entry = ⟨msg.messagePrefix, .services, msg.opParse⟩) ∨
    ∃ msg ∈ playbackMessages, word = msg.messagePrefix ∧
      entry = ⟨msg.messagePrefix, .playback, msg.opParse⟩ := by
  rcases mem_of_lookup_insertEntries h with hp | h
  · exact .inr hp
  · rcases mem_of_lookup_insertEntries h with ⟨msg, hm, hw, he⟩ | h
    · exact .inl ⟨msg, List.mem_append_right _ hm, hw, he⟩
    · rcases mem_of_lookup_insertEntries h with ⟨msg, hm, hw, he⟩ | h
      · exact .inl ⟨msg, List.mem_append_left _ hm, hw, he⟩
      · simp at h

theorem mem_daemonParser {word : Text} : word ∈ daemonParser.messageTable ↔ word ∈ commandWords := by
  simp only [daemonParser, mem_insertEntries, commandWords, List.map_append, List.mem_append,
    AList.notMem_empty, false_or]

/-- What the handler of each command answers to a call. -/
inductive Handled (calls : HandlerCalls) (param : Text) (world : World) (p : PlaybackCtx) :
    Text → Result (Text × World) → Prop
  | ping : Handled calls param world p "PING".toList
      ((opPingParse param calls.published world.services).map fun r => (r.1, { world with services := r.2 }))
  | pubsub : Handled calls param world p "PUBSUB".toList
      ((opPubsubParse param world.services).map fun r => (r.1, { world with services := r.2 }))
  | quit : Handled calls param world p "QUIT".toList
      ((opQuitParse param world.services).map fun r => (r.1, { world with services := r.2 }))
  | tags : Handled calls param world p "TAGS".toList
      ((opTagsParse param calls p).map fun r => (r.1, { world with playback := some r.2 }))
  | play : Handled calls param world p "PLAY".toList
      ((opPlayParse param calls.play p).map fun r => (r.1, { world with playback := some r.2 }))
  | stop : Handled calls param world p "STOP".toList
      ((opStopParse param calls.stop p).map fun r => (r.1, { world with playback := some r.2 }))
  | dumpgraph : Handled calls param world p "DUMPGRAPH".toList
      ((opDumpgraphParse param p).map fun r => (r.1, { world with playback := some r.2 }))

theorem onPlayback_of_some {world : World} {p : PlaybackCtx} (hp : world.playback = some p)
    (f : PlaybackCtx → Result (Text × PlaybackCtx)) :
    onPlayback f .playback world = (f p).map fun r => (r.1, { world with playback := some r.2 }) := by
  simp only [onPlayback, hp]

theorem map_playback_ok {world world' : World} {reply : Text} {r : Result (Text × PlaybackCtx)}
    (h : r.map (fun r => (r.1, { world with playback := some r.2 })) = .ok (reply, world')) :
    ∃ p', r = .ok (reply, p') ∧ world' = { world with playback := some p' } := by
  cases r with
  | error k => cases h
  | ok r =>
    obtain ⟨rfl, rfl⟩ := Prod.mk.inj (Except.ok.inj h)
    exact ⟨r.2, rfl, rfl⟩

theorem handled_of_lookup {word param : Text} {calls : HandlerCalls} {world : World} {p : PlaybackCtx}
    {entry : RegEntryWithCtx PluginCtx HandlerCalls World} (hp : world.playback = some p)
    (he : daemonParser.messageTable.lookup word = some entry) :
    Handled calls param world p word (entry.parser param entry.pluginContext calls world) := by
  rcases lookup_daemonParser he with ⟨msg, hm, rfl, rfl⟩ | ⟨msg, hm, rfl, rfl⟩
  · simp only [pingMessages, controlMessages, List.cons_append, List.nil_append, List.mem_cons,
      List.not_mem_nil, or_false] at hm
    rcases hm with rfl | rfl | rfl
    · exact .ping
    · exact .pubsub
    · exact .quit
  · simp only [playbackMessages, List.mem_cons, List.not_mem_nil, or_false] at hm
    rcases hm with rfl | rfl | rfl | rfl
    · dsimp only
      rw [onPlayback_of_some hp]
      exact .tags
    · dsimp only
      rw [onPlayback_of_some hp]
      exact .play
    · dsimp only
      rw [onPlayback_of_some hp]
      exact .stop
    · dsimp only
      rw [onPlayback_of_some hp]
      exact .dumpgraph

theorem parseMessage_cases (nl : Newlines) (m : Text) (calls : HandlerCalls) {world : World}
    {p : PlaybackCtx} (hp : world.playback = some p) :
    (parseMessage nl daemonParser m calls world = .ok ("FAIL Message is Invalid".toList, world) ∧
      ∀ word param, splitMessage nl m = some (word, param) → word ∉ commandWords) ∨
    ∃ word param, splitMessage nl m = some (word, param) ∧
      Handled calls param world p word (parseMessage nl daemonParser m calls world) := by
  by_cases hi : ∃ word param, daemonParser.Invokes nl m word param
  · obtain ⟨word, param, hi⟩ := hi
    obtain ⟨hs, hm⟩ := (invokes_iff nl daemonParser m word param).mp hi
    obtain ⟨entry, he⟩ := Option.isSome_iff_exists.mp (AList.lookup_isSome.mpr hm)
    refine .inr ⟨word, param, hs, ?_⟩
    rw [parseMessage_of_lookup hs he]
    exact handled_of_lookup hp he
  · have hno : ∀ word param, ¬ daemonParser.Invokes nl m word param := fun word param h =>
      hi ⟨word, param, h⟩
    refine .inl ⟨parseMessage_of_not_invokes hno calls world, ?_⟩
    intro word param hs hw
    exact hno word param ((invokes_iff nl daemonParser m word param).mpr ⟨hs, mem_daemonParser.mpr hw⟩)

theorem tagsLoop_table {fmt : Formats} {sinkLinked : Bool} {es : List TagsEvent} {table table' : TagTable}
    {ret : Option Text} (h : tagsLoop fmt sinkLinked es table = .ok (ret, table')) :
    ∃ lists : List GstTagList, table' = lists.foldl (fun t tags => gsuTagsToHashTable fmt tags t) table ∧
      ∀ text ∈ ret, ∃ message, text = "FAIL ".toList ++ message := by
  induction es generalizing sinkLinked table with
  | nil => simp [tagsLoop] at h
  | cons e es ih =>
    cases e with
    | padAdded linked =>
      by_cases hl : (sinkLinked || linked) = true
      · rw [tagsLoop, if_pos hl] at h
        exact ih h
      · rw [tagsLoop, if_neg hl] at h
        simp at h
    | popped msg =>
      cases msg with
      | asyncDone =>
        obtain ⟨rfl, rfl⟩ : none = ret ∧ table = table' := by simpa [tagsLoop] using h
        exact ⟨[], rfl, by simp⟩
      | error text =>
        obtain ⟨rfl, rfl⟩ : some ("FAIL ".toList ++ text) = ret ∧ table = table' := by
          simpa [tagsLoop] using h
        exact ⟨[], rfl, by simp⟩
      | tag tags =>
        rw [tagsLoop] at h
        obtain ⟨lists, rfl, hret⟩ := ih h
        exact ⟨tags :: lists, rfl, hret⟩

/-- The text of an error is thrown away when the table has entries. -/
theorem opTagsParse_of_ok {param : Text} {calls : HandlerCalls} {ret : Option Text} {table : TagTable}
    (hl : tagsLoop calls.formats false calls.tags ∅ = .ok (ret, table)) (ctx : PlaybackCtx) :
    opTagsParse param calls ctx =
      .ok (if ret = none ∨ table.entries.length > 0 then tagsReply (calls.order.visit table)
        else ret.getD [], ctx) := by
  cases ret with
  | none => simp [opTagsParse, hl, bind, Except.bind, pure, Except.pure]
  | some text =>
    by_cases ht : table.entries.length > 0 <;>
      simp [opTagsParse, hl, ht, bind, Except.bind, pure, Except.pure]

theorem opTagsParse_of_error {param : Text} {calls : HandlerCalls} {k : Halt}
    (hl : tagsLoop calls.formats false calls.tags ∅ = .error k) (ctx : PlaybackCtx) :
    opTagsParse param calls ctx = .error k := by
  simp only [opTagsParse, hl, bind, Except.bind]

/-- TAGS fails with the text of an error, or sends the table of some of the tag
lists that it popped. It leaves the playback context alone. -/
theorem opTagsParse_reply {param reply : Text} {calls : HandlerCalls} {ctx ctx' : PlaybackCtx}
    (h : opTagsParse param calls ctx = .ok (reply, ctx')) :
    ctx' = ctx ∧ ((∃ message, reply = "FAIL ".toList ++ message) ∨
      ∃ lists visit, visit.Perm (tagTableOf calls.formats lists).entries ∧ reply = tagsReply visit) := by
  cases hl : tagsLoop calls.formats false calls.tags ∅ with
  | error k =>
    rw [opTagsParse_of_error hl] at h
    cases h
  | ok r =>
    obtain ⟨ret, table⟩ := r
    obtain ⟨lists, htable, hret⟩ := tagsLoop_table hl
    rw [opTagsParse_of_ok hl] at h
    obtain ⟨rfl, rfl⟩ := Prod.mk.inj (Except.ok.inj h)
    refine ⟨rfl, ?_⟩
    by_cases hc : ret = none ∨ table.entries.length > 0
    · rw [if_pos hc]
      exact .inr ⟨lists, calls.order.visit table, htable ▸ calls.order.perm table, rfl⟩
    · rw [if_neg hc]
      obtain ⟨text, rfl⟩ := Option.ne_none_iff_exists'.mp (not_or.mp hc).1
      exact .inl (hret text rfl)

def exampleWorld : World :=
  ⟨⟨⟨"tcp://127.0.0.1:18001".toList, []⟩, false⟩, some (newPlaybackCtx 0 1 2)⟩

def exampleHandlerCalls : HandlerCalls where
  published := true
  sink := some 0
  mux := some 1
  ac := some 2
  linked := true
  play := ⟨0x1000, 1350000000, some 10, some 11, some 0, .null, .voidPending, .success⟩
  stop := .success
  free _ := .success
  tags := []
  formats := ⟨fun _ => [], fun _ => []⟩
  order := ⟨AList.entries, fun _ => .refl _⟩

end GstPlayd
