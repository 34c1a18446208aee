import GstPlayd.DaemonPlayback
import GstPlayd.PlaybackLedger
import GstPlayd.TagsLedger

/-! The memory that the callbacks of the main loop allocate and use, with that of
the server that is there while it runs. -/

namespace GstPlayd

open Backtracking ElementGraph ResourceLedger StepMachine StepMachine.Machine

/-- What one callback works with. The texts `ret` and `pubText` are ZeroMQ's in
the end, which frees them with `util_zmq_glib_free`. -/
inductive CallObject
  | msg
  | messageText
  | regex
  | matchInfo
  | word
  | param
  | ret
  | repMsg
  | pubMsg
  | pubText
  | err
  | text
  deriving DecidableEq

/-- Callbacks are numbered in the order in which they run. -/
inductive DaemonObject
  | pubSub
  | addr
  | parser
  | messageTable
  | pluginEntry (friendlyName : Text)
  | pluginNode (friendlyName : Text)
  | key (messagePrefix : Text)
  | regEntry (messagePrefix : Text)
  | playback (o : PlaybackObject)
  | tags (n : ℕ) (o : TagsObject)
  | call (n : ℕ) (o : CallObject)
  deriving DecidableEq

abbrev DaemonAction := Action DaemonObject

def pubsubSendActions (n : ℕ) : List DaemonAction :=
  [.acquire (.call n .pubText), .acquire (.call n .pubMsg), .use .pubSub, .use (.call n .pubMsg),
    .release (.call n .pubMsg), .release (.call n .pubText)]

def TagsAction.action : TagsAction → Action TagsObject
  | .acquire o => .acquire o
  | .release o => .release o
  | .setState _ => .use .pipeline

def opPingActions (n : ℕ) : List DaemonAction :=
  [.use (.call n .param), .acquire (.call n .ret), .use (.call n .ret)] ++ pubsubSendActions n

def opPubsubActions (n : ℕ) : List DaemonAction := [.use .pubSub, .use .addr, .acquire (.call n .ret)]

def opQuitActions (n : ℕ) : List DaemonAction := [.acquire (.call n .ret)]

/-- The reply that the record of `op_tags_parse` releases is the caller's then. -/
def opTagsActions (n : ℕ) (param : Text) (calls : HandlerCalls) (p : PlaybackCtx) : List DaemonAction :=
  .use (.call n .param) :: (opTagsParseRecorded param calls p).1.map (fun act => act.action.map (.tags n)) ++
    [.acquire (.call n .ret)]

def opPlaybackActions (n : ℕ) (e : PlaybackEvent) (p : PlaybackCtx) : List DaemonAction :=
  .use (.call n .param) :: (stepActions p e).map (Action.map .playback) ++ [.acquire (.call n .ret)]

def opDumpgraphActions (n : ℕ) : List DaemonAction :=
  [.use (.playback .context), .use (.playback .pipeline), .use (.call n .param), .acquire (.call n .ret)]

def commandActions (n : ℕ) (word param : Text) (calls : HandlerCalls) (p : PlaybackCtx) : List DaemonAction :=
  if word = "PING".toList then opPingActions n
  else if word = "PUBSUB".toList then opPubsubActions n
  else if word = "QUIT".toList then opQuitActions n
  else if word = "TAGS".toList then opTagsActions n param calls p
  else if word = "PLAY".toList then opPlaybackActions n (.play param calls.play) p
  else if word = "STOP".toList then opPlaybackActions n (.stop param calls.stop) p
  else if word = "DUMPGRAPH".toList then opDumpgraphActions n
  else []

/-- `handler` is what the handler of a word does with its parameter. The error
message that `parse_message` begins with is freed before the handler runs. -/
def parseActions (nl : Newlines) (n : ℕ) (message : Text) (handler : Text → Text → List DaemonAction) :
    List DaemonAction :=
  [.acquire (.call n .ret), .acquire (.call n .regex), .acquire (.call n .matchInfo), .use (.call n .regex),
    .use (.call n .messageText)] ++
    (match search (msgRegex nl) [] message with
    | none => []
    | some found =>
      match found.group 1 with
      | none => [.use (.call n .matchInfo)]
      | some word =>
        [.use (.call n .matchInfo), .acquire (.call n .word), .use .parser, .use .messageTable] ++
          (match daemonParser.messageTable.lookup word, found.group 2 with
          | some _, some param =>
            [.use (.key word), .use (.call n .matchInfo), .acquire (.call n .param), .release (.call n .ret),
              .use (.regEntry word)] ++ handler word param ++ [.release (.call n .param)]
          | _, _ => []) ++ [.release (.call n .word)]) ++
    [.release (.call n .matchInfo), .release (.call n .regex)]

def handleMessageActions (nl : Newlines) (n : ℕ) (recv : Except Errno Text) (calls : HandlerCalls)
    (d : Daemon) (p : PlaybackCtx) : List DaemonAction :=
  match (zmqMsgRecv d.socket recv).1 with
  | .error _ => [.acquire (.call n .msg), .release (.call n .msg)]
  | .ok msg =>
    [.acquire (.call n .msg), .acquire (.call n .messageText), .use (.call n .msg),
      .use (.call n .messageText)] ++
      parseActions nl n (cString msg) (fun word param => commandActions n word param calls p) ++
      [.use (.call n .ret), .acquire (.call n .repMsg), .use (.call n .repMsg), .release (.call n .repMsg),
        .release (.call n .ret), .release (.call n .messageText), .release (.call n .msg)]

/-- Neither the error nor the text is freed. -/
def busActions (n : ℕ) (message : PipelineMessage) : List DaemonAction :=
  match message.text with
  | none => []
  | some _ =>
    [.acquire (.call n .err), .use (.call n .err), .acquire (.call n .text), .use (.call n .text),
      .use (.playback .context)] ++ pubsubSendActions n

/-- The playback context is there as long as the main loop runs. -/
def daemonActions (nl : Newlines) (n : ℕ) (d : Daemon) (e : DaemonEvent) : List DaemonAction :=
  match d.world.playback, e with
  | none, _ => []
  | some _, .tick => []
  | some p, .handle recv _ calls => handleMessageActions nl n recv calls d p
  | some _, .background .sigint => []
  | some _, .background (.pipelineMessage message _) => busActions n message
  | some p, .background (.padAdded source pad caps) =>
    (stepActions p (.padAdded source pad caps)).map (Action.map .playback)

/-- The pipeline, the message that ends the loop of `op_tags_parse`, and the
error in it. -/
def tagsKept : ℕ → List TagsEvent → List TagsObject
  | _, [] => []
  | k, .padAdded _ :: es => tagsKept k es
  | k, .popped (.tag _) :: es => tagsKept (k + 1) es
  | k, .popped .asyncDone :: _ => [.message k, .pipeline]
  | k, .popped (.error _) :: _ => [.error, .message k, .pipeline]

def commandKept (n : ℕ) (word : Text) (calls : HandlerCalls) : List DaemonObject :=
  if word = "TAGS".toList then (tagsKept 0 calls.tags).map (.tags n) else []

def requestKept (nl : Newlines) (n : ℕ) (m : Text) (calls : HandlerCalls) : List DaemonObject :=
  (splitMessage nl m).elim [] fun s => commandKept n s.1 calls

def busKept (n : ℕ) (message : PipelineMessage) : List DaemonObject :=
  if message.text.isSome then [.call n .text, .call n .err] else []

def callKept (nl : Newlines) (n : ℕ) (d : Daemon) : DaemonEvent → List DaemonObject
  | .handle (.ok msg) _ calls => if d.socket = .waitRecv then requestKept nl n (cString msg) calls else []
  | .background (.pipelineMessage message _) => busKept n message
  | _ => []

def registered (plugin : PluginEntry) (msgs : List DispatchEntry) : List DaemonObject :=
  [.pluginEntry plugin.friendlyName, .pluginNode plugin.friendlyName] ++
    msgs.flatMap fun msg => [.key msg.messagePrefix, .regEntry msg.messagePrefix]

/-- What a server holds beside its playback context. -/
def serverObjects : List DaemonObject :=
  [.pubSub, .addr, .parser, .messageTable] ++ (registered pingPlugin pingMessages ++
    registered controlPlugin controlMessages ++ registered playbackPlugin playbackMessages)

def serverHeld : Multiset DaemonObject := serverObjects

theorem services_mem {o : DaemonObject} (ho : o ∈ [.pubSub, .addr, .parser, .messageTable]) :
    o ∈ serverObjects :=
  List.mem_append_left _ ho

theorem mem_registered {plugin : PluginEntry} {msgs : List DispatchEntry} {msg : DispatchEntry}
    (h : msg ∈ msgs) {o : DaemonObject} (ho : o ∈ [.key msg.messagePrefix, .regEntry msg.messagePrefix]) :
    o ∈ registered plugin msgs :=
  List.mem_append_right _ (List.mem_flatMap.mpr ⟨msg, h, ho⟩)

theorem commandWords_mem {word : Text} (hw : word ∈ commandWords) {o : DaemonObject}
    (ho : o ∈ [.key word, .regEntry word]) : o ∈ serverObjects := by
  obtain ⟨msg, hmsg, rfl⟩ := List.mem_map.mp hw
  refine List.mem_append_right _ ?_
  rcases List.mem_append.mp hmsg with hmsg | hmsg
  · rcases List.mem_append.mp hmsg with hmsg | hmsg
    · exact List.mem_append_left _ (List.mem_append_left _ (mem_registered hmsg ho))
    · exact List.mem_append_left _ (List.mem_append_right _ (mem_registered hmsg ho))
  · exact List.mem_append_right _ (mem_registered hmsg ho)

def playbackHeld (P : Multiset PlaybackObject) : Multiset DaemonObject := P.map .playback

variable {nl : Newlines} {accepts : Caps → Bool} {n : ℕ} {P Q : Multiset DaemonObject}

theorem playback_injective : Function.Injective DaemonObject.playback := fun _ _ h =>
  DaemonObject.playback.inj h

theorem tags_injective (n : ℕ) : Function.Injective (DaemonObject.tags n) := fun _ _ h =>
  (DaemonObject.tags.inj h).2

theorem pubsubSend_held (hpub : .pubSub ∈ P) : Triple P (pubsubSendActions n) P := by
  simp [pubsubSendActions, hpub]

theorem opPing_held (hparam : .call n .param ∈ P) (hpub : .pubSub ∈ P) :
    Triple P (opPingActions n) (.call n .ret ::ₘ P) := by
  refine Triple.append (Q := .call n .ret ::ₘ P) ?_ (pubsubSend_held (Multiset.mem_cons_of_mem hpub))
  simp [hparam]

theorem opPubsub_held (hpub : .pubSub ∈ P) (haddr : .addr ∈ P) :
    Triple P (opPubsubActions n) (.call n .ret ::ₘ P) := by
  simp [opPubsubActions, hpub, haddr]

theorem opQuit_held : Triple P (opQuitActions n) (.call n .ret ::ₘ P) := triple_acquire P _

theorem opDumpgraph_held (hcontext : .playback .context ∈ P) (hpipeline : .playback .pipeline ∈ P)
    (hparam : .call n .param ∈ P) : Triple P (opDumpgraphActions n) (.call n .ret ::ₘ P) := by
  simp [opDumpgraphActions, hcontext, hpipeline, hparam]

section

variable {fmt : Formats} {k : ℕ} {sinkLinked : Bool} {es : List TagsEvent} {table : TagTable}
  {r : Option Text × TagTable} {T : Multiset TagsObject} {param reply : Text} {calls : HandlerCalls}
  {p p' : PlaybackCtx}

def retHeld (ret : Option Text) : Multiset TagsObject :=
  (ret.toList.map fun _ => TagsObject.ret : List TagsObject)

theorem tagsLoop_held (hok : (tagsLoopRecorded fmt k sinkLinked es table).2 = .ok r)
    (T : Multiset TagsObject) :
    Triple (.pipeline ::ₘ T) ((tagsLoopRecorded fmt k sinkLinked es table).1.map TagsAction.action)
      ((tagsKept k es : Multiset TagsObject) + (retHeld r.1 + T)) := by
  induction es generalizing k sinkLinked table with
  | nil => cases hok
  | cons e es ih =>
    cases e with
    | padAdded linked =>
      by_cases hl : (sinkLinked || linked) = true
      · rw [tagsLoopRecorded, if_pos hl] at hok ⊢
        have hrest := ih hok
        simpa [recorded, TagsAction.action, tagsKept] using hrest
      · rw [tagsLoopRecorded, if_neg hl] at hok
        cases hok
    | popped msg =>
      cases msg with
      | asyncDone =>
        obtain rfl : _ = r := Except.ok.inj hok
        simp [tagsLoopRecorded, TagsAction.action, tagsKept, retHeld, ← Multiset.cons_coe]
      | error text =>
        obtain rfl : _ = r := Except.ok.inj hok
        simp [tagsLoopRecorded, TagsAction.action, tagsKept, retHeld, ← Multiset.cons_coe]
      | tag tags =>
        rw [tagsLoopRecorded] at hok ⊢
        have hrest := ih hok
        simpa [recorded, TagsAction.action, tagsKept] using hrest

theorem tagsReply_held (calls : HandlerCalls) (p : PlaybackCtx) (ret : Option Text) (table : TagTable)
    (T : Multiset TagsObject) :
    Triple (retHeld ret + T) ((tagsReplyRecorded calls p ret table).1.map TagsAction.action) (.ret ::ₘ T) := by
  cases ret with
  | none => simp [tagsReplyRecorded, TagsAction.action, retHeld]
  | some text =>
    by_cases ht : table.entries.length > 0
    · simp [tagsReplyRecorded, ht, TagsAction.action, retHeld]
    · simp [tagsReplyRecorded, ht, retHeld]

theorem tags_held (hok : opTagsParse param calls p = .ok (reply, p')) :
    Triple 0 ((opTagsParseRecorded param calls p).1.map TagsAction.action) (tagsKept 0 calls.tags) := by
  have hsnd := tagsLoopRecorded_snd calls.formats 0 false calls.tags ∅
  cases hr : tagsLoopRecorded calls.formats 0 false calls.tags ∅ with
  | mk acts r =>
    rw [hr] at hsnd
    cases r with
    | error k =>
      rw [opTagsParse_of_error hsnd.symm] at hok
      cases hok
    | ok r =>
      have hloop := tagsLoop_held (congrArg Prod.snd hr) {TagsObject.tagTable}
      have hanswer := tagsReply_held calls p r.1 r.2
        (.tagTable ::ₘ (tagsKept 0 calls.tags : Multiset TagsObject))
      have hsplit : (tagsKept 0 calls.tags : Multiset TagsObject) + (retHeld r.1 + {.tagTable}) =
          retHeld r.1 + .tagTable ::ₘ (tagsKept 0 calls.tags : Multiset TagsObject) := by
        simp only [← Multiset.singleton_add]
        abel
      rw [hr, hsplit] at hloop
      have hswap : TagsObject.tagTable ::ₘ .pipeline ::ₘ 0 = .pipeline ::ₘ {TagsObject.tagTable} :=
        Multiset.cons_swap _ _ _
      have hbegin : Triple 0 [.acquire .pipeline, .use .pipeline, .acquire .tagTable]
          (TagsObject.pipeline ::ₘ {.tagTable}) := by
        rw [← hswap]
        simp
      have hend : Triple (TagsObject.ret ::ₘ .tagTable ::ₘ (tagsKept 0 calls.tags : Multiset TagsObject))
          [.release .tagTable, .release .ret] (tagsKept 0 calls.tags) := by
        rw [Multiset.cons_swap]
        simp
      rw [opTagsParseRecorded, hr]
      simp only [recorded, List.map_append]
      exact hbegin.append ((hloop.append hanswer).append hend)

end

theorem opTags_held {param reply : Text} {calls : HandlerCalls} {p p' : PlaybackCtx}
    (hparam : .call n .param ∈ P) (hok : opTagsParse param calls p = .ok (reply, p')) :
    Triple P (opTagsActions n param calls p)
      (.call n .ret ::ₘ (((tagsKept 0 calls.tags).map (.tags n) : List DaemonObject) + P)) := by
  have htags := ((tags_held hok).map (tags_injective n)).frame P
  rw [Multiset.map_zero, Multiset.zero_add, Multiset.map_coe, List.map_map] at htags
  exact (triple_use hparam).append (htags.append (triple_acquire _ _))

theorem opPlayback_held {e : PlaybackEvent} {p : PlaybackCtx} {T : Multiset PlaybackObject}
    {T' : Multiset PlaybackObject} (h : Triple T (stepActions p e) T') (hparam : .call n .param ∈ P) :
    Triple (playbackHeld T + P) (opPlaybackActions n e p) (.call n .ret ::ₘ (playbackHeld T' + P)) := by
  have hstep := (h.map playback_injective).frame P
  have huse := triple_use (P := playbackHeld T + P) (Multiset.mem_add.mpr (.inr hparam))
  exact huse.append (hstep.append (triple_acquire _ _))

theorem parse_refused {m : Text} (hd : daemonParser.dispatch nl m = none)
    (hserver : ∀ o ∈ serverObjects, o ∈ P) (htext : .call n .messageText ∈ P)
    (handler : Text → Text → List DaemonAction) :
    Triple P (parseActions nl n m handler) (.call n .ret ::ₘ P) := by
  have hparser : DaemonObject.parser ∈ P := hserver _ (services_mem (by simp))
  have htable : DaemonObject.messageTable ∈ P := hserver _ (services_mem (by simp))
  rw [parseActions]
  cases hf : search (msgRegex nl) [] m with
  | none => simp [htext]
  | some found =>
    cases hw : found.group 1 with
    | none => simp [hw, htext]
    | some word =>
      cases he : daemonParser.messageTable.lookup word with
      | none => simp [hw, he, htext, hparser, htable]
      | some entry =>
        cases hp : found.group 2 with
        | none => simp [hw, he, hp, htext, hparser, htable]
        | some param => simp [ParseCtx.dispatch, hf, hw, he, hp] at hd

theorem parse_dispatched {m word param : Text} {entry : RegEntryWithCtx PluginCtx HandlerCalls World}
    (hd : daemonParser.dispatch nl m = some (word, entry, param))
    (hserver : ∀ o ∈ serverObjects, o ∈ P) (htext : .call n .messageText ∈ P)
    {handler : Text → Text → List DaemonAction}
    (h : Triple (.call n .param ::ₘ P) (handler word param) (.call n .ret ::ₘ .call n .param ::ₘ Q)) :
    Triple P (parseActions nl n m handler) (.call n .ret ::ₘ Q) := by
  have hparser : DaemonObject.parser ∈ P := hserver _ (services_mem (by simp))
  have htable : DaemonObject.messageTable ∈ P := hserver _ (services_mem (by simp))
  obtain ⟨found, hf, hd⟩ := Option.bind_eq_some_iff.mp hd
  obtain ⟨word', hw, hd⟩ := Option.bind_eq_some_iff.mp hd
  obtain ⟨entry', he, hd⟩ := Option.bind_eq_some_iff.mp hd
  obtain ⟨param', hp, hd⟩ := Option.bind_eq_some_iff.mp hd
  obtain ⟨rfl, rfl, rfl⟩ : word' = word ∧ entry' = entry ∧ param' = param := by simpa using hd
  have hword : word' ∈ commandWords := mem_daemonParser.mp (AList.lookup_isSome.mp (by simp [he]))
  have hkey : DaemonObject.key word' ∈ P := hserver _ (commandWords_mem hword (by simp))
  have hentry : DaemonObject.regEntry word' ∈ P := hserver _ (commandWords_mem hword (by simp))
  generalize hR : .call n .word ::ₘ .call n .matchInfo ::ₘ ({.call n .regex} : Multiset DaemonObject) = R
  have hadd : ∀ S : Multiset DaemonObject, .call n .param ::ₘ S + R =
      .call n .param ::ₘ .call n .word ::ₘ .call n .matchInfo ::ₘ .call n .regex ::ₘ S := by
    intro S
    rw [← hR]
    simp only [← Multiset.singleton_add]
    abel
  have hbegin : Triple P [.acquire (.call n .ret), .acquire (.call n .regex), .acquire (.call n .matchInfo),
      .use (.call n .regex), .use (.call n .messageText), .use (.call n .matchInfo), .acquire (.call n .word),
      .use .parser, .use .messageTable, .use (.key word'), .use (.call n .matchInfo), .acquire (.call n .param),
      .release (.call n .ret), .use (.regEntry word')] (.call n .param ::ₘ P + R) := by
    rw [hadd]
    simp [htext, hparser, htable, hkey, hentry]
  have hend : Triple (.call n .ret ::ₘ .call n .param ::ₘ Q + R) [.release (.call n .param),
      .release (.call n .word), .release (.call n .matchInfo), .release (.call n .regex)]
      (.call n .ret ::ₘ Q) := by
    rw [Multiset.cons_swap, hadd]
    simp
  -- `R` is what `parse_message` holds around the call of the handler
  have hall := (hbegin.append (h.frame R)).append hend
  rw [parseActions, hf]
  simp only [hw, he, hp]
  simpa using hall

section

variable {out : Output} {p p' : PlaybackCtx} {word param reply : Text} {calls : HandlerCalls} {world world' : World}

theorem command_held {r : Result (Text × World)} (hh : Handled calls param world p word r)
    (hok : r = .ok (reply, world')) {T T' : Multiset PlaybackObject}
    (h : Triple T ((commandEvent word param calls).elim [] (stepActions p)) T')
    (hserver : ∀ o ∈ serverObjects, o ∈ P) (hout : ∀ o ∈ outputObjects out, o ∈ T) :
    Triple (.call n .param ::ₘ (playbackHeld T + P)) (commandActions n word param calls p)
      (.call n .ret ::ₘ .call n .param ::ₘ (playbackHeld T' + (commandKept n word calls + P))) := by
  have hparam : DaemonObject.call n .param ∈ .call n .param ::ₘ (playbackHeld T + P) :=
    Multiset.mem_cons_self _ _
  have hbase : ∀ o ∈ [.pubSub, .addr, .parser, .messageTable], o ∈ .call n .param ::ₘ (playbackHeld T + P) :=
    fun o ho => Multiset.mem_cons_of_mem (Multiset.mem_add.mpr (.inr (hserver o (services_mem ho))))
  have hctx : ∀ o ∈ outputObjects out, .playback o ∈ .call n .param ::ₘ (playbackHeld T + P) := fun o ho =>
    Multiset.mem_cons_of_mem (Multiset.mem_add.mpr (.inl (Multiset.mem_map_of_mem _ (hout o ho))))
  have hkept : word ≠ "TAGS".toList → (commandKept n word calls : Multiset DaemonObject) + P = P := by
    intro hw
    rw [commandKept, if_neg hw, Multiset.coe_nil, Multiset.zero_add]
  have hcons : DaemonObject.call n .param ::ₘ (playbackHeld T + P) = playbackHeld T + .call n .param ::ₘ P :=
    (Multiset.add_cons _ _ _).symm
  cases hh with
  | ping =>
    obtain rfl : T = T' := triple_nil_iff.mp h
    rw [hkept (by decide)]
    exact opPing_held hparam (hbase _ (by simp))
  | pubsub =>
    obtain rfl : T = T' := triple_nil_iff.mp h
    rw [hkept (by decide)]
    exact opPubsub_held (hbase _ (by simp)) (hbase _ (by simp))
  | quit =>
    obtain rfl : T = T' := triple_nil_iff.mp h
    rw [hkept (by decide)]
    exact opQuit_held
  | dumpgraph =>
    obtain rfl : T = T' := triple_nil_iff.mp h
    rw [hkept (by decide)]
    exact opDumpgraph_held (hctx _ (by simp [outputObjects])) (hctx _ (by simp [outputObjects])) hparam
  | tags =>
    obtain rfl : T = T' := triple_nil_iff.mp h
    obtain ⟨p', hf, -⟩ := map_playback_ok hok
    have htags := opTags_held hparam hf
    rw [Multiset.add_cons, add_left_comm] at htags
    exact htags
  | play =>
    rw [hkept (by decide), hcons, ← Multiset.add_cons]
    exact opPlayback_held h (Multiset.mem_cons_self _ _)
  | stop =>
    rw [hkept (by decide), hcons, ← Multiset.add_cons]
    exact opPlayback_held h (Multiset.mem_cons_self _ _)

theorem request_held {m : Text} (hp : world.playback = some p)
    (hm : parseMessage nl daemonParser m calls world = .ok (reply, world')) {T T' : Multiset PlaybackObject}
    (h : Triple T ((requestEvent nl m calls).elim [] (stepActions p)) T')
    (hserver : ∀ o ∈ serverObjects, o ∈ P) (htext : .call n .messageText ∈ P)
    (hout : ∀ o ∈ outputObjects out, o ∈ T) :
    Triple (playbackHeld T + P) (parseActions nl n m fun word param => commandActions n word param calls p)
      (.call n .ret ::ₘ (playbackHeld T' + (requestKept nl n m calls + P))) := by
  have hserver' : ∀ o ∈ serverObjects, o ∈ playbackHeld T + P := fun o ho =>
    Multiset.mem_add.mpr (.inr (hserver o ho))
  have htext' : DaemonObject.call n .messageText ∈ playbackHeld T + P := Multiset.mem_add.mpr (.inr htext)
  cases hd : daemonParser.dispatch nl m with
  | none =>
    have hno : requestEvent nl m calls = none ∧ requestKept nl n m calls = [] := by
      rw [dispatch_eq_splitMessage] at hd
      cases hs : splitMessage nl m with
      | none => simp [requestEvent, requestKept, hs]
      | some s =>
        have hword : s.1 ∉ commandWords := by
          intro hw
          obtain ⟨entry, he⟩ := Option.isSome_iff_exists.mp (AList.lookup_isSome.mpr (mem_daemonParser.mpr hw))
          simp [hs, he] at hd
        have htags : s.1 ≠ "TAGS".toList := fun hw => hword (hw ▸ by decide)
        simp only [requestEvent, requestKept, hs, Option.bind_some, Option.elim_some]
        exact ⟨commandEvent_of_unknown hword _, if_neg htags⟩
    rw [hno.1] at h
    obtain rfl : T = T' := triple_nil_iff.mp h
    rw [hno.2, Multiset.coe_nil, Multiset.zero_add]
    exact parse_refused hd hserver' htext' _
  | some s =>
    obtain ⟨word, entry, param⟩ := s
    obtain ⟨hs, he⟩ : splitMessage nl m = some (word, param) ∧
        daemonParser.messageTable.lookup word = some entry := by
      rw [dispatch_eq_splitMessage] at hd
      obtain ⟨s, hs, hd⟩ := Option.bind_eq_some_iff.mp hd
      obtain ⟨e, he, hd⟩ := Option.map_eq_some_iff.mp hd
      obtain ⟨rfl, rfl, rfl⟩ : s.1 = word ∧ e = entry ∧ s.2 = param := by simpa using hd
      exact ⟨hs, he⟩
    rw [requestEvent, hs, Option.bind_some] at h
    rw [parseMessage_of_lookup hs he] at hm
    have hcommand := command_held (n := n) (handled_of_lookup hp he) hm h hserver hout
    have hkept : requestKept nl n m calls = commandKept n word calls := by
      rw [requestKept, hs, Option.elim_some]
    rw [hkept]
    exact parse_dispatched hd hserver' htext' hcommand

theorem handle_held {d d' : Daemon} {recv : Except Errno Text} {send : Except Errno Unit}
    (hp : d.world.playback = some p)
    (hs : (daemonMachine nl accepts daemonParser).Steps d (.handle recv send calls) d')
    {T T' : Multiset PlaybackObject}
    (h : Triple T (((DaemonEvent.handle recv send calls).playbackEvent nl d).elim [] (stepActions p)) T')
    (hserver : ∀ o ∈ serverObjects, o ∈ P) (hout : ∀ o ∈ outputObjects out, o ∈ T) :
    Triple (playbackHeld T + P) (handleMessageActions nl n recv calls d p)
      (playbackHeld T' + (callKept nl n d (.handle recv send calls) + P)) := by
  rcases steps_handle hs with ⟨-, -, -, hno⟩ | ⟨msg, data, hsock, rfl, hd, -, -⟩
  · have hnone : (DaemonEvent.handle recv send calls).playbackEvent nl d = none ∧
        callKept nl n d (.handle recv send calls) = [] ∧ ∃ e, (zmqMsgRecv d.socket recv).1 = .error e := by
      rcases hno with hsock | ⟨err, rfl⟩
      · rw [hsock]
        cases recv <;> simp [DaemonEvent.playbackEvent, callKept, hsock, zmqMsgRecv]
      · refine ⟨rfl, rfl, ?_⟩
        cases d.socket <;> exact ⟨_, rfl⟩
    obtain ⟨hevent, hkept, e, he⟩ := hnone
    rw [hevent] at h
    obtain rfl : T = T' := triple_nil_iff.mp h
    rw [handleMessageActions, he, hkept, Multiset.coe_nil, Multiset.zero_add]
    simp
  · have hevent : (DaemonEvent.handle (.ok msg) send calls).playbackEvent nl d =
        requestEvent nl (cString msg) calls := if_pos hsock
    have hkept : callKept nl n d (.handle (.ok msg) send calls) = requestKept nl n (cString msg) calls :=
      if_pos hsock
    rw [hevent] at h
    have hbegin : Triple (playbackHeld T + P) [.acquire (.call n .msg), .acquire (.call n .messageText),
        .use (.call n .msg), .use (.call n .messageText)]
        (playbackHeld T + .call n .messageText ::ₘ .call n .msg ::ₘ P) := by simp
    have hrequest := request_held (n := n) (P := .call n .messageText ::ₘ .call n .msg ::ₘ P) hp hd h
      (fun o ho => Multiset.mem_cons_of_mem (Multiset.mem_cons_of_mem (hserver o ho)))
      (Multiset.mem_cons_self _ _) hout
    rw [handleMessageActions, hsock, hkept]
    generalize (requestKept nl n (cString msg) calls : Multiset DaemonObject) = K at hrequest
    have hend : Triple (.call n .ret ::ₘ (playbackHeld T' + (K + .call n .messageText ::ₘ .call n .msg ::ₘ P)))
        [.use (.call n .ret), .acquire (.call n .repMsg), .use (.call n .repMsg), .release (.call n .repMsg),
          .release (.call n .ret), .release (.call n .messageText), .release (.call n .msg)]
        (playbackHeld T' + (K + P)) := by simp
    exact (hbegin.append hrequest).append hend

theorem bus_held {message : PipelineMessage} (hpub : .pubSub ∈ P) (hcontext : .playback .context ∈ P) :
    Triple P (busActions n message) (busKept n message + P) := by
  cases ht : message.text with
  | none => simp [busActions, busKept, ht]
  | some text =>
    have hkept : (busKept n message : Multiset DaemonObject) + P = .call n .text ::ₘ .call n .err ::ₘ P := by
      simp [busKept, ht, ← Multiset.cons_coe]
    have hbegin : Triple P [.acquire (.call n .err), .use (.call n .err), .acquire (.call n .text),
        .use (.call n .text), .use (.playback .context)] (.call n .text ::ₘ .call n .err ::ₘ P) := by
      simp [hcontext]
    have hpub' : DaemonObject.pubSub ∈ .call n .text ::ₘ .call n .err ::ₘ P :=
      Multiset.mem_cons_of_mem (Multiset.mem_cons_of_mem hpub)
    rw [busActions, ht, hkept]
    exact hbegin.append (pubsubSend_held hpub')

/-- What a callback does beside the playback context is safe with what the
server holds. -/
theorem callback_held {d d' : Daemon} {e : DaemonEvent} (hp : d.world.playback = some p)
    (hs : (daemonMachine nl accepts daemonParser).Steps d e d') {T T' : Multiset PlaybackObject}
    (h : Triple T ((e.playbackEvent nl d).elim [] (stepActions p)) T')
    (hserver : ∀ o ∈ serverObjects, o ∈ P) (hout : ∀ o ∈ outputObjects out, o ∈ T) :
    Triple (playbackHeld T + P) (daemonActions nl n d e) (playbackHeld T' + (callKept nl n d e + P)) := by
  cases e with
  | tick =>
    obtain rfl : T = T' := triple_nil_iff.mp h
    simp [daemonActions, hp, callKept]
  | handle recv send calls =>
    simp only [daemonActions, hp]
    exact handle_held hp hs h hserver hout
  | background b =>
    cases b with
    | sigint =>
      obtain rfl : T = T' := triple_nil_iff.mp h
      simp [daemonActions, hp, callKept]
    | pipelineMessage message published =>
      obtain rfl : T = T' := triple_nil_iff.mp h
      have hpub : DaemonObject.pubSub ∈ playbackHeld T + P :=
        Multiset.mem_add.mpr (.inr (hserver _ (services_mem (by simp))))
      have hcontext : DaemonObject.playback .context ∈ playbackHeld T + P :=
        Multiset.mem_add.mpr (.inl (Multiset.mem_map_of_mem _ (hout _ (by simp [outputObjects]))))
      simp only [daemonActions, hp]
      rw [add_left_comm]
      exact bus_held hpub hcontext
    | padAdded source pad caps =>
      have hstep := (h.map playback_injective).frame P
      show Triple _ _ (playbackHeld T' + (0 + P))
      simp only [daemonActions, hp]
      rw [Multiset.zero_add]
      exact hstep

end

end GstPlayd
