import GstPlayd.DaemonLedger

/-! The memory of a server over its whole life: `pubsub_new`, the registration of
the plugins, the main loop, `parse_free` and `pubsub_free`. -/

namespace GstPlayd

open ElementGraph ResourceLedger StepMachine StepMachine.Machine

def pubsubNewMemory : List DaemonAction := [.acquire .pubSub, .use .pubSub, .acquire .addr, .use .addr]

def pubsubFreeMemory : List DaemonAction := [.use .pubSub, .release .addr, .release .pubSub]

/-- `new` is what the `plugin_new` of the plugin does. -/
def registerActions (plugin : PluginEntry) (msgs : List DispatchEntry) (new : List DaemonAction) :
    List DaemonAction :=
  new ++ [.acquire (.pluginEntry plugin.friendlyName), .use (.pluginEntry plugin.friendlyName), .use .parser,
    .acquire (.pluginNode plugin.friendlyName)] ++
    msgs.flatMap fun msg => [.acquire (.regEntry msg.messagePrefix), .acquire (.key msg.messagePrefix),
      .use (.regEntry msg.messagePrefix), .use .messageTable]

def bootActions (out : Output) : List DaemonAction :=
  pubsubNewMemory ++ [.acquire .parser, .acquire .messageTable] ++
    registerActions pingPlugin pingMessages [] ++ registerActions controlPlugin controlMessages [] ++
    registerActions playbackPlugin playbackMessages ((newActions out).map (Action.map .playback))

/-- `free` is what the `plugin_free` of the plugin does. -/
def pluginEntryFreeActions (plugin : PluginEntry) (free : List DaemonAction) : List DaemonAction :=
  [.use (.pluginNode plugin.friendlyName), .use (.pluginEntry plugin.friendlyName)] ++ free ++
    [.release (.pluginEntry plugin.friendlyName)]

def tableObjects : List DaemonObject :=
  daemonParser.messageTable.keys.flatMap fun word => [.key word, .regEntry word]

def nodeObjects : List DaemonObject :=
  parserOperations.reverse.map fun plugin => .pluginNode plugin.friendlyName

def parseFreeActions (answers : SourceItem → GstStateChangeReturn) (p : PlaybackCtx) : List DaemonAction :=
  .use .parser :: releaseAll tableObjects ++ [.release .messageTable] ++
    pluginEntryFreeActions playbackPlugin ((freeActions answers p).map (Action.map .playback)) ++
    pluginEntryFreeActions controlPlugin [] ++ pluginEntryFreeActions pingPlugin [] ++
    releaseAll nodeObjects ++ [.release .parser]

/-- Runs of the daemon in which the allocator and GStreamer answer as for the
playback context alone. -/
def gstreamerDaemon (nl : Newlines) (accepts : Caps → Bool) : Machine Daemon DaemonEvent Halt where
  step := daemonStep nl accepts daemonParser
  allowed d e := e.Allowed d ∧
    ∀ pe ∈ e.playbackEvent nl d, ∀ p ∈ d.world.playback, (gstreamerMachine accepts).allowed p pe

/-- What is never given back of a callback: the two pads of a PLAY count from
the start, though they are looked up only when its source goes. -/
def daemonKept (nl : Newlines) (mux : Element) (n : ℕ) (d : Daemon) (e : DaemonEvent) : List DaemonObject :=
  ((e.playbackEvent nl d).elim [] (playPads mux)).map (fun pad => .playback (.pad pad)) ++ callKept nl n d e

variable {nl : Newlines} {accepts : Caps → Bool} {n : ℕ} {P Q : Multiset DaemonObject}

section

variable {out : Output} {ports : List Port} {p p' after : PlaybackCtx} {world world' : World}
  {es : List DaemonEvent} {d d' : Daemon} {e : DaemonEvent} {calls : HandlerCalls}
  {held : Multiset DaemonObject} {kept : List DaemonObject} {answers : SourceItem → GstStateChangeReturn}

/-- Of a request that the playback context takes no part in the ports know
nothing. -/
theorem takes_held (h : Realizes out ports p) (hd : (p.sources.map SourceItem.address).Nodup)
    {e : Option PlaybackEvent} (hallow : ∀ pe ∈ e, (gstreamerMachine accepts).allowed p pe)
    (ht : Takes accepts p p' e) :
    ∃ left : List Pad,
      Triple (sourcesHeld out p.sources) (e.elim [] (stepActions p))
        (sourcesHeld out p'.sources + padsHeld left) ∧
      (left ++ (e.elim ports (portsStep ports)).flatMap (Port.padRefs out.mux)).Perm
        (ports.flatMap (Port.padRefs out.mux) ++ e.elim [] (playPads out.mux)) := by
  cases e with
  | none =>
    obtain rfl : p' = p := ht
    refine ⟨[], ?_, by simp⟩
    show Triple _ [] (sourcesHeld out p'.sources + 0)
    rw [Multiset.add_zero]
    exact triple_nil _
  | some pe => exact step_held h hd ⟨hallow pe rfl, ht⟩

/-- The daemon holds what the server and the live sources own, and has kept
pads of sources that are gone and what other callbacks left. -/
def Accounted (accepts : Caps → Bool) (out : Output) (kept : List DaemonObject) (d : Daemon)
    (held : Multiset DaemonObject) : Prop :=
  ∃ p fs left other, d.world.playback = some p ∧ (gstreamerMachine accepts).Reaches out.new fs p ∧
    held = playbackHeld (sourcesHeld out p.sources + padsHeld left) + (other + serverHeld) ∧
    (kept : Multiset DaemonObject) =
      playbackHeld (padsHeld (left ++ (portsOf fs).flatMap (Port.padRefs out.mux))) + other

theorem playbackHeld_pads (pads : List Pad) :
    playbackHeld (padsHeld pads) =
      (pads.map fun pad => DaemonObject.playback (.pad pad) : List DaemonObject) := by
  rw [playbackHeld, padsHeld, Multiset.map_coe, List.map_map]
  rfl

theorem playbackHeld_add (P Q : Multiset PlaybackObject) :
    playbackHeld (P + Q) = playbackHeld P + playbackHeld Q := Multiset.map_add _ _ _

theorem Accounted.step (h : Accounted accepts out kept d held)
    (hs : (gstreamerDaemon nl accepts).Steps d e d') :
    ∃ held', Triple held (daemonActions nl n d e) held' ∧
      Accounted accepts out (kept ++ daemonKept nl out.mux n d e) d' held' := by
  obtain ⟨p, fs, left, other, hp, hr, rfl, hkept⟩ := h
  have hdaemon : (daemonMachine nl accepts daemonParser).Steps d e d' := ⟨hs.1.1, hs.2⟩
  obtain ⟨p', hp', ht⟩ := steps_takes hp hdaemon
  have hallow : ∀ pe ∈ e.playbackEvent nl d, (gstreamerMachine accepts).allowed p pe := fun pe he =>
    hs.1.2 pe he p hp
  obtain ⟨more, hmore, hperm⟩ := takes_held (realizes_of_reaches hr)
    (follows_of_reaches (reaches_playbackMachine hr)).distinct hallow ht
  have hcall := callback_held (n := n) (P := playbackHeld (padsHeld left) + (other + serverHeld)) hp hdaemon
    hmore (fun o ho => Multiset.mem_add.mpr (.inr (Multiset.mem_add.mpr (.inr ho))))
    (fun o ho => outputObjects_held ho)
  rw [← Multiset.add_assoc, ← playbackHeld_add] at hcall
  refine ⟨_, hcall, p', fs ++ (e.playbackEvent nl d).toList, left ++ more, callKept nl n d e + other, hp',
    ?_, ?_, ?_⟩
  · cases he : e.playbackEvent nl d with
    | none =>
      rw [he] at ht
      obtain rfl : p' = p := ht
      simpa using hr
    | some pe =>
      rw [he] at ht
      exact reaches_snoc_iff.mpr ⟨p, hr, hallow pe he, ht⟩
  · rw [padsHeld_append, playbackHeld_add, playbackHeld_add, playbackHeld_add]
    abel
  · -- a PLAY brings its pads in with its port, a STOP takes them to `left`
    have hports : portsOf (fs ++ (e.playbackEvent nl d).toList) =
        (e.playbackEvent nl d).elim (portsOf fs) (portsStep (portsOf fs)) := by
      cases e.playbackEvent nl d with
      | none => simp
      | some pe => exact portsOf_snoc fs pe
    have hpads : (left ++ ((portsOf fs).flatMap (Port.padRefs out.mux) ++
        (e.playbackEvent nl d).elim [] (playPads out.mux))).Perm
        (left ++ (more ++ ((e.playbackEvent nl d).elim (portsOf fs) (portsStep (portsOf fs))).flatMap
          (Port.padRefs out.mux))) := hperm.symm.append_left left
    have hheld := Multiset.coe_eq_coe.mpr (hpads.map fun pad => DaemonObject.playback (.pad pad))
    rw [← playbackHeld_pads, ← playbackHeld_pads, ← List.append_assoc, ← List.append_assoc,
      padsHeld_append] at hheld
    rw [hports, ← hheld, playbackHeld_add, daemonKept, ← Multiset.coe_add, ← Multiset.coe_add, hkept,
      ← playbackHeld_pads]
    abel

theorem accounted_of_reaches (hw : world.playback = some out.new)
    (h : (gstreamerDaemon nl accepts).Reaches (.start world) es d) :
    ∃ held, Triple (playbackHeld (sourcesHeld out []) + serverHeld)
        (collect (gstreamerDaemon nl accepts) (daemonActions nl) 0 (.start world) es) held ∧
      Accounted accepts out
        (collect (gstreamerDaemon nl accepts) (daemonKept nl out.mux) 0 (.start world) es) d held := by
  refine reaches_triple (I := fun es d held => Accounted accepts out
    (collect (gstreamerDaemon nl accepts) (daemonKept nl out.mux) 0 (.start world) es) d held) h ?_ ?_
  · refine ⟨out.new, [], [], 0, hw, .nil _, ?_, rfl⟩
    show _ = playbackHeld (sourcesHeld out [] + 0) + (0 + serverHeld)
    rw [Multiset.add_zero, Multiset.zero_add]
  · intro pre r e u held hr hI hs
    obtain ⟨held', hact, hI'⟩ := hI.step (n := pre.length) hs
    refine ⟨held', hact, ?_⟩
    rw [collect_snoc hr, Nat.zero_add]
    exact hI'

theorem entries_held (msgs : List DispatchEntry) (htable : .messageTable ∈ P) :
    Triple P (msgs.flatMap fun msg => [.acquire (.regEntry msg.messagePrefix),
        .acquire (.key msg.messagePrefix), .use (.regEntry msg.messagePrefix), .use .messageTable])
      ((msgs.flatMap fun msg => [.key msg.messagePrefix, .regEntry msg.messagePrefix] : List DaemonObject) +
        P) := by
  induction msgs generalizing P with
  | nil => simp
  | cons msg msgs ih =>
    have hrest := ih (P := .key msg.messagePrefix ::ₘ .regEntry msg.messagePrefix ::ₘ P)
      (Multiset.mem_cons_of_mem (Multiset.mem_cons_of_mem htable))
    simpa [htable, ← Multiset.cons_coe] using hrest

theorem register_held (plugin : PluginEntry) {new : List DaemonAction} (msgs : List DispatchEntry)
    (hparser : .parser ∈ P) (htable : .messageTable ∈ P) (h : Triple 0 new Q) :
    Triple P (registerActions plugin msgs new) (registered plugin msgs + (Q + P)) := by
  have hparser' : DaemonObject.parser ∈ Q + P := Multiset.mem_add.mpr (.inr hparser)
  have htable' : DaemonObject.messageTable ∈ Q + P := Multiset.mem_add.mpr (.inr htable)
  have hentry : Triple (Q + P) [.acquire (.pluginEntry plugin.friendlyName),
      .use (.pluginEntry plugin.friendlyName), .use .parser, .acquire (.pluginNode plugin.friendlyName)]
      (.pluginNode plugin.friendlyName ::ₘ .pluginEntry plugin.friendlyName ::ₘ (Q + P)) := by
    simp [hparser']
  have htables := entries_held
    (P := .pluginNode plugin.friendlyName ::ₘ .pluginEntry plugin.friendlyName ::ₘ (Q + P)) msgs
    (Multiset.mem_cons_of_mem (Multiset.mem_cons_of_mem htable'))
  have hnew := h.frame P
  rw [Multiset.zero_add] at hnew
  have hall := (hnew.append hentry).append htables
  simpa [registerActions, registered, ← Multiset.cons_coe, Multiset.cons_swap] using hall

theorem boot_held (out : Output) :
    Triple 0 (bootActions out) (.playback .watch ::ₘ (playbackHeld (sourcesHeld out []) + serverHeld)) := by
  generalize hS : (([.messageTable, .parser, .addr, .pubSub] : List DaemonObject) : Multiset DaemonObject) = S
  have hbegin : Triple 0 (pubsubNewMemory ++ [.acquire .parser, .acquire .messageTable]) S := by
    rw [← hS]
    rfl
  have hparser : ∀ T : Multiset DaemonObject, .parser ∈ T + S := by simp [← hS]
  have htable : ∀ T : Multiset DaemonObject, .messageTable ∈ T + S := by simp [← hS]
  have hping := register_held pingPlugin pingMessages (hparser 0) (htable 0) (triple_nil 0)
  have hcontrol := register_held controlPlugin controlMessages
    (hparser (registered pingPlugin pingMessages)) (htable _) (triple_nil 0)
  have hplayback := register_held playbackPlugin playbackMessages
    (hparser (registered controlPlugin controlMessages + registered pingPlugin pingMessages)) (htable _)
    ((new_held out).map playback_injective)
  have hperm : serverObjects.Perm (registered playbackPlugin playbackMessages ++
      (registered controlPlugin controlMessages ++ (registered pingPlugin pingMessages ++
        [.messageTable, .parser, .addr, .pubSub]))) := by decide
  have hserver := Multiset.coe_eq_coe.mpr hperm
  simp only [← Multiset.coe_add] at hserver
  rw [Multiset.map_cons, Multiset.cons_add, Multiset.add_cons] at hplayback
  simp only [Multiset.zero_add, Multiset.add_assoc] at hping hcontrol hplayback
  have hall := ((hbegin.append hping).append hcontrol).append hplayback
  rw [serverHeld, hserver, hS, add_left_comm]
  exact hall

theorem pluginEntryFree_held (plugin : PluginEntry) {free : List DaemonAction}
    (hnode : .pluginNode plugin.friendlyName ∈ P) (h : Triple P free Q) :
    Triple (.pluginEntry plugin.friendlyName ::ₘ P) (pluginEntryFreeActions plugin free) Q := by
  have hbegin : Triple (.pluginEntry plugin.friendlyName ::ₘ P) [.use (.pluginNode plugin.friendlyName),
      .use (.pluginEntry plugin.friendlyName)] ({.pluginEntry plugin.friendlyName} + P) := by
    simp [hnode]
  exact (hbegin.append (h.frame_left _)).append (triple_release Q _)

theorem parseFree_held (h : Realizes out ports p) (hfree : opPlaybackFree answers p = .ok after) :
    Triple (playbackHeld (sourcesHeld out p.sources) + serverHeld)
      (parseFreeActions answers p ++ pubsubFreeMemory)
      (playbackHeld (padsHeld (ports.flatMap (Port.padRefs out.mux)))) := by
  have hperm : serverObjects.Perm (tableObjects ++ .messageTable :: .pluginEntry playbackPlugin.friendlyName ::
      .pluginEntry controlPlugin.friendlyName :: .pluginEntry pingPlugin.friendlyName ::
      (nodeObjects ++ [.parser, .addr, .pubSub])) := by
    decide
  generalize hT : playbackHeld (sourcesHeld out p.sources) = T
  generalize hL : playbackHeld (padsHeld (ports.flatMap (Port.padRefs out.mux))) = L
  generalize hE : (([.parser, .addr, .pubSub] : List DaemonObject) : Multiset DaemonObject) = E
  generalize hN : ((nodeObjects : List DaemonObject) : Multiset DaemonObject) = N
  have hheld : T + serverHeld = (tableObjects : Multiset DaemonObject) + .messageTable ::ₘ
      .pluginEntry playbackPlugin.friendlyName ::ₘ .pluginEntry controlPlugin.friendlyName ::ₘ
        .pluginEntry pingPlugin.friendlyName ::ₘ (T + (N + E)) := by
    rw [serverHeld, Multiset.coe_eq_coe.mpr hperm, ← hE, ← hN]
    simp only [← Multiset.coe_add, ← Multiset.cons_coe, ← Multiset.singleton_add]
    abel
  have huse : Triple (T + serverHeld) [.use .parser] (T + serverHeld) :=
    triple_use (Multiset.mem_add.mpr (.inr (services_mem (by simp))))
  have hnode : ∀ plugin ∈ parserOperations, ∀ R : Multiset DaemonObject,
      .pluginNode plugin.friendlyName ∈ R + (N + E) := by
    intro plugin hplugin R
    have hm : DaemonObject.pluginNode plugin.friendlyName ∈ nodeObjects :=
      List.mem_map_of_mem (List.mem_reverse.mpr hplugin)
    exact Multiset.mem_add.mpr (.inr (Multiset.mem_add.mpr (.inl (hN ▸ hm))))
  have hsources := ((free_held h hfree).map playback_injective).frame
    (.pluginEntry controlPlugin.friendlyName ::ₘ .pluginEntry pingPlugin.friendlyName ::ₘ (N + E))
  change Triple (playbackHeld _ + _) _ (playbackHeld _ + _) at hsources
  rw [hT, hL, Multiset.add_cons, Multiset.add_cons, Multiset.add_cons, Multiset.add_cons] at hsources
  have hplayback := pluginEntryFree_held playbackPlugin (Multiset.mem_cons_of_mem
    (Multiset.mem_cons_of_mem (hnode _ (by simp [parserOperations]) T))) hsources
  have hcontrol := pluginEntryFree_held controlPlugin
    (Multiset.mem_cons_of_mem (hnode _ (by simp [parserOperations]) L))
    (triple_nil (.pluginEntry pingPlugin.friendlyName ::ₘ (L + (N + E))))
  have hping := pluginEntryFree_held pingPlugin (hnode _ (by simp [parserOperations]) L)
    (triple_nil (L + (N + E)))
  have hnodes := triple_releaseAll (L + E) nodeObjects
  rw [hN, add_left_comm] at hnodes
  have hend : Triple (L + E) [.release .parser, .use .pubSub, .release .addr, .release .pubSub] L := by
    have hsplit : L + E = .parser ::ₘ .addr ::ₘ .pubSub ::ₘ L := by
      rw [← hE]
      simp only [← Multiset.cons_coe, Multiset.add_cons, Multiset.coe_nil, Multiset.add_zero]
    rw [hsplit]
    simp
  rw [hheld] at huse
  have htable := (huse.append (triple_releaseAll _ tableObjects)).append
    (triple_release _ DaemonObject.messageTable)
  have hall := htable.append (((hplayback.append hcontrol).append hping).append (hnodes.append hend))
  rw [hheld]
  simpa [parseFreeActions, pubsubFreeMemory] using hall

theorem parseFree_ok (hp : world.playback = some p)
    (h : parseFree daemonParser calls world = .ok world') :
    ∃ after, opPlaybackFree calls.free p = .ok after := by
  cases hf : opPlaybackFree calls.free p with
  | error k =>
    have hfree : playbackFree .playback calls world = .error k := by
      simp only [playbackFree, hp, hf]
      rfl
    change (playbackFree .playback calls world >>= _) = .ok world' at h
    rw [hfree] at h
    cases h
  | ok after => exact ⟨after, rfl⟩

/-- A server gives back all that it acquires, in whatever order its callbacks
run, but for the watch on the bus, the pads of each PLAY, what each TAGS leaves
of its pipeline, and the error and text of each message that went from the bus
to the subscribers. -/
theorem daemon_gives_back {parser : DaemonParser} {boot : HandlerCalls} {world₀ : World}
    (hboot : registerPlugins parserOperations parseNew boot world₀ = .ok (parser, world))
    (hout : world.playback = some out.new)
    (h : (gstreamerDaemon nl accepts).Reaches (.start world) es d) (hp : d.world.playback = some p)
    (hfree : parseFree parser calls d.world = .ok world') :
    Triple 0 (bootActions out ++
        collect (gstreamerDaemon nl accepts) (daemonActions nl) 0 (.start world) es ++
        (parseFreeActions calls.free p ++ pubsubFreeMemory))
      (.playback .watch ::ₘ
        (collect (gstreamerDaemon nl accepts) (daemonKept nl out.mux) 0 (.start world) es :
          Multiset DaemonObject)) := by
  obtain ⟨rfl, -⟩ := registerPlugins_ok hboot
  obtain ⟨held, hrun, q, fs, left, other, hq, hr, rfl, hkept⟩ := accounted_of_reaches hout h
  obtain rfl : q = p := Option.some.inj (hq.symm.trans hp)
  obtain ⟨after, hfree⟩ := parseFree_ok hp hfree
  have hend := (parseFree_held (realizes_of_reaches hr) hfree).frame (playbackHeld (padsHeld left) + other)
  have hheld : playbackHeld (sourcesHeld out q.sources + padsHeld left) + (other + serverHeld) =
      playbackHeld (sourcesHeld out q.sources) + serverHeld + (playbackHeld (padsHeld left) + other) := by
    rw [playbackHeld_add]
    abel
  have hleft : playbackHeld (padsHeld ((portsOf fs).flatMap (Port.padRefs out.mux))) +
      (playbackHeld (padsHeld left) + other) =
        playbackHeld (padsHeld (left ++ (portsOf fs).flatMap (Port.padRefs out.mux))) + other := by
    rw [padsHeld_append, playbackHeld_add]
    abel
  rw [hleft, ← hkept] at hend
  rw [hheld] at hrun
  exact ((boot_held out).append (hrun.frame_left {.playback .watch})).append
    (hend.frame_left {.playback .watch})

def exampleCallbacks : List DaemonEvent :=
  [.background (.pipelineMessage (.warning "late".toList) true), .tick,
    .handle (.ok "TAGS a".toList) (.ok ()) { exampleHandlerCalls with tags := [.popped .asyncDone] },
    .handle (.ok "PLAY a".toList) (.ok ()) exampleHandlerCalls]

def exampleCallbacksOutput : Output := ⟨1, 2, 0, by decide⟩

theorem exampleCallbacks_reaches : ∃ d p world',
    (gstreamerDaemon .any fun _ => true).Reaches (.start exampleWorld) exampleCallbacks d ∧
      d.world.playback = some p ∧ parseFree daemonParser exampleHandlerCalls d.world = .ok world' := by
  have hno : ∀ {e : DaemonEvent} {d : Daemon}, e.playbackEvent .any d = none → ∀ pe ∈ e.playbackEvent .any d,
      ∀ p ∈ d.world.playback, (gstreamerMachine fun _ => true).allowed p pe := by
    intro e d he pe hpe
    rw [he] at hpe
    cases hpe
  refine ⟨_, _, _, .cons ⟨⟨rfl, hno rfl⟩, rfl⟩ (.cons ⟨⟨rfl, hno rfl⟩, rfl⟩ (.cons ⟨⟨rfl, hno rfl⟩, rfl⟩
    (.cons ⟨⟨rfl, ?_⟩, rfl⟩ (.nil _)))), rfl, rfl⟩
  intro pe hpe p hp
  obtain rfl : PlaybackEvent.play "a".toList exampleHandlerCalls.play = pe := Option.some.inj hpe
  obtain rfl : exampleCallbacksOutput.new = p := Option.some.inj hp
  have hplay : (gstreamerMachine fun _ => true).Reaches exampleCallbacksOutput.new
      ([] ++ [.play "a".toList exampleHandlerCalls.play]) _ :=
    reaches_new_play (.nil _) (by decide) (by decide) (by decide) (by decide) (by decide)
  obtain ⟨ctx, hnil, hs⟩ := reaches_snoc_iff.mp hplay
  obtain rfl := reaches_nil_iff.mp hnil
  exact hs.1

theorem daemon_gives_back_example : ∃ d p world',
    (gstreamerDaemon .any fun _ => true).Reaches (.start exampleWorld) exampleCallbacks d ∧
      parseFree daemonParser exampleHandlerCalls d.world = .ok world' ∧
      Triple 0 (bootActions exampleCallbacksOutput ++
          collect (gstreamerDaemon .any fun _ => true) (daemonActions .any) 0 (.start exampleWorld)
            exampleCallbacks ++
          (parseFreeActions exampleHandlerCalls.free p ++ pubsubFreeMemory))
        ([.playback .watch, .call 0 .text, .call 0 .err, .tags 2 (.message 0), .tags 2 .pipeline,
          .playback (.pad ⟨11, .src⟩), .playback (.pad ⟨1, .request 0⟩)] : List DaemonObject) := by
  obtain ⟨d, p, world', h, hp, hfree⟩ := exampleCallbacks_reaches
  have hboot : registerPlugins parserOperations parseNew exampleHandlerCalls exampleWorld =
    .ok (daemonParser, exampleWorld) := rfl
  have hout : exampleWorld.playback = some exampleCallbacksOutput.new := rfl
  exact ⟨d, p, world', h, hfree, daemon_gives_back hboot hout h hp hfree⟩

end

end GstPlayd
