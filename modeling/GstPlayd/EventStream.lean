import GstPlayd.Subscribers

/-! What a daemon publishes, and what a listener prints of it. -/

namespace GstPlayd

open ElementGraph LineFraming StepMachine StepMachine.Machine Linearization

def asksPing (nl : Newlines) (x : Text × Text) : Bool :=
  (splitMessage nl (cString x.1)).any fun s => s.1 = "PING".toList

def pingText (text : Text) : Bool := "OK Message was ".toList.isPrefixOf text

/-- What a request publishes: the reply to a PING, if it could be sent. -/
def pingAnnouncement (nl : Newlines) (m : Text) (published : Bool) : List Text :=
  match splitMessage nl (cString m) with
  | some (word, param) =>
    if word = "PING".toList ∧ published = true then ["OK Message was ".toList ++ param] else []
  | none => []

def busAnnouncement : PipelineMessage → Bool → List Text
  | .error text, true => ["ERROR: ".toList ++ text]
  | .warning text, true => ["WARNING: ".toList ++ text]
  | .info text, true => ["INFO: ".toList ++ text]
  | _, _ => []

def DaemonEvent.announcement (nl : Newlines) (d : Daemon) : DaemonEvent → List Text
  | .handle (.ok m) _ calls => if d.socket = .waitRecv then pingAnnouncement nl m calls.published else []
  | .background (.pipelineMessage message published) => busAnnouncement message published
  | _ => []

def Daemon.sent (d : Daemon) : List Text := d.world.services.pubSub.sent

section

variable {nl : Newlines} {accepts : Caps → Bool} {calls : HandlerCalls} {world world' : World}
  {p : PlaybackCtx} {d d' : Daemon} {e : DaemonEvent} {t u : Jukebox} {m r word param reply : Text}
  {L L₁ L₂ : List (Text × Text)}

theorem Handled.sent {r : Result (Text × World)} (hh : Handled calls param world p word r)
    (h : r = .ok (reply, world')) : world'.services.pubSub.sent = world.services.pubSub.sent ++
      if word = "PING".toList ∧ calls.published = true then ["OK Message was ".toList ++ param] else [] := by
  have hquiet : ∀ {word : Text}, word ≠ "PING".toList →
      world.services.pubSub.sent = world.services.pubSub.sent ++
        if word = "PING".toList ∧ calls.published = true then ["OK Message was ".toList ++ param] else [] := by
    intro word hword
    rw [if_neg fun hh => hword hh.1, List.append_nil]
  cases hh with
  | ping =>
    obtain ⟨-, rfl⟩ := Prod.mk.inj (Except.ok.inj h)
    by_cases hpub : calls.published = true
    · simp only [pubsubSendMessage, hpub, if_true, and_self]
    · simp [pubsubSendMessage, hpub]
  | pubsub =>
    obtain ⟨-, rfl⟩ := Prod.mk.inj (Except.ok.inj h)
    exact hquiet (by decide)
  | quit =>
    obtain ⟨-, rfl⟩ := Prod.mk.inj (Except.ok.inj h)
    exact hquiet (by decide)
  | _ =>
    obtain ⟨p', -, rfl⟩ := map_playback_ok h
    exact hquiet (by decide)

theorem parseMessage_sent (hp : world.playback = some p)
    (h : parseMessage nl daemonParser (cString m) calls world = .ok (reply, world')) :
    world'.services.pubSub.sent = world.services.pubSub.sent ++ pingAnnouncement nl m calls.published := by
  rcases parseMessage_cases nl (cString m) calls hp with ⟨hfail, hunknown⟩ | ⟨word, param, hs, hh⟩
  · rw [hfail] at h
    obtain ⟨-, rfl⟩ := Prod.mk.inj (Except.ok.inj h)
    have hnothing : pingAnnouncement nl m calls.published = [] := by
      cases hs : splitMessage nl (cString m) with
      | none => simp only [pingAnnouncement, hs]
      | some s =>
        have hword : s.1 ≠ "PING".toList := fun hw => hunknown s.1 s.2 hs (hw ▸ by decide)
        simp only [pingAnnouncement, hs]
        exact if_neg fun hh => hword hh.1
    rw [hnothing, List.append_nil]
  · simpa only [pingAnnouncement, hs] using hh.sent h

theorem playbackBusCallback_sent (message : PipelineMessage) (published : Bool) (services : OpServices) :
    (playbackBusCallback message published services).pubSub.sent =
      services.pubSub.sent ++ busAnnouncement message published := by
  cases message with
  | other => simp [playbackBusCallback, PipelineMessage.text, busAnnouncement]
  | _ text =>
    cases published with
    | true => rfl
    | false => simp [playbackBusCallback, PipelineMessage.text, pubsubSendMessage, busAnnouncement]

/-- What a step of the daemon publishes can be read off the event. -/
theorem steps_sent (hplay : Playing d) (hs : (allocatorMachine nl accepts).Steps d e d') :
    d'.sent = d.sent ++ e.announcement nl d := by
  obtain ⟨p, q, hp, hf⟩ := hplay
  have hdaemon : (daemonMachine nl accepts daemonParser).Steps d e d' := ⟨hs.1.1, hs.2⟩
  cases e with
  | tick =>
    have hsame : d'.sent = d.sent := by rw [Daemon.sent, (steps_tick hdaemon).2.1, Daemon.sent]
    simp [DaemonEvent.announcement, hsame]
  | handle recv send calls =>
    rcases steps_handle hdaemon with ⟨-, hworld, -, hnone⟩ | ⟨msg, data, hsock, rfl, hparse, -, -⟩
    · have hsame : d'.sent = d.sent := by rw [Daemon.sent, hworld, Daemon.sent]
      rcases hnone with hsock | ⟨err, rfl⟩
      · cases recv with
        | error err => simp [DaemonEvent.announcement, hsame]
        | ok msg => simp [DaemonEvent.announcement, hsame, hsock]
      · simp [DaemonEvent.announcement, hsame]
    · rw [DaemonEvent.announcement, if_pos hsock]
      exact parseMessage_sent hp hparse
  | background b =>
    obtain ⟨hstep, -, -⟩ := steps_background hdaemon
    cases b with
    | sigint =>
      have hworld := Except.ok.inj hstep
      simp [DaemonEvent.announcement, Daemon.sent, ← hworld, handleSigint]
    | pipelineMessage message published =>
      have hworld := Except.ok.inj hstep
      rw [Daemon.sent, ← hworld]
      exact playbackBusCallback_sent message published d.world.services
    | padAdded source pad caps =>
      cases hpad : padAdded accepts source pad caps p with
      | error k => simp [backgroundStep, hp, hpad, Except.map] at hstep
      | ok p' =>
        simp only [backgroundStep, hp, hpad, Except.map, Except.ok.injEq] at hstep
        simp [DaemonEvent.announcement, Daemon.sent, ← hstep]

theorem cString_ping (hs : splitMessage nl (cString m) = some (word, param)) :
    cString ("OK Message was ".toList ++ param) = "OK Message was ".toList ++ param := by
  apply cString_of_not_mem
  intro hm
  rcases List.mem_append.mp hm with hm | hm
  · exact absurd hm (by decide)
  · exact nul_not_mem_cString m (splitMessage_subset hs hm)

theorem serves_ping (h : (jukeboxSpec nl).serves t m r u)
    (hs : splitMessage nl (cString m) = some ("PING".toList, param)) :
    r = "OK Message was ".toList ++ param := by
  rcases h with ⟨-, -, hunknown⟩ | ⟨word, param', reply, hs', rfl, hserve⟩
  · exact absurd (by decide) (hunknown _ _ hs)
  · obtain ⟨rfl, rfl⟩ := Prod.mk.inj (Option.some.inj (hs.symm.trans hs'))
    generalize hw : "PING".toList = word at hserve
    cases hserve with
    | ping param taken => exact cString_ping hs
    | _ => exact absurd hw (by decide)

theorem pingAnnouncement_sublist (h : (jukeboxSpec nl).serves t m r u) (published : Bool) :
    (pingAnnouncement nl m published).Sublist (([(m, r)].filter (asksPing nl)).map Prod.snd) := by
  cases hs : splitMessage nl (cString m) with
  | none =>
    simp only [pingAnnouncement, hs]
    exact List.nil_sublist _
  | some s =>
    obtain ⟨word, param⟩ := s
    simp only [pingAnnouncement, hs]
    split
    · obtain ⟨rfl, -⟩ := ‹word = "PING".toList ∧ published = true›
      have hasks : asksPing nl (m, r) = true := by
        rw [asksPing, hs]
        rfl
      rw [serves_ping h hs] at hasks ⊢
      rw [List.filter_cons_of_pos hasks]
      exact List.Sublist.refl _
    · exact List.nil_sublist _

end

section

variable {κ : Type} {nl : Newlines}

/-- What an event of a session publishes. -/
def announcement (nl : Newlines) : Event κ Text Text (Except Errno Unit × HandlerCalls) DaemonEvent → List Text
  | .serve _ m answer => pingAnnouncement nl m answer.2.published
  | .drift (.background (.pipelineMessage message published)) => busAnnouncement message published
  | _ => []

def busText : Event κ Text Text (Except Errno Unit × HandlerCalls) DaemonEvent → List Text
  | .drift (.background (.pipelineMessage message published)) => busAnnouncement message published
  | _ => []

theorem pingText_ping (param : Text) : pingText ("OK Message was ".toList ++ param) = true :=
  List.isPrefixOf_iff_prefix.mpr (List.prefix_append _ _)

theorem pingText_of_mem_pingAnnouncement {m text : Text} {published : Bool}
    (h : text ∈ pingAnnouncement nl m published) : pingText text = true := by
  cases hs : splitMessage nl (cString m) with
  | none => simp [pingAnnouncement, hs] at h
  | some s =>
    simp only [pingAnnouncement, hs] at h
    split at h
    · rw [List.mem_singleton.mp h]
      exact pingText_ping _
    · cases h

theorem pingText_of_mem_busAnnouncement {message : PipelineMessage} {published : Bool} {text : Text}
    (h : text ∈ busAnnouncement message published) : pingText text = false := by
  cases published with
  | false => cases message <;> cases h
  | true =>
    cases message with
    | other => cases h
    | _ => exact List.mem_singleton.mp h ▸ rfl

theorem filter_announcement (e : Event κ Text Text (Except Errno Unit × HandlerCalls) DaemonEvent) :
    ((announcement nl e).filter fun text => !pingText text) = busText e := by
  have hbus : ∀ message published,
      ((busAnnouncement message published).filter fun text => !pingText text) =
        busAnnouncement message published := by
    intro message published
    rw [List.filter_eq_self]
    intro text ht
    rw [pingText_of_mem_busAnnouncement ht]
    rfl
  cases e with
  | serve c m answer =>
    refine List.filter_eq_nil_iff.mpr fun text (ht : text ∈ pingAnnouncement nl m answer.2.published) => ?_
    simp [pingText_of_mem_pingAnnouncement ht]
  | drift i =>
    cases i with
    | background b =>
      cases b with
      | pipelineMessage message published => exact hbus message published
      | _ => rfl
    | _ => rfl
  | _ => rfl

end

section

variable {nl : Newlines} {accepts : Caps → Bool} {boot : HandlerCalls} {world : World} {port : ℤ}
  {parser : DaemonParser} {κ : Type} [DecidableEq κ] {n n' : Net Daemon κ Text Text}
  {e : Event κ Text Text (Except Errno Unit × HandlerCalls) DaemonEvent}
  {es : List (Event κ Text Text (Except Errno Unit × HandlerCalls) DaemonEvent)}

/-- What the events have published so far, and that the PINGs were answered so. -/
structure Announces (nl : Newlines)
    (es : List (Event κ Text Text (Except Errno Unit × HandlerCalls) DaemonEvent))
    (n : Net Daemon κ Text Text) : Prop where
  playing : Playing n.server
  events : n.server.sent = es.flatMap (announcement nl)
  pings : (n.server.sent.filter pingText).Sublist (((exchanges n).filter (asksPing nl)).map Prod.snd)

theorem Announces.step (h : Announces nl es n) (hs : (sessionMachine nl accepts κ).Steps n e n') :
    Announces nl (es ++ [e]) n' := by
  have hquiet : ∀ {n' : Net Daemon κ Text Text}, n'.server = n.server → n'.served = n.served →
      announcement nl e = [] → Announces nl (es ++ [e]) n' := by
    intro n' hserver hserved hnothing
    constructor
    · exact hserver ▸ h.playing
    · rw [hserver, h.events, List.flatMap_append, List.flatMap_singleton, hnothing, List.append_nil]
    · rw [exchanges, hserver, hserved]
      exact h.pings
  cases netMove_of_steps hs with
  | send _ => exact hquiet rfl rfl rfl
  | arrive _ => exact hquiet rfl rfl rfl
  | deliver _ => exact hquiet rfl rfl rfl
  | lose _ => exact hquiet rfl rfl rfl
  | @serve c m answer r sent d _ hm hserve =>
    obtain ⟨hjukebox, hplaying⟩ := serve_jukebox h.playing hm hserve
    have hsent := steps_sent h.playing (steps_of_serve hm hserve)
    rw [DaemonEvent.announcement, if_pos hm.1] at hsent
    have hall : ((pingAnnouncement nl m answer.2.published).filter pingText) =
        pingAnnouncement nl m answer.2.published :=
      List.filter_eq_self.mpr fun text => pingText_of_mem_pingAnnouncement
    refine ⟨hplaying, ?_, ?_⟩
    · rw [hsent, h.events, List.flatMap_append, List.flatMap_singleton]
      rfl
    · have hpings := h.pings
      simp only [exchanges, List.map_append, List.filter_append] at hpings ⊢
      rw [hsent, List.filter_append, hall]
      exact hpings.append (pingAnnouncement_sublist hjukebox _)
  | @drift i d hm hdrift _ =>
    have hstep : (allocatorMachine nl accepts).Steps n.server i d := ⟨hm.2, hdrift⟩
    have hsent := steps_sent h.playing hstep
    have hbus : i.announcement nl n.server = busText (.drift i : Event κ Text Text _ _) := by
      cases i with
      | tick => rfl
      | background b => cases b <;> rfl
      | handle recv send calls =>
        cases recv with
        | error err => rfl
        | ok m =>
          have hsock : n.server.socket ≠ .waitRecv := hm.1
          rw [DaemonEvent.announcement, if_neg hsock]
          rfl
    rw [hbus] at hsent
    refine ⟨h.playing.step hstep, ?_, ?_⟩
    · rw [hsent, h.events, List.flatMap_append, List.flatMap_singleton]
      cases i with
      | background b => cases b <;> rfl
      | _ => rfl
    · have hno : (busText (.drift i : Event κ Text Text _ _)).filter pingText = [] := by
        rw [← @filter_announcement κ nl, List.filter_filter, List.filter_eq_nil_iff]
        intro text _
        simp
      rw [hsent, List.filter_append, hno, List.append_nil]
      exact h.pings

/-- What has been published is what the events of the session say, in their
order: replies to PING, each at most once, and the texts of the messages on the
bus that could be sent. -/
theorem announces_pings
    (hboot : registerPlugins parserOperations parseNew boot (serverWorld port) = .ok (parser, world))
    (h : (sessionMachine nl accepts κ).Reaches (.start (.start world)) es n) :
    n.server.sent = es.flatMap (announcement nl) ∧
    (n.server.sent.filter pingText).Sublist (((exchanges n).filter (asksPing nl)).map Prod.snd) ∧
    (n.server.sent.filter fun text => !pingText text) = es.flatMap busText := by
  obtain ⟨-, hservices, -⟩ := registerPlugins_ok hboot
  have hnone : (Daemon.start world).sent = [] := by
    show world.services.pubSub.sent = []
    rw [hservices]
    rfl
  have hstart : Announces nl ([] : List (Event κ Text Text _ _)) (.start (.start world)) := by
    refine ⟨playing_boot hboot, hnone, ?_⟩
    show (((Daemon.start world).sent).filter pingText).Sublist _
    rw [hnone]
    exact List.nil_sublist _
  have hann : Announces nl es n := h.history (P := fun es n => Announces nl es n) hstart
    fun _ _ _ _ _ hh hs => hh.step hs
  refine ⟨hann.events, hann.pings, ?_⟩
  rw [hann.events, List.filter_flatMap]
  exact congrArg (fun f => es.flatMap f) (funext filter_announcement)

theorem announces_pings_hi : ∃ es n,
    (sessionMachine .any (fun _ => true) Unit).Reaches (.start (.start exampleServer)) es n ∧
      n.server.sent = ["ERROR: gone".toList, "OK Message was hi".toList] ∧
      es.flatMap busText = ["ERROR: gone".toList] := by
  obtain ⟨world, hworld, d, hserve, hsent⟩ : ∃ world, backgroundStep (fun _ => true) exampleServer
      (.pipelineMessage (.error "gone".toList) true) = .ok world ∧
      ∃ d, serveRequest .any (Daemon.start world).tick "PING hi".toList (.ok (), exampleHandlerCalls) =
        .ok (("OK Message was hi".toList, true), d) ∧
      d.sent = ["ERROR: gone".toList, "OK Message was hi".toList] := ⟨_, rfl, _, rfl, rfl⟩
  obtain rfl := Except.ok.inj hworld
  have hping : (sessionMachine .any (fun _ => true) Unit).Reaches (.start (.start _)) _ _ :=
    reaches_first_exchange () rfl hserve fun pe hpe => by cases hpe
  have hbus : (sessionMachine .any (fun _ => true) Unit).Steps (.start (.start exampleServer))
      (.drift (.background (.pipelineMessage (.error "gone".toList) true))) (.start (.start _)) :=
    ⟨⟨⟨id, rfl, fun pe hpe => by cases hpe⟩, fun _ _ _ h => by cases h⟩, rfl⟩
  have h := reaches_cons_iff.mpr ⟨_, hbus, hping⟩
  obtain ⟨-, -, hothers⟩ := announces_pings exampleServer_boot h
  exact ⟨_, _, h, hsent, hothers.symm.trans (hsent ▸ rfl)⟩

/-- In a session the client's `ping` is true. -/
theorem clientPing_reply {r : Text} {L₁ L₂ : List (Text × Text)}
    (hboot : registerPlugins parserOperations parseNew boot (serverWorld port) = .ok (parser, world))
    (h : (sessionMachine nl accepts κ).Reaches (.start (.start world)) es n)
    (hdot : ∀ c ∈ "GstPlayDaemon".toList, nl.dot c = true)
    (hn : exchanges n = L₁ ++ (clientRequest "PING".toList "GstPlayDaemon".toList, r) :: L₂) :
    clientPing r = true := by
  have hup : ∀ c ∈ "PING".toList, c.isUpper = true := List.all_eq_true.mp (by decide)
  have hplain : cString (clientRequest "PING".toList "GstPlayDaemon".toList) =
      clientRequest "PING".toList "GstPlayDaemon".toList := rfl
  have hs : splitMessage nl (cString (clientRequest "PING".toList "GstPlayDaemon".toList)) =
      some ("PING".toList, "GstPlayDaemon".toList) := by
    rw [hplain]
    exact splitMessage_clientRequest (by decide) hup (by decide) hdot
  obtain ⟨t, t', -, hserve⟩ := (jukebox_of_sessions hboot h).split hn
  rw [serves_ping hserve hs]
  exact List.isSuffixOf_iff_suffix.mpr (List.suffix_append _ _)

end

structure Listener where
  phase : Phase
  shouldQuit : Bool
  output : Text

def Listener.start : Listener := ⟨.idle, false, []⟩

/-- The returned error is 0 in `none`. A message is printed as a line. -/
def handlePubsubMessage (recv : Except Errno Text) (l : Listener) : Option Errno × Listener :=
  match recv with
  | .error .eintr => (none, l)
  | .error ret => (some ret, l)
  | .ok msg => (none, { l with output := l.output ++ cString msg ++ ['\n'] })

inductive ListenerEvent
  | tick
  | handle (recv : Except Errno Text)
  | sigint

def listenerStep (l : Listener) : ListenerEvent → Listener
  | .tick => if l.shouldQuit then { l with phase := .stopped } else { l with phase := .draining }
  | .handle recv =>
    match handlePubsubMessage recv l with
    | (none, l) => l
    | (some _, l) => { l with phase := .idle }
  | .sigint => { l with shouldQuit := true }

/-- A daemon and one listener, with the messages on their way. -/
structure Feed where
  daemon : Daemon
  queue : List Text
  listener : Listener

def Feed.start (d : Daemon) : Feed := ⟨d, [], .start⟩

/-- `kept` is whether a message that is published goes to the listener. -/
inductive FeedEvent
  | publisher (e : DaemonEvent) (kept : Bool)
  | listener (e : ListenerEvent)

def feedStep (nl : Newlines) (accepts : Caps → Bool) (f : Feed) : FeedEvent → Result Feed
  | .publisher e kept =>
    (daemonStep nl accepts daemonParser f.daemon e).map fun d =>
      { f with
        daemon := d
        queue := f.queue ++ if kept then (d.sent.drop f.daemon.sent.length).map cString else [] }
  | .listener (.handle (.ok msg)) =>
    .ok { f with queue := f.queue.tail, listener := listenerStep f.listener (.handle (.ok msg)) }
  | .listener e => .ok { f with listener := listenerStep f.listener e }

def feedAllowed (nl : Newlines) (accepts : Caps → Bool) (f : Feed) : FeedEvent → Prop
  | .publisher e _ => (allocatorMachine nl accepts).allowed f.daemon e
  | .listener .tick => f.listener.phase = .idle
  | .listener (.handle (.ok msg)) => f.listener.phase = .draining ∧ f.queue.head? = some msg
  | .listener (.handle (.error e)) => f.listener.phase = .draining ∧ (e = .eagain → f.queue = [])
  | .listener .sigint => f.listener.phase = .idle

def feedMachine (nl : Newlines) (accepts : Caps → Bool) : Machine Feed FeedEvent Halt where
  step := feedStep nl accepts
  allowed := feedAllowed nl accepts

section

variable {nl : Newlines} {accepts : Caps → Bool} {boot : HandlerCalls} {world₀ world : World}
  {parser : DaemonParser} {f f' : Feed} {fe : FeedEvent} {es : List FeedEvent}

/-- What the listener receives in an event. -/
def FeedEvent.received : FeedEvent → List Text
  | .listener (.handle (.ok msg)) => [msg]
  | _ => []

/-- What has been received and what is on its way, against what was published. -/
structure Feed.Delivers (f : Feed) (received : List Text) : Prop where
  playing : Playing f.daemon
  order : (received ++ f.queue).Sublist (f.daemon.sent.map cString)
  printed : f.listener.output = received.flatMap fun text => text ++ ['\n']

theorem cString_cString (s : Text) : cString (cString s) = cString s :=
  cString_of_not_mem (nul_not_mem_cString s)

theorem Feed.Delivers.step {received : List Text} (h : f.Delivers received)
    (hs : (feedMachine nl accepts).Steps f fe f') : f'.Delivers (received ++ fe.received) := by
  obtain ⟨hallow, (hstep : feedStep nl accepts f fe = .ok f')⟩ := hs
  cases fe with
  | publisher e kept =>
    cases hd : daemonStep nl accepts daemonParser f.daemon e with
    | error k => simp [feedStep, hd, Except.map] at hstep
    | ok d =>
      simp only [feedStep, hd, Except.map, Except.ok.injEq] at hstep
      subst hstep
      have hsteps : (allocatorMachine nl accepts).Steps f.daemon e d := ⟨hallow, hd⟩
      have hnew := steps_sent h.playing hsteps
      simp only [FeedEvent.received, List.append_nil]
      refine ⟨h.playing.step hsteps, ?_, h.printed⟩
      simp only [hnew, List.drop_left, List.map_append, ← List.append_assoc]
      cases kept with
      | true => exact h.order.append (List.Sublist.refl _)
      | false => simpa using h.order.trans (List.sublist_append_left _ _)
  | listener e =>
    cases e with
    | tick =>
      obtain rfl := Except.ok.inj hstep
      simp only [FeedEvent.received, List.append_nil]
      refine ⟨h.playing, h.order, ?_⟩
      by_cases hq : f.listener.shouldQuit = true
      · simp only [listenerStep, hq, if_true, h.printed]
      · simp only [listenerStep, hq, h.printed]
        rfl
    | sigint =>
      obtain rfl := Except.ok.inj hstep
      simp only [FeedEvent.received, List.append_nil]
      exact ⟨h.playing, h.order, h.printed⟩
    | handle recv =>
      cases recv with
      | error err =>
        obtain rfl := Except.ok.inj hstep
        simp only [FeedEvent.received, List.append_nil]
        refine ⟨h.playing, h.order, ?_⟩
        cases err with
        | _ => exact h.printed
      | ok msg =>
        obtain rfl := Except.ok.inj hstep
        obtain ⟨rest, hqueue⟩ := List.head?_eq_some_iff.mp hallow.2
        have horder := h.order
        rw [hqueue] at horder
        have hmem : msg ∈ f.daemon.sent.map cString := horder.subset (by simp)
        obtain ⟨text, -, rfl⟩ := List.mem_map.mp hmem
        refine ⟨h.playing, ?_, ?_⟩
        · simpa [FeedEvent.received, hqueue] using horder
        · simp [FeedEvent.received, listenerStep, handlePubsubMessage, h.printed, cString_cString]

theorem lines_flatMap_line {received : List Text} (h : ∀ text ∈ received, '\n' ∉ text) :
    lines '\n' (received.flatMap fun text => text ++ ['\n']) = received.map fun text => text ++ ['\n'] := by
  induction received with
  | nil => rfl
  | cons text received ih =>
    have hhead := lines_append_sep (h text List.mem_cons_self) (received.flatMap fun text => text ++ ['\n'])
    rw [List.flatMap_cons, List.append_assoc, List.singleton_append, hhead,
      ih fun t ht => h t (List.mem_cons_of_mem text ht), List.map_cons]

/-- However the daemon and the listener take turns and whatever is lost on the
way, the listener prints what it receives, message by message, and receives
published messages only, each at most once and in the order in which they were
published. -/
theorem listener_prints_stream
    (hboot : registerPlugins parserOperations parseNew boot world₀ = .ok (parser, world))
    (h : (feedMachine nl accepts).Reaches (.start (.start world)) es f) :
    (es.flatMap FeedEvent.received ++ f.queue).Sublist (f.daemon.sent.map cString) ∧
      f.listener.output = (es.flatMap FeedEvent.received).flatMap (fun text => text ++ ['\n']) ∧
      ((∀ text ∈ f.daemon.sent, '\n' ∉ text) →
        lines '\n' f.listener.output = (es.flatMap FeedEvent.received).map fun text => text ++ ['\n']) := by
  have hstart : (Feed.start (.start world)).Delivers [] := ⟨playing_boot hboot, List.nil_sublist _, rfl⟩
  have hd : f.Delivers (es.flatMap FeedEvent.received) := by
    refine h.history (P := fun es f => f.Delivers (es.flatMap FeedEvent.received)) hstart ?_
    intro pre f e f' _ hd hs
    rw [List.flatMap_append, List.flatMap_singleton]
    exact hd.step hs
  refine ⟨hd.order, hd.printed, ?_⟩
  intro hplain
  rw [hd.printed]
  apply lines_flatMap_line
  intro text ht hm
  obtain ⟨sent, hsent, rfl⟩ := List.mem_map.mp (hd.order.subset (List.mem_append_left _ ht))
  exact hplain sent hsent ((List.takeWhile_prefix _).subset hm)

theorem listener_prints_stream_hi : ∃ es f,
    (feedMachine .any fun _ => true).Reaches (.start (.start exampleWorld)) es f ∧
      f.listener.output = "ERROR: gone\nOK Message was hi\n".toList ∧
      es.flatMap FeedEvent.received = ["ERROR: gone".toList, "OK Message was hi".toList] ∧
      (es.flatMap FeedEvent.received ++ f.queue).Sublist (f.daemon.sent.map cString) := by
  have hboot : registerPlugins parserOperations parseNew exampleHandlerCalls exampleWorld =
    .ok (daemonParser, exampleWorld) := rfl
  obtain ⟨f, h, hprint⟩ : ∃ f, (feedMachine .any fun _ => true).Reaches (.start (.start exampleWorld))
      [.publisher (.background (.pipelineMessage (.error "gone".toList) true)) true, .publisher .tick true,
        .publisher (.handle (.ok "PING hi".toList) (.ok ()) exampleHandlerCalls) true, .listener .tick,
        .listener (.handle (.ok "ERROR: gone".toList)),
        .listener (.handle (.ok "OK Message was hi".toList))] f ∧
      f.listener.output = "ERROR: gone\nOK Message was hi\n".toList := by
    have hping : ∀ d, ∀ pe ∈ (DaemonEvent.handle (.ok "PING hi".toList) (.ok ()) exampleHandlerCalls).playbackEvent
        .any d, ∀ p ∈ d.world.playback, AllocatorAnswers p pe := by
      intro d pe hpe
      by_cases hsock : d.socket = .waitRecv
      · rw [DaemonEvent.playbackEvent, if_pos hsock] at hpe
        cases hpe
      · rw [DaemonEvent.playbackEvent, if_neg hsock] at hpe
        cases hpe
    exact ⟨_, .cons ⟨⟨rfl, by simp [DaemonEvent.playbackEvent]⟩, rfl⟩
      (.cons ⟨⟨rfl, by simp [DaemonEvent.playbackEvent]⟩, rfl⟩ (.cons ⟨⟨rfl, hping _⟩, rfl⟩
      (.cons ⟨rfl, rfl⟩ (.cons ⟨⟨rfl, rfl⟩, rfl⟩ (.cons ⟨⟨rfl, rfl⟩, rfl⟩ (.nil _)))))), rfl⟩
  exact ⟨_, f, h, hprint, rfl, (listener_prints_stream hboot h).1⟩

end

end GstPlayd
