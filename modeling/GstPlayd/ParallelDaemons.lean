import GstPlayd.StepMachine
import GstPlayd.TextFormats
import Mathlib.Data.Set.Insert
import Mathlib.Logic.Function.Basic

/-! Several daemons in server mode on one host. Each binds two addresses, one
after the other, and a failure of the second does not end it. -/

namespace GstPlayd

open StepMachine

inductive SocketType
  | rep
  | pub
  deriving DecidableEq

/-- How far `main` has come: plugins are registered between the two binds. In
the main loop `zmqSocket` says whether the request socket is there. -/
inductive ServerPhase
  | down
  | registering
  | mainLoop (zmqSocket : Bool)
  deriving DecidableEq

/-- The sockets bound to the addresses of a host, and its daemons by port. -/
structure Host where
  bound : Text → Option (ℤ × SocketType)
  phase : ℤ → ServerPhase

def Host.boot : Host := ⟨fun _ => none, fun _ => .down⟩

def Host.setPhase (host : Host) (port : ℤ) (phase : ServerPhase) : Host :=
  { host with phase := Function.update host.phase port phase }

def Host.bindSocket (host : Host) (port : ℤ) (type : SocketType) (address : Text) : Host :=
  { host with bound := Function.update host.bound address (some (port, type)) }

@[simp]
theorem bindSocket_phase (host : Host) (port : ℤ) (type : SocketType) (address : Text) :
    (host.bindSocket port type address).phase = host.phase := rfl

@[simp]
theorem bindSocket_self (host : Host) (port : ℤ) (type : SocketType) (address : Text) :
    (host.bindSocket port type address).bound address = some (port, type) := Function.update_self _ _ _

theorem bindSocket_of_ne {address address' : Text} (h : address' ≠ address) (host : Host) (port : ℤ)
    (type : SocketType) : (host.bindSocket port type address).bound address' = host.bound address' :=
  Function.update_of_ne h _ _

@[simp]
theorem setPhase_bound (host : Host) (port : ℤ) (phase : ServerPhase) :
    (host.setPhase port phase).bound = host.bound := rfl

@[simp]
theorem setPhase_self (host : Host) (port : ℤ) (phase : ServerPhase) :
    (host.setPhase port phase).phase port = phase := Function.update_self _ _ _

theorem setPhase_of_ne {port port' : ℤ} (h : port' ≠ port) (host : Host) (phase : ServerPhase) :
    (host.setPhase port phase).phase port' = host.phase port' := Function.update_of_ne h _ _

def Host.release (host : Host) (port : ℤ) : Host :=
  { host with bound := fun address => (host.bound address).filter fun owner => owner.1 ≠ port }

def localhost : Text := "127.0.0.1".toList

def tcpAddress (address : Text) (n : ℤ) : Text := "tcp://".toList ++ address ++ ':' :: fmtSigned n

def zeromqAddressFromPort (address : Text) (port : ℤ) : Text := tcpAddress address (port + 10000)

def pubsubAddressFromPort (address : Text) (port : ℤ) : Text := tcpAddress address (port + 10001)

def addressOf (port : ℤ) : SocketType → Text
  | .rep => zeromqAddressFromPort localhost port
  | .pub => pubsubAddressFromPort localhost port

variable (bindable : Text → Bool) (ports : Set ℤ)

def zmqBind (host : Host) (port : ℤ) (type : SocketType) (address : Text) : Option Host :=
  if bindable address ∧ host.bound address = none then some (host.bindSocket port type address) else none

def pubsubNew (host : Host) (icecastPort : ℤ) : Option Host :=
  zmqBind bindable host icecastPort .pub (pubsubAddressFromPort localhost icecastPort)

def createServerSocket (host : Host) (icecastPort : ℤ) : Option Host :=
  zmqBind bindable host icecastPort .rep (zeromqAddressFromPort localhost icecastPort)

inductive HostEvent
  | launch (port : ℤ)
  | serve (port : ℤ)
  | exit (port : ℤ)

/-- Without a PUB socket `main` goes to its end. Without a REP socket it goes on
to the main loop. -/
def hostStep (host : Host) : HostEvent → Host
  | .launch port =>
    match pubsubNew bindable host port with
    | some host => host.setPhase port .registering
    | none => host
  | .serve port =>
    match createServerSocket bindable host port with
    | some host => host.setPhase port (.mainLoop true)
    | none => host.setPhase port (.mainLoop false)
  | .exit port => (host.release port).setPhase port .down

/-- One daemon runs for each port of the set. -/
def HostEvent.Allowed (host : Host) : HostEvent → Prop
  | .launch port => port ∈ ports ∧ host.phase port = .down
  | .serve port => host.phase port = .registering
  | .exit port => host.phase port ≠ .down

def hostMachine : Machine Host HostEvent Empty where
  step host e := .ok (hostStep bindable host e)
  allowed := HostEvent.Allowed ports

def ServerPhase.Holds : ServerPhase → SocketType → Prop
  | .down, _ => False
  | .registering, type => type = .pub
  | .mainLoop zmqSocket, type => type = .pub ∨ zmqSocket = true

/-- Every address is bound by the socket it is meant for, and every open socket
is bound to its address. -/
def Host.Consistent (host : Host) : Prop :=
  ∀ address port type, host.bound address = some (port, type) ↔
    address = addressOf port type ∧ (host.phase port).Holds type

variable {bindable ports} {host host' : Host} {es : List HostEvent} {p q : ℤ} {k : SocketType}

theorem tcpAddress_injective (address : Text) : Function.Injective (tcpAddress address) := by
  intro m n h
  exact fmtSigned_injective (List.cons.inj (List.append_cancel_left h)).2

theorem addressOf_eq_iff {k' : SocketType} : addressOf p k = addressOf q k' ↔
    (p = q ∧ k = k') ∨ (p = q + 1 ∧ k = .rep ∧ k' = .pub) ∨ (q = p + 1 ∧ k = .pub ∧ k' = .rep) := by
  have hport : ∀ m n : ℤ, tcpAddress localhost m = tcpAddress localhost n ↔ m = n :=
    fun _ _ => (tcpAddress_injective localhost).eq_iff
  cases k with
  | rep =>
    cases k' with
    | rep => simp [addressOf, zeromqAddressFromPort, hport]
    | pub =>
      simp [addressOf, zeromqAddressFromPort, pubsubAddressFromPort, hport]
      omega
  | pub =>
    cases k' with
    | rep =>
      simp [addressOf, zeromqAddressFromPort, pubsubAddressFromPort, hport]
      omega
    | pub => simp [addressOf, pubsubAddressFromPort, hport]

theorem zmqBind_cases (bindable : Text → Bool) (host : Host) (p : ℤ) (k : SocketType) (address : Text) :
    (bindable address = true ∧ host.bound address = none ∧ zmqBind bindable host p k address =
      some (host.bindSocket p k address)) ∨
    ((bindable address = true → host.bound address ≠ none) ∧ zmqBind bindable host p k address = none) := by
  by_cases h : bindable address = true ∧ host.bound address = none
  · exact .inl ⟨h.1, h.2, if_pos h⟩
  · exact .inr ⟨fun hb hn => h ⟨hb, hn⟩, if_neg h⟩

theorem consistent_boot : Host.boot.Consistent := by
  intro address port type
  simp [Host.boot, ServerPhase.Holds]

theorem consistent_bind (h : host.Consistent) (hfree : host.bound (addressOf p k) = none) {phase : ServerPhase}
    (hphase : ∀ k', phase.Holds k' ↔ k' = k ∨ (host.phase p).Holds k') :
    ((host.bindSocket p k (addressOf p k)).setPhase p phase).Consistent := by
  have hother : ∀ {q k'}, addressOf p k = addressOf q k' → ¬ (host.phase q).Holds k' := by
    intro q k' he hh
    have hbound := (h (addressOf p k) q k').mpr ⟨he, hh⟩
    rw [hfree] at hbound
    cases hbound
  intro address q k'
  rw [setPhase_bound]
  by_cases hq : q = p
  · subst hq
    rw [setPhase_self, hphase]
    by_cases ha : address = addressOf q k
    · subst ha
      rw [bindSocket_self]
      constructor
      · intro he
        obtain rfl := (Prod.mk.inj (Option.some.inj he)).2
        exact ⟨rfl, .inl rfl⟩
      · intro hh
        rcases hh.2 with rfl | hold
        · rfl
        · exact absurd hold (hother hh.1)
    · rw [bindSocket_of_ne ha, h]
      refine and_congr_right fun he => ?_
      rw [or_iff_right]
      rintro rfl
      exact ha he
  · rw [setPhase_of_ne hq, bindSocket_phase]
    by_cases ha : address = addressOf p k
    · subst ha
      rw [bindSocket_self]
      constructor
      · intro he
        exact absurd (Prod.mk.inj (Option.some.inj he)).1.symm hq
      · intro hh
        exact absurd hh.2 (hother hh.1)
    · rw [bindSocket_of_ne ha, h]

theorem consistent_release (h : host.Consistent) (p : ℤ) : ((host.release p).setPhase p .down).Consistent := by
  intro address q k
  have hbound : (host.release p).bound address = some (q, k) ↔ host.bound address = some (q, k) ∧ q ≠ p := by
    rw [Host.release, Option.filter_eq_some_iff]
    simp
  rw [setPhase_bound, hbound]
  by_cases hq : q = p
  · subst hq
    simp [ServerPhase.Holds]
  · rw [and_iff_left hq, h, setPhase_of_ne hq]
    rfl

theorem hostStep_launch (bindable : Text → Bool) (host : Host) (p : ℤ) :
    (bindable (addressOf p .pub) = true ∧ host.bound (addressOf p .pub) = none ∧
      hostStep bindable host (.launch p) =
        (host.bindSocket p .pub (addressOf p .pub)).setPhase p .registering) ∨
    ((bindable (addressOf p .pub) = true → host.bound (addressOf p .pub) ≠ none) ∧
      hostStep bindable host (.launch p) = host) := by
  rcases zmqBind_cases bindable host p .pub (addressOf p .pub) with ⟨hb, hfree, hbind⟩ | ⟨hbusy, hbind⟩
  · have hnew : pubsubNew bindable host p = _ := hbind
    exact .inl ⟨hb, hfree, by simp only [hostStep, hnew]⟩
  · have hnew : pubsubNew bindable host p = none := hbind
    exact .inr ⟨hbusy, by simp only [hostStep, hnew]⟩

theorem hostStep_launch_of_free (hb : bindable (addressOf p .pub) = true)
    (hfree : host.bound (addressOf p .pub) = none) : hostStep bindable host (.launch p) =
      (host.bindSocket p .pub (addressOf p .pub)).setPhase p .registering := by
  rcases hostStep_launch bindable host p with ⟨-, -, hnew⟩ | ⟨hbusy, -⟩
  · exact hnew
  · exact absurd hfree (hbusy hb)

theorem hostStep_serve (bindable : Text → Bool) (host : Host) (p : ℤ) :
    (bindable (addressOf p .rep) = true ∧ host.bound (addressOf p .rep) = none ∧
      hostStep bindable host (.serve p) =
        (host.bindSocket p .rep (addressOf p .rep)).setPhase p (.mainLoop true)) ∨
    ((bindable (addressOf p .rep) = true → host.bound (addressOf p .rep) ≠ none) ∧
      hostStep bindable host (.serve p) = host.setPhase p (.mainLoop false)) := by
  rcases zmqBind_cases bindable host p .rep (addressOf p .rep) with ⟨hb, hfree, hbind⟩ | ⟨hbusy, hbind⟩
  · have hnew : createServerSocket bindable host p = _ := hbind
    exact .inl ⟨hb, hfree, by simp only [hostStep, hnew]⟩
  · have hnew : createServerSocket bindable host p = none := hbind
    exact .inr ⟨hbusy, by simp only [hostStep, hnew]⟩

theorem consistent_setPhase (h : host.Consistent) {phase : ServerPhase}
    (hphase : ∀ k, phase.Holds k ↔ (host.phase p).Holds k) : (host.setPhase p phase).Consistent := by
  intro address q k
  rw [setPhase_bound, h]
  by_cases hq : q = p
  · subst hq
    rw [setPhase_self, hphase]
  · rw [setPhase_of_ne hq]

theorem consistent_step {e : HostEvent} (h : host.Consistent)
    (hs : (hostMachine bindable ports).Steps host e host') : host'.Consistent := by
  obtain rfl : hostStep bindable host e = host' := Except.ok.inj hs.2
  cases e with
  | launch p =>
    have hdown : host.phase p = .down := hs.1.2
    rcases hostStep_launch bindable host p with ⟨-, hfree, hnew⟩ | ⟨-, hnew⟩
    · rw [hnew]
      exact consistent_bind h hfree fun k => by simp [hdown, ServerPhase.Holds]
    · rwa [hnew]
  | serve p =>
    have hreg : host.phase p = .registering := hs.1
    rcases hostStep_serve bindable host p with ⟨-, hfree, hnew⟩ | ⟨-, hnew⟩
    · rw [hnew]
      exact consistent_bind h hfree fun k => by cases k <;> simp [hreg, ServerPhase.Holds]
    · rw [hnew]
      exact consistent_setPhase h fun k => by simp [hreg, ServerPhase.Holds]
  | exit p => exact consistent_release h p

theorem consistent_of_reaches (hr : (hostMachine bindable ports).Reaches Host.boot es host) : host.Consistent :=
  hr.invariant consistent_boot fun _ _ _ h hs => consistent_step h hs

theorem ne_down_of_holds {phase : ServerPhase} (h : phase.Holds k) : phase ≠ .down := by
  rintro rfl
  exact h

/-- No two request ports are neighbours, and none is zero. -/
def PortsApart (ports : Set ℤ) : Prop := ∀ p ∈ ports, p + 1 ∉ ports ∧ p ≠ -10000

structure Host.Serving (ports : Set ℤ) (host : Host) : Prop where
  consistent : host.Consistent
  member : ∀ p, host.phase p ≠ .down → p ∈ ports
  connected : ∀ p, host.phase p ≠ .mainLoop false

/-- What the host lets be bound: every TCP port on the local address. -/
def BindsPorts (bindable : Text → Bool) : Prop :=
  ∀ n, bindable (tcpAddress localhost n) = true ↔ 1 ≤ n ∧ n ≤ 65535

def PortsInRange (ports : Set ℤ) : Prop := ∀ p ∈ ports, 1 ≤ p + 10001 ∧ p + 10001 ≤ 65535

theorem bindable_addressOf (hbind : BindsPorts bindable) (hrange : PortsInRange ports) (hp : p ∈ ports)
    (hzero : p ≠ -10000) (k : SocketType) : bindable (addressOf p k) = true := by
  have hport := hrange p hp
  cases k with
  | rep => exact (hbind (p + 10000)).mpr (by omega)
  | pub => exact (hbind (p + 10001)).mpr hport

theorem bound_eq_none (h : host.Serving ports) (hapart : PortsApart ports) (hp : p ∈ ports)
    (hk : ¬ (host.phase p).Holds k) : host.bound (addressOf p k) = none := by
  cases hb : host.bound (addressOf p k) with
  | none => rfl
  | some owner =>
    obtain ⟨q, k'⟩ := owner
    obtain ⟨he, hh⟩ := (h.consistent _ _ _).mp hb
    have hq := h.member q (ne_down_of_holds hh)
    rcases addressOf_eq_iff.mp he with ⟨rfl, rfl⟩ | ⟨rfl, -, -⟩ | ⟨rfl, -, -⟩
    · exact absurd hh hk
    · exact absurd hp (hapart q hq).1
    · exact absurd hq (hapart p hp).1

theorem launch_registers (hbind : BindsPorts bindable) (hrange : PortsInRange ports)
    (hapart : PortsApart ports) (h : host.Serving ports) (hp : p ∈ ports) (hdown : host.phase p = .down) :
    hostStep bindable host (.launch p) =
      (host.bindSocket p .pub (addressOf p .pub)).setPhase p .registering := by
  refine hostStep_launch_of_free (bindable_addressOf hbind hrange hp (hapart p hp).2 .pub) ?_
  exact bound_eq_none h hapart hp (by simp [hdown, ServerPhase.Holds])

theorem serve_connects (hbind : BindsPorts bindable) (hrange : PortsInRange ports)
    (hapart : PortsApart ports) (h : host.Serving ports) (hreg : host.phase p = .registering) :
    hostStep bindable host (.serve p) =
      (host.bindSocket p .rep (addressOf p .rep)).setPhase p (.mainLoop true) := by
  have hp := h.member p (by simp [hreg])
  rcases hostStep_serve bindable host p with ⟨-, -, hnew⟩ | ⟨hbusy, -⟩
  · exact hnew
  · have hfree := bound_eq_none h hapart hp (k := .rep) (by simp [hreg, ServerPhase.Holds])
    exact absurd hfree (hbusy (bindable_addressOf hbind hrange hp (hapart p hp).2 .rep))

theorem serving_boot (ports : Set ℤ) : Host.boot.Serving ports := by
  refine ⟨consistent_boot, ?_, ?_⟩
  · intro p hp
    exact absurd rfl hp
  · intro p hp
    cases hp

theorem serving_step {e : HostEvent} (hbind : BindsPorts bindable) (hrange : PortsInRange ports)
    (hapart : PortsApart ports) (h : host.Serving ports)
    (hs : (hostMachine bindable ports).Steps host e host') : host'.Serving ports := by
  have hphases : ∀ {host'' : Host} {p phase}, host'.phase = (host''.setPhase p phase).phase →
      host''.phase = host.phase → (phase ≠ .down → p ∈ ports) → phase ≠ .mainLoop false →
      host'.Serving ports := by
    intro host'' p phase hnew hold hp hphase
    refine ⟨consistent_step h.consistent hs, ?_, ?_⟩
    · intro q hq
      rw [hnew] at hq
      by_cases hqp : q = p
      · subst hqp
        rw [setPhase_self] at hq
        exact hp hq
      · rw [setPhase_of_ne hqp, hold] at hq
        exact h.member q hq
    · intro q
      rw [hnew]
      by_cases hqp : q = p
      · subst hqp
        rwa [setPhase_self]
      · rw [setPhase_of_ne hqp, hold]
        exact h.connected q
  obtain rfl : hostStep bindable host e = host' := Except.ok.inj hs.2
  cases e with
  | launch p =>
    have hallowed : p ∈ ports ∧ host.phase p = .down := hs.1
    have hnew := launch_registers hbind hrange hapart h hallowed.1 hallowed.2
    exact hphases (congrArg Host.phase hnew) rfl (fun _ => hallowed.1) (by simp)
  | serve p =>
    have hreg : host.phase p = .registering := hs.1
    have hnew := serve_connects hbind hrange hapart h hreg
    exact hphases (congrArg Host.phase hnew) rfl (fun _ => h.member p (by simp [hreg])) (by simp)
  | exit p => exact hphases rfl rfl (fun hne => absurd rfl hne) (by simp)

theorem serving_of_reaches (hbind : BindsPorts bindable) (hrange : PortsInRange ports)
    (hapart : PortsApart ports) (hr : (hostMachine bindable ports).Reaches Host.boot es host) : host.Serving ports :=
  hr.invariant (serving_boot ports) fun _ _ _ h hs => serving_step hbind hrange hapart h hs

/-- Any daemons with these ports can run beside each other, however their steps
are interleaved. -/
structure RunsInParallel (bindable : Text → Bool) (ports : Set ℤ) : Prop where
  disjoint : ∀ p ∈ ports, ∀ q ∈ ports, p ≠ q → ∀ k k', addressOf p k ≠ addressOf q k'
  launches : ∀ es host, (hostMachine bindable ports).Reaches Host.boot es host →
    ∀ p ∈ ports, host.phase p = .down → (hostStep bindable host (.launch p)).phase p = .registering
  holds : ∀ es host, (hostMachine bindable ports).Reaches Host.boot es host →
    ∀ p zmqSocket, host.phase p = .mainLoop zmqSocket → ∀ k, host.bound (addressOf p k) = some (p, k)
  answered : ∀ es host, (hostMachine bindable ports).Reaches Host.boot es host →
    ∀ p ∈ ports, ∀ q k, host.bound (zeromqAddressFromPort localhost p) = some (q, k) → q = p ∧ k = .rep

theorem runsInParallel_of_apart (hbind : BindsPorts bindable) (hrange : PortsInRange ports)
    (hapart : PortsApart ports) : RunsInParallel bindable ports := by
  have hdisjoint : ∀ p ∈ ports, ∀ q ∈ ports, p ≠ q → ∀ k k', addressOf p k ≠ addressOf q k' := by
    intro p hp q hq hne k k' he
    rcases addressOf_eq_iff.mp he with ⟨rfl, -⟩ | ⟨rfl, -, -⟩ | ⟨rfl, -, -⟩
    · exact hne rfl
    · exact (hapart q hq).1 hp
    · exact (hapart p hp).1 hq
  refine ⟨hdisjoint, ?_, ?_, ?_⟩
  · intro es host hr p hp hdown
    have h := serving_of_reaches hbind hrange hapart hr
    rw [launch_registers hbind hrange hapart h hp hdown, setPhase_self]
  · intro es host hr p zmqSocket hphase k
    have h := serving_of_reaches hbind hrange hapart hr
    refine (h.consistent _ _ _).mpr ⟨rfl, ?_⟩
    rw [hphase]
    cases zmqSocket with
    | true => exact .inr rfl
    | false => exact absurd hphase (h.connected p)
  · intro es host hr p hp q k hb
    have h := serving_of_reaches hbind hrange hapart hr
    obtain ⟨he, hh⟩ := (h.consistent _ _ _).mp hb
    have hq := h.member q (ne_down_of_holds hh)
    by_cases hqp : q = p
    · subst hqp
      have hown : addressOf q .rep = addressOf q k := he
      rcases addressOf_eq_iff.mp hown with ⟨-, rfl⟩ | ⟨hlt, -⟩ | ⟨hlt, -⟩
      · exact ⟨rfl, rfl⟩
      · omega
      · omega
    · exact absurd he (hdisjoint p hp q hq (Ne.symm hqp) .rep k)

/-- The events of a daemon have the address at which the next one is asked. If
they came first, the next one enters its main loop and cannot be asked. -/
theorem serve_beside_neighbour (bindable : Text → Bool) (h : host.Consistent) (hp : (host.phase p).Holds .pub) :
    host.bound (addressOf (p + 1) .rep) = some (p, .pub) ∧
      hostStep bindable host (.serve (p + 1)) = host.setPhase (p + 1) (.mainLoop false) := by
  have hshared : addressOf (p + 1) .rep = addressOf p .pub := addressOf_eq_iff.mpr (.inr (.inl ⟨rfl, rfl, rfl⟩))
  have hbound := (h _ _ _).mpr ⟨hshared, hp⟩
  refine ⟨hbound, ?_⟩
  rcases hostStep_serve bindable host (p + 1) with ⟨-, hfree, -⟩ | ⟨-, hnew⟩
  · rw [hbound] at hfree
    cases hfree
  · exact hnew

theorem launch_beside_neighbour (bindable : Text → Bool) (h : host.Consistent)
    (hp : (host.phase (p + 1)).Holds .rep) : hostStep bindable host (.launch p) = host := by
  have hshared : addressOf p .pub = addressOf (p + 1) .rep := addressOf_eq_iff.mpr (.inr (.inr ⟨rfl, rfl, rfl⟩))
  have hbound := (h _ _ _).mpr ⟨hshared, hp⟩
  rcases hostStep_launch bindable host p with ⟨-, hfree, -⟩ | ⟨-, hnew⟩
  · rw [hbound] at hfree
    cases hfree
  · exact hnew

theorem exists_unreachable_daemon (hbind : BindsPorts bindable) (hrange : PortsInRange ports) (hp : p ∈ ports)
    (hp' : p + 1 ∈ ports) : ∃ es host, (hostMachine bindable ports).Reaches Host.boot es host ∧
      host.phase (p + 1) = .mainLoop false ∧
      host.bound (zeromqAddressFromPort localhost (p + 1)) = some (p, .pub) := by
  have hpub : ∀ {q}, q ∈ ports → bindable (addressOf q .pub) = true := fun h => (hbind _).mpr (hrange _ h)
  have hne : p + 1 ≠ p := by omega
  have hother : addressOf (p + 1) .pub ≠ addressOf p .pub := by
    intro he
    rcases addressOf_eq_iff.mp he with ⟨hpp, -⟩ | ⟨-, hrep, -⟩ | ⟨-, -, hrep⟩
    · exact hne hpp
    · cases hrep
    · cases hrep
  let host₁ := (Host.boot.bindSocket p .pub (addressOf p .pub)).setPhase p .registering
  let host₂ := (host₁.bindSocket (p + 1) .pub (addressOf (p + 1) .pub)).setPhase (p + 1) .registering
  have hfirst : (hostMachine bindable ports).Steps Host.boot (.launch p) host₁ :=
    ⟨⟨hp, rfl⟩, congrArg Except.ok (hostStep_launch_of_free (hpub hp) rfl)⟩
  have hsecond : (hostMachine bindable ports).Steps host₁ (.launch (p + 1)) host₂ := by
    refine ⟨⟨hp', setPhase_of_ne hne _ _⟩, congrArg Except.ok (hostStep_launch_of_free (hpub hp') ?_)⟩
    exact bindSocket_of_ne hother _ _ _
  have hr := Machine.Reaches.cons hfirst (.cons hsecond (.nil _))
  have hphase : host₂.phase p = .registering := by
    rw [setPhase_of_ne (Ne.symm hne), bindSocket_phase, setPhase_self]
  have hholds : (host₂.phase p).Holds .pub := by
    rw [hphase]
    rfl
  obtain ⟨hbound, hserve⟩ := serve_beside_neighbour bindable (consistent_of_reaches hr) hholds
  have hthird : (hostMachine bindable ports).Steps host₂ (.serve (p + 1))
      (host₂.setPhase (p + 1) (.mainLoop false)) :=
    ⟨setPhase_self _ _ _, congrArg Except.ok hserve⟩
  exact ⟨_, _, .cons hfirst (.cons hsecond (.cons hthird (.nil _))), setPhase_self _ _ _, hbound⟩

theorem apart_of_runsInParallel (hbind : BindsPorts bindable) (hrange : PortsInRange ports)
    (h : RunsInParallel bindable ports) : PortsApart ports := by
  intro p hp
  constructor
  · intro hp'
    obtain ⟨es, host, hr, -, hbound⟩ := exists_unreachable_daemon hbind hrange hp hp'
    have hq := (h.answered es host hr (p + 1) hp' p .pub hbound).1
    omega
  · rintro rfl
    -- the request port is 0, which cannot be bound
    have hport : bindable (addressOf (-10000) .rep) ≠ true := fun hb => by
      have hone := ((hbind (-10000 + 10000)).mp hb).1
      omega
    have hboot := Machine.Reaches.nil (M := hostMachine bindable ports) Host.boot
    have hreg := h.launches _ _ hboot (-10000) hp rfl
    have hfirst : (hostMachine bindable ports).Steps Host.boot (.launch (-10000))
        (hostStep bindable Host.boot (.launch (-10000))) := ⟨⟨hp, rfl⟩, rfl⟩
    have hsecond : (hostMachine bindable ports).Steps _ (.serve (-10000))
        (hostStep bindable (hostStep bindable Host.boot (.launch (-10000))) (.serve (-10000))) := ⟨hreg, rfl⟩
    have hr := Machine.Reaches.cons hfirst (.cons hsecond (.nil _))
    rcases hostStep_serve bindable (hostStep bindable Host.boot (.launch (-10000))) (-10000) with
      ⟨hb, -, -⟩ | ⟨-, hnew⟩
    · exact hport hb
    · rw [hnew] at hr
      have hbound := h.holds _ _ hr (-10000) false (setPhase_self _ _ _) .rep
      have hholds := ((consistent_of_reaches hr _ _ _).mp hbound).2
      rw [setPhase_self] at hholds
      rcases hholds with hrep | hfalse
      · cases hrep
      · cases hfalse

/-- Daemons run in parallel exactly if no two of their ports are neighbours:
the events of one would need the address of the requests of the next. -/
theorem runsInParallel_iff (hbind : BindsPorts bindable) (hrange : PortsInRange ports) :
    RunsInParallel bindable ports ↔ PortsApart ports := by
  constructor
  · intro h
    exact apart_of_runsInParallel hbind hrange h
  · intro h
    exact runsInParallel_of_apart hbind hrange h

def anyPort (address : Text) : Bool := (List.range' 1 65535).any fun n => address = tcpAddress localhost n

theorem anyPort_binds : BindsPorts anyPort := by
  intro n
  rw [anyPort, List.any_eq_true]
  constructor
  · intro hh
    obtain ⟨m, hm, he⟩ := hh
    obtain rfl : n = m := tcpAddress_injective localhost (of_decide_eq_true he)
    have hrange := List.mem_range'_1.mp hm
    omega
  · intro h
    refine ⟨n.toNat, List.mem_range'_1.mpr (by omega), decide_eq_true ?_⟩
    rw [Int.toNat_of_nonneg (by omega)]

theorem runsInParallel_two : RunsInParallel anyPort {8000, 8010} := by
  refine (runsInParallel_iff anyPort_binds ?_).mpr ?_
  · intro p hp
    rcases hp with rfl | rfl
    · decide
    · decide
  · intro p hp
    rcases hp with rfl | rfl
    · simp
    · simp

/-- Of the daemons for 8000 and 8001 the second runs without its requests: they
go to the events of the first. -/
theorem not_runsInParallel_neighbours : PortsInRange {8000, 8001} ∧
    (∃ es host, (hostMachine anyPort {8000, 8001}).Reaches Host.boot es host ∧
      host.phase 8001 = .mainLoop false ∧
      host.bound (zeromqAddressFromPort localhost 8001) = some (8000, .pub)) ∧
    ¬ RunsInParallel anyPort {8000, 8001} := by
  have hrange : PortsInRange {8000, 8001} := by
    intro p hp
    rcases hp with rfl | rfl
    · decide
    · decide
  have hclash := exists_unreachable_daemon (p := 8000) anyPort_binds hrange (by simp) (by simp)
  refine ⟨hrange, hclash, fun h => ?_⟩
  exact (apart_of_runsInParallel anyPort_binds hrange h 8000 (by simp)).1 (by simp)

end GstPlayd
