import GstPlayd.StepMachine
import Mathlib.Data.List.Basic
import Mathlib.Logic.Function.Basic

/-! Clients that send requests to one server and wait for its replies. However
the messages travel, the clients see the server work alone, on one request
after the other, in an order that respects real time. -/

namespace Linearization

open StepMachine StepMachine.Machine

/-- What a server does with a request and on its own, as a relation. -/
structure Spec (σ ρ α : Type*) where
  serves : σ → ρ → α → σ → Prop
  drifts : σ → σ → Prop

namespace Spec

variable {σ τ ρ α : Type*} {P : Spec σ ρ α} {Q : Spec τ ρ α} {s t u : σ} {m : ρ} {r : α}
  {L L₁ L₂ : List (ρ × α)}

inductive Legal (P : Spec σ ρ α) (s : σ) : List (ρ × α) → σ → Prop
  | nil : Legal P s [] s
  | drift {L : List (ρ × α)} {t u : σ} (h : Legal P s L t) (hd : P.drifts t u) : Legal P s L u
  | serve {L : List (ρ × α)} {t u : σ} {m : ρ} {r : α} (h : Legal P s L t) (hs : P.serves t m r u) :
      Legal P s (L ++ [(m, r)]) u

theorem Legal.history {I : List (ρ × α) → σ → Prop} (h : P.Legal s L t) (h0 : I [] s)
    (hdrift : ∀ L t u, I L t → P.drifts t u → I L u)
    (hserve : ∀ L t m r u, I L t → P.serves t m r u → I (L ++ [(m, r)]) u) : I L t := by
  induction h with
  | nil => exact h0
  | drift _ hd ih => exact hdrift _ _ _ ih hd
  | serve _ hs ih => exact hserve _ _ _ _ _ ih hs

/-- Requests that leave the server as it was can be left out. -/
theorem Legal.filter {keep : ρ × α → Bool} (h : P.Legal s L t)
    (hskip : ∀ t m r u, P.serves t m r u → keep (m, r) = false → u = t) : P.Legal s (L.filter keep) t := by
  induction h with
  | nil => exact .nil
  | drift _ hd ih => exact ih.drift hd
  | @serve L t u m r _ hs ih =>
    rw [List.filter_append]
    cases hk : keep (m, r) with
    | true =>
      rw [List.filter_cons_of_pos hk]
      exact ih.serve hs
    | false =>
      rw [List.filter_cons_of_neg (by simp [hk]), hskip t m r u hs hk, List.filter_nil, List.append_nil]
      exact ih

theorem Legal.split (h : P.Legal s L u) (hL : L = L₁ ++ (m, r) :: L₂) :
    ∃ t t', P.Legal s L₁ t ∧ P.serves t m r t' := by
  induction h generalizing L₂ with
  | nil => exact absurd hL (by simp)
  | drift _ _ ih => exact ih hL
  | @serve L t u m' r' h hs ih =>
    cases L₂ using List.reverseRecOn with
    | nil =>
      obtain ⟨rfl, hlast⟩ := List.append_inj' hL rfl
      obtain ⟨rfl, rfl⟩ := Prod.mk.inj (List.cons.inj hlast).1
      exact ⟨t, u, h, hs⟩
    | append_singleton L₂ _ =>
      rw [← List.cons_append, ← List.append_assoc] at hL
      exact ih (List.append_inj' hL rfl).1

theorem Legal.simulate {R : σ → τ → Prop} (h : P.Legal s L t)
    (hdrift : ∀ t u a, R t a → P.drifts t u → ∃ b, (Q.drifts a b ∨ a = b) ∧ R u b)
    (hserve : ∀ t m r u a, R t a → P.serves t m r u → ∃ b, Q.serves a m r b ∧ R u b) {a : τ}
    (ha : R s a) : ∃ b, Q.Legal a L b ∧ R t b := by
  induction h with
  | nil => exact ⟨a, .nil, ha⟩
  | drift _ hd ih =>
    obtain ⟨b, hb, hR⟩ := ih
    obtain ⟨c, hc, hR'⟩ := hdrift _ _ b hR hd
    rcases hc with hc | rfl
    · exact ⟨c, hb.drift hc, hR'⟩
    · exact ⟨b, hb, hR'⟩
  | serve _ hs ih =>
    obtain ⟨b, hb, hR⟩ := ih
    obtain ⟨c, hc, hR'⟩ := hserve _ _ _ _ b hR hs
    exact ⟨c, hb.serve hc, hR'⟩

end Spec

/-- `serve` also says whether the reply could be sent. A step of the server on
its own that `idles` has found no request. -/
structure Server (σ ρ α ε ι ψ : Type*) where
  serve : σ → ρ → ε → Except ψ ((α × Bool) × σ)
  drift : σ → ι → Except ψ σ
  mayServe : σ → ρ → ε → Prop
  mayDrift : σ → ι → Prop
  idles : ι → Prop

inductive Phase (ρ α : Type*)
  | idle
  | asked (m : ρ)
  | queued (m : ρ)
  | answered (r : α)
  | lost

structure Op (κ ρ α : Type*) where
  client : κ
  request : ρ
  reply : α

/-- `served` is in the order in which the server has taken the requests up. -/
structure Net (σ κ ρ α : Type*) where
  server : σ
  phase : κ → Phase ρ α
  served : List (Op κ ρ α)

inductive Event (κ ρ α ε ι : Type*)
  | send (c : κ) (m : ρ)
  | arrive (c : κ) (m : ρ)
  | serve (c : κ) (m : ρ) (answer : ε)
  | deliver (c : κ) (r : α)
  | lose (c : κ)
  | drift (i : ι)

/-- What the clients do, which is all that they see. -/
inductive Action (κ ρ α : Type*)
  | invoke (c : κ) (m : ρ)
  | respond (c : κ) (r : α)

section

variable {σ κ ρ α ε ι ψ : Type*}

def Event.action : Event κ ρ α ε ι → Option (Action κ ρ α)
  | .send c m => some (.invoke c m)
  | .deliver c r => some (.respond c r)
  | _ => none

def history (es : List (Event κ ρ α ε ι)) : List (Action κ ρ α) := es.filterMap Event.action

theorem history_append (es fs : List (Event κ ρ α ε ι)) : history (es ++ fs) = history es ++ history fs :=
  List.filterMap_append

variable [DecidableEq κ]

def Server.spec (S : Server σ ρ α ε ι ψ) : Spec σ ρ α where
  serves s m r t := ∃ answer sent, S.mayServe s m answer ∧ S.serve s m answer = .ok ((r, sent), t)
  drifts s t := ∃ i, S.mayDrift s i ∧ S.drift s i = .ok t

def Net.start (s : σ) : Net σ κ ρ α := ⟨s, fun _ => .idle, []⟩

def Net.setPhase (n : Net σ κ ρ α) (c : κ) (p : Phase ρ α) : Net σ κ ρ α :=
  { n with phase := Function.update n.phase c p }

def netStep (S : Server σ ρ α ε ι ψ) (n : Net σ κ ρ α) : Event κ ρ α ε ι → Except ψ (Net σ κ ρ α)
  | .send c m => .ok (n.setPhase c (.asked m))
  | .arrive c m => .ok (n.setPhase c (.queued m))
  | .serve c m answer =>
    (S.serve n.server m answer).map fun r =>
      { server := r.2
        phase := Function.update n.phase c (if r.1.2 then .answered r.1.1 else .lost)
        served := n.served ++ [⟨c, m, r.1.1⟩] }
  | .deliver c _ => .ok (n.setPhase c .idle)
  | .lose c => .ok (n.setPhase c .lost)
  | .drift i => (S.drift n.server i).map fun s => { n with server := s }

/-- A client waits for its reply before it sends again, and the network may
lose a message. -/
def netAllowed (S : Server σ ρ α ε ι ψ) (n : Net σ κ ρ α) : Event κ ρ α ε ι → Prop
  | .send c _ => n.phase c = .idle
  | .arrive c m => n.phase c = .asked m
  | .serve c m answer => n.phase c = .queued m ∧ S.mayServe n.server m answer
  | .deliver c r => n.phase c = .answered r
  | .lose c => n.phase c ≠ .idle
  | .drift i => S.mayDrift n.server i ∧ (S.idles i → ∀ c m, n.phase c ≠ .queued m)

def netMachine (S : Server σ ρ α ε ι ψ) : Machine (Net σ κ ρ α) (Event κ ρ α ε ι) ψ where
  step := netStep S
  allowed := netAllowed S

def Action.invocation (c : κ) : Action κ ρ α → Option ρ
  | .invoke c' m => if c' = c then some m else none
  | .respond _ _ => none

def Action.response (c : κ) : Action κ ρ α → Option α
  | .invoke _ _ => none
  | .respond c' r => if c' = c then some r else none

def invocations (H : List (Action κ ρ α)) (c : κ) : List ρ := H.filterMap (Action.invocation c)

def responses (H : List (Action κ ρ α)) (c : κ) : List α := H.filterMap (Action.response c)

def requests (L : List (Op κ ρ α)) (c : κ) : List ρ := (L.filter (·.client = c)).map Op.request

def replies (L : List (Op κ ρ α)) (c : κ) : List α := (L.filter (·.client = c)).map Op.reply

/-- `L` puts the requests of the history in one order. Wherever the history is
cut, `L` has a cut that leaves no finished operation behind and takes none that
has not begun: an operation that was over before another began comes first. -/
structure Linearizes (H : List (Action κ ρ α)) (L : List (Op κ ρ α)) : Prop where
  asked : ∀ c, requests L c <+: invocations H c
  realTime : ∀ H₁ H₂, H = H₁ ++ H₂ → ∃ L₁ L₂, L = L₁ ++ L₂ ∧
    ∀ c, requests L₁ c <+: invocations H₁ c ∧ responses H₁ c <+: replies L₁ c

/-- A client in a phase: what it has sent and received, what was served. -/
def Agrees (invs : List ρ) (resps : List α) (reqs : List ρ) (reps : List α) : Phase ρ α → Prop
  | .idle => reqs = invs ∧ resps = reps
  | .asked m => reqs ++ [m] = invs ∧ resps = reps
  | .queued m => reqs ++ [m] = invs ∧ resps = reps
  | .answered r => reqs = invs ∧ resps ++ [r] = reps
  | .lost => reqs <+: invs ∧ resps <+: reps

variable {S : Server σ ρ α ε ι ψ} {s : σ} {n n' : Net σ κ ρ α} {e : Event κ ρ α ε ι}
  {es fs : List (Event κ ρ α ε ι)} {c c' : κ} {invs reqs : List ρ} {resps reps : List α}
  {H H₁ H₂ : List (Action κ ρ α)} {L L₁ L₂ : List (Op κ ρ α)}

theorem Agrees.isPrefix {p : Phase ρ α} (h : Agrees invs resps reqs reps p) :
    reqs <+: invs ∧ resps <+: reps := by
  cases p with
  | idle => exact ⟨h.1 ▸ List.prefix_rfl, h.2 ▸ List.prefix_rfl⟩
  | asked m => exact ⟨h.1 ▸ List.prefix_append _ _, h.2 ▸ List.prefix_rfl⟩
  | queued m => exact ⟨h.1 ▸ List.prefix_append _ _, h.2 ▸ List.prefix_rfl⟩
  | answered r => exact ⟨h.1 ▸ List.prefix_rfl, h.2 ▸ List.prefix_append _ _⟩
  | lost => exact h

theorem invocations_append (H₁ H₂ : List (Action κ ρ α)) (c : κ) :
    invocations (H₁ ++ H₂) c = invocations H₁ c ++ invocations H₂ c := List.filterMap_append

theorem responses_append (H₁ H₂ : List (Action κ ρ α)) (c : κ) :
    responses (H₁ ++ H₂) c = responses H₁ c ++ responses H₂ c := List.filterMap_append

theorem requests_append (L₁ L₂ : List (Op κ ρ α)) (c : κ) :
    requests (L₁ ++ L₂) c = requests L₁ c ++ requests L₂ c := by
  simp only [requests, List.filter_append, List.map_append]

theorem replies_append (L₁ L₂ : List (Op κ ρ α)) (c : κ) :
    replies (L₁ ++ L₂) c = replies L₁ c ++ replies L₂ c := by
  simp only [replies, List.filter_append, List.map_append]

@[simp]
theorem setPhase_phase_self (n : Net σ κ ρ α) (c : κ) (p : Phase ρ α) : (n.setPhase c p).phase c = p := by
  show Function.update n.phase c p c = p
  exact Function.update_self c p n.phase

theorem setPhase_phase_of_ne (n : Net σ κ ρ α) {c c' : κ} (h : c' ≠ c) (p : Phase ρ α) :
    (n.setPhase c p).phase c' = n.phase c' := by
  show Function.update n.phase c p c' = n.phase c'
  exact Function.update_of_ne h p n.phase

@[simp]
theorem setPhase_served (n : Net σ κ ρ α) (c : κ) (p : Phase ρ α) : (n.setPhase c p).served = n.served := rfl

inductive NetMove (S : Server σ ρ α ε ι ψ) (n : Net σ κ ρ α) : Event κ ρ α ε ι → Net σ κ ρ α → Prop
  | send {c : κ} {m : ρ} (h : n.phase c = .idle) : NetMove S n (.send c m) (n.setPhase c (.asked m))
  | arrive {c : κ} {m : ρ} (h : n.phase c = .asked m) : NetMove S n (.arrive c m) (n.setPhase c (.queued m))
  | serve {c : κ} {m : ρ} {answer : ε} {r : α} {sent : Bool} {t : σ} (h : n.phase c = .queued m)
      (hm : S.mayServe n.server m answer) (hs : S.serve n.server m answer = .ok ((r, sent), t)) :
      NetMove S n (.serve c m answer)
        { server := t
          phase := Function.update n.phase c (if sent then .answered r else .lost)
          served := n.served ++ [⟨c, m, r⟩] }
  | deliver {c : κ} {r : α} (h : n.phase c = .answered r) : NetMove S n (.deliver c r) (n.setPhase c .idle)
  | lose {c : κ} (h : n.phase c ≠ .idle) : NetMove S n (.lose c) (n.setPhase c .lost)
  | drift {i : ι} {t : σ} (hm : S.mayDrift n.server i) (hs : S.drift n.server i = .ok t)
      (hi : S.idles i → ∀ c m, n.phase c ≠ .queued m) : NetMove S n (.drift i) { n with server := t }

theorem netMove_of_steps (h : (netMachine S).Steps n e n') : NetMove S n e n' := by
  obtain ⟨hallow, (hstep : netStep S n e = .ok n')⟩ := h
  cases e with
  | send c m => exact Except.ok.inj hstep ▸ .send hallow
  | arrive c m => exact Except.ok.inj hstep ▸ .arrive hallow
  | serve c m answer =>
    cases hs : S.serve n.server m answer with
    | error k => simp [netStep, hs, Except.map] at hstep
    | ok r =>
      simp only [netStep, hs, Except.map, Except.ok.injEq] at hstep
      exact hstep ▸ .serve hallow.1 hallow.2 hs
  | deliver c r => exact Except.ok.inj hstep ▸ .deliver hallow
  | lose c => exact Except.ok.inj hstep ▸ .lose hallow
  | drift i =>
    cases hs : S.drift n.server i with
    | error k => simp [netStep, hs, Except.map] at hstep
    | ok t =>
      simp only [netStep, hs, Except.map, Except.ok.injEq] at hstep
      exact hstep ▸ .drift hallow.1 hs hallow.2

def Event.client : Event κ ρ α ε ι → Option κ
  | .send c _ => some c
  | .arrive c _ => some c
  | .serve c _ _ => some c
  | .deliver c _ => some c
  | .lose c => some c
  | .drift _ => none

theorem requests_singleton_of_ne (h : c' ≠ c) (m : ρ) (r : α) : requests [(⟨c, m, r⟩ : Op κ ρ α)] c' = [] := by
  simp [requests, h.symm]

theorem replies_singleton_of_ne (h : c' ≠ c) (m : ρ) (r : α) : replies [(⟨c, m, r⟩ : Op κ ρ α)] c' = [] := by
  simp [replies, h.symm]

/-- The other clients see nothing of an event. -/
theorem NetMove.frame (h : NetMove S n e n') (hc : e.client ≠ some c) :
    n'.phase c = n.phase c ∧ requests n'.served c = requests n.served c ∧
      replies n'.served c = replies n.served c ∧ invocations (history [e]) c = [] ∧
      responses (history [e]) c = [] := by
  cases h with
  | @send c' m _ =>
    have hne : c' ≠ c := fun h => hc (congrArg some h)
    exact ⟨setPhase_phase_of_ne n hne.symm _, rfl, rfl, by simp [invocations, history, Event.action,
      Action.invocation, hne], rfl⟩
  | @arrive c' m _ =>
    have hne : c' ≠ c := fun h => hc (congrArg some h)
    exact ⟨setPhase_phase_of_ne n hne.symm _, rfl, rfl, rfl, rfl⟩
  | @serve c' m answer r sent t _ _ _ =>
    have hne : c' ≠ c := fun h => hc (congrArg some h)
    refine ⟨Function.update_of_ne hne.symm _ _, ?_, ?_, rfl, rfl⟩
    · rw [requests_append, requests_singleton_of_ne hne.symm, List.append_nil]
    · rw [replies_append, replies_singleton_of_ne hne.symm, List.append_nil]
  | @deliver c' r _ =>
    have hne : c' ≠ c := fun h => hc (congrArg some h)
    exact ⟨setPhase_phase_of_ne n hne.symm _, rfl, rfl, rfl, by simp [responses, history, Event.action,
      Action.response, hne]⟩
  | @lose c' _ =>
    have hne : c' ≠ c := fun h => hc (congrArg some h)
    exact ⟨setPhase_phase_of_ne n hne.symm _, rfl, rfl, rfl, rfl⟩
  | drift _ _ _ => exact ⟨rfl, rfl, rfl, rfl, rfl⟩

theorem invocations_send (c : κ) (m : ρ) : invocations (history [(.send c m : Event κ ρ α ε ι)]) c = [m] := by
  simp [invocations, history, Event.action, Action.invocation]

theorem responses_deliver (c : κ) (r : α) : responses (history [(.deliver c r : Event κ ρ α ε ι)]) c = [r] := by
  simp [responses, history, Event.action, Action.response]

theorem requests_serve (L : List (Op κ ρ α)) (c : κ) (m : ρ) (r : α) :
    requests (L ++ [⟨c, m, r⟩]) c = requests L c ++ [m] := by simp [requests]

theorem replies_serve (L : List (Op κ ρ α)) (c : κ) (m : ρ) (r : α) :
    replies (L ++ [⟨c, m, r⟩]) c = replies L c ++ [r] := by simp [replies]

/-- Each event moves its client on in agreement with what the client sees. -/
theorem NetMove.agrees (h : NetMove S n e n') (hc : e.client = some c)
    (ha : Agrees invs resps (requests n.served c) (replies n.served c) (n.phase c)) :
    Agrees (invs ++ invocations (history [e]) c) (resps ++ responses (history [e]) c)
      (requests n'.served c) (replies n'.served c) (n'.phase c) := by
  cases h with
  | @send c' m hp =>
    obtain rfl := Option.some.inj hc
    rw [hp] at ha
    rw [setPhase_phase_self, setPhase_served, invocations_send]
    exact ⟨congrArg (· ++ [m]) ha.1, (List.append_nil _).trans ha.2⟩
  | @arrive c' m hp =>
    obtain rfl := Option.some.inj hc
    rw [hp] at ha
    rw [setPhase_phase_self, setPhase_served]
    exact ⟨ha.1.trans (List.append_nil _).symm, (List.append_nil _).trans ha.2⟩
  | @serve c' m answer r sent t hp hm hs =>
    obtain rfl := Option.some.inj hc
    rw [hp] at ha
    have hreq : requests n.served c' ++ [m] = invs ++ [] := ha.1.trans (List.append_nil _).symm
    have hrep : (resps ++ []) ++ [r] = replies n.served c' ++ [r] := by rw [List.append_nil, ha.2]
    have hphase : Function.update n.phase c' (if sent then .answered r else .lost) c' =
        if sent then .answered r else .lost := Function.update_self _ _ _
    simp only [requests_serve, replies_serve, hphase]
    by_cases hsent : sent = true
    · rw [if_pos hsent]
      exact ⟨hreq, hrep⟩
    · rw [if_neg hsent]
      exact ⟨hreq ▸ List.prefix_rfl, hrep ▸ List.prefix_append _ _⟩
  | @deliver c' r hp =>
    obtain rfl := Option.some.inj hc
    rw [hp] at ha
    rw [setPhase_phase_self, setPhase_served, responses_deliver]
    exact ⟨ha.1.trans (List.append_nil _).symm, ha.2⟩
  | @lose c' hp =>
    obtain rfl := Option.some.inj hc
    rw [setPhase_phase_self, setPhase_served]
    have hpre := ha.isPrefix
    exact ⟨hpre.1.trans (List.prefix_append _ _), (List.append_nil resps).symm ▸ hpre.2⟩
  | drift _ _ _ => cases hc

def Consistent (H : List (Action κ ρ α)) (n : Net σ κ ρ α) : Prop :=
  ∀ c, Agrees (invocations H c) (responses H c) (requests n.served c) (replies n.served c) (n.phase c)

theorem Consistent.step (h : Consistent (history es) n) (hs : (netMachine S).Steps n e n') :
    Consistent (history (es ++ [e])) n' := by
  have hm := netMove_of_steps hs
  intro c
  rw [history_append, invocations_append, responses_append]
  by_cases hc : e.client = some c
  · exact hm.agrees hc (h c)
  · obtain ⟨hphase, hreq, hrep, hinv, hresp⟩ := hm.frame hc
    rw [hphase, hreq, hrep, hinv, hresp, List.append_nil, List.append_nil]
    exact h c

theorem consistent_of_reaches (h : (netMachine S).Reaches (.start s) es n) : Consistent (history es) n := by
  refine h.history (P := fun es n => Consistent (history es) n) ?_ ?_
  · intro c
    exact ⟨rfl, rfl⟩
  · intro pre n e n' _ ih hs
    exact ih.step hs

theorem NetMove.served (h : NetMove S n e n') : n.served <+: n'.served := by
  cases h with
  | send _ => exact List.prefix_rfl
  | arrive _ => exact List.prefix_rfl
  | serve _ _ _ => exact List.prefix_append _ _
  | deliver _ => exact List.prefix_rfl
  | lose _ => exact List.prefix_rfl
  | drift _ _ _ => exact List.prefix_rfl

theorem served_of_reaches (h : (netMachine S).Reaches n es n') : n.served <+: n'.served := by
  refine h.invariant (P := fun t => n.served <+: t.served) List.prefix_rfl ?_
  intro t e u ht hs
  exact ht.trans (netMove_of_steps hs).served

/-- The clients of every run see one order of their requests. -/
theorem linearizes_of_reaches (h : (netMachine S).Reaches (.start s) es n) :
    Linearizes (history es) n.served where
  asked c := (consistent_of_reaches h c).isPrefix.1
  realTime H₁ H₂ hH := by
    obtain ⟨es₁, es₂, rfl, rfl, _⟩ := List.filterMap_eq_append_iff.mp hH
    obtain ⟨t, h₁, h₂⟩ := reaches_append_iff.mp h
    obtain ⟨L₂, hL⟩ := served_of_reaches h₂
    exact ⟨t.served, L₂, hL.symm, fun c => (consistent_of_reaches h₁ c).isPrefix⟩

/-- The server alone does the same on the requests in this order. -/
theorem legal_of_reaches (h : (netMachine S).Reaches (.start s) es n) :
    S.spec.Legal s (n.served.map fun o => (o.request, o.reply)) n.server := by
  refine h.invariant (P := fun n : Net σ κ ρ α =>
    S.spec.Legal s (n.served.map fun o => (o.request, o.reply)) n.server) .nil ?_
  intro t e u hl hstep
  cases netMove_of_steps hstep with
  | send _ => exact hl
  | arrive _ => exact hl
  | @serve c m answer r sent v hc hm hs =>
    rw [List.map_append]
    exact hl.serve ⟨answer, sent, hm, hs⟩
  | deliver _ => exact hl
  | lose _ => exact hl
  | @drift i v hm hs hi => exact hl.drift ⟨i, hm, hs⟩

theorem reaches_exchange {m : ρ} {r : α} {answer : ε} {t : σ} (hc : n.phase c = .idle)
    (hm : S.mayServe n.server m answer) (hs : S.serve n.server m answer = .ok ((r, true), t)) :
    (netMachine S).Reaches n [.send c m, .arrive c m, .serve c m answer, .deliver c r]
      ⟨t, n.phase, n.served ++ [⟨c, m, r⟩]⟩ := by
  have hself : ∀ (p : κ → Phase ρ α) (x : Phase ρ α), Function.update p c x c = x :=
    fun p x => Function.update_self c x p
  have hidle : Function.update n.phase c .idle = n.phase := by rw [← hc, Function.update_eq_self]
  have hserve : netStep S ((n.setPhase c (.asked m)).setPhase c (.queued m)) (.serve c m answer) =
      .ok ⟨t, Function.update n.phase c (.answered r), n.served ++ [⟨c, m, r⟩]⟩ := by
    simp only [netStep, Net.setPhase, hs, Except.map, if_true, Function.update_idem]
  refine .cons ⟨hc, rfl⟩ (.cons ⟨hself _ _, rfl⟩ (.cons ⟨⟨hself _ _, hm⟩, hserve⟩
    (.cons ⟨hself _ _, ?_⟩ (.nil _))))
  simp only [netMachine, netStep, Net.setPhase, Function.update_idem, hidle]

end

end Linearization
