import Mathlib.Data.List.Basic
import Mathlib.Data.List.Induction
import Mathlib.Data.List.TakeWhile
import Mathlib.Tactic.Common
import Mathlib.Tactic.TypeStar

/-! Texts read from left to right in groups. A group is closed by its last
value or by a stop, junk is passed over, and a scan may be taken up again from
the text of the group that it left open. -/

namespace GroupScan

inductive Symbol (β : Type*)
  | junk
  | value (v : β)
  | stop

structure Code (α β γ : Type*) where
  symbol : α → Symbol β
  size : ℕ
  emit : List β → List γ

/-- What is written, and the text and the values of the open group. -/
structure State (α β γ : Type*) where
  out : List γ
  text : List α
  values : List β

namespace State

variable {α β γ : Type*}

def fresh : State α β γ := ⟨[], [], []⟩

def reading (st : State α β γ) : List γ × List β := (st.out, st.values)

/-- The text to read again, which is empty when the group has no value yet. -/
def rest (st : State α β γ) : List α :=
  match st.values with
  | [] => []
  | _ :: _ => st.text

theorem rest_of_nil {st : State α β γ} (h : st.values = []) : st.rest = [] := by
  simp only [rest, h]

theorem rest_of_ne_nil {st : State α β γ} (h : st.values ≠ []) : st.rest = st.text := by
  obtain ⟨v, vs, hv⟩ := List.exists_cons_of_ne_nil h
  simp only [rest, hv]

end State

namespace Code

variable {α β γ : Type*} (C : Code α β γ)

def isJunk (c : α) : Bool :=
  match C.symbol c with
  | .junk => true
  | _ => false

def step (st : State α β γ) (c : α) : State α β γ :=
  match C.symbol c with
  | .junk => ⟨st.out, st.text ++ [c], st.values⟩
  | .stop => ⟨st.out ++ C.emit st.values, [], []⟩
  | .value v =>
    if st.values.length + 1 < C.size then ⟨st.out, st.text ++ [c], st.values ++ [v]⟩
    else ⟨st.out ++ C.emit (st.values ++ [v]), [], []⟩

def scan (st : State α β γ) (s : List α) : State α β γ := s.foldl C.step st

/-- The step without the text, which it does not depend on. -/
def feed (p : List γ × List β) (c : α) : List γ × List β :=
  match C.symbol c with
  | .junk => p
  | .stop => (p.1 ++ C.emit p.2, [])
  | .value v =>
    if p.2.length + 1 < C.size then (p.1, p.2 ++ [v]) else (p.1 ++ C.emit (p.2 ++ [v]), [])

theorem scan_cons (st : State α β γ) (c : α) (s : List α) :
    C.scan st (c :: s) = C.scan (C.step st c) s := rfl

theorem scan_append (st : State α β γ) (s t : List α) :
    C.scan st (s ++ t) = C.scan (C.scan st s) t := List.foldl_append

theorem scan_snoc (st : State α β γ) (s : List α) (c : α) :
    C.scan st (s ++ [c]) = C.step (C.scan st s) c := C.scan_append st s [c]

section

variable {C} {c : α}

theorem symbol_of_isJunk (h : C.isJunk c = true) : C.symbol c = .junk := by
  cases hs : C.symbol c with
  | junk => rfl
  | stop => simp [isJunk, hs] at h
  | value v => simp [isJunk, hs] at h

theorem step_junk (h : C.symbol c = .junk) (st : State α β γ) :
    C.step st c = ⟨st.out, st.text ++ [c], st.values⟩ := by
  simp only [step, h]

theorem step_stop (h : C.symbol c = .stop) (st : State α β γ) :
    C.step st c = ⟨st.out ++ C.emit st.values, [], []⟩ := by
  simp only [step, h]

theorem step_value {v : β} (h : C.symbol c = .value v) {st : State α β γ}
    (hv : st.values.length + 1 < C.size) :
    C.step st c = ⟨st.out, st.text ++ [c], st.values ++ [v]⟩ := by
  simp only [step, h, if_pos hv]

theorem step_last {v : β} (h : C.symbol c = .value v) {st : State α β γ}
    (hv : ¬ st.values.length + 1 < C.size) :
    C.step st c = ⟨st.out ++ C.emit (st.values ++ [v]), [], []⟩ := by
  simp only [step, h, if_neg hv]

theorem feed_of_isJunk (h : C.isJunk c = true) (p : List γ × List β) : C.feed p c = p := by
  simp only [feed, symbol_of_isJunk h]

end

theorem reading_step (st : State α β γ) (c : α) : (C.step st c).reading = C.feed st.reading c := by
  cases hs : C.symbol c with
  | junk => simp only [step, feed, State.reading, hs]
  | stop => simp only [step, feed, State.reading, hs]
  | value v =>
    by_cases hv : st.values.length + 1 < C.size
    · rw [step_value hs hv]
      simp only [feed, State.reading, hs]
      exact (if_pos hv).symm
    · rw [step_last hs hv]
      simp only [feed, State.reading, hs]
      exact (if_neg hv).symm

theorem reading_scan (st : State α β γ) (s : List α) :
    (C.scan st s).reading = s.foldl C.feed st.reading := by
  induction s generalizing st with
  | nil => rfl
  | cons c s ih => rw [scan_cons, ih, reading_step, List.foldl_cons]

/-- Junk may stand anywhere. -/
theorem feed_filter (p : List γ × List β) (s : List α) :
    (s.filter fun c => !C.isJunk c).foldl C.feed p = s.foldl C.feed p := by
  induction s generalizing p with
  | nil => rfl
  | cons c s ih =>
    by_cases hc : C.isJunk c = true
    · rw [List.filter_cons_of_neg (by simp [hc]), List.foldl_cons, feed_of_isJunk hc, ih]
    · rw [List.filter_cons_of_pos (by simp [hc]), List.foldl_cons, List.foldl_cons, ih]

theorem feed_out (out : List γ) (p : List γ × List β) (c : α) :
    C.feed (out ++ p.1, p.2) c = (out ++ (C.feed p c).1, (C.feed p c).2) := by
  cases hs : C.symbol c with
  | junk => simp only [feed, hs]
  | stop => simp only [feed, hs, List.append_assoc]
  | value v =>
    by_cases hv : p.2.length + 1 < C.size
    · simp only [feed, hs, if_pos hv]
    · simp only [feed, hs, if_neg hv, List.append_assoc]

theorem foldl_feed_out (out : List γ) (p : List γ × List β) (s : List α) :
    s.foldl C.feed (out ++ p.1, p.2) = (out ++ (s.foldl C.feed p).1, (s.foldl C.feed p).2) := by
  induction s generalizing p with
  | nil => rfl
  | cons c s ih => rw [List.foldl_cons, feed_out, ih, List.foldl_cons]

/-- The text of the open group reads as its values, and is junk if there are none. -/
structure Consistent (st : State α β γ) : Prop where
  restarts : C.scan .fresh st.text = ⟨[], st.text, st.values⟩
  length_le : st.values.length ≤ st.text.length
  junk : st.values = [] → ∀ c ∈ st.text, C.isJunk c = true
  no_stop : ∀ c ∈ st.text, C.symbol c ≠ .stop

theorem consistent_closed (out : List γ) : C.Consistent ⟨out, [], []⟩ :=
  ⟨rfl, Nat.le_refl _, fun _ _ h => absurd h List.not_mem_nil, fun _ h => absurd h List.not_mem_nil⟩

variable {C} {st st' : State α β γ}

theorem Consistent.step (h : C.Consistent st) (c : α) : C.Consistent (C.step st c) := by
  have hnext : C.scan .fresh (st.text ++ [c]) = C.step ⟨[], st.text, st.values⟩ c := by
    rw [scan_snoc, h.restarts]
  have hstop : C.symbol c ≠ .stop → ∀ d ∈ st.text ++ [c], C.symbol d ≠ .stop := by
    intro hc d hd
    rcases List.mem_append.mp hd with hd | hd
    · exact h.no_stop d hd
    · rwa [List.mem_singleton.mp hd]
  cases hs : C.symbol c with
  | junk =>
    rw [step_junk hs] at hnext ⊢
    refine ⟨hnext, ?_, ?_, hstop (by simp [hs])⟩
    · rw [List.length_append]
      exact Nat.le_add_right_of_le h.length_le
    · intro hv d hd
      rcases List.mem_append.mp hd with hd | hd
      · exact h.junk hv d hd
      · rw [List.mem_singleton.mp hd, isJunk, hs]
  | stop =>
    rw [step_stop hs]
    exact C.consistent_closed _
  | value v =>
    by_cases hv : st.values.length + 1 < C.size
    · rw [@step_value _ _ _ C c v hs ⟨[], st.text, st.values⟩ hv] at hnext
      rw [step_value hs hv]
      refine ⟨hnext, ?_, ?_, hstop (by simp [hs])⟩
      · rw [List.length_append, List.length_append]
        exact Nat.add_le_add_right h.length_le 1
      · intro he
        exact absurd he (by simp)
    · rw [step_last hs hv]
      exact C.consistent_closed _

theorem Consistent.scan (h : C.Consistent st) (s : List α) : C.Consistent (C.scan st s) := by
  induction s generalizing st with
  | nil => exact h
  | cons c s ih => exact ih (h.step c)

theorem consistent_scan_fresh (s : List α) : C.Consistent (C.scan .fresh s) :=
  (C.consistent_closed []).scan s

theorem Consistent.scan_rest (h : C.Consistent st) :
    C.scan .fresh st.rest = ⟨[], st.rest, st.values⟩ := by
  by_cases hv : st.values = []
  · rw [State.rest_of_nil hv, hv]
    rfl
  · rw [State.rest_of_ne_nil hv]
    exact h.restarts

theorem Consistent.rest_eq_nil_iff (h : C.Consistent st) : st.rest = [] ↔ st.values = [] := by
  constructor
  · intro hr
    by_contra hv
    have hlen := h.length_le
    rw [State.rest_of_ne_nil hv] at hr
    rw [hr, List.length_nil, Nat.le_zero, List.length_eq_zero_iff] at hlen
    exact hv hlen
  · exact State.rest_of_nil

theorem Consistent.rest_trim (h : C.Consistent st) :
    st.rest.dropWhile C.isJunk = st.text.dropWhile C.isJunk := by
  by_cases hv : st.values = []
  · rw [State.rest_of_nil hv, List.dropWhile_nil, eq_comm, List.dropWhile_eq_nil_iff]
    exact h.junk hv
  · rw [State.rest_of_ne_nil hv]

/-- Two scans of one text hold the same, except for junk that was there before. -/
theorem step_trim (hv : st.values = st'.values)
    (ht : st.text.dropWhile C.isJunk = st'.text.dropWhile C.isJunk) (c : α) :
    (C.step st c).values = (C.step st' c).values ∧
      (C.step st c).text.dropWhile C.isJunk = (C.step st' c).text.dropWhile C.isJunk := by
  have hsnoc : (st.text ++ [c]).dropWhile C.isJunk = (st'.text ++ [c]).dropWhile C.isJunk := by
    rw [List.dropWhile_append, List.dropWhile_append, ht]
  cases hs : C.symbol c with
  | junk =>
    rw [step_junk hs, step_junk hs]
    exact ⟨hv, hsnoc⟩
  | stop =>
    rw [step_stop hs, step_stop hs]
    exact ⟨rfl, rfl⟩
  | value v =>
    by_cases hlt : st.values.length + 1 < C.size
    · rw [step_value hs hlt, step_value hs (hv ▸ hlt), hv]
      exact ⟨rfl, hsnoc⟩
    · rw [step_last hs hlt, step_last hs (hv ▸ hlt)]
      exact ⟨rfl, rfl⟩

theorem scan_trim (hv : st.values = st'.values)
    (ht : st.text.dropWhile C.isJunk = st'.text.dropWhile C.isJunk) (s : List α) :
    (C.scan st s).values = (C.scan st' s).values ∧
      (C.scan st s).text.dropWhile C.isJunk = (C.scan st' s).text.dropWhile C.isJunk := by
  induction s generalizing st st' with
  | nil => exact ⟨hv, ht⟩
  | cons c s ih =>
    obtain ⟨hv', ht'⟩ := step_trim hv ht c
    exact ih hv' ht'

variable (C)

/-- Scanning may stop anywhere and go on from the text it has to read again. -/
theorem reading_resume (s t : List α) : (C.scan .fresh (s ++ t)).reading =
    ((C.scan .fresh s).out ++ (C.scan .fresh ((C.scan .fresh s).rest ++ t)).out,
      (C.scan .fresh ((C.scan .fresh s).rest ++ t)).values) := by
  have hrest := (@consistent_scan_fresh _ _ _ C s).scan_rest
  have hout := C.foldl_feed_out (C.scan .fresh s).out ([], (C.scan .fresh s).values) t
  rw [List.append_nil] at hout
  have hagain := C.reading_scan ⟨[], (C.scan .fresh s).rest, (C.scan .fresh s).values⟩ t
  change _ = t.foldl C.feed ([], (C.scan .fresh s).values) at hagain
  rw [scan_append, reading_scan, scan_append, hrest]
  change t.foldl C.feed ((C.scan .fresh s).out, (C.scan .fresh s).values) = _
  rw [hout, ← hagain]
  rfl

theorem rest_resume (s t : List α) : (C.scan .fresh (s ++ t)).rest.dropWhile C.isJunk =
    (C.scan .fresh ((C.scan .fresh s).rest ++ t)).rest.dropWhile C.isJunk := by
  have hs := @consistent_scan_fresh _ _ _ C s
  rw [(consistent_scan_fresh _).rest_trim, (consistent_scan_fresh _).rest_trim, scan_append,
    scan_append, hs.scan_rest]
  exact (@scan_trim _ _ _ C (C.scan .fresh s)
    ⟨[], (C.scan .fresh s).rest, (C.scan .fresh s).values⟩ rfl hs.rest_trim.symm t).2

theorem text_suffix (s : List α) : (C.scan .fresh s).text <:+ s := by
  induction s using List.reverseRecOn with
  | nil => exact List.suffix_rfl
  | append_singleton s c ih =>
    obtain ⟨pre, hpre⟩ := ih
    have hsnoc : (C.scan .fresh s).text ++ [c] <:+ s ++ [c] :=
      ⟨pre, by rw [← List.append_assoc, hpre]⟩
    rw [scan_snoc]
    cases hs : C.symbol c with
    | junk =>
      rw [step_junk hs]
      exact hsnoc
    | stop =>
      rw [step_stop hs]
      exact List.nil_suffix
    | value v =>
      by_cases hv : (C.scan .fresh s).values.length + 1 < C.size
      · rw [step_value hs hv]
        exact hsnoc
      · rw [step_last hs hv]
        exact List.nil_suffix

theorem rest_suffix (s : List α) : (C.scan .fresh s).rest <:+ s := by
  by_cases hv : (C.scan .fresh s).values = []
  · rw [State.rest_of_nil hv]
    exact List.nil_suffix
  · rw [State.rest_of_ne_nil hv]
    exact C.text_suffix s

/-- A bound on what one group writes is a bound on what a text writes. -/
theorem length_out_le {a b : ℕ} (hemit : ∀ vs, a * (C.emit vs).length ≤ b * vs.length) (s : List α) :
    a * (C.scan .fresh s).out.length + b * (C.scan .fresh s).text.length ≤ b * s.length := by
  induction s using List.reverseRecOn with
  | nil => exact Nat.le_refl _
  | append_singleton s c ih =>
    have hlen := Nat.mul_le_mul_left b (@consistent_scan_fresh _ _ _ C s).length_le
    rw [scan_snoc]
    cases hs : C.symbol c with
    | junk =>
      rw [step_junk hs]
      simp only [List.length_append, List.length_singleton, Nat.mul_add]
      omega
    | stop =>
      have hclose := hemit (C.scan .fresh s).values
      rw [step_stop hs]
      simp only [List.length_append, List.length_singleton, List.length_nil, Nat.mul_add]
      omega
    | value v =>
      by_cases hv : (C.scan .fresh s).values.length + 1 < C.size
      · rw [step_value hs hv]
        simp only [List.length_append, List.length_singleton, Nat.mul_add]
        omega
      · have hclose := hemit ((C.scan .fresh s).values ++ [v])
        rw [step_last hs hv]
        simp only [List.length_append, List.length_singleton, List.length_nil, Nat.mul_add] at hclose ⊢
        omega

end Code

end GroupScan
