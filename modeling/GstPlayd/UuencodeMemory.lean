import GstPlayd.LinearMemory
import GstPlayd.Uuencode
import Mathlib.Algebra.Group.Int.Defs
import Mathlib.Data.List.GetD
import Mathlib.Data.List.Induction

/-! `uuencode` as it runs: lengths are of type `int`, the text is written
through a pointer into memory that `tag_to_hash_table` has allocated. -/

namespace GstPlayd

open LinearMemory

/-- The result of `int` arithmetic unless it overflows. -/
def checkedInt (n : Int) : Option Int := if -2 ^ 31 ≤ n ∧ n < 2 ^ 31 then some n else none

/-- An unsigned number of 32 bits passed as an `int`. -/
def intOfUnsigned (n : Nat) : Int := if n < 2 ^ 31 then n else n - 2 ^ 32

def uuencodeGetLengthInt (sourceSize : Int) : Option Int := do
  let sum ← checkedInt (sourceSize + 2)
  checkedInt (4 * sum.tdiv 3)

/-- What `tag_to_hash_table` allocates for a buffer. -/
def bufferAllocation (size : Nat) : Option Int := do
  let length ← uuencodeGetLengthInt (intOfUnsigned size)
  checkedInt (length + 1)

/-- `p` and `s` are counted from their first values. -/
structure UuencodeState where
  p : Int
  s : Int
  length : Int
  written : Memory Char
  reads : List Int

def sourceByte (src : List UInt8) (s : Int) : UInt8 := src.getD s.toNat 0

def uuencodeStep (tbl : Text) (src : List UInt8) (st : UuencodeState) : UuencodeState :=
  let length := st.length - 3
  let s1 := if length ≥ -1 then sourceByte src (st.s + 1) else 0
  let s2 := if length ≥ -1 ∧ length ≥ 0 then sourceByte src (st.s + 2) else 0
  { p := st.p + 4
    s := st.s + 3
    length
    written := write st.written st.p (uuencodeRound tbl (sourceByte src st.s) s1 s2)
    reads := st.reads ++ (if length ≥ -1 then [st.s + 1] else []) ++
      (if length ≥ -1 ∧ length ≥ 0 then [st.s + 2] else []) ++ [st.s] }

def uuencodeWhile (tbl : Text) (src : List UInt8) (st : UuencodeState) : UuencodeState :=
  if 0 < st.length then uuencodeWhile tbl src (uuencodeStep tbl src st) else st
termination_by st.length.toNat
decreasing_by
  simp only [uuencodeStep]
  omega

/-- The loop before this one leaves no positive length. -/
def uuencodePad (tbl : Text) (st : UuencodeState) : UuencodeState :=
  if st.length < 0 then
    uuencodePad tbl { st with
      p := st.p - 1
      written := put st.written (st.p - 1) (tblEntry tbl 64)
      length := st.length + 1 }
  else st
termination_by (-st.length).toNat

/-- The first loop and the final NUL. -/
def uuencodeUnpadded (tbl : Text) (src : List UInt8) (length : Int) : UuencodeState :=
  let st := uuencodeWhile tbl src ⟨0, 0, length, blank, []⟩
  { st with written := put st.written st.p '\x00' }

def uuencodeMemory (tbl : Text) (src : List UInt8) (length : Int) : UuencodeState :=
  uuencodePad tbl (uuencodeUnpadded tbl src length)

/-- The call for a buffer fills an allocation of `size` bytes. -/
structure UuencodeFills (src : List UInt8) (size : Int) : Prop where
  allocated : bufferAllocation src.length = some size
  written : ∀ i, ((uuencodeMemory uuencTblBase64 src (intOfUnsigned src.length)).written i).isSome = true ↔
    0 ≤ i ∧ i < size
  terminated : (uuencodeMemory uuencTblBase64 src (intOfUnsigned src.length)).written (size - 1) =
    some '\x00'
  reads : ∀ i ∈ (uuencodeMemory uuencTblBase64 src (intOfUnsigned src.length)).reads,
    0 ≤ i ∧ i < src.length
  padded : ∀ i, (uuencodeMemory uuencTblBase64 src (intOfUnsigned src.length)).written i =
    if size - 1 - ((3 - src.length % 3) % 3 : ℕ) ≤ i ∧ i < size - 1 then some '='
    else (uuencodeUnpadded uuencTblBase64 src (intOfUnsigned src.length)).written i

section

variable {tbl : Text} {src rest : List UInt8}

theorem sourceByte_of_drop {k : ℕ} (h : src.drop k = rest) (j : ℕ) :
    sourceByte src (k + j) = rest.getD j 0 := by
  have hk : ((k : Int) + j).toNat = k + j := by omega
  rw [sourceByte, hk, ← h, List.getD_eq_getElem?_getD, List.getD_eq_getElem?_getD, List.getElem?_drop]

theorem uuencodeWhile_of_pos {st : UuencodeState} (h : 0 < st.length) :
    uuencodeWhile tbl src st = uuencodeWhile tbl src (uuencodeStep tbl src st) := by
  rw [uuencodeWhile, if_pos h]

theorem uuencodeWhile_of_not_pos {st : UuencodeState} (h : ¬ 0 < st.length) :
    uuencodeWhile tbl src st = st := by
  rw [uuencodeWhile, if_neg h]

/-- A round reads the bytes that are there and takes zero for the others. -/
theorem uuencodeStep_eq {st : UuencodeState} {k : ℕ} (hs : st.s = k) (hrest : src.drop k = rest)
    (hlen : st.length = rest.length) : (uuencodeStep tbl src st).written =
      write st.written st.p (uuencodeRound tbl (rest.getD 0 0) (rest.getD 1 0) (rest.getD 2 0)) := by
  have h0 : sourceByte src st.s = rest.getD 0 0 := by
    have hk : (k : Int) + (0 : ℕ) = k := Int.add_zero k
    rw [hs, ← hk]
    exact sourceByte_of_drop hrest 0
  have h1 : sourceByte src (st.s + 1) = rest.getD 1 0 := hs ▸ sourceByte_of_drop hrest 1
  have h2 : sourceByte src (st.s + 2) = rest.getD 2 0 := hs ▸ sourceByte_of_drop hrest 2
  have hs1 : (if st.length - 3 ≥ -1 then sourceByte src (st.s + 1) else 0) = rest.getD 1 0 := by
    by_cases h : st.length - 3 ≥ -1
    · rw [if_pos h, h1]
    · rw [if_neg h, List.getD_eq_default _ _ (by omega)]
  have hs2 : (if st.length - 3 ≥ -1 ∧ st.length - 3 ≥ 0 then sourceByte src (st.s + 2) else 0) =
      rest.getD 2 0 := by
    by_cases h : st.length - 3 ≥ -1 ∧ st.length - 3 ≥ 0
    · rw [if_pos h, h2]
    · rw [if_neg h, List.getD_eq_default _ _ (by omega)]
  simp only [uuencodeStep]
  rw [h0, hs1, hs2]

theorem uuencodeStep_reads {st : UuencodeState} {k n : ℕ} (hs : st.s = k) (hlen : st.length = n)
    (hpos : 0 < n) {i : Int} (hi : i ∈ (uuencodeStep tbl src st).reads) :
    i ∈ st.reads ∨ k ≤ i ∧ i < k + n := by
  simp only [uuencodeStep, List.mem_append, List.mem_singleton] at hi
  rcases hi with ((hi | hi) | hi) | hi
  · exact .inl hi
  · split at hi
    · have he := List.mem_singleton.mp hi
      omega
    · exact absurd hi List.not_mem_nil
  · split at hi
    · have he := List.mem_singleton.mp hi
      omega
    · exact absurd hi List.not_mem_nil
  · omega

theorem uuencodeWhile_spec {st : UuencodeState} {k : ℕ} (hs : st.s = k) (hrest : src.drop k = rest)
    (hlen : st.length = rest.length) :
    (uuencodeWhile tbl src st).written = write st.written st.p (uuencodeLoop tbl rest) ∧
      (uuencodeWhile tbl src st).p = st.p + (uuencodeLoop tbl rest).length ∧
      (uuencodeWhile tbl src st).length = -((3 - rest.length % 3) % 3 : ℕ) ∧
      ∀ i ∈ (uuencodeWhile tbl src st).reads, i ∈ st.reads ∨ k ≤ i ∧ i < k + rest.length := by
  induction rest using uuencodeLoop.induct generalizing st k with
  | case1 =>
    rw [uuencodeWhile_of_not_pos (by simp [hlen])]
    refine ⟨rfl, (Int.add_zero _).symm, hlen, fun i hi => .inl hi⟩
  | case2 s0 =>
    have hstop : ¬ 0 < (uuencodeStep tbl src st).length := by simp [uuencodeStep, hlen]
    have hround : (uuencodeRound tbl s0 0 0).length = 4 := rfl
    rw [uuencodeWhile_of_pos (by simp [hlen]), uuencodeWhile_of_not_pos hstop, uuencodeLoop, hround]
    refine ⟨?_, rfl, ?_, fun i hi => uuencodeStep_reads hs hlen (by simp) hi⟩
    · simpa only [List.getD_cons_zero, List.getD_cons_succ, List.getD_nil] using
        @uuencodeStep_eq tbl _ _ _ _ hs hrest hlen
    · simp [uuencodeStep, hlen]
  | case3 s0 s1 =>
    have hstop : ¬ 0 < (uuencodeStep tbl src st).length := by simp [uuencodeStep, hlen]
    have hround : (uuencodeRound tbl s0 s1 0).length = 4 := rfl
    rw [uuencodeWhile_of_pos (by simp [hlen]), uuencodeWhile_of_not_pos hstop, uuencodeLoop, hround]
    refine ⟨?_, rfl, ?_, fun i hi => uuencodeStep_reads hs hlen (by simp) hi⟩
    · simpa only [List.getD_cons_zero, List.getD_cons_succ, List.getD_nil] using
        @uuencodeStep_eq tbl _ _ _ _ hs hrest hlen
    · simp [uuencodeStep, hlen]
  | case4 s0 s1 s2 s ih =>
    have hpos : 0 < st.length := by
      rw [hlen, List.length_cons]
      omega
    have hnext : (uuencodeStep tbl src st).s = (k + 3 : ℕ) := by
      simp only [uuencodeStep, hs]
      omega
    have hdrop : src.drop (k + 3) = s := by rw [← List.drop_drop, hrest]; rfl
    have hleft : (uuencodeStep tbl src st).length = s.length := by
      simp only [uuencodeStep, hlen, List.length_cons]
      omega
    obtain ⟨hwritten, hp, hlength, hreads⟩ := ih hnext hdrop hleft
    have hround : (uuencodeRound tbl s0 s1 s2).length = 4 := rfl
    have hstep : (uuencodeStep tbl src st).p = st.p + 4 := rfl
    rw [uuencodeWhile_of_pos hpos, uuencodeLoop]
    refine ⟨?_, ?_, ?_, ?_⟩
    · rw [hwritten, uuencodeStep_eq hs hrest hlen, write_append, hround, hstep]
      simp only [List.getD_cons_zero, List.getD_cons_succ]
      rfl
    · rw [hp, hstep, List.length_append, hround]
      omega
    · rw [hlength]
      simp only [List.length_cons]
      omega
    · intro i hi
      rcases hreads i hi with hi | hi
      · exact uuencodeStep_reads hs hlen (by simp) hi
      · simp only [List.length_cons]
        omega

theorem uuencodePad_of_neg {st : UuencodeState} (h : st.length < 0) :
    uuencodePad tbl st = uuencodePad tbl ⟨st.p - 1, st.s, st.length + 1,
      put st.written (st.p - 1) (tblEntry tbl 64), st.reads⟩ := by
  rw [uuencodePad, if_pos h]

theorem uuencodePad_of_not_neg {st : UuencodeState} (h : ¬ st.length < 0) : uuencodePad tbl st = st := by
  rw [uuencodePad, if_neg h]

theorem uuencodePad_reads (st : UuencodeState) : (uuencodePad tbl st).reads = st.reads := by
  induction st using uuencodePad.induct tbl with
  | case1 st h ih => rw [uuencodePad_of_neg h, ih]
  | case2 st h => rw [uuencodePad_of_not_neg h]

theorem uuencodePad_keeps {st : UuencodeState} {i : Int} (hi : (st.written i).isSome = true) :
    ((uuencodePad tbl st).written i).isSome = true := by
  induction st using uuencodePad.induct tbl with
  | case1 st h ih =>
    rw [uuencodePad_of_neg h]
    apply ih
    dsimp only
    by_cases hp : i = st.p - 1
    · rw [hp, put_self]
      rfl
    · rwa [put_of_ne hp]
  | case2 st h => rwa [uuencodePad_of_not_neg h]

/-- The characters that are counted back over are replaced. -/
theorem uuencodePad_spec {st : UuencodeState} {l back after : Text}
    (hwritten : st.written = write blank 0 (l ++ back ++ after)) (hp : st.p = (l ++ back).length)
    (hlen : st.length = -back.length) : (uuencodePad tbl st).written =
      write blank 0 (l ++ List.replicate back.length (tblEntry tbl 64) ++ after) := by
  induction back using List.reverseRecOn generalizing st after with
  | nil =>
    rw [uuencodePad_of_not_neg (by rw [hlen]; decide), hwritten]
    rfl
  | append_singleton back c ih =>
    rw [List.length_append, List.length_singleton] at hlen
    rw [List.length_append, List.length_append, List.length_singleton] at hp
    have hcell : st.p - 1 = 0 + ((l ++ back).length : ℕ) := by
      rw [hp, List.length_append]
      omega
    have hput : put st.written (st.p - 1) (tblEntry tbl 64) =
        write blank 0 (l ++ back ++ tblEntry tbl 64 :: after) := by
      have hsplit : l ++ (back ++ [c]) ++ after = l ++ back ++ c :: after := by simp
      rw [hwritten, hcell, hsplit, put_write]
    rw [uuencodePad_of_neg (by omega), ih hput (hcell.trans (Int.zero_add _)) (by dsimp only; omega),
      List.length_append, List.length_singleton, List.replicate_succ']
    simp

theorem uuencodeUnpadded_spec (tbl : Text) (src : List UInt8) :
    (uuencodeUnpadded tbl src src.length).written = write blank 0 (uuencodeLoop tbl src ++ ['\x00']) ∧
      (uuencodeUnpadded tbl src src.length).p = (uuencodeLoop tbl src).length ∧
      (uuencodeUnpadded tbl src src.length).length = -((3 - src.length % 3) % 3 : ℕ) ∧
      ∀ i ∈ (uuencodeUnpadded tbl src src.length).reads, 0 ≤ i ∧ i < src.length := by
  have hspec := @uuencodeWhile_spec tbl src src ⟨0, 0, src.length, blank, []⟩ 0 rfl rfl rfl
  obtain ⟨hwritten, hp, hlength, hreads⟩ := hspec
  refine ⟨?_, ?_, hlength, ?_⟩
  · simp only [uuencodeUnpadded]
    rw [hwritten, hp, write_append]
    rfl
  · exact hp.trans (Int.zero_add _)
  · intro i hi
    rcases hreads i hi with hi | hi
    · exact absurd hi List.not_mem_nil
    · omega

theorem uuencodeMemory_spec (tbl : Text) (src : List UInt8) :
    (uuencodeMemory tbl src src.length).written = write blank 0 (uuencode tbl src ++ ['\x00']) := by
  obtain ⟨hwritten, hp, hlength, _⟩ := uuencodeUnpadded_spec tbl src
  have hroom : (3 - src.length % 3) % 3 ≤ (uuencodeLoop tbl src).length := by
    rw [length_uuencodeLoop, uuencodeGetLength]
    omega
  have hback : ((uuencodeLoop tbl src).drop ((uuencodeLoop tbl src).length - (3 - src.length % 3) % 3)).length =
      (3 - src.length % 3) % 3 := by
    rw [List.length_drop]
    omega
  have hspec := @uuencodePad_spec tbl (uuencodeUnpadded tbl src src.length)
    ((uuencodeLoop tbl src).take ((uuencodeLoop tbl src).length - (3 - src.length % 3) % 3))
    ((uuencodeLoop tbl src).drop ((uuencodeLoop tbl src).length - (3 - src.length % 3) % 3)) ['\x00']
    (by rw [List.take_append_drop, hwritten]) (by rw [List.take_append_drop, hp])
    (by rw [hback, hlength])
  rw [hback] at hspec
  exact hspec

end

theorem checkedInt_eq_some {n : Int} (h : -2 ^ 31 ≤ n ∧ n < 2 ^ 31) : checkedInt n = some n := if_pos h

theorem checkedInt_eq_none {n : Int} (h : 2 ^ 31 ≤ n) : checkedInt n = none := if_neg (by omega)

theorem intOfUnsigned_of_lt {n : Nat} (h : n < 2 ^ 31) : intOfUnsigned n = n := if_pos h

theorem intOfUnsigned_neg {n : Nat} (h : 2 ^ 31 ≤ n) (hn : n < 2 ^ 32) : intOfUnsigned n < 0 := by
  rw [intOfUnsigned, if_neg (Nat.not_lt.mpr h)]
  omega

/-- The largest size whose text has a length below `2 ^ 31`. -/
theorem bufferAllocation_eq_some {n : Nat} (h : n ≤ 1610612733) :
    bufferAllocation n = some (uuencodeGetLength n + 1 : ℕ) := by
  have hdiv : ((n : Int) + 2).tdiv 3 = ((n + 2) / 3 : ℕ) := by
    rw [Int.tdiv_eq_ediv_of_nonneg (by omega)]
    omega
  rw [bufferAllocation, uuencodeGetLengthInt, intOfUnsigned_of_lt (by omega),
    checkedInt_eq_some (by omega), Option.bind_eq_bind, Option.bind_some, hdiv, checkedInt_eq_some (by omega),
    Option.bind_eq_bind, Option.bind_some, checkedInt_eq_some (by omega), uuencodeGetLength]
  congr 1

theorem bufferAllocation_eq_none {n : Nat} (h : 1610612733 < n) (hn : n < 2 ^ 31) :
    bufferAllocation n = none := by
  have hdiv : ((n : Int) + 2).tdiv 3 = ((n + 2) / 3 : ℕ) := by
    rw [Int.tdiv_eq_ediv_of_nonneg (by omega)]
    omega
  rw [bufferAllocation, uuencodeGetLengthInt, intOfUnsigned_of_lt hn]
  by_cases hsum : (n : Int) + 2 < 2 ^ 31
  · rw [checkedInt_eq_some (by omega), Option.bind_eq_bind, Option.bind_some, hdiv,
      checkedInt_eq_none (by omega)]
    rfl
  · rw [checkedInt_eq_none (by omega)]
    rfl

/-- A negative length is padded before the start of the memory. -/
theorem uuencodeMemory_of_neg {tbl : Text} {src : List UInt8} {length : Int} (h : length < 0) :
    ((uuencodeMemory tbl src length).written (-1)).isSome = true := by
  have hwhile : uuencodeWhile tbl src ⟨0, 0, length, blank, []⟩ = ⟨0, 0, length, blank, []⟩ :=
    uuencodeWhile_of_not_pos (by dsimp only; omega)
  rw [uuencodeMemory, uuencodeUnpadded, hwhile, uuencodePad_of_neg h]
  exact uuencodePad_keeps (by simp [put])

theorem uuencodeFills_of_le {src : List UInt8} (h : src.length ≤ 1610612733) :
    UuencodeFills src (uuencodeGetLength src.length + 1 : ℕ) := by
  have hint := intOfUnsigned_of_lt (Nat.lt_of_le_of_lt h (by decide : 1610612733 < 2 ^ 31))
  have htext : (uuencode uuencTblBase64 src).length = uuencodeGetLength src.length := length_uuencode src
  have hloop : (uuencodeLoop uuencTblBase64 src).length = uuencodeGetLength src.length :=
    length_uuencodeLoop uuencTblBase64 src
  have hroom : (3 - src.length % 3) % 3 ≤ uuencodeGetLength src.length := by
    rw [uuencodeGetLength]
    omega
  obtain ⟨hunpadded, _, _, hreads⟩ := uuencodeUnpadded_spec uuencTblBase64 src
  refine ⟨bufferAllocation_eq_some h, ?_, ?_, ?_, ?_⟩
  · intro i
    rw [hint, uuencodeMemory_spec, write_blank_isSome_iff, List.length_append, htext, Int.zero_add]
    rfl
  · have hlast : ((uuencodeGetLength src.length + 1 : ℕ) : Int) - 1 =
        0 + ((uuencode uuencTblBase64 src).length : ℕ) := by omega
    rw [hint, uuencodeMemory_spec, hlast, write_of_inside (by simp)]
    simp
  · intro i hi
    rw [hint, uuencodeMemory, uuencodePad_reads] at hi
    exact hreads i hi
  · intro i
    have hpad : tblEntry uuencTblBase64 64 = '=' := by decide
    have hback : ((uuencodeLoop uuencTblBase64 src).drop (uuencodeGetLength src.length -
        (3 - src.length % 3) % 3)).length = (3 - src.length % 3) % 3 := by
      rw [List.length_drop]
      omega
    have hreplace := @write_replicate _ blank 0 i
      ((uuencodeLoop uuencTblBase64 src).take (uuencodeGetLength src.length - (3 - src.length % 3) % 3))
      ((uuencodeLoop uuencTblBase64 src).drop (uuencodeGetLength src.length - (3 - src.length % 3) % 3))
      ['\x00'] '='
    rw [hback, List.take_append_drop, List.length_take, Nat.min_eq_left (by omega)] at hreplace
    rw [hint, uuencodeMemory_spec, hunpadded, uuencode, hpad, hloop]
    refine hreplace.trans (if_congr ?_ rfl rfl)
    omega

/-- The allocation is computed and filled as long as the length of the text is
an `int`. -/
theorem uuencodeFills_iff {src : List UInt8} (h : src.length < 2 ^ 32) :
    (∃ size, UuencodeFills src size) ↔ src.length ≤ 1610612733 := by
  constructor
  · rintro ⟨size, hfills⟩
    by_contra hlong
    by_cases hlt : src.length < 2 ^ 31
    · have halloc := hfills.allocated
      rw [bufferAllocation_eq_none (Nat.lt_of_not_le hlong) hlt] at halloc
      exact absurd halloc (by simp)
    · have hbefore := (hfills.written (-1)).mp
        (uuencodeMemory_of_neg (intOfUnsigned_neg (Nat.le_of_not_lt hlt) h))
      exact absurd hbefore.1 (by decide)
  · exact fun hle => ⟨_, uuencodeFills_of_le hle⟩

theorem uuencodeFills_iff_two_bytes : (∃ size, UuencodeFills [77, 97] size) ↔ 2 ≤ 1610612733 :=
  @uuencodeFills_iff [77, 97] (by decide)

theorem not_uuencodeFills_long : ¬ ∀ src : List UInt8, src.length < 2 ^ 32 → ∃ size, UuencodeFills src size := by
  intro h
  have hlen : (List.replicate 1610612734 (0 : UInt8)).length = 1610612734 := List.length_replicate
  obtain ⟨size, hfills⟩ := h (List.replicate 1610612734 0) (by rw [hlen]; decide)
  have halloc := hfills.allocated
  rw [hlen, bufferAllocation_eq_none (by decide) (by decide)] at halloc
  exact absurd halloc (by simp)

end GstPlayd
