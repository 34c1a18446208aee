import GstPlayd.Base64Decode
import Mathlib.Logic.Function.Iterate

/-! `read_base64`: a stream is decoded through a buffer of 64 characters, and
the tail that the decoder returns is kept for the next round. One step is one
call of `fgetc`, or what follows the inner loop. -/

namespace GstPlayd

def exitChar (flags : Int32) : Int := flags.toInt8.toInt

def uuStyleEnd (flags : Int32) : Bool := flags &&& 0x100 ≠ 0

/-- The next byte as an `int`, or `EOF`. -/
def fgetc : List UInt8 → Int × List UInt8
  | [] => (-1, [])
  | ch :: stream => (ch.toNat, stream)

inductive ReadPhase
  | fill
  | flush (termSeen : Bool)
  | returned (ret : Int)
deriving DecidableEq

/-- `inBuf` is the buffer up to `in_count`. -/
structure Reader where
  phase : ReadPhase
  srcStream : List UInt8
  inBuf : List UInt8
  dstStream : List UInt8

def readStart (srcStream : List UInt8) : Reader := ⟨.fill, srcStream, [], []⟩

/-- The inner loop after `fgetc`. -/
def readChar (flags : Int32) (r : Reader) (ch : Int) : Reader :=
  if ch = exitChar flags then
    if r.inBuf.length = 0 then { r with phase := .returned 1 } else { r with phase := .flush true }
  else if ch = -1 then { r with phase := .flush true }
  else if ch ≤ 32 then { r with phase := .flush false }
  else { r with inBuf := r.inBuf ++ [UInt8.ofNat ch.toNat] }

def readStep (flags : Int32) (r : Reader) : Reader :=
  match r.phase with
  | .fill =>
    if r.inBuf.length < 64 then
      let (ch, srcStream) := fgetc r.srcStream
      readChar flags { r with srcStream } ch
    else { r with phase := .flush false }
  | .flush termSeen =>
    if uuStyleEnd flags = true ∧ r.inBuf = textBytes "====".toList then { r with phase := .returned 1 }
    else
      let (written, inTail) := decodeBase64 r.inBuf
      if termSeen = true then
        { r with phase := .returned (if inTail = [] then 1 else 0), dstStream := r.dstStream ++ written }
      else { r with phase := .fill, inBuf := inTail, dstStream := r.dstStream ++ written }
  | .returned _ => r

def readAfter (flags : Int32) (srcStream : List UInt8) (n : ℕ) : Reader :=
  (readStep flags)^[n] (readStart srcStream)

def ReadReturns (flags : Int32) (srcStream : List UInt8) (ret : Int) (dstStream : List UInt8) : Prop :=
  ∃ n, (readAfter flags srcStream n).phase = .returned ret ∧
    (readAfter flags srcStream n).dstStream = dstStream

/-- The elements of `in_buf` that a step uses, the terminating NUL included. -/
def inBufIndices (r : Reader) : List Nat :=
  match r.phase with
  | .fill => if r.inBuf.length < 64 then [r.inBuf.length] else []
  | .flush _ => List.range (r.inBuf.length + 1)
  | .returned _ => []

section

variable {flags : Int32} {b : UInt8} {stream buf out : List UInt8}

theorem readStep_fill (hlen : buf.length < 64) : readStep flags ⟨.fill, stream, buf, out⟩ =
    readChar flags ⟨.fill, (fgetc stream).2, buf, out⟩ (fgetc stream).1 := if_pos hlen

theorem readStep_keep (hlen : buf.length < 64) (hexit : (b.toNat : Int) ≠ exitChar flags)
    (hb : 32 < b.toNat) : readStep flags ⟨.fill, b :: stream, buf, out⟩ =
      ⟨.fill, stream, buf ++ [b], out⟩ := by
  have heof : (b.toNat : Int) ≠ -1 := by omega
  have hspace : ¬ (b.toNat : Int) ≤ 32 := by omega
  rw [readStep_fill hlen, fgetc, readChar, if_neg hexit, if_neg heof, if_neg hspace, Int.toNat_natCast,
    UInt8.ofNat_toNat]

theorem readStep_cut (hlen : buf.length < 64) (hexit : (b.toNat : Int) ≠ exitChar flags)
    (hb : b.toNat ≤ 32) : readStep flags ⟨.fill, b :: stream, buf, out⟩ =
      ⟨.flush false, stream, buf, out⟩ := by
  have heof : (b.toNat : Int) ≠ -1 := by omega
  have hspace : (b.toNat : Int) ≤ 32 := by omega
  rw [readStep_fill hlen, fgetc, readChar, if_neg hexit, if_neg heof, if_pos hspace]

theorem readStep_stop_empty (hexit : (b.toNat : Int) = exitChar flags) :
    readStep flags ⟨.fill, b :: stream, [], out⟩ = ⟨.returned 1, stream, [], out⟩ := by
  rw [readStep_fill (by decide), fgetc, readChar, if_pos hexit]
  rfl

theorem readStep_stop (hlen : buf.length < 64) (hbuf : buf ≠ [])
    (hexit : (b.toNat : Int) = exitChar flags) :
    readStep flags ⟨.fill, b :: stream, buf, out⟩ = ⟨.flush true, stream, buf, out⟩ := by
  rw [readStep_fill hlen, fgetc, readChar, if_pos hexit]
  exact if_neg (mt List.length_eq_zero_iff.mp hbuf)

/-- The end of the stream may also be the exit character. -/
theorem readStep_eof (hlen : buf.length < 64) :
    readStep flags ⟨.fill, [], buf, out⟩ = ⟨.flush true, [], buf, out⟩ ∨
      buf = [] ∧ readStep flags ⟨.fill, [], buf, out⟩ = ⟨.returned 1, [], buf, out⟩ := by
  by_cases hexit : -1 = exitChar flags
  · by_cases hbuf : buf.length = 0
    · refine .inr ⟨List.length_eq_zero_iff.mp hbuf, ?_⟩
      rw [readStep_fill hlen, fgetc, readChar, if_pos hexit]
      exact if_pos hbuf
    · refine .inl ?_
      rw [readStep_fill hlen, fgetc, readChar, if_pos hexit]
      exact if_neg hbuf
  · refine .inl ?_
    rw [readStep_fill hlen, fgetc, readChar, if_neg hexit]
    rfl

theorem readStep_full (hlen : ¬ buf.length < 64) :
    readStep flags ⟨.fill, stream, buf, out⟩ = ⟨.flush false, stream, buf, out⟩ := by
  simp only [readStep, if_neg hlen]

theorem readStep_line {termSeen : Bool}
    (h : uuStyleEnd flags = true ∧ buf = textBytes "====".toList) :
    readStep flags ⟨.flush termSeen, stream, buf, out⟩ = ⟨.returned 1, stream, buf, out⟩ := by
  simp only [readStep, if_pos h]

theorem readStep_last (h : ¬ (uuStyleEnd flags = true ∧ buf = textBytes "====".toList)) :
    readStep flags ⟨.flush true, stream, buf, out⟩ =
      ⟨.returned (if (decodeBase64 buf).2 = [] then 1 else 0), stream, buf,
        out ++ (decodeBase64 buf).1⟩ := by
  simp only [readStep, if_neg h, if_true]

theorem readStep_more (h : ¬ (uuStyleEnd flags = true ∧ buf = textBytes "====".toList)) :
    readStep flags ⟨.flush false, stream, buf, out⟩ =
      ⟨.fill, stream, (decodeBase64 buf).2, out ++ (decodeBase64 buf).1⟩ := by
  simp only [readStep, if_neg h, Bool.false_eq_true, if_false]

end

/-- What a step can do. -/
inductive ReadMove (flags : Int32) : Reader → Reader → Prop
  | keep {b : UInt8} {stream buf out : List UInt8} (hlen : buf.length < 64)
      (hexit : (b.toNat : Int) ≠ exitChar flags) (hb : 32 < b.toNat) :
      ReadMove flags ⟨.fill, b :: stream, buf, out⟩ ⟨.fill, stream, buf ++ [b], out⟩
  | cut {b : UInt8} {stream buf out : List UInt8} (hexit : (b.toNat : Int) ≠ exitChar flags)
      (hb : b.toNat ≤ 32) :
      ReadMove flags ⟨.fill, b :: stream, buf, out⟩ ⟨.flush false, stream, buf, out⟩
  | stop {b : UInt8} {stream buf out : List UInt8} (hexit : (b.toNat : Int) = exitChar flags) :
      ReadMove flags ⟨.fill, b :: stream, buf, out⟩ ⟨.flush true, stream, buf, out⟩
  | stopEmpty {b : UInt8} {stream out : List UInt8} (hexit : (b.toNat : Int) = exitChar flags) :
      ReadMove flags ⟨.fill, b :: stream, [], out⟩ ⟨.returned 1, stream, [], out⟩
  | eof {buf out : List UInt8} : ReadMove flags ⟨.fill, [], buf, out⟩ ⟨.flush true, [], buf, out⟩
  | eofEmpty {out : List UInt8} : ReadMove flags ⟨.fill, [], [], out⟩ ⟨.returned 1, [], [], out⟩
  | full {stream buf out : List UInt8} :
      ReadMove flags ⟨.fill, stream, buf, out⟩ ⟨.flush false, stream, buf, out⟩
  | line {termSeen : Bool} {stream buf out : List UInt8} (huu : uuStyleEnd flags = true) :
      ReadMove flags ⟨.flush termSeen, stream, buf, out⟩ ⟨.returned 1, stream, buf, out⟩
  | last {stream buf out : List UInt8} : ReadMove flags ⟨.flush true, stream, buf, out⟩
      ⟨.returned (if (decodeBase64 buf).2 = [] then 1 else 0), stream, buf, out ++ (decodeBase64 buf).1⟩
  | more {stream buf out : List UInt8} : ReadMove flags ⟨.flush false, stream, buf, out⟩
      ⟨.fill, stream, (decodeBase64 buf).2, out ++ (decodeBase64 buf).1⟩
  | done {ret : Int} {stream buf out : List UInt8} :
      ReadMove flags ⟨.returned ret, stream, buf, out⟩ ⟨.returned ret, stream, buf, out⟩

theorem readMove_readStep (flags : Int32) (r : Reader) : ReadMove flags r (readStep flags r) := by
  obtain ⟨phase, stream, buf, out⟩ := r
  cases phase with
  | fill =>
    by_cases hlen : buf.length < 64
    · cases stream with
      | nil =>
        rcases @readStep_eof flags buf out hlen with he | ⟨rfl, he⟩
        · exact he ▸ .eof
        · exact he ▸ .eofEmpty
      | cons b stream =>
        by_cases hexit : (b.toNat : Int) = exitChar flags
        · by_cases hbuf : buf = []
          · subst hbuf
            exact readStep_stop_empty hexit ▸ .stopEmpty hexit
          · exact readStep_stop hlen hbuf hexit ▸ .stop hexit
        · by_cases hb : 32 < b.toNat
          · exact readStep_keep hlen hexit hb ▸ .keep hlen hexit hb
          · exact readStep_cut hlen hexit (Nat.le_of_not_lt hb) ▸ .cut hexit (Nat.le_of_not_lt hb)
    · exact readStep_full hlen ▸ .full
  | flush termSeen =>
    by_cases hline : uuStyleEnd flags = true ∧ buf = textBytes "====".toList
    · exact readStep_line hline ▸ .line hline.1
    · cases termSeen with
      | true => exact readStep_last hline ▸ .last
      | false => exact readStep_more hline ▸ .more
  | returned ret => exact .done

theorem ne_zero_of_lt {b : UInt8} (h : 32 < b.toNat) : b ≠ 0 := by
  rintro rfl
  exact absurd h (by decide)

structure Reader.Fits (r : Reader) : Prop where
  length_le : r.inBuf.length ≤ 64
  no_nul : 0 ∉ r.inBuf

theorem readStart_fits (stream : List UInt8) : (readStart stream).Fits :=
  ⟨Nat.zero_le _, List.not_mem_nil⟩

theorem Reader.Fits.readStep {r : Reader} (h : r.Fits) (flags : Int32) : (readStep flags r).Fits := by
  obtain ⟨hlen, hnul⟩ := h
  have hmove := readMove_readStep flags r
  generalize GstPlayd.readStep flags r = r' at hmove
  cases hmove with
  | keep hlt hexit hb =>
    refine ⟨?_, ?_⟩
    · rw [List.length_append]
      exact hlt
    · intro hmem
      rcases List.mem_append.mp hmem with hmem | hmem
      · exact hnul hmem
      · exact ne_zero_of_lt hb (List.mem_singleton.mp hmem).symm
  | more =>
    have hsuffix := decodeBase64_tail_suffix hnul
    exact ⟨hsuffix.length_le.trans hlen, not_mem_zero_of_suffix hnul hsuffix⟩
  | cut => exact ⟨hlen, hnul⟩
  | stop => exact ⟨hlen, hnul⟩
  | stopEmpty => exact ⟨hlen, hnul⟩
  | eof => exact ⟨hlen, hnul⟩
  | eofEmpty => exact ⟨hlen, hnul⟩
  | full => exact ⟨hlen, hnul⟩
  | line => exact ⟨hlen, hnul⟩
  | last => exact ⟨hlen, hnul⟩
  | done => exact ⟨hlen, hnul⟩

theorem readAfter_fits (flags : Int32) (stream : List UInt8) (n : ℕ) :
    (readAfter flags stream n).Fits :=
  Function.Iterate.rec Reader.Fits (readStart_fits stream) (fun _ h => h.readStep flags) n

theorem Reader.Fits.inBufIndices_lt {r : Reader} (h : r.Fits) {i : Nat} (hi : i ∈ inBufIndices r) :
    i < 66 := by
  have hlen := h.length_le
  obtain ⟨phase, stream, buf, out⟩ := r
  cases phase with
  | fill =>
    simp only [inBufIndices] at hi hlen
    split at hi
    · have he := List.mem_singleton.mp hi
      omega
    · exact absurd hi List.not_mem_nil
  | flush termSeen =>
    have hlt := List.mem_range.mp hi
    dsimp only at hlt hlen
    omega
  | returned ret => exact absurd hi List.not_mem_nil

/-- The buffers hold what is put into them, in each step of each call. -/
theorem readBase64_fits (flags : Int32) (stream : List UInt8) (n : ℕ) :
    (readAfter flags stream n).inBuf.length ≤ 64 ∧
      (∀ i ∈ inBufIndices (readAfter flags stream n), i < 66) ∧
      (decodeBase64 (readAfter flags stream n).inBuf).2 <:+ (readAfter flags stream n).inBuf ∧
      (decodeBase64 (readAfter flags stream n).inBuf).1.length ≤ 48 := by
  have hfits : (readAfter flags stream n).Fits := readAfter_fits flags stream n
  have hbound := decodeBase64_length hfits.no_nul
  have hlen := hfits.length_le
  refine ⟨hlen, fun i hi => hfits.inBufIndices_lt hi, decodeBase64_tail_suffix hfits.no_nul, ?_⟩
  omega

theorem lt_of_inTable {b : UInt8} (h : inTable b = true) : 32 < b.toNat := by
  have htable : (textBytes uuencTblBase64).all (fun ch => 32 < ch.toNat) = true := by decide
  rw [inTable, tblIndex, List.findIdx?_isSome, List.any_eq_true] at h
  obtain ⟨ch, hch, he⟩ := h
  have hlt : 32 < ch.toNat := of_decide_eq_true (List.all_eq_true.mp htable ch hch)
  exact beq_iff_eq.mp he ▸ hlt

theorem isJunk_of_le {b : UInt8} (h : b.toNat ≤ 32) : base64Code.isJunk b = true := by
  rw [isJunk_base64Code, Bool.not_eq_true', ← Bool.not_eq_true]
  exact fun hin => absurd (lt_of_inTable hin) (Nat.not_lt.mpr h)

/-- The part of a stream that is decoded. -/
def readText (flags : Int32) (stream : List UInt8) : List UInt8 :=
  (stream.takeWhile fun b => (b.toNat : Int) ≠ exitChar flags).filter (· ≠ 0)

theorem readText_stop {flags : Int32} {b : UInt8} (h : (b.toNat : Int) = exitChar flags)
    (stream : List UInt8) : readText flags (b :: stream) = [] := by
  rw [readText, List.takeWhile_cons_of_neg (by simpa using h)]
  rfl

theorem readText_keep {flags : Int32} {b : UInt8} (h : (b.toNat : Int) ≠ exitChar flags)
    (hb : b ≠ 0) (stream : List UInt8) : readText flags (b :: stream) = b :: readText flags stream := by
  rw [readText, List.takeWhile_cons_of_pos (by simpa using h), List.filter_cons_of_pos (by simpa using hb)]
  rfl

theorem readText_no_nul (flags : Int32) (stream : List UInt8) : 0 ∉ readText flags stream := by
  intro h
  simpa using (List.mem_filter.mp h).2

def decoded (s : List UInt8) : List UInt8 × List UInt8 := (base64Code.scan .fresh s).reading

theorem decoded_resume {s : List UInt8} (hs : 0 ∉ s) (t : List UInt8) : decoded (s ++ t) =
    ((decodeBase64 s).1 ++ (decoded ((decodeBase64 s).2 ++ t)).1, (decoded ((decodeBase64 s).2 ++ t)).2) := by
  rw [decodeBase64_eq_scan hs]
  exact base64Code.reading_resume s t

theorem decoded_junk {b : UInt8} (hb : b.toNat ≤ 32) (s t : List UInt8) :
    decoded (s ++ b :: t) = decoded (s ++ t) := by
  rw [decoded, decoded, GroupScan.Code.reading_scan, GroupScan.Code.reading_scan, List.foldl_append,
    List.foldl_append, List.foldl_cons, GroupScan.Code.feed_of_isJunk (isJunk_of_le hb)]

theorem decoded_cut {flags : Int32} {b : UInt8} (hexit : (b.toNat : Int) ≠ exitChar flags)
    (hb : b.toNat ≤ 32) (s stream : List UInt8) :
    decoded (s ++ readText flags (b :: stream)) = decoded (s ++ readText flags stream) := by
  by_cases hzero : b = 0
  · rw [readText, List.takeWhile_cons_of_pos (by simpa using hexit),
      List.filter_cons_of_neg (by simpa using hzero)]
    rfl
  · rw [readText_keep hexit hzero, decoded_junk hb]

theorem decoded_fst {s : List UInt8} (hs : 0 ∉ s) : (decoded s).1 = (decodeBase64 s).1 := by
  rw [decodeBase64_eq_scan hs]
  rfl

/-- What the reader still has to decode completes what it has written. -/
def Reader.Completes (flags : Int32) (whole : List UInt8 × List UInt8) (r : Reader) : Prop :=
  match r.phase with
  | .fill | .flush false =>
    let rest := decoded (r.inBuf ++ readText flags r.srcStream)
    whole = (r.dstStream ++ rest.1, rest.2)
  | .flush true => whole = (r.dstStream ++ (decoded r.inBuf).1, (decoded r.inBuf).2)
  | .returned ret => whole.1 = r.dstStream ∧ ret = if whole.2 = [] then 1 else 0

theorem Reader.Completes.readStep {flags : Int32} {whole : List UInt8 × List UInt8} {r : Reader}
    (huu : uuStyleEnd flags = false) (hfits : r.Fits) (h : r.Completes flags whole) :
    (readStep flags r).Completes flags whole := by
  obtain ⟨_, hnul⟩ := hfits
  have hmove := readMove_readStep flags r
  generalize GstPlayd.readStep flags r = r' at hmove
  cases hmove with
  | keep hlen hexit hb =>
    simp only [Completes] at h ⊢
    rw [h, readText_keep hexit (ne_zero_of_lt hb), List.append_assoc, List.singleton_append]
  | cut hexit hb =>
    simp only [Completes] at h ⊢
    rw [h, decoded_cut hexit hb]
  | stop hexit =>
    simp only [Completes] at h ⊢
    rw [h, readText_stop hexit, List.append_nil]
  | stopEmpty hexit =>
    simp only [Completes] at h ⊢
    rw [readText_stop hexit] at h
    rw [h]
    exact ⟨List.append_nil _, rfl⟩
  | eof =>
    simp only [Completes] at h ⊢
    rw [h]
    exact congrArg (fun s => (_ ++ (decoded s).1, (decoded s).2)) (List.append_nil _)
  | eofEmpty =>
    simp only [Completes] at h ⊢
    rw [h]
    exact ⟨List.append_nil _, rfl⟩
  | full => exact h
  | line huu' => exact absurd huu' (by simp [huu])
  | last =>
    simp only [Completes] at h ⊢
    rw [h, decoded_fst hnul]
    refine ⟨rfl, ?_⟩
    exact if_congr (decodeBase64_tail_eq_nil_iff hnul) rfl rfl
  | more =>
    simp only [Completes] at h ⊢
    rw [h, decoded_resume hnul, List.append_assoc]
  | done => exact h

/-- Decoding in rounds gives what decoding the whole text at once gives. -/
theorem readReturns_eq_decodeBase64 {flags : Int32} {stream out : List UInt8} {ret : Int}
    (huu : uuStyleEnd flags = false) (h : ReadReturns flags stream ret out) :
    out = (decodeBase64 (readText flags stream)).1 ∧
      ret = if (decodeBase64 (readText flags stream)).2 = [] then 1 else 0 := by
  obtain ⟨n, hphase, hout⟩ := h
  have hboth : (readAfter flags stream n).Fits ∧
      (readAfter flags stream n).Completes flags (decoded (readText flags stream)) :=
    Function.Iterate.rec (fun r : Reader => r.Fits ∧ r.Completes flags (decoded (readText flags stream)))
      ⟨readStart_fits stream, rfl⟩ (fun _ hr => ⟨hr.1.readStep flags, hr.2.readStep huu hr.1⟩) n
  have hdone := hboth.2
  simp only [Reader.Completes, hphase] at hdone
  have hnul := readText_no_nul flags stream
  refine ⟨?_, ?_⟩
  · rw [← hout, ← hdone.1, decoded_fst hnul]
  · rw [hdone.2]
    exact if_congr (decodeBase64_tail_eq_nil_iff hnul).symm rfl rfl

theorem readReturns_eq_decodeBase64_padded :
    [77, 97] = (decodeBase64 (readText 0x80 (textBytes "TW\nE=".toList))).1 ∧
      (1 : Int) = if (decodeBase64 (readText 0x80 (textBytes "TW\nE=".toList))).2 = [] then 1 else 0 :=
  @readReturns_eq_decodeBase64 0x80 (textBytes "TW\nE=".toList) [77, 97] 1 (by decide)
    ⟨8, by decide, by decide⟩

end GstPlayd
