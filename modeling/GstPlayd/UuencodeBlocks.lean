import GstPlayd.ReadTermination

/-! A text in lines with a "====" line after it, as `read_base64` takes it from
a stream that goes on. -/

namespace GstPlayd

def uuMark : List UInt8 := textBytes "====".toList

def uuBlock (pieces : List (List UInt8)) : List UInt8 :=
  (pieces.flatMap fun piece => piece ++ [10]) ++ (uuMark ++ [10])

/-- Only the "====" line ends the text. -/
structure UuStop (flags : Int32) : Prop where
  uu : uuStyleEnd flags = true
  alphabet : ∀ b : UInt8, inTable b = true → (b.toNat : Int) ≠ exitChar flags
  newline : (10 : Int) ≠ exitChar flags

def Reads (flags : Int32) (r r' : Reader) : Prop := ∃ n, (readStep flags)^[n] r = r'

section

variable {flags : Int32} {r r' r'' : Reader} {s t buf out rest piece : List UInt8} {pieces : List (List UInt8)}
  {b : UInt8}

theorem Reads.refl (flags : Int32) (r : Reader) : Reads flags r r := ⟨0, rfl⟩

theorem Reads.trans (h : Reads flags r r') (h' : Reads flags r' r'') : Reads flags r r'' := by
  obtain ⟨n, rfl⟩ := h
  obtain ⟨m, rfl⟩ := h'
  exact ⟨m + n, Function.iterate_add_apply _ m n r⟩

theorem no_nul_of_inTable (hs : ∀ b ∈ s, inTable b = true) : 0 ∉ s := fun h =>
  ne_zero_of_lt (lt_of_inTable (hs 0 h)) rfl

theorem tally_clean (hs : ∀ b ∈ s, inTable b = true) :
    (tally s).group = (tally s).values ∧ (tally s).values < 4 := by
  induction s using List.reverseRecOn with
  | nil => exact ⟨rfl, by decide⟩
  | append_singleton s b ih =>
    obtain ⟨hg, -⟩ := ih fun c hc => hs c (List.mem_append_left _ hc)
    rw [tally_snoc]
    exact Tally.keep_clean (hs b (by simp)) hg

theorem length_tail (hs : ∀ b ∈ s, inTable b = true) : (decodeBase64 s).2.length = (decoded s).2.length := by
  obtain ⟨hg, -⟩ := tally_clean hs
  have hvalues : (tally s).values = (decoded s).2.length := rfl
  rw [← tally_kept, tally_tail (no_nul_of_inTable hs), ← hvalues]
  by_cases hzero : (tally s).values = 0
  · rw [Tally.round, if_pos hzero, hzero]
  · rw [Tally.round, if_neg hzero, ← hg]

theorem length_tail_lt (hs : ∀ b ∈ s, inTable b = true) : (decodeBase64 s).2.length < 4 := by
  rw [length_tail hs]
  exact (tally_clean hs).2

/-- The reader has taken `s`: it has written some of it and holds the rest. -/
structure Taken (s buf out : List UInt8) : Prop where
  suffix : buf <:+ s
  resumes : ∀ t, decoded (s ++ t) = (out ++ (decoded (buf ++ t)).1, (decoded (buf ++ t)).2)

theorem taken_nil : Taken [] [] [] := ⟨List.suffix_rfl, fun _ => rfl⟩

theorem Taken.inTable (h : Taken s buf out) (hs : ∀ b ∈ s, GstPlayd.inTable b = true) :
    ∀ b ∈ buf, GstPlayd.inTable b = true := fun b hb => hs b (h.suffix.subset hb)

theorem Taken.char (h : Taken s buf out) (b : UInt8) : Taken (s ++ [b]) (buf ++ [b]) out := by
  refine ⟨List.suffix_append_self_iff.mpr h.suffix, ?_⟩
  intro t
  rw [List.append_assoc, List.append_assoc, h.resumes]

theorem Taken.flush (h : Taken s buf out) (hs : ∀ b ∈ s, GstPlayd.inTable b = true) :
    Taken s (decodeBase64 buf).2 (out ++ (decodeBase64 buf).1) := by
  have hnul := no_nul_of_inTable (h.inTable hs)
  refine ⟨(decodeBase64_tail_suffix hnul).trans h.suffix, ?_⟩
  intro t
  rw [h.resumes, decoded_resume hnul, List.append_assoc]

theorem Taken.decoded_snd (h : Taken s buf out) : (decoded buf).2 = (decoded s).2 := by
  have hh := h.resumes []
  rw [List.append_nil, List.append_nil] at hh
  exact (congrArg Prod.snd hh).symm

theorem reads_keep (hflags : UuStop flags) (hb : inTable b = true) (hroom : buf.length < 64) :
    Reads flags ⟨.fill, b :: rest, buf, out⟩ ⟨.fill, rest, buf ++ [b], out⟩ :=
  ⟨1, readStep_keep hroom (hflags.alphabet b hb) (lt_of_inTable hb)⟩

/-- A buffer that gets full is decoded at once. -/
theorem reads_char (hflags : UuStop flags) (h : Taken s buf out) (hroom : buf.length < 64)
    (hs : ∀ c ∈ s ++ [b], inTable c = true) :
    ∃ buf' out', Reads flags ⟨.fill, b :: rest, buf, out⟩ ⟨.fill, rest, buf', out'⟩ ∧
      Taken (s ++ [b]) buf' out' ∧ buf'.length < 64 := by
  have hkeep : Reads flags ⟨.fill, b :: rest, buf, out⟩ ⟨.fill, rest, buf ++ [b], out⟩ :=
    reads_keep hflags (hs b (by simp)) hroom
  have hchar := h.char b
  by_cases hfull : (buf ++ [b]).length < 64
  · exact ⟨_, _, hkeep, hchar, hfull⟩
  · have hmark : ¬ (uuStyleEnd flags = true ∧ buf ++ [b] = textBytes "====".toList) := by
      intro hh
      rw [hh.2] at hfull
      exact absurd hfull (by decide)
    have hflush : Reads flags ⟨.fill, rest, buf ++ [b], out⟩ _ :=
      ⟨2, by rw [Function.iterate_succ_apply, Function.iterate_one, readStep_full hfull, readStep_more hmark]⟩
    have hshort := length_tail_lt (hchar.inTable hs)
    exact ⟨_, _, hkeep.trans hflush, hchar.flush hs, by omega⟩

theorem reads_piece (hflags : UuStop flags) (h : Taken s buf out) (hroom : buf.length < 64)
    (hs : ∀ c ∈ s ++ piece, inTable c = true) :
    ∃ buf' out', Reads flags ⟨.fill, piece ++ rest, buf, out⟩ ⟨.fill, rest, buf', out'⟩ ∧
      Taken (s ++ piece) buf' out' ∧ buf'.length < 64 := by
  induction piece generalizing s buf out with
  | nil => exact ⟨buf, out, .refl _ _, by rwa [List.append_nil], hroom⟩
  | cons b piece ih =>
    have hsplit : s ++ b :: piece = (s ++ [b]) ++ piece := by rw [List.append_assoc, List.singleton_append]
    rw [hsplit] at hs ⊢
    obtain ⟨buf₁, out₁, hread, htaken, hroom₁⟩ := @reads_char _ _ _ _ (piece ++ rest) b hflags h hroom
      fun c hc => hs c (List.mem_append_left _ hc)
    obtain ⟨buf₂, out₂, hread', htaken', hroom₂⟩ := ih htaken hroom₁ hs
    exact ⟨buf₂, out₂, hread.trans hread', htaken', hroom₂⟩

theorem reads_newline (hflags : UuStop flags) (hroom : buf.length < 64) (hmark : buf ≠ uuMark) :
    Reads flags ⟨.fill, 10 :: rest, buf, out⟩
      ⟨.fill, rest, (decodeBase64 buf).2, out ++ (decodeBase64 buf).1⟩ := by
  have hcut : readStep flags ⟨.fill, 10 :: rest, buf, out⟩ = ⟨.flush false, rest, buf, out⟩ :=
    readStep_cut hroom hflags.newline (by decide)
  exact ⟨2, by rw [Function.iterate_succ_apply, Function.iterate_one, hcut, readStep_more fun h => hmark h.2]⟩

theorem reads_mark (hflags : UuStop flags) :
    Reads flags ⟨.fill, 10 :: rest, uuMark, out⟩ ⟨.returned 1, rest, uuMark, out⟩ := by
  have hcut : readStep flags ⟨.fill, 10 :: rest, uuMark, out⟩ = ⟨.flush false, rest, uuMark, out⟩ :=
    readStep_cut (by decide) hflags.newline (by decide)
  have hline : readStep flags ⟨.flush false, rest, uuMark, out⟩ = ⟨.returned 1, rest, uuMark, out⟩ :=
    readStep_line ⟨hflags.uu, rfl⟩
  exact ⟨2, by rw [Function.iterate_succ_apply, Function.iterate_one, hcut, hline]⟩

/-- A line ends with the open group, if there is one, in the buffer. -/
structure LineStart (s buf out : List UInt8) : Prop extends Taken s buf out where
  length : buf.length = (decoded s).2.length

theorem lineStart_nil : LineStart [] [] [] := ⟨taken_nil, rfl⟩

theorem LineStart.short (h : LineStart s buf out) (hs : ∀ c ∈ s, GstPlayd.inTable c = true) :
    buf.length < 4 := by
  rw [h.length]
  exact (tally_clean hs).2

theorem reads_line (hflags : UuStop flags) (h : LineStart s buf out) (hs : ∀ c ∈ s ++ piece, inTable c = true)
    (hmark : ¬ uuMark <:+ s ++ piece) :
    ∃ buf' out', Reads flags ⟨.fill, piece ++ 10 :: rest, buf, out⟩ ⟨.fill, rest, buf', out'⟩ ∧
      LineStart (s ++ piece) buf' out' := by
  have hshort := h.short fun c hc => hs c (List.mem_append_left _ hc)
  have hroom : buf.length < 64 := by omega
  obtain ⟨buf', out', hread, htaken, hroom'⟩ := @reads_piece _ _ _ _ (10 :: rest) _ hflags h.toTaken hroom hs
  have hline : buf' ≠ uuMark := by
    rintro rfl
    exact hmark htaken.suffix
  have hlength := length_tail (htaken.inTable hs)
  rw [htaken.decoded_snd] at hlength
  exact ⟨_, _, hread.trans (reads_newline hflags hroom' hline), htaken.flush hs, hlength⟩

/-- No line shows the mark at its end, whatever stands before it. -/
def Unmarked (s : List UInt8) (pieces : List (List UInt8)) : Prop :=
  ∀ newer older, pieces = newer ++ older → ¬ uuMark <:+ s ++ newer.flatten

theorem Unmarked.tail (h : Unmarked s (piece :: pieces)) : Unmarked (s ++ piece) pieces := by
  intro newer older hsplit
  have hcons := h (piece :: newer) older (by rw [hsplit, List.cons_append])
  rwa [List.flatten_cons, ← List.append_assoc] at hcons

theorem reads_lines (hflags : UuStop flags) (h : LineStart s buf out)
    (hs : ∀ c ∈ s ++ pieces.flatten, inTable c = true) (hmark : Unmarked s pieces) :
    ∃ buf' out', Reads flags ⟨.fill, (pieces.flatMap fun piece => piece ++ [10]) ++ rest, buf, out⟩
        ⟨.fill, rest, buf', out'⟩ ∧ LineStart (s ++ pieces.flatten) buf' out' := by
  induction pieces generalizing s buf out with
  | nil => exact ⟨buf, out, .refl _ _, by simpa using h⟩
  | cons piece pieces ih =>
    have hfirst := hmark [piece] pieces rfl
    rw [List.flatten_cons, ← List.append_assoc] at hs ⊢
    rw [List.flatten_singleton] at hfirst
    obtain ⟨buf₁, out₁, hread, hline⟩ := @reads_line _ _ _ _
      ((pieces.flatMap fun piece => piece ++ [10]) ++ rest) _ hflags h
      (fun c hc => hs c (List.mem_append_left _ hc)) hfirst
    obtain ⟨buf₂, out₂, hread', hline'⟩ := ih hline hs hmark.tail
    refine ⟨buf₂, out₂, ?_, hline'⟩
    rw [List.flatMap_cons, List.append_assoc, List.append_assoc, List.singleton_append]
    exact hread.trans hread'

theorem reads_fitting (hflags : UuStop flags) (hs : ∀ c ∈ piece, inTable c = true)
    (hroom : buf.length + piece.length ≤ 64) :
    Reads flags ⟨.fill, piece ++ rest, buf, out⟩ ⟨.fill, rest, buf ++ piece, out⟩ := by
  induction piece generalizing buf with
  | nil =>
    rw [List.append_nil]
    exact .refl _ _
  | cons b piece ih =>
    rw [List.length_cons] at hroom
    have hkeep : Reads flags ⟨.fill, b :: (piece ++ rest), buf, out⟩ ⟨.fill, piece ++ rest, buf ++ [b], out⟩ :=
      reads_keep hflags (hs b List.mem_cons_self) (by omega)
    have hless : (buf ++ [b]).length + piece.length ≤ 64 := by
      rw [List.length_append, List.length_singleton]
      omega
    have hrest := ih (fun c hc => hs c (List.mem_cons_of_mem b hc)) hless
    rw [List.append_assoc, List.singleton_append] at hrest
    exact hkeep.trans hrest

theorem inTable_uuMark : ∀ c ∈ uuMark, inTable c = true := List.all_eq_true.mp (by decide)

theorem readAfter_block (hflags : UuStop flags) (hs : ∀ c ∈ pieces.flatten, inTable c = true)
    (hmark : Unmarked [] pieces) (rest : List UInt8) :
    ∃ buf out, Reads flags (readStart (uuBlock pieces ++ rest)) ⟨.fill, 10 :: rest, buf ++ uuMark, out⟩ ∧
      LineStart pieces.flatten buf out := by
  obtain ⟨buf, out, hread, hline⟩ := @reads_lines _ _ _ _ (uuMark ++ 10 :: rest) _ hflags lineStart_nil hs hmark
  have hshort := hline.short hs
  have hlength : uuMark.length = 4 := rfl
  have hequals : Reads flags ⟨.fill, uuMark ++ 10 :: rest, buf, out⟩ ⟨.fill, 10 :: rest, buf ++ uuMark, out⟩ :=
    reads_fitting hflags inTable_uuMark (by omega)
  refine ⟨buf, out, ?_, hline⟩
  have hblock : uuBlock pieces ++ rest =
      (pieces.flatMap fun piece => piece ++ [10]) ++ (uuMark ++ 10 :: rest) := by
    rw [uuBlock, List.append_assoc, List.append_assoc, List.singleton_append]
  rw [readStart, hblock]
  exact hread.trans hequals

/-- The mark ends the text where the last group is closed, and the stream goes
on after it. -/
theorem reads_closed_block (hflags : UuStop flags) (hs : ∀ c ∈ pieces.flatten, inTable c = true)
    (hmark : Unmarked [] pieces) (hclosed : (decoded pieces.flatten).2 = []) (rest : List UInt8) :
    Reads flags (readStart (uuBlock pieces ++ rest))
      ⟨.returned 1, rest, uuMark, (decoded pieces.flatten).1⟩ := by
  obtain ⟨buf, out, hread, hline⟩ := readAfter_block hflags hs hmark rest
  have hlength := hline.length
  rw [hclosed, List.length_nil] at hlength
  obtain rfl := List.length_eq_zero_iff.mp hlength
  have hout := hline.resumes []
  rw [List.append_nil] at hout
  have hnil : decoded ([] ++ []) = ([], []) := rfl
  rw [hout, hnil, List.append_nil]
  exact hread.trans (reads_mark hflags)

theorem unmarked_of_count (hcount : pieces.flatten.count 61 < 4) : Unmarked [] pieces := by
  intro newer older hsplit hsuffix
  have hle : uuMark.count 61 ≤ pieces.flatten.count 61 := by
    rw [hsplit, List.flatten_append, List.count_append]
    exact Nat.le_add_right_of_le (hsuffix.sublist.count_le 61)
  have hfour : uuMark.count 61 = 4 := rfl
  omega

theorem inTable_standardByte {v : ℕ} (h : v < 64) : inTable (standardByte v) = true ∧ standardByte v ≠ 61 := by
  have htable : (List.range 64).all (fun v => inTable (standardByte v) && standardByte v != 61) = true := by
    decide
  have hv := List.all_eq_true.mp htable v (List.mem_range.mpr h)
  simpa using hv

theorem inTable_standardBytes {vs : List ℕ} (h : ∀ v ∈ vs, v < 64) :
    ∀ c ∈ textBytes (vs.map Base64.standardChar), inTable c = true ∧ c ≠ 61 := by
  rw [textBytes_standard h]
  intro c hc
  obtain ⟨v, hv, rfl⟩ := List.mem_map.mp hc
  exact inTable_standardByte (h v hv)

theorem padded_bytes {vs : List ℕ} (h : ∀ v ∈ vs, v < 64) (k : ℕ) :
    (∀ c ∈ textBytes (vs.map Base64.standardChar ++ List.replicate k '='), inTable c = true) ∧
      (textBytes (vs.map Base64.standardChar ++ List.replicate k '=')).count 61 = k := by
  have hpads : textBytes (List.replicate k '=') = List.replicate k 61 := by
    induction k with
    | zero => rfl
    | succ k ih => exact congrArg (61 :: ·) ih
  have hno : 61 ∉ textBytes (vs.map Base64.standardChar) := fun hm => (inTable_standardBytes h 61 hm).2 rfl
  rw [textBytes_append, hpads, List.count_append, List.count_eq_zero.mpr hno, List.count_replicate_self,
    Nat.zero_add]
  refine ⟨?_, rfl⟩
  intro c hc
  rcases List.mem_append.mp hc with hc | hc
  · exact (inTable_standardBytes h c hc).1
  · rw [List.eq_of_mem_replicate hc]
    rfl

theorem uuencode_bytes (src : List UInt8) :
    (∀ c ∈ textBytes (uuencode uuencTblBase64 src), inTable c = true) ∧
      (textBytes (uuencode uuencTblBase64 src)).count 61 ≤ 2 := by
  have hlt : ∀ n k, ∀ v ∈ (Base64.sextets n).take k, v < 64 := fun _ _ _ hv =>
    sextets_lt (List.mem_of_mem_take hv)
  rw [uuencode_eq_encode]
  induction src using Base64.encode.induct with
  | case1 => exact ⟨by simp [Base64.encode, textBytes], by decide⟩
  | case2 b0 =>
    obtain ⟨hin, hcount⟩ := padded_bytes (hlt (Base64.group b0 0 0) 2) 2
    exact ⟨hin, Nat.le_of_eq hcount⟩
  | case3 b0 b1 =>
    obtain ⟨hin, hcount⟩ := padded_bytes (hlt (Base64.group b0 b1 0) 3) 1
    exact ⟨hin, (Nat.le_of_eq hcount).trans (by decide)⟩
  | case4 b0 b1 b2 bs ih =>
    obtain ⟨hin, hcount⟩ := padded_bytes (hlt (Base64.group b0 b1 b2) 4) 0
    have hgroup : textBytes (Base64.encode Base64.standard (b0 :: b1 :: b2 :: bs)) =
        textBytes (((Base64.sextets (Base64.group b0 b1 b2)).take 4).map Base64.standardChar ++
          List.replicate 0 '=') ++ textBytes (Base64.encode Base64.standard bs) := textBytes_append _ _
    rw [hgroup, List.count_append, hcount, Nat.zero_add]
    refine ⟨?_, ih.2⟩
    intro c hc
    rcases List.mem_append.mp hc with hc | hc
    · exact hin c hc
    · exact ih.1 c hc

theorem decoded_uuencode (src : List UInt8) :
    decoded (textBytes (uuencode uuencTblBase64 src)) = (src, []) := by
  have hfeed := feed_encode src []
  rw [List.nil_append, ← uuencode_eq_encode] at hfeed
  rw [decoded, GroupScan.Code.reading_scan]
  exact hfeed

/-- A text with line breaks anywhere in it and the mark after it is read back,
and what follows in the stream is left there. -/
theorem uuBlock_read_back (hflags : UuStop flags) {src : List UInt8}
    (hs : pieces.flatten = textBytes (uuencode uuencTblBase64 src)) (rest : List UInt8) :
    ∃ n, readAfter flags (uuBlock pieces ++ rest) n = ⟨.returned 1, rest, uuMark, src⟩ := by
  obtain ⟨hin, hcount⟩ := uuencode_bytes src
  rw [← hs] at hin hcount
  have hdecoded := decoded_uuencode src
  rw [← hs] at hdecoded
  have hread := reads_closed_block hflags hin (unmarked_of_count (by omega)) (by rw [hdecoded]) rest
  rwa [hdecoded] at hread

theorem uuStop_no_stop_char : UuStop 0x180 := by
  have hexit : exitChar 0x180 = -128 := by decide
  refine ⟨by decide, fun b _ => ?_, by decide⟩
  rw [hexit]
  omega

theorem uuBlock_read_back_broken : ∃ n, readAfter 0x180
    (uuBlock [textBytes "TW".toList, textBytes "E=".toList] ++ textBytes "next".toList) n =
      ⟨.returned 1, textBytes "next".toList, uuMark, [77, 97]⟩ :=
  uuBlock_read_back uuStop_no_stop_char (by decide) _

/-- What is read after the mark was missed has taken more of the stream. -/
structure After (rest : List UInt8) (r : Reader) : Prop where
  suffix : r.srcStream <:+ rest
  fresh : r.srcStream = rest → r.inBuf = []

theorem After.shorter (h : b :: t <:+ rest) (out : List UInt8) (phase : ReadPhase) :
    After rest ⟨phase, t, buf, out⟩ := by
  refine ⟨(List.suffix_cons b t).trans h, ?_⟩
  rintro rfl
  exact absurd h.length_le (Nat.not_succ_le_self t.length)

theorem After.readStep (h : After rest r) (flags : Int32) : After rest (readStep flags r) := by
  have hmove := readMove_readStep flags r
  generalize GstPlayd.readStep flags r = r' at hmove
  cases hmove with
  | keep => exact After.shorter h.suffix _ _
  | cut => exact After.shorter h.suffix _ _
  | stop => exact After.shorter h.suffix _ _
  | stopEmpty => exact After.shorter h.suffix _ _
  | eof => exact ⟨h.suffix, h.fresh⟩
  | eofEmpty => exact ⟨h.suffix, h.fresh⟩
  | full => exact ⟨h.suffix, h.fresh⟩
  | line => exact ⟨h.suffix, h.fresh⟩
  | last => exact ⟨h.suffix, h.fresh⟩
  | done => exact h
  | @more stream buf out =>
    refine ⟨h.suffix, fun hs => ?_⟩
    have hnil : buf = [] := h.fresh hs
    rw [hnil]
    rfl

end

end GstPlayd
