import GstPlayd.ReadBase64

/-! When `read_base64` returns. A round takes bytes from the stream only if the
tail of the round before leaves room in the buffer. -/

namespace GstPlayd

/-- The characters in the buffer: all of them, the padding, and those of the
open group with its values. -/
structure Tally where
  kept : Nat
  stops : Nat
  group : Nat
  values : Nat

def Tally.keep (t : Tally) (b : UInt8) : Tally :=
  match tblIndex b with
  | none => ⟨t.kept + 1, t.stops, t.group + 1, t.values⟩
  | some i =>
    if i = 64 then ⟨t.kept + 1, t.stops + 1, 0, 0⟩
    else if t.values + 1 < 4 then ⟨t.kept + 1, t.stops, t.group + 1, t.values + 1⟩
    else ⟨t.kept + 1, t.stops, 0, 0⟩

/-- At the end of a round only an open group is kept. -/
def Tally.round (t : Tally) : Tally :=
  if t.values = 0 then ⟨0, 0, 0, 0⟩ else ⟨t.group, 0, t.group, t.values⟩

/-- The stream fills the whole buffer with one open group. A round ends at a
space or control character and when the buffer is full. -/
def stalls (flags : Int32) : Tally → List UInt8 → Bool
  | _, [] => false
  | t, b :: stream =>
    if (b.toNat : Int) = exitChar flags then false
    else if b.toNat ≤ 32 then
      if uuStyleEnd flags = true ∧ t.kept = 4 ∧ t.stops = 4 then false
      else stalls flags t.round stream
    else if (t.keep b).kept < 64 then stalls flags (t.keep b) stream
    else if (t.keep b).round.kept < 64 then stalls flags (t.keep b).round stream
    else true

def tally (s : List UInt8) : Tally :=
  ⟨s.length, s.count 61, (base64Code.scan .fresh s).text.length, (base64Code.scan .fresh s).values.length⟩

theorem tally_kept (s : List UInt8) : (tally s).kept = s.length := rfl

theorem tblIndex_eq_stop_iff (b : UInt8) : tblIndex b = some 64 ↔ b = 61 := by
  constructor
  · intro h
    obtain ⟨hlt, he, _⟩ := List.findIdx?_eq_some_iff_getElem.mp h
    exact (beq_iff_eq.mp he).symm
  · rintro rfl
    rfl

theorem symbol_eq_stop_iff (b : UInt8) : base64Code.symbol b = .stop ↔ b = 61 := by
  rw [← tblIndex_eq_stop_iff]
  cases hi : tblIndex b with
  | none => simp [base64Code, hi]
  | some i =>
    by_cases hstop : i = 64
    · simp [base64Code, hi, hstop]
    · simp [base64Code, hi, hstop]

theorem tally_snoc (s : List UInt8) (b : UInt8) : tally (s ++ [b]) = (tally s).keep b := by
  have hcount : (s ++ [b]).count 61 = s.count 61 + if b = 61 then 1 else 0 := by
    rw [List.count_append, List.count_singleton]
    simp only [beq_iff_eq]
  rw [tally, GroupScan.Code.scan_snoc, hcount, List.length_append, List.length_singleton]
  cases hi : tblIndex b with
  | none =>
    have hs : base64Code.symbol b = .junk := by simp only [base64Code, hi]
    have hne : ¬ b = 61 := fun h => by simp [(tblIndex_eq_stop_iff b).mpr h] at hi
    rw [GroupScan.Code.step_junk hs, if_neg hne, Tally.keep, hi]
    simp [tally]
  | some i =>
    by_cases hstop : i = 64
    · have he : b = 61 := (tblIndex_eq_stop_iff b).mp (hstop ▸ hi)
      rw [GroupScan.Code.step_stop ((symbol_eq_stop_iff b).mpr he), if_pos he, Tally.keep, hi]
      exact (if_pos hstop).symm
    · have hne : ¬ b = 61 := fun h => by
        rw [(tblIndex_eq_stop_iff b).mpr h] at hi
        exact hstop (Option.some.inj hi).symm
      have hs : base64Code.symbol b = .value (UInt8.ofNat i) := by
        simp only [base64Code, hi, if_neg hstop]
      rw [if_neg hne, Tally.keep, hi]
      refine Eq.trans ?_ (if_neg hstop).symm
      by_cases hlt : (base64Code.scan .fresh s).values.length + 1 < 4
      · rw [GroupScan.Code.step_value hs hlt]
        refine Eq.trans ?_ (if_pos hlt).symm
        simp [tally]
      · rw [GroupScan.Code.step_last hs hlt]
        exact (if_neg hlt).symm

theorem tally_tail {s : List UInt8} (hs : 0 ∉ s) : tally (decodeBase64 s).2 = (tally s).round := by
  have hst := @GroupScan.Code.consistent_scan_fresh _ _ _ base64Code s
  rw [decodeBase64_eq_scan hs, tally, hst.scan_rest, Tally.round]
  by_cases hv : (base64Code.scan .fresh s).values = []
  · rw [GroupScan.State.rest_of_nil hv, hv]
    exact (if_pos (congrArg List.length hv)).symm
  · have hcount : (base64Code.scan .fresh s).text.count 61 = 0 := by
      rw [List.count_eq_zero]
      exact fun h => hst.no_stop 61 h symbol_pad
    rw [GroupScan.State.rest_of_ne_nil hv, hcount]
    exact (if_neg (mt List.length_eq_zero_iff.mp hv)).symm

theorem eq_line_iff_tally (s : List UInt8) :
    s = textBytes "====".toList ↔ (tally s).kept = 4 ∧ (tally s).stops = 4 := by
  have hline : textBytes "====".toList = List.replicate 4 61 := rfl
  rw [hline]
  constructor
  · rintro rfl
    exact ⟨rfl, rfl⟩
  · intro h
    obtain ⟨hlen, hcount⟩ := h
    change s.length = 4 at hlen
    change s.count 61 = 4 at hcount
    have hall := List.count_eq_length.mp (hcount.trans hlen.symm)
    exact List.eq_replicate_iff.mpr ⟨hlen, fun b hb => (hall b hb).symm⟩

def Halts (flags : Int32) (r : Reader) : Prop :=
  ∃ n ret, ((readStep flags)^[n] r).phase = .returned ret

theorem readStep_of_returned {flags : Int32} {r : Reader} {ret : Int} (h : r.phase = .returned ret) :
    readStep flags r = r := by
  simp only [readStep, h]

theorem halts_readStep_iff {flags : Int32} {r : Reader} : Halts flags (readStep flags r) ↔ Halts flags r := by
  constructor
  · rintro ⟨n, ret, h⟩
    exact ⟨n + 1, ret, h⟩
  · rintro ⟨n, ret, h⟩
    refine ⟨n, ret, ?_⟩
    rw [← Function.iterate_succ_apply, Function.iterate_succ_apply', readStep_of_returned h, h]

theorem halts_of_returned {flags : Int32} {r : Reader} {ret : Int} (h : r.phase = .returned ret) :
    Halts flags r := ⟨0, ret, h⟩

theorem halts_of_termSeen (flags : Int32) (stream buf out : List UInt8) :
    Halts flags ⟨.flush true, stream, buf, out⟩ := by
  rw [← halts_readStep_iff]
  by_cases hline : uuStyleEnd flags = true ∧ buf = textBytes "====".toList
  · exact halts_of_returned (congrArg Reader.phase (readStep_line hline))
  · exact halts_of_returned (congrArg Reader.phase (readStep_last hline))

theorem halts_flush_iff {flags : Int32} {stream buf out : List UInt8} :
    Halts flags ⟨.flush false, stream, buf, out⟩ ↔
      uuStyleEnd flags = true ∧ buf = textBytes "====".toList ∨
        Halts flags ⟨.fill, stream, (decodeBase64 buf).2, out ++ (decodeBase64 buf).1⟩ := by
  rw [← halts_readStep_iff]
  by_cases hline : uuStyleEnd flags = true ∧ buf = textBytes "====".toList
  · rw [readStep_line hline]
    exact ⟨fun _ => .inl hline, fun _ => halts_of_returned rfl⟩
  · rw [readStep_more hline]
    exact ⟨.inr, fun h => h.resolve_left hline⟩

/-- The buffer is full and all of it comes back as the tail. -/
structure Stuck (r : Reader) : Prop where
  full : r.inBuf.length = 64
  tail : (decodeBase64 r.inBuf).2 = r.inBuf
  phase : r.phase = .fill ∨ r.phase = .flush false

theorem Stuck.readStep {r : Reader} (h : Stuck r) (flags : Int32) : Stuck (readStep flags r) := by
  obtain ⟨phase, stream, buf, out⟩ := r
  obtain ⟨hfull, htail, hphase⟩ := h
  dsimp only at hfull htail hphase
  rcases hphase with rfl | rfl
  · rw [readStep_full (by omega)]
    exact ⟨hfull, htail, .inr rfl⟩
  · have hline : ¬ (uuStyleEnd flags = true ∧ buf = textBytes "====".toList) := by
      rintro ⟨_, rfl⟩
      exact absurd hfull (by decide)
    rw [readStep_more hline, htail]
    exact ⟨hfull, htail, .inl rfl⟩

theorem Stuck.not_halts {r : Reader} (h : Stuck r) (flags : Int32) : ¬ Halts flags r := by
  rintro ⟨n, ret, hret⟩
  have hn : Stuck ((GstPlayd.readStep flags)^[n] r) :=
    Function.Iterate.rec Stuck h (fun _ hr => hr.readStep flags) n
  rcases hn.phase with hp | hp
  · rw [hp] at hret
    exact ReadPhase.noConfusion hret
  · rw [hp] at hret
    exact ReadPhase.noConfusion hret

/-- Whether a full buffer gets room again. -/
theorem halts_full_iff {flags : Int32} {stream buf out : List UInt8} (hnul : 0 ∉ buf)
    (hfull : buf.length = 64) :
    Halts flags ⟨.fill, stream, buf, out⟩ ↔ (decodeBase64 buf).2.length < 64 ∧
      Halts flags ⟨.fill, stream, (decodeBase64 buf).2, out ++ (decodeBase64 buf).1⟩ := by
  have hline : ¬ (uuStyleEnd flags = true ∧ buf = textBytes "====".toList) := by
    rintro ⟨_, rfl⟩
    exact absurd hfull (by decide)
  have hsuffix := decodeBase64_tail_suffix hnul
  by_cases htail : (decodeBase64 buf).2.length < 64
  · rw [← halts_readStep_iff, readStep_full (by omega), halts_flush_iff]
    exact ⟨fun h => ⟨htail, h.resolve_left hline⟩, fun h => .inr h.2⟩
  · have he : (decodeBase64 buf).2 = buf := hsuffix.eq_of_length_le (by omega)
    have hstuck : Stuck ⟨.fill, stream, buf, out⟩ := ⟨hfull, he, .inl rfl⟩
    exact ⟨fun h => absurd h (hstuck.not_halts flags), fun h => absurd h.1 htail⟩

theorem halts_iff_not_stalls {flags : Int32} {stream buf out : List UInt8} (hnul : 0 ∉ buf)
    (hlen : buf.length < 64) :
    Halts flags ⟨.fill, stream, buf, out⟩ ↔ stalls flags (tally buf) stream = false := by
  induction stream generalizing buf out with
  | nil =>
    refine ⟨fun _ => rfl, fun _ => ?_⟩
    rw [← halts_readStep_iff]
    rcases @readStep_eof flags buf out hlen with he | ⟨_, he⟩
    · exact he ▸ halts_of_termSeen flags [] buf out
    · exact he ▸ halts_of_returned rfl
  | cons b stream ih =>
    by_cases hexit : (b.toNat : Int) = exitChar flags
    · refine ⟨fun _ => if_pos hexit, fun _ => ?_⟩
      rw [← halts_readStep_iff]
      by_cases hbuf : buf = []
      · subst hbuf
        exact readStep_stop_empty hexit ▸ halts_of_returned rfl
      · exact readStep_stop hlen hbuf hexit ▸ halts_of_termSeen flags stream buf out
    · rw [← halts_readStep_iff, stalls, if_neg hexit]
      by_cases hb : b.toNat ≤ 32
      · -- the round ends with the characters that are there
        have hsuffix := decodeBase64_tail_suffix hnul
        rw [readStep_cut hlen hexit hb, if_pos hb, halts_flush_iff, ← tally_tail hnul,
          ih (not_mem_zero_of_suffix hnul hsuffix) (Nat.lt_of_le_of_lt hsuffix.length_le hlen),
          eq_line_iff_tally]
        by_cases hline : uuStyleEnd flags = true ∧ (tally buf).kept = 4 ∧ (tally buf).stops = 4
        · rw [if_pos hline]
          exact ⟨fun _ => rfl, fun _ => .inl hline⟩
        · rw [if_neg hline]
          exact ⟨fun h => h.resolve_left hline, .inr⟩
      · have hlt := Nat.lt_of_not_le hb
        have hnul' : 0 ∉ buf ++ [b] := fun h =>
          (List.mem_append.mp h).elim hnul fun h => ne_zero_of_lt hlt (List.mem_singleton.mp h).symm
        rw [readStep_keep hlen hexit hlt, if_neg hb, ← tally_snoc, tally_kept]
        by_cases hroom : (buf ++ [b]).length < 64
        · rw [if_pos hroom, ih hnul' hroom]
        · have hfull : (buf ++ [b]).length = 64 := by
            rw [List.length_append, List.length_singleton] at hroom ⊢
            omega
          have hsuffix := decodeBase64_tail_suffix hnul'
          rw [if_neg hroom, ← tally_tail hnul', tally_kept, halts_full_iff hnul' hfull]
          by_cases htail : (decodeBase64 (buf ++ [b])).2.length < 64
          · rw [if_pos htail, ih (not_mem_zero_of_suffix hnul' hsuffix) htail]
            exact ⟨And.right, And.intro htail⟩
          · rw [if_neg htail]
            exact ⟨fun h => absurd h.1 htail, fun h => absurd h (by decide)⟩

/-- Every call returns except when one group with the characters skipped in it
fills the buffer. -/
theorem readBase64_returns_iff (flags : Int32) (stream : List UInt8) :
    (∃ ret out, ReadReturns flags stream ret out) ↔ stalls flags ⟨0, 0, 0, 0⟩ stream = false := by
  refine Iff.trans ?_ (@halts_iff_not_stalls flags stream [] [] List.not_mem_nil (by decide))
  constructor
  · rintro ⟨ret, out, n, h, _⟩
    exact ⟨n, ret, h⟩
  · rintro ⟨n, ret, h⟩
    exact ⟨ret, _, n, h, rfl⟩

theorem readBase64_not_total : ¬ ∀ (flags : Int32) (stream : List UInt8),
    ∃ ret out, ReadReturns flags stream ret out := by
  intro h
  obtain ⟨ret, out, n, hret, _⟩ := h 0x80 (65 :: List.replicate 63 33)
  have hhalts := (@halts_iff_not_stalls 0x80 (65 :: List.replicate 63 33) [] [] List.not_mem_nil
    (by decide)).mp ⟨n, ret, hret⟩
  exact absurd hhalts (by decide +kernel)

theorem Tally.keep_clean {t : Tally} {b : UInt8} (hb : inTable b = true) (hg : t.group = t.values) :
    (t.keep b).group = (t.keep b).values ∧ (t.keep b).values < 4 := by
  obtain ⟨i, hi⟩ := Option.isSome_iff_exists.mp hb
  by_cases hstop : i = 64
  · simp [keep, hi, hstop]
  · by_cases hlt : t.values + 1 < 4
    · simp [keep, hi, hstop, hlt, hg]
    · simp [keep, hi, hstop, hlt]

theorem Tally.round_clean {t : Tally} (hg : t.group = t.values) (hv : t.values < 4) :
    t.round.group = t.round.values ∧ t.round.values < 4 ∧ t.round.kept < 64 := by
  by_cases hzero : t.values = 0
  · simp [round, hzero]
  · simp only [round, if_neg hzero]
    omega

theorem stalls_of_inTable {flags : Int32} {stream : List UInt8} {t : Tally}
    (hstream : ∀ b ∈ stream, 32 < b.toNat → inTable b = true) (hg : t.group = t.values)
    (hv : t.values < 4) : stalls flags t stream = false := by
  induction stream generalizing t with
  | nil => rfl
  | cons b stream ih =>
    have hrest := fun d hd => hstream d (List.mem_cons_of_mem b hd)
    by_cases hexit : (b.toNat : Int) = exitChar flags
    · exact if_pos hexit
    · rw [stalls, if_neg hexit]
      by_cases hb : b.toNat ≤ 32
      · obtain ⟨hg', hv', _⟩ := Tally.round_clean hg hv
        rw [if_pos hb, ih hrest hg' hv', ite_self]
      · obtain ⟨hg', hv'⟩ := Tally.keep_clean (hstream b List.mem_cons_self (Nat.lt_of_not_le hb)) hg
        obtain ⟨hg'', hv'', hroom⟩ := Tally.round_clean hg' hv'
        rw [if_neg hb, if_pos hroom, ih hrest hg' hv', ih hrest hg'' hv'', ite_self]

/-- Streams without foreign characters are always read to their end. -/
theorem readBase64_returns_of_inTable {flags : Int32} {stream : List UInt8}
    (h : ∀ b ∈ stream, 32 < b.toNat → inTable b = true) :
    ∃ ret out, ReadReturns flags stream ret out := by
  obtain ⟨n, ret, hret⟩ := (@halts_iff_not_stalls flags stream [] [] List.not_mem_nil (by decide)).mpr
    (stalls_of_inTable h rfl (by decide))
  exact ⟨ret, _, n, hret, rfl⟩

end GstPlayd
