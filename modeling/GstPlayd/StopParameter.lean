import GstPlayd.PlayerId

/-! The parameter of STOP is any text, and `atoll` finds a number in each.
Which texts are read as which number, and what a STOP with one of them does. -/

namespace GstPlayd

open ElementGraph StepMachine StepMachine.Machine

/-- A text as `atoll` takes it apart. Blanks and a sign are optional, and what
comes after the digits is not looked at. -/
structure Reading (param : Text) where
  blanks : Text
  sign : Text
  digits : Text
  rest : Text
  split : param = blanks ++ (sign ++ (digits ++ rest))
  blank : ∀ c ∈ blanks, isSpace c = true
  signed : sign = ['-'] ∨ sign = ['+'] ∨
    sign = [] ∧ ∀ c ∈ (digits ++ rest).head?, isSpace c = false ∧ c ≠ '-' ∧ c ≠ '+'
  digit : ∀ c ∈ digits, c.isDigit = true
  ended : ∀ c ∈ rest.head?, c.isDigit = false

/-- The number, kept in the range of `long long`. -/
def Reading.value {param : Text} (r : Reading param) : Int :=
  let n : Int := Nat.ofDigitChars 10 r.digits 0
  max (-2 ^ 63) (min (if r.sign = ['-'] then -n else n) (2 ^ 63 - 1))

section

variable {param : Text}

theorem dropWhile_of_head {p : Char → Bool} {s t : Text} (hs : ∀ c ∈ s, p c = true)
    (ht : ∀ c ∈ t.head?, p c = false) : (s ++ t).dropWhile p = t := by
  rw [List.dropWhile_append_of_pos hs]
  cases t with
  | nil => rfl
  | cons c t => rw [List.dropWhile_cons_of_neg (by simp [ht c rfl])]

theorem takeWhile_of_head {p : Char → Bool} {s t : Text} (hs : ∀ c ∈ s, p c = true)
    (ht : ∀ c ∈ t.head?, p c = false) : (s ++ t).takeWhile p = s := by
  rw [List.takeWhile_append_of_pos hs]
  cases t with
  | nil => exact List.append_nil s
  | cons c t => rw [List.takeWhile_cons_of_neg (by simp [ht c rfl]), List.append_nil]

theorem splitSign_of_not_sign {s : Text} (h : ∀ c ∈ s.head?, c ≠ '-' ∧ c ≠ '+') :
    splitSign s = (false, s) := by
  unfold splitSign
  split
  · exact absurd rfl (h '-' rfl).1
  · exact absurd rfl (h '+' rfl).2
  · rfl

theorem Reading.value_eq_atoll (r : Reading param) : r.value = atoll param := by
  obtain ⟨blanks, sign, digits, rest, rfl, hblank, hsigned, hdigit, hended⟩ := r
  have htake : (digits ++ rest).takeWhile Char.isDigit = digits := takeWhile_of_head hdigit hended
  have hpos : (0 : Int) ≤ Nat.ofDigitChars 10 digits 0 := Int.natCast_nonneg _
  rcases hsigned with rfl | rfl | ⟨rfl, hhead⟩
  · have hdrop : (blanks ++ (['-'] ++ (digits ++ rest))).dropWhile isSpace =
        '-' :: (digits ++ rest) := dropWhile_of_head hblank (by simp [isSpace])
    simp only [Reading.value, atoll, hdrop, splitSign, htake, if_true]
    omega
  · have hdrop : (blanks ++ (['+'] ++ (digits ++ rest))).dropWhile isSpace =
        '+' :: (digits ++ rest) := dropWhile_of_head hblank (by simp [isSpace])
    simp only [Reading.value, atoll, hdrop, splitSign, htake]
    simp
  · have hdrop : (blanks ++ ([] ++ (digits ++ rest))).dropWhile isSpace = digits ++ rest :=
      dropWhile_of_head hblank fun c hc => (hhead c hc).1
    have hsplit : splitSign (digits ++ rest) = (false, digits ++ rest) :=
      splitSign_of_not_sign fun c hc => (hhead c hc).2
    simp only [Reading.value, atoll, hdrop, hsplit, htake]
    simp

theorem head_dropWhile {p : Char → Bool} (s : Text) : ∀ c ∈ (s.dropWhile p).head?, p c = false := by
  intro c hc
  have hh := List.head?_dropWhile_not p s
  rw [Option.mem_def.mp hc] at hh
  simpa using hh

/-- Every text has a reading: the longest run of blanks, a sign when one comes
next, and the longest run of digits. -/
theorem nonempty_reading (param : Text) : Nonempty (Reading param) := by
  have hblank : ∀ c ∈ param.takeWhile isSpace, isSpace c = true := fun c => List.mem_takeWhile_imp
  have hdigit : ∀ s : Text, ∀ c ∈ s.takeWhile Char.isDigit, c.isDigit = true :=
    fun s c => List.mem_takeWhile_imp
  have hjoin : ∀ s : Text, s.takeWhile Char.isDigit ++ s.dropWhile Char.isDigit = s :=
    fun s => List.takeWhile_append_dropWhile
  have hparam : param = param.takeWhile isSpace ++ param.dropWhile isSpace :=
    List.takeWhile_append_dropWhile.symm
  have hhead : ∀ c ∈ (param.dropWhile isSpace).head?, isSpace c = false := head_dropWhile param
  have hsign : (∃ c t, param.dropWhile isSpace = [c] ++ t ∧ (c = '-' ∨ c = '+')) ∨
      ∀ c ∈ (param.dropWhile isSpace).head?, c ≠ '-' ∧ c ≠ '+' := by
    cases param.dropWhile isSpace with
    | nil => exact .inr (by simp)
    | cons c t =>
      by_cases hc : c = '-' ∨ c = '+'
      · exact .inl ⟨c, t, rfl, hc⟩
      · exact .inr (by simpa [not_or] using hc)
  rcases hsign with ⟨c, t, ht, hc⟩ | hno
  · refine ⟨⟨param.takeWhile isSpace, [c], t.takeWhile Char.isDigit, t.dropWhile Char.isDigit, ?_,
      hblank, ?_, hdigit t, head_dropWhile t⟩⟩
    · rw [hjoin, ← ht, ← hparam]
    · rcases hc with rfl | rfl
      · exact .inl rfl
      · exact .inr (.inl rfl)
  · refine ⟨⟨param.takeWhile isSpace, [], (param.dropWhile isSpace).takeWhile Char.isDigit,
      (param.dropWhile isSpace).dropWhile Char.isDigit, ?_, hblank, ?_, hdigit _, head_dropWhile _⟩⟩
    · rw [List.nil_append, hjoin, ← hparam]
    · rw [hjoin]
      exact .inr (.inr ⟨rfl, fun c hc => ⟨hhead c hc, hno c hc⟩⟩)

variable (ctx : PlaybackCtx) (stateChange : GstStateChangeReturn)

/-- STOP fails, and removes nothing, exactly when no live source has the id that
the number read from the parameter is truncated to. -/
theorem opStopParse_invalid_iff (param : Text) :
    Nonempty (Reading param) ∧
    (∀ r : Reading param,
      ((∃ after, opStopParse param stateChange ctx = .ok ("FAIL id is invalid".toList, after)) ↔
        ∀ item ∈ ctx.sources, sourceItemToId item ≠ UInt32.ofInt r.value) ∧
      ((∀ item ∈ ctx.sources, sourceItemToId item ≠ UInt32.ofInt r.value) →
        opStopParse param stateChange ctx = .ok ("FAIL id is invalid".toList, ctx))) ∧
    ∀ k < 2 ^ 32, param = fmtUnsigned k →
      ((∃ after, opStopParse param stateChange ctx = .ok ("FAIL id is invalid".toList, after)) ↔
        ∀ item ∈ ctx.sources, param ≠ fmtUnsigned (sourceItemToId item).toNat) := by
  refine ⟨nonempty_reading param, ?_, ?_⟩
  · intro r
    rw [r.value_eq_atoll]
    exact ⟨opStopParse_invalid, fun hno => opStopParse_of_none (sourceItemFromId_eq_none_iff.mpr hno) _⟩
  · rintro k hk rfl
    obtain ⟨id, rfl⟩ : ∃ id : UInt32, id.toNat = k := ⟨UInt32.ofNat k, UInt32.toNat_ofNat_of_lt' hk⟩
    rw [opStopParse_invalid, stopId_fmtUnsigned]
    refine forall₂_congr fun item _ => not_congr ?_
    rw [fmtUnsigned_injective.eq_iff, UInt32.toNat_inj, eq_comm]

end

theorem stopId_blank (s : Text) : stopId (' ' :: s) = stopId s := rfl

/-- A blank before the id of a live source, and STOP still takes it out. -/
theorem stop_takes_blank_numeral :
    ∃ ctx, (playbackMachine fun _ => true).Reaches (newPlaybackCtx 1 2 3) [playA] ctx ∧
      ctx.sources = [itemA] ∧
      (∀ item ∈ ctx.sources, ' ' :: fmtUnsigned (sourceItemToId itemA).toNat ≠
        fmtUnsigned (sourceItemToId item).toNat) ∧
      ∃ after, opStopParse (' ' :: fmtUnsigned (sourceItemToId itemA).toNat) .success ctx =
        .ok (playerIdReply (sourceItemToId itemA), after) ∧ after.sources = [] := by
  have hstop : stopId (' ' :: fmtUnsigned (sourceItemToId itemA).toNat) = sourceItemToId itemA := by
    rw [stopId_blank, stopId_fmtUnsigned]
  have hr := @reaches_playA fun _ => true
  refine ⟨_, hr, rfl, ?_, ?_⟩
  · intro item _ he
    have hd : ' '.isDigit = true := isDigit_of_mem_fmtUnsigned (he ▸ List.mem_cons_self)
    exact absurd hd (by decide)
  · have hh := @opStopParse_first _ (' ' :: fmtUnsigned (sourceItemToId itemA).toNat)
      (follows_of_reaches hr).distinct .success [] [] itemA rfl (by simp) hstop.symm (by decide)
    rw [hstop] at hh
    exact hh

end GstPlayd
