import GstPlayd.GroupScan
import GstPlayd.Uuencode

/-! The base64 decoder, which leaves the text of an unfinished group to its
caller. It reads C strings and skips what is not in the table. -/

namespace GstPlayd

/-- Where `strchr` finds the character in the table. -/
def tblIndex (ch : UInt8) : Option Nat := (textBytes uuencTblBase64).findIdx? (· == ch)

def inTable (ch : UInt8) : Bool := (tblIndex ch).isSome

/-- The bytes of a group with `sixBit.length` values. -/
def transformGroup (sixBit : List UInt8) : List UInt8 :=
  (if sixBit.length > 1 then [sixBit.getD 0 0 <<< 2 ||| sixBit.getD 1 0 >>> 4] else []) ++
  (if sixBit.length > 2 then [sixBit.getD 1 0 <<< 4 ||| sixBit.getD 2 0 >>> 2] else []) ++
  (if sixBit.length > 3 then [sixBit.getD 2 0 <<< 6 ||| sixBit.getD 3 0] else [])

/-- `srcTail` is where the group in `sixBit` began, `dst` what is written so far. -/
def decodeLoop : List UInt8 → List UInt8 → List UInt8 → List UInt8 → List UInt8 × List UInt8
  | [], srcTail, sixBit, dst => (dst, if sixBit.length = 0 then [] else srcTail)
  | ch :: src, srcTail, sixBit, dst =>
    match tblIndex ch with
    | none => decodeLoop src srcTail sixBit dst
    | some i =>
      if i = 64 then decodeLoop src src [] (dst ++ transformGroup sixBit)
      else if sixBit.length + 1 < 4 then decodeLoop src srcTail (sixBit ++ [UInt8.ofNat i]) dst
      else decodeLoop src src [] (dst ++ transformGroup (sixBit ++ [UInt8.ofNat i]))

/-- The bytes written and the string that is returned. -/
def decodeBase64 (src : List UInt8) : List UInt8 × List UInt8 :=
  let src := cBytes src
  decodeLoop src src [] []

example : decodeBase64 (textBytes "TWE=T WF".toList) = ([77, 97], textBytes "T WF".toList) := by decide

def base64Code : GroupScan.Code UInt8 UInt8 UInt8 where
  symbol ch :=
    match tblIndex ch with
    | none => .junk
    | some i => if i = 64 then .stop else .value (UInt8.ofNat i)
  size := 4
  emit := transformGroup

theorem isJunk_base64Code (ch : UInt8) : base64Code.isJunk ch = !inTable ch := by
  cases hi : tblIndex ch with
  | none => simp [GroupScan.Code.isJunk, base64Code, inTable, hi]
  | some i =>
    by_cases hstop : i = 64
    · simp [GroupScan.Code.isJunk, base64Code, inTable, hi, hstop]
    · simp [GroupScan.Code.isJunk, base64Code, inTable, hi, hstop]

theorem decodeLoop_eq_scan (src : List UInt8) (st : GroupScan.State UInt8 UInt8 UInt8) :
    decodeLoop src (st.text ++ src) st.values st.out =
      ((base64Code.scan st src).out, (base64Code.scan st src).rest) := by
  induction src generalizing st with
  | nil =>
    cases hv : st.values with
    | nil => simp [decodeLoop, GroupScan.Code.scan, GroupScan.State.rest, hv]
    | cons v vs => simp [decodeLoop, GroupScan.Code.scan, GroupScan.State.rest, hv]
  | cons ch src ih =>
    have hsnoc : st.text ++ ch :: src = (st.text ++ [ch]) ++ src := by simp
    rw [GroupScan.Code.scan_cons, ← ih]
    cases hi : tblIndex ch with
    | none =>
      have hs : base64Code.symbol ch = .junk := by simp only [base64Code, hi]
      rw [decodeLoop, hi, GroupScan.Code.step_junk hs, hsnoc]
    | some i =>
      by_cases hstop : i = 64
      · have hs : base64Code.symbol ch = .stop := by simp only [base64Code, hi, if_pos hstop]
        rw [decodeLoop, hi, GroupScan.Code.step_stop hs]
        exact if_pos hstop
      · have hs : base64Code.symbol ch = .value (UInt8.ofNat i) := by
          simp only [base64Code, hi, if_neg hstop]
        rw [decodeLoop, hi, hsnoc]
        refine (if_neg hstop).trans ?_
        by_cases hlt : st.values.length + 1 < 4
        · rw [GroupScan.Code.step_value hs hlt]
          exact if_pos hlt
        · rw [GroupScan.Code.step_last hs hlt]
          exact if_neg hlt

theorem decodeBase64_eq_scan {s : List UInt8} (h : 0 ∉ s) : decodeBase64 s =
    ((base64Code.scan .fresh s).out, (base64Code.scan .fresh s).rest) := by
  rw [decodeBase64, cBytes_of_not_mem h]
  exact decodeLoop_eq_scan s .fresh

theorem length_transformGroup (sixBit : List UInt8) :
    4 * (transformGroup sixBit).length ≤ 3 * sixBit.length := by
  by_cases h1 : sixBit.length > 1
  · by_cases h2 : sixBit.length > 2
    · by_cases h3 : sixBit.length > 3
      · simp [transformGroup, h1, h2, h3]
        omega
      · simp [transformGroup, h1, h2, h3]
        omega
    · have h3 : ¬ sixBit.length > 3 := by omega
      simp [transformGroup, h1, h2, h3]
      omega
  · have h2 : ¬ sixBit.length > 2 := by omega
    have h3 : ¬ sixBit.length > 3 := by omega
    simp [transformGroup, h1, h2, h3]

theorem not_mem_zero_of_suffix {r s : List UInt8} (hs : 0 ∉ s) (hr : r <:+ s) : 0 ∉ r :=
  fun h => hs (hr.subset h)

theorem decodeBase64_tail_suffix {s : List UInt8} (hs : 0 ∉ s) : (decodeBase64 s).2 <:+ s := by
  rw [decodeBase64_eq_scan hs]
  exact base64Code.rest_suffix s

theorem decodeBase64_length {s : List UInt8} (hs : 0 ∉ s) :
    4 * (decodeBase64 s).1.length ≤ 3 * (s.length - (decodeBase64 s).2.length) := by
  have hbound := base64Code.length_out_le length_transformGroup s
  have hrest : (base64Code.scan .fresh s).rest.length ≤ (base64Code.scan .fresh s).text.length := by
    by_cases hv : (base64Code.scan .fresh s).values = []
    · rw [GroupScan.State.rest_of_nil hv]
      exact Nat.zero_le _
    · rw [GroupScan.State.rest_of_ne_nil hv]
  rw [decodeBase64_eq_scan hs]
  dsimp only
  omega

theorem decodeBase64_tail_eq_nil_iff {s : List UInt8} (hs : 0 ∉ s) :
    (decodeBase64 s).2 = [] ↔ (base64Code.scan .fresh s).values = [] := by
  rw [decodeBase64_eq_scan hs]
  exact (GroupScan.Code.consistent_scan_fresh s).rest_eq_nil_iff

/-- The decoder can be called again on what it returned followed by more text. -/
theorem decodeBase64_resume {s t : List UInt8} (hs : 0 ∉ s) (ht : 0 ∉ t) :
    (decodeBase64 s).2 <:+ s ∧
      (decodeBase64 (s ++ t)).1 =
        (decodeBase64 s).1 ++ (decodeBase64 ((decodeBase64 s).2 ++ t)).1 ∧
      (decodeBase64 (s ++ t)).2.dropWhile (fun ch => !inTable ch) =
        (decodeBase64 ((decodeBase64 s).2 ++ t)).2.dropWhile (fun ch => !inTable ch) ∧
      ((decodeBase64 (s ++ t)).2 = [] ↔ (decodeBase64 ((decodeBase64 s).2 ++ t)).2 = []) ∧
      4 * (decodeBase64 s).1.length ≤ 3 * (s.length - (decodeBase64 s).2.length) := by
  have hst : 0 ∉ s ++ t := fun h => (List.mem_append.mp h).elim hs ht
  have hsuffix := decodeBase64_tail_suffix hs
  have hrt : 0 ∉ (decodeBase64 s).2 ++ t := fun h =>
    (List.mem_append.mp h).elim (not_mem_zero_of_suffix hs hsuffix) ht
  have hjunk : base64Code.isJunk = fun ch => !inTable ch := funext isJunk_base64Code
  have hreading := base64Code.reading_resume s t
  have hrest := base64Code.rest_resume s t
  have htail : (decodeBase64 s).2 = (base64Code.scan .fresh s).rest := by rw [decodeBase64_eq_scan hs]
  refine ⟨hsuffix, ?_, ?_, ?_, decodeBase64_length hs⟩
  · rw [decodeBase64_eq_scan hst, decodeBase64_eq_scan hrt, decodeBase64_eq_scan hs]
    exact congrArg Prod.fst hreading
  · rw [decodeBase64_eq_scan hst, decodeBase64_eq_scan hrt, htail, ← hjunk]
    exact hrest
  · rw [decodeBase64_tail_eq_nil_iff hst, decodeBase64_tail_eq_nil_iff hrt, htail]
    exact iff_of_eq (congrArg (· = []) (congrArg Prod.snd hreading))

theorem decodeBase64_resume_inside_padding :
    (decodeBase64 (textBytes "eQ=".toList ++ textBytes "=T!W".toList)).1 =
      (decodeBase64 (textBytes "eQ=".toList)).1 ++
        (decodeBase64 ((decodeBase64 (textBytes "eQ=".toList)).2 ++ textBytes "=T!W".toList)).1 :=
  (@decodeBase64_resume (textBytes "eQ=".toList) (textBytes "=T!W".toList) (by decide) (by decide)).2.1

theorem toNat_shiftRight {y k : UInt8} (hk : k.toNat < 8) : (y >>> k).toNat = y.toNat / 2 ^ k.toNat := by
  rw [UInt8.toNat_shiftRight, Nat.mod_eq_of_lt hk, Nat.shiftRight_eq_div_pow]

theorem toNat_shiftLeft_or {x y k : UInt8} (hk : k.toNat < 8) (hy : y.toNat < 2 ^ k.toNat) :
    (x <<< k ||| y).toNat = x.toNat % 2 ^ (8 - k.toNat) * 2 ^ k.toNat + y.toNat := by
  have hpow : 2 ^ 8 = 2 ^ (8 - k.toNat) * 2 ^ k.toNat := by
    rw [← Nat.pow_add, Nat.sub_add_cancel (Nat.le_of_lt hk)]
  have hleft : (x <<< k).toNat = x.toNat % 2 ^ (8 - k.toNat) * 2 ^ k.toNat := by
    rw [UInt8.toNat_shiftLeft, Nat.mod_eq_of_lt hk, Nat.shiftLeft_eq, hpow, Nat.mul_mod_mul_right]
  rw [UInt8.toNat_or, hleft, ← Nat.shiftLeft_eq, Nat.shiftLeft_add_eq_or_of_lt hy]

theorem transformGroup_four {x0 x1 x2 x3 : UInt8} (h1 : x1.toNat < 64) (h2 : x2.toNat < 64)
    (h3 : x3.toNat < 64) :
    transformGroup [x0, x1, x2, x3] = Base64.octets x0.toNat x1.toNat x2.toNat x3.toNat := by
  have htwo : (2 : UInt8).toNat = 2 := rfl
  have hfour : (4 : UInt8).toNat = 4 := rfl
  have hsix : (6 : UInt8).toNat = 6 := rfl
  have hhigh : (x1 >>> 4).toNat = x1.toNat / 2 ^ 4 := toNat_shiftRight (by decide)
  have hmiddle : (x2 >>> 2).toNat = x2.toNat / 2 ^ 2 := toNat_shiftRight (by decide)
  have hfirst : (x0 <<< 2 ||| x1 >>> 4).toNat = x0.toNat % 2 ^ 6 * 2 ^ 2 + x1.toNat / 2 ^ 4 := by
    rw [toNat_shiftLeft_or (by decide) (by rw [hhigh, htwo]; omega), hhigh]
    rfl
  have hsecond : (x1 <<< 4 ||| x2 >>> 2).toNat = x1.toNat % 2 ^ 4 * 2 ^ 4 + x2.toNat / 2 ^ 2 := by
    rw [toNat_shiftLeft_or (by decide) (by rw [hmiddle, hfour]; omega), hmiddle]
    rfl
  have hthird : (x2 <<< 6 ||| x3).toNat = x2.toNat % 2 ^ 2 * 2 ^ 6 + x3.toNat := by
    rw [toNat_shiftLeft_or (by decide) (by rw [hsix]; exact h3)]
    rfl
  have hbyte : ∀ (x : UInt8) (n : ℕ), x.toNat = n % 2 ^ 8 → x = UInt8.ofNat n := by
    intro x n h
    rw [← UInt8.toNat_inj, h, UInt8.toNat_ofNat']
  have hgroup : transformGroup [x0, x1, x2, x3] =
      [x0 <<< 2 ||| x1 >>> 4, x1 <<< 4 ||| x2 >>> 2, x2 <<< 6 ||| x3] := rfl
  rw [hgroup, Base64.octets]
  refine congrArg₂ _ (hbyte _ _ ?_) (congrArg₂ _ (hbyte _ _ ?_) (congrArg₂ _ (hbyte _ _ ?_) rfl))
  · rw [hfirst]
    omega
  · rw [hsecond]
    omega
  · rw [hthird]
    omega

def standardByte (v : ℕ) : UInt8 := UInt8.ofNat (Base64.standardChar v).toNat

theorem textBytes_standard {vs : List ℕ} (h : ∀ v ∈ vs, v < 64) :
    textBytes (vs.map Base64.standardChar) = vs.map standardByte := by
  have htable : (List.range 64).map (fun v => String.utf8EncodeChar (Base64.standardChar v)) =
      (List.range 64).map fun v => [standardByte v] := by
    decide
  induction vs with
  | nil => rfl
  | cons v vs ih =>
    have hv := List.map_inj_left.mp htable v (List.mem_range.mpr (h v List.mem_cons_self))
    have hvs := ih fun w hw => h w (List.mem_cons_of_mem v hw)
    change String.utf8EncodeChar _ ++ textBytes (vs.map Base64.standardChar) = _
    rw [hv, hvs]
    rfl

theorem symbol_standardByte {v : ℕ} (h : v < 64) :
    base64Code.symbol (standardByte v) = .value (UInt8.ofNat v) := by
  have htable : (List.range 64).map (fun v => tblIndex (standardByte v)) = (List.range 64).map some := by
    decide
  have hv := List.map_inj_left.mp htable v (List.mem_range.mpr h)
  simp only [base64Code, hv]
  exact if_neg (Nat.ne_of_lt h)

theorem symbol_pad : base64Code.symbol 61 = .stop := rfl

theorem feed_standardBytes {vs : List ℕ} (h : ∀ v ∈ vs, v < 64) (out ws : List UInt8)
    (hlen : ws.length + vs.length < 4) :
    (vs.map standardByte).foldl base64Code.feed (out, ws) = (out, ws ++ vs.map UInt8.ofNat) := by
  induction vs generalizing ws with
  | nil => simp
  | cons v vs ih =>
    have hlt : ws.length + 1 < base64Code.size := by
      rw [List.length_cons] at hlen
      exact Nat.lt_of_le_of_lt (by omega) hlen
    have hstep : base64Code.feed (out, ws) (standardByte v) = (out, ws ++ [UInt8.ofNat v]) := by
      simp only [GroupScan.Code.feed, symbol_standardByte (h v List.mem_cons_self)]
      exact if_pos hlt
    rw [List.map_cons, List.foldl_cons, hstep, ih (fun w hw => h w (List.mem_cons_of_mem v hw))]
    · simp
    · simp only [List.length_append, List.length_cons, List.length_nil] at hlen ⊢
      omega

theorem feed_pad (out ws : List UInt8) : base64Code.feed (out, ws) 61 = (out ++ transformGroup ws, []) := by
  simp only [GroupScan.Code.feed, symbol_pad]
  rfl

theorem toNat_ofNat_sextet {v : ℕ} (h : v < 64) : (UInt8.ofNat v).toNat = v :=
  UInt8.toNat_ofNat_of_lt' (Nat.lt_trans h (by decide))

theorem transformGroup_octets {v0 v1 v2 v3 : ℕ} (h0 : v0 < 64) (h1 : v1 < 64) (h2 : v2 < 64)
    (h3 : v3 < 64) : transformGroup [.ofNat v0, .ofNat v1, .ofNat v2, .ofNat v3] =
      Base64.octets v0 v1 v2 v3 := by
  rw [transformGroup_four, toNat_ofNat_sextet h0, toNat_ofNat_sextet h1, toNat_ofNat_sextet h2,
    toNat_ofNat_sextet h3]
  · rwa [toNat_ofNat_sextet h1]
  · rwa [toNat_ofNat_sextet h2]
  · rwa [toNat_ofNat_sextet h3]

theorem feed_short {vs : List ℕ} (h : ∀ v ∈ vs, v < 64) (hlen : vs.length < 4) (out : List UInt8) :
    (textBytes (vs.map Base64.standardChar ++ ['='])).foldl base64Code.feed (out, []) =
      (out ++ transformGroup (vs.map UInt8.ofNat), []) := by
  have hvalues := feed_standardBytes h out [] (by rwa [List.length_nil, Nat.zero_add])
  have hpad : textBytes ['='] = [61] := rfl
  rw [textBytes_append, textBytes_standard h, List.foldl_append, hvalues, hpad, List.foldl_cons, feed_pad]
  rfl

theorem sextets_lt {n v : ℕ} (h : v ∈ Base64.sextets n) : v < 64 := by
  simp only [Base64.sextets, List.mem_cons, List.not_mem_nil, or_false] at h
  omega

theorem feed_group (n : ℕ) (out : List UInt8) :
    ((Base64.sextets n).map standardByte).foldl base64Code.feed (out, []) =
      (out ++ transformGroup ((Base64.sextets n).map UInt8.ofNat), []) := by
  have hthree : (((Base64.sextets n).take 3).map standardByte).foldl base64Code.feed (out, []) =
      (out, ((Base64.sextets n).take 3).map UInt8.ofNat) :=
    feed_standardBytes (fun _ hv => sextets_lt (List.mem_of_mem_take hv)) out [] (Nat.lt_succ_self 3)
  have hsplit : (Base64.sextets n).map standardByte =
      ((Base64.sextets n).take 3).map standardByte ++ [standardByte (n % 64)] := rfl
  rw [hsplit, List.foldl_append, hthree, List.foldl_cons, List.foldl_nil]
  simp only [GroupScan.Code.feed, symbol_standardByte (Nat.mod_lt n (by decide))]
  rfl

theorem transformGroup_sextets (b0 b1 b2 : UInt8) :
    transformGroup ((Base64.sextets (Base64.group b0 b1 b2)).map UInt8.ofNat) = [b0, b1, b2] := by
  have hlt : ∀ n : ℕ, n % 64 < 64 := fun n => Nat.mod_lt n (by decide)
  rw [← Base64.octets_sextets]
  exact transformGroup_octets (hlt _) (hlt _) (hlt _) (hlt _)

/-- The decoder reads back each text of the encoder and is ready for the next. -/
theorem feed_encode (bs out : List UInt8) :
    (textBytes (Base64.encode Base64.standard bs)).foldl base64Code.feed (out, []) = (out ++ bs, []) := by
  have htake : ∀ n k, ∀ v ∈ (Base64.sextets n).take k, v < 64 := fun _ _ _ hv =>
    sextets_lt (List.mem_of_mem_take hv)
  induction bs using Base64.encode.induct generalizing out with
  | case1 => exact congrArg (·, []) (List.append_nil out).symm
  | case2 b0 =>
    have hvalues := feed_short (htake (Base64.group b0 0 0) 2) (by simp [Base64.sextets]) out
    have hshort : transformGroup (((Base64.sextets (Base64.group b0 0 0)).take 2).map UInt8.ofNat) = [b0] :=
      congrArg (List.take 1) (transformGroup_sextets b0 0 0)
    -- the second padding character closes an empty group
    have hpad : textBytes ['='] = [61] := rfl
    have hbytes : textBytes (Base64.encode Base64.standard [b0]) =
        textBytes (((Base64.sextets (Base64.group b0 0 0)).take 2).map Base64.standardChar ++ ['=']) ++
          [61] := by
      rw [← hpad, ← textBytes_append, List.append_assoc]
      rfl
    rw [hbytes, List.foldl_append, hvalues, hshort, List.foldl_cons, feed_pad]
    exact congrArg (·, []) (List.append_nil _)
  | case3 b0 b1 =>
    have hvalues := feed_short (htake (Base64.group b0 b1 0) 3) (by simp [Base64.sextets]) out
    have hshort : transformGroup (((Base64.sextets (Base64.group b0 b1 0)).take 3).map UInt8.ofNat) =
        [b0, b1] := congrArg (List.take 2) (transformGroup_sextets b0 b1 0)
    rw [hshort] at hvalues
    exact hvalues
  | case4 b0 b1 b2 bs ih =>
    have hround := feed_group (Base64.group b0 b1 b2) out
    rw [transformGroup_sextets] at hround
    have hbytes : textBytes (Base64.encode Base64.standard (b0 :: b1 :: b2 :: bs)) =
        (Base64.sextets (Base64.group b0 b1 b2)).map standardByte ++
          textBytes (Base64.encode Base64.standard bs) := by
      rw [Base64.encode, ← textBytes_standard fun _ hv => sextets_lt hv]
      exact List.flatMap_append
    rw [hbytes, List.foldl_append, hround, ih]
    simp

theorem feed_encode_flatMap (bs : List (List UInt8)) (out : List UInt8) :
    (bs.flatMap fun b => textBytes (uuencode uuencTblBase64 b)).foldl base64Code.feed (out, []) =
      (out ++ bs.flatten, []) := by
  induction bs generalizing out with
  | nil => exact congrArg (·, []) (List.append_nil out).symm
  | cons b bs ih =>
    rw [List.flatMap_cons, List.foldl_append, uuencode_eq_encode, feed_encode, ih, List.flatten_cons,
      List.append_assoc]

/-- `s` is the texts of `bs` in a row with other characters put in between. -/
theorem decodeBase64_uuencode {bs : List (List UInt8)} {s : List UInt8} (h0 : 0 ∉ s)
    (hs : s.filter inTable = bs.flatMap fun b => textBytes (uuencode uuencTblBase64 b)) :
    decodeBase64 s = (bs.flatten, []) := by
  have hreading : (base64Code.scan .fresh s).reading = (bs.flatten, []) := by
    have hjunk : (fun ch => !base64Code.isJunk ch) = inTable := by
      funext ch
      rw [isJunk_base64Code, Bool.not_not]
    rw [GroupScan.Code.reading_scan, ← GroupScan.Code.feed_filter, hjunk, hs]
    exact feed_encode_flatMap bs []
  have hout : (base64Code.scan .fresh s).out = bs.flatten := congrArg Prod.fst hreading
  have hvalues : (base64Code.scan .fresh s).values = [] := congrArg Prod.snd hreading
  rw [decodeBase64_eq_scan h0, hout, GroupScan.State.rest_of_nil hvalues]

theorem decodeBase64_uuencode_parts : decodeBase64 (textBytes "T\nWE=e Q=\t=!".toList) =
    ([[77, 97], [121]].flatten, []) :=
  decodeBase64_uuencode (by decide) (by decide)

end GstPlayd
