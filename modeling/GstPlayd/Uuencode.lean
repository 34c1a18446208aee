import GstPlayd.Base64
import GstPlayd.TextFormats

/-! The base64 encoder of the tag values. -/

namespace GstPlayd

def uuencTblBase64 : Text :=
  "ABCDEFGHIJKLMNOPQRSTUVWXYZabcdefghijklmnopqrstuvwxyz0123456789+/=".toList

def uuencodeGetLength (sourceSize : Nat) : Nat := 4 * ((sourceSize + 2) / 3)

def tblEntry (tbl : Text) (i : UInt8) : Char := tbl.getD i.toNat '\x00'

def uuencodeRound (tbl : Text) (s0 s1 s2 : UInt8) : Text :=
  [tblEntry tbl (s0 >>> 2), tblEntry tbl (((s0 &&& 3) <<< 4) + (s1 >>> 4)),
    tblEntry tbl (((s1 &&& 0xf) <<< 2) + (s2 >>> 6)), tblEntry tbl (s2 &&& 0x3f)]

/-- The bytes past the end count as zero. -/
def uuencodeLoop (tbl : Text) : List UInt8 → Text
  | [] => []
  | [s0] => uuencodeRound tbl s0 0 0
  | [s0, s1] => uuencodeRound tbl s0 s1 0
  | s0 :: s1 :: s2 :: s => uuencodeRound tbl s0 s1 s2 ++ uuencodeLoop tbl s

/-- The loop leaves `length` at 0, -1 or -2 and then that many characters are
replaced by the termination character. -/
def uuencode (tbl : Text) (src : List UInt8) : Text :=
  let p := uuencodeLoop tbl src
  let pad := (3 - src.length % 3) % 3
  p.take (p.length - pad) ++ List.replicate pad (tblEntry tbl 64)

example : uuencode uuencTblBase64 [77, 97] = "TWE=".toList := by decide

theorem tblEntry_base64 {i : UInt8} {v : ℕ} (hi : i.toNat = v) (hv : v < 64) :
    tblEntry uuencTblBase64 i = Base64.standardChar v := by
  have htable : (List.range 64).map (fun v => uuencTblBase64.getD v '\x00') =
      (List.range 64).map Base64.standardChar := by
    decide
  rw [tblEntry, hi]
  exact List.map_inj_left.mp htable v (List.mem_range.mpr hv)

theorem toNat_and_mask {m : UInt8} {k : ℕ} (hm : m.toNat = 2 ^ k - 1) (s : UInt8) :
    (s &&& m).toNat = s.toNat % 2 ^ k := by
  rw [UInt8.toNat_and, hm, Nat.and_two_pow_sub_one_eq_mod]

theorem uuencodeRound_eq (s0 s1 s2 : UInt8) : uuencodeRound uuencTblBase64 s0 s1 s2 =
    (Base64.sextets (Base64.group s0 s1 s2)).map Base64.standardChar := by
  have h0 := s0.toNat_lt
  have h1 := s1.toNat_lt
  have h2 := s2.toNat_lt
  have hlt : ∀ n : ℕ, n % 64 < 64 := fun n => Nat.mod_lt n (by decide)
  have hfirst : (s0 >>> 2).toNat = Base64.group s0 s1 s2 / 2 ^ 18 % 64 := by
    have hshift : (s0 >>> 2).toNat = s0.toNat / 2 ^ 2 := by
      rw [UInt8.toNat_shiftRight, Nat.shiftRight_eq_div_pow]
      rfl
    rw [hshift, Base64.group]
    omega
  have hsecond : (((s0 &&& 3) <<< 4) + (s1 >>> 4)).toNat = Base64.group s0 s1 s2 / 2 ^ 12 % 64 := by
    have hhigh : ((s0 &&& 3) <<< 4).toNat = s0.toNat % 2 ^ 2 * 2 ^ 4 % 2 ^ 8 := by
      rw [UInt8.toNat_shiftLeft, @toNat_and_mask 3 2 rfl, Nat.shiftLeft_eq]
      rfl
    have hlow : (s1 >>> 4).toNat = s1.toNat / 2 ^ 4 := by
      rw [UInt8.toNat_shiftRight, Nat.shiftRight_eq_div_pow]
      rfl
    rw [UInt8.toNat_add, hhigh, hlow, Base64.group]
    omega
  have hthird : (((s1 &&& 0xf) <<< 2) + (s2 >>> 6)).toNat = Base64.group s0 s1 s2 / 2 ^ 6 % 64 := by
    have hhigh : ((s1 &&& 0xf) <<< 2).toNat = s1.toNat % 2 ^ 4 * 2 ^ 2 % 2 ^ 8 := by
      rw [UInt8.toNat_shiftLeft, @toNat_and_mask 0xf 4 rfl, Nat.shiftLeft_eq]
      rfl
    have hlow : (s2 >>> 6).toNat = s2.toNat / 2 ^ 6 := by
      rw [UInt8.toNat_shiftRight, Nat.shiftRight_eq_div_pow]
      rfl
    rw [UInt8.toNat_add, hhigh, hlow, Base64.group]
    omega
  have hfourth : (s2 &&& 0x3f).toNat = Base64.group s0 s1 s2 % 64 := by
    rw [@toNat_and_mask 0x3f 6 rfl, Base64.group]
    omega
  rw [uuencodeRound, tblEntry_base64 hfirst (hlt _), tblEntry_base64 hsecond (hlt _),
    tblEntry_base64 hthird (hlt _), tblEntry_base64 hfourth (hlt _)]
  rfl

theorem length_uuencodeLoop (tbl : Text) (src : List UInt8) :
    (uuencodeLoop tbl src).length = uuencodeGetLength src.length := by
  induction src using uuencodeLoop.induct with
  | case1 => rfl
  | case2 s0 => simp [uuencodeLoop, uuencodeRound, uuencodeGetLength]
  | case3 s0 s1 => simp [uuencodeLoop, uuencodeRound, uuencodeGetLength]
  | case4 s0 s1 s2 s ih =>
    have hround : (uuencodeRound tbl s0 s1 s2).length = 4 := rfl
    rw [uuencodeLoop, List.length_append, hround, ih, uuencodeGetLength, uuencodeGetLength]
    simp only [List.length_cons]
    omega

theorem uuencode_cons (tbl : Text) (s0 s1 s2 : UInt8) (s : List UInt8) :
    uuencode tbl (s0 :: s1 :: s2 :: s) = uuencodeRound tbl s0 s1 s2 ++ uuencode tbl s := by
  have hround : (uuencodeRound tbl s0 s1 s2).length = 4 := rfl
  have hpad : (3 - (s0 :: s1 :: s2 :: s).length % 3) % 3 = (3 - s.length % 3) % 3 := by
    simp only [List.length_cons]
    omega
  have hroom : (3 - s.length % 3) % 3 ≤ (uuencodeLoop tbl s).length := by
    rw [length_uuencodeLoop, uuencodeGetLength]
    omega
  have htake : (uuencodeRound tbl s0 s1 s2 ++ uuencodeLoop tbl s).length - (3 - s.length % 3) % 3 =
      (uuencodeRound tbl s0 s1 s2).length + ((uuencodeLoop tbl s).length - (3 - s.length % 3) % 3) := by
    rw [List.length_append]
    omega
  simp only [uuencode, uuencodeLoop, hpad]
  rw [htake, List.take_length_add_append, List.append_assoc]

theorem uuencode_eq_encode (src : List UInt8) :
    uuencode uuencTblBase64 src = Base64.encode Base64.standard src := by
  have hpad : tblEntry uuencTblBase64 64 = '=' := by decide
  induction src using Base64.encode.induct with
  | case1 => rfl
  | case2 s0 =>
    have hloop : uuencodeLoop uuencTblBase64 [s0] = _ := uuencodeRound_eq s0 0 0
    simp only [uuencode, hloop, hpad]
    rfl
  | case3 s0 s1 =>
    have hloop : uuencodeLoop uuencTblBase64 [s0, s1] = _ := uuencodeRound_eq s0 s1 0
    simp only [uuencode, hloop, hpad]
    rfl
  | case4 s0 s1 s2 s ih =>
    rw [uuencode_cons, uuencodeRound_eq, ih]
    rfl

/-- It fills the memory that is allocated for it up to the final NUL. -/
theorem length_uuencode (src : List UInt8) :
    (uuencode uuencTblBase64 src).length = uuencodeGetLength src.length := by
  rw [uuencode_eq_encode, Base64.length_encode]
  rfl

end GstPlayd
