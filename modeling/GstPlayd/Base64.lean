import Mathlib.Algebra.Group.Nat.Defs
import Mathlib.Data.List.Basic
import Mathlib.Tactic.Common

/-! The base 64 encoding of RFC 4648 over an alphabet: groups of 24 bits are
written as four characters, and a short last group is padded. -/

namespace Base64

/-- Characters for the numbers below 64, how they are read, and one for the
padding. -/
structure Alphabet (α : Type*) where
  char : ℕ → α
  value : α → Option ℕ
  pad : α
  value_char : ∀ v < 64, value (char v) = some v
  char_ne_pad : ∀ v < 64, char v ≠ pad

def group (b0 b1 b2 : UInt8) : ℕ := b0.toNat * 2 ^ 16 + b1.toNat * 2 ^ 8 + b2.toNat

def sextets (q : ℕ) : List ℕ := [q / 2 ^ 18 % 64, q / 2 ^ 12 % 64, q / 2 ^ 6 % 64, q % 64]

def octets (v0 v1 v2 v3 : ℕ) : List UInt8 :=
  let q := v0 * 2 ^ 18 + v1 * 2 ^ 12 + v2 * 2 ^ 6 + v3
  [UInt8.ofNat (q / 2 ^ 16), UInt8.ofNat (q / 2 ^ 8), UInt8.ofNat q]

section

variable {α : Type*} (A : Alphabet α)

/-- Zero bits fill up a group of one or two bytes. It gives two or three
characters. -/
def encode : List UInt8 → List α
  | [] => []
  | [b0] => ((sextets (group b0 0 0)).take 2).map A.char ++ [A.pad, A.pad]
  | [b0, b1] => ((sextets (group b0 b1 0)).take 3).map A.char ++ [A.pad]
  | b0 :: b1 :: b2 :: bs => (sextets (group b0 b1 b2)).map A.char ++ encode bs

theorem length_encode (bs : List UInt8) : (encode A bs).length = 4 * ((bs.length + 2) / 3) := by
  induction bs using encode.induct with
  | case1 => rfl
  | case2 b0 => simp [encode, sextets]
  | case3 b0 b1 => simp [encode, sextets]
  | case4 b0 b1 b2 bs ih =>
    have hgroup : ((sextets (group b0 b1 b2)).map A.char).length = 4 := rfl
    rw [encode, List.length_append, ih, hgroup, List.length_cons, List.length_cons, List.length_cons]
    omega

variable [DecidableEq α]

def readGroup (c0 c1 c2 c3 : α) : Option (List UInt8) := do
  let v0 ← A.value c0
  let v1 ← A.value c1
  if c2 = A.pad ∧ c3 = A.pad then return (octets v0 v1 0 0).take 1
  let v2 ← A.value c2
  if c3 = A.pad then return (octets v0 v1 v2 0).take 2
  let v3 ← A.value c3
  return octets v0 v1 v2 v3

/-- Only the last group may be padded. -/
def decode : List α → Option (List UInt8)
  | [] => some []
  | c0 :: c1 :: c2 :: c3 :: cs =>
    if c3 = A.pad ∧ cs ≠ [] then none
    else do return (← readGroup A c0 c1 c2 c3) ++ (← decode cs)
  | _ => none

variable {A}

theorem octets_sextets (b0 b1 b2 : UInt8) :
    octets (group b0 b1 b2 / 2 ^ 18 % 64) (group b0 b1 b2 / 2 ^ 12 % 64) (group b0 b1 b2 / 2 ^ 6 % 64)
      (group b0 b1 b2 % 64) = [b0, b1, b2] := by
  have h0 := b0.toNat_lt
  have h1 := b1.toNat_lt
  have h2 := b2.toNat_lt
  have hq : group b0 b1 b2 / 2 ^ 18 % 64 * 2 ^ 18 + group b0 b1 b2 / 2 ^ 12 % 64 * 2 ^ 12 +
      group b0 b1 b2 / 2 ^ 6 % 64 * 2 ^ 6 + group b0 b1 b2 % 64 = group b0 b1 b2 := by
    rw [group]
    omega
  have hbyte : ∀ (n : ℕ) (b : UInt8), n % 256 = b.toNat → UInt8.ofNat n = b := by
    intro n b h
    apply UInt8.toNat_inj.mp
    rw [UInt8.toNat_ofNat', h]
  rw [octets, hq, hbyte _ b0, hbyte _ b1, hbyte _ b2]
  · rw [group]
    omega
  · rw [group]
    omega
  · rw [group]
    omega

theorem readGroup_three {v0 v1 v2 v3 : ℕ} (h0 : v0 < 64) (h1 : v1 < 64) (h2 : v2 < 64) (h3 : v3 < 64) :
    readGroup A (A.char v0) (A.char v1) (A.char v2) (A.char v3) = some (octets v0 v1 v2 v3) := by
  simp [readGroup, A.value_char _ h0, A.value_char _ h1, A.value_char _ h2, A.value_char _ h3,
    A.char_ne_pad _ h2, A.char_ne_pad _ h3]

theorem readGroup_two {v0 v1 v2 : ℕ} (h0 : v0 < 64) (h1 : v1 < 64) (h2 : v2 < 64) :
    readGroup A (A.char v0) (A.char v1) (A.char v2) A.pad = some ((octets v0 v1 v2 0).take 2) := by
  simp [readGroup, A.value_char _ h0, A.value_char _ h1, A.value_char _ h2, A.char_ne_pad _ h2]

theorem readGroup_one {v0 v1 : ℕ} (h0 : v0 < 64) (h1 : v1 < 64) :
    readGroup A (A.char v0) (A.char v1) A.pad A.pad = some ((octets v0 v1 0 0).take 1) := by
  simp [readGroup, A.value_char _ h0, A.value_char _ h1]

theorem decode_group {c0 c1 c2 c3 : α} {cs : List α} {bs bs' : List UInt8} (hpad : c3 = A.pad → cs = [])
    (hread : readGroup A c0 c1 c2 c3 = some bs) (hdecode : decode A cs = some bs') :
    decode A (c0 :: c1 :: c2 :: c3 :: cs) = some (bs ++ bs') := by
  have hlast : ¬ (c3 = A.pad ∧ cs ≠ []) := fun h => h.2 (hpad h.1)
  rw [decode, if_neg hlast, hread, hdecode]
  rfl

theorem decode_encode (bs : List UInt8) : decode A (encode A bs) = some bs := by
  have hlt : ∀ n : ℕ, n % 64 < 64 := fun n => Nat.mod_lt n (by decide)
  have h0 : (0 : UInt8).toNat = 0 := rfl
  induction bs using encode.induct with
  | case1 => rfl
  | case2 b0 =>
    have hzero : group b0 0 0 / 2 ^ 6 % 64 = 0 ∧ group b0 0 0 % 64 = 0 := by
      rw [group, h0]
      omega
    have hread := octets_sextets b0 0 0
    rw [hzero.1, hzero.2] at hread
    refine decode_group (fun _ => rfl) (readGroup_one (hlt _) (hlt _)) rfl |>.trans ?_
    rw [hread]
    rfl
  | case3 b0 b1 =>
    have hzero : group b0 b1 0 % 64 = 0 := by
      rw [group, h0]
      omega
    have hread := octets_sextets b0 b1 0
    rw [hzero] at hread
    refine decode_group (fun _ => rfl) (readGroup_two (hlt _) (hlt _) (hlt _)) rfl |>.trans ?_
    rw [hread]
    rfl
  | case4 b0 b1 b2 bs ih =>
    have hpad : ∀ n : ℕ, A.char (n % 64) = A.pad → encode A bs = [] := fun n h =>
      absurd h (A.char_ne_pad _ (hlt n))
    refine decode_group (hpad _) (readGroup_three (hlt _) (hlt _) (hlt _) (hlt _)) ih |>.trans ?_
    rw [octets_sextets]
    rfl

end

/-- The alphabet of table 1. -/
def standardChar (v : ℕ) : Char :=
  if v < 26 then Char.ofNat (65 + v)
  else if v < 52 then Char.ofNat (97 + (v - 26))
  else if v < 62 then Char.ofNat (48 + (v - 52))
  else if v = 62 then '+' else '/'

def standardValue (c : Char) : Option ℕ :=
  if c.isUpper then some (c.toNat - 65)
  else if c.isLower then some (26 + (c.toNat - 97))
  else if c.isDigit then some (52 + (c.toNat - 48))
  else if c = '+' then some 62
  else if c = '/' then some 63
  else none

def standard : Alphabet Char where
  char := standardChar
  value := standardValue
  pad := '='
  value_char := by decide
  char_ne_pad := by decide

end Base64
