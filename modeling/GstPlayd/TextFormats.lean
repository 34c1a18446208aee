import Mathlib.Algebra.Group.Int.Defs
import Mathlib.Algebra.Group.Nat.Defs
import Mathlib.Data.List.Basic
import Mathlib.Data.List.TakeWhile
import Mathlib.Tactic.DefEqTransformations

/-! The C library and GLib text functions that the daemon calls, on lists of
characters: `printf` conversions, `atoll`, `g_str_hash` and the newline
conventions that a `GRegex` may be compiled with. -/

namespace GstPlayd

abbrev Text := List Char

/-- The C string stored in a buffer: everything before the first NUL. -/
def cString (s : Text) : Text := s.takeWhile (· ≠ '\x00')

def fmtUnsigned (n : Nat) : Text := Nat.toDigits 10 n

def fmtSigned (n : Int) : Text := if n < 0 then '-' :: fmtUnsigned n.natAbs else fmtUnsigned n.natAbs

def fmtPointer (p : UInt64) : Text := '0' :: 'x' :: Nat.toDigits 16 p.toNat

/-- The bytes of a C string, its NUL left out. -/
def textBytes (s : Text) : List UInt8 := s.flatMap String.utf8EncodeChar

/-- The C string that a piece of memory starts with. -/
def cBytes (s : List UInt8) : List UInt8 := s.takeWhile (· ≠ 0)

/-- One step of `g_str_hash`, whose characters are signed. -/
def gStrHashStep (h : UInt32) (c : UInt8) : UInt32 := h * 33 + c.toInt8.toInt32.toUInt32

def gStrHash (s : Text) : UInt32 := (s.flatMap String.utf8EncodeChar).foldl gStrHashStep 5381

def isSpace (c : Char) : Bool := c = ' ' || ('\t' ≤ c && c ≤ '\r')

def splitSign : Text → Bool × Text
  | '-' :: s => (true, s)
  | '+' :: s => (false, s)
  | s => (false, s)

/-- `atoll`, saturating like `strtoll` outside the range of `long long`. -/
def atoll (s : Text) : Int :=
  let (negative, digits) := splitSign (s.dropWhile isSpace)
  let n : Int := Nat.ofDigitChars 10 (digits.takeWhile Char.isDigit) 0
  if negative then max (-n) (-2 ^ 63) else min n (2 ^ 63 - 1)

theorem textBytes_append (s t : Text) : textBytes (s ++ t) = textBytes s ++ textBytes t :=
  List.flatMap_append

theorem cString_of_not_mem {s : Text} (h : '\x00' ∉ s) : cString s = s := by
  rw [cString, List.takeWhile_eq_self_iff]
  exact fun c hc => decide_eq_true fun he => h (he ▸ hc)

theorem cString_append_nul {s : Text} (h : '\x00' ∉ s) (t : Text) : cString (s ++ '\x00' :: t) = s := by
  have hs : ∀ c ∈ s, decide (c ≠ '\x00') = true := fun c hc => decide_eq_true fun he => h (he ▸ hc)
  rw [cString, List.takeWhile_append_of_pos hs, List.takeWhile_cons_of_neg (by decide), List.append_nil]

theorem nul_not_mem_cString (s : Text) : '\x00' ∉ cString s := by
  intro h
  have hne := List.mem_takeWhile_imp h
  simp at hne

theorem cBytes_of_not_mem {s : List UInt8} (h : 0 ∉ s) : cBytes s = s := by
  rw [cBytes, List.takeWhile_eq_self_iff]
  exact fun b hb => decide_eq_true fun he => h (he ▸ hb)

theorem cBytes_append_nul {s : List UInt8} (h : 0 ∉ s) (t : List UInt8) : cBytes (s ++ 0 :: t) = s := by
  have hs : ∀ b ∈ s, decide (b ≠ 0) = true := fun b hb => decide_eq_true fun he => h (he ▸ hb)
  rw [cBytes, List.takeWhile_append_of_pos hs, List.takeWhile_cons_of_neg (by decide), List.append_nil]

theorem length_textBytes {s : Text} (h : ∀ c ∈ s, c.utf8Size = 1) : (textBytes s).length = s.length := by
  induction s with
  | nil => rfl
  | cons c s ih =>
    have hc : (String.utf8EncodeChar c).length = 1 := by
      rw [String.length_utf8EncodeChar, h c List.mem_cons_self]
    have hs := ih fun c hc => h c (List.mem_cons_of_mem _ hc)
    rw [textBytes, List.flatMap_cons, List.length_append, hc, List.length_cons, Nat.add_comm]
    exact congrArg (· + 1) hs

theorem utf8Size_digitChar : ∀ n < 16, (Nat.digitChar n).utf8Size = 1 := by decide

theorem utf8Size_of_mem_toDigits {b n : Nat} (hb : 1 < b) (hb16 : b ≤ 16) {c : Char}
    (h : c ∈ Nat.toDigits b n) : c.utf8Size = 1 := by
  induction n using Nat.strong_induction_on with
  | _ n ih =>
    by_cases hn : n < b
    · rw [Nat.toDigits_of_lt_base hn, List.mem_singleton] at h
      exact h ▸ utf8Size_digitChar n (by omega)
    · rw [Nat.toDigits_of_base_le hb (Nat.le_of_not_lt hn), List.mem_append, List.mem_singleton] at h
      have hlt : n % b < b := Nat.mod_lt n (by omega)
      rcases h with h | rfl
      · exact ih (n / b) (Nat.div_lt_self (by omega) hb) h
      · exact utf8Size_digitChar _ (by omega)

theorem length_textBytes_fmtUnsigned (n : Nat) : (textBytes (fmtUnsigned n)).length = (fmtUnsigned n).length :=
  length_textBytes fun _ => utf8Size_of_mem_toDigits (by decide) (by decide)

theorem length_textBytes_fmtPointer (p : UInt64) :
    (textBytes (fmtPointer p)).length = (fmtPointer p).length := by
  refine length_textBytes fun c hc => ?_
  simp only [fmtPointer, List.mem_cons] at hc
  rcases hc with rfl | rfl | hc
  · rfl
  · rfl
  · exact utf8Size_of_mem_toDigits (by decide) (by decide) hc

theorem length_fmtPointer (p : UInt64) : 3 ≤ (fmtPointer p).length ∧ (fmtPointer p).length ≤ 18 := by
  have hpos : 0 < (Nat.toDigits 16 p.toNat).length := Nat.length_toDigits_pos
  have hle : (Nat.toDigits 16 p.toNat).length ≤ 16 :=
    (Nat.length_toDigits_le_iff (by decide) (by decide)).mpr p.toNat_lt
  simp only [fmtPointer, List.length_cons]
  omega

theorem length_fmtUnsigned (n : UInt64) :
    1 ≤ (fmtUnsigned n.toNat).length ∧ (fmtUnsigned n.toNat).length ≤ 20 := by
  have hlt := n.toNat_lt
  exact ⟨Nat.length_toDigits_pos,
    (Nat.length_toDigits_le_iff (by decide) (by decide)).mpr (Nat.lt_trans hlt (by decide))⟩

theorem isDigit_of_mem_fmtUnsigned {n : Nat} {c : Char} (h : c ∈ fmtUnsigned n) :
    c.isDigit = true :=
  Nat.isDigit_of_mem_toDigits (by decide) (by decide) h

theorem fmtUnsigned_injective : Function.Injective fmtUnsigned := by
  intro m n h
  have hh := congrArg (fun s => Nat.ofDigitChars 10 s 0) h
  simpa only [fmtUnsigned, Nat.ofDigitChars_ten_toDigits] using hh

theorem fmtSigned_injective : Function.Injective fmtSigned := by
  have hsign : ∀ m n : Nat, fmtUnsigned m ≠ '-' :: fmtUnsigned n := by
    intro m n h
    have hd : '-'.isDigit = true := isDigit_of_mem_fmtUnsigned (h ▸ List.mem_cons_self)
    exact absurd hd (by decide)
  intro m n h
  by_cases hm : m < 0
  · by_cases hn : n < 0
    · rw [fmtSigned, fmtSigned, if_pos hm, if_pos hn] at h
      have habs := fmtUnsigned_injective (List.cons.inj h).2
      omega
    · rw [fmtSigned, fmtSigned, if_pos hm, if_neg hn] at h
      exact absurd h.symm (hsign _ _)
  · by_cases hn : n < 0
    · rw [fmtSigned, fmtSigned, if_neg hm, if_pos hn] at h
      exact absurd h (hsign _ _)
    · rw [fmtSigned, fmtSigned, if_neg hm, if_neg hn] at h
      have habs := fmtUnsigned_injective h
      omega

theorem not_isSpace_of_isDigit {c : Char} (h : c.isDigit = true) : isSpace c = false := by
  have hge : '0' ≤ c := by
    simp only [Char.isDigit, Bool.and_eq_true, decide_eq_true_eq] at h
    exact h.1
  have hne : c ≠ ' ' := by
    rintro rfl
    exact absurd hge (by decide)
  have hgt : ¬ c ≤ '\r' := fun hc => absurd (Char.le_trans hge hc) (by decide)
  simp [isSpace, hne, hgt]

theorem splitSign_of_isDigit {c : Char} (h : c.isDigit = true) (s : Text) :
    splitSign (c :: s) = (false, c :: s) := by
  unfold splitSign
  split
  · simp_all
  · simp_all
  · rfl

theorem atoll_fmtUnsigned {n : Nat} (h : n < 2 ^ 63) : atoll (fmtUnsigned n) = n := by
  have hdigit : ∀ c ∈ fmtUnsigned n, c.isDigit = true := fun c => isDigit_of_mem_fmtUnsigned
  obtain ⟨c, cs, hc⟩ := List.exists_cons_of_ne_nil (Nat.toDigits_ne_nil (n := n) (b := 10))
  change fmtUnsigned n = c :: cs at hc
  have hd : c.isDigit = true := hdigit c (by simp [hc])
  have hspace : (fmtUnsigned n).dropWhile isSpace = fmtUnsigned n := by
    rw [hc, List.dropWhile_cons_of_neg (by simp [not_isSpace_of_isDigit hd])]
  have hsign : splitSign (fmtUnsigned n) = (false, fmtUnsigned n) := by
    rw [hc]
    exact splitSign_of_isDigit hd cs
  have hall : (fmtUnsigned n).takeWhile Char.isDigit = fmtUnsigned n :=
    List.takeWhile_eq_self_iff.mpr hdigit
  have hval : Nat.ofDigitChars 10 (fmtUnsigned n) 0 = n := Nat.ofDigitChars_ten_toDigits
  simp only [atoll, hspace, hsign, hall, hval, Bool.false_eq_true, if_false]
  omega

/-- A convention for line breaks. No break starts with a capital or a space. -/
structure Newlines where
  sequences : List Text
  plain : ∀ s ∈ sequences, ∀ c ∈ s.head?, c.isUpper = false ∧ c ≠ ' '

namespace Newlines

/-- Every Unicode line break, the default of `GRegex`. -/
def any : Newlines where
  sequences := ["\r\n".toList, "\n".toList, "\r".toList, "\x0b".toList, "\x0c".toList,
    "\u0085".toList, "\u2028".toList, "\u2029".toList]
  plain := by simp

variable (nl : Newlines)

def dot (c : Char) : Bool := nl.sequences.all fun s => s.head? != some c

/-- Where `$` matches: at the end or before a final line break. -/
def atEnd (after : Text) : Bool := after.isEmpty || nl.sequences.contains after

theorem dot_of_isUpper {c : Char} (h : c.isUpper = true) : nl.dot c = true := by
  simp only [dot, List.all_eq_true, bne_iff_ne]
  intro s hs he
  have hh := (nl.plain s hs c he).1
  simp [h] at hh

theorem dot_space : nl.dot ' ' = true := by
  simp only [dot, List.all_eq_true, bne_iff_ne]
  intro s hs he
  exact (nl.plain s hs ' ' he).2 rfl

theorem not_dot_of_atEnd {c : Char} {cs : Text} (h : nl.atEnd (c :: cs) = true) :
    nl.dot c = false := by
  have hm : c :: cs ∈ nl.sequences := by simpa [atEnd] using h
  simp only [dot, List.all_eq_false]
  exact ⟨c :: cs, hm, by simp⟩

theorem atEnd_nil : nl.atEnd [] = true := rfl

end Newlines

end GstPlayd
