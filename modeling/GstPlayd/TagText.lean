import GstPlayd.TagReply

/-! What can be read from the text of a tag value. A 64-bit number is printed
with `%lu64`, which prints two digits too many. -/

namespace GstPlayd

/-- The text, if there is one: `uuencode_get_length` computes with `int`, and
past its range the allocation or the encoder fails. -/
def renderedText (fmt : Formats) : GValue → Option Text
  | .buffer bytes =>
    if uuencodeGetLength bytes.length < 2 ^ 31 then some (tagValue fmt (.buffer bytes)) else none
  | value => some (tagValue fmt value)

/-- Doubles and dates have a format of their own, and of any other value only
the type is named. -/
def GValue.HasReading : GValue → Prop
  | .double _ => False
  | .date _ => False
  | .other _ => False
  | _ => True

/-- The text says what the value is: a string by itself, a number in base 10,
a truth value by its name and bytes in base 64. -/
def ReadsBack : GValue → Text → Prop
  | .string s, text => text = s
  | .uint n, text => text = Nat.toDigits 10 n.toNat ∧ Nat.ofDigitChars 10 text 0 = n.toNat
  | .uint64 n, text => text = Nat.toDigits 10 n.toNat ∧ Nat.ofDigitChars 10 text 0 = n.toNat
  | .boolean b, text => text = if b then "true".toList else "false".toList
  | .buffer bytes, text =>
    text = Base64.encode Base64.standard bytes ∧ Base64.decode Base64.standard text = some bytes
  | _, _ => False

variable {fmt : Formats} {value value' : GValue} {text : Text}

theorem renderedText_eq (h : renderedText fmt value = some text) : text = tagValue fmt value := by
  cases value with
  | buffer bytes =>
    rw [renderedText] at h
    split at h
    · exact (Option.some.inj h).symm
    · cases h
  | _ => exact (Option.some.inj h).symm

theorem tagValue_string (s : Text) : tagValue fmt (.string s) = s := rfl

theorem tagValue_uint (n : UInt32) : tagValue fmt (.uint n) = Nat.toDigits 10 n.toNat := rfl

theorem tagValue_uint64 (n : UInt64) :
    tagValue fmt (.uint64 n) = Nat.toDigits 10 n.toNat ++ "64".toList := rfl

theorem tagValue_boolean (b : Bool) :
    tagValue fmt (.boolean b) = if b then "true".toList else "false".toList := rfl

theorem tagValue_buffer (bytes : List UInt8) :
    tagValue fmt (.buffer bytes) = Base64.encode Base64.standard bytes := uuencode_eq_encode bytes

theorem ofDigitChars_uint64 (fmt : Formats) (n : UInt64) :
    Nat.ofDigitChars 10 (tagValue fmt (.uint64 n)) 0 = 100 * n.toNat + 64 := by
  have hsuffix : Nat.ofDigitChars 10 "64".toList 0 = 64 := by decide
  have hlength : "64".toList.length = 2 := by decide
  rw [tagValue_uint64, Nat.ofDigitChars_append, Nat.ofDigitChars_ten_toDigits,
    Nat.ofDigitChars_eq_ofDigitChars_zero, hsuffix, hlength]

/-- Of the values with a reading only 64-bit numbers cannot be read back. -/
theorem renderedText_readsBack_iff (hread : value.HasReading) (h : renderedText fmt value = some text) :
    ReadsBack value text ↔ ∀ n, value ≠ .uint64 n := by
  rw [renderedText_eq h]
  cases value with
  | string s => exact iff_of_true (tagValue_string s) fun n hn => by cases hn
  | uint n =>
    have hback : ReadsBack (.uint n) (tagValue fmt (.uint n)) :=
      ⟨tagValue_uint n, by rw [tagValue_uint, Nat.ofDigitChars_ten_toDigits]⟩
    exact iff_of_true hback fun n hn => by cases hn
  | uint64 n =>
    have hno : ¬ ReadsBack (.uint64 n) (tagValue fmt (.uint64 n)) := by
      intro hback
      have hvalue := hback.2
      rw [ofDigitChars_uint64] at hvalue
      omega
    exact iff_of_false hno fun hne => hne n rfl
  | boolean b => exact iff_of_true (tagValue_boolean b) fun n hn => by cases hn
  | buffer bytes =>
    have hback : ReadsBack (.buffer bytes) (tagValue fmt (.buffer bytes)) :=
      ⟨tagValue_buffer bytes, by rw [tagValue_buffer, Base64.decode_encode]⟩
    exact iff_of_true hback fun n hn => by cases hn
  | double bits => exact hread.elim
  | date julian => exact hread.elim
  | other typeName => exact hread.elim

theorem renderedText_readsBack_two_bytes : ReadsBack (.buffer [77, 97]) "TWE=".toList := by
  have htext : renderedText exampleFormats (.buffer [77, 97]) = some "TWE=".toList := by decide
  have hread : (GValue.buffer [77, 97]).HasReading := trivial
  exact (renderedText_readsBack_iff hread htext).mpr fun n hn => by cases hn

theorem five_not_readsBack : renderedText exampleFormats (.uint64 5) = some "564".toList ∧
    ¬ ReadsBack (.uint64 5) "564".toList := by
  refine ⟨by decide, fun h => ?_⟩
  exact absurd h.2 (by decide)

end GstPlayd
