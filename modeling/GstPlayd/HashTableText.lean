import GstPlayd.LinearMemory
import GstPlayd.TagTable

/-! `util_hash_table_as_string` in memory: one pass over the table adds up the
size of the buffer, a second one prints into it through a moving pointer. -/

namespace GstPlayd

open LinearMemory

/-- A key and its value, as the bytes that their pointers lead to. -/
structure HashEntry where
  key : List UInt8
  value : List UInt8

/-- The value that is left when a number is stored in an `int`. -/
def wrapInt (n : Int) : Int := (n + 2 ^ 31) % 2 ^ 32 - 2 ^ 31

def hashForeachCalcLength (len : Int) (e : HashEntry) : Int :=
  wrapInt (len + (cBytes e.key).length + (cBytes e.value).length + 2)

/-- What `sprintf` prints, without its NUL. -/
def hashEntryText (e : HashEntry) : List UInt8 := cBytes e.key ++ [10] ++ cBytes e.value ++ [10]

/-- The pointer, counted from the buffer, and what is written. -/
def hashForeachCreateMessage (data : Int × Memory UInt8) (e : HashEntry) : Int × Memory UInt8 :=
  (data.1 + (hashEntryText e).length, write data.2 data.1 (hashEntryText e ++ [0]))

def utilBufsize (visit : List HashEntry) : Int := visit.foldl hashForeachCalcLength 4

def utilMessage (visit : List HashEntry) : Memory UInt8 :=
  (visit.foldl hashForeachCreateMessage (0, blank)).2

/-- The string in the buffer, whose bytes are zero before the second pass. -/
def utilResult (first second : List HashEntry) : List UInt8 :=
  cBytes (contents (utilMessage second) 0 (utilBufsize first).toNat)

def totalText (entries : List HashEntry) : Nat :=
  (entries.flatMap fun e => e.key ++ [10] ++ e.value ++ [10]).length

theorem totalText_perm {visit entries : List HashEntry} (h : visit.Perm entries) :
    totalText visit = totalText entries := (h.flatMap_right _).length_eq

theorem wrapInt_of_lt {n : Int} (h0 : 0 ≤ n) (h : n < 2 ^ 31) : wrapInt n = n := by
  rw [wrapInt]
  omega

section

variable {visit : List HashEntry}

theorem foldl_calcLength (hnul : ∀ e ∈ visit, 0 ∉ e.key ∧ 0 ∉ e.value) {len : Int} (hlen : 0 ≤ len)
    (htotal : len + totalText visit < 2 ^ 31) :
    visit.foldl hashForeachCalcLength len = len + totalText visit := by
  induction visit generalizing len with
  | nil => exact (Int.add_zero len).symm
  | cons e visit ih =>
    obtain ⟨hkey, hvalue⟩ := hnul e List.mem_cons_self
    have hsum : totalText (e :: visit) = e.key.length + e.value.length + 2 + totalText visit := by
      simp only [totalText, List.flatMap_cons, List.length_append, List.length_singleton]
      omega
    have hstep : hashForeachCalcLength len e = len + (e.key.length + e.value.length + 2 : ℕ) := by
      rw [hashForeachCalcLength, cBytes_of_not_mem hkey, cBytes_of_not_mem hvalue,
        wrapInt_of_lt (by omega) (by omega)]
      omega
    rw [List.foldl_cons, hstep, ih (fun d hd => hnul d (List.mem_cons_of_mem e hd)) (by omega) (by omega),
      hsum]
    omega

/-- Each `sprintf` starts on the NUL of the one before. -/
theorem foldl_createMessage {text nul : List UInt8} (h : nul.length ≤ 1) :
    (visit.foldl hashForeachCreateMessage (text.length, write blank 0 (text ++ nul))).2 =
      write blank 0 (text ++ visit.flatMap hashEntryText ++ if visit = [] then nul else [0]) := by
  induction visit generalizing text nul with
  | nil => simp
  | cons e visit ih =>
    have hstep : hashForeachCreateMessage (text.length, write blank 0 (text ++ nul)) e =
        (((text ++ hashEntryText e).length : Int), write blank 0 (text ++ hashEntryText e ++ [0])) := by
      have hover := @write_write _ blank 0 text nul (hashEntryText e ++ [0])
        (h.trans (by simp))
      rw [Int.zero_add] at hover
      rw [hashForeachCreateMessage, hover, List.length_append, List.append_assoc]
      rfl
    rw [List.foldl_cons, hstep, @ih (text ++ hashEntryText e) [0] (Nat.le_refl 1),
      List.flatMap_cons, List.append_assoc]
    simp

theorem utilBufsize_eq (hnul : ∀ e ∈ visit, 0 ∉ e.key ∧ 0 ∉ e.value)
    (htotal : totalText visit < 2 ^ 31 - 4) : utilBufsize visit = 4 + totalText visit :=
  foldl_calcLength hnul (by decide) (by omega)

theorem utilMessage_eq (visit : List HashEntry) :
    utilMessage visit = write blank 0 (visit.flatMap hashEntryText ++ if visit = [] then [] else [0]) :=
  @foldl_createMessage visit [] [] (Nat.zero_le 1)

theorem flatMap_hashEntryText (hnul : ∀ e ∈ visit, 0 ∉ e.key ∧ 0 ∉ e.value) :
    visit.flatMap hashEntryText = visit.flatMap fun e => e.key ++ [10] ++ e.value ++ [10] := by
  refine List.flatMap_congr fun e he => ?_
  rw [hashEntryText, cBytes_of_not_mem (hnul e he).1, cBytes_of_not_mem (hnul e he).2]

theorem length_flatMap_hashEntryText (hnul : ∀ e ∈ visit, 0 ∉ e.key ∧ 0 ∉ e.value) :
    (visit.flatMap hashEntryText).length = totalText visit :=
  congrArg List.length (flatMap_hashEntryText hnul)

theorem not_mem_flatMap_hashEntryText (hnul : ∀ e ∈ visit, 0 ∉ e.key ∧ 0 ∉ e.value) :
    0 ∉ visit.flatMap hashEntryText := by
  rw [flatMap_hashEntryText hnul]
  intro h
  obtain ⟨e, he, hmem⟩ := List.mem_flatMap.mp h
  obtain ⟨hkey, hvalue⟩ := hnul e he
  simp [hkey, hvalue] at hmem

end

/-- The buffer holds the text and a NUL after it. -/
theorem contents_utilMessage {entries first second : List HashEntry}
    (hnul : ∀ e ∈ entries, 0 ∉ e.key ∧ 0 ∉ e.value) (htotal : totalText entries < 2 ^ 31 - 4)
    (hfirst : first.Perm entries) (hsecond : second.Perm entries) :
    utilBufsize first = 4 + (second.flatMap hashEntryText).length ∧
      ∃ rest, contents (utilMessage second) 0 (utilBufsize first).toNat =
        second.flatMap hashEntryText ++ 0 :: rest := by
  have hsize : utilBufsize first = 4 + (second.flatMap hashEntryText).length := by
    rw [utilBufsize_eq (fun e he => hnul e (hfirst.subset he)) (by rwa [totalText_perm hfirst]),
      totalText_perm hfirst, length_flatMap_hashEntryText fun e he => hnul e (hsecond.subset he),
      totalText_perm hsecond]
  refine ⟨hsize, ?_⟩
  rw [utilMessage_eq]
  by_cases hempty : second = []
  · -- no `sprintf` has written a NUL
    rw [if_pos hempty, List.append_nil, contents_write (by omega), hsize]
    have hroom : (4 + ((second.flatMap hashEntryText).length : Int)).toNat -
        (second.flatMap hashEntryText).length = 4 := by omega
    rw [hroom]
    exact ⟨List.replicate 3 0, rfl⟩
  · rw [if_neg hempty, contents_write, List.append_assoc]
    · exact ⟨_, rfl⟩
    · rw [List.length_append, List.length_singleton]
      omega

theorem utilResult_of_contents {first second : List HashEntry} {rest : List UInt8}
    (hnul : ∀ e ∈ second, 0 ∉ e.key ∧ 0 ∉ e.value)
    (h : contents (utilMessage second) 0 (utilBufsize first).toNat = second.flatMap hashEntryText ++ 0 :: rest) :
    utilResult first second = second.flatMap fun e => e.key ++ [10] ++ e.value ++ [10] := by
  rw [utilResult, h, cBytes_append_nul (not_mem_flatMap_hashEntryText hnul), flatMap_hashEntryText hnul]

/-- The second pass stays in the buffer that the first one has sized, whatever
the orders of the two. -/
theorem utilResult_eq {entries first second : List HashEntry}
    (hnul : ∀ e ∈ entries, 0 ∉ e.key ∧ 0 ∉ e.value) (htotal : totalText entries < 2 ^ 31 - 4)
    (hfirst : first.Perm entries) (hsecond : second.Perm entries) :
    (∀ i, (utilMessage second i).isSome = true → 0 ≤ i ∧ i < utilBufsize first) ∧
      0 ∈ contents (utilMessage second) 0 (utilBufsize first).toNat ∧
      utilResult first second = second.flatMap fun e => e.key ++ [10] ++ e.value ++ [10] := by
  obtain ⟨hsize, rest, hrest⟩ := contents_utilMessage hnul htotal hfirst hsecond
  refine ⟨?_, ?_, utilResult_of_contents (fun e he => hnul e (hsecond.subset he)) hrest⟩
  · intro i hi
    rw [utilMessage_eq, write_blank_isSome_iff, List.length_append] at hi
    have hend : (if second = [] then [] else [0] : List UInt8).length ≤ 1 := by
      split
      · exact Nat.zero_le 1
      · exact Nat.le_refl 1
    omega
  · rw [hrest]
    simp

theorem utilResult_eq_two_entries :
    utilResult [⟨[97], [98]⟩, ⟨[99], []⟩] [⟨[99], []⟩, ⟨[97], [98]⟩] = [99, 10, 10, 97, 10, 98, 10] :=
  (@utilResult_eq [⟨[97], [98]⟩, ⟨[99], []⟩] _ _ (by decide) (by decide) (List.Perm.refl _)
    (List.Perm.swap _ _ _)).2.2

def HashEntry.ofText (e : Σ _ : Text, Text) : HashEntry := ⟨textBytes e.1, textBytes e.2⟩

/-- For a table of texts the string is what `utilHashTableAsString` gives. -/
theorem utilResult_ofText {entries first second : List (Σ _ : Text, Text)}
    (hnul : ∀ e ∈ entries, 0 ∉ textBytes e.1 ∧ 0 ∉ textBytes e.2)
    (htotal : totalText (entries.map HashEntry.ofText) < 2 ^ 31 - 4)
    (hfirst : first.Perm entries) (hsecond : second.Perm entries) :
    utilResult (first.map HashEntry.ofText) (second.map HashEntry.ofText) =
      textBytes (utilHashTableAsString second) := by
  have hbytes : ∀ e ∈ entries.map HashEntry.ofText, 0 ∉ e.key ∧ 0 ∉ e.value := by
    intro e he
    obtain ⟨d, hd, rfl⟩ := List.mem_map.mp he
    exact hnul d hd
  obtain ⟨_, rest, hrest⟩ := contents_utilMessage hbytes htotal (hfirst.map _) (hsecond.map _)
  rw [utilResult_of_contents (fun e he => hbytes e ((hsecond.map _).subset he)) hrest, List.flatMap_map,
    utilHashTableAsString, textBytes, List.flatMap_assoc]
  refine List.flatMap_congr fun e _ => ?_
  have hnewline : [(10 : UInt8)] = textBytes ['\n'] := rfl
  change textBytes e.1 ++ [10] ++ textBytes e.2 ++ [10] = textBytes (e.1 ++ '\n' :: e.2 ++ ['\n'])
  rw [hnewline, ← textBytes_append, ← textBytes_append, ← textBytes_append]
  simp

end GstPlayd
