import GstPlayd.Uuencode
import Mathlib.Data.List.AList

/-! Tag lists of GStreamer, the hash table of their rendered values, and the
text that the table is sent as. -/

namespace GstPlayd

inductive GValue
  | string (s : Text)
  | uint (n : UInt32)
  | uint64 (n : UInt64)
  | double (bits : UInt64)
  | boolean (b : Bool)
  | buffer (bytes : List UInt8)
  | date (julian : UInt32)
  | other (typeName : Text)

/-- The conversions of a double with `%f` and of a date with `%F`. -/
structure Formats where
  double : UInt64 → Text
  date : UInt32 → Text

structure GstTagList where
  tags : List (Text × List GValue)
  nodup : (tags.map Prod.fst).Nodup

abbrev TagTable := AList fun _ : Text => Text

variable (fmt : Formats)

def tagValue : GValue → Text
  | .string s => s
  | .uint n => fmtUnsigned n.toNat
  | .uint64 n => fmtUnsigned n.toNat ++ "64".toList
  | .double bits => fmt.double bits
  | .boolean b => if b then "true".toList else "false".toList
  | .buffer bytes => uuencode uuencTblBase64 bytes
  | .date julian => fmt.date julian
  | .other typeName => "tag of type ’".toList ++ typeName ++ "’".toList

def tagKey (tag : Text) (i : Nat) : Text := tag ++ '_' :: fmtUnsigned i

def tagToHashTable (table : TagTable) (tag : Text × List GValue) : TagTable :=
  tag.2.zipIdx.foldl (fun t v => t.insert (tagKey tag.1 v.2) (tagValue fmt v.1)) table

def gsuTagsToHashTable (tags : GstTagList) (table : TagTable) : TagTable :=
  tags.tags.foldl (tagToHashTable fmt) table

/-- The text for the entries in the order in which `g_hash_table_foreach`
visits them. -/
def utilHashTableAsString (visit : List (Σ _ : Text, Text)) : Text :=
  visit.flatMap fun e => e.1 ++ '\n' :: e.2 ++ ['\n']

def tagsReply (visit : List (Σ _ : Text, Text)) : Text := "OK\n".toList ++ utilHashTableAsString visit

def tagTableOf (lists : List GstTagList) : TagTable :=
  lists.foldl (fun t tags => gsuTagsToHashTable fmt tags t) ∅

structure TagEntry where
  tag : Text
  index : Nat
  value : Text

def TagEntry.line (e : TagEntry) : Σ _ : Text, Text := ⟨tagKey e.tag e.index, e.value⟩

theorem underscore_not_mem_fmtUnsigned (i : Nat) : '_' ∉ fmtUnsigned i := fun hm =>
  absurd (isDigit_of_mem_fmtUnsigned hm) (by decide)

theorem tagKey_injective {tag tag' : Text} {i i' : Nat} (h : tagKey tag i = tagKey tag' i') :
    tag = tag' ∧ i = i' := by
  have hshort : ∀ {a d d' : Text}, '_' ∉ d → '_' :: d = a ++ '_' :: d' → a = [] := by
    intro a d d' hd ha
    cases a with
    | nil => rfl
    | cons x a =>
      rw [List.cons_append, List.cons.injEq] at ha
      rw [ha.2] at hd
      exact absurd (by simp) hd
  rcases List.append_eq_append_iff.mp h with ⟨a, rfl, ha⟩ | ⟨a, rfl, ha⟩
  · obtain rfl := hshort (underscore_not_mem_fmtUnsigned i) ha
    exact ⟨(List.append_nil tag).symm, fmtUnsigned_injective (List.cons.inj ha).2⟩
  · obtain rfl := hshort (underscore_not_mem_fmtUnsigned i') ha
    exact ⟨List.append_nil tag', fmtUnsigned_injective (List.cons.inj ha).2.symm⟩

theorem TagEntry.line_injective : Function.Injective TagEntry.line := by
  intro e e' h
  obtain ⟨tag, i, value⟩ := e
  obtain ⟨tag', i', value'⟩ := e'
  obtain ⟨hk, hv⟩ := Sigma.mk.inj_iff.mp h
  obtain ⟨rfl, rfl⟩ := tagKey_injective hk
  obtain rfl : value = value' := eq_of_heq hv
  rfl

def KeysPrinted (table : TagTable) : Prop := ∀ k ∈ table, ∃ tag i, k = tagKey tag i

theorem keysPrinted_insert {table : TagTable} (h : KeysPrinted table) (tag : Text) (i : Nat) (value : Text) :
    KeysPrinted (table.insert (tagKey tag i) value) := by
  intro k hk
  rcases (AList.mem_insert _).mp hk with rfl | hk
  · exact ⟨tag, i, rfl⟩
  · exact h k hk

theorem keysPrinted_tagToHashTable {table : TagTable} (h : KeysPrinted table) (tag : Text × List GValue) :
    KeysPrinted (tagToHashTable fmt table tag) := by
  rw [tagToHashTable]
  induction tag.2.zipIdx generalizing table with
  | nil => exact h
  | cons v vs ih => exact ih (keysPrinted_insert h tag.1 v.2 _)

theorem keysPrinted_gsuTagsToHashTable {table : TagTable} (h : KeysPrinted table) (tags : GstTagList) :
    KeysPrinted (gsuTagsToHashTable fmt tags table) := by
  rw [gsuTagsToHashTable]
  induction tags.tags generalizing table with
  | nil => exact h
  | cons tag rest ih => exact ih (keysPrinted_tagToHashTable fmt h tag)

theorem keysPrinted_tagTableOf (lists : List GstTagList) : KeysPrinted (tagTableOf fmt lists) := by
  have hstep : ∀ {table : TagTable}, KeysPrinted table →
      KeysPrinted (lists.foldl (fun t tags => gsuTagsToHashTable fmt tags t) table) := by
    induction lists with
    | nil => exact fun h => h
    | cons tags lists ih => exact fun h => ih (keysPrinted_gsuTagsToHashTable fmt h tags)
  exact hstep fun k hk => absurd hk (AList.notMem_empty k)

theorem exists_entries {lists : List GstTagList} {visit : List (Σ _ : Text, Text)}
    (h : visit.Perm (tagTableOf fmt lists).entries) : ∃ es : List TagEntry, es.map TagEntry.line = visit := by
  have hall : ∀ v ∈ visit, ∃ e : TagEntry, e.line = v := by
    intro v hv
    have hk : v.1 ∈ tagTableOf fmt lists := List.mem_map_of_mem (h.subset hv)
    obtain ⟨tag, i, he⟩ := keysPrinted_tagTableOf fmt lists v.1 hk
    exact ⟨⟨tag, i, v.2⟩, by rw [TagEntry.line, ← he]⟩
  clear h
  induction visit with
  | nil => exact ⟨[], rfl⟩
  | cons v visit ih =>
    obtain ⟨e, rfl⟩ := hall v List.mem_cons_self
    obtain ⟨es, rfl⟩ := ih fun w hw => hall w (List.mem_cons_of_mem _ hw)
    exact ⟨e :: es, rfl⟩

end GstPlayd
