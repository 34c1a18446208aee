import GstPlayd.ClientReply
import GstPlayd.TagTable
import Mathlib.Algebra.GroupWithZero.Nat

/-! The reply to TAGS through the shipped client: the entries come back exactly
if nothing in them is mistaken for the end of a line. -/

namespace GstPlayd

open LineFraming

def TagEntry.pair (e : TagEntry) : Text × Text := (e.tag, e.value)

variable {es : List TagEntry} {dict : TagDict}

theorem newline_not_mem_tagKey {e : TagEntry} : '\n' ∉ tagKey e.tag e.index ↔ '\n' ∉ e.tag := by
  have hdigits : '\n' ∉ fmtUnsigned e.index := fun hm => absurd (isDigit_of_mem_fmtUnsigned hm) (by decide)
  simp [tagKey, hdigits]

theorem lines_tagsReply (visit : List (Σ _ : Text, Text)) :
    (lines '\n' (tagsReply visit)).drop 1 = lines '\n' (utilHashTableAsString visit) := by
  have hok : '\n' ∉ "OK".toList := by decide
  exact congrArg (List.drop 1) (lines_append_sep hok (utilHashTableAsString visit))

theorem utilHashTableAsString_cons (e : TagEntry) (es : List TagEntry) :
    utilHashTableAsString ((e :: es).map TagEntry.line) = tagKey e.tag e.index ++ '\n' ::
      (e.value ++ '\n' :: utilHashTableAsString (es.map TagEntry.line)) := by
  simp [utilHashTableAsString, TagEntry.line]

theorem slices_entries (h : ∀ e ∈ es, '\n' ∉ e.tag ∧ '\n' ∉ e.value) :
    slices (lines '\n' (utilHashTableAsString (es.map TagEntry.line))) =
      es.map fun e => (tagKey e.tag e.index ++ ['\n'], some (e.value ++ ['\n'])) := by
  induction es with
  | nil => rfl
  | cons e es ih =>
    have he := h e List.mem_cons_self
    have hes := ih fun x hx => h x (List.mem_cons_of_mem e hx)
    rw [utilHashTableAsString_cons, lines_append_sep (newline_not_mem_tagKey.mpr he.1),
      lines_append_sep he.2, slices, hes]
    rfl

theorem length_lines_entries (es : List TagEntry) :
    (lines '\n' (utilHashTableAsString (es.map TagEntry.line))).length =
      2 * es.length + (es.map fun e => e.tag.count '\n' + e.value.count '\n').sum := by
  have hcount : ∀ es : List TagEntry, (utilHashTableAsString (es.map TagEntry.line)).count '\n' =
      2 * es.length + (es.map fun e => e.tag.count '\n' + e.value.count '\n').sum := by
    intro es
    induction es with
    | nil => rfl
    | cons e es ih =>
      have hkey : (tagKey e.tag e.index).count '\n' = e.tag.count '\n' := by
        have hdigits : '\n' ∉ fmtUnsigned e.index := fun hm =>
          absurd (isDigit_of_mem_fmtUnsigned hm) (by decide)
        simp [tagKey, List.count_eq_zero.mpr hdigits]
      rw [utilHashTableAsString_cons, List.count_append, List.count_cons_self, List.count_append,
        List.count_cons_self, ih, hkey, List.map_cons, List.sum_cons, List.length_cons]
      omega
  rw [← hcount]
  induction es using List.reverseRecOn with
  | nil => rfl
  | append_singleton es e _ =>
    have hend : ∃ s, utilHashTableAsString ((es ++ [e]).map TagEntry.line) = s ++ ['\n'] :=
      ⟨utilHashTableAsString (es.map TagEntry.line) ++ (tagKey e.tag e.index ++ '\n' :: e.value), by
        simp [utilHashTableAsString, TagEntry.line]⟩
    obtain ⟨s, hs⟩ := hend
    rw [hs]
    exact length_lines s

theorem decode_iff : responseToTagDict (tagsReply (es.map TagEntry.line)) = some dict ↔
    ∃ ps, List.Forall₂ (fun x p => readSlice x = some p)
      (slices (lines '\n' (utilHashTableAsString (es.map TagEntry.line)))) ps ∧
      dict = ps.foldl (fun (d : TagDict) p => d.add p.1 p.2) [] := by
  have hok : parseResponse (tagsReply (es.map TagEntry.line)) = some [] := parseResponse_ok _
  rw [responseToTagDict, hok, lines_tagsReply, ← readSlices_iff]
  rfl

theorem readSlices_entries (h : ∀ e ∈ es, '\n' ∉ e.tag ∧ '\n' ∉ e.value) :
    List.Forall₂ (fun x p => readSlice x = some p)
      (slices (lines '\n' (utilHashTableAsString (es.map TagEntry.line))))
      (es.map fun e => (e.tag, chomp (e.value ++ ['\n']))) := by
  rw [slices_entries h, List.forall₂_map_left_iff, List.forall₂_map_right_iff, List.forall₂_same]
  intro e he
  exact readSlice_line (h e he).1 e.index

theorem responseToTagDict_entries (h : ∀ e ∈ es, '\n' ∉ e.tag ∧ '\n' ∉ e.value ∧ e.value.getLast? ≠ some '\r') :
    responseToTagDict (tagsReply (es.map TagEntry.line)) =
      some ((es.map TagEntry.pair).foldl (fun d p => TagDict.add d p.1 p.2) []) := by
  have hclean : ∀ e ∈ es, '\n' ∉ e.tag ∧ '\n' ∉ e.value := fun e he => ⟨(h e he).1, (h e he).2.1⟩
  have hread : es.map (fun e => (e.tag, chomp (e.value ++ ['\n']))) = es.map TagEntry.pair := by
    refine List.map_congr_left fun e he => ?_
    rw [chomp_line, if_neg (h e he).2.2]
    rfl
  exact decode_iff.mpr ⟨_, hread ▸ readSlices_entries hclean, rfl⟩

theorem length_chomp_le (v : Text) : (chomp (v ++ ['\n'])).length ≤ v.length := by
  rw [chomp_line]
  split
  · simp
  · exact le_refl _

theorem eq_of_sum_eq {α : Type} {f g : α → Nat} {l : List α} (hle : ∀ x ∈ l, f x ≤ g x)
    (hsum : (l.map f).sum = (l.map g).sum) : ∀ x ∈ l, f x = g x := by
  have hsums : ∀ l : List α, (∀ x ∈ l, f x ≤ g x) → (l.map f).sum ≤ (l.map g).sum := by
    intro l hl
    induction l with
    | nil => rfl
    | cons x l ih =>
      rw [List.map_cons, List.map_cons, List.sum_cons, List.sum_cons]
      exact Nat.add_le_add (hl x List.mem_cons_self) (ih fun y hy => hl y (List.mem_cons_of_mem x hy))
  induction l with
  | nil => exact fun x hx => absurd hx List.not_mem_nil
  | cons x l ih =>
    have hx := hle x List.mem_cons_self
    have htail : ∀ y ∈ l, f y ≤ g y := fun y hy => hle y (List.mem_cons_of_mem x hy)
    have hl := hsums l htail
    rw [List.map_cons, List.map_cons, List.sum_cons, List.sum_cons] at hsum
    intro y hy
    rcases List.mem_cons.mp hy with rfl | hy
    · omega
    · exact ih htail (by omega) y hy

/-- The client reads back the entries of the table, up to order, exactly if no
tag and no value contains a line feed and no value ends with a carriage return. -/
theorem tags_reply_decodes_iff (fmt : Formats) (lists : List GstTagList) (visit : List (Σ _ : Text, Text))
    (hv : visit.Perm (tagTableOf fmt lists).entries) :
    ∃ es : List TagEntry, es.map TagEntry.line = visit ∧
      ((∃ dict, responseToTagDict (tagsReply visit) = some dict ∧ dict.pairs.Perm (es.map TagEntry.pair)) ↔
        ∀ e ∈ es, '\n' ∉ e.tag ∧ '\n' ∉ e.value ∧ e.value.getLast? ≠ some '\r') := by
  obtain ⟨es, rfl⟩ := exists_entries fmt hv
  refine ⟨es, rfl, ?_, ?_⟩
  · intro hh
    obtain ⟨dict, hd, hp⟩ := hh
    obtain ⟨ps, hps, hfold⟩ := decode_iff.mp hd
    have hpairs : ps.Perm (es.map TagEntry.pair) := by
      rw [hfold] at hp
      exact (TagDict.pairs_foldl_add ps []).symm.trans hp
    have hlen := hps.length_eq
    rw [length_slices, length_lines_entries, hpairs.length_eq, List.length_map] at hlen
    have hzero : (es.map fun e => e.tag.count '\n' + e.value.count '\n').sum = 0 := by omega
    have hclean : ∀ e ∈ es, '\n' ∉ e.tag ∧ '\n' ∉ e.value := by
      intro e he
      have hh := List.sum_eq_zero_iff_forall_eq_nat.mp hzero _ (List.mem_map_of_mem he)
      rw [← List.count_eq_zero, ← List.count_eq_zero]
      omega
    have hread : ps = es.map fun e => (e.tag, chomp (e.value ++ ['\n'])) :=
      List.right_unique_forall₂' (fun _ _ _ h h' => Option.some.inj (h.symm.trans h')) hps
        (readSlices_entries hclean)
    have hsum := (hpairs.map fun p => p.2.length).sum_nat
    rw [hread, List.map_map, List.map_map] at hsum
    have hsame := eq_of_sum_eq (fun e _ => length_chomp_le e.value) hsum
    intro e he
    refine ⟨(hclean e he).1, (hclean e he).2, fun hcr => ?_⟩
    have hh : (chomp (e.value ++ ['\n'])).length = e.value.length := hsame e he
    have hpos : 0 < e.value.length := by
      cases hv : e.value with
      | nil => simp [hv] at hcr
      | cons c cs => simp
    rw [chomp_line, if_pos hcr, List.length_dropLast] at hh
    omega
  · intro h
    exact ⟨_, responseToTagDict_entries h, TagDict.pairs_foldl_add _ []⟩

def exampleFormats : Formats := ⟨fun _ => "0.000000".toList, fun _ => "1970-01-01".toList⟩

def commentTags (comment : Text) : GstTagList := ⟨[("comment".toList, [.string comment])], by simp⟩

theorem commentTags_entries (comment : Text) :
    (tagTableOf exampleFormats [commentTags comment]).entries = [⟨"comment_0".toList, comment⟩] := by
  have hkey : tagKey "comment".toList 0 = "comment_0".toList := by decide
  have htable : tagTableOf exampleFormats [commentTags comment] =
      (∅ : TagTable).insert (tagKey "comment".toList 0) comment := rfl
  rw [htable, hkey]
  rfl

def artistsAndComment : GstTagList :=
  ⟨[("artist".toList, [.string "A".toList, .string "B".toList]),
    ("comment".toList, [.string "one line".toList])], by decide⟩

theorem tags_reply_decodes_iff_three_entries :
    ∃ dict, responseToTagDict (tagsReply [⟨"artist_1".toList, "B".toList⟩,
        ⟨"comment_0".toList, "one line".toList⟩, ⟨"artist_0".toList, "A".toList⟩]) = some dict ∧
      dict.pairs.Perm [("artist".toList, "B".toList), ("comment".toList, "one line".toList),
        ("artist".toList, "A".toList)] := by
  have hentries : (tagTableOf exampleFormats [artistsAndComment]).entries =
      [⟨"comment_0".toList, "one line".toList⟩, ⟨"artist_1".toList, "B".toList⟩,
        ⟨"artist_0".toList, "A".toList⟩] := by
    decide
  obtain ⟨es, hes, hiff⟩ := tags_reply_decodes_iff exampleFormats [artistsAndComment]
    [⟨"artist_1".toList, "B".toList⟩, ⟨"comment_0".toList, "one line".toList⟩, ⟨"artist_0".toList, "A".toList⟩]
    (hentries ▸ List.Perm.swap _ _ _)
  have hline : [(⟨"artist".toList, 1, "B".toList⟩ : TagEntry), ⟨"comment".toList, 0, "one line".toList⟩,
      ⟨"artist".toList, 0, "A".toList⟩].map TagEntry.line = [⟨"artist_1".toList, "B".toList⟩,
        ⟨"comment_0".toList, "one line".toList⟩, ⟨"artist_0".toList, "A".toList⟩] := by
    decide
  obtain rfl := TagEntry.line_injective.list_map (hes.trans hline.symm)
  exact hiff.mpr (by decide)

/-- A comment of two lines: the client takes the second line for a key and
throws an exception. -/
theorem two_line_comment_not_decoded :
    [⟨"comment_0".toList, "two\nlines".toList⟩].Perm
      (tagTableOf exampleFormats [commentTags "two\nlines".toList]).entries ∧
    responseToTagDict (tagsReply [⟨"comment_0".toList, "two\nlines".toList⟩]) = none := by
  refine ⟨.of_eq (commentTags_entries _).symm, ?_⟩
  decide

end GstPlayd
