import GstPlayd.TagMerge

/-! In which order the shipped client gets the values of a tag. The index in a
key is not read: what counts is the order in which the table was visited. -/

namespace GstPlayd

open KeyedTable

variable {d dict : TagDict} {es : List TagEntry} {table : TagTable} {tag : Text}

def TagDict.values (d : TagDict) (tag : Text) : List Text := (valueAt d tag).getD []

def entriesOf (es : List TagEntry) (tag : Text) : List TagEntry := es.filter fun e => e.tag = tag

/-- The list of a tag has at each place what the table has under that index. -/
def InIndexOrder (table : TagTable) (dict : TagDict) (tag : Text) : Prop :=
  ∀ i, (dict.values tag)[i]? = table.lookup (tagKey tag i)

def VisitedByIndex (es : List TagEntry) (tag : Text) : Prop :=
  (entriesOf es tag).Pairwise fun e e' => e.index < e'.index

theorem mem_entriesOf {e : TagEntry} : e ∈ entriesOf es tag ↔ e ∈ es ∧ e.tag = tag := by
  rw [entriesOf, List.mem_filter, decide_eq_true_eq]

theorem TagDict.values_add (d : TagDict) (key value : Text) :
    (d.add key value).values tag = d.values tag ++ if key = tag then [value] else [] := by
  induction d with
  | nil =>
    by_cases hk : key = tag
    · simp [add, values, valueAt, hk]
    · simp [add, values, valueAt, hk]
  | cons entry d ih =>
    by_cases he : entry.1 = key
    · by_cases hk : key = tag
      · simp [add, values, valueAt, he, hk]
      · simp [add, values, valueAt, he, hk]
    · by_cases ht : entry.1 = tag
      · have hk : key ≠ tag := fun hk => he (ht.trans hk.symm)
        rw [add, if_neg he, if_neg hk, List.append_nil]
        simp [values, valueAt, ht]
      · have hcons : ∀ d : TagDict, TagDict.values (entry :: d) tag = d.values tag := by
          intro d
          simp [values, valueAt, ht]
        rw [add, if_neg he, hcons, hcons, ih]

theorem TagDict.values_foldl_add (es : List TagEntry) (d : TagDict) :
    ((es.map TagEntry.pair).foldl (fun d p => TagDict.add d p.1 p.2) d).values tag =
      d.values tag ++ (entriesOf es tag).map TagEntry.value := by
  induction es generalizing d with
  | nil => simp [entriesOf]
  | cons e es ih =>
    rw [List.map_cons, List.foldl_cons, ih, TagDict.values_add, List.append_assoc]
    congr 1
    by_cases he : e.tag = tag
    · simp [TagEntry.pair, entriesOf, he]
    · simp [TagEntry.pair, entriesOf, he]

/-- Rising numbers with no gap below them count from zero. -/
theorem eq_range_of_pairwise_lt {l : List ℕ} (hl : l.Pairwise (· < ·)) (hdown : ∀ i ∈ l, ∀ j < i, j ∈ l) :
    l = List.range l.length := by
  induction l using List.reverseRecOn with
  | nil => rfl
  | append_singleton l a ih =>
    obtain ⟨hp, -, hlt⟩ := List.pairwise_append.mp hl
    have hbelow : ∀ i ∈ l, i < a := fun i hi => hlt i hi a List.mem_cons_self
    have hrange : l = List.range l.length := by
      refine ih hp fun i hi j hj => ?_
      rcases List.mem_append.mp (hdown i (List.mem_append_left _ hi) j hj) with hm | hm
      · exact hm
      · have hja := List.mem_singleton.mp hm
        have hia := hbelow i hi
        omega
    have hmem : ∀ j, j ∈ l ↔ j < l.length := by
      intro j
      rw [hrange, List.mem_range, List.length_range]
    have hle : ¬ a < l.length := fun ha => Nat.lt_irrefl a (hbelow a ((hmem a).mpr ha))
    have hge : ¬ l.length < a := by
      intro ha
      rcases List.mem_append.mp (hdown a (by simp) l.length ha) with hm | hm
      · exact Nat.lt_irrefl _ ((hmem _).mp hm)
      · have hla := List.mem_singleton.mp hm
        omega
    have ha : a = l.length := by omega
    rw [List.length_append, List.length_singleton, List.range_succ, ← hrange, ha]

section

variable {lists : List GstTagList} {fmt : Formats} {i : ℕ}

theorem mem_entries_iff_lookup (hv : (es.map TagEntry.line).Perm table.entries) {v : Text} :
    ⟨tag, i, v⟩ ∈ es ↔ table.lookup (tagKey tag i) = some v := by
  rw [← Option.mem_def, AList.mem_lookup_iff, ← hv.mem_iff]
  exact (List.mem_map_of_injective TagEntry.line_injective).symm

theorem exists_lookup_of_lt {j : ℕ} {v : Text} (h : (tagTableOf fmt lists).lookup (tagKey tag i) = some v)
    (hj : j < i) : ∃ w, (tagTableOf fmt lists).lookup (tagKey tag j) = some w := by
  rw [lookup_tagTableOf] at h ⊢
  cases hl : lastValue lists tag j with
  | some g => exact ⟨tagValue fmt g, rfl⟩
  | none =>
    have hnone : lastValue lists tag i = none := by
      rw [lastValue_eq_none_iff] at hl ⊢
      intro l hm
      have hlen := List.getElem?_eq_none_iff.mp (hl l hm)
      exact List.getElem?_eq_none (by omega)
    rw [hnone] at h
    cases h

theorem index_eq_range (hv : (es.map TagEntry.line).Perm (tagTableOf fmt lists).entries)
    (h : VisitedByIndex es tag) : (entriesOf es tag).map TagEntry.index =
      List.range (entriesOf es tag).length := by
  rw [eq_range_of_pairwise_lt (List.pairwise_map.mpr h), List.length_map]
  intro i hi j hj
  obtain ⟨e, he, rfl⟩ := List.mem_map.mp hi
  obtain ⟨hm, rfl⟩ := mem_entriesOf.mp he
  obtain ⟨w, hw⟩ := exists_lookup_of_lt ((mem_entries_iff_lookup hv).mp hm) hj
  exact List.mem_map.mpr ⟨⟨e.tag, j, w⟩, mem_entriesOf.mpr ⟨(mem_entries_iff_lookup hv).mpr hw, rfl⟩, rfl⟩

theorem inIndexOrder_of_visitedByIndex (hv : (es.map TagEntry.line).Perm (tagTableOf fmt lists).entries)
    (hd : dict.values tag = (entriesOf es tag).map TagEntry.value) (h : VisitedByIndex es tag) :
    InIndexOrder (tagTableOf fmt lists) dict tag := by
  have hrange := index_eq_range hv h
  have hplace : ∀ {k} {e : TagEntry}, (entriesOf es tag)[k]? = some e → e.index = k := by
    intro k e he
    have hk : ((entriesOf es tag).map TagEntry.index)[k]? = some e.index := by
      rw [List.getElem?_map, he]
      rfl
    rw [hrange] at hk
    obtain ⟨hlt, hi⟩ := List.getElem?_eq_some_iff.mp hk
    rw [← hi, List.getElem_range]
  intro i
  apply Option.ext
  intro v
  rw [hd, List.getElem?_map, Option.map_eq_some_iff, ← mem_entries_iff_lookup hv]
  constructor
  · intro hh
    obtain ⟨e, he, rfl⟩ := hh
    obtain ⟨hm, rfl⟩ := mem_entriesOf.mp (List.mem_of_getElem? he)
    rw [← hplace he]
    exact hm
  · intro hm
    obtain ⟨k, hk⟩ := List.mem_iff_getElem?.mp (mem_entriesOf.mpr ⟨hm, rfl⟩)
    obtain rfl : i = k := hplace hk
    exact ⟨_, hk, rfl⟩

theorem visitedByIndex_of_inIndexOrder (hv : (es.map TagEntry.line).Perm table.entries)
    (hd : dict.values tag = (entriesOf es tag).map TagEntry.value)
    (hdistinct : ∀ i j v, table.lookup (tagKey tag i) = some v → table.lookup (tagKey tag j) = some v → i = j)
    (h : InIndexOrder table dict tag) : VisitedByIndex es tag := by
  have hindex : ∀ {k} {e : TagEntry}, (entriesOf es tag)[k]? = some e → e.index = k := by
    intro k e he
    obtain ⟨hm, rfl⟩ := mem_entriesOf.mp (List.mem_of_getElem? he)
    have hread := h k
    rw [hd, List.getElem?_map, he] at hread
    exact hdistinct _ _ _ ((mem_entries_iff_lookup hv).mp hm) hread.symm
  rw [VisitedByIndex, List.pairwise_iff_getElem]
  intro k k' hk hk' hlt
  rw [hindex (List.getElem?_eq_getElem hk), hindex (List.getElem?_eq_getElem hk')]
  exact hlt

end

/-- The list that the client gets for a tag has the values in the order in
which they were visited. That is the order of their indices if the entries of
the tag are visited by index, and with different values only then. -/
theorem responseToTagDict_order (fmt : Formats) (lists : List GstTagList) (visit : List (Σ _ : Text, Text))
    (hv : visit.Perm (tagTableOf fmt lists).entries)
    (hclean : ∀ e ∈ visit, '\n' ∉ e.1 ∧ '\n' ∉ e.2 ∧ e.2.getLast? ≠ some '\r') :
    ∃ es dict, es.map TagEntry.line = visit ∧ responseToTagDict (tagsReply visit) = some dict ∧
      ∀ tag, dict.values tag = (entriesOf es tag).map TagEntry.value ∧
        (VisitedByIndex es tag → InIndexOrder (tagTableOf fmt lists) dict tag) ∧
        ((∀ i j v, (tagTableOf fmt lists).lookup (tagKey tag i) = some v →
            (tagTableOf fmt lists).lookup (tagKey tag j) = some v → i = j) →
          InIndexOrder (tagTableOf fmt lists) dict tag → VisitedByIndex es tag) := by
  obtain ⟨es, rfl⟩ := exists_entries fmt hv
  have hes : ∀ e ∈ es, '\n' ∉ e.tag ∧ '\n' ∉ e.value ∧ e.value.getLast? ≠ some '\r' := by
    intro e he
    have hh := hclean e.line (List.mem_map_of_mem he)
    exact ⟨newline_not_mem_tagKey.mp hh.1, hh.2⟩
  refine ⟨es, _, rfl, responseToTagDict_entries hes, fun tag => ?_⟩
  have hd := @TagDict.values_foldl_add tag es []
  exact ⟨hd, inIndexOrder_of_visitedByIndex hv hd, visitedByIndex_of_inIndexOrder hv hd⟩

def twoArtists : TagTable := tagTableOf exampleFormats [artistTags ["A".toList, "B".toList]]

theorem twoArtists_entries :
    twoArtists.entries = [⟨"artist_1".toList, "B".toList⟩, ⟨"artist_0".toList, "A".toList⟩] := by
  decide

theorem responseToTagDict_order_two_artists : ∃ dict, responseToTagDict
      (tagsReply [⟨"artist_0".toList, "A".toList⟩, ⟨"artist_1".toList, "B".toList⟩]) = some dict ∧
    InIndexOrder twoArtists dict "artist".toList := by
  have hv : [⟨"artist_0".toList, "A".toList⟩, ⟨"artist_1".toList, "B".toList⟩].Perm twoArtists.entries := by
    rw [twoArtists_entries]
    exact List.Perm.swap _ _ _
  obtain ⟨es, dict, hes, hdict, horder⟩ := responseToTagDict_order exampleFormats _ _ hv (by decide)
  have hline : [⟨"artist".toList, 0, "A".toList⟩, ⟨"artist".toList, 1, "B".toList⟩].map TagEntry.line =
      [⟨"artist_0".toList, "A".toList⟩, ⟨"artist_1".toList, "B".toList⟩] := by
    decide
  obtain rfl := TagEntry.line_injective.list_map (hes.trans hline.symm)
  exact ⟨dict, hdict, (horder "artist".toList).2.1 (by simp [VisitedByIndex, entriesOf])⟩

/-- Visited the other way round, the second artist comes first. -/
theorem artists_out_of_order : ∃ visit dict, visit.Perm twoArtists.entries ∧
    (∀ e ∈ visit, '\n' ∉ e.1 ∧ '\n' ∉ e.2 ∧ e.2.getLast? ≠ some '\r') ∧
    responseToTagDict (tagsReply visit) = some dict ∧
    (dict.values "artist".toList)[0]? = some "B".toList ∧
    twoArtists.lookup (tagKey "artist".toList 0) = some "A".toList := by
  refine ⟨_, [("artist".toList, ["B".toList, "A".toList])], .of_eq twoArtists_entries.symm, by decide, ?_,
    by decide, by decide⟩
  have hline : [⟨"artist".toList, 1, "B".toList⟩, ⟨"artist".toList, 0, "A".toList⟩].map TagEntry.line =
      [⟨"artist_1".toList, "B".toList⟩, ⟨"artist_0".toList, "A".toList⟩] := by
    decide
  rw [← hline, responseToTagDict_entries (by decide)]
  rfl

end GstPlayd
