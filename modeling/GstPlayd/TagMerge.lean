import GstPlayd.KeyedTable
import GstPlayd.Operations
import GstPlayd.TagReply

/-! Which values the reply to TAGS carries after several TAG messages. -/

namespace GstPlayd

open KeyedTable

variable {fmt : Formats} {tags : GstTagList} {lists : List GstTagList} {tag : Text} {i : ℕ}

def GstTagList.values (tags : GstTagList) (tag : Text) : List GValue := (valueAt tags.tags tag).getD []

/-- The value at an index in the last list that has one there. -/
def lastValue (lists : List GstTagList) (tag : Text) (i : ℕ) : Option GValue :=
  lists.reverse.findSome? fun l => (l.values tag)[i]?

def tagEntries (fmt : Formats) (t : Text × List GValue) : List (Text × Text) :=
  t.2.zipIdx.map fun v => (tagKey t.1 v.2, tagValue fmt v.1)

def GstTagList.entries (fmt : Formats) (tags : GstTagList) : List (Text × Text) :=
  tags.tags.flatMap (tagEntries fmt)

theorem gsuTagsToHashTable_eq (table : TagTable) :
    gsuTagsToHashTable fmt tags table = insertAll table (tags.entries fmt) := by
  have htag : ∀ (table : TagTable) t, tagToHashTable fmt table t = insertAll table (tagEntries fmt t) := by
    intro table t
    rw [tagToHashTable, tagEntries, insertAll, List.foldl_map]
  rw [GstTagList.entries, List.flatMap, insertAll_flatten, List.foldl_map, gsuTagsToHashTable]
  exact congrArg (fun f => tags.tags.foldl f table) (funext fun _ => funext fun t => htag _ t)

theorem tagTableOf_eq (lists : List GstTagList) :
    tagTableOf fmt lists = insertAll ∅ (lists.map (GstTagList.entries fmt)).flatten := by
  rw [insertAll_flatten, List.foldl_map, tagTableOf]
  exact congrArg (fun f => lists.foldl f ∅) (funext fun t => funext fun l => gsuTagsToHashTable_eq t)

theorem getElem?_values {g : GValue} :
    (tags.values tag)[i]? = some g ↔ ∃ vs, (tag, vs) ∈ tags.tags ∧ vs[i]? = some g := by
  rw [GstTagList.values]
  cases hv : valueAt tags.tags tag with
  | none =>
    have hno : ∀ vs, (tag, vs) ∉ tags.tags := by
      intro vs hm
      rw [← valueAt_eq_some_iff tags.nodup, hv] at hm
      cases hm
    simp [hno]
  | some vs =>
    have hvs := (valueAt_eq_some_iff tags.nodup).mp hv
    constructor
    · intro h
      exact ⟨vs, hvs, h⟩
    · intro hh
      obtain ⟨vs', hm, h⟩ := hh
      rw [← valueAt_eq_some_iff tags.nodup, hv] at hm
      obtain rfl := Option.some.inj hm
      exact h

theorem mem_entries {k v : Text} : (k, v) ∈ tags.entries fmt ↔
    ∃ tag i g, (tags.values tag)[i]? = some g ∧ k = tagKey tag i ∧ v = tagValue fmt g := by
  constructor
  · intro h
    obtain ⟨t, ht, hm⟩ := List.mem_flatMap.mp h
    obtain ⟨x, hx, he⟩ := List.mem_map.mp hm
    obtain ⟨rfl, rfl⟩ := Prod.mk.inj he
    exact ⟨t.1, x.2, x.1, getElem?_values.mpr ⟨t.2, ht, List.mem_zipIdx_iff_getElem?.mp hx⟩, rfl, rfl⟩
  · intro hh
    obtain ⟨tag, i, g, hg, rfl, rfl⟩ := hh
    obtain ⟨vs, hvs, hi⟩ := getElem?_values.mp hg
    exact List.mem_flatMap.mpr ⟨(tag, vs), hvs, List.mem_map.mpr
      ⟨(g, i), List.mem_zipIdx_iff_getElem?.mpr hi, rfl⟩⟩

theorem entries_nodup (tags : GstTagList) : ((tags.entries fmt).map Prod.fst).Nodup := by
  have hkeys : ∀ t : Text × List GValue, (tagEntries fmt t).map Prod.fst =
      (List.range' 0 t.2.length).map (tagKey t.1) := by
    intro t
    rw [tagEntries, List.map_map, ← List.zipIdx_map_snd, List.map_map]
    rfl
  rw [GstTagList.entries, List.map_flatMap, List.nodup_flatMap]
  constructor
  · intro t _
    rw [hkeys]
    exact List.Nodup.map (fun _ _ h => (tagKey_injective h).2) List.nodup_range'
  · refine (List.pairwise_map.mp tags.nodup).imp ?_
    intro t t' hne k hk hk'
    dsimp only at hk hk'
    rw [hkeys] at hk hk'
    obtain ⟨i, -, rfl⟩ := List.mem_map.mp hk
    obtain ⟨j, -, he⟩ := List.mem_map.mp hk'
    exact hne (tagKey_injective he).1.symm

theorem valueAt_entries : valueAt (tags.entries fmt) (tagKey tag i) =
    (tags.values tag)[i]?.map (tagValue fmt) := by
  apply Option.ext
  intro v
  rw [valueAt_eq_some_iff (entries_nodup tags), mem_entries, Option.map_eq_some_iff]
  constructor
  · intro hh
    obtain ⟨tag', i', g, hg, hk, rfl⟩ := hh
    obtain ⟨rfl, rfl⟩ := tagKey_injective hk
    exact ⟨g, hg, rfl⟩
  · intro hh
    obtain ⟨g, hg, rfl⟩ := hh
    exact ⟨tag, i, g, hg, rfl, rfl⟩

theorem lookup_tagTableOf (lists : List GstTagList) (tag : Text) (i : ℕ) :
    (tagTableOf fmt lists).lookup (tagKey tag i) = (lastValue lists tag i).map (tagValue fmt) := by
  have hn : ∀ l ∈ lists.map (GstTagList.entries fmt), (l.map Prod.fst).Nodup := by
    intro l hl
    obtain ⟨tags, -, rfl⟩ := List.mem_map.mp hl
    exact entries_nodup tags
  rw [tagTableOf_eq, lookup_insertAll_flatten hn, ← List.map_reverse, List.findSome?_map, lastValue,
    List.map_findSome?]
  exact congrArg (fun f => lists.reverse.findSome? f) (funext fun l => valueAt_entries)

theorem lastValue_eq_none_iff : lastValue lists tag i = none ↔ ∀ l ∈ lists, (l.values tag)[i]? = none := by
  simp [lastValue]

def TagsEvent.message : TagsEvent → Option BusMessage
  | .padAdded _ => none
  | .popped msg => some msg

def finalMessage : Option Text → BusMessage
  | none => .asyncDone
  | some text => .error text

variable {err : Option Text} {rest : List BusMessage} {es : List TagsEvent}

/-- The loop reads TAG messages up to the first other one, unless a pad cannot
be linked. -/
theorem tagsLoop_messages (h : es.filterMap TagsEvent.message = lists.map .tag ++ finalMessage err :: rest)
    (sinkLinked : Bool) (table : TagTable) :
    tagsLoop fmt sinkLinked es table = .ok (err.map fun text => "FAIL ".toList ++ text,
        lists.foldl (fun t tags => gsuTagsToHashTable fmt tags t) table) ∨
      (tagsLoop fmt sinkLinked es table = .error (.gError "Failed to link pads!".toList) ∧
        .padAdded false ∈ es) := by
  induction es generalizing lists sinkLinked table with
  | nil => simp at h
  | cons e es ih =>
    cases e with
    | padAdded linked =>
      by_cases hl : (sinkLinked || linked) = true
      · rw [tagsLoop, if_pos hl]
        rcases ih h true table with hok | ⟨herr, hm⟩
        · exact .inl hok
        · exact .inr ⟨herr, List.mem_cons_of_mem _ hm⟩
      · obtain rfl : linked = false := by simpa using (Bool.or_eq_false_iff.mp (Bool.eq_false_iff.mpr hl)).2
        rw [tagsLoop, if_neg hl]
        exact .inr ⟨rfl, List.mem_cons_self⟩
    | popped msg =>
      have hmsg : msg :: es.filterMap TagsEvent.message = lists.map .tag ++ finalMessage err :: rest := h
      cases lists with
      | nil =>
        rw [(List.cons.inj hmsg).1]
        left
        cases err with
        | none => rfl
        | some text => rfl
      | cons tags lists =>
        obtain ⟨rfl, hrest⟩ := List.cons.inj hmsg
        rcases ih hrest sinkLinked (gsuTagsToHashTable fmt tags table) with hok | ⟨herr, hm⟩
        · exact .inl hok
        · exact .inr ⟨herr, List.mem_cons_of_mem _ hm⟩

/-- The entries sent for a sequence of TAG messages. -/
structure MergedEntries (fmt : Formats) (lists : List GstTagList) (visit : List (Σ _ : Text, Text)) : Prop where
  perm : visit.Perm (tagTableOf fmt lists).entries
  once : (visit.map Sigma.fst).Nodup
  entry : ∀ tag i v, ⟨tag ++ '_' :: fmtUnsigned i, v⟩ ∈ visit ↔
    ∃ g, lastValue lists tag i = some g ∧ v = tagValue fmt g
  named : ∀ e ∈ visit, ∃ tag i, e.1 = tag ++ '_' :: fmtUnsigned i

theorem mergedEntries_of_perm {visit : List (Σ _ : Text, Text)}
    (h : visit.Perm (tagTableOf fmt lists).entries) : MergedEntries fmt lists visit := by
  refine ⟨h, (h.map Sigma.fst).nodup_iff.mpr (tagTableOf fmt lists).nodupKeys, ?_, ?_⟩
  · intro tag i v
    have hlookup : ⟨tagKey tag i, v⟩ ∈ visit ↔ v ∈ (tagTableOf fmt lists).lookup (tagKey tag i) := by
      rw [h.mem_iff, AList.mem_lookup_iff]
    refine hlookup.trans ?_
    rw [lookup_tagTableOf, Option.mem_def, Option.map_eq_some_iff]
    exact exists_congr fun g => and_congr_right fun _ => eq_comm
  · intro e he
    exact keysPrinted_tagTableOf fmt lists e.1 (List.mem_map_of_mem (h.subset he))

theorem tagsReply_ne_fail (visit : List (Σ _ : Text, Text)) (text : Text) :
    tagsReply visit ≠ "FAIL ".toList ++ text := by
  intro h
  exact absurd (congrArg List.head? h) (by simp [tagsReply])

/-- The error is only reported if the table is empty. -/
theorem opTagsParse_of_messages (param : Text) {calls : HandlerCalls} (ctx : PlaybackCtx)
    (h : calls.tags.filterMap TagsEvent.message = lists.map .tag ++ finalMessage err :: rest) :
    (opTagsParse param calls ctx = .error (.gError "Failed to link pads!".toList) ∧
        .padAdded false ∈ calls.tags) ∨
      (∃ text, err = some text ∧ (tagTableOf calls.formats lists).entries = [] ∧
        opTagsParse param calls ctx = .ok ("FAIL ".toList ++ text, ctx)) ∨
      ((∀ text, err = some text → (tagTableOf calls.formats lists).entries ≠ []) ∧
        opTagsParse param calls ctx = .ok (tagsReply (calls.order.visit (tagTableOf calls.formats lists)), ctx)) := by
  rcases @tagsLoop_messages calls.formats _ _ _ _ h false ∅ with hl | ⟨herr, hm⟩
  · have hl' : tagsLoop calls.formats false calls.tags ∅ =
      .ok (err.map fun text => "FAIL ".toList ++ text, tagTableOf calls.formats lists) := hl
    right
    cases err with
    | none =>
      refine .inr ⟨fun _ he => absurd he (Option.some_ne_none _).symm, ?_⟩
      rw [opTagsParse_of_ok hl', if_pos (.inl rfl)]
    | some text =>
      by_cases hnil : (tagTableOf calls.formats lists).entries = []
      · refine .inl ⟨text, rfl, hnil, ?_⟩
        rw [opTagsParse_of_ok hl', if_neg (by simp [hnil])]
        rfl
      · refine .inr ⟨fun _ _ => hnil, ?_⟩
        rw [opTagsParse_of_ok hl', if_pos (.inr (List.length_pos_of_ne_nil hnil))]
  · exact .inl ⟨opTagsParse_of_error herr ctx, hm⟩

def artistTags (artists : List Text) : GstTagList := ⟨[("artist".toList, artists.map .string)], by simp⟩

def artistCalls (messages : List (List Text)) : HandlerCalls :=
  { exampleHandlerCalls with
    tags := messages.map (fun artists => .popped (.tag (artistTags artists))) ++
      [.popped (.error "gone".toList)] }

theorem artistCalls_messages (messages : List (List Text)) :
    (artistCalls messages).tags.filterMap TagsEvent.message =
      (messages.map artistTags).map .tag ++ finalMessage (some "gone".toList) :: [] := by
  simp [artistCalls, List.filterMap_map, TagsEvent.message, Function.comp_def, finalMessage]

/-- The entries of a tag are those of one list and no others. -/
def CarriesOnly (fmt : Formats) (tags : GstTagList) (tag : Text) (visit : List (Σ _ : Text, Text)) : Prop :=
  ∀ i v, ⟨tag ++ '_' :: fmtUnsigned i, v⟩ ∈ visit ↔
    ∃ g, (tags.values tag)[i]? = some g ∧ v = tagValue fmt g

section

variable {pre post : List GstTagList} {last : GstTagList}

theorem lastValue_append (hpost : ∀ l ∈ post, l.values tag = []) :
    lastValue (pre ++ last :: post) tag i = (last.values tag)[i]?.or (lastValue pre tag i) := by
  have hnone : (post.reverse.findSome? fun l => (l.values tag)[i]?) = none := by
    rw [List.findSome?_eq_none_iff]
    intro l hl
    rw [hpost l (List.mem_reverse.mp hl)]
    rfl
  rw [lastValue, List.reverse_append, List.reverse_cons, List.append_assoc, List.findSome?_append, hnone,
    Option.none_or, List.singleton_append, List.findSome?_cons, lastValue]
  cases (last.values tag)[i]? <;> rfl

theorem carriesOnly_iff {visit : List (Σ _ : Text, Text)} (hm : MergedEntries fmt (pre ++ last :: post) visit)
    (hpost : ∀ l ∈ post, l.values tag = []) :
    CarriesOnly fmt last tag visit ↔ ∀ l ∈ pre, (l.values tag).length ≤ (last.values tag).length := by
  constructor
  · intro h l hl
    by_contra hlt
    have hnone : (last.values tag)[(last.values tag).length]? = none := List.getElem?_eq_none (le_refl _)
    cases hv : lastValue pre tag (last.values tag).length with
    | none =>
      have hshort := List.getElem?_eq_none_iff.mp (lastValue_eq_none_iff.mp hv l hl)
      omega
    | some g =>
      have hvalue : lastValue (pre ++ last :: post) tag (last.values tag).length = some g := by
        rw [lastValue_append hpost, hnone, Option.none_or, hv]
      obtain ⟨g', hg', -⟩ := (h _ _).mp ((hm.entry tag _ _).mpr ⟨g, hvalue, rfl⟩)
      rw [hnone] at hg'
      cases hg'
  · intro h i v
    have hvalue : lastValue (pre ++ last :: post) tag i = (last.values tag)[i]? := by
      rw [lastValue_append hpost]
      by_cases hi : i < (last.values tag).length
      · rw [List.getElem?_eq_getElem hi, Option.some_or]
      · have hnone : lastValue pre tag i = none := by
          rw [lastValue_eq_none_iff]
          intro l hl
          have hle := h l hl
          exact List.getElem?_eq_none (by omega)
        rw [hnone, Option.or_none]
    rw [hm.entry, hvalue]

end

/-- A message replaces the values of a tag index by index: those of the last
list with the tag stand alone if no earlier list had more, and else beside
what an earlier one had past their end. -/
theorem opTagsParse_replaces_iff {param reply : Text} {calls : HandlerCalls} {ctx ctx' : PlaybackCtx}
    (h : calls.tags.filterMap TagsEvent.message = lists.map .tag ++ finalMessage err :: rest)
    (hok : opTagsParse param calls ctx = .ok (reply, ctx')) (hr : ∀ text, reply ≠ "FAIL ".toList ++ text) :
    ∃ visit, reply = "OK\n".toList ++ (visit.flatMap fun e => e.1 ++ '\n' :: e.2 ++ ['\n']) ∧
      MergedEntries calls.formats lists visit ∧
      ∀ pre last post tag, lists = pre ++ last :: post → last.values tag ≠ [] →
        (∀ l ∈ post, l.values tag = []) →
        (CarriesOnly calls.formats last tag visit ↔
          ∀ l ∈ pre, (l.values tag).length ≤ (last.values tag).length) := by
  rcases opTagsParse_of_messages param ctx h with ⟨hpad, -⟩ | ⟨text, -, -, hfail⟩ | ⟨-, hvisit⟩
  · rw [hpad] at hok
    cases hok
  · rw [hfail] at hok
    exact absurd (Prod.mk.inj (Except.ok.inj hok)).1.symm (hr text)
  · have hm := mergedEntries_of_perm (calls.order.perm (tagTableOf calls.formats lists))
    rw [hvisit] at hok
    refine ⟨_, (Prod.mk.inj (Except.ok.inj hok)).1.symm, hm, ?_⟩
    intro pre last post tag hl _ hpost
    rw [hl] at hm ⊢
    exact carriesOnly_iff hm hpost

theorem opTagsParse_artistCalls {messages : List (List Text)} {visit : List (Σ _ : Text, Text)}
    (hv : (tagTableOf exampleHandlerCalls.formats (messages.map artistTags)).entries = visit) (hne : visit ≠ [])
    (ctx : PlaybackCtx) : opTagsParse [] (artistCalls messages) ctx = .ok (tagsReply visit, ctx) := by
  subst hv
  rcases opTagsParse_of_messages [] ctx (artistCalls_messages messages) with
    ⟨-, hm⟩ | ⟨-, -, hnil, -⟩ | ⟨-, hvisit⟩
  · simp [artistCalls] at hm
  · exact absurd hnil hne
  · exact hvisit

theorem artists_grown : (tagTableOf exampleHandlerCalls.formats ([["A".toList], ["C".toList, "D".toList]].map
    artistTags)).entries = [⟨"artist_1".toList, "D".toList⟩, ⟨"artist_0".toList, "C".toList⟩] := by
  decide

theorem opTagsParse_replaces_one_artist : ∃ visit,
    "OK\nartist_1\nD\nartist_0\nC\n".toList =
      "OK\n".toList ++ (visit.flatMap fun e => e.1 ++ '\n' :: e.2 ++ ['\n']) ∧
    CarriesOnly exampleHandlerCalls.formats (artistTags ["C".toList, "D".toList]) "artist".toList visit := by
  obtain ⟨visit, hreply, -, hvisit⟩ := opTagsParse_replaces_iff
    (artistCalls_messages [["A".toList], ["C".toList, "D".toList]])
    (opTagsParse_artistCalls artists_grown (List.cons_ne_nil _ _) (newPlaybackCtx 0 1 2)) (tagsReply_ne_fail _)
  have htext : "OK\nartist_1\nD\nartist_0\nC\n".toList =
      tagsReply [⟨"artist_1".toList, "D".toList⟩, ⟨"artist_0".toList, "C".toList⟩] := by
    decide
  refine ⟨visit, htext.trans hreply, ?_⟩
  exact (hvisit [artistTags ["A".toList]] _ [] _ rfl (by decide) (by simp)).mpr (by decide)

/-- Two artists and then one: the second of the old ones stays. -/
theorem artists_not_replaced : ∃ visit,
    opTagsParse [] (artistCalls [["A".toList, "B".toList], ["C".toList]]) (newPlaybackCtx 0 1 2) =
      .ok (tagsReply visit, newPlaybackCtx 0 1 2) ∧
    ⟨"artist_1".toList, "B".toList⟩ ∈ visit ∧
    ¬ CarriesOnly exampleHandlerCalls.formats (artistTags ["C".toList]) "artist".toList visit := by
  have hentries : (tagTableOf exampleHandlerCalls.formats
      ([["A".toList, "B".toList], ["C".toList]].map artistTags)).entries =
        [⟨"artist_0".toList, "C".toList⟩, ⟨"artist_1".toList, "B".toList⟩] := by
    decide
  have hm : (⟨"artist_1".toList, "B".toList⟩ : Σ _ : Text, Text) ∈
      [⟨"artist_0".toList, "C".toList⟩, ⟨"artist_1".toList, "B".toList⟩] := by
    simp
  refine ⟨_, opTagsParse_artistCalls hentries (List.cons_ne_nil _ _) (newPlaybackCtx 0 1 2), hm, ?_⟩
  intro h
  have hkey : "artist_1".toList = tagKey "artist".toList 1 := by decide
  rw [hkey] at hm h
  obtain ⟨g, hg, -⟩ := (h 1 "B".toList).mp hm
  cases hg

end GstPlayd
