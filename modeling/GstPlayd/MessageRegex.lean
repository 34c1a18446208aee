import GstPlayd.Backtracking
import GstPlayd.TextFormats

/-! The regular expression of `parse_message` and the split of a message that
its first match makes. -/

namespace GstPlayd

open Backtracking

variable (nl : Newlines)

/-- `(.+)$` -/
def paramPattern : Pattern Char :=
  .seq (.group 2 (.plus nl.dot)) (.look fun _ after => nl.atEnd after)

/-- `^([A-Z]+)[ ]?(.+)$` -/
def msgRegex : Pattern Char :=
  .seq (.look fun before _ => before.isEmpty)
    (.seq (.group 1 (.plus Char.isUpper)) (.seq (.opt (· == ' ')) (paramPattern nl)))

/-- What `(.+)$` captures at the start of a text. -/
def bodyText (s : Text) : Option Text :=
  if s.takeWhile nl.dot ≠ [] ∧ nl.atEnd (s.dropWhile nl.dot) = true then
    some (s.takeWhile nl.dot)
  else none

def paramText : Text → Option Text
  | ' ' :: s => (bodyText nl s).or (bodyText nl (' ' :: s))
  | s => bodyText nl s

def letterRun (m : Text) : Text := m.takeWhile Char.isUpper

def afterLetters (m : Text) : Text := m.dropWhile Char.isUpper

/-- The command and the parameter that the match captures: the whole run of
letters, or all but its last letter when nothing but that letter is left to be
the parameter. -/
def splitMessage (m : Text) : Option (Text × Text) :=
  match paramText nl (afterLetters m) with
  | some p => if letterRun m = [] then none else some (letterRun m, p)
  | none =>
    if 2 ≤ (letterRun m).length ∧ nl.atEnd (afterLetters m) = true then
      some ((letterRun m).dropLast, (letterRun m).getLast?.toList)
    else none

theorem run_paramPattern (before s : Text) :
    run (paramPattern nl) before s =
      (bodyText nl s).toList.map fun b => ⟨b, s.dropWhile nl.dot, [(2, b)]⟩ := by
  have hdead : ∀ (x : Char) (xs : Text), nl.dot x = true → nl.atEnd (x :: xs) = false := by
    intro x xs hx
    apply Bool.eq_false_iff.mpr
    intro he
    simp [nl.not_dot_of_atEnd he] at hx
  rw [paramPattern, run_seq_group, run, List.flatMap_assoc, flatMap_splits_of_dead]
  · by_cases hb : s.takeWhile nl.dot = []
    · simp [bodyText, hb]
    · by_cases he : nl.atEnd (s.dropWhile nl.dot) = true
      · simp [bodyText, hb, he, run]
      · simp [bodyText, hb, he, run]
  · intro t x xs hx
    by_cases ht : t = []
    · simp [ht]
    · simp [ht, run, hdead x xs hx]

theorem run_optSpace_groups (before s : Text) :
    ((run (.seq (.opt (· == ' ')) (paramPattern nl)) before s).head?).map Found.groups =
      (paramText nl s).map fun p => [(2, p)] := by
  cases s with
  | nil => simp [run, run_paramPattern, paramText, bodyText]
  | cons c s =>
    by_cases hc : c = ' '
    · subst c
      cases h : bodyText nl s <;> cases h' : bodyText nl (' ' :: s) <;>
        simp [run, run_paramPattern, paramText, h, h']
    · cases h : bodyText nl (c :: s) <;> simp [run, run_paramPattern, paramText, hc, h]

theorem letterRun_append_afterLetters (m : Text) : letterRun m ++ afterLetters m = m :=
  List.takeWhile_append_dropWhile

theorem isUpper_of_mem_letterRun {m : Text} {c : Char} (h : c ∈ letterRun m) :
    c.isUpper = true :=
  List.mem_takeWhile_imp h

theorem takeWhile_dot_of_isUpper {t : Text} (h : ∀ c ∈ t, c.isUpper = true) (s : Text) :
    (t ++ s).takeWhile nl.dot = t ++ s.takeWhile nl.dot :=
  List.takeWhile_append_of_pos fun c hc => nl.dot_of_isUpper (h c hc)

theorem dropWhile_dot_of_isUpper {t : Text} (h : ∀ c ∈ t, c.isUpper = true) (s : Text) :
    (t ++ s).dropWhile nl.dot = s.dropWhile nl.dot :=
  List.dropWhile_append_of_pos fun c hc => nl.dot_of_isUpper (h c hc)

theorem paramText_of_head_ne {c : Char} (h : c ≠ ' ') (s : Text) :
    paramText nl (c :: s) = bodyText nl (c :: s) := by
  unfold paramText
  split
  · simp_all
  · rfl

theorem paramText_letters {t : Text} (h : ∀ c ∈ t, c.isUpper = true) (ht : t ≠ []) (s : Text) :
    paramText nl (t ++ s) =
      if nl.atEnd (s.dropWhile nl.dot) = true then some (t ++ s.takeWhile nl.dot) else none := by
  obtain ⟨c, cs, rfl⟩ := List.exists_cons_of_ne_nil ht
  have hc : c ≠ ' ' := by
    rintro rfl
    exact absurd (h ' ' (by simp)) (by decide)
  have hne : (c :: cs) ++ s.takeWhile nl.dot ≠ [] := by simp
  rw [List.cons_append, paramText_of_head_ne nl hc, ← List.cons_append, bodyText,
    takeWhile_dot_of_isUpper nl h, dropWhile_dot_of_isUpper nl h]
  simp only [hne, ne_eq, not_false_eq_true, true_and]

theorem paramText_ne_none {s : Text} (hb : s.takeWhile nl.dot ≠ [])
    (he : nl.atEnd (s.dropWhile nl.dot) = true) : paramText nl s ≠ none := by
  have hbody : bodyText nl s = some (s.takeWhile nl.dot) := by simp [bodyText, hb, he]
  unfold paramText
  split
  · simp [hbody]
  · simp [hbody]

theorem atEnd_dropWhile_iff {s : Text} (h : paramText nl s = none) :
    nl.atEnd (s.dropWhile nl.dot) = true ↔ nl.atEnd s = true := by
  constructor
  · intro he
    have hb : s.takeWhile nl.dot = [] := by
      by_contra hb
      exact paramText_ne_none nl hb he h
    have hs : s.takeWhile nl.dot ++ s.dropWhile nl.dot = s := List.takeWhile_append_dropWhile
    rw [hb, List.nil_append] at hs
    rwa [hs] at he
  · intro he
    cases s with
    | nil => exact he
    | cons c cs => rwa [List.dropWhile_cons_of_neg (by simp [nl.not_dot_of_atEnd he])]

theorem takeWhile_dot_eq_nil {s : Text} (h : nl.atEnd s = true) : s.takeWhile nl.dot = [] := by
  cases s with
  | nil => rfl
  | cons c cs => rw [List.takeWhile_cons_of_neg (by simp [nl.not_dot_of_atEnd h])]

def groupsAfter (t rest : Text) : Option (List (Nat × Text)) :=
  if t = [] then none else (paramText nl rest).map fun p => [(1, t), (2, p)]

theorem search_msgRegex_eq_findSome (m : Text) :
    (search (msgRegex nl) [] m).map Found.groups =
      (splits Char.isUpper m).findSome? fun s => groupsAfter nl s.1 s.2 := by
  have hrun : ∀ s : Text × Text,
      (((if s.1.isEmpty then [] else [(⟨s.1, s.2, []⟩ : Found Char)]).flatMap fun x =>
        (run (.seq (.opt (· == ' ')) (paramPattern nl)) x.taken.reverse x.rest).map fun y =>
          (⟨x.taken ++ y.taken, y.rest, (1, x.taken) :: (x.groups ++ y.groups)⟩ : Found Char)).head?).map
        Found.groups = groupsAfter nl s.1 s.2 := by
    intro s
    by_cases ht : s.1 = []
    · simp [ht, groupsAfter]
    · have hh := run_optSpace_groups nl s.1.reverse s.2
      have hg := congrArg (Option.map fun g => (1, s.1) :: g) hh
      simpa [ht, groupsAfter, Option.map_map, Function.comp_def] using hg
  rw [msgRegex, search_anchored (fun x before after => run_seq_look_false (by simp) _),
    run_seq_look_true (by simp), run_seq_group, run, List.flatMap_assoc, List.head?_flatMap,
    List.map_findSome?]
  exact congrArg (fun f => List.findSome? f (splits Char.isUpper m)) (funext fun s => by simpa using hrun s)

theorem groupsAfter_take {m : Text} {k : Nat} (hk : k < (letterRun m).length) :
    groupsAfter nl (m.take k) (m.drop k) =
      if k ≠ 0 ∧ nl.atEnd ((afterLetters m).dropWhile nl.dot) = true then
        some [(1, (letterRun m).take k), (2, (letterRun m).drop k ++ (afterLetters m).takeWhile nl.dot)]
      else none := by
  have hm := letterRun_append_afterLetters m
  have htake : m.take k = (letterRun m).take k := by
    conv_lhs => rw [← hm]
    exact List.take_append_of_le_length hk.le
  have hdrop : m.drop k = (letterRun m).drop k ++ afterLetters m := by
    conv_lhs => rw [← hm]
    exact List.drop_append_of_le_length hk.le
  have hup : ∀ c ∈ (letterRun m).drop k, c.isUpper = true := fun c hc =>
    isUpper_of_mem_letterRun (List.mem_of_mem_drop hc)
  have hne : (letterRun m).drop k ≠ [] := by simpa using hk
  have hz : (letterRun m).take k = [] ↔ k = 0 := by
    rw [List.take_eq_nil_iff]
    exact or_iff_left (fun h => by simp [h] at hk)
  rw [htake, hdrop, groupsAfter, paramText_letters nl hup hne]
  by_cases hk0 : k = 0
  · simp [hk0]
  · by_cases he : nl.atEnd ((afterLetters m).dropWhile nl.dot) = true <;> simp [hz, hk0, he]

theorem findSome_shorter_splits {m : Text} (h : paramText nl (afterLetters m) = none) :
    ((List.range (letterRun m).length).reverse.map fun k => (m.take k, m.drop k)).findSome?
        (fun s => groupsAfter nl s.1 s.2) =
      if 2 ≤ (letterRun m).length ∧ nl.atEnd (afterLetters m) = true then
        some [(1, (letterRun m).dropLast), (2, (letterRun m).getLast?.toList)]
      else none := by
  have hiff := atEnd_dropWhile_iff nl h
  by_cases hc : 2 ≤ (letterRun m).length ∧ nl.atEnd (afterLetters m) = true
  · obtain ⟨hlen, he⟩ := hc
    obtain ⟨t, x, hw⟩ : ∃ t x, letterRun m = t ++ [x] := by
      refine ⟨(letterRun m).dropLast, (letterRun m).getLast ?_, (List.dropLast_append_getLast _).symm⟩
      intro h0
      simp [h0] at hlen
    have hl : (letterRun m).length = t.length + 1 := by simp [hw]
    have hg := groupsAfter_take nl (m := m) (k := t.length) (by omega)
    rw [if_pos ⟨by omega, hiff.mpr he⟩, takeWhile_dot_eq_nil nl he, List.append_nil] at hg
    rw [hl, List.range_succ, List.reverse_append, List.reverse_singleton, List.singleton_append,
      List.map_cons, List.findSome?_cons, hg, if_pos ⟨by omega, he⟩]
    simp [hw]
  · rw [if_neg hc, List.findSome?_eq_none_iff]
    simp only [List.mem_map, List.mem_reverse, List.mem_range]
    rintro _ ⟨k, hk, rfl⟩
    rw [groupsAfter_take nl hk, if_neg]
    intro hh
    obtain ⟨hk0, he⟩ := hh
    exact hc ⟨by omega, hiff.mp he⟩

/-- The first match in backtracking order makes the split `splitMessage`. -/
theorem search_msgRegex (m : Text) :
    (search (msgRegex nl) [] m).map Found.groups =
      (splitMessage nl m).map fun s => [(1, s.1), (2, s.2)] := by
  have hsplit : splits Char.isUpper m = (letterRun m, afterLetters m) ::
      (List.range (letterRun m).length).reverse.map fun k => (m.take k, m.drop k) := splits_eq _ _
  rw [search_msgRegex_eq_findSome, hsplit, List.findSome?_cons]
  cases hp : paramText nl (afterLetters m) with
  | some p =>
    by_cases hw : letterRun m = [] <;> simp [groupsAfter, splitMessage, hp, hw]
  | none =>
    have hg : groupsAfter nl (letterRun m) (afterLetters m) = none := by simp [groupsAfter, hp]
    rw [hg]
    dsimp only
    rw [findSome_shorter_splits nl hp]
    by_cases hc : 2 ≤ (letterRun m).length ∧ nl.atEnd (afterLetters m) = true <;>
      simp [splitMessage, hp, hc]

example : splitMessage .any "PLAY  a b\n".toList = some ("PLAY".toList, " a b".toList) := by decide

example : splitMessage .any "STOP\u2028".toList = some ("STO".toList, "P".toList) := by decide

end GstPlayd
