import GstPlayd.Operations

/-! Which handler a message runs, against the command that the client wrote:
the letters at the start of the message. -/

namespace GstPlayd

variable {γ ε σ : Type}

/-- A handler runs only for messages that start with its command, and for all
messages that are its command alone or with a parameter after one space. -/
structure DispatchesByLeadingWord (nl : Newlines) (parser : ParseCtx γ ε σ) (m : Text) : Prop where
  sound : ∀ word param, parser.Invokes nl m word param → letterRun m = word
  complete : ∀ word ∈ parser.messageTable,
    (m = word ∨ ∃ p : Text, (∀ c ∈ p, nl.dot c = true) ∧ m = word ++ ' ' :: p) →
      ∃ param, parser.Invokes nl m word param

variable {nl : Newlines} {parser : ParseCtx γ ε σ} {m word param p : Text}

theorem DispatchesByLeadingWord.not_invokes (h : DispatchesByLeadingWord nl parser m)
    (hm : letterRun m ∉ parser.messageTable) (word param : Text) : ¬ parser.Invokes nl m word param := by
  intro hi
  have hw := h.sound word param hi
  exact hm (hw ▸ ((invokes_iff nl parser m word param).mp hi).2)

theorem letterRun_append (hw : ∀ c ∈ word, c.isUpper = true) (s : Text) :
    letterRun (word ++ s) = word ++ letterRun s :=
  List.takeWhile_append_of_pos hw

theorem afterLetters_append (hw : ∀ c ∈ word, c.isUpper = true) (s : Text) :
    afterLetters (word ++ s) = afterLetters s :=
  List.dropWhile_append_of_pos hw

theorem letterRun_space (p : Text) : letterRun (' ' :: p) = [] :=
  List.takeWhile_cons_of_neg (by decide)

theorem afterLetters_space (p : Text) : afterLetters (' ' :: p) = ' ' :: p :=
  List.dropWhile_cons_of_neg (by decide)

theorem paramText_nil : paramText nl [] = none := by
  simp [paramText, bodyText]

theorem paramText_of_atEnd {s : Text} (h : nl.atEnd s = true) : paramText nl s = none := by
  cases s with
  | nil => exact paramText_nil
  | cons c s =>
    have hdot := nl.not_dot_of_atEnd h
    have hc : c ≠ ' ' := by
      intro hc
      rw [hc, nl.dot_space] at hdot
      exact absurd hdot (by decide)
    rw [paramText_of_head_ne nl hc, bodyText, takeWhile_dot_eq_nil nl h]
    simp

theorem paramText_space (hp : ∀ c ∈ p, nl.dot c = true) : ∃ q, paramText nl (' ' :: p) = some q := by
  apply Option.ne_none_iff_exists'.mp
  have hs : ∀ c ∈ ' ' :: p, nl.dot c = true := by
    intro c hc
    rcases List.mem_cons.mp hc with rfl | hc
    · exact nl.dot_space
    · exact hp c hc
  apply paramText_ne_none
  · rw [List.takeWhile_eq_self_iff.mpr hs]
    exact List.cons_ne_nil ' ' p
  · rw [List.dropWhile_eq_nil_iff.mpr hs]
    exact nl.atEnd_nil

theorem splitMessage_cases (h : splitMessage nl m = some (word, param)) :
    (letterRun m = word ∧ word ≠ [] ∧ afterLetters m ≠ []) ∨
      (nl.atEnd (afterLetters m) = true ∧ (letterRun m).dropLast = word ∧ word ≠ []) := by
  cases hp : paramText nl (afterLetters m) with
  | some q =>
    left
    have hafter : afterLetters m ≠ [] := by
      intro ha
      rw [ha, paramText_nil] at hp
      exact absurd hp (by simp)
    by_cases hw : letterRun m = []
    · simp [splitMessage, hp, hw] at h
    · simp only [splitMessage, hp, hw, if_false, Option.some.injEq, Prod.mk.injEq] at h
      exact ⟨h.1, h.1 ▸ hw, hafter⟩
  | none =>
    right
    by_cases hc : 2 ≤ (letterRun m).length ∧ nl.atEnd (afterLetters m) = true
    · simp only [splitMessage, hp, hc, and_self, if_true, Option.some.injEq, Prod.mk.injEq] at h
      have hne : (letterRun m).dropLast ≠ [] := by
        apply List.ne_nil_of_length_pos
        rw [List.length_dropLast]
        omega
      exact ⟨hc.2, h.1, h.1 ▸ hne⟩
    · simp [splitMessage, hp, hc] at h

theorem isUpper_of_splitMessage (h : splitMessage nl m = some (word, param)) :
    ∀ c ∈ word, c.isUpper = true := by
  intro c hc
  rcases splitMessage_cases h with ⟨hw, -, -⟩ | ⟨-, hw, -⟩
  · exact isUpper_of_mem_letterRun (hw ▸ hc)
  · exact isUpper_of_mem_letterRun ((List.dropLast_sublist _).subset (hw ▸ hc))

theorem bodyText_subset {s : Text} (h : bodyText nl s = some param) : param ⊆ s := by
  rw [bodyText] at h
  split_ifs at h
  exact Option.some.inj h ▸ (List.takeWhile_prefix _).subset

theorem paramText_subset {s : Text} (h : paramText nl s = some param) : param ⊆ s := by
  by_cases hs : ∃ t, s = ' ' :: t
  · obtain ⟨t, rfl⟩ := hs
    rw [paramText, Option.or_eq_some_iff] at h
    rcases h with h | ⟨-, h⟩
    · exact List.subset_cons_of_subset _ (bodyText_subset h)
    · exact bodyText_subset h
  · cases s with
    | nil => exact bodyText_subset h
    | cons c t =>
      have hc : c ≠ ' ' := fun hc => hs ⟨t, hc ▸ rfl⟩
      rw [paramText_of_head_ne nl hc] at h
      exact bodyText_subset h

/-- The parameter is made of characters of the message. -/
theorem splitMessage_subset (h : splitMessage nl m = some (word, param)) : param ⊆ m := by
  rw [splitMessage] at h
  cases hp : paramText nl (afterLetters m) with
  | some q =>
    simp only [hp] at h
    split_ifs at h
    obtain ⟨-, rfl⟩ := Prod.mk.inj (Option.some.inj h)
    exact fun c hc => (List.dropWhile_suffix _).subset (paramText_subset hp hc)
  | none =>
    simp only [hp] at h
    split_ifs at h
    obtain ⟨-, rfl⟩ := Prod.mk.inj (Option.some.inj h)
    intro c hc
    have hlast := List.mem_of_getLast? (Option.mem_toList.mp hc)
    exact (List.takeWhile_prefix _).subset hlast

theorem splitMessage_space (hw : ∀ c ∈ word, c.isUpper = true) (hne : word ≠ [])
    (hp : ∀ c ∈ p, nl.dot c = true) :
    ∃ q, splitMessage nl (word ++ ' ' :: p) = some (word, q) := by
  obtain ⟨q, hq⟩ := paramText_space hp
  have hl : letterRun (word ++ ' ' :: p) = word := by
    rw [letterRun_append hw, letterRun_space, List.append_nil]
  have ha : afterLetters (word ++ ' ' :: p) = ' ' :: p := by
    rw [afterLetters_append hw, afterLetters_space]
  exact ⟨q, by simp only [splitMessage, hl, ha, hq, hne, if_false]⟩

theorem splitMessage_letters (he : nl.atEnd (afterLetters m) = true) (hne : (letterRun m).dropLast ≠ []) :
    splitMessage nl m = some ((letterRun m).dropLast, (letterRun m).getLast?.toList) := by
  have hlen : 2 ≤ (letterRun m).length := by
    have hpos := List.length_pos_of_ne_nil hne
    rw [List.length_dropLast] at hpos
    omega
  simp only [splitMessage, paramText_of_atEnd he, hlen, he, and_self, if_true]

theorem not_splitMessage_self (param : Text) : splitMessage nl m ≠ some (m, param) := by
  intro h
  have hm := letterRun_append_afterLetters m
  rcases splitMessage_cases h with ⟨hw, -, hafter⟩ | ⟨-, hw, hne⟩
  · rw [hw] at hm
    exact hafter (List.append_right_eq_self.mp hm)
  · have hlen := congrArg List.length hm
    have hdrop := congrArg List.length hw
    have hpos := List.length_pos_of_ne_nil hne
    rw [List.length_append] at hlen
    rw [List.length_dropLast] at hdrop
    omega

/-- Dispatch follows the leading word except for a command sent bare, for a
command sent bare with one more letter, and for names that no word can be. -/
theorem dispatchesByLeadingWord_iff (nl : Newlines) (parser : ParseCtx γ ε σ) (m : Text) :
    DispatchesByLeadingWord nl parser m ↔
      m ∉ parser.messageTable ∧
      ¬ (nl.atEnd (afterLetters m) = true ∧ (letterRun m).dropLast ≠ [] ∧
        (letterRun m).dropLast ∈ parser.messageTable) ∧
      ∀ word ∈ parser.messageTable, ∀ p : Text, (∀ c ∈ p, nl.dot c = true) → m = word ++ ' ' :: p →
        word ≠ [] ∧ ∀ c ∈ word, c.isUpper = true := by
  constructor
  · intro h
    refine ⟨?_, ?_, ?_⟩
    · intro hm
      obtain ⟨param, hi⟩ := h.complete m hm (.inl rfl)
      exact not_splitMessage_self param ((invokes_iff nl parser m m param).mp hi).1
    · intro hh
      obtain ⟨he, hne, hm⟩ := hh
      have hi := (invokes_iff nl parser m _ _).mpr ⟨splitMessage_letters he hne, hm⟩
      have hlen := congrArg List.length (h.sound _ _ hi)
      have hpos := List.length_pos_of_ne_nil hne
      rw [List.length_dropLast] at hlen hpos
      omega
    · intro word hw p hp hm
      obtain ⟨param, hi⟩ := h.complete word hw (.inr ⟨p, hp, hm⟩)
      have hs := ((invokes_iff nl parser m word param).mp hi).1
      have hne : word ≠ [] := by
        rcases splitMessage_cases hs with ⟨-, hne, -⟩ | ⟨-, -, hne⟩
        · exact hne
        · exact hne
      exact ⟨hne, isUpper_of_splitMessage hs⟩
  · intro hh
    obtain ⟨hbare, hletters, hnames⟩ := hh
    constructor
    · intro word param hi
      obtain ⟨hs, hw⟩ := (invokes_iff nl parser m word param).mp hi
      rcases splitMessage_cases hs with ⟨hl, -, -⟩ | ⟨he, hl, hne⟩
      · exact hl
      · exact absurd ⟨he, hl ▸ hne, hl ▸ hw⟩ hletters
    · intro word hw hm
      rcases hm with hm | ⟨p, hp, hm⟩
      · exact absurd (hm ▸ hw) hbare
      · obtain ⟨hne, hup⟩ := hnames word hw p hp hm
        obtain ⟨q, hq⟩ := splitMessage_space hup hne hp
        exact ⟨q, (invokes_iff nl parser m word q).mpr ⟨hm ▸ hq, hw⟩⟩

/-- QUITS shuts the daemon down, and a bare QUIT does not. -/
theorem quits_runs_quit :
    (∃ world, parseMessage .any daemonParser "QUITS".toList exampleHandlerCalls exampleWorld =
      .ok ("OK".toList, world) ∧ world.services.shouldQuit = true) ∧
    ¬ DispatchesByLeadingWord .any daemonParser "QUITS".toList ∧
    ¬ DispatchesByLeadingWord .any daemonParser "QUIT".toList := by
  have hquit : "QUIT".toList ∈ daemonParser.messageTable := mem_daemonParser.mpr (by decide)
  refine ⟨⟨_, rfl, rfl⟩, ?_, ?_⟩
  · intro h
    have hsplit : splitMessage .any "QUITS".toList = some ("QUIT".toList, "S".toList) := by decide
    have hi := (invokes_iff .any daemonParser _ _ _).mpr ⟨hsplit, hquit⟩
    exact absurd (h.sound _ _ hi) (by decide)
  · intro h
    obtain ⟨param, hi⟩ := h.complete _ hquit (.inl rfl)
    exact not_splitMessage_self param ((invokes_iff .any daemonParser _ _ _).mp hi).1

end GstPlayd
