import GstPlayd.ClientReply
import GstPlayd.StopParameter

/-! The methods of the shipped client: what each makes of the reply that it
gets. -/

namespace GstPlayd

open Backtracking

/-- `gsub(r, '')`, where `inside` symbols are left of the match that is being
dropped. -/
def gsubEmpty (r : Pattern Char) : Text → Text → Nat → Text
  | _, [], _ => []
  | before, c :: s, inside + 1 => gsubEmpty r (c :: before) s inside
  | before, c :: s, 0 =>
    match ((run r before (c :: s)).head?.map fun m => m.taken.length).getD 0 with
    | 0 => c :: gsubEmpty r (c :: before) s 0
    | inside + 1 => gsubEmpty r (c :: before) s inside

/-- `/.*: /` -/
def labelRegex : Pattern Char :=
  .seq (.star notNewline) (.seq (.one (· == ':')) (.one (· == ' ')))

def clientPing (reply : Text) : Bool := "GstPlayDaemon".toList.isSuffixOf reply

def clientPlayed (reply : Text) : Option Text :=
  (parseResponse reply).map fun m => gsubEmpty labelRegex [] m 0

def firstLine (s : Text) : Text := s.takeWhile notNewline

section

variable {word s label : Text}

theorem run_star_rest_head (before s : Text) : ∃ after, (run (.seq (.group 2 (.star notNewline))
    (.look lineEnd)) before s).head? = some ⟨firstLine s, after, [(2, firstLine s)]⟩ := by
  refine ⟨s.dropWhile notNewline, ?_⟩
  have hstar : (run (.star notNewline) before s).head? =
      some ⟨s.takeWhile notNewline, s.dropWhile notNewline, []⟩ := by simp [run, splits_eq]
  have hend : ∀ b, (run (.look lineEnd) b (s.dropWhile notNewline)).head? =
      some ⟨[], s.dropWhile notNewline, []⟩ := by
    intro b
    have hbreak : lineEnd b (s.dropWhile notNewline) = true := by
      cases hd : s.dropWhile notNewline with
      | nil => rfl
      | cons c t =>
        have hh := List.head?_dropWhile_not notNewline s
        rw [hd] at hh
        simpa [lineEnd, notNewline] using hh
    simp [run, hbreak]
  have hseq := head_run_seq (head_run_group 2 hstar) (hend _)
  simpa [firstLine] using hseq

def dropBlank : Text → Text
  | ' ' :: s => s
  | s => s

/-- The regular expression matches at the start of every reply that starts with
a word. -/
theorem search_responseRegex (hw : word ≠ []) (hup : ∀ c ∈ word, c.isUpper = true)
    (hs : ∀ c ∈ s.head?, c.isUpper = false) : ∃ found, search responseRegex [] (word ++ s) = some found ∧
      found.group 1 = some word ∧ found.group 2 = some (firstLine (dropBlank s)) := by
  have htake : (word ++ s).takeWhile Char.isUpper = word := takeWhile_of_head hup hs
  have hdrop : (word ++ s).dropWhile Char.isUpper = s := dropWhile_of_head hup hs
  have hne : (word ++ s).takeWhile Char.isUpper ≠ [] := by rwa [htake]
  have hword := head_run_group 1 (head_run_plus hne [])
  rw [htake, hdrop] at hword
  have hrest : ∀ before, ∃ taken after, (run (.seq (.opt (· == ' ')) (.seq (.group 2 (.star notNewline))
      (.look lineEnd))) before s).head? = some ⟨taken, after, [(2, firstLine (dropBlank s))]⟩ := by
    intro before
    cases s with
    | nil => exact ⟨_, _, rfl⟩
    | cons c t =>
      by_cases hc : c = ' '
      · obtain ⟨after, hline⟩ := run_star_rest_head (' ' :: before) t
        have hopt : (run (.opt (· == ' ')) before (' ' :: t)).head? = some ⟨[' '], t, []⟩ := rfl
        subst c
        exact ⟨_, after, head_run_seq hopt hline⟩
      · obtain ⟨after, hline⟩ := run_star_rest_head before (c :: t)
        have hopt : (run (.opt (· == ' ')) before (c :: t)).head? = some ⟨[], c :: t, []⟩ := by
          simp [run, hc]
        have hblank : dropBlank (c :: t) = c :: t := by simp [dropBlank, hc]
        rw [hblank]
        exact ⟨_, after, head_run_seq hopt hline⟩
  obtain ⟨taken, after, hr⟩ := hrest (word.reverse ++ [])
  have hstart : lineStart [] (word ++ s) = true := rfl
  have hhead := (congrArg List.head? (run_seq_look_true hstart _)).trans (head_run_seq hword hr)
  exact ⟨_, search_of_head hhead, rfl, rfl⟩

theorem parseResponse_status (hw : word ≠ []) (hup : ∀ c ∈ word, c.isUpper = true)
    (hs : ∀ c ∈ s.head?, c.isUpper = false) : parseResponse (word ++ s) =
      if word = "OK".toList then some (firstLine (dropBlank s)) else none := by
  obtain ⟨found, hf, h1, h2⟩ := search_responseRegex hw hup hs
  by_cases hok : word = "OK".toList
  · simp only [parseResponse, hf, Option.bind_eq_bind, Option.bind_some, h1]
    rw [if_pos hok, if_pos (congrArg some hok), h2]
  · have hne : some word ≠ some "OK".toList := fun h => hok (Option.some.inj h)
    simp only [parseResponse, hf, Option.bind_eq_bind, Option.bind_some, h1, if_neg hne, if_neg hok]

theorem parseResponse_of_ok (hs : ∀ c ∈ s.head?, c.isUpper = false) :
    parseResponse ("OK".toList ++ s) = some (firstLine (dropBlank s)) := by
  have hup : ∀ c ∈ "OK".toList, c.isUpper = true := List.all_eq_true.mp (by decide)
  rw [parseResponse_status (by decide) hup hs, if_pos rfl]

theorem parseResponse_of_ok_blank (s : Text) : parseResponse ("OK ".toList ++ s) = some (firstLine s) :=
  parseResponse_of_ok (s := ' ' :: s) (by simp)

theorem parseResponse_of_fail (s : Text) : parseResponse ("FAIL ".toList ++ s) = none := by
  have hup : ∀ c ∈ "FAIL".toList, c.isUpper = true := List.all_eq_true.mp (by decide)
  have hstatus := parseResponse_status (s := ' ' :: s) (by decide) hup (by simp)
  rwa [if_neg (by decide)] at hstatus

theorem gsubEmpty_inside (r : Pattern Char) (before t s : Text) :
    gsubEmpty r before (t ++ s) t.length = gsubEmpty r (t.reverse ++ before) s 0 := by
  induction t generalizing before with
  | nil => rfl
  | cons c t ih => simpa [gsubEmpty] using ih (c :: before)

theorem gsubEmpty_of_head {r : Pattern Char} {before t s : Text} (ht : t ≠ [])
    (h : ((run r before (t ++ s)).map Found.taken).head? = some t) :
    gsubEmpty r before (t ++ s) 0 = gsubEmpty r (t.reverse ++ before) s 0 := by
  obtain ⟨c, u, rfl⟩ := List.exists_cons_of_ne_nil ht
  have hlen : ((run r before (c :: (u ++ s))).head?.map fun m => m.taken.length).getD 0 = u.length + 1 := by
    rw [List.head?_map] at h
    obtain ⟨m, hm, htaken⟩ := Option.map_eq_some_iff.mp h
    rw [List.cons_append] at hm
    simp [hm, htaken]
  rw [List.cons_append, gsubEmpty, hlen]
  simpa using gsubEmpty_inside r (c :: before) u s

theorem gsubEmpty_of_run_nil {r : Pattern Char} (h : ∀ before t, t <:+ s → run r before t = [])
    (before : Text) :
    gsubEmpty r before s 0 = s := by
  induction s generalizing before with
  | nil => rfl
  | cons c s ih =>
    rw [gsubEmpty, h before (c :: s) List.suffix_rfl]
    exact congrArg (c :: ·) (ih (fun b t ht => h b t (ht.trans (List.suffix_cons c s))) (c :: before))

theorem run_colon_eq_nil (hs : ':' ∉ s) (before : Text) (b : Pattern Char) :
    run (.seq (.one (· == ':')) b) before s = [] := by
  cases s with
  | nil => simp [run]
  | cons c s =>
    have hc : c ≠ ':' := fun he => hs (he ▸ List.mem_cons_self)
    simp [run, hc]

theorem run_labelRegex_eq_nil (hs : ':' ∉ s) (before : Text) : run labelRegex before s = [] := by
  rw [labelRegex, run, List.flatMap_eq_nil_iff]
  intro x hx
  obtain ⟨⟨t, u⟩, hsplit, rfl⟩ := List.mem_map.mp hx
  obtain ⟨k, -, hk⟩ := List.mem_map.mp hsplit
  have hno : ':' ∉ u := fun hm => hs (List.mem_of_mem_drop ((Prod.mk.inj hk).2 ▸ hm))
  rw [run_colon_eq_nil hno, List.map_nil]

/-- The greedy label ends at the last colon, and the text after it is left. -/
theorem gsubEmpty_label (hl : '\n' ∉ label) (hs : ':' ∉ s) :
    gsubEmpty labelRegex [] (label ++ ": ".toList ++ s) 0 = s := by
  have hcolon : (run (.seq (.one (· == ':')) (.one (· == ' '))) (label.reverse ++ []) (": ".toList ++ s)).head? =
      some ⟨": ".toList, s, []⟩ := rfl
  -- a longer run ends after the colon
  have hdead : ∀ t' s', label ++ (": ".toList ++ s) = t' ++ s' → label.length < t'.length →
      run (.seq (.one (· == ':')) (.one (· == ' '))) (t'.reverse ++ []) s' = [] := by
    intro t' s' heq hlt
    refine run_colon_eq_nil ?_ _ _
    rcases List.append_eq_append_iff.mp heq with ⟨a, ha, hrest⟩ | ⟨c, hc, _⟩
    · cases a with
      | nil => simp [ha] at hlt
      | cons x a =>
        have hsub : ' ' :: s = a ++ s' := (List.cons.inj hrest).2
        intro hm
        have hmem : ':' ∈ ' ' :: s := hsub ▸ List.mem_append_right a hm
        simp [hs] at hmem
    · have hlen := congrArg List.length hc
      rw [List.length_append] at hlen
      omega
  have hall : ∀ c ∈ label, notNewline c = true := fun c hc => by
    simpa [notNewline] using ne_of_mem_of_not_mem hc hl
  have hhead : ((run labelRegex [] (label ++ ": ".toList ++ s)).map Found.taken).head? =
      some (label ++ ": ".toList) := by
    have hback := congrArg (Option.map Found.taken) (head_run_star_back 1 hall hcolon hdead)
    rwa [← List.head?_map, map_taken_run_group, ← List.append_assoc] at hback
  rw [gsubEmpty_of_head (by simp) hhead]
  refine gsubEmpty_of_run_nil ?_ _
  exact fun before t ht => run_labelRegex_eq_nil (fun hm => hs (ht.subset hm)) before

theorem parseResponse_playerIdReply (id : UInt32) :
    parseResponse (playerIdReply id) = some ("player id: ".toList ++ fmtUnsigned id.toNat) := by
  have hdigit : ∀ c ∈ fmtUnsigned id.toNat, notNewline c = true := by
    intro c hc
    have hd := isDigit_of_mem_fmtUnsigned hc
    have hne : c ≠ '\n' := fun h => by simp [h] at hd
    simpa [notNewline] using hne
  have hlabel : ∀ c ∈ "player id: ".toList, notNewline c = true := List.all_eq_true.mp (by decide)
  have hline : firstLine ("player id: ".toList ++ fmtUnsigned id.toNat) =
      "player id: ".toList ++ fmtUnsigned id.toNat := by
    rw [firstLine, List.takeWhile_append_of_pos hlabel, List.takeWhile_eq_self_iff.mpr hdigit]
  have hok := parseResponse_of_ok_blank ("player id: ".toList ++ fmtUnsigned id.toNat)
  rwa [hline] at hok

theorem clientPlayed_playerIdReply (id : UInt32) :
    clientPlayed (playerIdReply id) = some (fmtUnsigned id.toNat) := by
  have hcolon : ':' ∉ fmtUnsigned id.toNat := by
    intro hm
    have hd := isDigit_of_mem_fmtUnsigned hm
    simp at hd
  rw [clientPlayed, parseResponse_playerIdReply, Option.map_some]
  have hlabel : '\n' ∉ "player id".toList := by decide
  exact congrArg some (gsubEmpty_label hlabel hcolon)

end

end GstPlayd
