import GstPlayd.Backtracking
import GstPlayd.LineFraming
import GstPlayd.TextFormats
import Mathlib.Data.List.Forall2

/-! How the shipped client reads a reply. Its regular expressions are
multi-line: the anchors also match at line breaks. `none` is an exception. -/

namespace GstPlayd

open Backtracking LineFraming

def notNewline (c : Char) : Bool := c != '\n'

def lineStart (before _after : Text) : Bool := before.head?.all (· == '\n')

def lineEnd (_before after : Text) : Bool := after.head?.all (· == '\n')

/-- `/^([A-Z]+)[ ]?(.*)$/` -/
def responseRegex : Pattern Char :=
  .seq (.look lineStart) (.seq (.group 1 (.plus Char.isUpper)) (.seq (.opt (· == ' '))
    (.seq (.group 2 (.star notNewline)) (.look lineEnd))))

/-- `/^(.*)_([0-9]+)$/` -/
def keyRegex : Pattern Char :=
  .seq (.look lineStart) (.seq (.group 1 (.star notNewline)) (.seq (.one (· == '_'))
    (.seq (.group 2 (.plus Char.isDigit)) (.look lineEnd))))

def parseResponse (msg : Text) : Option Text := do
  let m ← search responseRegex [] msg
  if m.group 1 = some "OK".toList then m.group 2 else none

/-- One line end of any kind is cut off. -/
def chomp (s : Text) : Text :=
  match s.reverse with
  | '\n' :: '\r' :: r => r.reverse
  | '\n' :: r => r.reverse
  | '\r' :: r => r.reverse
  | _ => s

abbrev TagDict := List (Text × List Text)

namespace TagDict

/-- `acc[key] ||= []; acc[key] << value` -/
def add : TagDict → Text → Text → TagDict
  | [], key, value => [(key, [value])]
  | entry :: acc, key, value =>
    if entry.1 = key then (key, entry.2 ++ [value]) :: acc else entry :: add acc key value

def pairs (d : TagDict) : List (Text × Text) := d.flatMap fun entry => entry.2.map fun v => (entry.1, v)

theorem pairs_add (d : TagDict) (key value : Text) : (d.add key value).pairs.Perm ((key, value) :: d.pairs) := by
  induction d with
  | nil => simp [add, pairs]
  | cons entry d ih =>
    by_cases hk : entry.1 = key
    · simp only [add, hk, if_true, pairs, List.flatMap_cons, List.map_append, List.map_cons, List.map_nil,
        List.append_assoc, List.singleton_append]
      exact List.perm_middle
    · simp only [add, hk, if_false]
      exact (ih.append_left (entry.2.map fun v => (entry.1, v))).trans List.perm_middle

theorem pairs_foldl_add (ps : List (Text × Text)) (d : TagDict) :
    (ps.foldl (fun d p => d.add p.1 p.2) d).pairs.Perm (d.pairs ++ ps) := by
  induction ps generalizing d with
  | nil => simp
  | cons p ps ih =>
    refine (ih (d.add p.1 p.2)).trans ?_
    exact ((pairs_add d p.1 p.2).append_right ps).trans List.perm_middle.symm

end TagDict

def readSlice (x : Text × Option Text) : Option (Text × Text) := do
  let m ← search keyRegex [] x.1
  let tag ← m.group 1
  let value ← x.2
  return (tag, chomp value)

def responseToTagDict (msg : Text) : Option TagDict := do
  let _ ← parseResponse msg
  (slices ((lines '\n' msg).drop 1)).foldlM
    (fun acc x => (readSlice x).map fun p => acc.add p.1 p.2) []

theorem chomp_line (v : Text) : chomp (v ++ ['\n']) = if v.getLast? = some '\r' then v.dropLast else v := by
  induction v using List.reverseRecOn with
  | nil => rfl
  | append_singleton w c =>
    by_cases hc : c = '\r'
    · simp [chomp, hc]
    · simp [chomp, hc]

theorem readSlices_iff {xs : List (Text × Option Text)} {acc d : TagDict} :
    xs.foldlM (fun acc x => (readSlice x).map fun p => acc.add p.1 p.2) acc = some d ↔
      ∃ ps, List.Forall₂ (fun x p => readSlice x = some p) xs ps ∧
        d = ps.foldl (fun d p => d.add p.1 p.2) acc := by
  induction xs generalizing acc with
  | nil =>
    simp only [List.foldlM_nil, List.forall₂_nil_left_iff, exists_eq_left, List.foldl_nil]
    exact ⟨fun h => (Option.some.inj h).symm, fun h => h ▸ rfl⟩
  | cons x xs ih =>
    rw [List.foldlM_cons]
    cases hx : readSlice x with
    | none =>
      constructor
      · intro h
        cases h
      · intro hh
        obtain ⟨ps, hps, _⟩ := hh
        cases hps with
        | cons h _ => simp [hx] at h
    | some p =>
      simp only [Option.map_some, Option.bind_eq_bind, Option.bind_some, ih]
      constructor
      · intro hh
        obtain ⟨ps, hps, rfl⟩ := hh
        exact ⟨p :: ps, .cons hx hps, rfl⟩
      · intro hh
        obtain ⟨_, hps, rfl⟩ := hh
        cases hps with
        | cons h hps =>
          obtain rfl := Option.some.inj (hx.symm.trans h)
          exact ⟨_, hps, rfl⟩

theorem parseResponse_ok (s : Text) : parseResponse ("OK\n".toList ++ s) = some [] := by
  have hhead : (run responseRegex [] ("OK\n".toList ++ s)).head? =
      some ⟨['O', 'K'], '\n' :: s, [(1, ['O', 'K']), (2, [])]⟩ := by
    simp [responseRegex, run, splits_eq, lineStart, lineEnd, notNewline]
  rw [parseResponse, search_of_head hhead]
  rfl

theorem run_underscore_eq_nil {s : Text} (h : '_' ∉ s) (before : Text) (b : Pattern Char) :
    run (.seq (.one (· == '_')) b) before s = [] := by
  cases s with
  | nil => simp [run]
  | cons c s =>
    have hc : c ≠ '_' := fun he => h (he ▸ List.mem_cons_self)
    simp [run, hc]

theorem readSlice_line {tag value : Text} (htag : '\n' ∉ tag) (i : Nat) :
    readSlice (tag ++ '_' :: fmtUnsigned i ++ ['\n'], some value) = some (tag, chomp value) := by
  have hdigit : ∀ c ∈ fmtUnsigned i, c.isDigit = true := fun c => isDigit_of_mem_fmtUnsigned
  have hne : fmtUnsigned i ≠ [] := Nat.toDigits_ne_nil
  have htake : (fmtUnsigned i ++ ['\n']).takeWhile Char.isDigit = fmtUnsigned i := by
    rw [List.takeWhile_append_of_pos hdigit]
    simp
  have hdrop : (fmtUnsigned i ++ ['\n']).dropWhile Char.isDigit = ['\n'] := by
    rw [List.dropWhile_append_of_pos hdigit]
    simp
  have hno : '_' ∉ fmtUnsigned i ++ ['\n'] := by
    intro hm
    rcases List.mem_append.mp hm with hm | hm
    · exact absurd (hdigit '_' hm) (by decide)
    · simp at hm
  have htail : (run (.seq (.one (· == '_')) (.seq (.group 2 (.plus Char.isDigit)) (.look lineEnd)))
      (tag.reverse ++ []) ('_' :: (fmtUnsigned i ++ ['\n']))).head? =
        some ⟨'_' :: fmtUnsigned i, ['\n'], [(2, fmtUnsigned i)]⟩ := by
    have hplus := head_run_plus (p := Char.isDigit) (by rwa [htake]) ('_' :: (tag.reverse ++ []))
    rw [htake, hdrop] at hplus
    have hend : (run (.look lineEnd) ((fmtUnsigned i).reverse ++ '_' :: (tag.reverse ++ [])) ['\n']).head? =
        some ⟨[], ['\n'], []⟩ := rfl
    have hindex := head_run_seq (head_run_group 2 hplus) hend
    have hscore : (run (.one (· == '_')) (tag.reverse ++ []) ('_' :: (fmtUnsigned i ++ ['\n']))).head? =
        some ⟨['_'], fmtUnsigned i ++ ['\n'], []⟩ := rfl
    simpa using head_run_seq hscore hindex
  -- a longer first capture ends among the digits, where there is no underscore
  have hdead : ∀ t' s', tag ++ '_' :: (fmtUnsigned i ++ ['\n']) = t' ++ s' → tag.length < t'.length →
      run (.seq (.one (· == '_')) (.seq (.group 2 (.plus Char.isDigit)) (.look lineEnd)))
        (t'.reverse ++ []) s' = [] := by
    intro t' s' heq hlt
    refine run_underscore_eq_nil ?_ _ _
    rcases List.append_eq_append_iff.mp heq with ⟨a, ha, hs⟩ | ⟨c, hc, _⟩
    · cases a with
      | nil => simp [ha] at hlt
      | cons x a =>
        have hsub := (List.cons.inj hs).2
        exact fun hm => hno (hsub ▸ List.mem_append_right a hm)
    · have hlen := congrArg List.length hc
      rw [List.length_append] at hlen
      omega
  have hhead := head_run_star_back 1 (p := notNewline)
    (fun c hc => by simpa [notNewline] using ne_of_mem_of_not_mem hc htag) htail hdead
  have hrun : (run keyRegex [] (tag ++ '_' :: (fmtUnsigned i ++ ['\n']))).head? = _ :=
    (congrArg List.head? (run_seq_look_true (by rfl) _)).trans hhead
  rw [readSlice, List.append_assoc, List.cons_append, search_of_head hrun]
  rfl

end GstPlayd
