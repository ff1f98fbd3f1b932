import PatternPages.Proofs.Escapes
import PatternPages.Proofs.LogicalLines

/-! A backslash and the character that it escapes stay together. They do so where lines are joined, since the line that waits
never ends in an open backslash, and where an entry is split, since the key ends in front of a character that is not escaped.
So reading never comes to a backslash with nothing behind it. -/
namespace PatternPages.Properties

open Text (isBlank trimStart lines)

/-- The backslashes at the end of the text are pairs. -/
def Paired (s : Text) : Prop := trailingBackslashes s % 2 = 0

instance (s : Text) : Decidable (Paired s) := inferInstanceAs (Decidable (_ = _))

theorem paired_iff_continues {s : Text} : Paired s ↔ continues s = false := by
  simp only [Paired, continues, decide_eq_false_iff_not]
  omega

theorem paired_iff {s : Text} : Paired s ↔ endsOpen false s = false := by
  rw [paired_iff_continues, continues_eq_endsOpen]

theorem Paired.nil : Paired [] := rfl

/-- At first nothing waits. -/
theorem Paired.none : Paired (Option.getD none []) := rfl

/-! ## Joining -/

/-- Comments are passed over while no line waits. -/
def isSkipped (pending : Option Text) (line : Text) : Bool := pending.isNone && isComment (trimStart line)

/-- What waits, continued by a physical line. -/
def continued (pending : Option Text) (line : Text) : Text := pending.getD [] ++ trimStart line

/-- What waits behind a physical line. -/
def waiting (pending : Option Text) (line : Text) : Option Text :=
  if isSkipped pending line then none
  else if continues (continued pending line) then some (continued pending line).dropLast
  else none

/-- The logical line that ends with a physical one, if any does. -/
def completed (pending : Option Text) (line : Text) : List Text :=
  if isSkipped pending line || continues (continued pending line) then [] else [continued pending line]

def waitingAfter (lines : List Text) : Option Text := lines.foldl waiting none

section Joining

variable {pending : Option Text} {line : Text}

theorem joinLines_cons (pending : Option Text) (line : Text) (rest : List Text) :
    joinLines pending (line :: rest) = completed pending line ++ joinLines (waiting pending line) rest := by
  cases pending with
  | none =>
    simp only [joinLines, completed, waiting, isSkipped, continued, Option.isNone_none, Bool.true_and, Option.getD_none,
      List.nil_append]
    by_cases comment : isComment (trimStart line) = true
    · simp [comment]
    · by_cases open_ : continues (trimStart line) = true <;> simp [comment, open_]
  | some pending =>
    simp only [joinLines, completed, waiting, isSkipped, continued, Option.isNone_some, Bool.false_and, Option.getD_some]
    by_cases open_ : continues (pending ++ trimStart line) = true <;> simp [open_]

theorem joinLines_append (before after : List Text) (pending : Option Text) :
    ∃ done, joinLines pending (before ++ after) = done ++ joinLines (before.foldl waiting pending) after := by
  induction before generalizing pending with
  | nil => exact ⟨[], rfl⟩
  | cons line before ih =>
    obtain ⟨done, rest⟩ := ih (waiting pending line)
    refine ⟨completed pending line ++ done, ?_⟩
    rw [List.cons_append, joinLines_cons, rest, List.append_assoc]
    rfl

theorem paired_dropLast {s : Text} (open_ : continues s = true) : Paired s.dropLast := by
  rcases List.eq_nil_or_concat s with rfl | ⟨front, c, rfl⟩
  · exact Paired.nil
  · simp only [List.concat_eq_append, continues, decide_eq_true_eq, trailingBackslashes_append] at open_ ⊢
    split at open_
    · simp only [Paired, List.dropLast_concat]
      omega
    · cases open_

theorem paired_waiting (pending : Option Text) (line : Text) : Paired ((waiting pending line).getD []) := by
  unfold waiting
  split
  · exact Paired.nil
  · split
    · rename_i open_
      exact paired_dropLast open_
    · exact Paired.nil

theorem paired_foldl_waiting (paired : Paired (pending.getD [])) (lines : List Text) :
    Paired ((lines.foldl waiting pending).getD []) := by
  induction lines generalizing pending with
  | nil => exact paired
  | cons line rest ih => exact ih (paired_waiting pending line)

/-- Only the escapes of the line itself tell whether it continues. -/
theorem continues_continued (paired : Paired (pending.getD [])) (line : Text) :
    continues (continued pending line) = continues (trimStart line) := by
  have closed := paired_iff.mp paired
  simp only [continues_eq_endsOpen, continued, endsOpen_append, closed]

theorem isSome_waiting (paired : Paired (pending.getD [])) : (waiting pending line).isSome = true ↔
    isSkipped pending line = false ∧ trailingBackslashes (trimStart line) % 2 = 1 := by
  have own : continues (continued pending line) = true ↔ trailingBackslashes (trimStart line) % 2 = 1 := by
    rw [continues_continued paired, continues, decide_eq_true_eq]
  unfold waiting
  rw [← own]
  cases isSkipped pending line with
  | true => simp
  | false => cases continues (continued pending line) <;> simp

theorem paired_of_mem_completed {done : Text} (mem : done ∈ completed pending line) : Paired done := by
  unfold completed at mem
  split at mem
  · cases mem
  · rename_i closed
    obtain rfl := List.mem_singleton.mp mem
    simp only [Bool.or_eq_true, not_or, Bool.not_eq_true] at closed
    exact paired_iff_continues.mpr closed.2

theorem paired_of_mem_joinLines {lines : List Text} {done : Text} (paired : Paired (pending.getD []))
    (mem : done ∈ joinLines pending lines) : Paired done := by
  induction lines generalizing pending with
  | nil =>
    cases pending with
    | none => cases mem
    | some pending =>
      obtain rfl := List.mem_singleton.mp mem
      exact paired
  | cons line rest ih =>
    rw [joinLines_cons] at mem
    rcases List.mem_append.mp mem with here | later
    · exact paired_of_mem_completed here
    · exact ih (paired_waiting pending line) later

theorem paired_of_mem_logicalLines {source done : Text} (mem : done ∈ logicalLines source) : Paired done :=
  paired_of_mem_joinLines Paired.none mem

end Joining

/-! ## Splitting -/

def isSeparator (c : Char) : Bool := isAssignment c || isBlank c

/-- White space with at most one assignment sign in it. -/
def IsGap (gap : Text) : Prop :=
  ∃ left sign right, gap = left ++ (sign ++ right) ∧ left.all isBlank = true ∧ right.all isBlank = true ∧
    sign.all isAssignment = true ∧ sign.length ≤ 1

/-- The line is cut at its first separator that is not escaped, or has none, and the cut goes through no pair. -/
structure Splits (line key value : Text) : Prop where
  cut : ∃ gap, line = key ++ (gap ++ value) ∧ IsGap gap ∧ (gap = [] → value = [])
  escaped : ∀ front c back, key = front ++ c :: back → isSeparator c = true → ¬ Paired front
  key_paired : Paired key
  value_paired : Paired value

theorem splitKey_append (open_ : Bool) (line : Text) : (splitKey open_ line).1 ++ (splitKey open_ line).2 = line := by
  induction line generalizing open_ with
  | nil => rfl
  | cons c rest ih =>
    rw [splitKey]
    split
    · rfl
    · exact congrArg (c :: ·) (ih _)

/-- What is left begins with a separator that is not escaped. -/
theorem splitKey_rest {open_ : Bool} {line : Text} {c : Char} {rest : Text} (left : (splitKey open_ line).2 = c :: rest) :
    isSeparator c = true ∧ endsOpen open_ (splitKey open_ line).1 = false := by
  induction line generalizing open_ with
  | nil => cases left
  | cons d line ih =>
    rw [splitKey] at left ⊢
    split at left
    · rename_i separates
      cases left
      simp only [Bool.and_eq_true, Bool.not_eq_true'] at separates
      rw [if_pos (by simpa using separates)]
      exact ⟨separates.2, separates.1⟩
    · rename_i inside
      rw [if_neg inside]
      exact ih left

theorem splitKey_escaped {open_ : Bool} {line front back : Text} {c : Char}
    (key : (splitKey open_ line).1 = front ++ c :: back) (separates : isSeparator c = true) :
    endsOpen open_ front = true := by
  induction line generalizing open_ front with
  | nil => cases front <;> cases key
  | cons d line ih =>
    rw [splitKey] at key
    split at key
    · cases front <;> cases key
    · rename_i inside
      cases front with
      | nil =>
        obtain ⟨rfl, -⟩ := List.cons.inj key
        have both : (isAssignment d || isBlank d) = true := separates
        simpa [both, endsOpen] using inside
      | cons e front =>
        obtain ⟨rfl, rest⟩ := List.cons.inj key
        exact @ih _ front rest

theorem dropAssignment_spec (s : Text) :
    ∃ sign, s = sign ++ dropAssignment s ∧ sign.all isAssignment = true ∧ sign.length ≤ 1 ∧
      (sign = [] → ∀ c rest, dropAssignment s = c :: rest → isAssignment c = false) := by
  cases s with
  | nil => exact ⟨[], rfl, rfl, Nat.zero_le 1, fun _ _ _ none => nomatch none⟩
  | cons c rest =>
    cases assigns : isAssignment c with
    | true =>
      exact ⟨[c], by simp [dropAssignment, assigns], by simp [assigns], Nat.le_refl 1, fun none => nomatch none⟩
    | false =>
      refine ⟨[], by simp [dropAssignment, assigns], rfl, Nat.zero_le 1, fun _ d more same => ?_⟩
      simp only [dropAssignment, assigns, Bool.false_eq_true, ↓reduceIte] at same
      exact (List.cons.inj same).1 ▸ assigns

theorem trimStart_spec (s : Text) :
    ∃ blank, s = blank ++ trimStart s ∧ blank.all isBlank = true ∧ ∀ c rest, trimStart s = c :: rest → isBlank c = false := by
  refine ⟨s.takeWhile isBlank, List.takeWhile_append_dropWhile.symm, List.all_takeWhile, fun c rest same => ?_⟩
  have first := List.head?_dropWhile_not isBlank s
  have cut : s.dropWhile isBlank = c :: rest := same
  simpa only [cut, List.head?_cons] using first

/-- Between key and value nothing escapes. -/
theorem IsGap.endsOpen_eq {gap : Text} (h : IsGap gap) : endsOpen false gap = false := by
  obtain ⟨left, sign, right, rfl, blankLeft, blankRight, assigns, -⟩ := h
  have closed {p : Char → Bool} (differs : p '\\' = false) {s : Text} (all : s.all p = true) : endsOpen false s = false := by
    induction s with
    | nil => rfl
    | cons c s ih =>
      rw [List.all_cons, Bool.and_eq_true] at all
      have other : c ≠ '\\' := by
        rintro rfl
        cases differs.symm.trans all.1
      simpa [endsOpen, other] using ih all.2
  have blank : isBlank '\\' = false := by decide
  have assignment : isAssignment '\\' = false := by decide
  simp only [endsOpen_append, closed blank blankLeft, closed assignment assigns, closed blank blankRight]

theorem exists_gap (line : Text) :
    ∃ gap, line = (splitEntry line).1 ++ (gap ++ (splitEntry line).2) ∧ IsGap gap ∧ (gap = [] → (splitEntry line).2 = []) := by
  obtain ⟨left, cutLeft, blankLeft, -⟩ := trimStart_spec (splitKey false line).2
  obtain ⟨sign, cutSign, assigns, single, noSign⟩ := dropAssignment_spec (trimStart (splitKey false line).2)
  obtain ⟨right, cutRight, blankRight, solid⟩ := trimStart_spec (dropAssignment (trimStart (splitKey false line).2))
  have value : (splitEntry line).2 = trimStart (dropAssignment (trimStart (splitKey false line).2)) := rfl
  rw [← value] at cutRight solid
  have rest : (splitKey false line).2 = left ++ (sign ++ right) ++ (splitEntry line).2 := by
    rw [List.append_assoc, List.append_assoc, ← cutRight, ← cutSign, ← cutLeft]
  refine ⟨left ++ (sign ++ right), ?_, ⟨left, sign, right, rfl, blankLeft, blankRight, assigns, single⟩, ?_⟩
  · rw [← rest]
    exact (splitKey_append false line).symm
  · intro none
    cases found : (splitEntry line).2 with
    | nil => rfl
    | cons c more =>
      -- the value would begin with the separator at which the key ends
      rw [none, List.nil_append, found] at rest
      simp only [List.append_eq_nil_iff] at none
      obtain ⟨-, rfl, rfl⟩ := none
      rw [found, List.nil_append] at cutRight
      have separates := (splitKey_rest rest).1
      simp [isSeparator, noSign rfl c more cutRight, solid c more found] at separates

/-- A line without an open backslash at its end is split without breaking a pair. -/
theorem splits_splitEntry {line : Text} (paired : Paired line) : Splits line (splitEntry line).1 (splitEntry line).2 := by
  obtain ⟨gap, cut, isGap, last⟩ := exists_gap line
  have key : endsOpen false (splitEntry line).1 = false := by
    cases left : (splitKey false line).2 with
    | nil =>
      have whole := splitKey_append false line
      rw [left, List.append_nil] at whole
      have same : (splitEntry line).1 = line := whole
      rw [same]
      exact paired_iff.mp paired
    | cons c rest => exact (splitKey_rest left).2
  have value : endsOpen false (splitEntry line).2 = false := by
    have whole := paired_iff.mp paired
    rw [cut, endsOpen_append, key, endsOpen_append, isGap.endsOpen_eq] at whole
    exact whole
  refine ⟨⟨gap, cut, isGap, last⟩, ?_, paired_iff.mpr key, paired_iff.mpr value⟩
  intro front c back found separates closed
  have open_ : endsOpen false front = true := splitKey_escaped found separates
  exact absurd (paired_iff.mp closed) (by simp [open_])

/-! ## Reading -/

theorem Names.ordinary {a b c d character : Char} (h : Names a b c d character) :
    a ≠ '\\' ∧ b ≠ '\\' ∧ c ≠ '\\' ∧ d ≠ '\\' := by
  rcases h with name | ⟨rfl, name⟩
  · exact name.ordinary
  · obtain ⟨-, others⟩ := name.ordinary
    exact ⟨by decide, others⟩

/-- A step leaves the end of the text as it is, unless it is the one that ends at an open backslash. -/
theorem Step.endsOpen_eq {text given rest : Text} (h : Step Names text given rest) (more : text ≠ ['\\']) :
    endsOpen false rest = endsOpen false text := by
  cases h with
  | plain ordinary => simp [endsOpen, ordinary]
  | final => exact absurd rfl more
  | pair stands => simp [endsOpen]
  | named name =>
    obtain ⟨a, b, c, d⟩ := name.ordinary
    simp [endsOpen, a, b, c, d]
  | unnamed none => simp [endsOpen]

theorem Paired.ne_backslash {text : Text} (paired : Paired text) : text ≠ ['\\'] := by
  rintro rfl
  exact absurd paired (by decide)

theorem Step.paired_iff {text given rest : Text} (h : Step Names text given rest) (more : text ≠ ['\\']) :
    Paired rest ↔ Paired text := by
  simp only [Properties.paired_iff, h.endsOpen_eq more]

theorem Passes.not_paired {text later : Text} (passes : Passes Names text later) (alone : later = ['\\']) : ¬ Paired text := by
  induction passes with
  | here text => exact fun paired => paired.ne_backslash alone
  | step first more ih =>
    intro paired
    exact ih alone ((first.paired_iff paired.ne_backslash).mpr paired)

theorem passes_of_not_paired {text : Text} (odd : ¬ Paired text) : Passes Names text ['\\'] := by
  match text with
  | [] => exact absurd Paired.nil odd
  | c :: rest =>
    by_cases final : c :: rest = ['\\']
    · rw [final]
      exact .here _
    · obtain ⟨given, left, first⟩ := Step.exists_cons Names c rest
      have shorter := first.shorter
      have later : ¬ Paired left := (not_congr (first.paired_iff final)).mpr odd
      exact .step first (passes_of_not_paired later)
termination_by text.length
decreasing_by exact shorter

/-- Reading comes to a backslash with nothing behind it just in the texts that end in an open one. -/
theorem paired_iff_not_passes {text : Text} : Paired text ↔ ¬ Passes Names text ['\\'] := by
  constructor
  · intro paired passes
    exact passes.not_paired rfl paired
  · intro never
    exact Decidable.not_not.mp fun odd => never (passes_of_not_paired odd)

/-- Where pairs are whole it does not matter how a last open backslash would be read. -/
theorem Paired.read_eq {read : Text → Text} (nil : read [] = [])
    (steps : ∀ text given rest, Step Names text given rest → text ≠ ['\\'] → read text = given ++ read rest) {text : Text}
    (paired : Paired text) : read text = unescape text := by
  match text with
  | [] => exact nil
  | c :: rest =>
    have more := paired.ne_backslash
    obtain ⟨given, left, first⟩ := Step.exists_cons Names c rest
    have shorter := first.shorter
    have later : Paired left := (first.paired_iff more).mpr paired
    calc read (c :: rest)
      _ = given ++ read left := steps _ _ _ first more
      _ = given ++ unescape left := congrArg (given ++ ·) (later.read_eq nil steps)
      _ = unescape (c :: rest) := first.unescape_eq.symm
termination_by text.length
decreasing_by exact shorter

/-- The line that waits never ends in an open backslash, so a physical line continues by its own backslashes, and so do no
logical line and neither part of one. Reading the parts never ends in an escape, and a document does not depend on how that
would be read. -/
theorem escape_pairs_stay_whole (source : Text) :
    (∀ before after, lines source = before ++ after →
        (∃ done, logicalLines source = done ++ joinLines (waitingAfter before) after) ∧
        Paired ((waitingAfter before).getD []) ∧
        ∀ line more, after = line :: more →
          continues (continued (waitingAfter before) line) = continues (trimStart line) ∧
          ((waitingAfter (before ++ [line])).isSome = true ↔
            isSkipped (waitingAfter before) line = false ∧ trailingBackslashes (trimStart line) % 2 = 1)) ∧
      (∀ line ∈ logicalLines source, Paired line ∧ Splits line (splitEntry line).1 (splitEntry line).2 ∧
        ¬ Passes Names (splitEntry line).1 ['\\'] ∧ ¬ Passes Names (splitEntry line).2 ['\\']) ∧
      ∀ read : Text → Text, read [] = [] →
        (∀ text given rest, Step Names text given rest → text ≠ ['\\'] → read text = given ++ read rest) →
        parse source = .ofList (((logicalLines source).filter fun line => !line.isEmpty).map fun line =>
          (read (splitEntry line).1, read (splitEntry line).2)) := by
  refine ⟨?_, ?_, ?_⟩
  · intro before after split
    have paired : Paired ((waitingAfter before).getD []) := paired_foldl_waiting Paired.none before
    refine ⟨?_, paired, ?_⟩
    · rw [logicalLines, split]
      exact joinLines_append before after none
    · rintro line more rfl
      have next : waitingAfter (before ++ [line]) = waiting (waitingAfter before) line := List.foldl_append
      rw [next]
      exact ⟨continues_continued paired line, isSome_waiting paired⟩
  · intro line mem
    have paired := paired_of_mem_logicalLines mem
    have splits := splits_splitEntry paired
    exact ⟨paired, splits, paired_iff_not_passes.mp splits.key_paired, paired_iff_not_passes.mp splits.value_paired⟩
  · intro read nil steps
    have same : ∀ line ∈ (logicalLines source).filter fun line => !line.isEmpty,
        (unescape (splitEntry line).1, unescape (splitEntry line).2) = (read (splitEntry line).1, read (splitEntry line).2) := by
      intro line mem
      have splits := splits_splitEntry (paired_of_mem_logicalLines (List.mem_filter.mp mem).1)
      rw [splits.key_paired.read_eq nil steps, splits.value_paired.read_eq nil steps]
    exact congrArg OrderedMap.ofList (List.map_congr_left same)

/-- The entry stands on three lines, the second of which has nothing but backslashes. -/
def brokenSource : Text := "a\\=\\\\\\\n  \\\\\\\n:b\\\\".toList

/-- A reader that reports an open backslash at the end. -/
def flagged (text : Text) : Text := unescape text ++ if Paired text then [] else ['!']

theorem Step.flagged_eq {text given rest : Text} (h : Step Names text given rest) (more : text ≠ ['\\']) :
    flagged text = given ++ flagged rest := by
  simp only [flagged, h.unescape_eq, h.paired_iff more, List.append_assoc]

theorem escape_pairs_stay_whole_broken :
    lines brokenSource = ["a\\=\\\\\\".toList] ++ ["  \\\\\\".toList, ":b\\\\".toList] ∧
      waitingAfter ["a\\=\\\\\\".toList] = some "a\\=\\\\".toList ∧
      Paired ((waitingAfter ["a\\=\\\\\\".toList]).getD []) ∧
      (waitingAfter (["a\\=\\\\\\".toList] ++ ["  \\\\\\".toList])).isSome = true ∧
      logicalLines brokenSource = ["a\\=\\\\\\\\:b\\\\".toList] ∧
      splitEntry "a\\=\\\\\\\\:b\\\\".toList = ("a\\=\\\\\\\\".toList, "b\\\\".toList) ∧
      Splits "a\\=\\\\\\\\:b\\\\".toList "a\\=\\\\\\\\".toList "b\\\\".toList ∧
      ¬ Passes Names "a\\=\\\\\\\\".toList ['\\'] ∧ ¬ Passes Names "b\\\\".toList ['\\'] ∧
      flagged ['\\'] ≠ unescape ['\\'] ∧
      parse brokenSource = .ofList (((logicalLines brokenSource).filter fun line => !line.isEmpty).map fun line =>
        (flagged (splitEntry line).1, flagged (splitEntry line).2)) := by
  obtain ⟨joins, parts, reads⟩ := escape_pairs_stay_whole brokenSource
  have split : lines brokenSource = ["a\\=\\\\\\".toList] ++ ["  \\\\\\".toList, ":b\\\\".toList] := by decide
  have logical : logicalLines brokenSource = ["a\\=\\\\\\\\:b\\\\".toList] := by decide
  have entry : splitEntry "a\\=\\\\\\\\:b\\\\".toList = ("a\\=\\\\\\\\".toList, "b\\\\".toList) := by decide
  obtain ⟨-, paired, next⟩ := joins _ _ split
  obtain ⟨-, splits, key, value⟩ := parts _ (logical ▸ List.mem_cons_self)
  rw [entry] at splits key value
  have read := reads flagged (by decide) fun _ _ _ first more => first.flagged_eq more
  exact ⟨split, by decide, paired, (next _ _ rfl).2.mpr (by decide), logical, entry, splits, key, value, by decide, read⟩

end PatternPages.Properties
