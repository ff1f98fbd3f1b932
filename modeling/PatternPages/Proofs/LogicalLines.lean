import Mathlib.Data.List.Induction
import PatternPages.Properties

/-! How physical lines are joined. Whether a line continues is a matter of its escapes, read from the left; white space at the
beginning of a line and the kind of its end do not matter. -/
namespace PatternPages

namespace Text

/-- White space inside of a line. -/
def isPadding (s : Text) : Bool := s.all fun c => isBlank c && c != '\n'

def lineEnds : List Text := [['\n'], ['\r', '\n']]

/-! ## Lines -/

/-- A line without the carriage return that belongs to its end. -/
def dropReturn : Text → Text
  | [] => []
  | c :: rest => if c = '\r' ∧ rest = [] then [] else c :: dropReturn rest

theorem dropReturn_append_return (s : Text) : dropReturn (s ++ ['\r']) = s := by
  induction s with
  | nil => rfl
  | cons c rest ih =>
    rw [List.cons_append, dropReturn, if_neg (by simp), ih]

theorem dropReturn_eq_or (s : Text) : dropReturn s = s ∨ s = dropReturn s ++ ['\r'] := by
  induction s with
  | nil => exact .inl rfl
  | cons c rest ih =>
    rw [dropReturn]
    split
    · rename_i single
      obtain ⟨rfl, rfl⟩ := single
      exact .inr rfl
    · rcases ih with same | dropped
      · exact .inl (congrArg (c :: ·) same)
      · exact .inr (congrArg (c :: ·) dropped)

theorem lines_append_newline {s : Text} (inside : '\n' ∉ s) (rest : Text) :
    lines (s ++ '\n' :: rest) = dropReturn s :: lines rest := by
  induction s with
  | nil => rw [List.nil_append, lines, dropReturn]
  | cons c s ih =>
    rw [List.mem_cons, not_or] at inside
    rw [List.cons_append, dropReturn]
    split
    · rename_i single
      obtain ⟨rfl, rfl⟩ := single
      rfl
    · rename_i notSingle
      rw [lines, ih inside.2]
      · exact inside.1 ∘ Eq.symm
      · rintro next rfl next'
        cases s with
        | nil => exact notSingle ⟨rfl, rfl⟩
        | cons d s =>
          obtain rfl := (List.cons.inj next').1
          exact inside.2 List.mem_cons_self

theorem trimStart_of_head {s : Text} (head : ∀ c, s.head? = some c → isBlank c = false) : trimStart s = s := by
  cases s with
  | nil => rfl
  | cons c rest => exact List.dropWhile_cons_of_neg (by simp [head c rfl])

theorem trimStart_append {padding : Text} (blank : ∀ c ∈ padding, isBlank c = true) (s : Text) :
    trimStart (padding ++ s) = trimStart s :=
  List.dropWhile_append_of_pos blank

theorem not_newline_of_isPadding {s : Text} (padding : isPadding s = true) : '\n' ∉ s := by
  intro mem
  have both := List.all_eq_true.1 padding '\n' mem
  simp at both

theorem blank_of_isPadding {s : Text} (padding : isPadding s = true) : ∀ c ∈ s, isBlank c = true := by
  intro c mem
  have both := List.all_eq_true.1 padding c mem
  rw [Bool.and_eq_true] at both
  exact both.1

/-- A line of a text, whatever its end, has at most lost a carriage return. -/
theorem lines_append_lineEnd {s lineEnd : Text} (inside : '\n' ∉ s) (ends : lineEnd ∈ lineEnds) (rest : Text) :
    ∃ line, lines (s ++ lineEnd ++ rest) = line :: lines rest ∧ (line = s ∨ s = line ++ ['\r']) := by
  simp only [lineEnds, List.mem_cons, List.not_mem_nil, or_false] at ends
  rcases ends with rfl | rfl
  · refine ⟨dropReturn s, ?_, dropReturn_eq_or s⟩
    rw [List.append_assoc]
    exact lines_append_newline inside rest
  · refine ⟨s, ?_, .inl rfl⟩
    have inside' : '\n' ∉ s ++ ['\r'] := by simpa using inside
    have split : s ++ ['\r', '\n'] ++ rest = s ++ ['\r'] ++ '\n' :: rest := by simp
    rw [split, lines_append_newline inside', dropReturn_append_return]

/-- White space in front of a line makes no other difference than in that line. -/
theorem lines_cons_blank {c : Char} (blank : isBlank c = true) (s : Text) :
    (lines (c :: s)).map trimStart = (lines s).map trimStart ∨
      (lines (c :: s)).map trimStart = [] :: (lines s).map trimStart := by
  by_cases newline : c = '\n'
  · subst newline
    exact .inr (by rw [lines]; rfl)
  · by_cases crlf : c = '\r' ∧ s.head? = some '\n'
    · obtain ⟨rfl, head⟩ := crlf
      obtain ⟨rest, rfl⟩ := List.head?_eq_some_iff.1 head
      exact .inl rfl
    · have first : lines (c :: s) = (c :: (lines s).headD []) :: (lines s).tail := by
        rw [lines]
        · cases lines s <;> rfl
        · exact newline
        · rintro rest rfl rfl
          exact crlf ⟨rfl, rfl⟩
      have dropped (line : Text) : trimStart (c :: line) = trimStart line := List.dropWhile_cons_of_pos blank
      rw [first, List.map_cons, dropped]
      cases lines s with
      | nil => exact .inr rfl
      | cons line more => exact .inl rfl

end Text

namespace Properties

open Text (isBlank isPadding lineEnds trimStart lines)

/-! ## Escapes from the left -/

/-- A backslash stands open at the end of the text, if `open_` says whether one does at its beginning. -/
def endsOpen (open_ : Bool) : Text → Bool
  | [] => open_
  | c :: rest => endsOpen (!open_ && c = '\\') rest

theorem endsOpen_append (open_ : Bool) (s t : Text) : endsOpen open_ (s ++ t) = endsOpen (endsOpen open_ s) t := by
  induction s generalizing open_ with
  | nil => rfl
  | cons c rest ih => exact ih _

theorem trailingBackslashes_append (s : Text) (c : Char) :
    trailingBackslashes (s ++ [c]) = if c = '\\' then trailingBackslashes s + 1 else 0 := by
  unfold trailingBackslashes
  rw [List.reverse_append, List.reverse_singleton, List.singleton_append, List.takeWhile_cons]
  by_cases backslash : c = '\\' <;> simp [backslash]

/-- An odd number of backslashes at the end is the same as an open one. -/
theorem continues_eq_endsOpen (s : Text) : continues s = endsOpen false s := by
  -- the end is counted from the right, so the induction takes characters away there
  induction s using List.reverseRecOn with
  | nil => rfl
  | append_singleton s c ih =>
    rw [endsOpen_append, ← ih, continues, continues, trailingBackslashes_append, endsOpen, endsOpen]
    by_cases backslash : c = '\\'
    · simp only [backslash, ↓reduceIte, decide_true, Bool.and_true]
      rw [Bool.eq_iff_iff]
      simp only [decide_eq_true_eq, Bool.not_eq_true', decide_eq_false_iff_not]
      omega
    · simp [backslash]

/-! ## Joining -/

theorem joinLines_congr {lines lines' : List Text} (same : lines.map trimStart = lines'.map trimStart) (pending : Option Text) :
    joinLines pending lines = joinLines pending lines' := by
  induction lines generalizing lines' pending with
  | nil =>
    cases lines' with
    | nil => rfl
    | cons _ _ => cases same
  | cons line rest ih =>
    cases lines' with
    | nil => cases same
    | cons line' rest' =>
      obtain ⟨first, others⟩ := List.cons.inj same
      cases pending with
      | none => simp only [joinLines, first, ih others]
      | some pending => simp only [joinLines, first, ih others]

theorem joinLines_comment {line : Text} (comment : isComment (trimStart line) = true) (rest : List Text) :
    joinLines none (line :: rest) = joinLines none rest := by
  rw [joinLines]
  exact if_pos comment

theorem joinLines_closed {pending : Option Text} {line : Text}
    (entry : pending = none → isComment (trimStart line) = false)
    (closed : continues (pending.getD [] ++ trimStart line) = false) (rest : List Text) :
    joinLines pending (line :: rest) = (pending.getD [] ++ trimStart line) :: joinLines none rest := by
  cases pending with
  | none =>
    rw [joinLines]
    simp only [Option.getD_none, List.nil_append] at closed
    simp [entry rfl, closed]
  | some pending =>
    rw [joinLines]
    simp only [Option.getD_some] at closed
    simp [closed]

/-- A line that ends in an open backslash waits for the next one. -/
theorem joinLines_open {pending : Option Text} {line front : Text}
    (entry : pending = none → isComment (trimStart line) = false)
    (last : pending.getD [] ++ trimStart line = front ++ ['\\']) (open_ : continues (front ++ ['\\']) = true)
    (rest : List Text) : joinLines pending (line :: rest) = joinLines (some front) rest := by
  cases pending with
  | none =>
    rw [joinLines]
    simp only [Option.getD_none, List.nil_append] at last
    have entry := entry rfl
    rw [last] at entry
    simp [entry, last, open_]
  | some pending =>
    rw [joinLines]
    simp only [Option.getD_some] at last
    simp [last, open_]

/-- The logical lines that are entries. -/
def entryLines (source : Text) : List Text := (logicalLines source).filter fun line => !line.isEmpty

/-- White space in front of a document, such as blank lines, makes no difference. -/
theorem entryLines_cons_blank {c : Char} (blank : isBlank c = true) (source : Text) :
    entryLines (c :: source) = entryLines source := by
  unfold entryLines logicalLines
  rcases Text.lines_cons_blank blank source with same | first
  · rw [joinLines_congr same]
  · have same : (lines (c :: source)).map trimStart = ([] :: lines source).map trimStart := first
    rw [joinLines_congr same]
    rfl

end Properties

end PatternPages
