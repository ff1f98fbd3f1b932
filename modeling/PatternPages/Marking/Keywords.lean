import PatternPages.Marking.Splice
import PatternPages.Text.Lines

/-! Keyword marks. The line is cut at single spaces, and each piece that trims to a keyword has its first occurrence outside
the marks tagged. That occurrence may be part of a longer word. -/
namespace PatternPages.Marking

def keywords : List Text :=
  ["False", "None", "True", "and", "as", "assert", "async", "await", "break", "class", "continue", "def", "del",
    "elif", "else", "except", "finally", "for", "from", "global", "if", "import", "in", "is", "lambda",
    "nonlocal", "not", "or", "pass", "raise", "return", "try", "while", "with", "yield"].map String.toList

/-- The pieces of a line that are keywords but for white space around them. -/
def keywordTokens (line : Text) : List Text :=
  (Text.splitAt ' ' line).filter fun token => keywords.contains (Text.trim token)

/-- Positions from `start` up to but not including `stop`. -/
structure Range where
  start : Nat
  stop : Nat
  deriving DecidableEq

structure Scan where
  position : Nat
  depth : Nat
  start : Nat
  inClosingTag : Bool

/-- The stretches from an outermost opening tag through its closing tag. -/
def markedRangesFrom (d : Delimiters) (scan : Scan) : Text → List Range
  | [] => []
  | c :: rest =>
    let next := { scan with position := scan.position + 1 }
    if c = d.opening then
      if rest.head? = some '/' then
        markedRangesFrom d { next with inClosingTag := true } rest
      else
        let start := if scan.depth = 0 then scan.position else scan.start
        markedRangesFrom d
          { next with depth := scan.depth + 1, start := start, inClosingTag := false } rest
    else if c = d.closing && scan.inClosingTag then
      let inner := { next with depth := scan.depth - 1, inClosingTag := false }
      if inner.depth = 0 then ⟨scan.start, scan.position + 1⟩ :: markedRangesFrom d inner rest
      else markedRangesFrom d inner rest
    else markedRangesFrom d next rest

def markedRanges (d : Delimiters) (line : Text) : List Range :=
  markedRangesFrom d ⟨0, 0, 0, false⟩ line

/-- The positions where `token` occurs, from the left, none inside the one before; `skip` characters belong to the last. -/
def occurrencesFrom (token : Text) (skip position : Nat) : Text → List Nat
  | [] => []
  | c :: rest =>
    match skip with
    | skip + 1 => occurrencesFrom token skip (position + 1) rest
    | 0 =>
      if token.isPrefixOf (c :: rest) then
        position :: occurrencesFrom token (token.length - 1) (position + 1) rest
      else occurrencesFrom token 0 (position + 1) rest

def occurrences (token line : Text) : List Nat := occurrencesFrom token 0 0 line

theorem le_of_mem_occurrencesFrom {token line : Text} {skip position found : Nat}
    (h : found ∈ occurrencesFrom token skip position line) : position ≤ found := by
  fun_induction occurrencesFrom token skip position line with
  | case1 => simp at h
  | case2 position _ _ skip ih => exact Nat.le_of_succ_le (ih h)
  | case3 position _ _ _ ih =>
    rcases List.mem_cons.1 h with rfl | h
    · exact Nat.le_refl _
    · exact Nat.le_of_succ_le (ih h)
  | case4 position _ _ _ ih => exact Nat.le_of_succ_le (ih h)

theorem pairwise_occurrences (token line : Text) : (occurrences token line).Pairwise (· < ·) := by
  suffices general : ∀ skip position, (occurrencesFrom token skip position line).Pairwise (· < ·) from
    general 0 0
  intro skip position
  fun_induction occurrencesFrom token skip position line with
  | case1 => exact .nil
  | case2 _ _ _ _ ih => exact ih
  | case3 _ _ _ _ ih => exact .cons (fun _ h => le_of_mem_occurrencesFrom h) ih
  | case4 _ _ _ _ ih => exact ih

/-- The range shares a character with the `width` characters from `position`. -/
def Range.touches (width position : Nat) (range : Range) : Bool :=
  position < range.stop && range.start < position + width

/-- The first of ascending positions where `width` characters touch no range. Ranges at the head that end before a position
are passed over for good. -/
def firstFree (width : Nat) (ranges : List Range) : List Nat → Option Nat
  | [] => none
  | position :: rest =>
    let ranges := ranges.dropWhile (·.stop ≤ position)
    if ranges.any (Range.touches width position) then firstFree width ranges rest else some position

theorem any_touches_dropWhile {width position later : Nat} (h : position ≤ later) (ranges : List Range) :
    (ranges.dropWhile (·.stop ≤ position)).any (Range.touches width later) =
      ranges.any (Range.touches width later) := by
  induction ranges with
  | nil => rfl
  | cons range ranges ih =>
    by_cases passed : range.stop ≤ position
    · have apart : range.touches width later = false := by
        simp [Range.touches, Nat.not_lt.2 (Nat.le_trans passed h)]
      rw [List.dropWhile_cons_of_pos (by simpa using passed), ih, List.any_cons, apart, Bool.false_or]
    · rw [List.dropWhile_cons_of_neg (by simpa using passed)]

theorem firstFree_eq_find? {positions : List Nat} (h : positions.Pairwise (· < ·)) (width : Nat)
    (ranges : List Range) :
    firstFree width ranges positions =
      positions.find? fun position => !ranges.any (Range.touches width position) := by
  suffices general : ∀ kept : List Range,
      (∀ position ∈ positions,
        kept.any (Range.touches width position) = ranges.any (Range.touches width position)) →
      firstFree width kept positions =
        positions.find? fun position => !ranges.any (Range.touches width position) from
    general ranges fun _ _ => rfl
  induction positions with
  | nil => intro _ _; rfl
  | cons position rest ih =>
    intro kept same
    obtain ⟨before, ascending⟩ := List.pairwise_cons.1 h
    have passed := ih ascending (kept.dropWhile (·.stop ≤ position)) fun later mem =>
      (any_touches_dropWhile (Nat.le_of_lt (before later mem)) kept).trans
        (same later (List.mem_cons_of_mem position mem))
    rw [firstFree, any_touches_dropWhile (Nat.le_refl _), same position List.mem_cons_self,
      List.find?_cons]
    cases ranges.any (Range.touches width position) with
    | true => exact passed
    | false => rfl

def findUnmarked (d : Delimiters) (line token : Text) : Option Nat :=
  firstFree token.length (markedRanges d line) (occurrences token line)

theorem findUnmarked_eq_find? (d : Delimiters) (line token : Text) :
    findUnmarked d line token = (occurrences token line).find? fun position =>
      !(markedRanges d line).any (Range.touches token.length position) :=
  firstFree_eq_find? (pairwise_occurrences token line) _ _

def markKeyword (d : Delimiters) (line token : Text) : Text :=
  match findUnmarked d line token with
  | none => line
  | some position =>
    let behind := line.drop (position + token.length)
    line.take position ++ (d.tagged .keyword token ++ behind)

def markKeywords (d : Delimiters) (line : Text) : Text :=
  (keywordTokens line).foldl (markKeyword d) line

end PatternPages.Marking
