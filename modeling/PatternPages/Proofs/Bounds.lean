import Mathlib.Algebra.Group.Int.Defs
import Mathlib.Algebra.Group.Nat.Defs
import PatternPages.Proofs.IndexMarks

/-! Located marks lie in the source, whatever extents the nodes have. The columns of a node are subtracted only after they
have passed the check of its line, so signed arithmetic never overflows there. -/
namespace PatternPages

open Marking (Mark Span Index)

namespace Text

theorem length_trimEnd_le (s : Text) : (trimEnd s).length ≤ s.length := by
  unfold trimEnd
  rw [List.length_reverse]
  have le := (List.dropWhile_sublist isBlank (l := s.reverse)).length_le
  rwa [List.length_reverse] at le

theorem length_trim_le (s : Text) : (trim s).length ≤ s.length :=
  Nat.le_trans (length_trimEnd_le (trimStart s)) (List.dropWhile_sublist isBlank).length_le

end Text

/-! ## The lines and columns of a mark -/

namespace Site

variable (site : Site)

/-- The line is in the source, and the columns of the mark are in the line. -/
def Inside (line : Nat) (mark : Mark) : Prop :=
  1 ≤ line ∧ ∃ text, site.lines[line - 1]? = some text ∧ ∀ s, mark = .span s → s.Fits text.length

variable {site}

theorem Inside.le_length {line : Nat} {mark : Mark} (h : site.Inside line mark) : line ≤ site.lines.length := by
  obtain ⟨_, text, found, _⟩ := h
  have := (List.getElem?_eq_some_iff.1 found).1
  omega

theorem inside_of_mem_lineMarks {first last line : Nat} {mark : Mark} (mem : (line, mark) ∈ site.lineMarks first last) :
    site.Inside line mark := by
  unfold lineMarks at mem
  by_cases zero : first = 0
  · simp [zero] at mem
  · rw [if_neg zero] at mem
    obtain ⟨l, hl, eq⟩ := List.mem_map.1 mem
    cases eq
    have range := List.mem_range'_1.1 hl
    have inside : line - 1 < site.lines.length := by omega
    refine ⟨by omega, site.lines[line - 1], List.getElem?_eq_getElem inside, ?_⟩
    intro s eq
    cases eq

/-- A span that is marked has passed the check of its columns. -/
theorem inside_of_mem_spanMarks {extent : Extent} {span : Span} {line : Nat} {mark : Mark}
    (mem : (line, mark) ∈ site.spanMarks extent span) : site.Inside line mark := by
  unfold spanMarks at mem
  split at mem
  · cases mem
  · rename_i counted
    cases found : site.lines[extent.line - 1]? with
    | none => simp [found] at mem
    | some text =>
      simp only [found] at mem
      split at mem
      · cases mem
      · rename_i columns
        have fits : span.Fits text.length := by
          simp only [Bool.or_eq_true, decide_eq_true_eq, not_or, UInt64.not_lt, Nat.not_lt] at columns
          obtain ⟨⟨positive, ordered⟩, short⟩ := columns
          have start : span.start.toNat ≠ 0 := fun zero => positive (UInt64.toNat_inj.1 zero)
          exact ⟨Nat.pos_of_ne_zero start, UInt64.le_iff_toNat_le.1 ordered, short⟩
        have here : line = extent.line := by
          split at mem <;> exact congrArg Prod.fst (List.mem_singleton.1 mem)
        subst here
        refine ⟨Nat.pos_of_ne_zero counted, text, found, ?_⟩
        rintro s rfl
        split at mem
        · cases List.mem_singleton.1 mem
        · cases List.mem_singleton.1 mem
          exact fits

theorem inside_of_mem_locationMarks {location : Location} {line : Nat} {mark : Mark}
    (mem : (line, mark) ∈ site.locationMarks location) : site.Inside line mark := by
  cases location with
  | lines first last => exact inside_of_mem_lineMarks mem
  | token extent text => exact inside_of_mem_spanMarks mem
  | dummy extent text => exact inside_of_mem_spanMarks mem
  | nothing => cases mem

theorem inside_of_mem_contribution {id line : Nat} {mark : Mark} (mem : (line, mark) ∈ site.contribution id) :
    site.Inside line mark := by
  unfold contribution at mem
  split at mem
  · cases mem
  · split at mem
    · cases mem
    · exact inside_of_mem_locationMarks mem

theorem inside_of_holds {ids : List Nat} {line : Nat} {mark : Mark} (h : (site.locateNodes ids).Holds line mark) :
    site.Inside line mark := by
  obtain ⟨id, _, mem⟩ := (site.holds_locateNodes ids line mark).1 h
  exact inside_of_mem_contribution mem

/-- The marks of a line in the index of some nodes. -/
theorem fits_of_get?_locateNodes {ids : List Nat} {line : Nat} {marks : Marking.LineMarks}
    (found : (site.locateNodes ids).get? line = some marks) :
    1 ≤ line ∧ line ≤ site.lines.length ∧
      ∃ text, site.lines[line - 1]? = some text ∧ ∀ s ∈ marks.spans.keys, s.Fits text.length := by
  obtain ⟨mark, holds⟩ := site.marked_locateNodes ids line marks found
  have inside : site.Inside line mark := inside_of_holds ⟨marks, found, holds⟩
  have last := inside.le_length
  obtain ⟨positive, text, here, _⟩ := inside
  refine ⟨positive, last, text, here, ?_⟩
  intro s hs
  have span : (site.locateNodes ids).Holds line (.span s) := ⟨marks, found, hs⟩
  obtain ⟨_, same, at_line, fits⟩ := inside_of_holds span
  rw [here] at at_line
  cases at_line
  exact fits s rfl

theorem length_lineMarks_le (first last : Nat) : (site.lineMarks first last).length ≤ site.lines.length := by
  unfold lineMarks
  split
  · exact Nat.zero_le _
  · rw [List.length_map, List.length_range']
    omega

end Site

/-! ## Signed arithmetic -/

/-- The difference of two signed words, if it is one. -/
def checkedDifference (a b : Int64) : Option Int64 :=
  if -2 ^ 63 ≤ a.toInt - b.toInt ∧ a.toInt - b.toInt < 2 ^ 63 then some (a - b) else none

theorem checkedDifference_of_nonneg {a b : Int64} (ha : 0 ≤ a.toInt) (hb : 0 ≤ b.toInt) :
    checkedDifference a b = some (a - b) := by
  have below := a.toInt_lt
  have below' := b.toInt_lt
  unfold checkedDifference
  rw [if_pos]
  omega

theorem toInt_toInt64_nonneg {column : UInt64} (small : column.toNat < 2 ^ 63) : 0 ≤ column.toInt64.toInt := by
  have value : column.toInt64.toInt = column.toNat := BitVec.toInt_eq_toNat_of_lt (by show 2 * column.toNat < _; omega)
  omega

namespace Extent

def checkedWidth (e : Extent) : Option Int64 := checkedDifference e.lastColumn.toInt64 e.column.toInt64

theorem checkedWidth_eq {e : Extent} (column : e.column.toNat < 2 ^ 63) (lastColumn : e.lastColumn.toNat < 2 ^ 63) :
    e.checkedWidth = some e.width :=
  checkedDifference_of_nonneg (toInt_toInt64_nonneg lastColumn) (toInt_toInt64_nonneg column)

/-- Columns that are in no line may differ by more than a word. -/
example : checkedWidth ⟨1, 1, 2 ^ 63, 1⟩ = none := by decide +kernel

end Extent

namespace Site

/-- The marks of a span, where an overflow of signed arithmetic is an error. -/
def checkedSpanMarks (site : Site) (extent : Extent) (span : Span) : Option (List (Nat × Mark)) :=
  if extent.line = 0 then some []
  else
    match site.lines[extent.line - 1]? with
    | none => some []
    | some line =>
      if span.start = 0 || span.stop < span.start || line.length < span.stop.toNat then some []
      else do
        let width ← extent.checkedWidth
        let shorter ← checkedDifference (Int64.ofNat (Text.trim line).length) 1
        if width = shorter then some [(extent.line, .wholeLine)] else some [(extent.line, .span span)]

def checkedLocationMarks (site : Site) : Location → Option (List (Nat × Mark))
  | .lines first last => some (site.lineMarks first last)
  | .token extent text => site.checkedSpanMarks extent ⟨extent.column, extent.lastColumn, .token, text⟩
  | .dummy extent text => site.checkedSpanMarks extent ⟨extent.column, extent.lastColumn, .dummy, text⟩
  | .nothing => some []

def checkedContribution (site : Site) (id : Nat) : Option (List (Nat × Mark)) :=
  match site.tree.get? id with
  | none => some []
  | some node =>
    match site.classify node with
    | .error _ => some []
    | .ok location => site.checkedLocationMarks location

def checkedLocateNode (site : Site) (index : Index) (id : Nat) : Option Index := do
  let entries ← site.checkedContribution id
  return entries.foldl (fun index entry => index.insert entry.1 entry.2) index

end Site

/-- The index of a match, unless a signed subtraction overflows on the way. -/
def checkedLocate (tree : SourceTree) (lines : List Text) (ids : List Nat) : Option Index :=
  ids.foldlM (Site.mk tree lines ids).checkedLocateNode OrderedMap.empty

namespace Site

variable {site : Site}

theorem checkedSpanMarks_eq (short : ∀ line ∈ site.lines, line.length < 2 ^ 63) (extent : Extent) (kind : Marking.SpanKind)
    (text : Text) :
    site.checkedSpanMarks extent ⟨extent.column, extent.lastColumn, kind, text⟩ =
      some (site.spanMarks extent ⟨extent.column, extent.lastColumn, kind, text⟩) := by
  unfold checkedSpanMarks spanMarks
  split
  · rfl
  · cases found : site.lines[extent.line - 1]? with
    | none => rfl
    | some line =>
      dsimp only
      split
      · rfl
      · rename_i columns
        simp only [Bool.or_eq_true, decide_eq_true_eq, not_or, UInt64.not_lt, Nat.not_lt] at columns
        obtain ⟨⟨_, ordered⟩, inLine⟩ := columns
        have bound := short line (List.mem_of_getElem? found)
        have le := UInt64.le_iff_toNat_le.1 ordered
        have width : extent.checkedWidth = some extent.width := Extent.checkedWidth_eq (by omega) (by omega)
        have trimmed := Text.length_trim_le line
        have shorter : checkedDifference (Int64.ofNat (Text.trim line).length) 1 =
            some (Int64.ofNat (Text.trim line).length - 1) := by
          apply checkedDifference_of_nonneg
          · rw [Int64.toInt_ofNat_of_lt (by omega)]
            omega
          · decide
        rw [width, shorter]
        exact (apply_ite some _ _ _).symm

theorem checkedLocationMarks_eq (short : ∀ line ∈ site.lines, line.length < 2 ^ 63) (location : Location) :
    site.checkedLocationMarks location = some (site.locationMarks location) := by
  cases location with
  | lines first last => rfl
  | token extent text => exact checkedSpanMarks_eq short extent .token text
  | dummy extent text => exact checkedSpanMarks_eq short extent .dummy text
  | nothing => rfl

theorem checkedContribution_eq (short : ∀ line ∈ site.lines, line.length < 2 ^ 63) (id : Nat) :
    site.checkedContribution id = some (site.contribution id) := by
  unfold checkedContribution contribution
  cases site.tree.get? id with
  | none => rfl
  | some node =>
    dsimp only
    cases site.classify node with
    | error e => rfl
    | ok location => exact checkedLocationMarks_eq short location

end Site

theorem checkedLocate_eq {lines : List Text} (short : ∀ line ∈ lines, line.length < 2 ^ 63) (tree : SourceTree)
    (ids : List Nat) : checkedLocate tree lines ids = some (locate tree lines ids) := by
  have step : (Site.mk tree lines ids).checkedLocateNode =
      fun index id => pure ((Site.mk tree lines ids).locateNode index id) := by
    funext index id
    unfold Site.checkedLocateNode
    rw [Site.checkedContribution_eq short]
    rfl
  unfold checkedLocate
  rw [step, List.foldlM_pure]
  rfl

/-- The entries of the index of a match are lines of the source and columns of these lines. With lines that signed words
can count, no subtraction overflows, and no range of lines gives more marks than the source has lines. -/
theorem locate_stays_inside (tree : SourceTree) (lines : List Text) (ids : List Nat) :
    (∀ entry ∈ (locate tree lines ids).toList, 1 ≤ entry.1 ∧ entry.1 ≤ lines.length ∧
        ∃ line, lines[entry.1 - 1]? = some line ∧ ∀ s ∈ entry.2.spans.keys,
          1 ≤ s.start.toNat ∧ s.start.toNat ≤ s.stop.toNat ∧ s.stop.toNat ≤ line.length) ∧
      ((∀ line ∈ lines, line.length < 2 ^ 63) → checkedLocate tree lines ids = some (locate tree lines ids)) ∧
      ∀ first last, ((Site.mk tree lines ids).lineMarks first last).length ≤ lines.length := by
  refine ⟨?_, ?_, ?_⟩
  · rintro ⟨number, marks⟩ mem
    exact Site.fits_of_get?_locateNodes ((OrderedMap.get?_eq_some_iff _ number marks).2 mem)
  · intro short
    exact checkedLocate_eq short tree ids
  · exact Site.length_lineMarks_le

/-- Leaves in and out of the source: columns behind the line, a last line behind the source, lines in reverse order and a
line before the first. -/
def strayTree : SourceTree :=
  let leaf (id : Nat) (line lastLine column lastColumn : String) : SourceTree.Node :=
    { name := "name".toList
      id := some id
      extent := ⟨some line.toList, some lastLine.toList, some column.toList, some lastColumn.toList⟩
      children := [.text "ab".toList] }
  ⟨#[leaf 1 "1" "1" "1" "2", leaf 2 "1" "1" "3" "18446744073709551615", leaf 3 "2" "18446744073709551615" "0" "0",
    leaf 4 "3" "2" "1" "1", leaf 5 "0" "0" "1" "1"]⟩

def strayLines : List Text := ["ab = 1".toList, []]

theorem locate_stays_inside_stray :
    (∀ line ∈ strayLines, line.length < 2 ^ 63) ∧
      checkedLocate strayTree strayLines [1, 2, 3, 4, 5, 6] = some (locate strayTree strayLines [1, 2, 3, 4, 5, 6]) ∧
      (locate strayTree strayLines [1, 2, 3, 4, 5, 6]).keys = [1, 2] :=
  ⟨by decide, (locate_stays_inside strayTree strayLines [1, 2, 3, 4, 5, 6]).2.1 (by decide), by decide⟩

end PatternPages
