import PatternPages.Html.Escape
import PatternPages.Marking.Delimiters
import PatternPages.Marking.Mark

/-! Spans spliced into a line. A splice puts a tag on each side of the columns of a span and moves the spans that wait and
start to its right by the width of the tags. They are moved before it is known whether they fit, so a column can leave the
64-bit words. The tags are written with delimiters; `materialize` turns them into HTML. -/
namespace PatternPages.Marking

inductive TagClass where
  | token
  | dummy
  | keyword
  | comment
  deriving DecidableEq

/-- Three characters for every class, so that all tags have the same width. -/
def TagClass.name : TagClass → Text
  | token => ['v', 'a', 'r']
  | dummy => ['d', 'u', 'm']
  | keyword => ['k', 'e', 'y']
  | comment => ['c', 'o', 'm']

def TagClass.opening (c : TagClass) : Text :=
  ['s', 'p', 'a', 'n', ' ', 'c', 'l', 'a', 's', 's', '=', '"'] ++ c.name ++ ['"']

def TagClass.closing : Text := ['/', 's', 'p', 'a', 'n']

def SpanKind.tagClass : SpanKind → TagClass
  | token => .token
  | dummy => .dummy

namespace Delimiters

def openingTag (d : Delimiters) (c : TagClass) : Text :=
  d.opening :: c.opening ++ [d.closing]

def closingTag (d : Delimiters) : Text := d.opening :: TagClass.closing ++ [d.closing]

def tagged (d : Delimiters) (c : TagClass) (text : Text) : Text :=
  d.openingTag c ++ text ++ d.closingTag

def tagWidth : Nat := 25

theorem length_tagged (d : Delimiters) (c : TagClass) (text : Text) :
    (d.tagged c text).length = text.length + tagWidth := by
  have opening : c.opening.length = 16 := by cases c <;> rfl
  have closing : TagClass.closing.length = 5 := rfl
  simp only [tagged, openingTag, closingTag, tagWidth, List.length_append, List.length_cons,
    List.length_nil, opening, closing]
  omega

end Delimiters

/-- The span that could not be spliced, in its columns at that time, and the line as it was. -/
structure SpliceError where
  line : Text
  start : UInt64
  stop : UInt64
  deriving DecidableEq

/-- The columns are those of characters of the line. -/
def Span.Fits (s : Span) (length : Nat) : Prop :=
  1 ≤ s.start.toNat ∧ s.start.toNat ≤ s.stop.toNat ∧ s.stop.toNat ≤ length

instance (s : Span) (length : Nat) : Decidable (s.Fits length) :=
  inferInstanceAs (Decidable (_ ∧ _ ∧ _))

/-- Tags the characters from column `start` to column `stop`. -/
def splice (d : Delimiters) (line : Text) (s : Span) : Except SpliceError Text :=
  if s.Fits line.length then
    let before := line.take (s.start.toNat - 1)
    let marked := (line.take s.stop.toNat).drop (s.start.toNat - 1)
    .ok (before ++ d.tagged s.kind.tagClass marked ++ line.drop s.stop.toNat)
  else .error ⟨line, s.start, s.stop⟩

/-- Why a line is not marked: a span that does not fit, which leaves the line without marks, or a column that leaves the
64-bit words, which ends the whole program. -/
inductive MarkError where
  | misfit (e : SpliceError)
  | overflow
  deriving DecidableEq

/-- Where a column stands behind one more tag, if that is a 64-bit word. -/
def pushed (column : UInt64) : Option UInt64 :=
  if column.toNat + Delimiters.tagWidth < UInt64.size then some (column + .ofNat Delimiters.tagWidth) else none

/-- Where `waiting` stands once `spliced` is in the line. -/
def Span.shiftedBy (spliced waiting : Span) : Option Span :=
  if spliced.start < waiting.start then
    match pushed waiting.start, pushed waiting.stop with
    | some start, some stop => some { waiting with start := start, stop := stop }
    | _, _ => none
  else some waiting

/-- Where the spans that wait stand once `spliced` is in the line. One that cannot be moved is enough to move none. -/
def shiftAll (spliced : Span) : List Span → Option (List Span)
  | [] => some []
  | waiting :: queue =>
    match spliced.shiftedBy waiting, shiftAll spliced queue with
    | some waiting, some queue => some (waiting :: queue)
    | _, _ => none

theorem shiftAll_cons_eq_some_iff {spliced waiting : Span} {queue shifted : List Span} :
    shiftAll spliced (waiting :: queue) = some shifted ↔
      ∃ w q, spliced.shiftedBy waiting = some w ∧ shiftAll spliced queue = some q ∧ shifted = w :: q := by
  rw [shiftAll]
  cases spliced.shiftedBy waiting <;> cases shiftAll spliced queue <;> simp [eq_comm]

theorem length_shiftAll {spliced : Span} {queue shifted : List Span} (h : shiftAll spliced queue = some shifted) :
    shifted.length = queue.length := by
  induction queue generalizing shifted with
  | nil => exact congrArg List.length (Option.some.inj h).symm
  | cons waiting queue ih =>
    obtain ⟨w, q, -, rest, rfl⟩ := shiftAll_cons_eq_some_iff.1 h
    exact congrArg (· + 1) (ih rest)

/-- Splices the spans in the order of the queue. Those behind the first wait where it moves them. -/
def applySpans (d : Delimiters) (line : Text) : List Span → Except MarkError Text
  | [] => .ok line
  | s :: queue =>
    match splice d line s with
    | .error e => .error (.misfit e)
    | .ok line =>
      match _ : shiftAll s queue with
      | none => .error .overflow
      | some queue => applySpans d line queue
termination_by queue => queue.length
decreasing_by simp [length_shiftAll ‹_›]

theorem applySpans_nil (d : Delimiters) (line : Text) : applySpans d line [] = .ok line := by
  rw [applySpans]

section Step

variable {d : Delimiters} {line spliced : Text} {s : Span} {queue shifted : List Span}

theorem applySpans_of_misfit_first {e : SpliceError} (h : splice d line s = .error e) :
    applySpans d line (s :: queue) = .error (.misfit e) := by
  rw [applySpans, h]

theorem applySpans_of_stuck (h : splice d line s = .ok spliced) (stuck : shiftAll s queue = none) :
    applySpans d line (s :: queue) = .error .overflow := by
  rw [applySpans, h]
  dsimp only
  split
  · rfl
  · next moved => cases stuck.symm.trans moved

theorem applySpans_of_shifted (h : splice d line s = .ok spliced) (moved : shiftAll s queue = some shifted) :
    applySpans d line (s :: queue) = applySpans d spliced shifted := by
  rw [applySpans, h]
  dsimp only
  split
  · next stuck => cases stuck.symm.trans moved
  · next other => rw [Option.some.inj (other.symm.trans moved)]

end Step

/-- Adds a span behind the kept ones unless it overlaps one of them. -/
def keep (kept : List Span) (s : Span) : List Span :=
  if kept.any (·.overlaps s) then kept else kept ++ [s]

/-- The spans that overlap no kept span before them, so that no text is tagged twice. -/
def withoutOverlaps (spans : List Span) : List Span := spans.foldl keep []

def markSpans (d : Delimiters) (line : Text) (spans : OrderedSet Span) : Except MarkError Text :=
  applySpans d line (withoutOverlaps spans.keys)

/-- Turns a line with delimiters into HTML. `pending` is text that waits to be escaped at the next opening, its last
character first. -/
def materializeFrom (d : Delimiters) (pending : Text) (inTag : Bool) : Text → Text
  | [] => Html.escape pending.reverse
  | c :: rest =>
    if c = d.opening then
      Html.escape pending.reverse ++ '<' :: materializeFrom d [] true rest
    else if c = d.closing then '>' :: materializeFrom d pending false rest
    else if inTag then c :: materializeFrom d pending true rest
    else materializeFrom d (c :: pending) false rest

def materialize (d : Delimiters) (line : Text) : Text := materializeFrom d [] false line

end PatternPages.Marking
