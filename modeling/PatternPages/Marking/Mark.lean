import PatternPages.OrderedMap
import PatternPages.Text.Blank

/-! Marks of a source line: a span of columns or the line as a whole. Columns are 1-based, inclusive, count
characters, and are 64-bit words. Spans are ordered by start, stop, kind and text. -/
namespace PatternPages.Marking

inductive SpanKind where
  /-- A matched leaf token. -/
  | token
  /-- A compound node that is matched through one of its descendants. -/
  | dummy
  deriving DecidableEq

namespace SpanKind

def rank : SpanKind → Nat
  | token => 0
  | dummy => 1

theorem rank_inj {a b : SpanKind} (h : a.rank = b.rank) : a = b := by
  cases a <;> cases b <;> simp_all [rank]

end SpanKind

structure Span where
  start : UInt64
  stop : UInt64
  kind : SpanKind
  text : Text
  deriving DecidableEq

namespace Span

/-- Two spans overlap if they share a column; the ends count. -/
def overlaps (a b : Span) : Bool := a.start ≤ b.stop && b.start ≤ a.stop

/-- What the order of spans compares, the first difference deciding. -/
def key (s : Span) : List Nat :=
  s.start.toNat :: s.stop.toNat :: s.kind.rank :: s.text.map Char.toNat

instance : LT Span := ⟨fun a b => a.key < b.key⟩

instance : DecidableLT Span := fun a b => inferInstanceAs (Decidable (a.key < b.key))

theorem key_inj {a b : Span} (h : a.key = b.key) : a = b := by
  obtain ⟨startA, stopA, kindA, textA⟩ := a
  obtain ⟨startB, stopB, kindB, textB⟩ := b
  simp only [key, List.cons.injEq] at h
  obtain ⟨hstart, hstop, hkind, htext⟩ := h
  have text : textA = textB :=
    List.map_inj_right (fun _ _ e => Char.ext (UInt32.toNat_inj.1 e)) |>.1 htext
  rw [UInt64.toNat_inj.1 hstart, UInt64.toNat_inj.1 hstop, SpanKind.rank_inj hkind, text]

instance : LinearKey Span where
  irrefl a := LinearKey.irrefl a.key
  trans {a b c} hab hbc :=
    show a.key < c.key from LinearKey.trans (show a.key < b.key from hab) hbc
  trichotomy a b := (LinearKey.trichotomy a.key b.key).imp_right (.imp_left key_inj)

end Span

inductive Mark where
  | wholeLine
  | span (s : Span)
  deriving DecidableEq

/-- The marks of one line. If the line is marked as a whole its spans do not show. -/
structure LineMarks where
  whole : Bool
  spans : OrderedSet Span
  deriving DecidableEq

namespace LineMarks

def none : LineMarks := ⟨false, OrderedMap.empty⟩

def add (marks : LineMarks) : Mark → LineMarks
  | .wholeLine => { marks with whole := true }
  | .span s => { marks with spans := marks.spans.insert s () }

end LineMarks

/-- The marks of a source by line, lines being counted from 1. -/
abbrev Index := OrderedMap Nat LineMarks

namespace Index

def insert (index : Index) (line : Nat) (mark : Mark) : Index :=
  index.update line fun marks => (marks.getD LineMarks.none).add mark

/-- Marks the lines from `first` to `last` as a whole; there are none if `last` is below `first`. -/
def insertLines (index : Index) (first last : Nat) : Index :=
  (List.range' first (last + 1 - first)).foldl (fun index line => index.insert line .wholeLine) index

end Index

end PatternPages.Marking
