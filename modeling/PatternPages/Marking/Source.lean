import PatternPages.Marking.Keywords

/-! The lines of a source as HTML: a line without marks is plain text, a line that is marked as a whole is one comment, and
any other has its spans and then its keywords tagged. Spans that do not fit their line are left out together; a column that
leaves the 64-bit words ends the rendering, and the program with it. -/
namespace PatternPages.Marking

/-- A column left the 64-bit words. No caller handles it. -/
structure Overflow where
  deriving DecidableEq

/-- The line with its spans tagged, or as it is if one of them does not fit. -/
def markedOrPlain (d : Delimiters) (line : Text) (spans : OrderedSet Span) : Except Overflow Text :=
  match markSpans d line spans with
  | .ok marked => .ok marked
  | .error (.misfit _) => .ok line
  | .error .overflow => .error ⟨⟩

/-- The inside of a line that is not marked as a whole. -/
def renderSpans (line : Text) (spans : OrderedSet Span) : Except Overflow Text :=
  match Delimiters.forLine line with
  | none => .ok (Html.escape line)
  | some d => (markedOrPlain d line spans).map fun marked => materialize d (markKeywords d marked)

def commentTag : Text :=
  "<span class=\"".toList ++ TagClass.name .comment ++ "\">".toList

def renderLine (line : Text) : Option LineMarks → Except Overflow Text
  | none => .ok ("<pre>".toList ++ Html.escape line ++ "</pre>\n".toList)
  | some marks =>
    if marks.whole then
      .ok ("<pre><mark>".toList ++ commentTag ++ Html.escape line ++ "</span></mark></pre>\n".toList)
    else (renderSpans line marks.spans).map fun inside => "<pre><mark>".toList ++ inside ++ "</mark></pre>\n".toList

/-- The lines from number `first` on. -/
def renderFrom (index : Index) (first : Nat) : List Text → Except Overflow Text
  | [] => .ok []
  | line :: rest => do return (← renderLine line (index.get? first)) ++ (← renderFrom index (first + 1) rest)

def render (lines : List Text) (index : Index) : Except Overflow Text := renderFrom index 1 lines

end PatternPages.Marking
