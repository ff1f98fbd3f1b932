import PatternPages.Marking.Mark
import PatternPages.SourceTree

/-! Where the nodes of a match stand in the source. Each node contributes marks on its own; the index of a match holds the
contributions of all its nodes. -/
namespace PatternPages

open Marking (Mark Index)

/-- The matched nodes with the tree and the source that they belong to. -/
structure Site where
  tree : SourceTree
  lines : List Text
  matched : List Nat

inductive Location where
  /-- Every line of a range. -/
  | lines (first last : Nat)
  | token (extent : Extent) (text : Text)
  | dummy (extent : Extent) (text : Text)
  | nothing

namespace Site

def isMatched (site : Site) (id : Nat) : Bool := site.matched.contains id

/-- One of the children has a number but is not matched. -/
def isDummy (site : Site) (node : SourceTree.Node) : Bool :=
  (site.tree.elementChildren node).any fun child => child.id.any fun id => !site.isMatched id

/-- The first text two levels below a node that is not blank, such as the name of a function. -/
def dummyText (site : Site) (node : SourceTree.Node) : Option Text :=
  let texts := (site.tree.elementChildren node).flatMap site.tree.childTexts
  (texts.map Text.trim).find? fun text => !text.isEmpty

/-- A leaf has one child. A leaf marks its lines or its columns; any other node marks something only if it is a dummy with a
text. -/
def classify (site : Site) (node : SourceTree.Node) : Except AttributeError Location := do
  let extent ← node.readExtent
  if node.children.length = 1 then
    if extent.isMultiLine then return .lines extent.line extent.lastLine
    else return .token extent (Text.trim (site.tree.textContent node))
  else if site.isDummy node then
    match site.dummyText node with
    | none => return .nothing
    | some text =>
      if extent.isMultiLine then return .lines extent.line extent.lastLine
      else return .dummy extent text
  else return .nothing

/-- The lines of a range that are in the source. The end may lie behind the source, the beginning may not. -/
def lineMarks (site : Site) (first last : Nat) : List (Nat × Mark) :=
  if first = 0 then []
  else (List.range' first (min last site.lines.length + 1 - first)).map (·, .wholeLine)

/-- The columns of a span, if they are in its line. A node one column shorter than the trimmed line marks it as a whole. -/
def spanMarks (site : Site) (extent : Extent) (span : Marking.Span) : List (Nat × Mark) :=
  if extent.line = 0 then []
  else
    match site.lines[extent.line - 1]? with
    | none => []
    | some line =>
      if span.start = 0 || span.stop < span.start || line.length < span.stop.toNat then []
      else if extent.width = Int64.ofNat (Text.trim line).length - 1 then [(extent.line, .wholeLine)]
      else [(extent.line, .span span)]

def locationMarks (site : Site) : Location → List (Nat × Mark)
  | .lines first last => site.lineMarks first last
  | .token extent text => site.spanMarks extent ⟨extent.column, extent.lastColumn, .token, text⟩
  | .dummy extent text => site.spanMarks extent ⟨extent.column, extent.lastColumn, .dummy, text⟩
  | .nothing => []

/-- The marks of one node. A number that is not in the tree and a node without an extent have none. -/
def contribution (site : Site) (id : Nat) : List (Nat × Mark) :=
  match site.tree.get? id with
  | none => []
  | some node =>
    match site.classify node with
    | .error _ => []
    | .ok location => site.locationMarks location

def locateNode (site : Site) (index : Index) (id : Nat) : Index :=
  (site.contribution id).foldl (fun index entry => index.insert entry.1 entry.2) index

/-- The index of the nodes `ids`, in a site where more nodes may be matched. -/
def locateNodes (site : Site) (ids : List Nat) : Index := ids.foldl site.locateNode OrderedMap.empty

end Site

def locate (tree : SourceTree) (lines : List Text) (ids : List Nat) : Index :=
  (Site.mk tree lines ids).locateNodes ids

end PatternPages
