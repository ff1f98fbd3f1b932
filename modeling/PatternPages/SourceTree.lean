import PatternPages.Error
import PatternPages.Xml.Document

/-! Annotated syntax trees. Every element of the document is a node, listed in document order, and refers to the elements
in it by their positions. A node may have a number and the extent of its source; the extent is read only when asked for. -/
namespace PatternPages

/-- The lines and columns of a node, both ends included. -/
structure Extent where
  line : Nat
  lastLine : Nat
  column : UInt64
  lastColumn : UInt64
  deriving DecidableEq

namespace Extent

def isMultiLine (e : Extent) : Bool := e.line < e.lastLine

/-- The distance of the columns, in signed 64-bit arithmetic. -/
def width (e : Extent) : Int64 := e.lastColumn.toInt64 - e.column.toInt64

end Extent

namespace SourceTree

structure WrittenExtent where
  line : Option Text
  lastLine : Option Text
  column : Option Text
  lastColumn : Option Text

/-- A child of a node: an element by its position, or what else stands between the tags. -/
inductive Child where
  | element (position : Nat)
  | text (content : Text)
  | comment (content : Text)
  | instruction

structure Node where
  name : Text
  id : Option Nat
  extent : WrittenExtent
  children : List Child

/-- The number in an attribute, white space around it left out. -/
def attributeNumber (element : Text) (name : String) (written : Option Text) : Except AttributeError Nat :=
  match written with
  | none => .error (.missing element name.toList)
  | some value =>
    match Text.number? Text.bound64 (Text.trim value) with
    | none => .error (.invalid element name.toList value)
    | some n => .ok n

/-- The extent of a node; the first attribute that is missing or no number is reported. -/
def Node.readExtent (node : Node) : Except AttributeError Extent := do
  let line ← attributeNumber node.name "LineNr" node.extent.line
  let lastLine ← attributeNumber node.name "EndLineNr" node.extent.lastLine
  let column ← attributeNumber node.name "ColNr" node.extent.column
  let lastColumn ← attributeNumber node.name "EndColNr" node.extent.lastColumn
  return ⟨line, lastLine, .ofNat column, .ofNat lastColumn⟩

/-- The number of an element, if it has one that fits 32 bits. -/
def idOf (e : Xml.Element) : Option Nat :=
  (e.attribute? "ID").bind fun value => Text.number? Text.bound32 (Text.trim value)

def writtenExtent (e : Xml.Element) : WrittenExtent where
  line := e.attribute? "LineNr"
  lastLine := e.attribute? "EndLineNr"
  column := e.attribute? "ColNr"
  lastColumn := e.attribute? "EndColNr"

mutual

/-- The node of a tree whose root has the given position, and the nodes below it. -/
def flatten (position : Nat) : Xml.Node → Child × List Node
  | .element name attributes children =>
    let below := flattenAll (position + 1) children
    let e : Xml.Element := ⟨name, attributes, children⟩
    (.element position, ⟨name, idOf e, writtenExtent e, below.1⟩ :: below.2)
  | .text content => (.text content, [])
  | .comment content => (.comment content, [])
  | .instruction => (.instruction, [])

/-- The nodes of trees in a row, the first of which begins at the given position. -/
def flattenAll (position : Nat) : List Xml.Node → List Child × List Node
  | [] => ([], [])
  | node :: rest =>
    let first := flatten position node
    let others := flattenAll (position + first.2.length) rest
    (first.1 :: others.1, first.2 ++ others.2)

end

end SourceTree

/-- The nodes of a syntax tree in document order. -/
structure SourceTree where
  nodes : Array SourceTree.Node

namespace SourceTree

def ofDocument (d : Xml.Document) : SourceTree :=
  ⟨(flatten 0 (.element d.name d.attributes d.children)).2.toArray⟩

def size (tree : SourceTree) : Nat := tree.nodes.size

def position? (tree : SourceTree) (id : Nat) : Option Nat :=
  tree.nodes.findIdx? fun node => node.id = some id

def get? (tree : SourceTree) (id : Nat) : Option Node :=
  tree.nodes.find? fun node => node.id = some id

/-- The text below the node at a position. A child stands behind its parent, which bounds the descent. -/
def textAt (tree : SourceTree) (position : Nat) : Text :=
  if h : position < tree.nodes.size then
    tree.nodes[position].children.flatMap fun child =>
      match child with
      | .element next => if position < next then textAt tree next else []
      | .text content => content
      | .comment _ => []
      | .instruction => []
  else []
termination_by tree.nodes.size - position

/-- The texts in a node and below it, comments left out. -/
def textContent (tree : SourceTree) (node : Node) : Text :=
  node.children.flatMap fun child =>
    match child with
    | .element position => textAt tree position
    | .text content => content
    | .comment _ => []
    | .instruction => []

/-- The text of each child; a comment counts with its own. -/
def childTexts (tree : SourceTree) (node : Node) : List Text :=
  node.children.map fun child =>
    match child with
    | .element position => textAt tree position
    | .text content => content
    | .comment content => content
    | .instruction => []

def elementChildren (tree : SourceTree) (node : Node) : List Node :=
  node.children.filterMap fun child =>
    match child with
    | .element position => tree.nodes[position]?
    | _ => none

end SourceTree

end PatternPages
