import PatternPages.Error
import PatternPages.Xml.Document

/-! The records of a mining run: patterns, numbered in document order, and the matches that were found for them. -/
namespace PatternPages

structure Pattern where
  /-- The place in the document, counted from 1. -/
  number : Nat
  support : Option Text
  deriving DecidableEq

structure Match where
  pattern : Nat
  fullName : Text
  /-- The source file as recorded. -/
  fileName : Text
  nodeIds : List Nat
  deriving DecidableEq

namespace Pattern

def elementName : Text := "subtree".toList

def supportName : Text := "Support".toList

/-- What stands before the first hyphen and what behind it. -/
def splitSupport : Text → Option (Text × Text)
  | [] => none
  | c :: rest =>
    if c = '-' then some ([], rest)
    else (splitSupport rest).map fun sides => (c :: sides.1, sides.2)

def supportNumber (written : Text) : Option Nat := Text.number? Text.bound64 (Text.trim written)

/-- The support in the old and in the new class, written with a hyphen between them. -/
def classSupport (p : Pattern) : Except AttributeError (Nat × Nat) :=
  match p.support with
  | none => .error (.missing elementName supportName)
  | some written =>
    match splitSupport written with
    | none => .error (.invalid elementName supportName written)
    | some (old, new) =>
      match supportNumber old, supportNumber new with
      | some old, some new => .ok (old, new)
      | _, _ => .error (.invalid elementName supportName written)

/-- The elements with a name anywhere in the document, numbered from `number` on. -/
def numbered (number : Nat) : List Xml.Element → List Pattern
  | [] => []
  | e :: rest => ⟨number, e.attribute? "Support"⟩ :: numbered (number + 1) rest

def ofDocument (d : Xml.Document) : List Pattern :=
  numbered 1 (d.descendants.filter (·.name = elementName))

end Pattern

namespace Match

def elementName : Text := "match".toList

/-- The number of a matched node, if it has one that fits 32 bits. -/
def nodeId? (node : Xml.Node) : Option Nat := do
  let e ← node.element?
  let value ← e.attribute? "ID"
  Text.number? Text.bound32 (Text.trim value)

/-- The match that an element records; there is none if the element is malformed. -/
def ofElement? (e : Xml.Element) : Option Match := do
  let written ← e.attribute? "PatternID"
  let pattern ← Text.number? Text.bound64 (Text.trim written)
  let fullName ← e.attribute? "FullName"
  let fileName ← e.attribute? "FileName"
  return ⟨pattern, fullName, fileName, e.children.filterMap nodeId?⟩

/-- The matches anywhere in a document, in document order. -/
def ofDocument (d : Xml.Document) : List Match :=
  (d.descendants.filter (·.name = elementName)).filterMap ofElement?

def ofPattern (found : List Match) (pattern : Nat) : List Match :=
  found.filter (·.pattern = pattern)

end Match

end PatternPages
