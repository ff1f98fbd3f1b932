import PatternPages.Text.Blank

/-! Documents as trees. Names are local names; an attribute also keeps the namespace that its prefix is bound to. -/
namespace PatternPages.Xml

structure Attribute where
  /-- The namespace, if the attribute is written with a prefix. -/
  space : Option Text
  name : Text
  value : Text
  deriving DecidableEq

inductive Node where
  | element (name : Text) (attributes : List Attribute) (children : List Node)
  | text (content : Text)
  | comment (content : Text)
  | instruction

structure Element where
  name : Text
  attributes : List Attribute
  children : List Node

/-- The value of the attribute `name` without prefix. -/
def Element.attribute? (e : Element) (name : String) : Option Text :=
  (e.attributes.find? fun a => a.space = none && a.name = name.toList).map (·.value)

/-! ## Equality -/

namespace Node

mutual

def same : Node → Node → Bool
  | .element name attributes children, .element name' attributes' children' =>
    name = name' && attributes = attributes' && sameAll children children'
  | .text content, .text content' => content = content'
  | .comment content, .comment content' => content = content'
  | .instruction, .instruction => true
  | _, _ => false

def sameAll : List Node → List Node → Bool
  | [], [] => true
  | node :: rest, node' :: rest' => same node node' && sameAll rest rest'
  | _, _ => false

end

mutual

theorem same_iff : ∀ {a b : Node}, same a b = true ↔ a = b
  | .element _ _ children, b => by cases b <;> simp [same, @sameAll_iff children, and_assoc]
  | .text _, b => by cases b <;> simp [same]
  | .comment _, b => by cases b <;> simp [same]
  | .instruction, b => by cases b <;> simp [same]

theorem sameAll_iff : ∀ {a b : List Node}, sameAll a b = true ↔ a = b
  | [], b => by cases b <;> simp [sameAll]
  | node :: rest, b => by cases b <;> simp [sameAll, @same_iff node, @sameAll_iff rest]

end

instance : DecidableEq Node := fun _ _ => decidable_of_iff _ same_iff

end Node

instance : DecidableEq Element := fun a b =>
  decidable_of_iff (a.name = b.name ∧ a.attributes = b.attributes ∧ a.children = b.children)
    (by cases a; cases b; simp)

/-! ## Elements -/

namespace Node

def element? : Node → Option Element
  | .element name attributes children => some ⟨name, attributes, children⟩
  | _ => none

mutual

/-- The elements of a tree in document order, each before those in it. -/
def elements : Node → List Element
  | .element name attributes children => ⟨name, attributes, children⟩ :: elementsOf children
  | _ => []

def elementsOf : List Node → List Element
  | [] => []
  | node :: rest => elements node ++ elementsOf rest

end

end Node

/-- The element and all elements in it, in document order. -/
def Element.descendants (e : Element) : List Element := e :: Node.elementsOf e.children

abbrev Document := Element

/-- A parser of documents. `none` means that the text is malformed. -/
class Parser where
  read : Text → Option Document

end PatternPages.Xml
