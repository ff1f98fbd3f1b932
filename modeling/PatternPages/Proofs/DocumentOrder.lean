import PatternPages.SourceTree
import Mathlib.Data.List.Basic

/-! The nodes of a syntax tree are those of the document, copied in document order: the node at a position is determined by
the position and by the element that stands there. -/
namespace PatternPages

namespace Xml

namespace Node

mutual

/-- The texts in a tree in document order, comments left out. -/
def texts : Node → List Text
  | .element _ _ children => textsOf children
  | .text content => [content]
  | .comment _ => []
  | .instruction => []

def textsOf : List Node → List Text
  | [] => []
  | node :: rest => texts node ++ textsOf rest

end

mutual

/-- The elements in an element follow it without a gap. -/
theorem elements_block : ∀ (node : Node) (i : Nat) (e : Element), (elements node)[i]? = some e →
    e.descendants <+: (elements node).drop i
  | .element name attributes children, i, e, found => by
    rw [elements] at found ⊢
    cases i with
    | zero =>
      cases Option.some.inj found
      exact List.prefix_refl _
    | succ i => exact elementsOf_block children i e found
  | .text _, i, e, found => by simp [elements] at found
  | .comment _, i, e, found => by simp [elements] at found
  | .instruction, i, e, found => by simp [elements] at found

theorem elementsOf_block : ∀ (nodes : List Node) (i : Nat) (e : Element), (elementsOf nodes)[i]? = some e →
    e.descendants <+: (elementsOf nodes).drop i
  | [], i, e, found => by simp [elementsOf] at found
  | node :: rest, i, e, found => by
    rw [elementsOf] at found ⊢
    rw [List.drop_append]
    by_cases inside : i < (elements node).length
    · have block := elements_block node i e (by rwa [List.getElem?_append_left inside] at found)
      exact block.trans (List.prefix_append _ _)
    · have after : (elements node).length ≤ i := by omega
      rw [List.drop_eq_nil_of_le after, List.nil_append]
      apply elementsOf_block rest
      rwa [List.getElem?_append_right after] at found

end

end Node

namespace Element

/-- From a position on, the elements of the document are these, in this order. -/
def HasAt (d : Document) (position : Nat) (block : List Element) : Prop := block <+: d.descendants.drop position

variable {d : Document} {position : Nat} {e : Element} {a b : List Element}

theorem HasAt.head (h : d.HasAt position (e :: a)) : d.descendants[position]? = some e := by
  obtain ⟨after, eq⟩ := h
  rw [← List.head?_drop, ← eq]
  rfl

theorem HasAt.tail (h : d.HasAt position (e :: a)) : d.HasAt (position + 1) a := by
  obtain ⟨after, eq⟩ := h
  refine ⟨after, ?_⟩
  rw [← List.tail_drop, ← eq]
  rfl

theorem HasAt.left (h : d.HasAt position (a ++ b)) : d.HasAt position a := (List.prefix_append a b).trans h

theorem HasAt.right (h : d.HasAt position (a ++ b)) : d.HasAt (position + a.length) b := by
  obtain ⟨after, eq⟩ := h
  refine ⟨after, ?_⟩
  rw [← List.drop_drop, ← eq, List.append_assoc, List.drop_left]

/-- Where an element is, all that is in it follows. -/
theorem hasAt_of_getElem? (found : d.descendants[position]? = some e) : d.HasAt position e.descendants := by
  have whole : d.descendants = Node.elements (.element d.name d.attributes d.children) := by
    rw [Node.elements, descendants]
  unfold HasAt
  rw [whole] at found ⊢
  exact Node.elements_block _ position e found

/-- A node comes after the elements that are in those before it. -/
theorem HasAt.child {nodes : List Node} {j : Nat} {node : Node} (h : d.HasAt position (Node.elementsOf nodes))
    (found : nodes[j]? = some node) :
    d.HasAt (position + (Node.elementsOf (nodes.take j)).length) (Node.elements node) := by
  induction nodes generalizing position j with
  | nil => cases found
  | cons first rest ih =>
    rw [Node.elementsOf] at h
    cases j with
    | zero =>
      cases Option.some.inj found
      exact h.left
    | succ j =>
      rw [List.take_succ_cons, Node.elementsOf, List.length_append, ← Nat.add_assoc]
      exact ih h.right found

end Element

end Xml

namespace SourceTree

open Xml.Node (elements elementsOf)

/-- The child that a node becomes which is at the given position if it is an element. -/
def childAt (position : Nat) : Xml.Node → Child
  | .element .. => .element position
  | .text content => .text content
  | .comment content => .comment content
  | .instruction => .instruction

/-- The children that nodes in a row become, the elements in which begin at the given position. -/
def childrenAt (position : Nat) : List Xml.Node → List Child
  | [] => []
  | node :: rest => childAt position node :: childrenAt (position + (elements node).length) rest

/-- The copy of an element at a position. -/
def nodeAt (position : Nat) (e : Xml.Element) : Node :=
  ⟨e.name, idOf e, writtenExtent e, childrenAt (position + 1) e.children⟩

mutual

theorem flatten_eq : ∀ (position : Nat) (node : Xml.Node),
    flatten position node = (childAt position node, (elements node).mapIdx fun i e => nodeAt (position + i) e)
  | position, .element name attributes children => by
    have below := flattenAll_eq (position + 1) children
    rw [flatten, below, elements, List.mapIdx_cons]
    simp only [childAt, nodeAt, Nat.add_zero, Nat.add_assoc, Nat.add_comm 1]
  | position, .text _ => by simp [flatten, elements, childAt]
  | position, .comment _ => by simp [flatten, elements, childAt]
  | position, .instruction => by simp [flatten, elements, childAt]

theorem flattenAll_eq : ∀ (position : Nat) (nodes : List Xml.Node),
    flattenAll position nodes =
      (childrenAt position nodes, (elementsOf nodes).mapIdx fun i e => nodeAt (position + i) e)
  | position, [] => by simp [flattenAll, elementsOf, childrenAt]
  | position, node :: rest => by
    have first := flatten_eq position node
    have others := flattenAll_eq (position + (elements node).length) rest
    rw [flattenAll, first, List.length_mapIdx, others, childrenAt, elementsOf, List.mapIdx_append]
    simp only [Nat.add_assoc, Nat.add_comm (elements node).length]

end

/-- The syntax tree of a document copies its elements one by one. -/
theorem nodes_ofDocument (d : Xml.Document) : (ofDocument d).nodes = (d.descendants.mapIdx nodeAt).toArray := by
  rw [ofDocument, flatten_eq]
  simp [elements, Xml.Element.descendants]

theorem getElem?_ofDocument (d : Xml.Document) (i : Nat) :
    (ofDocument d).nodes[i]? = d.descendants[i]?.map (nodeAt i) := by
  rw [nodes_ofDocument, List.getElem?_toArray, List.getElem?_mapIdx]

theorem size_ofDocument (d : Xml.Document) : (ofDocument d).size = d.descendants.length := by
  rw [size, nodes_ofDocument, List.size_toArray, List.length_mapIdx]

/-! ## The children of a node -/

theorem length_childrenAt (position : Nat) (nodes : List Xml.Node) :
    (childrenAt position nodes).length = nodes.length := by
  induction nodes generalizing position with
  | nil => rfl
  | cons node rest ih => rw [childrenAt, List.length_cons, List.length_cons, ih]

/-- An element child is as far behind its node as there are elements before it. -/
theorem getElem?_childrenAt (position : Nat) (nodes : List Xml.Node) (j : Nat) :
    (childrenAt position nodes)[j]? =
      nodes[j]?.map (childAt (position + (elementsOf (nodes.take j)).length)) := by
  induction nodes generalizing position j with
  | nil => rfl
  | cons node rest ih =>
    cases j with
    | zero => rfl
    | succ j =>
      rw [childrenAt, List.getElem?_cons_succ, ih, List.getElem?_cons_succ, List.take_succ_cons, elementsOf,
        List.length_append, Nat.add_assoc]

end SourceTree

end PatternPages
