import PatternPages.Proofs.Arena
import PatternPages.Proofs.DocumentOrder
import Mathlib.Logic.Relation

/-! A syntax tree mirrors its document. Its nodes are the elements in document order, they hang together as one tree with
its root in front, and numbers and texts are found in it as they are in the document. -/
namespace PatternPages.SourceTree

open Xml.Node (elements elementsOf texts textsOf)

/-! ## One tree -/

/-- The node at a position has the one at another as a child. -/
def Holds (tree : SourceTree) (above below : Nat) : Prop :=
  ∃ node, tree.nodes[above]? = some node ∧ .element below ∈ node.children

def Child.position? : Child → Option Nat
  | .element position => some position
  | _ => none

/-- The positions of the element children, node by node. -/
def references (nodes : List Node) : List Nat := nodes.flatMap fun node => node.children.filterMap Child.position?

theorem mem_references {tree : SourceTree} {below : Nat} :
    below ∈ references tree.nodes.toList ↔ ∃ above, tree.Holds above below := by
  have named (child : Child) : child.position? = some below ↔ child = .element below := by
    cases child <;> simp [Child.position?]
  constructor
  · intro mem
    obtain ⟨node, node_mem, child_mem⟩ := List.mem_flatMap.1 mem
    obtain ⟨child, child_mem, is⟩ := List.mem_filterMap.1 child_mem
    obtain ⟨above, found⟩ := List.mem_iff_getElem?.1 node_mem
    rw [Array.getElem?_toList] at found
    exact ⟨above, node, found, (named child).1 is ▸ child_mem⟩
  · rintro ⟨above, node, found, mem⟩
    rw [← Array.getElem?_toList] at found
    exact List.mem_flatMap.2 ⟨node, List.mem_of_getElem? found, List.mem_filterMap.2 ⟨_, mem, rfl⟩⟩

section Once

open scoped List

theorem references_append (a b : List Node) : references (a ++ b) = references a ++ references b :=
  List.flatMap_append

mutual

/-- A tree and the nodes below it: each of their positions occurs once, that of the tree itself on the outside. -/
theorem references_flatten : ∀ (position : Nat) (node : Xml.Node),
    (flatten position node).1.position?.toList ++ references (flatten position node).2 ~
      List.range' position (flatten position node).2.length
  | position, .element name attributes children => by
    rw [flatten]
    exact (references_flattenAll (position + 1) children).cons position
  | position, .text _ => by simp [flatten, references, Child.position?]
  | position, .comment _ => by simp [flatten, references, Child.position?]
  | position, .instruction => by simp [flatten, references, Child.position?]

theorem references_flattenAll : ∀ (position : Nat) (nodes : List Xml.Node),
    (flattenAll position nodes).1.filterMap Child.position? ++ references (flattenAll position nodes).2 ~
      List.range' position (flattenAll position nodes).2.length
  | position, [] => by simp [flattenAll, references]
  | position, node :: rest => by
    have first := references_flatten position node
    have others := references_flattenAll (position + (flatten position node).2.length) rest
    rw [flattenAll, references_append, List.length_append, ← List.range'_append_1]
    have heads (child : Child) (children : List Child) : (child :: children).filterMap Child.position? =
        child.position?.toList ++ children.filterMap Child.position? := by cases child <;> rfl
    have swap (a b c d : List Nat) : (a ++ b) ++ (c ++ d) ~ (a ++ c) ++ (b ++ d) := by
      simpa using (List.perm_append_comm_assoc b c d).append_left a
    rw [heads]
    exact (swap _ _ _ _).trans (first.append others)

end

end Once

theorem position_le_of_mem_childrenAt {position below : Nat} {nodes : List Xml.Node}
    (mem : .element below ∈ childrenAt position nodes) : position ≤ below := by
  induction nodes generalizing position with
  | nil => cases mem
  | cons node rest ih =>
    rcases List.mem_cons.1 mem with here | later
    · cases node <;> cases here
      exact Nat.le_refl _
    · exact Nat.le_trans (Nat.le_add_right _ _) (ih later)

section Tree

variable {d : Xml.Document}

/-- Every position but the first is that of one child. -/
theorem references_ofDocument (d : Xml.Document) :
    (references (ofDocument d).nodes.toList).Perm (List.range' 1 ((ofDocument d).size - 1)) := by
  have all := references_flatten 0 (.element d.name d.attributes d.children)
  rw [flatten] at all
  exact all.cons_inv

theorem Holds.lt {above below : Nat} (h : (ofDocument d).Holds above below) : above < below := by
  obtain ⟨node, found, mem⟩ := h
  rw [getElem?_ofDocument] at found
  obtain ⟨e, -, rfl⟩ := Option.map_eq_some_iff.1 found
  exact position_le_of_mem_childrenAt mem

theorem exists_holds_iff {below : Nat} :
    (∃ above, (ofDocument d).Holds above below) ↔ 0 < below ∧ below < (ofDocument d).size := by
  rw [← mem_references, (references_ofDocument d).mem_iff, List.mem_range'_1]
  omega

theorem reached (position : Nat) (inside : position < (ofDocument d).size) :
    Relation.ReflTransGen (ofDocument d).Holds 0 position := by
  induction position using Nat.strongRecOn with
  | ind position ih =>
    by_cases root : position = 0
    · exact root ▸ .refl
    · obtain ⟨above, holds⟩ := exists_holds_iff.2 ⟨Nat.pos_of_ne_zero root, inside⟩
      exact (ih above holds.lt (Nat.lt_trans holds.lt inside)).tail holds

/-- Going down from child to child comes to an end, for positions grow and stay inside. -/
theorem wellFounded_holds : WellFounded fun below above => (ofDocument d).Holds above below := by
  apply Subrelation.wf _ (measure fun position => (ofDocument d).size - position).wf
  intro below above holds
  have inside := (exists_holds_iff.1 ⟨above, holds⟩).2
  have lt := holds.lt
  show (ofDocument d).size - below < (ofDocument d).size - above
  omega

end Tree

/-! ## Numbers -/

/-- The attribute `ID` without prefix reads as the number, white space around it left out. -/
def Numbered (e : Xml.Element) (id : Nat) : Prop :=
  ∃ written, e.attribute? "ID" = some written ∧ Text.number? Text.bound32 (Text.trim written) = some id

theorem idOf_eq_some_iff {e : Xml.Element} {id : Nat} : idOf e = some id ↔ Numbered e id := Option.bind_eq_some_iff

/-- A node is found through the index that is built with the nodes. -/
theorem get?_eq_bind_position? (tree : SourceTree) (id : Nat) :
    tree.get? id = (tree.position? id).bind fun position => tree.nodes[position]? := by
  unfold get? position?
  cases found : tree.nodes.findIdx? fun node => node.id = some id with
  | none =>
    rw [Array.findIdx?_eq_none_iff] at found
    exact Array.find?_eq_none.2 (by simpa using found)
  | some position =>
    obtain ⟨inside, has, first⟩ := Array.findIdx?_eq_some_iff_getElem.1 found
    rw [Option.bind_some, Array.getElem?_eq_getElem inside, Array.find?_eq_some_iff_getElem]
    exact ⟨has, position, inside, rfl, fun j before => by simpa using first j before⟩

section Numbers

variable {d : Xml.Document} {id : Nat}

theorem position?_ofDocument (d : Xml.Document) (id : Nat) :
    (ofDocument d).position? id = d.descendants.findIdx? fun e => idOf e = some id := by
  have ids : (ofDocument d).nodes.map (·.id) = (d.descendants.map idOf).toArray := by
    apply Array.ext_getElem?
    intro i
    simp [getElem?_ofDocument, Function.comp_def, nodeAt]
  rw [position?, findIdx?_id, ids, List.findIdx?_toArray, List.findIdx?_map]
  rfl

/-- The element with a number is the first in document order. -/
theorem position?_ofDocument_eq_some_iff {i : Nat} :
    (ofDocument d).position? id = some i ↔
      ∃ e, d.descendants[i]? = some e ∧ Numbered e id ∧
        ∀ j < i, ∀ other, d.descendants[j]? = some other → ¬ Numbered other id := by
  rw [position?_ofDocument, List.findIdx?_eq_some_iff_getElem]
  simp only [decide_eq_true_eq, idOf_eq_some_iff]
  constructor
  · rintro ⟨inside, has, first⟩
    refine ⟨_, List.getElem?_eq_getElem inside, has, ?_⟩
    intro j before other found
    obtain ⟨_, rfl⟩ := List.getElem?_eq_some_iff.1 found
    exact first j before
  · rintro ⟨e, found, has, first⟩
    obtain ⟨inside, rfl⟩ := List.getElem?_eq_some_iff.1 found
    refine ⟨inside, has, ?_⟩
    intro j before
    exact first j before _ (List.getElem?_eq_getElem (Nat.lt_trans before inside))

theorem get?_ofDocument_eq_some_iff {node : Node} :
    (ofDocument d).get? id = some node ↔
      ∃ (i : Nat) (e : Xml.Element), d.descendants[i]? = some e ∧ (ofDocument d).nodes[i]? = some node ∧ Numbered e id ∧
        ∀ j < i, ∀ other, d.descendants[j]? = some other → ¬ Numbered other id := by
  rw [get?_eq_bind_position?, Option.bind_eq_some_iff]
  constructor
  · rintro ⟨i, position, at_i⟩
    obtain ⟨e, found, has, first⟩ := position?_ofDocument_eq_some_iff.1 position
    exact ⟨i, e, found, at_i, has, first⟩
  · rintro ⟨i, e, found, at_i, has, first⟩
    exact ⟨i, position?_ofDocument_eq_some_iff.2 ⟨e, found, has, first⟩, at_i⟩

theorem get?_ofDocument_eq_none_iff : (ofDocument d).get? id = none ↔ ∀ e ∈ d.descendants, ¬ Numbered e id := by
  have absent : (ofDocument d).get? id = none ↔ (ofDocument d).position? id = none := by
    rw [get?, position?, Array.find?_eq_none, Array.findIdx?_eq_none_iff]
    simp only [Bool.not_eq_true]
  rw [absent, position?_ofDocument, List.findIdx?_eq_none_iff]
  simp only [decide_eq_false_iff_not, idOf_eq_some_iff]

/-- An element in the second of two siblings comes after all that is in the first. -/
example :
    let numbered (children : List Xml.Node) : Xml.Node := .element ['b'] [⟨none, "ID".toList, " 7 ".toList⟩] children
    let d : Xml.Document := ⟨['a'], [], [.element ['c'] [] [.comment [], numbered []], numbered [.text ['x']]]⟩
    (ofDocument d).position? 7 = some 2 := by decide +kernel

end Numbers

/-! ## Texts -/

/-- What a child adds to the text of its node. -/
def Child.share (tree : SourceTree) : Child → Text
  | .element position => textAt tree position
  | .text content => content
  | .comment _ => []
  | .instruction => []

def Child.isComment : Child → Bool
  | .comment _ => true
  | _ => false

theorem textContent_eq (tree : SourceTree) (node : Node) :
    tree.textContent node = node.children.flatMap (Child.share tree) := rfl

/-- The bound on the descent plays no part at a node whose children stand behind it. -/
theorem textAt_eq {tree : SourceTree} {position : Nat} {node : Node} (found : tree.nodes[position]? = some node)
    (behind : ∀ below, .element below ∈ node.children → position < below) :
    textAt tree position = tree.textContent node := by
  obtain ⟨inside, rfl⟩ := Array.getElem?_eq_some_iff.1 found
  rw [textAt, dif_pos inside, textContent_eq]
  apply List.flatMap_congr
  intro child mem
  cases child with
  | element below => exact if_pos (behind below mem)
  | text content => rfl
  | comment content => rfl
  | instruction => rfl

/-- The texts of the children together, those of comments left out, are the text of the node. -/
theorem textContent_eq_childTexts (tree : SourceTree) (node : Node) :
    tree.textContent node =
      ((node.children.zip (tree.childTexts node)).filter fun child => !child.1.isComment).flatMap (·.2) := by
  rw [textContent_eq, childTexts]
  induction node.children with
  | nil => rfl
  | cons child rest ih =>
    rw [List.flatMap_cons, ih]
    cases child <;> simp [Child.share, Child.isComment]

section Texts

variable {d : Xml.Document}

/-- Going down from a node without a bound comes to the same. -/
theorem textAt_of_getElem? {position : Nat} {node : Node} (found : (ofDocument d).nodes[position]? = some node) :
    textAt (ofDocument d) position = (ofDocument d).textContent node := by
  apply textAt_eq found
  intro below mem
  exact Holds.lt ⟨node, found, mem⟩

mutual

/-- The text of a child is that of the tree it stands for. -/
theorem share_childAt : ∀ (position : Nat) (node : Xml.Node), d.HasAt position (elements node) →
    (childAt position node).share (ofDocument d) = (texts node).flatten
  | position, .element name attributes children, there => by
    rw [elements] at there
    have copy := getElem?_ofDocument d position
    rw [there.head, Option.map_some] at copy
    rw [childAt, Child.share, textAt_of_getElem? copy, textContent_eq, texts]
    exact share_childrenAt (position + 1) children there.tail
  | position, .text _, _ => by simp [childAt, Child.share, texts]
  | position, .comment _, _ => by simp [childAt, Child.share, texts]
  | position, .instruction, _ => by simp [childAt, Child.share, texts]

theorem share_childrenAt : ∀ (position : Nat) (nodes : List Xml.Node), d.HasAt position (elementsOf nodes) →
    (childrenAt position nodes).flatMap (Child.share (ofDocument d)) = (textsOf nodes).flatten
  | position, [], _ => by simp [childrenAt, textsOf]
  | position, node :: rest, there => by
    rw [elementsOf] at there
    rw [childrenAt, List.flatMap_cons, share_childAt position node there.left, share_childrenAt _ rest there.right,
      textsOf, List.flatten_append]

end

/-- The text of a node is that of all text in its element. -/
theorem textContent_nodeAt {position : Nat} {e : Xml.Element} (found : d.descendants[position]? = some e) :
    (ofDocument d).textContent (nodeAt position e) = (textsOf e.children).flatten := by
  rw [textContent_eq]
  exact share_childrenAt (position + 1) e.children (Xml.Element.hasAt_of_getElem? found).tail

end Texts

/-! ## The whole tree -/

/-- The node is a copy of the element that is at the position in document order. -/
structure Node.Copies (node : Node) (position : Nat) (e : Xml.Element) : Prop where
  name : node.name = e.name
  id (id : Nat) : node.id = some id ↔ Numbered e id
  extent : node.extent = writtenExtent e
  length : node.children.length = e.children.length
  /-- Between an element and one in it are the elements of what comes before. -/
  children (j : Nat) : node.children[j]? =
    e.children[j]?.map (childAt (position + 1 + (elementsOf (e.children.take j)).length))

theorem nodeAt_copies (position : Nat) (e : Xml.Element) : (nodeAt position e).Copies position e where
  name := rfl
  id _ := idOf_eq_some_iff
  extent := rfl
  length := length_childrenAt _ _
  children := getElem?_childrenAt _ _

/-- The nodes are the elements of the document in its order and form one tree, in which numbers and texts are those of the
document. -/
structure Mirrors (tree : SourceTree) (d : Xml.Document) : Prop where
  size : tree.size = d.descendants.length
  copies (i : Nat) (e : Xml.Element) : d.descendants[i]? = some e → ∃ node, tree.nodes[i]? = some node ∧ node.Copies i e
  /-- The position of an element child is that of the child in the document. -/
  children (i j : Nat) (e : Xml.Element) (name : Text) (attributes : List Xml.Attribute) (nodes : List Xml.Node) :
    d.descendants[i]? = some e → e.children[j]? = some (.element name attributes nodes) →
      d.descendants[i + 1 + (elementsOf (e.children.take j)).length]? = some ⟨name, attributes, nodes⟩
  behind (above below : Nat) : Relation.TransGen tree.Holds above below → above < below
  /-- Every position but the first is that of one child, just once. -/
  once : (references tree.nodes.toList).Perm (List.range' 1 (tree.size - 1))
  reached (position : Nat) : position < tree.size → Relation.ReflTransGen tree.Holds 0 position
  descends : WellFounded fun below above => tree.Holds above below
  found (id : Nat) (node : Node) : tree.get? id = some node ↔
    ∃ (i : Nat) (e : Xml.Element), d.descendants[i]? = some e ∧ tree.nodes[i]? = some node ∧ Numbered e id ∧
      ∀ j < i, ∀ other, d.descendants[j]? = some other → ¬ Numbered other id
  absent (id : Nat) : tree.get? id = none ↔ ∀ e ∈ d.descendants, ¬ Numbered e id
  /-- The descent to a child is the descent to the node that is there. -/
  below (above below : Nat) : tree.Holds above below →
    ∃ node, tree.nodes[below]? = some node ∧ textAt tree below = tree.textContent node
  text (i : Nat) (e : Xml.Element) (node : Node) : d.descendants[i]? = some e → tree.nodes[i]? = some node →
    tree.textContent node = (textsOf e.children).flatten
  length_childTexts (node : Node) : (tree.childTexts node).length = node.children.length
  childTexts (node : Node) : tree.textContent node =
    ((node.children.zip (tree.childTexts node)).filter fun child => !child.1.isComment).flatMap (·.2)
  /-- Building in place comes to the same nodes, and its index to the same node for each number. -/
  built : (Arena.ofDocument d).nodes = tree.nodes
  indexed (id : Nat) : ((Arena.ofDocument d).index.get? id).bind (fun position => tree.nodes[position]?) = tree.get? id

theorem ofDocument_mirrors (d : Xml.Document) : (ofDocument d).Mirrors d where
  size := size_ofDocument d
  copies i e found := by
    refine ⟨nodeAt i e, ?_, nodeAt_copies i e⟩
    rw [getElem?_ofDocument, found, Option.map_some]
  children i j e name attributes nodes found child := by
    have there := (Xml.Element.hasAt_of_getElem? found).tail.child child
    rw [elements] at there
    exact there.head
  behind above below path := by
    induction path with
    | single holds => exact holds.lt
    | tail _ holds lt => exact Nat.lt_trans lt holds.lt
  once := references_ofDocument d
  reached := reached
  descends := wellFounded_holds
  found _ _ := get?_ofDocument_eq_some_iff
  absent _ := get?_ofDocument_eq_none_iff
  below above below holds := by
    have inside := (exists_holds_iff.1 ⟨above, holds⟩).2
    exact ⟨_, Array.getElem?_eq_getElem inside, textAt_of_getElem? (Array.getElem?_eq_getElem inside)⟩
  text i e node found copy := by
    rw [getElem?_ofDocument, found, Option.map_some] at copy
    cases Option.some.inj copy
    exact textContent_nodeAt found
  length_childTexts _ := List.length_map _
  childTexts := textContent_eq_childTexts _
  built := Arena.nodes_ofDocument d
  indexed id := by rw [Arena.get?_ofDocument, get?_eq_bind_position?]

end PatternPages.SourceTree
