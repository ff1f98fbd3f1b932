import PatternPages.OrderedMap
import PatternPages.SourceTree

/-! A syntax tree built in place. A node comes to the end of the arena before its children are known, and gets them when all
that is below it has come. What is built is the syntax tree of the document. -/
namespace PatternPages.SourceTree

/-- A node is searched by its number only. -/
theorem findIdx?_id (nodes : Array Node) (id : Nat) :
    nodes.findIdx? (fun node => node.id = some id) = (nodes.map (·.id)).findIdx? (· = some id) := by
  rw [Array.findIdx?_map]
  rfl

/-- The nodes so far, and for each number the position at which it came first. -/
structure Arena where
  nodes : Array Node
  index : OrderedMap Nat Nat

namespace Arena

def empty : Arena := ⟨#[], .empty⟩

/-- Adds the node of an element, without children as yet. A number that has a position keeps it. -/
def add (arena : Arena) (e : Xml.Element) : Arena where
  nodes := arena.nodes.push ⟨e.name, idOf e, writtenExtent e, []⟩
  index := match idOf e with
    | none => arena.index
    | some id => arena.index.update id fun first => first.getD arena.nodes.size

def setChildren (arena : Arena) (position : Nat) (children : List Child) : Arena :=
  { arena with nodes := arena.nodes.modify position fun node => { node with children } }

mutual

/-- Adds the elements of a tree, and yields the child that the tree is to the node above it. -/
def push (arena : Arena) : Xml.Node → Child × Arena
  | .element name attributes children =>
    let position := arena.nodes.size
    let below := pushAll (arena.add ⟨name, attributes, children⟩) children
    (.element position, below.2.setChildren position below.1)
  | .text content => (.text content, arena)
  | .comment content => (.comment content, arena)
  | .instruction => (.instruction, arena)

def pushAll (arena : Arena) : List Xml.Node → List Child × Arena
  | [] => ([], arena)
  | node :: rest =>
    let first := push arena node
    let others := pushAll first.2 rest
    (first.1 :: others.1, others.2)

end

def ofDocument (d : Xml.Document) : Arena := (push empty (.element d.name d.attributes d.children)).2

/-! ## The nodes -/

/-- The children go to the node that waits for them, with nodes behind it by then. -/
theorem modify_push_append (before : Array Node) (waiting : Node) (below : Array Node) (f : Node → Node) :
    (before.push waiting ++ below).modify before.size f = before.push (f waiting) ++ below := by
  apply Array.ext'
  have there (xs : List Node) : (xs ++ waiting :: below.toList).modify xs.length f = xs ++ f waiting :: below.toList := by
    induction xs with
    | nil => rfl
    | cons x xs ih => exact congrArg (x :: ·) ih
  simpa using there before.toList

mutual

/-- What comes to the arena is what the tree is flattened to, from the end of the arena on. -/
theorem push_eq : ∀ (arena : Arena) (node : Xml.Node),
    (arena.push node).1 = (flatten arena.nodes.size node).1 ∧
      (arena.push node).2.nodes = arena.nodes ++ (flatten arena.nodes.size node).2.toArray
  | arena, .element name attributes children => by
    obtain ⟨made, grown⟩ := pushAll_eq (arena.add ⟨name, attributes, children⟩) children
    have size : (arena.add ⟨name, attributes, children⟩).nodes.size = arena.nodes.size + 1 := Array.size_push _
    rw [push, flatten]
    refine ⟨rfl, ?_⟩
    rw [setChildren, grown, made, size, add, modify_push_append]
    simp
  | arena, .text _ => by simp [push, flatten]
  | arena, .comment _ => by simp [push, flatten]
  | arena, .instruction => by simp [push, flatten]

theorem pushAll_eq : ∀ (arena : Arena) (nodes : List Xml.Node),
    (arena.pushAll nodes).1 = (flattenAll arena.nodes.size nodes).1 ∧
      (arena.pushAll nodes).2.nodes = arena.nodes ++ (flattenAll arena.nodes.size nodes).2.toArray
  | arena, [] => by simp [pushAll, flattenAll]
  | arena, node :: rest => by
    obtain ⟨first, grown⟩ := push_eq arena node
    obtain ⟨others, grown'⟩ := pushAll_eq (arena.push node).2 rest
    have size : (arena.push node).2.nodes.size = arena.nodes.size + (flatten arena.nodes.size node).2.length := by
      simp [grown]
    rw [size] at others grown'
    rw [pushAll, flattenAll]
    constructor
    · rw [first, others]
    · rw [grown', grown]
      simp

end

theorem nodes_ofDocument (d : Xml.Document) : (ofDocument d).nodes = (SourceTree.ofDocument d).nodes := by
  rw [ofDocument, (push_eq empty _).2, SourceTree.ofDocument]
  simp [empty]

/-! ## The index -/

/-- The index knows where each number came first. -/
def Indexed (arena : Arena) : Prop :=
  ∀ id, arena.index.get? id = arena.nodes.findIdx? fun node => node.id = some id

variable {arena : Arena}

theorem indexed_empty : Indexed empty := by
  intro id
  simp [empty, OrderedMap.get?_empty]

theorem Indexed.add (h : arena.Indexed) (e : Xml.Element) : (arena.add e).Indexed := by
  intro id
  unfold Arena.add
  dsimp only
  rw [Array.findIdx?_push, ← h id]
  cases own : idOf e with
  | none => simp
  | some new =>
    dsimp only
    rw [OrderedMap.get?_update]
    by_cases same : id = new
    · subst same
      cases arena.index.get? id <;> simp
    · have other : new ≠ id := Ne.symm same
      simp [same, other]

/-- The children of a node have no part in its number. -/
theorem Indexed.setChildren (h : arena.Indexed) (position : Nat) (children : List Child) :
    (arena.setChildren position children).Indexed := by
  intro id
  have ids (nodes : Array Node) :
      (nodes.modify position fun node => { node with children }).map (·.id) = nodes.map (·.id) := by
    apply Array.ext_getElem?
    intro i
    rw [Array.getElem?_map, Array.getElem?_modify, Array.getElem?_map]
    split <;> simp [Function.comp_def]
  rw [Arena.setChildren, findIdx?_id, ids, ← findIdx?_id]
  exact h id

mutual

theorem Indexed.push : ∀ {arena : Arena}, arena.Indexed → ∀ node, (arena.push node).2.Indexed
  | arena, h, .element name attributes children => by
    rw [Arena.push]
    exact ((h.add _).pushAll children).setChildren _ _
  | arena, h, .text _ => by rwa [Arena.push]
  | arena, h, .comment _ => by rwa [Arena.push]
  | arena, h, .instruction => by rwa [Arena.push]

theorem Indexed.pushAll : ∀ {arena : Arena}, arena.Indexed → ∀ nodes, (arena.pushAll nodes).2.Indexed
  | arena, h, [] => by rwa [Arena.pushAll]
  | arena, h, node :: rest => by
    rw [Arena.pushAll]
    exact (h.push node).pushAll rest

end

/-- The index of the arena is the search for a number in the syntax tree. -/
theorem get?_ofDocument (d : Xml.Document) (id : Nat) :
    (ofDocument d).index.get? id = (SourceTree.ofDocument d).position? id := by
  have indexed : (ofDocument d).Indexed := indexed_empty.push _
  rw [indexed id, nodes_ofDocument, position?]

end Arena

end PatternPages.SourceTree
