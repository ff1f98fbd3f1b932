import PatternPages.Proofs.Contributions

/-! More matched nodes make fewer dummies. The marks of a leaf do not depend on the match. Any other node keeps its marks or
loses them all when the match grows, and it has none once all its children are matched. -/
namespace PatternPages

open Marking (Mark Span Index)

def SourceTree.Node.IsLeaf (node : SourceTree.Node) : Prop := node.children.length = 1

namespace Site

/-- The nodes that are matched bring their children with them, as far as these have numbers. -/
def Closed (tree : SourceTree) (ids : List Nat) : Prop :=
  ∀ id ∈ ids, ∀ node ∈ tree.get? id, ∀ child ∈ tree.elementChildren node, ∀ k ∈ child.id, k ∈ ids

instance (tree : SourceTree) (ids : List Nat) : Decidable (Closed tree ids) :=
  inferInstanceAs (Decidable
    (∀ id ∈ ids, ∀ node ∈ tree.get? id, ∀ child ∈ tree.elementChildren node, ∀ k ∈ child.id, k ∈ ids))

variable {site : Site} {node : SourceTree.Node} {id line : Nat} {mark : Mark}

theorem isDummy_iff : site.isDummy node = true ↔
    ∃ child ∈ site.tree.elementChildren node, ∃ k, child.id = some k ∧ k ∉ site.matched := by
  simp [isDummy, isMatched, Option.any_eq_true]

/-- A child outside of the larger match is outside of the smaller one too. -/
theorem isDummy_of_subset {more : List Nat} (sub : ∀ k ∈ site.matched, k ∈ more)
    (dummy : { site with matched := more }.isDummy node = true) : site.isDummy node = true := by
  obtain ⟨child, mem, k, has, out⟩ := isDummy_iff.mp dummy
  exact isDummy_iff.mpr ⟨child, mem, k, has, fun matched => out (sub k matched)⟩

/-! ## Marks by the kind of the node -/

/-- What each kind of location says of its node. -/
theorem classify_cases {location : Location} (ok : site.classify node = .ok location) :
    (∃ first last, location = .lines first last ∧ (node.IsLeaf ∨ site.isDummy node = true)) ∨
      (∃ extent text, location = .token extent text ∧ node.IsLeaf) ∨
      (∃ extent text, location = .dummy extent text ∧ ¬ node.IsLeaf ∧ site.isDummy node = true) ∨
      location = .nothing := by
  unfold classify at ok
  cases read : node.readExtent with
  | error e =>
    simp only [read, bind, Except.bind] at ok
    cases ok
  | ok extent =>
    simp only [read, bind, Except.bind, pure, Except.pure] at ok
    split at ok
    · rename_i leaf
      split at ok
      · cases ok
        exact .inl ⟨_, _, rfl, .inl leaf⟩
      · cases ok
        exact .inr (.inl ⟨_, _, rfl, leaf⟩)
    · rename_i compound
      split at ok
      · rename_i dummy
        split at ok
        · cases ok
          exact .inr (.inr (.inr rfl))
        · split at ok
          · cases ok
            exact .inl ⟨_, _, rfl, .inr dummy⟩
          · cases ok
            exact .inr (.inr (.inl ⟨_, _, rfl, compound, dummy⟩))
      · cases ok
        exact .inr (.inr (.inr rfl))

theorem eq_of_mem_spanMarks {extent : Extent} {span s : Span} (mem : (line, .span s) ∈ site.spanMarks extent span) :
    s = span := by
  unfold spanMarks at mem
  split at mem
  · cases mem
  · split at mem
    · cases mem
    · split at mem
      · cases mem
      · split at mem
        · cases List.mem_singleton.mp mem
        · cases List.mem_singleton.mp mem
          rfl

theorem not_span_mem_lineMarks {first last : Nat} {s : Span} : (line, .span s) ∉ site.lineMarks first last := by
  unfold lineMarks
  split
  · exact List.not_mem_nil
  · simp

/-- A mark comes from a node that was located. -/
theorem exists_of_mem_contribution (mem : (line, mark) ∈ site.contribution id) :
    ∃ node location, site.tree.get? id = some node ∧ site.classify node = .ok location ∧
      (line, mark) ∈ site.locationMarks location := by
  unfold contribution at mem
  split at mem
  · cases mem
  · rename_i node found
    split at mem
    · cases mem
    · rename_i location ok
      exact ⟨node, location, found, ok, mem⟩

/-- Only leaves and dummies make marks, and the kind of a span tells them apart. -/
theorem kind_of_mem_contribution (mem : (line, mark) ∈ site.contribution id) :
    ∃ node, site.tree.get? id = some node ∧ (node.IsLeaf ∨ site.isDummy node = true) ∧
      ∀ s, mark = .span s → (s.kind = .token ↔ node.IsLeaf) := by
  obtain ⟨node, location, found, ok, mem⟩ := exists_of_mem_contribution mem
  refine ⟨node, found, ?_⟩
  rcases classify_cases ok with ⟨first, last, rfl, origin⟩ | ⟨extent, text, rfl, leaf⟩ |
    ⟨extent, text, rfl, compound, dummy⟩ | rfl
  · refine ⟨origin, ?_⟩
    rintro s rfl
    exact absurd mem not_span_mem_lineMarks
  · refine ⟨.inl leaf, ?_⟩
    rintro s rfl
    cases eq_of_mem_spanMarks mem
    exact iff_of_true rfl leaf
  · refine ⟨.inr dummy, ?_⟩
    rintro s rfl
    cases eq_of_mem_spanMarks mem
    exact iff_of_false nofun compound
  · cases mem

/-! ## Two matches -/

/-- The match is read only to tell whether a node is a dummy, and a leaf is not asked. -/
theorem contribution_eq_of_isDummy (found : site.tree.get? id = some node) {matched : List Nat}
    (same : ¬ node.IsLeaf → { site with matched }.isDummy node = site.isDummy node) :
    { site with matched }.contribution id = site.contribution id := by
  have classify : { site with matched }.classify node = site.classify node := by
    by_cases leaf : node.IsLeaf
    · simp only [Site.classify, if_pos (show node.children.length = 1 from leaf)]
    · simp only [Site.classify, same leaf]
      rfl
  simp only [contribution, found, classify]
  rfl

theorem contribution_of_leaf (site : Site) (found : site.tree.get? id = some node) (leaf : node.IsLeaf)
    (matched : List Nat) : { site with matched }.contribution id = site.contribution id :=
  contribution_eq_of_isDummy found (absurd leaf)

theorem mem_contribution_of_subset (site : Site) {more : List Nat} (sub : ∀ k ∈ site.matched, k ∈ more)
    (mem : (line, mark) ∈ { site with matched := more }.contribution id) : (line, mark) ∈ site.contribution id := by
  obtain ⟨node, found, origin, -⟩ := kind_of_mem_contribution mem
  have same : { site with matched := more }.contribution id = site.contribution id := by
    refine @contribution_eq_of_isDummy site node id found more ?_
    intro compound
    have dummy := origin.resolve_left compound
    exact dummy.trans (isDummy_of_subset sub dummy).symm
  exact same ▸ mem

/-- Where all children of the matched nodes are matched, only leaves make marks. -/
theorem isLeaf_of_closed (site : Site) (closed : Closed site.tree site.matched) (matched : id ∈ site.matched)
    (mem : (line, mark) ∈ site.contribution id) :
    ∃ node, site.tree.get? id = some node ∧ node.IsLeaf ∧ ∀ s, mark = .span s → s.kind = .token := by
  obtain ⟨node, found, origin, kind⟩ := kind_of_mem_contribution mem
  have leaf : node.IsLeaf := by
    apply origin.resolve_right
    intro dummy
    obtain ⟨child, child_mem, k, has, out⟩ := isDummy_iff.mp dummy
    exact out (closed id matched node found child child_mem k has)
  exact ⟨node, found, leaf, fun s eq => (kind s eq).mpr leaf⟩

end Site

/-- When a match grows, the highlights of its leaves stay: their spans, and the lines that they mark as a whole. No node
marks anything that it did not mark before. If the larger match has all children of its nodes, only leaves make marks, and
none of these is a dummy. -/
theorem locate_enlarged (tree : SourceTree) (lines : List Text) {few more : List Nat} (sub : ∀ id ∈ few, id ∈ more) :
    (∀ line s, s.kind = .token → (locate tree lines few).Holds line (.span s) →
        (locate tree lines more).Holds line (.span s)) ∧
      (∀ line, ∀ id ∈ few, ∀ node, tree.get? id = some node → node.IsLeaf →
        (line, .wholeLine) ∈ (Site.mk tree lines few).contribution id → (locate tree lines more).Holds line .wholeLine) ∧
      (∀ id line mark, (line, mark) ∈ (Site.mk tree lines more).contribution id →
        (line, mark) ∈ (Site.mk tree lines few).contribution id) ∧
      (Site.Closed tree more →
        (∀ line s, (locate tree lines more).Holds line (.span s) → s.kind ≠ .dummy) ∧
          ∀ id ∈ more, ∀ line mark, (line, mark) ∈ (Site.mk tree lines more).contribution id →
            ∃ node, tree.get? id = some node ∧ node.IsLeaf) := by
  have keeps {line id : Nat} {mark : Mark} {node : SourceTree.Node} (mem : id ∈ few) (found : tree.get? id = some node)
      (leaf : node.IsLeaf) (here : (line, mark) ∈ (Site.mk tree lines few).contribution id) :
      (locate tree lines more).Holds line mark := by
    have same := Site.contribution_of_leaf ⟨tree, lines, few⟩ found leaf more
    exact (Site.holds_locateNodes _ more line mark).mpr ⟨id, sub id mem, same ▸ here⟩
  refine ⟨?_, ?_, ?_, ?_⟩
  · intro line s token holds
    obtain ⟨id, mem, here⟩ := (Site.holds_locateNodes _ few line _).mp holds
    obtain ⟨node, found, -, kind⟩ := Site.kind_of_mem_contribution here
    exact keeps mem found ((kind s rfl).mp token) here
  · intro line id mem node found leaf here
    exact keeps mem found leaf here
  · intro id line mark here
    exact Site.mem_contribution_of_subset ⟨tree, lines, few⟩ sub here
  · intro closed
    constructor
    · intro line s holds
      obtain ⟨id, mem, here⟩ := (Site.holds_locateNodes _ more line _).mp holds
      obtain ⟨_, -, -, token⟩ := Site.isLeaf_of_closed ⟨tree, lines, more⟩ closed mem here
      rw [token s rfl]
      exact nofun
    · intro id mem line mark here
      obtain ⟨node, found, leaf, -⟩ := Site.isLeaf_of_closed ⟨tree, lines, more⟩ closed mem here
      exact ⟨node, found, leaf⟩

/-- A block of two lines: a name in the first and a leaf that is the second. -/
def blockTree : SourceTree :=
  let node (id : Nat) (line lastLine column lastColumn : String) (children : List SourceTree.Child) : SourceTree.Node :=
    { name := "node".toList
      id := some id
      extent := ⟨some line.toList, some lastLine.toList, some column.toList, some lastColumn.toList⟩
      children }
  ⟨#[node 1 "1" "2" "1" "4" [.element 1, .element 2], node 2 "1" "1" "5" "5" [.text ['f']],
    node 3 "2" "2" "1" "4" [.text "pass".toList]]⟩

def blockLines : List Text := ["def f:".toList, "pass".toList]

/-- The block marks both lines as a dummy, until its name is matched too; the leaf marks the second line in both matches. -/
theorem locate_enlarged_block :
    (∀ id ∈ [1, 3], id ∈ [1, 3, 2]) ∧ Site.Closed blockTree [1, 3, 2] ∧
      ((locate blockTree blockLines [1, 3]).toList.map fun entry => (entry.1, entry.2.whole, entry.2.spans.keys)) =
        [(1, true, []), (2, true, [])] ∧
      ((locate blockTree blockLines [1, 3, 2]).get? 1).map (·.whole) = some false ∧
      (locate blockTree blockLines [1, 3, 2]).Holds 2 .wholeLine ∧
      (∀ line s, (locate blockTree blockLines [1, 3, 2]).Holds line (.span s) → s.kind ≠ .dummy) := by
  have closed : Site.Closed blockTree [1, 3, 2] := by decide
  have sub : ∀ id ∈ [1, 3], id ∈ [1, 3, 2] := by decide
  obtain ⟨-, whole, -, leaves⟩ := locate_enlarged blockTree blockLines sub
  refine ⟨sub, closed, by decide, by decide, ?_, (leaves closed).1⟩
  exact whole 2 3 (by decide) blockTree.nodes[2] rfl rfl (by decide)

end PatternPages
