import PatternPages.Proofs.IndexMarks

/-! The index of a match as a union. A node contributes the same marks wherever it stands in the list and however often, so the
index depends only on the set of nodes. A node that points to nothing in the source contributes nothing. -/
namespace PatternPages

open Marking (Mark Span Index)

/-- The extent begins in the source. If it is one line, its columns are in that line. -/
def Extent.Within (lines : List Text) (e : Extent) : Prop :=
  1 ≤ e.line ∧ ∃ line, lines[e.line - 1]? = some line ∧
    (e.line < e.lastLine ∨ 1 ≤ e.column ∧ e.column ≤ e.lastColumn ∧ e.lastColumn.toNat ≤ line.length)

namespace SourceTree

/-- The attribute is missing or is no number. -/
def Unparsable (written : Option Text) : Prop :=
  ∀ value, written = some value → Text.number? Text.bound64 (Text.trim value) = none

def WrittenExtent.attributes (e : WrittenExtent) : List (Option Text) := [e.line, e.lastLine, e.column, e.lastColumn]

theorem not_unparsable_of_ok {element : Text} {name : String} {written : Option Text} {n : Nat}
    (read : attributeNumber element name written = .ok n) : ¬ Unparsable written := by
  intro bad
  cases written with
  | none => cases read
  | some value =>
    simp only [attributeNumber, bad value rfl] at read
    cases read

theorem Node.readExtent_of_unparsable {node : Node} {written : Option Text} (mem : written ∈ node.extent.attributes)
    (bad : Unparsable written) : ∃ e, node.readExtent = .error e := by
  unfold readExtent
  cases line : attributeNumber node.name "LineNr" node.extent.line with
  | error e => exact ⟨e, rfl⟩
  | ok _ =>
    cases lastLine : attributeNumber node.name "EndLineNr" node.extent.lastLine with
    | error e => exact ⟨e, rfl⟩
    | ok _ =>
      cases column : attributeNumber node.name "ColNr" node.extent.column with
      | error e => exact ⟨e, rfl⟩
      | ok _ =>
        cases lastColumn : attributeNumber node.name "EndColNr" node.extent.lastColumn with
        | error e => exact ⟨e, rfl⟩
        | ok _ =>
          simp only [WrittenExtent.attributes, List.mem_cons, List.not_mem_nil, or_false] at mem
          rcases mem with rfl | rfl | rfl | rfl
          · exact absurd bad (not_unparsable_of_ok line)
          · exact absurd bad (not_unparsable_of_ok lastLine)
          · exact absurd bad (not_unparsable_of_ok column)
          · exact absurd bad (not_unparsable_of_ok lastColumn)

end SourceTree

namespace Site

/-- The number leads to nothing in the source: no node has it, or its node has no extent, or one out of the source. -/
inductive Lost (site : Site) (id : Nat) : Prop where
  | absent (none : site.tree.get? id = none) : Lost site id
  | unread {node : SourceTree.Node} {written : Option Text} (found : site.tree.get? id = some node)
    (mem : written ∈ node.extent.attributes) (bad : SourceTree.Unparsable written) : Lost site id
  | outside {node : SourceTree.Node} {extent : Extent} (found : site.tree.get? id = some node)
    (read : node.readExtent = .ok extent) (out : ¬ extent.Within site.lines) : Lost site id

/-! ## Lost nodes -/

variable {site : Site}

theorem lineMarks_of_outside {first last : Nat} (out : ¬ (1 ≤ first ∧ first ≤ site.lines.length)) :
    site.lineMarks first last = [] := by
  unfold lineMarks
  split
  · rfl
  · have none : min last site.lines.length + 1 - first = 0 := by omega
    rw [none]
    rfl

theorem spanMarks_of_outside {extent : Extent} {span : Span}
    (out : ∀ line, 1 ≤ extent.line → site.lines[extent.line - 1]? = some line →
      ¬ (1 ≤ span.start ∧ span.start ≤ span.stop ∧ span.stop.toNat ≤ line.length)) :
    site.spanMarks extent span = [] := by
  unfold spanMarks
  split
  · rfl
  · rename_i counted
    cases found : site.lines[extent.line - 1]? with
    | none => rfl
    | some line =>
      have columns := out line (Nat.pos_of_ne_zero counted) found
      dsimp only
      rw [if_pos]
      simp only [Bool.or_eq_true, decide_eq_true_eq]
      simp only [UInt64.le_iff_toNat_le, UInt64.lt_iff_toNat_lt, ← UInt64.toNat_inj] at columns ⊢
      have one : (1 : UInt64).toNat = 1 := rfl
      have zero : (0 : UInt64).toNat = 0 := rfl
      omega

/-- An extent out of the source makes no marks, whatever its node is. -/
theorem locationMarks_of_outside {node : SourceTree.Node} {extent : Extent} {location : Location}
    (read : node.readExtent = .ok extent) (out : ¬ extent.Within site.lines) (ok : site.classify node = .ok location) :
    site.locationMarks location = [] := by
  have lines (multi : extent.isMultiLine = true) : site.lineMarks extent.line extent.lastLine = [] := by
    apply lineMarks_of_outside
    rintro ⟨positive, inside⟩
    have found : extent.line - 1 < site.lines.length := by omega
    exact out ⟨positive, _, List.getElem?_eq_getElem found, .inl (of_decide_eq_true multi)⟩
  have span (kind : Marking.SpanKind) (text : Text) :
      site.spanMarks extent ⟨extent.column, extent.lastColumn, kind, text⟩ = [] := by
    apply spanMarks_of_outside
    intro line positive found columns
    exact out ⟨positive, line, found, .inr columns⟩
  unfold classify at ok
  rw [read] at ok
  simp only [bind, Except.bind, pure, Except.pure] at ok
  split at ok
  · split at ok
    · rename_i multi
      cases ok
      exact lines multi
    · cases ok
      exact span .token _
  · split at ok
    · split at ok
      · cases ok
        rfl
      · split at ok
        · rename_i multi
          cases ok
          exact lines multi
        · cases ok
          exact span .dummy _
    · cases ok
      rfl

theorem Lost.contribution_eq {id : Nat} (lost : site.Lost id) : site.contribution id = [] := by
  unfold contribution
  cases lost with
  | absent none => rw [none]
  | unread found mem bad =>
    obtain ⟨e, read⟩ := SourceTree.Node.readExtent_of_unparsable mem bad
    rw [found]
    simp only [classify, read, bind, Except.bind]
  | @outside node extent found read out =>
    rw [found]
    dsimp only
    cases ok : site.classify node with
    | error e => rfl
    | ok location => exact locationMarks_of_outside read out ok

/-! ## Unions -/

/-- The marks that a node makes when it is located alone. -/
theorem holds_locateNodes_singleton (site : Site) (id line : Nat) (mark : Mark) :
    (site.locateNodes [id]).Holds line mark ↔ (line, mark) ∈ site.contribution id := by
  rw [holds_locateNodes]
  simp

theorem locateNodes_congr {site site' : Site} {ids ids' : List Nat} (nodes : ∀ id, id ∈ ids' ↔ id ∈ ids)
    (marks : ∀ id, site'.contribution id = site.contribution id) : site'.locateNodes ids' = site.locateNodes ids := by
  apply (site'.marked_locateNodes ids').eq_of_holds (site.marked_locateNodes ids)
  intro line mark
  simp only [holds_locateNodes, nodes, marks]

/-- Of the list of the matched nodes only the members count. -/
theorem contribution_congr {matched : List Nat} (same : ∀ id, id ∈ matched ↔ id ∈ site.matched) (id : Nat) :
    { site with matched }.contribution id = site.contribution id := by
  have isMatched : { site with matched }.isMatched = site.isMatched := by
    funext k
    exact Bool.eq_iff_iff.2 (by simpa [Site.isMatched] using same k)
  have classify : { site with matched }.classify = site.classify := by
    funext node
    unfold Site.classify isDummy
    rw [isMatched]
    rfl
  unfold contribution
  rw [classify]
  rfl

end Site

/-- On each line the index of a match holds what its nodes make alone, in any order and however often they are listed. A
number that leads to nothing in the source makes no mark, and without it the others make the same. -/
theorem locate_union (tree : SourceTree) (lines : List Text) (ids : List Nat) :
    (∀ line mark, (locate tree lines ids).Holds line mark ↔
        ∃ id ∈ ids, ((Site.mk tree lines ids).locateNodes [id]).Holds line mark) ∧
      (∀ line, ((locate tree lines ids).get? line).isSome ↔
        ∃ id ∈ ids, (((Site.mk tree lines ids).locateNodes [id]).get? line).isSome) ∧
      (∀ ids', (∀ id, id ∈ ids' ↔ id ∈ ids) → locate tree lines ids' = locate tree lines ids) ∧
      ∀ id, (Site.mk tree lines ids).Lost id → (Site.mk tree lines ids).locateNodes [id] = OrderedMap.empty ∧
        (Site.mk tree lines ids).locateNodes (ids.filter (· ≠ id)) = locate tree lines ids := by
  have union (line : Nat) (mark : Mark) : (locate tree lines ids).Holds line mark ↔
      ∃ id ∈ ids, ((Site.mk tree lines ids).locateNodes [id]).Holds line mark := by
    simp only [Site.holds_locateNodes_singleton]
    exact Site.holds_locateNodes _ ids line mark
  refine ⟨union, ?_, ?_, ?_⟩
  · intro line
    have marked : (locate tree lines ids).Marked := Site.marked_locateNodes _ ids
    simp only [marked.isSome_iff, (Site.marked_locateNodes _ _).isSome_iff, union]
    constructor
    · rintro ⟨mark, id, mem, holds⟩
      exact ⟨id, mem, mark, holds⟩
    · rintro ⟨id, mem, mark, holds⟩
      exact ⟨mark, id, mem, holds⟩
  · intro ids' same
    exact Site.locateNodes_congr same (@Site.contribution_congr ⟨tree, lines, ids⟩ ids' same)
  · intro id lost
    constructor
    · rw [Site.locateNodes, List.foldl_cons, List.foldl_nil, Site.locateNode, lost.contribution_eq]
      rfl
    · apply (Site.marked_locateNodes _ _).eq_of_holds (Site.marked_locateNodes _ ids)
      intro line mark
      simp only [Site.holds_locateNodes, List.mem_filter, decide_eq_true_eq]
      constructor
      · rintro ⟨k, ⟨mem, -⟩, holds⟩
        exact ⟨k, mem, holds⟩
      · rintro ⟨k, mem, holds⟩
        refine ⟨k, ⟨mem, ?_⟩, holds⟩
        rintro rfl
        rw [lost.contribution_eq] at holds
        cases holds

/-- A call with two named children, and a node whose last column is no number. -/
def callTree : SourceTree :=
  let node (id : Nat) (column lastColumn : String) (children : List SourceTree.Child) : SourceTree.Node :=
    { name := "node".toList
      id := some id
      extent := ⟨some ['1'], some ['1'], some column.toList, some lastColumn.toList⟩
      children }
  ⟨#[node 1 "1" "3" [.element 1, .element 2], node 2 "1" "1" [.text ['f']], node 3 "3" "3" [.text ['x']],
    node 4 "3" "-1" [.text ['x']]]⟩

/-- The call counts as a dummy, because one of its children is not matched. -/
theorem locate_union_call :
    (∀ id, id ∈ [9, 4, 1, 2] ↔ id ∈ [2, 1, 2, 4, 9]) ∧
      locate callTree ["f(x)".toList] [9, 4, 1, 2] = locate callTree ["f(x)".toList] [2, 1, 2, 4, 9] ∧
      ((locate callTree ["f(x)".toList] [2, 1, 2, 4, 9]).get? 1).map (fun marks => (marks.whole, marks.spans.keys)) =
        some (false, [⟨1, 1, .token, ['f']⟩, ⟨1, 3, .dummy, ['f']⟩]) ∧
      (Site.mk callTree ["f(x)".toList] [2, 1, 2, 4, 9]).Lost 4 ∧
      (Site.mk callTree ["f(x)".toList] [2, 1, 2, 4, 9]).locateNodes [2, 1, 2, 9] =
        locate callTree ["f(x)".toList] [2, 1, 2, 4, 9] := by
  have same (id : Nat) : id ∈ [9, 4, 1, 2] ↔ id ∈ [2, 1, 2, 4, 9] := by
    simp only [List.mem_cons, List.not_mem_nil, or_false]
    omega
  have bad : SourceTree.Unparsable (some "-1".toList) := by
    rintro value ⟨⟩
    decide
  have lost : (Site.mk callTree ["f(x)".toList] [2, 1, 2, 4, 9]).Lost 4 :=
    .unread rfl (List.mem_cons_of_mem _ (by decide)) bad
  obtain ⟨-, -, order, without⟩ := locate_union callTree ["f(x)".toList] [2, 1, 2, 4, 9]
  exact ⟨same, order _ same, by decide, lost, (without 4 lost).2⟩

end PatternPages
