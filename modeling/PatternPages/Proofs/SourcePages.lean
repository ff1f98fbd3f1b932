import PatternPages.Proofs.Sheets

/-! What a source page shows. The syntax trees known from earlier matches are those of documents that paths with the same names
lead to, so a page shows the source of its own match with the marks of the document beside it. -/
namespace PatternPages

/-! ## Paths with the same names -/

theorem Path.foldl_step_filter (place : Place) (parts : List Text) :
    (parts.filter fun part => !isIdle part).foldl step place = parts.foldl step place := by
  induction parts generalizing place with
  | nil => rfl
  | cons part rest ih =>
    cases idle : isIdle part with
    | true =>
      have stays : step place part = place := if_pos idle
      rw [List.filter_cons_of_neg (by simp [idle]), ih, List.foldl_cons, stays]
    | false => rw [List.filter_cons_of_pos (by simp [idle]), List.foldl_cons, List.foldl_cons, ih]

namespace FileTree

theorem placeOf_eq_components (t : FileTree) (p : Path) :
    t.placeOf p = p.components.2.foldl Path.step (if p.components.1 then [] else t.workingDirectory) := by
  have here (place : Place) : Path.step place Path.here = place := rfl
  simp only [placeOf, start, Path.components, decide_eq_true_eq]
  rw [← Path.foldl_step_filter]
  by_cases first : p.parts.head? = some Path.here
  · rw [if_pos first, List.foldl_cons, here]
  · rw [if_neg first]

theorem placeOf_eq_of_components {p q : Path} (same : p.components = q.components) (t : FileTree) :
    t.placeOf p = t.placeOf q := by
  rw [placeOf_eq_components, same, ← placeOf_eq_components]

/-! ## Known trees -/

variable [Xml.Parser]

/-- Every known tree is that of a document, under the names of a path that leads there. -/
def Knows (t : FileTree) (trees : Trees) : Prop :=
  ∀ known ∈ trees, ∃ p d, known.1 = p.components ∧ t.document p = .ok d ∧ known.2 = SourceTree.ofDocument d

/-- The tree of the document at a path. If the path cannot be followed, no tree, or that of the file at its place. -/
structure TreeAt (t : FileTree) (p : Path) (tree : Option SourceTree) : Prop where
  complete : ∀ d, t.document p = .ok d → tree = some (SourceTree.ofDocument d)
  sound : ∀ known, tree = some known →
    ∃ content d, t.file? (t.placeOf p) = some content ∧ Xml.ofBytes? content = some d ∧
      known = SourceTree.ofDocument d

theorem file?_of_document {t : FileTree} {p : Path} {d : Xml.Document} (read : t.document p = .ok d) :
    ∃ content, t.file? (t.placeOf p) = some content ∧ Xml.ofBytes? content = some d := by
  obtain ⟨content, read, document⟩ := document_eq_ok_iff.1 read
  obtain ⟨-, -, entry⟩ := readFile_eq_ok_iff.1 read
  exact ⟨content, by rw [file?, entry], document⟩

theorem treeAt_of_known {t : FileTree} {trees : Trees} (knows : t.Knows trees) {p : Path} {known : SourceTree}
    (found : trees.lookup p.components = some known) : t.TreeAt p (some known) := by
  obtain ⟨before, after, split, -⟩ := List.lookup_eq_some_iff.1 found
  obtain ⟨q, d, names, read, tree⟩ := knows (p.components, known) (by simp [split])
  obtain ⟨content, file, document⟩ := file?_of_document read
  rw [← placeOf_eq_of_components names] at file
  refine ⟨fun d' read' => ?_, fun other same => ?_⟩
  · obtain ⟨content', file', document'⟩ := file?_of_document read'
    obtain rfl := Option.some.inj (file.symm.trans file')
    obtain rfl := Option.some.inj (document.symm.trans document')
    exact congrArg some tree
  · obtain rfl := Option.some.inj same
    exact ⟨content, d, file, document, tree⟩

theorem treeFor_spec {t : FileTree} {trees : Trees} (knows : t.Knows trees) (p : Path) :
    t.Knows (t.treeFor trees p).1 ∧ t.TreeAt p (t.treeFor trees p).2 := by
  unfold treeFor
  cases found : trees.lookup p.components with
  | some known => exact ⟨knows, treeAt_of_known knows found⟩
  | none =>
    cases read : t.document p with
    | error e =>
      refine ⟨knows, fun d ok => ?_, fun known none => ?_⟩
      · cases read.symm.trans ok
      · cases none
    | ok d =>
      refine ⟨?_, fun d' ok => ?_, fun known same => ?_⟩
      · intro known mem
        rcases List.mem_cons.1 mem with rfl | mem
        · exact ⟨p, d, rfl, read, rfl⟩
        · exact knows known mem
      · rw [Except.ok.inj (read.symm.trans ok)]
      · obtain ⟨content, file, document⟩ := file?_of_document read
        exact ⟨content, d, file, document, (Option.some.inj same).symm⟩

/-! ## Pages -/

/-- The page shows the source of the match, marked with the tree beside it. -/
def ShowsMatch (t : FileTree) (directory : Path) (x : Match) (page : Except Marking.Overflow Html.Page) : Prop :=
  ∃ bytes tree, t.readFile (t.sourceOf directory x) = .ok bytes ∧ t.TreeAt (treePath (t.sourceOf directory x)) tree ∧
    page = sourcePage (t.sourceOf directory x) bytes x tree

def HasSource (t : FileTree) (directory : Path) (x : Match) : Bool := t.isFile (t.sourceOf directory x)

theorem pageFor_of_hasSource {t : FileTree} {directory : Path} {x : Match} {trees : Trees} (knows : t.Knows trees)
    (source : t.HasSource directory x = true) :
    ∃ known page, t.pageFor directory trees x = (known, some page) ∧ t.Knows known ∧ t.ShowsMatch directory x page := by
  obtain ⟨bytes, read⟩ := isFile_iff.1 source
  obtain ⟨knows', tree⟩ := treeFor_spec knows (treePath (t.sourceOf directory x))
  refine ⟨_, _, ?_, knows', bytes, _, read, tree, rfl⟩
  rw [pageFor, read]

theorem pageFor_of_not_hasSource {t : FileTree} {directory : Path} {x : Match} (trees : Trees)
    (source : t.HasSource directory x = false) : t.pageFor directory trees x = (trees, none) := by
  rw [pageFor]
  cases read : t.readFile (t.sourceOf directory x) with
  | error e => rfl
  | ok bytes =>
    rw [HasSource, isFile_iff.2 ⟨bytes, read⟩] at source
    cases source

theorem shownFor_filter (t : FileTree) (directory : Path) (trees : Trees) (found : List Match) :
    t.shownFor directory trees (found.filter (t.HasSource directory)) = t.shownFor directory trees found := by
  induction found generalizing trees with
  | nil => rfl
  | cons x rest ih =>
    cases source : t.HasSource directory x with
    | false => rw [List.filter_cons_of_neg (by simp [source]), ih, shownFor, pageFor_of_not_hasSource trees source]
    | true =>
      rw [List.filter_cons_of_pos source, shownFor, shownFor]
      simp only [ih]

/-- The matches that are shown are those with a source, each with its own page. -/
theorem shownFor_spec {t : FileTree} {trees : Trees} (knows : t.Knows trees) (directory : Path) (found : List Match) :
    t.Knows (t.shownFor directory trees found).1 ∧
    (t.shownFor directory trees found).2.map Shown.found = found.filter (t.HasSource directory) ∧
    ∀ x ∈ (t.shownFor directory trees found).2, t.ShowsMatch directory x.found x.page := by
  induction found generalizing trees with
  | nil => exact ⟨knows, rfl, fun x mem => absurd mem List.not_mem_nil⟩
  | cons x rest ih =>
    rw [shownFor]
    cases source : t.HasSource directory x with
    | false =>
      rw [pageFor_of_not_hasSource trees source, List.filter_cons_of_neg (by simp [source])]
      exact ih knows
    | true =>
      obtain ⟨known, page, shown, knows', shows⟩ := pageFor_of_hasSource knows source
      rw [shown, List.filter_cons_of_pos source]
      obtain ⟨knowsAll, matches_, pages⟩ := ih knows'
      refine ⟨knowsAll, congrArg (x :: ·) matches_, fun y mem => ?_⟩
      rcases List.mem_cons.1 mem with rfl | mem
      · exact shows
      · exact pages y mem

end FileTree

end PatternPages
