import PatternPages.Proofs.CrossLinks
import PatternPages.Proofs.Failures
import PatternPages.Proofs.Reruns

/-! A match that cannot be shown leaves no trace. A run on the document without it writes the same pages, as long as the
document is read for its matches only. -/
namespace PatternPages

open Text (Bytes)

/-! ## Deleting an element -/

namespace Xml.Node

/-- The second nodes are the first without an element at some depth; texts on both sides of it may have grown together. No
element around it has the name `apart`. -/
inductive Loses (apart : Text) (lost : Element) : List Node → List Node → Prop where
  | here (before after : List Node) (x y z : List Text) (grown : z.flatten = x.flatten ++ y.flatten) :
      Loses apart lost
        (before ++ (x.map text ++ element lost.name lost.attributes lost.children :: y.map text) ++ after)
        (before ++ z.map text ++ after)
  | inside (before after : List Node) (name : Text) (attributes : List Attribute) {nodes nodes' : List Node}
      (other : name ≠ apart) (below : Loses apart lost nodes nodes') :
      Loses apart lost (before ++ element name attributes nodes :: after)
        (before ++ element name attributes nodes' :: after)

theorem elementsOf_append (a b : List Node) : elementsOf (a ++ b) = elementsOf a ++ elementsOf b := by
  induction a with
  | nil => rfl
  | cons node rest ih => rw [List.cons_append, elementsOf, elementsOf, ih, List.append_assoc]

theorem elementsOf_texts (texts : List Text) : elementsOf (texts.map text) = [] := by
  induction texts with
  | nil => rfl
  | cons content rest ih =>
    have none : elements (text content) = [] := by simp [elements]
    rw [List.map_cons, elementsOf, ih, none, List.append_nil]

theorem Loses.filter_elementsOf {apart : Text} {lost : Element} {nodes nodes' : List Node}
    (h : Loses apart lost nodes nodes') (named : lost.name = apart)
    (alone : ∀ e ∈ elementsOf lost.children, e.name ≠ apart) :
    ∃ xs ys, (elementsOf nodes).filter (·.name = apart) = xs ++ lost :: ys ∧
      (elementsOf nodes').filter (·.name = apart) = xs ++ ys := by
  subst named
  induction h with
  | here before after x y z _ =>
    have inner : (elementsOf lost.children).filter (·.name = lost.name) = [] := by
      rw [List.filter_eq_nil_iff]
      simpa using alone
    refine ⟨(elementsOf before).filter (·.name = lost.name), (elementsOf after).filter (·.name = lost.name), ?_, ?_⟩
    · simp [elementsOf_append, elementsOf_texts, elementsOf, elements, inner]
    · simp [elementsOf_append, elementsOf_texts]
  | inside before after name attributes other _ ih =>
    -- the element around it has another name, so it is in neither list
    obtain ⟨xs, ys, first, second⟩ := ih
    refine ⟨(elementsOf before).filter (·.name = lost.name) ++ xs,
      ys ++ (elementsOf after).filter (·.name = lost.name), ?_, ?_⟩
    · simp [elementsOf_append, elementsOf, elements, other, first]
    · simp [elementsOf_append, elementsOf, elements, other, second]

end Xml.Node

/-- The second document is the first without one `match` element, which is not the root, is in no other and has no other
in it. -/
structure Match.Deleted (d d' : Xml.Document) (lost : Xml.Element) : Prop where
  named : lost.name = elementName
  alone : ∀ e ∈ Xml.Node.elementsOf lost.children, e.name ≠ elementName
  root : d.name ≠ elementName
  name : d'.name = d.name
  attributes : d'.attributes = d.attributes
  children : Xml.Node.Loses elementName lost d.children d'.children

/-! ## Matches that cannot be shown -/

namespace Match

def Malformed (e : Xml.Element) : Prop :=
  (∀ written, e.attribute? "PatternID" = some written → Text.number? Text.bound64 (Text.trim written) = none) ∨
    e.attribute? "FullName" = none ∨ e.attribute? "FileName" = none

theorem ofElement?_eq_none_iff {e : Xml.Element} : ofElement? e = none ↔ Malformed e := by
  unfold ofElement? Malformed
  cases e.attribute? "PatternID" with
  | none => simp
  | some written =>
    cases number : Text.number? Text.bound64 (Text.trim written) with
    | none => simp [number]
    | some n => cases e.attribute? "FullName" <;> cases e.attribute? "FileName" <;> simp [number]

/-- Why a match is not shown: it is malformed, its pattern is none of the patterns, or its source cannot be read. -/
inductive FailsIn (u : FileTree) (patterns : List Pattern) (directory : Path) (e : Xml.Element) : Prop where
  | malformed (h : Malformed e)
  | noPattern (x : Match) (record : ofElement? e = some x) (unknown : ∀ p ∈ patterns, p.number ≠ x.pattern)
  | noSource (x : Match) (record : ofElement? e = some x)
    (unreadable : ∀ content, u.readFile (u.sourceOf directory x) ≠ .ok content)

theorem FailsIn.filter_eq_nil {u : FileTree} {patterns : List Pattern} {directory : Path} {e : Xml.Element}
    (fails : FailsIn u patterns directory e) {p : Pattern} (pattern : p ∈ patterns) :
    (ofPattern (ofElement? e).toList p.number).filter (u.HasSource directory) = [] := by
  cases fails with
  | malformed h => rw [ofElement?_eq_none_iff.2 h]; rfl
  | noPattern x record unknown =>
    have other : ¬ x.pattern = p.number := fun same => unknown p pattern same.symm
    simp [record, ofPattern, other]
  | noSource x record unreadable =>
    have source : u.HasSource directory x = false := by
      rw [Bool.eq_false_iff, FileTree.HasSource, ne_eq, FileTree.isFile_iff, not_exists]
      exact unreadable
    simp [record, ofPattern, List.filter_filter, source]

theorem Deleted.ofDocument {d d' : Xml.Document} {e : Xml.Element} (h : Deleted d d' e) :
    ∃ xs ys, Match.ofDocument d = xs ++ (ofElement? e).toList ++ ys ∧ Match.ofDocument d' = xs ++ ys := by
  obtain ⟨xs, ys, first, second⟩ := h.children.filter_elementsOf h.named h.alone
  have root : ¬ d.name = elementName := h.root
  refine ⟨xs.filterMap ofElement?, ys.filterMap ofElement?, ?_, ?_⟩
  · rw [Match.ofDocument, Xml.Element.descendants, List.filter_cons_of_neg (by simpa using root), first,
      List.filterMap_append, List.filterMap_cons]
    cases ofElement? e <;> simp
  · rw [Match.ofDocument, Xml.Element.descendants, List.filter_cons_of_neg (by simpa [h.name] using root), second,
      List.filterMap_append]

end Match

/-! ## The document in another version -/

def CorpusInput.replaced (u : FileTree) (k : Place) (d : Xml.Document) (c : CorpusInput) : CorpusInput :=
  { c with document := if u.placeOf c.path = k then d else c.document }

def Corpora.map (f : CorpusInput → CorpusInput) : Corpora → Corpora
  | one only => .one (f only)
  | two old new => .two (f old) (f new)

def Inputs.replaced (u : FileTree) (k : Place) (d : Xml.Document) (inputs : Inputs) : Inputs :=
  ⟨inputs.patterns, inputs.corpora.map (CorpusInput.replaced u k d)⟩

theorem Corpora.mem_toList_map {f : CorpusInput → CorpusInput} {corpora : Corpora} {c : Corpus × CorpusInput} :
    c ∈ (corpora.map f).toList ↔ ∃ c' ∈ corpora.toList, c = (c'.1, f c'.2) := by
  cases corpora with
  | one only => simp [map, toList]
  | two old new => simp [map, toList]

namespace FileTree

variable {t u : FileTree} {k : Place} {old content : Bytes} {d d' : Xml.Document}

theorem sourceOf_put (file : u.file? k = some old) (content : Bytes) (directory : Path) (x : Match) :
    FileTree.sourceOf (u.put k (.file content)) directory x = u.sourceOf directory x := by
  rw [sourceOf, sourceOf, isFile_put file]

theorem filter_hasSource_of_deleted {e : Xml.Element} (deleted : Match.Deleted d d' e) {patterns : List Pattern}
    {directory : Path} (fails : Match.FailsIn u patterns directory e) {p : Pattern} (pattern : p ∈ patterns) :
    (Match.ofPattern (Match.ofDocument d') p.number).filter (u.HasSource directory) =
      (Match.ofPattern (Match.ofDocument d) p.number).filter (u.HasSource directory) := by
  obtain ⟨xs, ys, first, second⟩ := deleted.ofDocument
  have middle := fails.filter_eq_nil pattern
  unfold Match.ofPattern at middle ⊢
  rw [first, second]
  simp only [List.filter_append, middle, List.append_nil]

/-! ### What is read -/

variable [Xml.Parser]

theorem document_replaced (file : u.file? k = some old) (reads : Xml.ofBytes? content = some d') {p : Path}
    (read : u.document p = .ok d) :
    FileTree.document (u.put k (.file content)) p = .ok (if u.placeOf p = k then d' else d) := by
  obtain ⟨bytes, found, here⟩ := document_eq_ok_iff.1 read
  by_cases same : u.placeOf p = k
  · rw [if_pos same]
    exact document_eq_ok_iff.2 ⟨content, readFile_replaced file content found same, reads⟩
  · rw [if_neg same]
    exact ((sameOutside_replaced file content).document_iff same d).2 read

theorem inputs_replaced (file : u.file? k = some old) (reads : Xml.ofBytes? content = some d') {r : Request}
    {c : Configuration} {inputs : Inputs} (read : u.inputs r c = .ok inputs)
    (patterns : u.placeOf (r.results.join c.patterns) ≠ k) :
    FileTree.inputs (u.put k (.file content)) r c = .ok (inputs.replaced u k d') := by
  obtain ⟨names, mode⟩ := c
  cases mode with
  | oneClass found =>
    obtain ⟨d, m, first, second, rfl⟩ := inputs_oneClass_eq_ok_iff.1 read
    have first' := document_replaced file reads first
    rw [if_neg patterns] at first'
    exact inputs_oneClass_eq_ok_iff.2 ⟨d, _, first', document_replaced file reads second, rfl⟩
  | twoClass oldMatches newMatches oldInputs newInputs =>
    obtain ⟨d, m, n, first, second, third, rfl⟩ := inputs_twoClass_eq_ok_iff.1 read
    have first' := document_replaced file reads first
    rw [if_neg patterns] at first'
    exact inputs_twoClass_eq_ok_iff.2
      ⟨d, _, _, first', document_replaced file reads second, document_replaced file reads third, rfl⟩

theorem document_of_inputs {r : Request} {c : Configuration} {inputs : Inputs} (read : u.inputs r c = .ok inputs)
    {y : Corpus × CorpusInput} (corpus : y ∈ inputs.corpora.toList) : u.document y.2.path = .ok y.2.document := by
  obtain ⟨names, mode⟩ := c
  cases mode with
  | oneClass found =>
    obtain ⟨d, m, -, second, rfl⟩ := inputs_oneClass_eq_ok_iff.1 read
    obtain rfl := List.mem_singleton.1 corpus
    exact second
  | twoClass oldMatches newMatches oldInputs newInputs =>
    obtain ⟨d, m, n, -, second, third, rfl⟩ := inputs_twoClass_eq_ok_iff.1 read
    rcases List.mem_cons.1 corpus with rfl | corpus
    · exact second
    · obtain rfl := List.mem_singleton.1 corpus
      exact third

theorem document_unique {p q : Path} {m n : Xml.Document} (first : u.document p = .ok m) (second : u.document q = .ok n)
    (same : u.placeOf p = u.placeOf q) : m = n := by
  obtain ⟨content, here, read⟩ := file?_of_document first
  obtain ⟨content', here', read'⟩ := file?_of_document second
  rw [same] at here
  obtain rfl := Option.some.inj (here.symm.trans here')
  exact Option.some.inj (read.symm.trans read')

/-! ### The same pages -/

theorem shownFor_put (file : u.file? k = some old) (content : Bytes) {directory : Path} {found : List Match}
    (elsewhere : ∀ x ∈ found.filter (u.HasSource directory),
      u.placeOf (u.sourceOf directory x) ≠ k ∧ u.placeOf (treePath (u.sourceOf directory x)) ≠ k) (trees : Trees) :
    FileTree.shownFor (u.put k (.file content)) directory trees found = u.shownFor directory trees found := by
  have same := sameOutside_replaced file content
  refine shownFor_congr (fun x mem trees => ?_) trees
  have sources : FileTree.HasSource (u.put k (.file content)) directory x = u.HasSource directory x := by
    rw [HasSource, HasSource, sourceOf_put file, isFile_put file]
  cases source : u.HasSource directory x with
  | false => rw [pageFor_of_not_hasSource trees source, pageFor_of_not_hasSource trees (sources.trans source)]
  | true =>
    obtain ⟨atSource, atTree⟩ := elsewhere x (List.mem_filter.2 ⟨mem, source⟩)
    exact pageFor_congr (sourceOf_put file content directory x) (same.sameWay atSource).readFile_iff
      (same.document_iff atTree) trees

end FileTree

/-! ## The run without the element -/

/-- The file at `k` holds matches, is read as nothing else and is not in the output directory. -/
structure Request.MatchesOnly (r : Request) (t u : FileTree) (c : Configuration) (inputs : Inputs) (k : Place) : Prop where
  configuration : ∀ p, t.configurationPath r = .ok p → t.placeOf p ≠ k
  patterns : u.placeOf (r.results.join c.patterns) ≠ k
  shown : ∀ y ∈ inputs.corpora.toList, ∀ p ∈ inputs.patternList, ∀ x ∈ u.matchesOf y.2 p.number,
    u.placeOf (u.sourceOf y.2.directory x) ≠ k ∧ u.placeOf (FileTree.treePath (u.sourceOf y.2.directory x)) ≠ k
  output : ¬ (u.placeOf r.output).Below k

section Rerun

variable {r : Request} {t u : FileTree} {c : Configuration} {inputs : Inputs} {k : Place} {old content : Bytes}
  {d d' : Xml.Document} {e : Xml.Element}

structure Inputs.Deletes (u : FileTree) (k : Place) (d' : Xml.Document) (e : Xml.Element) (inputs : Inputs) : Prop where
  deleted : ∀ y ∈ inputs.corpora.toList, u.placeOf y.2.path = k → Match.Deleted y.2.document d' e
  fails : ∀ y ∈ inputs.corpora.toList, u.placeOf y.2.path = k →
    Match.FailsIn u inputs.patternList y.2.directory e

theorem filter_hasSource_replaced (deletes : inputs.Deletes u k d' e) {y : Corpus × CorpusInput}
    (corpus : y ∈ inputs.corpora.toList) {p : Pattern} (pattern : p ∈ inputs.patternList) :
    (Match.ofPattern (Match.ofDocument (y.2.replaced u k d').document) p.number).filter (u.HasSource y.2.directory) =
      (Match.ofPattern (Match.ofDocument y.2.document) p.number).filter (u.HasSource y.2.directory) := by
  unfold CorpusInput.replaced
  by_cases here : u.placeOf y.2.path = k
  · simp only [if_pos here]
    exact FileTree.filter_hasSource_of_deleted (deletes.deleted y corpus here) (deletes.fails y corpus here) pattern
  · simp only [if_neg here]

theorem entries_replaced (supports : ∀ old new, inputs.corpora = .two old new →
      ∀ p ∈ inputs.patternList, ∃ support, p.classSupport = .ok support) (u : FileTree) (k : Place) (d' : Xml.Document) :
    (inputs.replaced u k d').corpora.entries inputs.patternList = inputs.corpora.entries inputs.patternList := by
  cases corpora : inputs.corpora with
  | one one => rw [Inputs.replaced, corpora]; rfl
  | two old new =>
    rw [Inputs.replaced, corpora]
    refine List.map_congr_left fun p pattern => ?_
    obtain ⟨support, written⟩ := supports old new corpora p pattern
    rw [Assembly.supportIn, Assembly.supportIn, written]

theorem outside_replaced (file : u.file? k = some old) (deletes : inputs.Deletes u k d' e) (content : Bytes)
    {output : Path} (outside : inputs.Outside output u) :
    (inputs.replaced u k d').Outside output (u.put k (.file content)) := by
  intro y' corpus' p pattern x found path mem
  obtain ⟨y, corpus, rfl⟩ := Corpora.mem_toList_map.1 corpus'
  have recorded : x ∈ Match.ofPattern (Match.ofDocument y.2.document) p.number := by
    unfold CorpusInput.replaced Match.ofPattern at found
    by_cases here : u.placeOf y.2.path = k
    · obtain ⟨xs, ys, first, second⟩ := (deletes.deleted y corpus here).ofDocument
      simp only [if_pos here, second, List.filter_append, List.mem_append] at found
      rw [Match.ofPattern, first]
      simp only [List.filter_append, List.mem_append]
      tauto
    · rwa [if_neg here] at found
  refine outside y corpus p pattern x recorded path ?_
  have source : FileTree.sourceOf (u.put k (.file content)) y.2.directory x = u.sourceOf y.2.directory x :=
    FileTree.sourceOf_put file content y.2.directory x
  unfold FileTree.inputPaths at mem
  rwa [show (CorpusInput.replaced u k d' y.2).directory = y.2.directory from rfl, source] at mem

variable [Xml.Parser]

theorem shownFor_replaced (only : r.MatchesOnly t u c inputs k) (file : u.file? k = some old)
    (deletes : inputs.Deletes u k d' e) (content : Bytes) {y : Corpus × CorpusInput} (corpus : y ∈ inputs.corpora.toList)
    {p : Pattern} (pattern : p ∈ inputs.patternList) (trees : Trees) :
    FileTree.shownFor (u.put k (.file content)) y.2.directory trees
        (Match.ofPattern (Match.ofDocument (y.2.replaced u k d').document) p.number) =
      u.shownFor y.2.directory trees (Match.ofPattern (Match.ofDocument y.2.document) p.number) := by
  have filtered := filter_hasSource_replaced deletes corpus pattern
  have shown := only.shown y corpus p pattern
  rw [FileTree.matchesOf_eq, ← filtered] at shown
  rw [FileTree.shownFor_put file content shown, ← u.shownFor_filter, filtered, u.shownFor_filter]

theorem listings_replaced (only : r.MatchesOnly t u c inputs k) (file : u.file? k = some old)
    (deletes : inputs.Deletes u k d' e) (content : Bytes) :
    (inputs.replaced u k d').corpora.listings (u.put k (.file content)) inputs.patternList =
      inputs.corpora.listings u inputs.patternList := by
  have shown (y : Corpus × CorpusInput) (corpus : y ∈ inputs.corpora.toList) (p : Pattern)
      (pattern : p ∈ inputs.patternList) := shownFor_replaced only file deletes content corpus pattern
  obtain ⟨patterns, corpora⟩ := inputs
  cases corpora with
  | one one =>
    exact FileTree.listings_congr (c := one.collection .old) (d := (one.replaced u k d').collection .old) rfl
      (shown (.old, one) List.mem_cons_self) []
  | two old new =>
    have oldSame := FileTree.listings_congr (c := old.collection .old)
      (d := (old.replaced u k d').collection .old) rfl (shown (.old, old) List.mem_cons_self) []
    have newSame := FileTree.listings_congr (c := new.collection .new)
      (d := (new.replaced u k d').collection .new) rfl (shown (.new, new) (List.mem_cons_of_mem _ List.mem_cons_self)) []
    rw [Inputs.replaced, Corpora.map, Corpora.listings, Corpora.listings, oldSame, newSame]

theorem sheets_replaced (only : r.MatchesOnly t u c inputs k) (file : u.file? k = some old)
    (deletes : inputs.Deletes u k d' e) (supports : ∀ old new, inputs.corpora = .two old new →
      ∀ p ∈ inputs.patternList, ∃ support, p.classSupport = .ok support) (content : Bytes) :
    (inputs.replaced u k d').sheets r (u.put k (.file content)) = inputs.sheets r u := by
  have listings := listings_replaced only file deletes content
  have entries := entries_replaced supports u k d'
  have patterns : (inputs.replaced u k d').patternList = inputs.patternList := rfl
  rw [Inputs.sheets, Inputs.sheets, patterns, listings, entries]

theorem report_replaced (only : r.MatchesOnly t u c inputs k) (file : u.file? k = some old)
    (deletes : inputs.Deletes u k d' e) (content : Bytes) :
    (inputs.replaced u k d').report r (u.put k (.file content)) = inputs.report r u := by
  have patterns : (inputs.replaced u k d').patternList = inputs.patternList := rfl
  rw [Inputs.report, Inputs.report, patterns, listings_replaced only file deletes content]

end Rerun

namespace FileTree

variable {t u : FileTree} {k : Place} {old : Bytes}

theorem createDirectories_put (file : t.file? k = some old) {p : Path} (made : t.createDirectories p = (u, .ok ()))
    (content : Bytes) :
    FileTree.createDirectories (t.put k (.file content)) p = (u.put k (.file content), .ok ()) := by
  have same := sameOutside_replaced file content
  obtain ⟨w, made', same'⟩ := exists_createDirectories same (fun place _ => sameKind_put file content place) made
  have kept := made_createDirectories (t.put k (.file content)) p
  rw [made'] at kept
  have equal : w = u.put k (.file content) := by
    refine FileTree.ext same'.workingDirectory fun place => ?_
    rw [get?_put]
    by_cases here : place = k
    · rw [if_pos here, here]
      have there := get?_put t k k (.file content)
      rw [if_pos rfl] at there
      rcases kept.get? k with unchanged | ⟨free, -⟩
      · exact unchanged.trans there
      · rw [entry_put t _ (ne_nil_of_file file), if_pos rfl] at free
        cases free
    · rw [if_neg here, same'.get?_eq here]
  rw [made', equal]

theorem configuration_put (file : t.file? k = some old) (content : Bytes) {r : Request} {c : Configuration}
    (read : t.configuration r = .ok c) (elsewhere : ∀ p, t.configurationPath r = .ok p → t.placeOf p ≠ k) :
    FileTree.configuration (t.put k (.file content)) r = .ok c := by
  obtain ⟨p, bytes, source, path, found, decoded, parsed⟩ := configuration_eq_ok_iff.1 read
  have samePath := configurationPath_congr (names_put file content) (isFile_put file content) r
  have found' := (sameOutside_replaced file content).readFile (elsewhere p path) found
  exact configuration_eq_ok_iff.2 ⟨p, bytes, source, samePath.trans path, found', decoded, parsed⟩

end FileTree

namespace Request

variable [Xml.Parser] {r : Request} {t t' u : FileTree} {c : Configuration} {inputs : Inputs} {report : Report} {k : Place}
  {content : Bytes} {d' : Xml.Document} {e : Xml.Element}

theorem Reads.replaced {old : Bytes} (reads : r.Reads t c u inputs) (file : t.file? k = some old)
    (only : r.MatchesOnly t u c inputs k) (read : Xml.ofBytes? content = some d') :
    r.Reads (t.put k (.file content)) c (u.put k (.file content)) (inputs.replaced u k d') where
  configuration := FileTree.configuration_put file content reads.configuration only.configuration
  output := FileTree.createDirectories_put file reads.output content
  inputs := by
    have fileU := (made_of_createDirectories reads.output).file?_eq k
    exact FileTree.inputs_replaced (fileU.trans file) read reads.inputs only.patterns

/-- A run leaves the same pages and the same report if an element is deleted that it could not show: one that is malformed,
or of no pattern, or without a source. -/
theorem failing_match_leaves_no_trace (ok : r.runOn t = (.ok report, t')) (reads : r.Reads t c u inputs)
    (outside : inputs.Outside r.output u) (only : r.MatchesOnly t u c inputs k)
    (supports : ∀ old new, inputs.corpora = .two old new →
      ∀ p ∈ inputs.patternList, ∃ support, p.classSupport = .ok support)
    {y : Corpus × CorpusInput} (corpus : y ∈ inputs.corpora.toList) (here : u.placeOf y.2.path = k)
    (deleted : Match.Deleted y.2.document d' e)
    (fails : ∀ y' ∈ inputs.corpora.toList, u.placeOf y'.2.path = k →
      Match.FailsIn u inputs.patternList y'.2.directory e)
    (read : Xml.ofBytes? content = some d') :
    r.runOn (t.put k (.file content)) = (.ok report, t'.put k (.file content)) := by
  obtain ⟨rfl, rfl, ready⟩ := reads.published outside ok
  -- the element is deleted from every corpus that reads the file
  have document := FileTree.document_of_inputs reads.inputs corpus
  obtain ⟨old, file, -⟩ := FileTree.file?_of_document document
  rw [here] at file
  have fileT : t.file? k = some old := ((made_of_createDirectories reads.output).file?_eq k).symm.trans file
  have deletes : inputs.Deletes u k d' e := by
    refine ⟨fun y' corpus' here' => ?_, fails⟩
    have same := FileTree.document_unique document (FileTree.document_of_inputs reads.inputs corpus')
      (here.trans here'.symm)
    rwa [← same]
  -- the second run comes to the same sheets, and they go to other places than the file
  have sheets := sheets_replaced only file deletes supports content
  have ready' : ∀ s ∈ (inputs.replaced u k d').sheets r (u.put k (.file content)),
      Assembly.Ready r.output (u.put k (.file content)) s := by
    rw [sheets]
    exact fun s mem => (ready s mem).of_same (FileTree.sameOutside_replaced file content)
  have rerun := (reads.replaced fileT only read).publishes (outside_replaced file deletes content outside) ready'
  rw [rerun, report_replaced only file deletes content, sheets, Assembly.putSheets_put u only.output]

end Request

namespace Sample

def lost : Xml.Element :=
  ⟨Match.elementName, [⟨none, "PatternID".toList, "1".toList⟩, ⟨none, "FullName".toList, "f".toList⟩,
    ⟨none, "FileName".toList, "x".toList⟩], []⟩

def kept : Xml.Node :=
  .element Match.elementName [⟨none, "PatternID".toList, "1".toList⟩, ⟨none, "FullName".toList, "g".toList⟩,
    ⟨none, "FileName".toList, "y".toList⟩] []

def inputs : Inputs :=
  ⟨⟨"p".toList, [], [.element Pattern.elementName [] []]⟩,
    .one ⟨⟨"s".toList⟩, ⟨"r/m.xml".toList⟩,
      ⟨"m".toList, [], [.element lost.name lost.attributes lost.children, kept]⟩⟩⟩

def settings : Configuration := ⟨"p.xml".toList, .oneClass "m.xml".toList⟩

def shorterText : Text.Bytes := Text.encode "<m><match PatternID='1' FullName='g' FileName='y'/></m>".toList

end Sample

theorem Request.failing_match_leaves_no_trace_unread :
    (Sample.request.runOn Sample.tree).1 = .ok Sample.report ∧
      Sample.request.Reads Sample.tree Sample.settings (Sample.tree.createDirectories Sample.request.output).1
        Sample.inputs ∧
      Xml.ofBytes? Sample.shorterText = some ⟨"m".toList, [], [Sample.kept]⟩ ∧
      Sample.request.runOn (Sample.tree.put ["m.xml".toList, "r".toList] (.file Sample.shorterText)) =
        (.ok Sample.report, FileTree.put (Sample.request.runOn Sample.tree).2 ["m.xml".toList, "r".toList]
          (.file Sample.shorterText)) := by
  have reads : Sample.request.Reads Sample.tree Sample.settings
      (Sample.tree.createDirectories Sample.request.output).1 Sample.inputs :=
    ⟨by decide +kernel, Prod.ext rfl (by decide +kernel), by decide +kernel⟩
  have read : Xml.ofBytes? Sample.shorterText = some ⟨"m".toList, [], [Sample.kept]⟩ := by decide +kernel
  have deleted : Match.Deleted ⟨"m".toList, [], [.element Sample.lost.name Sample.lost.attributes Sample.lost.children,
      Sample.kept]⟩ ⟨"m".toList, [], [Sample.kept]⟩ Sample.lost :=
    ⟨rfl, fun _ mem => (nomatch mem), by decide, rfl, rfl, .here [] [Sample.kept] [] [] [] rfl⟩
  have path : Sample.tree.configurationPath Sample.request = .ok ⟨"r/c.conf".toList⟩ := by decide +kernel
  have only : Sample.request.MatchesOnly Sample.tree (Sample.tree.createDirectories Sample.request.output).1
      Sample.settings Sample.inputs ["m.xml".toList, "r".toList] := by
    refine ⟨fun p found => ?_, by decide +kernel, by decide +kernel, by decide +kernel⟩
    obtain rfl := Except.ok.inj (found.symm.trans path)
    decide +kernel
  refine ⟨Sample.runs, reads, read, failing_match_leaves_no_trace (Prod.ext Sample.runs rfl) reads (by decide +kernel)
    only ?_ List.mem_cons_self (by decide +kernel) deleted ?_ read⟩
  · intro old new two
    cases two
  · intro y corpus _
    obtain rfl := List.mem_singleton.1 corpus
    refine .noSource ⟨1, "f".toList, "x".toList, []⟩ (by decide +kernel) fun content found => ?_
    have unread : FileTree.readFile (Sample.tree.createDirectories Sample.request.output).1
        (FileTree.sourceOf (Sample.tree.createDirectories Sample.request.output).1 ⟨"s".toList⟩
          ⟨1, "f".toList, "x".toList, []⟩) = .error .notFound := by decide +kernel
    cases unread.symm.trans found

/-! ## A document with two roles -/

namespace Sample

def sharedTree : FileTree :=
  .holding [
    (["r".toList], .directory),
    (["c.conf".toList, "r".toList], .file (Text.encode "outputPath=x.xml\noutputMatches=x.xml".toList)),
    (["x.xml".toList, "r".toList], .file (Text.encode "<m><match><subtree/></match></m>".toList))]

/-- The matches of both corpora are read from one document; only the new corpus has the source. -/
def pairedTree : FileTree :=
  .holding [
    (["r".toList], .directory),
    (["c.conf".toList, "r".toList], .file (Text.encode
      "2Class=true\noutputPath=p.xml\noutputMatches1=x.xml\noutputMatches2=x.xml\ninputFiles1=a\ninputFiles2=b".toList)),
    (["p.xml".toList, "r".toList], .file (Text.encode "<p><subtree Support='1-1'/></p>".toList)),
    (["x.xml".toList, "r".toList], .file (Text.encode "<m><match PatternID='1' FullName='f' FileName='x'/></m>".toList)),
    (["s".toList], .directory),
    (["b".toList, "s".toList], .directory),
    (["x".toList, "b".toList, "s".toList], .file (Text.encode "int x;".toList))]

def unnamed : Xml.Element := ⟨Match.elementName, [], [.element Pattern.elementName [] []]⟩

def around (e : Xml.Element) : Xml.Document := ⟨"m".toList, [], [.element e.name e.attributes e.children]⟩

def emptied : Xml.Document := ⟨"m".toList, [], []⟩

def emptyText : Text.Bytes := Text.encode "<m></m>".toList

def rerun (t : FileTree) : Except Error Report :=
  (request.runOn (t.put ["x.xml".toList, "r".toList] (.file emptyText))).1

end Sample

/-- A document with a second role leaves a trace: a malformed match may have a pattern in it, and a match without a source in
one corpus may have one in the other. -/
theorem Request.deleting_from_shared_document :
    Xml.ofBytes? Sample.emptyText = some Sample.emptied ∧
      (Sample.sharedTree.configuration Sample.request = .ok ⟨"x.xml".toList, .oneClass "x.xml".toList⟩ ∧
        Sample.request.InputsOutside Sample.sharedTree ∧
        Sample.sharedTree.document ⟨"r/x.xml".toList⟩ = .ok (Sample.around Sample.unnamed) ∧
        Match.Deleted (Sample.around Sample.unnamed) Sample.emptied Sample.unnamed ∧
        Match.Malformed Sample.unnamed ∧
        (Sample.request.runOn Sample.sharedTree).1 = .ok ⟨1, 0, ⟨"o/index.html".toList⟩⟩ ∧
        Sample.rerun Sample.sharedTree = .ok ⟨0, 0, ⟨"o/index.html".toList⟩⟩) ∧
      Sample.pairedTree.configuration Sample.request =
          .ok ⟨"p.xml".toList, .twoClass "x.xml".toList "x.xml".toList "a".toList "b".toList⟩ ∧
        Sample.request.InputsOutside Sample.pairedTree ∧
        Sample.pairedTree.document ⟨"r/x.xml".toList⟩ = .ok (Sample.around Sample.lost) ∧
        Match.Deleted (Sample.around Sample.lost) Sample.emptied Sample.lost ∧
        Sample.pairedTree.readFile ⟨"s/a/x".toList⟩ = .error .notFound ∧
        (Sample.request.runOn Sample.pairedTree).1 = .ok ⟨1, 1, ⟨"o/index.html".toList⟩⟩ ∧
        Sample.rerun Sample.pairedTree = .ok ⟨1, 0, ⟨"o/index.html".toList⟩⟩ := by
  have unnamed : Match.Deleted (Sample.around Sample.unnamed) Sample.emptied Sample.unnamed :=
    ⟨rfl, by decide +kernel, by decide, rfl, rfl, .here [] [] [] [] [] rfl⟩
  have lost : Match.Deleted (Sample.around Sample.lost) Sample.emptied Sample.lost :=
    ⟨rfl, fun _ mem => (nomatch mem), by decide, rfl, rfl, .here [] [] [] [] [] rfl⟩
  refine ⟨by decide +kernel, ⟨?_, ?_, ?_, unnamed, .inr (.inl rfl), ?_, ?_⟩, ?_, ?_, ?_, lost, ?_, ?_, ?_⟩
  all_goals decide +kernel

end PatternPages
