import Mathlib.Data.List.Nodup
import PatternPages.Proofs.Sheets

/-! The pages of a run. Each writer of the assembly writes the sheets of its listings, whatever it finds in the output
directory; and whether it gets through or not, it writes to the places of its own pages only. -/
namespace PatternPages

open Assembly (Action)

namespace Pattern

theorem map_number_numbered (number : Nat) (elements : List Xml.Element) :
    (numbered number elements).map Pattern.number = List.range' number elements.length := by
  induction elements generalizing number with
  | nil => rfl
  | cons e rest ih => rw [numbered, List.map_cons, ih, List.length_cons, List.range'_succ]

theorem length_numbered (number : Nat) (elements : List Xml.Element) :
    (numbered number elements).length = elements.length := by
  rw [← List.length_map, map_number_numbered, List.length_range']

/-- Patterns are numbered from 1 without gaps. -/
theorem map_number_ofDocument (d : Xml.Document) :
    (ofDocument d).map Pattern.number = List.range' 1 (ofDocument d).length := by
  rw [ofDocument, map_number_numbered, length_numbered]

theorem number_le_of_mem {d : Xml.Document} {p : Pattern} (mem : p ∈ ofDocument d) :
    1 ≤ p.number ∧ p.number ≤ (ofDocument d).length := by
  have number := List.mem_map_of_mem (f := Pattern.number) mem
  rw [map_number_ofDocument, List.mem_range'_1] at number
  omega

theorem number_getElem {d : Xml.Document} {k : Nat} (h : k < (ofDocument d).length) :
    (ofDocument d)[k].number = k + 1 := by
  have number := List.getElem_of_eq (map_number_ofDocument d) (i := k) (by simpa using h)
  rw [List.getElem_map, List.getElem_range'] at number
  omega

theorem exists_number {d : Xml.Document} {k : Nat} (first : 1 ≤ k) (last : k ≤ (ofDocument d).length) :
    ∃ p ∈ ofDocument d, p.number = k := by
  have number : k ∈ (ofDocument d).map Pattern.number := by
    rw [map_number_ofDocument, List.mem_range'_1]
    omega
  exact List.mem_map.1 number

end Pattern

namespace Listing

def total (listings : List Listing) : Nat := (listings.flatMap Listing.shown).length

theorem total_cons (l : Listing) (rest : List Listing) : total (l :: rest) = l.shown.length + total rest := by
  rw [total, List.flatMap_cons, List.length_append, total]

end Listing

variable [Xml.Parser]

namespace Corpora

def listings (t : FileTree) (patterns : List Pattern) : Corpora → List Listing
  | one only => t.listings (only.collection .old) [] patterns
  | two old new =>
    ((t.listings (old.collection .old) [] patterns).zip (t.listings (new.collection .new) [] patterns)).flatMap
      fun both => [both.1, both.2]

def entries (patterns : List Pattern) : Corpora → List Html.Node
  | one _ => patterns.map fun p => Html.patternLink p.number Corpus.old.label
  | two old new => patterns.map fun p =>
    let support := Assembly.supportIn (old.collection .old) (new.collection .new) p
    Html.comparisonLink p.number support.1 support.2

end Corpora

namespace Inputs

/-- All pages of a run, in the order in which they are written. -/
def sheets (r : Request) (t : FileTree) (inputs : Inputs) : List Sheet :=
  (inputs.corpora.listings t inputs.patternList).flatMap Listing.sheets ++
    [⟨.patterns, .ok (Html.patternsPage (Assembly.resultsName r.results)
        (inputs.corpora.entries inputs.patternList)).render⟩,
      ⟨.index, .ok Html.framesPage⟩]

def report (r : Request) (t : FileTree) (inputs : Inputs) : Report :=
  ⟨inputs.patternList.length, Listing.total (inputs.corpora.listings t inputs.patternList),
    r.output.join Html.indexFile⟩

/-- Nothing that is looked up for the matches of the patterns lies in the output directory. -/
def Outside (output : Path) (t : FileTree) (inputs : Inputs) : Prop :=
  ∀ c ∈ inputs.corpora.toList, ∀ p ∈ inputs.patternList,
    ∀ x ∈ Match.ofPattern (Match.ofDocument c.2.document) p.number,
      ∀ path ∈ t.inputPaths c.2.directory x, ¬ (t.placeOf output).Below (t.placeOf path)

instance (output : Path) (t : FileTree) (inputs : Inputs) : Decidable (inputs.Outside output t) :=
  inferInstanceAs (Decidable (∀ c ∈ _, ∀ p ∈ _, ∀ x ∈ _, ∀ path ∈ _, _))

end Inputs

namespace Assembly

section Writers

variable {output : Path} {t : FileTree} {c : Collection}

def OutsideFor (output : Path) (t : FileTree) (directory : Path) (found : List Match) : Prop :=
  ∀ x ∈ found, ∀ p ∈ t.inputPaths directory x, ¬ (t.placeOf output).Below (t.placeOf p)

theorem matchPage_eq {directory : Path} {x : Match}
    (outside : ∀ p ∈ t.inputPaths directory x, ¬ (t.placeOf output).Below (t.placeOf p)) (trees : Trees) {u : FileTree}
    (same : t.SameOutside (t.placeOf output).Below u) :
    (matchPage directory trees x : StateM FileTree _) u = (t.pageFor directory trees x, u) := by
  rw [FileTree.run_matchPage, same.pageFor_eq outside]

theorem writes_writeMatches {found : List Match} (outside : OutsideFor output t c.directory found) (pattern : Nat)
    (trees : Trees) (number : Nat) :
    Writes output t (writeMatches output c pattern trees number found)
      ((t.shownFor c.directory trees found).2.mapIdx fun i x =>
        ⟨.source pattern (i + number) c.corpus, x.page.map Html.Page.render⟩)
      ((t.shownFor c.directory trees found).1, (t.shownFor c.directory trees found).2.mapIdx fun i x =>
        Html.matchLink (Html.matchFile pattern (i + number) c.corpus.label) (i + number) x.found.fullName) := by
  induction found generalizing trees number with
  | nil => exact Writes.pure output t _
  | cons x rest ih =>
    have outsideRest : OutsideFor output t c.directory rest := fun y hy => outside y (List.mem_cons_of_mem x hy)
    refine Writes.read (fun u => matchPage_eq (outside x List.mem_cons_self) trees) ?_
    rw [FileTree.shownFor]
    cases t.pageFor c.directory trees x with
    | mk known shown =>
      cases shown with
      | none => exact ih outsideRest known number  -- the number is taken by the next match with a source
      | some page =>
        have others := (ih outsideRest known (number + 1)).map fun both =>
          (both.1, Html.matchLink (Html.matchFile pattern number c.corpus.label) number x.fullName :: both.2)
        have shift (i : Nat) : i + 1 + number = i + (number + 1) := by omega
        simp only [List.mapIdx_cons, Nat.zero_add, shift]
        exact (Writes.writePage output t (.source pattern number c.corpus) (page.map Html.Page.render)).bind others

theorem writes_writePattern {pattern : Nat} (outside : OutsideFor output t c.directory (Match.ofPattern c.found pattern))
    (trees : Trees) :
    Writes output t (writePattern output c trees pattern)
      (Listing.sheets ⟨pattern, c.corpus, (t.shownFor c.directory trees (Match.ofPattern c.found pattern)).2⟩)
      ((t.shownFor c.directory trees (Match.ofPattern c.found pattern)).1,
        (t.shownFor c.directory trees (Match.ofPattern c.found pattern)).2.length) := by
  have pages := writes_writeMatches outside pattern trees 1
  generalize t.shownFor c.directory trees (Match.ofPattern c.found pattern) = found at pages ⊢
  have listing := (Writes.writePage output t (.listing pattern c.corpus)
    (.ok (Html.matchesPage pattern (Listing.links ⟨pattern, c.corpus, found.2⟩)).render)).map
      fun _ => (found.1, (Listing.links ⟨pattern, c.corpus, found.2⟩).length)
  have count : (Listing.links ⟨pattern, c.corpus, found.2⟩).length = found.2.length := List.length_mapIdx
  rw [← count]
  exact pages.bind listing

theorem writes_writeOneClass {patterns : List Pattern}
    (outside : ∀ p ∈ patterns, OutsideFor output t c.directory (Match.ofPattern c.found p.number)) (trees : Trees) :
    Writes output t (writeOneClass output c trees patterns) ((t.listings c trees patterns).flatMap Listing.sheets)
      (patterns.map fun p => Html.patternLink p.number c.corpus.label,
        Listing.total (t.listings c trees patterns)) := by
  induction patterns generalizing trees with
  | nil => exact Writes.pure output t _
  | cons p rest ih =>
    have outsideRest : ∀ q ∈ rest, OutsideFor output t c.directory (Match.ofPattern c.found q.number) :=
      fun q hq => outside q (List.mem_cons_of_mem p hq)
    refine (writes_writePattern (outside p List.mem_cons_self) trees).bind ?_
    rw [FileTree.listings, Listing.total_cons]
    exact (ih outsideRest _).map fun both =>
      (Html.patternLink p.number c.corpus.label :: both.1, _ + both.2)

theorem writes_writeTwoClass {old new : Collection} {patterns : List Pattern}
    (outsideOld : ∀ p ∈ patterns, OutsideFor output t old.directory (Match.ofPattern old.found p.number))
    (outsideNew : ∀ p ∈ patterns, OutsideFor output t new.directory (Match.ofPattern new.found p.number))
    (oldTrees newTrees : Trees) :
    Writes output t (writeTwoClass output old new oldTrees newTrees patterns)
      ((((t.listings old oldTrees patterns).zip (t.listings new newTrees patterns)).flatMap
        fun both => [both.1, both.2]).flatMap Listing.sheets)
      (patterns.map fun p => Html.comparisonLink p.number (supportIn old new p).1 (supportIn old new p).2,
        Listing.total (((t.listings old oldTrees patterns).zip (t.listings new newTrees patterns)).flatMap
          fun both => [both.1, both.2])) := by
  induction patterns generalizing oldTrees newTrees with
  | nil => exact Writes.pure output t _
  | cons p rest ih =>
    have others := ih (fun q hq => outsideOld q (List.mem_cons_of_mem p hq))
      (fun q hq => outsideNew q (List.mem_cons_of_mem p hq))
    have oldPages := writes_writePattern (outsideOld p List.mem_cons_self) oldTrees
    have newPages := writes_writePattern (outsideNew p List.mem_cons_self) newTrees
    rw [FileTree.listings, FileTree.listings]
    simp only [List.zip_cons_cons, List.flatMap_cons, List.cons_append, List.nil_append, List.map_cons,
      Listing.total_cons, ← Nat.add_assoc]
    refine oldPages.bind (newPages.bind ?_)
    exact (others _ _).map fun both => (Html.comparisonLink p.number _ _ :: both.1, _ + both.2)

end Writers

theorem writes_publish {r : Request} {t : FileTree} {inputs : Inputs} (outside : inputs.Outside r.output t) :
    Writes r.output t (publish r inputs) (inputs.sheets r t) (inputs.report r t) := by
  have corpora : Writes r.output t (writeCorpora r.output inputs.patternList inputs.corpora)
      ((inputs.corpora.listings t inputs.patternList).flatMap Listing.sheets)
      (inputs.corpora.entries inputs.patternList,
        Listing.total (inputs.corpora.listings t inputs.patternList)) := by
    unfold Inputs.Outside at outside
    cases same : inputs.corpora with
    | one only =>
      rw [same] at outside
      exact writes_writeOneClass (outside (.old, only) (by simp [Corpora.toList])) []
    | two old new =>
      rw [same] at outside
      exact writes_writeTwoClass (outside (.old, old) (by simp [Corpora.toList]))
        (outside (.new, new) (by simp [Corpora.toList])) [] []
  refine corpora.bind ?_
  refine Writes.bind (Writes.writePage r.output t .patterns _) ?_
  exact (Writes.writePage r.output t .index (.ok Html.framesPage)).map fun _ => _

end Assembly

namespace Request

variable {r : Request} {t u t' : FileTree} {c : Configuration} {inputs : Inputs} {report : Report}

/-- No input of the run lies in the output directory. -/
def InputsOutside (r : Request) (t : FileTree) : Prop :=
  ∀ c u inputs, r.Reads t c u inputs → inputs.Outside r.output u

theorem Reads.unique (reads : r.Reads t c u inputs) {c' : Configuration} {u' : FileTree} {inputs' : Inputs}
    (reads' : r.Reads t c' u' inputs') : c' = c ∧ u' = u ∧ inputs' = inputs := by
  obtain rfl := Except.ok.inj (reads.configuration.symm.trans reads'.configuration)
  obtain ⟨rfl, -⟩ := Prod.ext_iff.1 (reads.output.symm.trans reads'.output)
  exact ⟨rfl, rfl, (Except.ok.inj (reads.inputs.symm.trans reads'.inputs)).symm⟩

theorem Reads.inputsOutside_iff (reads : r.Reads t c u inputs) : inputs.Outside r.output u ↔ r.InputsOutside t := by
  constructor
  · intro outside c' u' inputs' reads'
    obtain ⟨-, rfl, rfl⟩ := reads.unique reads'
    exact outside
  · intro outside
    exact outside c u inputs reads

instance (r : Request) (t : FileTree) : Decidable (r.InputsOutside t) :=
  match configuration : t.configuration r with
  | .error _ => isTrue fun _ _ _ reads => nomatch configuration.symm.trans reads.configuration
  | .ok c =>
    match output : t.createDirectories r.output with
    | (_, .error _) => isTrue fun _ _ _ reads => nomatch (Prod.ext_iff.1 (output.symm.trans reads.output)).2
    | (u, .ok ()) =>
      match read : u.inputs r c with
      | .error _ => isTrue fun _ _ _ reads => by
          obtain rfl := Except.ok.inj (configuration.symm.trans reads.configuration)
          obtain ⟨rfl, -⟩ := Prod.ext_iff.1 (output.symm.trans reads.output)
          cases read.symm.trans reads.inputs
      | .ok inputs => decidable_of_iff (inputs.Outside r.output u)
          (Reads.inputsOutside_iff ⟨configuration, output, read⟩)

theorem Reads.published (reads : r.Reads t c u inputs) (outside : inputs.Outside r.output u)
    (ok : r.runOn t = (.ok report, t')) :
    report = inputs.report r u ∧ t' = Assembly.putSheets r.output u (inputs.sheets r u) ∧
      ∀ s ∈ inputs.sheets r u, Assembly.Ready r.output u s := by
  rw [reads.runOn_eq, Assembly.writes_publish outside u (FileTree.SameOutside.refl _ u)] at ok
  obtain ⟨_, v, wrote, ended⟩ := Action.on_bind_eq_ok ok
  have ready := Assembly.ready_of_on_writeSheets wrote
  rw [Assembly.on_writeSheets_of_ready ready] at wrote
  obtain ⟨-, rfl⟩ := Prod.ext_iff.1 wrote
  obtain ⟨result, tree⟩ := Prod.ext_iff.1 ended
  exact ⟨(Except.ok.inj result).symm, tree.symm, ready⟩

/-- A run gets through if all its pages can be rendered and written. -/
theorem Reads.publishes (reads : r.Reads t c u inputs) (outside : inputs.Outside r.output u)
    (ready : ∀ s ∈ inputs.sheets r u, Assembly.Ready r.output u s) :
    r.runOn t = (.ok (inputs.report r u), Assembly.putSheets r.output u (inputs.sheets r u)) := by
  rw [reads.runOn_eq, Assembly.writes_publish outside u (FileTree.SameOutside.refl _ u),
    Action.on_bind_of_ok (Assembly.on_writeSheets_of_ready ready)]
  rfl

end Request

namespace Assembly

/-! ## Where pages are written -/

structure PagesOf (names : PageName → Prop) (pattern : Nat) (corpus : Corpus) : Prop where
  listing : names (.listing pattern corpus)
  source : ∀ number, 1 ≤ number → names (.source pattern number corpus)

section Places

variable {names : PageName → Prop} {output : Path} {c : Collection}

theorem keeps_writeMatches {pattern number : Nat} (pages : PagesOf names pattern c.corpus) (counted : 1 ≤ number)
    (trees : Trees) (found : List Match) :
    Action.Keeps (Wrote names output) (writeMatches output c pattern trees number found) := by
  induction found generalizing trees number with
  | nil => exact Action.Keeps.pure (Wrote.refl names output) _
  | cons x rest ih =>
    have quiet : Action.Keeps (Wrote names output) (liftM (matchPage c.directory trees x : StateM FileTree _)) := by
      intro t
      rw [Action.on_lift, FileTree.run_matchPage]
      exact Wrote.refl names output t
    refine keeps_bind quiet fun both => ?_
    cases both with
    | mk known page =>
      cases page with
      | none => exact ih counted known
      | some page =>
        refine keeps_bind (keeps_writePage (pages.source number counted) (page.map Html.Page.render)) fun _ => ?_
        refine keeps_bind (ih (Nat.le_add_left 1 number) known) fun _ => ?_
        exact Action.Keeps.pure (Wrote.refl names output) _

theorem keeps_writePattern {pattern : Nat} (pages : PagesOf names pattern c.corpus) (trees : Trees) :
    Action.Keeps (Wrote names output) (writePattern output c trees pattern) := by
  refine keeps_bind (keeps_writeMatches pages (Nat.le_refl 1) trees _) fun both => ?_
  refine keeps_bind (keeps_writePage pages.listing _) fun _ => ?_
  exact Action.Keeps.pure (Wrote.refl names output) _

theorem keeps_writeOneClass {patterns : List Pattern} (pages : ∀ p ∈ patterns, PagesOf names p.number c.corpus)
    (trees : Trees) : Action.Keeps (Wrote names output) (writeOneClass output c trees patterns) := by
  induction patterns generalizing trees with
  | nil => exact Action.Keeps.pure (Wrote.refl names output) _
  | cons p rest ih =>
    refine keeps_bind (keeps_writePattern (pages p List.mem_cons_self) trees) fun both => ?_
    refine keeps_bind (ih (fun q hq => pages q (List.mem_cons_of_mem p hq)) both.1) fun _ => ?_
    exact Action.Keeps.pure (Wrote.refl names output) _

theorem keeps_writeTwoClass {old new : Collection} {patterns : List Pattern}
    (pages : ∀ p ∈ patterns, PagesOf names p.number old.corpus ∧ PagesOf names p.number new.corpus)
    (oldTrees newTrees : Trees) :
    Action.Keeps (Wrote names output) (writeTwoClass output old new oldTrees newTrees patterns) := by
  induction patterns generalizing oldTrees newTrees with
  | nil => exact Action.Keeps.pure (Wrote.refl names output) _
  | cons p rest ih =>
    refine keeps_bind (keeps_writePattern (pages p List.mem_cons_self).1 oldTrees) fun both => ?_
    refine keeps_bind (keeps_writePattern (pages p List.mem_cons_self).2 newTrees) fun both' => ?_
    refine keeps_bind (ih (fun q hq => pages q (List.mem_cons_of_mem p hq)) both.1 both'.1) fun _ => ?_
    exact Action.Keeps.pure (Wrote.refl names output) _

theorem keeps_writeCorpora {patterns : List Pattern} (pages : ∀ p ∈ patterns, ∀ corpus, PagesOf names p.number corpus)
    (corpora : Corpora) : Action.Keeps (Wrote names output) (writeCorpora output patterns corpora) := by
  cases corpora with
  | one only => exact keeps_writeOneClass (fun p hp => pages p hp .old) []
  | two old new => exact keeps_writeTwoClass (fun p hp => ⟨pages p hp .old, pages p hp .new⟩) [] []

end Places

end Assembly

end PatternPages
