import PatternPages.Proofs.FreshPages
import PatternPages.Proofs.Spellings
import PatternPages.Xml.Reading

/-! Pages with fresh syntax trees. A writer that reads the tree of every match anew does the same as one that keeps the trees it
has read: what is written never lies where a tree was read, and a tree that was not there is looked for again. Only the length of
a path can make a difference, when another spelling of it is within the bound. -/
namespace PatternPages

open Text (Bytes)
open Assembly (Action)

/-! ## Steps that agree -/

namespace Assembly

/-- The steps come to the same tree, and they fail alike or give results that differ in what is shown of the first one only.
A result and its tree are in the relation. -/
inductive Agree {α β : Type} (R : α → FileTree → Prop) (shown : α → β) :
    Except Error α × FileTree → Except Error β × FileTree → Prop where
  | ok {a : α} {u : FileTree} (holds : R a u) : Agree R shown (.ok a, u) (.ok (shown a), u)
  | error (e : Error) (u : FileTree) : Agree R shown (.error e, u) (.error e, u)

namespace Agree

variable {α α' β β' : Type} {R : α → FileTree → Prop} {S : β → FileTree → Prop} {shown : α → α'} {shown' : β → β'}
  {t : FileTree}

theorem pure {a : α} (holds : R a t) : Agree R shown (Action.on (Pure.pure a) t) (Action.on (Pure.pure (shown a)) t) :=
  .ok holds

theorem bind {x : Action α} {y : Action α'} {f : α → Action β} {g : α' → Action β'} (first : Agree R shown (x.on t) (y.on t))
    (next : ∀ a u, R a u → Agree S shown' ((f a).on u) ((g (shown a)).on u)) :
    Agree S shown' (Action.on (x >>= f) t) (Action.on (y >>= g) t) := by
  rw [Action.on_bind, Action.on_bind]
  generalize x.on t = outcome, y.on t = outcome' at first
  cases first with
  | ok holds => exact next _ _ holds
  | error e u => exact .error e u

theorem eq {s s' : Except Error α × FileTree} (agree : Agree R id s s') : s = s' := by
  cases agree with
  | ok holds => rfl
  | error e u => rfl

end Agree

theorem agree_writePage {t : FileTree} (output : Path) (name : PageName) (content : Except Marking.Overflow Text) :
    Agree (fun _ u => Wrote (fun _ => True) output t u) id (Action.on (writePage output name.file content) t)
      (Action.on (writePage output name.file content) t) := by
  have kept : Wrote (fun _ => True) output t (Action.on (writePage output name.file content) t).2 :=
    keeps_writePage trivial content t
  cases step : Action.on (writePage output name.file content) t with
  | mk result u =>
    rw [step] at kept
    cases result with
    | error e => exact .error e u
    | ok a => exact .ok kept

end Assembly

/-! ## Known trees -/

/-- Among the paths in their order, one that has the names of an accepted path before it is accepted too. -/
def Path.AcceptedAgain (paths : List Path) : Prop :=
  paths.Pairwise fun q p => q.components = p.components → q.refusal? = none → p.refusal? = none

instance (paths : List Path) : Decidable (Path.AcceptedAgain paths) :=
  inferInstanceAs (Decidable (paths.Pairwise fun _ _ => _ → _ → _))

/-- The paths at which the tree for a match is looked up, if there is a source beside it. -/
def FileTree.treePaths (directory : Path) (x : Match) : List Path :=
  let sources := [directory.join x.fileName, directory.join (lastName x.fileName)].filter fun p => p.refusal?.isNone
  sources.map treePath

/-- The paths at which the trees for the patterns are looked up, in their order. -/
def Collection.treePaths (c : Collection) (patterns : List Pattern) : List Path :=
  patterns.flatMap fun p => (Match.ofPattern c.found p.number).flatMap (FileTree.treePaths c.directory)

theorem Collection.treePaths_cons (c : Collection) (p : Pattern) (rest : List Pattern) :
    c.treePaths (p :: rest) =
      (Match.ofPattern c.found p.number).flatMap (FileTree.treePaths c.directory) ++ c.treePaths rest := by
  rw [treePaths, List.flatMap_cons, treePaths]

theorem FileTree.not_pagePlace {t : FileTree} {p : Path} (named : p.NamesDocument) (names : PageName → Prop) (output : Path) :
    ¬ Assembly.PagePlace names output t (t.placeOf p) := by
  rintro ⟨name, -, place⟩
  obtain ⟨last, above, here, xml⟩ := t.placeOf_of_namesDocument named
  obtain ⟨rfl, -⟩ := List.cons.inj (here.symm.trans place)
  have both := List.suffix_of_suffix_length_le xml name.html_suffix_file (by decide)
  exact absurd both (by decide +kernel)

theorem FileTree.treePath_mem {t : FileTree} {directory : Path} {x : Match} {content : Bytes}
    (read : t.readFile (t.sourceOf directory x) = .ok content) :
    treePath (t.sourceOf directory x) ∈ treePaths directory x := by
  obtain ⟨accepted, -, -⟩ := readFile_eq_ok_iff.1 read
  refine List.mem_map_of_mem (List.mem_filter.2 ⟨?_, by simp [accepted]⟩)
  unfold sourceOf
  split
  · exact List.mem_cons_self
  · exact List.mem_cons_of_mem _ List.mem_cons_self

section Parser

variable [Xml.Parser]

namespace FileTree

variable {t u : FileTree} {paths : List Path} {trees : Trees}

/-- Every known tree is that of a document at one of the paths. -/
def KnowsAmong (paths : List Path) (t : FileTree) (trees : Trees) : Prop :=
  ∀ known ∈ trees, ∃ p ∈ paths, ∃ d, p.NamesDocument ∧ known.1 = p.components ∧ t.document p = .ok d ∧
    known.2 = SourceTree.ofDocument d

/-- What is known stays true while pages are written. -/
theorem KnowsAmong.of_wrote (knows : t.KnowsAmong paths trees) {names : PageName → Prop} {output : Path}
    (wrote : Assembly.Wrote names output t u) : u.KnowsAmong paths trees := by
  intro known mem
  obtain ⟨p, here, d, named, components, read, tree⟩ := knows known mem
  exact ⟨p, here, d, named, components, (wrote.same.document_iff (not_pagePlace named names output) d).2 read, tree⟩

theorem KnowsAmong.mono {later : List Path} (knows : t.KnowsAmong paths trees) (le : paths ⊆ later) :
    t.KnowsAmong later trees := by
  intro known mem
  obtain ⟨p, here, rest⟩ := knows known mem
  exact ⟨p, le here, rest⟩

theorem treeFor_known (knows : t.KnowsAmong paths trees) {p : Path} (again : Path.AcceptedAgain (paths ++ [p]))
    {front : List Text} {last : Text} (ends : p.EndsWith front last) (named : ∀ d, t.document p = .ok d → p.NamesDocument) :
    (t.treeFor trees p).2 = (t.document p).toOption.map SourceTree.ofDocument ∧
      t.KnowsAmong (paths ++ [p]) (t.treeFor trees p).1 := by
  have kept := knows.mono (List.subset_append_left paths [p])
  unfold treeFor
  cases found : trees.lookup p.components with
  | some known =>
    obtain ⟨before, after, split, -⟩ := List.lookup_eq_some_iff.1 found
    obtain ⟨q, memQ, d, -, components, read, tree⟩ := knows (p.components, known) (by simp [split])
    obtain ⟨_, readQ, -⟩ := document_eq_ok_iff.1 read
    obtain ⟨accepted, -, -⟩ := readFile_eq_ok_iff.1 readQ
    have acceptedP := (List.pairwise_append.1 again).2.2 q memQ p List.mem_cons_self components.symm accepted
    have document := document_of_components components acceptedP ends read
    refine ⟨?_, kept⟩
    rw [document]
    exact congrArg some tree
  | none =>
    cases read : t.document p with
    | error e => exact ⟨rfl, kept⟩
    | ok d =>
      refine ⟨rfl, fun known mem => ?_⟩
      rcases List.mem_cons.1 mem with rfl | mem
      · exact ⟨p, List.mem_append_right paths List.mem_cons_self, d, named d read, rfl, read, rfl⟩
      · exact kept known mem

theorem treeFor_none {p : Path} {known : Trees} (failed : t.treeFor trees p = (known, none)) : known = trees := by
  unfold treeFor at failed
  split at failed
  · cases failed
  · split at failed
    · exact (Prod.ext_iff.1 failed).1.symm
    · cases failed

theorem pageFor_known (rooted : t.Rooted) {directory : Path} {x : Match} (knows : t.KnowsAmong paths trees)
    (again : Path.AcceptedAgain (paths ++ treePaths directory x)) :
    (t.pageFor directory trees x).2 = t.freshPageFor directory x ∧
      t.KnowsAmong (paths ++ treePaths directory x) (t.pageFor directory trees x).1 := by
  unfold pageFor freshPageFor
  cases read : t.readFile (t.sourceOf directory x) with
  | error e => exact ⟨rfl, knows.mono (List.subset_append_left _ _)⟩
  | ok bytes =>
    have here : (paths ++ [treePath (t.sourceOf directory x)]).Sublist (paths ++ treePaths directory x) :=
      (List.Sublist.refl paths).append (List.singleton_sublist.2 (treePath_mem read))
    obtain ⟨front, last, ends, -⟩ := endsWith_treePath rooted read
    obtain ⟨tree, knows'⟩ := treeFor_known knows (again.sublist here) ends fun d => namesDocument_of_document rooted read
    dsimp only
    rw [tree]
    exact ⟨rfl, knows'.mono here.subset⟩

end FileTree

/-! ## Writers that keep trees -/

namespace Assembly

section Writers

variable {t : FileTree} {output : Path} {c old new : Collection} {before beforeOld beforeNew : List Path}

theorem agree_matchPage (rooted : t.Rooted) {trees : Trees} (knows : t.KnowsAmong before trees) {directory : Path} {x : Match}
    (again : Path.AcceptedAgain (before ++ FileTree.treePaths directory x)) :
    Agree (fun both u => u = t ∧ t.KnowsAmong (before ++ FileTree.treePaths directory x) both.1) Prod.snd
      (Action.on (liftM (matchPage directory trees x : StateM FileTree _)) t)
      (Action.on (liftM (freshPage directory x : StateM FileTree _)) t) := by
  obtain ⟨page, knows'⟩ := FileTree.pageFor_known rooted knows again
  rw [on_matchPage, on_freshPage, ← page]
  exact .ok ⟨rfl, knows'⟩

theorem agree_writeMatches (rooted : t.Rooted) {trees : Trees} (knows : t.KnowsAmong before trees) {found : List Match}
    (again : Path.AcceptedAgain (before ++ found.flatMap (FileTree.treePaths c.directory))) (pattern number : Nat) :
    Agree (fun both u => Wrote (fun _ => True) output t u ∧
        u.KnowsAmong (before ++ found.flatMap (FileTree.treePaths c.directory)) both.1) Prod.snd
      (Action.on (writeMatches output c pattern trees number found) t)
      (Action.on (writeFreshMatches output c pattern number found) t) := by
  induction found generalizing t trees number before with
  | nil =>
    rw [List.flatMap_nil, List.append_nil]
    exact .pure ⟨Wrote.refl _ output t, knows⟩
  | cons x rest ih =>
    rw [List.flatMap_cons, ← List.append_assoc] at again ⊢
    refine (agree_matchPage rooted knows (again.sublist (List.sublist_append_left _ _))).bind ?_
    rintro ⟨known, page⟩ _ ⟨rfl, knows'⟩
    cases page with
    | none => exact ih rooted knows' again number
    | some page =>
      refine (agree_writePage output (.source pattern number c.corpus) (page.map Html.Page.render)).bind fun _ u wrote => ?_
      refine (ih (wrote.same.rooted rooted) (knows'.of_wrote wrote) again (number + 1)).bind ?_
      rintro ⟨later, links⟩ v ⟨wrote', knows''⟩
      exact .pure ⟨wrote.trans wrote', knows''⟩

theorem agree_writePattern (rooted : t.Rooted) {trees : Trees} (knows : t.KnowsAmong before trees) {pattern : Nat}
    (again : Path.AcceptedAgain
      (before ++ (Match.ofPattern c.found pattern).flatMap (FileTree.treePaths c.directory))) :
    Agree (fun both u => Wrote (fun _ => True) output t u ∧
        u.KnowsAmong (before ++ (Match.ofPattern c.found pattern).flatMap (FileTree.treePaths c.directory)) both.1) Prod.snd
      (Action.on (writePattern output c trees pattern) t) (Action.on (writeFreshPattern output c pattern) t) := by
  refine (agree_writeMatches rooted knows again pattern 1).bind ?_
  rintro ⟨known, links⟩ u ⟨wrote, knows'⟩
  refine (agree_writePage output (.listing pattern c.corpus) (.ok (Html.matchesPage pattern links).render)).bind fun _ v wrote' => ?_
  exact .pure ⟨wrote.trans wrote', knows'.of_wrote wrote'⟩

theorem agree_writeOneClass (rooted : t.Rooted) {trees : Trees} (knows : t.KnowsAmong before trees) {patterns : List Pattern}
    (again : Path.AcceptedAgain (before ++ c.treePaths patterns)) :
    Agree (fun _ u => Wrote (fun _ => True) output t u) id
      (Action.on (writeOneClass output c trees patterns) t) (Action.on (writeFreshOneClass output c patterns) t) := by
  induction patterns generalizing t trees before with
  | nil => exact .pure (Wrote.refl _ output t)
  | cons p rest ih =>
    rw [Collection.treePaths_cons, ← List.append_assoc] at again
    refine (agree_writePattern rooted knows (again.sublist (List.sublist_append_left _ _))).bind ?_
    rintro ⟨known, count⟩ u ⟨wrote, knows'⟩
    refine (ih (wrote.same.rooted rooted) knows' again).bind ?_
    rintro ⟨links, total⟩ v wrote'
    exact .pure (wrote.trans wrote')

theorem agree_writeTwoClass (rooted : t.Rooted) {oldTrees newTrees : Trees} (knowsOld : t.KnowsAmong beforeOld oldTrees)
    (knowsNew : t.KnowsAmong beforeNew newTrees) {patterns : List Pattern}
    (againOld : Path.AcceptedAgain (beforeOld ++ old.treePaths patterns))
    (againNew : Path.AcceptedAgain (beforeNew ++ new.treePaths patterns)) :
    Agree (fun _ u => Wrote (fun _ => True) output t u) id
      (Action.on (writeTwoClass output old new oldTrees newTrees patterns) t)
      (Action.on (writeFreshTwoClass output old new patterns) t) := by
  induction patterns generalizing t oldTrees newTrees beforeOld beforeNew with
  | nil => exact .pure (Wrote.refl _ output t)
  | cons p rest ih =>
    rw [Collection.treePaths_cons, ← List.append_assoc] at againOld againNew
    refine (agree_writePattern rooted knowsOld (againOld.sublist (List.sublist_append_left _ _))).bind ?_
    rintro ⟨known, oldCount⟩ u ⟨wroteOld, knowsOld⟩
    have rootedU := wroteOld.same.rooted rooted
    refine (agree_writePattern rootedU (knowsNew.of_wrote wroteOld) (againNew.sublist (List.sublist_append_left _ _))).bind ?_
    rintro ⟨known', newCount⟩ v ⟨wroteNew, knowsNew⟩
    -- the pages of one corpus lie apart from the trees of the other one too
    refine (ih (wroteNew.same.rooted rootedU) (knowsOld.of_wrote wroteNew) knowsNew againOld againNew).bind ?_
    rintro ⟨links, total⟩ w wrote
    exact .pure ((wroteOld.trans wroteNew).trans wrote)

end Writers

/-- The writers do the same whether they keep the trees they have read or read them anew, also where the output directory is the
one of the sources: a tree that is not there is never kept, trees are read from documents with their extension, and what is
written has another one. -/
theorem known_trees_unseen {t : FileTree} (rooted : t.Rooted) (output : Path) (patterns : List Pattern) :
    (∀ c : Collection, Path.AcceptedAgain (c.treePaths patterns) →
      Action.on (writeOneClass output c [] patterns) t = Action.on (writeFreshOneClass output c patterns) t) ∧
    (∀ old new : Collection, Path.AcceptedAgain (old.treePaths patterns) → Path.AcceptedAgain (new.treePaths patterns) →
      Action.on (writeTwoClass output old new [] [] patterns) t =
        Action.on (writeFreshTwoClass output old new patterns) t) ∧
    (∀ u trees p known u', (treeAt trees p : StateM FileTree _) u = ((known, none), u') → known = trees) ∧
    (∀ u, Wrote (fun _ => True) output t u → ∀ source bytes d, u.readFile source = .ok bytes →
      u.document (FileTree.treePath source) = .ok d → ".xml".toList <:+ (FileTree.treePath source).text) ∧
    (∀ c, Wrote (fun _ => True) output t (Action.on (writeOneClass output c [] patterns) t).2) ∧
    (∀ old new, Wrote (fun _ => True) output t (Action.on (writeTwoClass output old new [] [] patterns) t).2) ∧
    ∀ name : PageName, ".html".toList <:+ (output.join name.file).text := by
  have knows : t.KnowsAmong [] [] := fun known mem => absurd mem List.not_mem_nil
  have pages (p : Pattern) (corpus : Corpus) : PagesOf (fun _ => True) p.number corpus := ⟨trivial, fun _ _ => trivial⟩
  refine ⟨?_, ?_, ?_, ?_, ?_, ?_, ?_⟩
  · intro c again
    exact (agree_writeOneClass rooted knows again).eq
  · intro old new againOld againNew
    exact (agree_writeTwoClass rooted knows knows againOld againNew).eq
  · intro u trees p known u' failed
    rw [FileTree.run_treeAt] at failed
    exact FileTree.treeFor_none (Prod.ext_iff.1 failed).1
  · intro u wrote source bytes d read document
    exact (FileTree.namesDocument_of_document (wrote.same.rooted rooted) read document).suffix
  · intro c
    exact keeps_writeOneClass (fun p _ => pages p c.corpus) [] t
  · intro old new
    exact keeps_writeTwoClass (fun p _ => ⟨pages p old.corpus, pages p new.corpus⟩) [] [] t
  · intro name
    rw [Path.text_join output name.plain_file]
    exact name.html_suffix_file.trans (List.suffix_append _ _)

end Assembly

end Parser

namespace Sample

/-- A directory with two sources; the syntax tree beside one of them is malformed. -/
def sourceTree : FileTree :=
  (((((FileTree.fresh [['w']]).put [['s'], ['w']] .directory).put
    [['m', 'm', '.', 'p', 'y'], ['s'], ['w']] (.file (Text.encode ['x']))).put
    [['m', 'm', '.', 'x', 'm', 'l'], ['s'], ['w']]
      (.file (Text.encode "<n ID='1' LineNr='1' EndLineNr='1' ColNr='1' EndColNr='1'>x</n>".toList))).put
    [['y'], ['s'], ['w']] (.file (Text.encode ['y']))).put
    [['y', '.', 'x', 'm', 'l'], ['s'], ['w']] (.file (Text.encode ['<']))

theorem rooted_sourceTree : sourceTree.Rooted := by
  rintro above ⟨suffix, differ⟩
  rcases List.suffix_cons_iff.1 suffix with same | root
  · exact absurd same.symm differ
  · obtain rfl := List.suffix_nil.1 root
    rfl

/-- A match in the first source, with dots in front of its name. -/
def dottedMatch (dots : Nat) : Match := ⟨1, ['f'], (List.replicate dots ['.', '/']).flatten ++ ['m', 'm', '.', 'p', 'y'], [1]⟩

def matchOfY : Match := ⟨1, ['f'], ['y'], [1]⟩

def single : List Pattern := [⟨1, none⟩]

def repeated (corpus : Corpus) : Collection := ⟨corpus, ⟨['s']⟩, [dottedMatch 0, matchOfY, dottedMatch 2, matchOfY]⟩

end Sample

namespace Assembly

theorem known_trees_unseen_dotted :
    Sample.sourceTree.Rooted ∧ (∀ corpus, Path.AcceptedAgain ((Sample.repeated corpus).treePaths Sample.single)) ∧
      Action.on (writeOneClass ⟨['s']⟩ (Sample.repeated .old) [] Sample.single) Sample.sourceTree =
        Action.on (writeFreshOneClass ⟨['s']⟩ (Sample.repeated .old) Sample.single) Sample.sourceTree ∧
      Action.on (writeTwoClass ⟨['s']⟩ (Sample.repeated .old) (Sample.repeated .new) [] [] Sample.single) Sample.sourceTree =
        Action.on (writeFreshTwoClass ⟨['s']⟩ (Sample.repeated .old) (Sample.repeated .new) Sample.single) Sample.sourceTree ∧
      (Action.on (writeOneClass ⟨['s']⟩ (Sample.repeated .old) [] Sample.single) Sample.sourceTree).1.toOption.map Prod.snd =
        some 4 := by
  have again (corpus : Corpus) : Path.AcceptedAgain ((Sample.repeated corpus).treePaths Sample.single) := by
    cases corpus <;> decide +kernel
  obtain ⟨one, two, -⟩ := known_trees_unseen Sample.rooted_sourceTree ⟨['s']⟩ Sample.single
  exact ⟨Sample.rooted_sourceTree, again, one _ (again .old), two _ _ (again .old) (again .new), by decide +kernel⟩

end Assembly

/-! ## A path that is too long -/

namespace Sample

def sourceAt (dots : Nat) : Path := Path.dotted ['s'] dots ['m', 'm', '.', 'p', 'y']

def documentAt (dots : Nat) : Path := Path.dotted ['s'] dots ['m', 'm', '.', 'x', 'm', 'l']

def marked : Xml.Document :=
  ⟨['n'], [⟨none, "ID".toList, ['1']⟩, ⟨none, "LineNr".toList, ['1']⟩, ⟨none, "EndLineNr".toList, ['1']⟩,
    ⟨none, "ColNr".toList, ['1']⟩, ⟨none, "EndColNr".toList, ['1']⟩], [.text ['x']]⟩

/-- The one line of the first source, with and without marks. -/
def lineWith : Option SourceTree → Text
  | some _ => "<pre><mark><span class=\"com\">x</span></mark></pre>\n".toList
  | none => "<pre>x</pre>\n".toList

def page (dots : Nat) (tree : Option SourceTree) : Html.Page := Html.sourcePage (sourceAt dots).text (lineWith tree)

theorem sourcePage_eq (dots : Nat) {tree : Option SourceTree} (read : tree = none ∨ tree = some (SourceTree.ofDocument marked)) :
    FileTree.sourcePage (sourceAt dots) (Text.encode ['x']) (dottedMatch dots) tree = .ok (page dots tree) := by
  have lines : Text.lines (Text.decodeLossy (Text.encode ['x'])) = [['x']] := by decide +kernel
  have marks : Assembly.marksOf (dottedMatch dots) [['x']] tree = Assembly.marksOf (dottedMatch 0) [['x']] tree := by
    cases tree <;> rfl
  have rendered : Marking.render [['x']] (Assembly.marksOf (dottedMatch 0) [['x']] tree) = .ok (lineWith tree) := by
    rcases read with rfl | rfl <;> decide +kernel
  rw [FileTree.sourcePage, lines, marks, rendered]
  rfl

/-- The directory of the samples, with the first source and its syntax tree in it. -/
structure HasSource (t : FileTree) : Prop where
  source : t.readFile (sourceAt 0) = .ok (Text.encode ['x'])
  document : t.document (documentAt 0) = .ok marked

variable {t : FileTree} {dots : Nat}

theorem join_dotted (dots : Nat) : Path.join ⟨['s']⟩ (dottedMatch dots).fileName = sourceAt dots := by
  cases dots <;> rfl

theorem treePath_source (dots : Nat) : FileTree.treePath (sourceAt dots) = documentAt dots := by
  have name : Path.renamed ['m', 'm', '.', 'p', 'y'] "xml".toList = ['m', 'm', '.', 'x', 'm', 'l'] := by decide
  have relative : '/' ∉ "xml".toList := by decide
  rw [FileTree.treePath, sourceAt, Path.withExtension_dotted (by decide) (by decide) (by decide) (by decide) relative, name]
  · rfl
  · rw [name]
    decide

theorem components_document (dots : Nat) : (documentAt dots).components = (false, [['s'], ['m', 'm', '.', 'x', 'm', 'l']]) :=
  Path.components_dotted (by decide) (by decide) (by decide) (by decide)

theorem accepted_source (within : dots ≤ 2044) : (sourceAt dots).refusal? = none := by
  have size : Text.byteCount (sourceAt dots).text = 1 + 1 + 2 * dots + 5 := Path.byteCount_dotted ['s'] dots _
  refine Path.refusal?_eq_none_iff.2 ⟨?_, List.cons_ne_nil _ _, by omega⟩
  simp [sourceAt, Path.dotted, List.mem_replicate]

theorem refused_document (beyond : 2044 ≤ dots) : (documentAt dots).refusal? ≠ none := by
  have size : Text.byteCount (documentAt dots).text = 1 + 1 + 2 * dots + 6 := Path.byteCount_dotted ['s'] dots _
  intro accepted
  obtain ⟨-, -, short⟩ := Path.refusal?_eq_none_iff.1 accepted
  omega

theorem HasSource.read (has : HasSource t) (within : dots ≤ 2044) :
    t.sourceOf ⟨['s']⟩ (dottedMatch dots) = sourceAt dots ∧ t.readFile (sourceAt dots) = .ok (Text.encode ['x']) := by
  have same : (sourceAt dots).components = (sourceAt 0).components := by
    rw [sourceAt, sourceAt, Path.components_dotted (by decide) (by decide) (by decide) (by decide),
      Path.components_dotted (by decide) (by decide) (by decide) (by decide)]
  have ends : (sourceAt dots).EndsWith _ _ := Path.endsWith_dotted (by decide) (by decide) (by decide)
  have read := FileTree.readFile_of_components same (accepted_source within) ends has.source
  refine ⟨?_, read⟩
  rw [FileTree.sourceOf, join_dotted, if_pos (FileTree.isFile_iff.2 ⟨_, read⟩)]

/-- A page leaves the source and its syntax tree as they are. -/
theorem HasSource.of_wrote {u : FileTree} {names : PageName → Prop} {output : Path} (has : HasSource t)
    (wrote : Assembly.Wrote names output t u) : HasSource u where
  source := by
    refine wrote.same.readFile ?_ has.source
    rintro ⟨name, -, place⟩
    have last : ['m', 'm', '.', 'p', 'y'] = name.file := (List.cons.inj place).1
    have ending := name.html_suffix_file
    rw [← last] at ending
    exact absurd ending (by decide +kernel)
  document := by
    have named : (documentAt 0).NamesDocument :=
      ⟨_, _, Path.endsWith_dotted (by decide) (by decide) (by decide), by decide +kernel⟩
    exact (wrote.same.document_iff (FileTree.not_pagePlace named names output) marked).2 has.document

def known : Trees := [((false, [['s'], ['m', 'm', '.', 'x', 'm', 'l']]), SourceTree.ofDocument marked)]

theorem HasSource.first (has : HasSource t) :
    t.pageFor ⟨['s']⟩ [] (dottedMatch 0) = (known, some (.ok (page 0 (some (SourceTree.ofDocument marked))))) ∧
      t.freshPageFor ⟨['s']⟩ (dottedMatch 0) = some (.ok (page 0 (some (SourceTree.ofDocument marked)))) := by
  have loaded : t.treeFor [] (documentAt 0) = (known, some (SourceTree.ofDocument marked)) := by
    rw [FileTree.treeFor, List.lookup_nil, has.document, components_document]
    rfl
  obtain ⟨source, read⟩ := has.read (Nat.zero_le 2044)
  have shown := sourcePage_eq 0 (.inr rfl)
  constructor
  · simp only [FileTree.pageFor, source, read, treePath_source, loaded, shown]
  · simp only [FileTree.freshPageFor, source, read, treePath_source, has.document]
    exact congrArg some shown

/-- A path that is too long shows a tree that is known, but none is read there. -/
theorem HasSource.second (has : HasSource t) :
    t.pageFor ⟨['s']⟩ known (dottedMatch 2044) = (known, some (.ok (page 2044 (some (SourceTree.ofDocument marked))))) ∧
      t.freshPageFor ⟨['s']⟩ (dottedMatch 2044) = some (.ok (page 2044 none)) := by
  obtain ⟨source, read⟩ := has.read (Nat.le_refl 2044)
  constructor
  · have found : t.treeFor known (documentAt 2044) = (known, some (SourceTree.ofDocument marked)) := by
      rw [FileTree.treeFor, components_document, known, List.lookup_cons_self]
    simp only [FileTree.pageFor, source, read, treePath_source, found, sourcePage_eq 2044 (.inr rfl)]
  · have unread : (t.document (documentAt 2044)).toOption = none := by
      cases read : t.document (documentAt 2044) with
      | error e => rfl
      | ok d =>
        obtain ⟨_, content, -⟩ := FileTree.document_eq_ok_iff.1 read
        exact absurd (FileTree.readFile_eq_ok_iff.1 content).1 (refused_document (Nat.le_refl 2044))
    simp only [FileTree.freshPageFor, source, read, treePath_source, unread, Option.map_none]
    exact congrArg some (sourcePage_eq 2044 (.inl rfl))

theorem encode_page_ne (dots : Nat) :
    Text.encode (page dots (some (SourceTree.ofDocument marked))).render ≠ Text.encode (page dots none).render := by
  intro same
  have sizes : Text.byteCount (page dots (some (SourceTree.ofDocument marked))).render =
      Text.byteCount (page dots none).render := congrArg List.length same
  rw [page, page, Html.byteCount_sourcePage, Html.byteCount_sourcePage _ (lineWith none)] at sizes
  have differ : Text.byteCount (lineWith (some (SourceTree.ofDocument marked))) ≠ Text.byteCount (lineWith none) := by
    decide +kernel
  exact differ (Nat.add_left_cancel sizes)

def lengthened : Collection := ⟨.old, ⟨['s']⟩, [dottedMatch 0, dottedMatch 2044]⟩

end Sample

/-- The second source has a path of 4095 bytes, so the path of its syntax tree is too long, but the tree is known from the first
one. -/
theorem Assembly.too_long_path_finds_known_tree :
    Sample.sourceTree.Rooted ∧
      Action.on (writeOneClass ⟨['s']⟩ Sample.lengthened [] Sample.single) Sample.sourceTree ≠
        Action.on (writeFreshOneClass ⟨['s']⟩ Sample.lengthened Sample.single) Sample.sourceTree := by
  refine ⟨Sample.rooted_sourceTree, fun same => ?_⟩
  have has : Sample.HasSource Sample.sourceTree := ⟨by decide +kernel, by decide +kernel⟩
  have writable₁ : Writable ⟨['s']⟩ Sample.sourceTree (.source 1 1 .old) :=
    (FileTree.accepts_join_iff (PageName.plain_file _)).2 (by decide +kernel)
  have writable₂ : Writable ⟨['s']⟩ Sample.sourceTree (.source 1 2 .old) :=
    (FileTree.accepts_join_iff (PageName.plain_file _)).2 (by decide +kernel)
  have hasThen := has.of_wrote (wrote_withPage (c := Sample.lengthened) writable₁
    (Sample.page 0 (some (SourceTree.ofDocument Sample.marked))))
  have writableThen := (wrote_withPage (c := Sample.lengthened) writable₁
    (Sample.page 0 (some (SourceTree.ofDocument Sample.marked)))).same.accepts writable₂
  have apart : PageName.source 1 2 Corpus.old ≠ .listing 1 .old := by decide
  have cached := leaves_writeOneClass (p := ⟨1, none⟩) (c := Sample.lengthened) apart
    (leaves_later has.first.1 writable₁ (leaves_last hasThen.second.1 writableThen))
  have fresh := leaves_writeFreshOneClass (p := ⟨1, none⟩) (c := Sample.lengthened) apart
    (leaves_freshLater has.first.2 writable₁ (leaves_freshLast hasThen.second.2 writableThen))
  unfold Leaves at cached fresh
  rw [Sample.single] at same
  rw [same] at cached
  exact Sample.encode_page_ne 2044 (Option.some.inj (cached.symm.trans fresh))

end PatternPages
