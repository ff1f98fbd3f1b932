import PatternPages.Proofs.Places
import PatternPages.Proofs.Stages

/-! What the readers of the assembly give on a file tree. They leave the tree as it is, and on trees that are the same where
their paths lead they give the same. -/
namespace PatternPages

open Text (Bytes)
open Assembly (Action)

namespace Assembly

open Assembly.Action

theorem quiet_onFile {α : Type} (p : Path) {x : StateM FileTree (Except FileError α)} (quiet : ∀ t, (x t).2 = t) :
    Quiet (onFile p x : Action α) := quiet

theorem quiet_bind {α β : Type} {x : Action α} {f : α → Action β} (hx : Quiet x) (hf : ∀ a, Quiet (f a)) :
    Quiet (x >>= f) :=
  hx.bind (fun _ _ _ first second => second.trans first) hf

theorem quiet_readText (p : Path) : Quiet (readText p : Action Text) := by
  refine quiet_bind (quiet_onFile p fun _ => rfl) fun bytes => ?_
  cases Text.decode? bytes with
  | none => exact fun _ => rfl
  | some text => exact fun _ => rfl

theorem run_bind {α β : Type} (x : StateM FileTree α) (f : α → StateM FileTree β) (t : FileTree) :
    (x >>= f) t = f (x t).1 (x t).2 := rfl

theorem run_isFile (p : Path) (t : FileTree) : (FileStore.isFile p : StateM FileTree Bool) t = (t.isFile p, t) := rfl

theorem run_readFile (p : Path) (t : FileTree) :
    (FileStore.readFile p : StateM FileTree (Except FileError Bytes)) t = (t.readFile p, t) := rfl

theorem on_readFile (p : Path) (t : FileTree) :
    on (onFile p (FileStore.readFile p)) t = ((t.readFile p).mapError (Error.file p), t) := rfl

theorem onlyFiles_eq (directory : Path) (names : List Text) (t : FileTree) :
    (onlyFiles directory names : StateM FileTree (List Text)) t =
      (names.filter fun name => t.isFile (directory.join name), t) := by
  induction names with
  | nil => rfl
  | cons name rest ih =>
    rw [onlyFiles, run_bind, run_bind, run_isFile, ih, List.filter_cons]
    rfl

theorem quiet_findConfiguration (directory : Path) : Quiet (findConfiguration directory : Action Path) := by
  refine quiet_bind (quiet_onFile directory fun _ => rfl) fun names => ?_
  refine quiet_bind (fun t => ?_) fun files => ?_
  · rw [on_lift, onlyFiles_eq]
  · cases Configuration.firstName? files with
    | none => exact fun _ => rfl
    | some name => exact fun _ => rfl

theorem quiet_readConfiguration (r : Request) : Quiet (readConfiguration r : Action Configuration) := by
  refine quiet_bind ?_ fun p => quiet_bind (quiet_readText p) fun text => ?_
  · unfold configurationPath
    cases r.configuration with
    | none => exact quiet_findConfiguration r.results
    | some p => exact fun _ => rfl
  · cases Configuration.parse text with
    | error problem => exact fun _ => rfl
    | ok c => exact fun _ => rfl

end Assembly

namespace FileTree

variable {K : Place → Prop} {t u : FileTree} {p : Path}

/-! ## The configuration -/

def configuration (t : FileTree) (r : Request) : Except Error Configuration :=
  (Action.on (Assembly.readConfiguration r) t).1

def configurationPath (t : FileTree) (r : Request) : Except Error Path :=
  (Action.on (Assembly.configurationPath r) t).1

theorem on_readConfiguration (t : FileTree) (r : Request) :
    Action.on (Assembly.readConfiguration r) t = (t.configuration r, t) :=
  Prod.ext rfl (Assembly.quiet_readConfiguration r t)

theorem on_configurationPath (t : FileTree) (r : Request) :
    Action.on (Assembly.configurationPath r) t = (t.configurationPath r, t) := by
  refine Prod.ext rfl ?_
  unfold Assembly.configurationPath
  cases r.configuration with
  | none => exact Assembly.quiet_findConfiguration r.results t
  | some p => rfl

theorem configuration_eq_ok_iff {t : FileTree} {r : Request} {c : Configuration} :
    t.configuration r = .ok c ↔ ∃ p content source, t.configurationPath r = .ok p ∧ t.readFile p = .ok content ∧
      Text.decode? content = some source ∧ Configuration.parse source = .ok c := by
  rw [configuration, Assembly.readConfiguration, Action.on_bind, on_configurationPath]
  cases t.configurationPath r with
  | error e => simp
  | ok p =>
    dsimp only
    rw [Assembly.loadConfiguration, Assembly.readText, Action.on_bind, Action.on_bind, Assembly.on_readFile]
    cases found : t.readFile p with
    | error e => simp [Action.mapError_error, found]
    | ok content =>
      simp only [Action.mapError_ok]
      cases decoded : Text.decode? content with
      | none => simp [Action.on_throw, found, decoded]
      | some source =>
        simp only [Action.on_pure]
        cases parsed : Configuration.parse source with
        | error problem => simp [Action.on_throw, found, decoded, parsed]
        | ok c' => simp [Action.on_pure, found, decoded, parsed]

theorem configurationPath_of_none {r : Request} (searched : r.configuration = none) (t : FileTree) :
    t.configurationPath r =
      match t.names r.results with
      | .error e => .error (.file r.results e)
      | .ok names =>
        match Configuration.firstName? (names.filter fun name => t.isFile (r.results.join name)) with
        | some name => .ok (r.results.join name)
        | none => .error (.noConfiguration r.results) := by
  have named : Action.on (Assembly.onFile r.results (FileStore.names r.results)) t =
      ((t.names r.results).mapError (Error.file r.results), t) := rfl
  unfold configurationPath Assembly.configurationPath
  rw [searched]
  dsimp only
  rw [Assembly.findConfiguration, Action.on_bind, named]
  cases t.names r.results with
  | error e => rfl
  | ok found =>
    simp only [Action.mapError_ok]
    rw [Action.on_bind, Action.on_lift, Assembly.onlyFiles_eq]
    dsimp only
    cases Configuration.firstName? (found.filter fun name => t.isFile (r.results.join name)) <;> rfl

theorem configurationPath_of_some {r : Request} {p : Path} (given : r.configuration = some p) (t : FileTree) :
    t.configurationPath r = .ok p := by
  unfold configurationPath Assembly.configurationPath
  rw [given]
  rfl

/-- Where the configuration is found depends on the names in directories and on which of them are files. -/
theorem configurationPath_congr {t u : FileTree} (names : ∀ p, u.names p = t.names p)
    (files : ∀ p, u.isFile p = t.isFile p) (r : Request) : u.configurationPath r = t.configurationPath r := by
  cases given : r.configuration with
  | some p => rw [configurationPath_of_some given, configurationPath_of_some given]
  | none => simp only [configurationPath_of_none given, names, files]

/-! ## Sources -/

def sourceOf (t : FileTree) (directory : Path) (x : Match) : Path :=
  if t.isFile (directory.join x.fileName) then directory.join x.fileName else directory.join (lastName x.fileName)

def treePath (source : Path) : Path := source.withExtension "xml".toList

def sourcePage (source : Path) (bytes : Bytes) (x : Match) (tree : Option SourceTree) :
    Except Marking.Overflow Html.Page :=
  let lines := Text.lines (Text.decodeLossy bytes)
  (Marking.render lines (Assembly.marksOf x lines tree)).map (Html.sourcePage source.text)

/-- The paths that are looked up for a match. -/
def inputPaths (t : FileTree) (directory : Path) (x : Match) : List Path :=
  [directory.join x.fileName, t.sourceOf directory x, treePath (t.sourceOf directory x)]

theorem run_sourcePath (t : FileTree) (directory : Path) (x : Match) :
    (Assembly.sourcePath directory x.fileName : StateM FileTree Path) t = (t.sourceOf directory x, t) := by
  rw [Assembly.sourcePath, Assembly.run_bind, Assembly.run_isFile, sourceOf]
  cases t.isFile (directory.join x.fileName) <;> rfl

theorem sourceOf_eq_of_way {directory : Path} {x : Match} (way : SameWay (directory.join x.fileName) t u) :
    u.sourceOf directory x = t.sourceOf directory x := by
  rw [sourceOf, sourceOf, way.isFile_eq]

theorem inputPaths_eq_of_ways {directory : Path} {x : Match} (ways : ∀ p ∈ t.inputPaths directory x, SameWay p t u) :
    u.inputPaths directory x = t.inputPaths directory x := by
  rw [inputPaths, inputPaths, sourceOf_eq_of_way (ways _ List.mem_cons_self)]

end FileTree

/-! ## Documents -/

variable [Xml.Parser]

def Xml.ofBytes? (bytes : Bytes) : Option Xml.Document := (Text.decode? bytes).bind Xml.Parser.read

theorem Assembly.quiet_readDocument (p : Path) : Action.Quiet (readDocument p : Action Xml.Document) := by
  refine quiet_bind (quiet_readText p) fun text => ?_
  cases Xml.Parser.read text with
  | none => exact fun _ => rfl
  | some document => exact fun _ => rfl

namespace FileTree

variable {K : Place → Prop} {t u : FileTree} {p : Path}

def document (t : FileTree) (p : Path) : Except Error Xml.Document := (Action.on (Assembly.readDocument p) t).1

theorem on_readDocument (t : FileTree) (p : Path) : Action.on (Assembly.readDocument p) t = (t.document p, t) :=
  Prod.ext rfl (Assembly.quiet_readDocument p t)

theorem document_eq (t : FileTree) (p : Path) :
    t.document p =
      match t.readFile p with
      | .error e => .error (.file p e)
      | .ok bytes =>
        match Text.decode? bytes with
        | none => .error (.file p .notUtf8)
        | some text =>
          match Xml.Parser.read text with
          | none => .error (.malformedXml p)
          | some d => .ok d := by
  rw [document, Assembly.readDocument, Assembly.readText, Action.on_bind, Action.on_bind, Assembly.on_readFile]
  cases t.readFile p with
  | error e => rfl
  | ok bytes =>
    simp only [Action.mapError_ok]
    cases Text.decode? bytes with
    | none => rfl
    | some text =>
      simp only [Action.on_pure]
      cases Xml.Parser.read text <;> rfl

theorem document_eq_ok_iff {d : Xml.Document} :
    t.document p = .ok d ↔ ∃ bytes, t.readFile p = .ok bytes ∧ Xml.ofBytes? bytes = some d := by
  rw [document_eq]
  cases t.readFile p with
  | error e => simp
  | ok bytes =>
    cases decoded : Text.decode? bytes with
    | none => simp [Xml.ofBytes?, decoded]
    | some text => cases read : Xml.Parser.read text <;> simp [Xml.ofBytes?, decoded, read]

theorem SameWay.document_iff (h : SameWay p t u) (d : Xml.Document) : u.document p = .ok d ↔ t.document p = .ok d := by
  rw [document_eq_ok_iff, document_eq_ok_iff]
  exact exists_congr fun bytes => and_congr_left' (h.readFile_iff bytes)

theorem SameOutside.document_iff (h : SameOutside K t u) (outside : ¬ K (t.placeOf p)) (d : Xml.Document) :
    u.document p = .ok d ↔ t.document p = .ok d :=
  (h.sameWay outside).document_iff d

/-! ## What a run reads -/

def corpora (t : FileTree) (r : Request) : Mode → Except Error Corpora
  | .oneClass found => do
    return .one ⟨r.source, r.results.join found, ← t.document (r.results.join found)⟩
  | .twoClass oldMatches newMatches oldInputs newInputs => do
    let old ← t.document (r.results.join oldMatches)
    let new ← t.document (r.results.join newMatches)
    return .two ⟨r.source.join oldInputs, r.results.join oldMatches, old⟩
      ⟨r.source.join newInputs, r.results.join newMatches, new⟩

def inputs (t : FileTree) (r : Request) (c : Configuration) : Except Error Inputs := do
  let patterns ← t.document (r.results.join c.patterns)
  return ⟨patterns, ← t.corpora r c.mode⟩

theorem on_readCorpora (t : FileTree) (r : Request) (mode : Mode) :
    Action.on (Assembly.readCorpora r mode) t = (t.corpora r mode, t) := by
  cases mode with
  | oneClass found =>
    rw [Assembly.readCorpora, corpora, Action.on_bind, on_readDocument]
    cases t.document (r.results.join found) <;> rfl
  | twoClass oldMatches newMatches oldInputs newInputs =>
    rw [Assembly.readCorpora, corpora, Action.on_bind, on_readDocument]
    cases t.document (r.results.join oldMatches) with
    | error e => rfl
    | ok old =>
      dsimp only
      rw [Action.on_bind, on_readDocument]
      cases t.document (r.results.join newMatches) <;> rfl

theorem on_readDocuments (t : FileTree) (r : Request) (c : Configuration) :
    Action.on (Assembly.readDocuments r c) t = (t.inputs r c, t) := by
  rw [Assembly.readDocuments, inputs, Action.on_bind, on_readDocument]
  cases t.document (r.results.join c.patterns) with
  | error e => rfl
  | ok patterns =>
    dsimp only
    rw [Action.on_bind, on_readCorpora]
    cases t.corpora r c.mode <;> rfl

theorem inputs_of_document_error {t : FileTree} {r : Request} {c : Configuration} {p : Path} {e : Error}
    (mem : p ∈ r.documents c) (failed : t.document p = .error e) : ∃ e, t.inputs r c = .error e := by
  rw [inputs]
  cases first : t.document (r.results.join c.patterns) with
  | error e => exact ⟨e, rfl⟩
  | ok patterns =>
    have others := (List.mem_cons.1 mem).resolve_left fun same => by
      rw [same, first] at failed
      cases failed
    cases mode : c.mode with
    | oneClass found =>
      rw [mode, List.mem_singleton] at others
      rw [corpora, ← others, failed]
      exact ⟨e, rfl⟩
    | twoClass oldMatches newMatches oldInputs newInputs =>
      rw [mode] at others
      rw [corpora]
      cases old : t.document (r.results.join oldMatches) with
      | error e => exact ⟨e, rfl⟩
      | ok d =>
        rcases List.mem_cons.1 others with same | last
        · rw [same, old] at failed
          cases failed
        · rw [← List.mem_singleton.1 last, failed]
          exact ⟨e, rfl⟩

theorem inputs_oneClass_eq_ok_iff {t : FileTree} {r : Request} {patterns found : Text} {inputs : Inputs} :
    t.inputs r ⟨patterns, .oneClass found⟩ = .ok inputs ↔
      ∃ d d', t.document (r.results.join patterns) = .ok d ∧ t.document (r.results.join found) = .ok d' ∧
        inputs = ⟨d, .one ⟨r.source, r.results.join found, d'⟩⟩ := by
  rw [FileTree.inputs, corpora]
  cases t.document (r.results.join patterns) with
  | error e => simp [bind, Except.bind]
  | ok d =>
    cases t.document (r.results.join found) with
    | error e => simp [bind, Except.bind]
    | ok d' => simp [bind, Except.bind, pure, Except.pure, eq_comm]

theorem inputs_twoClass_eq_ok_iff {t : FileTree} {r : Request} {patterns oldMatches newMatches oldInputs newInputs : Text}
    {inputs : Inputs} :
    t.inputs r ⟨patterns, .twoClass oldMatches newMatches oldInputs newInputs⟩ = .ok inputs ↔
      ∃ d old new, t.document (r.results.join patterns) = .ok d ∧ t.document (r.results.join oldMatches) = .ok old ∧
        t.document (r.results.join newMatches) = .ok new ∧
        inputs = ⟨d, .two ⟨r.source.join oldInputs, r.results.join oldMatches, old⟩
          ⟨r.source.join newInputs, r.results.join newMatches, new⟩⟩ := by
  rw [FileTree.inputs, corpora]
  cases t.document (r.results.join patterns) with
  | error e => simp [bind, Except.bind]
  | ok d =>
    cases t.document (r.results.join oldMatches) with
    | error e => simp [bind, Except.bind]
    | ok old =>
      cases t.document (r.results.join newMatches) with
      | error e => simp [bind, Except.bind]
      | ok new => simp [bind, Except.bind, pure, Except.pure, eq_comm]

theorem inputs_eq_ok_of_ways {r : Request} {c : Configuration} {inputs : Inputs}
    (ways : ∀ p ∈ r.documents c, SameWay p t u) (read : t.inputs r c = .ok inputs) : u.inputs r c = .ok inputs := by
  obtain ⟨patterns, mode⟩ := c
  cases mode with
  | oneClass found =>
    simp only [Request.documents, List.forall_mem_cons] at ways
    obtain ⟨first, second, -⟩ := ways
    obtain ⟨d, d', readFirst, readSecond, rfl⟩ := inputs_oneClass_eq_ok_iff.1 read
    exact inputs_oneClass_eq_ok_iff.2
      ⟨d, d', (first.document_iff d).2 readFirst, (second.document_iff d').2 readSecond, rfl⟩
  | twoClass oldMatches newMatches oldInputs newInputs =>
    simp only [Request.documents, List.forall_mem_cons] at ways
    obtain ⟨first, second, third, -⟩ := ways
    obtain ⟨d, old, new, readFirst, readOld, readNew, rfl⟩ := inputs_twoClass_eq_ok_iff.1 read
    exact inputs_twoClass_eq_ok_iff.2 ⟨d, old, new, (first.document_iff d).2 readFirst,
      (second.document_iff old).2 readOld, (third.document_iff new).2 readNew, rfl⟩

/-! ## Matches -/

def treeFor (t : FileTree) (trees : Trees) (p : Path) : Trees × Option SourceTree :=
  match trees.lookup p.components with
  | some tree => (trees, some tree)
  | none =>
    match t.document p with
    | .error _ => (trees, none)
    | .ok d => ((p.components, SourceTree.ofDocument d) :: trees, some (SourceTree.ofDocument d))

/-- The page of a match, if its source can be read, and the trees known then. -/
def pageFor (t : FileTree) (directory : Path) (trees : Trees) (x : Match) :
    Trees × Option (Except Marking.Overflow Html.Page) :=
  match t.readFile (t.sourceOf directory x) with
  | .error _ => (trees, none)
  | .ok bytes =>
    let known := t.treeFor trees (treePath (t.sourceOf directory x))
    (known.1, some (sourcePage (t.sourceOf directory x) bytes x known.2))

theorem run_treeAt (t : FileTree) (trees : Trees) (p : Path) :
    (Assembly.treeAt trees p : StateM FileTree (Trees × Option SourceTree)) t = (t.treeFor trees p, t) := by
  rw [Assembly.treeAt, treeFor]
  cases trees.lookup p.components with
  | some tree => rfl
  | none =>
    have read : (Assembly.readDocument p : Action Xml.Document).run t = (t.document p, t) := on_readDocument t p
    simp only [Assembly.run_bind, read]
    cases t.document p <;> rfl

theorem run_matchPage (t : FileTree) (directory : Path) (trees : Trees) (x : Match) :
    (Assembly.matchPage directory trees x : StateM FileTree (Trees × Option (Except Marking.Overflow Html.Page))) t =
      (t.pageFor directory trees x, t) := by
  rw [Assembly.matchPage, Assembly.run_bind, run_sourcePath, Assembly.run_bind, Assembly.run_readFile, pageFor]
  cases t.readFile (t.sourceOf directory x) with
  | error e => rfl
  | ok bytes =>
    simp only [Assembly.run_bind, run_treeAt]
    rfl

/-! ## The same on other trees -/

theorem pageFor_congr {directory : Path} {x : Match} (source : u.sourceOf directory x = t.sourceOf directory x)
    (content : ∀ bytes, u.readFile (t.sourceOf directory x) = .ok bytes ↔ t.readFile (t.sourceOf directory x) = .ok bytes)
    (tree : ∀ d, u.document (treePath (t.sourceOf directory x)) = .ok d ↔
      t.document (treePath (t.sourceOf directory x)) = .ok d) (trees : Trees) :
    u.pageFor directory trees x = t.pageFor directory trees x := by
  have known : u.treeFor trees (treePath (t.sourceOf directory x)) =
      t.treeFor trees (treePath (t.sourceOf directory x)) := by
    unfold treeFor
    cases trees.lookup (treePath (t.sourceOf directory x)).components with
    | some tree => rfl
    | none =>
      dsimp only
      cases documentT : t.document (treePath (t.sourceOf directory x)) with
      | ok d => rw [(tree d).2 documentT]
      | error e =>
        cases documentU : u.document (treePath (t.sourceOf directory x)) with
        | ok d => cases ((tree d).1 documentU).symm.trans documentT
        | error e => rfl
  unfold pageFor
  rw [source, known]
  cases readT : t.readFile (t.sourceOf directory x) with
  | ok bytes => rw [(content bytes).2 readT]
  | error e =>
    cases readU : u.readFile (t.sourceOf directory x) with
    | ok bytes => cases ((content bytes).1 readU).symm.trans readT
    | error e => rfl

theorem pageFor_eq_of_ways {directory : Path} {x : Match} (ways : ∀ p ∈ t.inputPaths directory x, SameWay p t u)
    (trees : Trees) : u.pageFor directory trees x = t.pageFor directory trees x := by
  simp only [inputPaths, List.forall_mem_cons] at ways
  obtain ⟨recorded, source, tree, -⟩ := ways
  exact pageFor_congr (sourceOf_eq_of_way recorded) source.readFile_iff tree.document_iff trees

theorem SameOutside.pageFor_eq (h : SameOutside K t u) {directory : Path} {x : Match}
    (outside : ∀ p ∈ t.inputPaths directory x, ¬ K (t.placeOf p)) (trees : Trees) :
    u.pageFor directory trees x = t.pageFor directory trees x :=
  pageFor_eq_of_ways (fun p mem => h.sameWay (outside p mem)) trees

end FileTree

/-! ## Runs -/

/-- A run that comes to writing pages: the configuration, the tree with the output directory, and what is read there. -/
structure Request.Reads (r : Request) (t : FileTree) (c : Configuration) (u : FileTree) (inputs : Inputs) : Prop where
  configuration : t.configuration r = .ok c
  output : t.createDirectories r.output = (u, .ok ())
  inputs : u.inputs r c = .ok inputs

def Request.runOn (r : Request) (t : FileTree) : Except Error Report × FileTree :=
  (r.run : StateM FileTree (Except Error Report)) t

namespace Request

theorem runOn_eq (r : Request) (t : FileTree) :
    r.runOn t =
      match t.configuration r with
      | .error e => (.error e, t)
      | .ok c =>
        match t.createDirectories r.output with
        | (u, .error e) => (.error (.file r.output e), u)
        | (u, .ok ()) =>
          match u.inputs r c with
          | .error e => (.error e, u)
          | .ok inputs => Action.on (Assembly.publish r inputs) u := by
  have stages : r.runOn t = Action.on (Assembly.readInputs r >>= Assembly.publish r) t := by
    rw [runOn, run, Assembly.assemble_eq]
    rfl
  have made : Action.on (Assembly.onFile r.output (FileStore.createDirectories r.output)) t =
      ((t.createDirectories r.output).2.mapError (Error.file r.output), (t.createDirectories r.output).1) := rfl
  rw [stages, Action.on_bind, Assembly.readInputs, Action.on_bind, FileTree.on_readConfiguration]
  cases t.configuration r with
  | error e => rfl
  | ok c =>
    dsimp only
    rw [Action.on_bind, made]
    cases t.createDirectories r.output with
    | mk u result =>
      cases result with
      | error e => rfl
      | ok _ =>
        simp only [Action.mapError_ok, FileTree.on_readDocuments]
        cases u.inputs r c <;> rfl

section Stops

variable {r : Request} {t u : FileTree} {c : Configuration}

theorem runOn_of_configuration_error {e : Error} (failed : t.configuration r = .error e) :
    r.runOn t = (.error e, t) := by
  rw [runOn_eq, failed]

theorem runOn_of_output_error {e : FileError} (configuration : t.configuration r = .ok c)
    (failed : t.createDirectories r.output = (u, .error e)) : r.runOn t = (.error (.file r.output e), u) := by
  simp only [runOn_eq, configuration, failed]

theorem runOn_of_inputs_error {e : Error} (configuration : t.configuration r = .ok c)
    (output : t.createDirectories r.output = (u, .ok ())) (failed : u.inputs r c = .error e) :
    r.runOn t = (.error e, u) := by
  simp only [runOn_eq, configuration, output, failed]

theorem Reads.runOn_eq {inputs : Inputs} (h : r.Reads t c u inputs) :
    r.runOn t = Action.on (Assembly.publish r inputs) u := by
  simp only [Request.runOn_eq, h.configuration, h.output, h.inputs]

/-- A run that does not come to the pages fails, and at most it has made directories. -/
theorem reads_or_stops (r : Request) (t : FileTree) :
    (∃ c u inputs, r.Reads t c u inputs) ∨
      ∃ e u, r.runOn t = (.error e, u) ∧ (u = t ∨ u = (t.createDirectories r.output).1) := by
  cases configuration : t.configuration r with
  | error e => exact .inr ⟨e, t, runOn_of_configuration_error configuration, .inl rfl⟩
  | ok c =>
    cases output : t.createDirectories r.output with
    | mk u result =>
      cases result with
      | error e => exact .inr ⟨_, u, runOn_of_output_error configuration output, .inr rfl⟩
      | ok _ =>
        cases inputs : u.inputs r c with
        | error e => exact .inr ⟨e, u, runOn_of_inputs_error configuration output inputs, .inr rfl⟩
        | ok inputs' => exact .inl ⟨c, u, inputs', configuration, output, inputs⟩

theorem reads_of_runOn_eq_ok {t' : FileTree} {report : Report} (ok : r.runOn t = (.ok report, t')) :
    ∃ c u inputs, r.Reads t c u inputs := by
  rcases reads_or_stops r t with reads | ⟨e, u, stopped, -⟩
  · exact reads
  · cases stopped.symm.trans ok

end Stops

end Request

end PatternPages
