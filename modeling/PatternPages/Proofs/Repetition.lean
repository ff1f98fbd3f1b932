import Mathlib.Data.List.Infix
import PatternPages.Proofs.Discovery
import PatternPages.Proofs.FailingMatches

/-! Runs that are repeated. As long as nothing that a run reads lies in the output directory, it does not matter what is in there:
a run on other contents writes the same pages, and a second run finds everything as it would leave it. -/
namespace PatternPages

open Assembly (Ready putSheets Writable)

section Parser

variable [Xml.Parser]

namespace Request

/-- A file that the run reads or looks for. -/
inductive Consults (r : Request) (t : FileTree) : Path → Prop where
  | configuration {path : Path} (found : t.configurationPath r = .ok path) : Consults r t path
  | document {c : Configuration} {u : FileTree} {inputs : Inputs} {path : Path} (reads : r.Reads t c u inputs)
    (mem : path ∈ r.documents c) : Consults r t path
  | input {c : Configuration} {u : FileTree} {inputs : Inputs} {y : Corpus × CorpusInput} {p : Pattern} {x : Match}
    {path : Path} (reads : r.Reads t c u inputs) (corpus : y ∈ inputs.corpora.toList) (pattern : p ∈ inputs.patternList)
    (found : x ∈ Match.ofPattern (Match.ofDocument y.2.document) p.number) (mem : path ∈ u.inputPaths y.2.directory x) :
    Consults r t path

/-- A path that the run follows: to a file, to its output, or to the directory where it searches for its configuration. -/
inductive Follows (r : Request) (t : FileTree) : Path → Prop where
  | file {path : Path} (consults : r.Consults t path) : Follows r t path
  | output : Follows r t r.output
  | results (searched : r.configuration = none) : Follows r t r.results

def ConsultsOutside (r : Request) (t : FileTree) : Prop :=
  ∀ path, r.Consults t path → ¬ (t.placeOf r.output).Below (t.placeOf path)

/-- `v` is `u` with other contents of the output directory. Only directories that the run passes on its way are the same. -/
structure OtherOutput (r : Request) (t u v : FileTree) : Prop where
  workingDirectory : v.workingDirectory = u.workingDirectory
  outside : ∀ place, ¬ (u.placeOf r.output).Below place → v.entries.get? place = u.entries.get? place
  through : ∀ path, r.Follows t path → ∀ place, u.OnWay path place → (u.placeOf r.output).Below place →
    (v.entry? place = some .directory ↔ u.entry? place = some .directory)

section Other

variable {r : Request} {t u v : FileTree} {c : Configuration} {inputs : Inputs}

theorem OtherOutput.of_sameOutside (same : u.SameOutside (u.placeOf r.output).Below v) : r.OtherOutput t u v where
  workingDirectory := same.workingDirectory
  outside _ := same.get?_eq
  through _ _ place _ _ := same.directory_iff place

theorem OtherOutput.sameWay (other : r.OtherOutput t u v) {path : Path} (follows : r.Follows t path)
    (outside : ¬ (u.placeOf r.output).Below (u.placeOf path)) : FileTree.SameWay path u v where
  workingDirectory := other.workingDirectory
  directories place way := by
    by_cases below : (u.placeOf r.output).Below place
    · exact other.through path follows place way below
    · rw [FileTree.entry_congr (other.outside place below)]
  last := FileTree.entry_congr (other.outside _ outside)

theorem OtherOutput.outputWay (other : r.OtherOutput t u v) : FileTree.SameWay r.output u v :=
  other.sameWay .output fun below => below.2 rfl

/-! ## The configuration -/

/-- The results directory, and every name in it, lies outside where the configuration that was found in it does. -/
theorem results_outside (named : t.Named) (outside : r.ConsultsOutside t) (searched : r.configuration = none) {path : Path}
    (found : t.configurationPath r = .ok path) (name : Text) :
    ¬ (t.placeOf r.output).Below (name :: t.placeOf r.results) := by
  obtain ⟨-, first, listed, configuration, rfl⟩ := FileTree.configurationPath_searched searched found
  have plain := Configuration.plain_of_isConfigurationName configuration (named.slash listed)
  have apart := outside _ (.configuration found)
  rw [t.placeOf_join r.results plain] at apart
  exact Place.not_below_cons apart name

theorem configurationPath_other (named : t.Named) (outside : r.ConsultsOutside t)
    (made : FileTree.Made (t.start r.output) r.output.parts.reverse t u) (other : r.OtherOutput t u v) {path : Path}
    (found : t.configurationPath r = .ok path) : v.configurationPath r = .ok path := by
  cases given : r.configuration with
  | some p =>
    rw [FileTree.configurationPath_of_some given] at found ⊢
    exact found
  | none =>
    obtain ⟨listed, -⟩ := FileTree.configurationPath_searched given found
    obtain ⟨-, walked, there, -⟩ := FileTree.names_eq_ok_iff.1 listed
    have same : v.workingDirectory = t.workingDirectory := other.workingDirectory.trans made.workingDirectory
    have places (p : Path) : u.placeOf p = t.placeOf p := FileTree.placeOf_congr made.workingDirectory p
    have apart (name : Text) : ¬ (u.placeOf r.output).Below (name :: u.placeOf r.results) := by
      rw [places, places]
      exact results_outside named outside given found name
    have entries (name : Text) := other.outside _ (apart name)
    have way : FileTree.SameWay r.results u v :=
      other.sameWay (.results given) fun below => apart [] (below.cons [])
    have thereU : u.entry? (u.placeOf r.results) = some .directory := by rw [places, made.directory there]
    have walkedU : u.walk (u.start r.results) r.results.parts = .ok (u.placeOf r.results) := by
      rw [places, FileTree.start_congr made.workingDirectory, made.walk there walked]
    obtain ⟨walkedV, thereV⟩ := way.arrives walkedU thereU
    have placesV : v.placeOf r.results = u.placeOf r.results := FileTree.placeOf_congr other.workingDirectory r.results
    refine FileTree.configurationPath_of_files given found same walkedV thereV (fun name => named.slash) ?_ ?_
    · intro name mem
      rw [placesV, FileTree.mem_namesAt, entries, ← FileTree.mem_namesAt] at mem
      exact (named.made made).slash mem
    · intro name content
      rw [← places, FileTree.entry_congr (entries name), made.file_iff, places]

theorem configuration_other (named : t.Named) (outside : r.ConsultsOutside t)
    (made : FileTree.Made (t.start r.output) r.output.parts.reverse t u) (other : r.OtherOutput t u v)
    (read : t.configuration r = .ok c) : v.configuration r = .ok c := by
  obtain ⟨path, content, source, found, content_eq, decoded, parsed⟩ := FileTree.configuration_eq_ok_iff.1 read
  have apart := outside path (.configuration found)
  rw [← FileTree.placeOf_congr made.workingDirectory, ← FileTree.placeOf_congr made.workingDirectory] at apart
  have way := other.sameWay (.file (.configuration found)) apart
  exact FileTree.configuration_eq_ok_iff.2 ⟨path, content, source, configurationPath_other named outside made other found,
    way.readFile (made.readFile content_eq), decoded, parsed⟩

/-! ## The pages -/

theorem Reads.other (named : t.Named) (outside : r.ConsultsOutside t) (reads : r.Reads t c u inputs) {name : PageName}
    (writable : Writable r.output u name) (other : r.OtherOutput t u v) : r.Reads v c v inputs := by
  have made := made_of_createDirectories reads.output
  have places (p : Path) : u.placeOf p = t.placeOf p := FileTree.placeOf_congr made.workingDirectory p
  refine ⟨configuration_other named outside made other reads.configuration, ?_, ?_⟩
  · obtain ⟨-, walked, there, -⟩ := (FileTree.accepts_join_iff (PageName.plain_file name)).1 writable
    obtain ⟨walkedV, thereV⟩ := other.outputWay.arrives walked there
    exact FileTree.createDirectories_of_directory (FileTree.accepted_of_createDirectories reads.output) walkedV thereV
  · refine FileTree.inputs_eq_ok_of_ways (fun p mem => ?_) reads.inputs
    refine other.sameWay (.file (.document reads mem)) ?_
    rw [places, places]
    exact outside p (.document reads mem)

theorem Reads.inputs_outside (outside : r.ConsultsOutside t) (reads : r.Reads t c u inputs) :
    inputs.Outside r.output u := by
  have made := made_of_createDirectories reads.output
  intro y corpus p pattern x found path mem
  rw [FileTree.placeOf_congr made.workingDirectory, FileTree.placeOf_congr made.workingDirectory]
  exact outside path (.input reads corpus pattern found mem)

theorem Reads.inputWays (outside : r.ConsultsOutside t) (reads : r.Reads t c u inputs) (other : r.OtherOutput t u v)
    {y : Corpus × CorpusInput} (corpus : y ∈ inputs.corpora.toList) {p : Pattern} (pattern : p ∈ inputs.patternList)
    {x : Match} (found : x ∈ Match.ofPattern (Match.ofDocument y.2.document) p.number) :
    ∀ path ∈ u.inputPaths y.2.directory x, FileTree.SameWay path u v := by
  intro path mem
  exact other.sameWay (.file (.input reads corpus pattern found mem))
    (reads.inputs_outside outside y corpus p pattern x found path mem)

theorem Reads.listings_other (outside : r.ConsultsOutside t) (reads : r.Reads t c u inputs)
    (other : r.OtherOutput t u v) :
    inputs.corpora.listings v inputs.patternList = inputs.corpora.listings u inputs.patternList := by
  have listed (y : Corpus × CorpusInput) (corpus : y ∈ inputs.corpora.toList) :
      v.listings (y.2.collection y.1) [] inputs.patternList = u.listings (y.2.collection y.1) [] inputs.patternList := by
    refine FileTree.listings_congr rfl (fun p pattern => ?_) []
    refine FileTree.shownFor_congr fun x found => ?_
    exact FileTree.pageFor_eq_of_ways (reads.inputWays outside other corpus pattern found)
  revert listed
  cases inputs.corpora with
  | one only => exact fun listed => listed (.old, only) List.mem_cons_self
  | two old new =>
    intro listed
    have oldListed := listed (.old, old) List.mem_cons_self
    have newListed := listed (.new, new) (List.mem_cons_of_mem _ List.mem_cons_self)
    dsimp only at oldListed newListed
    rw [Corpora.listings, Corpora.listings, oldListed, newListed]

theorem Reads.outside_other (outside : r.ConsultsOutside t) (reads : r.Reads t c u inputs) (other : r.OtherOutput t u v) :
    inputs.Outside r.output v := by
  intro y corpus p pattern x found path mem
  rw [FileTree.inputPaths_eq_of_ways (reads.inputWays outside other corpus pattern found)] at mem
  rw [FileTree.placeOf_congr other.workingDirectory, FileTree.placeOf_congr other.workingDirectory]
  exact reads.inputs_outside outside y corpus p pattern x found path mem

theorem OtherOutput.writable (other : r.OtherOutput t u v) {name : PageName} (writable : Writable r.output u name)
    (free : v.entry? (name.file :: v.placeOf r.output) ≠ some .directory) : Writable r.output v name := by
  have plain := PageName.plain_file name
  obtain ⟨accepted, walked, there, short, -⟩ := (FileTree.accepts_join_iff plain).1 writable
  obtain ⟨walkedV, thereV⟩ := other.outputWay.arrives walked there
  exact (FileTree.accepts_join_iff plain).2 ⟨accepted, walkedV, thereV, short, free⟩

/-- A run that finds other contents in its output directory writes the same sheets. -/
theorem Reads.runOn_other (named : t.Named) (outside : r.ConsultsOutside t) (reads : r.Reads t c u inputs)
    (ready : ∀ s ∈ inputs.sheets r u, Ready r.output u s) (other : r.OtherOutput t u v)
    (free : ∀ s ∈ inputs.sheets r u, v.entry? (s.name.file :: v.placeOf r.output) ≠ some .directory) :
    r.runOn v = (.ok (inputs.report r u), putSheets r.output v (inputs.sheets r u)) := by
  have index : (⟨.index, .ok Html.framesPage⟩ : Sheet) ∈ inputs.sheets r u :=
    List.mem_append_right _ (List.mem_cons_of_mem _ List.mem_cons_self)
  have readsV := reads.other named outside (ready _ index).writable other
  have listings := reads.listings_other outside other
  have sheets : inputs.sheets r v = inputs.sheets r u := by rw [Inputs.sheets, Inputs.sheets, listings]
  have report : inputs.report r v = inputs.report r u := by rw [Inputs.report, Inputs.report, listings]
  rw [← sheets] at ready free
  have run := readsV.publishes (reads.outside_other outside other) fun s mem =>
    ⟨(ready s mem).rendered, other.writable (ready s mem).writable (free s mem)⟩
  rw [run, sheets, report]

end Other

variable {r : Request} {t t' : FileTree} {report : Report}

/-- A run leaves what a second run would leave. What it writes does not depend on what the output directory held, nor on the
order in which directories list their names. -/
theorem run_again (named : t.Named) (outside : r.ConsultsOutside t) (ok : r.runOn t = (.ok report, t')) :
    r.runOn t' = (.ok report, t') ∧
    (∃ u sheets, t.createDirectories r.output = (u, .ok ()) ∧ t' = putSheets r.output u sheets ∧
      ∀ v, r.OtherOutput t u v → (∀ s ∈ sheets, v.entry? (s.name.file :: v.placeOf r.output) ≠ some .directory) →
        r.runOn v = (.ok report, putSheets r.output v sheets)) ∧
    ∀ order : FileTree → Path → List Text → List Text, (∀ t p names, (order t p names).Perm names) →
      (@Request.run (StateM FileTree) _ (.reordered order) _ r : StateM FileTree _) t = (.ok report, t') := by
  obtain ⟨c, u, inputs, reads⟩ := reads_of_runOn_eq_ok ok
  obtain ⟨rfl, rfl, ready⟩ := reads.published (reads.inputs_outside outside) ok
  have wrote : Assembly.Wrote (fun _ => True) r.output u (putSheets r.output u (inputs.sheets r u)) :=
    Assembly.wrote_putSheets (fun _ _ => trivial) ready
  refine ⟨?_, ⟨u, inputs.sheets r u, reads.output, rfl, fun v => reads.runOn_other named outside ready⟩, ?_⟩
  · have other : r.OtherOutput t u (putSheets r.output u (inputs.sheets r u)) := .of_sameOutside wrote.sameOutside
    have again := reads.runOn_other named outside ready other fun s mem => by
      rw [wrote.same.placeOf_eq, ne_eq, wrote.same.directory_iff, ← Assembly.placeOf_file]
      exact FileTree.Accepts.free (ready s mem).writable
    have written : ∀ s ∈ inputs.sheets r u, ∀ text, s.text = .ok text →
        (putSheets r.output u (inputs.sheets r u)).readFile (r.output.join s.name.file) = .ok (Text.encode text) :=
      fun s mem text => Assembly.readFile_putSheets (inputs.nodup_names r u) ready mem
    rw [again, Assembly.putSheets_self written]
  · intro order perm
    rw [Assembly.run_reordered perm]
    exact ok

end Request

end Parser

theorem FileTree.onWay_iff_mem {t : FileTree} {p : Path} {place : Place} :
    t.OnWay p place ↔ place ∈ p.parts.reverse.tails.map (Path.reach (t.start p)) := by
  simp only [OnWay, List.mem_map, List.mem_tails, eq_comm]

namespace Sample

def made : FileTree := (tree.createDirectories request.output).1

/-- The output directory holds an entry page of another run, and a directory with a file. -/
def used : FileTree :=
  FileTree.put (FileTree.put (made.put ["index.html".toList, "o".toList] (.file (Text.encode "<html/>".toList)))
    ["old".toList, "o".toList] .directory) ["x".toList, "old".toList, "o".toList] (.file [])

def followed : List Path :=
  ["r", "o", "r/c.conf", "r/p.xml", "r/m.xml", "s/x", "s/x.xml", "s/y", "s/y.xml"].map fun text => ⟨text.toList⟩

theorem mem_followed {path : Path} (follows : request.Follows tree path) : path ∈ followed := by
  have reads : request.Reads tree settings made inputs :=
    ⟨by decide +kernel, Prod.ext rfl (by decide +kernel), by decide +kernel⟩
  cases follows with
  | output => decide
  | results => decide
  | file consults =>
    cases consults with
    | configuration found =>
      have path : tree.configurationPath request = .ok ⟨"r/c.conf".toList⟩ := by decide +kernel
      obtain rfl := Except.ok.inj (found.symm.trans path)
      decide
    | document reads' mem =>
      obtain ⟨rfl, -, -⟩ := reads.unique reads'
      have all : ∀ path ∈ request.documents settings, path ∈ followed := by decide +kernel
      exact all _ mem
    | input reads' corpus pattern found mem =>
      obtain ⟨-, rfl, rfl⟩ := reads.unique reads'
      have all : ∀ y ∈ inputs.corpora.toList, ∀ p ∈ inputs.patternList,
          ∀ x ∈ Match.ofPattern (Match.ofDocument y.2.document) p.number,
            ∀ path ∈ made.inputPaths y.2.directory x, path ∈ followed := by decide +kernel
      exact all _ corpus _ pattern _ found _ mem

theorem otherOutput_used : request.OtherOutput tree made used where
  workingDirectory := rfl
  outside place apart := by
    have inside : ∀ held ∈ [["index.html".toList, "o".toList], ["old".toList, "o".toList],
        ["x".toList, "old".toList, "o".toList]], (made.placeOf request.output).Below held := by decide +kernel
    have differs {held : Place} (below : (made.placeOf request.output).Below held) : place ≠ held := by
      rintro rfl
      exact apart below
    simp only [List.forall_mem_cons] at inside
    obtain ⟨page, directory, file, -⟩ := inside
    rw [used, FileTree.get?_put, FileTree.get?_put, FileTree.get?_put, if_neg (differs file), if_neg (differs directory),
      if_neg (differs page)]
  through path follows place way below := by
    have apart : ∀ path ∈ followed, ∀ place ∈ path.parts.reverse.tails.map (Path.reach (made.start path)),
        ¬ (made.placeOf request.output).Below place := by decide +kernel
    exact absurd below (apart path (mem_followed follows) place (FileTree.onWay_iff_mem.1 way))

theorem free_used (name : PageName) : used.entry? (name.file :: used.placeOf request.output) ≠ some .directory := by
  intro directory
  have output : used.placeOf request.output = ["o".toList] := by decide +kernel
  have directories : ∀ e ∈ used.entries.toList, e.2 = .directory →
      e.1 ∈ [["o".toList], ["r".toList], ["s".toList], ["old".toList, "o".toList]] := by decide +kernel
  rw [output] at directory
  have listed := directories _ ((OrderedMap.get?_eq_some_iff _ _ _).1 directory) rfl
  have old : name.file = "old".toList := by simpa using listed
  have character := PageName.getElem?_file name
  rw [old] at character
  cases character

end Sample

theorem Request.run_again_sample :
    Sample.tree.Named ∧ Sample.request.ConsultsOutside Sample.tree ∧
      ∃ t', Sample.request.runOn Sample.tree = (.ok Sample.report, t') ∧
        Sample.request.runOn t' = (.ok Sample.report, t') ∧
        (∃ sheets, t' = putSheets Sample.request.output Sample.made sheets ∧
          Sample.request.runOn Sample.used = (.ok Sample.report, putSheets Sample.request.output Sample.used sheets)) ∧
        (@Request.run (StateM FileTree) _ (.reordered fun _ _ names => names.reverse) _ Sample.request : StateM FileTree _)
          Sample.tree = (.ok Sample.report, t') := by
  have named : Sample.tree.Named := by decide +kernel
  have outside : Sample.request.ConsultsOutside Sample.tree := by
    have all : ∀ path ∈ Sample.followed, ¬ (Sample.tree.placeOf Sample.request.output).Below (Sample.tree.placeOf path) := by
      decide +kernel
    exact fun path consults => all path (Sample.mem_followed (.file consults))
  have ok : Sample.request.runOn Sample.tree = (.ok Sample.report, (Sample.request.runOn Sample.tree).2) :=
    Prod.ext Sample.runs rfl
  obtain ⟨again, ⟨u, sheets, output, written, others⟩, ordered⟩ := run_again named outside ok
  obtain rfl : u = Sample.made := by rw [Sample.made, output]
  exact ⟨named, outside, _, ok, again, ⟨sheets, written, others _ Sample.otherOutput_used fun s _ => Sample.free_used s.name⟩,
    ordered _ fun _ _ names => names.reverse_perm⟩

end PatternPages
