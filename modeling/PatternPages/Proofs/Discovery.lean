import PatternPages.Proofs.Entries
import PatternPages.Proofs.Directories
import PatternPages.Proofs.Readers

/-! Finding the configuration. It is the first of the files with a name for one, whatever the order in which the directory lists
them, so it stays the same where these files stay and no others with such a name come. -/
namespace PatternPages

/-! ## The first name -/

namespace Configuration

def Least (names : List Text) (first : Text) : Prop := first ∈ names ∧ ∀ name ∈ names, ¬ name < first

theorem Least.unique {names names' : List Text} {first first' : Text} (h : Least names first) (h' : Least names' first')
    (same : ∀ name, name ∈ names ↔ name ∈ names') : first = first' := by
  rcases LinearKey.trichotomy first first' with before | equal | after
  · exact absurd before (h'.2 first ((same first).1 h.1))
  · exact equal
  · exact absurd after (h.2 first' ((same first').2 h'.1))

def earlier (first : Option Text) (name : Text) : Option Text :=
  match first with
  | none => some name
  | some other => some (if name < other then name else other)

theorem firstName?_eq (names : List Text) : firstName? names = (names.filter isConfigurationName).foldl earlier none := rfl

theorem foldl_earlier (start : Text) (names : List Text) :
    ∃ first, names.foldl earlier (some start) = some first ∧ Least (start :: names) first := by
  induction names generalizing start with
  | nil => exact ⟨start, rfl, List.mem_cons_self, by simp⟩
  | cons name rest ih =>
    by_cases before : name < start
    · obtain ⟨first, run, mem, least⟩ := ih name
      refine ⟨first, by rw [List.foldl_cons, earlier, if_pos before, run], List.mem_cons_of_mem start mem, ?_⟩
      have notStart : ¬ start < first := fun less => least name List.mem_cons_self (LinearKey.trans before less)
      exact List.forall_mem_cons.2 ⟨notStart, least⟩
    · obtain ⟨first, run, mem, least⟩ := ih start
      obtain ⟨notStart, later⟩ := List.forall_mem_cons.1 least
      have notName : ¬ name < first := by
        intro less
        rcases LinearKey.trichotomy name start with lt | rfl | gt
        · exact before lt
        · exact notStart less
        · exact notStart (LinearKey.trans gt less)
      refine ⟨first, by rw [List.foldl_cons, earlier, if_neg before, run], ?_, ?_⟩
      · rcases List.mem_cons.1 mem with rfl | mem
        · exact List.mem_cons_self
        · exact List.mem_cons_of_mem _ (List.mem_cons_of_mem _ mem)
      · exact List.forall_mem_cons.2 ⟨notStart, List.forall_mem_cons.2 ⟨notName, later⟩⟩

theorem firstName?_spec (names : List Text) :
    (firstName? names = none ∧ names.filter isConfigurationName = []) ∨
      ∃ first, firstName? names = some first ∧ Least (names.filter isConfigurationName) first := by
  rw [firstName?_eq]
  cases names.filter isConfigurationName with
  | nil => exact .inl ⟨rfl, rfl⟩
  | cons name rest => exact .inr (foldl_earlier name rest)

/-- Only the set of names counts, and only those for a configuration. -/
theorem firstName?_congr {names names' : List Text}
    (same : ∀ name, isConfigurationName name → (name ∈ names ↔ name ∈ names')) : firstName? names = firstName? names' := by
  have sameNamed : ∀ name, name ∈ names.filter isConfigurationName ↔ name ∈ names'.filter isConfigurationName := by
    intro name
    rw [List.mem_filter, List.mem_filter]
    exact and_congr_left (same name)
  rcases firstName?_spec names with ⟨missing, empty⟩ | ⟨first, found, least⟩
  · rcases firstName?_spec names' with ⟨missing', -⟩ | ⟨first', -, least'⟩
    · rw [missing, missing']
    · have mem := (sameNamed first').2 least'.1
      rw [empty] at mem
      cases mem
  · rcases firstName?_spec names' with ⟨-, empty'⟩ | ⟨first', found', least'⟩
    · have mem := (sameNamed first).1 least.1
      rw [empty'] at mem
      cases mem
    · rw [found, found', least.unique least' sameNamed]

theorem plain_of_isConfigurationName {name : Text} (named : isConfigurationName name) (slash : '/' ∉ name) :
    Path.Plain name := by
  have single : Path.innermostParts ⟨name⟩ = [name] := by
    simp [Path.innermostParts, Path.parts, Text.splitAt_of_not_mem slash, Path.parentsFrom]
  have last : ¬ (Path.isIdle name || name = Path.up) = true := by
    intro special
    simp [isConfigurationName, Path.extension, Path.fileName, single, special] at named
  simp only [Bool.or_eq_true, decide_eq_true_eq, not_or] at last
  exact ⟨slash, last.1, last.2⟩

end Configuration

/-! ## Names -/

theorem Path.mem_reach {from_ : Place} {innermost : List Text} {name : Text} (mem : name ∈ reach from_ innermost) :
    name ∈ from_ ∨ name ∈ innermost := by
  induction innermost with
  | nil => exact .inl mem
  | cons part outer ih =>
    have step : reach from_ (part :: outer) = Path.step (reach from_ outer) part := rfl
    rw [step, Path.step] at mem
    have before (here : name ∈ reach from_ outer) : name ∈ from_ ∨ name ∈ part :: outer :=
      (ih here).imp_right (List.mem_cons_of_mem part)
    split at mem
    · exact before mem
    · split at mem
      · exact before (List.mem_of_mem_tail mem)
      · rcases List.mem_cons.1 mem with rfl | mem
        · exact .inr List.mem_cons_self
        · exact before mem

namespace FileTree

variable {t u v : FileTree}

/-- No name has a slash in it, as in any tree that was made with paths. -/
def Named (t : FileTree) : Prop :=
  (∀ place ∈ t.entries.keys, ∀ name ∈ place, '/' ∉ name) ∧ ∀ name ∈ t.workingDirectory, '/' ∉ name

instance (t : FileTree) : Decidable t.Named := inferInstanceAs (Decidable (_ ∧ _))

theorem Named.made (named : t.Named) {p : Path} (made : Made (t.start p) p.parts.reverse t u) : u.Named := by
  refine ⟨fun place mem name inPlace => ?_, made.workingDirectory ▸ named.2⟩
  obtain ⟨e, found⟩ := (u.entries.mem_keys_iff place).1 mem
  rcases made.get? place with same | ⟨-, -, q, way, rfl⟩
  · exact named.1 place ((t.entries.mem_keys_iff place).2 ⟨e, same ▸ found⟩) name inPlace
  · rcases Path.mem_reach inPlace with start | part
    · unfold FileTree.start at start
      split at start
      · cases start
      · exact named.2 name start
    · exact Text.not_mem_of_mem_splitAt (List.mem_reverse.1 (way.subset part))

theorem mem_namesAt {place : Place} {name : Text} :
    name ∈ t.namesAt place ↔ (t.entries.get? (name :: place)).isSome := by
  rw [namesAt, List.mem_filterMap, Option.isSome_iff_exists, ← OrderedMap.mem_keys_iff]
  constructor
  · rintro ⟨key, mem, listed⟩
    cases key with
    | nil => cases listed
    | cons first above =>
      simp only [Option.ite_none_right_eq_some, Option.some.injEq] at listed
      obtain ⟨rfl, rfl⟩ := listed
      exact mem
  · intro mem
    exact ⟨name :: place, mem, by simp⟩

theorem Named.slash (named : t.Named) {place : Place} {name : Text} (mem : name ∈ t.namesAt place) : '/' ∉ name := by
  obtain ⟨e, found⟩ := Option.isSome_iff_exists.1 (mem_namesAt.1 mem)
  exact named.1 _ ((t.entries.mem_keys_iff _).2 ⟨e, found⟩) name List.mem_cons_self

theorem names_eq_ok_iff {p : Path} {names : List Text} :
    t.names p = .ok names ↔ p.refusal? = none ∧ t.walk (t.start p) p.parts = .ok (t.placeOf p) ∧
      t.entry? (t.placeOf p) = some .directory ∧ names = t.namesAt (t.placeOf p) := by
  unfold FileTree.names find resolve
  cases refused : p.refusal? with
  | some e => simp
  | none =>
    cases walked : t.walk (t.start p) p.parts with
    | error e => simp
    | ok place =>
      obtain rfl : place = t.placeOf p := walk_eq_foldl walked
      cases entry : t.entry? (t.placeOf p) with
      | none => simp [entry]
      | some e => cases e <;> simp [entry, eq_comm]

/-! ## The same configuration on other trees -/

/-- The files among the names that are listed are those with an entry that is a file, and a path that is not too long. -/
theorem mem_listed_iff {directory : Path} (clean : ∀ name ∈ t.namesAt (t.placeOf directory), '/' ∉ name)
    (walked : t.walk (t.start directory) directory.parts = .ok (t.placeOf directory))
    (there : t.entry? (t.placeOf directory) = some .directory) {name : Text}
    (named : Configuration.isConfigurationName name) :
    name ∈ (t.namesAt (t.placeOf directory)).filter (fun name => t.isFile (directory.join name)) ↔
      '/' ∉ name ∧ (directory.join name).refusal? = none ∧ ¬ Path.isLongName name ∧
        ∃ content, t.entry? (name :: t.placeOf directory) = some (.file content) := by
  rw [List.mem_filter, isFile_iff]
  constructor
  · rintro ⟨mem, content, read⟩
    have plain := Configuration.plain_of_isConfigurationName named (clean name mem)
    obtain ⟨accepted, short, entry⟩ := (readFile_join_iff plain walked there content).1 read
    exact ⟨plain.slash, accepted, short, content, entry⟩
  · rintro ⟨slash, accepted, short, content, entry⟩
    have plain := Configuration.plain_of_isConfigurationName named slash
    have listed : (t.entries.get? (name :: t.placeOf directory)).isSome := Option.isSome_iff_exists.2 ⟨_, entry⟩
    exact ⟨mem_namesAt.2 listed, content, (readFile_join_iff plain walked there content).2 ⟨accepted, short, entry⟩⟩

theorem configurationPath_searched {r : Request} {p : Path} (searched : r.configuration = none)
    (found : t.configurationPath r = .ok p) :
    t.names r.results = .ok (t.namesAt (t.placeOf r.results)) ∧
      ∃ name ∈ t.namesAt (t.placeOf r.results), Configuration.isConfigurationName name ∧ p = r.results.join name := by
  rw [configurationPath_of_none searched] at found
  cases listed : t.names r.results with
  | error e => rw [listed] at found; cases found
  | ok names =>
    rw [listed] at found
    obtain ⟨-, -, -, rfl⟩ := names_eq_ok_iff.1 listed
    rcases Configuration.firstName?_spec
      ((t.namesAt (t.placeOf r.results)).filter fun name => t.isFile (r.results.join name)) with
      ⟨missing, -⟩ | ⟨name, first, least, -⟩
    · simp only [missing] at found
      cases found
    · simp only [first] at found
      obtain ⟨listed, named⟩ := List.mem_filter.1 least
      exact ⟨rfl, name, (List.mem_filter.1 listed).1, named, (Except.ok.inj found).symm⟩

/-- The configuration that was found is found in every tree with the same files in the directory. -/
theorem configurationPath_of_files {r : Request} {p : Path} (searched : r.configuration = none)
    (found : t.configurationPath r = .ok p) (same : v.workingDirectory = t.workingDirectory)
    (walked : v.walk (v.start r.results) r.results.parts = .ok (v.placeOf r.results))
    (there : v.entry? (v.placeOf r.results) = some .directory)
    (cleanT : ∀ name ∈ t.namesAt (t.placeOf r.results), '/' ∉ name)
    (cleanV : ∀ name ∈ v.namesAt (v.placeOf r.results), '/' ∉ name)
    (files : ∀ name content, v.entry? (name :: t.placeOf r.results) = some (.file content) ↔
      t.entry? (name :: t.placeOf r.results) = some (.file content)) : v.configurationPath r = .ok p := by
  have listedT := (configurationPath_searched searched found).1
  obtain ⟨accepted, walkedT, thereT, -⟩ := names_eq_ok_iff.1 listedT
  have listedV : v.names r.results = .ok (v.namesAt (v.placeOf r.results)) :=
    names_eq_ok_iff.2 ⟨accepted, walked, there, rfl⟩
  have first : Configuration.firstName?
        ((v.namesAt (v.placeOf r.results)).filter fun name => v.isFile (r.results.join name)) =
      Configuration.firstName?
        ((t.namesAt (t.placeOf r.results)).filter fun name => t.isFile (r.results.join name)) := by
    refine Configuration.firstName?_congr fun name named => ?_
    rw [mem_listed_iff cleanV walked there named, mem_listed_iff cleanT walkedT thereT named, placeOf_congr same]
    simp only [files]
  rw [← found, configurationPath_of_none searched, configurationPath_of_none searched, listedV, listedT]
  simp only [first]

end FileTree

/-! ## The order of the names -/

/-- The store in which the names in a directory come in another order. -/
@[reducible] def FileStore.reordered (order : FileTree → Path → List Text → List Text) : FileStore (StateM FileTree) where
  readFile := FileStore.readFile
  isFile := FileStore.isFile
  names p := fun t => ((t.names p).map (order t p), t)
  createDirectories := FileStore.createDirectories
  writeFile := FileStore.writeFile

namespace Assembly

section Reordered

variable {order : FileTree → Path → List Text → List Text} {output : Path} {c : Collection}

theorem onlyFiles_reordered (directory : Path) (names : List Text) :
    @onlyFiles (StateM FileTree) _ (.reordered order) directory names = onlyFiles directory names := by
  induction names with
  | nil => rfl
  | cons name rest ih =>
    unfold onlyFiles
    rw [ih]
    rfl

theorem on_findConfiguration_reordered (perm : ∀ t p names, (order t p names).Perm names) (directory : Path) (t : FileTree) :
    Action.on (@findConfiguration (StateM FileTree) _ (.reordered order) directory) t =
      Action.on (findConfiguration directory) t := by
  have named : Action.on (onFile directory (FileStore.names directory)) t =
      ((t.names directory).mapError (Error.file directory), t) := rfl
  have reordered : Action.on (onFile directory (@FileStore.names _ (.reordered order) directory)) t =
      (((t.names directory).map (order t directory)).mapError (Error.file directory), t) := rfl
  unfold findConfiguration
  rw [Action.on_bind, Action.on_bind, named, reordered]
  cases t.names directory with
  | error e => rfl
  | ok names =>
    have first : Configuration.firstName? ((order t directory names).filter fun name => t.isFile (directory.join name)) =
        Configuration.firstName? (names.filter fun name => t.isFile (directory.join name)) :=
      Configuration.firstName?_congr fun name _ => ((perm t directory names).filter _).mem_iff
    simp only [Except.map, Action.mapError_ok]
    rw [Action.on_bind, Action.on_bind, Action.on_lift, Action.on_lift, onlyFiles_reordered, onlyFiles_eq, onlyFiles_eq]
    dsimp only
    rw [first]

theorem readConfiguration_reordered (perm : ∀ t p names, (order t p names).Perm names) (r : Request) :
    @readConfiguration (StateM FileTree) _ (.reordered order) r = readConfiguration r := by
  have path : @configurationPath (StateM FileTree) _ (.reordered order) r = configurationPath r := by
    unfold configurationPath
    cases r.configuration with
    | some p => rfl
    | none => exact funext (on_findConfiguration_reordered perm r.results)
  unfold readConfiguration
  rw [path]
  rfl

variable [Xml.Parser]

theorem writeMatches_reordered (pattern : Nat) (trees : Trees) (number : Nat) (found : List Match) :
    @writeMatches (StateM FileTree) _ (.reordered order) _ output c pattern trees number found =
      writeMatches output c pattern trees number found := by
  induction found generalizing trees number with
  | nil => rfl
  | cons x rest ih =>
    simp only [writeMatches, ih]
    rfl

theorem writePattern_reordered (trees : Trees) (pattern : Nat) :
    @writePattern (StateM FileTree) _ (.reordered order) _ output c trees pattern = writePattern output c trees pattern := by
  simp only [writePattern, writeMatches_reordered]
  rfl

theorem writeOneClass_reordered (trees : Trees) (patterns : List Pattern) :
    @writeOneClass (StateM FileTree) _ (.reordered order) _ output c trees patterns =
      writeOneClass output c trees patterns := by
  induction patterns generalizing trees with
  | nil => rfl
  | cons p rest ih => simp only [writeOneClass, writePattern_reordered, ih]

theorem writeTwoClass_reordered {old new : Collection} (oldTrees newTrees : Trees) (patterns : List Pattern) :
    @writeTwoClass (StateM FileTree) _ (.reordered order) _ output old new oldTrees newTrees patterns =
      writeTwoClass output old new oldTrees newTrees patterns := by
  induction patterns generalizing oldTrees newTrees with
  | nil => rfl
  | cons p rest ih => simp only [writeTwoClass, writePattern_reordered, ih]

theorem publish_reordered (r : Request) (inputs : Inputs) :
    @publish (StateM FileTree) _ (.reordered order) _ r inputs = publish r inputs := by
  obtain ⟨patterns, corpora⟩ := inputs
  cases corpora with
  | one only =>
    simp only [publish, writeCorpora, writeOneClass_reordered]
    rfl
  | two old new =>
    simp only [publish, writeCorpora, writeTwoClass_reordered]
    rfl

/-- The order in which a directory lists its names does not show. -/
theorem run_reordered (perm : ∀ t p names, (order t p names).Perm names) (r : Request) :
    @Request.run (StateM FileTree) _ (.reordered order) _ r = r.run := by
  have stages := @assemble_eq (StateM FileTree) _ (.reordered order) _ _ r
  unfold Request.run
  rw [stages, assemble_eq]
  unfold readInputs
  rw [readConfiguration_reordered perm, funext (publish_reordered r)]
  rfl

end Reordered

end Assembly

end PatternPages
