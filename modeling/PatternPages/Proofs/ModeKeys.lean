import Mathlib.Data.List.Find
import PatternPages.Configuration
import PatternPages.Proofs.Entries

/-! A configuration is decided by the keys of its mode. They are asked for in a fixed order, the first that names nothing is
reported, and no other key of the document counts. -/
namespace PatternPages

theorem not_separator_of_mem_lastName {s : Text} {c : Char} (mem : c ∈ lastName s) : c ≠ '/' ∧ c ≠ '\\' := by
  have kept := List.all_eq_true.mp List.all_takeWhile c (List.mem_reverse.mp mem)
  simpa using kept

namespace Configuration

/-! ## Keys -/

/-- All keys that are needed, in the order in which they are asked for. -/
def neededKeys (twoClass : Bool) : List Text := modeKeys twoClass ++ ["outputPath".toList]

def classSetting (entries : Properties.Entries) : Text := (Text.trim (value entries "2Class".toList)).map Char.toLower

/-- The mode that the setting selects. -/
def class? (setting : Text) : Option Bool :=
  if setting = "true".toList then some true
  else if setting ∈ ["false".toList, []] then some false
  else none

/-- What a key names. -/
def nameOf (entries : Properties.Entries) (key : Text) : Text := lastName (value entries key)

/-- The names in the order in which their keys are asked for. -/
def names : Configuration → List Text
  | ⟨patterns, .oneClass found⟩ => [found, patterns]
  | ⟨patterns, .twoClass oldMatches newMatches oldInputs newInputs⟩ =>
    [oldMatches, newMatches, oldInputs, newInputs, patterns]

theorem names_injective {c d : Configuration} (same : c.names = d.names) : c = d := by
  obtain ⟨patterns, mode⟩ := c
  obtain ⟨patterns', mode'⟩ := d
  cases mode <;> cases mode' <;> cases same <;> rfl

/-! ## The first key that names nothing -/

variable {entries : Properties.Entries}

theorem isTwoClass_eq (entries : Properties.Entries) :
    isTwoClass entries =
      match class? (classSetting entries) with
      | some twoClass => .ok twoClass
      | none => .error (.unknownClass (classSetting entries)) := by
  unfold isTwoClass class? classSetting
  generalize (Text.trim (value entries "2Class".toList)).map Char.toLower = setting
  generalize "true".toList = yes, "false".toList = no
  by_cases two : setting = yes
  · simp [two]
  · by_cases one : setting = no ∨ setting = []
    · simp [two, one]
    · simp [two, one]

theorem required_eq (entries : Properties.Entries) (key : Text) :
    required entries key = if nameOf entries key = [] then .error (.missing key) else .ok (nameOf entries key) := by
  unfold required nameOf
  split
  · rename_i empty
    rw [if_pos empty]
  · rename_i named
    rw [if_neg named]

theorem mapM_required (keys : List Text) :
    keys.mapM (required entries) =
      match keys.find? fun key => nameOf entries key = [] with
      | some key => .error (.missing key)
      | none => .ok (keys.map (nameOf entries)) := by
  induction keys with
  | nil => rfl
  | cons key rest ih =>
    rw [List.mapM_cons, required_eq, ih]
    by_cases empty : nameOf entries key = []
    · simp [empty, bind, Except.bind]
    · simp only [empty, if_false, List.find?_cons, decide_false]
      cases rest.find? fun key => nameOf entries key = [] <;> rfl

/-- The keys are asked for one after the other, whatever the mode makes of their names. -/
theorem map_names_ofEntries (entries : Properties.Entries) :
    names <$> ofEntries entries =
      isTwoClass entries >>= fun twoClass => (neededKeys twoClass).mapM (required entries) := by
  simp only [ofEntries, readMode, bind_assoc, map_bind]
  congr 1
  funext twoClass
  cases twoClass <;> simp [neededKeys, modeKeys, names]

/-- In a mode, the first key without a name decides, and without such a key there are all names. -/
theorem map_names_of_class {twoClass : Bool} (mode : class? (classSetting entries) = some twoClass) :
    names <$> ofEntries entries =
      match (neededKeys twoClass).find? fun key => nameOf entries key = [] with
      | some key => .error (.missing key)
      | none => .ok ((neededKeys twoClass).map (nameOf entries)) := by
  rw [map_names_ofEntries, isTwoClass_eq, mode]
  exact mapM_required (neededKeys twoClass)

theorem names_eq_of_ok {twoClass : Bool} (mode : class? (classSetting entries) = some twoClass) {c : Configuration}
    (ok : ofEntries entries = .ok c) :
    c.names = (neededKeys twoClass).map (nameOf entries) ∧ ∀ key ∈ neededKeys twoClass, nameOf entries key ≠ [] := by
  have read := map_names_of_class mode
  rw [ok] at read
  split at read
  · cases read
  · rename_i none
    exact ⟨Except.ok.inj read, by simpa using List.find?_eq_none.mp none⟩

theorem first_of_error {twoClass : Bool} (mode : class? (classSetting entries) = some twoClass)
    {problem : ConfigurationProblem} (error : ofEntries entries = .error problem) :
    ∃ key, (neededKeys twoClass).find? (fun key => nameOf entries key = []) = some key ∧ problem = .missing key := by
  have read := map_names_of_class mode
  rw [error] at read
  split at read
  · rename_i key found
    exact ⟨key, found, Except.error.inj read⟩
  · cases read

theorem ofEntries_eq_ok_iff_of_names {twoClass : Bool} (mode : class? (classSetting entries) = some twoClass) :
    (∃ c, ofEntries entries = .ok c) ↔ ∀ key ∈ neededKeys twoClass, nameOf entries key ≠ [] := by
  constructor
  · rintro ⟨c, ok⟩
    exact (names_eq_of_ok mode ok).2
  · intro named
    cases read : ofEntries entries with
    | ok c => exact ⟨c, rfl⟩
    | error problem =>
      obtain ⟨key, found, -⟩ := first_of_error mode read
      have empty := List.find?_some found
      exact absurd (of_decide_eq_true empty) (named key (List.mem_of_find?_eq_some found))

theorem ofEntries_of_no_class (none : class? (classSetting entries) = none) :
    ofEntries entries = .error (.unknownClass (classSetting entries)) := by
  unfold ofEntries readMode
  rw [isTwoClass_eq, none]
  rfl

/-! ## Keys that do not count -/

/-- The entries have the same values for the setting, for the patterns and for the keys of the mode. -/
def SameKeys (a b : Properties.Entries) : Prop :=
  value a "2Class".toList = value b "2Class".toList ∧
    ∀ twoClass, class? (classSetting a) = some twoClass → ∀ key ∈ neededKeys twoClass, value a key = value b key

theorem eq_of_map_names {x y : Except ConfigurationProblem Configuration} (same : names <$> x = names <$> y) : x = y := by
  cases x with
  | error _ =>
    cases y with
    | error _ => exact congrArg Except.error (Except.error.inj same)
    | ok _ => cases same
  | ok _ =>
    cases y with
    | error _ => cases same
    | ok _ => exact congrArg Except.ok (names_injective (Except.ok.inj same))

theorem ofEntries_congr {a b : Properties.Entries} (same : SameKeys a b) : ofEntries a = ofEntries b := by
  have setting : classSetting a = classSetting b := by
    unfold classSetting
    rw [same.1]
  cases mode : class? (classSetting a) with
  | none =>
    rw [ofEntries_of_no_class mode, ofEntries_of_no_class (setting ▸ mode), setting]
  | some twoClass =>
    have name : ∀ key ∈ neededKeys twoClass, nameOf a key = nameOf b key := by
      intro key mem
      exact congrArg lastName (same.2 twoClass mode key mem)
    have first : ((neededKeys twoClass).find? fun key => nameOf a key = []) =
        (neededKeys twoClass).find? fun key => nameOf b key = [] :=
      List.find?_congr fun key mem => by rw [name key mem]
    apply eq_of_map_names
    rw [map_names_of_class mode, map_names_of_class (setting ▸ mode), first, List.map_congr_left name]

/-! ## The record of the known keys -/

theorem mem_recordKeys {twoClass : Bool} {key : Text} (mem : key ∈ neededKeys twoClass) : key ∈ recordKeys := by
  have all : ∀ twoClass, ∀ key ∈ neededKeys twoClass, key ∈ recordKeys := by decide
  exact all twoClass key mem

/-- The keys of a map come once, so each of them is new to the record. -/
theorem readRecord_eq_ok {rest : List (Text × Text)} (ascending : rest.Pairwise (·.1 < ·.1)) (record : Properties.Entries)
    (new : ∀ entry ∈ rest, record.get? entry.1 = none) :
    ∃ all, readRecord record rest = .ok all ∧
      ∀ key ∈ recordKeys, ∀ v, all.get? key = some v ↔ record.get? key = some v ∨ (key, v) ∈ rest := by
  induction rest generalizing record with
  | nil => exact ⟨record, rfl, fun key _ v => by simp⟩
  | cons entry rest ih =>
    obtain ⟨k, w⟩ := entry
    obtain ⟨first, ascending⟩ := List.pairwise_cons.mp ascending
    have absent : record.get? k = none := new (k, w) List.mem_cons_self
    have later (entry : Text × Text) (mem : entry ∈ rest) : record.get? entry.1 = none :=
      new entry (List.mem_cons_of_mem _ mem)
    by_cases known : k ∈ recordKeys
    · have insert (key : Text) := OrderedMap.get?_insert record k key w
      have fresh : ∀ entry ∈ rest, (record.insert k w).get? entry.1 = none := by
        intro entry mem
        have other : entry.1 ≠ k := fun same => LinearKey.irrefl k (same ▸ first entry mem)
        rw [insert, if_neg other]
        exact later entry mem
      obtain ⟨all, read, found⟩ := ih ascending (record.insert k w) fresh
      refine ⟨all, ?_, ?_⟩
      · simpa [readRecord, known, OrderedMap.contains, absent] using read
      · intro key mem v
        rw [found key mem, insert, List.mem_cons, Prod.mk.injEq]
        by_cases here : key = k
        · simp [here, absent, eq_comm]
        · simp [here]
    · obtain ⟨all, read, found⟩ := ih ascending record later
      refine ⟨all, ?_, ?_⟩
      · simpa [readRecord, known] using read
      · intro key mem v
        have other : key ≠ k := fun same => known (same ▸ mem)
        simp [found key mem, other]

/-- Reading the entries of a document into the record does not fail, and the record says the same. -/
theorem exists_record (entries : Properties.Entries) :
    ∃ record, readRecord OrderedMap.empty entries.toList = .ok record ∧ ofEntries record = ofEntries entries := by
  obtain ⟨record, read, found⟩ := readRecord_eq_ok entries.ascending OrderedMap.empty fun _ _ => rfl
  have same : ∀ key ∈ recordKeys, value record key = value entries key := by
    intro key mem
    have get : record.get? key = entries.get? key := by
      apply Option.ext
      intro v
      rw [found key mem, OrderedMap.get?_empty, OrderedMap.get?_eq_some_iff]
      simp
    exact congrArg (·.getD []) get
  refine ⟨record, read, ofEntries_congr ⟨same _ List.mem_cons_self, ?_⟩⟩
  intro twoClass _ key mem
  exact same key (mem_recordKeys mem)

theorem parse_eq (source : Text) : parse source = ofEntries (Properties.parse source) := by
  obtain ⟨record, read, same⟩ := exists_record (Properties.parse source)
  rw [← same, parse, read]

/-- The entries of a document always fit the record of the known keys. A setting that is no truth value is an error. Any
other one selects a mode: the configuration is there just if every key of the mode and the one of the patterns name
something, it then consists of these names, and otherwise the first key without a name is reported. Documents that agree in
the setting and in these keys have the same result. -/
theorem parse_reads_mode_keys (source : Text) :
    let entries := Properties.parse source
    (∃ record, readRecord OrderedMap.empty entries.toList = .ok record ∧ ofEntries record = parse source) ∧
      (class? (classSetting entries) = none → parse source = .error (.unknownClass (classSetting entries))) ∧
      (∀ twoClass, class? (classSetting entries) = some twoClass →
        ((∃ c, parse source = .ok c) ↔ ∀ key ∈ neededKeys twoClass, lastName (value entries key) ≠ []) ∧
        (∀ c, parse source = .ok c →
          c.names = (neededKeys twoClass).map (fun key => lastName (value entries key)) ∧
            ∀ name ∈ c.names, name ≠ [] ∧ '/' ∉ name ∧ '\\' ∉ name) ∧
        ∀ problem, parse source = .error problem →
          ∃ key, (neededKeys twoClass).find? (fun key => lastName (value entries key) = []) = some key ∧
            problem.message = "missing `".toList ++ key ++ ['`']) ∧
      ∀ other, SameKeys entries (Properties.parse other) → parse other = parse source := by
  intro entries
  simp only [parse_eq]
  refine ⟨exists_record entries, ofEntries_of_no_class, ?_, fun other same => (ofEntries_congr same).symm⟩
  intro twoClass mode
  refine ⟨ofEntries_eq_ok_iff_of_names mode, ?_, ?_⟩
  · intro c ok
    obtain ⟨names, named⟩ := names_eq_of_ok mode ok
    refine ⟨names, ?_⟩
    intro name mem
    obtain ⟨key, key_mem, rfl⟩ := List.mem_map.mp (names ▸ mem)
    refine ⟨named key key_mem, ?_, ?_⟩
    · intro slash
      exact (not_separator_of_mem_lastName slash).1 rfl
    · intro backslash
      exact (not_separator_of_mem_lastName backslash).2 rfl
  · intro problem error
    obtain ⟨key, found, rfl⟩ := first_of_error mode error
    exact ⟨key, found, rfl⟩

def document (lines : List String) : Text := lines.flatMap fun line => line.toList ++ ['\n']

/-- Two classes, with separators that are seen only when the escapes are resolved. -/
def escapedSource : Text :=
  document ["# r", "2Class:TRUE", "outputPath=C:\\\\p", "inputFiles1=a\\u002Fb", "inputFiles2=a\\u005Cc", "outputMatches=",
    "outputMatches1=x", "outputMatches1=m\\\\1", "outputMatches2=m/2"]

/-- The same paths with a comment less and with other entries besides. -/
def plainSource : Text :=
  document ["x=1", "2Class=TRUE", "outputPath=C:\\\\p", "inputFiles1=a/b", "inputFiles2=a\\\\c", "outputMatches1=m\\\\1",
    "outputMatches2=m/2", "outputMatches=y"]

/-- One class, where the matches have no name. -/
def namelessSource : Text := document ["outputMatches=\\u002F", "outputPath=p"]

theorem parse_reads_mode_keys_escaped :
    (∃ c, parse escapedSource = .ok c ∧ c.names = ["1", "2", "b", "c", "p"].map String.toList) ∧
      parse plainSource = parse escapedSource ∧
      ∃ problem, parse namelessSource = .error problem ∧ problem.message = "missing `outputMatches`".toList := by
  have two : class? (classSetting (Properties.parse escapedSource)) = some true := by decide +kernel
  have one : class? (classSetting (Properties.parse namelessSource)) = some false := by decide +kernel
  obtain ⟨-, -, read, others⟩ := parse_reads_mode_keys escapedSource
  obtain ⟨-, -, readNameless, -⟩ := parse_reads_mode_keys namelessSource
  refine ⟨?_, ?_, ?_⟩
  · obtain ⟨c, ok⟩ := (read true two).1.mpr (by decide +kernel)
    refine ⟨c, ok, ((read true two).2.1 c ok).1.trans ?_⟩
    decide +kernel
  · apply others
    refine ⟨by decide +kernel, ?_⟩
    intro twoClass mode
    cases two.symm.trans mode
    decide +kernel
  · cases parsed : parse namelessSource with
    | ok c =>
      have named := (readNameless false one).1.mp ⟨c, parsed⟩
      exact absurd named (by decide +kernel)
    | error problem =>
      obtain ⟨key, found, message⟩ := (readNameless false one).2.2 problem parsed
      have first : (neededKeys false).find? (fun key => lastName (value (Properties.parse namelessSource) key) = []) =
          some "outputMatches".toList := by decide +kernel
      cases Option.some.inj (first.symm.trans found)
      exact ⟨problem, rfl, message⟩

end Configuration

end PatternPages
