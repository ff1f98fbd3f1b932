import PatternPages.Proofs.Writing

/-! Making directories. Only directories are made, at places on the way of the path, where nothing was before. What is made
depends only on which places on the way have a directory, a file or nothing. -/
namespace PatternPages

def FileEntry.isDirectory : FileEntry → Bool
  | .file _ => false
  | .directory => true

theorem Path.suffix_of_mem_parentsFrom {path innermost : List Text} (h : path ∈ parentsFrom innermost) :
    path <:+ innermost := by
  induction innermost with
  | nil => exact absurd h List.not_mem_nil
  | cons part outer ih =>
    rw [parentsFrom] at h
    split at h
    · exact (ih h).trans (List.suffix_cons part outer)
    · rcases List.mem_cons.1 h with rfl | h
      · exact List.suffix_refl _
      · exact (ih h).trans (List.suffix_cons part outer)

theorem Path.suffix_of_mem_way {path innermost : List Text} (h : path ∈ innermost :: (parentsFrom innermost).tail) :
    path <:+ innermost := by
  rcases List.mem_cons.1 h with rfl | h
  · exact List.suffix_refl _
  · exact suffix_of_mem_parentsFrom (List.mem_of_mem_tail h)

namespace FileTree

/-! ## What is made -/

/-- `u` is `t` with directories at some of the places on the way, where `t` has nothing. -/
structure Made (from_ : Place) (innermost : List Text) (t u : FileTree) : Prop where
  workingDirectory : u.workingDirectory = t.workingDirectory
  get? : ∀ place, u.entries.get? place = t.entries.get? place ∨
    t.entry? place = none ∧ u.entry? place = some .directory ∧ ∃ q, q <:+ innermost ∧ place = Path.reach from_ q

namespace Made

variable {from_ : Place} {innermost : List Text} {t u v : FileTree}

theorem refl (from_ : Place) (innermost : List Text) (t : FileTree) : Made from_ innermost t t := ⟨rfl, fun _ => .inl rfl⟩

theorem entry_eq_or (h : Made from_ innermost t u) (place : Place) :
    u.entry? place = t.entry? place ∨
      t.entry? place = none ∧ u.entry? place = some .directory ∧ ∃ q, q <:+ innermost ∧ place = Path.reach from_ q :=
  (h.get? place).imp entry_congr id

theorem trans (h : Made from_ innermost t u) (h' : Made from_ innermost u v) : Made from_ innermost t v where
  workingDirectory := h'.workingDirectory.trans h.workingDirectory
  get? place := by
    rcases h.get? place with same | ⟨free, made, way⟩
    · rcases h'.get? place with same' | ⟨free, made, way⟩
      · exact .inl (same'.trans same)
      · rcases h.entry_eq_or place with before | ⟨free', -, -⟩
        · exact .inr ⟨before ▸ free, made, way⟩
        · exact .inr ⟨free', made, way⟩
    · rcases h'.entry_eq_or place with same' | ⟨free', -, -⟩
      · exact .inr ⟨free, same'.trans made, way⟩
      · exact absurd free' (by simp [made])

theorem directory (made : Made from_ innermost t u) {place : Place} (there : t.entry? place = some .directory) :
    u.entry? place = some .directory := by
  rcases made.entry_eq_or place with same | ⟨free, -, -⟩
  · rw [same, there]
  · cases there.symm.trans free

theorem file_iff (made : Made from_ innermost t u) (place : Place) (content : Text.Bytes) :
    u.entry? place = some (.file content) ↔ t.entry? place = some (.file content) := by
  rcases made.entry_eq_or place with same | ⟨free, directory, -⟩
  · rw [same]
  · simp [free, directory]

theorem walk (made : Made from_ innermost t u) {parts : List Text} {start b : Place} {e : FileEntry}
    (there : t.entry? b = some e) (walked : t.walk start parts = .ok b) : u.walk start parts = .ok b := by
  refine walk_along (fun _ _ => made.directory) ?_ walked
  rcases made.entry_eq_or b with same | ⟨free, -, -⟩
  · exact same
  · cases there.symm.trans free

theorem readFile (made : Made from_ innermost t u) {content : Text.Bytes} (read : t.readFile p = .ok content) :
    u.readFile p = .ok content := by
  obtain ⟨accepted, walked, entry⟩ := readFile_eq_ok_iff.1 read
  rw [readFile_eq_ok_iff, placeOf_congr made.workingDirectory, start_congr made.workingDirectory]
  exact ⟨accepted, made.walk entry walked, (made.file_iff _ content).2 entry⟩

end Made

def newDirectory (t : FileTree) (from_ : Place) (innermost : List Text) : Except FileError Place :=
  match innermost.dropWhile (· = []) with
  | [] => .error .alreadyExists
  | part :: outer =>
    match t.directoryAt from_ outer with
    | .error e => .error e
    | .ok above =>
      if part = Path.here || part = Path.up then .error .alreadyExists
      else if Path.isLongName part then .error .nameTooLong
      else if (t.entry? (part :: above)).isSome then .error .alreadyExists
      else .ok (part :: above)

theorem makeDirectory_eq (t : FileTree) (from_ : Place) (innermost : List Text) :
    t.makeDirectory from_ innermost = (t.newDirectory from_ innermost).map fun place => t.put place .directory := by
  unfold makeDirectory newDirectory
  cases innermost.dropWhile (· = []) with
  | nil => rfl
  | cons part outer =>
    dsimp only
    cases t.directoryAt from_ outer with
    | error e => rfl
    | ok above =>
      simp only [apply_ite (Except.map fun place => t.put place .directory)]
      rfl

theorem reach_of_directoryAt {t : FileTree} {from_ above : Place} {innermost outer : List Text} {part : Text}
    (parts : innermost.dropWhile (· = []) = part :: outer) (found : t.directoryAt from_ outer = .ok above)
    (named : ¬ (part = Path.here || part = Path.up) = true) :
    part :: outer <:+ innermost ∧ part :: above = Path.reach from_ (part :: outer) := by
  -- slashes at the end of the path are empty parts, and left out; what is left ends in a name
  refine ⟨parts ▸ List.dropWhile_suffix _, ?_⟩
  have notEmpty : part ≠ [] := by
    have stops := List.head_dropWhile_not (· = []) (l := innermost) (by simp [parts])
    simpa [parts] using stops
  have reached : above = Path.reach from_ outer := by
    rw [walk_eq_foldl (directoryAt_eq_ok_iff.1 found).1, List.foldl_reverse]
    rfl
  have step : Path.reach from_ (part :: outer) = Path.step (Path.reach from_ outer) part := rfl
  rw [step, ← reached, Path.step]
  simp_all [Path.isIdle]

theorem newDirectory_eq_ok {t : FileTree} {from_ place : Place} {innermost : List Text}
    (new : t.newDirectory from_ innermost = .ok place) :
    t.entry? place = none ∧ place ≠ [] ∧ ∃ q, q <:+ innermost ∧ place = Path.reach from_ q := by
  unfold newDirectory at new
  split at new
  · cases new
  · rename_i part outer parts
    split at new
    · cases new
    · rename_i above found
      split at new
      · cases new
      · rename_i named
        split at new
        · cases new
        · split at new
          · cases new
          · rename_i free
            cases new
            obtain ⟨suffix, reached⟩ := reach_of_directoryAt parts found named
            exact ⟨by simpa using free, List.cons_ne_nil _ _, part :: outer, suffix, reached⟩

theorem made_put {t : FileTree} {from_ place : Place} {innermost l : List Text}
    (new : t.newDirectory from_ l = .ok place) (suffix : l <:+ innermost) :
    Made from_ innermost t (t.put place .directory) := by
  obtain ⟨free, named, q, sub, reached⟩ := newDirectory_eq_ok new
  refine ⟨rfl, fun other => ?_⟩
  by_cases here : other = place
  · subst here
    refine .inr ⟨free, ?_, q, sub.trans suffix, reached⟩
    rw [entry_put t _ named, if_pos rfl]
  · exact .inl (by rw [get?_put, if_neg here])

theorem made_makeFirst {t : FileTree} {from_ : Place} {innermost : List Text} {paths : List (List Text)}
    (way : ∀ path ∈ paths, path <:+ innermost) : Made from_ innermost t (t.makeFirst from_ paths).1 := by
  induction paths generalizing t with
  | nil => exact Made.refl from_ innermost t
  | cons path parents ih =>
    have sub := way path List.mem_cons_self
    have parentsMade := ih (t := t) fun q hq => way q (List.mem_cons_of_mem path hq)
    simp only [makeFirst, makeDirectory_eq]
    cases new : t.newDirectory from_ path with
    | ok place => exact made_put new sub
    | error e =>
      cases e with
      | notFound =>
        cases before : t.makeFirst from_ parents with
        | mk u result =>
          rw [before] at parentsMade
          cases result with
          | error e => simpa [Except.map, before] using parentsMade
          | ok =>
            cases new' : u.newDirectory from_ path with
            | ok place => simpa [Except.map, before, new'] using parentsMade.trans (made_put new' sub)
            | error e => simpa [Except.map, before, new'] using parentsMade
      | _ => exact Made.refl from_ innermost t

theorem made_createDirectories (t : FileTree) (p : Path) :
    Made (t.start p) p.parts.reverse t (t.createDirectories p).1 := by
  unfold createDirectories
  split
  · exact Made.refl _ _ t
  · split
    · exact Made.refl _ _ t
    · exact made_makeFirst fun path => Path.suffix_of_mem_way

/-! ## What the making depends on -/

def SameKind (t u : FileTree) (place : Place) : Prop :=
  (t.entry? place).map FileEntry.isDirectory = (u.entry? place).map FileEntry.isDirectory

theorem walk_cons (t : FileTree) (place : Place) (part : Text) (rest : List Text) :
    t.walk place (part :: rest) =
      match (t.entry? place).map FileEntry.isDirectory with
      | some true =>
        if Path.isIdle part then t.walk place rest
        else if part = Path.up then t.walk place.tail rest
        else if Path.isLongName part then .error .nameTooLong
        else if ((t.entry? (part :: place)).map FileEntry.isDirectory).isSome then t.walk (part :: place) rest
        else .error .notFound
      | some false => .error .notDirectory
      | none => .error .notFound := by
  rw [walk]
  cases t.entry? place with
  | none => rfl
  | some e =>
    cases e with
    | file content => rfl
    | directory => simp [FileEntry.isDirectory]

theorem walk_congr {t u : FileTree} {place : Place} {parts : List Text}
    (kinds : ∀ q, q <+: parts → SameKind t u (q.foldl Path.step place)) : t.walk place parts = u.walk place parts := by
  induction parts generalizing place with
  | nil => rfl
  | cons part rest ih =>
    have here : SameKind t u place := kinds [] List.nil_prefix
    have next : SameKind t u (Path.step place part) := kinds [part] (by simp)
    have more : t.walk (Path.step place part) rest = u.walk (Path.step place part) rest :=
      ih fun q hq => kinds (part :: q) (List.cons_prefix_cons.2 ⟨rfl, hq⟩)
    rw [walk_cons, walk_cons, here]
    by_cases idle : Path.isIdle part
    · simp only [Path.step, if_pos idle] at more ⊢
      rw [more]
    · by_cases up : part = Path.up
      · simp only [Path.step, if_neg idle, if_pos up] at more ⊢
        rw [more]
      · simp only [Path.step, if_neg idle, if_neg up] at next more ⊢
        rw [more, next]

theorem directoryAt_congr {t u : FileTree} {from_ : Place} {outer : List Text}
    (kinds : ∀ q, q <:+ outer → SameKind t u (Path.reach from_ q)) :
    t.directoryAt from_ outer = u.directoryAt from_ outer := by
  have walked : t.walk from_ outer.reverse = u.walk from_ outer.reverse := walk_congr fun q hq => by
    have suffix : q.reverse <:+ outer := by
      rw [← List.reverse_reverse outer]
      exact List.reverse_suffix.2 hq
    have kind := kinds q.reverse suffix
    rwa [Path.reach, ← List.foldl_reverse, List.reverse_reverse] at kind
  have last : SameKind t u (Path.reach from_ outer) := kinds outer (List.suffix_refl outer)
  unfold directoryAt
  rw [walked]
  cases found : u.walk from_ outer.reverse with
  | error e => rfl
  | ok place =>
    have reached : place = Path.reach from_ outer := by
      rw [walk_eq_foldl found, List.foldl_reverse]
      rfl
    rw [← reached, SameKind] at last
    cases entryT : t.entry? place with
    | none =>
      cases entryU : u.entry? place with
      | none => simp [entryT, entryU]
      | some e => simp [entryT, entryU] at last
    | some d =>
      cases entryU : u.entry? place with
      | none => simp [entryT, entryU] at last
      | some e => cases d <;> cases e <;> simp_all [FileEntry.isDirectory]

theorem newDirectory_congr {t u : FileTree} {from_ : Place} {innermost : List Text}
    (kinds : ∀ q, q <:+ innermost → SameKind t u (Path.reach from_ q)) :
    t.newDirectory from_ innermost = u.newDirectory from_ innermost := by
  unfold newDirectory
  cases parts : innermost.dropWhile (· = []) with
  | nil => rfl
  | cons part outer =>
    have suffix : part :: outer <:+ innermost := parts ▸ List.dropWhile_suffix _
    have outerKinds : ∀ q, q <:+ outer → SameKind t u (Path.reach from_ q) := fun q hq =>
      kinds q ((hq.trans (List.suffix_cons part outer)).trans suffix)
    dsimp only
    rw [directoryAt_congr outerKinds]
    cases found : u.directoryAt from_ outer with
    | error e => rfl
    | ok above =>
      dsimp only
      by_cases named : (part = Path.here || part = Path.up) = true
      · rw [if_pos named, if_pos named]
      · obtain ⟨suffix, reached⟩ := reach_of_directoryAt parts found named
        have kind : SameKind t u (part :: above) := reached ▸ kinds _ suffix
        have there := congrArg Option.isSome kind
        rw [Option.isSome_map, Option.isSome_map] at there
        rw [there]

structure Alike (K : Place → Prop) (from_ : Place) (innermost : List Text) (t u : FileTree) : Prop where
  same : SameOutside K t u
  kinds : ∀ q, q <:+ innermost → SameKind t u (Path.reach from_ q)

namespace Alike

variable {K : Place → Prop} {from_ : Place} {innermost : List Text} {t u : FileTree}

theorem put_directory (h : Alike K from_ innermost t u) {place : Place} (named : place ≠ []) :
    Alike K from_ innermost (t.put place .directory) (u.put place .directory) where
  same := by
    refine ⟨h.same.workingDirectory, fun q => ?_⟩
    by_cases here : q = place
    · exact .inl (by rw [get?_put, get?_put, if_pos here, if_pos here])
    · rw [get?_put, get?_put, entry_put _ _ named, entry_put _ _ named, if_neg here, if_neg here, if_neg here,
        if_neg here]
      exact h.same.get? q
  kinds q hq := by
    rw [SameKind, entry_put _ _ named, entry_put _ _ named]
    split
    · rfl
    · exact h.kinds q hq

theorem newDirectory_eq (h : Alike K from_ innermost t u) {path : List Text} (sub : path <:+ innermost) :
    t.newDirectory from_ path = u.newDirectory from_ path :=
  newDirectory_congr fun q hq => h.kinds q (hq.trans sub)

theorem isDirectoryAt_eq (h : Alike K from_ innermost t u) {path : List Text} (sub : path <:+ innermost) :
    t.isDirectoryAt from_ path = u.isDirectoryAt from_ path := by
  rw [isDirectoryAt, isDirectoryAt, directoryAt_congr fun q hq => h.kinds q (hq.trans sub)]

theorem makeFirst (h : Alike K from_ innermost t u) {paths : List (List Text)}
    (way : ∀ path ∈ paths, path <:+ innermost) :
    (t.makeFirst from_ paths).2 = (u.makeFirst from_ paths).2 ∧
      Alike K from_ innermost (t.makeFirst from_ paths).1 (u.makeFirst from_ paths).1 := by
  induction paths generalizing t u with
  | nil => exact ⟨rfl, h⟩
  | cons path parents ih =>
    have sub := way path List.mem_cons_self
    obtain ⟨sameResult, alike⟩ := ih h fun q hq => way q (List.mem_cons_of_mem path hq)
    simp only [FileTree.makeFirst, makeDirectory_eq, ← h.newDirectory_eq sub, ← h.isDirectoryAt_eq sub]
    cases new : t.newDirectory from_ path with
    | ok place => exact ⟨rfl, h.put_directory (newDirectory_eq_ok new).2.1⟩
    | error e =>
      cases e with
      | notFound =>
        -- the parents are made first, alike in both trees, and then the directory is tried again
        cases beforeT : t.makeFirst from_ parents with
        | mk t' result =>
          cases beforeU : u.makeFirst from_ parents with
          | mk u' result' =>
            rw [beforeT, beforeU] at sameResult alike
            obtain rfl : result = result' := sameResult
            cases result with
            | error e => exact ⟨rfl, alike⟩
            | ok =>
              simp only [Except.map, ← alike.newDirectory_eq sub, ← alike.isDirectoryAt_eq sub]
              cases new' : t'.newDirectory from_ path with
              | ok place => exact ⟨rfl, alike.put_directory (newDirectory_eq_ok new').2.1⟩
              | error e => exact ⟨rfl, alike⟩
      | _ => exact ⟨rfl, h⟩

end Alike

/-- Trees that differ only in files off the way get the same directories. -/
theorem createDirectories_congr {K : Place → Prop} {t u : FileTree} (same : SameOutside K t u) {p : Path}
    (kinds : ∀ place, t.OnWay p place → SameKind t u place) :
    (t.createDirectories p).2 = (u.createDirectories p).2 ∧
      SameOutside K (t.createDirectories p).1 (u.createDirectories p).1 := by
  have alike : Alike K (t.start p) p.parts.reverse t u := ⟨same, fun q hq => kinds _ ⟨q, hq, rfl⟩⟩
  unfold createDirectories
  by_cases empty : p.text = []
  · rw [if_pos empty, if_pos empty]
    exact ⟨rfl, same⟩
  · rw [if_neg empty, if_neg empty, same.start_eq]
    cases p.refusal? with
    | some e => exact ⟨rfl, same⟩
    | none =>
      have way : ∀ path ∈ p.parts.reverse :: (Path.parentsFrom p.parts.reverse).tail, path <:+ p.parts.reverse :=
        fun path => Path.suffix_of_mem_way
      obtain ⟨result, made⟩ := alike.makeFirst way
      exact ⟨result, made.same⟩

/-! ## Directories that are there -/

section There

variable {t u : FileTree} {p : Path}

theorem directoryAt_reverse {from_ place : Place} {parts : List Text} (walked : t.walk from_ parts = .ok place)
    (there : t.entry? place = some .directory) : t.directoryAt from_ parts.reverse = .ok place :=
  directoryAt_eq_ok_iff.2 ⟨by rwa [List.reverse_reverse], there⟩

theorem newDirectory_of_directory {from_ place : Place} {innermost : List Text}
    (walked : t.walk from_ innermost.reverse = .ok place) :
    t.newDirectory from_ innermost = .error .alreadyExists := by
  unfold newDirectory
  cases parts : innermost.dropWhile (· = []) with
  | nil => rfl
  | cons part outer =>
    obtain ⟨closing, split⟩ : part :: outer <:+ innermost := parts ▸ List.dropWhile_suffix _
    rw [← split, List.reverse_append, List.reverse_cons, List.append_assoc, walk_append_eq_ok] at walked
    obtain ⟨above, front, more⟩ := walked
    obtain ⟨there, admits, -⟩ := walk_cons_eq_ok.1 more
    have found : t.directoryAt from_ outer = .ok above := directoryAt_eq_ok_iff.2 ⟨front, there⟩
    have notEmpty : part ≠ [] := by
      have stops := List.head_dropWhile_not (· = []) (l := innermost) (by simp [parts])
      simpa [parts] using stops
    dsimp only
    rw [found]
    dsimp only
    by_cases named : (part = Path.here || part = Path.up) = true
    · rw [if_pos named]
    · simp only [Bool.or_eq_true, decide_eq_true_eq, not_or] at named
      rcases admits with idle | up | ⟨short, present⟩
      · simp [Path.isIdle, notEmpty, named.1] at idle
      · exact absurd up named.2
      · simp [named, short, present]

/-- Nothing is made where the path leads to a directory already. -/
theorem createDirectories_of_directory (accepted : p.text = [] ∨ p.refusal? = none)
    (walked : t.walk (t.start p) p.parts = .ok (t.placeOf p)) (there : t.entry? (t.placeOf p) = some .directory) :
    t.createDirectories p = (t, .ok ()) := by
  unfold createDirectories
  by_cases empty : p.text = []
  · rw [if_pos empty]
  · have known : t.newDirectory (t.start p) p.parts.reverse = .error .alreadyExists :=
      newDirectory_of_directory (by rwa [List.reverse_reverse])
    rw [if_neg empty, accepted.resolve_left empty]
    simp only [makeFirst, makeDirectory_eq, known, Except.map, isDirectoryAt, directoryAt_reverse walked there, if_true]

theorem accepted_of_createDirectories (output : t.createDirectories p = (u, .ok ())) :
    p.text = [] ∨ p.refusal? = none := by
  unfold createDirectories at output
  by_cases empty : p.text = []
  · exact .inl empty
  · rw [if_neg empty] at output
    cases refused : p.refusal? with
    | none => exact .inr rfl
    | some e =>
      rw [refused] at output
      cases output

end There

end FileTree

end PatternPages
