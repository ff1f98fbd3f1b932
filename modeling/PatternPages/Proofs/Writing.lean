import PatternPages.Proofs.Places

/-! What a write does. A write that succeeds puts a file at the place of its path and changes nothing else; one that fails
changes nothing. Whether it succeeds does not depend on what files there are. -/
namespace PatternPages

open Text (Bytes)

namespace FileTree

theorem entry_put (t : FileTree) {place : Place} (e : FileEntry) (named : place ≠ []) (q : Place) :
    FileTree.entry? (t.put place e) q = if q = place then some e else t.entry? q := by
  cases q with
  | nil => rw [if_neg (Ne.symm named)]; rfl
  | cons name above => exact OrderedMap.get?_insert t.entries place (name :: above) e

theorem get?_put (t : FileTree) (place q : Place) (e : FileEntry) :
    (t.put place e).entries.get? q = if q = place then some e else t.entries.get? q :=
  OrderedMap.get?_insert t.entries place q e

theorem ext {t u : FileTree} (workingDirectory : u.workingDirectory = t.workingDirectory)
    (get? : ∀ place, u.entries.get? place = t.entries.get? place) : u = t := by
  cases t
  cases u
  obtain rfl := workingDirectory
  obtain rfl := OrderedMap.ext get?
  rfl

theorem put_self {t : FileTree} {place : Place} {e : FileEntry} (there : t.entries.get? place = some e) :
    t.put place e = t := by
  refine FileTree.ext rfl fun q => ?_
  rw [get?_put]
  by_cases here : q = place
  · rw [if_pos here, here, there]
  · rw [if_neg here]

/-- A file can be put at the end of the path, with the name `name` in the directory `above`. -/
structure AcceptsAt (t : FileTree) (p : Path) (name : Text) (above : Place) : Prop where
  accepted : p.refusal? = none
  parts : p.parts = p.parts.dropLast ++ [name]
  walked : t.walk (t.start p) p.parts.dropLast = .ok above
  directory : t.entry? above = some .directory
  named : ¬ Path.isIdle name ∧ name ≠ Path.up
  short : ¬ Path.isLongName name
  free : t.entry? (name :: above) ≠ some .directory

def Accepts (t : FileTree) (p : Path) : Prop := ∃ name above, t.AcceptsAt p name above

theorem AcceptsAt.placeOf_eq {t : FileTree} {p : Path} {name : Text} {above : Place} (h : t.AcceptsAt p name above) :
    t.placeOf p = name :: above := by
  rw [placeOf, h.parts, List.foldl_append, ← walk_eq_foldl h.walked, List.foldl_cons, List.foldl_nil, Path.step,
    if_neg h.named.1, if_neg h.named.2]

theorem directoryAt_eq_ok_iff {t : FileTree} {from_ above : Place} {outer : List Text} :
    t.directoryAt from_ outer = .ok above ↔
      t.walk from_ outer.reverse = .ok above ∧ t.entry? above = some .directory := by
  unfold directoryAt
  cases walked : t.walk from_ outer.reverse with
  | error e => simp
  | ok place =>
    by_cases same : place = above
    · subst same
      cases entry : t.entry? place with
      | none => simp [entry]
      | some e => cases e <;> simp [entry]
    · cases entry : t.entry? place with
      | none => simp [entry, same]
      | some e => cases e <;> simp [entry, same]

theorem writeFile_of_accepts {t : FileTree} {p : Path} (h : t.Accepts p) (content : Bytes) :
    t.writeFile p content = (t.put (t.placeOf p) (.file content), .ok ()) := by
  obtain ⟨name, above, h⟩ := h
  have parts : p.parts.reverse = name :: p.parts.dropLast.reverse := by
    rw [h.parts, List.reverse_append, List.dropLast_concat]
    rfl
  have found : t.directoryAt (t.start p) p.parts.dropLast.reverse = .ok above :=
    directoryAt_eq_ok_iff.2 ⟨by rw [List.reverse_reverse, h.walked], h.directory⟩
  simp [writeFile, h.accepted, parts, found, h.named, h.short, h.free, h.placeOf_eq]

theorem writeFile_of_not_accepts {t : FileTree} {p : Path} (h : ¬ t.Accepts p) (content : Bytes) :
    ∃ e, t.writeFile p content = (t, .error e) := by
  unfold writeFile
  split
  case h_1 => exact ⟨_, rfl⟩
  case h_2 => exact ⟨_, rfl⟩
  case h_3 name outer accepted parts =>
    split
    case h_1 => exact ⟨_, rfl⟩
    case h_2 above found =>
      split
      case isTrue => exact ⟨_, rfl⟩
      case isFalse named =>
        split
        case isTrue => exact ⟨_, rfl⟩
        case isFalse short =>
          split
          case isTrue => exact ⟨_, rfl⟩
          case isFalse free =>
            obtain ⟨walked, directory⟩ := directoryAt_eq_ok_iff.1 found
            have outerParts : p.parts.dropLast = outer.reverse := by
              rw [← List.reverse_reverse p.parts, parts, List.reverse_cons, List.dropLast_concat]
            refine absurd ⟨name, above, accepted, ?_, by rwa [outerParts], directory, ?_, short, free⟩ h
            · rw [outerParts, ← List.reverse_cons, ← parts, List.reverse_reverse]
            · simpa using named

theorem SameOutside.accepts {K : Place → Prop} {t u : FileTree} (h : SameOutside K t u) {p : Path}
    (accepts : t.Accepts p) : u.Accepts p := by
  obtain ⟨name, above, accepts⟩ := accepts
  refine ⟨name, above, accepts.accepted, accepts.parts, ?_, ?_, accepts.named, accepts.short, ?_⟩
  · rw [h.start_eq]
    exact h.walk_directory accepts.walked accepts.directory
  · exact (h.directory_iff above).2 accepts.directory
  · exact fun dir => accepts.free ((h.directory_iff _).1 dir)

theorem Accepts.placeOf_ne_nil {t : FileTree} {p : Path} (h : t.Accepts p) : t.placeOf p ≠ [] := by
  obtain ⟨name, above, h⟩ := h
  rw [h.placeOf_eq]
  exact List.cons_ne_nil name above

theorem Accepts.free {t : FileTree} {p : Path} (h : t.Accepts p) : t.entry? (t.placeOf p) ≠ some .directory := by
  obtain ⟨name, above, h⟩ := h
  rw [h.placeOf_eq]
  exact h.free

theorem sameOutside_put {K : Place → Prop} {t : FileTree} {place : Place} (content : Bytes) (inK : K place)
    (named : place ≠ []) (free : t.entry? place ≠ some .directory) : SameOutside K t (t.put place (.file content)) where
  workingDirectory := rfl
  get? q := by
    by_cases here : q = place
    · subst here
      refine .inr ⟨inK, free, ?_⟩
      rw [entry_put t _ named, if_pos rfl]
      simp
    · exact .inl (by rw [get?_put, if_neg here])

theorem readFile_put {t : FileTree} {p : Path} (h : t.Accepts p) (content : Bytes) :
    (t.put (t.placeOf p) (.file content)).readFile p = .ok content := by
  have same := sameOutside_put (K := (· = t.placeOf p)) content rfl h.placeOf_ne_nil h.free
  obtain ⟨name, above, h⟩ := h
  have entry : FileTree.entry? (t.put (t.placeOf p) (.file content)) (t.placeOf p) = some (.file content) := by
    rw [entry_put t _ (by simp [h.placeOf_eq]), if_pos rfl]
  refine readFile_eq_ok_iff.2 ⟨h.accepted, ?_, ?_⟩
  · have directory := (same.directory_iff above).2 h.directory
    rw [same.placeOf_eq, same.start_eq, h.parts, walk_append_eq_ok]
    refine ⟨above, same.walk_directory h.walked h.directory,
      walk_cons_eq_ok.2 ⟨directory, .inr (.inr ⟨h.short, ?_⟩), ?_⟩⟩
    · rw [← h.placeOf_eq, entry]
      rfl
    · rw [Path.step, if_neg h.named.1, if_neg h.named.2, h.placeOf_eq]
      rfl
  · rw [same.placeOf_eq, entry]

end FileTree

/-! ## Names in a directory -/

namespace Path

theorem refusal?_eq_none_iff {p : Path} :
    p.refusal? = none ↔ '\x00' ∉ p.text ∧ p.text ≠ [] ∧ Text.byteCount p.text ≤ 4095 := by
  unfold refusal?
  by_cases nul : '\x00' ∈ p.text
  · simp [nul]
  · by_cases empty : p.text = []
    · simp [empty]
    · simp [nul, empty]

def lead (directory : Path) : Text :=
  if directory.text = [] || directory.text.getLast? = some '/' then directory.text else directory.text ++ ['/']

theorem text_join (directory : Path) {name : Text} (plain : Plain name) :
    (directory.join name).text = directory.lead ++ name := by
  have relative : name.head? ≠ some '/' := fun h => plain.slash (List.mem_of_head? h)
  rw [join, lead, if_neg relative]
  split
  · rfl
  · rw [List.append_assoc]
    rfl

theorem parts_join (directory : Path) {name : Text} (plain : Plain name) :
    (directory.join name).parts = (Text.splitAt '/' directory.lead).dropLast ++ [name] := by
  rw [parts, text_join directory plain]
  by_cases empty : directory.lead = []
  · rw [empty, List.nil_append, Text.splitAt_of_not_mem plain.slash]
    rfl
  · have closed : directory.lead.getLast? = some '/' := by
      unfold lead at empty ⊢
      split at empty <;> simp_all
    obtain ⟨front, split⟩ := List.getLast?_eq_some_iff.1 closed
    simp [split, Text.splitAt_append_cons, Text.splitAt_of_not_mem plain.slash, Text.splitAt]

/-- The parts in front of a joined name lead to the directory. -/
theorem parts_eq_lead (directory : Path) :
    directory.parts = (Text.splitAt '/' directory.lead).dropLast ∨
      directory.parts = (Text.splitAt '/' directory.lead).dropLast ++ [[]] := by
  unfold lead parts
  by_cases empty : directory.text = []
  · right
    simp [empty, Text.splitAt]
  · by_cases closed : directory.text.getLast? = some '/'
    · right
      obtain ⟨front, split⟩ := List.getLast?_eq_some_iff.1 closed
      simp [split, Text.splitAt_append_cons, Text.splitAt]
    · left
      simp [empty, closed, Text.splitAt_append_cons, Text.splitAt]

end Path

namespace FileTree

/-- The way into a directory ends with the directory itself. -/
theorem walk_lead {t : FileTree} {directory : Path} {place : Place} (there : t.entry? place = some .directory) :
    t.walk (t.start directory) (Text.splitAt '/' directory.lead).dropLast = .ok place ↔
      t.walk (t.start directory) directory.parts = .ok place := by
  have stays (a : Place) : t.walk a [[]] = .ok place ↔ t.entry? a = some .directory ∧ a = place := by
    rw [walk_cons_eq_ok]
    simp [Admits, Path.step, Path.isIdle, FileTree.walk]
  rcases Path.parts_eq_lead directory with same | closed
  · rw [same]
  · rw [closed, walk_append_eq_ok]
    constructor
    · intro walked
      exact ⟨place, walked, (stays place).2 ⟨there, rfl⟩⟩
    · rintro ⟨a, walked, last⟩
      obtain ⟨-, rfl⟩ := (stays a).1 last
      exact walked

theorem readFile_join_iff {t : FileTree} {directory : Path} {name : Text} (plain : Path.Plain name)
    (walked : t.walk (t.start directory) directory.parts = .ok (t.placeOf directory))
    (there : t.entry? (t.placeOf directory) = some .directory) (content : Bytes) :
    t.readFile (directory.join name) = .ok content ↔ (directory.join name).refusal? = none ∧
      ¬ Path.isLongName name ∧ t.entry? (name :: t.placeOf directory) = some (.file content) := by
  have step : Path.step (t.placeOf directory) name = name :: t.placeOf directory := by
    rw [Path.step, if_neg plain.idle, if_neg plain.up]
  have last : t.walk (t.placeOf directory) [name] = .ok (name :: t.placeOf directory) ↔
      ¬ Path.isLongName name ∧ (t.entry? (name :: t.placeOf directory)).isSome := by
    rw [walk_cons_eq_ok, Admits, step]
    simp [there, plain.idle, plain.up, FileTree.walk]
  rw [readFile_eq_ok_iff, t.placeOf_join directory plain, t.start_join directory plain, Path.parts_join directory plain,
    walk_append_eq_ok]
  constructor
  · rintro ⟨accepted, ⟨a, front, named⟩, entry⟩
    obtain rfl : t.placeOf directory = a := Except.ok.inj (((walk_lead there).2 walked).symm.trans front)
    exact ⟨accepted, (last.1 named).1, entry⟩
  · rintro ⟨accepted, short, entry⟩
    exact ⟨accepted, ⟨_, (walk_lead there).2 walked, last.2 ⟨short, by simp [entry]⟩⟩, entry⟩

/-- A file can be written in a directory that is there, unless it has a directory of that name. -/
theorem accepts_join_iff {t : FileTree} {directory : Path} {name : Text} (plain : Path.Plain name) :
    t.Accepts (directory.join name) ↔ (directory.join name).refusal? = none ∧
      t.walk (t.start directory) directory.parts = .ok (t.placeOf directory) ∧
      t.entry? (t.placeOf directory) = some .directory ∧ ¬ Path.isLongName name ∧
      t.entry? (name :: t.placeOf directory) ≠ some .directory := by
  constructor
  · rintro ⟨last, above, h⟩
    have place : name :: t.placeOf directory = last :: above := (t.placeOf_join directory plain).symm.trans h.placeOf_eq
    obtain ⟨rfl, rfl⟩ := List.cons.inj place
    have walked := h.walked
    rw [t.start_join directory plain, Path.parts_join directory plain, List.dropLast_concat] at walked
    exact ⟨h.accepted, (walk_lead h.directory).1 walked, h.directory, h.short, h.free⟩
  · rintro ⟨accepted, walked, there, short, free⟩
    refine ⟨name, t.placeOf directory, accepted, ?_, ?_, there, ⟨plain.idle, plain.up⟩, short, free⟩
    · rw [Path.parts_join directory plain, List.dropLast_concat]
    · rw [t.start_join directory plain, Path.parts_join directory plain, List.dropLast_concat]
      exact (walk_lead there).2 walked

/-- Where a file can be written, one with another name of the same length can be written, unless a directory has the name. -/
theorem Accepts.renamed {t : FileTree} {directory : Path} {name name' : Text} (h : t.Accepts (directory.join name))
    (plain : Path.Plain name) (plain' : Path.Plain name') (size : Text.byteCount name' = Text.byteCount name)
    (nul : '\x00' ∉ name') (free : t.entry? (name' :: t.placeOf directory) ≠ some .directory) :
    t.Accepts (directory.join name') := by
  obtain ⟨accepted, walked, there, short, -⟩ := (accepts_join_iff plain).1 h
  refine (accepts_join_iff plain').2 ⟨?_, walked, there, ?_, free⟩
  · have notEmpty : name' ≠ [] := fun empty => plain'.idle (by rw [empty]; rfl)
    rw [Path.refusal?_eq_none_iff, Path.text_join directory plain, List.mem_append, not_or, Text.byteCount_append] at accepted
    rw [Path.refusal?_eq_none_iff, Path.text_join directory plain', List.mem_append, not_or, Text.byteCount_append, size]
    exact ⟨⟨accepted.1.1, nul⟩, by simp [notEmpty], accepted.2.2⟩
  · rw [Path.isLongName, size]
    exact short

end FileTree

end PatternPages
