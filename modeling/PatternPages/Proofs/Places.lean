import PatternPages.FileTree

/-! Where paths lead. Without links a path names one place whatever there is (`placeOf`), and a walk that gets through ends
there. Two trees that are the same outside some places, none of which is a directory, answer alike on every path that
leads elsewhere. -/
namespace PatternPages

open Text (Bytes)

/-- One part of a path followed from a place, whatever is there. -/
def Path.step (place : Place) (part : Text) : Place :=
  if isIdle part then place else if part = up then place.tail else part :: place

/-- The place that parts lead to, innermost part first. -/
def Path.reach (from_ : Place) (innermost : List Text) : Place := innermost.foldr (fun part place => step place part) from_

def Place.Below (above place : Place) : Prop := above <:+ place ∧ place ≠ above

instance (above place : Place) : Decidable (above.Below place) := inferInstanceAs (Decidable (_ ∧ _))

theorem Place.below_cons (above : Place) (name : Text) : above.Below (name :: above) :=
  ⟨List.suffix_cons name above, List.cons_ne_self name above⟩

theorem Place.Below.cons {above place : Place} (below : above.Below place) (name : Text) : above.Below (name :: place) := by
  refine ⟨below.1.trans (List.suffix_cons name place), ?_⟩
  rintro rfl
  exact absurd below.1.length_le (by simp)

theorem Place.not_below_cons {above place : Place} {name : Text} (outside : ¬ above.Below (name :: place)) (other : Text) :
    ¬ above.Below (other :: place) := by
  rintro ⟨suffix, differ⟩
  have outer : above <:+ place := (List.suffix_cons_iff.1 suffix).resolve_left (Ne.symm differ)
  refine outside ⟨outer.trans (List.suffix_cons name place), ?_⟩
  rintro rfl
  exact absurd outer.length_le (by simp)

/-- A name that leads from a directory into it. -/
structure Path.Plain (name : Text) : Prop where
  slash : '/' ∉ name
  idle : ¬ isIdle name
  up : name ≠ up

namespace FileTree

def file? (t : FileTree) (place : Place) : Option Bytes :=
  match t.entry? place with
  | some (.file content) => some content
  | _ => none

/-- The place that a path names. -/
def placeOf (t : FileTree) (p : Path) : Place := p.parts.foldl Path.step (t.start p)

theorem placeOf_congr {t u : FileTree} (same : u.workingDirectory = t.workingDirectory) (p : Path) :
    u.placeOf p = t.placeOf p := by
  simp only [placeOf, start, same]

theorem entry_congr {t u : FileTree} {place : Place} (same : u.entries.get? place = t.entries.get? place) :
    u.entry? place = t.entry? place := by
  cases place with
  | nil => rfl
  | cons name above => exact same

/-! ## Joined paths -/

theorem start_join (t : FileTree) (directory : Path) {name : Text} (plain : Path.Plain name) :
    t.start (directory.join name) = t.start directory := by
  have relative : name.head? ≠ some '/' := fun h => plain.slash (List.mem_of_head? h)
  rw [start, start, Path.join, if_neg relative]
  cases text : directory.text with
  | nil => simp [relative]
  | cons c rest =>
    split <;> simp

theorem placeOf_join (t : FileTree) (directory : Path) {name : Text} (plain : Path.Plain name) :
    t.placeOf (directory.join name) = name :: t.placeOf directory := by
  have relative : name.head? ≠ some '/' := fun h => plain.slash (List.mem_of_head? h)
  have last (place : Place) : Path.step place name = name :: place := by
    rw [Path.step, if_neg plain.idle, if_neg plain.up]
  have stay (place : Place) : Path.step place [] = place := rfl
  rw [placeOf, start_join t directory plain, placeOf, Path.parts, Path.parts, Path.join, if_neg relative]
  by_cases empty : directory.text = []
  · simp [empty, Text.splitAt_of_not_mem plain.slash, last, Text.splitAt, stay]
  · by_cases closed : directory.text.getLast? = some '/'
    · obtain ⟨front, split⟩ := List.getLast?_eq_some_iff.1 closed
      simp [split, Text.splitAt_append_cons, Text.splitAt_of_not_mem plain.slash, last, Text.splitAt, stay]
    · simp [empty, closed, Text.splitAt_append_cons, Text.splitAt_of_not_mem plain.slash, last]

/-! ## Walks -/

/-- A directory lets a part through: the part stays, goes up, or names an entry. -/
def Admits (t : FileTree) (place : Place) (part : Text) : Prop :=
  Path.isIdle part ∨ part = Path.up ∨ (¬ Path.isLongName part ∧ (t.entry? (part :: place)).isSome)

theorem walk_cons_eq_ok {t : FileTree} {place b : Place} {part : Text} {rest : List Text} :
    t.walk place (part :: rest) = .ok b ↔
      t.entry? place = some .directory ∧ t.Admits place part ∧ t.walk (Path.step place part) rest = .ok b := by
  rw [walk, Admits, Path.step]
  cases entry : t.entry? place with
  | none => simp
  | some e =>
    cases e with
    | file content => simp
    | directory =>
      by_cases idle : Path.isIdle part
      · simp [idle]
      · by_cases up : part = Path.up
        · have upNotIdle : Path.isIdle Path.up = false := by decide
          simp [up, upNotIdle]
        · by_cases long : Path.isLongName part
          · simp [idle, up, long]
          · by_cases there : (t.entry? (part :: place)).isSome
            · simp [idle, up, long, there]
            · simp [idle, up, long, there]

theorem walk_eq_foldl {t : FileTree} {place b : Place} {parts : List Text} (h : t.walk place parts = .ok b) :
    b = parts.foldl Path.step place := by
  induction parts generalizing place with
  | nil => exact (Except.ok.inj h).symm
  | cons part rest ih => exact ih (walk_cons_eq_ok.1 h).2.2

theorem walk_append_eq_ok {t : FileTree} {place b : Place} {xs ys : List Text} :
    t.walk place (xs ++ ys) = .ok b ↔ ∃ a, t.walk place xs = .ok a ∧ t.walk a ys = .ok b := by
  induction xs generalizing place with
  | nil => simp [walk]
  | cons part rest ih =>
    simp only [List.cons_append, walk_cons_eq_ok, ih]
    constructor
    · rintro ⟨here, admits, a, front, back⟩
      exact ⟨a, ⟨here, admits, front⟩, back⟩
    · rintro ⟨a, ⟨here, admits, front⟩, back⟩
      exact ⟨here, admits, a, front, back⟩

/-- A walk gets through another tree that has the directories it passes and the same entry where it ends. -/
theorem walk_along {t u : FileTree} {place b : Place} {parts : List Text}
    (passes : ∀ q, q <+: parts → t.entry? (q.foldl Path.step place) = some .directory →
      u.entry? (q.foldl Path.step place) = some .directory)
    (last : u.entry? b = t.entry? b) (walked : t.walk place parts = .ok b) : u.walk place parts = .ok b := by
  induction parts generalizing place with
  | nil => exact walked
  | cons part rest ih =>
    obtain ⟨here, admits, more⟩ := walk_cons_eq_ok.1 walked
    have later : ∀ q, q <+: rest → t.entry? (q.foldl Path.step (Path.step place part)) = some .directory →
        u.entry? (q.foldl Path.step (Path.step place part)) = some .directory :=
      fun q hq => passes (part :: q) (List.cons_prefix_cons.2 ⟨rfl, hq⟩)
    refine walk_cons_eq_ok.2 ⟨passes [] List.nil_prefix here, ?_, ih later more⟩
    rcases admits with idle | up | ⟨short, there⟩
    · exact .inl idle
    · exact .inr (.inl up)
    · by_cases idle : Path.isIdle part
      · exact .inl idle
      · by_cases up : part = Path.up
        · exact .inr (.inl up)
        · rw [Path.step, if_neg idle, if_neg up] at more later
          -- only the end of a walk can be something else than a directory
          have next : u.entry? (part :: place) = t.entry? (part :: place) := by
            cases rest with
            | nil =>
              obtain rfl : part :: place = b := Except.ok.inj more
              exact last
            | cons next rest =>
              have directory := (walk_cons_eq_ok.1 more).1
              rw [directory]
              exact later [] List.nil_prefix directory
          exact .inr (.inr ⟨short, next ▸ there⟩)

/-! ## Reading -/

theorem readFile_eq_ok_iff {t : FileTree} {p : Path} {content : Bytes} :
    t.readFile p = .ok content ↔
      p.refusal? = none ∧ t.walk (t.start p) p.parts = .ok (t.placeOf p) ∧
        t.entry? (t.placeOf p) = some (.file content) := by
  unfold readFile find resolve
  cases refused : p.refusal? with
  | some e => simp
  | none =>
    cases walked : t.walk (t.start p) p.parts with
    | error e => simp
    | ok place =>
      obtain rfl : place = t.placeOf p := walk_eq_foldl walked
      cases entry : t.entry? (t.placeOf p) with
      | none => simp [entry]
      | some e => cases e <;> simp [entry]

theorem isFile_iff {t : FileTree} {p : Path} : t.isFile p = true ↔ ∃ content, t.readFile p = .ok content := by
  unfold isFile readFile
  cases t.find p with
  | error e => simp
  | ok found =>
    obtain ⟨place, e⟩ := found
    cases e <;> simp

/-! ## Trees that are alike along a path -/

/-- A place that the path, or a beginning of it, names. -/
def OnWay (t : FileTree) (p : Path) (place : Place) : Prop :=
  ∃ innermost, innermost <:+ p.parts.reverse ∧ place = Path.reach (t.start p) innermost

section Ways

variable {t u : FileTree} {p : Path}

theorem start_congr (same : u.workingDirectory = t.workingDirectory) (p : Path) : u.start p = t.start p := by
  simp only [start, same]

theorem onWay_foldl {q : List Text} (front : q <+: p.parts) : t.OnWay p (q.foldl Path.step (t.start p)) := by
  refine ⟨q.reverse, List.reverse_suffix.2 front, ?_⟩
  rw [Path.reach, List.foldr_reverse]

theorem onWay_congr (same : u.workingDirectory = t.workingDirectory) {place : Place} :
    u.OnWay p place ↔ t.OnWay p place := by
  simp only [OnWay, start_congr same]

/-- The trees have the same directories on the way of a path and the same entry at its end. -/
structure SameWay (p : Path) (t u : FileTree) : Prop where
  workingDirectory : u.workingDirectory = t.workingDirectory
  directories : ∀ place, t.OnWay p place → (u.entry? place = some .directory ↔ t.entry? place = some .directory)
  last : u.entry? (t.placeOf p) = t.entry? (t.placeOf p)

namespace SameWay

theorem symm (h : SameWay p t u) : SameWay p u t where
  workingDirectory := h.workingDirectory.symm
  directories place way := (h.directories place ((onWay_congr h.workingDirectory).1 way)).symm
  last := by rw [placeOf_congr h.workingDirectory, h.last]

theorem walk (h : SameWay p t u) {q : List Text} (front : q <+: p.parts) {b : Place}
    (last : u.entry? b = t.entry? b) (walked : t.walk (t.start p) q = .ok b) : u.walk (u.start p) q = .ok b := by
  rw [start_congr h.workingDirectory]
  refine walk_along (fun q' front' directory => ?_) last walked
  exact (h.directories _ (onWay_foldl (front'.trans front))).2 directory

theorem arrives (h : SameWay p t u) (walked : t.walk (t.start p) p.parts = .ok (t.placeOf p))
    (there : t.entry? (t.placeOf p) = some .directory) :
    u.walk (u.start p) p.parts = .ok (u.placeOf p) ∧ u.entry? (u.placeOf p) = some .directory := by
  rw [placeOf_congr h.workingDirectory]
  exact ⟨h.walk (List.prefix_refl p.parts) h.last walked, h.last.trans there⟩

theorem readFile (h : SameWay p t u) {content : Bytes} (read : t.readFile p = .ok content) :
    u.readFile p = .ok content := by
  obtain ⟨accepted, walked, entry⟩ := readFile_eq_ok_iff.1 read
  rw [readFile_eq_ok_iff, placeOf_congr h.workingDirectory]
  exact ⟨accepted, h.walk (List.prefix_refl p.parts) h.last walked, h.last.trans entry⟩

theorem readFile_iff (h : SameWay p t u) (content : Bytes) : u.readFile p = .ok content ↔ t.readFile p = .ok content :=
  ⟨h.symm.readFile, h.readFile⟩

theorem isFile_eq (h : SameWay p t u) : u.isFile p = t.isFile p := by
  rw [Bool.eq_iff_iff, isFile_iff, isFile_iff]
  exact exists_congr h.readFile_iff

end SameWay

end Ways

/-! ## Trees that are the same outside some places -/

/-- The trees differ at most at places in `K`, and there neither has a directory. -/
structure SameOutside (K : Place → Prop) (t u : FileTree) : Prop where
  workingDirectory : u.workingDirectory = t.workingDirectory
  get? : ∀ place, u.entries.get? place = t.entries.get? place ∨
    K place ∧ t.entry? place ≠ some .directory ∧ u.entry? place ≠ some .directory

namespace SameOutside

variable {K K' : Place → Prop} {t u v : FileTree}

theorem refl (K : Place → Prop) (t : FileTree) : SameOutside K t t := ⟨rfl, fun _ => .inl rfl⟩

theorem symm (h : SameOutside K t u) : SameOutside K u t where
  workingDirectory := h.workingDirectory.symm
  get? place := (h.get? place).imp Eq.symm fun differ => ⟨differ.1, differ.2.2, differ.2.1⟩

theorem mono (h : SameOutside K t u) (le : ∀ place, K place → K' place) : SameOutside K' t u where
  workingDirectory := h.workingDirectory
  get? place := (h.get? place).imp id fun differ => ⟨le place differ.1, differ.2⟩

theorem entry_eq_or (h : SameOutside K t u) (place : Place) :
    u.entry? place = t.entry? place ∨
      K place ∧ t.entry? place ≠ some .directory ∧ u.entry? place ≠ some .directory :=
  (h.get? place).imp entry_congr id

theorem directory_iff (h : SameOutside K t u) (place : Place) :
    u.entry? place = some .directory ↔ t.entry? place = some .directory := by
  rcases h.entry_eq_or place with same | ⟨-, noT, noU⟩
  · rw [same]
  · exact iff_of_false noU noT

theorem entry_eq (h : SameOutside K t u) {place : Place} (outside : ¬ K place) : u.entry? place = t.entry? place :=
  (h.entry_eq_or place).resolve_right fun differ => outside differ.1

theorem get?_eq (h : SameOutside K t u) {place : Place} (outside : ¬ K place) :
    u.entries.get? place = t.entries.get? place :=
  (h.get? place).resolve_right fun differ => outside differ.1

theorem trans (h : SameOutside K t u) (h' : SameOutside K u v) : SameOutside K t v where
  workingDirectory := h'.workingDirectory.trans h.workingDirectory
  get? place := by
    rcases h.get? place with same | ⟨here, noT, noU⟩
    · rcases h'.get? place with same' | ⟨here, noU, noV⟩
      · exact .inl (same'.trans same)
      · exact .inr ⟨here, fun dir => noU ((h.directory_iff place).2 dir), noV⟩
    · exact .inr ⟨here, noT, fun dir => noU ((h'.directory_iff place).1 dir)⟩

theorem placeOf_eq (h : SameOutside K t u) (p : Path) : u.placeOf p = t.placeOf p :=
  placeOf_congr h.workingDirectory p

theorem start_eq (h : SameOutside K t u) (p : Path) : u.start p = t.start p := by
  simp only [start, h.workingDirectory]

theorem walk (h : SameOutside K t u) {place b : Place} {parts : List Text} (same : u.entry? b = t.entry? b)
    (walked : t.walk place parts = .ok b) : u.walk place parts = .ok b :=
  walk_along (fun _ _ directory => (h.directory_iff _).2 directory) same walked

theorem walk_directory (h : SameOutside K t u) {place b : Place} {parts : List Text}
    (walked : t.walk place parts = .ok b) (directory : t.entry? b = some .directory) :
    u.walk place parts = .ok b :=
  h.walk (by rw [directory, (h.directory_iff b).2 directory]) walked

theorem sameWay (h : SameOutside K t u) {p : Path} (outside : ¬ K (t.placeOf p)) : SameWay p t u :=
  ⟨h.workingDirectory, fun place _ => h.directory_iff place, h.entry_eq outside⟩

theorem readFile (h : SameOutside K t u) {p : Path} (outside : ¬ K (t.placeOf p)) {content : Bytes}
    (read : t.readFile p = .ok content) : u.readFile p = .ok content :=
  (h.sameWay outside).readFile read

end SameOutside

end FileTree

end PatternPages
