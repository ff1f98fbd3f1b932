import PatternPages.Proofs.Discovery
import PatternPages.Proofs.SourcePages

/-! Spellings of a path. Paths with the same names can differ in idle parts. These make a difference at the end of a path, where
no file can be read, and in its length, which has a bound. The path of a syntax tree ends with the name of a document. -/
namespace PatternPages

open Text (Bytes)

/-! ## The last part -/

namespace Text

theorem suffix_joinWith (c : Char) (front : List Text) (last : Text) : last <:+ joinWith c (front ++ [last]) := by
  induction front with
  | nil => exact List.suffix_refl last
  | cons part front ih =>
    rw [List.cons_append, joinWith_cons_concat]
    exact ih.trans ((List.suffix_cons c _).trans (List.suffix_append part _))

end Text

namespace Path

/-- The path ends with a name and has an end. -/
structure EndsWith (p : Path) (front : List Text) (last : Text) : Prop where
  parts : p.parts = front ++ [last]
  busy : isIdle last = false

theorem EndsWith.suffix {p : Path} {front : List Text} {last : Text} (ends : p.EndsWith front last) : last <:+ p.text := by
  rw [← Text.joinWith_splitAt '/' p.text]
  have parts := ends.parts
  rw [Path.parts] at parts
  rw [parts]
  exact Text.suffix_joinWith '/' front last

theorem renamed_cases (name extension : Text) :
    renamed name extension = up ∨ renamed name extension = (splitName name).1 ++ '.' :: extension := by
  unfold renamed
  dsimp only
  split
  · exact .inl rfl
  · exact .inr rfl

theorem EndsWith.parts_withExtension {p : Path} {front : List Text} {last : Text} (ends : p.EndsWith front last)
    (named : last ≠ up) {extension : Text} (relative : '/' ∉ extension) :
    (p.withExtension extension).parts = front ++ [renamed last extension] := by
  have innermost : p.innermostParts = last :: front.reverse := by
    rw [innermostParts, ends.parts, List.reverse_append, List.reverse_singleton, List.singleton_append, parentsFrom]
    simp [ends.busy]
  have name : p.fileName = some last := by
    rw [fileName, innermost]
    simp [ends.busy, named]
  have clean : ∀ part ∈ front ++ [last], '/' ∉ part := by
    intro part mem
    rw [← ends.parts] at mem
    exact Text.not_mem_of_mem_splitAt mem
  rw [List.forall_mem_append, List.forall_mem_singleton] at clean
  have stem : '/' ∉ (splitName last).1 := by
    unfold splitName
    dsimp only
    split
    · exact clean.2
    · intro mem
      exact clean.2 (List.mem_reverse.1 (List.mem_of_mem_drop (List.mem_reverse.1 mem)))
  have renamedClean : '/' ∉ renamed last extension := by
    rcases renamed_cases last extension with back | new
    · rw [back]
      decide
    · simp [new, stem, relative]
  unfold Path.withExtension
  rw [innermost, name]
  dsimp only
  rw [List.reverse_cons, List.reverse_reverse, Path.parts]
  apply Text.splitAt_joinWith
  rw [List.forall_mem_append, List.forall_mem_singleton]
  exact ⟨clean.1, renamedClean⟩

end Path

/-! ## Dotted paths -/

namespace Path

theorem eq_of_parts {p q : Path} (same : p.parts = q.parts) : p = q := by
  have text : p.text = q.text := by
    rw [← Text.joinWith_splitAt '/' p.text, ← Text.joinWith_splitAt '/' q.text]
    exact congrArg (Text.joinWith '/') same
  cases p
  cases q
  exact congrArg Path.mk text

/-- The path of a name in a directory, with idle parts between them. -/
def dotted (directory : Text) (dots : Nat) (name : Text) : Path :=
  ⟨directory ++ '/' :: ((List.replicate dots ['.', '/']).flatten ++ name)⟩

variable {directory name : Text} {dots : Nat}

theorem parts_dotted (cleanDirectory : '/' ∉ directory) (clean : '/' ∉ name) :
    (dotted directory dots name).parts = directory :: (List.replicate dots here ++ [name]) := by
  have inner : Text.splitAt '/' ((List.replicate dots ['.', '/']).flatten ++ name) = List.replicate dots here ++ [name] := by
    induction dots with
    | zero => exact Text.splitAt_of_not_mem clean
    | succ dots ih =>
      have dot : Text.splitAt '/' ['.'] = [here] := rfl
      have split := Text.splitAt_append_cons '/' ['.'] ((List.replicate dots ['.', '/']).flatten ++ name)
      rw [dot, ih] at split
      exact split
  rw [parts, dotted, Text.splitAt_append_cons, Text.splitAt_of_not_mem cleanDirectory, inner]
  rfl

theorem endsWith_dotted (cleanDirectory : '/' ∉ directory) (clean : '/' ∉ name) (busy : isIdle name = false) :
    (dotted directory dots name).EndsWith (directory :: List.replicate dots here) name :=
  ⟨parts_dotted cleanDirectory clean, busy⟩

theorem components_dotted (cleanDirectory : '/' ∉ directory) (clean : '/' ∉ name) (busyDirectory : isIdle directory = false)
    (busy : isIdle name = false) : (dotted directory dots name).components = (false, [directory, name]) := by
  have relative : (dotted directory dots name).text.head? ≠ some '/' := by
    cases directory with
    | nil => cases busyDirectory
    | cons c rest =>
      intro first
      obtain rfl : c = '/' := Option.some.inj first
      exact cleanDirectory List.mem_cons_self
  have notHere : directory ≠ here := by
    rintro rfl
    cases busyDirectory
  have dot : isIdle here = true := by decide
  rw [components, parts_dotted cleanDirectory clean]
  simp [relative, notHere, busyDirectory, busy, dot]

theorem withExtension_dotted (cleanDirectory : '/' ∉ directory) (clean : '/' ∉ name) (busy : isIdle name = false)
    (named : name ≠ up) {extension : Text} (relative : '/' ∉ extension) (renamedClean : '/' ∉ renamed name extension) :
    (dotted directory dots name).withExtension extension = dotted directory dots (renamed name extension) := by
  apply eq_of_parts
  rw [(endsWith_dotted cleanDirectory clean busy).parts_withExtension named relative,
    parts_dotted cleanDirectory renamedClean]
  rfl

theorem byteCount_dotted (directory : Text) (dots : Nat) (name : Text) :
    Text.byteCount (dotted directory dots name).text = Text.byteCount directory + 1 + 2 * dots + Text.byteCount name := by
  have idle : Text.byteCount (List.replicate dots ['.', '/']).flatten = 2 * dots := by
    induction dots with
    | zero => rfl
    | succ dots ih =>
      have pair : Text.byteCount ['.', '/'] = 2 := by decide
      rw [List.replicate_succ, List.flatten_cons, Text.byteCount_append, ih, pair]
      omega
  have slash : Text.byteCount ['/'] = 1 := by decide
  rw [dotted, ← List.singleton_append, Text.byteCount_append, Text.byteCount_append, Text.byteCount_append, idle, slash]
  omega

end Path

theorem Path.step_cases (place : Place) (part : Text) :
    step place part = place ∨ step place part = place.tail ∨ step place part = part :: place := by
  unfold step
  split
  · exact .inl rfl
  · split
    · exact .inr (.inl rfl)
    · exact .inr (.inr rfl)

theorem Path.busy_of_xml {name : Text} (named : ".xml".toList <:+ name) : isIdle name = false ∧ name ≠ up := by
  have long : 4 ≤ name.length := named.length_le
  constructor
  · rw [Bool.eq_false_iff]
    intro idle
    simp only [isIdle, Bool.or_eq_true, decide_eq_true_eq] at idle
    rcases idle with rfl | rfl <;> exact absurd long (by decide)
  · rintro rfl
    exact absurd long (by decide)

/-- The path ends with the name of a document. -/
def Path.NamesDocument (p : Path) : Prop := ∃ front last, p.EndsWith front last ∧ ".xml".toList <:+ last

theorem Path.NamesDocument.suffix {p : Path} (named : p.NamesDocument) : ".xml".toList <:+ p.text := by
  obtain ⟨front, last, ends, named⟩ := named
  exact named.trans ends.suffix

theorem Place.Below.of_tail {above place : Place} (below : above.Below place.tail) : above.Below place := by
  cases place with
  | nil => exact below
  | cons name outer => exact Place.Below.cons below name

theorem Place.Below.eq_or_below {above place : Place} {name : Text} (below : above.Below (name :: place)) :
    above = place ∨ above.Below place := by
  obtain ⟨suffix, differ⟩ := below
  have outer := (List.suffix_cons_iff.1 suffix).resolve_left (Ne.symm differ)
  by_cases same : above = place
  · exact .inl same
  · exact .inr ⟨outer, Ne.symm same⟩

namespace FileTree

variable {t : FileTree} {p q : Path} {content : Bytes}

/-! ## Walks without idle parts -/

theorem walk_idle {place b : Place} {part : Text} (idle : Path.isIdle part = true) (rest : List Text) :
    t.walk place (part :: rest) = .ok b ↔ t.entry? place = some .directory ∧ t.walk place rest = .ok b := by
  rw [walk_cons_eq_ok, Path.step, if_pos idle]
  constructor
  · rintro ⟨here, -, more⟩
    exact ⟨here, more⟩
  · rintro ⟨here, more⟩
    exact ⟨here, .inl idle, more⟩

/-- In front of a name an idle part only asks for the directory that the name asks for. -/
theorem walk_filter {place b : Place} {front : List Text} {last : Text} (busy : Path.isIdle last = false) :
    t.walk place ((front ++ [last]).filter fun part => !Path.isIdle part) = .ok b ↔ t.walk place (front ++ [last]) = .ok b := by
  induction front generalizing place with
  | nil => simp [busy]
  | cons part front ih =>
    rw [List.cons_append]
    cases idle : Path.isIdle part with
    | true =>
      rw [List.filter_cons_of_neg (by simp [idle]), ih, walk_idle idle]
      constructor
      · intro walked
        refine ⟨?_, walked⟩
        cases front with
        | nil => exact (walk_cons_eq_ok.1 walked).1
        | cons next front => exact (walk_cons_eq_ok.1 walked).1
      · exact And.right
    | false => rw [List.filter_cons_of_pos (by simp [idle]), walk_cons_eq_ok, walk_cons_eq_ok, ih]

theorem walk_components {front : List Text} {last : Text} (ends : p.EndsWith front last) {b : Place} :
    t.walk (if p.components.1 then [] else t.workingDirectory) p.components.2 = .ok b ↔
      t.walk (t.start p) p.parts = .ok b := by
  simp only [Path.components, decide_eq_true_eq]
  rw [← start]
  have named : t.walk (t.start p) (p.parts.filter fun part => !Path.isIdle part) = .ok b ↔
      t.walk (t.start p) p.parts = .ok b := by
    rw [ends.parts]
    exact walk_filter ends.busy
  split
  · rename_i first
    rw [walk_idle (by decide), named]
    constructor
    · exact And.right
    · intro walked
      obtain ⟨rest, parts⟩ := List.head?_eq_some_iff.1 first
      refine ⟨?_, walked⟩
      rw [parts] at walked
      exact (walk_cons_eq_ok.1 walked).1
  · exact named

/-! ## Reading by another spelling -/

theorem endsWith_of_readFile (read : t.readFile p = .ok content) : ∃ front last, p.EndsWith front last := by
  obtain ⟨-, walked, entry⟩ := readFile_eq_ok_iff.1 read
  obtain ⟨front, last, parts⟩ : ∃ front last, p.parts = front ++ [last] :=
    Text.exists_splitAt_concat '/' p.text
  refine ⟨front, last, parts, Bool.eq_false_iff.2 fun idle => ?_⟩
  rw [parts, walk_append_eq_ok] at walked
  obtain ⟨a, -, step⟩ := walked
  obtain ⟨directory, here⟩ := (walk_idle idle []).1 step
  rw [Except.ok.inj here, entry] at directory
  cases directory

/-- A path that is accepted reads what another one with the same names reads. -/
theorem readFile_of_components (same : p.components = q.components) (accepted : p.refusal? = none) {front : List Text}
    {last : Text} (ends : p.EndsWith front last) (read : t.readFile q = .ok content) : t.readFile p = .ok content := by
  obtain ⟨frontQ, lastQ, endsQ⟩ := endsWith_of_readFile read
  obtain ⟨-, walked, entry⟩ := readFile_eq_ok_iff.1 read
  rw [← placeOf_eq_of_components same] at walked entry
  refine readFile_eq_ok_iff.2 ⟨accepted, ?_, entry⟩
  rw [← walk_components ends, same, walk_components endsQ]
  exact walked

theorem document_of_components [Xml.Parser] (same : p.components = q.components) (accepted : p.refusal? = none) {front : List Text}
    {last : Text} (ends : p.EndsWith front last) {d : Xml.Document} (read : t.document q = .ok d) : t.document p = .ok d := by
  obtain ⟨content, read, document⟩ := document_eq_ok_iff.1 read
  exact document_eq_ok_iff.2 ⟨content, readFile_of_components same accepted ends read, document⟩

/-! ## Directories above -/

/-- The directories above the working directory are there, as they are in every file system. -/
def Rooted (t : FileTree) : Prop := ∀ above, above.Below t.workingDirectory → t.entry? above = some .directory

theorem SameOutside.rooted {K : Place → Prop} {u : FileTree} (same : SameOutside K t u) (rooted : t.Rooted) : u.Rooted := by
  intro above below
  rw [same.workingDirectory] at below
  exact (same.directory_iff above).2 (rooted above below)

theorem walk_rooted {place b : Place} {parts : List Text} (walked : t.walk place parts = .ok b)
    (rooted : ∀ above, above.Below place → t.entry? above = some .directory) :
    ∀ above, above.Below b → t.entry? above = some .directory := by
  induction parts generalizing place with
  | nil =>
    obtain rfl : place = b := Except.ok.inj walked
    exact rooted
  | cons part rest ih =>
    obtain ⟨here, -, more⟩ := walk_cons_eq_ok.1 walked
    apply ih more
    intro above below
    rcases Path.step_cases place part with stays | goesUp | enters
    · rw [stays] at below
      exact rooted above below
    · rw [goesUp] at below
      exact rooted above below.of_tail
    · rw [enters] at below
      rcases below.eq_or_below with rfl | outer
      · exact here
      · exact rooted above outer

/-- Two dots lead to a directory. -/
theorem ne_up_of_readFile (rooted : t.Rooted) (read : t.readFile p = .ok content) {front : List Text} {last : Text}
    (ends : p.EndsWith front last) : last ≠ Path.up := by
  rintro rfl
  obtain ⟨-, walked, entry⟩ := readFile_eq_ok_iff.1 read
  have above : ∀ above, above.Below (t.start p) → t.entry? above = some .directory := by
    unfold start
    split
    · rintro above ⟨suffix, differ⟩
      exact absurd (List.suffix_nil.1 suffix).symm differ
    · exact rooted
  rw [ends.parts, walk_append_eq_ok] at walked
  obtain ⟨a, front, step⟩ := walked
  obtain ⟨-, -, here⟩ := walk_cons_eq_ok.1 step
  have tail : a.tail = t.placeOf p := Except.ok.inj here
  have directory : t.entry? a.tail = some .directory := by
    cases a with
    | nil => rfl
    | cons name outer => exact walk_rooted front above outer (Place.below_cons outer name)
  rw [tail, entry] at directory
  cases directory

/-! ## Documents beside sources -/

theorem endsWith_treePath (rooted : t.Rooted) {source : Path} (read : t.readFile source = .ok content) :
    ∃ front last, (treePath source).EndsWith front last ∧ (last = Path.up ∨ ".xml".toList <:+ last) := by
  obtain ⟨front, last, ends⟩ := endsWith_of_readFile read
  have relative : '/' ∉ "xml".toList := by decide
  have parts := ends.parts_withExtension (ne_up_of_readFile rooted read ends) relative
  have extension : '.' :: "xml".toList = ".xml".toList := by decide +kernel
  rcases Path.renamed_cases last "xml".toList with back | new
  · rw [back] at parts
    exact ⟨front, Path.up, ⟨parts, by decide⟩, .inl rfl⟩
  · rw [new, extension] at parts
    have named : ".xml".toList <:+ (Path.splitName last).1 ++ ".xml".toList := List.suffix_append _ _
    exact ⟨front, _, ⟨parts, (Path.busy_of_xml named).1⟩, .inr named⟩

theorem namesDocument_of_document [Xml.Parser] (rooted : t.Rooted) {source : Path} (read : t.readFile source = .ok content)
    {d : Xml.Document} (document : t.document (treePath source) = .ok d) : (treePath source).NamesDocument := by
  obtain ⟨front, last, ends, named⟩ := endsWith_treePath rooted read
  obtain ⟨_, readTree, -⟩ := document_eq_ok_iff.1 document
  exact ⟨front, last, ends, named.resolve_left (ne_up_of_readFile rooted readTree ends)⟩

theorem placeOf_of_namesDocument (t : FileTree) (named : p.NamesDocument) :
    ∃ last above, t.placeOf p = last :: above ∧ ".xml".toList <:+ last := by
  obtain ⟨front, last, ends, named⟩ := named
  obtain ⟨busy, notUp⟩ := Path.busy_of_xml named
  refine ⟨last, front.foldl Path.step (t.start p), ?_, named⟩
  rw [placeOf, ends.parts, List.foldl_append, List.foldl_cons, List.foldl_nil]
  simp [Path.step, busy, notUp]

end FileTree

end PatternPages
