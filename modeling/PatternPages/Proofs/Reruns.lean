import PatternPages.Proofs.Listings
import PatternPages.Proofs.Directories
import PatternPages.Proofs.Entries

/-! Runs on two trees. What a run does depends on the kinds of the places on the way to its output directory, on the documents
and on the matches that have a source; where these are the same the runs make the same directories and the same listings. -/
namespace PatternPages

open Text (Bytes)
open Assembly (putSheets)

namespace FileTree

variable {K : Place → Prop} {t u v w : FileTree}

/-! ## Directories -/

theorem exists_createDirectories (same : t.SameOutside K v) {p : Path} (way : ∀ place, t.OnWay p place → SameKind t v place)
    (made : t.createDirectories p = (u, .ok ())) :
    ∃ w, v.createDirectories p = (w, .ok ()) ∧ u.SameOutside K w := by
  obtain ⟨result, same⟩ := createDirectories_congr same way
  rw [made] at result same
  exact ⟨_, Prod.ext rfl result.symm, same⟩

/-! ## Listings -/

theorem shownFor_congr [Xml.Parser] {directory : Path} {found : List Match}
    (pages : ∀ x ∈ found, ∀ trees, w.pageFor directory trees x = u.pageFor directory trees x) (trees : Trees) :
    w.shownFor directory trees found = u.shownFor directory trees found := by
  induction found generalizing trees with
  | nil => rfl
  | cons x rest ih =>
    have others := ih fun y mem => pages y (List.mem_cons_of_mem x mem)
    rw [shownFor, shownFor, pages x List.mem_cons_self]
    simp only [others]

theorem listings_congr [Xml.Parser] {c d : Collection} (corpus : d.corpus = c.corpus) {patterns : List Pattern}
    (shown : ∀ p ∈ patterns, ∀ trees, w.shownFor d.directory trees (Match.ofPattern d.found p.number) =
      u.shownFor c.directory trees (Match.ofPattern c.found p.number)) (trees : Trees) :
    w.listings d trees patterns = u.listings c trees patterns := by
  induction patterns generalizing trees with
  | nil => rfl
  | cons p rest ih =>
    have others := ih fun q mem => shown q (List.mem_cons_of_mem p mem)
    rw [listings, listings, shown p List.mem_cons_self, corpus]
    simp only [others]

end FileTree

/-! ## Labels -/

/-- The same listing under the label of another corpus. -/
def Listing.labelled (corpus : Corpus) (l : Listing) : Listing := { l with corpus }

namespace FileTree

theorem listings_labelled [Xml.Parser] (t : FileTree) (c : Collection) (corpus : Corpus) (trees : Trees) (patterns : List Pattern) :
    t.listings { c with corpus } trees patterns = (t.listings c trees patterns).map (Listing.labelled corpus) := by
  induction patterns generalizing trees with
  | nil => rfl
  | cons p rest ih =>
    rw [listings, listings, List.map_cons, ih]
    rfl

end FileTree

/-! ## Another file in the place of one -/

namespace FileTree

variable {t u : FileTree} {k : Place} {old : Bytes}

theorem file?_eq_some_iff {content : Bytes} : t.file? k = some content ↔ t.entry? k = some (.file content) := by
  rw [file?]
  cases t.entry? k with
  | none => simp
  | some e => cases e <;> simp

theorem ne_nil_of_file (file : t.file? k = some old) : k ≠ [] := by
  rintro rfl
  cases file

theorem sameKind_put (file : t.file? k = some old) (content : Bytes) (place : Place) :
    SameKind t (t.put k (.file content)) place := by
  rw [SameKind, entry_put t _ (ne_nil_of_file file)]
  by_cases here : place = k
  · rw [if_pos here, here, file?_eq_some_iff.1 file]
    rfl
  · rw [if_neg here]

theorem sameOutside_replaced (file : t.file? k = some old) (content : Bytes) :
    SameOutside (· = k) t (t.put k (.file content)) := by
  refine sameOutside_put content rfl (ne_nil_of_file file) ?_
  rw [file?_eq_some_iff.1 file]
  simp

def findKind (t : FileTree) (p : Path) : Except FileError (Place × Bool) :=
  (t.find p).map fun found => (found.1, found.2.isDirectory)

theorem findKind_congr (same : u.workingDirectory = t.workingDirectory) (kinds : ∀ place, SameKind t u place) (p : Path) :
    u.findKind p = t.findKind p := by
  have start : u.start p = t.start p := by simp only [FileTree.start, same]
  have walked : t.walk (t.start p) p.parts = u.walk (t.start p) p.parts := walk_congr fun q _ => kinds _
  unfold findKind find resolve
  rw [start, ← walked]
  cases p.refusal? with
  | some e => rfl
  | none =>
    cases t.walk (t.start p) p.parts with
    | error e => rfl
    | ok place =>
      have kind := kinds place
      unfold SameKind at kind
      dsimp only
      cases entryT : t.entry? place with
      | none =>
        cases entryU : u.entry? place with
        | none => rfl
        | some e => simp [entryT, entryU] at kind
      | some d =>
        cases entryU : u.entry? place with
        | none => simp [entryT, entryU] at kind
        | some e => simpa [entryT, entryU, Except.map, eq_comm] using kind

theorem isFile_eq (t : FileTree) (p : Path) : t.isFile p = ((t.findKind p).map fun found => !found.2).toOption.getD false := by
  unfold isFile findKind
  cases t.find p with
  | error e => rfl
  | ok found =>
    obtain ⟨place, e⟩ := found
    cases e <;> rfl

theorem names_eq (t : FileTree) (p : Path) :
    t.names p = (t.findKind p).bind fun found => if found.2 then .ok (t.namesAt found.1) else .error .notDirectory := by
  unfold names findKind
  cases t.find p with
  | error e => rfl
  | ok found =>
    obtain ⟨place, e⟩ := found
    cases e <;> rfl

theorem findKind_put (file : t.file? k = some old) (content : Bytes) (p : Path) :
    FileTree.findKind (t.put k (.file content)) p = t.findKind p :=
  findKind_congr (t := t) (u := t.put k (.file content)) rfl (sameKind_put file content) p

theorem isFile_put (file : t.file? k = some old) (content : Bytes) (p : Path) :
    FileTree.isFile (t.put k (.file content)) p = t.isFile p := by
  rw [isFile_eq, isFile_eq, findKind_put file]

theorem names_put (file : t.file? k = some old) (content : Bytes) (p : Path) :
    FileTree.names (t.put k (.file content)) p = t.names p := by
  have mem : k ∈ t.entries.keys := by
    cases k with
    | nil => exact absurd rfl (ne_nil_of_file file)
    | cons name above => exact (t.entries.mem_keys_iff _).2 ⟨_, file?_eq_some_iff.1 file⟩
  have keys : FileTree.namesAt (t.put k (.file content)) = t.namesAt := by
    funext place
    unfold namesAt put
    rw [OrderedMap.keys_insert_of_mem mem]
  rw [names_eq, names_eq, findKind_put file, keys]

theorem readFile_replaced (file : t.file? k = some old) (content : Bytes) {p : Path} {read : Bytes}
    (found : t.readFile p = .ok read) (here : t.placeOf p = k) :
    FileTree.readFile (t.put k (.file content)) p = .ok content := by
  obtain ⟨accepted, walked, -⟩ := readFile_eq_ok_iff.1 found
  rw [here] at walked
  have same : FileTree.placeOf (t.put k (.file content)) p = k := here
  refine readFile_eq_ok_iff.2 ⟨accepted, ?_, ?_⟩
  · rw [same]
    refine Eq.trans (Eq.symm ?_) walked
    exact walk_congr fun q _ => sameKind_put file content _
  · rw [same, entry_put t _ (ne_nil_of_file file), if_pos rfl]

theorem put_comm (t : FileTree) {a b : Place} (differ : a ≠ b) (d e : FileEntry) :
    FileTree.put (t.put a d) b e = FileTree.put (t.put b e) a d := by
  refine FileTree.ext rfl fun q => ?_
  rw [get?_put, get?_put, get?_put, get?_put]
  by_cases atA : q = a
  · rw [if_pos atA, if_pos atA, if_neg (atA ▸ differ)]
  · rw [if_neg atA, if_neg atA]

end FileTree

namespace Assembly

/-- Writing pages and replacing a file that is no page commute. -/
theorem putSheets_put (t : FileTree) {output : Path} {k : Place} (outside : ¬ (t.placeOf output).Below k)
    (content : Bytes) (sheets : List Sheet) :
    putSheets output (t.put k (.file content)) sheets = FileTree.put (putSheets output t sheets) k (.file content) := by
  induction sheets generalizing t with
  | nil => rfl
  | cons s rest ih =>
    have differ : k ≠ s.name.file :: t.placeOf output := by
      rintro rfl
      exact outside (Place.below_cons _ _)
    cases rendered : s.text with
    | error _ =>
      have first (u : FileTree) : Assembly.putSheet output u s = u := by rw [Assembly.putSheet, rendered]
      simp only [putSheets, List.foldl_cons, first]
      exact ih t outside
    | ok text =>
      have step := ih (t.put (s.name.file :: t.placeOf output) (.file (Text.encode text))) outside
      rw [FileTree.put_comm t differ.symm] at step
      simp only [putSheets, List.foldl_cons, putSheet_of_ok output _ rendered]
      exact step

end Assembly

end PatternPages
