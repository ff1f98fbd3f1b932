import PatternPages.Proofs.Publication
import PatternPages.Proofs.SourcePages

/-! The listings of a run. No two pages have one name, and the listing of a pattern for a corpus shows the matches of the pattern
that have a source, each with its own page. -/
namespace PatternPages

/-! ## Names of the pages of a run -/

def PageName.owner : PageName → Option (Nat × Corpus)
  | patterns => none
  | index => none
  | listing pattern corpus => some (pattern, corpus)
  | source pattern _ corpus => some (pattern, corpus)

namespace Listing

def key (l : Listing) : Nat × Corpus := (l.pattern, l.corpus)

def names (l : Listing) : List PageName := l.sheets.map Sheet.name

theorem names_eq (l : Listing) :
    l.names = ((List.range l.shown.length).map fun i => .source l.pattern (i + 1) l.corpus) ++
      [.listing l.pattern l.corpus] := by
  have sources : (l.shown.mapIdx fun i x => (⟨.source l.pattern (i + 1) l.corpus, x.page.map Html.Page.render⟩ : Sheet)).map
      Sheet.name = (List.range l.shown.length).map fun i => .source l.pattern (i + 1) l.corpus :=
    List.ext_getElem (by simp) (by simp)
  rw [names, sheets, List.map_append, sources]
  rfl

/-- No page of a match has a column that leaves the words. -/
def Rendered (l : Listing) : Prop := ∀ x ∈ l.shown, ∃ page, x.page = .ok page

theorem rendered_iff {l : Listing} : l.Rendered ↔ ∀ s ∈ l.sheets, ∃ text, s.text = .ok text := by
  constructor
  · intro rendered s mem
    rcases List.mem_append.1 mem with mem | mem
    · obtain ⟨i, h, rfl⟩ := List.mem_mapIdx.1 mem
      obtain ⟨page, ok⟩ := rendered l.shown[i] (List.getElem_mem h)
      exact ⟨page.render, by simp only [ok, Except.map]⟩
    · obtain rfl := List.mem_singleton.1 mem
      exact ⟨_, rfl⟩
  · intro texts x mem
    obtain ⟨i, h, rfl⟩ := List.getElem_of_mem mem
    obtain ⟨text, ok⟩ := texts _ (List.mem_append_left _ (List.mem_mapIdx.2 ⟨i, h, rfl⟩))
    cases shown : l.shown[i].page with
    | error e =>
      rw [shown] at ok
      cases ok
    | ok page => exact ⟨page, rfl⟩

theorem owner_of_mem_names {l : Listing} {name : PageName} (mem : name ∈ l.names) : name.owner = some l.key := by
  rw [names_eq, List.mem_append, List.mem_map, List.mem_singleton] at mem
  rcases mem with ⟨i, -, rfl⟩ | rfl
  · rfl
  · rfl

theorem nodup_names (l : Listing) : l.names.Nodup := by
  rw [names_eq, List.nodup_append]
  refine ⟨List.nodup_range.map fun i j same => ?_, List.nodup_singleton _, ?_⟩
  · injection same with _ number
    omega
  · intro name source listing mem same
    obtain ⟨i, -, rfl⟩ := List.mem_map.1 source
    cases same.trans (List.mem_singleton.1 mem)

theorem nodup_flatMap_names {listings : List Listing} (keys : (listings.map key).Nodup) :
    (listings.flatMap names).Nodup := by
  -- the name of a page tells its pattern and its corpus
  refine List.nodup_flatMap.2 ⟨fun l _ => nodup_names l, ?_⟩
  refine (List.pairwise_map.1 keys).imp fun differ name mem mem' => differ ?_
  exact Option.some.inj ((owner_of_mem_names mem).symm.trans (owner_of_mem_names mem'))

end Listing

theorem Inputs.nodup_numbers (inputs : Inputs) : (inputs.patternList.map Pattern.number).Nodup := by
  rw [patternList, Pattern.map_number_ofDocument]
  exact List.nodup_range'

/-! ## What the listings show -/

/-- The matches of a pattern that are to be shown for a corpus: the `match` elements at any depth that are well-formed, have
the number of the pattern and have a source. -/
def FileTree.matchesOf (t : FileTree) (c : CorpusInput) (pattern : Nat) : List Match :=
  (c.document.descendants.filter (·.name = Match.elementName)).filterMap fun e =>
    (Match.ofElement? e).filter fun x => x.pattern = pattern && t.HasSource c.directory x

theorem FileTree.matchesOf_eq (t : FileTree) (c : CorpusInput) (pattern : Nat) :
    t.matchesOf c pattern =
      (Match.ofPattern (Match.ofDocument c.document) pattern).filter (t.HasSource c.directory) := by
  rw [matchesOf, Match.ofPattern, Match.ofDocument, List.filter_filter, List.filter_filterMap]
  simp only [Bool.and_comm]

namespace FileTree

/-- The element is a `match` with the number of the pattern and with both names, and at one of the two places where its source is
looked for there is a file. -/
def lists (t : FileTree) (directory : Path) (pattern : Nat) (e : Xml.Element) : Bool :=
  e.name = "match".toList &&
    ((e.attribute? "PatternID").bind fun written => Text.number? Text.bound64 (Text.trim written)) = some pattern &&
    (e.attribute? "FullName").isSome &&
    (e.attribute? "FileName").any fun file => t.isFile (directory.join file) || t.isFile (directory.join (lastName file))

/-- The elements that the listing of a pattern has an entry for, at any depth and in document order. -/
def listedElements (t : FileTree) (c : CorpusInput) (pattern : Nat) : List Xml.Element :=
  c.document.descendants.filter (t.lists c.directory pattern)

theorem hasSource_eq (t : FileTree) (directory : Path) (x : Match) :
    t.HasSource directory x = (t.isFile (directory.join x.fileName) || t.isFile (directory.join (lastName x.fileName))) := by
  unfold HasSource sourceOf
  cases recorded : t.isFile (directory.join x.fileName) with
  | true => exact recorded
  | false => rfl

/-- An element that is listed records a match, which has the name that is written in the element. -/
theorem exists_record_of_lists {t : FileTree} {directory : Path} {pattern : Nat} {e : Xml.Element}
    (listed : t.lists directory pattern e = true) :
    ∃ x, Match.ofElement? e = some x ∧ e.attribute? "FullName" = some x.fullName := by
  simp only [lists, Bool.and_eq_true, decide_eq_true_eq, Option.bind_eq_some_iff, Option.isSome_iff_exists,
    Option.any_eq_true] at listed
  obtain ⟨⟨⟨-, written, id, number⟩, fullName, name⟩, fileName, file, -⟩ := listed
  exact ⟨⟨pattern, fullName, fileName, e.children.filterMap Match.nodeId?⟩,
    by simp [Match.ofElement?, id, number, name, file], name⟩

theorem filter_record_eq (t : FileTree) (directory : Path) (pattern : Nat) {e : Xml.Element}
    (named : e.name = Match.elementName) :
    ((Match.ofElement? e).filter fun x => x.pattern = pattern && t.HasSource directory x) =
      if t.lists directory pattern e then Match.ofElement? e else none := by
  have named : e.name = "match".toList := named
  unfold lists Match.ofElement?
  cases id : e.attribute? "PatternID" with
  | none => simp
  | some written =>
    cases number : Text.number? Text.bound64 (Text.trim written) with
    | none => simp [number]
    | some n =>
      cases name : e.attribute? "FullName" with
      | none => simp
      | some fullName =>
        cases file : e.attribute? "FileName" with
        | none => simp
        | some fileName => simp [number, named, hasSource_eq, Option.filter]

theorem matchesOf_eq_filterMap (t : FileTree) (c : CorpusInput) (pattern : Nat) :
    t.matchesOf c pattern = (t.listedElements c pattern).filterMap Match.ofElement? := by
  rw [matchesOf, listedElements, List.filterMap_filter, List.filterMap_filter]
  refine List.filterMap_congr fun e _ => ?_
  by_cases named : e.name = Match.elementName
  · rw [decide_eq_true named, if_pos rfl, t.filter_record_eq c.directory pattern named]
  · have other : t.lists c.directory pattern e = false := by
      have name : ¬ e.name = "match".toList := named
      simp only [lists, decide_eq_false name, Bool.false_and]
    rw [decide_eq_false named, other]
    rfl

theorem forall₂_record {t : FileTree} {directory : Path} {pattern : Nat} {es : List Xml.Element}
    (listed : ∀ e ∈ es, t.lists directory pattern e = true) :
    List.Forall₂ (fun e x => Match.ofElement? e = some x ∧ e.attribute? "FullName" = some x.fullName) es
      (es.filterMap Match.ofElement?) := by
  induction es with
  | nil => exact .nil
  | cons e rest ih =>
    obtain ⟨x, record, name⟩ := exists_record_of_lists (listed e List.mem_cons_self)
    rw [List.filterMap_cons_some record]
    exact .cons ⟨record, name⟩ (ih fun e mem => listed e (List.mem_cons_of_mem _ mem))

/-- The matches that are to be shown are read from the listed elements. -/
theorem forall₂_record_matchesOf (t : FileTree) (c : CorpusInput) (pattern : Nat) :
    List.Forall₂ (fun e x => Match.ofElement? e = some x ∧ e.attribute? "FullName" = some x.fullName)
      (t.listedElements c pattern) (t.matchesOf c pattern) := by
  rw [matchesOf_eq_filterMap]
  exact forall₂_record fun e mem => (List.mem_filter.1 mem).2

theorem exists_listedElement {t : FileTree} {c : CorpusInput} {pattern i : Nat} {x : Match}
    (here : (t.matchesOf c pattern)[i]? = some x) :
    ∃ e, (t.listedElements c pattern)[i]? = some e ∧ Match.ofElement? e = some x := by
  obtain ⟨h, rfl⟩ := List.getElem?_eq_some_iff.1 here
  have records := t.forall₂_record_matchesOf c pattern
  have h' : i < (t.listedElements c pattern).length := records.length_eq ▸ h
  exact ⟨_, List.getElem?_eq_getElem h', (records.get h' h).1⟩

def listedNames (t : FileTree) (c : CorpusInput) (pattern : Nat) : List Text :=
  (t.listedElements c pattern).map fun e => (e.attribute? "FullName").getD []

theorem listedNames_eq (t : FileTree) (c : CorpusInput) (pattern : Nat) :
    t.listedNames c pattern = (t.matchesOf c pattern).map Match.fullName := by
  rw [listedNames, ← List.forall₂_eq_eq_eq, List.forall₂_map_left_iff, List.forall₂_map_right_iff]
  refine (t.forall₂_record_matchesOf c pattern).imp fun e x record => ?_
  rw [record.2, Option.getD_some]

end FileTree

variable [Xml.Parser]

/-- The listing of a pattern for a corpus shows its matches, each with its own page. -/
structure Listing.Of (t : FileTree) (k : Nat) (c : Corpus × CorpusInput) (l : Listing) : Prop where
  pattern : l.pattern = k
  corpus : l.corpus = c.1
  found : l.shown.map Shown.found = t.matchesOf c.2 k
  pages : ∀ x ∈ l.shown, t.ShowsMatch c.2.directory x.found x.page

namespace Listing

variable {t : FileTree} {keys : List (Nat × (Corpus × CorpusInput))} {listings : List Listing}

theorem map_key_of (h : List.Forall₂ (fun key l => Of t key.1 key.2 l) keys listings) :
    listings.map key = keys.map fun key => (key.1, key.2.1) := by
  induction h with
  | nil => rfl
  | cons here _ ih => rw [List.map_cons, List.map_cons, ih, key, here.pattern, here.corpus]

theorem exists_of_mem (h : List.Forall₂ (fun key l => Of t key.1 key.2 l) keys listings) {pattern : Nat}
    {c : Corpus × CorpusInput} (mem : (pattern, c) ∈ keys) : ∃ l ∈ listings, l.Of t pattern c := by
  induction h with
  | nil => exact absurd mem List.not_mem_nil
  | cons here _ ih =>
    rcases List.mem_cons.1 mem with same | mem
    · subst same
      exact ⟨_, List.mem_cons_self, here⟩
    · obtain ⟨l, inRest, of⟩ := ih mem
      exact ⟨l, List.mem_cons_of_mem _ inRest, of⟩

theorem found_of (h : List.Forall₂ (fun key l => Of t key.1 key.2 l) keys listings) :
    (listings.flatMap Listing.shown).map Shown.found = keys.flatMap fun key => t.matchesOf key.2.2 key.1 := by
  induction h with
  | nil => rfl
  | cons here _ ih => rw [List.flatMap_cons, List.flatMap_cons, List.map_append, ih, here.found]

end Listing

namespace FileTree

variable {t : FileTree} {trees : Trees}

theorem listing_of (knows : t.Knows trees) (c : Corpus × CorpusInput) (pattern : Nat) :
    Listing.Of t pattern c
      ⟨pattern, c.1, (t.shownFor c.2.directory trees (Match.ofPattern (Match.ofDocument c.2.document) pattern)).2⟩ := by
  obtain ⟨-, found, pages⟩ := shownFor_spec knows c.2.directory
    (Match.ofPattern (Match.ofDocument c.2.document) pattern)
  exact ⟨rfl, rfl, found.trans (t.matchesOf_eq c.2 pattern).symm, pages⟩

theorem knows_shownFor (knows : t.Knows trees) (directory : Path) (found : List Match) :
    t.Knows (t.shownFor directory trees found).1 :=
  (shownFor_spec knows directory found).1

theorem listings_of (knows : t.Knows trees) (c : Corpus × CorpusInput) (patterns : List Pattern) :
    List.Forall₂ (fun key l => Listing.Of t key.1 key.2 l) (patterns.flatMap fun p => [(p.number, c)])
      (t.listings (c.2.collection c.1) trees patterns) := by
  induction patterns generalizing trees with
  | nil => exact .nil
  | cons p rest ih => exact .cons (listing_of knows c p.number) (ih (knows_shownFor knows _ _))

theorem zip_listings_of {trees' : Trees} (knows : t.Knows trees) (knows' : t.Knows trees') (c d : Corpus × CorpusInput)
    (patterns : List Pattern) :
    List.Forall₂ (fun key l => Listing.Of t key.1 key.2 l) (patterns.flatMap fun p => [(p.number, c), (p.number, d)])
      (((t.listings (c.2.collection c.1) trees patterns).zip (t.listings (d.2.collection d.1) trees' patterns)).flatMap
        fun both => [both.1, both.2]) := by
  induction patterns generalizing trees trees' with
  | nil => exact .nil
  | cons p rest ih =>
    have others := ih (knows_shownFor knows c.2.directory (Match.ofPattern (Match.ofDocument c.2.document) p.number))
      (knows_shownFor knows' d.2.directory (Match.ofPattern (Match.ofDocument d.2.document) p.number))
    exact .cons (listing_of knows c p.number) (.cons (listing_of knows' d p.number) others)

end FileTree

namespace Corpora

def keys (patterns : List Pattern) (corpora : Corpora) : List (Nat × (Corpus × CorpusInput)) :=
  patterns.flatMap fun p => corpora.toList.map fun c => (p.number, c)

theorem listings_of (t : FileTree) (patterns : List Pattern) (corpora : Corpora) :
    List.Forall₂ (fun key l => Listing.Of t key.1 key.2 l) (corpora.keys patterns) (corpora.listings t patterns) := by
  have knows : t.Knows [] := fun known mem => absurd mem List.not_mem_nil
  cases corpora with
  | one only => exact FileTree.listings_of knows (.old, only) patterns
  | two old new => exact FileTree.zip_listings_of knows knows (.old, old) (.new, new) patterns

theorem nodup_map_key_listings (t : FileTree) {patterns : List Pattern} (numbers : (patterns.map Pattern.number).Nodup)
    (corpora : Corpora) : ((corpora.listings t patterns).map Listing.key).Nodup := by
  rw [Listing.map_key_of (corpora.listings_of t patterns), keys, List.map_flatMap]
  refine List.nodup_flatMap.2 ⟨fun p _ => ?_, ?_⟩
  · cases corpora with
    | one only => exact List.nodup_singleton _
    | two old new => simp [toList]
  · refine (List.pairwise_map.1 numbers).imp fun differ key mem mem' => differ ?_
    simp only [List.map_map, List.mem_map, Function.comp_apply] at mem mem'
    obtain ⟨_, -, rfl⟩ := mem
    obtain ⟨_, -, same⟩ := mem'
    exact (Prod.ext_iff.1 same).1.symm

end Corpora

namespace Inputs

theorem nodup_names (r : Request) (t : FileTree) (inputs : Inputs) : ((inputs.sheets r t).map Sheet.name).Nodup := by
  have listings := Listing.nodup_flatMap_names (inputs.corpora.nodup_map_key_listings t inputs.nodup_numbers)
  rw [sheets, List.map_append, List.map_flatMap]
  refine List.nodup_append.2 ⟨listings, by simp, ?_⟩
  intro name mem other mem' same
  obtain ⟨l, -, named⟩ := List.mem_flatMap.1 mem
  have owner := Listing.owner_of_mem_names named
  rw [same] at owner
  simp only [List.map_cons, List.map_nil, List.mem_cons, List.not_mem_nil, or_false] at mem'
  rcases mem' with rfl | rfl
  · cases owner
  · cases owner

end Inputs

end PatternPages
