import PatternPages.Proofs.CrossLinks
import PatternPages.Proofs.Failures
import PatternPages.Proofs.Reruns

/-! A run on two classes against runs on one. The pages of a corpus are those of a run that shows this corpus only, on any tree
that has the same inputs for it: they do not depend on the other corpus, and the order of writing does not show. -/
namespace PatternPages

open Assembly (OutsideFor Ready Writable)

/-- The run that shows one corpus only, with a configuration of its own. -/
def Request.only (r : Request) (directory : Path) (configuration : Option Path) : Request :=
  ⟨r.results, directory, r.output, configuration⟩

/-- The places that are looked up for a corpus after the configuration. -/
inductive Request.ReadsAt (r : Request) (patterns : Text) (u : FileTree) (d : Xml.Document) (c : CorpusInput) :
    Place → Prop where
  | patterns : ReadsAt r patterns u d c (u.placeOf (r.results.join patterns))
  | found : ReadsAt r patterns u d c (u.placeOf c.path)
  | input {p : Pattern} {x : Match} {path : Path} (pattern : p ∈ Pattern.ofDocument d)
    (found : x ∈ Match.ofPattern (Match.ofDocument c.document) p.number) (mem : path ∈ u.inputPaths c.directory x) :
    ReadsAt r patterns u d c (u.placeOf path)

theorem Request.readsAt_iff {r : Request} {patterns : Text} {u : FileTree} {d : Xml.Document} {c : CorpusInput}
    {place : Place} : r.ReadsAt patterns u d c place ↔
      u.placeOf (r.results.join patterns) = place ∨ u.placeOf c.path = place ∨
        ∃ p ∈ Pattern.ofDocument d, ∃ x ∈ Match.ofPattern (Match.ofDocument c.document) p.number,
          ∃ path ∈ u.inputPaths c.directory x, u.placeOf path = place := by
  constructor
  · intro reads
    cases reads with
    | patterns => exact .inl rfl
    | found => exact .inr (.inl rfl)
    | input pattern found mem => exact .inr (.inr ⟨_, pattern, _, found, _, mem, rfl⟩)
  · rintro (rfl | rfl | ⟨p, pattern, x, found, path, mem, rfl⟩)
    · exact .patterns
    · exact .found
    · exact .input pattern found mem

instance (r : Request) (patterns : Text) (u : FileTree) (d : Xml.Document) (c : CorpusInput) (place : Place) :
    Decidable (r.ReadsAt patterns u d c place) :=
  decidable_of_iff' _ Request.readsAt_iff

/-- In `v` everything is the same that is looked up for the corpus. Other files may differ or be missing, as long as the way to
the output directory stays open. -/
structure Request.SameFor (r : Request) (patterns : Text) (t u : FileTree) (d : Xml.Document) (c : CorpusInput)
    (v : FileTree) : Prop where
  same : t.SameOutside (fun place => ¬ r.ReadsAt patterns u d c place) v
  way : ∀ place, t.OnWay r.output place → FileTree.SameKind t v place

/-- After a run the pages of a corpus are those of the listings, under its label; others with this label are as they were. -/
structure Published (output : Path) (t t' : FileTree) (corpus : Corpus) (listings : List Listing) : Prop where
  written : ∀ l ∈ listings, ∀ s ∈ (l.labelled corpus).sheets,
    ∃ text, s.text = .ok text ∧ t'.readFile (output.join s.name.file) = .ok (Text.encode text)
  others : ∀ name k, name.owner = some (k, corpus) → (∀ l ∈ listings, name ∉ (l.labelled corpus).names) →
    t'.file? (name.file :: t.placeOf output) = t.file? (name.file :: t.placeOf output)

/-! ## Interleaved listings -/

theorem perm_interleaved {α : Type} {as bs : List α} (length : as.length = bs.length) :
    List.Perm ((as.zip bs).flatMap fun both => [both.1, both.2]) (as ++ bs) := by
  induction as generalizing bs with
  | nil =>
    obtain rfl := List.length_eq_zero_iff.1 length.symm
    exact .refl []
  | cons a as ih =>
    cases bs with
    | nil => cases length
    | cons b bs =>
      have others := ih (Nat.succ.inj length)
      exact .cons a ((others.cons b).trans List.perm_middle.symm)

namespace FileTree

variable [Xml.Parser]

theorem length_listings (t : FileTree) (c : Collection) (trees : Trees) (patterns : List Pattern) :
    (t.listings c trees patterns).length = patterns.length := by
  induction patterns generalizing trees with
  | nil => rfl
  | cons p rest ih => rw [listings, List.length_cons, List.length_cons, ih]

theorem corpus_of_mem_listings {t : FileTree} {c : Collection} {trees : Trees} {patterns : List Pattern} {l : Listing}
    (mem : l ∈ t.listings c trees patterns) : l.corpus = c.corpus := by
  induction patterns generalizing trees with
  | nil => exact absurd mem List.not_mem_nil
  | cons p rest ih =>
    rcases List.mem_cons.1 mem with rfl | mem
    · rfl
    · exact ih mem

end FileTree

theorem FileTree.map_labelled_listings [Xml.Parser] (t : FileTree) (c : CorpusInput) (corpus : Corpus) (trees : Trees)
    (patterns : List Pattern) :
    (t.listings (c.collection corpus) trees patterns).map (Listing.labelled corpus) =
      t.listings (c.collection corpus) trees patterns :=
  (t.listings_labelled (c.collection corpus) corpus trees patterns).symm

namespace Listing

theorem labelled_of_corpus {l : Listing} {corpus : Corpus} (same : l.corpus = corpus) : l.labelled corpus = l := by
  rw [labelled, ← same]

theorem total_labelled (corpus : Corpus) (listings : List Listing) :
    total (listings.map (labelled corpus)) = total listings := by
  rw [total, List.flatMap_map]
  rfl

theorem total_interleaved {as bs : List Listing} (length : as.length = bs.length) :
    total ((as.zip bs).flatMap fun both => [both.1, both.2]) = total as + total bs := by
  rw [total, ((perm_interleaved length).flatMap_right shown).length_eq, List.flatMap_append, List.length_append]
  rfl

end Listing

/-! ## The pages of a corpus after a run -/

namespace Request

variable [Xml.Parser]

variable {r : Request} {t u t' : FileTree} {c : Configuration} {inputs : Inputs} {report : Report}

theorem Reads.publishedFor (reads : r.Reads t c u inputs) (outside : inputs.Outside r.output u)
    (ok : r.runOn t = (.ok report, t')) {corpus : Corpus} {listings : List Listing}
    (listed : ∀ l, (l ∈ inputs.corpora.listings u inputs.patternList ∧ l.corpus = corpus) ↔
      l ∈ listings.map (Listing.labelled corpus)) : Published r.output t t' corpus listings where
  written l mem s inSheets := by
    have here := ((listed _).2 (List.mem_map_of_mem mem)).1
    exact (reads.written outside ok).listed here inSheets
  others name k owner notListed := by
    obtain ⟨-, rfl, ready⟩ := reads.published outside ok
    have wrote : Assembly.Wrote (· ∈ (inputs.sheets r u).map Sheet.name) r.output u _ :=
      Assembly.wrote_putSheets (fun s mem => List.mem_map_of_mem mem) ready
    have made := made_of_createDirectories reads.output
    rw [← made.file?_eq, ← FileTree.placeOf_congr made.workingDirectory]
    refine wrote.file?_eq ?_
    rintro ⟨other, mem, here⟩
    obtain rfl := PageName.file_injective (List.cons.inj here).1
    rw [Inputs.sheets, List.map_append, List.map_flatMap, List.mem_append, List.mem_flatMap] at mem
    rcases mem with ⟨l, mem, named⟩ | last
    · have key := Option.some.inj ((Listing.owner_of_mem_names named).symm.trans owner)
      obtain ⟨l', mem', rfl⟩ := List.mem_map.1 ((listed l).1 ⟨mem, (Prod.ext_iff.1 key).2⟩)
      exact notListed l' mem' named
    · simp only [List.map_cons, List.map_nil, List.mem_cons, List.not_mem_nil, or_false] at last
      rcases last with rfl | rfl
      · cases owner
      · cases owner

end Request

/-! ## The run on one corpus -/

section OneCorpus

variable {r : Request} {patterns : Text} {u w : FileTree} {d : Xml.Document} {c : CorpusInput}
  (same : u.SameOutside (fun place => ¬ r.ReadsAt patterns u d c place) w)

include same

theorem outside_of_reads (outside : ∀ p ∈ Pattern.ofDocument d,
    OutsideFor r.output u c.directory (Match.ofPattern (Match.ofDocument c.document) p.number)) :
    Inputs.Outside r.output w ⟨d, .one c⟩ := by
  intro corpus mem p pattern x found path input
  obtain rfl := List.mem_singleton.1 mem
  rw [same.placeOf_eq, same.placeOf_eq]
  refine outside p pattern x found path ?_
  have ways : ∀ q ∈ u.inputPaths c.directory x, FileTree.SameWay q u w := fun q mem =>
    same.sameWay fun other => other (.input pattern found mem)
  rwa [FileTree.inputPaths_eq_of_ways ways] at input

variable [Xml.Parser]

theorem document_eq_of_reads {p : Path} (read : r.ReadsAt patterns u d c (u.placeOf p)) {found : Xml.Document}
    (ok : u.document p = .ok found) : w.document p = .ok found :=
  (same.document_iff (fun other => other read) found).2 ok

theorem listings_eq_of_reads (corpus : Corpus) :
    w.listings (c.collection corpus) [] (Pattern.ofDocument d) =
      u.listings (c.collection corpus) [] (Pattern.ofDocument d) := by
  refine FileTree.listings_congr rfl (fun p pattern trees => ?_) []
  refine FileTree.shownFor_congr (fun x found trees => ?_) trees
  exact same.pageFor_eq (fun path mem other => other (.input pattern found mem)) trees

theorem listings_one_of_reads (corpus : Corpus) :
    (Corpora.one c).listings w (Pattern.ofDocument d) =
      (u.listings (c.collection corpus) [] (Pattern.ofDocument d)).map (Listing.labelled .old) := by
  have labelled := w.listings_labelled (c.collection corpus) .old [] (Pattern.ofDocument d)
  rw [listings_eq_of_reads same] at labelled
  exact labelled

end OneCorpus

theorem Request.SameFor.reads [Xml.Parser] {r : Request} {patterns : Text} {t u v : FileTree} {d : Xml.Document} {c : CorpusInput}
    (same : r.SameFor patterns t u d c v) (made : t.createDirectories r.output = (u, .ok ())) {found : Text}
    (path : c.path = r.results.join found) (patternsRead : u.document (r.results.join patterns) = .ok d)
    (matchesRead : u.document c.path = .ok c.document) {configuration : Option Path}
    (mode : v.configuration (r.only c.directory configuration) = .ok ⟨patterns, .oneClass found⟩) :
    ∃ w, (r.only c.directory configuration).Reads v ⟨patterns, .oneClass found⟩ w ⟨d, .one c⟩ ∧
      u.SameOutside (fun place => ¬ r.ReadsAt patterns u d c place) w := by
  obtain ⟨w, made', same'⟩ := FileTree.exists_createDirectories same.same same.way made
  refine ⟨w, ⟨mode, made', FileTree.inputs_oneClass_eq_ok_iff.2 ⟨d, c.document, ?_, ?_, ?_⟩⟩, same'⟩
  · exact document_eq_of_reads same' .patterns patternsRead
  · exact document_eq_of_reads same' (path ▸ .found) (path ▸ matchesRead)
  · cases c
    obtain rfl := path
    rfl

/-! ## Names under another label -/

def PageName.labelled (corpus : Corpus) : PageName → PageName
  | listing pattern _ => .listing pattern corpus
  | source pattern number _ => .source pattern number corpus
  | name => name

theorem Corpus.byteCount_label (c d : Corpus) : Text.byteCount c.label = Text.byteCount d.label := by
  cases c <;> cases d <;> decide +kernel

theorem PageName.byteCount_labelled (corpus : Corpus) (name : PageName) :
    Text.byteCount (name.labelled corpus).file = Text.byteCount name.file := by
  cases name with
  | patterns => rfl
  | index => rfl
  | listing k c =>
    unfold labelled file Html.listingFile
    generalize "pattern_".toList = front, "_matches_".toList = middle, ".html".toList = back
    simp only [Text.byteCount_append, corpus.byteCount_label c]
  | source k i c =>
    unfold labelled file Html.matchFile
    generalize "patternID_".toList = front, "_matchID_".toList = middle, ".html".toList = back
    have mark (s : Text) : Text.byteCount ('_' :: s) = 1 + Text.byteCount s := Text.byteCount_append ['_'] s
    simp only [Text.byteCount_append, mark, corpus.byteCount_label c]

theorem Listing.names_labelled (corpus : Corpus) (l : Listing) :
    (l.labelled corpus).names = l.names.map (PageName.labelled corpus) := by
  rw [names_eq, names_eq, List.map_append, List.map_map]
  rfl

theorem writable_labelled {output : Path} {t : FileTree} {name : PageName} (writable : Writable output t name)
    (corpus : Corpus) (free : t.entry? ((name.labelled corpus).file :: t.placeOf output) ≠ some .directory) :
    Writable output t (name.labelled corpus) := by
  refine FileTree.Accepts.renamed writable (PageName.plain_file name) (PageName.plain_file _)
    (PageName.byteCount_labelled corpus name) (fun nul => ?_) free
  exact (PageName.allowed_of_mem_file _ _ nul).2 rfl

/-! ## A run on one class beside a run on two -/

namespace Request.SameFor

variable [Xml.Parser] {r : Request} {patterns found : Text} {t u v : FileTree} {d : Xml.Document} {c : CorpusInput}
  {configuration : Option Path}

/-- What has to be known of a run on one corpus: it comes to its pages, reads outside the output directory, and its listings
are those of the corpus under the old label. -/
structure OnlyReads (r : Request) (patterns found : Text) (u v : FileTree) (d : Xml.Document) (c : CorpusInput)
    (configuration : Option Path) (listings : List Listing) (w : FileTree) : Prop where
  reads : (r.only c.directory configuration).Reads v ⟨patterns, .oneClass found⟩ w ⟨d, .one c⟩
  same : u.SameOutside (fun place => ¬ r.ReadsAt patterns u d c place) w
  outside : Inputs.Outside r.output w ⟨d, .one c⟩
  listings : (Corpora.one c).listings w (Pattern.ofDocument d) = listings.map (Listing.labelled .old)

namespace OnlyReads

variable {w : FileTree} {listings : List Listing}

theorem published (h : OnlyReads r patterns found u v d c configuration listings w) {report : Report} {v' : FileTree}
    (ok : (r.only c.directory configuration).runOn v = (.ok report, v')) :
    Published r.output v v' .old listings ∧ report.matchPages = Listing.total listings := by
  constructor
  · refine h.reads.publishedFor h.outside ok fun l => ?_
    rw [Inputs.patternList, h.listings]
    refine ⟨And.left, fun mem => ⟨mem, ?_⟩⟩
    obtain ⟨l', -, rfl⟩ := List.mem_map.1 mem
    rfl
  · obtain ⟨rfl, -, -⟩ := h.reads.published h.outside ok
    rw [← Listing.total_labelled .old, ← h.listings]
    rfl

theorem runs (h : OnlyReads r patterns found u v d c configuration listings w)
    (rendered : ∀ l ∈ listings, l.Rendered) (writable : ∀ l ∈ listings, ∀ name ∈ (l.labelled .old).names, Writable r.output w name)
    (root : Writable r.output w .patterns) (index : Writable r.output w .index) :
    ∃ report v', (r.only c.directory configuration).runOn v = (.ok report, v') := by
  refine ⟨_, _, h.reads.publishes h.outside fun s mem => ?_⟩
  rw [Inputs.sheets, List.mem_append, List.mem_flatMap] at mem
  rcases mem with ⟨l, mem, inSheets⟩ | last
  · rw [Inputs.patternList, h.listings] at mem
    obtain ⟨l', mem', rfl⟩ := List.mem_map.1 mem
    have labelled : (l'.labelled .old).Rendered := rendered l' mem'
    exact ⟨Listing.rendered_iff.1 labelled s inSheets, writable l' mem' s.name (List.mem_map_of_mem inSheets)⟩
  · simp only [List.mem_cons, List.not_mem_nil, or_false] at last
    rcases last with rfl | rfl
    · exact ⟨⟨_, rfl⟩, root⟩
    · exact ⟨⟨_, rfl⟩, index⟩

section Taken

/-! The names of the pages could be taken in the run on two classes. -/

variable (h : OnlyReads r patterns found u v d c configuration listings w) (rendered : ∀ l ∈ listings, l.Rendered)
  (writable : ∀ l ∈ listings, ∀ name ∈ l.names, Writable r.output u name)
  (root : Writable r.output u .patterns) (index : Writable r.output u .index)

include h rendered writable root index

theorem runs_old (old : ∀ l ∈ listings, l.corpus = .old) :
    ∃ report v', (r.only c.directory configuration).runOn v = (.ok report, v') := by
  refine h.runs rendered (fun l mem name named => ?_) (h.same.accepts root) (h.same.accepts index)
  rw [Listing.labelled_of_corpus (old l mem)] at named
  exact h.same.accepts (writable l mem name named)

theorem runs_free (free : ∀ l ∈ listings, ∀ name ∈ (l.labelled .old).names,
      FileTree.entry? (v.createDirectories r.output).1 (name.file :: v.placeOf r.output) ≠ some .directory) :
    ∃ report v', (r.only c.directory configuration).runOn v = (.ok report, v') := by
  refine h.runs rendered (fun l mem name named => ?_) (h.same.accepts root) (h.same.accepts index)
  have made : v.createDirectories r.output = (w, .ok ()) := h.reads.output
  have notTaken := free l mem name named
  rw [made, ← FileTree.placeOf_congr (made_of_createDirectories made).workingDirectory] at notTaken
  -- the page can be written under its own label, so the name under the old one is free unless a directory has it
  rw [Listing.names_labelled] at named
  obtain ⟨name, inNames, rfl⟩ := List.mem_map.1 named
  exact writable_labelled (h.same.accepts (writable l mem name inNames)) .old notTaken

end Taken

end OnlyReads

theorem exists_onlyReads (same : r.SameFor patterns t u d c v) (made : t.createDirectories r.output = (u, .ok ()))
    (path : c.path = r.results.join found) (patternsRead : u.document (r.results.join patterns) = .ok d)
    (matchesRead : u.document c.path = .ok c.document) (outside : ∀ p ∈ Pattern.ofDocument d,
      OutsideFor r.output u c.directory (Match.ofPattern (Match.ofDocument c.document) p.number))
    (mode : v.configuration (r.only c.directory configuration) = .ok ⟨patterns, .oneClass found⟩) (corpus : Corpus) :
    ∃ w, OnlyReads r patterns found u v d c configuration
      (u.listings (c.collection corpus) [] (Pattern.ofDocument d)) w := by
  obtain ⟨w, reads, sameAs⟩ := same.reads made path patternsRead matchesRead mode
  exact ⟨w, reads, sameAs, outside_of_reads sameAs outside, listings_one_of_reads sameAs corpus⟩

end Request.SameFor

/-! ## The run on two classes -/

namespace Corpora

variable [Xml.Parser] {u : FileTree} {old new : CorpusInput} {patterns : List Pattern} {l : Listing}

theorem mem_listings_two : l ∈ (two old new).listings u patterns ↔
    l ∈ u.listings (old.collection .old) [] patterns ∨ l ∈ u.listings (new.collection .new) [] patterns := by
  rw [← List.mem_append]
  exact (perm_interleaved ((u.length_listings _ _ _).trans (u.length_listings _ _ _).symm)).mem_iff

theorem mem_listings_old : (l ∈ (two old new).listings u patterns ∧ l.corpus = .old) ↔
    l ∈ (u.listings (old.collection .old) [] patterns).map (Listing.labelled .old) := by
  rw [u.map_labelled_listings, mem_listings_two]
  constructor
  · rintro ⟨mem | mem, corpus⟩
    · exact mem
    · cases (FileTree.corpus_of_mem_listings mem).symm.trans corpus
  · exact fun mem => ⟨.inl mem, FileTree.corpus_of_mem_listings mem⟩

theorem mem_listings_new : (l ∈ (two old new).listings u patterns ∧ l.corpus = .new) ↔
    l ∈ (u.listings (new.collection .new) [] patterns).map (Listing.labelled .new) := by
  rw [u.map_labelled_listings, mem_listings_two]
  constructor
  · rintro ⟨mem | mem, corpus⟩
    · cases (FileTree.corpus_of_mem_listings mem).symm.trans corpus
    · exact mem
  · exact fun mem => ⟨.inr mem, FileTree.corpus_of_mem_listings mem⟩

end Corpora

theorem Inputs.ready_of_listed [Xml.Parser] {r : Request} {u : FileTree} {inputs : Inputs}
    (ready : ∀ s ∈ inputs.sheets r u, Ready r.output u s) {l : Listing}
    (listed : l ∈ inputs.corpora.listings u inputs.patternList) :
    l.Rendered ∧ ∀ name ∈ l.names, Writable r.output u name := by
  have inSheets : ∀ s ∈ l.sheets, Ready r.output u s := fun s mem =>
    ready s (List.mem_append_left _ (List.mem_flatMap.2 ⟨l, listed, mem⟩))
  refine ⟨Listing.rendered_iff.2 fun s mem => (inSheets s mem).rendered, fun name named => ?_⟩
  obtain ⟨s, mem, rfl⟩ := List.mem_map.1 named
  exact (inSheets s mem).writable

namespace Request

variable [Xml.Parser] {r : Request} {t t' : FileTree} {report : Report}

/-- The pages of a corpus in a run on two classes are those of a run on this corpus only, on every tree with the same inputs
for it. The run on the new corpus writes them under the old label, and can do so unless a directory has such a name. -/
theorem two_classes_are_two_runs {patterns oldMatches newMatches oldInputs newInputs : Text}
    (mode : t.configuration r = .ok ⟨patterns, .twoClass oldMatches newMatches oldInputs newInputs⟩)
    (outside : r.InputsOutside t) (ok : r.runOn t = (.ok report, t')) :
    ∃ u d old new,
      r.Reads t ⟨patterns, .twoClass oldMatches newMatches oldInputs newInputs⟩ u ⟨d, .two old new⟩ ∧
      ∃ oldListings newListings,
        Published r.output t t' .old oldListings ∧ Published r.output t t' .new newListings ∧
        report.matchPages = Listing.total oldListings + Listing.total newListings ∧
        (∀ v p, r.SameFor patterns t u d old v →
          v.configuration (r.only (r.source.join oldInputs) p) = .ok ⟨patterns, .oneClass oldMatches⟩ →
          ∃ one v', (r.only (r.source.join oldInputs) p).runOn v = (.ok one, v') ∧
            Published r.output v v' .old oldListings ∧ one.matchPages = Listing.total oldListings) ∧
        ∀ v p, r.SameFor patterns t u d new v →
          v.configuration (r.only (r.source.join newInputs) p) = .ok ⟨patterns, .oneClass newMatches⟩ →
          ((∀ l ∈ newListings, ∀ name ∈ (l.labelled .old).names,
              FileTree.entry? (v.createDirectories r.output).1 (name.file :: v.placeOf r.output) ≠ some .directory) →
            ∃ one v', (r.only (r.source.join newInputs) p).runOn v = (.ok one, v')) ∧
          ∀ one v', (r.only (r.source.join newInputs) p).runOn v = (.ok one, v') →
            Published r.output v v' .old newListings ∧ one.matchPages = Listing.total newListings := by
  obtain ⟨c, u, inputs, reads⟩ := reads_of_runOn_eq_ok ok
  obtain rfl := Except.ok.inj (reads.configuration.symm.trans mode)
  obtain ⟨d, old, new, patternsRead, oldRead, newRead, rfl⟩ := FileTree.inputs_twoClass_eq_ok_iff.1 reads.inputs
  have outside := outside _ u _ reads
  obtain ⟨rfl, -, ready⟩ := reads.published outside ok
  have root : Writable r.output u .patterns :=
    (ready ⟨.patterns, _⟩ (List.mem_append_right _ List.mem_cons_self)).writable
  have index : Writable r.output u .index :=
    (ready ⟨.index, _⟩ (List.mem_append_right _ (List.mem_cons_of_mem _ List.mem_cons_self))).writable
  refine ⟨u, d, _, _, reads, u.listings _ [] (Pattern.ofDocument d), u.listings _ [] (Pattern.ofDocument d),
    reads.publishedFor outside ok fun l => Corpora.mem_listings_old,
    reads.publishedFor outside ok fun l => Corpora.mem_listings_new, ?_, ?_, ?_⟩
  · exact Listing.total_interleaved ((u.length_listings _ _ _).trans (u.length_listings _ _ _).symm)
  · intro v p same mode
    obtain ⟨w, only⟩ := same.exists_onlyReads reads.output rfl patternsRead oldRead
      (outside (.old, _) List.mem_cons_self) mode .old
    have taken : ∀ l : Listing, l ∈ _ → l.Rendered ∧ ∀ name ∈ l.names, Writable r.output u name := fun l mem =>
      Inputs.ready_of_listed ready (Corpora.mem_listings_two.2 (.inl mem))
    obtain ⟨one, v', ok⟩ := only.runs_old (fun l mem => (taken l mem).1) (fun l mem => (taken l mem).2) root index
      fun l => FileTree.corpus_of_mem_listings
    exact ⟨one, v', ok, only.published ok⟩
  · intro v p same mode
    obtain ⟨w, only⟩ := same.exists_onlyReads reads.output rfl patternsRead newRead
      (outside (.new, _) (List.mem_cons_of_mem _ List.mem_cons_self)) mode .new
    have taken : ∀ l : Listing, l ∈ _ → l.Rendered ∧ ∀ name ∈ l.names, Writable r.output u name := fun l mem =>
      Inputs.ready_of_listed ready (Corpora.mem_listings_two.2 (.inr mem))
    refine ⟨?_, fun one v' ok => only.published ok⟩
    exact only.runs_free (fun l mem => (taken l mem).1) (fun l mem => (taken l mem).2) root index

end Request

/-! ## A small run on two classes -/

/-- A file may be replaced that is not read for the corpus, such as the configuration. -/
theorem Request.SameFor.of_not_readsAt {r : Request} {patterns : Text} {t u : FileTree} {d : Xml.Document} {c : CorpusInput}
    {k : Place} {old : Text.Bytes} (file : t.file? k = some old) (content : Text.Bytes)
    (other : ¬ r.ReadsAt patterns u d c k) : r.SameFor patterns t u d c (t.put k (.file content)) where
  same := (FileTree.sameOutside_replaced file content).mono fun _ here read => other (here ▸ read)
  way place _ := FileTree.sameKind_put file content place

namespace Sample

def twoTree : FileTree :=
  .holding [
    (["r".toList], .directory),
    (["c.conf".toList, "r".toList], .file (Text.encode
      "2Class=true\noutputPath=p.xml\noutputMatches1=m.xml\noutputMatches2=n.xml\ninputFiles1=a\ninputFiles2=b".toList)),
    (["p.xml".toList, "r".toList], .file (Text.encode "<p><subtree Support='1-1'/></p>".toList)),
    (["m.xml".toList, "r".toList], .file (Text.encode "<m><match PatternID='1' FullName='f' FileName='y'/></m>".toList)),
    (["n.xml".toList, "r".toList], .file (Text.encode "<m><match PatternID='1' FullName='g' FileName='z'/></m>".toList)),
    (["s".toList], .directory),
    (["a".toList, "s".toList], .directory),
    (["y".toList, "a".toList, "s".toList], .file (Text.encode "int y;".toList)),
    (["b".toList, "s".toList], .directory),
    (["z".toList, "b".toList, "s".toList], .file (Text.encode "int z;".toList))]

def twoSettings : Configuration := ⟨"p.xml".toList, .twoClass "m.xml".toList "n.xml".toList "a".toList "b".toList⟩

def oneTree (found : String) : FileTree :=
  twoTree.put ["c.conf".toList, "r".toList]
    (.file (Text.encode ("outputPath=p.xml\noutputMatches=".toList ++ found.toList)))

def oldInput : CorpusInput :=
  ⟨⟨"s/a".toList⟩, ⟨"r/m.xml".toList⟩, ⟨"m".toList, [], [.element Match.elementName [⟨none, "PatternID".toList, "1".toList⟩,
    ⟨none, "FullName".toList, "f".toList⟩, ⟨none, "FileName".toList, "y".toList⟩] []]⟩⟩

def newInput : CorpusInput :=
  ⟨⟨"s/b".toList⟩, ⟨"r/n.xml".toList⟩, ⟨"m".toList, [], [.element Match.elementName [⟨none, "PatternID".toList, "1".toList⟩,
    ⟨none, "FullName".toList, "g".toList⟩, ⟨none, "FileName".toList, "z".toList⟩] []]⟩⟩

def onePattern : Xml.Document :=
  ⟨"p".toList, [], [.element Pattern.elementName [⟨none, "Support".toList, "1-1".toList⟩] []]⟩

end Sample

theorem Request.two_classes_are_two_runs_small :
    Sample.twoTree.configuration Sample.request = .ok Sample.twoSettings ∧
      Sample.request.InputsOutside Sample.twoTree ∧
      (Sample.request.runOn Sample.twoTree).1 = .ok ⟨1, 2, ⟨"o/index.html".toList⟩⟩ ∧
      ∃ oldListings newListings old old' new new',
        Published Sample.request.output Sample.twoTree (Sample.request.runOn Sample.twoTree).2 .old oldListings ∧
        Published Sample.request.output Sample.twoTree (Sample.request.runOn Sample.twoTree).2 .new newListings ∧
        (Sample.request.only ⟨"s/a".toList⟩ none).runOn (Sample.oneTree "m.xml") = (.ok old, old') ∧
        (Sample.request.only ⟨"s/b".toList⟩ none).runOn (Sample.oneTree "n.xml") = (.ok new, new') ∧
        Published Sample.request.output (Sample.oneTree "m.xml") old' .old oldListings ∧
        Published Sample.request.output (Sample.oneTree "n.xml") new' .old newListings ∧
        2 = old.matchPages + new.matchPages := by
  have mode : Sample.twoTree.configuration Sample.request = .ok Sample.twoSettings := by decide +kernel
  have outside : Sample.request.InputsOutside Sample.twoTree := by decide +kernel
  have runs : (Sample.request.runOn Sample.twoTree).1 = .ok ⟨1, 2, ⟨"o/index.html".toList⟩⟩ := by decide +kernel
  have known : Sample.request.Reads Sample.twoTree Sample.twoSettings
      (Sample.twoTree.createDirectories Sample.request.output).1
      ⟨Sample.onePattern, .two Sample.oldInput Sample.newInput⟩ :=
    ⟨mode, Prod.ext rfl (by decide +kernel), by decide +kernel⟩
  obtain ⟨u, d, old, new, reads, oldListings, newListings, oldPages, newPages, sum, oldRun, newRun⟩ :=
    two_classes_are_two_runs mode outside (Prod.ext runs rfl)
  obtain ⟨-, rfl, same⟩ := known.unique reads
  obtain ⟨rfl, rfl, rfl⟩ : d = Sample.onePattern ∧ old = Sample.oldInput ∧ new = Sample.newInput := by
    simpa using same
  have file : Sample.twoTree.file? ["c.conf".toList, "r".toList] = some (Text.encode
      "2Class=true\noutputPath=p.xml\noutputMatches1=m.xml\noutputMatches2=n.xml\ninputFiles1=a\ninputFiles2=b".toList) := by
    decide +kernel
  obtain ⟨one, old', ranOld, onePages, oneCount⟩ := oldRun (Sample.oneTree "m.xml") none
    (.of_not_readsAt file _ (by decide +kernel)) (by decide +kernel)
  have newRun := newRun (Sample.oneTree "n.xml") none (.of_not_readsAt file _ (by decide +kernel)) (by decide +kernel)
  have ranNew : (Request.runOn (Sample.request.only ⟨"s/b".toList⟩ none) (Sample.oneTree "n.xml")).1 =
      .ok ⟨1, 1, ⟨"o/index.html".toList⟩⟩ := by decide +kernel
  obtain ⟨otherPages, otherCount⟩ := newRun.2 _ _ (Prod.ext ranNew rfl)
  refine ⟨mode, outside, runs, oldListings, newListings, one, old', _, _, oldPages, newPages, ranOld,
    Prod.ext ranNew rfl, onePages, otherPages, ?_⟩
  rw [oneCount, otherCount]
  exact sum

end PatternPages
