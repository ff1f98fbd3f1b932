import PatternPages.Proofs.Listings
import PatternPages.Proofs.PageText
import PatternPages.Xml.Reading

/-! The links of a report. Every link on a page that is written leads to the page that it was made for, and that page is there in
the end. What the pages say is read off the texts of their files. -/
namespace PatternPages

/-! ## What the listings say -/

/-- What the root listing says of a pattern: it has one link, or one to each corpus. -/
def Corpora.IsEntry (pattern : Nat) (p : Html.Paragraph) : Corpora → Prop
  | one _ => p = .ofPattern pattern Corpus.old.label
  | two _ _ => ∃ old new, p = .ofComparison pattern old new

namespace Corpora

def paragraphOf (corpora : Corpora) (p : Pattern) : Html.Paragraph :=
  match corpora with
  | one _ => .ofPattern p.number Corpus.old.label
  | two old new =>
    let support := Assembly.supportIn (old.collection .old) (new.collection .new) p
    .ofComparison p.number support.1 support.2

theorem isParagraph_entries (corpora : Corpora) (patterns : List Pattern) :
    List.Forall₂ Html.Node.IsParagraph (corpora.entries patterns) (patterns.map corpora.paragraphOf) := by
  cases corpora with
  | one only =>
    simp only [entries, List.forall₂_map_left_iff, List.forall₂_map_right_iff]
    exact List.forall₂_same.2 fun p _ => Html.Node.isParagraph_patternLink _ _
  | two old new =>
    simp only [entries, List.forall₂_map_left_iff, List.forall₂_map_right_iff]
    exact List.forall₂_same.2 fun p _ => Html.Node.isParagraph_comparisonLink _ _ _

theorem isEntry_paragraphOf (corpora : Corpora) (p : Pattern) : corpora.IsEntry p.number (corpora.paragraphOf p) := by
  cases corpora with
  | one only => rfl
  | two old new => exact ⟨_, _, rfl⟩

/-- The links of an entry lead to the listings of its pattern. -/
theorem hrefs_paragraphOf (corpora : Corpora) (p : Pattern) :
    (corpora.paragraphOf p).links.map Html.Anchor.href =
      corpora.toList.map fun c => Html.listingFile p.number c.1.label := by
  cases corpora with
  | one only => exact Html.Paragraph.hrefs_ofPattern _ _
  | two old new =>
    have oldLabel : Corpus.old.label = "old".toList := by decide
    have newLabel : Corpus.new.label = "new".toList := by decide
    simp only [toList, List.map_cons, List.map_nil, oldLabel, newLabel]
    exact Html.Paragraph.hrefs_ofComparison _ _ _

theorem lookup_toList {corpora : Corpora} {c : Corpus × CorpusInput} (mem : c ∈ corpora.toList) :
    corpora.toList.lookup c.1 = some c.2 := by
  cases corpora with
  | one only =>
    obtain rfl := List.mem_singleton.1 mem
    rfl
  | two old new =>
    rcases List.mem_cons.1 mem with rfl | mem
    · rfl
    · obtain rfl := List.mem_singleton.1 mem
      rfl

end Corpora

namespace FileTree

/-- What the listing of a pattern says of the matches of a corpus. -/
def matchEntries (t : FileTree) (c : Corpus × CorpusInput) (pattern : Nat) : List Html.Paragraph :=
  (t.listedNames c.2 pattern).mapIdx fun i name => .ofMatch pattern (i + 1) c.1.label name

theorem matchEntries_eq (t : FileTree) (c : Corpus × CorpusInput) (pattern : Nat) :
    t.matchEntries c pattern =
      (t.matchesOf c.2 pattern).mapIdx fun i x => .ofMatch pattern (i + 1) c.1.label x.fullName := by
  rw [matchEntries, listedNames_eq]
  exact List.ext_getElem (by simp) (by simp)

def listingText (t : FileTree) (c : Corpus × CorpusInput) (pattern : Nat) : Text :=
  (Html.matchesPage pattern ((t.matchesOf c.2 pattern).mapIdx fun i x =>
    Html.matchLink (Html.matchFile pattern (i + 1) c.1.label) (i + 1) x.fullName)).render

theorem says_listingText (t : FileTree) (c : Corpus × CorpusInput) (pattern : Nat) :
    Html.Says (t.listingText c pattern)
      (.plain ("Matches of pattern-".toList ++ Text.decimal pattern) :: t.matchEntries c pattern) := by
  refine Html.Page.says_render (.cons (Html.Node.isParagraph_heading _) ?_)
  simp only [matchEntries_eq, List.mapIdx_eq_zipIdx_map, List.forall₂_map_left_iff, List.forall₂_map_right_iff]
  exact List.forall₂_same.2 fun x _ => Html.Node.isParagraph_matchLink _ _ _ _

theorem hrefs_listingText (t : FileTree) (c : Corpus × CorpusInput) (pattern : Nat) :
    (Html.links (t.listingText c pattern)).map Html.Anchor.href =
      (t.matchesOf c.2 pattern).mapIdx fun i _ => Html.matchFile pattern (i + 1) c.1.label := by
  have heading : (Html.Paragraph.plain ("Matches of pattern-".toList ++ Text.decimal pattern)).links = [] := rfl
  rw [(t.says_listingText c pattern).links, List.flatMap_cons, heading, List.nil_append, matchEntries_eq]
  simp only [List.mapIdx_eq_zipIdx_map, List.map_flatMap, List.flatMap_map, Html.Paragraph.hrefs_ofMatch]
  exact List.map_eq_flatMap.symm

theorem length_links_listingText (t : FileTree) (c : Corpus × CorpusInput) (pattern : Nat) :
    (Html.links (t.listingText c pattern)).length = (t.matchesOf c.2 pattern).length := by
  have length := congrArg List.length (t.hrefs_listingText c pattern)
  rwa [List.length_map, List.length_mapIdx] at length

end FileTree

namespace Inputs

variable {inputs : Inputs}

def count (inputs : Inputs) : Nat := (inputs.patterns.descendants.filter (·.name = "subtree".toList)).length

theorem length_patternList (inputs : Inputs) : inputs.patternList.length = inputs.count := Pattern.length_numbered 1 _

def rootText (r : Request) (inputs : Inputs) : Text :=
  (Html.patternsPage (Assembly.resultsName r.results) (inputs.corpora.entries inputs.patternList)).render

def listingText (t : FileTree) (inputs : Inputs) (k : Nat) (corpus : Corpus) : Text :=
  ((inputs.corpora.toList.lookup corpus).map fun c => t.listingText (corpus, c) k).getD []

theorem listingText_of_mem (t : FileTree) {c : Corpus × CorpusInput} (corpus : c ∈ inputs.corpora.toList) (k : Nat) :
    inputs.listingText t k c.1 = t.listingText c k := by
  rw [listingText, Corpora.lookup_toList corpus]
  rfl

theorem says_rootText (r : Request) (inputs : Inputs) :
    Html.Says (inputs.rootText r) (.plain ("List patterns: ".toList ++ Assembly.resultsName r.results) ::
      inputs.patternList.map inputs.corpora.paragraphOf) :=
  Html.Page.says_render (.cons (Html.Node.isParagraph_heading _) (inputs.corpora.isParagraph_entries _))

theorem isEntry_getElem {k : Nat} (h : k < (inputs.patternList.map inputs.corpora.paragraphOf).length) :
    inputs.corpora.IsEntry (k + 1) (inputs.patternList.map inputs.corpora.paragraphOf)[k] := by
  rw [List.length_map] at h
  have number : inputs.patternList[k].number = k + 1 := Pattern.number_getElem h
  rw [List.getElem_map, ← number]
  exact inputs.corpora.isEntry_paragraphOf _

end Inputs

section Pages

variable [Xml.Parser]

/-! ## Source pages -/

namespace FileTree

/-- The text of a page that shows the source of the match, with the marks of the tree beside it. -/
def ShowsText (t : FileTree) (directory : Path) (x : Match) (html : Text) : Prop :=
  ∃ bytes tree marked, t.readFile (t.sourceOf directory x) = .ok bytes ∧
    t.TreeAt (treePath (t.sourceOf directory x)) tree ∧
    Marking.render (Text.lines (Text.decodeLossy bytes))
      (Assembly.marksOf x (Text.lines (Text.decodeLossy bytes)) tree) = .ok marked ∧
    html = (Html.sourcePage (t.sourceOf directory x).text marked).render ∧
    Html.ShowsSource html (t.sourceOf directory x).text marked

theorem ShowsMatch.showsText {t : FileTree} {directory : Path} {x : Match} {page : Except Marking.Overflow Html.Page}
    (shows : t.ShowsMatch directory x page) {html : Text} (rendered : page.map Html.Page.render = .ok html) :
    t.ShowsText directory x html := by
  obtain ⟨bytes, tree, read, treeAt, rfl⟩ := shows
  simp only [sourcePage] at rendered
  cases marked : Marking.render (Text.lines (Text.decodeLossy bytes))
      (Assembly.marksOf x (Text.lines (Text.decodeLossy bytes)) tree) with
  | error _ =>
    rw [marked] at rendered
    cases rendered
  | ok lines =>
    rw [marked] at rendered
    obtain rfl := Except.ok.inj rendered
    exact ⟨bytes, tree, lines, read, treeAt, marked, rfl, Html.showsSource_sourcePage _ _⟩

end FileTree

/-! ## Links -/

/-- The pages in the output directory of `t'`, made from the inputs read in `u`, and the links between them. The text of the root
listing is `root`, and that of the listing of a pattern in a corpus is what `listing` gives. -/
structure Request.CrossLinked (r : Request) (u t' : FileTree) (inputs : Inputs) (report : Report) (root : Text)
    (listing : Nat → Corpus → Text) : Prop where
  rootFile : t'.readFile (r.output.join "patterns.html".toList) = .ok (Text.encode root)
  rootSays : ∃ entries,
    Html.Says root (.plain ("List patterns: ".toList ++ Assembly.resultsName r.results) :: entries) ∧
    entries.length = inputs.count ∧ ∀ k (h : k < entries.length), inputs.corpora.IsEntry (k + 1) entries[k]
  rootLinks : ∀ link ∈ Html.links root, ∃ content, t'.readFile (r.output.join link.href) = .ok content
  listingFile : ∀ c ∈ inputs.corpora.toList, ∀ k, 1 ≤ k → k ≤ inputs.count →
    t'.readFile (r.output.join (Html.listingFile k c.1.label)) = .ok (Text.encode (listing k c.1))
  listingSays : ∀ c ∈ inputs.corpora.toList, ∀ k, 1 ≤ k → k ≤ inputs.count →
    Html.Says (listing k c.1) (.plain ("Matches of pattern-".toList ++ Text.decimal k) :: u.matchEntries c k)
  listingLinks : ∀ c ∈ inputs.corpora.toList, ∀ k, 1 ≤ k → k ≤ inputs.count →
    ∀ i (h : i < (Html.links (listing k c.1)).length), ∃ e x html,
      (u.listedElements c.2 k)[i]? = some e ∧ Match.ofElement? e = some x ∧
      t'.readFile (r.output.join (Html.links (listing k c.1))[i].href) = .ok (Text.encode html) ∧
      u.ShowsText c.2.directory x html
  patterns : report.patterns = inputs.count
  matchPages : report.matchPages =
    ((List.range' 1 report.patterns).flatMap fun k =>
      inputs.corpora.toList.flatMap fun c => Html.links (listing k c.1)).length

theorem Corpora.exists_listing {t : FileTree} {d : Xml.Document} {corpora : Corpora} {c : Corpus × CorpusInput}
    (corpus : c ∈ corpora.toList) {k : Nat} (first : 1 ≤ k) (last : k ≤ (Pattern.ofDocument d).length) :
    ∃ l ∈ corpora.listings t (Pattern.ofDocument d), l.Of t k c := by
  obtain ⟨p, pattern, rfl⟩ := Pattern.exists_number first last
  refine Listing.exists_of_mem (corpora.listings_of t _) ?_
  exact List.mem_flatMap.2 ⟨p, pattern, List.mem_map.2 ⟨c, corpus, rfl⟩⟩

namespace Listing

variable {t : FileTree} {pattern : Nat} {c : Corpus × CorpusInput} {l : Listing}

theorem Of.mem_listing (h : l.Of t pattern c) :
    (⟨.listing pattern c.1, .ok (t.listingText c pattern)⟩ : Sheet) ∈ l.sheets := by
  obtain rfl := h.pattern
  have links : (t.matchesOf c.2 l.pattern).mapIdx (fun i x =>
      Html.matchLink (Html.matchFile l.pattern (i + 1) c.1.label) (i + 1) x.fullName) = l.links := by
    rw [← h.found, ← h.corpus, Listing.links]
    exact List.ext_getElem (by simp) (by simp)
  rw [FileTree.listingText, links, ← h.corpus]
  exact List.mem_append_right _ List.mem_cons_self

theorem Of.mem_source (h : l.Of t pattern c) {i : Nat} {x : Match} (here : (t.matchesOf c.2 pattern)[i]? = some x) :
    ∃ page, t.ShowsMatch c.2.directory x page ∧
      (⟨.source pattern (i + 1) c.1, page.map Html.Page.render⟩ : Sheet) ∈ l.sheets := by
  obtain rfl := h.pattern
  rw [← h.found, List.getElem?_map, Option.map_eq_some_iff] at here
  obtain ⟨shown, here, rfl⟩ := here
  refine ⟨shown.page, h.pages shown (List.mem_of_getElem? here), List.mem_append_left _ ?_⟩
  rw [← h.corpus]
  refine List.mem_of_getElem? (i := i) ?_
  rw [List.getElem?_mapIdx, here]
  rfl

end Listing

/-- Every page of the run was rendered and is in the output directory. -/
def Inputs.Written (r : Request) (u t' : FileTree) (inputs : Inputs) : Prop :=
  ∀ s ∈ inputs.sheets r u, ∃ text, s.text = .ok text ∧
    t'.readFile (r.output.join s.name.file) = .ok (Text.encode text)

namespace Inputs

variable {r : Request} {u t' : FileTree} {inputs : Inputs}

namespace Written

theorem listed (written : inputs.Written r u t') {l : Listing}
    (listed : l ∈ inputs.corpora.listings u inputs.patternList) {s : Sheet} (mem : s ∈ l.sheets) :
    ∃ text, s.text = .ok text ∧ t'.readFile (r.output.join s.name.file) = .ok (Text.encode text) :=
  written s (List.mem_append_left _ (List.mem_flatMap.2 ⟨l, listed, mem⟩))

theorem root (written : inputs.Written r u t') :
    t'.readFile (r.output.join "patterns.html".toList) = .ok (Text.encode (inputs.rootText r)) := by
  obtain ⟨text, rendered, read⟩ := written ⟨.patterns, .ok (inputs.rootText r)⟩ (List.mem_append_right _ List.mem_cons_self)
  obtain rfl := Except.ok.inj rendered
  exact read

variable {c : Corpus × CorpusInput} {k : Nat}

theorem listing (written : inputs.Written r u t') (corpus : c ∈ inputs.corpora.toList) (first : 1 ≤ k)
    (last : k ≤ inputs.patternList.length) :
    t'.readFile (r.output.join (Html.listingFile k c.1.label)) = .ok (Text.encode (u.listingText c k)) := by
  obtain ⟨l, mem, of⟩ := Corpora.exists_listing corpus first last
  obtain ⟨text, rendered, read⟩ := written.listed mem of.mem_listing
  obtain rfl := Except.ok.inj rendered
  exact read

theorem source (written : inputs.Written r u t') (corpus : c ∈ inputs.corpora.toList) (first : 1 ≤ k)
    (last : k ≤ inputs.patternList.length) {i : Nat} {x : Match} (here : (u.matchesOf c.2 k)[i]? = some x) :
    ∃ html, t'.readFile (r.output.join (Html.matchFile k (i + 1) c.1.label)) = .ok (Text.encode html) ∧
      u.ShowsText c.2.directory x html := by
  obtain ⟨l, listed, of⟩ := Corpora.exists_listing corpus first last
  obtain ⟨page, shows, mem⟩ := of.mem_source here
  obtain ⟨html, rendered, read⟩ := written.listed listed mem
  exact ⟨html, read, shows.showsText rendered⟩

/-- The links in the root listing lead to listings. -/
theorem rootLinks (written : inputs.Written r u t') {link : Html.Anchor} (mem : link ∈ Html.links (inputs.rootText r)) :
    ∃ content, t'.readFile (r.output.join link.href) = .ok content := by
  rw [(inputs.says_rootText r).links, List.flatMap_cons, List.mem_append, List.mem_flatMap] at mem
  rcases mem with none | ⟨_, entry, mem⟩
  · cases none
  · obtain ⟨p, pattern, rfl⟩ := List.mem_map.1 entry
    have href := List.mem_map_of_mem (f := Html.Anchor.href) mem
    rw [inputs.corpora.hrefs_paragraphOf] at href
    obtain ⟨c, corpus, file⟩ := List.mem_map.1 href
    obtain ⟨first, last⟩ := Pattern.number_le_of_mem pattern
    exact ⟨_, file ▸ written.listing corpus first last⟩

theorem listingLinks (written : inputs.Written r u t') (corpus : c ∈ inputs.corpora.toList) (first : 1 ≤ k)
    (last : k ≤ inputs.patternList.length) (i : Nat) (h : i < (Html.links (u.listingText c k)).length) :
    ∃ e x html, (u.listedElements c.2 k)[i]? = some e ∧ Match.ofElement? e = some x ∧
      t'.readFile (r.output.join (Html.links (u.listingText c k))[i].href) = .ok (Text.encode html) ∧
      u.ShowsText c.2.directory x html := by
  have counted : i < (u.matchesOf c.2 k).length := u.length_links_listingText c k ▸ h
  have here : (u.matchesOf c.2 k)[i]? = some (u.matchesOf c.2 k)[i] := List.getElem?_eq_getElem counted
  have href : (Html.links (u.listingText c k))[i].href = Html.matchFile k (i + 1) c.1.label := by
    have same := List.getElem_of_eq (u.hrefs_listingText c k) (i := i) (by simpa using h)
    rw [List.getElem_map, List.getElem_mapIdx] at same
    exact same
  obtain ⟨html, read, shows⟩ := written.source corpus first last here
  obtain ⟨e, listed, record⟩ := FileTree.exists_listedElement here
  exact ⟨e, _, html, listed, record, href ▸ read, shows⟩

end Written

theorem report_matchPages (r : Request) (u : FileTree) (inputs : Inputs) :
    (inputs.report r u).matchPages =
      ((List.range' 1 (inputs.report r u).patterns).flatMap fun k =>
        inputs.corpora.toList.flatMap fun c => Html.links (inputs.listingText u k c.1)).length := by
  have found := Listing.found_of (inputs.corpora.listings_of u inputs.patternList)
  have numbers : inputs.patternList.map Pattern.number = List.range' 1 (inputs.report r u).patterns :=
    Pattern.map_number_ofDocument inputs.patterns
  have count : (inputs.report r u).matchPages = _ := (List.length_map Shown.found).symm.trans (congrArg List.length found)
  have linked (k : Nat) : (inputs.corpora.toList.flatMap fun c => Html.links (inputs.listingText u k c.1)).length =
      (inputs.corpora.toList.flatMap fun c => u.matchesOf c.2 k).length := by
    simp only [List.length_flatMap]
    refine congrArg List.sum (List.map_congr_left fun c corpus => ?_)
    rw [listingText_of_mem u corpus, u.length_links_listingText]
  rw [count, ← numbers, List.flatMap_map, Corpora.keys, List.flatMap_assoc]
  simp only [List.flatMap_map, List.length_flatMap, ← linked]

end Inputs

namespace Request

variable {r : Request} {t u t' : FileTree} {c : Configuration} {inputs : Inputs} {report : Report}

theorem Reads.written (reads : r.Reads t c u inputs) (outside : inputs.Outside r.output u)
    (ok : r.runOn t = (.ok report, t')) : inputs.Written r u t' := by
  obtain ⟨-, rfl, ready⟩ := reads.published outside ok
  intro s mem
  obtain ⟨text, rendered⟩ := (ready s mem).rendered
  exact ⟨text, rendered, Assembly.readFile_putSheets (inputs.nodup_names r u) ready mem rendered⟩

/-- The pages of a run that gets through say what they should and are linked as they should be, and none is written over. -/
theorem report_crossLinked (outside : r.InputsOutside t) (ok : r.runOn t = (.ok report, t')) :
    ∃ c u inputs root listing, r.Reads t c u inputs ∧ r.CrossLinked u t' inputs report root listing := by
  obtain ⟨c, u, inputs, reads⟩ := reads_of_runOn_eq_ok ok
  have written := reads.written (outside c u inputs reads) ok
  obtain ⟨rfl, -, -⟩ := reads.published (outside c u inputs reads) ok
  have count := inputs.length_patternList
  refine ⟨c, u, inputs, inputs.rootText r, inputs.listingText u, reads, ?_⟩
  constructor
  case rootFile => exact written.root
  case rootSays =>
    exact ⟨_, inputs.says_rootText r, (List.length_map _).trans count, fun k h => Inputs.isEntry_getElem h⟩
  case rootLinks => exact fun link mem => written.rootLinks mem
  case listingFile =>
    intro c corpus k first last
    rw [Inputs.listingText_of_mem u corpus]
    exact written.listing corpus first (count ▸ last)
  case listingSays =>
    intro c corpus k _ _
    rw [Inputs.listingText_of_mem u corpus]
    exact u.says_listingText c k
  case listingLinks =>
    intro c corpus k first last
    rw [Inputs.listingText_of_mem u corpus]
    exact written.listingLinks corpus first (count ▸ last)
  case patterns => exact count
  case matchPages => exact inputs.report_matchPages r u

end Request

end Pages

/-! ## A small run -/

def FileTree.holding (entries : List (Place × FileEntry)) : FileTree :=
  entries.foldl (fun t e => t.put e.1 e.2) (fresh [])

namespace Sample

def matchesText : Text.Bytes := Text.encode
  "<m><match PatternID='1' FullName='f' FileName='x'/><match PatternID='1' FullName='g' FileName='y'/></m>".toList

/-- One pattern and two matches of it; the source of the first one is missing. -/
def tree : FileTree :=
  .holding [
    (["r".toList], .directory),
    (["c.conf".toList, "r".toList], .file (Text.encode "outputPath=p.xml\noutputMatches=m.xml".toList)),
    (["p.xml".toList, "r".toList], .file (Text.encode "<p><subtree/></p>".toList)),
    (["m.xml".toList, "r".toList], .file matchesText),
    (["s".toList], .directory),
    (["y".toList, "s".toList], .file (Text.encode "int y;".toList))]

def request : Request := ⟨⟨"r".toList⟩, ⟨"s".toList⟩, ⟨"o".toList⟩, none⟩

def report : Report := ⟨1, 1, ⟨"o/index.html".toList⟩⟩

theorem runs : (request.runOn tree).1 = .ok report := by decide +kernel

end Sample

theorem Request.report_crossLinked_skipping :
    Sample.request.InputsOutside Sample.tree ∧ (Sample.request.runOn Sample.tree).1 = .ok Sample.report ∧
      ∃ c u inputs root listing, Sample.request.Reads Sample.tree c u inputs ∧
        Sample.request.CrossLinked u (Sample.request.runOn Sample.tree).2 inputs Sample.report root listing := by
  have outside : Sample.request.InputsOutside Sample.tree := by decide +kernel
  exact ⟨outside, Sample.runs, report_crossLinked outside (Prod.ext Sample.runs rfl)⟩

end PatternPages
