import PatternPages.Proofs.Directories
import PatternPages.Proofs.Publication

/-! What a run leaves, whether it gets through or not: directories where the output is to go, pages of the report in the
output directory, and nothing else. The entry page is written last, so a run that fails leaves it as it was. -/
namespace PatternPages

open Assembly (Action Wrote)

theorem FileTree.Made.file?_eq {from_ : Place} {innermost : List Text} {t u : FileTree}
    (h : FileTree.Made from_ innermost t u) (place : Place) : u.file? place = t.file? place := by
  unfold FileTree.file?
  rcases h.entry_eq_or place with same | ⟨free, made, -⟩
  · rw [same]
  · rw [free, made]

namespace Assembly

variable {r : Request} {inputs : Inputs} {t : FileTree}

theorem Wrote.file?_eq {names : PageName → Prop} {output : Path} {t u : FileTree} (h : Wrote names output t u)
    {place : Place} (outside : ¬ PagePlace names output t place) : u.file? place = t.file? place := by
  unfold FileTree.file?
  rw [h.same.entry_eq outside]

def BeforeIndex (count : Nat) (name : PageName) : Prop := name.Within count ∧ name ≠ .index

theorem pagesOf_beforeIndex {p : Pattern} (mem : p ∈ inputs.patternList) (corpus : Corpus) :
    PagesOf (BeforeIndex inputs.patternList.length) p.number corpus where
  listing := ⟨Pattern.number_le_of_mem mem, by simp⟩
  source number counted := ⟨⟨Pattern.number_le_of_mem mem, counted⟩, by simp⟩

variable [Xml.Parser]

def publishListings (r : Request) (inputs : Inputs) : Action Nat := do
  let (links, matchPages) ← writeCorpora r.output inputs.patternList inputs.corpora
  writePage r.output Html.patternsFile (.ok (Html.patternsPage (resultsName r.results) links).render)
  return matchPages

theorem publish_eq (r : Request) (inputs : Inputs) :
    (publish r inputs : Action Report) = publishListings r inputs >>= fun matchPages => do
      writePage r.output Html.indexFile (.ok Html.framesPage)
      return ⟨inputs.patternList.length, matchPages, r.output.join Html.indexFile⟩ := by
  simp only [publish, publishListings, bind_assoc, pure_bind]

theorem keeps_publishListings (r : Request) (inputs : Inputs) :
    Action.Keeps (Wrote (BeforeIndex inputs.patternList.length) r.output) (publishListings r inputs) := by
  refine keeps_bind (keeps_writeCorpora (fun p mem => pagesOf_beforeIndex mem) inputs.corpora) fun both => ?_
  have root : BeforeIndex inputs.patternList.length .patterns := ⟨trivial, by simp⟩
  refine keeps_bind (keeps_writePage root _) fun _ => ?_
  exact Action.Keeps.pure (Wrote.refl _ r.output) _

/-- A run that fails among the pages has not come to the entry page, or could not write it. -/
theorem publish_cases (r : Request) (inputs : Inputs) (t : FileTree) :
    (∃ e u, Action.on (publish r inputs) t = (.error e, u) ∧
      Wrote (BeforeIndex inputs.patternList.length) r.output t u) ∨
    ∃ report u, Action.on (publish r inputs) t = (.ok report, u) ∧
      Wrote (PageName.Within inputs.patternList.length) r.output t u := by
  have listings := keeps_publishListings r inputs t
  rw [publish_eq, Action.on_bind]
  cases ended : (publishListings r inputs).on t with
  | mk result u =>
    rw [ended] at listings
    cases result with
    | error e => exact .inl ⟨e, u, rfl, listings⟩
    | ok matchPages =>
      dsimp only
      by_cases writable : Writable r.output u .index
      · have within : PageName.Within inputs.patternList.length .index := trivial
        have index := wrote_put within writable (Text.encode Html.framesPage)
        refine .inr ⟨⟨inputs.patternList.length, matchPages, r.output.join Html.indexFile⟩, _, ?_,
          (listings.mono fun _ => And.left).trans index⟩
        exact Action.on_bind_of_ok (on_writePage_of_writable writable Html.framesPage) _
      · obtain ⟨e, failed⟩ := on_writePage_of_not_writable writable (.ok Html.framesPage)
        exact .inl ⟨e, u, Action.on_bind_of_error failed _, listings⟩

theorem keeps_publish (r : Request) (inputs : Inputs) :
    Action.Keeps (Wrote (PageName.Within inputs.patternList.length) r.output) (publish r inputs) := by
  intro t
  rcases publish_cases r inputs t with ⟨e, u, ended, wrote⟩ | ⟨report, u, ended, wrote⟩
  · rw [ended]
    exact wrote.mono fun _ => And.left
  · rw [ended]
    exact wrote

end Assembly

namespace Request

variable {r : Request} {t : FileTree}

theorem made_of_createDirectories {u : FileTree} {result : Except FileError Unit}
    (output : t.createDirectories r.output = (u, result)) :
    FileTree.Made (t.start r.output) r.output.parts.reverse t u := by
  have made := FileTree.made_createDirectories t r.output
  rwa [output] at made

variable [Xml.Parser]

/-- The run left a place as it was, made a directory there on the way to the output directory, or wrote a page there. -/
inductive LeavesAt (r : Request) (t t' : FileTree) (place : Place) : Prop where
  | unchanged (same : t'.entry? place = t.entry? place)
  | directory (free : t.entry? place = none) (made : t'.entry? place = some .directory) (onWay : t.OnWay r.output place)
  | page (c : Configuration) (u : FileTree) (inputs : Inputs) (name : PageName) (content : Text.Bytes)
    (reads : r.Reads t c u inputs)
    (within : name.Within (inputs.patterns.descendants.filter (·.name = Pattern.elementName)).length)
    (here : place = name.file :: t.placeOf r.output) (before : t.entry? place ≠ some .directory)
    (after : t'.entry? place = some (.file content))

theorem leavesAt_of_made {t' : FileTree} {place : Place}
    (made : FileTree.Made (t.start r.output) r.output.parts.reverse t t') : r.LeavesAt t t' place := by
  rcases made.entry_eq_or place with same | ⟨free, made, way⟩
  · exact .unchanged same
  · exact .directory free made way

theorem leavesAt_of_reads {c : Configuration} {u : FileTree} {inputs : Inputs} (reads : r.Reads t c u inputs)
    (place : Place) : r.LeavesAt t (r.runOn t).2 place := by
  have made := made_of_createDirectories reads.output
  have wrote := Assembly.keeps_publish r inputs u
  rw [← reads.runOn_eq] at wrote
  generalize (r.runOn t).2 = t' at wrote ⊢
  rcases wrote.same.entry_eq_or place with same | ⟨⟨name, within, here⟩, before, after⟩
  · rcases made.entry_eq_or place with same' | ⟨free, directory, way⟩
    · exact .unchanged (same.trans same')
    · exact .directory free (same.trans directory) way
  · have same : u.entry? place = t.entry? place :=
      (made.entry_eq_or place).resolve_right fun differ => before differ.2.1
    rcases wrote.files place with same' | ⟨content, written⟩
    · exact .unchanged ((FileTree.entry_congr same').trans same)
    · refine .page c u inputs name content reads ?_ ?_ (same ▸ before) written
      · rwa [Inputs.patternList, Pattern.ofDocument, Pattern.length_numbered] at within
      · rwa [FileTree.placeOf_congr made.workingDirectory] at here

theorem leavesAt (r : Request) (t : FileTree) (place : Place) : r.LeavesAt t (r.runOn t).2 place := by
  rcases reads_or_stops r t with ⟨c, u, inputs, reads⟩ | ⟨e, u, stopped, rfl | rfl⟩
  · exact leavesAt_of_reads reads place
  · rw [stopped]
    exact .unchanged rfl
  · rw [stopped]
    exact leavesAt_of_made (FileTree.made_createDirectories t r.output)

theorem index_eq_of_error {e : Error} (failed : (r.runOn t).1 = .error e) :
    (r.runOn t).2.file? (PageName.index.file :: t.placeOf r.output) =
      t.file? (PageName.index.file :: t.placeOf r.output) := by
  rcases reads_or_stops r t with ⟨c, u, inputs, reads⟩ | ⟨e, u, stopped, rfl | rfl⟩
  · have made := made_of_createDirectories reads.output
    rw [reads.runOn_eq] at failed ⊢
    rw [← made.file?_eq]
    rcases Assembly.publish_cases r inputs u with ⟨e, v, ended, wrote⟩ | ⟨report, v, ended, -⟩
    · rw [ended]
      refine wrote.file?_eq ?_
      rintro ⟨name, ⟨-, notIndex⟩, here⟩
      exact notIndex (PageName.file_injective (List.cons.inj here).1).symm
    · rw [ended] at failed
      cases failed
  · rw [stopped]
  · rw [stopped]
    exact (FileTree.made_createDirectories t r.output).file?_eq _

/-- Only directories on the way and pages of the report are left by a run. One that fails before it writes leaves all files,
and every one that fails leaves the entry page. -/
theorem run_leaves (r : Request) (t : FileTree) :
    (∀ place, r.LeavesAt t (r.runOn t).2 place) ∧
    (∀ e, t.configuration r = .error e → r.runOn t = (.error e, t)) ∧
    (∀ c e, t.configuration r = .ok c → (t.createDirectories r.output).2 = .error e →
      (r.runOn t).1 = .error (.file r.output e) ∧ ∀ place, (r.runOn t).2.file? place = t.file? place) ∧
    (∀ c u p e, t.configuration r = .ok c → t.createDirectories r.output = (u, .ok ()) →
      p ∈ r.documents c → u.document p = .error e →
      (∃ e, (r.runOn t).1 = .error e) ∧ ∀ place, (r.runOn t).2.file? place = t.file? place) ∧
    ∀ e, (r.runOn t).1 = .error e →
      (r.runOn t).2.file? (PageName.index.file :: t.placeOf r.output) =
        t.file? (PageName.index.file :: t.placeOf r.output) := by
  refine ⟨leavesAt r t, fun e => runOn_of_configuration_error, ?_, ?_, fun e => index_eq_of_error⟩
  · intro c e configuration failed
    rw [runOn_of_output_error configuration (Prod.ext rfl failed)]
    exact ⟨rfl, (FileTree.made_createDirectories t r.output).file?_eq⟩
  · intro c u p e configuration output mem failed
    obtain ⟨e', failed'⟩ := FileTree.inputs_of_document_error mem failed
    rw [runOn_of_inputs_error configuration output failed']
    exact ⟨⟨e', rfl⟩, (made_of_createDirectories output).file?_eq⟩

end Request

end PatternPages
