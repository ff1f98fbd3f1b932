import PatternPages.Proofs.Failures

/-! Writers that keep no syntax trees: the tree for a match is read anew. What these writers and those that keep trees leave in
the page of a match. -/
namespace PatternPages

open Text (Bytes)
open Assembly (Action)

/-! ## Writers -/

namespace Assembly

section Fresh

variable {m : Type → Type} [Monad m] [FileStore m] [Xml.Parser]

/-- The source page of a match, with a tree that is read for it. -/
def freshPage (directory : Path) (x : Match) : m (Option (Except Marking.Overflow Html.Page)) := do
  let path ← sourcePath directory x.fileName
  match ← FileStore.readFile path with
  | .error _ => return none
  | .ok bytes =>
    let document ← (readDocument (FileTree.treePath path)).run
    return some (FileTree.sourcePage path bytes x (document.toOption.map SourceTree.ofDocument))

def writeFreshMatches (output : Path) (c : Collection) (pattern : Nat) : Nat → List Match → ExceptT Error m (List Html.Node)
  | _, [] => return []
  | number, x :: rest => do
    match ← (freshPage c.directory x : m (Option (Except Marking.Overflow Html.Page))) with
    | none => writeFreshMatches output c pattern number rest
    | some page =>
      let file := Html.matchFile pattern number c.corpus.label
      writePage output file (page.map Html.Page.render)
      let links ← writeFreshMatches output c pattern (number + 1) rest
      return Html.matchLink file number x.fullName :: links

def writeFreshPattern (output : Path) (c : Collection) (pattern : Nat) : ExceptT Error m Nat := do
  let links ← writeFreshMatches output c pattern 1 (Match.ofPattern c.found pattern)
  writePage output (Html.listingFile pattern c.corpus.label) (.ok (Html.matchesPage pattern links).render)
  return links.length

def writeFreshOneClass (output : Path) (c : Collection) : List Pattern → ExceptT Error m (List Html.Node × Nat)
  | [] => return ([], 0)
  | p :: rest => do
    let count ← writeFreshPattern output c p.number
    let (links, total) ← writeFreshOneClass output c rest
    return (Html.patternLink p.number c.corpus.label :: links, count + total)

def writeFreshTwoClass (output : Path) (old new : Collection) : List Pattern → ExceptT Error m (List Html.Node × Nat)
  | [] => return ([], 0)
  | p :: rest => do
    let support := supportIn old new p
    let oldCount ← writeFreshPattern output old p.number
    let newCount ← writeFreshPattern output new p.number
    let (links, total) ← writeFreshTwoClass output old new rest
    return (Html.comparisonLink p.number support.1 support.2 :: links, oldCount + newCount + total)

end Fresh

end Assembly

section Parser

variable [Xml.Parser]

namespace FileTree

def freshPageFor (t : FileTree) (directory : Path) (x : Match) : Option (Except Marking.Overflow Html.Page) :=
  match t.readFile (t.sourceOf directory x) with
  | .error _ => none
  | .ok bytes => some (sourcePage (t.sourceOf directory x) bytes x
      ((t.document (treePath (t.sourceOf directory x))).toOption.map SourceTree.ofDocument))

theorem run_freshPage (t : FileTree) (directory : Path) (x : Match) :
    (Assembly.freshPage directory x : StateM FileTree (Option (Except Marking.Overflow Html.Page))) t =
      (t.freshPageFor directory x, t) := by
  rw [Assembly.freshPage, Assembly.run_bind, run_sourcePath, Assembly.run_bind, Assembly.run_readFile, freshPageFor]
  cases t.readFile (t.sourceOf directory x) with
  | error e => rfl
  | ok bytes =>
    have read : (Assembly.readDocument (treePath (t.sourceOf directory x)) : Action Xml.Document).run t =
        (t.document (treePath (t.sourceOf directory x)), t) := on_readDocument t _
    simp only [Assembly.run_bind, read]
    rfl

end FileTree

namespace Assembly

theorem on_matchPage (directory : Path) (trees : Trees) (x : Match) (t : FileTree) :
    Action.on (liftM (matchPage directory trees x : StateM FileTree _)) t = (.ok (t.pageFor directory trees x), t) := by
  rw [Action.on_lift, FileTree.run_matchPage]

theorem on_freshPage (directory : Path) (x : Match) (t : FileTree) :
    Action.on (liftM (freshPage directory x : StateM FileTree _)) t = (.ok (t.freshPageFor directory x), t) := by
  rw [Action.on_lift, FileTree.run_freshPage]

end Assembly

end Parser

namespace Assembly

/-! ## What is left in a page -/

/-- After the step the page has the content. -/
def Leaves {α : Type} (output : Path) (name : PageName) (content : Bytes) (x : Action α) (t : FileTree) : Prop :=
  (x.on t).2.file? (name.file :: t.placeOf output) = some content

namespace Leaves

variable {α β : Type} {output : Path} {name : PageName} {content : Bytes} {x : Action α} {f : α → Action β} {t u : FileTree}

/-- Steps that write other pages may follow. -/
theorem before (leaves : Leaves output name content x t) (others : ∀ a, Action.Keeps (Wrote (· ≠ name) output) (f a)) :
    Leaves output name content (x >>= f) t := by
  unfold Leaves at leaves ⊢
  rw [Action.on_bind]
  generalize x.on t = outcome at leaves
  obtain ⟨result, u⟩ := outcome
  cases result with
  | error e => exact leaves
  | ok a =>
    rw [← leaves]
    apply (others a u).file?_eq
    rintro ⟨other, differ, place⟩
    exact differ (PageName.file_injective (List.cons.inj place).1).symm

theorem after {a : α} (step : x.on t = (.ok a, u)) (same : u.placeOf output = t.placeOf output)
    (leaves : Leaves output name content (f a) u) : Leaves output name content (x >>= f) t := by
  unfold Leaves at leaves ⊢
  rw [Action.on_bind_of_ok step, ← same]
  exact leaves

theorem page (writable : Writable output t name) (text : Text) :
    Leaves output name (Text.encode text) (writePage output name.file (.ok text)) t := by
  unfold Leaves
  rw [on_writePage_of_writable writable, FileTree.file?, FileTree.entry_put _ _ (List.cons_ne_nil _ _), if_pos rfl]

end Leaves

section Pages

variable {t : FileTree} {output : Path} {c : Collection} {trees known : Trees} {name : PageName} {content : Bytes}
  {pattern number : Nat} {x : Match} {rest : List Match} {page : Html.Page}

theorem keeps_pure {α : Type} (output : Path) (name : PageName) (a : α) : Action.Keeps (Wrote (· ≠ name) output) (pure a) :=
  .pure (Wrote.refl _ output) a

theorem keeps_listing (output : Path) {pattern : Nat} {corpus : Corpus} (apart : name ≠ .listing pattern corpus)
    (content : Except Marking.Overflow Text) :
    Action.Keeps (Wrote (· ≠ name) output) (writePage output (PageName.listing pattern corpus).file content) := by
  apply keeps_writePage
  exact apart.symm

/-- The tree when the page of a match has been written. -/
def withPage (output : Path) (pattern number : Nat) (corpus : Corpus) (page : Html.Page) (t : FileTree) : FileTree :=
  t.put ((PageName.source pattern number corpus).file :: t.placeOf output) (.file (Text.encode page.render))

theorem wrote_withPage (writable : Writable output t (.source pattern number c.corpus)) (page : Html.Page) :
    Wrote (fun _ => True) output t (withPage output pattern number c.corpus page t) :=
  wrote_put trivial writable _

variable [Xml.Parser]

theorem leaves_last (shown : t.pageFor c.directory trees x = (known, some (.ok page)))
    (writable : Writable output t (.source pattern number c.corpus)) :
    Leaves output (.source pattern number c.corpus) (Text.encode page.render)
      (writeMatches output c pattern trees number [x]) t := by
  refine Leaves.after (on_matchPage c.directory trees x t) rfl ?_
  rw [shown]
  refine (Leaves.page writable page.render).before fun _ => ?_
  exact keeps_bind (keeps_pure _ _ _) fun _ => keeps_pure _ _ _

theorem leaves_later (shown : t.pageFor c.directory trees x = (known, some (.ok page)))
    (writable : Writable output t (.source pattern number c.corpus))
    (leaves : Leaves output name content (writeMatches output c pattern known (number + 1) rest)
      (withPage output pattern number c.corpus page t)) :
    Leaves output name content (writeMatches output c pattern trees number (x :: rest)) t := by
  refine Leaves.after (on_matchPage c.directory trees x t) rfl ?_
  rw [shown]
  refine Leaves.after (on_writePage_of_writable writable page.render) ?_ (leaves.before fun _ => keeps_pure _ _ _)
  exact (wrote_withPage writable page).same.placeOf_eq output

theorem leaves_writeOneClass {p : Pattern} (apart : name ≠ .listing p.number c.corpus)
    (leaves : Leaves output name content (writeMatches output c p.number trees 1 (Match.ofPattern c.found p.number)) t) :
    Leaves output name content (writeOneClass output c trees [p]) t := by
  have pages : Leaves output name content (writePattern output c trees p.number) t :=
    leaves.before fun _ => keeps_bind (keeps_listing output apart _) fun _ => keeps_pure _ _ _
  exact pages.before fun _ => keeps_bind (keeps_pure _ _ _) fun _ => keeps_pure _ _ _

theorem leaves_freshLast (shown : t.freshPageFor c.directory x = some (.ok page))
    (writable : Writable output t (.source pattern number c.corpus)) :
    Leaves output (.source pattern number c.corpus) (Text.encode page.render)
      (writeFreshMatches output c pattern number [x]) t := by
  refine Leaves.after (on_freshPage c.directory x t) rfl ?_
  rw [shown]
  refine (Leaves.page writable page.render).before fun _ => ?_
  exact keeps_bind (keeps_pure _ _ _) fun _ => keeps_pure _ _ _

theorem leaves_freshLater (shown : t.freshPageFor c.directory x = some (.ok page))
    (writable : Writable output t (.source pattern number c.corpus))
    (leaves : Leaves output name content (writeFreshMatches output c pattern (number + 1) rest)
      (withPage output pattern number c.corpus page t)) :
    Leaves output name content (writeFreshMatches output c pattern number (x :: rest)) t := by
  refine Leaves.after (on_freshPage c.directory x t) rfl ?_
  rw [shown]
  refine Leaves.after (on_writePage_of_writable writable page.render) ?_ (leaves.before fun _ => keeps_pure _ _ _)
  exact (wrote_withPage writable page).same.placeOf_eq output

theorem leaves_writeFreshOneClass {p : Pattern} (apart : name ≠ .listing p.number c.corpus)
    (leaves : Leaves output name content (writeFreshMatches output c p.number 1 (Match.ofPattern c.found p.number)) t) :
    Leaves output name content (writeFreshOneClass output c [p]) t := by
  have pages : Leaves output name content (writeFreshPattern output c p.number) t :=
    leaves.before fun _ => keeps_bind (keeps_listing output apart _) fun _ => keeps_pure _ _ _
  exact pages.before fun _ => keeps_bind (keeps_pure _ _ _) fun _ => keeps_pure _ _ _

end Pages

end Assembly

/-! ## The size of a page -/

namespace Html

theorem byteCount_raw (name marked : Text) :
    Text.byteCount (Node.render (.element name [] [.raw ('\n' :: marked)])) =
      Text.byteCount (Node.render (.element name [] [.raw ['\n']])) + Text.byteCount marked := by
  have split : '\n' :: marked = ['\n'] ++ marked := rfl
  have close (s : Text) : '>' :: s = ['>'] ++ s := rfl
  simp only [Node.render, Node.renderAll, List.flatMap_nil, List.append_nil]
  rw [split, close, close ['\n']]
  simp only [Text.byteCount_append]
  omega

theorem exists_render (title : Text) : ∃ front back, ∀ body, Page.render ⟨title, body⟩ = front ++ bodyText body ++ back := by
  apply Exists.intro
  apply Exists.intro
  intro body
  unfold Page.render
  dsimp only

theorem byteCount_sourcePage (path marked : Text) :
    Text.byteCount (sourcePage path marked).render = Text.byteCount (sourcePage path []).render + Text.byteCount marked := by
  obtain ⟨front, back, split⟩ := exists_render path
  have code := byteCount_raw "code".toList marked
  have body (s : Text) : (sourcePage path s).render =
      front ++ (Node.render (.text ("Source code: ".toList ++ path)) ++ (['\n'] ++
        Node.render (.element "code".toList [] [.raw ('\n' :: s)]))) ++ back := split _
  rw [body, body]
  simp only [Text.byteCount_append]
  rw [code]
  omega

end Html

end PatternPages
