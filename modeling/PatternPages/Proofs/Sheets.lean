import PatternPages.Proofs.PageNames
import PatternPages.Proofs.Readers
import PatternPages.Proofs.Writing

/-! What a run writes, as a list made from the tree before it writes. As long as the inputs lie outside the output directory,
the tree that is read stays the same while pages are written, so the pages written are those of the list (`Writes`). -/
namespace PatternPages

open Assembly (Action)

structure Shown where
  found : Match
  page : Except Marking.Overflow Html.Page

/-- The matches of a pattern that are shown for a corpus, in order. -/
structure Listing where
  pattern : Nat
  corpus : Corpus
  shown : List Shown

structure Sheet where
  name : PageName
  text : Except Marking.Overflow Text

namespace Listing

def links (l : Listing) : List Html.Node :=
  l.shown.mapIdx fun i x => Html.matchLink (Html.matchFile l.pattern (i + 1) l.corpus.label) (i + 1) x.found.fullName

/-- The pages of the matches and then the page that lists them. -/
def sheets (l : Listing) : List Sheet :=
  (l.shown.mapIdx fun i x => ⟨.source l.pattern (i + 1) l.corpus, x.page.map Html.Page.render⟩) ++
    [⟨.listing l.pattern l.corpus, .ok (Html.matchesPage l.pattern l.links).render⟩]

end Listing

namespace FileTree

variable [Xml.Parser]

/-- The matches whose source can be read, with their pages, and the syntax trees known in the end. -/
def shownFor (t : FileTree) (directory : Path) : Trees → List Match → Trees × List Shown
  | trees, [] => (trees, [])
  | trees, x :: rest =>
    match t.pageFor directory trees x with
    | (trees, none) => shownFor t directory trees rest
    | (trees, some page) =>
      let others := shownFor t directory trees rest
      (others.1, ⟨x, page⟩ :: others.2)

def listings (t : FileTree) (c : Collection) : Trees → List Pattern → List Listing
  | _, [] => []
  | trees, p :: rest =>
    let here := t.shownFor c.directory trees (Match.ofPattern c.found p.number)
    ⟨p.number, c.corpus, here.2⟩ :: listings t c here.1 rest

end FileTree

/-! ## Writing sheets -/

namespace Assembly

def writeSheets (output : Path) : List Sheet → Action Unit
  | [] => pure ()
  | s :: rest => do
    writePage output s.name.file s.text
    writeSheets output rest

def PagePlace (names : PageName → Prop) (output : Path) (t : FileTree) (place : Place) : Prop :=
  ∃ name, names name ∧ place = name.file :: t.placeOf output

/-- `u` is `t` with files at the places of some of the pages. -/
structure Wrote (names : PageName → Prop) (output : Path) (t u : FileTree) : Prop where
  same : t.SameOutside (PagePlace names output t) u
  files : ∀ place, u.entries.get? place = t.entries.get? place ∨ ∃ content, u.entry? place = some (.file content)

namespace Wrote

variable {names : PageName → Prop} {output : Path} {t u v : FileTree}

theorem refl (names : PageName → Prop) (output : Path) (t : FileTree) : Wrote names output t t :=
  ⟨.refl _ t, fun _ => .inl rfl⟩

theorem trans (h : Wrote names output t u) (h' : Wrote names output u v) : Wrote names output t v where
  same := by
    refine h.same.trans (h'.same.mono ?_)
    rintro place ⟨name, mem, here⟩
    exact ⟨name, mem, by rw [here, h.same.placeOf_eq]⟩
  files place := by
    rcases h'.files place with same | wrote
    · rcases h.files place with same' | ⟨content, wrote⟩
      · exact .inl (same.trans same')
      · exact .inr ⟨content, (FileTree.entry_congr same).trans wrote⟩
    · exact .inr wrote

theorem mono {names' : PageName → Prop} (h : Wrote names output t u) (le : ∀ name, names name → names' name) :
    Wrote names' output t u :=
  ⟨h.same.mono fun _ ⟨name, mem, here⟩ => ⟨name, le name mem, here⟩, h.files⟩

theorem sameOutside (h : Wrote names output t u) : t.SameOutside (t.placeOf output).Below u :=
  h.same.mono fun _ ⟨_, _, here⟩ => here ▸ Place.below_cons _ _

end Wrote

section Writing

variable {names : PageName → Prop} {output : Path} {t u : FileTree}

def Writable (output : Path) (t : FileTree) (name : PageName) : Prop := t.Accepts (output.join name.file)

theorem placeOf_file (t : FileTree) (output : Path) (name : PageName) :
    t.placeOf (output.join name.file) = name.file :: t.placeOf output :=
  t.placeOf_join output (PageName.plain_file name)

theorem wrote_put {name : PageName} (mem : names name) (writable : Writable output t name) (content : Text.Bytes) :
    Wrote names output t (t.put (name.file :: t.placeOf output) (.file content)) where
  same := by
    have free := FileTree.Accepts.free writable
    rw [placeOf_file] at free
    exact FileTree.sameOutside_put content ⟨name, mem, rfl⟩ (List.cons_ne_nil _ _) free
  files place := by
    by_cases here : place = name.file :: t.placeOf output
    · exact .inr ⟨content, by rw [FileTree.entry_put _ _ (List.cons_ne_nil _ _), if_pos here]⟩
    · exact .inl (by rw [FileTree.get?_put, if_neg here])

theorem on_writePage_of_writable {name : PageName} (writable : Writable output t name) (text : Text) :
    Action.on (writePage output name.file (.ok text)) t =
      (.ok (), t.put (name.file :: t.placeOf output) (.file (Text.encode text))) := by
  have wrote := FileTree.writeFile_of_accepts writable (Text.encode text)
  rw [placeOf_file] at wrote
  rw [writePage, Action.on_onFile]
  change ((t.writeFile _ _).swap.1.mapError _, (t.writeFile _ _).swap.2) = _
  rw [wrote]
  rfl

theorem on_writePage_of_not_writable {name : PageName} (refused : ¬ Writable output t name)
    (content : Except Marking.Overflow Text) :
    ∃ e, Action.on (writePage output name.file content) t = (.error e, t) := by
  cases content with
  | error _ => exact ⟨.overflow, rfl⟩
  | ok text =>
    obtain ⟨e, failed⟩ := FileTree.writeFile_of_not_accepts refused (Text.encode text)
    refine ⟨.file (output.join name.file) e, ?_⟩
    rw [writePage, Action.on_onFile]
    change ((t.writeFile _ _).swap.1.mapError _, (t.writeFile _ _).swap.2) = _
    rw [failed]
    rfl

theorem keeps_bind {α β : Type} {x : Action α} {f : α → Action β} (hx : Action.Keeps (Wrote names output) x)
    (hf : ∀ a, Action.Keeps (Wrote names output) (f a)) : Action.Keeps (Wrote names output) (x >>= f) :=
  hx.bind (fun _ _ _ first second => first.trans second) hf

theorem keeps_writePage {name : PageName} (mem : names name) (content : Except Marking.Overflow Text) :
    Action.Keeps (Wrote names output) (writePage output name.file content) := by
  intro t
  by_cases writable : Writable output t name
  · cases content with
    | error _ => exact Wrote.refl names output t
    | ok text =>
      rw [on_writePage_of_writable writable]
      exact wrote_put mem writable _
  · obtain ⟨e, failed⟩ := on_writePage_of_not_writable writable content
    rw [failed]
    exact Wrote.refl names output t

/-! ### One sheet -/

/-- The sheet was rendered, and its place can be written to. -/
structure Ready (output : Path) (t : FileTree) (s : Sheet) : Prop where
  rendered : ∃ text, s.text = .ok text
  writable : Writable output t s.name

theorem Ready.of_same {K : Place → Prop} {s : Sheet} (ready : Ready output t s) (same : t.SameOutside K u) :
    Ready output u s :=
  ⟨ready.rendered, same.accepts ready.writable⟩

/-- The tree with a sheet in it, if the sheet was rendered. -/
def putSheet (output : Path) (t : FileTree) (s : Sheet) : FileTree :=
  match s.text with
  | .ok text => t.put (s.name.file :: t.placeOf output) (.file (Text.encode text))
  | .error _ => t

theorem putSheet_of_ok (output : Path) (t : FileTree) {s : Sheet} {text : Text} (rendered : s.text = .ok text) :
    putSheet output t s = t.put (s.name.file :: t.placeOf output) (.file (Text.encode text)) := by
  rw [putSheet, rendered]

theorem wrote_putSheet {s : Sheet} (mem : names s.name) (ready : Ready output t s) :
    Wrote names output t (putSheet output t s) := by
  obtain ⟨text, rendered⟩ := ready.rendered
  rw [putSheet_of_ok output t rendered]
  exact wrote_put mem ready.writable (Text.encode text)

theorem on_writePage_of_ready {s : Sheet} (ready : Ready output t s) :
    Action.on (writePage output s.name.file s.text) t = (.ok (), putSheet output t s) := by
  obtain ⟨text, rendered⟩ := ready.rendered
  rw [putSheet_of_ok output t rendered, rendered]
  exact on_writePage_of_writable ready.writable text

theorem ready_of_on_writePage {s : Sheet} (ok : Action.on (writePage output s.name.file s.text) t = (.ok (), u)) :
    Ready output t s := by
  by_cases writable : Writable output t s.name
  · cases rendered : s.text with
    | error _ =>
      rw [rendered] at ok
      cases ok
    | ok text => exact ⟨⟨text, rendered⟩, writable⟩
  · obtain ⟨e, failed⟩ := on_writePage_of_not_writable writable s.text
    cases failed.symm.trans ok

/-! ### Several sheets -/

def putSheets (output : Path) (t : FileTree) (sheets : List Sheet) : FileTree := sheets.foldl (putSheet output) t

theorem wrote_putSheets {sheets : List Sheet} (mem : ∀ s ∈ sheets, names s.name)
    (ready : ∀ s ∈ sheets, Ready output t s) : Wrote names output t (putSheets output t sheets) := by
  induction sheets generalizing t with
  | nil => exact Wrote.refl names output t
  | cons s rest ih =>
    have first := wrote_putSheet (mem s List.mem_cons_self) (ready s List.mem_cons_self)
    refine first.trans (ih (fun r hr => mem r (List.mem_cons_of_mem s hr)) fun r hr => ?_)
    exact (ready r (List.mem_cons_of_mem s hr)).of_same first.same

theorem on_writeSheets_of_ready {sheets : List Sheet} (ready : ∀ s ∈ sheets, Ready output t s) :
    Action.on (writeSheets output sheets) t = (.ok (), putSheets output t sheets) := by
  induction sheets generalizing t with
  | nil => rfl
  | cons s rest ih =>
    have here := ready s List.mem_cons_self
    have first : Wrote (fun _ => True) output t _ := wrote_putSheet trivial here
    rw [writeSheets, Action.on_bind_of_ok (on_writePage_of_ready here)]
    exact ih fun r hr => (ready r (List.mem_cons_of_mem s hr)).of_same first.same

theorem ready_of_on_writeSheets {sheets : List Sheet} (ok : Action.on (writeSheets output sheets) t = (.ok (), u)) :
    ∀ s ∈ sheets, Ready output t s := by
  induction sheets generalizing t with
  | nil => exact fun s hs => absurd hs List.not_mem_nil
  | cons s rest ih =>
    obtain ⟨_, v, first, others⟩ := Action.on_bind_eq_ok ok
    have here := ready_of_on_writePage first
    have wrote : Wrote (fun _ => True) output t _ := wrote_putSheet trivial here
    rw [on_writePage_of_ready here] at first
    obtain rfl := (Prod.ext_iff.1 first).2
    intro r hr
    rcases List.mem_cons.1 hr with rfl | hr
    · exact here
    · exact (ih others r hr).of_same wrote.same.symm

theorem keeps_writeSheets {sheets : List Sheet} (mem : ∀ s ∈ sheets, names s.name) :
    Action.Keeps (Wrote names output) (writeSheets output sheets) := by
  induction sheets with
  | nil => exact Action.Keeps.pure (Wrote.refl names output) ()
  | cons s rest ih =>
    refine keeps_bind (keeps_writePage (mem s List.mem_cons_self) s.text) fun _ => ?_
    exact ih fun r hr => mem r (List.mem_cons_of_mem s hr)

theorem writeSheets_append (output : Path) (sheets others : List Sheet) :
    writeSheets output (sheets ++ others) = writeSheets output sheets >>= fun _ => writeSheets output others := by
  induction sheets with
  | nil => simp [writeSheets]
  | cons s rest ih => simp [writeSheets, ih]

/-- Where no two sheets have one name, each can be read in the end. -/
theorem readFile_putSheets {sheets : List Sheet} (distinct : (sheets.map Sheet.name).Nodup)
    (ready : ∀ s ∈ sheets, Ready output t s) {s : Sheet} (mem : s ∈ sheets) {text : Text} (rendered : s.text = .ok text) :
    (putSheets output t sheets).readFile (output.join s.name.file) = .ok (Text.encode text) := by
  induction sheets generalizing t with
  | nil => exact absurd mem List.not_mem_nil
  | cons r rest ih =>
    obtain ⟨fresh, distinctRest⟩ := List.nodup_cons.1 distinct
    have here := ready r List.mem_cons_self
    have first : Wrote (r.name = ·) output t _ := wrote_putSheet rfl here
    have readyRest : ∀ q ∈ rest, Ready output (putSheet output t r) q :=
      fun q hq => (ready q (List.mem_cons_of_mem r hq)).of_same first.same
    rcases List.mem_cons.1 mem with rfl | inRest
    · have wrote : Wrote (· ∈ rest.map Sheet.name) output _ _ :=
        wrote_putSheets (fun q hq => List.mem_map_of_mem hq) readyRest
      have read := FileTree.readFile_put here.writable (Text.encode text)
      rw [placeOf_file, ← putSheet_of_ok output t rendered] at read
      refine wrote.same.readFile ?_ read
      rintro ⟨name, later, place⟩
      rw [placeOf_file] at place
      exact fresh (PageName.file_injective (List.cons.inj place).1 ▸ later)
    · exact ih distinctRest readyRest inRest

/-- Sheets that are there already change nothing. -/
theorem putSheets_self {sheets : List Sheet}
    (written : ∀ s ∈ sheets, ∀ text, s.text = .ok text →
      t.readFile (output.join s.name.file) = .ok (Text.encode text)) :
    putSheets output t sheets = t := by
  induction sheets with
  | nil => rfl
  | cons s rest ih =>
    have same : putSheet output t s = t := by
      cases rendered : s.text with
      | error _ => rw [putSheet, rendered]
      | ok text =>
        obtain ⟨-, -, entry⟩ := FileTree.readFile_eq_ok_iff.1 (written s List.mem_cons_self text rendered)
        rw [placeOf_file] at entry
        rw [putSheet_of_ok output t rendered]
        exact FileTree.put_self entry
    rw [putSheets, List.foldl_cons, same]
    exact ih fun q mem => written q (List.mem_cons_of_mem s mem)

/-! ## Steps that write sheets -/

/-- On every tree with the inputs of `t` the step writes the sheets and gives `a`, unless a sheet cannot be written. -/
def Writes {α : Type} (output : Path) (t : FileTree) (x : Action α) (sheets : List Sheet) (a : α) : Prop :=
  ∀ u, t.SameOutside (t.placeOf output).Below u → x.on u = Action.on (writeSheets output sheets >>= fun _ => pure a) u

namespace Writes

variable {α β : Type} {x : Action α} {f : α → Action β} {sheets others : List Sheet} {a : α} {b : β}

theorem pure (output : Path) (t : FileTree) (a : α) : Writes output t (Pure.pure a) [] a := fun _ _ => rfl

theorem writePage (output : Path) (t : FileTree) (name : PageName) (content : Except Marking.Overflow Text) :
    Writes output t (writePage output name.file content) [⟨name, content⟩] () := by
  intro u _
  simp [writeSheets]

theorem bind (hx : Writes output t x sheets a) (hf : Writes output t (f a) others b) :
    Writes output t (x >>= f) (sheets ++ others) b := by
  intro u same
  rw [Action.on_bind, hx u same, writeSheets_append, bind_assoc, Action.on_bind, Action.on_bind]
  have kept : Wrote (fun _ => True) output u (Action.on (writeSheets output sheets) u).2 :=
    keeps_writeSheets (fun _ _ => trivial) u
  cases step : (writeSheets output sheets).on u with
  | mk result v =>
    rw [step] at kept
    cases result with
    | error e => rfl
    | ok _ =>
      simp only [Action.on_pure]
      refine hf v (same.trans (kept.sameOutside.mono ?_))
      rw [same.placeOf_eq]
      exact fun _ => id

theorem read {y : StateM FileTree α} (hy : ∀ u, t.SameOutside (t.placeOf output).Below u → y u = (a, u))
    (hf : Writes output t (f a) sheets b) : Writes output t (liftM y >>= f) sheets b := by
  intro u same
  rw [Action.on_bind_of_ok (a := a) (u := u) (by rw [Action.on_lift, hy u same])]
  exact hf u same

theorem map (hx : Writes output t x sheets a) (g : α → β) :
    Writes output t (x >>= fun a => Pure.pure (g a)) sheets (g a) := by
  have step := hx.bind (f := fun a => Pure.pure (g a)) (pure output t (g a))
  rwa [List.append_nil] at step

end Writes

end Writing

end Assembly

end PatternPages
