import PatternPages.Location
import PatternPages.Proofs.Entries

/-! The marks that an index holds. An insertion adds its own mark and keeps the others, so the index of a match holds
what its nodes contribute. -/
namespace PatternPages

open Marking (Mark LineMarks Index)

namespace Marking

def LineMarks.Holds (marks : LineMarks) : Mark → Prop
  | .wholeLine => marks.whole = true
  | .span s => s ∈ marks.spans.keys

theorem LineMarks.not_holds_none (mark : Mark) : ¬ LineMarks.none.Holds mark := by
  cases mark with
  | wholeLine => exact Bool.false_ne_true
  | span s => exact List.not_mem_nil

theorem LineMarks.holds_add (marks : LineMarks) (new mark : Mark) :
    (marks.add new).Holds mark ↔ mark = new ∨ marks.Holds mark := by
  cases new with
  | wholeLine => cases mark <;> simp [add, Holds]
  | span s =>
    cases mark with
    | wholeLine => simp [add, Holds]
    | span t =>
      have keys := OrderedMap.mem_keys_insert marks.spans t s ()
      simpa [add, Holds] using keys

theorem LineMarks.eq_of_holds {a b : LineMarks} (same : ∀ mark, a.Holds mark ↔ b.Holds mark) : a = b := by
  have whole : a.whole = b.whole := Bool.eq_iff_iff.2 (same .wholeLine)
  have spans : a.spans = b.spans := OrderedMap.eq_of_mem_keys fun s => same (.span s)
  cases a
  cases b
  cases whole
  cases spans
  rfl

namespace Index

/-- The mark is on the line. -/
def Holds (index : Index) (line : Nat) (mark : Mark) : Prop := ∃ marks, index.get? line = some marks ∧ marks.Holds mark

theorem get?_insert (index : Index) (k line : Nat) (new : Mark) :
    (index.insert line new).get? k =
      if k = line then some (((index.get? line).getD LineMarks.none).add new) else index.get? k :=
  OrderedMap.get?_update index line k _

theorem not_holds_empty (line : Nat) (mark : Mark) : ¬ Holds OrderedMap.empty line mark := by
  rintro ⟨marks, found, -⟩
  cases found

theorem holds_getD (index : Index) (line : Nat) (mark : Mark) :
    ((index.get? line).getD LineMarks.none).Holds mark ↔ index.Holds line mark := by
  unfold Holds
  cases index.get? line with
  | none => simp [LineMarks.not_holds_none]
  | some marks => simp

theorem holds_insert (index : Index) (k line : Nat) (new mark : Mark) :
    (index.insert line new).Holds k mark ↔ (k = line ∧ mark = new) ∨ index.Holds k mark := by
  by_cases same : k = line
  · subst same
    have sum := LineMarks.holds_add ((index.get? k).getD LineMarks.none) new mark
    rw [holds_getD] at sum
    simpa [Holds, get?_insert] using sum
  · simp [Holds, get?_insert, same]

theorem holds_foldl_insert (entries : List (Nat × Mark)) (index : Index) (line : Nat) (mark : Mark) :
    (entries.foldl (fun index entry => index.insert entry.1 entry.2) index).Holds line mark ↔
      (line, mark) ∈ entries ∨ index.Holds line mark := by
  induction entries generalizing index with
  | nil => simp
  | cons entry rest ih =>
    rw [List.foldl_cons, ih, holds_insert, List.mem_cons, Prod.ext_iff, or_left_comm, or_assoc]

/-- A line that is in the index has a mark. -/
def Marked (index : Index) : Prop := ∀ line marks, index.get? line = some marks → ∃ mark, marks.Holds mark

theorem Marked.isSome_iff {index : Index} (h : index.Marked) (line : Nat) :
    (index.get? line).isSome ↔ ∃ mark, index.Holds line mark := by
  constructor
  · intro there
    obtain ⟨marks, found⟩ := Option.isSome_iff_exists.1 there
    obtain ⟨mark, holds⟩ := h line marks found
    exact ⟨mark, marks, found, holds⟩
  · rintro ⟨mark, marks, found, -⟩
    rw [found]
    rfl

/-- An index is determined by the marks it holds. -/
theorem Marked.eq_of_holds {a b : Index} (ha : a.Marked) (hb : b.Marked)
    (same : ∀ line mark, a.Holds line mark ↔ b.Holds line mark) : a = b := by
  apply OrderedMap.ext
  intro line
  have there : (a.get? line).isSome ↔ (b.get? line).isSome := by
    rw [ha.isSome_iff, hb.isSome_iff]
    exact exists_congr (same line)
  cases foundA : a.get? line with
  | none =>
    have absent : ¬ (b.get? line).isSome := fun found => by simpa [foundA] using there.2 found
    exact (Option.not_isSome_iff_eq_none.1 absent).symm
  | some marksA =>
    obtain ⟨marksB, foundB⟩ := Option.isSome_iff_exists.1 (there.1 (by rw [foundA]; rfl))
    have marks : marksA = marksB := LineMarks.eq_of_holds fun mark => by
      simpa [Holds, foundA, foundB] using same line mark
    rw [foundB, marks]

theorem Marked.insert {index : Index} (h : index.Marked) (line : Nat) (new : Mark) : (index.insert line new).Marked := by
  intro k marks found
  rw [get?_insert] at found
  by_cases same : k = line
  · rw [if_pos same] at found
    cases found
    exact ⟨new, (LineMarks.holds_add _ new new).2 (.inl rfl)⟩
  · rw [if_neg same] at found
    exact h k marks found

theorem Marked.foldl_insert {entries : List (Nat × Mark)} {index : Index} (h : index.Marked) :
    (entries.foldl (fun index entry => index.insert entry.1 entry.2) index).Marked := by
  induction entries generalizing index with
  | nil => exact h
  | cons entry rest ih => exact ih (h.insert entry.1 entry.2)

end Index

end Marking

namespace Site

variable (site : Site)

theorem holds_locateNode (index : Index) (id line : Nat) (mark : Mark) :
    (site.locateNode index id).Holds line mark ↔ (line, mark) ∈ site.contribution id ∨ index.Holds line mark :=
  Index.holds_foldl_insert (site.contribution id) index line mark

theorem holds_foldl_locateNode (ids : List Nat) (index : Index) (line : Nat) (mark : Mark) :
    (ids.foldl site.locateNode index).Holds line mark ↔
      (∃ id ∈ ids, (line, mark) ∈ site.contribution id) ∨ index.Holds line mark := by
  induction ids generalizing index with
  | nil => simp
  | cons id rest ih =>
    simp only [List.foldl_cons, ih, holds_locateNode, List.mem_cons, exists_eq_or_imp]
    rw [or_left_comm, or_assoc]

theorem holds_locateNodes (ids : List Nat) (line : Nat) (mark : Mark) :
    (site.locateNodes ids).Holds line mark ↔ ∃ id ∈ ids, (line, mark) ∈ site.contribution id := by
  unfold locateNodes
  rw [holds_foldl_locateNode]
  simp [Index.not_holds_empty]

theorem marked_locateNodes (ids : List Nat) : (site.locateNodes ids).Marked := by
  have run : ∀ index : Index, index.Marked → (ids.foldl site.locateNode index).Marked := by
    induction ids with
    | nil => exact fun _ h => h
    | cons id rest ih => exact fun index h => ih (site.locateNode index id) h.foldl_insert
  apply run
  intro line marks found
  cases found

end Site

end PatternPages
