import PatternPages.Proofs.TextPreservation

/-! A line with spans, rendered: a flat row of pieces in which the spans stand at their own columns. -/
namespace PatternPages.Marking

namespace Piece

variable {pieces : List Piece}

/-- The pieces that show something. -/
def compact (pieces : List Piece) : List Piece := pieces.filter fun p => !p.text.isEmpty

theorem compact_cons_of_empty {p : Piece} (rest : List Piece) (h : p.text = []) :
    compact (p :: rest) = compact rest :=
  List.filter_cons_of_neg (by simp [h])

theorem compact_cons_of_text {p : Piece} (rest : List Piece) (h : p.text ≠ []) :
    compact (p :: rest) = p :: compact rest :=
  List.filter_cons_of_pos (by simpa using h)

/-- What no empty piece adds to is read off the pieces that show something. -/
theorem flatMap_compact {f : Piece → Text} (h : ∀ p ∈ pieces, p.text = [] → f p = []) :
    (compact pieces).flatMap f = pieces.flatMap f := by
  induction pieces with
  | nil => rfl
  | cons p rest ih =>
    have tail := ih fun q hq => h q (List.mem_cons_of_mem p hq)
    by_cases empty : p.text = []
    · rw [compact_cons_of_empty rest empty, tail, List.flatMap_cons, h p List.mem_cons_self empty, List.nil_append]
    · rw [compact_cons_of_text rest empty, List.flatMap_cons, tail, List.flatMap_cons]

theorem line_compact : line (compact pieces) = line pieces :=
  flatMap_compact fun _ _ empty => empty

section Compact

variable (tagsShow : ∀ c text, .tagged c text ∈ pieces → text ≠ [])

include tagsShow

theorem htmlLine_compact : htmlLine (compact pieces) = htmlLine pieces := by
  apply flatMap_compact
  intro p hp empty
  cases p with
  | plain text =>
    obtain rfl : text = [] := empty
    rfl
  | tagged c text => exact absurd empty (tagsShow c text hp)

theorem stretchesFrom_compact (column : Nat) :
    stretchesFrom column (compact pieces) = stretchesFrom column pieces := by
  induction pieces generalizing column with
  | nil => rfl
  | cons p rest ih =>
    have tail := ih fun c text h => tagsShow c text (List.mem_cons_of_mem p h)
    by_cases empty : p.text = []
    · rw [compact_cons_of_empty rest empty, tail]
      cases p with
      | plain text =>
        obtain rfl : text = [] := empty
        rfl
      | tagged c text => exact absurd empty (tagsShow c text List.mem_cons_self)
    · rw [compact_cons_of_text rest empty]
      cases p with
      | plain text => exact tail _
      | tagged c text => exact congrArg (List.cons _) (tail _)

end Compact

end Piece

/-- Where the kept spans fit they are tagged at their columns, once each, and only keywords are tagged besides. -/
theorem renderLine_flat_pieces {line : Text} {marks : LineMarks} (small : 26 * line.length < 2 ^ 64)
    (shown : marks.whole = false) (fits : ∀ s ∈ withoutOverlaps marks.spans.keys, s.Fits line.length)
    (free : (Delimiters.forLine line).isSome) :
    ∃ pieces : List Piece,
      renderLine line (some marks) =
        .ok ("<pre><mark>".toList ++ Piece.htmlLine pieces ++ "</mark></pre>\n".toList) ∧
      Piece.line pieces = line ∧
      (∀ p ∈ pieces, p.text ≠ []) ∧
      (∀ c text, .tagged c text ∈ pieces → c = .token ∨ c = .dummy ∨ c = .keyword) ∧
      (Piece.stretches pieces).Pairwise (fun a b => a.last < b.first) ∧
      (Piece.stretches pieces).filter (·.tagClass ≠ .keyword) =
        (withoutOverlaps marks.spans.keys).map Span.stretch ∧
      ∀ text, .tagged .keyword text ∈ pieces → Text.trim text ∈ keywords := by
  obtain ⟨d, free⟩ := Option.isSome_iff_exists.1 free
  obtain ⟨pieces, h, html⟩ := exists_pieces_of_fits small free fits
  have stretches : Piece.stretches (Piece.compact pieces) = Piece.stretches pieces :=
    Piece.stretchesFrom_compact h.nonempty 0
  refine ⟨Piece.compact pieces, ?_, ?_, ?_, ?_, ?_, ?_, ?_⟩
  · rw [renderLine_of_inside shown html, Piece.htmlLine_compact h.nonempty]
  · rw [Piece.line_compact, h.line_eq]
  · intro p hp
    simpa using (List.mem_filter.1 hp).2
  · intro c text mem
    have notComment := h.classes c text (List.mem_filter.1 mem).1
    cases c with
    | token => exact .inl rfl
    | dummy => exact .inr (.inl rfl)
    | keyword => exact .inr (.inr rfl)
    | comment => exact absurd rfl notComment
  · exact Piece.stretchesFrom_pairwise 0 _
  · rw [stretches, h.marks_eq]
  · intro text mem
    exact h.keyword text (List.mem_filter.1 mem).1

def returnLine : Text := "    return value + in".toList

/-- The second span overlaps the first and is not kept. -/
def returnMarks : LineMarks :=
  ((LineMarks.none.add (.span ⟨12, 16, .token, "value".toList⟩)).add (.span ⟨14, 18, .dummy, []⟩)).add
    (.span ⟨20, 21, .dummy, "in".toList⟩)

theorem renderLine_flat_pieces_return :
    26 * returnLine.length < 2 ^ 64 ∧ returnMarks.whole = false ∧
      (∀ s ∈ withoutOverlaps returnMarks.spans.keys, s.Fits returnLine.length) ∧
      (Delimiters.forLine returnLine).isSome ∧
      (withoutOverlaps returnMarks.spans.keys).map Span.stretch = [⟨.token, 12, 16⟩, ⟨.dummy, 20, 21⟩] ∧
      ∃ pieces : List Piece,
        renderLine returnLine (some returnMarks) =
          .ok ("<pre><mark>".toList ++ Piece.htmlLine pieces ++ "</mark></pre>\n".toList) ∧
        Piece.line pieces = returnLine ∧
        (∀ p ∈ pieces, p.text ≠ []) ∧
        (∀ c text, .tagged c text ∈ pieces → c = .token ∨ c = .dummy ∨ c = .keyword) ∧
        (Piece.stretches pieces).Pairwise (fun a b => a.last < b.first) ∧
        (Piece.stretches pieces).filter (·.tagClass ≠ .keyword) =
          (withoutOverlaps returnMarks.spans.keys).map Span.stretch ∧
        ∀ text, .tagged .keyword text ∈ pieces → Text.trim text ∈ keywords :=
  ⟨by decide, by decide, by decide, by decide +kernel, by decide,
    renderLine_flat_pieces (by decide) (by decide) (by decide) (by decide +kernel)⟩

end PatternPages.Marking
