import PatternPages.Proofs.TextPreservation

/-! Lines with a kept span that does not fit. The first such span is reported, at the columns it has behind the tags of the
spans before it, and the line is rendered as if it had no spans at all. -/
namespace PatternPages.Marking

section Line

variable {line : Text} {spans : OrderedSet Span}

/-- The spans in front of the first that does not fit are spliced from left to right, and all of them begin to its left. -/
theorem markSpans_of_first_misfit (d : Delimiters) {front later : List Span} {s : Span}
    (kept : withoutOverlaps spans.keys = front ++ s :: later) (fits : ∀ t ∈ front, t.Fits line.length)
    (misfit : ¬ s.Fits line.length) (room : ∀ t ∈ withoutOverlaps spans.keys, t.Room front.length) :
    Row 0 line.length front ∧
      markSpans d line spans =
        .error (.misfit
          ⟨taggedLine d line front, (s.movedBy front.length).start, (s.movedBy front.length).stop⟩) := by
  have ascending := ascending_withoutOverlaps spans
  have apart := withoutOverlaps_apart spans.keys
  rw [kept] at ascending apart room
  obtain ⟨ascendingFront, -, below⟩ := List.pairwise_append.1 ascending
  obtain ⟨apartFront, -, across⟩ := List.pairwise_append.1 apart
  have rowFront : Row 0 line.length front := row_of_ascending ascendingFront apartFront fits
  obtain ⟨row, perm, hrow, run⟩ := applySpans_of_first_misfit d apart fits misfit room
  obtain rfl : front = row := rowFront.eq_of_perm hrow perm
  have allLeft : s.tagsBefore front = front.length := by
    apply Span.tagsBefore_of_all
    intro a ha
    exact (fits a ha).start_lt (below a ha s List.mem_cons_self) (across a ha s List.mem_cons_self)
  rw [Span.moved, allLeft] at run
  exact ⟨rowFront, by rw [markSpans, kept, run]⟩

theorem markSpans_eq_error_iff (d : Delimiters)
    (room : ∀ s ∈ withoutOverlaps spans.keys, s.Room (withoutOverlaps spans.keys).length) :
    (∃ e, markSpans d line spans = .error e) ↔ ∃ s ∈ withoutOverlaps spans.keys, ¬ s.Fits line.length := by
  constructor
  · rintro ⟨e, failed⟩
    refine Decidable.byContradiction fun none => ?_
    have fits : ∀ s ∈ withoutOverlaps spans.keys, s.Fits line.length := by simpa using none
    cases failed.symm.trans (markSpans_of_room d fits room)
  · rintro ⟨s, hs, misfit⟩
    obtain ⟨e, failed⟩ := applySpans_of_misfit d (withoutOverlaps_apart spans.keys) room fun fits => misfit (fits s hs)
    exact ⟨.misfit e, failed⟩

/-! ## The line without its spans -/

theorem markedOrPlain_of_misfit {d : Delimiters} {e : SpliceError} (failed : markSpans d line spans = .error (.misfit e)) :
    markedOrPlain d line spans = .ok line := by
  rw [markedOrPlain, failed]

theorem markedOrPlain_empty (d : Delimiters) (line : Text) : markedOrPlain d line OrderedMap.empty = .ok line := by
  have nothing : markSpans d line OrderedMap.empty = .ok line := applySpans_nil d line
  rw [markedOrPlain, nothing]

theorem renderSpans_of_misfit {d : Delimiters} {e : SpliceError} (free : Delimiters.forLine line = some d)
    (failed : markSpans d line spans = .error (.misfit e)) :
    renderSpans line spans = renderSpans line OrderedMap.empty := by
  rw [renderSpans_of_some free, renderSpans_of_some free, markedOrPlain_of_misfit failed, markedOrPlain_empty]

theorem Highlighted.eq_keyword {pieces : List Piece} (h : Highlighted line [] pieces) {c : TagClass} {text : Text}
    (mem : .tagged c text ∈ pieces) : c = .keyword := by
  obtain ⟨s, hs, rfl⟩ := Piece.exists_stretch_of_tagged 0 mem
  have none := List.filter_eq_nil_iff.1 h.marks_eq s hs
  simpa using none

theorem exists_pieces_of_misfit {d : Delimiters} {e : SpliceError} (free : Delimiters.forLine line = some d)
    (failed : markSpans d line spans = .error (.misfit e)) :
    ∃ pieces, Highlighted line [] pieces ∧ renderSpans line spans = .ok (Piece.htmlLine pieces) := by
  have empty : Row 0 line.length [] := Nat.zero_le line.length
  have marked : markedOrPlain d line spans = .ok (taggedLine d line []) := by
    rw [markedOrPlain_of_misfit failed, taggedLine_nil]
  exact exists_pieces free empty marked

end Line

/-- One kept span that does not fit is enough, and nothing else is, for a line to be refused. The first of them is reported,
behind the tags of the spans before it, and the line shows no span. -/
theorem markSpans_all_or_nothing {line : Text} {marks : LineMarks} {d : Delimiters}
    (free : Delimiters.forLine line = some d) (room : ∀ s ∈ marks.spans.keys, s.Room marks.spans.size)
    (shown : marks.whole = false) :
    ((∃ e, markSpans d line marks.spans = .error e) ↔
        ∃ s ∈ withoutOverlaps marks.spans.keys, ¬ s.Fits line.length) ∧
      (∀ front s later, withoutOverlaps marks.spans.keys = front ++ s :: later →
        (∀ t ∈ front, t.Fits line.length) → ¬ s.Fits line.length →
        ∃ e, markSpans d line marks.spans = .error (.misfit e) ∧
          e.start.toNat = s.start.toNat + front.length * Delimiters.tagWidth ∧
          e.stop.toNat = s.stop.toNat + front.length * Delimiters.tagWidth ∧
          ∃ pieces, e.line = Piece.delimitedLine d pieces ∧ Piece.line pieces = line ∧
            Piece.stretches pieces = front.map Span.stretch) ∧
      ∀ e, markSpans d line marks.spans = .error (.misfit e) →
        renderLine line (some marks) = renderLine line (some LineMarks.none) ∧
          ∃ pieces, renderLine line (some marks) =
              .ok ("<pre><mark>".toList ++ Piece.htmlLine pieces ++ "</mark></pre>\n".toList) ∧
            Piece.line pieces = line ∧ ∀ c text, .tagged c text ∈ pieces → c = .keyword := by
  have roomKept := room_withoutOverlaps room
  refine ⟨markSpans_eq_error_iff d roomKept, ?_, ?_⟩
  · intro front s later kept fits misfit
    have count : front.length ≤ (withoutOverlaps marks.spans.keys).length := by
      rw [kept, List.length_append]
      exact Nat.le_add_right _ _
    have roomFront : ∀ t ∈ withoutOverlaps marks.spans.keys, t.Room front.length :=
      fun t ht => (roomKept t ht).mono count
    have member : s ∈ withoutOverlaps marks.spans.keys := by simp [kept]
    obtain ⟨row, failed⟩ := markSpans_of_first_misfit d kept fits misfit roomFront
    obtain ⟨start, stop⟩ := Span.movedBy_toNat (roomFront s member)
    exact ⟨_, failed, start, stop, cut line front, rfl, line_cut row, Piece.stretches_cut row⟩
  · intro e failed
    obtain ⟨pieces, h, html⟩ := exists_pieces_of_misfit free failed
    refine ⟨?_, pieces, renderLine_of_inside shown html, h.line_eq, fun c text mem => h.eq_keyword mem⟩
    rw [renderLine_of_spans line shown, renderSpans_of_misfit free failed, renderLine_of_spans line rfl]
    rfl

/-- The second span ends before it begins. It overlaps nothing and is kept. -/
def shortMarks : LineMarks :=
  ((LineMarks.none.add (.span ⟨1, 1, .token, ['s']⟩)).add (.span ⟨3, 2, .dummy, []⟩)).add
    (.span ⟨4, 5, .token, "rt".toList⟩)

theorem markSpans_all_or_nothing_short :
    (∀ s ∈ shortMarks.spans.keys, s.Room shortMarks.spans.size) ∧ shortMarks.whole = false ∧
      ∃ d, Delimiters.forLine "short".toList = some d ∧
        (∃ e, markSpans d "short".toList shortMarks.spans = .error (.misfit e) ∧ e.start.toNat = 28 ∧ e.stop.toNat = 27 ∧
          ∃ pieces, e.line = Piece.delimitedLine d pieces ∧ Piece.line pieces = "short".toList ∧
            Piece.stretches pieces = [⟨.token, 1, 1⟩]) ∧
        renderLine "short".toList (some shortMarks) = renderLine "short".toList (some LineMarks.none) := by
  have room : ∀ s ∈ shortMarks.spans.keys, s.Room shortMarks.spans.size := by decide
  have free : (Delimiters.forLine "short".toList).isSome := by decide +kernel
  obtain ⟨d, free⟩ := Option.isSome_iff_exists.1 free
  obtain ⟨-, first, fallback⟩ := markSpans_all_or_nothing free room rfl
  obtain ⟨e, failed, start, stop, reported⟩ := first [⟨1, 1, .token, ['s']⟩] ⟨3, 2, .dummy, []⟩
    [⟨4, 5, .token, "rt".toList⟩] (by decide) (by decide) (by decide)
  exact ⟨room, rfl, d, free, ⟨e, failed, start, stop, reported⟩, (fallback e failed).1⟩

end PatternPages.Marking
