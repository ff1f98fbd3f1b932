import PatternPages.Proofs.Selection

/-! The order of the queue. Spans that do not overlap are spliced with the same result in any order: the tags of a span that is
already in the line move those to its right and leave those to its left, and make no room for a span that does not fit. -/
namespace PatternPages.Marking

variable (d : Delimiters) {line : Text} {queue queue' : List Span}

theorem applySpans_eq_ok_iff (apart : queue.Pairwise Span.Apart) (room : ∀ s ∈ queue, s.Room queue.length) :
    (∃ marked, applySpans d line queue = .ok marked) ↔ ∀ s ∈ queue, s.Fits line.length := by
  constructor
  · rintro ⟨marked, ok⟩
    refine Decidable.byContradiction fun misfit => ?_
    obtain ⟨e, failed⟩ := applySpans_of_misfit d apart room misfit
    cases ok.symm.trans failed
  · intro fits
    obtain ⟨row, -, -, run⟩ := applySpans_of_fits d apart fits room
    exact ⟨_, run⟩

/-- Where all spans fit, both orders leave the line that is cut at the one row of these spans. -/
theorem applySpans_eq_of_perm (perm : queue.Perm queue') (apart : queue.Pairwise Span.Apart)
    (room : ∀ s ∈ queue, s.Room queue.length) (fits : ∀ s ∈ queue, s.Fits line.length) :
    ∃ row, queue.Perm row ∧ Row 0 line.length row ∧
      applySpans d line queue = .ok (taggedLine d line row) ∧ applySpans d line queue' = .ok (taggedLine d line row) := by
  have apart' : queue'.Pairwise Span.Apart := (perm.pairwise_iff Span.Apart.symm).1 apart
  have fits' : ∀ s ∈ queue', s.Fits line.length := fun s hs => fits s (perm.mem_iff.2 hs)
  have room' : ∀ s ∈ queue', s.Room queue'.length := fun s hs => perm.length_eq ▸ room s (perm.mem_iff.2 hs)
  obtain ⟨row, sorted, hrow, run⟩ := applySpans_of_fits d apart fits room
  obtain ⟨row', sorted', hrow', run'⟩ := applySpans_of_fits d apart' fits' room'
  obtain rfl : row' = row := hrow'.eq_of_perm hrow (sorted'.symm.trans (perm.symm.trans sorted))
  exact ⟨row', sorted, hrow, run, run'⟩

/-- Two orders of spans that do not overlap are both refused, or give the same line; and no order is refused where every
span fits the line. -/
theorem applySpans_any_order (perm : queue.Perm queue') (apart : queue.Pairwise Span.Apart)
    (room : ∀ s ∈ queue, s.Room queue.length) :
    (((∃ e, applySpans d line queue = .error (.misfit e)) ∧ ∃ e, applySpans d line queue' = .error (.misfit e)) ∨
      ∃ marked, applySpans d line queue = .ok marked ∧ applySpans d line queue' = .ok marked) ∧
    ((∃ marked, applySpans d line queue = .ok marked) ↔ ∀ s ∈ queue, s.Fits line.length) ∧
    ((∃ marked, applySpans d line queue' = .ok marked) ↔ ∀ s ∈ queue, s.Fits line.length) := by
  have apart' : queue'.Pairwise Span.Apart := (perm.pairwise_iff Span.Apart.symm).1 apart
  have room' : ∀ s ∈ queue', s.Room queue'.length := fun s hs => perm.length_eq ▸ room s (perm.mem_iff.2 hs)
  have fits_iff : (∀ s ∈ queue', s.Fits line.length) ↔ ∀ s ∈ queue, s.Fits line.length := by
    simp only [perm.mem_iff]
  refine ⟨?_, applySpans_eq_ok_iff d apart room, (applySpans_eq_ok_iff d apart' room').trans fits_iff⟩
  by_cases fits : ∀ s ∈ queue, s.Fits line.length
  · obtain ⟨row, -, -, run, run'⟩ := applySpans_eq_of_perm d perm apart room fits
    exact .inr ⟨_, run, run'⟩
  · exact .inl ⟨applySpans_of_misfit d apart room fits,
      applySpans_of_misfit d apart' room' fun fits' => fits (fits_iff.1 fits')⟩

def sumLine : Text := "result = value + offset".toList

def sumSpans : List Span :=
  [⟨1, 6, .token, "result".toList⟩, ⟨10, 14, .token, "value".toList⟩, ⟨18, 23, .dummy, "offset".toList⟩]

/-- The middle one is spliced first and the left one last. -/
def sumQueue : List Span :=
  [⟨10, 14, .token, "value".toList⟩, ⟨18, 23, .dummy, "offset".toList⟩, ⟨1, 6, .token, "result".toList⟩]

theorem applySpans_any_order_sum :
    sumSpans.Perm sumQueue ∧ sumSpans.Pairwise Span.Apart ∧ (∀ s ∈ sumSpans, s.Room sumSpans.length) ∧
      ∃ d, Delimiters.forLine sumLine = some d ∧
        ∃ marked, applySpans d sumLine sumSpans = .ok marked ∧ applySpans d sumLine sumQueue = .ok marked := by
  have perm : sumSpans.Perm sumQueue := by decide
  have apart : sumSpans.Pairwise Span.Apart := by unfold Span.Apart; decide
  have room : ∀ s ∈ sumSpans, s.Room sumSpans.length := by decide
  have free : (Delimiters.forLine sumLine).isSome := by decide +kernel
  obtain ⟨d, free⟩ := Option.isSome_iff_exists.1 free
  obtain ⟨alike, passes, -⟩ := @applySpans_any_order d sumLine sumSpans sumQueue perm apart room
  obtain ⟨marked, ok⟩ := passes.2 (by decide)
  refine ⟨perm, apart, room, d, free, ?_⟩
  rcases alike with ⟨⟨e, failed⟩, -⟩ | same
  · cases ok.symm.trans failed
  · exact same

end PatternPages.Marking
