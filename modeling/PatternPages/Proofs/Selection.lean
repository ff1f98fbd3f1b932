import PatternPages.Proofs.Splicing

/-! The spans that `withoutOverlaps` keeps: a sublist without overlaps. Where they all fit they lie in a row, and splicing
them tags exactly their columns. -/
namespace PatternPages.Marking

theorem foldl_keep_sublist (kept spans : List Span) : (spans.foldl keep kept).Sublist (kept ++ spans) := by
  induction spans generalizing kept with
  | nil => simp
  | cons s spans ih =>
    rw [List.foldl_cons]
    apply (ih (keep kept s)).trans
    unfold keep
    split
    · exact (List.Sublist.refl kept).append (List.sublist_cons_self s spans)
    · simp

theorem withoutOverlaps_sublist (spans : List Span) : (withoutOverlaps spans).Sublist spans :=
  foldl_keep_sublist [] spans

theorem foldl_keep_apart {kept : List Span} (spans : List Span) (h : kept.Pairwise Span.Apart) :
    (spans.foldl keep kept).Pairwise Span.Apart := by
  induction spans generalizing kept with
  | nil => exact h
  | cons s spans ih =>
    apply ih
    unfold keep
    split
    case isTrue => exact h
    case isFalse free =>
      refine List.pairwise_append.2 ⟨h, List.pairwise_singleton _ _, ?_⟩
      intro a ha b hb
      rw [List.mem_singleton.1 hb]
      simp only [List.any_eq_true, not_exists, not_and, Bool.not_eq_true] at free
      exact free a ha

theorem withoutOverlaps_apart (spans : List Span) : (withoutOverlaps spans).Pairwise Span.Apart :=
  foldl_keep_apart spans .nil

/-! ## Rows -/

theorem Row.of_pairwise {column last : Nat} {spans : List Span} (le : column ≤ last)
    (fits : ∀ s ∈ spans, column < s.start.toNat ∧ s.Fits last)
    (order : spans.Pairwise fun a b => a.stop.toNat < b.start.toNat) : Row column last spans := by
  induction spans generalizing column with
  | nil => exact le
  | cons s rest ih =>
    obtain ⟨first, later⟩ := List.pairwise_cons.1 order
    obtain ⟨below, _, inner, reach⟩ := fits s List.mem_cons_self
    refine ⟨below, inner, ih reach ?_ later⟩
    intro t ht
    exact ⟨first t ht, (fits t (List.mem_cons_of_mem s ht)).2⟩

theorem Row.pairwise {column last : Nat} {spans : List Span} (h : Row column last spans) :
    spans.Pairwise fun a b => a.stop.toNat < b.start.toNat := by
  induction spans generalizing column with
  | nil => exact .nil
  | cons s rest ih =>
    obtain ⟨_, _, behind⟩ := h
    exact .cons (fun t ht => (behind.fits t ht).1) (ih behind)

theorem Row.eq_of_perm {column last : Nat} {a b : List Span} (ha : Row column last a) (hb : Row column last b)
    (perm : a.Perm b) : a = b := by
  refine perm.eq_of_pairwise ?_ ha.pairwise hb.pairwise
  intro s t hs ht before after
  have fitsS := (ha.fits s hs).2
  have fitsT := (hb.fits t ht).2
  simp only [Span.Fits] at fitsS fitsT
  omega

/-- Each span of a row has a column of its own. -/
theorem Row.length_le {column last : Nat} {spans : List Span} (h : Row column last spans) :
    column + spans.length ≤ last := by
  induction spans generalizing column with
  | nil => exact h
  | cons s rest ih =>
    obtain ⟨below, order, behind⟩ := h
    have tail := ih behind
    rw [List.length_cons]
    omega

/-- A span that fits begins to the left of any that follows it in the order and does not overlap it. -/
theorem Span.Fits.start_lt {a b : Span} {length : Nat} (fits : a.Fits length) (below : a < b) (apart : a.Apart b) :
    a.start.toNat < b.start.toNat := by
  have key : a.key < b.key := below
  simp only [Span.key, List.cons_lt_cons_iff] at key
  have either := (Span.apart_iff a b).1 apart
  simp only [Span.Fits] at fits
  omega

theorem row_of_ascending {last : Nat} {spans : List Span} (ascending : spans.Pairwise (· < ·))
    (apart : spans.Pairwise Span.Apart) (fits : ∀ s ∈ spans, s.Fits last) : Row 0 last spans := by
  refine Row.of_pairwise (Nat.zero_le _) (fun s hs => ⟨(fits s hs).1, fits s hs⟩) ?_
  refine (ascending.and apart).imp_of_mem ?_
  rintro a b ha hb ⟨below, separate⟩
  have start := (fits a ha).start_lt below separate
  have fitsB := fits b hb
  have either := (Span.apart_iff a b).1 separate
  simp only [Span.Fits] at fitsB
  omega

theorem ascending_keys (spans : OrderedSet Span) : spans.keys.Pairwise (· < ·) :=
  List.pairwise_map.2 spans.ascending

theorem ascending_withoutOverlaps (spans : OrderedSet Span) : (withoutOverlaps spans.keys).Pairwise (· < ·) :=
  (ascending_keys spans).sublist (withoutOverlaps_sublist spans.keys)

section Kept

variable {line : Text} {spans : OrderedSet Span}

theorem row_withoutOverlaps (fits : ∀ s ∈ withoutOverlaps spans.keys, s.Fits line.length) :
    Row 0 line.length (withoutOverlaps spans.keys) :=
  row_of_ascending (ascending_withoutOverlaps spans) (withoutOverlaps_apart spans.keys) fits

theorem length_withoutOverlaps_le (fits : ∀ s ∈ withoutOverlaps spans.keys, s.Fits line.length) :
    (withoutOverlaps spans.keys).length ≤ line.length := by
  simpa using (row_withoutOverlaps fits).length_le

/-- The kept spans are no more than the spans, so fewer tags move them. -/
theorem room_withoutOverlaps (room : ∀ s ∈ spans.keys, s.Room spans.size) :
    ∀ s ∈ withoutOverlaps spans.keys, s.Room (withoutOverlaps spans.keys).length := by
  have kept := withoutOverlaps_sublist spans.keys
  have count : (withoutOverlaps spans.keys).length ≤ spans.size := by
    have le := kept.length_le
    rwa [OrderedMap.keys, List.length_map] at le
  exact fun s hs => (room s (kept.subset hs)).mono count

theorem markSpans_of_room (d : Delimiters) (fits : ∀ s ∈ withoutOverlaps spans.keys, s.Fits line.length)
    (room : ∀ s ∈ withoutOverlaps spans.keys, s.Room (withoutOverlaps spans.keys).length) :
    markSpans d line spans = .ok (taggedLine d line (withoutOverlaps spans.keys)) := by
  obtain ⟨row, perm, hrow, run⟩ := applySpans_of_fits d (withoutOverlaps_apart spans.keys) fits room
  rw [(row_withoutOverlaps fits).eq_of_perm hrow perm]
  exact run

end Kept

/-- Where even a line with every character tagged is a 64-bit word long, no tag pushes a span out of the words. -/
theorem Span.Fits.room {s : Span} {length count : Nat} (fits : s.Fits length) (small : 26 * length < 2 ^ 64)
    (le : count ≤ length) : s.Room count := by
  obtain ⟨_, order, reach⟩ := fits
  simp only [Span.Room, Delimiters.tagWidth]
  omega

theorem markSpans_of_fits (d : Delimiters) {line : Text} {spans : OrderedSet Span}
    (small : 26 * line.length < 2 ^ 64) (fits : ∀ s ∈ withoutOverlaps spans.keys, s.Fits line.length) :
    markSpans d line spans = .ok (taggedLine d line (withoutOverlaps spans.keys)) :=
  markSpans_of_room d fits fun s hs => (fits s hs).room small (length_withoutOverlaps_le fits)

end PatternPages.Marking
