import PatternPages.Proofs.Selection

/-! The selection of spans is greedy: each span is kept or left out by what was kept before it, so a span that is left out
shuts out no other. Nothing but `withoutOverlaps` selects in this way. -/
namespace PatternPages.Marking

namespace Span

/-- The order of the spans of a set: by start, stop, kind and text. -/
def Before (a b : Span) : Prop :=
  a.start < b.start ∨ a.start = b.start ∧
    (a.stop < b.stop ∨ a.stop = b.stop ∧
      (a.kind = .token ∧ b.kind = .dummy ∨ a.kind = b.kind ∧ a.text.map Char.toNat < b.text.map Char.toNat))

/-- Both spans have the column. -/
def Share (a b : Span) (column : UInt64) : Prop :=
  (a.start ≤ column ∧ column ≤ a.stop) ∧ b.start ≤ column ∧ column ≤ b.stop

theorem before_iff (a b : Span) : a.Before b ↔ a < b := by
  have kinds : a.kind.rank < b.kind.rank ↔ a.kind = .token ∧ b.kind = .dummy := by
    cases a.kind <;> cases b.kind <;> decide
  have sameKind : a.kind.rank = b.kind.rank ↔ a.kind = b.kind :=
    ⟨SpanKind.rank_inj, congrArg SpanKind.rank⟩
  show _ ↔ a.key < b.key
  simp only [Before, key, List.cons_lt_cons_iff, UInt64.lt_iff_toNat_lt, UInt64.toNat_inj, kinds, sameKind]

theorem start_le_of_lt {a b : Span} (below : a < b) : a.start ≤ b.start := by
  rcases (before_iff a b).2 below with less | ⟨same, _⟩
  · exact UInt64.le_of_lt less
  · exact UInt64.le_of_eq same

end Span

theorem foldl_keep_prefix (kept spans : List Span) : kept <+: spans.foldl keep kept := by
  induction spans generalizing kept with
  | nil => exact List.prefix_refl kept
  | cons s spans ih =>
    refine List.IsPrefix.trans ?_ (ih (keep kept s))
    unfold keep
    split
    · exact List.prefix_refl kept
    · exact List.prefix_append kept [s]

/-- The kept spans, given those that were kept before: a span is left out just if a kept one in front of it overlaps it. -/
structure GreedyFrom (before spans kept : List Span) : Prop where
  sublist : kept.Sublist spans
  left_out_iff : ∀ s ∈ spans, s ∉ kept ↔ ∃ t ∈ before ++ kept, t < s ∧ t.overlaps s = true

namespace GreedyFrom

variable {before spans kept : List Span} {s : Span}

theorem not_mem_of_ascending (ascending : (before ++ s :: spans).Pairwise (· < ·)) : s ∉ spans := by
  intro again
  obtain ⟨-, later, -⟩ := List.pairwise_append.1 ascending
  exact LinearKey.irrefl s ((List.pairwise_cons.1 later).1 s again)

/-- Only what was kept before stands in front of the first span. -/
theorem first_iff (ascending : (before ++ s :: spans).Pairwise (· < ·)) (sublist : kept.Sublist (s :: spans)) :
    (∃ t ∈ before ++ kept, t < s ∧ t.overlaps s = true) ↔ before.any (·.overlaps s) = true := by
  obtain ⟨-, later, cross⟩ := List.pairwise_append.1 ascending
  rw [List.any_eq_true]
  constructor
  · rintro ⟨t, mem, below, overlap⟩
    rcases List.mem_append.1 mem with old | new
    · exact ⟨t, old, overlap⟩
    · rcases List.mem_cons.1 (sublist.subset new) with rfl | behind
      · exact absurd below (LinearKey.irrefl t)
      · exact absurd (LinearKey.trans below ((List.pairwise_cons.1 later).1 t behind)) (LinearKey.irrefl t)
  · rintro ⟨t, old, overlap⟩
    exact ⟨t, List.mem_append_left kept old, cross t old s List.mem_cons_self, overlap⟩

theorem cons_iff_of_overlap (ascending : (before ++ s :: spans).Pairwise (· < ·))
    (overlap : before.any (·.overlaps s) = true) :
    GreedyFrom before (s :: spans) kept ↔ GreedyFrom before spans kept := by
  have single := not_mem_of_ascending ascending
  constructor
  · intro h
    have dropped : s ∉ kept :=
      (h.left_out_iff s List.mem_cons_self).2 ((first_iff ascending h.sublist).2 overlap)
    refine ⟨?_, fun t ht => h.left_out_iff t (List.mem_cons_of_mem s ht)⟩
    rcases List.sublist_cons_iff.1 h.sublist with without | ⟨kept', rfl, -⟩
    · exact without
    · exact absurd List.mem_cons_self dropped
  · intro h
    have sublist := h.sublist.cons s
    refine ⟨sublist, fun t ht => ?_⟩
    rcases List.mem_cons.1 ht with rfl | ht
    · exact ⟨fun _ => (first_iff ascending sublist).2 overlap, fun _ mem => single (h.sublist.subset mem)⟩
    · exact h.left_out_iff t ht

theorem cons_iff_of_free (ascending : (before ++ s :: spans).Pairwise (· < ·))
    (free : before.any (·.overlaps s) = false) :
    GreedyFrom before (s :: spans) kept ↔ ∃ kept', kept = s :: kept' ∧ GreedyFrom (before ++ [s]) spans kept' := by
  have single := not_mem_of_ascending ascending
  have notFirst {rest : List Span} (sublist : rest.Sublist (s :: spans)) :
      ¬ ∃ t ∈ before ++ rest, t < s ∧ t.overlaps s = true := by
    rw [first_iff ascending sublist, free]
    exact Bool.false_ne_true
  have others {kept' : List Span} {t : Span} (ht : t ∈ spans) : t ∉ s :: kept' ↔ t ∉ kept' := by
    have other : t ≠ s := fun same => single (same ▸ ht)
    rw [List.mem_cons, not_or, and_iff_right other]
  constructor
  · intro h
    have taken : s ∈ kept := by
      refine Decidable.byContradiction fun dropped => ?_
      exact notFirst h.sublist ((h.left_out_iff s List.mem_cons_self).1 dropped)
    rcases List.sublist_cons_iff.1 h.sublist with without | ⟨kept', rfl, inner⟩
    · exact absurd (without.subset taken) single
    · refine ⟨kept', rfl, inner, fun t ht => ?_⟩
      have rule := h.left_out_iff t (List.mem_cons_of_mem s ht)
      rw [List.append_assoc, List.singleton_append]
      exact (others ht).symm.trans rule
  · rintro ⟨kept', rfl, h⟩
    have sublist := h.sublist.cons_cons s
    refine ⟨sublist, fun t ht => ?_⟩
    rcases List.mem_cons.1 ht with rfl | ht
    · exact ⟨fun dropped => absurd List.mem_cons_self dropped, fun first => absurd first (notFirst sublist)⟩
    · have rule := h.left_out_iff t ht
      rw [List.append_assoc, List.singleton_append] at rule
      exact (others ht).trans rule

/-- By induction on the spans: each is decided by what was kept before it, as the run decides it. -/
theorem iff_foldl (ascending : (before ++ spans).Pairwise (· < ·)) :
    GreedyFrom before spans kept ↔ before ++ kept = spans.foldl keep before := by
  induction spans generalizing before kept with
  | nil =>
    constructor
    · intro h
      rw [List.eq_nil_of_sublist_nil h.sublist]
      exact List.append_nil before
    · intro same
      have none : kept = [] := by simpa using same
      subst none
      exact ⟨.slnil, fun s hs => absurd hs List.not_mem_nil⟩
  | cons s spans ih =>
    rw [List.foldl_cons, keep]
    cases overlap : before.any (·.overlaps s) with
    | true =>
      have rest : (before ++ spans).Pairwise (· < ·) :=
        ascending.sublist ((List.Sublist.refl before).append (List.sublist_cons_self s spans))
      exact (cons_iff_of_overlap ascending overlap).trans (ih rest)
    | false =>
      have rest : (before ++ [s] ++ spans).Pairwise (· < ·) := by
        rwa [List.append_assoc, List.singleton_append]
      have moved (kept' : List Span) : before ++ [s] ++ kept' = before ++ s :: kept' := by
        rw [List.append_assoc, List.singleton_append]
      apply (cons_iff_of_free ascending overlap).trans
      constructor
      · rintro ⟨kept', rfl, h⟩
        exact (moved kept').symm.trans ((ih rest).1 h)
      · intro run
        obtain ⟨kept', split⟩ := foldl_keep_prefix (before ++ [s]) spans
        have first : kept = s :: kept' := List.append_cancel_left (run.trans (split.symm.trans (moved kept')))
        exact ⟨kept', first, (ih rest).2 split⟩

end GreedyFrom

/-- A sublist without overlaps, that leaves out what overlaps a kept span in front of it and nothing else. -/
structure Greedy (spans kept : List Span) : Prop where
  sublist : kept.Sublist spans
  apart : kept.Pairwise Span.Apart
  left_out_iff : ∀ s ∈ spans, s ∉ kept ↔ ∃ t ∈ kept, t.Before s ∧ t.overlaps s = true

theorem greedy_iff {spans : List Span} (ascending : spans.Pairwise (· < ·)) (kept : List Span) :
    Greedy spans kept ↔ kept = withoutOverlaps spans := by
  have run {kept : List Span} : GreedyFrom [] spans kept ↔ kept = withoutOverlaps spans :=
    GreedyFrom.iff_foldl (show ([] ++ spans).Pairwise (· < ·) from ascending)
  have inFront (s : Span) (kept : List Span) :
      (∃ t ∈ kept, t.Before s ∧ t.overlaps s = true) ↔ ∃ t ∈ [] ++ kept, t < s ∧ t.overlaps s = true := by
    simp only [Span.before_iff, List.nil_append]
  constructor
  · intro h
    exact run.1 ⟨h.sublist, fun s hs => (h.left_out_iff s hs).trans (inFront s kept)⟩
  · rintro rfl
    have rule := run.2 rfl
    exact ⟨rule.sublist, withoutOverlaps_apart spans,
      fun s hs => (rule.left_out_iff s hs).trans (inFront s _).symm⟩

section Forward

variable {spans : OrderedSet Span} (forward : ∀ s ∈ spans.keys, s.start ≤ s.stop)

include forward

theorem withoutOverlaps_in_turn :
    (withoutOverlaps spans.keys).Pairwise fun a b => a.stop < b.start := by
  have kept := withoutOverlaps_sublist spans.keys
  refine ((ascending_withoutOverlaps spans).and (withoutOverlaps_apart spans.keys)).imp_of_mem ?_
  rintro a b - hb ⟨below, separate⟩
  have starts := UInt64.le_iff_toNat_le.1 (Span.start_le_of_lt below)
  have order := UInt64.le_iff_toNat_le.1 (forward b (kept.subset hb))
  have either := (Span.apart_iff a b).1 separate
  rw [UInt64.lt_iff_toNat_lt]
  omega

/-- The start of a span that is left out is a column of the kept span that it overlaps. -/
theorem shares_of_left_out {s : Span} (mem : s ∈ spans.keys) (dropped : s ∉ withoutOverlaps spans.keys) :
    ∃ t ∈ withoutOverlaps spans.keys, t.start ≤ s.start ∧ ∃ column, t.Share s column := by
  have rule := (greedy_iff (ascending_keys spans) _).2 rfl
  obtain ⟨t, ht, before, overlap⟩ := (rule.left_out_iff s mem).1 dropped
  have starts := Span.start_le_of_lt ((Span.before_iff t s).1 before)
  simp only [Span.overlaps, Bool.and_eq_true, decide_eq_true_eq] at overlap
  exact ⟨t, ht, starts, s.start, ⟨starts, overlap.2⟩, UInt64.le_refl s.start, forward s mem⟩

end Forward

/-- The kept spans of a set, which lists its spans in order, are its one greedy selection. Where no span is reversed they stand
one behind the other, and each span that is left out shares a column with a kept one that starts no later. -/
theorem withoutOverlaps_greedy (spans : OrderedSet Span) :
    spans.keys.Pairwise Span.Before ∧
      (∀ kept, Greedy spans.keys kept ↔ kept = withoutOverlaps spans.keys) ∧
      ((∀ s ∈ spans.keys, s.start ≤ s.stop) →
        (withoutOverlaps spans.keys).Pairwise (fun a b => a.stop < b.start) ∧
        ∀ s ∈ spans.keys, s ∉ withoutOverlaps spans.keys →
          ∃ t ∈ withoutOverlaps spans.keys, t.start ≤ s.start ∧ ∃ column, t.Share s column) := by
  have ascending := ascending_keys spans
  refine ⟨ascending.imp fun below => (Span.before_iff _ _).2 below, greedy_iff ascending, ?_⟩
  intro forward
  exact ⟨withoutOverlaps_in_turn forward, fun s mem => shares_of_left_out forward mem⟩

/-- Each span overlaps the next. -/
def chainedSpans : OrderedSet Span :=
  ((OrderedMap.empty.insert ⟨3, 8, .token, "dropped".toList⟩ ()).insert ⟨6, 9, .dummy, "kept".toList⟩ ()).insert
    ⟨1, 4, .token, "kept".toList⟩ ()

theorem withoutOverlaps_greedy_chained :
    (∀ s ∈ chainedSpans.keys, s.start ≤ s.stop) ∧
      withoutOverlaps chainedSpans.keys = [⟨1, 4, .token, "kept".toList⟩, ⟨6, 9, .dummy, "kept".toList⟩] ∧
      (withoutOverlaps chainedSpans.keys).Pairwise (fun a b => a.stop < b.start) ∧
      ∀ s ∈ chainedSpans.keys, s ∉ withoutOverlaps chainedSpans.keys →
        ∃ t ∈ withoutOverlaps chainedSpans.keys, t.start ≤ s.start ∧ ∃ column, t.Share s column :=
  have forward : ∀ s ∈ chainedSpans.keys, s.start ≤ s.stop := by decide
  ⟨forward, by decide, (withoutOverlaps_greedy chainedSpans).2.2 forward⟩

end PatternPages.Marking
