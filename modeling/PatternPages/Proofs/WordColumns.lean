import PatternPages.Proofs.Misfits

/-! When the columns of a waiting span leave the 64-bit words. A span that waits is moved before it is looked at, so a column
near the end of the words overflows where the span should be refused. That happens exactly where a kept span has no room for
the tags of the spans in front of the first that does not fit. -/
namespace PatternPages.Marking

/-- A span that fits begins to the left of those behind it. -/
def FromLeft (length : Nat) (queue : List Span) : Prop :=
  queue.Pairwise fun a b => a.Fits length → a.start.toNat < b.start.toNat

theorem fromLeft_withoutOverlaps (length : Nat) (spans : OrderedSet Span) :
    FromLeft length (withoutOverlaps spans.keys) := by
  refine ((ascending_withoutOverlaps spans).and (withoutOverlaps_apart spans.keys)).imp ?_
  rintro a b ⟨below, apart⟩ fits
  exact fits.start_lt below apart

theorem Span.moved_of_all {spliced : List Span} {t : Span} (left : ∀ a ∈ spliced, a.start.toNat < t.start.toNat)
    (room : t.Room spliced.length) :
    (t.moved spliced).start.toNat = t.start.toNat + spliced.length * Delimiters.tagWidth ∧
      (t.moved spliced).stop.toNat = t.stop.toNat + spliced.length * Delimiters.tagWidth := by
  rw [moved, tagsBefore_of_all left]
  exact movedBy_toNat room

/-- A sum that is a word leaves room for one more tag. -/
theorem Span.Room.succ {spliced queue : List Span} {s t : Span} (ht : t ∈ queue) (before : s.start.toNat < t.start.toNat)
    (leftS : ∀ a ∈ spliced, a.start.toNat < s.start.toNat) (roomS : s.Room spliced.length)
    (room : t.Room spliced.length)
    (sums : ∀ sum ∈ shiftSums (s.moved spliced) (queue.map (moved spliced)), sum < 2 ^ 64) :
    t.Room (spliced.length + 1) := by
  have leftT : ∀ a ∈ spliced, a.start.toNat < t.start.toNat := fun a ha => Nat.lt_trans (leftS a ha) before
  obtain ⟨start, stop⟩ := moved_of_all leftT room
  have startS := (moved_of_all leftS roomS).1
  have waits : t.moved spliced ∈ queue.map (moved spliced) := List.mem_map_of_mem ht
  have behind : (s.moved spliced).start < (t.moved spliced).start := by
    rw [UInt64.lt_iff_toNat_lt]
    omega
  have sumStart := sums _ (mem_shiftSums.2 ⟨_, waits, behind, .inl rfl⟩)
  have sumStop := sums _ (mem_shiftSums.2 ⟨_, waits, behind, .inr rfl⟩)
  rw [Room, Nat.add_mul, Nat.one_mul]
  omega

/-- The induction is on the queue: each splice that succeeds adds a tag's width to every span that waits. -/
theorem room_of_additions_moved (d : Delimiters) {line : Text} {spliced queue : List Span}
    (row : Row 0 line.length spliced) (apart : (queue ++ spliced).Pairwise Span.Apart)
    (order : FromLeft line.length queue) (left : ∀ a ∈ spliced, ∀ t ∈ queue, a.start.toNat < t.start.toNat)
    (room : ∀ t ∈ queue, t.Room spliced.length)
    (sums : ∀ sum ∈ additions d (taggedLine d line spliced) (queue.map (Span.moved spliced)), sum < 2 ^ 64) :
    ∀ t ∈ queue.dropWhile (·.Fits line.length),
      t.Room (spliced.length + (queue.takeWhile (·.Fits line.length)).length) := by
  induction queue generalizing spliced with
  | nil => intro t ht; cases ht
  | cons s queue ih =>
    by_cases fits : s.Fits line.length
    · have apartSpliced : ∀ a ∈ spliced, a.Apart s := fun a ha =>
        ((List.pairwise_cons.1 apart).1 a (List.mem_append_right queue ha)).symm
      obtain ⟨before, later⟩ := List.pairwise_cons.1 order
      have roomS := room s List.mem_cons_self
      have leftS : ∀ a ∈ spliced, a.start.toNat < s.start.toNat := fun a ha => left a ha s List.mem_cons_self
      obtain ⟨row₁, perm₁, hrow₁, step⟩ := splice_moved (d := d) row apartSpliced roomS fits
      have perm : (s :: queue ++ spliced).Perm (queue ++ row₁) := perm_pushed perm₁
      have count : row₁.length = spliced.length + 1 := perm₁.length_eq.symm
      have sumsNow : ∀ sum ∈ shiftSums (s.moved spliced) (queue.map (Span.moved spliced)), sum < 2 ^ 64 :=
        fun sum hsum => sums sum (shiftSums_subset_additions step hsum)
      have roomNext : ∀ t ∈ queue, t.Room (spliced.length + 1) := fun t ht =>
        Span.Room.succ ht (before t ht fits) leftS roomS (room t (List.mem_cons_of_mem s ht)) sumsNow
      have waiting := Span.shiftAll_moved roomS roomNext perm₁
      rw [List.map_cons, additions_of_shifted step waiting] at sums
      have leftNext : ∀ a ∈ row₁, ∀ t ∈ queue, a.start.toNat < t.start.toNat := by
        intro a ha t ht
        rcases List.mem_cons.1 (perm₁.mem_iff.2 ha) with rfl | ha
        · exact before t ht fits
        · exact left a ha t (List.mem_cons_of_mem s ht)
      have rest := ih hrow₁ ((perm.pairwise_iff Span.Apart.symm).1 apart) later leftNext (count ▸ roomNext)
        fun sum hsum => sums sum (List.mem_append_right _ hsum)
      intro t ht
      rw [List.dropWhile_cons_of_pos (by simpa using fits)] at ht
      rw [List.takeWhile_cons_of_pos (by simpa using fits), List.length_cons]
      exact (rest t ht).mono (by omega)
    · intro t ht
      rw [List.dropWhile_cons_of_neg (by simpa using fits)] at ht
      rw [List.takeWhile_cons_of_neg (by simpa using fits)]
      exact room t ht

section Kept

variable {line : Text} {spans : OrderedSet Span}

theorem fits_of_mem_takeWhile {length : Nat} {queue : List Span} :
    ∀ s ∈ queue.takeWhile (·.Fits length), s.Fits length :=
  fun s hs => of_decide_eq_true (List.all_eq_true.1 List.all_takeWhile s hs)

theorem length_takeWhile_le : ((withoutOverlaps spans.keys).takeWhile (·.Fits line.length)).length ≤ line.length := by
  have front := List.takeWhile_sublist (l := withoutOverlaps spans.keys) (·.Fits line.length)
  have row := row_of_ascending ((ascending_withoutOverlaps spans).sublist front)
    ((withoutOverlaps_apart spans.keys).sublist front) fits_of_mem_takeWhile
  simpa using row.length_le

theorem room_of_additions (d : Delimiters) (small : 26 * line.length < 2 ^ 64)
    (sums : ∀ sum ∈ additions d line (withoutOverlaps spans.keys), sum < 2 ^ 64) :
    ∀ s ∈ withoutOverlaps spans.keys, s.Room ((withoutOverlaps spans.keys).takeWhile (·.Fits line.length)).length := by
  intro s hs
  rw [← List.takeWhile_append_dropWhile (p := (·.Fits line.length)) (l := withoutOverlaps spans.keys)] at hs
  rcases List.mem_append.1 hs with front | rest
  · exact (fits_of_mem_takeWhile s front).room small length_takeWhile_le
  · have empty : Row 0 line.length [] := Nat.zero_le line.length
    have apart := withoutOverlaps_apart spans.keys
    have order := fromLeft_withoutOverlaps line.length spans
    have moved := room_of_additions_moved d empty (by rwa [List.append_nil]) order (by simp) (fun t _ => ?_)
      (by rwa [taggedLine_nil, Span.moved_nil, List.map_id]) s rest
    · simpa using moved
    · exact ⟨by simpa using t.start.toNat_lt, by simpa using t.stop.toNat_lt⟩

theorem markSpans_eq_misfit_iff_of_words (d : Delimiters) (small : 26 * line.length < 2 ^ 64)
    (room : ∀ s ∈ withoutOverlaps spans.keys,
      s.Room ((withoutOverlaps spans.keys).takeWhile (·.Fits line.length)).length) :
    (∃ e, markSpans d line spans = .error (.misfit e)) ↔
      ∃ s ∈ withoutOverlaps spans.keys, ¬ s.Fits line.length := by
  constructor
  · rintro ⟨e, failed⟩
    refine Decidable.byContradiction fun none => ?_
    have fits : ∀ s ∈ withoutOverlaps spans.keys, s.Fits line.length := by simpa using none
    cases failed.symm.trans (markSpans_of_fits d small fits)
  · rintro ⟨s, hs, bad⟩
    obtain ⟨front, s, later, kept, fits, misfit⟩ := exists_first_misfit fun fits => bad (fits s hs)
    have first : (withoutOverlaps spans.keys).takeWhile (·.Fits line.length) = front := by
      rw [kept, List.takeWhile_append_of_pos (by simpa using fits), List.takeWhile_cons_of_neg (by simpa using misfit),
        List.append_nil]
    rw [first] at room
    exact ⟨_, (markSpans_of_first_misfit d kept fits misfit room).2⟩

end Kept

/-- The sums stay words exactly where each kept span has room for the tags of those in front of the first misfit; then a kept
span that does not fit is refused as such. Where a sum is no word the line overflows. -/
theorem markSpans_within_words {line : Text} (marks : LineMarks) (d : Delimiters) (small : 26 * line.length < 2 ^ 64) :
    ((∀ sum ∈ additions d line (withoutOverlaps marks.spans.keys), sum < 2 ^ 64) ↔
        ∀ s ∈ withoutOverlaps marks.spans.keys,
          s.Room ((withoutOverlaps marks.spans.keys).takeWhile (·.Fits line.length)).length) ∧
      ((∀ sum ∈ additions d line (withoutOverlaps marks.spans.keys), sum < 2 ^ 64) →
        ((∃ e, markSpans d line marks.spans = .error (.misfit e)) ↔
          ∃ s ∈ withoutOverlaps marks.spans.keys, ¬ s.Fits line.length)) ∧
      (markSpans d line marks.spans = .error .overflow ↔
        ∃ sum ∈ additions d line (withoutOverlaps marks.spans.keys), 2 ^ 64 ≤ sum) := by
  have words : (∀ sum ∈ additions d line (withoutOverlaps marks.spans.keys), sum < 2 ^ 64) ↔ _ :=
    ⟨room_of_additions d small, additions_lt d (withoutOverlaps_apart marks.spans.keys)⟩
  exact ⟨words, fun sums => markSpans_eq_misfit_iff_of_words d small (words.1 sums),
    applySpans_eq_overflow_iff d line (withoutOverlaps marks.spans.keys)⟩

def farMarks (column : UInt64) : LineMarks :=
  (LineMarks.none.add (.span ⟨1, 1, .token, ['a']⟩)).add (.span ⟨column, column, .token, ['b']⟩)

/-- The second span is moved to the last column that is a word. -/
theorem markSpans_within_words_last :
    26 * ['a'].length < 2 ^ 64 ∧ ∀ d : Delimiters,
      (∀ sum ∈ additions d ['a'] (withoutOverlaps (farMarks 0xFFFFFFFFFFFFFFE6).spans.keys), sum < 2 ^ 64) ∧
        ∃ e, markSpans d ['a'] (farMarks 0xFFFFFFFFFFFFFFE6).spans = .error (.misfit e) := by
  have small : 26 * ['a'].length < 2 ^ 64 := by decide
  refine ⟨small, fun d => ?_⟩
  obtain ⟨words, refused, -⟩ := markSpans_within_words (farMarks 0xFFFFFFFFFFFFFFE6) d small
  have sums := words.2 (by decide +kernel)
  have misfit : ∃ s ∈ withoutOverlaps (farMarks 0xFFFFFFFFFFFFFFE6).spans.keys, ¬ s.Fits ['a'].length := by
    decide +kernel
  exact ⟨sums, (refused sums).2 misfit⟩

/-- Two columns further on, the second span cannot be moved any more, and the line is not rendered at all. -/
theorem misfit_overflows :
    26 * ['a'].length < 2 ^ 64 ∧
      (∃ s ∈ withoutOverlaps (farMarks 0xFFFFFFFFFFFFFFE8).spans.keys, ¬ s.Fits ['a'].length) ∧
      ∃ free : (Delimiters.forLine ['a']).isSome,
        (∃ sum ∈ additions ((Delimiters.forLine ['a']).get free) ['a']
          (withoutOverlaps (farMarks 0xFFFFFFFFFFFFFFE8).spans.keys), 2 ^ 64 ≤ sum) ∧
        markSpans ((Delimiters.forLine ['a']).get free) ['a'] (farMarks 0xFFFFFFFFFFFFFFE8).spans = .error .overflow ∧
        renderLine ['a'] (some (farMarks 0xFFFFFFFFFFFFFFE8)) = .error ⟨⟩ ∧
        renderLine ['a'] (some LineMarks.none) = .ok "<pre><mark>a</mark></pre>\n".toList :=
  ⟨by decide, by decide +kernel, by decide +kernel, by decide +kernel, by decide +kernel, by decide +kernel,
    by decide +kernel⟩

end PatternPages.Marking
