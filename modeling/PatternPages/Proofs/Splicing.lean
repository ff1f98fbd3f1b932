import Mathlib.Algebra.Group.Nat.Defs
import PatternPages.Proofs.Cut

/-! Runs of splices in any order. The invariant: the line is cut at the spans spliced so far, and a waiting span has moved by
the width of one tag for each of them that begins to its left. -/
namespace PatternPages.Marking

namespace Span

/-- The columns stay 64-bit words when they move by `count` tags. -/
def Room (count : Nat) (s : Span) : Prop :=
  s.start.toNat + count * Delimiters.tagWidth < 2 ^ 64 ∧ s.stop.toNat + count * Delimiters.tagWidth < 2 ^ 64

instance (count : Nat) (s : Span) : Decidable (s.Room count) := inferInstanceAs (Decidable (_ ∧ _))

def movedBy (count : Nat) (s : Span) : Span :=
  { s with
    start := s.start + .ofNat (count * Delimiters.tagWidth)
    stop := s.stop + .ofNat (count * Delimiters.tagWidth) }

/-- The number of spans that begin to the left. -/
def tagsBefore (spliced : List Span) (s : Span) : Nat := spliced.countP (·.start < s.start)

/-- Where a span of the line stands once other spans are spliced. -/
def moved (spliced : List Span) (s : Span) : Span := s.movedBy (s.tagsBefore spliced)

theorem Room.mono {s : Span} {count count' : Nat} (h : s.Room count') (le : count ≤ count') :
    s.Room count := by
  have width := Nat.mul_le_mul_right Delimiters.tagWidth le
  obtain ⟨start, stop⟩ := h
  exact ⟨by omega, by omega⟩

theorem movedBy_toNat {s : Span} {count : Nat} (h : s.Room count) :
    (s.movedBy count).start.toNat = s.start.toNat + count * Delimiters.tagWidth ∧
      (s.movedBy count).stop.toNat = s.stop.toNat + count * Delimiters.tagWidth := by
  obtain ⟨start, stop⟩ := h
  simp only [movedBy, UInt64.toNat_add, UInt64.toNat_ofNat']
  omega

theorem tagsBefore_le (spliced : List Span) (s : Span) : s.tagsBefore spliced ≤ spliced.length :=
  List.countP_le_length

theorem tagsBefore_mono (spliced : List Span) {s t : Span} (h : s.start.toNat ≤ t.start.toNat) :
    s.tagsBefore spliced ≤ t.tagsBefore spliced := by
  apply List.countP_mono_left
  intro other _ below
  simp only [decide_eq_true_eq, UInt64.lt_iff_toNat_lt] at below ⊢
  omega

theorem tagsBefore_of_all {spliced : List Span} {s : Span} (h : ∀ a ∈ spliced, a.start.toNat < s.start.toNat) :
    s.tagsBefore spliced = spliced.length := by
  rw [tagsBefore, List.countP_eq_length]
  intro a ha
  exact decide_eq_true (UInt64.lt_iff_toNat_lt.2 (h a ha))

theorem tagsBefore_of_none {spliced : List Span} {s : Span} (h : ∀ a ∈ spliced, s.start.toNat ≤ a.start.toNat) :
    s.tagsBefore spliced = 0 := by
  rw [tagsBefore, List.countP_eq_zero]
  intro a ha below
  have less := UInt64.lt_iff_toNat_lt.1 (of_decide_eq_true below)
  exact Nat.not_le_of_lt less (h a ha)

theorem moved_toNat {s : Span} {spliced : List Span} (h : s.Room spliced.length) :
    (s.moved spliced).start.toNat = s.start.toNat + s.tagsBefore spliced * Delimiters.tagWidth ∧
      (s.moved spliced).stop.toNat = s.stop.toNat + s.tagsBefore spliced * Delimiters.tagWidth :=
  movedBy_toNat (h.mono (tagsBefore_le spliced s))

theorem moved_nil : moved [] = id := by
  funext s
  simp [moved, movedBy, tagsBefore]

theorem moved_perm {spliced spliced' : List Span} (h : spliced.Perm spliced') : moved spliced = moved spliced' := by
  funext s
  rw [moved, moved, tagsBefore, tagsBefore, h.countP_eq]

theorem pushed_of_lt {column : UInt64} (h : column.toNat + Delimiters.tagWidth < 2 ^ 64) :
    pushed column = some (column + .ofNat Delimiters.tagWidth) :=
  if_pos h

theorem pushed_eq_none_iff {column : UInt64} : pushed column = none ↔ 2 ^ 64 ≤ column.toNat + Delimiters.tagWidth := by
  simp [pushed, UInt64.size]

/-- One more tag keeps a span in the words if it has room for the tags before it and that one. -/
theorem moved_add_lt {spliced : List Span} {t : Span} (room : t.Room (spliced.length + 1)) :
    (t.moved spliced).start.toNat + Delimiters.tagWidth < 2 ^ 64 ∧
      (t.moved spliced).stop.toNat + Delimiters.tagWidth < 2 ^ 64 := by
  have columns := moved_toNat (room.mono (Nat.le_succ spliced.length))
  have tags := Nat.mul_le_mul_right Delimiters.tagWidth (tagsBefore_le spliced t)
  obtain ⟨start, stop⟩ := room
  rw [Nat.add_mul, Nat.one_mul] at start stop
  omega

/-- Splicing one more span moves a waiting one as if it had been among the spliced ones all along. -/
theorem shiftedBy_moved {s waiting : Span} {spliced : List Span} (hs : s.Room spliced.length)
    (hw : waiting.Room (spliced.length + 1)) :
    (s.moved spliced).shiftedBy (waiting.moved spliced) = some (waiting.moved (s :: spliced)) := by
  have startS := (moved_toNat hs).1
  have startW := (moved_toNat (hw.mono (Nat.le_succ _))).1
  by_cases left : s.start < waiting.start
  · have less := UInt64.lt_iff_toNat_lt.1 left
    have tags := Nat.mul_le_mul_right Delimiters.tagWidth (tagsBefore_mono spliced (Nat.le_of_lt less))
    have stillLeft : (s.moved spliced).start < (waiting.moved spliced).start := by
      rw [UInt64.lt_iff_toNat_lt]
      omega
    have count : waiting.tagsBefore (s :: spliced) = waiting.tagsBefore spliced + 1 :=
      List.countP_cons_of_pos (by simpa using left)
    have words := moved_add_lt hw
    simp only [shiftedBy, if_pos stillLeft, pushed_of_lt words.1, pushed_of_lt words.2]
    simp only [moved, movedBy, count, Nat.add_mul, Nat.one_mul, UInt64.ofNat_add, UInt64.add_assoc]
  · have notLess : ¬ s.start.toNat < waiting.start.toNat := fun h => left (UInt64.lt_iff_toNat_lt.2 h)
    have tags := Nat.mul_le_mul_right Delimiters.tagWidth (tagsBefore_mono spliced (Nat.le_of_not_lt notLess))
    have notLeft : ¬ (s.moved spliced).start < (waiting.moved spliced).start := by
      rw [UInt64.lt_iff_toNat_lt]
      omega
    have count : waiting.tagsBefore (s :: spliced) = waiting.tagsBefore spliced :=
      List.countP_cons_of_neg (by simpa using left)
    have stays : waiting.moved (s :: spliced) = waiting.moved spliced := congrArg waiting.movedBy count
    rw [stays]
    exact if_neg notLeft

theorem shiftAll_moved_cons {s : Span} {spliced waiting : List Span} (hs : s.Room spliced.length)
    (hw : ∀ w ∈ waiting, w.Room (spliced.length + 1)) :
    shiftAll (s.moved spliced) (waiting.map (moved spliced)) = some (waiting.map (moved (s :: spliced))) := by
  induction waiting with
  | nil => rfl
  | cons w waiting ih =>
    have here := shiftedBy_moved hs (hw w List.mem_cons_self)
    have rest := ih fun v hv => hw v (List.mem_cons_of_mem w hv)
    simp only [List.map_cons, shiftAll, here, rest]

theorem shiftAll_moved {s : Span} {spliced row waiting : List Span} (hs : s.Room spliced.length)
    (hw : ∀ w ∈ waiting, w.Room (spliced.length + 1)) (perm : (s :: spliced).Perm row) :
    shiftAll (s.moved spliced) (waiting.map (moved spliced)) = some (waiting.map (moved row)) := by
  simp only [shiftAll_moved_cons hs hw, moved_perm perm]

/-! ## Spans that do not overlap -/

def Apart (a b : Span) : Prop := a.overlaps b = false

theorem Apart.symm {a b : Span} (h : a.Apart b) : b.Apart a := by
  simpa [Apart, overlaps, Bool.and_comm] using h

theorem apart_iff (a b : Span) :
    a.Apart b ↔ b.stop.toNat < a.start.toNat ∨ a.stop.toNat < b.start.toNat := by
  simp only [Apart, overlaps, Bool.and_eq_false_iff, decide_eq_false_iff_not, UInt64.le_iff_toNat_le, Nat.not_le]

end Span

/-- A span that fits and overlaps none of a row has its place in it. -/
theorem Row.exists_place {column last : Nat} {row : List Span} {s : Span} (h : Row column last row)
    (apart : ∀ a ∈ row, a.Apart s) (below : column < s.start.toNat) (fits : s.Fits last) :
    ∃ left right, row = left ++ right ∧ Row column last (left ++ s :: right) := by
  induction row generalizing column with
  | nil => exact ⟨[], [], rfl, below, fits.2.1, fits.2.2⟩
  | cons a rest ih =>
    obtain ⟨belowA, orderA, behind⟩ := h
    rcases (Span.apart_iff a s).1 (apart a List.mem_cons_self) with before | after
    · exact ⟨[], a :: rest, rfl, below, fits.2.1, before, orderA, behind⟩
    · obtain ⟨left, right, rfl, place⟩ := ih behind (fun b hb => apart b (List.mem_cons_of_mem a hb)) after
      exact ⟨a :: left, right, rfl, belowA, orderA, place⟩

theorem Row.tagsBefore_eq {column last : Nat} {left right : List Span} {s : Span}
    (h : Row column last (left ++ s :: right)) : s.tagsBefore (left ++ right) = left.length := by
  obtain ⟨_, before, order, behind⟩ := h.split
  have allLeft : s.tagsBefore left = left.length := by
    apply Span.tagsBefore_of_all
    intro a ha
    have fits := (before.fits a ha).2
    simp only [Span.Fits] at fits
    omega
  have noneRight : s.tagsBefore right = 0 := by
    apply Span.tagsBefore_of_none
    intro a ha
    have later := (behind.fits a ha).1
    omega
  calc s.tagsBefore (left ++ right) = s.tagsBefore left + s.tagsBefore right := List.countP_append
    _ = left.length := by rw [allLeft, noneRight, Nat.add_zero]

/-! ## One splice -/

section Step

variable {d : Delimiters} {line : Text} {spliced : List Span} {s : Span}

theorem splice_moved (row : Row 0 line.length spliced) (apart : ∀ a ∈ spliced, a.Apart s)
    (room : s.Room spliced.length) (fits : s.Fits line.length) :
    ∃ row', (s :: spliced).Perm row' ∧ Row 0 line.length row' ∧
      splice d (taggedLine d line spliced) (s.moved spliced) = .ok (taggedLine d line row') := by
  obtain ⟨left, right, rfl, place⟩ := row.exists_place apart fits.1 fits
  have columns := Span.moved_toNat room
  rw [place.tagsBefore_eq] at columns
  exact ⟨left ++ s :: right, List.perm_middle.symm, place, splice_taggedLine d place rfl columns.1 columns.2⟩

/-- The tags already in the line leave no room for a span that the plain line has no room for. -/
theorem splice_moved_misfit (row : Row 0 line.length spliced) (apart : ∀ a ∈ spliced, a.Apart s)
    (room : s.Room spliced.length) (misfit : ¬ s.Fits line.length) :
    splice d (taggedLine d line spliced) (s.moved spliced) =
      .error ⟨taggedLine d line spliced, (s.moved spliced).start, (s.moved spliced).stop⟩ := by
  have columns := Span.moved_toNat room
  have length := length_taggedLine d row
  have noFit : ¬ (s.moved spliced).Fits (taggedLine d line spliced).length := by
    rintro ⟨start, order, stop⟩
    apply misfit
    have positive : 1 ≤ s.start.toNat := by
      rcases Nat.eq_zero_or_pos s.start.toNat with zero | positive
      · rw [Span.tagsBefore_of_none fun a _ => zero ▸ Nat.zero_le _] at columns
        omega
      · exact positive
    have inside : s.stop.toNat ≤ line.length := by
      rcases Nat.lt_or_ge line.length s.stop.toNat with outside | inside
      · have allLeft : s.tagsBefore spliced = spliced.length := by
          apply Span.tagsBefore_of_all
          intro a ha
          have fits := (row.fits a ha).2
          have either := (Span.apart_iff a s).1 (apart a ha)
          simp only [Span.Fits] at fits
          omega
        rw [allLeft] at columns
        omega
      · exact inside
    exact ⟨positive, by omega, inside⟩
  rw [splice, if_neg noFit]

end Step

/-! ## A run -/

theorem perm_pushed {s : Span} {queue spliced row : List Span} (h : (s :: spliced).Perm row) :
    (s :: queue ++ spliced).Perm (queue ++ row) :=
  List.perm_middle.symm.trans (h.append_left queue)

/-- Spans that fit can be taken off the front of the queue: they end up in the row. -/
theorem applySpans_append (d : Delimiters) {line : Text} {spliced queue : List Span} (later : List Span)
    (row : Row 0 line.length spliced) (apart : (queue ++ spliced).Pairwise Span.Apart)
    (fits : ∀ s ∈ queue, s.Fits line.length)
    (room : ∀ s ∈ queue ++ later, s.Room (queue ++ spliced).length) :
    ∃ row', (queue ++ spliced).Perm row' ∧ Row 0 line.length row' ∧
      applySpans d (taggedLine d line spliced) ((queue ++ later).map (Span.moved spliced)) =
        applySpans d (taggedLine d line row') (later.map (Span.moved row')) := by
  induction queue generalizing spliced with
  | nil => exact ⟨spliced, List.Perm.refl _, row, rfl⟩
  | cons s queue ih =>
    have apartSpliced : ∀ a ∈ spliced, a.Apart s := fun a ha =>
      ((List.pairwise_cons.1 apart).1 a (List.mem_append_right queue ha)).symm
    have roomNow : ∀ t ∈ s :: (queue ++ later), t.Room (spliced.length + 1) := fun t ht =>
      (room t ht).mono (by simp only [List.length_append, List.length_cons]; omega)
    have roomS : s.Room spliced.length := (roomNow s List.mem_cons_self).mono (Nat.le_succ _)
    obtain ⟨row₁, perm₁, hrow₁, step⟩ := splice_moved (d := d) row apartSpliced roomS
      (fits s List.mem_cons_self)
    have waiting : shiftAll (s.moved spliced) ((queue ++ later).map (Span.moved spliced)) =
        some ((queue ++ later).map (Span.moved row₁)) :=
      Span.shiftAll_moved roomS (fun w hw => roomNow w (List.mem_cons_of_mem s hw)) perm₁
    have perm : (s :: queue ++ spliced).Perm (queue ++ row₁) := perm_pushed perm₁
    obtain ⟨row', perm', hrow', run⟩ := ih hrow₁ ((perm.pairwise_iff Span.Apart.symm).1 apart)
      (fun t ht => fits t (List.mem_cons_of_mem s ht))
      (fun t ht => perm.length_eq ▸ room t (List.mem_cons_of_mem s ht))
    exact ⟨row', perm.trans perm', hrow', (applySpans_of_shifted step waiting).trans run⟩

section Queue

variable (d : Delimiters) {line : Text}

theorem applySpans_front {queue : List Span} (later : List Span) (apart : queue.Pairwise Span.Apart)
    (fits : ∀ s ∈ queue, s.Fits line.length) (room : ∀ s ∈ queue ++ later, s.Room queue.length) :
    ∃ row, queue.Perm row ∧ Row 0 line.length row ∧
      applySpans d line (queue ++ later) =
        applySpans d (taggedLine d line row) (later.map (Span.moved row)) := by
  have empty : Row 0 line.length [] := Nat.zero_le line.length
  have plain := applySpans_append d later empty (by rwa [List.append_nil]) fits (by rwa [List.append_nil])
  rwa [List.append_nil, taggedLine_nil, Span.moved_nil, List.map_id] at plain

theorem applySpans_of_fits {queue : List Span} (apart : queue.Pairwise Span.Apart)
    (fits : ∀ s ∈ queue, s.Fits line.length) (room : ∀ s ∈ queue, s.Room queue.length) :
    ∃ row, queue.Perm row ∧ Row 0 line.length row ∧ applySpans d line queue = .ok (taggedLine d line row) := by
  obtain ⟨row, perm, hrow, run⟩ := applySpans_front d [] apart fits (by rwa [List.append_nil])
  rw [List.append_nil, List.map_nil, applySpans_nil] at run
  exact ⟨row, perm, hrow, run⟩

/-- The first span that does not fit ends the run, at the columns that it has by then. -/
theorem applySpans_of_first_misfit {front later : List Span} {s : Span}
    (apart : (front ++ s :: later).Pairwise Span.Apart) (fits : ∀ t ∈ front, t.Fits line.length)
    (misfit : ¬ s.Fits line.length) (room : ∀ t ∈ front ++ s :: later, t.Room front.length) :
    ∃ row, front.Perm row ∧ Row 0 line.length row ∧
      applySpans d line (front ++ s :: later) =
        .error (.misfit ⟨taggedLine d line row, (s.moved row).start, (s.moved row).stop⟩) := by
  obtain ⟨apartFront, _, across⟩ := List.pairwise_append.1 apart
  obtain ⟨row, perm, hrow, run⟩ := applySpans_front d (s :: later) apartFront fits room
  have apartRow : ∀ a ∈ row, a.Apart s := fun a ha =>
    across a (perm.mem_iff.2 ha) s List.mem_cons_self
  have roomRow : s.Room row.length :=
    perm.length_eq ▸ room s (List.mem_append_right front List.mem_cons_self)
  have failure := splice_moved_misfit (d := d) hrow apartRow roomRow misfit
  exact ⟨row, perm, hrow, run.trans (applySpans_of_misfit_first failure)⟩

theorem exists_first_misfit {length : Nat} {spans : List Span} (misfit : ¬ ∀ s ∈ spans, s.Fits length) :
    ∃ front s later, spans = front ++ s :: later ∧ (∀ t ∈ front, t.Fits length) ∧ ¬ s.Fits length := by
  cases found : spans.find? fun s => ¬ s.Fits length with
  | none => exact absurd (by simpa using found) misfit
  | some s =>
    obtain ⟨bad, front, later, rfl, good⟩ := List.find?_eq_some_iff_append.1 found
    exact ⟨front, s, later, rfl, by simpa using good, by simpa using bad⟩

theorem applySpans_of_misfit {queue : List Span} (apart : queue.Pairwise Span.Apart)
    (room : ∀ s ∈ queue, s.Room queue.length) (misfit : ¬ ∀ s ∈ queue, s.Fits line.length) :
    ∃ e, applySpans d line queue = .error (.misfit e) := by
  obtain ⟨front, s, later, rfl, fits, bad⟩ := exists_first_misfit misfit
  obtain ⟨row, -, -, run⟩ := applySpans_of_first_misfit d apart fits bad fun t ht => (room t ht).mono (by simp)
  exact ⟨_, run⟩

end Queue

/-! ## The additions of a run -/

/-- The sums that move the waiting spans once `s` is in the line. -/
def shiftSums (s : Span) (queue : List Span) : List Nat :=
  (queue.filter (s.start < ·.start)).flatMap fun waiting =>
    [waiting.start.toNat + Delimiters.tagWidth, waiting.stop.toNat + Delimiters.tagWidth]

/-- The sums that move the waiting spans in the course of a run. It ends where one of them is no 64-bit word. -/
def additions (d : Delimiters) (line : Text) : List Span → List Nat
  | [] => []
  | s :: queue =>
    match splice d line s with
    | .error _ => []
    | .ok line =>
      shiftSums s queue ++
        match _ : shiftAll s queue with
        | none => []
        | some queue => additions d line queue
termination_by queue => queue.length
decreasing_by simp [length_shiftAll ‹_›]

section Additions

variable {d : Delimiters} {line spliced : Text} {s : Span} {queue shifted : List Span}

theorem additions_of_error {e : SpliceError} (h : splice d line s = .error e) : additions d line (s :: queue) = [] := by
  rw [additions, h]

theorem additions_of_stuck (h : splice d line s = .ok spliced) (stuck : shiftAll s queue = none) :
    additions d line (s :: queue) = shiftSums s queue := by
  rw [additions, h]
  dsimp only
  split
  · exact List.append_nil _
  · next moved => cases stuck.symm.trans moved

theorem additions_of_shifted (h : splice d line s = .ok spliced) (moved : shiftAll s queue = some shifted) :
    additions d line (s :: queue) = shiftSums s queue ++ additions d spliced shifted := by
  rw [additions, h]
  dsimp only
  split
  · next stuck => cases stuck.symm.trans moved
  · next other => rw [Option.some.inj (other.symm.trans moved)]

theorem shiftSums_subset_additions (h : splice d line s = .ok spliced) :
    shiftSums s queue ⊆ additions d line (s :: queue) := by
  cases moved : shiftAll s queue with
  | none => simp only [additions_of_stuck h moved, List.Subset.refl]
  | some shifted => simp only [additions_of_shifted h moved, List.subset_append_left]

theorem mem_shiftSums {sum : Nat} :
    sum ∈ shiftSums s queue ↔ ∃ waiting ∈ queue, s.start < waiting.start ∧
      (sum = waiting.start.toNat + Delimiters.tagWidth ∨ sum = waiting.stop.toNat + Delimiters.tagWidth) := by
  simp only [shiftSums, List.mem_flatMap, List.mem_filter, decide_eq_true_eq, List.mem_cons, List.not_mem_nil, or_false,
    and_assoc]

theorem Span.shiftedBy_eq_none_iff {waiting : Span} :
    s.shiftedBy waiting = none ↔ s.start < waiting.start ∧
      (2 ^ 64 ≤ waiting.start.toNat + Delimiters.tagWidth ∨ 2 ^ 64 ≤ waiting.stop.toNat + Delimiters.tagWidth) := by
  rw [← pushed_eq_none_iff, ← pushed_eq_none_iff, shiftedBy]
  by_cases left : s.start < waiting.start
  · cases pushed waiting.start <;> cases pushed waiting.stop <;> simp [left]
  · simp [left]

/-- The spans that wait are all moved unless one of the sums is no word. -/
theorem shiftAll_eq_none_iff : shiftAll s queue = none ↔ ∃ sum ∈ shiftSums s queue, 2 ^ 64 ≤ sum := by
  have some_waits : shiftAll s queue = none ↔ ∃ waiting ∈ queue, s.shiftedBy waiting = none := by
    induction queue with
    | nil => simp [shiftAll]
    | cons waiting queue ih =>
      simp only [List.mem_cons, exists_eq_or_imp, ← ih, shiftAll]
      cases s.shiftedBy waiting <;> cases shiftAll s queue <;> simp
  simp only [some_waits, Span.shiftedBy_eq_none_iff, mem_shiftSums]
  constructor
  · rintro ⟨waiting, mem, left, start | stop⟩
    · exact ⟨_, ⟨waiting, mem, left, .inl rfl⟩, start⟩
    · exact ⟨_, ⟨waiting, mem, left, .inr rfl⟩, stop⟩
  · rintro ⟨sum, ⟨waiting, mem, left, rfl | rfl⟩, large⟩
    · exact ⟨waiting, mem, left, .inl large⟩
    · exact ⟨waiting, mem, left, .inr large⟩

end Additions

/-- A run overflows exactly where a sum is no word. The induction follows the run: its queue gets shorter by one span at each
splice, whatever becomes of the columns. -/
theorem applySpans_eq_overflow_iff (d : Delimiters) (line : Text) (queue : List Span) :
    applySpans d line queue = .error .overflow ↔ ∃ sum ∈ additions d line queue, 2 ^ 64 ≤ sum := by
  match queue with
  | [] => simp [applySpans_nil, additions]
  | s :: queue =>
    cases step : splice d line s with
    | error e => simp [applySpans_of_misfit_first step, additions_of_error step]
    | ok spliced =>
      cases moved : shiftAll s queue with
      | none =>
        rw [applySpans_of_stuck step moved, additions_of_stuck step moved]
        exact iff_of_true rfl (shiftAll_eq_none_iff.1 moved)
      | some shifted =>
        have words : ¬ ∃ sum ∈ shiftSums s queue, 2 ^ 64 ≤ sum := by
          rw [← shiftAll_eq_none_iff, moved]
          exact Option.some_ne_none shifted
        have rest := applySpans_eq_overflow_iff d spliced shifted
        simp only [applySpans_of_shifted step moved, additions_of_shifted step moved, rest, List.mem_append, or_and_right,
          exists_or, words, false_or]
termination_by queue.length
decreasing_by simp [length_shiftAll moved]

/-- Only the spans in front of the first that does not fit are spliced, so no more tags move those that wait. -/
theorem additions_moved_lt (d : Delimiters) {line : Text} {spliced queue : List Span}
    (row : Row 0 line.length spliced) (apart : (queue ++ spliced).Pairwise Span.Apart)
    (room : ∀ s ∈ queue, s.Room (spliced.length + (queue.takeWhile (·.Fits line.length)).length)) :
    ∀ sum ∈ additions d (taggedLine d line spliced) (queue.map (Span.moved spliced)), sum < 2 ^ 64 := by
  induction queue generalizing spliced with
  | nil =>
    intro sum h
    simp [additions] at h
  | cons s queue ih =>
    have apartSpliced : ∀ a ∈ spliced, a.Apart s := fun a ha =>
      ((List.pairwise_cons.1 apart).1 a (List.mem_append_right queue ha)).symm
    have roomS : s.Room spliced.length := (room s List.mem_cons_self).mono (Nat.le_add_right _ _)
    intro sum hsum
    by_cases fits : s.Fits line.length
    · obtain ⟨row₁, perm₁, hrow₁, step⟩ := splice_moved (d := d) row apartSpliced roomS fits
      have count : row₁.length = spliced.length + 1 := perm₁.length_eq.symm
      have roomLater : ∀ t ∈ queue, t.Room (row₁.length + (queue.takeWhile (·.Fits line.length)).length) := by
        intro t ht
        have given := room t (List.mem_cons_of_mem s ht)
        rw [List.takeWhile_cons_of_pos (by simpa using fits), List.length_cons] at given
        exact given.mono (by omega)
      have roomNext : ∀ t ∈ queue, t.Room (spliced.length + 1) := fun t ht => (roomLater t ht).mono (by omega)
      have waiting := Span.shiftAll_moved roomS roomNext perm₁
      have perm : (s :: queue ++ spliced).Perm (queue ++ row₁) := perm_pushed perm₁
      rw [List.map_cons, additions_of_shifted step waiting] at hsum
      rcases List.mem_append.1 hsum with now | later
      · obtain ⟨w, hw, -, hsum⟩ := mem_shiftSums.1 now
        obtain ⟨t, ht, rfl⟩ := List.mem_map.1 hw
        have sums := Span.moved_add_lt (roomNext t ht)
        rcases hsum with rfl | rfl
        · exact sums.1
        · exact sums.2
      · exact ih hrow₁ ((perm.pairwise_iff Span.Apart.symm).1 apart) roomLater sum later
    · rw [List.map_cons, additions_of_error (splice_moved_misfit row apartSpliced roomS fits)] at hsum
      cases hsum

theorem additions_lt (d : Delimiters) {line : Text} {queue : List Span} (apart : queue.Pairwise Span.Apart)
    (room : ∀ s ∈ queue, s.Room (queue.takeWhile (·.Fits line.length)).length) :
    ∀ sum ∈ additions d line queue, sum < 2 ^ 64 := by
  have empty : Row 0 line.length [] := Nat.zero_le line.length
  have plain := additions_moved_lt d empty (by rwa [List.append_nil]) (by simpa using room)
  rwa [taggedLine_nil, Span.moved_nil, List.map_id] at plain

end PatternPages.Marking
