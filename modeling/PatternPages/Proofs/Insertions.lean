import PatternPages.Proofs.GreedySelection
import PatternPages.Proofs.IndexMarks

/-! Indexes as sets of marks. The calls that build an index mark one line or a range of lines. The index depends only on the
set of marks that they record, so neither their order nor their number leaves a trace, and nothing recorded is lost. -/
namespace PatternPages.Marking

/-- A call that builds an index. -/
inductive Insertion where
  | single (line : Nat) (mark : Mark)
  | range (first last : Nat)
  deriving DecidableEq

namespace Insertion

def Targets : Insertion → Nat → Prop
  | single there _, line => line = there
  | range first last, line => first ≤ line ∧ line ≤ last

/-- The mark is one that the call puts on the line. -/
def Records : Insertion → Nat → Mark → Prop
  | single there new, line, mark => line = there ∧ mark = new
  | range first last, line, mark => (first ≤ line ∧ line ≤ last) ∧ mark = .wholeLine

/-- The lines and marks that the call goes through. -/
def entries : Insertion → List (Nat × Mark)
  | single line mark => [(line, mark)]
  | range first last => (List.range' first (last + 1 - first)).map (·, .wholeLine)

variable {call : Insertion} {line first last : Nat} {mark : Mark}

theorem mem_entries_iff : (line, mark) ∈ call.entries ↔ call.Records line mark := by
  cases call with
  | single there new => simp [entries, Records]
  | range first last =>
    simp only [entries, Records, List.mem_map, List.mem_range'_1, Prod.mk.injEq]
    constructor
    · rintro ⟨_, inside, rfl, rfl⟩
      exact ⟨by omega, rfl⟩
    · rintro ⟨inside, rfl⟩
      exact ⟨line, by omega, rfl, rfl⟩

theorem targets_iff : call.Targets line ↔ ∃ mark, call.Records line mark := by
  cases call <;> simp [Targets, Records]

theorem records_wholeLine_iff : call.Records line .wholeLine ↔
    call = .single line .wholeLine ∨ ∃ first last, call = .range first last ∧ first ≤ line ∧ line ≤ last := by
  cases call with
  | single there new => simp [Records, eq_comm]
  | range first last =>
    constructor
    · rintro ⟨inside, -⟩
      exact .inr ⟨first, last, rfl, inside⟩
    · rintro (same | ⟨_, _, same, inside⟩)
      · cases same
      · cases same
        exact ⟨inside, rfl⟩

theorem records_span_iff {s : Span} : call.Records line (.span s) ↔ call = .single line (.span s) := by
  cases call <;> simp [Records, eq_comm]

end Insertion

namespace Index

def apply (index : Index) : Insertion → Index
  | .single line mark => index.insert line mark
  | .range first last => index.insertLines first last

def ofInsertions (calls : List Insertion) : Index := calls.foldl apply OrderedMap.empty

variable {index : Index} {call : Insertion} {calls : List Insertion} {line : Nat} {mark : Mark}

/-! ## One call -/

theorem apply_eq (index : Index) (call : Insertion) :
    index.apply call = call.entries.foldl (fun index entry => index.insert entry.1 entry.2) index := by
  cases call with
  | single line mark => rfl
  | range first last =>
    simp only [Insertion.entries, List.foldl_map]
    rfl

theorem holds_apply : (index.apply call).Holds line mark ↔ call.Records line mark ∨ index.Holds line mark := by
  rw [apply_eq, holds_foldl_insert, Insertion.mem_entries_iff]

theorem Marked.apply (h : index.Marked) (call : Insertion) : (index.apply call).Marked := by
  rw [apply_eq]
  exact h.foldl_insert

theorem get?_foldl_insert {entries : List (Nat × Mark)} (elsewhere : ∀ entry ∈ entries, line ≠ entry.1) (index : Index) :
    (entries.foldl (fun index entry => index.insert entry.1 entry.2) index).get? line = index.get? line := by
  induction entries generalizing index with
  | nil => rfl
  | cons entry rest ih =>
    have later := ih (fun other mem => elsewhere other (List.mem_cons_of_mem entry mem)) (index.insert entry.1 entry.2)
    have here := get?_insert index line entry.1 entry.2
    exact later.trans (here.trans (if_neg (elsewhere entry List.mem_cons_self)))

theorem get?_apply (elsewhere : ¬ call.Targets line) (index : Index) : (index.apply call).get? line = index.get? line := by
  rw [apply_eq]
  apply get?_foldl_insert
  rintro ⟨there, mark⟩ mem rfl
  exact elsewhere (Insertion.targets_iff.mpr ⟨mark, Insertion.mem_entries_iff.mp mem⟩)

/-! ## A run of calls -/

theorem holds_foldl_apply (calls : List Insertion) (index : Index) (line : Nat) (mark : Mark) :
    (calls.foldl apply index).Holds line mark ↔ (∃ call ∈ calls, call.Records line mark) ∨ index.Holds line mark := by
  induction calls generalizing index with
  | nil => simp
  | cons call rest ih =>
    simp only [List.foldl_cons, ih, holds_apply, List.mem_cons, exists_eq_or_imp]
    rw [or_left_comm, or_assoc]

theorem Marked.foldl_apply (h : index.Marked) (calls : List Insertion) : (calls.foldl Index.apply index).Marked := by
  induction calls generalizing index with
  | nil => exact h
  | cons call rest ih => exact ih (h.apply call)

theorem get?_foldl_apply (elsewhere : ∀ call ∈ calls, ¬ call.Targets line) (index : Index) :
    (calls.foldl apply index).get? line = index.get? line := by
  induction calls generalizing index with
  | nil => rfl
  | cons call rest ih =>
    have later := ih (fun other mem => elsewhere other (List.mem_cons_of_mem call mem)) (index.apply call)
    exact later.trans (get?_apply (elsewhere call List.mem_cons_self) index)

theorem holds_ofInsertions : (ofInsertions calls).Holds line mark ↔ ∃ call ∈ calls, call.Records line mark := by
  have run := holds_foldl_apply calls OrderedMap.empty line mark
  exact run.trans (or_iff_left (not_holds_empty line mark))

theorem marked_ofInsertions (calls : List Insertion) : (ofInsertions calls).Marked := by
  apply Marked.foldl_apply
  intro line marks found
  cases found

theorem isSome_ofInsertions : ((ofInsertions calls).get? line).isSome ↔ ∃ call ∈ calls, call.Targets line := by
  simp only [(marked_ofInsertions calls).isSome_iff, holds_ofInsertions, Insertion.targets_iff]
  constructor
  · rintro ⟨mark, call, mem, records⟩
    exact ⟨call, mem, mark, records⟩
  · rintro ⟨call, mem, mark, records⟩
    exact ⟨mark, call, mem, records⟩

/-- Two runs give the same index just if they record the same marks. -/
theorem ofInsertions_eq_iff {others : List Insertion} : ofInsertions others = ofInsertions calls ↔
    ∀ line mark, (∃ call ∈ others, call.Records line mark) ↔ ∃ call ∈ calls, call.Records line mark := by
  simp only [← holds_ofInsertions]
  constructor
  · intro same line mark
    rw [same]
  · exact (marked_ofInsertions others).eq_of_holds (marked_ofInsertions calls)

/-! ## What an index tells of its calls -/

/-- The lines of the index are those of the calls, and so are the marks on each. -/
structure Describes (index : Index) (calls : List Insertion) : Prop where
  line_iff : ∀ line, (index.get? line).isSome ↔ ∃ call ∈ calls, call.Targets line
  whole_iff : ∀ line marks, index.get? line = some marks → (marks.whole = true ↔
    .single line .wholeLine ∈ calls ∨ ∃ first last, .range first last ∈ calls ∧ first ≤ line ∧ line ≤ last)
  span_iff : ∀ line marks, index.get? line = some marks → ∀ s, s ∈ marks.spans.keys ↔ .single line (.span s) ∈ calls
  spans_ordered : ∀ line marks, index.get? line = some marks → marks.spans.keys.Pairwise Span.Before
  listed_iff : ∀ line marks, (line, marks) ∈ index.toList ↔ index.get? line = some marks
  ascending : (index.toList.map (·.1)).Pairwise (· < ·)
  size_eq : ∀ lines : List Nat, lines.Nodup → (∀ line, line ∈ lines ↔ ∃ call ∈ calls, call.Targets line) →
    index.size = lines.length

theorem holds_iff_of_get? {marks : LineMarks} (mark : Mark) (found : index.get? line = some marks) :
    marks.Holds mark ↔ index.Holds line mark := by
  simp [Holds, found]

theorem describes_ofInsertions (calls : List Insertion) : (ofInsertions calls).Describes calls where
  line_iff _ := isSome_ofInsertions
  whole_iff line marks found := by
    have recorded := (holds_iff_of_get? .wholeLine found).trans holds_ofInsertions
    simp only [Insertion.records_wholeLine_iff] at recorded
    apply recorded.trans
    constructor
    · rintro ⟨call, mem, rfl | ⟨first, last, rfl, range⟩⟩
      · exact .inl mem
      · exact .inr ⟨first, last, mem, range⟩
    · rintro (mem | ⟨first, last, mem, range⟩)
      · exact ⟨_, mem, .inl rfl⟩
      · exact ⟨_, mem, .inr ⟨first, last, rfl, range⟩⟩
  span_iff line marks found s := by
    have recorded := (holds_iff_of_get? (.span s) found).trans holds_ofInsertions
    simp only [Insertion.records_span_iff, exists_eq_right] at recorded
    exact recorded
  spans_ordered line marks _ := (ascending_keys marks.spans).imp fun below => (Span.before_iff _ _).mpr below
  listed_iff line marks := (OrderedMap.get?_eq_some_iff _ line marks).symm
  ascending := List.pairwise_map.mpr (ofInsertions calls).ascending
  size_eq lines nodup targets := by
    have ascending : (ofInsertions calls).keys.Pairwise (· < ·) := List.pairwise_map.mpr (ofInsertions calls).ascending
    have distinct : (ofInsertions calls).keys.Nodup := ascending.imp fun below => Nat.ne_of_lt below
    have same : (ofInsertions calls).keys.Perm lines := by
      apply (List.perm_ext_iff_of_nodup distinct nodup).mpr
      intro line
      rw [OrderedMap.mem_keys_iff, ← Option.isSome_iff_exists, isSome_ofInsertions, targets]
    have count : (ofInsertions calls).keys.length = (ofInsertions calls).size := List.length_map _
    exact count.symm.trans same.length_eq

/-- Whole lines can be marked one by one, in any order, in place of a range. -/
theorem ofInsertions_range {front back : List Insertion} {first last : Nat} {lines : List Nat}
    (range : ∀ line, line ∈ lines ↔ first ≤ line ∧ line ≤ last) :
    ofInsertions (front ++ lines.map (.single · .wholeLine) ++ back) = ofInsertions (front ++ .range first last :: back) := by
  have single (line : Nat) (mark : Mark) :
      (∃ call ∈ lines.map (Insertion.single · .wholeLine), call.Records line mark) ↔
        (Insertion.range first last).Records line mark := by
    simp only [List.mem_map, Insertion.Records, ← range]
    constructor
    · rintro ⟨_, ⟨there, mem, rfl⟩, rfl, rfl⟩
      exact ⟨mem, rfl⟩
    · rintro ⟨mem, rfl⟩
      exact ⟨_, ⟨line, mem, rfl⟩, rfl, rfl⟩
  apply ofInsertions_eq_iff.mpr
  intro line mark
  simp only [List.mem_append, List.mem_cons, or_and_right, exists_or, exists_eq_left, single, or_assoc]

/-- An index is determined by the set of marks that its calls record, whatever their order and number, and it tells just this
set. A later call adds its own marks, keeps those that are there, and leaves every line alone that it does not target. -/
theorem index_of_insertions (calls : List Insertion) :
    (ofInsertions calls).Describes calls ∧
      (∀ others, ofInsertions others = ofInsertions calls ↔
        ∀ line mark, (∃ call ∈ others, call.Records line mark) ↔ ∃ call ∈ calls, call.Records line mark) ∧
      (∀ others, (∀ call, call ∈ others ↔ call ∈ calls) → ofInsertions others = ofInsertions calls) ∧
      (∀ front back first last (lines : List Nat), calls = front ++ .range first last :: back →
        (∀ line, line ∈ lines ↔ first ≤ line ∧ line ≤ last) →
        ofInsertions (front ++ lines.map (.single · .wholeLine) ++ back) = ofInsertions calls) ∧
      ∀ more line, (∀ mark, (ofInsertions calls).Holds line mark → (ofInsertions (calls ++ more)).Holds line mark) ∧
        ((∀ call ∈ more, ¬ call.Targets line) →
          (ofInsertions (calls ++ more)).get? line = (ofInsertions calls).get? line) := by
  refine ⟨describes_ofInsertions calls, fun others => ofInsertions_eq_iff, ?_, ?_, ?_⟩
  · intro others same
    apply ofInsertions_eq_iff.mpr
    intro line mark
    simp only [same]
  · rintro front back first last lines rfl range
    exact ofInsertions_range range
  · intro more line
    have continued : ofInsertions (calls ++ more) = more.foldl apply (ofInsertions calls) := List.foldl_append
    rw [continued]
    constructor
    · intro mark holds
      exact (holds_foldl_apply more (ofInsertions calls) line mark).mpr (.inr holds)
    · intro elsewhere
      exact get?_foldl_apply elsewhere (ofInsertions calls)

/-- A range, a reversed range, and two spans of the same columns, the dummy first. -/
def mixedCalls : List Insertion :=
  [.range 2 3, .single 3 (.span ⟨5, 7, .dummy, "foo".toList⟩), .range 9 7, .single 3 (.span ⟨5, 7, .token, "foo".toList⟩)]

def shuffledCalls : List Insertion :=
  [.single 3 (.span ⟨5, 7, .token, "foo".toList⟩), .range 9 7, .range 2 3, .range 2 3,
    .single 3 (.span ⟨5, 7, .dummy, "foo".toList⟩)]

theorem index_of_insertions_mixed :
    ((ofInsertions mixedCalls).toList.map fun entry => (entry.1, entry.2.whole, entry.2.spans.keys)) =
        [(2, true, []), (3, true, [⟨5, 7, .token, "foo".toList⟩, ⟨5, 7, .dummy, "foo".toList⟩])] ∧
      (∀ call, call ∈ shuffledCalls ↔ call ∈ mixedCalls) ∧ ofInsertions shuffledCalls = ofInsertions mixedCalls ∧
      (∀ line, line ∈ [3, 2, 3] ↔ 2 ≤ line ∧ line ≤ 3) ∧
      ofInsertions ([] ++ [3, 2, 3].map (.single · .wholeLine) ++ mixedCalls.tail) = ofInsertions mixedCalls ∧
      (∀ call ∈ [Insertion.range 3 4], ¬ call.Targets 2) ∧
      (ofInsertions (mixedCalls ++ [.range 3 4])).get? 2 = (ofInsertions mixedCalls).get? 2 := by
  have sub : ∀ call ∈ shuffledCalls, call ∈ mixedCalls := by decide
  have super : ∀ call ∈ mixedCalls, call ∈ shuffledCalls := by decide
  have same (call : Insertion) : call ∈ shuffledCalls ↔ call ∈ mixedCalls := ⟨sub call, super call⟩
  have lines (line : Nat) : line ∈ [3, 2, 3] ↔ 2 ≤ line ∧ line ≤ 3 := by
    simp only [List.mem_cons, List.not_mem_nil, or_false]
    omega
  have elsewhere : ∀ call ∈ [Insertion.range 3 4], ¬ call.Targets 2 := by
    simp [Insertion.Targets]
  obtain ⟨-, -, order, single, more⟩ := index_of_insertions mixedCalls
  exact ⟨by decide, same, order _ same, lines, single [] mixedCalls.tail 2 3 [3, 2, 3] rfl lines, elsewhere,
    (more [.range 3 4] 2).2 elsewhere⟩

end Index

end PatternPages.Marking
