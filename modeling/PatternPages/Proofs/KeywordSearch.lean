import PatternPages.Proofs.KeywordPass

/-! The search finds the first place where a token stands outside the marks. It looks at occurrences that do not overlap one
another, and passes over none that counts: an occurrence that is skipped overlaps one to its left, which is as free as it
is, for a mark between their beginnings would end with a delimiter inside the token. -/
namespace PatternPages.Marking

/-- The token stands at the position and shares no character with a mark. -/
structure Unmarked (d : Delimiters) (line token : Text) (position : Nat) : Prop where
  here : ∃ before after, line = before ++ (token ++ after) ∧ before.length = position
  free : ∀ range ∈ markedRanges d line, range.touches token.length position = false

/-- Where a token stands, an occurrence is found that begins no later and reaches beyond its beginning. -/
theorem exists_mem_occurrencesFrom {token line before after : Text} {skip position : Nat} (nonempty : token ≠ [])
    (split : line = before ++ (token ++ after)) (behind : skip ≤ before.length) :
    ∃ found ∈ occurrencesFrom token skip position line,
      found ≤ position + before.length ∧ position + before.length < found + token.length := by
  have positive : 0 < token.length := List.length_pos_iff.2 nonempty
  fun_induction occurrencesFrom token skip position line generalizing before with
  | case1 => simp_all
  | case2 position c rest skip ih =>
    cases before with
    | nil => exact absurd behind (Nat.not_succ_le_zero skip)
    | cons _ before =>
      obtain ⟨found, mem, left, reach⟩ := ih (List.cons.inj split).2 (Nat.le_of_succ_le_succ behind)
      rw [List.length_cons]
      exact ⟨found, mem, by omega, by omega⟩
  | case3 position c rest first ih =>
    rcases Nat.lt_or_ge before.length token.length with near | far
    · exact ⟨position, List.mem_cons_self, by omega, by omega⟩
    · cases before with
      | nil => exact absurd far (Nat.not_le_of_lt positive)
      | cons _ before =>
        rw [List.length_cons] at far ⊢
        obtain ⟨found, mem, left, reach⟩ := ih (List.cons.inj split).2 (by omega)
        exact ⟨found, List.mem_cons_of_mem position mem, by omega, by omega⟩
  | case4 position c rest other ih =>
    cases before with
    | nil =>
      have first : token <+: c :: rest := ⟨after, split.symm⟩
      exact absurd (List.isPrefixOf_iff_prefix.2 first) other
    | cons _ before =>
      obtain ⟨found, mem, left, reach⟩ := ih (List.cons.inj split).2 (Nat.zero_le _)
      rw [List.length_cons]
      exact ⟨found, mem, by omega, by omega⟩

/-- A mark ends with a closing delimiter. -/
theorem closing_of_mem_markedRangesFrom {d : Delimiters} {scan : Scan} {line : Text} {range : Range}
    (mem : range ∈ markedRangesFrom d scan line) :
    ∃ front behind, line = front ++ d.closing :: behind ∧ range.stop = scan.position + front.length + 1 := by
  have later {position : Nat} {c : Char} {rest : Text}
      (tail : ∃ front behind, rest = front ++ d.closing :: behind ∧ range.stop = position + 1 + front.length + 1) :
      ∃ front behind, c :: rest = front ++ d.closing :: behind ∧ range.stop = position + front.length + 1 := by
    obtain ⟨front, behind, rfl, stop⟩ := tail
    exact ⟨c :: front, behind, rfl, by rw [stop, List.length_cons]; omega⟩
  fun_induction markedRangesFrom d scan line with
  | case1 => cases mem
  | case2 _ _ _ _ ih => exact later (ih mem)
  | case3 _ _ _ _ _ ih => exact later (ih mem)
  | case4 scan c rest _ _ closes _ _ ih =>
    rcases List.mem_cons.1 mem with rfl | mem
    · simp only [Bool.and_eq_true, decide_eq_true_eq] at closes
      exact ⟨[], rest, by rw [closes.1, List.nil_append], rfl⟩
    · exact later (ih mem)
  | case5 _ _ _ _ _ _ _ _ ih => exact later (ih mem)
  | case6 _ _ _ _ _ _ ih => exact later (ih mem)

section Search

variable {d : Delimiters} {line token : Text} {position : Nat}

/-- An occurrence that reaches over the beginning of an unmarked one is unmarked too. -/
theorem Unmarked.of_reaching {found : Nat} {before after : Text} (clean : d.closing ∉ token)
    (unmarked : Unmarked d line token position) (split : line = before ++ (token ++ after))
    (place : before.length = found) (left : found ≤ position) (reach : position < found + token.length) :
    Unmarked d line token found := by
  refine ⟨⟨before, after, split, place⟩, fun range mem => ?_⟩
  have apart := unmarked.free range mem
  obtain ⟨front, behind, ends, stop⟩ := closing_of_mem_markedRangesFrom mem
  simp only [Range.touches, Bool.and_eq_false_iff, decide_eq_false_iff_not, Nat.zero_add] at apart stop ⊢
  -- Otherwise the mark ends between the two beginnings, and its last character is one of the token.
  refine Decidable.byContradiction fun touches => clean ?_
  have lower : before.length ≤ front.length := by omega
  have upper : front.length - before.length < token.length := by omega
  have last : (before ++ (token ++ after))[front.length]? = some d.closing := by
    rw [← split, ends, List.getElem?_append_right (Nat.le_refl _), Nat.sub_self]
    rfl
  rw [List.getElem?_append_right lower, List.getElem?_append_left upper] at last
  exact List.mem_of_getElem? last

theorem unmarked_of_findUnmarked (found : findUnmarked d line token = some position) :
    Unmarked d line token position := by
  rw [findUnmarked_eq_find?] at found
  have free := List.find?_some found
  obtain ⟨before, after, split, place⟩ := exists_of_mem_occurrencesFrom (List.mem_of_find?_eq_some found)
  refine ⟨⟨before, after, split, by rw [place, Nat.zero_add]⟩, fun range mem => ?_⟩
  simp only [Bool.not_eq_true', List.any_eq_false, Bool.not_eq_true] at free
  exact free range mem

/-- The search ends at the first unmarked place or before it. -/
theorem exists_findUnmarked_le (nonempty : token ≠ []) (clean : d.closing ∉ token)
    (unmarked : Unmarked d line token position) :
    ∃ first ≤ position, findUnmarked d line token = some first := by
  obtain ⟨before, after, split, place⟩ := unmarked.here
  obtain ⟨found, mem, left, reach⟩ := exists_mem_occurrencesFrom nonempty split (Nat.zero_le before.length)
  rw [Nat.zero_add, place] at left reach
  obtain ⟨before', after', split', place'⟩ := exists_of_mem_occurrencesFrom mem
  rw [Nat.zero_add] at place'
  have candidate := unmarked.of_reaching clean split' place'.symm left reach
  have passes : (!(markedRanges d line).any (Range.touches token.length found)) = true := by
    simp only [Bool.not_eq_true', List.any_eq_false, Bool.not_eq_true]
    exact candidate.free
  rw [findUnmarked_eq_find?]
  cases search : (occurrences token line).find? fun position =>
      !(markedRanges d line).any (Range.touches token.length position) with
  | none => exact absurd passes (List.find?_eq_none.1 search found mem)
  | some first =>
    obtain ⟨-, earlier, later, order, skipped⟩ := List.find?_eq_some_iff_append.1 search
    refine ⟨first, Nat.le_trans ?_ left, rfl⟩
    have ascending := pairwise_occurrences token line
    have listed : found ∈ occurrences token line := mem
    rw [order] at ascending listed
    rcases List.mem_append.1 listed with early | rest
    · exact absurd passes (by simpa using skipped found early)
    · rcases List.mem_cons.1 rest with rfl | late
      · exact Nat.le_refl _
      · exact Nat.le_of_lt ((List.pairwise_cons.1 (List.pairwise_append.1 ascending).2.1).1 found late)

end Search

end PatternPages.Marking
