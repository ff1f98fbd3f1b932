import PatternPages.Marking.Keywords
import PatternPages.Proofs.Stretches

/-! The search for keywords on a line of pieces. The scan finds exactly the tagged pieces, so what it finds unmarked lies in
one plain piece, and tagging it keeps a line of pieces. -/
namespace PatternPages.Marking

/-! ## The scan -/

namespace Piece

/-- The tagged pieces of a delimited line that begins at `position`. -/
def rangesFrom (position : Nat) : List Piece → List Range
  | [] => []
  | .plain text :: rest => rangesFrom (position + text.length) rest
  | .tagged _ text :: rest =>
    let stop := position + (text.length + Delimiters.tagWidth)
    ⟨position, stop⟩ :: rangesFrom stop rest

theorem rangesFrom_cons (d : Delimiters) (position : Nat) (p : Piece) (rest : List Piece) :
    rangesFrom position (p :: rest) =
      (if p.isTagged then [⟨position, position + (p.delimited d).length⟩] else []) ++
        rangesFrom (position + (p.delimited d).length) rest := by
  cases p with
  | plain text => rfl
  | tagged c text =>
    simp only [rangesFrom, isTagged, delimited, Delimiters.length_tagged]
    rfl

/-- The ranges are those of the tagged pieces, each from its first tag to its last. -/
theorem mem_rangesFrom_iff (d : Delimiters) {position : Nat} {pieces : List Piece} {range : Range} :
    range ∈ rangesFrom position pieces ↔ ∃ left c text right, pieces = left ++ .tagged c text :: right ∧
      range = ⟨position + (delimitedLine d left).length,
        position + (delimitedLine d left).length + (d.tagged c text).length⟩ := by
  induction pieces generalizing position with
  | nil => simp [rangesFrom]
  | cons p rest ih =>
    have width (left : List Piece) : position + (p.delimited d).length + (delimitedLine d left).length =
        position + (delimitedLine d (p :: left)).length := by
      simp only [delimitedLine, List.flatMap_cons, List.length_append]
      omega
    rw [rangesFrom_cons d, List.mem_append, ih]
    constructor
    · rintro (here | ⟨left, c, text, right, rfl, rfl⟩)
      · cases p with
        | plain text => cases here
        | tagged c text =>
          obtain rfl := List.mem_singleton.1 here
          exact ⟨[], c, text, rest, rfl, rfl⟩
      · exact ⟨p :: left, c, text, right, rfl, by rw [width]⟩
    · rintro ⟨left, c, text, right, split, rfl⟩
      cases left with
      | nil =>
        obtain ⟨rfl, rfl⟩ := List.cons.inj split
        exact .inl List.mem_cons_self
      | cons q left =>
        obtain ⟨rfl, rfl⟩ := List.cons.inj split
        exact .inr ⟨left, c, text, right, rfl, by rw [width]⟩

theorem rangesFrom_pairwise (d : Delimiters) (position : Nat) (pieces : List Piece) :
    (rangesFrom position pieces).Pairwise fun a b => a.stop ≤ b.start := by
  induction pieces generalizing position with
  | nil => exact .nil
  | cons p rest ih =>
    cases p with
    | plain text => exact ih _
    | tagged c text =>
      refine .cons (fun range mem => ?_) (ih _)
      obtain ⟨left, _, _, _, -, rfl⟩ := (mem_rangesFrom_iff d).1 mem
      exact Nat.le_add_right _ _

end Piece

theorem markedRangesFrom_text {d : Delimiters} {text : Text} (h : d.Avoid text) (scan : Scan) (rest : Text) :
    markedRangesFrom d scan (text ++ rest) =
      markedRangesFrom d { scan with position := scan.position + text.length } rest := by
  induction text generalizing scan with
  | nil => rfl
  | cons c text ih =>
    have hc := h c List.mem_cons_self
    have htext : d.Avoid text := fun x hx => h x (List.mem_cons_of_mem c hx)
    rw [List.cons_append, markedRangesFrom, if_neg hc.1]
    simp [hc.2, ih htext, Nat.add_assoc, Nat.add_comm 1]

theorem markedRangesFrom_tagged {d : Delimiters} {text : Text} (h : d.Avoid text) (c : TagClass)
    (position start : Nat) (rest : Text) :
    markedRangesFrom d ⟨position, 0, start, false⟩ (d.tagged c text ++ rest) =
      ⟨position, position + (text.length + Delimiters.tagWidth)⟩ ::
        markedRangesFrom d ⟨position + (text.length + Delimiters.tagWidth), 0, position, false⟩ rest := by
  have opening := d.avoid_of_ascii c.opening_ascii
  have closing := d.avoid_of_ascii TagClass.closing_ascii
  have openingLength : c.opening.length = 16 := by cases c <;> rfl
  have closingLength : TagClass.closing.length = 5 := rfl
  have layout : d.tagged c text ++ rest =
      d.opening :: (c.opening ++ (d.closing ::
        (text ++ (d.opening :: (TagClass.closing ++ (d.closing :: rest)))))) := by
    simp [Delimiters.tagged, Delimiters.openingTag, Delimiters.closingTag]
  have afterOpening : (c.opening ++ (d.closing ::
      (text ++ (d.opening :: (TagClass.closing ++ (d.closing :: rest)))))).head? = some 's' := rfl
  have afterClosing : (TagClass.closing ++ (d.closing :: rest)).head? = some '/' := rfl
  have stop : position + 1 + 16 + 1 + text.length + 1 + 5 + 1 = position + (text.length + 25) := by omega
  rw [layout, markedRangesFrom, if_pos rfl, afterOpening, if_neg (by decide),
    markedRangesFrom_text opening, markedRangesFrom, if_neg d.distinct]
  simp only [Bool.and_false, Bool.false_eq_true, if_false]
  rw [markedRangesFrom_text h, markedRangesFrom, if_pos rfl, afterClosing, if_pos rfl,
    markedRangesFrom_text closing, markedRangesFrom, if_neg d.distinct]
  simp [openingLength, closingLength, Delimiters.tagWidth, stop]

theorem markedRangesFrom_delimitedLine {d : Delimiters} {pieces : List Piece}
    (h : ∀ p ∈ pieces, d.Avoid p.text) (position start : Nat) :
    markedRangesFrom d ⟨position, 0, start, false⟩ (Piece.delimitedLine d pieces) =
      Piece.rangesFrom position pieces := by
  induction pieces generalizing position start with
  | nil => rfl
  | cons p rest ih =>
    have tail := fun position start => ih (fun q hq => h q (List.mem_cons_of_mem p hq)) position start
    have head := h p List.mem_cons_self
    cases p with
    | plain text => exact (markedRangesFrom_text head _ _).trans (tail _ _)
    | tagged c text =>
      exact (markedRangesFrom_tagged head c position start _).trans (congrArg (List.cons _) (tail _ _))

theorem markedRanges_delimitedLine {d : Delimiters} {pieces : List Piece}
    (h : ∀ p ∈ pieces, d.Avoid p.text) :
    markedRanges d (Piece.delimitedLine d pieces) = Piece.rangesFrom 0 pieces :=
  markedRangesFrom_delimitedLine h 0 0

/-! ## The search -/

theorem exists_of_mem_occurrencesFrom {token line : Text} {skip position found : Nat}
    (h : found ∈ occurrencesFrom token skip position line) :
    ∃ before after, line = before ++ (token ++ after) ∧ found = position + before.length := by
  have later {position : Nat} {c : Char} {rest : Text}
      (tail : ∃ before after, rest = before ++ (token ++ after) ∧ found = position + 1 + before.length) :
      ∃ before after, c :: rest = before ++ (token ++ after) ∧ found = position + before.length := by
    obtain ⟨before, after, rfl, rfl⟩ := tail
    exact ⟨c :: before, after, rfl, by rw [List.length_cons]; omega⟩
  fun_induction occurrencesFrom token skip position line with
  | case1 => cases h
  | case2 _ _ _ _ ih => exact later (ih h)
  | case3 position c rest here ih =>
    rcases List.mem_cons.1 h with rfl | h
    · obtain ⟨after, split⟩ := List.isPrefixOf_iff_prefix.1 here
      exact ⟨[], after, split.symm, rfl⟩
    · exact later (ih h)
  | case4 _ _ _ _ ih => exact later (ih h)

/-- A window of two texts lies in the second, lies in the first, or reaches over their border. -/
theorem window_cases {text rest before token after : Text} (h : text ++ rest = before ++ (token ++ after)) :
    (∃ before', before = text ++ before' ∧ rest = before' ++ (token ++ after)) ∨
      (∃ b, text = before ++ token ++ b ∧ after = b ++ rest) ∨
      before.length < text.length ∧ text.length < before.length + token.length ∧ rest ≠ [] := by
  rcases List.append_eq_append_iff.1 h with ⟨before', hbefore, hrest⟩ | ⟨inside, htext, htoken⟩
  · exact .inl ⟨before', hbefore, hrest⟩
  · rcases List.append_eq_append_iff.1 htoken with ⟨b, hinside, hafter⟩ | ⟨outside, htoken', hrest⟩
    · exact .inr (.inl ⟨b, by rw [htext, hinside, List.append_assoc], hafter⟩)
    · subst htext htoken' hrest
      rcases List.eq_nil_or_concat inside with rfl | ⟨_, _, rfl⟩
      · exact .inl ⟨[], by simp, by simp⟩
      · rcases List.eq_nil_or_concat outside with rfl | ⟨_, _, rfl⟩
        · exact .inr (.inl ⟨[], by simp, by simp⟩)
        · refine .inr (.inr ⟨?_, ?_, by simp⟩)
          · simp only [List.length_append, List.concat_eq_append, List.length_singleton]
            omega
          · simp only [List.length_append, List.concat_eq_append, List.length_singleton]
            omega

/-- What touches no tagged piece lies in one plain piece. -/
theorem exists_plain {d : Delimiters} {pieces : List Piece} (alternating : Piece.Alternating pieces)
    {before token after : Text} (nonempty : token ≠ []) {position : Nat}
    (split : Piece.delimitedLine d pieces = before ++ (token ++ after))
    (free : ∀ range ∈ Piece.rangesFrom position pieces,
      range.touches token.length (position + before.length) = false) :
    ∃ left a b right, pieces = left ++ .plain (a ++ token ++ b) :: right ∧
      before = Piece.delimitedLine d left ++ a ∧ after = b ++ Piece.delimitedLine d right := by
  have positive : 0 < token.length := List.length_pos_iff.2 nonempty
  induction pieces generalizing position before with
  | nil => simp_all [Piece.delimitedLine]
  | cons p rest ih =>
    have behind (before' : Text) (hbefore : before = p.delimited d ++ before')
        (hrest : Piece.delimitedLine d rest = before' ++ (token ++ after))
        (hfree : ∀ range ∈ Piece.rangesFrom (position + (p.delimited d).length) rest,
          range.touches token.length (position + before.length) = false) :
        ∃ left a b right, p :: rest = left ++ .plain (a ++ token ++ b) :: right ∧
          before = Piece.delimitedLine d left ++ a ∧ after = b ++ Piece.delimitedLine d right := by
      subst hbefore
      rw [List.length_append, ← Nat.add_assoc] at hfree
      obtain ⟨left, a, b, right, rfl, rfl, rfl⟩ := ih alternating.tail hrest hfree
      exact ⟨p :: left, a, b, right, rfl, by simp [Piece.delimitedLine], rfl⟩
    have cases := window_cases (show p.delimited d ++ Piece.delimitedLine d rest = _ from split)
    cases p with
    | plain text =>
      rcases cases with ⟨before', hbefore, hrest⟩ | ⟨b, htext, hafter⟩ | ⟨short, across, more⟩
      · exact behind before' hbefore hrest free
      · exact ⟨[], before, b, rest, congrArg (Piece.plain · :: rest) htext, rfl, hafter⟩
      · -- The next piece is tagged, and the token would reach into it.
        cases rest with
        | nil => exact absurd rfl more
        | cons q rest =>
          cases q with
          | plain _ => exact absurd alternating (by simp [Piece.Alternating, Piece.isTagged])
          | tagged c next =>
            have wide : 0 < Delimiters.tagWidth := by decide
            have apart := free ⟨position + text.length, _⟩ List.mem_cons_self
            simp only [Range.touches, Bool.and_eq_false_iff, decide_eq_false_iff_not] at apart
            simp only [Piece.delimited] at short across
            omega
    | tagged c text =>
      have length := d.length_tagged c text
      have apart := free ⟨position, position + (text.length + Delimiters.tagWidth)⟩ List.mem_cons_self
      simp only [Range.touches, Bool.and_eq_false_iff, decide_eq_false_iff_not] at apart
      rcases cases with ⟨before', hbefore, hrest⟩ | ⟨b, htag, _⟩ | ⟨short, _, _⟩
      · exact behind before' hbefore hrest fun range mem =>
          free range (List.mem_cons_of_mem _ (length ▸ mem))
      · have tagLength := congrArg List.length htag
        simp only [Piece.delimited, length, List.length_append] at tagLength
        omega
      · simp only [Piece.delimited, length] at short
        omega

/-! ## One keyword -/

theorem avoid_of_avoid_line {d : Delimiters} {pieces : List Piece} (h : d.Avoid (Piece.line pieces)) :
    ∀ p ∈ pieces, d.Avoid p.text :=
  fun p hp c hc => h c (List.mem_flatMap.2 ⟨p, hp, hc⟩)

/-- Where the search ends in the line of pieces, and what the token does to them. -/
theorem markKeyword_of_found {d : Delimiters} {pieces : List Piece} {token : Text} {position : Nat}
    (avoid : d.Avoid (Piece.line pieces)) (alternating : Piece.Alternating pieces) (nonempty : token ≠ [])
    (found : findUnmarked d (Piece.delimitedLine d pieces) token = some position) :
    ∃ left a b right, pieces = left ++ .plain (a ++ token ++ b) :: right ∧
      position = (Piece.delimitedLine d left).length + a.length ∧
      markKeyword d (Piece.delimitedLine d pieces) token =
        Piece.delimitedLine d (left ++ .plain a :: .tagged .keyword token :: .plain b :: right) := by
  have search := found
  rw [findUnmarked_eq_find?, markedRanges_delimitedLine (avoid_of_avoid_line avoid)] at search
  obtain ⟨before, after, split, start⟩ := exists_of_mem_occurrencesFrom (List.mem_of_find?_eq_some search)
  have free := List.find?_some search
  simp only [Bool.not_eq_true', List.any_eq_false, Bool.not_eq_true] at free
  rw [start] at free
  obtain ⟨left, a, b, right, rfl, hbefore, hafter⟩ := exists_plain alternating nonempty split free
  have place : position = before.length := by rw [start, Nat.zero_add]
  refine ⟨left, a, b, right, rfl, by rw [place, hbefore, List.length_append], ?_⟩
  have upTo : (before ++ (token ++ after)).take position = before := List.take_left' place.symm
  have front : (before ++ token).length = position + token.length := by rw [List.length_append, place]
  have behind : (before ++ (token ++ after)).drop (position + token.length) = after := by
    rw [← List.append_assoc, List.drop_left' front]
  rw [markKeyword, found]
  dsimp only
  rw [split, upTo, behind, hbefore, hafter]
  simp [Piece.delimitedLine, Piece.delimited]

theorem markKeyword_delimitedLine {d : Delimiters} {pieces : List Piece} {token : Text}
    (avoid : d.Avoid (Piece.line pieces)) (alternating : Piece.Alternating pieces) (nonempty : token ≠ []) :
    ∃ pieces', (pieces' = pieces ∨ Piece.Wraps .keyword token pieces pieces') ∧
      markKeyword d (Piece.delimitedLine d pieces) token = Piece.delimitedLine d pieces' := by
  cases found : findUnmarked d (Piece.delimitedLine d pieces) token with
  | none => exact ⟨pieces, .inl rfl, by rw [markKeyword, found]⟩
  | some position =>
    obtain ⟨left, a, b, right, rfl, -, run⟩ := markKeyword_of_found avoid alternating nonempty found
    exact ⟨_, .inr (.intro left a b right), run⟩

/-! ## The pass -/

theorem of_mem_keywordTokens {line token : Text} (h : token ∈ keywordTokens line) :
    token ≠ [] ∧ Text.trim token ∈ keywords := by
  have keyword : Text.trim token ∈ keywords := by simpa using (List.mem_filter.1 h).2
  refine ⟨?_, keyword⟩
  rintro rfl
  exact absurd keyword (by decide)

/-- The pieces of a line with given marks, in whose plain parts keywords may be tagged. -/
structure Highlighted (line : Text) (marks : List Stretch) (pieces : List Piece) : Prop where
  line_eq : Piece.line pieces = line
  alternating : Piece.Alternating pieces
  marks_eq : (Piece.stretches pieces).filter (·.tagClass ≠ .keyword) = marks
  nonempty : ∀ c text, .tagged c text ∈ pieces → text ≠ []
  classes : ∀ c text, .tagged c text ∈ pieces → c ≠ .comment
  keyword : ∀ text, .tagged .keyword text ∈ pieces → Text.trim text ∈ keywords

namespace Highlighted

variable {line : Text} {marks : List Stretch} {pieces : List Piece}

theorem wrap {token : Text} {pieces' : List Piece} (h : Highlighted line marks pieces)
    (wraps : Piece.Wraps .keyword token pieces pieces') (nonempty : token ≠ [])
    (keyword : Text.trim token ∈ keywords) : Highlighted line marks pieces' where
  line_eq := wraps.line_eq.trans h.line_eq
  alternating := wraps.alternating h.alternating
  marks_eq := wraps.filter_stretches.trans h.marks_eq
  nonempty c text mem := by
    rcases wraps.mem_tagged mem with mem | ⟨_, rfl⟩
    · exact h.nonempty c text mem
    · exact nonempty
  classes c text mem := by
    rcases wraps.mem_tagged mem with mem | ⟨rfl, _⟩
    · exact h.classes c text mem
    · decide
  keyword text mem := by
    rcases wraps.mem_tagged mem with mem | ⟨_, rfl⟩
    · exact h.keyword text mem
    · exact keyword

theorem markKeyword {d : Delimiters} {token : Text} (h : Highlighted line marks pieces) (avoid : d.Avoid line)
    (nonempty : token ≠ []) (keyword : Text.trim token ∈ keywords) :
    ∃ pieces', Highlighted line marks pieces' ∧
      markKeyword d (Piece.delimitedLine d pieces) token = Piece.delimitedLine d pieces' := by
  obtain ⟨pieces', rfl | wraps, run⟩ :=
    markKeyword_delimitedLine (h.line_eq.symm ▸ avoid) h.alternating nonempty
  · exact ⟨pieces', h, run⟩
  · exact ⟨pieces', h.wrap wraps nonempty keyword, run⟩

theorem foldl_markKeyword {d : Delimiters} {tokens : List Text} (h : Highlighted line marks pieces)
    (avoid : d.Avoid line) (tokens_ok : ∀ token ∈ tokens, token ≠ [] ∧ Text.trim token ∈ keywords) :
    ∃ pieces', Highlighted line marks pieces' ∧
      tokens.foldl (Marking.markKeyword d) (Piece.delimitedLine d pieces) = Piece.delimitedLine d pieces' := by
  induction tokens generalizing pieces with
  | nil => exact ⟨pieces, h, rfl⟩
  | cons token tokens ih =>
    obtain ⟨nonempty, keyword⟩ := tokens_ok token List.mem_cons_self
    obtain ⟨pieces₁, h₁, step⟩ := h.markKeyword avoid nonempty keyword
    obtain ⟨pieces', h', run⟩ := ih h₁ fun t ht => tokens_ok t (List.mem_cons_of_mem token ht)
    refine ⟨pieces', h', ?_⟩
    rw [List.foldl_cons, step, run]

theorem markKeywords {d : Delimiters} (h : Highlighted line marks pieces) (avoid : d.Avoid line) :
    ∃ pieces', Highlighted line marks pieces' ∧
      markKeywords d (Piece.delimitedLine d pieces) = Piece.delimitedLine d pieces' :=
  h.foldl_markKeyword avoid fun _ ht => of_mem_keywordTokens ht

theorem cut {spans : List Span} (row : Row 0 line.length spans) :
    Highlighted line (spans.map Span.stretch) (cut line spans) where
  line_eq := line_cut row
  alternating := Piece.alternating_cutBetween line 0 line.length spans
  marks_eq := by
    rw [Piece.stretches_cut row, List.filter_eq_self]
    intro s hs
    obtain ⟨span, _, rfl⟩ := List.mem_map.1 hs
    cases span with
    | mk _ _ kind _ => cases kind <;> rfl
  nonempty c text mem := by
    obtain ⟨s, hs, _, rfl⟩ := mem_tagged_cutBetween mem
    obtain ⟨below, _, order, reach⟩ := row.fits s hs
    apply List.ne_nil_of_length_pos
    rw [length_between reach]
    omega
  classes c text mem := by
    obtain ⟨s, _, rfl, _⟩ := mem_tagged_cutBetween mem
    cases s.kind <;> decide
  keyword text mem := by
    obtain ⟨s, _, kind, _⟩ := mem_tagged_cutBetween mem
    cases hkind : s.kind <;> rw [hkind] at kind <;> cases kind

end Highlighted

end PatternPages.Marking
