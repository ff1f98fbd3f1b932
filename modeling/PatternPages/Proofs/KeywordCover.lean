import PatternPages.Proofs.KeywordSearch
import PatternPages.Proofs.Misfits
import PatternPages.Proofs.TokenPlaces

/-! The keywords of a line without marks. Each keyword token gets one mark, at its own place or before it. The invariant of
the pass: all marks so far end where the last token ended, so the place of the next token is still plain. -/
namespace PatternPages.Marking

namespace Piece

/-- The texts of the tagged pieces. -/
def taggedTexts : List Piece → List Text
  | [] => []
  | .plain _ :: rest => taggedTexts rest
  | .tagged _ text :: rest => text :: taggedTexts rest

theorem taggedTexts_append (left right : List Piece) :
    taggedTexts (left ++ right) = taggedTexts left ++ taggedTexts right := by
  induction left with
  | nil => rfl
  | cons p left ih =>
    cases p with
    | plain text => exact ih
    | tagged c text => exact congrArg (List.cons text) ih

theorem length_stretchesFrom (column : Nat) (pieces : List Piece) :
    (stretchesFrom column pieces).length = (taggedTexts pieces).length := by
  induction pieces generalizing column with
  | nil => rfl
  | cons p rest ih =>
    cases p with
    | plain text => exact ih _
    | tagged c text => exact congrArg Nat.succ (ih _)

theorem last_le_of_mem_stretchesFrom {column : Nat} {pieces : List Piece} {s : Stretch}
    (mem : s ∈ stretchesFrom column pieces) : s.last ≤ column + (line pieces).length := by
  induction pieces generalizing column with
  | nil => cases mem
  | cons p rest ih =>
    have length : (line (p :: rest)).length = p.text.length + (line rest).length := by
      rw [line, List.flatMap_cons, List.length_append, line]
    rw [length]
    cases p with
    | plain text =>
      have inner := ih (show s ∈ stretchesFrom (column + text.length) rest from mem)
      rwa [Nat.add_assoc] at inner
    | tagged c text =>
      rcases List.mem_cons.1 mem with rfl | later
      · show column + text.length ≤ column + (text.length + (line rest).length)
        omega
      · have inner := ih later
        rwa [Nat.add_assoc] at inner

theorem Wraps.taggedTexts_perm {c : TagClass} {text : Text} {before after : List Piece} (h : Wraps c text before after) :
    (taggedTexts after).Perm (text :: taggedTexts before) := by
  cases h with
  | intro left a b right =>
    rw [taggedTexts_append, taggedTexts_append]
    exact List.perm_middle

theorem Wraps.stretches_sublist {c : TagClass} {text : Text} {before after : List Piece} (h : Wraps c text before after) :
    (stretches before).Sublist (stretches after) := by
  cases h with
  | intro left a b right =>
    simp only [stretches, stretchesFrom_append, stretchesFrom, List.length_append, ← Nat.add_assoc]
    exact (List.Sublist.refl _).append (List.sublist_cons_self _ _)

theorem stop_le_of_mem_rangesFrom (d : Delimiters) {position : Nat} {pieces : List Piece} {range : Range}
    (mem : range ∈ rangesFrom position pieces) : range.stop ≤ position + (delimitedLine d pieces).length := by
  obtain ⟨left, c, text, right, rfl, rfl⟩ := (mem_rangesFrom_iff d).mp mem
  simp only [delimitedLine, List.flatMap_append, List.flatMap_cons, List.length_append, delimited]
  omega

theorem rangesFrom_concat_plain (position : Nat) (front : List Piece) (back : Text) :
    rangesFrom position (front ++ [.plain back]) = rangesFrom position front := by
  induction front generalizing position with
  | nil => rfl
  | cons p front ih =>
    cases p with
    | plain text => exact ih _
    | tagged c text => exact congrArg (List.cons _) (ih _)

theorem line_append (left right : List Piece) : line (left ++ right) = line left ++ line right := List.flatMap_append

/-- Wherever a piece is cut in three, the line still ends with a plain piece, the last of the three or what was last before. -/
theorem exists_open_end {front left right : List Piece} {back a text b : Text}
    (split : front ++ [.plain back] = left ++ .plain (a ++ text ++ b) :: right) (c : TagClass) :
    ∃ front' back', left ++ .plain a :: .tagged c text :: .plain b :: right = front' ++ [.plain back'] ∧
      (left = front ∧ line front' = line front ++ (a ++ text) ∨ line front' = line front) := by
  rcases List.eq_nil_or_concat right with rfl | ⟨right, last, rfl⟩
  · obtain ⟨rfl, -⟩ := List.append_inj' split rfl
    refine ⟨front ++ [.plain a, .tagged c text], b, by simp, .inl ⟨rfl, ?_⟩⟩
    rw [line_append]
    simp [line, Piece.text]
  · have ends : front ++ [.plain back] = (left ++ .plain (a ++ text ++ b) :: right) ++ [last] := by
      simp [split]
    obtain ⟨rfl, same⟩ := List.append_inj' ends rfl
    obtain rfl : Piece.plain back = last := List.head_eq_of_cons_eq same
    refine ⟨left ++ .plain a :: .tagged c text :: .plain b :: right, back, by simp, .inr ?_⟩
    rw [line_append, line_append]
    simp [line, Piece.text]

end Piece

/-! ## One token -/

/-- Nothing behind `column` is tagged, and before it only keywords are. -/
structure Reached (line : Text) (column : Nat) (pieces : List Piece) : Prop extends Highlighted line [] pieces where
  open_end : ∃ front back, pieces = front ++ [.plain back] ∧ (Piece.line front).length ≤ column

namespace Reached

variable {d : Delimiters} {line : Text} {column : Nat} {pieces : List Piece}

theorem start (line : Text) : Reached line 0 (cut line []) where
  toHighlighted := Highlighted.cut (show Row 0 line.length [] from Nat.zero_le _)
  open_end := ⟨[], between line 0 line.length, rfl, Nat.le_refl 0⟩

theorem last_le (h : Reached line column pieces) : ∀ s ∈ Piece.stretches pieces, s.last ≤ column := by
  obtain ⟨front, back, rfl, reach⟩ := h.open_end
  intro s mem
  have inFront : s ∈ Piece.stretchesFrom 0 front := by
    simpa [Piece.stretches, Piece.stretchesFrom_append, Piece.stretchesFrom] using mem
  have last := Piece.last_le_of_mem_stretchesFrom inFront
  omega

/-- The place of a token behind the column is unmarked. -/
theorem unmarked {front : List Piece} {back token a after : Text} (avoid : d.Avoid line)
    (h : Reached line column (front ++ [.plain back])) (split : back = a ++ (token ++ after)) :
    Unmarked d (Piece.delimitedLine d (front ++ [.plain back])) token ((Piece.delimitedLine d front).length + a.length) := by
  constructor
  · refine ⟨Piece.delimitedLine d front ++ a, after, ?_, List.length_append⟩
    simp [Piece.delimitedLine, Piece.delimited, split]
  · intro range mem
    rw [markedRanges_delimitedLine (avoid_of_avoid_line (h.line_eq.symm ▸ avoid)), Piece.rangesFrom_concat_plain] at mem
    have stop := Piece.stop_le_of_mem_rangesFrom d mem
    simp only [Range.touches, Bool.and_eq_false_iff, decide_eq_false_iff_not]
    omega

/-- What comes behind the column is in the open end. -/
theorem exists_back_eq {front : List Piece} {back before rest : Text} (h : Reached line column (front ++ [.plain back]))
    (reach : (Piece.line front).length ≤ column) (split : line = before ++ rest) (behind : column ≤ before.length) :
    ∃ a, before = Piece.line front ++ a ∧ back = a ++ rest := by
  have whole : Piece.line front ++ back = before ++ rest := by
    rw [← split, ← h.line_eq, Piece.line_append]
    simp [Piece.line, Piece.text]
  obtain ⟨a, rfl⟩ : Piece.line front <+: before :=
    List.prefix_of_prefix_length_le ⟨back, whole⟩ (List.prefix_append before _) (Nat.le_trans reach behind)
  exact ⟨a, rfl, List.append_cancel_left (whole.trans (List.append_assoc _ _ _))⟩

theorem step {token before after : Text} (h : Reached line column pieces) (avoid : d.Avoid line)
    (split : line = before ++ (token ++ after)) (behind : column ≤ before.length) (nonempty : token ≠ [])
    (keyword : Text.trim token ∈ keywords) :
    ∃ pieces', Reached line (before.length + token.length) pieces' ∧ Piece.Wraps .keyword token pieces pieces' ∧
      markKeyword d (Piece.delimitedLine d pieces) token = Piece.delimitedLine d pieces' := by
  obtain ⟨front, back, rfl, reach⟩ := h.open_end
  obtain ⟨a, rfl, back_eq⟩ := h.exists_back_eq reach split behind
  have clean : d.closing ∉ token := fun mem => avoid.closing_not_mem (by simp [split, mem])
  obtain ⟨first, le, found⟩ := exists_findUnmarked_le nonempty clean (h.unmarked avoid back_eq)
  obtain ⟨left, a', b', right, pieces_eq, place, run⟩ :=
    markKeyword_of_found (h.line_eq.symm ▸ avoid) h.alternating nonempty found
  have wraps : Piece.Wraps .keyword token (front ++ [.plain back])
      (left ++ .plain a' :: .tagged .keyword token :: .plain b' :: right) := by
    rw [pieces_eq]
    exact .intro left a' b' right
  obtain ⟨front', back', ends, lengths⟩ := Piece.exists_open_end pieces_eq .keyword
  refine ⟨_, ⟨h.toHighlighted.wrap wraps nonempty keyword, front', back', ends, ?_⟩, wraps, run⟩
  rw [List.length_append] at behind ⊢
  rcases lengths with ⟨rfl, grown⟩ | same
  · -- The place found is in the open end, and no later than the place of the token.
    rw [grown, List.length_append, List.length_append]
    omega
  · rw [same]
    omega

end Reached

/-! ## The pass -/

/-- What a run over tokens adds to the marks. The token at `j` sees `j + 1` new marks, none of which ends behind it. -/
structure Adds (places : List PlacedToken) (pieces pieces' : List Piece) : Prop where
  texts : (Piece.taggedTexts pieces').Perm (places.map PlacedToken.text ++ Piece.taggedTexts pieces)
  kept : (Piece.stretches pieces).Sublist (Piece.stretches pieces')
  early : ∀ j t, places[j]? = some t →
    (Piece.stretches pieces).length + (j + 1) ≤ (Piece.stretches pieces').countP fun s => s.last ≤ t.stop

namespace Adds

variable {places : List PlacedToken} {pieces pieces₁ pieces' : List Piece} {t : PlacedToken}

theorem nil (pieces : List Piece) : Adds [] pieces pieces where
  texts := List.Perm.refl _
  kept := List.Sublist.refl _
  early j t none := by simp at none

/-- One token, all marks then ending with it or before it, and then the others. -/
theorem cons (wraps : Piece.Wraps .keyword t.text pieces pieces₁) (last_le : ∀ s ∈ Piece.stretches pieces₁, s.last ≤ t.stop)
    (rest : Adds places pieces₁ pieces') : Adds (t :: places) pieces pieces' := by
  have count : (Piece.stretches pieces₁).length = (Piece.stretches pieces).length + 1 := by
    rw [Piece.stretches, Piece.stretches, Piece.length_stretchesFrom, Piece.length_stretchesFrom,
      wraps.taggedTexts_perm.length_eq, List.length_cons]
  constructor
  · calc List.Perm (Piece.taggedTexts pieces') (places.map PlacedToken.text ++ Piece.taggedTexts pieces₁) := rest.texts
      List.Perm _ (places.map PlacedToken.text ++ t.text :: Piece.taggedTexts pieces) :=
        wraps.taggedTexts_perm.append_left _
      List.Perm _ (t.text :: (places.map PlacedToken.text ++ Piece.taggedTexts pieces)) := List.perm_middle
  · exact wraps.stretches_sublist.trans rest.kept
  · intro j u found
    cases j with
    | zero =>
      obtain rfl : t = u := Option.some.inj found
      have all : (Piece.stretches pieces₁).countP (fun s => s.last ≤ t.stop) = (Piece.stretches pieces₁).length := by
        apply List.countP_eq_length.2
        intro s mem
        exact decide_eq_true (last_le s mem)
      have grows := rest.kept.countP_le (p := fun s => decide (s.last ≤ t.stop))
      omega
    | succ j =>
      have later := rest.early j u found
      omega

end Adds

theorem Reached.foldl {d : Delimiters} {line : Text} {column : Nat} {pieces : List Piece} {places : List PlacedToken}
    (h : Reached line column pieces) (avoid : d.Avoid line)
    (stands : ∀ t ∈ places, ∃ before after, line = before ++ (t.text ++ after) ∧ before.length = t.start)
    (keyword : ∀ t ∈ places, t.text ≠ [] ∧ Text.trim t.text ∈ keywords) (behind : ∀ t ∈ places, column ≤ t.start)
    (order : places.Pairwise fun a b => a.stop < b.start) :
    ∃ pieces', Highlighted line [] pieces' ∧ Adds places pieces pieces' ∧
      (places.map PlacedToken.text).foldl (markKeyword d) (Piece.delimitedLine d pieces) = Piece.delimitedLine d pieces' := by
  induction places generalizing column pieces with
  | nil => exact ⟨pieces, h.toHighlighted, Adds.nil pieces, rfl⟩
  | cons t places ih =>
    obtain ⟨before, after, split, place⟩ := stands t List.mem_cons_self
    obtain ⟨nonempty, word⟩ := keyword t List.mem_cons_self
    have here : column ≤ before.length := place ▸ behind t List.mem_cons_self
    obtain ⟨first, ordered⟩ := List.pairwise_cons.1 order
    obtain ⟨pieces₁, reached, wraps, step⟩ := h.step avoid split here nonempty word
    rw [place] at reached
    obtain ⟨pieces', highlighted, adds, run⟩ := ih reached (fun u mem => stands u (List.mem_cons_of_mem t mem))
      (fun u mem => keyword u (List.mem_cons_of_mem t mem)) (fun u mem => Nat.le_of_lt (first u mem)) ordered
    refine ⟨pieces', highlighted, Adds.cons wraps reached.last_le adds, ?_⟩
    rw [List.map_cons, List.foldl_cons, step, run]

/-- In a line without marks there is one stretch for each keyword token, and the texts of the stretches are these tokens. Up to
the end of a token there are as many stretches as there are keyword tokens. -/
theorem markKeywords_covers {d : Delimiters} {line : Text} (avoid : d.Avoid line) :
    ∃ pieces : List Piece,
      markKeywords d line = Piece.delimitedLine d pieces ∧
      Piece.line pieces = line ∧
      (∀ c text, .tagged c text ∈ pieces → c = .keyword ∧ text ≠ []) ∧
      (Piece.stretches pieces).length = (keywordTokens line).length ∧
      (Piece.stretches pieces).Pairwise (fun a b => a.last < b.first) ∧
      (Piece.taggedTexts pieces).Perm (keywordTokens line) ∧
      ∀ j t, (keywordPlaces line)[j]? = some t →
        j + 1 ≤ (Piece.stretches pieces).countP fun s => s.last ≤ t.stop := by
  have keyword : ∀ t ∈ keywordPlaces line, t.text ≠ [] ∧ Text.trim t.text ∈ keywords := by
    intro t mem
    have token : t.text ∈ keywordTokens line := map_text_keywordPlaces line ▸ List.mem_map_of_mem mem
    exact of_mem_keywordTokens token
  obtain ⟨pieces, h, adds, run⟩ := (Reached.start line).foldl avoid
    (fun t mem => exists_of_mem_keywordPlaces mem) keyword (fun t _ => Nat.zero_le t.start) (keywordPlaces_pairwise line)
  have plain : Piece.delimitedLine d (cut line []) = line := taggedLine_nil d line
  have texts : (Piece.taggedTexts pieces).Perm (keywordTokens line) := by
    simpa [map_text_keywordPlaces, cut, cutBetween, Piece.taggedTexts] using adds.texts
  refine ⟨pieces, ?_, h.line_eq, fun c text mem => ⟨h.eq_keyword mem, h.nonempty c text mem⟩, ?_,
    Piece.stretchesFrom_pairwise 0 pieces, texts, ?_⟩
  · rw [markKeywords, ← map_text_keywordPlaces, ← run, plain]
  · rw [Piece.stretches, Piece.length_stretchesFrom, texts.length_eq]
  · intro j t found
    have early := adds.early j t found
    omega

def loopLine : Text := "for index in\titems or in x".toList

/-- The token `in` at the end is spent inside a longer word. -/
theorem markKeywords_covers_loop :
    ∃ d, Delimiters.forLine loopLine = some d ∧ d.Avoid loopLine ∧
      keywordPlaces loopLine = [⟨0, "for".toList⟩, ⟨19, "or".toList⟩, ⟨22, "in".toList⟩] ∧
      ∃ pieces : List Piece,
        markKeywords d loopLine = Piece.delimitedLine d pieces ∧
        Piece.line pieces = loopLine ∧
        (∀ c text, .tagged c text ∈ pieces → c = .keyword ∧ text ≠ []) ∧
        (Piece.stretches pieces).length = (keywordTokens loopLine).length ∧
        (Piece.stretches pieces).Pairwise (fun a b => a.last < b.first) ∧
        (Piece.taggedTexts pieces).Perm (keywordTokens loopLine) ∧
        ∀ j t, (keywordPlaces loopLine)[j]? = some t →
          j + 1 ≤ (Piece.stretches pieces).countP fun s => s.last ≤ t.stop := by
  have free : (Delimiters.forLine loopLine).isSome := by decide +kernel
  obtain ⟨d, free⟩ := Option.isSome_iff_exists.1 free
  have avoid := Delimiters.avoid_of_forLine free
  exact ⟨d, free, avoid, by decide, markKeywords_covers avoid⟩

end PatternPages.Marking
