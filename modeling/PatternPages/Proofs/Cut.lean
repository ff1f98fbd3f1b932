import PatternPages.Marking.Piece

/-! A line cut at spans that lie one behind the other. Splicing one more span into it, at the column where the span stands by
then, gives the line cut at that span too. -/
namespace PatternPages.Marking

/-- The characters behind column `first` up to column `last`. -/
def between (line : Text) (first last : Nat) : Text := (line.take last).drop first

theorem between_append (line : Text) {a b c : Nat} (hab : a ≤ b) (hbc : b ≤ c) :
    between line a b ++ between line b c = between line a c := by
  have parts : line.take c = line.take b ++ (line.drop b).take (c - b) := by
    rw [← List.take_add, Nat.add_sub_cancel' hbc]
  by_cases short : b ≤ line.length
  · have reach : a ≤ (line.take b).length := by
      rw [List.length_take]
      omega
    simp only [between]
    rw [List.drop_take (i := b), parts, List.drop_append_of_le_length reach]
  · have all : line.take b = line := List.take_of_length_le (by omega)
    have none : (line.take c).drop b = [] := List.drop_eq_nil_of_le (by rw [List.length_take]; omega)
    have whole : line.take c = line := List.take_of_length_le (by omega)
    simp only [between]
    rw [none, all, whole, List.append_nil]

theorem between_self (line : Text) (a : Nat) : between line a a = [] := List.drop_take_self

theorem between_all (line : Text) : between line 0 line.length = line := by
  simp [between]

theorem length_between {line : Text} {a b : Nat} (h : b ≤ line.length) :
    (between line a b).length = b - a := by
  rw [between, List.length_drop, List.length_take, Nat.min_eq_left h]

/-- The spans lie one behind the other in the columns behind `column` up to `last`. -/
def Row (column last : Nat) : List Span → Prop
  | [] => column ≤ last
  | s :: rest => column < s.start.toNat ∧ s.start.toNat ≤ s.stop.toNat ∧ Row s.stop.toNat last rest

namespace Row

theorem le {column last : Nat} {spans : List Span} (h : Row column last spans) : column ≤ last := by
  induction spans generalizing column with
  | nil => exact h
  | cons s rest ih =>
    obtain ⟨below, order, behind⟩ := h
    have := ih behind
    omega

theorem from_left {column column' last : Nat} {spans : List Span} (h : Row column last spans)
    (le : column' ≤ column) : Row column' last spans := by
  cases spans with
  | nil => exact Nat.le_trans le h
  | cons s rest => exact ⟨Nat.lt_of_le_of_lt le h.1, h.2⟩

theorem fits {column last : Nat} {spans : List Span} (h : Row column last spans) :
    ∀ s ∈ spans, column < s.start.toNat ∧ s.Fits last := by
  induction spans generalizing column with
  | nil => intro s hs; cases hs
  | cons first rest ih =>
    obtain ⟨below, order, behind⟩ := h
    intro s hs
    rcases List.mem_cons.1 hs with rfl | hs
    · exact ⟨below, by omega, order, behind.le⟩
    · have later := ih behind s hs
      exact ⟨by omega, later.2⟩

theorem split {column last : Nat} {left right : List Span} {s : Span}
    (h : Row column last (left ++ s :: right)) :
    column < s.start.toNat ∧ Row column (s.start.toNat - 1) left ∧
      s.start.toNat ≤ s.stop.toNat ∧ Row s.stop.toNat last right := by
  induction left generalizing column with
  | nil =>
    obtain ⟨below, order, behind⟩ := h
    exact ⟨below, show column ≤ s.start.toNat - 1 by omega, order, behind⟩
  | cons first left ih =>
    obtain ⟨below, order, behind⟩ := h
    obtain ⟨start, before, rest⟩ := ih behind
    exact ⟨by omega, ⟨below, order, before⟩, rest⟩

end Row

/-- The pieces of the characters behind `column` up to `last`, those of each span tagged. -/
def cutBetween (line : Text) (column last : Nat) : List Span → List Piece
  | [] => [.plain (between line column last)]
  | s :: rest =>
    .plain (between line column (s.start.toNat - 1)) ::
      .tagged s.kind.tagClass (between line (s.start.toNat - 1) s.stop.toNat) ::
        cutBetween line s.stop.toNat last rest

/-- The line with the characters of each span tagged. -/
def cut (line : Text) (spans : List Span) : List Piece := cutBetween line 0 line.length spans

theorem line_cutBetween (line : Text) {column last : Nat} {spans : List Span}
    (h : Row column last spans) :
    Piece.line (cutBetween line column last spans) = between line column last := by
  induction spans generalizing column with
  | nil => simp [cutBetween, Piece.line, Piece.text]
  | cons s rest ih =>
    obtain ⟨below, order, behind⟩ := h
    have tail := ih behind
    simp only [Piece.line] at tail
    simp only [cutBetween, Piece.line, List.flatMap_cons, Piece.text, tail]
    rw [between_append line (by omega) behind.le, between_append line (by omega) (by have := behind.le; omega)]

theorem line_cut {line : Text} {spans : List Span} (h : Row 0 line.length spans) :
    Piece.line (cut line spans) = line :=
  (line_cutBetween line h).trans (between_all line)

theorem mem_tagged_cutBetween {line : Text} {column last : Nat} {spans : List Span} {c : TagClass} {text : Text}
    (h : .tagged c text ∈ cutBetween line column last spans) :
    ∃ s ∈ spans, c = s.kind.tagClass ∧ text = between line (s.start.toNat - 1) s.stop.toNat := by
  induction spans generalizing column with
  | nil => simp [cutBetween] at h
  | cons s rest ih =>
    simp only [cutBetween, List.mem_cons, reduceCtorEq, false_or, Piece.tagged.injEq] at h
    rcases h with ⟨rfl, rfl⟩ | h
    · exact ⟨s, List.mem_cons_self, rfl, rfl⟩
    · obtain ⟨t, ht, found⟩ := ih h
      exact ⟨t, List.mem_cons_of_mem s ht, found⟩

/-- A cut between the spans on the left and those on the right shows in the delimited line only as a place. -/
theorem delimitedLine_cutBetween_append (d : Delimiters) (line : Text) {column middle last : Nat}
    {left right : List Span} (hleft : Row column middle left) (hright : Row middle last right) :
    Piece.delimitedLine d (cutBetween line column last (left ++ right)) =
      Piece.delimitedLine d (cutBetween line column middle left) ++
        Piece.delimitedLine d (cutBetween line middle last right) := by
  induction left generalizing column with
  | nil =>
    cases right with
    | nil =>
      simp [cutBetween, Piece.delimitedLine, Piece.delimited, between_append line hleft hright]
    | cons s rest =>
      have gap : between line column (s.start.toNat - 1) =
          between line column middle ++ between line middle (s.start.toNat - 1) :=
        (between_append line hleft (by have := hright.1; omega)).symm
      simp [cutBetween, Piece.delimitedLine, Piece.delimited, gap]
  | cons s left ih =>
    obtain ⟨_, _, behind⟩ := hleft
    have tail := ih behind
    simp only [Piece.delimitedLine] at tail
    simp [cutBetween, Piece.delimitedLine, tail]

theorem length_delimitedLine_cutBetween (d : Delimiters) {line : Text} {column last : Nat} {spans : List Span}
    (h : Row column last spans) (short : last ≤ line.length) :
    (Piece.delimitedLine d (cutBetween line column last spans)).length =
      last - column + spans.length * Delimiters.tagWidth := by
  induction spans generalizing column with
  | nil => simp [cutBetween, Piece.delimitedLine, Piece.delimited, length_between short]
  | cons s rest ih =>
    obtain ⟨below, order, behind⟩ := h
    have reach := behind.le
    have tail := ih behind
    simp only [Piece.delimitedLine] at tail
    simp only [cutBetween, Piece.delimitedLine, List.flatMap_cons, Piece.delimited, List.length_append,
      Delimiters.length_tagged, tail, List.length_cons]
    rw [length_between (by omega), length_between (by omega), Nat.add_mul]
    omega

/-- The line with its spans tagged, in delimiters. -/
def taggedLine (d : Delimiters) (line : Text) (spans : List Span) : Text :=
  Piece.delimitedLine d (cut line spans)

theorem taggedLine_nil (d : Delimiters) (line : Text) : taggedLine d line [] = line := by
  simp [taggedLine, cut, cutBetween, Piece.delimitedLine, Piece.delimited, between_all]

theorem length_taggedLine (d : Delimiters) {line : Text} {spans : List Span} (h : Row 0 line.length spans) :
    (taggedLine d line spans).length = line.length + spans.length * Delimiters.tagWidth :=
  length_delimitedLine_cutBetween d h (Nat.le_refl _)

/-- A splice at the columns that `t` has behind the tags of `left` puts `s` between `left` and `right`. -/
theorem splice_taggedLine (d : Delimiters) {line : Text} {left right : List Span} {s t : Span}
    (h : Row 0 line.length (left ++ s :: right)) (kind : t.kind = s.kind)
    (start : t.start.toNat = s.start.toNat + left.length * Delimiters.tagWidth)
    (stop : t.stop.toNat = s.stop.toNat + left.length * Delimiters.tagWidth) :
    splice d (taggedLine d line (left ++ right)) t = .ok (taggedLine d line (left ++ s :: right)) := by
  obtain ⟨positive, before, order, behind⟩ := h.split
  have reach := behind.le
  let marked := between line (s.start.toNat - 1) s.stop.toNat
  let front := Piece.delimitedLine d (cutBetween line 0 (s.start.toNat - 1) left)
  let back := Piece.delimitedLine d (cutBetween line s.stop.toNat line.length right)
  have unspliced : taggedLine d line (left ++ right) = front ++ (marked ++ back) := by
    have rest : Row (s.start.toNat - 1) line.length right := behind.from_left (by omega)
    have gap : Row (s.start.toNat - 1) s.stop.toNat [] := show _ ≤ _ by omega
    rw [taggedLine, cut, delimitedLine_cutBetween_append d line before rest, ← List.nil_append right,
      delimitedLine_cutBetween_append d line gap behind]
    simp [cutBetween, Piece.delimitedLine, Piece.delimited, front, marked, back]
  have spliced : taggedLine d line (left ++ s :: right) =
      front ++ d.tagged s.kind.tagClass marked ++ back := by
    have rest : Row (s.start.toNat - 1) line.length (s :: right) := ⟨by omega, order, behind⟩
    rw [taggedLine, cut, delimitedLine_cutBetween_append d line before rest]
    simp [cutBetween, Piece.delimitedLine, Piece.delimited, between_self, front, marked, back]
  have frontLength : front.length = t.start.toNat - 1 := by
    rw [length_delimitedLine_cutBetween d before (by omega)]
    omega
  have markedLength : marked.length = t.stop.toNat - (t.start.toNat - 1) := by
    rw [length_between reach]
    omega
  have fits : t.Fits (taggedLine d line (left ++ right)).length := by
    rw [unspliced]
    simp only [Span.Fits, List.length_append, frontLength, markedLength]
    omega
  have whole : (front ++ marked).length = t.stop.toNat := by
    rw [List.length_append, frontLength, markedLength]
    omega
  rw [splice, if_pos fits, unspliced, spliced, List.take_left' frontLength, ← List.append_assoc front,
    List.take_left' whole, List.drop_left' frontLength, List.drop_left' whole, kind]

end PatternPages.Marking
