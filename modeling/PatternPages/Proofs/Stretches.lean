import Mathlib.Data.List.Chain
import PatternPages.Proofs.Cut

/-! Where the tagged pieces of a line stand, and what changes when a part of a plain piece is tagged. -/
namespace PatternPages.Marking

/-- The columns of a tagged piece. -/
structure Stretch where
  tagClass : TagClass
  first : Nat
  last : Nat
  deriving DecidableEq

def Span.stretch (s : Span) : Stretch := ⟨s.kind.tagClass, s.start.toNat, s.stop.toNat⟩

namespace Piece

/-- The stretches of pieces that begin behind `column`. -/
def stretchesFrom (column : Nat) : List Piece → List Stretch
  | [] => []
  | .plain text :: rest => stretchesFrom (column + text.length) rest
  | .tagged c text :: rest =>
    ⟨c, column + 1, column + text.length⟩ :: stretchesFrom (column + text.length) rest

def stretches (pieces : List Piece) : List Stretch := stretchesFrom 0 pieces

theorem stretchesFrom_append (column : Nat) (left right : List Piece) :
    stretchesFrom column (left ++ right) =
      stretchesFrom column left ++ stretchesFrom (column + (line left).length) right := by
  induction left generalizing column with
  | nil => rfl
  | cons p left ih =>
    cases p with
    | plain text => simp [stretchesFrom, ih, line, Piece.text, Nat.add_assoc]
    | tagged c text => simp [stretchesFrom, ih, line, Piece.text, Nat.add_assoc]

theorem lt_first_of_mem_stretchesFrom {column : Nat} {pieces : List Piece} {s : Stretch}
    (h : s ∈ stretchesFrom column pieces) : column < s.first := by
  induction pieces generalizing column with
  | nil => cases h
  | cons p rest ih =>
    cases p with
    | plain text => exact Nat.lt_of_le_of_lt (Nat.le_add_right _ _) (ih h)
    | tagged c text =>
      rcases List.mem_cons.1 h with rfl | h
      · exact Nat.lt_succ_self column
      · exact Nat.lt_of_le_of_lt (Nat.le_add_right _ _) (ih h)

theorem stretchesFrom_pairwise (column : Nat) (pieces : List Piece) :
    (stretchesFrom column pieces).Pairwise fun a b => a.last < b.first := by
  induction pieces generalizing column with
  | nil => exact .nil
  | cons p rest ih =>
    cases p with
    | plain text => exact ih _
    | tagged c text => exact .cons (fun _ hs => lt_first_of_mem_stretchesFrom hs) (ih _)

theorem exists_stretch_of_tagged {pieces : List Piece} {c : TagClass} {text : Text} (column : Nat)
    (mem : .tagged c text ∈ pieces) : ∃ s ∈ stretchesFrom column pieces, s.tagClass = c := by
  induction pieces generalizing column with
  | nil => cases mem
  | cons p rest ih =>
    rcases List.mem_cons.1 mem with rfl | later
    · exact ⟨_, List.mem_cons_self, rfl⟩
    · cases p with
      | plain text => exact ih _ later
      | tagged c' text' =>
        obtain ⟨s, hs, same⟩ := ih (column + text'.length) later
        exact ⟨s, List.mem_cons_of_mem _ hs, same⟩

theorem stretchesFrom_cutBetween {line : Text} {column last : Nat} {spans : List Span}
    (h : Row column last spans) (short : last ≤ line.length) :
    stretchesFrom column (cutBetween line column last spans) = spans.map Span.stretch := by
  induction spans generalizing column with
  | nil => rfl
  | cons s rest ih =>
    obtain ⟨below, order, behind⟩ := h
    have reach := behind.le
    have before : column + (between line column (s.start.toNat - 1)).length = s.start.toNat - 1 := by
      rw [length_between (by omega)]
      omega
    have inside : s.start.toNat - 1 + (between line (s.start.toNat - 1) s.stop.toNat).length = s.stop.toNat := by
      rw [length_between (by omega)]
      omega
    have start : s.start.toNat - 1 + 1 = s.start.toNat := by omega
    simp only [cutBetween, stretchesFrom, before, inside, start, ih behind, List.map_cons, Span.stretch]

theorem stretches_cut {line : Text} {spans : List Span} (h : Row 0 line.length spans) :
    stretches (cut line spans) = spans.map Span.stretch :=
  stretchesFrom_cutBetween h (Nat.le_refl _)

/-! ## Tagging a part of a plain piece -/

def isTagged : Piece → Bool
  | plain _ => false
  | tagged _ _ => true

/-- No two plain pieces stand side by side. -/
def Alternating (pieces : List Piece) : Prop := pieces.IsChain fun p q => p.isTagged ∨ q.isTagged

/-- One plain piece is cut in three and the middle tagged. -/
inductive Wraps (c : TagClass) (text : Text) : List Piece → List Piece → Prop
  | intro (left : List Piece) (a b : Text) (right : List Piece) :
    Wraps c text (left ++ .plain (a ++ text ++ b) :: right)
      (left ++ .plain a :: .tagged c text :: .plain b :: right)

namespace Wraps

variable {c : TagClass} {text : Text} {before after : List Piece}

theorem line_eq (h : Wraps c text before after) : line after = line before := by
  cases h
  simp [line, Piece.text]

theorem alternating (h : Wraps c text before after) (alternates : Alternating before) :
    Alternating after := by
  cases h with
  | intro left a b right =>
    simp only [Alternating, List.isChain_append, List.isChain_cons, List.head?_cons, Option.mem_def,
      Option.some.injEq, isTagged] at alternates ⊢
    simp_all

theorem filter_stretches (h : Wraps c text before after) :
    (stretches after).filter (·.tagClass ≠ c) = (stretches before).filter (·.tagClass ≠ c) := by
  cases h
  simp [stretches, stretchesFrom_append, stretchesFrom, Nat.add_assoc]

theorem mem_tagged (h : Wraps c text before after) {k : TagClass} {t : Text} (mem : .tagged k t ∈ after) :
    .tagged k t ∈ before ∨ k = c ∧ t = text := by
  cases h with
  | intro left a b right =>
    simp only [List.mem_append, List.mem_cons, reduceCtorEq, tagged.injEq, false_or] at mem ⊢
    rcases mem with mem | ⟨rfl, rfl⟩ | mem
    · exact .inl (.inl mem)
    · exact .inr ⟨rfl, rfl⟩
    · exact .inl (.inr mem)

end Wraps

theorem alternating_cutBetween (line : Text) (column last : Nat) (spans : List Span) :
    Alternating (cutBetween line column last spans) := by
  induction spans generalizing column with
  | nil => exact .singleton _
  | cons s rest ih =>
    have tail := ih s.stop.toNat
    simp only [Alternating, cutBetween, List.isChain_cons, List.head?_cons, Option.mem_def,
      Option.some.injEq, isTagged] at tail ⊢
    simp_all

end Piece

end PatternPages.Marking
