/-! White space of texts: the Unicode property White_Space, and trimming by it. -/
namespace PatternPages

/-- A text is the list of its characters; a character is a Unicode scalar value. -/
abbrev Text := List Char

namespace Text

/-- The ranges of the property White_Space, 25 characters. -/
def blankRanges : List (Char × Char) :=
  [('\t', '\r'), (' ', ' '), ('\u0085', '\u0085'), ('\u00a0', '\u00a0'), ('\u1680', '\u1680'),
    ('\u2000', '\u200a'), ('\u2028', '\u2029'), ('\u202f', '\u202f'), ('\u205f', '\u205f'),
    ('\u3000', '\u3000')]

def isBlank (c : Char) : Bool := blankRanges.any fun range => range.1 ≤ c && c ≤ range.2

def trimStart (s : Text) : Text := s.dropWhile isBlank

def trimEnd (s : Text) : Text := (s.reverse.dropWhile isBlank).reverse

def trim (s : Text) : Text := trimEnd (trimStart s)

theorem isBlank_of_outside {c : Char} (outside : ∀ range ∈ blankRanges, c.toNat < range.1.toNat ∨ range.2.toNat < c.toNat) :
    isBlank c = false := by
  apply List.any_eq_false.2
  intro range mem inside
  simp only [Bool.and_eq_true, decide_eq_true_eq] at inside
  have lower : range.1.toNat ≤ c.toNat := inside.1
  have upper : c.toNat ≤ range.2.toNat := inside.2
  have apart := outside range mem
  omega

theorem mem_dropWhile {p : Char → Bool} {c : Char} {s : Text} (mem : c ∈ s) (stays : p c = false) :
    c ∈ s.dropWhile p := by
  induction s with
  | nil => cases mem
  | cons d s ih =>
    by_cases drops : p d = true
    · rw [List.dropWhile_cons_of_pos drops]
      rcases List.mem_cons.1 mem with rfl | mem
      · exact absurd (stays.symm.trans drops) Bool.false_ne_true
      · exact ih mem
    · rwa [List.dropWhile_cons_of_neg drops]

theorem mem_trim {c : Char} {s : Text} (mem : c ∈ s) (solid : isBlank c = false) : c ∈ trim s := by
  apply List.mem_reverse.2
  apply mem_dropWhile _ solid
  apply List.mem_reverse.2
  exact mem_dropWhile mem solid

example : (blankRanges.map fun range => range.2.toNat - range.1.toNat + 1).sum = 25 := by decide

end Text

end PatternPages
