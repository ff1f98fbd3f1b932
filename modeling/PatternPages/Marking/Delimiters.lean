import PatternPages.Text.Blank

/-! Stand-ins for the angle brackets of tags while a line is being marked. They are two private-use characters that the
line does not contain, so that text and tags cannot be confused. -/
namespace PatternPages.Marking

/-- The characters from U+E000 to U+F8FF. -/
def privateUse : List Char := (List.range (0xF8FF + 1 - 0xE000)).map fun i => Char.ofNat (0xE000 + i)

theorem le_toNat_of_privateUse {c : Char} (h : c ∈ privateUse) : 0xE000 ≤ c.toNat := by
  obtain ⟨i, range, rfl⟩ := List.mem_map.1 h
  have bound : i < 0xF8FF + 1 - 0xE000 := List.mem_range.1 range
  have valid : (0xE000 + i).isValidChar := Or.inr ⟨by omega, by omega⟩
  have value : (Char.ofNat (0xE000 + i)).toNat = 0xE000 + i := by
    rw [Char.ofNat, dif_pos valid]
    rfl
  rw [value]
  exact Nat.le_add_right _ _

structure Delimiters where
  opening : Char
  closing : Char
  opening_mem : opening ∈ privateUse
  closing_mem : closing ∈ privateUse
  distinct : closing ≠ opening
  deriving DecidableEq

namespace Delimiters

def Avoid (d : Delimiters) (text : Text) : Prop := ∀ c ∈ text, c ≠ d.opening ∧ c ≠ d.closing

instance (d : Delimiters) (text : Text) : Decidable (d.Avoid text) :=
  inferInstanceAs (Decidable (∀ c ∈ text, _))

theorem Avoid.closing_not_mem {d : Delimiters} {text : Text} (avoid : d.Avoid text) : d.closing ∉ text :=
  fun mem => (avoid d.closing mem).2 rfl

/-- The first two private-use characters absent from `line`. -/
def forLine (line : Text) : Option Delimiters :=
  match first : privateUse.find? fun c => !line.contains c with
  | none => none
  | some opening =>
    match second : privateUse.find? fun c => !line.contains c && c != opening with
    | none => none
    | some closing =>
      some ⟨opening, closing, List.mem_of_find?_eq_some first, List.mem_of_find?_eq_some second, by
        have found := List.find?_some second
        simp only [Bool.and_eq_true, bne_iff_ne] at found
        exact found.2⟩

theorem avoid_of_forLine {line : Text} {d : Delimiters} (h : forLine line = some d) : d.Avoid line := by
  unfold forLine at h
  split at h
  case h_1 => simp at h
  case h_2 opening first =>
    split at h
    case h_1 => simp at h
    case h_2 closing second =>
      have absentOpening := List.find?_some first
      have absentClosing := List.find?_some second
      simp only [Bool.and_eq_true, Bool.not_eq_true', List.contains_eq_mem, decide_eq_false_iff_not]
        at absentOpening absentClosing
      rw [← Option.some.inj h]
      intro c hc
      constructor
      · rintro rfl
        exact absentOpening hc
      · rintro rfl
        exact absentClosing.1 hc

theorem avoid_of_ascii (d : Delimiters) {text : Text} (ascii : ∀ c ∈ text, c.toNat ≤ 127) : d.Avoid text := by
  intro c hc
  have low := ascii c hc
  have opening := le_toNat_of_privateUse d.opening_mem
  have closing := le_toNat_of_privateUse d.closing_mem
  constructor
  · rintro rfl
    omega
  · rintro rfl
    omega

end Delimiters

end PatternPages.Marking
