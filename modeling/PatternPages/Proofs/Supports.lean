import Mathlib.Algebra.Group.Nat.Defs
import PatternPages.Record

/-! Supports of a pattern in two classes. A support is two numerals with one hyphen between them, each with white space
around it; every other text is reported as it stands. -/
namespace PatternPages

/-! ## Numerals -/

namespace Text

/-- An optional plus sign and one or more decimal digits, whose value is `n`. -/
def Numeral (s : Text) (n : Nat) : Prop :=
  ∃ sign digits, s = sign ++ digits ∧ (sign = [] ∨ sign = ['+']) ∧ digits ≠ [] ∧ digits.all Char.isDigit = true ∧
    Nat.ofDigitChars 10 digits 0 = n

theorem withoutPlus_of_isDigit {digits : Text} (all : digits.all Char.isDigit = true) : withoutPlus digits = digits := by
  cases digits with
  | nil => rfl
  | cons c rest =>
    have digit : c.isDigit = true := List.all_eq_true.mp all c List.mem_cons_self
    unfold withoutPlus
    split
    · rename_i plus
      obtain rfl := (List.cons.inj plus).1
      cases digit
    · rfl

theorem numeral_iff {s : Text} {n : Nat} : Numeral s n ↔
    withoutPlus s ≠ [] ∧ (withoutPlus s).all Char.isDigit = true ∧ digitsValue (withoutPlus s) = n := by
  constructor
  · rintro ⟨sign, digits, rfl, rfl | rfl, nonempty, all, value⟩
    · rw [List.nil_append, withoutPlus_of_isDigit all]
      exact ⟨nonempty, all, value⟩
    · exact ⟨nonempty, all, value⟩
  · rintro ⟨nonempty, all, value⟩
    have signed : s = withoutPlus s ∨ s = '+' :: withoutPlus s := by
      unfold withoutPlus
      split
      · exact .inr rfl
      · exact .inl rfl
    rcases signed with plain | plus
    · exact ⟨[], _, plain, .inl rfl, nonempty, all, value⟩
    · exact ⟨['+'], _, plus, .inr rfl, nonempty, all, value⟩

theorem Numeral.unique {s : Text} {m n : Nat} (hm : Numeral s m) (hn : Numeral s n) : m = n :=
  (numeral_iff.mp hm).2.2.symm.trans (numeral_iff.mp hn).2.2

theorem number?_eq_some_iff {bound : Nat} {s : Text} {n : Nat} : number? bound s = some n ↔ Numeral s n ∧ n < bound := by
  rw [numeral_iff]
  unfold number?
  dsimp only
  split
  · rename_i digits
    simp only [Bool.and_eq_true, Bool.not_eq_true', List.isEmpty_eq_false_iff] at digits
    split
    · rename_i small
      constructor
      · intro h
        cases Option.some.inj h
        exact ⟨⟨digits.1, digits.2, rfl⟩, small⟩
      · rintro ⟨⟨-, -, rfl⟩, -⟩
        rfl
    · rename_i large
      constructor
      · exact nofun
      · rintro ⟨⟨-, -, rfl⟩, small⟩
        exact absurd small large
  · rename_i digits
    constructor
    · exact nofun
    · rintro ⟨⟨nonempty, all, -⟩, -⟩
      exact absurd (by simp [nonempty, all]) digits

theorem Numeral.ne_nil {s : Text} {n : Nat} (h : Numeral s n) : s ≠ [] := by
  rintro rfl
  exact (numeral_iff.mp h).1 rfl

theorem Numeral.mem {s : Text} {n : Nat} (h : Numeral s n) {c : Char} (mem : c ∈ s) : c = '+' ∨ c.isDigit = true := by
  obtain ⟨sign, digits, rfl, plus, -, all, -⟩ := h
  rcases List.mem_append.mp mem with mem | mem
  · rcases plus with rfl | rfl
    · cases mem
    · exact .inl (List.mem_singleton.mp mem)
  · exact .inr (List.all_eq_true.mp all c mem)

theorem isBlank_of_isDigit {c : Char} (digit : c.isDigit = true) : isBlank c = false := by
  have apart : ∀ range ∈ blankRanges, range.2.toNat < 48 ∨ 57 < range.1.toNat := by decide
  simp only [Char.isDigit, Bool.and_eq_true, decide_eq_true_eq, UInt32.le_iff_toNat_le] at digit
  obtain ⟨lower, upper⟩ := digit
  change 48 ≤ c.toNat at lower
  change c.toNat ≤ 57 at upper
  apply isBlank_of_outside
  intro range mem
  have outside := apart range mem
  omega

theorem Numeral.solid {s : Text} {n : Nat} (h : Numeral s n) {c : Char} (mem : c ∈ s) : isBlank c = false := by
  rcases h.mem mem with rfl | digit
  · decide
  · exact isBlank_of_isDigit digit

theorem Numeral.hyphen_not_mem {s : Text} {n : Nat} (h : Numeral (trim s) n) : '-' ∉ s := by
  intro mem
  rcases h.mem (mem_trim mem (by decide)) with plus | digit
  · cases plus
  · cases digit

theorem trim_of_solid {s : Text} (solid : ∀ c ∈ s, isBlank c = false) : trim s = s := by
  have kept (t : Text) (sub : ∀ c ∈ t, c ∈ s) : t.dropWhile isBlank = t := by
    cases t with
    | nil => rfl
    | cons c rest => exact List.dropWhile_cons_of_neg (by simp [solid c (sub c List.mem_cons_self)])
  have start : trimStart s = s := kept s fun _ mem => mem
  have reversed : s.reverse.dropWhile isBlank = s.reverse := kept s.reverse fun _ mem => List.mem_reverse.mp mem
  rw [trim, start, trimEnd, reversed, List.reverse_reverse]

theorem numeral_decimal (n : Nat) : Numeral (decimal n) n := by
  refine ⟨[], decimal n, rfl, .inl rfl, Nat.toDigits_ne_nil, ?_, Nat.ofDigitChars_ten_toDigits⟩
  apply List.all_eq_true.mpr
  intro c mem
  exact Nat.isDigit_of_mem_toDigits (by decide) (by decide) mem

theorem trim_decimal (n : Nat) : trim (decimal n) = decimal n :=
  trim_of_solid fun _ mem => (numeral_decimal n).solid mem

end Text

/-! ## Two numerals with a hyphen -/

namespace Pattern

open Text (trim isBlank Numeral)

theorem splitSupport_append {old : Text} (clean : '-' ∉ old) (new : Text) :
    splitSupport (old ++ '-' :: new) = some (old, new) := by
  induction old with
  | nil => rfl
  | cons c rest ih =>
    obtain ⟨other, clean⟩ := List.ne_and_not_mem_of_not_mem_cons clean
    rw [List.cons_append, splitSupport, if_neg (Ne.symm other), ih clean]
    rfl

theorem splitSupport_eq_some_iff {s old new : Text} :
    splitSupport s = some (old, new) ↔ s = old ++ '-' :: new ∧ '-' ∉ old := by
  constructor
  · intro split
    induction s generalizing old with
    | nil => cases split
    | cons c rest ih =>
      unfold splitSupport at split
      by_cases hyphen : c = '-'
      · rw [if_pos hyphen] at split
        cases split
        exact ⟨congrArg (· :: new) hyphen, List.not_mem_nil⟩
      · rw [if_neg hyphen] at split
        obtain ⟨sides, later, eq⟩ := Option.map_eq_some_iff.mp split
        cases eq
        obtain ⟨whole, clean⟩ := ih later
        exact ⟨congrArg (c :: ·) whole, List.not_mem_cons_of_ne_of_not_mem (Ne.symm hyphen) clean⟩
  · rintro ⟨rfl, clean⟩
    exact splitSupport_append clean new

variable {number : Nat} {s : Text} {old new : Nat}

theorem classSupport_eq_ok : classSupport ⟨number, some s⟩ = .ok (old, new) ↔
    ∃ a b, splitSupport s = some (a, b) ∧ supportNumber a = some old ∧ supportNumber b = some new := by
  unfold classSupport
  dsimp only
  constructor
  · intro ok
    split at ok
    · cases ok
    · rename_i a b split
      split at ok
      · rename_i oldRead newRead
        cases ok
        exact ⟨a, b, split, oldRead, newRead⟩
      · cases ok
  · rintro ⟨a, b, split, oldRead, newRead⟩
    simp only [split, oldRead, newRead]

theorem classSupport_cases (number : Nat) (s : Text) :
    (∃ old new, classSupport ⟨number, some s⟩ = .ok (old, new)) ∨
      classSupport ⟨number, some s⟩ = .error (.invalid elementName supportName s) := by
  unfold classSupport
  dsimp only
  split
  · exact .inr rfl
  · split
    · exact .inl ⟨_, _, rfl⟩
    · exact .inr rfl

/-- Two sides with a hyphen between them; each is a numeral of its number, with white space around it. -/
def Supports (s : Text) (old new : Nat) : Prop :=
  ∃ a b, s = a ++ '-' :: b ∧ Numeral (trim a) old ∧ Numeral (trim b) new

/-- No side has a hyphen, so the one in the middle is the first of the text. -/
theorem classSupport_eq_ok_iff :
    classSupport ⟨number, some s⟩ = .ok (old, new) ↔ Supports s old new ∧ old < 2 ^ 64 ∧ new < 2 ^ 64 := by
  have read (side : Text) (n : Nat) : supportNumber side = some n ↔ Numeral (trim side) n ∧ n < 2 ^ 64 :=
    Text.number?_eq_some_iff
  simp only [classSupport_eq_ok, splitSupport_eq_some_iff, read]
  constructor
  · rintro ⟨a, b, ⟨whole, -⟩, ⟨oldSide, oldSmall⟩, newSide, newSmall⟩
    exact ⟨⟨a, b, whole, oldSide, newSide⟩, oldSmall, newSmall⟩
  · rintro ⟨⟨a, b, whole, oldSide, newSide⟩, oldSmall, newSmall⟩
    exact ⟨a, b, ⟨whole, oldSide.hyphen_not_mem⟩, ⟨oldSide, oldSmall⟩, newSide, newSmall⟩

theorem Supports.count_hyphen (h : Supports s old new) : s.count '-' = 1 := by
  obtain ⟨a, b, rfl, oldSide, newSide⟩ := h
  simp [List.count_eq_zero.mpr oldSide.hyphen_not_mem, List.count_eq_zero.mpr newSide.hyphen_not_mem]

/-- A text that has a support is cut in two sides in one way only. -/
theorem Supports.sides {a b : Text} (h : Supports (a ++ '-' :: b) old new) :
    Numeral (trim a) old ∧ Numeral (trim b) new := by
  have single := h.count_hyphen
  obtain ⟨a', b', whole, oldSide, newSide⟩ := h
  have clean : '-' ∉ a := by
    intro mem
    have more := List.count_pos_iff.mpr mem
    simp only [List.count_append, List.count_cons_self] at single
    omega
  have here := splitSupport_append clean b
  rw [whole, splitSupport_append oldSide.hyphen_not_mem] at here
  cases here
  exact ⟨oldSide, newSide⟩

/-- What makes a text no support. -/
inductive Malformed (s : Text) : Prop where
  | tooLarge {a b : Text} {n : Nat} (whole : s = a ++ '-' :: b) (side : Numeral (trim a) n ∨ Numeral (trim b) n)
    (large : 2 ^ 64 ≤ n) : Malformed s
  | secondHyphen (more : 2 ≤ s.count '-') : Malformed s
  | noHyphen (none : '-' ∉ s) : Malformed s
  | missingSide {a b : Text} (whole : s = a ++ '-' :: b) (missing : trim a = [] ∨ trim b = []) : Malformed s
  | innerBlank {a b : Text} {c : Char} (whole : s = a ++ '-' :: b) (blank : isBlank c = true)
    (inside : c ∈ trim a ∨ c ∈ trim b) : Malformed s

theorem Malformed.not_ok (h : Malformed s) : classSupport ⟨number, some s⟩ ≠ .ok (old, new) := by
  intro ok
  obtain ⟨supports, oldSmall, newSmall⟩ := classSupport_eq_ok_iff.mp ok
  cases h with
  | tooLarge whole side large =>
    obtain ⟨oldSide, newSide⟩ := (whole ▸ supports).sides
    rcases side with side | side
    · have same := side.unique oldSide
      omega
    · have same := side.unique newSide
      omega
  | secondHyphen more =>
    have single := supports.count_hyphen
    omega
  | noHyphen none =>
    have single := supports.count_hyphen
    rw [List.count_eq_zero.mpr none] at single
    cases single
  | missingSide whole missing =>
    obtain ⟨oldSide, newSide⟩ := (whole ▸ supports).sides
    rcases missing with empty | empty
    · exact oldSide.ne_nil empty
    · exact newSide.ne_nil empty
  | innerBlank whole blank inside =>
    obtain ⟨oldSide, newSide⟩ := (whole ▸ supports).sides
    rcases inside with mem | mem
    · exact absurd blank (by simp [oldSide.solid mem])
    · exact absurd blank (by simp [newSide.solid mem])

/-- The support of a pattern is read just from the texts that the grammar allows, with numbers of 64 bits. It has one hyphen,
what is written for two numbers reads as these two, and any other text is reported as it is. -/
theorem classSupport_reads (number : Nat) (s : Text) :
    (∀ old new, classSupport ⟨number, some s⟩ = .ok (old, new) ↔ Supports s old new ∧ old < 2 ^ 64 ∧ new < 2 ^ 64) ∧
      (∀ old new, classSupport ⟨number, some s⟩ = .ok (old, new) → s.count '-' = 1) ∧
      (∀ old new, old < 2 ^ 64 → new < 2 ^ 64 →
        classSupport ⟨number, some (Text.decimal old ++ '-' :: Text.decimal new)⟩ = .ok (old, new)) ∧
      ((∀ old new, classSupport ⟨number, some s⟩ ≠ .ok (old, new)) →
        classSupport ⟨number, some s⟩ = .error (.invalid elementName supportName s)) ∧
      (Malformed s → classSupport ⟨number, some s⟩ = .error (.invalid elementName supportName s)) := by
  have refused (none : ∀ old new, classSupport ⟨number, some s⟩ ≠ .ok (old, new)) :
      classSupport ⟨number, some s⟩ = .error (.invalid elementName supportName s) := by
    apply (classSupport_cases number s).resolve_left
    rintro ⟨old, new, ok⟩
    exact none old new ok
  refine ⟨fun old new => classSupport_eq_ok_iff, ?_, ?_, refused, ?_⟩
  · intro old new ok
    exact (classSupport_eq_ok_iff.mp ok).1.count_hyphen
  · intro old new oldSmall newSmall
    apply classSupport_eq_ok_iff.mpr
    refine ⟨⟨Text.decimal old, Text.decimal new, rfl, ?_, ?_⟩, oldSmall, newSmall⟩
    · exact (Text.trim_decimal old).symm ▸ Text.numeral_decimal old
    · exact (Text.trim_decimal new).symm ▸ Text.numeral_decimal new
  · intro malformed
    exact refused fun old new => malformed.not_ok

/-- Leading zeros, a plus sign and a wide blank; the largest number and a side that is one too large. -/
theorem classSupport_reads_padded :
    Supports " +007 -\u300018446744073709551615".toList 7 18446744073709551615 ∧
      classSupport ⟨1, some " +007 -\u300018446744073709551615".toList⟩ = .ok (7, 18446744073709551615) ∧
      Malformed "7-18446744073709551616".toList ∧
      classSupport ⟨1, some "7-18446744073709551616".toList⟩ =
        .error (.invalid elementName supportName "7-18446744073709551616".toList) := by
  have supports : Supports " +007 -\u300018446744073709551615".toList 7 18446744073709551615 :=
    ⟨" +007 ".toList, "\u300018446744073709551615".toList, rfl,
      ⟨['+'], "007".toList, by decide, .inr rfl, by decide, by decide, by decide⟩,
      ⟨[], "18446744073709551615".toList, by decide, .inl rfl, by decide, by decide, by decide⟩⟩
  have large : Malformed "7-18446744073709551616".toList :=
    .tooLarge (a := ['7']) (n := 18446744073709551616) rfl
      (.inr ⟨[], "18446744073709551616".toList, by decide, .inl rfl, by decide, by decide, by decide⟩) (by decide)
  have read := ((classSupport_reads 1 " +007 -\u300018446744073709551615".toList).1 7 18446744073709551615).mpr
  obtain ⟨-, -, -, -, refused⟩ := classSupport_reads 1 "7-18446744073709551616".toList
  exact ⟨supports, read ⟨supports, by decide, by decide⟩, large, refused large⟩

end Pattern

end PatternPages
