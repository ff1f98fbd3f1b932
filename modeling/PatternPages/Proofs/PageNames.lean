import PatternPages.Assembly
import PatternPages.Proofs.Places

/-! The names of pages. A name tells which page it is of: its kind, its numbers and its corpus. -/
namespace PatternPages

namespace Text

theorem decimal_injective {m n : Nat} (h : decimal m = decimal n) : m = n := by
  have value (k : Nat) : Nat.ofDigitChars 10 (decimal k) 0 = k :=
    Nat.ofDigitChars_toDigits (by decide) (by decide)
  rw [← value m, h, value n]

theorem isDigit_of_mem_decimal {n : Nat} {c : Char} (h : c ∈ decimal n) : c.isDigit = true :=
  Nat.isDigit_of_mem_toDigits (by decide) (by decide) h

theorem decimal_append_injective {m n : Nat} {x y : Text} (h : decimal m ++ '_' :: x = decimal n ++ '_' :: y) :
    m = n ∧ x = y := by
  have digits (k : Nat) (z : Text) : (decimal k ++ '_' :: z).takeWhile Char.isDigit = decimal k := by
    rw [List.takeWhile_append_of_pos fun c => isDigit_of_mem_decimal]
    simp
  have same : decimal m = decimal n := by rw [← digits m x, h, digits n y]
  rw [same] at h
  exact ⟨decimal_injective same, List.tail_eq_of_cons_eq (List.append_cancel_left h)⟩

end Text

theorem Corpus.label_injective {c d : Corpus} (h : c.label = d.label) : c = d := by
  cases c <;> cases d <;> first | rfl | exact absurd h (by decide)

/-- A page of a report, by what it shows. -/
inductive PageName where
  | patterns
  | index
  | listing (pattern : Nat) (corpus : Corpus)
  | source (pattern number : Nat) (corpus : Corpus)
  deriving DecidableEq

namespace PageName

def file : PageName → Text
  | patterns => Html.patternsFile
  | index => Html.indexFile
  | listing pattern corpus => Html.listingFile pattern corpus.label
  | source pattern number corpus => Html.matchFile pattern number corpus.label

/-- The character that tells the kinds of names from each other. -/
def mark : PageName → Char
  | patterns => 's'
  | index => 't'
  | listing _ _ => '_'
  | source _ _ _ => 'I'

theorem getElem?_file (name : PageName) : name.file[7]? = some name.mark := by
  cases name <;> rfl

theorem listingFile_eq (k : Nat) (label : Text) :
    Html.listingFile k label =
      "pattern_".toList ++ (Text.decimal k ++ '_' :: ("matches_".toList ++ (label ++ ".html".toList))) := by
  have word : "_matches_".toList = '_' :: "matches_".toList := by decide +kernel
  unfold Html.listingFile
  rw [word]
  generalize "pattern_".toList = front, "matches_".toList = middle, ".html".toList = back
  simp only [List.append_assoc, List.cons_append]

theorem matchFile_eq (k i : Nat) (label : Text) :
    Html.matchFile k i label =
      "patternID_".toList ++
        (Text.decimal k ++ '_' :: ("matchID_".toList ++ (Text.decimal i ++ '_' :: (label ++ ".html".toList)))) := by
  have word : "_matchID_".toList = '_' :: "matchID_".toList := by decide +kernel
  unfold Html.matchFile
  rw [word]
  generalize "patternID_".toList = front, "matchID_".toList = middle, ".html".toList = back
  simp only [List.append_assoc, List.cons_append]

theorem listingFile_injective {k k' : Nat} {c c' : Corpus}
    (h : Html.listingFile k c.label = Html.listingFile k' c'.label) : k = k' ∧ c = c' := by
  rw [listingFile_eq, listingFile_eq] at h
  obtain ⟨number, rest⟩ := Text.decimal_append_injective (List.append_cancel_left h)
  exact ⟨number, Corpus.label_injective (List.append_cancel_right (List.append_cancel_left rest))⟩

theorem matchFile_injective {k k' i i' : Nat} {c c' : Corpus}
    (h : Html.matchFile k i c.label = Html.matchFile k' i' c'.label) : k = k' ∧ i = i' ∧ c = c' := by
  rw [matchFile_eq, matchFile_eq] at h
  obtain ⟨number, rest⟩ := Text.decimal_append_injective (List.append_cancel_left h)
  obtain ⟨position, label⟩ := Text.decimal_append_injective (List.append_cancel_left rest)
  exact ⟨number, position, Corpus.label_injective (List.append_cancel_right label)⟩

theorem file_injective {a b : PageName} (h : a.file = b.file) : a = b := by
  have kind : some a.mark = some b.mark := by rw [← getElem?_file, h, getElem?_file]
  cases a with
  | patterns =>
    cases b with
    | patterns => rfl
    | _ => exact absurd kind (by simp [mark])
  | index =>
    cases b with
    | index => rfl
    | _ => exact absurd kind (by simp [mark])
  | listing k c =>
    cases b with
    | listing k' c' =>
      obtain ⟨rfl, rfl⟩ := listingFile_injective h
      rfl
    | _ => exact absurd kind (by simp [mark])
  | source k i c =>
    cases b with
    | source k' i' c' =>
      obtain ⟨rfl, rfl, rfl⟩ := matchFile_injective h
      rfl
    | _ => exact absurd kind (by simp [mark])

theorem html_suffix_file (name : PageName) : ".html".toList <:+ name.file := by
  cases name with
  | patterns => decide +kernel
  | index => decide +kernel
  | listing k corpus => exact List.suffix_append _ _
  | source k i corpus => exact List.suffix_append _ _

def Allowed (c : Char) : Prop := c ≠ '/' ∧ c ≠ '\x00'

instance (c : Char) : Decidable (Allowed c) := inferInstanceAs (Decidable (_ ∧ _))

theorem allowed_of_mem_decimal {n : Nat} {c : Char} (h : c ∈ Text.decimal n) : Allowed c := by
  have digit := Text.isDigit_of_mem_decimal h
  constructor
  · rintro rfl
    exact absurd digit (by decide)
  · rintro rfl
    exact absurd digit (by decide)

theorem allowed_of_all {s : Text} (all : (s.all fun c => decide (Allowed c)) = true) : ∀ c ∈ s, Allowed c :=
  fun c mem => of_decide_eq_true (List.all_eq_true.1 all c mem)

theorem allowed_of_mem_file (name : PageName) : ∀ c ∈ name.file, Allowed c := by
  have ending (corpus : Corpus) : ∀ c ∈ corpus.label ++ ".html".toList, Allowed c := by
    cases corpus <;> exact allowed_of_all (by decide +kernel)
  cases name with
  | patterns => exact allowed_of_all (by decide +kernel)
  | index => exact allowed_of_all (by decide +kernel)
  | listing k corpus =>
    have front : ∀ c ∈ "pattern_".toList, Allowed c := allowed_of_all (by decide +kernel)
    have middle : ∀ c ∈ '_' :: "matches_".toList, Allowed c := allowed_of_all (by decide +kernel)
    rw [file, listingFile_eq, ← List.cons_append]
    simp only [List.forall_mem_append]
    exact ⟨front, fun c => allowed_of_mem_decimal, middle, List.forall_mem_append.1 (ending corpus)⟩
  | source k i corpus =>
    have front : ∀ c ∈ "patternID_".toList, Allowed c := allowed_of_all (by decide +kernel)
    have middle : ∀ c ∈ '_' :: "matchID_".toList, Allowed c := allowed_of_all (by decide +kernel)
    have last : Allowed '_' := by decide
    rw [file, matchFile_eq, ← List.cons_append]
    simp only [List.forall_mem_append, List.forall_mem_cons]
    exact ⟨front, fun c => allowed_of_mem_decimal, List.forall_mem_cons.1 middle,
      fun c => allowed_of_mem_decimal, last, List.forall_mem_append.1 (ending corpus)⟩

theorem plain_file (name : PageName) : Path.Plain name.file := by
  have kind := getElem?_file name
  refine ⟨fun slash => (allowed_of_mem_file name '/' slash).1 rfl, fun idle => ?_, fun up => ?_⟩
  · simp only [Path.isIdle, Bool.or_eq_true, decide_eq_true_eq] at idle
    rcases idle with empty | here
    · simp [empty] at kind
    · simp [here, Path.here] at kind
  · simp [up, Path.up] at kind

end PageName

/-- The page is of one of the patterns, which are numbered from 1 up to `count`. -/
def PageName.Within (count : Nat) : PageName → Prop
  | patterns => True
  | index => True
  | listing k _ => 1 ≤ k ∧ k ≤ count
  | source k i _ => (1 ≤ k ∧ k ≤ count) ∧ 1 ≤ i

end PatternPages
