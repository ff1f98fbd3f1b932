import PatternPages.Marking.Keywords

/-! Where the tokens of a line stand. -/
namespace PatternPages.Marking

/-- A keyword with white space around it. -/
def isKeyword (token : Text) : Bool := keywords.contains (Text.trim token)

/-- A token of a line, behind `start` characters. -/
structure PlacedToken where
  start : Nat
  text : Text
  deriving DecidableEq

namespace PlacedToken

def stop (t : PlacedToken) : Nat := t.start + t.text.length

def isKeyword (t : PlacedToken) : Bool := Marking.isKeyword t.text

end PlacedToken

/-- Tokens side by side with a space between any two. -/
def placedFrom (start : Nat) : List Text → List PlacedToken
  | [] => []
  | token :: rest => ⟨start, token⟩ :: placedFrom (start + token.length + 1) rest

/-- The keyword tokens of a line where they stand. -/
def keywordPlaces (line : Text) : List PlacedToken :=
  (placedFrom 0 (Text.splitAt ' ' line)).filter PlacedToken.isKeyword

theorem map_text_placedFrom (start : Nat) (parts : List Text) :
    (placedFrom start parts).map PlacedToken.text = parts := by
  induction parts generalizing start with
  | nil => rfl
  | cons token rest ih => exact congrArg (List.cons token) (ih _)

theorem map_text_keywordPlaces (line : Text) : (keywordPlaces line).map PlacedToken.text = keywordTokens line := by
  have parts := map_text_placedFrom 0 (Text.splitAt ' ' line)
  rw [keywordTokens, ← parts, List.filter_map]
  rfl

theorem le_start_of_mem_placedFrom {start : Nat} {parts : List Text} {t : PlacedToken}
    (mem : t ∈ placedFrom start parts) : start ≤ t.start := by
  induction parts generalizing start with
  | nil => cases mem
  | cons token rest ih =>
    rcases List.mem_cons.1 mem with rfl | later
    · exact Nat.le_refl _
    · have := ih later
      omega

theorem placedFrom_pairwise (start : Nat) (parts : List Text) :
    (placedFrom start parts).Pairwise fun a b => a.stop < b.start := by
  induction parts generalizing start with
  | nil => exact .nil
  | cons token rest ih => exact .cons (fun _ later => le_start_of_mem_placedFrom later) (ih _)

theorem exists_of_mem_placedFrom {start : Nat} {parts : List Text} {t : PlacedToken}
    (mem : t ∈ placedFrom start parts) :
    ∃ before after, Text.joinWith ' ' parts = before ++ (t.text ++ after) ∧ t.start = start + before.length := by
  induction parts generalizing start with
  | nil => cases mem
  | cons token rest ih =>
    rcases List.mem_cons.1 mem with rfl | later
    · cases rest with
      | nil => exact ⟨[], [], (List.append_nil token).symm, rfl⟩
      | cons next rest => exact ⟨[], ' ' :: Text.joinWith ' ' (next :: rest), rfl, rfl⟩
    · obtain ⟨before, after, split, place⟩ := ih later
      cases rest with
      | nil => cases later
      | cons next rest =>
        refine ⟨token ++ ' ' :: before, after, ?_, ?_⟩
        · show token ++ ' ' :: Text.joinWith ' ' (next :: rest) = _
          rw [split, List.append_assoc, List.cons_append]
        · rw [place, List.length_append, List.length_cons]
          omega

/-- The line has the token where it is said to stand. -/
theorem exists_of_mem_keywordPlaces {line : Text} {t : PlacedToken} (mem : t ∈ keywordPlaces line) :
    ∃ before after, line = before ++ (t.text ++ after) ∧ before.length = t.start := by
  obtain ⟨before, after, split, place⟩ := exists_of_mem_placedFrom (List.mem_filter.1 mem).1
  rw [Text.joinWith_splitAt] at split
  exact ⟨before, after, split, by rw [place, Nat.zero_add]⟩

theorem keywordPlaces_pairwise (line : Text) : (keywordPlaces line).Pairwise fun a b => a.stop < b.start :=
  (placedFrom_pairwise 0 _).filter _

end PatternPages.Marking
