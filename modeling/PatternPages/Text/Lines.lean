import PatternPages.Text.Blank

/-! The lines of a text. A line ends with a line feed or with a carriage return and a line feed; what follows
the last end is a line too, unless it is empty. -/
namespace PatternPages.Text

def lines : Text → List Text
  | [] => []
  | '\n' :: rest => [] :: lines rest
  | '\r' :: '\n' :: rest => [] :: lines rest
  | c :: rest =>
    match lines rest with
    | [] => [[c]]
    | line :: more => (c :: line) :: more

/-- The stretches between the occurrences of `separator`, empty ones included. -/
def splitAt (separator : Char) : Text → List Text
  | [] => [[]]
  | c :: rest =>
    if c = separator then [] :: splitAt separator rest
    else
      match splitAt separator rest with
      | [] => [[c]]
      | part :: more => (c :: part) :: more

/-- The inverse of `splitAt`. -/
def joinWith (separator : Char) : List Text → Text
  | [] => []
  | [part] => part
  | part :: more => part ++ separator :: joinWith separator more

theorem splitAt_ne_nil (separator : Char) (s : Text) : splitAt separator s ≠ [] := by
  cases s with
  | nil => simp [splitAt]
  | cons c rest =>
    simp only [splitAt]
    split
    · simp
    · split <;> simp

theorem joinWith_splitAt (separator : Char) (s : Text) :
    joinWith separator (splitAt separator s) = s := by
  induction s with
  | nil => rfl
  | cons c rest ih =>
    have nonempty := splitAt_ne_nil separator rest
    simp only [splitAt]
    split
    case isTrue h =>
      cases parts : splitAt separator rest with
      | nil => exact absurd parts nonempty
      | cons part more =>
        rw [parts] at ih
        simp [joinWith, ih, h]
    case isFalse =>
      cases parts : splitAt separator rest with
      | nil => exact absurd parts nonempty
      | cons part more =>
        rw [parts] at ih
        cases more <;> simp_all [joinWith]

theorem splitAt_of_not_mem {c : Char} {s : Text} (h : c ∉ s) : splitAt c s = [s] := by
  induction s with
  | nil => rfl
  | cons d rest ih =>
    rw [List.mem_cons, not_or] at h
    rw [splitAt, if_neg (Ne.symm h.1), ih h.2]

theorem splitAt_append_cons (c : Char) (a b : Text) :
    splitAt c (a ++ c :: b) = splitAt c a ++ splitAt c b := by
  induction a with
  | nil => simp [splitAt]
  | cons d rest ih =>
    rw [List.cons_append, splitAt, splitAt, ih]
    by_cases same : d = c
    · rw [if_pos same, if_pos same, List.cons_append]
    · rw [if_neg same, if_neg same]
      cases parts : splitAt c rest with
      | nil => exact absurd parts (splitAt_ne_nil c rest)
      | cons part more => rfl

theorem not_mem_of_mem_splitAt {c : Char} {s part : Text} (mem : part ∈ splitAt c s) : c ∉ part := by
  induction s generalizing part with
  | nil => simp_all [splitAt]
  | cons d rest ih =>
    rw [splitAt] at mem
    by_cases same : d = c
    · rw [if_pos same] at mem
      rcases List.mem_cons.1 mem with rfl | mem
      · exact List.not_mem_nil
      · exact ih mem
    · rw [if_neg same] at mem
      cases parts : splitAt c rest with
      | nil => exact absurd parts (splitAt_ne_nil c rest)
      | cons first more =>
        rw [parts] at mem ih
        rcases List.mem_cons.1 mem with rfl | mem
        · rw [List.mem_cons, not_or]
          exact ⟨Ne.symm same, ih List.mem_cons_self⟩
        · exact ih (List.mem_cons_of_mem first mem)

theorem joinWith_cons_concat (c : Char) (part : Text) (front : List Text) (last : Text) :
    joinWith c (part :: (front ++ [last])) = part ++ c :: joinWith c (front ++ [last]) := by
  cases front <;> rfl

theorem splitAt_joinWith {c : Char} {front : List Text} {last : Text} (clean : ∀ part ∈ front ++ [last], c ∉ part) :
    splitAt c (joinWith c (front ++ [last])) = front ++ [last] := by
  induction front with
  | nil => exact splitAt_of_not_mem (clean last List.mem_cons_self)
  | cons part front ih =>
    have others := ih fun other mem => clean other (List.mem_cons_of_mem part mem)
    rw [List.cons_append, joinWith_cons_concat, splitAt_append_cons, others, splitAt_of_not_mem (clean part List.mem_cons_self)]
    rfl

theorem exists_splitAt_concat (c : Char) (s : Text) : ∃ front last, splitAt c s = front ++ [last] :=
  ⟨_, _, (List.dropLast_concat_getLast (splitAt_ne_nil c s)).symm⟩

theorem exists_splitAt_cons (c : Char) (s : Text) : ∃ first rest, splitAt c s = first :: rest :=
  List.exists_cons_of_ne_nil (splitAt_ne_nil c s)

/-- The last part of the one text and the first of the other become one. -/
theorem splitAt_append {c : Char} {a b last first : Text} {front rest : List Text}
    (left : splitAt c a = front ++ [last]) (right : splitAt c b = first :: rest) :
    splitAt c (a ++ b) = front ++ (last ++ first) :: rest := by
  induction a generalizing front last with
  | nil =>
    cases front with
    | nil =>
      obtain rfl : [] = last := List.head_eq_of_cons_eq left
      exact right
    | cons part front => cases front <;> cases left
  | cons d a ih =>
    rw [splitAt] at left
    rw [List.cons_append, splitAt]
    by_cases same : d = c
    · rw [if_pos same] at left ⊢
      cases front with
      | nil => exact absurd (List.cons.inj left).2 (splitAt_ne_nil c a)
      | cons part front =>
        obtain ⟨rfl, tail⟩ := List.cons.inj left
        rw [ih tail, List.cons_append]
    · rw [if_neg same] at left ⊢
      cases parts : splitAt c a with
      | nil => exact absurd parts (splitAt_ne_nil c a)
      | cons part more =>
        rw [parts] at left
        cases front with
        | nil =>
          obtain ⟨rfl, rfl⟩ := List.cons.inj left
          have joined := ih (show splitAt c a = [] ++ [part] from parts)
          rw [joined]
          rfl
        | cons other front =>
          obtain ⟨rfl, rfl⟩ := List.cons.inj left
          have joined := ih (show splitAt c a = part :: front ++ [last] from parts)
          rw [joined]
          rfl

end PatternPages.Text
