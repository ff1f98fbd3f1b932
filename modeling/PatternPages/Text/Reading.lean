import PatternPages.Text.Blank

/-! Reading at the beginning of a text. What is read comes with the rest, which is shorter, so that reading again and again
ends. -/
namespace PatternPages.Text

/-- Something read at the beginning of `s`, and what follows it. -/
structure Read (α : Type) (s : Text) where
  value : α
  rest : Text
  shorter : rest.length < s.length

theorem length_dropWhile_le (p : Char → Bool) (s : Text) : (s.dropWhile p).length ≤ s.length := by
  induction s with
  | nil => simp
  | cons c s ih =>
    simp only [List.dropWhile_cons]
    split
    · exact Nat.le_succ_of_le ih
    · exact Nat.le_refl _

namespace Read

variable {α β : Type} {s : Text}

def map (f : α → β) (r : Read α s) : Read β s := ⟨f r.value, r.rest, r.shorter⟩

/-- The value is replaced by one that it may not have. -/
def mapOption (f : α → Option β) (r : Read α s) : Option (Read β s) :=
  (f r.value).map fun b => ⟨b, r.rest, r.shorter⟩

def followedBy (r : Read α s) (next : Read β r.rest) : Read β s :=
  ⟨next.value, next.rest, Nat.lt_trans next.shorter r.shorter⟩

def skip (p : Char → Bool) (r : Read α s) : Read α s :=
  ⟨r.value, r.rest.dropWhile p, Nat.lt_of_le_of_lt (length_dropWhile_le p r.rest) r.shorter⟩

def behind {p : Char → Bool} (r : Read α (s.dropWhile p)) : Read α s :=
  ⟨r.value, r.rest, Nat.lt_of_lt_of_le r.shorter (length_dropWhile_le p s)⟩

def behindChar (c : Char) (r : Read α s) : Read α (c :: s) :=
  ⟨r.value, r.rest, Nat.lt_succ_of_lt r.shorter⟩

end Read

def andThen {α β : Type} {s : Text} (first : Option (Read α s))
    (next : α → (rest : Text) → Option (Read β rest)) : Option (Read β s) :=
  first.bind fun r => (next r.value r.rest).map r.followedBy

def readChar (p : Char → Bool) (s : Text) : Option (Read Char s) :=
  match s with
  | [] => none
  | c :: rest => if p c then some ⟨c, rest, Nat.lt_succ_self rest.length⟩ else none

/-- A run of one or more characters that pass. -/
def run (p : Char → Bool) (s : Text) : Option (Read Text s) :=
  (readChar p s).map fun r => (r.map fun c => c :: r.rest.takeWhile p).skip p

/-- What follows `expected` at the beginning of the text. -/
def after? : Text → Text → Option Text
  | [], s => some s
  | _ :: _, [] => none
  | e :: expected, c :: rest => if c = e then after? expected rest else none

theorem append_of_after? {expected s rest : Text} (h : after? expected s = some rest) :
    s = expected ++ rest := by
  induction expected generalizing s with
  | nil => simpa [after?] using h
  | cons e expected ih =>
    cases s with
    | nil => simp [after?] at h
    | cons c s =>
      simp only [after?] at h
      split at h
      case isTrue eq => rw [ih h, eq, List.cons_append]
      case isFalse => simp at h

/-- The text `c :: more` and what follows it. -/
def expect (c : Char) (more : Text) (s : Text) : Option (Read Unit s) :=
  match h : after? (c :: more) s with
  | none => none
  | some rest => some ⟨(), rest, by
    rw [append_of_after? h, List.length_append, List.length_cons]
    omega⟩

/-- What stands before the first occurrence of `c :: more`, if all its characters are allowed, and what follows. -/
def upTo (allowed : Char → Bool) (c : Char) (more : Text) (s : Text) : Option (Read Text s) :=
  match expect c more s with
  | some r => some (r.map fun () => [])
  | none =>
    match s with
    | [] => none
    | first :: s =>
      if allowed first then
        (upTo allowed c more s).map fun r => (r.map (first :: ·)).behindChar first
      else none

def hasPart (part : Text) : Text → Bool
  | [] => part.isEmpty
  | c :: rest => part.isPrefixOf (c :: rest) || hasPart part rest

end PatternPages.Text
