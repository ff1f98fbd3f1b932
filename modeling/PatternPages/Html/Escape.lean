import PatternPages.Text.Blank

/-! Character data of HTML. Four characters are written as references; `resolve` reads the references back and
`withoutTags` drops everything between angle brackets. -/
namespace PatternPages.Html

def escapeChar : Char → Text
  | '&' => ['&', 'a', 'm', 'p', ';']
  | '<' => ['&', 'l', 't', ';']
  | '>' => ['&', 'g', 't', ';']
  | '"' => ['&', 'q', 'u', 'o', 't', ';']
  | c => [c]

def escape (s : Text) : Text := s.flatMap escapeChar

def special : List Char := ['&', '<', '>', '"']

/-- The special character whose reference begins the text. -/
def reference? (s : Text) : Option Char := special.find? fun c => (escapeChar c).isPrefixOf s

/-- Resolves references from the left; `skip` characters belong to the last one resolved. -/
def resolveFrom (skip : Nat) : Text → Text
  | [] => []
  | c :: rest =>
    match skip with
    | skip + 1 => resolveFrom skip rest
    | 0 =>
      match reference? (c :: rest) with
      | some character => character :: resolveFrom ((escapeChar character).length - 1) rest
      | none => c :: resolveFrom 0 rest

def resolve (s : Text) : Text := resolveFrom 0 s

/-- The text outside tags; `inTag` tells on which side the reading starts. -/
def withoutTags (inTag : Bool) : Text → Text
  | [] => []
  | c :: rest =>
    if inTag then withoutTags (c != '>') rest
    else if c = '<' then withoutTags true rest
    else c :: withoutTags false rest

theorem escape_append (s t : Text) : escape (s ++ t) = escape s ++ escape t := List.flatMap_append

theorem resolve_escapeChar_append (c : Char) (rest : Text) :
    resolve (escapeChar c ++ rest) = c :: resolve rest := by
  by_cases amp : c = '&'
  · subst amp
    simp [resolve, resolveFrom, escapeChar, reference?, special]
  · have plainOrSpecial : c = '<' ∨ c = '>' ∨ c = '"' ∨ escapeChar c = [c] := by
      unfold escapeChar
      split <;> simp_all
    have notReference : reference? (c :: rest) = none := by
      simp [reference?, special, escapeChar, Ne.symm amp]
    rcases plainOrSpecial with rfl | rfl | rfl | plain
    · simp [resolve, resolveFrom, escapeChar, reference?, special]
    · simp [resolve, resolveFrom, escapeChar, reference?, special]
    · simp [resolve, resolveFrom, escapeChar, reference?, special]
    · rw [plain, List.singleton_append, resolve, resolveFrom, notReference]
      rfl

theorem resolve_escape_append (s rest : Text) : resolve (escape s ++ rest) = s ++ resolve rest := by
  induction s with
  | nil => rfl
  | cons c s ih =>
    have head : escape (c :: s) = escapeChar c ++ escape s := rfl
    rw [head, List.append_assoc, resolve_escapeChar_append, ih, List.cons_append]

theorem resolve_escape (s : Text) : resolve (escape s) = s := by
  simpa [resolve, resolveFrom] using resolve_escape_append s []

end PatternPages.Html
