import PatternPages.Properties

/-! What escapes stand for. A text is read in steps from the left, each step by one of the rules for escapes. Reading follows
these rules, but it also takes a plus sign for the first of the four digits of a character. -/
namespace PatternPages.Properties

/-! ## Characters by their digits -/

/-- The hexadecimal digit of a value. -/
def HexDigit (c : Char) (value : Nat) : Prop :=
  "0123456789abcdef".toList[value]? = some c ∨ "0123456789ABCDEF".toList[value]? = some c

/-- Four hexadecimal digits name the character with their value. -/
def HexName (a b c d character : Char) : Prop :=
  ∃ i j k l, HexDigit a i ∧ HexDigit b j ∧ HexDigit c k ∧ HexDigit d l ∧
    character.toNat = 16 * (16 * (16 * i + j) + k) + l

/-- A plus sign and three hexadecimal digits name the character with their value. -/
def SignedName (a b c d character : Char) : Prop := a = '+' ∧ HexName '0' b c d character

theorem HexDigit.lt {c : Char} {value : Nat} (h : HexDigit c value) : value < 16 := by
  rcases h with lower | upper
  · exact (List.getElem?_eq_some_iff.1 lower).1
  · exact (List.getElem?_eq_some_iff.1 upper).1

/-- The character stands among those that follow `first`. -/
theorem eq_ofNat_add_sub {first c : Char} (le : first ≤ c) : c = Char.ofNat (first.toNat + (c.toNat - first.toNat)) := by
  have order : first.toNat ≤ c.toNat := le
  rw [Nat.add_sub_cancel' order, Char.ofNat_toNat]

theorem hexDigit_of_value {c : Char} {value : Nat} (h : hexDigitValue? c = some value) : HexDigit c value := by
  have ranges : (∀ n < 10, "0123456789abcdef".toList[n]? = some (Char.ofNat ('0'.toNat + n))) ∧
      (∀ n < 6, "0123456789abcdef".toList[n + 10]? = some (Char.ofNat ('a'.toNat + n))) ∧
      ∀ n < 6, "0123456789ABCDEF".toList[n + 10]? = some (Char.ofNat ('A'.toNat + n)) := by decide
  obtain ⟨decimal, lower, upper⟩ := ranges
  have below {first last : Char} (le : c ≤ last) : c.toNat - first.toNat ≤ last.toNat - first.toNat :=
    Nat.sub_le_sub_right le _
  unfold hexDigitValue? at h
  simp only [Bool.and_eq_true, decide_eq_true_eq] at h
  split at h
  · rename_i range
    cases h
    refine .inl ?_
    rw [decimal _ (Nat.lt_succ_of_le (below range.2)), ← eq_ofNat_add_sub range.1]
  · split at h
    · rename_i range
      cases h
      refine .inl ?_
      rw [lower _ (Nat.lt_succ_of_le (below range.2)), ← eq_ofNat_add_sub range.1]
    · split at h
      · rename_i range
        cases h
        refine .inr ?_
        rw [upper _ (Nat.lt_succ_of_le (below range.2)), ← eq_ofNat_add_sub range.1]
      · cases h

theorem hexDigitValue?_eq_some_iff {c : Char} {value : Nat} : hexDigitValue? c = some value ↔ HexDigit c value := by
  refine ⟨hexDigit_of_value, fun digit => ?_⟩
  have values : ∀ n < 16, "0123456789abcdef".toList[n]?.bind hexDigitValue? = some n ∧
      "0123456789ABCDEF".toList[n]?.bind hexDigitValue? = some n := by decide
  obtain ⟨small, capital⟩ := values value digit.lt
  rcases digit with lower | upper
  · rw [lower] at small
    exact small
  · rw [upper] at capital
    exact capital

theorem scalar?_eq_some_iff {n : Nat} {character : Char} : scalar? n = some character ↔ character.toNat = n := by
  unfold scalar?
  simp only [Bool.or_eq_true, Bool.and_eq_true, decide_eq_true_eq]
  constructor
  · intro found
    split at found
    · rename_i range
      have valid : n.isValidChar := by
        unfold Nat.isValidChar
        omega
      cases found
      rw [Char.ofNat, dif_pos valid]
      rfl
    · cases found
  · rintro rfl
    have valid : character.toNat.isValidChar := character.valid
    unfold Nat.isValidChar at valid
    rw [if_pos (by omega), Char.ofNat_toNat]

theorem hexValue?_eq_some_iff {a b c d : Char} {n : Nat} :
    hexValue? [a, b, c, d] = some n ↔ ∃ i j k l, HexDigit a i ∧ HexDigit b j ∧ HexDigit c k ∧ HexDigit d l ∧
      n = 16 * (16 * (16 * i + j) + k) + l := by
  simp only [hexValue?, List.foldlM_cons, List.foldlM_nil, Option.bind_eq_bind, Option.bind_eq_some_iff,
    Option.map_eq_some_iff, hexDigitValue?_eq_some_iff, Option.pure_def, Option.some.injEq]
  constructor
  · rintro ⟨_, ⟨i, hi, rfl⟩, _, ⟨j, hj, rfl⟩, _, ⟨k, hk, rfl⟩, _, ⟨l, hl, rfl⟩, rfl⟩
    exact ⟨i, j, k, l, hi, hj, hk, hl, by omega⟩
  · rintro ⟨i, j, k, l, hi, hj, hk, hl, rfl⟩
    exact ⟨_, ⟨i, hi, rfl⟩, _, ⟨j, hj, rfl⟩, _, ⟨k, hk, rfl⟩, _, ⟨l, hl, rfl⟩, by omega⟩

theorem hexName_iff {a b c d character : Char} :
    HexName a b c d character ↔ (hexValue? [a, b, c, d]).bind scalar? = some character := by
  simp only [Option.bind_eq_some_iff, hexValue?_eq_some_iff, scalar?_eq_some_iff, HexName]
  constructor
  · rintro ⟨i, j, k, l, hi, hj, hk, hl, value⟩
    exact ⟨_, ⟨i, j, k, l, hi, hj, hk, hl, rfl⟩, value⟩
  · rintro ⟨_, ⟨i, j, k, l, hi, hj, hk, hl, rfl⟩, value⟩
    exact ⟨i, j, k, l, hi, hj, hk, hl, value⟩

theorem not_hexName_plus {b c d character : Char} : ¬ HexName '+' b c d character := by
  rintro ⟨i, _, _, _, digit, -⟩
  have none : hexDigitValue? '+' = none := by decide
  cases none.symm.trans (hexDigitValue?_eq_some_iff.2 digit)

theorem HexName.ordinary {a b c d character : Char} (h : HexName a b c d character) :
    a ≠ '\\' ∧ b ≠ '\\' ∧ c ≠ '\\' ∧ d ≠ '\\' := by
  have differs {c : Char} {value : Nat} (digit : HexDigit c value) : c ≠ '\\' := by
    rintro rfl
    have none : hexDigitValue? '\\' = none := by decide
    cases none.symm.trans (hexDigitValue?_eq_some_iff.2 digit)
  obtain ⟨i, j, k, l, hi, hj, hk, hl, -⟩ := h
  exact ⟨differs hi, differs hj, differs hk, differs hl⟩

/-- What the digits of an escape name, with the plus sign allowed. -/
def Names (a b c d character : Char) : Prop := HexName a b c d character ∨ SignedName a b c d character

theorem unicodeEscape?_eq_some_iff {a b c d character : Char} :
    unicodeEscape? a b c d = some character ↔ Names a b c d character := by
  unfold unicodeEscape? Names SignedName
  split
  · rename_i plus
    subst plus
    have zero : hexValue? [b, c, d] = hexValue? ['0', b, c, d] := rfl
    rw [zero, ← hexName_iff]
    simp [not_hexName_plus]
  · rename_i other
    rw [← hexName_iff]
    simp [other]

/-! ## Steps -/

/-- What a character behind a backslash stands for. -/
inductive Stands : Char → Char → Prop where
  | tab : Stands 't' '\t'
  | lineFeed : Stands 'n' '\n'
  | carriageReturn : Stands 'r' '\r'
  | formFeed : Stands 'f' '\x0c'
  | itself {e : Char} (other : e ∉ ['t', 'n', 'r', 'f', 'u']) : Stands e e

theorem stands_iff {e c : Char} : Stands e c ↔ e ≠ 'u' ∧ escaped e = c := by
  constructor
  · intro stands
    cases stands with
    | itself other =>
      simp only [List.mem_cons, List.not_mem_nil, or_false, not_or] at other
      obtain ⟨t, n, r, f, u⟩ := other
      exact ⟨u, by simp [escaped, t, n, r, f]⟩
    | _ => exact ⟨by decide, rfl⟩
  · rintro ⟨u, rfl⟩
    by_cases known : e ∈ ['t', 'n', 'r', 'f']
    · simp only [List.mem_cons, List.not_mem_nil, or_false] at known
      rcases known with rfl | rfl | rfl | rfl
      · exact .tab
      · exact .lineFeed
      · exact .carriageReturn
      · exact .formFeed
    · have same : escaped e = e := by
        simp only [List.mem_cons, List.not_mem_nil, or_false, not_or] at known
        simp [escaped, known]
      rw [same]
      exact .itself (by simpa [u] using known)

/-- Which character four characters name. -/
abbrev Naming := Char → Char → Char → Char → Char → Prop

/-- One step through a text: what it gives and what it leaves. Four characters name one as `names` says. -/
inductive Step (names : Naming) : Text → Text → Text → Prop where
  | plain {c : Char} {rest : Text} (ordinary : c ≠ '\\') : Step names (c :: rest) [c] rest
  | final : Step names ['\\'] [] []
  | pair {e c : Char} {rest : Text} (stands : Stands e c) : Step names ('\\' :: e :: rest) [c] rest
  | named {a b c d character : Char} {rest : Text} (name : names a b c d character) :
    Step names ('\\' :: 'u' :: a :: b :: c :: d :: rest) [character] rest
  | unnamed {rest : Text}
    (none : ∀ a b c d after character, rest = a :: b :: c :: d :: after → ¬ names a b c d character) :
    Step names ('\\' :: 'u' :: rest) ['u'] rest

/-- What all steps through a text give. -/
inductive Resolves (names : Naming) : Text → Text → Prop where
  | done : Resolves names [] []
  | step {text given rest out : Text} (first : Step names text given rest) (later : Resolves names rest out) :
    Resolves names text (given ++ out)

/-- Some steps through the first text leave the second. -/
inductive Passes (names : Naming) : Text → Text → Prop where
  | here (text : Text) : Passes names text text
  | step {text given rest later : Text} (first : Step names text given rest) (more : Passes names rest later) :
    Passes names text later

/-- Four characters name at most one. -/
def Functional (names : Naming) : Prop :=
  ∀ a b c d x y, names a b c d x → names a b c d y → x = y

section Steps

variable {names : Naming} {text given rest out : Text}

theorem Step.shorter (h : Step names text given rest) : rest.length < text.length := by
  cases h <;> simp only [List.length_cons, List.length_nil] <;> omega

theorem Step.exists_cons (names : Naming) (c : Char) (rest : Text) :
    ∃ given left, Step names (c :: rest) given left := by
  by_cases ordinary : c = '\\'
  · subst ordinary
    cases rest with
    | nil => exact ⟨_, _, .final⟩
    | cons e rest =>
      by_cases u : e = 'u'
      · subst u
        by_cases name : ∃ a b c d after character, rest = a :: b :: c :: d :: after ∧ names a b c d character
        · obtain ⟨a, b, c, d, after, character, rfl, name⟩ := name
          exact ⟨_, _, .named name⟩
        · refine ⟨_, _, .unnamed ?_⟩
          intro a b c d after character same named
          exact name ⟨a, b, c, d, after, character, same, named⟩
      · exact ⟨_, _, .pair (stands_iff.2 ⟨u, rfl⟩)⟩
  · exact ⟨_, _, .plain ordinary⟩

/-- No two rules fit a text. -/
theorem Step.unique (functional : Functional names) {given' rest' : Text}
    (h : Step names text given rest) (h' : Step names text given' rest') : given = given' ∧ rest = rest' := by
  have notU {c : Char} : ¬ Stands 'u' c := fun stands => (stands_iff.1 stands).1 rfl
  cases h with
  | plain ordinary =>
    cases h' with
    | plain => exact ⟨rfl, rfl⟩
    | _ => exact absurd rfl ordinary
  | final =>
    cases h' with
    | plain ordinary => exact absurd rfl ordinary
    | final => exact ⟨rfl, rfl⟩
  | pair stands =>
    cases h' with
    | plain ordinary => exact absurd rfl ordinary
    | pair stands' => exact ⟨by rw [← (stands_iff.1 stands).2, ← (stands_iff.1 stands').2], rfl⟩
    | _ => exact absurd stands notU
  | named name =>
    cases h' with
    | plain ordinary => exact absurd rfl ordinary
    | pair stands => exact absurd stands notU
    | named name' => exact ⟨by rw [functional _ _ _ _ _ _ name name'], rfl⟩
    | unnamed none => exact absurd name (none _ _ _ _ _ _ rfl)
  | unnamed none =>
    cases h' with
    | plain ordinary => exact absurd rfl ordinary
    | pair stands => exact absurd stands notU
    | named name => exact absurd name (none _ _ _ _ _ _ rfl)
    | unnamed => exact ⟨rfl, rfl⟩

theorem Resolves.exists (names : Naming) (text : Text) : ∃ out, Resolves names text out := by
  match text with
  | [] => exact ⟨_, .done⟩
  | c :: rest =>
    obtain ⟨given, left, first⟩ := Step.exists_cons names c rest
    have shorter := first.shorter
    obtain ⟨out, later⟩ := Resolves.exists names left
    exact ⟨_, .step first later⟩
termination_by text.length
decreasing_by exact shorter

theorem Resolves.unique (functional : Functional names) {out' : Text}
    (h : Resolves names text out) (h' : Resolves names text out') : out = out' := by
  induction h generalizing out' with
  | done =>
    cases h' with
    | done => rfl
    | step first _ => cases first
  | step first _ ih =>
    cases h' with
    | done => cases first
    | step first' later' =>
      obtain ⟨rfl, rfl⟩ := first.unique functional first'
      rw [ih later']

theorem Resolves.copy {c : Char} (ordinary : c ≠ '\\') (later : Resolves names text out) :
    Resolves names (c :: text) (c :: out) :=
  .step (.plain ordinary) later

theorem Passes.iff_of_step (functional : Functional names) {later : Text}
    (first : Step names text given rest) : Passes names text later ↔ later = text ∨ Passes names rest later := by
  constructor
  · intro passes
    cases passes with
    | here => exact .inl rfl
    | step first' more =>
      obtain ⟨-, rfl⟩ := first.unique functional first'
      exact .inr more
  · rintro (rfl | more)
    · exact .here _
    · exact .step first more

end Steps

/-! ## Reading -/

theorem functional_hexName : Functional HexName :=
  fun _ _ _ _ _ _ hx hy => Option.some.inj ((hexName_iff.1 hx).symm.trans (hexName_iff.1 hy))

theorem Step.unescape_eq {text given rest : Text} (h : Step Names text given rest) :
    unescape text = given ++ unescape rest := by
  cases h with
  | plain ordinary =>
    rw [unescape.eq_def]
    exact if_neg ordinary
  | final => rfl
  | pair stands =>
    obtain ⟨u, rfl⟩ := stands_iff.1 stands
    rw [unescape.eq_def]
    exact if_neg u
  | named name =>
    rw [unescape.eq_def]
    simp only [↓reduceIte, unicodeEscape?_eq_some_iff.2 name]
    rfl
  | unnamed none =>
    rw [unescape.eq_def]
    simp only [↓reduceIte]
    split
    · rename_i a b c d after
      have refused : unicodeEscape? a b c d = Option.none := by
        rw [Option.eq_none_iff_forall_ne_some]
        exact fun character named => none a b c d after character rfl (unicodeEscape?_eq_some_iff.1 named)
      rw [refused]
      rfl
    · rfl

theorem resolves_iff {text out : Text} : Resolves Names text out ↔ unescape text = out := by
  have sound {out : Text} (h : Resolves Names text out) : unescape text = out := by
    induction h with
    | done => rfl
    | step first _ ih => rw [first.unescape_eq, ih]
  refine ⟨sound, ?_⟩
  rintro rfl
  obtain ⟨out, h⟩ := Resolves.exists Names text
  rwa [sound h]

/-! ## Signs -/

/-- The text begins with an escape that has a sign. -/
def SignedEscape (text : Text) : Prop :=
  ∃ b c d after character, text = '\\' :: 'u' :: '+' :: b :: c :: d :: after ∧ HexName '0' b c d character

theorem Step.names_of_unsigned {text given rest : Text} (h : Step HexName text given rest) (unsigned : ¬ SignedEscape text) :
    Step Names text given rest := by
  cases h with
  | plain ordinary => exact .plain ordinary
  | final => exact .final
  | pair stands => exact .pair stands
  | named name => exact .named (.inl name)
  | unnamed none =>
    refine .unnamed ?_
    rintro a b c d after character rfl (name | ⟨rfl, name⟩)
    · exact none a b c d after character rfl name
    · exact unsigned ⟨b, c, d, after, character, rfl, name⟩

theorem Resolves.unescape_eq {text out : Text} (h : Resolves HexName text out)
    (unsigned : ∀ later, Passes HexName text later → ¬ SignedEscape later) : unescape text = out := by
  induction h with
  | done => rfl
  | step first _ ih =>
    rw [(first.names_of_unsigned (unsigned _ (.here _))).unescape_eq]
    rw [ih fun later passes => unsigned later (.step first passes)]

/-- An escape with a sign is read as one character, and by the rules it stands for five. -/
theorem Resolves.of_signed {text out : Text} (h : Resolves HexName text out) (signed : SignedEscape text) :
    ∃ character b c d after out', unescape text = character :: unescape after ∧ after.length < text.length ∧
      out = 'u' :: '+' :: b :: c :: d :: out' ∧ Resolves HexName after out' := by
  obtain ⟨b, c, d, after, character, rfl, name⟩ := signed
  obtain ⟨out', later⟩ := Resolves.exists HexName after
  obtain ⟨-, ordinaryB, ordinaryC, ordinaryD⟩ := name.ordinary
  have letter : Step HexName ('\\' :: 'u' :: '+' :: b :: c :: d :: after) ['u'] ('+' :: b :: c :: d :: after) := by
    refine .unnamed ?_
    rintro _ _ _ _ _ character ⟨⟩
    exact not_hexName_plus
  have digits : Resolves HexName (b :: c :: d :: after) (b :: c :: d :: out') :=
    .copy ordinaryB (.copy ordinaryC (.copy ordinaryD later))
  have whole := Resolves.step letter (.copy (by decide) digits)
  have read : Step Names ('\\' :: 'u' :: '+' :: b :: c :: d :: after) [character] after := .named (.inr ⟨rfl, name⟩)
  refine ⟨character, b, c, d, after, out', read.unescape_eq, ?_, h.unique functional_hexName whole, later⟩
  simp only [List.length_cons]
  omega

/-- Every escape with a sign makes what is read shorter than what the rules give. -/
theorem Resolves.length_unescape {text out : Text} (h : Resolves HexName text out) :
    (unescape text).length ≤ out.length ∧
      ∀ later, Passes HexName text later → SignedEscape later → (unescape text).length < out.length := by
  by_cases signed : SignedEscape text
  · obtain ⟨character, b, c, d, after, out', read, shorter, rfl, rest⟩ := h.of_signed signed
    have below := (Resolves.length_unescape rest).1
    rw [read]
    simp only [List.length_cons]
    exact ⟨by omega, fun _ _ _ => by omega⟩
  · cases h with
    | done =>
      refine ⟨Nat.le_refl _, fun later passes signedLater => ?_⟩
      cases passes with
      | here => exact absurd signedLater signed
      | step first _ => cases first
    | step first rest =>
      have shorter := first.shorter
      obtain ⟨below, strict⟩ := Resolves.length_unescape rest
      rw [(first.names_of_unsigned signed).unescape_eq, List.length_append, List.length_append]
      refine ⟨Nat.add_le_add_left below _, fun later passes signedLater => Nat.add_lt_add_left ?_ _⟩
      rcases (Passes.iff_of_step functional_hexName first).1 passes with rfl | more
      · exact absurd signedLater signed
      · exact strict later more signedLater
termination_by text.length

/-- Reading follows the rules for escapes, except that it takes a plus sign and three digits for four. So it gives what the rules
give just for the texts in which they do not come to such an escape. -/
theorem unescape_resolves (text : Text) :
    (∀ out, Resolves Names text out ↔ unescape text = out) ∧
      ∃ out, Resolves HexName text out ∧ (∀ other, Resolves HexName text other → other = out) ∧
        (unescape text = out ↔ ∀ later, Passes HexName text later → ¬ SignedEscape later) := by
  obtain ⟨out, resolves⟩ := Resolves.exists HexName text
  refine ⟨fun out => resolves_iff, out, resolves, fun other h => h.unique functional_hexName resolves, ?_⟩
  constructor
  · rintro same later passes signed
    have shorter := resolves.length_unescape.2 later passes signed
    rw [same] at shorter
    exact Nat.lt_irrefl _ shorter
  · exact resolves.unescape_eq

/-- The letter `u` behind a pair of backslashes begins no escape. -/
theorem unescape_resolves_paired :
    Resolves HexName ['\\', 'u', '0', '0', 'e', '9', '\\', '\\', 'u', '+', '0', '4', '1', '\\']
        ['é', '\\', 'u', '+', '0', '4', '1'] ∧
      unescape ['\\', 'u', '0', '0', 'e', '9', '\\', '\\', 'u', '+', '0', '4', '1', '\\'] =
        ['é', '\\', 'u', '+', '0', '4', '1'] ∧
      ∀ later, Passes HexName ['\\', 'u', '0', '0', 'e', '9', '\\', '\\', 'u', '+', '0', '4', '1', '\\'] later →
        ¬ SignedEscape later := by
  have digits : Resolves HexName ['u', '+', '0', '4', '1', '\\'] ['u', '+', '0', '4', '1'] :=
    .copy (by decide) <| .copy (by decide) <| .copy (by decide) <| .copy (by decide) <| .copy (by decide) <|
      .step .final .done
  have paired : Resolves HexName ['\\', '\\', 'u', '+', '0', '4', '1', '\\'] ['\\', 'u', '+', '0', '4', '1'] :=
    .step (.pair (.itself (by decide))) digits
  have name : HexName '0' '0' 'e' '9' 'é' :=
    ⟨0, 0, 14, 9, .inl (by decide), .inl (by decide), .inl (by decide), .inl (by decide), by decide⟩
  have whole := Resolves.step (.named name) paired
  obtain ⟨-, out, -, unique, same⟩ :=
    unescape_resolves ['\\', 'u', '0', '0', 'e', '9', '\\', '\\', 'u', '+', '0', '4', '1', '\\']
  obtain rfl := unique _ whole
  have read : unescape ['\\', 'u', '0', '0', 'e', '9', '\\', '\\', 'u', '+', '0', '4', '1', '\\'] =
      ['é', '\\', 'u', '+', '0', '4', '1'] := by decide
  exact ⟨whole, read, same.1 read⟩

/-- A sign is no hexadecimal digit, yet it is read as one. -/
theorem sign_read_as_digit :
    unescape ['\\', 'u', '+', '0', '4', '1'] = ['A'] ∧
      Resolves HexName ['\\', 'u', '+', '0', '4', '1'] ['u', '+', '0', '4', '1'] ∧
      ¬ Resolves HexName ['\\', 'u', '+', '0', '4', '1'] (unescape ['\\', 'u', '+', '0', '4', '1']) := by
  have digits : Resolves HexName ['+', '0', '4', '1'] ['+', '0', '4', '1'] :=
    .copy (by decide) <| .copy (by decide) <| .copy (by decide) <| .copy (by decide) .done
  have letter : Step HexName ['\\', 'u', '+', '0', '4', '1'] ['u'] ['+', '0', '4', '1'] := by
    refine .unnamed ?_
    rintro _ _ _ _ _ character ⟨⟩
    exact not_hexName_plus
  have whole := Resolves.step letter digits
  have read : unescape ['\\', 'u', '+', '0', '4', '1'] = ['A'] := by decide
  refine ⟨read, whole, fun same => ?_⟩
  rw [read] at same
  cases same.unique functional_hexName whole

end PatternPages.Properties
