import PatternPages.Proofs.Entries
import PatternPages.Proofs.LogicalLines

/-! Properties documents read back what was written, in any layout: with comments and blank lines between the entries, and with
an entry spread over lines at any place between its characters. -/
namespace PatternPages

namespace OrderedMap

theorem get?_ofList {κ ν : Type} [LT κ] [LinearKey κ] [DecidableEq κ] [DecidableLT κ] [BEq κ] [LawfulBEq κ]
    (pairs : List (κ × ν)) (k : κ) :
    (ofList pairs).get? k = pairs.reverse.lookup k := by
  have run (m : OrderedMap κ ν) :
      (pairs.foldl (fun m e => m.insert e.1 e.2) m).get? k = (pairs.reverse.lookup k).or (m.get? k) := by
    induction pairs generalizing m with
    | nil => rfl
    | cons e rest ih =>
      rw [List.foldl_cons, ih, get?_insert, List.reverse_cons, List.lookup_append]
      by_cases same : k = e.1
      · have found : List.lookup k [e] = some e.2 := by
          rw [same]
          exact List.lookup_cons_self
        rw [found, if_pos same, Option.or_assoc, Option.some_or]
      · have missing : List.lookup k [e] = none := List.lookup_eq_none_iff.2 (by simpa using same)
        rw [missing, if_neg same, Option.or_none]
  rw [ofList, run, get?_empty, Option.or_none]

end OrderedMap

namespace Properties

open Text (isBlank isPadding lineEnds trimStart lines)

/-! ## Characters of an entry -/

/-- The text can stand at any place of an entry: nothing in it ends a line, is taken for white space or a comment where it begins,
or is left open where it ends. -/
structure Settled (s : Text) : Prop where
  newline : '\n' ∉ s
  head : ∀ c, s.head? = some c → isBlank c = false ∧ c ≠ '#' ∧ c ≠ '!'
  last : s.getLast? ≠ some '\r'
  closed : endsOpen false s = false

theorem Settled.nil : Settled [] :=
  ⟨List.not_mem_nil, fun _ none => (nomatch none), fun none => (nomatch none), rfl⟩

theorem Settled.append {s t : Text} (hs : Settled s) (ht : Settled t) : Settled (s ++ t) where
  newline := by
    rw [List.mem_append, not_or]
    exact ⟨hs.newline, ht.newline⟩
  head c first := by
    cases s with
    | nil => exact ht.head c first
    | cons d rest => exact hs.head c first
  last := by
    rw [List.getLast?_append]
    intro last
    rcases Option.or_eq_some_iff.1 last with inT | ⟨-, inS⟩
    · exact ht.last inT
    · exact hs.last inS
  closed := by rw [endsOpen_append, hs.closed, ht.closed]

theorem Settled.not_isComment {s : Text} (hs : Settled s) : isComment s = false := by
  cases s with
  | nil => rfl
  | cons c rest =>
    obtain ⟨-, hash, mark⟩ := hs.head c rfl
    simp [isComment, hash, mark]

/-- A character is written as itself, or as a backslash and a character that stands for it. -/
theorem encodeChar_cases (c : Char) :
    (∃ e, encodeChar c = ['\\', e] ∧ e ≠ 'u' ∧ escaped e = c ∧ e ≠ '\n' ∧ e ≠ '\r') ∨
      encodeChar c = [c] ∧ c ≠ '\\' ∧ isAssignment c = false ∧ c ≠ '#' ∧ c ≠ '!' ∧ isBlank c = false := by
  unfold encodeChar
  split
  · rename_i tab
    exact .inl ⟨'t', rfl, by decide, tab.symm, by decide, by decide⟩
  · split
    · rename_i lineFeed
      exact .inl ⟨'n', rfl, by decide, lineFeed.symm, by decide, by decide⟩
    · rename_i notLineFeed
      split
      · rename_i carriageReturn
        exact .inl ⟨'r', rfl, by decide, carriageReturn.symm, by decide, by decide⟩
      · rename_i notReturn
        split
        · rename_i formFeed
          exact .inl ⟨'f', rfl, by decide, formFeed.symm, by decide, by decide⟩
        · split
          · rename_i marked
            have differs (letter : Char) (unmarked : (letter = '\\' || isAssignment letter || letter = '#' || letter = '!' ||
                isBlank letter) = false) : c ≠ letter := by
              rintro rfl
              rw [unmarked] at marked
              cases marked
            refine .inl ⟨c, rfl, differs 'u' (by decide), ?_, notLineFeed, notReturn⟩
            simp [escaped, differs 't' (by decide), differs 'n' (by decide), differs 'r' (by decide), differs 'f' (by decide)]
          · rename_i unmarked
            simp only [Bool.or_eq_true, decide_eq_true_eq, not_or, Bool.not_eq_true] at unmarked
            obtain ⟨⟨⟨⟨backslash, assignment⟩, hash⟩, mark⟩, blank⟩ := unmarked
            exact .inr ⟨rfl, backslash, assignment, hash, mark, blank⟩

theorem settled_encodeChar (c : Char) : Settled (encodeChar c) := by
  rcases encodeChar_cases c with ⟨e, written, -, -, newline, carriageReturn⟩ | ⟨written, backslash, -, hash, mark, blank⟩
  · rw [written]
    refine ⟨?_, ?_, ?_, rfl⟩
    · simp [newline.symm]
    · rintro _ ⟨⟩
      decide
    · simpa using carriageReturn
  · rw [written]
    refine ⟨?_, ?_, ?_, ?_⟩
    · rw [List.mem_singleton]
      rintro rfl
      exact absurd blank (by decide)
    · rintro _ ⟨⟩
      exact ⟨blank, hash, mark⟩
    · rintro ⟨⟩
      exact absurd blank (by decide)
    · simp [endsOpen, backslash]

theorem settled_equals : Settled ['='] :=
  ⟨by decide, by rintro _ ⟨⟩; decide, by decide, by decide⟩

theorem settled_flatten {units : List Text} (all : ∀ u ∈ units, Settled u) : Settled units.flatten := by
  induction units with
  | nil => exact Settled.nil
  | cons u rest ih =>
    rw [List.flatten_cons]
    exact (all u List.mem_cons_self).append (ih fun v mem => all v (List.mem_cons_of_mem u mem))

theorem unescape_encodeChar_append (c : Char) (rest : Text) : unescape (encodeChar c ++ rest) = c :: unescape rest := by
  rcases encodeChar_cases c with ⟨e, written, u, stands, -, -⟩ | ⟨written, backslash, -⟩
  · rw [written, List.cons_append, List.singleton_append, unescape.eq_def]
    simp only [↓reduceIte]
    rw [if_neg u, stands]
  · rw [written, List.singleton_append, unescape.eq_def]
    exact if_neg backslash

theorem unescape_encode (s : Text) : unescape (encode s) = s := by
  induction s with
  | nil => rfl
  | cons c rest ih => rw [encode, List.flatMap_cons, unescape_encodeChar_append, ← encode, ih]

theorem splitKey_encodeChar_append (c : Char) (rest : Text) :
    splitKey false (encodeChar c ++ rest) = (encodeChar c ++ (splitKey false rest).1, (splitKey false rest).2) := by
  rcases encodeChar_cases c with ⟨e, written, -⟩ | ⟨written, backslash, assignment, -, -, blank⟩
  · have separator : isAssignment '\\' = false ∧ isBlank '\\' = false := by decide
    rw [written, List.cons_append, List.singleton_append, splitKey, splitKey]
    simp [separator]
  · rw [written, List.singleton_append, splitKey]
    simp [assignment, blank, backslash]

/-- The key ends where it was written to end. -/
theorem splitKey_encode (key rest : Text) : splitKey false (encode key ++ '=' :: rest) = (encode key, '=' :: rest) := by
  induction key with
  | nil => rfl
  | cons c key ih =>
    rw [encode, List.flatMap_cons, List.append_assoc, splitKey_encodeChar_append, ← encode, ih]

theorem settled_encode (s : Text) : Settled (encode s) := by
  rw [encode, List.flatMap_def]
  apply settled_flatten
  intro u mem
  obtain ⟨c, -, rfl⟩ := List.mem_map.1 mem
  exact settled_encodeChar c

theorem splitEntry_encode (key value : Text) :
    splitEntry (encode key ++ '=' :: encode value) = (encode key, encode value) := by
  have trimmed : trimStart (encode value) = encode value :=
    Text.trimStart_of_head fun c first => ((settled_encode value).head c first).1
  have sign : trimStart ('=' :: encode value) = '=' :: encode value :=
    Text.trimStart_of_head fun c first => (settled_equals.head c first).1
  unfold splitEntry
  rw [splitKey_encode]
  dsimp only
  rw [sign]
  exact Prod.ext rfl trimmed

/-! ## Entries over several lines -/

/-- The units of an entry: lines can be broken between them. -/
def entryUnits (key value : Text) : List Text := key.map encodeChar ++ ['='] :: value.map encodeChar

/-- The text is made of the units in their order, with any number of line breaks in front of each and behind the last. -/
inductive Broken : List Text → Text → Prop where
  | done : Broken [] []
  | unit (u : Text) {units : List Text} {text : Text} (rest : Broken units text) : Broken (u :: units) (u ++ text)
  | break (lineEnd padding : Text) {units : List Text} {text : Text} (ends : lineEnd ∈ lineEnds)
    (blank : isPadding padding = true) (rest : Broken units text) : Broken units ('\\' :: (lineEnd ++ padding ++ text))

/-- One physical line of an entry. -/
theorem lines_settled {padding lineEnd : Text} (body : Text) (blank : isPadding padding = true) (newline : '\n' ∉ body)
    (head : ∀ c, body.head? = some c → isBlank c = false) (last : body.getLast? ≠ some '\r') (ends : lineEnd ∈ lineEnds)
    (rest : Text) :
    ∃ line, lines (padding ++ body ++ lineEnd ++ rest) = line :: lines rest ∧ trimStart line = body := by
  have inside : '\n' ∉ padding ++ body := by
    rw [List.mem_append, not_or]
    exact ⟨Text.not_newline_of_isPadding blank, newline⟩
  have trimmed : trimStart body = body := Text.trimStart_of_head head
  obtain ⟨line, split, same | cut⟩ := Text.lines_append_lineEnd inside ends rest
  · refine ⟨line, split, ?_⟩
    rw [same, Text.trimStart_append (Text.blank_of_isPadding blank), trimmed]
  · -- a carriage return that was cut off can only be white space, so there is nothing behind it
    have empty : body = [] := by
      have ended := congrArg List.getLast? cut
      rw [List.getLast?_append, List.getLast?_concat] at ended
      cases found : body.getLast? with
      | none => exact List.getLast?_eq_none_iff.1 found
      | some c =>
        rw [found, Option.some_or] at ended
        exact absurd (found.trans ended) last
    refine ⟨line, split, ?_⟩
    rw [empty, List.append_nil] at cut
    have all : ∀ c ∈ line, isBlank c = true := by
      intro c mem
      apply Text.blank_of_isPadding blank
      rw [cut]
      exact List.mem_append_left _ mem
    have trimmedLine := Text.trimStart_append all []
    rw [List.append_nil] at trimmedLine
    rw [trimmedLine, empty]
    rfl

theorem joinLines_broken {units : List Text} {text : Text} (broken : Broken units text) (all : ∀ u ∈ units, Settled u)
    {lineEnd : Text} (ends : lineEnd ∈ lineEnds) (rest : Text) (pending : Option Text) (waits : Settled (pending.getD []))
    {padding body : Text} (blank : isPadding padding = true) (settled : Settled body) :
    joinLines pending (lines (padding ++ body ++ text ++ lineEnd ++ rest)) =
      (pending.getD [] ++ body ++ units.flatten) :: joinLines none (lines rest) := by
  induction broken generalizing pending padding body with
  | done =>
    obtain ⟨line, split, trimmed⟩ :=
      lines_settled body blank settled.newline (fun c first => (settled.head c first).1) settled.last ends rest
    rw [List.append_nil, split, joinLines_closed, trimmed, List.flatten_nil, List.append_nil]
    · rw [trimmed]
      exact fun _ => settled.not_isComment
    · rw [trimmed, continues_eq_endsOpen]
      exact (waits.append settled).closed
  | unit u _ ih =>
    have longer := ih (fun v mem => all v (List.mem_cons_of_mem u mem)) pending waits blank
      (settled.append (all u List.mem_cons_self))
    simpa only [List.append_assoc, List.flatten_cons] using longer
  | «break» lineEnd' padding' ends' blank' _ ih =>
    rename_i units text _
    have front : ∀ c, (body ++ ['\\']).head? = some c → isBlank c = false ∧ c ≠ '#' ∧ c ≠ '!' := by
      intro c first
      cases body with
      | nil =>
        cases first
        decide
      | cons d rest => exact settled.head c first
    obtain ⟨line, split, trimmed⟩ := lines_settled (body ++ ['\\']) blank (by simpa using settled.newline)
      (fun c first => (front c first).1) (by simp) ends' (padding' ++ [] ++ text ++ lineEnd ++ rest)
    have entry : isComment (trimStart line) = false := by
      rw [trimmed]
      cases body with
      | nil => rfl
      | cons d rest => exact settled.not_isComment
    have opened : continues (pending.getD [] ++ body ++ ['\\']) = true := by
      rw [continues_eq_endsOpen, endsOpen_append, (waits.append settled).closed]
      rfl
    have joined := ih all (some (pending.getD [] ++ body)) (waits.append settled) blank' Settled.nil
    have regroup : padding ++ body ++ '\\' :: (lineEnd' ++ padding' ++ text) ++ lineEnd ++ rest =
        padding ++ (body ++ ['\\']) ++ lineEnd' ++ (padding' ++ [] ++ text ++ lineEnd ++ rest) := by simp
    rw [regroup, split, joinLines_open (fun _ => entry) (by rw [trimmed, List.append_assoc]) opened, joined]
    simp

/-! ## Documents -/

/-- The source lays out the entries in their order. White space and comments may stand in front of each and behind the last. -/
inductive Layout : List (Text × Text) → Text → Prop where
  | done : Layout [] []
  | space {c : Char} {entries : List (Text × Text)} {source : Text} (blank : isBlank c = true) (rest : Layout entries source) :
    Layout entries (c :: source)
  | comment {mark : Char} (text lineEnd : Text) {entries : List (Text × Text)} {source : Text} (marked : mark ∈ ['#', '!'])
    (oneLine : '\n' ∉ text) (ends : lineEnd ∈ lineEnds) (rest : Layout entries source) :
    Layout entries (mark :: text ++ lineEnd ++ source)
  | entry {key value text : Text} (lineEnd : Text) {entries : List (Text × Text)} {source : Text}
    (broken : Broken (entryUnits key value) text) (ends : lineEnd ∈ lineEnds) (rest : Layout entries source) :
    Layout ((key, value) :: entries) (text ++ lineEnd ++ source)

theorem flatten_entryUnits (key value : Text) : (entryUnits key value).flatten = encode key ++ '=' :: encode value := by
  simp [entryUnits, encode, List.flatMap_def]

theorem settled_of_mem_entryUnits {key value u : Text} (mem : u ∈ entryUnits key value) : Settled u := by
  rcases List.mem_append.1 mem with inKey | inRest
  · obtain ⟨c, -, rfl⟩ := List.mem_map.1 inKey
    exact settled_encodeChar c
  · rcases List.mem_cons.1 inRest with rfl | inValue
    · exact settled_equals
    · obtain ⟨c, -, rfl⟩ := List.mem_map.1 inValue
      exact settled_encodeChar c

theorem entryLines_comment {mark : Char} {text lineEnd : Text} (marked : mark ∈ ['#', '!']) (oneLine : '\n' ∉ text)
    (ends : lineEnd ∈ lineEnds) (source : Text) : entryLines (mark :: text ++ lineEnd ++ source) = entryLines source := by
  have known : isBlank mark = false ∧ mark ≠ '\n' ∧ mark ≠ '\r' ∧ (mark = '#' ∨ mark = '!') := by
    simp only [List.mem_cons, List.not_mem_nil, or_false] at marked
    rcases marked with rfl | rfl <;> decide
  obtain ⟨visible, notNewline, notReturn, marked⟩ := known
  have inside : '\n' ∉ mark :: text := by
    rw [List.mem_cons, not_or]
    exact ⟨notNewline.symm, oneLine⟩
  obtain ⟨line, split, cut⟩ := Text.lines_append_lineEnd inside ends source
  have head : line.head? = some mark := by
    rcases cut with rfl | cut
    · rfl
    · cases line with
      | nil => exact absurd (List.cons.inj cut).1 notReturn
      | cons d rest => rw [(List.cons.inj cut).1]; rfl
  have trimmed : trimStart line = line := Text.trimStart_of_head fun c first => by
    obtain rfl := Option.some.inj (head.symm.trans first)
    exact visible
  have comment : isComment (trimStart line) = true := by
    rw [trimmed, isComment, head]
    rcases marked with rfl | rfl <;> rfl
  rw [entryLines, logicalLines, split, joinLines_comment comment]
  rfl

theorem entryLines_entry {key value text lineEnd : Text} (broken : Broken (entryUnits key value) text)
    (ends : lineEnd ∈ lineEnds) (source : Text) :
    entryLines (text ++ lineEnd ++ source) = (encode key ++ '=' :: encode value) :: entryLines source := by
  have blank : isPadding [] = true := rfl
  have joined := joinLines_broken broken (fun u => settled_of_mem_entryUnits) ends source none Settled.nil blank Settled.nil
  rw [flatten_entryUnits] at joined
  rw [entryLines, logicalLines]
  simp only [List.nil_append, Option.getD_none] at joined
  rw [joined, List.filter_cons_of_pos (by simp)]
  rfl

def readEntry (line : Text) : Text × Text := (unescape (splitEntry line).1, unescape (splitEntry line).2)

theorem readEntry_encode (key value : Text) : readEntry (encode key ++ '=' :: encode value) = (key, value) := by
  rw [readEntry, splitEntry_encode, unescape_encode, unescape_encode]

/-- In any layout the entries are read one by one. -/
theorem map_readEntry_of_layout {entries : List (Text × Text)} {source : Text} (layout : Layout entries source) :
    (entryLines source).map readEntry = entries := by
  induction layout with
  | done => rfl
  | space blank _ ih => rw [entryLines_cons_blank blank, ih]
  | comment _ _ marked oneLine ends _ ih => rw [entryLines_comment marked oneLine ends, ih]
  | entry _ broken ends _ ih => rw [entryLines_entry broken ends, List.map_cons, readEntry_encode, ih]

theorem parse_eq (source : Text) : parse source = .ofList ((entryLines source).map readEntry) := rfl

theorem Broken.flatten (units : List Text) : Broken units units.flatten := by
  induction units with
  | nil => exact .done
  | cons u rest ih => exact .unit u ih

theorem layout_write (entries : List (Text × Text)) : Layout entries (write entries) := by
  induction entries with
  | nil => exact .done
  | cons e rest ih =>
    have whole := Broken.flatten (entryUnits e.1 e.2)
    rw [flatten_entryUnits] at whole
    have here := Layout.entry ['\n'] whole List.mem_cons_self ih
    rw [write, List.flatMap_cons, ← write]
    simpa using here

/-- A document that was written reads back as the map of the last values, and so does any other layout of its entries. -/
theorem parse_written (entries : List (Text × Text)) :
    (∀ key, (parse (write entries)).get? key = entries.reverse.lookup key) ∧
      ∀ source, Layout entries source → parse source = parse (write entries) := by
  have read {source : Text} (layout : Layout entries source) : parse source = .ofList entries := by
    rw [parse_eq, map_readEntry_of_layout layout]
  constructor
  · intro key
    rw [read (layout_write entries), OrderedMap.get?_ofList]
  · intro source layout
    rw [read layout, read (layout_write entries)]

/-- A comment, an empty line, and a path that is broken over two lines with different ends. -/
theorem parse_written_path :
    (parse (write [(['a'], ['x']), (['a'], ['C', ':', '\\', 'n'])])).get? ['a'] = some ['C', ':', '\\', 'n'] ∧
      Layout [(['a'], ['x']), (['a'], ['C', ':', '\\', 'n'])]
        ['#', '=', '\\', '\r', '\n', ' ', '\n', '\t', 'a', '=', 'x', '\r', '\n',
          '\\', '\n', ' ', 'a', '=', 'C', '\\', ':', '\\', '\r', '\n', '\r', '\t', '\\', '\\', 'n', '\n'] ∧
      parse ['#', '=', '\\', '\r', '\n', ' ', '\n', '\t', 'a', '=', 'x', '\r', '\n',
          '\\', '\n', ' ', 'a', '=', 'C', '\\', ':', '\\', '\r', '\n', '\r', '\t', '\\', '\\', 'n', '\n'] =
        parse (write [(['a'], ['x']), (['a'], ['C', ':', '\\', 'n'])]) := by
  have value : Broken [['\\', '\\'], ['n']] ['\\', '\\', 'n'] := .unit ['\\', '\\'] (.unit ['n'] .done)
  have path : Broken (entryUnits ['a'] ['C', ':', '\\', 'n'])
      ['\\', '\n', ' ', 'a', '=', 'C', '\\', ':', '\\', '\r', '\n', '\r', '\t', '\\', '\\', 'n'] :=
    .break ['\n'] [' '] (by decide) rfl <|
      .unit ['a'] <| .unit ['='] <| .unit ['C'] <| .unit ['\\', ':'] <|
        .break ['\r', '\n'] ['\r', '\t'] (by decide) rfl value
  have plain : Broken (entryUnits ['a'] ['x']) ['a', '=', 'x'] := .unit ['a'] (.unit ['='] (.unit ['x'] .done))
  have layout : Layout [(['a'], ['x']), (['a'], ['C', ':', '\\', 'n'])]
      ['#', '=', '\\', '\r', '\n', ' ', '\n', '\t', 'a', '=', 'x', '\r', '\n',
        '\\', '\n', ' ', 'a', '=', 'C', '\\', ':', '\\', '\r', '\n', '\r', '\t', '\\', '\\', 'n', '\n'] :=
    .comment ['=', '\\'] ['\r', '\n'] (by decide) (by decide) (by decide) <|
      .space (by decide) <| .space (by decide) <| .space (by decide) <|
        .entry ['\r', '\n'] plain (by decide) <| .entry ['\n'] path (by decide) .done
  obtain ⟨last, layouts⟩ := parse_written [(['a'], ['x']), (['a'], ['C', ':', '\\', 'n'])]
  exact ⟨last ['a'], layout, layouts _ layout⟩

end Properties

end PatternPages
