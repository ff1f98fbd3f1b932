import PatternPages.Text.Lines
import PatternPages.Xml.Reference

/-! The markup of a document, cut into tokens. References and line ends in texts and attribute values are left as they are
written. A document type declaration is no token, nor is an XML declaration past the beginning. -/
namespace PatternPages.Xml

open Text (Read andThen expect upTo readChar run hasPart)

/-- A name with the prefix before its colon, which may be empty. -/
structure QualifiedName where
  qualifier : Text
  name : Text
  deriving DecidableEq

/-- An attribute as written between its quotes. -/
structure RawAttribute where
  name : QualifiedName
  value : Text

inductive Token where
  | text (written : Text)
  | section (content : Text)
  | comment (content : Text)
  | instruction
  | opening (name : QualifiedName) (attributes : List RawAttribute) (selfClosing : Bool)
  | closing (name : QualifiedName)

def skipSpace (s : Text) : Text := s.dropWhile isSpace

def thenSpace {α : Type} {s : Text} (first : Option (Read α s)) : Option (Read α s) :=
  first.map (·.skip isSpace)

def beginsName (s : Text) : Bool := s.head?.any isNameStart

/-- A qualified name has at most one colon, and each of its parts begins as a name; the prefix may be empty. -/
def qualifiedName? (written : Text) : Option QualifiedName :=
  match Text.splitAt ':' written with
  | [name] => if beginsName name then some ⟨[], name⟩ else none
  | [qualifier, name] =>
    if (qualifier.isEmpty || beginsName qualifier) && beginsName name then some ⟨qualifier, name⟩
    else none
  | _ => none

def readName (s : Text) : Option (Read QualifiedName s) :=
  (run isNameCharacter s).bind (·.mapOption qualifiedName?)

/-! ## Tags -/

def isQuote (c : Char) : Bool := c = '"' || c = '\x27'

/-- An attribute: a name, an equals sign with optional space around it, and a quoted value without `<`. -/
def readAttribute (s : Text) : Option (Read RawAttribute s) :=
  andThen (thenSpace (readName s)) fun name rest =>
  andThen (thenSpace (expect '=' [] rest)) fun () rest =>
  andThen (readChar isQuote rest) fun quote rest =>
  (upTo (fun c => isCharacter c && c != '<') quote [] rest).map fun r => r.map fun value => ⟨name, value⟩

/-- The end of an opening tag; the answer is whether the tag closes itself. -/
def readTagEnd (s : Text) : Option (Read Bool s) :=
  match expect '/' ['>'] s with
  | some r => some (r.map fun () => true)
  | none => (expect '>' [] s).map fun r => r.map fun () => false

/-- The attributes of an opening tag, each behind space, and whether the tag closes itself. -/
def readAttributes (s : Text) : Option (Read (List RawAttribute × Bool) s) :=
  match readTagEnd (skipSpace s) with
  | some r => some ((r.map fun selfClosing => ([], selfClosing)).behind)
  | none =>
    if s.head?.any isSpace then
      match readAttribute (skipSpace s) with
      | none => none
      | some r =>
        (readAttributes r.rest).map fun others =>
          Read.behind (r.followedBy (others.map fun tag => (r.value :: tag.1, tag.2)))
    else none
termination_by s.length
decreasing_by exact r.behind.shorter

def readOpening (s : Text) : Option (Read Token s) :=
  andThen (expect '<' [] s) fun () rest =>
  andThen (readName rest) fun name rest =>
  (readAttributes rest).map fun r => r.map fun tag => .opening name tag.1 tag.2

def readClosing (s : Text) : Option (Read Token s) :=
  andThen (expect '<' ['/'] s) fun () rest =>
  andThen (thenSpace (readName rest)) fun name rest =>
  (expect '>' [] rest).map fun r => r.map fun () => .closing name

/-! ## Comments, instructions, sections and text -/

/-- A comment holds no two hyphens in a row and does not end in one. -/
def comment? (content : Text) : Option Token :=
  if hasPart ['-', '-'] content || content.getLast?.any (· == '-') then none else some (.comment content)

def readComment (s : Text) : Option (Read Token s) :=
  andThen (expect '<' ['!', '-', '-'] s) fun () rest =>
  (upTo isCharacter '-' ['-', '>'] rest).bind (·.mapOption comment?)

def declarationStart : Text := ['<', '?', 'x', 'm', 'l', ' ']

/-- A processing instruction begins with a name; what an XML declaration begins with is refused. -/
def readInstruction (s : Text) : Option (Read Token s) :=
  if declarationStart.isPrefixOf s then none
  else
    andThen (expect '<' ['?'] s) fun () rest =>
    andThen (thenSpace (run isNameCharacter rest)) fun target rest =>
    if beginsName target then
      (upTo isCharacter '?' ['>'] rest).map fun r => r.map fun _ => .instruction
    else none

def readSection (s : Text) : Option (Read Token s) :=
  andThen (expect '<' ['!', '[', 'C', 'D', 'A', 'T', 'A', '['] s) fun () rest =>
  (upTo isCharacter ']' [']', '>'] rest).map fun r => r.map .section

/-- A text does not hold the end of a section. -/
def text? (written : Text) : Option Token :=
  if written.all isCharacter && !hasPart [']', ']', '>'] written then some (.text written) else none

def readText (s : Text) : Option (Read Token s) := (run (· != '<') s).bind (·.mapOption text?)

def readToken (s : Text) : Option (Read Token s) :=
  if ['<', '!', '-'].isPrefixOf s then readComment s
  else if ['<', '!'].isPrefixOf s then readSection s
  else if ['<', '?'].isPrefixOf s then readInstruction s
  else if ['<', '/'].isPrefixOf s then readClosing s
  else if ['<'].isPrefixOf s then readOpening s
  else readText s

def tokens (s : Text) : Option (List Token) :=
  if s.isEmpty then some []
  else
    match readToken s with
    | none => none
    | some r => (tokens r.rest).map (r.value :: ·)
termination_by s.length
decreasing_by exact r.shorter

/-! ## The beginning of a document -/

def declarationSpace (s : Text) : Option Text :=
  if s.head?.any isSpace then some (skipSpace s)
  else if ['?', '>'].isPrefixOf s then some s
  else none

/-- An attribute of the declaration whose name begins with `word`, if there is one. -/
def declarationPart (word : String) (s : Text) : Option Text :=
  if word.toList.isPrefixOf s then (readAttribute s).map (·.rest) else some s

/-- What follows the XML declaration: a version, then optionally an encoding and whether the document stands alone. -/
def afterDeclaration (s : Text) : Option Text := do
  let s ← declarationSpace s
  if "version".toList.isPrefixOf s then
    let s ← declarationPart "version" s
    let s ← declarationSpace s
    let afterEncoding ← declarationPart "encoding" s
    let s ← if "encoding".toList.isPrefixOf s then declarationSpace afterEncoding else some afterEncoding
    let s ← declarationPart "standalone" s
    Text.after? ['?', '>'] (skipSpace s)
  else none

def withoutMark : Text → Text
  | '\ufeff' :: rest => rest
  | s => s

def afterBeginning (s : Text) : Option Text :=
  let s := withoutMark s
  if declarationStart.isPrefixOf s then afterDeclaration (s.drop 5) else some s

end PatternPages.Xml
