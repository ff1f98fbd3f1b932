import PatternPages.Xml.Document
import PatternPages.Xml.Reference
import PatternPages.Xml.Token

/-! From tokens to a document. Opening and closing tags match, prefixes are declared, an element has no two attributes of one
name, texts that touch are one text, and there is nothing but comments, instructions and space outside the root. -/
namespace PatternPages.Xml

/-! ## Namespaces -/

def xmlSpace : Text := "http://www.w3.org/XML/1998/namespace".toList

def declarationSpaceName : Text := "http://www.w3.org/2000/xmlns/".toList

/-- The prefixes in scope, the innermost declaration first, with the namespaces that they stand for. -/
abbrev Scope := List (Text × Text)

inductive Meaning where
  | declaration (qualifier space : Text)
  | attribute (name : QualifiedName) (value : Text)
  /-- It declares the namespace of names without prefix, which no answer depends on. -/
  | silent

/-- The prefix `xml` stands for its namespace and only that; the namespace of declarations has no prefix. -/
def meaning? (a : RawAttribute) : Option Meaning := do
  let value ← attributeValue? a.value
  if a.name.qualifier = "xmlns".toList then
    if value = declarationSpaceName then none
    else if a.name.name = "xml".toList ↔ value = xmlSpace then
      some (.declaration a.name.name value)
    else none
  else if a.name.name = "xmlns".toList then
    if value = xmlSpace || value = declarationSpaceName then none else some .silent
  else some (.attribute a.name value)

/-- The prefixes that an opening tag declares; none is declared twice. -/
def declared : List Meaning → Scope → Option Scope
  | [], scope => some scope
  | .declaration qualifier space :: rest, scope =>
    if scope.any (·.1 = qualifier) then none
    else declared rest (if qualifier = "xml".toList then scope else scope ++ [(qualifier, space)])
  | _ :: rest, scope => declared rest scope

def attributeSpace? (scope : Scope) (qualifier : Text) : Option (Option Text) :=
  if qualifier = [] then some none
  else if qualifier = "xml".toList then some (some xmlSpace)
  else (scope.lookup qualifier).map some

def resolved (scope : Scope) : List Meaning → List Attribute → Option (List Attribute)
  | [], attributes => some attributes
  | .attribute name value :: rest, attributes =>
    match attributeSpace? scope name.qualifier with
    | none => none
    | some space =>
      if attributes.any fun a => a.space = space && a.name = name.name then none
      else resolved scope rest (attributes ++ [⟨space, name.name, value⟩])
  | _ :: rest, attributes => resolved scope rest attributes

/-! ## Elements -/

structure Open where
  name : QualifiedName
  attributes : List Attribute
  scope : Scope
  /-- The children so far, the latest first. -/
  children : List Node

/-- The elements being read, the innermost first, and the root once it is complete. -/
structure Progress where
  stack : List Open
  root : Option Element

def begin? (outer : Scope) (name : QualifiedName) (written : List RawAttribute) : Option Open := do
  let meanings ← written.mapM meaning?
  let scope := (← declared meanings []) ++ outer
  let attributes ← resolved scope meanings []
  let known := name.qualifier = [] || scope.any (·.1 = name.qualifier)
  if name.qualifier = "xmlns".toList || !known then none
  else some ⟨name, attributes, scope, []⟩

/-- Adds a text behind the children, the latest of which is first; it joins a text that it touches. -/
def addText (content : Text) : List Node → List Node
  | .text before :: rest => .text (before ++ content) :: rest
  | children => .text content :: children

def finish (e : Open) (outer : List Open) : Progress :=
  match outer with
  | [] => ⟨[], some ⟨e.name.name, e.attributes, e.children.reverse⟩⟩
  | parent :: rest =>
    let node := Node.element e.name.name e.attributes e.children.reverse
    ⟨{ parent with children := node :: parent.children } :: rest, none⟩

/-- Changes the children of the innermost element; outside the root there is none. -/
def Progress.change (p : Progress) (f : List Node → List Node) : Option Progress :=
  match p.stack with
  | [] => none
  | e :: outer => some ⟨{ e with children := f e.children } :: outer, p.root⟩

def Progress.step (p : Progress) : Token → Option Progress
  | .text written => do
    let content ← textContent? written
    if p.stack.isEmpty then
      if written.all isSpace then some p else none
    else p.change (addText content)
  | .section content => p.change (addText (sectionContent content))
  | .comment content => if p.stack.isEmpty then some p else p.change (.comment content :: ·)
  | .instruction => if p.stack.isEmpty then some p else p.change (.instruction :: ·)
  | .opening name written selfClosing =>
    if p.root.isSome then none
    else do
      let e ← begin? ((p.stack.head?.map (·.scope)).getD []) name written
      if selfClosing then some (finish e p.stack) else some ⟨e :: p.stack, none⟩
  | .closing name =>
    match p.stack with
    | [] => none
    | e :: outer => if e.name = name then some (finish e outer) else none

def read (source : Text) : Option Document := do
  let tokens ← tokens (← afterBeginning source)
  let progress ← tokens.foldlM Progress.step ⟨[], none⟩
  if progress.stack.isEmpty then progress.root else none

/-- The parser of the program. -/
instance : Parser := ⟨read⟩

end PatternPages.Xml
