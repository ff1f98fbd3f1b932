import PatternPages.Error
import PatternPages.OrderedMap
import PatternPages.Text.Utf8

/-! File trees without links, devices and permissions: an entry is a directory or a file, and every file can be read. A place
is the list of names from an entry up to the root, so its tail is the directory that holds it. A path is followed part by
part, and every part but the last one has to be a directory. -/
namespace PatternPages

open Text (Bytes)

def Path.isLongName (name : Text) : Bool := 255 < Text.byteCount name

/-- Why nothing has such a path, whatever there is: a path has a character and no NUL, and at most 4095 bytes. -/
def Path.refusal? (p : Path) : Option FileError :=
  if p.text.contains '\x00' then some .nulInPath
  else if p.text = [] then some .notFound
  else if 4095 < Text.byteCount p.text then some .nameTooLong
  else none

/-- The names from an entry up to the root. -/
abbrev Place := List Text

inductive FileEntry where
  | file (content : Bytes)
  | directory
  deriving DecidableEq

structure FileTree where
  workingDirectory : Place
  entries : OrderedMap Place FileEntry
  deriving DecidableEq

namespace FileTree

/-- The root is a directory that has no entry of its own. -/
def entry? (t : FileTree) : Place → Option FileEntry
  | [] => some .directory
  | place => t.entries.get? place

/-- A tree with the directories down to the working directory and nothing else. -/
def fresh (workingDirectory : Place) : FileTree :=
  ⟨workingDirectory,
    .ofList ((List.range workingDirectory.length).map fun n => (workingDirectory.drop n, .directory))⟩

/-! ## Paths -/

/-- Follows parts from a place. An idle part stays in a directory, and two dots lead to the one that holds it. -/
def walk (t : FileTree) : Place → List Text → Except FileError Place
  | place, [] => .ok place
  | place, part :: rest =>
    match t.entry? place with
    | some .directory =>
      if Path.isIdle part then walk t place rest
      else if part = Path.up then walk t place.tail rest
      else if Path.isLongName part then .error .nameTooLong
      else if (t.entry? (part :: place)).isSome then walk t (part :: place) rest
      else .error .notFound
    | some (.file _) => .error .notDirectory
    | none => .error .notFound

def start (t : FileTree) (p : Path) : Place :=
  if p.text.head? = some '/' then [] else t.workingDirectory

def resolve (t : FileTree) (p : Path) : Except FileError Place :=
  match p.refusal? with
  | some e => .error e
  | none => t.walk (t.start p) p.parts

def find (t : FileTree) (p : Path) : Except FileError (Place × FileEntry) :=
  match t.resolve p with
  | .error e => .error e
  | .ok place =>
    match t.entry? place with
    | some e => .ok (place, e)
    | none => .error .notFound

/-! ## Reading -/

def readFile (t : FileTree) (p : Path) : Except FileError Bytes :=
  match t.find p with
  | .error e => .error e
  | .ok (_, .file content) => .ok content
  | .ok (_, .directory) => .error .isDirectory

def isFile (t : FileTree) (p : Path) : Bool :=
  match t.find p with
  | .ok (_, .file _) => true
  | _ => false

def namesAt (t : FileTree) (place : Place) : List Text :=
  t.entries.keys.filterMap fun key =>
    match key with
    | [] => none
    | name :: above => if above = place then some name else none

def names (t : FileTree) (p : Path) : Except FileError (List Text) :=
  match t.find p with
  | .error e => .error e
  | .ok (_, .file _) => .error .notDirectory
  | .ok (place, .directory) => .ok (t.namesAt place)

/-! ## Writing -/

def put (t : FileTree) (place : Place) (e : FileEntry) : FileTree :=
  { t with entries := t.entries.insert place e }

/-- The directory that holds the end of a path whose other parts are `outer`, innermost first. -/
def directoryAt (t : FileTree) (from_ : Place) (outer : List Text) : Except FileError Place :=
  match t.walk from_ outer.reverse with
  | .error e => .error e
  | .ok place =>
    match t.entry? place with
    | some .directory => .ok place
    | some (.file _) => .error .notDirectory
    | none => .error .notFound

/-- Makes one directory. Slashes at the end of the path are left out. -/
def makeDirectory (t : FileTree) (from_ : Place) (innermost : List Text) : Except FileError FileTree :=
  match innermost.dropWhile (· = []) with
  | [] => .error .alreadyExists
  | part :: outer =>
    match t.directoryAt from_ outer with
    | .error e => .error e
    | .ok place =>
      if part = Path.here || part = Path.up then .error .alreadyExists
      else if Path.isLongName part then .error .nameTooLong
      else if (t.entry? (part :: place)).isSome then .error .alreadyExists
      else .ok (t.put (part :: place) .directory)

def isDirectoryAt (t : FileTree) (from_ : Place) (innermost : List Text) : Bool :=
  match t.directoryAt from_ innermost with
  | .ok _ => true
  | .error _ => false

/-- Makes the first of the paths. If it lacks its parent the next path is made before; a directory that is already there
is as good. -/
def makeFirst (t : FileTree) (from_ : Place) : List (List Text) → FileTree × Except FileError Unit
  | [] => (t, .ok ())
  | path :: parents =>
    match t.makeDirectory from_ path with
    | .ok made => (made, .ok ())
    | .error .notFound =>
      match makeFirst t from_ parents with
      | (t, .error e) => (t, .error e)
      | (t, .ok ()) =>
        match t.makeDirectory from_ path with
        | .ok made => (made, .ok ())
        | .error e => (t, if t.isDirectoryAt from_ path then .ok () else .error e)
    | .error e => (t, if t.isDirectoryAt from_ path then .ok () else .error e)

/-- Makes a directory and those above it. Nothing has to be made for the empty path. -/
def createDirectories (t : FileTree) (p : Path) : FileTree × Except FileError Unit :=
  if p.text = [] then (t, .ok ())
  else
    match p.refusal? with
    | some e => (t, .error e)
    | none =>
      let innermost := p.parts.reverse
      t.makeFirst (t.start p) (innermost :: (Path.parentsFrom innermost).tail)

/-- Puts a file with the content at the end of the path, in place of the file that may be there. -/
def writeFile (t : FileTree) (p : Path) (content : Bytes) : FileTree × Except FileError Unit :=
  match p.refusal?, p.parts.reverse with
  | some e, _ => (t, .error e)
  | none, [] => (t, .error .notFound)
  | none, part :: outer =>
    match t.directoryAt (t.start p) outer with
    | .error e => (t, .error e)
    | .ok place =>
      if Path.isIdle part || part = Path.up then (t, .error .isDirectory)
      else if Path.isLongName part then (t, .error .nameTooLong)
      else if t.entry? (part :: place) = some .directory then (t, .error .isDirectory)
      else (t.put (part :: place) (.file content), .ok ())

end FileTree

end PatternPages
