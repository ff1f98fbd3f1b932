import PatternPages.Text.Lines

/-! Paths as they are written: parts separated by slashes. Nothing is normalized, so a path is shown as it was given. -/
namespace PatternPages

structure Path where
  text : Text
  deriving DecidableEq

/-- The last name of a path written on any platform, without separators behind it. -/
def lastName (s : Text) : Text :=
  let isSeparator (c : Char) : Bool := c = '/' || c = '\\'
  let named := (Text.trim s).reverse.dropWhile isSeparator
  (named.takeWhile fun c => !isSeparator c).reverse

namespace Path

/-- The path of `file` seen from `directory`; an absolute `file` stands for itself. -/
def join (directory : Path) (file : Text) : Path :=
  if file.head? = some '/' then ⟨file⟩
  else if directory.text = [] || directory.text.getLast? = some '/' then ⟨directory.text ++ file⟩
  else ⟨directory.text ++ '/' :: file⟩

/-- What stands between the slashes. An absolute path begins with an empty part. -/
def parts (p : Path) : List Text := Text.splitAt '/' p.text

def here : Text := ['.']

def up : Text := ['.', '.']

def isIdle (part : Text) : Bool := part = [] || part = here

/-- The given path and then those of its parents, innermost part first. At the beginning of a path a dot or an empty part
stands for a directory; elsewhere idle parts are passed over. -/
def parentsFrom : List Text → List (List Text)
  | [] => []
  | part :: outer =>
    if isIdle part && !outer.isEmpty then parentsFrom outer
    else (part :: outer) :: parentsFrom outer

/-- The parts innermost first, idle parts at the end of the path left out. -/
def innermostParts (p : Path) : List Text := (parentsFrom p.parts.reverse).headD []

def fileName (p : Path) : Option Text :=
  match p.innermostParts with
  | [] => none
  | part :: _ => if isIdle part || part = up then none else some part

/-- A name cut at its last dot. A dot at the beginning does not count. -/
def splitName (name : Text) : Text × Option Text :=
  let extension := name.reverse.takeWhile (· != '.')
  let stem := (name.reverse.drop (extension.length + 1)).reverse
  if stem = [] then (name, none) else (stem, some extension.reverse)

def extension (p : Path) : Option Text := p.fileName.bind fun name => (splitName name).2

/-- A name with another extension. If the stem is a lone dot, two dots are left when the old extension goes, and they lead
up and take no extension. -/
def renamed (name extension : Text) : Text :=
  let stem := (splitName name).1
  if stem = here then up else stem ++ '.' :: extension

/-- Gives the name at the end of the path another extension. -/
def withExtension (p : Path) (extension : Text) : Path :=
  match p.innermostParts, p.fileName with
  | _ :: outer, some name => ⟨Text.joinWith '/' (renamed name extension :: outer).reverse⟩
  | _, _ => p

/-- The parts that name something, from the outside; the path may be absolute, and a dot at its beginning counts. Paths
that agree in them lead to the same place. -/
def components (p : Path) : Bool × List Text :=
  let named := p.parts.filter fun part => !isIdle part
  (p.text.head? = some '/', if p.parts.head? = some here then here :: named else named)

end Path

end PatternPages
