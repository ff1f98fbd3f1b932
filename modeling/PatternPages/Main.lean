import PatternPages.CommandLine
import PatternPages.Xml.Reading

/-! The program: the command line run on the files of the system. -/
namespace PatternPages

open Text (Bytes)

/-- The cause of a failure of the system, by its number where it has a constructor of its own. -/
def FileError.ofSystem : IO.Error → FileError
  | .noFileOrDirectory _ _ _ => .notFound
  | .noSuchThing _ _ _ => .notFound
  | .alreadyExists _ _ _ => .alreadyExists
  | .inappropriateType _ 20 _ => .notDirectory
  | .inappropriateType _ 21 _ => .isDirectory
  | .invalidArgument _ 36 _ => .nameTooLong
  | e => .other (toString e).toList

/-- Runs an action on a path of the system and reports its failure. -/
def Path.attempt {α : Type} (p : Path) (action : String → IO α) : IO (Except FileError α) :=
  match p.refusal? with
  | some e => return .error e
  | none => try return .ok (← action (String.ofList p.text)) catch e => return .error (.ofSystem e)

instance : FileStore IO where
  readFile p := p.attempt fun path => return (← IO.FS.readBinFile path).toList
  isFile p := do
    let kind ← p.attempt fun path => do
      let here : IO.FS.DirEntry := ⟨path, "."⟩
      return (← here.root.metadata).type
    match kind with
    | .ok .file => return true
    | _ => return false
  names p := p.attempt fun path => do
    let here : IO.FS.DirEntry := ⟨path, "."⟩
    return (← here.root.readDir).toList.map fun entry => entry.fileName.toList
  createDirectories p :=
    if p.text = [] then return .ok () else p.attempt fun path => IO.FS.createDirAll path
  writeFile p content := p.attempt fun path => IO.FS.writeBinFile path ⟨content.toArray⟩

end PatternPages

open PatternPages in
def main (arguments : List String) : IO UInt32 := do
  let outcome ← CommandLine.run (arguments.map String.toList)
  IO.print (String.ofList outcome.output)
  match outcome.failure with
  | some message => IO.eprintln ("error: " ++ String.ofList message)
  | none => pure ()
  return UInt32.ofNat outcome.exitCode
