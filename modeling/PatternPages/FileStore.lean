import PatternPages.FileTree

/-! The files that a program works on, as an interface, and the model of it: a program is a function on file trees. -/
namespace PatternPages

open Text (Bytes)

class FileStore (m : Type → Type) where
  readFile : Path → m (Except FileError Bytes)
  isFile : Path → m Bool
  /-- The names in a directory, in any order. -/
  names : Path → m (Except FileError (List Text))
  /-- Makes a directory and those above it that are missing. -/
  createDirectories : Path → m (Except FileError Unit)
  writeFile : Path → Bytes → m (Except FileError Unit)

instance : FileStore (StateM FileTree) where
  readFile p := fun t => (t.readFile p, t)
  isFile p := fun t => (t.isFile p, t)
  names p := fun t => (t.names p, t)
  createDirectories p := fun t => (t.createDirectories p).swap
  writeFile p content := fun t => (t.writeFile p content).swap

end PatternPages
