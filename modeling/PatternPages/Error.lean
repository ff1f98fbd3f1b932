import PatternPages.Marking.Splice
import PatternPages.Path
import PatternPages.Text.Numeral
import PatternPages.Text.Quoted

/-! What can go wrong, by cause, and how it is reported. -/
namespace PatternPages

inductive FileError where
  | notFound
  | alreadyExists
  | notDirectory
  | isDirectory
  | nameTooLong
  /-- The path has a NUL character, which ends a path. -/
  | nulInPath
  | notUtf8
  | other (description : Text)
  deriving DecidableEq

def FileError.message : FileError → Text
  | notFound => "No such file or directory (os error 2)".toList
  | alreadyExists => "File exists (os error 17)".toList
  | notDirectory => "Not a directory (os error 20)".toList
  | isDirectory => "Is a directory (os error 21)".toList
  | nameTooLong => "File name too long (os error 36)".toList
  | nulInPath => "file name contained an unexpected NUL byte".toList
  | notUtf8 => "stream did not contain valid UTF-8".toList
  | other description => description

inductive AttributeError where
  | missing (element name : Text)
  | invalid (element name value : Text)
  deriving DecidableEq

def AttributeError.message : AttributeError → Text
  | missing element name =>
    '<' :: element ++ "> is missing the `".toList ++ name ++ "` attribute".toList
  | invalid element name value =>
    '<' :: element ++ "> has an invalid `".toList ++ name ++ "` value ".toList ++ Text.quoted value

inductive ConfigurationProblem where
  /-- The value of the key names no file. -/
  | missing (key : Text)
  /-- The key that tells one class from two has another value. -/
  | unknownClass (value : Text)
  | repeated (key : Text)
  deriving DecidableEq

def ConfigurationProblem.message : ConfigurationProblem → Text
  | missing key => "missing `".toList ++ key ++ ['`']
  | unknownClass value => "`2Class` must be true or false, not ".toList ++ Text.quoted value
  | repeated key => "duplicate field `".toList ++ key ++ ['`']

def Marking.SpliceError.message (e : Marking.SpliceError) : Text :=
  "cannot mark columns ".toList ++ Text.decimal e.start.toNat ++ "..".toList ++
    Text.decimal e.stop.toNat ++ " of line ".toList ++ Text.quoted e.line

inductive Error where
  | file (path : Path) (cause : FileError)
  | malformedXml (path : Path)
  | noConfiguration (directory : Path)
  | configuration (path : Path) (problem : ConfigurationProblem)
  /-- A column of a page left the 64-bit words, which ends the program on the spot. -/
  | overflow
  deriving DecidableEq

def Error.message : Error → Text
  | file path cause => "cannot access ".toList ++ path.text ++ ": ".toList ++ cause.message
  | malformedXml path => "malformed XML in ".toList ++ path.text
  | noConfiguration directory => "no configuration file found in ".toList ++ directory.text
  | configuration path problem =>
    "invalid configuration ".toList ++ path.text ++ ": ".toList ++ problem.message
  | overflow => "attempt to add with overflow".toList

end PatternPages
