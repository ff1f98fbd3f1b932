import PatternPages.Assembly

/-! The command line. `render` takes its directories as options, each at most once; an option has a long and a short name
and its value in the same argument or in the next one. `help` and `--version` answer at once, whatever else is asked. -/
namespace PatternPages.CommandLine

/-- The options of `render` that have a value. -/
inductive ValueOption where
  | results
  | source
  | output
  | configuration
  deriving DecidableEq

namespace ValueOption

def ofLong? (name : Text) : Option ValueOption :=
  if name = "results".toList then some results
  else if name = "source".toList then some source
  else if name = "output".toList then some output
  else if name = "config".toList then some configuration
  else none

def ofShort? : Char → Option ValueOption
  | 'r' => some results
  | 's' => some source
  | 'o' => some output
  | 'c' => some configuration
  | _ => none

end ValueOption

inductive Switch where
  | verbose
  | help
  | version
  deriving DecidableEq

/-- The switches by long name; only `render` can be verbose. -/
def longSwitch? (inRender : Bool) (name : Text) : Option Switch :=
  if name = "help".toList then some .help
  else if name = "version".toList then some .version
  else if inRender && name = "verbose".toList then some .verbose
  else none

def shortSwitch? (inRender : Bool) : Char → Option Switch
  | 'h' => some .help
  | 'V' => some .version
  | 'v' => if inRender then some .verbose else none
  | _ => none

/-- An option as it was given; without a value if another option came where the value should be. -/
structure Given where
  option : ValueOption
  value : Option Text
  deriving DecidableEq

inductive Command where
  | render (request : Request)
  | help
  | version (program : Text)

inductive Effect where
  | refused
  | answered (s : Switch)
  /-- Options are given; the last may wait for its value. -/
  | given (options : List Given) (awaiting : Option ValueOption)

def isLong (argument : Text) : Bool := ['-', '-'].isPrefixOf argument

/-- The argument is no value of the option before it. A hyphen alone is a value. -/
def isOption (argument : Text) : Bool := argument.head? = some '-' && argument ≠ ['-']

def withoutHyphens (argument : Text) : Text := argument.dropWhile (· = '-')

/-- A value behind an equals sign; further ones are left out. -/
def attached (value : Text) : Text := value.dropWhile (· = '=')

/-- `--name`, `--name value` or `--name=value`. -/
def longEffect (inRender : Bool) (argument : Text) : Effect :=
  let written := withoutHyphens argument
  let name := written.takeWhile (· != '=')
  match (if inRender then ValueOption.ofLong? name else none) with
  | some option =>
    if written.contains '=' then
      .given [⟨option, some (attached (written.drop name.length))⟩] none
    else .given [] (some option)
  | none =>
    match longSwitch? inRender name with
    | some .verbose => .given [] none
    | some s => .answered s
    | none => .refused

/-- Short names in one argument; what follows the name of an option is its value. -/
def shortEffect (inRender : Bool) : Text → Effect
  | [] => .given [] none
  | c :: rest =>
    match (if inRender then ValueOption.ofShort? c else none) with
    | some option =>
      if rest.isEmpty then .given [] (some option)
      else .given [⟨option, some (attached rest)⟩] none
    | none =>
      match shortSwitch? inRender c with
      | some .verbose => shortEffect inRender rest
      | some s => .answered s
      | none => .refused

def effect (inRender : Bool) (argument : Text) : Effect :=
  if isLong argument then longEffect inRender argument
  else shortEffect inRender (withoutHyphens argument)

inductive Arguments where
  | refused
  | answered (s : Switch)
  | given (options : List Given)

/-- Reads the arguments of `render`. Two hyphens end the options, and nothing may follow them. -/
def readArguments (options : List Given) : Option ValueOption → List Text → Arguments
  | none, [] => .given options
  | some _, [] => .refused
  | awaiting, argument :: rest =>
    if isOption argument then
      if argument = ['-', '-'] then
        if rest.isEmpty && awaiting.isNone then .given options else .refused
      else
        let options := options ++ (awaiting.map fun option => Given.mk option none).toList
        match effect true argument with
        | .refused => .refused
        | .answered s => .answered s
        | .given more awaiting => readArguments (options ++ more) awaiting rest
    else
      match awaiting with
      | none => .refused
      | some option => readArguments (options ++ [⟨option, some argument⟩]) none rest

/-! ## Commands -/

def values (options : List Given) (option : ValueOption) : List (Option Text) :=
  (options.filter (·.option = option)).map (·.value)

/-- The value of an option that has to be given, and only once. -/
def required (options : List Given) (option : ValueOption) : Option Path :=
  match values options option with
  | [some value] => some ⟨value⟩
  | _ => none

/-- The value of an option that may be left out. If it is given, then once and with a value. -/
def optional (options : List Given) (option : ValueOption) : Option (Option Path) :=
  match values options option with
  | [] => some none
  | [some value] => some (some ⟨value⟩)
  | _ => none

def requestOf (options : List Given) : Option Request := do
  return ⟨← required options .results, ← required options .source, ← required options .output,
    ← optional options .configuration⟩

def programName : Text := "matchview".toList

def renderName : Text := "render".toList

def helpName : Text := "help".toList

def renderCommand (arguments : List Text) : Option Command :=
  match readArguments [] none arguments with
  | .refused => none
  | .answered .version => some (.version (programName ++ '-' :: renderName))
  | .answered _ => some .help
  | .given options => (requestOf options).map .render

/-- The command of all arguments; there is none if they are refused. -/
def command? : List Text → Option Command
  | [] => none
  | argument :: rest =>
    if argument = renderName then renderCommand rest
    else if argument = helpName then
      if rest = [] || rest = [renderName] || rest = [helpName] then some .help else none
    else if isOption argument && argument ≠ ['-', '-'] then
      match effect false argument with
      | .answered .version => some (.version programName)
      | .answered _ => some .help
      | _ => none
    else none

/-! ## Outcomes -/

inductive Outcome where
  | refused
  | answered (text : Text)
  | rendered (report : Report)
  | failed (error : Error)

def versionText (program : Text) : Text := program ++ " 0.3.0\n".toList

def helpText : Text :=
  ("render mined AST pattern matches as highlighted HTML pages\n\n" ++
    "USAGE:\n    matchview render --results <results> --source <source> --output <output> [--config <config>]\n\n" ++
    "FLAGS:\n    -h, --help       Prints help information\n    -V, --version    Prints version information\n" ++
    "    -v, --verbose    \n").toList

namespace Outcome

def exitCode : Outcome → Nat
  | refused => 1
  | answered _ => 0
  | rendered _ => 0
  | failed .overflow => 101
  | failed _ => 1

def output : Outcome → Text
  | refused => []
  | answered text => text
  | rendered report => report.index.text ++ ['\n']
  | failed _ => []

def failure : Outcome → Option Text
  | refused => some "usage".toList
  | answered _ => none
  | rendered _ => none
  | failed e => some e.message

end Outcome

def run {m : Type → Type} [Monad m] [FileStore m] [Xml.Parser] (arguments : List Text) : m Outcome := do
  match command? arguments with
  | none => return .refused
  | some (.version program) => return .answered (versionText program)
  | some .help => return .answered helpText
  | some (.render request) =>
    match ← request.run with
    | .ok report => return .rendered report
    | .error e => return .failed e

end PatternPages.CommandLine
