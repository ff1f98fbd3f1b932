import PatternPages.Configuration
import PatternPages.FileStore
import PatternPages.Html.Page
import PatternPages.Location
import PatternPages.Marking.Source
import PatternPages.Record

/-! The assembly of a report: all matches of all patterns are rendered, and pages that list them are written beside them.
A match whose source cannot be read is left out; a match without a readable syntax tree is shown without marks. Only a
configuration or a document that cannot be used, or a page that cannot be written, ends the assembly; so does, with the whole
program, a page whose columns leave the 64-bit words. Any parser of documents will do. -/
namespace PatternPages

/-- The two classes of a mining run. Where there is one class it counts as the old one. -/
inductive Corpus where
  | old
  | new
  deriving DecidableEq

def Corpus.label : Corpus → Text
  | old => ['o', 'l', 'd']
  | new => ['n', 'e', 'w']

structure Request where
  /-- The directory of the configuration, the patterns and the matches. -/
  results : Path
  /-- The directory of the source files, or of those of both corpora. -/
  source : Path
  output : Path
  /-- The configuration, if it is not the one in the directory of the results. -/
  configuration : Option Path

structure Report where
  patterns : Nat
  matchPages : Nat
  index : Path
  deriving DecidableEq

structure Collection where
  corpus : Corpus
  directory : Path
  found : List Match

/-- The syntax trees read so far, by the names on their paths. Trees that could not be read are not among them. -/
abbrev Trees := List ((Bool × List Text) × SourceTree)

namespace Assembly

variable {m : Type → Type} [Monad m] [FileStore m] [Xml.Parser]

/-- An action on a file; if it fails the assembly ends. -/
def onFile {α : Type} (p : Path) (action : m (Except FileError α)) : ExceptT Error m α :=
  ExceptT.mk do return (← action).mapError (Error.file p)

/-! ## Documents -/

def readText (p : Path) : ExceptT Error m Text := do
  let bytes ← onFile p (FileStore.readFile p)
  match Text.decode? bytes with
  | some text => return text
  | none => throw (.file p .notUtf8)

def readDocument (p : Path) : ExceptT Error m Xml.Document := do
  match Xml.Parser.read (← readText p) with
  | some document => return document
  | none => throw (.malformedXml p)

def onlyFiles (directory : Path) : List Text → m (List Text)
  | [] => return []
  | name :: rest => do
    let isFile ← FileStore.isFile (directory.join name)
    let files ← onlyFiles directory rest
    return if isFile then name :: files else files

def findConfiguration (directory : Path) : ExceptT Error m Path := do
  let names ← onFile directory (FileStore.names directory)
  match Configuration.firstName? (← (onlyFiles directory names : m (List Text))) with
  | some name => return directory.join name
  | none => throw (.noConfiguration directory)

def loadConfiguration (p : Path) : ExceptT Error m Configuration := do
  match Configuration.parse (← readText p) with
  | .ok configuration => return configuration
  | .error problem => throw (.configuration p problem)

def readPatterns (p : Path) : ExceptT Error m (List Pattern) := do
  return Pattern.ofDocument (← readDocument p)

def readMatches (p : Path) : ExceptT Error m (List Match) := do
  return Match.ofDocument (← readDocument p)

/-! ## Matches -/

/-- The recorded file in the directory of its corpus, or the file of that name if there is none. -/
def sourcePath (directory : Path) (recorded : Text) : m Path := do
  let path := directory.join recorded
  if ← FileStore.isFile path then return path
  else return directory.join (lastName recorded)

/-- The syntax tree at a path, read if it is not there yet. -/
def treeAt (trees : Trees) (p : Path) : m (Trees × Option SourceTree) := do
  match trees.lookup p.components with
  | some tree => return (trees, some tree)
  | none =>
    match ← (readDocument p).run with
    | .error _ => return (trees, none)
    | .ok document =>
      let tree := SourceTree.ofDocument document
      return ((p.components, tree) :: trees, some tree)

def marksOf (x : Match) (lines : List Text) : Option SourceTree → Marking.Index
  | none => OrderedMap.empty
  | some tree => locate tree lines x.nodeIds

/-- The source page of a match, if its source can be read. The tree stands beside the source. -/
def matchPage (directory : Path) (trees : Trees) (x : Match) :
    m (Trees × Option (Except Marking.Overflow Html.Page)) := do
  let path ← sourcePath directory x.fileName
  match ← FileStore.readFile path with
  | .error _ => return (trees, none)
  | .ok bytes =>
    let lines := Text.lines (Text.decodeLossy bytes)
    let (trees, tree) ← treeAt trees (path.withExtension "xml".toList)
    return (trees, some ((Marking.render lines (marksOf x lines tree)).map (Html.sourcePage path.text)))

/-! ## Pages -/

/-- Writes the content of a page, if it could be rendered. -/
def writePage (output : Path) (file : Text) : Except Marking.Overflow Text → ExceptT Error m Unit
  | .ok content => onFile (output.join file) (FileStore.writeFile (output.join file) (Text.encode content))
  | .error _ => throw .overflow

/-- Writes the pages of matches, counted from `number`, and gives the links to them. -/
def writeMatches (output : Path) (c : Collection) (pattern : Nat) :
    Trees → Nat → List Match → ExceptT Error m (Trees × List Html.Node)
  | trees, _, [] => return (trees, [])
  | trees, number, x :: rest => do
    match ← (matchPage c.directory trees x : m (Trees × Option (Except Marking.Overflow Html.Page))) with
    | (trees, none) => writeMatches output c pattern trees number rest
    | (trees, some page) =>
      let file := Html.matchFile pattern number c.corpus.label
      writePage output file (page.map Html.Page.render)
      let (trees, links) ← writeMatches output c pattern trees (number + 1) rest
      return (trees, Html.matchLink file number x.fullName :: links)

/-- Writes the pages of the matches of one pattern and their listing, and counts the matches listed. -/
def writePattern (output : Path) (c : Collection) (trees : Trees) (pattern : Nat) :
    ExceptT Error m (Trees × Nat) := do
  let (trees, links) ← writeMatches output c pattern trees 1 (Match.ofPattern c.found pattern)
  writePage output (Html.listingFile pattern c.corpus.label) (.ok (Html.matchesPage pattern links).render)
  return (trees, links.length)

/-- Writes the pages of patterns in one corpus; the links to them, and the number of matches. -/
def writeOneClass (output : Path) (c : Collection) :
    Trees → List Pattern → ExceptT Error m (List Html.Node × Nat)
  | _, [] => return ([], 0)
  | trees, p :: rest => do
    let (trees, count) ← writePattern output c trees p.number
    let (links, total) ← writeOneClass output c trees rest
    return (Html.patternLink p.number c.corpus.label :: links, count + total)

/-- The support of a pattern in two collections; if it is not recorded their matches are counted. -/
def supportIn (old new : Collection) (p : Pattern) : Nat × Nat :=
  match p.classSupport with
  | .ok support => support
  | .error _ => ((Match.ofPattern old.found p.number).length, (Match.ofPattern new.found p.number).length)

/-- Writes the pages of patterns in two corpora, pattern by pattern; the links to them, and the number of matches. -/
def writeTwoClass (output : Path) (old new : Collection) :
    Trees → Trees → List Pattern → ExceptT Error m (List Html.Node × Nat)
  | _, _, [] => return ([], 0)
  | oldTrees, newTrees, p :: rest => do
    let support := supportIn old new p
    let (oldTrees, oldCount) ← writePattern output old oldTrees p.number
    let (newTrees, newCount) ← writePattern output new newTrees p.number
    let (links, total) ← writeTwoClass output old new oldTrees newTrees rest
    return (Html.comparisonLink p.number support.1 support.2 :: links, oldCount + newCount + total)

def writeMode (r : Request) (patterns : List Pattern) : Mode → ExceptT Error m (List Html.Node × Nat)
  | .oneClass found => do
    writeOneClass r.output ⟨.old, r.source, ← readMatches (r.results.join found)⟩ [] patterns
  | .twoClass oldMatches newMatches oldInputs newInputs => do
    let old ← readMatches (r.results.join oldMatches)
    let new ← readMatches (r.results.join newMatches)
    writeTwoClass r.output ⟨.old, r.source.join oldInputs, old⟩ ⟨.new, r.source.join newInputs, new⟩
      [] [] patterns

def resultsName (results : Path) : Text := results.fileName.getD results.text

def configurationPath (r : Request) : ExceptT Error m Path :=
  match r.configuration with
  | some path => return path
  | none => findConfiguration r.results

def assemble (r : Request) : ExceptT Error m Report := do
  let configuration ← loadConfiguration (← configurationPath r)
  onFile r.output (FileStore.createDirectories r.output)
  let patterns ← readPatterns (r.results.join configuration.patterns)
  let (links, matchPages) ← writeMode r patterns configuration.mode
  writePage r.output Html.patternsFile (.ok (Html.patternsPage (resultsName r.results) links).render)
  writePage r.output Html.indexFile (.ok Html.framesPage)
  return ⟨patterns.length, matchPages, r.output.join Html.indexFile⟩

end Assembly

def Request.run {m : Type → Type} [Monad m] [FileStore m] [Xml.Parser] (r : Request) : m (Except Error Report) :=
  (Assembly.assemble r).run

end PatternPages
