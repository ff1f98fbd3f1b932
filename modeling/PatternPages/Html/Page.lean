import PatternPages.Html.Node
import PatternPages.Text.Numeral

/-! The pages: the listing of all patterns, the listing of the matches of one pattern, the source page of one match,
and the frames that show them side by side. Page names are made of a pattern number, a match number and the label of
a corpus. -/
namespace PatternPages.Html

open Text (decimal)

/-- A page with its title; the nodes of the body stand on lines of their own. -/
structure Page where
  title : Text
  body : List Node

def stylesheet : Text :=
  ("body \x7b font-family: sans-serif; font-size: 14px; \x7d\n" ++
    "pre \x7b margin: 0; font-family: monospace; \x7d\n" ++
    "mark \x7b background-color: #fff3a8; \x7d\n" ++
    ".var \x7b color: #d01010; font-weight: bold; \x7d\n" ++
    ".dum \x7b color: #e07000; font-style: italic; \x7d\n" ++
    ".key \x7b color: #1030c0; \x7d\n" ++
    ".com \x7b color: #208020; \x7d\n").toList

def bodyText : List Node → Text
  | [] => []
  | [node] => node.render
  | node :: rest => node.render ++ '\n' :: bodyText rest

def Page.render (page : Page) : Text :=
  "<!DOCTYPE html>\n<html>\n<head>\n<meta charset=\"utf-8\">\n<title>".toList ++ escape page.title ++
    "</title>\n<style>\n".toList ++ stylesheet ++ "</style>\n</head>\n<body>\n".toList ++
    bodyText page.body ++ "\n</body>\n</html>\n".toList

/-! ## Names -/

def patternsFile : Text := "patterns.html".toList

def indexFile : Text := "index.html".toList

def listingFile (pattern : Nat) (label : Text) : Text :=
  "pattern_".toList ++ decimal pattern ++ "_matches_".toList ++ label ++ ".html".toList

def matchFile (pattern number : Nat) (label : Text) : Text :=
  "patternID_".toList ++ decimal pattern ++ "_matchID_".toList ++ decimal number ++ '_' :: label ++
    ".html".toList

/-! ## Pages -/

def heading (text : Text) : Node := .plain "p" [.plain "h3" [.text text]]

/-- The root listing; `name` is the name of the results. -/
def patternsPage (name : Text) (links : List Node) : Page :=
  ⟨"Patterns".toList, heading ("List patterns: ".toList ++ name) :: links⟩

/-- The entry of a pattern where there is one corpus. -/
def patternLink (pattern : Nat) (label : Text) : Node :=
  .plain "p" [link (listingFile pattern label) "center".toList
    ('[' :: decimal pattern ++ "]- pattern ".toList ++ decimal pattern)]

/-- The entry of a pattern where there are two corpora, with its support in each. -/
def comparisonLink (pattern old new : Nat) : Node :=
  .plain "p" [
    .text ("pattern-".toList ++ decimal pattern ++ ": ( ".toList),
    link (listingFile pattern "old".toList) "center".toList (decimal old ++ " matches old".toList),
    .text " / ".toList,
    link (listingFile pattern "new".toList) "center".toList (decimal new ++ " matches new".toList),
    .text " )".toList]

def matchesPage (pattern : Nat) (links : List Node) : Page :=
  ⟨"Pattern ".toList ++ decimal pattern, heading ("Matches of pattern-".toList ++ decimal pattern) :: links⟩

/-- The entry of the match with the given number, whose page is `file`. -/
def matchLink (file : Text) (number : Nat) (fullName : Text) : Node :=
  .plain "p" [link file "right".toList ('[' :: decimal number ++ "]-".toList ++ fullName)]

/-- The source at `path`, with its lines already marked. -/
def sourcePage (path marked : Text) : Page :=
  ⟨path, [.text ("Source code: ".toList ++ path), .plain "code" [.raw ('\n' :: marked)]]⟩

/-- The entry page: a frame for the patterns, one for the matches of a pattern and one for a source. -/
def framesPage : Text :=
  ("<!DOCTYPE html>\n<html>\n<head>\n<meta charset=\"utf-8\">\n<title>Patterns</title>\n</head>\n" ++
    "<frameset cols=\"18%,22%,60%\">\n" ++
    "<frame src=\"").toList ++ patternsFile ++ ("\" name=\"left\">\n" ++
    "<frame src=\"about:blank\" name=\"center\">\n" ++
    "<frame src=\"about:blank\" name=\"right\">\n" ++
    "</frameset>\n</html>\n").toList

end PatternPages.Html
