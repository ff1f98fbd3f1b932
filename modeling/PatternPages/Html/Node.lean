import PatternPages.Html.Escape

/-! HTML trees and their text. Texts and attribute values are escaped; `raw` holds markup that is already
written, and a fragment is its nodes one after the other. -/
namespace PatternPages.Html

structure Attribute where
  key : Text
  value : Text
  deriving DecidableEq

inductive Node where
  | element (name : Text) (attributes : List Attribute) (children : List Node)
  | text (content : Text)
  | raw (markup : Text)
  | fragment (nodes : List Node)

def Attribute.render (a : Attribute) : Text :=
  ' ' :: a.key ++ '=' :: '"' :: escape a.value ++ ['"']

namespace Node

def plain (name : String) (children : List Node) : Node := .element name.toList [] children

/-- Adds an attribute behind the others of an element; other nodes have none. -/
def withAttribute (key value : Text) : Node → Node
  | .element name attributes children => .element name (attributes ++ [⟨key, value⟩]) children
  | node => node

mutual

def render : Node → Text
  | .element name attributes children =>
    '<' :: name ++ attributes.flatMap Attribute.render ++ '>' :: renderAll children ++
      '<' :: '/' :: name ++ ['>']
  | .text content => escape content
  | .raw markup => markup
  | .fragment nodes => renderAll nodes

def renderAll : List Node → Text
  | [] => []
  | node :: rest => render node ++ renderAll rest

end

end Node

/-- A link that opens `href` in the frame `target`. -/
def link (href target label : Text) : Node :=
  ((Node.plain "a" [.text label]).withAttribute "href".toList href).withAttribute "target".toList target

end PatternPages.Html
