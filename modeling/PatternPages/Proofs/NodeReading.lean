import PatternPages.Html.Page
import PatternPages.Proofs.Markup
import PatternPages.Proofs.NodeForms
import PatternPages.Text.Lines

/-! A reader of rendered trees. It cuts a text at its angle brackets and takes the tags from the last one to the first, so
that the children of an element are known where its opening tag stands. A tree is read back up to its normal form: no text
and no value of an attribute is ever taken for a tag. -/
namespace PatternPages.Html

/-! ## Tags -/

inductive Tag where
  | opening (name : Text) (attributes : List Attribute)
  | closing (name : Text)

/-- What stands between a blank and an equals sign. -/
def readKey? (part : Text) : Option Text :=
  if part.head? = some ' ' ∧ part.getLast? = some '=' then some part.tail.dropLast else none

/-- The attributes that the parts between quotes come from: a key, a value, a key and so on, with an empty part at the end. -/
def readAttributes? : List Text → Option (List Attribute)
  | [] => none
  | [last] => if last = [] then some [] else none
  | key :: value :: rest => do
    let key ← readKey? key
    let others ← readAttributes? rest
    return ⟨key, resolve value⟩ :: others

def tagName (inside : Text) : Text := inside.takeWhile (· ≠ ' ')

/-- The names of the tags that a scan for brackets finds. -/
def tagNames (html : Text) : List Text := (tags html).map tagName

/-- The tag that has the given text between its brackets. -/
def readTag? (inside : Text) : Option Tag :=
  if inside.head? = some '/' then some (.closing inside.tail)
  else do
    let attributes ← readAttributes? (Text.splitAt '"' (inside.dropWhile (· ≠ ' ')))
    return .opening (tagName inside) attributes

def openingTag (name : Text) (attributes : List Attribute) : Text := name ++ attributes.flatMap Attribute.render

/-- A text without brackets, as it stands between the brackets of one tag. -/
def Whole (inside : Text) : Prop := '<' ∉ inside ∧ '>' ∉ inside

section Tags

variable {name : Text} {attributes : List Attribute}

theorem not_mem_of_alphanumeric {s : Text} (clean : s.all Char.isAlphanum = true) {c : Char} (other : c.isAlphanum = false) :
    c ∉ s := by
  intro mem
  exact Bool.false_ne_true (other.symm.trans (List.all_eq_true.mp clean c mem))

theorem splitAt_render {a : Attribute} (clean : a.key.all Char.isAlphanum = true) (rest : Text) :
    Text.splitAt '"' (a.render ++ rest) = (' ' :: a.key ++ ['=']) :: escape a.value :: Text.splitAt '"' rest := by
  have key : '"' ∉ ' ' :: a.key ++ ['='] := by
    simpa using not_mem_of_alphanumeric clean (by decide)
  have value : '"' ∉ escape a.value := not_mem_escape (.inr (.inr rfl)) a.value
  have parts : a.render ++ rest = (' ' :: a.key ++ ['=']) ++ '"' :: (escape a.value ++ '"' :: rest) := by
    simp [Attribute.render]
  rw [parts, Text.splitAt_append_cons, Text.splitAt_append_cons, Text.splitAt_of_not_mem key, Text.splitAt_of_not_mem value]
  rfl

theorem readKey?_eq (key : Text) : readKey? (' ' :: key ++ ['=']) = some key := by
  refine (if_pos ⟨rfl, List.getLast?_concat⟩).trans ?_
  exact congrArg some List.dropLast_concat

theorem readAttributes?_render (clean : ∀ a ∈ attributes, a.key.all Char.isAlphanum = true) :
    readAttributes? (Text.splitAt '"' (attributes.flatMap Attribute.render)) = some attributes := by
  induction attributes with
  | nil => rfl
  | cons a attributes ih =>
    have others := ih fun b mem => clean b (List.mem_cons_of_mem a mem)
    rw [List.flatMap_cons, splitAt_render (clean a List.mem_cons_self), readAttributes?, readKey?_eq, others, resolve_escape]
    rfl

theorem ne_blank_of_alphanumeric {s : Text} (clean : s.all Char.isAlphanum = true) : ∀ c ∈ s, decide (c ≠ ' ') = true := by
  intro c mem
  refine decide_eq_true ?_
  rintro rfl
  exact not_mem_of_alphanumeric clean (by decide) mem

/-- The attributes begin with a blank, which no name has. -/
theorem tagName_openingTag (clean : name.all Char.isAlphanum = true) (attributes : List Attribute) :
    tagName (openingTag name attributes) = name := by
  rw [tagName, openingTag, List.takeWhile_append_of_pos (ne_blank_of_alphanumeric clean)]
  cases attributes <;> exact List.append_nil name

theorem dropWhile_openingTag (clean : name.all Char.isAlphanum = true) (attributes : List Attribute) :
    (openingTag name attributes).dropWhile (· ≠ ' ') = attributes.flatMap Attribute.render := by
  rw [openingTag, List.dropWhile_append_of_pos (ne_blank_of_alphanumeric clean)]
  cases attributes <;> rfl

theorem tagName_closingTag (clean : name.all Char.isAlphanum = true) : tagName ('/' :: name) = '/' :: name := by
  have all : (name ++ []).takeWhile (· ≠ ' ') = name ++ [] := List.takeWhile_append_of_pos (ne_blank_of_alphanumeric clean)
  rw [List.append_nil] at all
  exact congrArg ('/' :: ·) all

theorem readTag?_closing (name : Text) : readTag? ('/' :: name) = some (.closing name) := rfl

theorem readTag?_opening (name_clean : name.all Char.isAlphanum = true)
    (clean : ∀ a ∈ attributes, a.key.all Char.isAlphanum = true) :
    readTag? (openingTag name attributes) = some (.opening name attributes) := by
  have begins : (openingTag name attributes).head? ≠ some '/' := by
    cases name with
    | nil => cases attributes <;> exact nofun
    | cons c name =>
      rintro slash
      cases Option.some.inj slash
      exact not_mem_of_alphanumeric name_clean (by decide) List.mem_cons_self
  rw [readTag?, if_neg begins, dropWhile_openingTag name_clean, readAttributes?_render clean, tagName_openingTag name_clean]
  rfl

theorem whole_openingTag (name_clean : name.all Char.isAlphanum = true)
    (clean : ∀ a ∈ attributes, a.key.all Char.isAlphanum = true) : Whole (openingTag name attributes) := by
  have outside {c : Char} (bracket : c = '<' ∨ c = '>') (other : c.isAlphanum = false) (syntactic : c ∉ [' ', '=', '"']) :
      c ∉ openingTag name attributes := by
    rw [openingTag, List.mem_append, List.mem_flatMap]
    rintro (mem | ⟨a, mem, inside⟩)
    · exact not_mem_of_alphanumeric name_clean other mem
    · have key := not_mem_of_alphanumeric (clean a mem) other
      have value : c ∉ escape a.value := not_mem_escape (bracket.imp id .inl) a.value
      simp_all [Attribute.render]
  exact ⟨outside (.inl rfl) (by decide) (by decide), outside (.inr rfl) (by decide) (by decide)⟩

theorem whole_closingTag (clean : name.all Char.isAlphanum = true) : Whole ('/' :: name) := by
  constructor
  · simpa using not_mem_of_alphanumeric clean (by decide)
  · simpa using not_mem_of_alphanumeric clean (by decide)

end Tags

/-! ## Reading from the end -/

/-- What has been read of a text from its end: the nodes behind the tag that comes next, and for each element that is closed
but not yet opened its name and the nodes behind it. -/
structure Reading where
  nodes : List Node
  enclosing : List (Text × List Node)

namespace Reading

def mapNodes (f : List Node → List Node) (r : Reading) : Reading := { r with nodes := f r.nodes }

def putTag : Tag → Reading → Option Reading
  | .closing name, r => some ⟨[], (name, r.nodes) :: r.enclosing⟩
  | .opening name attributes, ⟨children, (closed, behind) :: enclosing⟩ =>
    if name = closed then some ⟨.element name attributes children :: behind, enclosing⟩ else none
  | .opening _ _, ⟨_, []⟩ => none

/-- Reads what follows an opening bracket: the inside of a tag, a closing bracket and a text. -/
def putPart (part : Text) (r : Reading) : Option Reading :=
  match Text.splitAt '>' part with
  | inside :: text :: more =>
    (readTag? inside).bind fun tag => putTag tag (r.mapNodes (Node.consText (resolve (Text.joinWith '>' (text :: more)))))
  | _ => none

def ofParts : List Text → Option Reading
  | [] => some ⟨[], []⟩
  | part :: rest => (ofParts rest).bind (putPart part)

def ofText (html : Text) : Option Reading :=
  match Text.splitAt '<' html with
  | [] => none
  | text :: parts => (ofParts parts).map (mapNodes (Node.consText (resolve text)))

theorem mapNodes_comp (f g : List Node → List Node) : mapNodes (f ∘ g) = mapNodes f ∘ mapNodes g := rfl

theorem ofText_nil : ofText [] = some ⟨[], []⟩ := rfl

theorem ofText_escape_append (content rest : Text) :
    ofText (escape content ++ rest) = (ofText rest).map (mapNodes (Node.consText content)) := by
  obtain ⟨text, parts, cut⟩ := Text.exists_splitAt_cons '<' rest
  have whole : Text.splitAt '<' (escape content) = [] ++ [escape content] :=
    Text.splitAt_of_not_mem (not_mem_escape (.inl rfl) content)
  have joins : Node.consText (content ++ resolve text) = Node.consText content ∘ Node.consText (resolve text) :=
    funext (Node.consText_append content (resolve text))
  rw [ofText, ofText, Text.splitAt_append whole cut, cut]
  simp only [List.nil_append, Option.map_map]
  rw [resolve_escape_append, joins, mapNodes_comp]

theorem ofText_tag_append {inside : Text} (whole : Whole inside) (rest : Text) :
    ofText ('<' :: inside ++ '>' :: rest) = (ofText rest).bind fun r => (readTag? inside).bind (putTag · r) := by
  obtain ⟨text, parts, cut⟩ := Text.exists_splitAt_cons '<' rest
  obtain ⟨front, more, within⟩ := Text.exists_splitAt_cons '>' text
  have opened : Text.splitAt '<' ('<' :: inside ++ '>' :: rest) = [] :: (inside ++ '>' :: text) :: parts := by
    have alone : Text.splitAt '<' (inside ++ ['>']) = [] ++ [inside ++ ['>']] :=
      Text.splitAt_of_not_mem (by simpa using whole.1)
    have later := Text.splitAt_append alone cut
    simpa [Text.splitAt] using later
  have closed : Text.splitAt '>' (inside ++ '>' :: text) = inside :: front :: more := by
    rw [Text.splitAt_append_cons, Text.splitAt_of_not_mem whole.2, within]
    rfl
  have behind : Text.joinWith '>' (front :: more) = text := by rw [← within, Text.joinWith_splitAt]
  have put : putPart (inside ++ '>' :: text) =
      fun r => (readTag? inside).bind fun tag => putTag tag (r.mapNodes (Node.consText (resolve text))) := by
    funext r
    simp only [putPart, closed, behind]
  have first_text : mapNodes (Node.consText (resolve [])) = id := rfl
  rw [ofText, ofText, opened, cut]
  simp only [ofParts, put, first_text, Option.map_id, id, Option.bind_map, Function.comp_def]

end Reading

/-- The nodes that a text is rendered from. -/
def decode (html : Text) : Option (List Node) :=
  match Reading.ofText html with
  | some ⟨nodes, []⟩ => some nodes
  | _ => none

/-! ## Trees -/

namespace Node

theorem render_element_append (name : Text) (attributes : List Attribute) (children : List Node) (rest : Text) :
    render (.element name attributes children) ++ rest =
      '<' :: openingTag name attributes ++ '>' :: (renderAll children ++ ('<' :: ('/' :: name) ++ '>' :: rest)) := by
  simp [render, openingTag]

mutual

/-- A tree is put before what is read behind it. -/
theorem ofText_render_append : ∀ node : Node, Clean node → ∀ rest,
    Reading.ofText (render node ++ rest) = (Reading.ofText rest).map (Reading.mapNodes (normalize node))
  | .element name attributes children, ⟨name_clean, attributes_clean, children_clean⟩, rest => by
    rw [render_element_append, Reading.ofText_tag_append (whole_openingTag name_clean attributes_clean),
      ofText_renderAll_append children children_clean, Reading.ofText_tag_append (whole_closingTag name_clean),
      readTag?_opening name_clean attributes_clean, readTag?_closing]
    cases Reading.ofText rest with
    | none => rfl
    | some r =>
      -- The opening tag meets the name that its own closing tag has left.
      exact if_pos rfl
  | .text content, _, rest => Reading.ofText_escape_append content rest
  | .raw _, clean, _ => clean.elim
  | .fragment nodes, clean, rest => by
    rw [render, ofText_renderAll_append nodes clean]
    rfl

theorem ofText_renderAll_append : ∀ nodes : List Node, AllClean nodes → ∀ rest,
    Reading.ofText (renderAll nodes ++ rest) = (Reading.ofText rest).map (Reading.mapNodes (normalizeAll nodes))
  | [], _, rest => by
    have same : Reading.mapNodes (normalizeAll []) = id := rfl
    rw [renderAll, List.nil_append, same, Option.map_id, id]
  | node :: nodes, ⟨first, others⟩, rest => by
    rw [renderAll, List.append_assoc, ofText_render_append node first, ofText_renderAll_append nodes others, Option.map_map]
    rfl

end

theorem decode_render {node : Node} (clean : node.Clean) : decode node.render = some node.normalForm := by
  have read := ofText_render_append node clean []
  rw [List.append_nil, Reading.ofText_nil] at read
  rw [decode, read]
  rfl

theorem render_eq_iff {a b : Node} (aClean : a.Clean) (bClean : b.Clean) :
    a.render = b.render ↔ a.normalForm = b.normalForm := by
  constructor
  · intro same
    have read := decode_render aClean
    rw [same, decode_render bClean] at read
    exact (Option.some.inj read).symm
  · intro same
    rw [← renderAll_normalForm a, same, renderAll_normalForm]

/-! ## Openings and closings -/

mutual

/-- The names of the openings of elements, and with a slash before them those of the closings, in the order in which they
come. Neither texts nor attributes count. -/
def outline : Node → List Text
  | .element name _ children => name :: outlineAll children ++ ['/' :: name]
  | .fragment nodes => outlineAll nodes
  | _ => []

def outlineAll : List Node → List Text
  | [] => []
  | node :: rest => outline node ++ outlineAll rest

end

theorem outlineAll_append (front back : List Node) : outlineAll (front ++ back) = outlineAll front ++ outlineAll back := by
  induction front with
  | nil => rfl
  | cons node front ih => rw [List.cons_append, outlineAll, outlineAll, ih, List.append_assoc]

theorem tagsFrom_tag {inside : Text} (whole : Whole inside) (rest : Text) :
    tagsFrom none ('<' :: inside ++ '>' :: rest) = inside :: tagsFrom none rest := by
  simpa [tagsFrom] using (Markup.inside whole.2 [] rest).2

mutual

theorem map_tagName_render : ∀ node : Node, Clean node → ∀ rest,
    (tagsFrom none (render node ++ rest)).map tagName = outline node ++ (tagsFrom none rest).map tagName
  | .element name attributes children, ⟨name_clean, attributes_clean, children_clean⟩, rest => by
    rw [render_element_append, tagsFrom_tag (whole_openingTag name_clean attributes_clean), List.map_cons,
      map_tagName_renderAll children children_clean, tagsFrom_tag (whole_closingTag name_clean), List.map_cons,
      tagName_openingTag name_clean, tagName_closingTag name_clean, outline]
    simp
  | .text content, _, rest => by
    rw [render, (Markup.data (not_mem_escape (.inl rfl) content) rest).2]
    rfl
  | .raw _, clean, _ => clean.elim
  | .fragment nodes, clean, rest => by rw [render, map_tagName_renderAll nodes clean, outline]

theorem map_tagName_renderAll : ∀ nodes : List Node, AllClean nodes → ∀ rest,
    (tagsFrom none (renderAll nodes ++ rest)).map tagName = outlineAll nodes ++ (tagsFrom none rest).map tagName
  | [], _, rest => rfl
  | node :: nodes, ⟨first, others⟩, rest => by
    rw [renderAll, List.append_assoc, map_tagName_render node first, map_tagName_renderAll nodes others, outlineAll,
      List.append_assoc]

end

theorem tagNames_render {node : Node} (clean : node.Clean) : tagNames node.render = node.outline := by
  have names := map_tagName_render node clean []
  rw [List.append_nil] at names
  exact names.trans (List.append_nil _)

end Node

/-- A tree in which the place of one node is left open. -/
inductive Place where
  | here
  | element (name : Text) (attributes : List Attribute) (before : List Node) (inner : Place) (behind : List Node)
  | fragment (before : List Node) (inner : Place) (behind : List Node)

namespace Place

def fill : Place → Node → Node
  | here, node => node
  | element name attributes before inner behind, node => .element name attributes (before ++ inner.fill node :: behind)
  | fragment before inner behind, node => .fragment (before ++ inner.fill node :: behind)

/-- All that is around the open place is clean. -/
def Clean (place : Place) : Prop := (place.fill (.fragment [])).Clean

theorem Clean.fill {place : Place} (clean : place.Clean) {node : Node} (node_clean : node.Clean) : (place.fill node).Clean := by
  induction place with
  | here => exact node_clean
  | element name attributes before inner behind ih =>
    obtain ⟨name_clean, attributes_clean, children⟩ := clean
    obtain ⟨before_clean, inner_clean, behind_clean⟩ := Node.allClean_append.mp children
    exact ⟨name_clean, attributes_clean, Node.allClean_append.mpr ⟨before_clean, ih inner_clean, behind_clean⟩⟩
  | fragment before inner behind ih =>
    obtain ⟨before_clean, inner_clean, behind_clean⟩ := Node.allClean_append.mp clean
    exact Node.allClean_append.mpr ⟨before_clean, ih inner_clean, behind_clean⟩

theorem outline_fill (place : Place) {a b : Node} (same : a.outline = b.outline) :
    (place.fill a).outline = (place.fill b).outline := by
  induction place with
  | here => exact same
  | element name attributes before inner behind ih =>
    simp only [fill, Node.outline, Node.outlineAll_append, Node.outlineAll, ih]
  | fragment before inner behind ih =>
    simp only [fill, Node.outline, Node.outlineAll_append, Node.outlineAll, ih]

theorem tagNames_fill {place : Place} (clean : place.Clean) {a b : Node} (aClean : a.Clean) (bClean : b.Clean)
    (same : a.outline = b.outline) : tagNames (place.fill a).render = tagNames (place.fill b).render := by
  rw [Node.tagNames_render (clean.fill aClean), Node.tagNames_render (clean.fill bClean), place.outline_fill same]

end Place

theorem clean_link (href target label : Text) : (link href target label).Clean := by
  have keys : "href".toList.all Char.isAlphanum = true ∧ "target".toList.all Char.isAlphanum = true := by decide
  exact ⟨by decide, List.forall_mem_cons.mpr ⟨keys.1, List.forall_mem_singleton.mpr keys.2⟩, trivial, trivial⟩

theorem clean_matchLink (file : Text) (number : Nat) (fullName : Text) : (matchLink file number fullName).Clean :=
  ⟨by decide, nofun, clean_link _ _ _, trivial⟩

/-- Whatever the texts and the values of attributes are, a tree is read back from what it is rendered to, up to its normal
form, and only trees with one normal form are rendered alike. The tags that come are those of the elements. So none comes or
goes when a link gets other strings, wherever it stands. -/
theorem rendered_trees_decode :
    (∀ node : Node, node.Clean →
      decode node.render = some node.normalForm ∧ Node.Normal node.normalForm ∧ tagNames node.render = node.outline) ∧
      (∀ nodes, Node.AllClean nodes → (Node.Normal nodes ↔ (Node.fragment nodes).normalForm = nodes)) ∧
      (∀ a b : Node, a.Clean → b.Clean → (a.render = b.render ↔ a.normalForm = b.normalForm)) ∧
      ∀ place : Place, place.Clean →
        (∀ href target label href' target' label',
          tagNames (place.fill (link href target label)).render = tagNames (place.fill (link href' target' label')).render) ∧
        ∀ file number fullName file' number' fullName',
          tagNames (place.fill (matchLink file number fullName)).render =
            tagNames (place.fill (matchLink file' number' fullName')).render := by
  refine ⟨?_, ?_, fun a b => Node.render_eq_iff, ?_⟩
  · intro node clean
    exact ⟨Node.decode_render clean, clean.normal, Node.tagNames_render clean⟩
  · intro nodes clean
    constructor
    · exact Node.Normal.normalizeAll_eq
    · intro same
      have normal : Node.Normal (Node.fragment nodes).normalForm := Node.Clean.normal clean
      rwa [same] at normal
  · intro place clean
    constructor
    · intro href target label href' target' label'
      exact Place.tagNames_fill clean (clean_link _ _ _) (clean_link _ _ _) rfl
    · intro file number fullName file' number' fullName'
      exact Place.tagNames_fill clean (clean_matchLink _ _ _) (clean_matchLink _ _ _) rfl

/-- An entry of a listing whose strings look like markup. -/
def lookalike : Node :=
  .plain "p" [.fragment [.text "</p>".toList, .text "&lt;".toList], .text [], link "\" x=\"".toList "<".toList "&amp;".toList]

def flatLookalike : Node :=
  .plain "p" [.text "</p>&lt;".toList, link "\" x=\"".toList "<".toList "&amp;".toList]

theorem rendered_trees_decode_lookalike :
    decode lookalike.render = some [flatLookalike] ∧ lookalike.render = flatLookalike.render ∧
      (Node.fragment [flatLookalike]).normalForm = [flatLookalike] ∧
      tagNames (Place.fill (.element "p".toList [] [lookalike] .here []) (link [] [] [])).render =
        tagNames (Place.fill (.element "p".toList [] [lookalike] .here []) (link "\"".toList "<p".toList "</a>".toList)).render := by
  have clean : lookalike.Clean := ⟨by decide, nofun, ⟨trivial, trivial, trivial⟩, trivial, clean_link _ _ _, trivial⟩
  have flatClean : flatLookalike.Clean := ⟨by decide, nofun, trivial, clean_link _ _ _, trivial⟩
  have placeClean : Place.Clean (.element "p".toList [] [lookalike] .here []) := ⟨by decide, nofun, clean, trivial, trivial⟩
  obtain ⟨read, normal, alike, places⟩ := rendered_trees_decode
  have form : lookalike.normalForm = [flatLookalike] := rfl
  obtain ⟨decoded, isNormal, -⟩ := read lookalike clean
  rw [form] at decoded isNormal
  refine ⟨decoded, (alike _ _ clean flatClean).mpr rfl, (normal [flatLookalike] ⟨flatClean, trivial⟩).mp isNormal, ?_⟩
  exact (places _ placeClean).1 _ _ _ _ _ _

end PatternPages.Html
