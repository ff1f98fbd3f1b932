import Mathlib.Data.List.Forall2
import PatternPages.Proofs.NodeReading

/-! What a page says, read off its text alone, whatever the text was built by: its paragraphs, and the links in them. A text is
read from its end, so the label of a link is known where the link opens. -/
namespace PatternPages.Html

structure Anchor where
  href : Text
  label : Text
  deriving DecidableEq

structure Paragraph where
  text : Text
  links : List Anchor
  deriving DecidableEq

/-- What has been read of a page from its end: the text up to the end of the link and up to the end of the paragraph that may be
open, the links up to the end of the paragraph, all links and all paragraphs. -/
structure PageReading where
  label : Text
  text : Text
  inParagraph : List Anchor
  links : List Anchor
  paragraphs : List Paragraph

def href? (attributes : List Attribute) : Option Text := (attributes.find? (·.key = "href".toList)).map (·.value)

def Tag.name : Tag → Text
  | .opening name _ => name
  | .closing name => name

namespace PageReading

def blank : PageReading := ⟨[], [], [], [], []⟩

def putText (content : Text) (r : PageReading) : PageReading :=
  { r with label := content ++ r.label, text := content ++ r.text }

def putLink (r : PageReading) (href : Text) : PageReading :=
  { r with inParagraph := ⟨href, r.label⟩ :: r.inParagraph, links := ⟨href, r.label⟩ :: r.links }

def closeLink (r : PageReading) : PageReading := { r with label := [] }

def openParagraph (r : PageReading) : PageReading :=
  { r with text := [], inParagraph := [], paragraphs := ⟨r.text, r.inParagraph⟩ :: r.paragraphs }

def closeParagraph (r : PageReading) : PageReading := { r with text := [], inParagraph := [] }

def putTag (r : PageReading) : Tag → PageReading
  | .opening name attributes =>
    if name = "a".toList then (href? attributes).elim r r.putLink
    else if name = "p".toList then r.openParagraph
    else r
  | .closing name =>
    if name = "a".toList then r.closeLink
    else if name = "p".toList then r.closeParagraph
    else r

/-- Reads what follows an opening bracket. What cannot be read as a tag says nothing. -/
def putPart (part : Text) (r : PageReading) : PageReading :=
  match Text.splitAt '>' part with
  | inside :: text :: more =>
    let behind := r.putText (resolve (Text.joinWith '>' (text :: more)))
    (readTag? inside).elim behind behind.putTag
  | _ => r

def ofParts (parts : List Text) : PageReading := parts.foldr putPart blank

def ofText (html : Text) : PageReading :=
  match Text.splitAt '<' html with
  | [] => blank
  | text :: parts => (ofParts parts).putText (resolve text)

end PageReading

def paragraphs (html : Text) : List Paragraph := (PageReading.ofText html).paragraphs

def links (html : Text) : List Anchor := (PageReading.ofText html).links

/-- The page says what the paragraphs say, and it has no links but theirs. -/
structure Says (html : Text) (written : List Paragraph) : Prop where
  paragraphs : paragraphs html = written
  links : links html = written.flatMap Paragraph.links

example : paragraphs "x<p>a <a href=\"f\">b&lt;</a></p>y".toList = [⟨"a b<".toList, [⟨"f".toList, "b<".toList⟩]⟩] := by
  decide +kernel

/-! ## Texts and tags -/

namespace PageReading

theorem putText_append (front back : Text) (r : PageReading) :
    r.putText (front ++ back) = (r.putText back).putText front := by
  simp [putText]

theorem ofText_escape_append (content rest : Text) : ofText (escape content ++ rest) = (ofText rest).putText content := by
  obtain ⟨text, parts, cut⟩ := Text.exists_splitAt_cons '<' rest
  have whole : Text.splitAt '<' (escape content) = [] ++ [escape content] :=
    Text.splitAt_of_not_mem (not_mem_escape (.inl rfl) content)
  simp only [ofText, Text.splitAt_append whole cut, cut, List.nil_append, resolve_escape_append, putText_append]

theorem ofText_tag_append {inside : Text} (whole : Whole inside) {tag : Tag} (read : readTag? inside = some tag) (rest : Text) :
    ofText ('<' :: inside ++ '>' :: rest) = (ofText rest).putTag tag := by
  obtain ⟨text, parts, cut⟩ := Text.exists_splitAt_cons '<' rest
  obtain ⟨front, more, within⟩ := Text.exists_splitAt_cons '>' text
  have opened : Text.splitAt '<' ('<' :: inside ++ '>' :: rest) = [] :: (inside ++ '>' :: text) :: parts := by
    have alone : Text.splitAt '<' (inside ++ ['>']) = [] ++ [inside ++ ['>']] :=
      Text.splitAt_of_not_mem (by simpa using whole.1)
    have later := Text.splitAt_append alone cut
    simpa [Text.splitAt] using later
  have closed : Text.splitAt '>' (inside ++ '>' :: text) = inside :: front :: more := by
    rw [Text.splitAt_append_cons, Text.splitAt_of_not_mem whole.2, within]
    rfl
  have behind : Text.joinWith '>' (front :: more) = text := by rw [← within, Text.joinWith_splitAt]
  have first : ofText ('<' :: inside ++ '>' :: rest) = ofParts ((inside ++ '>' :: text) :: parts) := by
    rw [ofText, opened]
    rfl
  rw [first, ofText, cut]
  simp only [ofParts, List.foldr_cons, putPart, closed, behind, read, Option.elim_some]

/-! ## What frames a page -/

/-- What follows an opening bracket ends a tag that neither a link nor a paragraph has. -/
def Idle (part : Text) : Prop :=
  match Text.splitAt '>' part with
  | inside :: _ :: _ => ∀ tag ∈ readTag? inside, tag.name ≠ "a".toList ∧ tag.name ≠ "p".toList
  | _ => False

instance (part : Text) : Decidable (Idle part) := by
  unfold Idle
  split <;> infer_instance

/-- The links and the paragraphs of the one are those of the other. -/
def Alike (r r' : PageReading) : Prop := r.paragraphs = r'.paragraphs ∧ r.links = r'.links

theorem putTag_of_idle (tag : Tag) (idle : tag.name ≠ "a".toList ∧ tag.name ≠ "p".toList) (r : PageReading) :
    r.putTag tag = r := by
  cases tag with
  | opening name attributes => exact (if_neg idle.1).trans (if_neg idle.2)
  | closing name => exact (if_neg idle.1).trans (if_neg idle.2)

theorem alike_putPart {part : Text} (idle : Idle part) (r : PageReading) : (putPart part r).Alike r := by
  unfold Idle at idle
  unfold putPart
  cases cut : Text.splitAt '>' part with
  | nil => exact ⟨rfl, rfl⟩
  | cons inside behind =>
    cases behind with
    | nil => exact ⟨rfl, rfl⟩
    | cons text more =>
      simp only [cut] at idle
      have same (behind : PageReading) : (readTag? inside).elim behind behind.putTag = behind := by
        cases read : readTag? inside with
        | none => rfl
        | some tag => exact putTag_of_idle tag (idle tag read) behind
      simp only [same]
      exact ⟨rfl, rfl⟩

theorem Idle.append {part : Text} (idle : Idle part) (more : Text) : Idle (part ++ more) := by
  obtain ⟨front, last, cut⟩ := Text.exists_splitAt_concat '>' part
  obtain ⟨first, rest, cut'⟩ := Text.exists_splitAt_cons '>' more
  unfold Idle at idle ⊢
  rw [Text.splitAt_append cut cut']
  rw [cut] at idle
  cases front with
  | nil => exact idle.elim
  | cons inside others => cases others <;> exact idle

/-- Text in front of a page whose tags are idle changes nothing of what the page says. -/
theorem alike_ofText_append {front : Text} (idle : ∀ part ∈ (Text.splitAt '<' front).tail, Idle part) (rest : Text) :
    (ofText (front ++ rest)).Alike (ofText rest) := by
  have parts_alike (parts : List Text) (h : ∀ part ∈ parts, Idle part) (more : List Text) :
      (ofParts (parts ++ more)).Alike (ofParts more) := by
    induction parts with
    | nil => exact ⟨rfl, rfl⟩
    | cons part parts ih =>
      have others := ih fun other mem => h other (List.mem_cons_of_mem part mem)
      have here := alike_putPart (h part List.mem_cons_self) (ofParts (parts ++ more))
      exact ⟨here.1.trans others.1, here.2.trans others.2⟩
  obtain ⟨text, parts, cut⟩ := Text.exists_splitAt_cons '<' rest
  obtain ⟨before, last, cut'⟩ := Text.exists_splitAt_concat '<' front
  have behind : ofText rest = (ofParts parts).putText (resolve text) := by rw [ofText, cut]
  rw [cut'] at idle
  rw [behind, ofText, Text.splitAt_append cut' cut]
  cases before with
  | nil => exact ⟨rfl, rfl⟩
  | cons first before =>
    have all : ∀ part ∈ before ++ [last ++ text], Idle part := by
      intro part mem
      rcases List.mem_append.1 mem with mem | mem
      · exact idle part (List.mem_append_left _ mem)
      · obtain rfl := List.mem_singleton.1 mem
        exact (idle last (List.mem_append_right _ List.mem_cons_self)).append text
    have same := parts_alike _ all parts
    rw [List.append_assoc] at same
    exact same

/-! ## Trees -/

theorem putTag_open_link {attributes : List Attribute} {href : Text} (h : href? attributes = some href) (r : PageReading) :
    r.putTag (.opening "a".toList attributes) = r.putLink href := by
  simp [putTag, h]

theorem putTag_close_link (r : PageReading) : r.putTag (.closing "a".toList) = r.closeLink := by
  simp [putTag]

theorem putTag_open_paragraph (attributes : List Attribute) (r : PageReading) :
    r.putTag (.opening "p".toList attributes) = r.openParagraph := by
  simp [putTag]

theorem putTag_close_paragraph (r : PageReading) : r.putTag (.closing "p".toList) = r.closeParagraph := by
  simp [putTag]

end PageReading

namespace Node

mutual

/-- What is read of a tree, before what is behind it. -/
def putOn : Node → PageReading → PageReading
  | .element name attributes children, r => (putAllOn children (r.putTag (.closing name))).putTag (.opening name attributes)
  | .text content, r => r.putText content
  | .raw _, r => r
  | .fragment nodes, r => putAllOn nodes r

def putAllOn : List Node → PageReading → PageReading
  | [], r => r
  | node :: rest, r => putOn node (putAllOn rest r)

end

mutual

theorem pageReading_render_append : ∀ node : Node, Clean node → ∀ rest,
    PageReading.ofText (render node ++ rest) = putOn node (PageReading.ofText rest)
  | .element name attributes children, ⟨name_clean, attributes_clean, children_clean⟩, rest => by
    have opening := readTag?_opening name_clean attributes_clean
    have closing := readTag?_closing name
    rw [render_element_append, PageReading.ofText_tag_append (whole_openingTag name_clean attributes_clean) opening,
      pageReading_renderAll_append children children_clean, PageReading.ofText_tag_append (whole_closingTag name_clean) closing]
    rfl
  | .text content, _, rest => PageReading.ofText_escape_append content rest
  | .raw _, clean, _ => clean.elim
  | .fragment nodes, clean, rest => pageReading_renderAll_append nodes clean rest

theorem pageReading_renderAll_append : ∀ nodes : List Node, AllClean nodes → ∀ rest,
    PageReading.ofText (renderAll nodes ++ rest) = putAllOn nodes (PageReading.ofText rest)
  | [], _, rest => rfl
  | node :: nodes, ⟨first, others⟩, rest => by
    rw [renderAll, List.append_assoc, pageReading_render_append node first, pageReading_renderAll_append nodes others]
    rfl

end

/-- Wherever it stands, the tree is the one paragraph. -/
structure IsParagraph (node : Node) (p : Paragraph) : Prop where
  clean : node.Clean
  paragraphs : ∀ r, (node.putOn r).paragraphs = p :: r.paragraphs
  links : ∀ r, (node.putOn r).links = p.links ++ r.links

theorem putOn_link (href target label : Text) (r : PageReading) :
    (link href target label).putOn r = ((r.closeLink.putText label).putLink href) := by
  have first : href? [⟨"href".toList, href⟩, ⟨"target".toList, target⟩] = some href := by
    simp [href?]
  have opened := PageReading.putTag_open_link first
  simp only [link, plain, withAttribute, putOn, putAllOn, PageReading.putTag_close_link]
  exact opened _

theorem putOn_paragraph (children : List Node) (r : PageReading) :
    (plain "p" children).putOn r = (putAllOn children r.closeParagraph).openParagraph := by
  simp only [plain, putOn, PageReading.putTag_close_paragraph, PageReading.putTag_open_paragraph]

end Node

/-! ## Pages -/

section Says

variable {rest : Text} {written : List Paragraph}

theorem Node.IsParagraph.says_append {node : Node} {p : Paragraph} (here : node.IsParagraph p) (behind : Says rest written) :
    Says (node.render ++ rest) (p :: written) where
  paragraphs := by
    rw [Html.paragraphs, node.pageReading_render_append here.clean, here.paragraphs]
    exact congrArg (p :: ·) behind.paragraphs
  links := by
    rw [Html.links, node.pageReading_render_append here.clean, here.links, List.flatMap_cons]
    exact congrArg (p.links ++ ·) behind.links

theorem says_escape_append (content : Text) (behind : Says rest written) : Says (escape content ++ rest) written where
  paragraphs := by
    rw [Html.paragraphs, PageReading.ofText_escape_append]
    exact behind.paragraphs
  links := by
    rw [Html.links, PageReading.ofText_escape_append]
    exact behind.links

theorem says_idle_append {front : Text} (idle : ∀ part ∈ (Text.splitAt '<' front).tail, PageReading.Idle part)
    (behind : Says rest written) : Says (front ++ rest) written where
  paragraphs := (PageReading.alike_ofText_append idle rest).1.trans behind.paragraphs
  links := (PageReading.alike_ofText_append idle rest).2.trans behind.links

theorem says_bodyText_append {nodes : List Node} (body : List.Forall₂ Node.IsParagraph nodes written) (ends : Says rest []) :
    Says (bodyText nodes ++ rest) written := by
  induction body with
  | nil => exact ends
  | @cons node p nodes written here others ih =>
    cases nodes with
    | nil =>
      cases others
      exact here.says_append ends
    | cons next nodes =>
      have line : Says (escape ['\n'] ++ (bodyText (next :: nodes) ++ rest)) written := says_escape_append ['\n'] ih
      have broken : bodyText (node :: next :: nodes) = node.render ++ (escape ['\n'] ++ bodyText (next :: nodes)) := rfl
      rw [broken, List.append_assoc, List.append_assoc]
      exact here.says_append line

end Says

theorem not_mem_stylesheet : '<' ∉ stylesheet := by
  unfold stylesheet
  simp only [String.toList_append, List.mem_append, not_or]
  decide +kernel

/-- What frames a page says nothing. -/
theorem Page.says_render {page : Page} {written : List Paragraph} (body : List.Forall₂ Node.IsParagraph page.body written) :
    Says page.render written := by
  have ends : Says "\n</body>\n</html>\n".toList [] := by
    have nothing : Says ("\n</body>\n</html>\n".toList ++ []) [] := says_idle_append (by decide +kernel) ⟨rfl, rfl⟩
    rwa [List.append_nil] at nothing
  have opened : ∀ part ∈ (Text.splitAt '<'
      "<!DOCTYPE html>\n<html>\n<head>\n<meta charset=\"utf-8\">\n<title>".toList).tail, PageReading.Idle part := by
    decide +kernel
  have titled : ∀ part ∈ (Text.splitAt '<' "</title>\n<style>\n".toList).tail, PageReading.Idle part := by decide +kernel
  have styled : ∀ part ∈ (Text.splitAt '<' stylesheet).tail, PageReading.Idle part := by
    rw [Text.splitAt_of_not_mem not_mem_stylesheet]
    exact nofun
  have closed : ∀ part ∈ (Text.splitAt '<' "</style>\n</head>\n<body>\n".toList).tail, PageReading.Idle part := by
    decide +kernel
  have content := says_idle_append styled (says_idle_append closed (says_bodyText_append body ends))
  have whole := says_idle_append opened (says_escape_append page.title (says_idle_append titled content))
  unfold Page.render
  simpa only [List.append_assoc] using whole

/-! ## What the entries of listings say -/

namespace Paragraph

open Text (decimal)

def plain (text : Text) : Paragraph := ⟨text, []⟩

/-- A pattern with its listing. -/
def ofPattern (pattern : Nat) (corpus : Text) : Paragraph :=
  let label := '[' :: decimal pattern ++ "]- pattern ".toList ++ decimal pattern
  ⟨label, [⟨"pattern_".toList ++ decimal pattern ++ "_matches_".toList ++ corpus ++ ".html".toList, label⟩]⟩

/-- A pattern with its listings in both corpora. -/
def ofComparison (pattern old new : Nat) : Paragraph :=
  let oldLabel := decimal old ++ " matches old".toList
  let newLabel := decimal new ++ " matches new".toList
  ⟨"pattern-".toList ++ decimal pattern ++ ": ( ".toList ++ oldLabel ++ " / ".toList ++ newLabel ++ " )".toList,
    [⟨"pattern_".toList ++ decimal pattern ++ "_matches_".toList ++ "old".toList ++ ".html".toList, oldLabel⟩,
      ⟨"pattern_".toList ++ decimal pattern ++ "_matches_".toList ++ "new".toList ++ ".html".toList, newLabel⟩]⟩

/-- A match of a pattern with its source page. -/
def ofMatch (pattern number : Nat) (corpus fullName : Text) : Paragraph :=
  let label := '[' :: decimal number ++ "]-".toList ++ fullName
  ⟨label, [⟨"patternID_".toList ++ decimal pattern ++ "_matchID_".toList ++ decimal number ++ '_' :: corpus ++ ".html".toList,
    label⟩]⟩

theorem hrefs_ofPattern (pattern : Nat) (corpus : Text) :
    (ofPattern pattern corpus).links.map Anchor.href = [listingFile pattern corpus] := rfl

theorem hrefs_ofComparison (pattern old new : Nat) :
    (ofComparison pattern old new).links.map Anchor.href =
      [listingFile pattern "old".toList, listingFile pattern "new".toList] := rfl

theorem hrefs_ofMatch (pattern number : Nat) (corpus fullName : Text) :
    (ofMatch pattern number corpus fullName).links.map Anchor.href = [matchFile pattern number corpus] := rfl

end Paragraph

namespace Node

/-- What a node inside a paragraph adds to its text and to its links. -/
structure IsPhrase (node : Node) (p : Paragraph) : Prop where
  clean : node.Clean
  text : ∀ r, (node.putOn r).text = p.text ++ r.text
  inParagraph : ∀ r, (node.putOn r).inParagraph = p.links ++ r.inParagraph
  paragraphs : ∀ r, (node.putOn r).paragraphs = r.paragraphs
  links : ∀ r, (node.putOn r).links = p.links ++ r.links

theorem isPhrase_text (content : Text) : (Node.text content).IsPhrase (.plain content) where
  clean := trivial
  text _ := rfl
  inParagraph _ := rfl
  paragraphs _ := rfl
  links _ := rfl

theorem isPhrase_headline (text : Text) : (plain "h3" [.text text]).IsPhrase (.plain text) := by
  have idle : "h3".toList ≠ "a".toList ∧ "h3".toList ≠ "p".toList := by decide
  have read (r : PageReading) : (plain "h3" [.text text]).putOn r = r.putText text := by
    have opening (r : PageReading) : r.putTag (.opening "h3".toList []) = r := PageReading.putTag_of_idle (.opening _ _) idle r
    have closing (r : PageReading) : r.putTag (.closing "h3".toList) = r := PageReading.putTag_of_idle (.closing _) idle r
    simp only [plain, putOn, putAllOn, opening, closing]
  constructor
  · exact ⟨by decide, nofun, trivial, trivial⟩
  all_goals
    intro r
    rw [read]
    rfl

theorem isPhrase_link (href target label : Text) : (link href target label).IsPhrase ⟨label, [⟨href, label⟩]⟩ := by
  constructor
  · exact clean_link href target label
  all_goals
    intro r
    rw [putOn_link]
    simp [PageReading.putLink, PageReading.putText, PageReading.closeLink]

/-- The phrases of a paragraph make up its text. -/
theorem isParagraph_of_phrases {children : List Node} {phrases : List Paragraph}
    (inside : List.Forall₂ IsPhrase children phrases) :
    (plain "p" children).IsParagraph ⟨phrases.flatMap Paragraph.text, phrases.flatMap Paragraph.links⟩ := by
  have all : AllClean children ∧ ∀ r : PageReading,
      (putAllOn children r).text = phrases.flatMap Paragraph.text ++ r.text ∧
      (putAllOn children r).inParagraph = phrases.flatMap Paragraph.links ++ r.inParagraph ∧
      (putAllOn children r).paragraphs = r.paragraphs ∧
      (putAllOn children r).links = phrases.flatMap Paragraph.links ++ r.links := by
    induction inside with
    | nil => exact ⟨trivial, fun r => ⟨rfl, rfl, rfl, rfl⟩⟩
    | cons here _ ih =>
      refine ⟨⟨here.clean, ih.1⟩, fun r => ?_⟩
      obtain ⟨text, inParagraph, paragraphs, links⟩ := ih.2 r
      simp only [putAllOn, here.text, here.inParagraph, here.paragraphs, here.links, text, inParagraph, paragraphs, links,
        List.flatMap_cons, List.append_assoc, and_self]
  constructor
  · exact ⟨by decide, nofun, all.1⟩
  · intro r
    obtain ⟨text, inParagraph, paragraphs, -⟩ := all.2 r.closeParagraph
    simp only [putOn_paragraph, PageReading.openParagraph, text, inParagraph, paragraphs]
    simp [PageReading.closeParagraph]
  · intro r
    obtain ⟨-, -, -, links⟩ := all.2 r.closeParagraph
    simp only [putOn_paragraph, PageReading.openParagraph, links]
    rfl

theorem isParagraph_heading (text : Text) : (heading text).IsParagraph (.plain text) := by
  simpa [heading, Paragraph.plain] using isParagraph_of_phrases (.cons (isPhrase_headline text) .nil)

theorem isParagraph_link (href target label : Text) :
    (plain "p" [link href target label]).IsParagraph ⟨label, [⟨href, label⟩]⟩ := by
  simpa using isParagraph_of_phrases (.cons (isPhrase_link href target label) .nil)

theorem isParagraph_links (front middle back href target label href' target' label' : Text) :
    (plain "p" [.text front, link href target label, .text middle, link href' target' label', .text back]).IsParagraph
      ⟨front ++ label ++ middle ++ label' ++ back, [⟨href, label⟩, ⟨href', label'⟩]⟩ := by
  have phrases := isParagraph_of_phrases (.cons (isPhrase_text front) (.cons (isPhrase_link href target label)
    (.cons (isPhrase_text middle) (.cons (isPhrase_link href' target' label') (.cons (isPhrase_text back) .nil)))))
  simpa [Paragraph.plain] using phrases

theorem isParagraph_patternLink (pattern : Nat) (corpus : Text) :
    (patternLink pattern corpus).IsParagraph (.ofPattern pattern corpus) :=
  isParagraph_link _ _ _

theorem isParagraph_comparisonLink (pattern old new : Nat) :
    (comparisonLink pattern old new).IsParagraph (.ofComparison pattern old new) :=
  isParagraph_links _ _ _ _ _ _ _ _ _

theorem isParagraph_matchLink (pattern number : Nat) (corpus fullName : Text) :
    (matchLink (matchFile pattern number corpus) number fullName).IsParagraph (.ofMatch pattern number corpus fullName) :=
  isParagraph_link _ _ _

end Node

/-! ## Source pages -/

/-- The page has the path of a source and behind it the lines of the source, which are marked up already. -/
def ShowsSource (html path marked : Text) : Prop :=
  ("Source code: ".toList ++ escape path ++ "\n<code>\n".toList ++ marked ++ "</code>".toList) <:+: html

theorem showsSource_sourcePage (path marked : Text) : ShowsSource (sourcePage path marked).render path marked := by
  have caption : escape ("Source code: ".toList ++ path) = "Source code: ".toList ++ escape path := by
    rw [escape_append]
    exact congrArg (· ++ escape path) (by decide +kernel)
  have opening : "\n<code>\n".toList = ['\n'] ++ ('<' :: "code".toList ++ ['>']) ++ ['\n'] := by decide +kernel
  have closing : "</code>".toList = '<' :: '/' :: "code".toList ++ ['>'] := by decide +kernel
  have body : bodyText (sourcePage path marked).body =
      "Source code: ".toList ++ escape path ++ "\n<code>\n".toList ++ marked ++ "</code>".toList := by
    simp only [sourcePage, bodyText, Node.plain, Node.render, Node.renderAll, caption, opening, closing]
    simp
  rw [ShowsSource, ← body]
  exact ⟨_, _, rfl⟩

end PatternPages.Html
