import PatternPages.Marking.Piece

/-! What is read off HTML that consists of tags and of character data: the text that it shows and the tags that it holds. -/
namespace PatternPages.Html

/-- The insides of the tags, from the left; `inside` is what has been read of a tag that is not closed yet. -/
def tagsFrom (inside : Option Text) : Text → List Text
  | [] => []
  | c :: rest =>
    match inside with
    | none => if c = '<' then tagsFrom (some []) rest else tagsFrom none rest
    | some tag => if c = '>' then tag :: tagsFrom none rest else tagsFrom (some (tag ++ [c])) rest

def tags (html : Text) : List Text := tagsFrom none html

/-- Whatever follows, `html` reads as character data for `text` with `tags` in it. -/
structure Markup (html text : Text) (tags : List Text) : Prop where
  shown : ∀ rest, withoutTags false (html ++ rest) = escape text ++ withoutTags false rest
  held : ∀ rest, tagsFrom none (html ++ rest) = tags ++ tagsFrom none rest
  unbroken : '\n' ∉ text → '\n' ∉ html

theorem not_mem_escapeChar {d : Char} (delimiter : d = '<' ∨ d = '>' ∨ d = '"') (c : Char) : d ∉ escapeChar c := by
  unfold escapeChar
  split
  case h_5 amp lt gt quot =>
    intro h
    obtain rfl := List.mem_singleton.1 h
    rcases delimiter with less | greater | quote
    · exact lt less
    · exact gt greater
    · exact quot quote
  all_goals rcases delimiter with rfl | rfl | rfl <;> decide

theorem newline_of_mem_escapeChar {c : Char} (h : '\n' ∈ escapeChar c) : c = '\n' := by
  unfold escapeChar at h
  split at h
  case h_5 => exact (List.mem_singleton.1 h).symm
  all_goals exact absurd h (by decide)

theorem not_mem_escape {d : Char} (delimiter : d = '<' ∨ d = '>' ∨ d = '"') (text : Text) : d ∉ escape text := by
  intro h
  obtain ⟨c, _, hc⟩ := List.mem_flatMap.1 h
  exact not_mem_escapeChar delimiter c hc

namespace Markup

theorem data {html : Text} (h : '<' ∉ html) (rest : Text) :
    withoutTags false (html ++ rest) = html ++ withoutTags false rest ∧
      tagsFrom none (html ++ rest) = tagsFrom none rest := by
  induction html with
  | nil => exact ⟨rfl, rfl⟩
  | cons c html ih =>
    obtain ⟨hc, tail⟩ := List.ne_and_not_mem_of_not_mem_cons h
    have later := ih tail
    constructor
    · simp [withoutTags, Ne.symm hc, later.1]
    · simp [tagsFrom, Ne.symm hc, later.2]

theorem escape (text : Text) : Markup (escape text) text [] where
  shown rest := (data (not_mem_escape (.inl rfl) text) rest).1
  held rest := (data (not_mem_escape (.inl rfl) text) rest).2
  unbroken h mem := by
    obtain ⟨c, hc, broken⟩ := List.mem_flatMap.1 mem
    exact h (newline_of_mem_escapeChar broken ▸ hc)

theorem inside {tag : Text} (closed : '>' ∉ tag) (read rest : Text) :
    withoutTags true (tag ++ '>' :: rest) = withoutTags false rest ∧
      tagsFrom (some read) (tag ++ '>' :: rest) = (read ++ tag) :: tagsFrom none rest := by
  induction tag generalizing read with
  | nil => simp [withoutTags, tagsFrom]
  | cons c tag ih =>
    obtain ⟨hc, tail⟩ := List.ne_and_not_mem_of_not_mem_cons closed
    have later := ih tail (read ++ [c])
    constructor
    · have goesOn : (c != '>') = true := by simpa using Ne.symm hc
      rw [List.cons_append, withoutTags, if_pos rfl, goesOn]
      exact later.1
    · simpa [tagsFrom, Ne.symm hc] using later.2

theorem tag {tag : Text} (closed : '>' ∉ tag) (unbroken : '\n' ∉ tag) :
    Markup ('<' :: tag ++ ['>']) [] [tag] where
  shown rest := by simpa [withoutTags, Html.escape] using (inside closed [] rest).1
  held rest := by simpa [tagsFrom] using (inside closed [] rest).2
  unbroken _ := by simpa using unbroken

theorem append {html html' text text' : Text} {tags tags' : List Text} (h : Markup html text tags)
    (h' : Markup html' text' tags') : Markup (html ++ html') (text ++ text') (tags ++ tags') where
  shown rest := by rw [List.append_assoc, h.shown, h'.shown, escape_append, List.append_assoc]
  held rest := by rw [List.append_assoc, h.held, h'.held, List.append_assoc]
  unbroken mem := by
    simp only [List.mem_append, not_or] at mem ⊢
    exact ⟨h.unbroken mem.1, h'.unbroken mem.2⟩

theorem framed {html text front back : Text} {tags before after : List Text} (h : Markup html text tags)
    (hfront : Markup front [] before) (hback : Markup back [] after) :
    Markup (front ++ html ++ back) text (before ++ tags ++ after) := by
  simpa using (hfront.append h).append hback

theorem ofTags {html : Text} (names : List Text) (layout : html = names.flatMap fun name => '<' :: name ++ ['>'])
    (clean : ∀ name ∈ names, '>' ∉ name ∧ '\n' ∉ name) : Markup html [] names := by
  subst layout
  induction names with
  | nil => exact .escape []
  | cons name names ih =>
    obtain ⟨closed, unbroken⟩ := clean name List.mem_cons_self
    exact (tag closed unbroken).append (ih fun n hn => clean n (List.mem_cons_of_mem name hn))

theorem resolve_withoutTags {html text : Text} {tags : List Text} (h : Markup html text tags) :
    resolve (withoutTags false html) = text := by
  have shown := h.shown []
  rw [List.append_nil, withoutTags, List.append_nil] at shown
  rw [shown, resolve_escape]

theorem tags_eq {html text : Text} {tags : List Text} (h : Markup html text tags) : Html.tags html = tags := by
  have held := h.held []
  rwa [List.append_nil, tagsFrom, List.append_nil] at held

end Markup

end PatternPages.Html

namespace PatternPages.Marking

open Html (Markup)

namespace Piece

/-- The tags around a piece. -/
def tags : Piece → List Text
  | plain _ => []
  | tagged c _ => [c.opening, TagClass.closing]

theorem markup (p : Piece) : Markup p.html p.text p.tags := by
  cases p with
  | plain text => exact .escape text
  | tagged c text =>
    have opening : Markup ('<' :: c.opening ++ ['>']) [] [c.opening] := .tag (by cases c <;> decide) (by cases c <;> decide)
    have closing : Markup ('<' :: TagClass.closing ++ ['>']) [] [TagClass.closing] := .tag (by decide) (by decide)
    have whole := (opening.append (.escape text)).append closing
    simpa [html, Piece.text, tags] using whole

theorem markup_htmlLine (pieces : List Piece) :
    Markup (htmlLine pieces) (line pieces) (pieces.flatMap tags) := by
  induction pieces with
  | nil => exact .escape []
  | cons p rest ih => exact p.markup.append ih

end Piece

end PatternPages.Marking
