import PatternPages.Marking.Splice

/-! A marked line as pieces side by side, each plain or tagged as a whole. Pieces can be written with delimiters or as HTML;
`materialize` turns the one form into the other. -/
namespace PatternPages.Marking

inductive Piece where
  | plain (text : Text)
  | tagged (c : TagClass) (text : Text)
  deriving DecidableEq

namespace Piece

def text : Piece → Text
  | plain text => text
  | tagged _ text => text

/-- The piece in a line that is being marked. -/
def delimited (d : Delimiters) : Piece → Text
  | plain text => text
  | tagged c text => d.tagged c text

def html : Piece → Text
  | plain text => Html.escape text
  | tagged c text =>
    '<' :: c.opening ++ '>' :: Html.escape text ++ '<' :: TagClass.closing ++ ['>']

def line (pieces : List Piece) : Text := pieces.flatMap text

def delimitedLine (d : Delimiters) (pieces : List Piece) : Text := pieces.flatMap (delimited d)

def htmlLine (pieces : List Piece) : Text := pieces.flatMap html

end Piece

theorem TagClass.opening_ascii (c : TagClass) : ∀ x ∈ c.opening, x.toNat ≤ 127 := by
  cases c <;> simp [opening, name]

theorem TagClass.closing_ascii : ∀ x ∈ TagClass.closing, x.toNat ≤ 127 := by
  simp [closing]

/-! ## From delimiters to HTML -/

theorem materializeFrom_text {d : Delimiters} {text : Text} (h : d.Avoid text) (pending rest : Text) :
    materializeFrom d pending false (text ++ rest) =
      materializeFrom d (text.reverse ++ pending) false rest := by
  induction text generalizing pending with
  | nil => simp
  | cons c text ih =>
    have hc := h c List.mem_cons_self
    have htext : d.Avoid text := fun x hx => h x (List.mem_cons_of_mem c hx)
    simp [materializeFrom, hc.1, hc.2, ih htext]

theorem materializeFrom_tag {d : Delimiters} {tag : Text} (h : d.Avoid tag)
    (pending rest : Text) :
    materializeFrom d pending false (d.opening :: tag ++ d.closing :: rest) =
      Html.escape pending.reverse ++ '<' :: tag ++ '>' :: materializeFrom d [] false rest := by
  have inside (tag : Text) (h : d.Avoid tag) :
      materializeFrom d [] true (tag ++ d.closing :: rest) =
        tag ++ '>' :: materializeFrom d [] false rest := by
    induction tag with
    | nil => simp [materializeFrom, d.distinct]
    | cons c tag ih =>
      have hc := h c List.mem_cons_self
      have htag : d.Avoid tag := fun x hx => h x (List.mem_cons_of_mem c hx)
      simp [materializeFrom, hc.1, hc.2, ih htag]
  simp [materializeFrom, inside tag h]

theorem materialize_delimitedLine (d : Delimiters) (pieces : List Piece)
    (h : ∀ p ∈ pieces, d.Avoid p.text) :
    materialize d (Piece.delimitedLine d pieces) = Piece.htmlLine pieces := by
  suffices general : ∀ pending, materializeFrom d pending false (Piece.delimitedLine d pieces) =
      Html.escape pending.reverse ++ Piece.htmlLine pieces from general []
  induction pieces with
  | nil => intro pending; simp [Piece.delimitedLine, Piece.htmlLine, materializeFrom]
  | cons p pieces ih =>
    intro pending
    have hrest := ih fun q hq => h q (List.mem_cons_of_mem p hq)
    cases p with
    | plain text =>
      have htext : d.Avoid text := h (.plain text) List.mem_cons_self
      show materializeFrom d pending false (text ++ Piece.delimitedLine d pieces) =
        Html.escape pending.reverse ++ (Html.escape text ++ Piece.htmlLine pieces)
      rw [materializeFrom_text htext, hrest, List.reverse_append, List.reverse_reverse,
        Html.escape_append, List.append_assoc]
    | tagged c text =>
      have delimited : Piece.delimitedLine d (.tagged c text :: pieces) =
          d.opening :: c.opening ++ d.closing ::
            (text ++ (d.opening :: TagClass.closing ++ d.closing :: Piece.delimitedLine d pieces)) := by
        simp [Piece.delimitedLine, Piece.delimited, Delimiters.tagged, Delimiters.openingTag,
          Delimiters.closingTag]
      have html : Piece.htmlLine (.tagged c text :: pieces) =
          '<' :: c.opening ++ '>' ::
            (Html.escape text ++ '<' :: TagClass.closing ++ '>' :: Piece.htmlLine pieces) := by
        simp [Piece.htmlLine, Piece.html]
      have htext : d.Avoid text := h (.tagged c text) List.mem_cons_self
      rw [delimited, html, materializeFrom_tag (d.avoid_of_ascii c.opening_ascii),
        materializeFrom_text htext, List.append_nil,
        materializeFrom_tag (d.avoid_of_ascii TagClass.closing_ascii), hrest]
      simp [Html.escape]

end PatternPages.Marking
