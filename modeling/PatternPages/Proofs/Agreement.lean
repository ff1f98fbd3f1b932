import PatternPages.Proofs.Bounds
import PatternPages.Proofs.TextPreservation

/-! The index of a match suits the lines it was made for: every span in it can be tagged, and every span that is kept shows
in the rendered line. -/
namespace PatternPages.Marking

open Html (Markup)

/-- The tags that open a span of an index. -/
def spanTags : List Text := [TagClass.opening .token, TagClass.opening .dummy]

theorem Piece.countP_tags_tagged {c : TagClass} (text : Text) (notComment : c ≠ .comment) :
    (Piece.tagged c text).tags.countP (· ∈ spanTags) = if c = .keyword then 0 else 1 := by
  cases c with
  | comment => exact absurd rfl notComment
  | _ => rfl

/-- Pieces without a comment have one such tag for each stretch that is no keyword. -/
theorem Piece.countP_tags {pieces : List Piece} (column : Nat)
    (classes : ∀ c text, .tagged c text ∈ pieces → c ≠ .comment) :
    (pieces.flatMap Piece.tags).countP (· ∈ spanTags) =
      ((stretchesFrom column pieces).filter (·.tagClass ≠ .keyword)).length := by
  induction pieces generalizing column with
  | nil => rfl
  | cons p rest ih =>
    have tail := fun column => ih column fun c text mem => classes c text (List.mem_cons_of_mem p mem)
    rw [List.flatMap_cons, List.countP_append]
    cases p with
    | plain text =>
      rw [tail (column + text.length)]
      exact Nat.zero_add _
    | tagged c text =>
      rw [countP_tags_tagged text (classes c text List.mem_cons_self), tail (column + text.length), stretchesFrom]
      by_cases keyword : c = .keyword
      · rw [if_pos keyword, List.filter_cons_of_neg (by simpa using keyword), Nat.zero_add]
      · rw [if_neg keyword, List.filter_cons_of_pos (by simpa using keyword), List.length_cons, Nat.add_comm]

section Line

variable {line : Text} {marks : LineMarks} {d : Delimiters}

/-- Where the kept spans fit, each of them has its tag in the line. -/
theorem exists_renderLine_of_fits (small : 26 * line.length < 2 ^ 64) (shown : marks.whole = false)
    (free : Delimiters.forLine line = some d) (fits : ∀ s ∈ withoutOverlaps marks.spans.keys, s.Fits line.length) :
    ∃ html, renderLine line (some marks) = .ok html ∧
      (Html.tags html).countP (· ∈ spanTags) = (withoutOverlaps marks.spans.keys).length := by
  obtain ⟨pieces, h, html⟩ := exists_pieces_of_fits small free fits
  have markup := Piece.markup_htmlLine pieces
  rw [h.line_eq] at markup
  have record : Markup ("<pre><mark>".toList ++ Piece.htmlLine pieces ++ "</mark></pre>\n".toList) (line ++ ['\n'])
      (["pre".toList, "mark".toList] ++ pieces.flatMap Piece.tags ++ ["/mark".toList, "/pre".toList] ++ []) := by
    rw [lineEnd_eq_append]
    exact (markup_marked markup).append (.escape ['\n'])
  have spans : (pieces.flatMap Piece.tags).countP (· ∈ spanTags) = (withoutOverlaps marks.spans.keys).length := by
    rw [Piece.countP_tags 0 h.classes, ← List.length_map Span.stretch, ← h.marks_eq, Piece.stretches]
  have front : ["pre".toList, "mark".toList].countP (· ∈ spanTags) = 0 := by decide
  have back : ["/mark".toList, "/pre".toList].countP (· ∈ spanTags) = 0 := by decide
  refine ⟨_, renderLine_of_inside shown html, ?_⟩
  rw [record.tags_eq, List.append_nil, List.countP_append, List.countP_append, front, back, spans, Nat.zero_add,
    Nat.add_zero]

theorem renderLine_isOk_of_fits {marks : Option LineMarks} (small : 26 * line.length < 2 ^ 64)
    (fits : ∀ given ∈ marks, ∀ s ∈ withoutOverlaps given.spans.keys, s.Fits line.length) :
    ∃ html, renderLine line marks = .ok html := by
  cases marks with
  | none => exact ⟨_, renderLine_none line⟩
  | some given =>
    cases whole : given.whole with
    | true => exact ⟨_, renderLine_of_whole line whole⟩
    | false =>
      cases free : Delimiters.forLine line with
      | none => exact ⟨_, renderLine_of_inside whole (renderSpans_of_none free)⟩
      | some d =>
        obtain ⟨html, ok, -⟩ := exists_renderLine_of_fits small whole free (fits given rfl)
        exact ⟨html, ok⟩

end Line

/-- A source is rendered line by line, if each of its lines is. -/
theorem renderFrom_of_lines {index : Index} {first : Nat} {lines : List Text}
    (shown : ∀ k line, lines[k]? = some line → ∃ html, renderLine line (index.get? (k + first)) = .ok html) :
    ∃ htmls : List Text, lines.mapIdx (fun k line => renderLine line (index.get? (k + first))) = htmls.map Except.ok ∧
      renderFrom index first lines = .ok htmls.flatten := by
  induction lines generalizing first with
  | nil => exact ⟨[], rfl, rfl⟩
  | cons line rest ih =>
    have next (k : Nat) : k + (first + 1) = k + 1 + first := by omega
    obtain ⟨html, here⟩ := shown 0 line rfl
    obtain ⟨htmls, records, tail⟩ := ih fun k line found => next k ▸ shown (k + 1) line found
    refine ⟨html :: htmls, ?_, ?_⟩
    · simp only [List.mapIdx_cons, here, ← next, records, List.map_cons]
    · rw [Nat.zero_add] at here
      rw [renderFrom, here, tail]
      rfl

/-- Rendering the index of a match with the lines it was made for tags every kept span: no splice fails and no column leaves
the 64-bit words. -/
theorem render_locate_agree (tree : SourceTree) (lines : List Text) (ids : List Nat)
    (small : ∀ line ∈ lines, 26 * line.length < 2 ^ 64) :
    (∃ htmls : List Text,
      lines.mapIdx (fun k line => renderLine line ((locate tree lines ids).get? (k + 1))) = htmls.map Except.ok ∧
        render lines (locate tree lines ids) = .ok htmls.flatten) ∧
      ∀ k line marks d, lines[k]? = some line → (locate tree lines ids).get? (k + 1) = some marks →
        marks.whole = false → Delimiters.forLine line = some d →
        (∃ marked, markSpans d line marks.spans = .ok marked) ∧
          (∀ sum ∈ additions d line (withoutOverlaps marks.spans.keys), sum < 2 ^ 64) ∧
          ∃ html, renderLine line (some marks) = .ok html ∧
            (Html.tags html).countP (· ∈ spanTags) = (withoutOverlaps marks.spans.keys).length := by
  have kept : ∀ k line marks, lines[k]? = some line → (locate tree lines ids).get? (k + 1) = some marks →
      ∀ s ∈ withoutOverlaps marks.spans.keys, s.Fits line.length := by
    intro k line marks here found s hs
    obtain ⟨_, _, text, there, located⟩ := Site.fits_of_get?_locateNodes found
    obtain rfl : line = text := Option.some.inj (here.symm.trans there)
    exact located s ((withoutOverlaps_sublist marks.spans.keys).subset hs)
  refine ⟨renderFrom_of_lines ?_, ?_⟩
  · intro k line here
    exact renderLine_isOk_of_fits (small line (List.mem_of_getElem? here)) fun marks found => kept k line marks here found
  · intro k line marks d here found shown free
    have smallLine := small line (List.mem_of_getElem? here)
    have fits := kept k line marks here found
    have room : ∀ s ∈ withoutOverlaps marks.spans.keys, s.Room (withoutOverlaps marks.spans.keys).length :=
      fun s hs => (fits s hs).room smallLine (length_withoutOverlaps_le fits)
    refine ⟨⟨_, markSpans_of_room d fits room⟩, ?_, exists_renderLine_of_fits smallLine shown free fits⟩
    exact additions_lt d (withoutOverlaps_apart marks.spans.keys) fun s hs =>
      (room s hs).mono (List.takeWhile_sublist _).length_le

def callLine : Text := "total = count(a)".toList

/-- The call is matched through its argument, not through its name, and overlaps it. -/
def argumentTree : SourceTree :=
  let node (id : Nat) (column lastColumn : String) (children : List SourceTree.Child) : SourceTree.Node :=
    { name := "name".toList
      id := some id
      extent := ⟨some ['1'], some ['1'], some column.toList, some lastColumn.toList⟩
      children := children }
  ⟨#[node 1 "9" "16" [.element 1, .element 2], node 2 "9" "13" [.text "count".toList], node 3 "15" "15" [.text ['a']],
    node 4 "1" "5" [.text "total".toList]]⟩

def callMarks : LineMarks :=
  ((LineMarks.none.add (.span ⟨9, 16, .dummy, "count".toList⟩)).add (.span ⟨15, 15, .token, ['a']⟩)).add
    (.span ⟨1, 5, .token, "total".toList⟩)

theorem render_locate_agree_call :
    (∀ line ∈ [callLine], 26 * line.length < 2 ^ 64) ∧
      (locate argumentTree [callLine] [1, 3, 4]).get? 1 = some callMarks ∧ callMarks.whole = false ∧
      ∃ d, Delimiters.forLine callLine = some d ∧ (∃ marked, markSpans d callLine callMarks.spans = .ok marked) ∧
        (∀ sum ∈ additions d callLine (withoutOverlaps callMarks.spans.keys), sum < 2 ^ 64) ∧
        ∃ html, renderLine callLine (some callMarks) = .ok html ∧ (Html.tags html).countP (· ∈ spanTags) = 2 := by
  have located : (locate argumentTree [callLine] [1, 3, 4]).get? 1 = some callMarks := by decide
  have free : (Delimiters.forLine callLine).isSome := by decide +kernel
  obtain ⟨d, free⟩ := Option.isSome_iff_exists.1 free
  have agree := render_locate_agree argumentTree [callLine] [1, 3, 4] (by decide)
  obtain ⟨marked, sums, count⟩ := agree.2 0 callLine callMarks d rfl located rfl free
  exact ⟨by decide, located, rfl, d, free, marked, sums, count⟩

end PatternPages.Marking
