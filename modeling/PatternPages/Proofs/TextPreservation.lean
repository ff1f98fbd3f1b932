import PatternPages.Marking.Source
import PatternPages.Proofs.Entries
import PatternPages.Proofs.KeywordPass
import PatternPages.Proofs.Markup
import PatternPages.Proofs.Selection

/-! A rendered source shows its lines. Each line is one record of HTML, whatever marks it has and whichever way it is
rendered: plain, as a comment, with tagged spans and keywords, or without those spans because one of them does not fit. -/
namespace PatternPages.Marking

open Html (Markup)

theorem renderLine_none (line : Text) :
    renderLine line none = .ok ("<pre>".toList ++ Html.escape line ++ "</pre>\n".toList) := rfl

theorem renderLine_of_whole (line : Text) {marks : LineMarks} (whole : marks.whole = true) :
    renderLine line (some marks) =
      .ok ("<pre><mark>".toList ++ commentTag ++ Html.escape line ++ "</span></mark></pre>\n".toList) :=
  if_pos whole

theorem renderLine_of_spans (line : Text) {marks : LineMarks} (shown : marks.whole = false) :
    renderLine line (some marks) =
      (renderSpans line marks.spans).map fun inside => "<pre><mark>".toList ++ inside ++ "</mark></pre>\n".toList :=
  if_neg (by simp [shown])

theorem renderLine_of_inside {line : Text} {marks : LineMarks} {inside : Text} (shown : marks.whole = false)
    (spans : renderSpans line marks.spans = .ok inside) :
    renderLine line (some marks) = .ok ("<pre><mark>".toList ++ inside ++ "</mark></pre>\n".toList) := by
  rw [renderLine_of_spans line shown, spans]
  rfl

theorem lineEnd_eq_append (inside : Text) :
    "<pre><mark>".toList ++ inside ++ "</mark></pre>\n".toList =
      "<pre><mark>".toList ++ inside ++ "</mark></pre>".toList ++ ['\n'] := by
  have lineEnd : "</mark></pre>\n".toList = "</mark></pre>".toList ++ ['\n'] := by decide
  rw [lineEnd, ← List.append_assoc]

section Line

variable {line : Text} {spans : OrderedSet Span}

theorem markedOrPlain_eq (d : Delimiters) (line : Text) (room : ∀ s ∈ spans.keys, s.Room spans.size) :
    ∃ row, Row 0 line.length row ∧ markedOrPlain d line spans = .ok (taggedLine d line row) := by
  have roomKept := room_withoutOverlaps room
  unfold markedOrPlain
  by_cases fits : ∀ s ∈ withoutOverlaps spans.keys, s.Fits line.length
  · rw [markSpans_of_room d fits roomKept]
    exact ⟨withoutOverlaps spans.keys, row_withoutOverlaps fits, rfl⟩
  · obtain ⟨e, failure⟩ := applySpans_of_misfit d (withoutOverlaps_apart spans.keys) roomKept fits
    rw [markSpans, failure]
    exact ⟨[], Nat.zero_le _, congrArg Except.ok (taggedLine_nil d line).symm⟩

theorem renderSpans_of_some {d : Delimiters} (free : Delimiters.forLine line = some d) :
    renderSpans line spans =
      (markedOrPlain d line spans).map fun marked => materialize d (markKeywords d marked) := by
  unfold renderSpans
  rw [free]

theorem renderSpans_of_none (none : Delimiters.forLine line = none) :
    renderSpans line spans = .ok (Html.escape line) := by
  unfold renderSpans
  rw [none]

/-- A line of pieces with spans tagged comes out as the HTML of its pieces, some keywords tagged too. -/
theorem exists_pieces {d : Delimiters} {row : List Span} (free : Delimiters.forLine line = some d)
    (hrow : Row 0 line.length row) (marked : markedOrPlain d line spans = .ok (taggedLine d line row)) :
    ∃ pieces, Highlighted line (row.map Span.stretch) pieces ∧
      renderSpans line spans = .ok (Piece.htmlLine pieces) := by
  have avoid := Delimiters.avoid_of_forLine free
  obtain ⟨pieces, h, run⟩ := (Highlighted.cut hrow).markKeywords avoid
  refine ⟨pieces, h, ?_⟩
  have html := materialize_delimitedLine d pieces (avoid_of_avoid_line (h.line_eq.symm ▸ avoid))
  rw [renderSpans_of_some free, marked, ← html, ← run]
  rfl

theorem exists_pieces_of_fits {d : Delimiters} (small : 26 * line.length < 2 ^ 64)
    (free : Delimiters.forLine line = some d) (fits : ∀ s ∈ withoutOverlaps spans.keys, s.Fits line.length) :
    ∃ pieces, Highlighted line ((withoutOverlaps spans.keys).map Span.stretch) pieces ∧
      renderSpans line spans = .ok (Piece.htmlLine pieces) := by
  have marked : markedOrPlain d line spans = .ok (taggedLine d line (withoutOverlaps spans.keys)) := by
    rw [markedOrPlain, markSpans_of_fits d small fits]
  exact exists_pieces free (row_withoutOverlaps fits) marked

theorem renderSpans_markup (line : Text) (room : ∀ s ∈ spans.keys, s.Room spans.size) :
    ∃ html tags, renderSpans line spans = .ok html ∧ Markup html line tags := by
  cases free : Delimiters.forLine line with
  | none => exact ⟨_, [], renderSpans_of_none free, .escape line⟩
  | some d =>
    obtain ⟨row, hrow, marked⟩ := markedOrPlain_eq d line room
    obtain ⟨pieces, h, html⟩ := exists_pieces free hrow marked
    have markup := Piece.markup_htmlLine pieces
    rw [h.line_eq] at markup
    exact ⟨_, pieces.flatMap Piece.tags, html, markup⟩

theorem markup_marked {html : Text} {tags : List Text} (h : Markup html line tags) :
    Markup ("<pre><mark>".toList ++ html ++ "</mark></pre>".toList) line
      (["pre".toList, "mark".toList] ++ tags ++ ["/mark".toList, "/pre".toList]) :=
  h.framed (.ofTags _ (by decide) (by decide)) (.ofTags _ (by decide) (by decide))

/-- The HTML of a line, its end left out, shows the line. -/
theorem renderLine_record (line : Text) {marks : Option LineMarks}
    (room : ∀ given ∈ marks, ∀ s ∈ given.spans.keys, s.Room given.spans.size) :
    ∃ record tags, renderLine line marks = .ok (record ++ ['\n']) ∧ Markup record line tags := by
  have text : Markup (Html.escape line) line [] := .escape line
  cases marks with
  | none =>
    have plain : Markup ("<pre>".toList ++ Html.escape line ++ "</pre>".toList) line ["pre".toList, "/pre".toList] :=
      text.framed (.ofTags ["pre".toList] (by decide) (by decide))
        (.ofTags ["/pre".toList] (by decide) (by decide))
    have lineEnd : "</pre>\n".toList = "</pre>".toList ++ ['\n'] := by decide
    exact ⟨_, _, by rw [renderLine_none, lineEnd, ← List.append_assoc], plain⟩
  | some given =>
    cases whole : given.whole with
    | true =>
      have comment : Markup (commentTag ++ Html.escape line ++ "</span>".toList) line
          [TagClass.opening .comment, TagClass.closing] :=
        text.framed (.ofTags [TagClass.opening .comment] (by decide) (by decide))
          (.ofTags [TagClass.closing] (by decide) (by decide))
      have lineEnd : "</span></mark></pre>\n".toList = "</span>".toList ++ ("</mark></pre>".toList ++ ['\n']) := by
        decide
      refine ⟨_, _, ?_, markup_marked comment⟩
      rw [renderLine_of_whole line whole, lineEnd]
      simp only [List.append_assoc]
    | false =>
      obtain ⟨html, tags, spans, markup⟩ := renderSpans_markup line (room given rfl)
      exact ⟨_, _, by rw [renderLine_of_inside whole spans, lineEnd_eq_append], markup_marked markup⟩

end Line

/-! ## The source -/

/-- No column of a span leaves the 64-bit words, were it moved by a tag for each span of its line. -/
def Index.Room (index : Index) : Prop := ∀ entry ∈ index.toList, ∀ s ∈ entry.2.spans.keys, s.Room entry.2.spans.size

instance (index : Index) : Decidable index.Room := inferInstanceAs (Decidable (∀ entry ∈ index.toList, _))

theorem renderFrom_records {index : Index} (room : index.Room) (first : Nat) {lines : List Text}
    (unbroken : ∀ line ∈ lines, '\n' ∉ line) :
    ∃ records : List Text, renderFrom index first lines = .ok (records.flatMap (· ++ ['\n'])) ∧
      (∀ record ∈ records, '\n' ∉ record) ∧
      records.map (fun record => Html.resolve (Html.withoutTags false record)) = lines := by
  induction lines generalizing first with
  | nil => exact ⟨[], rfl, by simp, rfl⟩
  | cons line rest ih =>
    have roomHere : ∀ given ∈ index.get? first, ∀ s ∈ given.spans.keys, s.Room given.spans.size :=
      fun given found => room (first, given) ((OrderedMap.get?_eq_some_iff index first given).1 found)
    obtain ⟨record, tags, html, markup⟩ := renderLine_record line roomHere
    obtain ⟨records, tail, clean, shown⟩ := ih (first + 1) fun l hl => unbroken l (List.mem_cons_of_mem line hl)
    refine ⟨record :: records, ?_, ?_, ?_⟩
    · rw [renderFrom, html, tail, List.flatMap_cons]
      rfl
    · intro r hr
      rcases List.mem_cons.1 hr with rfl | hr
      · exact markup.unbroken (unbroken line List.mem_cons_self)
      · exact clean r hr
    · rw [List.map_cons, shown, markup.resolve_withoutTags]

/-- There is one record for each line, and it shows that line. -/
theorem render_shows_lines (lines : List Text) (index : Index) (unbroken : ∀ line ∈ lines, '\n' ∉ line)
    (room : index.Room) :
    ∃ records : List Text, render lines index = .ok (records.flatMap (· ++ ['\n'])) ∧
      records.length = lines.length ∧ (∀ record ∈ records, '\n' ∉ record) ∧
      records.map (fun record => Html.resolve (Html.withoutTags false record)) = lines := by
  obtain ⟨records, html, clean, shown⟩ := renderFrom_records room 1 unbroken
  have count : records.length = lines.length := by
    rw [← shown, List.length_map]
  exact ⟨records, html, count, clean, shown⟩

/-- A line with a fitting span, one with spans that do not fit or overlap, a comment and a mark behind the source. -/
def mixedIndex : Index :=
  let mark (index : Index) (line : Nat) (start stop : UInt64) := index.insert line (.span ⟨start, stop, .token, []⟩)
  let spans := mark (mark (mark (mark OrderedMap.empty 1 4 4) 2 5 1) 2 0 7) 2 3 90
  (spans.insert 3 .wholeLine).insert 9 .wholeLine

theorem render_shows_lines_mixed :
    (∀ line ∈ ["if a < b:".toList, "&lt; in".toList, "# \"c\"".toList], '\n' ∉ line) ∧ mixedIndex.Room ∧
      ∃ records : List Text,
        render ["if a < b:".toList, "&lt; in".toList, "# \"c\"".toList] mixedIndex =
          .ok (records.flatMap (· ++ ['\n'])) ∧
        records.length = 3 ∧ (∀ record ∈ records, '\n' ∉ record) ∧
        records.map (fun record => Html.resolve (Html.withoutTags false record)) =
          ["if a < b:".toList, "&lt; in".toList, "# \"c\"".toList] :=
  ⟨by decide, by decide, render_shows_lines _ _ (by decide) (by decide)⟩

end PatternPages.Marking
