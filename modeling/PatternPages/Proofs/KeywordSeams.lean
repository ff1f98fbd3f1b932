import PatternPages.Proofs.Selection
import PatternPages.Proofs.TokenPlaces

/-! The keyword tokens of a line with marks. A tag is a seam: it spoils the token that it stands in or next to, and the tokens
beyond it are as they were. What a tag brings with it is no keyword, for each of its parts holds a delimiter. -/
namespace PatternPages.Marking

/-! ## Parts with a delimiter -/

theorem isBlank_of_privateUse {c : Char} (high : c ∈ privateUse) : Text.isBlank c = false := by
  have low : ∀ range ∈ Text.blankRanges, range.2.toNat ≤ 0x3000 := by decide
  have above := le_toNat_of_privateUse high
  apply Text.isBlank_of_outside
  intro range mem
  have bound := low range mem
  omega

theorem isKeyword_of_privateUse {part : Text} {c : Char} (mem : c ∈ part) (high : c ∈ privateUse) :
    isKeyword part = false := by
  have ascii : ∀ keyword ∈ keywords, (keyword.all fun c => c.toNat ≤ 127) = true := by decide
  have above := le_toNat_of_privateUse high
  rw [isKeyword, List.contains_eq_mem, decide_eq_false_iff_not]
  intro keyword
  have plain := List.all_eq_true.1 (ascii _ keyword) c (Text.mem_trim mem (isBlank_of_privateUse high))
  have bound := of_decide_eq_true plain
  omega

/-- Each of its parts holds a delimiter. -/
def Foreign (text : Text) : Prop := ∀ part ∈ Text.splitAt ' ' text, ∃ c ∈ part, c ∈ privateUse

theorem space_not_privateUse : ' ' ∉ privateUse := fun mem =>
  absurd (le_toNat_of_privateUse mem) (by decide)

theorem foreign_openingTag (d : Delimiters) (c : TagClass) : Foreign (d.openingTag c) := by
  have opening : ' ' ≠ d.opening := fun same => space_not_privateUse (same ▸ d.opening_mem)
  have closing : ' ' ≠ d.closing := fun same => space_not_privateUse (same ▸ d.closing_mem)
  have name : ' ' ∉ c.name := by cases c <;> decide
  have layout : d.openingTag c =
      (d.opening :: ['s', 'p', 'a', 'n']) ++ ' ' :: (['c', 'l', 'a', 's', 's', '=', '"'] ++ c.name ++ ['"', d.closing]) := by
    simp [Delimiters.openingTag, TagClass.opening]
  have parts : Text.splitAt ' ' (d.openingTag c) =
      [d.opening :: ['s', 'p', 'a', 'n'], ['c', 'l', 'a', 's', 's', '=', '"'] ++ c.name ++ ['"', d.closing]] := by
    rw [layout, Text.splitAt_append_cons, Text.splitAt_of_not_mem (by simp [opening]),
      Text.splitAt_of_not_mem (by simp [closing, name])]
    rfl
  intro part mem
  rw [parts] at mem
  rcases List.mem_cons.1 mem with rfl | mem
  · exact ⟨d.opening, List.mem_cons_self, d.opening_mem⟩
  · rw [List.mem_singleton.1 mem]
    exact ⟨d.closing, by simp, d.closing_mem⟩

theorem foreign_closingTag (d : Delimiters) : Foreign d.closingTag := by
  have opening : ' ' ≠ d.opening := fun same => space_not_privateUse (same ▸ d.opening_mem)
  have closing : ' ' ≠ d.closing := fun same => space_not_privateUse (same ▸ d.closing_mem)
  have clean : ' ' ∉ d.closingTag := by simp [Delimiters.closingTag, TagClass.closing, opening, closing]
  intro part mem
  rw [Text.splitAt_of_not_mem clean] at mem
  rw [List.mem_singleton.1 mem]
  exact ⟨d.opening, List.mem_cons_self, d.opening_mem⟩

/-! ## Seams -/

/-- A list, or what follows its first element where there is a seam in front. -/
def behindSeam {α : Type} (seam : Bool) (list : List α) : List α := if seam then list.tail else list

theorem mem_of_mem_behindSeam {α : Type} {seam : Bool} {list : List α} {a : α} (mem : a ∈ behindSeam seam list) :
    a ∈ list := by
  cases seam with
  | true => exact List.mem_of_mem_tail mem
  | false => exact mem

theorem map_behindSeam {α β : Type} (f : α → β) (seam : Bool) (list : List α) :
    (behindSeam seam list).map f = behindSeam seam (list.map f) := by
  cases seam with
  | true => exact List.map_tail
  | false => rfl

theorem filter_behindSeam {α : Type} {p : α → Bool} {spoiled : α} (fails : p spoiled = false) (seam : Bool)
    (front back : List α) :
    (behindSeam seam (front ++ spoiled :: back)).filter p = (behindSeam seam front).filter p ++ back.filter p := by
  have drop (list : List α) : (list ++ spoiled :: back).filter p = list.filter p ++ back.filter p := by
    rw [List.filter_append, List.filter_cons_of_neg (by simp [fails])]
  cases seam with
  | false => exact drop front
  | true =>
    cases front with
    | nil => rfl
    | cons a front => exact drop front

/-- The keyword tokens on both sides of a tag, of which the ones that touch it are spoiled. -/
theorem filter_splitAt_seam {tag before last : Text} {front : List Text} (foreign : Foreign tag)
    (left : Text.splitAt ' ' before = front ++ [last]) (after : Text) (seam : Bool) :
    (behindSeam seam (Text.splitAt ' ' (before ++ (tag ++ after)))).filter isKeyword =
      (behindSeam seam front).filter isKeyword ++ (behindSeam true (Text.splitAt ' ' after)).filter isKeyword := by
  obtain ⟨first, rest, right⟩ := Text.exists_splitAt_cons ' ' after
  obtain ⟨frontTag, lastTag, parts⟩ := Text.exists_splitAt_concat ' ' tag
  have inner := Text.splitAt_append parts right
  have spoils {part : Text} (mem : part ∈ frontTag ++ [lastTag]) (a b : Text) : isKeyword (a ++ (part ++ b)) = false := by
    obtain ⟨c, holds, high⟩ := foreign part (parts ▸ mem)
    exact isKeyword_of_privateUse (List.mem_append_right a (List.mem_append_left b holds)) high
  have behind : behindSeam true (Text.splitAt ' ' after) = rest := by
    rw [right]
    rfl
  rw [behind]
  cases frontTag with
  | nil =>
    rw [Text.splitAt_append left inner]
    exact filter_behindSeam (spoils List.mem_cons_self last first) seam front rest
  | cons firstTag frontTag =>
    have lost : isKeyword (last ++ firstTag) = false := by
      simpa using spoils List.mem_cons_self last []
    have lostLast : isKeyword (lastTag ++ first) = false := by
      simpa using spoils (by simp) [] first
    have lostInner : frontTag.filter isKeyword = [] := by
      apply List.filter_eq_nil_iff.2
      intro part mem
      simpa using spoils (List.mem_cons_of_mem firstTag (List.mem_append_left _ mem)) [] []
    have whole : Text.splitAt ' ' (before ++ (tag ++ after)) =
        front ++ (last ++ firstTag) :: (frontTag ++ (lastTag ++ first) :: rest) := Text.splitAt_append left inner
    rw [whole, filter_behindSeam lost, List.filter_append, lostInner, List.nil_append,
      List.filter_cons_of_neg (by simp [lostLast])]

/-- The length of parts with a space behind each. -/
def spacedLength : List Text → Nat
  | [] => 0
  | part :: rest => part.length + 1 + spacedLength rest

theorem length_of_splitAt {s last : Text} {front : List Text} (parts : Text.splitAt ' ' s = front ++ [last]) :
    s.length = spacedLength front + last.length := by
  have joined : (Text.joinWith ' ' (front ++ [last])).length = spacedLength front + last.length := by
    clear parts
    induction front with
    | nil => exact (Nat.zero_add _).symm
    | cons part front ih =>
      rw [List.cons_append, Text.joinWith_cons_concat, List.length_append, List.length_cons, ih, spacedLength]
      omega
  rwa [← parts, Text.joinWith_splitAt] at joined

theorem placedFrom_append (start : Nat) (front rest : List Text) :
    placedFrom start (front ++ rest) = placedFrom start front ++ placedFrom (start + spacedLength front) rest := by
  induction front generalizing start with
  | nil => rfl
  | cons part front ih =>
    have place : start + part.length + 1 + spacedLength front = start + spacedLength (part :: front) := by
      rw [spacedLength]
      omega
    rw [List.cons_append, placedFrom, placedFrom, ih, place, List.cons_append]

theorem stop_lt_of_mem_placedFrom {start : Nat} {front : List Text} {t : PlacedToken} (mem : t ∈ placedFrom start front) :
    t.stop < start + spacedLength front := by
  induction front generalizing start with
  | nil => cases mem
  | cons part front ih =>
    rw [spacedLength]
    rcases List.mem_cons.1 mem with rfl | later
    · show start + part.length < _
      omega
    · have inner := ih later
      omega

theorem lt_start_of_mem_behindSeam {start : Nat} {parts : List Text} {t : PlacedToken}
    (mem : t ∈ behindSeam true (placedFrom start parts)) : start < t.start := by
  cases parts with
  | nil => cases mem
  | cons part rest =>
    have later := le_start_of_mem_placedFrom (show t ∈ placedFrom (start + part.length + 1) rest from mem)
    omega

/-- The tokens on both sides of a place, if none that it is in or next to passes. -/
theorem filter_placedFrom_seam {p : PlacedToken → Bool} {before last : Text} {front : List Text}
    (left : Text.splitAt ' ' before = front ++ [last]) (after : Text) (start : Nat)
    (spoiled : ∀ t : PlacedToken, t.start ≤ start + before.length → start + before.length ≤ t.stop → p t = false)
    (seam : Bool) :
    (behindSeam seam (placedFrom start (Text.splitAt ' ' (before ++ after)))).filter p =
      (behindSeam seam (placedFrom start front)).filter p ++
        (behindSeam true (placedFrom (start + before.length) (Text.splitAt ' ' after))).filter p := by
  obtain ⟨first, rest, right⟩ := Text.exists_splitAt_cons ' ' after
  have length := length_of_splitAt left
  have place : start + spacedLength front + (last ++ first).length + 1 = start + before.length + first.length + 1 := by
    rw [List.length_append]
    omega
  have lost : p ⟨start + spacedLength front, last ++ first⟩ = false := by
    apply spoiled
    · show start + spacedLength front ≤ _
      omega
    · show _ ≤ start + spacedLength front + (last ++ first).length
      omega
  rw [Text.splitAt_append left right, placedFrom_append, placedFrom, filter_behindSeam lost, place, right]
  rfl

/-! ## Spans -/

/-- The places of the two tags, each by the number of characters in front. -/
def Span.edges (s : Span) : List Nat := [s.start.toNat - 1, s.stop.toNat]

namespace PlacedToken

/-- A tag of one of the spans stands in the token or next to it. -/
def meets (spans : List Span) (t : PlacedToken) : Bool :=
  spans.any fun s => s.edges.any fun edge => t.start ≤ edge && edge ≤ t.stop

theorem meets_cons (s : Span) (spans : List Span) (t : PlacedToken) :
    t.meets (s :: spans) = ((s.edges.any fun edge => t.start ≤ edge && edge ≤ t.stop) || t.meets spans) := rfl

theorem meets_of_edge {s : Span} {spans : List Span} {t : PlacedToken} {edge : Nat} (mem : edge ∈ s.edges)
    (left : t.start ≤ edge) (right : edge ≤ t.stop) : t.meets (s :: spans) = true := by
  rw [meets_cons, Bool.or_eq_true]
  exact .inl (List.any_eq_true.2 ⟨edge, mem, by simp [left, right]⟩)

theorem edges_apart {s : Span} {t : PlacedToken} (start : t.stop < s.start.toNat - 1 ∨ s.start.toNat - 1 < t.start)
    (stop : t.stop < s.stop.toNat ∨ s.stop.toNat < t.start) :
    (s.edges.any fun edge => t.start ≤ edge && edge ≤ t.stop) = false := by
  simp only [Span.edges, List.any_cons, List.any_nil, Bool.or_false, Bool.or_eq_false_iff, Bool.and_eq_false_iff,
    decide_eq_false_iff_not]
  omega

theorem not_meets_of_before {column last : Nat} {spans : List Span} {t : PlacedToken} (row : Row column last spans)
    (before : t.stop < column) : t.meets spans = false := by
  induction spans generalizing column with
  | nil => rfl
  | cons s rest ih =>
    obtain ⟨below, order, behind⟩ := row
    have apart := edges_apart (s := s) (t := t) (.inl (by omega)) (.inl (by omega))
    rw [meets_cons, apart, ih behind (by omega), Bool.or_false]

/-- A keyword that no tag spoils. -/
def survives (spans : List Span) (t : PlacedToken) : Bool := t.isKeyword && !t.meets spans

theorem survives_of_not_meets {spans : List Span} {t : PlacedToken} (clear : t.meets spans = false) :
    t.survives spans = t.isKeyword := by
  simp [survives, clear]

theorem not_survives_of_edge {s : Span} (spans : List Span) {edge : Nat} (mem : edge ∈ s.edges) (t : PlacedToken)
    (left : t.start ≤ edge) (right : edge ≤ t.stop) : t.survives (s :: spans) = false := by
  simp [survives, meets_of_edge mem left right]

variable {s : Span} {rest : List Span} {tokens : List PlacedToken}

theorem filter_in_front {column last : Nat} {spans : List Span} (row : Row column last spans)
    (front : ∀ t ∈ tokens, t.stop < column) : tokens.filter (survives spans) = tokens.filter isKeyword := by
  apply List.filter_congr
  intro t mem
  exact survives_of_not_meets (not_meets_of_before row (front t mem))

theorem filter_inside {last : Nat} (row : Row s.stop.toNat last rest)
    (inside : ∀ t ∈ tokens, s.start.toNat - 1 < t.start ∧ t.stop < s.stop.toNat) :
    tokens.filter (survives (s :: rest)) = tokens.filter isKeyword := by
  apply List.filter_congr
  intro t mem
  obtain ⟨start, stop⟩ := inside t mem
  apply survives_of_not_meets
  rw [meets_cons, edges_apart (.inr start) (.inl stop), not_meets_of_before row stop, Bool.or_false]

theorem filter_behind (order : s.start.toNat ≤ s.stop.toNat) (behind : ∀ t ∈ tokens, s.stop.toNat < t.start) :
    tokens.filter (survives (s :: rest)) = tokens.filter (survives rest) := by
  apply List.filter_congr
  intro t mem
  have stop := behind t mem
  rw [survives, survives, meets_cons, edges_apart (.inr (by omega)) (.inr stop), Bool.false_or]

end PlacedToken

theorem map_text_filter_behindSeam (seam : Bool) (start : Nat) (parts : List Text) :
    ((behindSeam seam (placedFrom start parts)).filter PlacedToken.isKeyword).map PlacedToken.text =
      (behindSeam seam parts).filter isKeyword := by
  have texts := map_text_placedFrom start parts
  rw [← texts, ← map_behindSeam, List.filter_map, texts]
  rfl

/-! ## The line with its marks -/

section Cut

variable {line : Text} {column last : Nat} {s : Span} {rest : List Span} {front inner : List Text} {before tail : Text}

/-- A span puts two tags into the line, and what is in front of each ends a token there. -/
theorem filter_tagged_cutBetween (d : Delimiters)
    (left : Text.splitAt ' ' (between line column (s.start.toNat - 1)) = front ++ [before])
    (right : Text.splitAt ' ' (between line (s.start.toNat - 1) s.stop.toNat) = inner ++ [tail]) (seam : Bool) :
    (behindSeam seam
        (Text.splitAt ' ' (Piece.delimitedLine d (cutBetween line column last (s :: rest))))).filter isKeyword =
      (behindSeam seam front).filter isKeyword ++ ((behindSeam true inner).filter isKeyword ++
        (behindSeam true
          (Text.splitAt ' ' (Piece.delimitedLine d (cutBetween line s.stop.toNat last rest)))).filter isKeyword) := by
  have marked : Piece.delimitedLine d (cutBetween line column last (s :: rest)) =
      between line column (s.start.toNat - 1) ++ (d.openingTag s.kind.tagClass ++
        (between line (s.start.toNat - 1) s.stop.toNat ++ (d.closingTag ++
          Piece.delimitedLine d (cutBetween line s.stop.toNat last rest)))) := by
    simp [cutBetween, Piece.delimitedLine, Piece.delimited, Delimiters.tagged]
  rw [marked, filter_splitAt_seam (foreign_openingTag d s.kind.tagClass) left,
    filter_splitAt_seam (foreign_closingTag d) right]

/-- The tokens of the line fall apart at the same two places. -/
theorem filter_placedFrom_between (row : Row column last (s :: rest)) (short : last ≤ line.length)
    (left : Text.splitAt ' ' (between line column (s.start.toNat - 1)) = front ++ [before])
    (right : Text.splitAt ' ' (between line (s.start.toNat - 1) s.stop.toNat) = inner ++ [tail]) (seam : Bool) :
    (behindSeam seam (placedFrom column (Text.splitAt ' ' (between line column last)))).filter
        (PlacedToken.survives (s :: rest)) =
      (behindSeam seam (placedFrom column front)).filter PlacedToken.isKeyword ++
        ((behindSeam true (placedFrom (s.start.toNat - 1) inner)).filter PlacedToken.isKeyword ++
          (behindSeam true (placedFrom s.stop.toNat (Text.splitAt ' ' (between line s.stop.toNat last)))).filter
            (PlacedToken.survives rest)) := by
  obtain ⟨below, order, behind⟩ := row
  have reach := behind.le
  have plain : between line column last =
      between line column (s.start.toNat - 1) ++
        (between line (s.start.toNat - 1) s.stop.toNat ++ between line s.stop.toNat last) := by
    rw [between_append line (by omega) reach, between_append line (by omega) (by omega)]
  have startPlace : column + (between line column (s.start.toNat - 1)).length = s.start.toNat - 1 := by
    rw [length_between (by omega)]
    omega
  have stopPlace : s.start.toNat - 1 + (between line (s.start.toNat - 1) s.stop.toNat).length = s.stop.toNat := by
    rw [length_between (by omega)]
    omega
  have frontLength := length_of_splitAt left
  have innerLength := length_of_splitAt right
  have spoiled {edge : Nat} (mem : edge ∈ s.edges) := PlacedToken.not_survives_of_edge rest mem
  have first := filter_placedFrom_seam left (between line (s.start.toNat - 1) s.stop.toNat ++ between line s.stop.toNat last)
    column (by rw [startPlace]; exact spoiled (by simp [Span.edges])) seam
  have second := filter_placedFrom_seam right (between line s.stop.toNat last) (s.start.toNat - 1)
    (by rw [stopPlace]; exact spoiled (by simp [Span.edges])) true
  have rowHere : Row (s.start.toNat - 1) last (s :: rest) := ⟨by omega, order, behind⟩
  have inFront : ∀ t ∈ behindSeam seam (placedFrom column front), t.stop < s.start.toNat - 1 := by
    intro t mem
    have stop := stop_lt_of_mem_placedFrom (mem_of_mem_behindSeam mem)
    omega
  have inside : ∀ t ∈ behindSeam true (placedFrom (s.start.toNat - 1) inner),
      s.start.toNat - 1 < t.start ∧ t.stop < s.stop.toNat := by
    intro t mem
    have stop := stop_lt_of_mem_placedFrom (mem_of_mem_behindSeam mem)
    exact ⟨lt_start_of_mem_behindSeam mem, by omega⟩
  rw [plain, first, startPlace, second, stopPlace, PlacedToken.filter_in_front rowHere inFront,
    PlacedToken.filter_inside behind inside, PlacedToken.filter_behind order fun t mem => lt_start_of_mem_behindSeam mem]

/-- By induction on the spans: the tags of the first are two seams, and no token behind them meets its edges. -/
theorem filter_cutBetween (d : Delimiters) {spans : List Span} (row : Row column last spans) (short : last ≤ line.length)
    (seam : Bool) :
    (behindSeam seam (Text.splitAt ' ' (Piece.delimitedLine d (cutBetween line column last spans)))).filter isKeyword =
      ((behindSeam seam (placedFrom column (Text.splitAt ' ' (between line column last)))).filter
        (PlacedToken.survives spans)).map PlacedToken.text := by
  induction spans generalizing column seam with
  | nil =>
    have plain : Piece.delimitedLine d (cutBetween line column last []) = between line column last := by
      simp [cutBetween, Piece.delimitedLine, Piece.delimited]
    have all : PlacedToken.survives [] = PlacedToken.isKeyword := by
      funext t
      exact PlacedToken.survives_of_not_meets rfl
    rw [plain, all, map_text_filter_behindSeam]
  | cons s rest ih =>
    obtain ⟨front, before, left⟩ := Text.exists_splitAt_concat ' ' (between line column (s.start.toNat - 1))
    obtain ⟨inner, tail, right⟩ := Text.exists_splitAt_concat ' ' (between line (s.start.toNat - 1) s.stop.toNat)
    rw [filter_tagged_cutBetween d left right, filter_placedFrom_between row short left right, List.map_append,
      List.map_append, map_text_filter_behindSeam, map_text_filter_behindSeam, ih row.2.2 true]

end Cut

/-- The keyword tokens that the pass sees in a marked line are those of the line that no edge of a kept span is in or next to. -/
theorem keywordTokens_markSpans {line : Text} {spans : OrderedSet Span} {d : Delimiters}
    (small : 26 * line.length < 2 ^ 64) (fits : ∀ s ∈ withoutOverlaps spans.keys, s.Fits line.length) :
    ∃ marked, markSpans d line spans = .ok marked ∧
      keywordTokens marked =
        ((keywordPlaces line).filter fun t => !t.meets (withoutOverlaps spans.keys)).map PlacedToken.text := by
  refine ⟨_, markSpans_of_fits d small fits, ?_⟩
  have tokens := filter_cutBetween d (row_withoutOverlaps fits) (Nat.le_refl _) false
  rw [between_all] at tokens
  have order : (keywordPlaces line).filter (fun t => !t.meets (withoutOverlaps spans.keys)) =
      (placedFrom 0 (Text.splitAt ' ' line)).filter (PlacedToken.survives (withoutOverlaps spans.keys)) := by
    rw [keywordPlaces, List.filter_filter]
    exact List.filter_congr fun t _ => Bool.and_comm _ _
  rw [order]
  exact tokens

def guardedLine : Text := "for x in y if z".toList

/-- The last span begins with the space behind `if`. -/
def guardedSpans : OrderedSet Span :=
  (OrderedMap.empty.insert ⟨5, 5, .token, "x".toList⟩ ()).insert ⟨14, 15, .dummy, "z".toList⟩ ()

theorem keywordTokens_markSpans_guarded :
    26 * guardedLine.length < 2 ^ 64 ∧ (∀ s ∈ withoutOverlaps guardedSpans.keys, s.Fits guardedLine.length) ∧
      keywordTokens guardedLine = ["for".toList, "in".toList, "if".toList] ∧
      ∃ d marked, Delimiters.forLine guardedLine = some d ∧ markSpans d guardedLine guardedSpans = .ok marked ∧
        keywordTokens marked = ["for".toList, "in".toList] := by
  have small : 26 * guardedLine.length < 2 ^ 64 := by decide
  have fits : ∀ s ∈ withoutOverlaps guardedSpans.keys, s.Fits guardedLine.length := by decide
  have free : (Delimiters.forLine guardedLine).isSome := by decide +kernel
  obtain ⟨d, free⟩ := Option.isSome_iff_exists.1 free
  obtain ⟨marked, ok, tokens⟩ := @keywordTokens_markSpans guardedLine guardedSpans d small fits
  have left : ((keywordPlaces guardedLine).filter fun t => !t.meets (withoutOverlaps guardedSpans.keys)).map
      PlacedToken.text = ["for".toList, "in".toList] := by decide
  exact ⟨small, fits, by decide, d, marked, free, ok, tokens.trans left⟩

end PatternPages.Marking
