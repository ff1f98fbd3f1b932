import PatternPages.Proofs.KeywordSearch
import PatternPages.Text.Utf8

/-! The search for keywords in bytes. Positions count characters; in the UTF-8 form of a line they become byte offsets in the
same order, and a text stands in these bytes only where it stands in the line. So the marks that are found are the bytes of
the tagged pieces, and the search ends at the first byte where the token stands outside them. -/
namespace PatternPages

namespace Text

/-! ## Bytes of a text -/

theorem encode_cons (c : Char) (s : Text) : encode (c :: s) = String.utf8EncodeChar c ++ encode s := List.flatMap_cons

theorem byteCount_pos {s : Text} (nonempty : s ≠ []) : 0 < byteCount s := by
  cases s with
  | nil => exact absurd rfl nonempty
  | cons c s =>
    have first : 0 < (String.utf8EncodeChar c).length := List.length_pos_iff.mpr String.utf8EncodeChar_ne_nil
    simp only [byteCount, encode_cons, List.length_append]
    omega

/-- No character is encoded as the beginning of another one. -/
theorem encodeChar_append_inj {c d : Char} {x y : Bytes}
    (same : String.utf8EncodeChar c ++ x = String.utf8EncodeChar d ++ y) : c = d ∧ x = y := by
  have arrays := congrArg List.toByteArray same
  simp only [List.toByteArray_append] at arrays
  have read := congrArg (ByteArray.utf8DecodeChar? · 0) arrays
  simp only [ByteArray.utf8DecodeChar?_utf8EncodeChar_append, Option.some.injEq] at read
  subst read
  exact ⟨rfl, List.append_cancel_left same⟩

theorem exists_of_encode_eq_append {token line : Text} {behind : Bytes} (split : encode line = encode token ++ behind) :
    ∃ after, line = token ++ after := by
  induction token generalizing line with
  | nil => exact ⟨line, rfl⟩
  | cons c token ih =>
    rw [encode_cons, List.append_assoc] at split
    cases line with
    | nil => exact absurd (List.append_eq_nil_iff.mp split.symm).1 String.utf8EncodeChar_ne_nil
    | cons d line =>
      rw [encode_cons] at split
      obtain ⟨rfl, rest⟩ := encodeChar_append_inj split
      obtain ⟨after, rfl⟩ := ih rest
      exact ⟨after, rfl⟩

/-- A byte that begins a character is the first of the bytes where it stands. -/
theorem eq_nil_of_inside {c d : Char} {front inside x y : Bytes} (char : String.utf8EncodeChar d = front ++ inside)
    (nonempty : inside ≠ []) (there : String.utf8EncodeChar c ++ x = inside ++ y) : front = [] := by
  cases inside with
  | nil => exact absurd rfl nonempty
  | cons b inside =>
    have begins : b.IsUTF8FirstByte := by
      cases bytes : String.utf8EncodeChar c with
      | nil => exact absurd bytes String.utf8EncodeChar_ne_nil
      | cons b' more =>
        rw [bytes] at there
        obtain rfl := (List.cons.inj there).1
        have first := @UInt8.isUTF8FirstByte_getElem_zero_utf8EncodeChar c
        simpa only [bytes, List.getElem_cons_zero] using first
    have place : front.length < (String.utf8EncodeChar d).length := by
      rw [char, List.length_append, List.length_cons]
      omega
    have byte : (String.utf8EncodeChar d)[front.length] = b := by
      simp [char]
    have start := UInt8.isUTF8FirstByte_getElem_utf8EncodeChar.mp (byte.symm ▸ begins)
    exact List.eq_nil_of_length_eq_zero start

/-- The bytes of a text stand only where the text stands. -/
theorem exists_of_encode_eq {token line : Text} {front behind : Bytes} (nonempty : token ≠ [])
    (split : encode line = front ++ (encode token ++ behind)) :
    ∃ before after, line = before ++ (token ++ after) ∧ encode before = front := by
  induction line generalizing front with
  | nil =>
    have none := (List.append_eq_nil_iff.mp (List.append_eq_nil_iff.mp split.symm).2).1
    have some := byteCount_pos nonempty
    rw [byteCount, none] at some
    cases some
  | cons d line ih =>
    rw [encode_cons] at split
    have later (front' : Bytes) (hfront : front = String.utf8EncodeChar d ++ front')
        (rest : encode line = front' ++ (encode token ++ behind)) :
        ∃ before after, d :: line = before ++ (token ++ after) ∧ encode before = front := by
      obtain ⟨before, after, rfl, rfl⟩ := ih rest
      exact ⟨d :: before, after, rfl, hfront.symm⟩
    rcases List.append_eq_append_iff.mp split with ⟨front', hfront, rest⟩ | ⟨inside, char, rest⟩
    · exact later front' hfront rest
    · by_cases empty : inside = []
      · subst empty
        rw [List.append_nil] at char
        exact later [] (by rw [char, List.append_nil]) rest.symm
      · obtain ⟨c, token', rfl⟩ := List.exists_cons_of_ne_nil nonempty
        have there := rest
        rw [encode_cons, List.append_assoc] at there
        obtain rfl := eq_nil_of_inside char empty there
        rw [← encode_cons] at split
        obtain ⟨after, whole⟩ := exists_of_encode_eq_append split
        exact ⟨[], after, whole, rfl⟩

/-! ## Offsets -/

/-- The byte at which the character at a position begins. -/
def byteOffset (line : Text) (position : Nat) : Nat := byteCount (line.take position)

theorem byteOffset_append (before rest : Text) : byteOffset (before ++ rest) before.length = byteCount before := by
  simp only [byteOffset, List.take_left]

theorem byteOffset_lt {line : Text} {i j : Nat} (less : i < j) (inside : j ≤ line.length) :
    byteOffset line i < byteOffset line j := by
  have parts : line.take j = line.take i ++ (line.drop i).take (j - i) := by
    rw [← List.take_add, Nat.add_sub_cancel' (Nat.le_of_lt less)]
  have nonempty : (line.drop i).take (j - i) ≠ [] := by
    apply List.ne_nil_of_length_pos
    simp only [List.length_take, List.length_drop]
    omega
  have positive := byteCount_pos nonempty
  simp only [byteOffset, parts, byteCount_append]
  omega

theorem byteOffset_le_iff {line : Text} {i j : Nat} (hi : i ≤ line.length) (hj : j ≤ line.length) :
    byteOffset line i ≤ byteOffset line j ↔ i ≤ j := by
  constructor
  · intro le
    refine Nat.le_of_not_gt fun less => ?_
    exact Nat.not_lt_of_le le (byteOffset_lt less hi)
  · intro le
    rcases Nat.eq_or_lt_of_le le with rfl | less
    · exact Nat.le_refl _
    · exact Nat.le_of_lt (byteOffset_lt less hj)

end Text

namespace Marking

open Text (byteCount byteOffset)

/-! ## Marks in bytes -/

def Range.inBytes (line : Text) (range : Range) : Range := ⟨byteOffset line range.start, byteOffset line range.stop⟩

/-- The bytes of the token stand in those of the line, and none of them is in a range. -/
structure FreeAt (ranges : List Range) (line token : Text) (offset : Nat) : Prop where
  here : ∃ front behind, Text.encode line = front ++ (Text.encode token ++ behind) ∧ front.length = offset
  apart : ∀ range ∈ ranges, offset + byteCount token ≤ range.start ∨ range.stop ≤ offset

theorem apart_inBytes_iff {line before token after : Text} (split : line = before ++ (token ++ after)) {range : Range}
    (start : range.start ≤ line.length) (stop : range.stop ≤ line.length) :
    byteCount before + byteCount token ≤ (range.inBytes line).start ∨ (range.inBytes line).stop ≤ byteCount before ↔
      range.touches token.length before.length = false := by
  have begins : byteCount before = byteOffset line before.length := by
    rw [split, Text.byteOffset_append]
  have ends : byteCount before + byteCount token = byteOffset line (before.length + token.length) := by
    rw [split, ← List.append_assoc, ← List.length_append, Text.byteOffset_append, Text.byteCount_append]
  have reach : before.length + token.length ≤ line.length := by
    simp only [split, List.length_append]
    omega
  rw [ends, begins, Range.inBytes, Text.byteOffset_le_iff reach start, Text.byteOffset_le_iff stop (by omega)]
  simp only [Range.touches, Bool.and_eq_false_iff, decide_eq_false_iff_not]
  omega

theorem freeAt_iff {d : Delimiters} {line token : Text} (nonempty : token ≠ [])
    (inside : ∀ range ∈ markedRanges d line, range.start ≤ line.length ∧ range.stop ≤ line.length) (offset : Nat) :
    FreeAt ((markedRanges d line).map (Range.inBytes line)) line token offset ↔
      ∃ position, Unmarked d line token position ∧ byteOffset line position = offset := by
  constructor
  · rintro ⟨⟨front, behind, bytes, rfl⟩, apart⟩
    obtain ⟨before, after, split, rfl⟩ := Text.exists_of_encode_eq nonempty bytes
    refine ⟨before.length, ⟨⟨before, after, split, rfl⟩, fun range mem => ?_⟩, ?_⟩
    · obtain ⟨start, stop⟩ := inside range mem
      exact (apart_inBytes_iff split start stop).mp (apart _ (List.mem_map_of_mem mem))
    · rw [split, Text.byteOffset_append]
      rfl
  · rintro ⟨position, ⟨⟨before, after, split, rfl⟩, free⟩, rfl⟩
    have place : byteOffset line before.length = byteCount before := by
      rw [split, Text.byteOffset_append]
    constructor
    · refine ⟨Text.encode before, Text.encode after, ?_, place.symm⟩
      rw [split, Text.encode_append, Text.encode_append]
    · intro range mem
      obtain ⟨marked, there, rfl⟩ := List.mem_map.mp mem
      obtain ⟨start, stop⟩ := inside marked there
      rw [place]
      exact (apart_inBytes_iff split start stop).mpr (free marked there)

/-! ## The search in bytes -/

def markedBytes (d : Delimiters) (line : Text) : List Range := (markedRanges d line).map (Range.inBytes line)

def findUnmarkedByte (d : Delimiters) (line token : Text) : Option Nat := (findUnmarked d line token).map (byteOffset line)

theorem le_length_of_unmarked {d : Delimiters} {line token : Text} {position : Nat} (unmarked : Unmarked d line token position) :
    position ≤ line.length := by
  obtain ⟨before, after, rfl, rfl⟩ := unmarked.here
  simp only [List.length_append]
  omega

section Search

variable {d : Delimiters} {line token : Text} (nonempty : token ≠ []) (clean : d.Avoid token)
  (inside : ∀ range ∈ markedRanges d line, range.start ≤ line.length ∧ range.stop ≤ line.length)

include nonempty clean inside

/-- An offset is found just if the token is free there and nowhere before. -/
theorem findUnmarkedByte_eq_some_iff (offset : Nat) : findUnmarkedByte d line token = some offset ↔
    FreeAt (markedBytes d line) line token offset ∧ ∀ other, FreeAt (markedBytes d line) line token other → offset ≤ other := by
  simp only [findUnmarkedByte, markedBytes, freeAt_iff nonempty inside, Option.map_eq_some_iff]
  constructor
  · rintro ⟨first, found, rfl⟩
    have unmarked := unmarked_of_findUnmarked found
    refine ⟨⟨first, unmarked, rfl⟩, ?_⟩
    rintro _ ⟨position, other, rfl⟩
    obtain ⟨_, le, same⟩ := exists_findUnmarked_le nonempty clean.closing_not_mem other
    cases found.symm.trans same
    exact (Text.byteOffset_le_iff (le_length_of_unmarked unmarked) (le_length_of_unmarked other)).mpr le
  · rintro ⟨⟨position, unmarked, rfl⟩, least⟩
    obtain ⟨first, le, found⟩ := exists_findUnmarked_le nonempty clean.closing_not_mem unmarked
    have candidate := unmarked_of_findUnmarked found
    have order := Text.byteOffset_le_iff (le_length_of_unmarked candidate) (le_length_of_unmarked unmarked)
    exact ⟨first, found, Nat.le_antisymm (order.mpr le) (least _ ⟨first, candidate, rfl⟩)⟩

theorem findUnmarkedByte_eq_none_iff : findUnmarkedByte d line token = none ↔
    ∀ offset, ¬ FreeAt (markedBytes d line) line token offset := by
  simp only [findUnmarkedByte, markedBytes, freeAt_iff nonempty inside, Option.map_eq_none_iff]
  constructor
  · rintro none offset ⟨position, unmarked, -⟩
    obtain ⟨first, -, found⟩ := exists_findUnmarked_le nonempty clean.closing_not_mem unmarked
    cases none.symm.trans found
  · intro nowhere
    cases found : findUnmarked d line token with
    | none => rfl
    | some first => exact absurd ⟨first, unmarked_of_findUnmarked found, rfl⟩ (nowhere _)

end Search

/-- The bytes of a tagged piece in its line. -/
theorem inBytes_tagged (d : Delimiters) (left right : List Piece) (c : TagClass) (text : Text) :
    Range.inBytes (Piece.delimitedLine d (left ++ .tagged c text :: right)) ⟨0 + (Piece.delimitedLine d left).length,
      0 + (Piece.delimitedLine d left).length + (d.tagged c text).length⟩ =
      ⟨byteCount (Piece.delimitedLine d left), byteCount (Piece.delimitedLine d left) + byteCount (d.tagged c text)⟩ := by
  have split : Piece.delimitedLine d (left ++ .tagged c text :: right) =
      Piece.delimitedLine d left ++ (d.tagged c text ++ Piece.delimitedLine d right) := by
    simp only [Piece.delimitedLine, List.flatMap_append, List.flatMap_cons, Piece.delimited]
  have start := Text.byteOffset_append (Piece.delimitedLine d left) (d.tagged c text ++ Piece.delimitedLine d right)
  have stop := Text.byteOffset_append (Piece.delimitedLine d left ++ d.tagged c text) (Piece.delimitedLine d right)
  simp only [List.append_assoc, List.length_append, Text.byteCount_append] at stop
  simp only [Range.inBytes, split, Nat.zero_add, start, stop]

section Pieces

variable {d : Delimiters} {pieces : List Piece} (avoid : d.Avoid (Piece.line pieces))

include avoid

theorem markedRanges_of_avoid : markedRanges d (Piece.delimitedLine d pieces) = Piece.rangesFrom 0 pieces :=
  markedRanges_delimitedLine (avoid_of_avoid_line avoid)

theorem inside_of_mem_markedRanges : ∀ range ∈ markedRanges d (Piece.delimitedLine d pieces),
    range.start ≤ (Piece.delimitedLine d pieces).length ∧ range.stop ≤ (Piece.delimitedLine d pieces).length := by
  intro range mem
  rw [markedRanges_of_avoid avoid, Piece.mem_rangesFrom_iff d] at mem
  obtain ⟨left, c, text, right, rfl, rfl⟩ := mem
  simp only [Piece.delimitedLine, List.flatMap_append, List.flatMap_cons, List.length_append, Piece.delimited]
  omega

theorem mem_markedBytes_iff (range : Range) : range ∈ markedBytes d (Piece.delimitedLine d pieces) ↔
    ∃ left c text right, pieces = left ++ .tagged c text :: right ∧
      range = ⟨byteCount (Piece.delimitedLine d left),
        byteCount (Piece.delimitedLine d left) + byteCount (d.tagged c text)⟩ := by
  simp only [markedBytes, List.mem_map, markedRanges_of_avoid avoid, Piece.mem_rangesFrom_iff d]
  constructor
  · rintro ⟨_, ⟨left, c, text, right, rfl, rfl⟩, rfl⟩
    exact ⟨left, c, text, right, rfl, inBytes_tagged d left right c text⟩
  · rintro ⟨left, c, text, right, rfl, rfl⟩
    exact ⟨_, ⟨left, c, text, right, rfl, rfl⟩, inBytes_tagged d left right c text⟩

theorem markedBytes_pairwise : (markedBytes d (Piece.delimitedLine d pieces)).Pairwise fun a b => a.stop ≤ b.start := by
  have order : (markedRanges d (Piece.delimitedLine d pieces)).Pairwise fun a b => a.stop ≤ b.start := by
    rw [markedRanges_of_avoid avoid]
    exact Piece.rangesFrom_pairwise d 0 pieces
  apply List.pairwise_map.mpr
  apply order.imp_of_mem
  intro a b ha hb apart
  have stop := (inside_of_mem_markedRanges avoid a ha).2
  have start := (inside_of_mem_markedRanges avoid b hb).1
  exact (Text.byteOffset_le_iff stop start).mpr apart

end Pieces

/-- In a line of pieces the marks found are the bytes of the tagged pieces, one behind the other. The search for a token finds the
first byte at which it stands apart from all of them, and finds none only if there is none. -/
theorem search_outside_marks {d : Delimiters} {pieces : List Piece} {token : Text} (avoid : d.Avoid (Piece.line pieces))
    (nonempty : token ≠ []) (clean : d.Avoid token) :
    (∀ range, range ∈ markedBytes d (Piece.delimitedLine d pieces) ↔
        ∃ left c text right, pieces = left ++ .tagged c text :: right ∧
          range = ⟨byteCount (Piece.delimitedLine d left),
            byteCount (Piece.delimitedLine d left) + byteCount (d.tagged c text)⟩) ∧
      (markedBytes d (Piece.delimitedLine d pieces)).Pairwise (fun a b => a.stop ≤ b.start) ∧
      (∀ offset, findUnmarkedByte d (Piece.delimitedLine d pieces) token = some offset ↔
        FreeAt (markedBytes d (Piece.delimitedLine d pieces)) (Piece.delimitedLine d pieces) token offset ∧
          ∀ other, FreeAt (markedBytes d (Piece.delimitedLine d pieces)) (Piece.delimitedLine d pieces) token other →
            offset ≤ other) ∧
      (findUnmarkedByte d (Piece.delimitedLine d pieces) token = none ↔
        ∀ offset, ¬ FreeAt (markedBytes d (Piece.delimitedLine d pieces)) (Piece.delimitedLine d pieces) token offset) := by
  have inside := inside_of_mem_markedRanges avoid
  exact ⟨mem_markedBytes_iff avoid, markedBytes_pairwise avoid, findUnmarkedByte_eq_some_iff nonempty clean inside,
    findUnmarkedByte_eq_none_iff nonempty clean inside⟩

def elsePieces : List Piece := [.plain "é".toList, .tagged .keyword "else".toList, .plain " elselse".toList]

/-- The second of two overlapping places is free too, at byte 43. -/
theorem search_outside_marks_else :
    ∃ d, Delimiters.forLine (Piece.line elsePieces) = some d ∧ d.Avoid (Piece.line elsePieces) ∧
      "else".toList ≠ [] ∧ d.Avoid "else".toList ∧
      markedBytes d (Piece.delimitedLine d elsePieces) = [⟨2, 39⟩] ∧
      findUnmarked d (Piece.delimitedLine d elsePieces) "else".toList = some 31 ∧
      FreeAt [⟨2, 39⟩] (Piece.delimitedLine d elsePieces) "else".toList 40 ∧
      ∀ other, FreeAt [⟨2, 39⟩] (Piece.delimitedLine d elsePieces) "else".toList other → 40 ≤ other := by
  have run : (Delimiters.forLine (Piece.line elsePieces)).map (fun d =>
      (markedBytes d (Piece.delimitedLine d elsePieces), findUnmarked d (Piece.delimitedLine d elsePieces) "else".toList,
        findUnmarkedByte d (Piece.delimitedLine d elsePieces) "else".toList)) =
      some ([⟨2, 39⟩], some 31, some 40) := by decide +kernel
  obtain ⟨d, free, results⟩ := Option.map_eq_some_iff.mp run
  simp only [Prod.mk.injEq] at results
  obtain ⟨ranges, position, offset⟩ := results
  have avoid := Delimiters.avoid_of_forLine free
  have ascii : "else".toList.all (fun c => decide (c.toNat ≤ 127)) = true := by decide
  have clean : d.Avoid "else".toList := d.avoid_of_ascii fun c mem => of_decide_eq_true (List.all_eq_true.mp ascii c mem)
  obtain ⟨-, -, search, -⟩ := search_outside_marks avoid (by decide) clean
  obtain ⟨here, least⟩ := (search 40).mp offset
  rw [ranges] at here least
  exact ⟨d, free, avoid, by decide, clean, ranges, position, here, least⟩

end Marking

end PatternPages
