import PatternPages.Text.Blank

/-! UTF-8 with replacement. Ill-formed bytes are cut into maximal pieces that could have begun a
character; each such piece counts as one replacement character. -/
namespace PatternPages.Text

abbrev Bytes := List UInt8

/-- The bytes that may follow a lead byte, each as an interval; the value bits of the lead byte. -/
structure Lead where
  bits : Nat
  following : List (UInt8 × UInt8)

/-- Any continuation byte. -/
def continuation : UInt8 × UInt8 := (0x80, 0xBF)

/-- Lead bytes exclude overlong forms, surrogates and values above U+10FFFF. -/
def lead? (b : UInt8) : Option Lead :=
  if b < 0x80 then some ⟨b.toNat, []⟩
  else if b < 0xC2 then none
  else if b < 0xE0 then some ⟨b.toNat - 0xC0, [continuation]⟩
  else if b = 0xE0 then some ⟨0, [(0xA0, 0xBF), continuation]⟩
  else if b = 0xED then some ⟨0xD, [(0x80, 0x9F), continuation]⟩
  else if b < 0xF0 then some ⟨b.toNat - 0xE0, [continuation, continuation]⟩
  else if b = 0xF0 then some ⟨0, [(0x90, 0xBF), continuation, continuation]⟩
  else if b < 0xF4 then some ⟨b.toNat - 0xF0, [continuation, continuation, continuation]⟩
  else if b = 0xF4 then some ⟨4, [(0x80, 0x8F), continuation, continuation]⟩
  else none

/-- Reads the bytes that must follow. Stops before the first that does not fit; then there is no value. -/
def readFollowing (bits : Nat) : List (UInt8 × UInt8) → Bytes → Option Nat × Bytes
  | [], rest => (some bits, rest)
  | _ :: _, [] => (none, [])
  | (low, high) :: more, b :: rest =>
    if low ≤ b && b ≤ high then readFollowing (64 * bits + (b.toNat - 0x80)) more rest
    else (none, b :: rest)

theorem length_readFollowing_le (bits : Nat) (following : List (UInt8 × UInt8)) (bytes : Bytes) :
    (readFollowing bits following bytes).2.length ≤ bytes.length := by
  induction following generalizing bits bytes with
  | nil => simp [readFollowing]
  | cons interval more ih =>
    cases bytes with
    | nil => simp [readFollowing]
    | cons b rest =>
      simp only [readFollowing]
      split
      · exact Nat.le_succ_of_le (ih _ rest)
      · simp

/-- The characters, with `none` for each maximal ill-formed piece. -/
def pieces : Bytes → List (Option Char)
  | [] => []
  | b :: rest =>
    match lead? b with
    | none => none :: pieces rest
    | some lead =>
      let read := readFollowing lead.bits lead.following rest
      read.1.map Char.ofNat :: pieces read.2
termination_by bytes => bytes.length
decreasing_by
  · simp
  · have := length_readFollowing_le lead.bits lead.following rest
    simp only [List.length_cons]
    omega

/-- The text, if the bytes are well formed. -/
def decode? (bytes : Bytes) : Option Text := (pieces bytes).mapM id

/-- The text, with a replacement character for each ill-formed piece. -/
def decodeLossy (bytes : Bytes) : Text := (pieces bytes).map (·.getD '\ufffd')

def encode (s : Text) : Bytes := s.flatMap String.utf8EncodeChar

def byteCount (s : Text) : Nat := (encode s).length

theorem encode_append (a b : Text) : encode (a ++ b) = encode a ++ encode b := List.flatMap_append

theorem byteCount_append (a b : Text) : byteCount (a ++ b) = byteCount a + byteCount b := by
  simp only [byteCount, encode_append, List.length_append]

end PatternPages.Text
