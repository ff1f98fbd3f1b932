import PatternPages.Text.Blank

/-! The character classes of XML 1.0: characters, white space, and the characters of names. -/
namespace PatternPages.Xml

def isCharacter (c : Char) : Bool :=
  c = '\t' || c = '\n' || c = '\r' || (' ' ≤ c && c ≠ '\ufffe' && c ≠ '\uffff')

def isSpace (c : Char) : Bool := c = ' ' || c = '\t' || c = '\n' || c = '\r'

/-- Ranges of the characters that may begin a name. -/
def nameStartRanges : List (Char × Char) :=
  [(':', ':'), ('A', 'Z'), ('_', '_'), ('a', 'z'), ('\u00c0', '\u00d6'), ('\u00d8', '\u00f6'),
    ('\u00f8', '\u02ff'), ('\u0370', '\u037d'), ('\u037f', '\u1fff'), ('\u200c', '\u200d'),
    ('\u2070', '\u218f'), ('\u2c00', '\u2fef'), ('\u3001', '\ud7ff'), ('\uf900', '\ufdcf'),
    ('\ufdf0', '\ufffd'), (Char.ofNat 0x10000, Char.ofNat 0xeffff)]

/-- Ranges of the characters that may stand in a name but not begin it. -/
def nameOnlyRanges : List (Char × Char) :=
  [('-', '-'), ('.', '.'), ('0', '9'), ('\u00b7', '\u00b7'), ('\u0300', '\u036f'), ('\u203f', '\u2040')]

def isIn (ranges : List (Char × Char)) (c : Char) : Bool :=
  ranges.any fun range => range.1 ≤ c && c ≤ range.2

def isNameStart (c : Char) : Bool := isIn nameStartRanges c

def isNameCharacter (c : Char) : Bool := isNameStart c || isIn nameOnlyRanges c

end PatternPages.Xml
