import PatternPages.Text.Blank

/-! Decimal numerals of bounded unsigned numbers: an optional plus sign and one or more ASCII digits, with
any number of leading zeros. A value that does not fit is no numeral. -/
namespace PatternPages.Text

def digitValue (c : Char) : Nat := c.toNat - '0'.toNat

/-- The value of a run of digits, the first being the most significant. -/
def digitsValue (digits : Text) : Nat := digits.foldl (fun n c => 10 * n + digitValue c) 0

def withoutPlus : Text → Text
  | '+' :: rest => rest
  | s => s

/-- The number below `bound` that the numeral stands for. -/
def number? (bound : Nat) (s : Text) : Option Nat :=
  let digits := withoutPlus s
  if !digits.isEmpty && digits.all Char.isDigit then
    if digitsValue digits < bound then some (digitsValue digits) else none
  else none

/-- The decimal digits of a number, without leading zeros. -/
def decimal (n : Nat) : Text := Nat.toDigits 10 n

def bound32 : Nat := 4294967296

def bound64 : Nat := 18446744073709551616

end PatternPages.Text
