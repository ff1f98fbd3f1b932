import PatternPages.Text.Visible

/-! Texts in double quotes, as messages show them. A backslash stands before every character that would end
the quotation or could not be seen. -/
namespace PatternPages.Text

/-- The digits of `n` to base sixteen, in lower case. -/
def hexadecimal (n : Nat) : Text := Nat.toDigits 16 n

def quotedChar (c : Char) : Text :=
  match c with
  | '\x00' => ['\\', '0']
  | '\t' => ['\\', 't']
  | '\r' => ['\\', 'r']
  | '\n' => ['\\', 'n']
  | '\\' => ['\\', '\\']
  | '"' => ['\\', '"']
  | c => if isVisible c then [c] else ['\\', 'u', '\x7b'] ++ hexadecimal c.toNat ++ ['\x7d']

def quoted (s : Text) : Text := '"' :: s.flatMap quotedChar ++ ['"']

end PatternPages.Text
