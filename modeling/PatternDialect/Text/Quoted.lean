import PatternDialect.Text.Printable

/-! Texts and characters in quotes, with escapes for what would not show. -/

namespace PatternDialect.Quoted

/-- Lower-case hexadecimal digits without leading zeros. -/
def hex (n : Nat) : Text := Nat.toDigits 16 n

def escape (quote c : Char) : Text :=
  if c == quote || c == '\\' then ['\\', c]
  else if c == '\x00' then ['\\', '0']
  else if c == '\t' then ['\\', 't']
  else if c == '\r' then ['\\', 'r']
  else if c == '\n' then ['\\', 'n']
  else if Printable.showsItself c then [c]
  else ['\\', 'u', '{'] ++ hex c.toNat ++ ['}']

def text (content : Text) : Text := '"' :: content.flatMap (escape '"') ++ ['"']

def char (c : Char) : Text := '\x27' :: escape '\x27' c ++ ['\x27']

end PatternDialect.Quoted
