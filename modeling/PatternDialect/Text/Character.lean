import PatternDialect.Text.Basic

/-! Character classes of the dialect.

Digits, letters and word characters are ASCII.  Blanks are what `\s` matches in
the native engine, a fixed set that reaches beyond ASCII. -/

namespace PatternDialect.Character

def isDigit (c : Char) : Bool := '0' ≤ c && c ≤ '9'

def isLetter (c : Char) : Bool := ('a' ≤ c && c ≤ 'z') || ('A' ≤ c && c ≤ 'Z')

def isHexDigit (c : Char) : Bool :=
  isDigit c || ('a' ≤ c && c ≤ 'f') || ('A' ≤ c && c ≤ 'F')

def isWord (c : Char) : Bool := isLetter c || isDigit c || c == '_'

def isLineEnd (c : Char) : Bool :=
  c == '\n' || c == '\r' || c == '\u2028' || c == '\u2029'

/-- Blank characters, as the native `\s` understands them. -/
def isBlank (c : Char) : Bool :=
  c == '\t' || c == '\n' || c == '\x0b' || c == '\x0c' || c == '\r' || c == ' ' ||
    c == '\u00a0' || c == '\u1680' || ('\u2000' ≤ c && c ≤ '\u200a') ||
    c == '\u2028' || c == '\u2029' || c == '\u202f' || c == '\u205f' ||
    c == '\u3000' || c == '\ufeff'

/-- Characters with the Unicode property `White_Space`.  They differ from the
blanks in two places: the next-line control belongs to them and the byte order
mark does not. -/
def isWhiteSpace (c : Char) : Bool :=
  (isBlank c && c != '\ufeff') || c == '\u0085'

def isIdentifier : Text → Bool
  | [] => false
  | c :: rest => (isLetter c || c == '_') && rest.all isWord

def hexValue (c : Char) : Nat :=
  if isDigit c then c.toNat - '0'.toNat
  else if 'a' ≤ c then c.toNat - 'a'.toNat + 10
  else c.toNat - 'A'.toNat + 10

def hexNumber (digits : Text) : Nat :=
  digits.foldl (fun n c => 16 * n + hexValue c) 0

end PatternDialect.Character
