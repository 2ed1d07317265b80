import PatternDialect.Text.Character

/-! Escapes: when a backslash applies to the character after it, and how a text
is written so that it matches itself. -/

namespace PatternDialect.Escape

/-- Whether a text, given with its last character first, ends in an odd run of
backslashes, so that whatever follows it is escaped. -/
def pending (reversed : Text) : Bool :=
  (reversed.takeWhile (· == '\\')).length % 2 == 1

def endsOpen (text : Text) : Bool := pending text.reverse

/-- Whether the byte offset is preceded by an odd run of backslashes.  Offsets
past the end count as the end; inside a character there is no such run. -/
def isEscapedAt (text : Text) (offset : Nat) : Bool :=
  match text.splitAt? (min offset text.size) with
  | some (before, _) => endsOpen before
  | none => false

def occursUnescaped (wanted : Char) : Text → Text → Bool
  | _, [] => false
  | before, c :: rest =>
      (c == wanted && !pending before) || occursUnescaped wanted (c :: before) rest

def isMeta (c : Char) : Bool :=
  ['[', ']', '{', '}', '(', ')', '*', '+', '?', '.', '\\', '/', '^', '$', '|', '#'].contains c

/-- Whether a character of literal text is written with a backslash.  In unicode
mode the native engine refuses a backslash before `-` and `,`. -/
def needsEscape (unicode : Bool) (c : Char) : Bool :=
  isMeta c || ((c == '-' || c == ',') && !unicode) || Character.isBlank c

def literal (unicode : Bool) : Text → Text
  | [] => []
  | c :: rest =>
      if needsEscape unicode c then '\\' :: c :: literal unicode rest
      else c :: literal unicode rest

end PatternDialect.Escape
