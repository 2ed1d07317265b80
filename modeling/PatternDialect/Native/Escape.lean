import PatternDialect.Native.Expression
import PatternDialect.Native.Refusal
import PatternDialect.Text.Decimal

/-! Escapes of native source: what a backslash and the text after it stand for. -/

namespace PatternDialect.Native

open Character

def startsWithHex (count : Nat) (text : Text) : Bool :=
  (text.take count).length == count && (text.take count).all isHexDigit

def isHighSurrogate (code : Nat) : Bool := 0xd800 ≤ code && code ≤ 0xdbff

def isLowSurrogate (code : Nat) : Bool := 0xdc00 ≤ code && code ≤ 0xdfff

def joinSurrogates (high low : Nat) : Nat :=
  (high - 0xd800) * 0x400 + (low - 0xdc00) + 0x10000

/-- The code point of four hexadecimal digits.  Two escapes that write a surrogate
pair are one. -/
def readUnits (text : Text) : Nat × Text :=
  let code := hexNumber (text.take 4)
  let rest := text.drop 4
  match rest with
  | '\\' :: 'u' :: tail =>
      let low := hexNumber (tail.take 4)
      if isHighSurrogate code && startsWithHex 4 tail && isLowSurrogate low then
        (joinSurrogates code low, tail.drop 4)
      else (code, rest)
  | _ => (code, rest)

def readBraced? : Text → Option (Nat × Text)
  | '{' :: rest =>
      let digits := rest.takeWhile (· != '}')
      let code := hexNumber digits
      if digits.isEmpty || !digits.all isHexDigit || digits.length == rest.length then none
      else if code ≤ 0x10ffff then some (code, rest.drop (digits.length + 1))
      else none
  | _ => none

def readUnicode (unicode : Bool) (text : Text) : Except Refusal (Nat × Text) :=
  if startsWithHex 4 text then .ok (readUnits text)
  else if unicode then
    match readBraced? text with
    | some result => .ok result
    | none => .error .invalidUnicodeEscape
  else .ok ('u'.toNat, text)

def readOctal (digit : Char) (text : Text) : Nat × Text :=
  let isOctal (c : Char) : Bool := '0' ≤ c && c ≤ '7'
  let limit := if digit ≤ '3' then 2 else 1
  let digits := (text.takeWhile isOctal).take limit
  (digits.foldl (fun n c => 8 * n + Decimal.digitValue c) (Decimal.digitValue digit),
    text.drop digits.length)

/-- Why a class named by a property is refused, from the text after its letter.  No
property is known by name. -/
def propertyFault (text : Text) : Refusal :=
  if text.head? = some '{' then .invalidPropertyName else .invalidPropertyEscape

def isSyntaxCharacter (c : Char) : Bool :=
  ['^', '$', '\\', '.', '*', '+', '?', '(', ')', '[', ']', '{', '}', '|', '/'].contains c

/-- The code point that a backslash stands for with a character and the text after
it.  Outside unicode mode an `x` without two hexadecimal digits is a plain letter,
which takes the two characters after it along. -/
def readCharacterEscape (unicode : Bool) (c : Char) (text : Text) :
    Except Refusal (Nat × Text) :=
  match c with
  | 't' => .ok (0x9, text)
  | 'n' => .ok (0xa, text)
  | 'v' => .ok (0xb, text)
  | 'f' => .ok (0xc, text)
  | 'r' => .ok (0xd, text)
  | 'c' =>
      match text with
      | letter :: rest =>
          if isLetter letter then .ok (letter.toNat % 32, rest)
          else if unicode then .error .invalidEscape
          else .ok (c.toNat, text)
      | [] => if unicode then .error .invalidEscape else .ok (c.toNat, text)
  | 'x' =>
      if startsWithHex 2 text then .ok (hexNumber (text.take 2), text.drop 2)
      else if unicode then .error .invalidEscape
      else .ok (c.toNat, text.drop 2)
  | 'u' => readUnicode unicode text
  | 'p' => if unicode then .error (propertyFault text) else .ok (c.toNat, text)
  | 'P' => if unicode then .error (propertyFault text) else .ok (c.toNat, text)
  | _ =>
      if c == '0' && !text.head?.any isDigit then .ok (0, text)
      else if '0' ≤ c && c ≤ '7' && !unicode then .ok (readOctal c text)
      else if isSyntaxCharacter c || !unicode then .ok (c.toNat, text)
      else .error .invalidEscape

def classNamed? : Char → Option (ClassName × Bool)
  | 'd' => some (.digit, false)
  | 'D' => some (.digit, true)
  | 's' => some (.blank, false)
  | 'S' => some (.blank, true)
  | 'w' => some (.word, false)
  | 'W' => some (.word, true)
  | _ => none

end PatternDialect.Native
