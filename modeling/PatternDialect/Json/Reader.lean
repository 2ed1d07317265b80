import PatternDialect.Json.Value
import PatternDialect.Text.Character
import PatternDialect.Text.Decimal

/-! Reading JSON texts. -/

namespace PatternDialect.Json

open Character

inductive Cause where
  | endInList
  | endInObject
  | endInString
  | endInValue
  | expectedColon
  | expectedListCommaOrEnd
  | expectedObjectCommaOrEnd
  | expectedIdent
  | expectedValue
  | invalidEscape
  | invalidNumber
  | numberOutOfRange
  | controlCharacter
  | keyMustBeString
  | loneSurrogate
  | trailingComma
  | trailingCharacters
  | endOfHexEscape
  | tooDeep
  deriving DecidableEq

def Cause.message : Cause → String
  | endInList => "EOF while parsing a list"
  | endInObject => "EOF while parsing an object"
  | endInString => "EOF while parsing a string"
  | endInValue => "EOF while parsing a value"
  | expectedColon => "expected `:`"
  | expectedListCommaOrEnd => "expected `,` or `]`"
  | expectedObjectCommaOrEnd => "expected `,` or `\x7d`"
  | expectedIdent => "expected ident"
  | expectedValue => "expected value"
  | invalidEscape => "invalid escape"
  | invalidNumber => "invalid number"
  | numberOutOfRange => "number out of range"
  | controlCharacter => "control character (\\u0000-\\u001F) found while parsing a string"
  | keyMustBeString => "key must be a string"
  | loneSurrogate => "lone leading surrogate in hex escape"
  | trailingComma => "trailing comma"
  | trailingCharacters => "trailing characters"
  | endOfHexEscape => "unexpected end of hex escape"
  | tooDeep => "recursion limit exceeded"

structure Fault where
  cause : Cause
  remaining : Nat
  deriving DecidableEq

/-- The line and column of a fault, columns being counted in bytes. -/
def Fault.place (fault : Fault) (text : Text) : Nat × Nat :=
  let offset := text.size - fault.remaining
  let before := text.takeBytes offset
  let line := before.reverse.takeWhile (· != '\n')
  (before.count '\n' + 1, offset - (Text.size before - Text.size line))

def Fault.message (fault : Fault) (text : Text) : String :=
  let (line, column) := fault.place text
  fault.cause.message ++ " at line " ++ toString line ++ " column " ++ toString column

def failAt {α : Type} (cause : Cause) (text : Text) : Except Fault α :=
  .error ⟨cause, text.size⟩

/-- Fail one byte further, at the character that is looked at. -/
def failPast {α : Type} (cause : Cause) (text : Text) : Except Fault α :=
  .error ⟨cause, text.size - 1⟩

def skipBlanks (text : Text) : Text :=
  text.dropWhile fun c => c == ' ' || c == '\t' || c == '\n' || c == '\r'

def readWord (text : Text) : Text → Except Fault Text
  | [] => .ok text
  | expected :: word =>
      match text with
      | [] => failAt .endInValue text
      | c :: rest =>
          if c = expected then readWord rest word else failPast .expectedIdent text

/-! Numbers.  At most 64 bits of significant digits are used; the decimal exponent
is applied to them in double precision. -/

/-- Digits that still fit, the digits left over, and how many were used. -/
def takeSignificant (significand : Nat) : Text → Nat × Nat × Text
  | [] => (significand, 0, [])
  | c :: rest =>
      let grown := 10 * significand + Decimal.digitValue c
      if isDigit c && grown < Decimal.limit then
        let (result, used, left) := takeSignificant grown rest
        (result, used + 1, left)
      else (significand, 0, c :: rest)

def tenTo (exponent : Nat) : Float := Float.ofScientific 1 false exponent

/-- Bring a double to its decimal exponent, or nothing if it becomes too large. -/
def scale : Nat → Float → Int → Option Float
  | 0, f, _ => some f
  | bound + 1, f, exponent =>
      if exponent.natAbs ≤ 308 then
        if 0 ≤ exponent then
          let result := f * tenTo exponent.natAbs
          if result.isInf then none else some result
        else some (f / tenTo exponent.natAbs)
      else if f == 0.0 then some f
      else if 0 ≤ exponent then none
      else scale bound (f / tenTo 308) (exponent + 308)

def toReal (negative : Bool) (significand : Nat) (exponent : Int) (text : Text) :
    Except Fault (Number × Text) :=
  match scale 8 significand.toUInt64.toFloat exponent with
  | some f => .ok (.real (if negative then -f else f).toBits, text)
  | none => failAt .numberOutOfRange text

def exponentLimit : Nat := 2147483647

/-- An exponent's digits, or nothing as soon as they exceed the limit. -/
def takeExponent (value : Nat) : Text → Option Nat × Text
  | [] => (some value, [])
  | c :: rest =>
      if isDigit c then
        let grown := 10 * value + Decimal.digitValue c
        if grown ≤ exponentLimit then takeExponent grown rest else (none, rest)
      else (some value, c :: rest)

def readExponent (negative : Bool) (significand : Nat) (exponent : Int) (text : Text) :
    Except Fault (Number × Text) :=
  let (down, digits) :=
    match text with
    | '+' :: rest => (false, rest)
    | '-' :: rest => (true, rest)
    | _ => (false, text)
  match digits with
  | [] => failAt .endInValue digits
  | c :: _ =>
      if !isDigit c then failPast .invalidNumber digits
      else
        match takeExponent 0 digits with
        | (some value, rest) =>
            let signed : Int := if down then -(value : Int) else value
            toReal negative significand (exponent + signed) rest
        | (none, rest) =>
            if significand != 0 && !down then failAt .numberOutOfRange rest
            else .ok (.real (if negative then -0.0 else 0.0 : Float).toBits, rest.dropWhile isDigit)

def readTail (negative : Bool) (significand : Nat) (exponent : Int) (text : Text) :
    Except Fault (Number × Text) :=
  match text with
  | 'e' :: rest => readExponent negative significand exponent rest
  | 'E' :: rest => readExponent negative significand exponent rest
  | _ => toReal negative significand exponent text

def readFraction (negative : Bool) (significand : Nat) (exponent : Int) (text : Text) :
    Except Fault (Number × Text) :=
  let (grown, used, rest) := takeSignificant significand text
  if (rest.head?.any isDigit) then
    readTail negative grown (exponent - used) (rest.dropWhile isDigit)
  else if used = 0 then
    match rest with
    | [] => failPast .endInValue rest
    | _ => failPast .invalidNumber rest
  else readTail negative grown (exponent - used) rest

def wholeNumber (negative : Bool) (significand : Nat) : Number :=
  if !negative then .whole significand
  else if significand = 0 || Nat.pow 2 63 < significand then
    .real (-significand.toUInt64.toFloat).toBits
  else .whole (-(significand : Int))

def readNumber (negative : Bool) (text : Text) : Except Fault (Number × Text) :=
  match text with
  | [] => failAt .endInValue text
  | '0' :: rest =>
      if rest.head?.any isDigit then failPast .invalidNumber rest
      else
        match rest with
        | '.' :: decimals => readFraction negative 0 0 decimals
        | 'e' :: tail => readExponent negative 0 0 tail
        | 'E' :: tail => readExponent negative 0 0 tail
        | _ => .ok (wholeNumber negative 0, rest)
  | c :: _ =>
      if !isDigit c then failPast .invalidNumber text
      else
        let (significand, _, rest) := takeSignificant 0 text
        if rest.head?.any isDigit then
          let dropped := (rest.takeWhile isDigit).length
          match rest.dropWhile isDigit with
          | '.' :: decimals => readFraction negative significand dropped decimals
          | tail => readTail negative significand dropped tail
        else
          match rest with
          | '.' :: decimals => readFraction negative significand 0 decimals
          | 'e' :: tail => readExponent negative significand 0 tail
          | 'E' :: tail => readExponent negative significand 0 tail
          | _ => .ok (wholeNumber negative significand, rest)

/-! Strings. -/

def readHex (text : Text) : Except Fault (Nat × Text) :=
  if text.size < 4 then .error ⟨.endInString, 0⟩
  else
    let digits := text.take 4
    if digits.length = 4 && digits.all isHexDigit then .ok (hexNumber digits, text.drop 4)
    else .error ⟨.invalidEscape, text.size - 4⟩

def readLowSurrogate (high : Nat) (text : Text) : Except Fault (Char × Text) :=
  match text with
  | [] => failAt .endInString text
  | '\\' :: [] => failAt .endInString []
  | '\\' :: 'u' :: rest => do
      let (low, rest) ← readHex rest
      if low < 0xdc00 || 0xdfff < low then failAt .loneSurrogate rest
      else .ok (Char.ofNat ((high - 0xd800) * 0x400 + (low - 0xdc00) + 0x10000), rest)
  | '\\' :: rest => failPast .endOfHexEscape rest
  | _ => failPast .endOfHexEscape text

def readEscape (text : Text) : Except Fault (Char × Text) :=
  match text with
  | [] => failAt .endInString text
  | '"' :: rest => .ok ('"', rest)
  | '\\' :: rest => .ok ('\\', rest)
  | '/' :: rest => .ok ('/', rest)
  | 'b' :: rest => .ok ('\x08', rest)
  | 'f' :: rest => .ok ('\x0c', rest)
  | 'n' :: rest => .ok ('\n', rest)
  | 'r' :: rest => .ok ('\r', rest)
  | 't' :: rest => .ok ('\t', rest)
  | 'u' :: rest => do
      let (code, rest) ← readHex rest
      if 0xdc00 ≤ code && code ≤ 0xdfff then failAt .loneSurrogate rest
      else if 0xd800 ≤ code && code ≤ 0xdbff then readLowSurrogate code rest
      else .ok (Char.ofNat code, rest)
  | _ => failPast .invalidEscape text

/-- A string after its opening quote; what was read is kept in reverse. -/
def readString : Nat → Text → Text → Except Fault (Text × Text)
  | 0, _, text => failAt .endInString text
  | bound + 1, reversed, text =>
      match text with
      | [] => failAt .endInString text
      | '"' :: rest => .ok (reversed.reverse, rest)
      | '\\' :: rest => do
          let (c, rest) ← readEscape rest
          readString bound (c :: reversed) rest
      | c :: rest =>
          if c.toNat < 0x20 then failAt .controlCharacter rest
          else readString bound (c :: reversed) rest

def readText (text : Text) : Except Fault (Text × Text) :=
  readString (text.length + 1) [] text

def readColon (text : Text) : Except Fault Text :=
  match skipBlanks text with
  | ':' :: rest => .ok rest
  | [] => failPast .endInObject []
  | rest => failPast .expectedColon rest

def moreElements (first : Bool) (text : Text) : Except Fault (Bool × Text) :=
  match skipBlanks text with
  | [] => failPast .endInList []
  | ']' :: rest => .ok (false, rest)
  | rest =>
      if first then .ok (true, rest)
      else
        match rest with
        | ',' :: rest =>
            match skipBlanks rest with
            | [] => failPast .endInValue []
            | ']' :: tail => failPast .trailingComma (']' :: tail)
            | rest => .ok (true, rest)
        | _ => failPast .expectedListCommaOrEnd rest

def moreMembers (first : Bool) (text : Text) : Except Fault (Bool × Text) :=
  match skipBlanks text with
  | [] => failPast .endInObject []
  | '}' :: rest => .ok (false, rest)
  | rest =>
      if first then
        match rest with
        | '"' :: rest => .ok (true, rest)
        | _ => failPast .keyMustBeString rest
      else
        match rest with
        | ',' :: rest =>
            match skipBlanks rest with
            | [] => failPast .endInValue []
            | '"' :: rest => .ok (true, rest)
            | '}' :: tail => failPast .trailingComma ('}' :: tail)
            | rest => failPast .keyMustBeString rest
        | _ => failPast .expectedObjectCommaOrEnd rest

def depthLimit : Nat := 127

mutual

/-- A value, with a bound on the calls and the depth that is left. -/
def readValue : Nat → Nat → Text → Except Fault (Value × Text)
  | 0, _, text => failPast .endInValue text
  | bound + 1, depth, text =>
      match skipBlanks text with
      | [] => failPast .endInValue []
      | 'n' :: rest => do return (.null, ← readWord rest ['u', 'l', 'l'])
      | 't' :: rest => do return (.bool true, ← readWord rest ['r', 'u', 'e'])
      | 'f' :: rest => do return (.bool false, ← readWord rest ['a', 'l', 's', 'e'])
      | '"' :: rest => do
          let (string, rest) ← readText rest
          return (.string string, rest)
      | '[' :: rest =>
          match depth with
          | 0 => failPast .tooDeep ('[' :: rest)
          | depth + 1 => do
              let (items, rest) ← readElements bound depth true rest
              return (.array items, rest)
      | '{' :: rest =>
          match depth with
          | 0 => failPast .tooDeep ('{' :: rest)
          | depth + 1 => do
              let (members, rest) ← readMembers bound depth true [] rest
              return (.object members, rest)
      | '-' :: rest => do
          let (number, rest) ← readNumber true rest
          return (.number number, rest)
      | c :: rest =>
          if isDigit c then do
            let (number, rest) ← readNumber false (c :: rest)
            return (.number number, rest)
          else failPast .expectedValue (c :: rest)

def readElements : Nat → Nat → Bool → Text → Except Fault (List Value × Text)
  | 0, _, _, text => failPast .endInList text
  | bound + 1, depth, first, text => do
      let (more, rest) ← moreElements first text
      if more then
        let (item, rest) ← readValue bound depth rest
        let (items, rest) ← readElements bound depth false rest
        return (item :: items, rest)
      else return ([], rest)

def readMembers : Nat → Nat → Bool → List (Text × Value) → Text →
    Except Fault (List (Text × Value) × Text)
  | 0, _, _, _, text => failPast .endInObject text
  | bound + 1, depth, first, known, text => do
      let (more, rest) ← moreMembers first text
      if more then
        let (name, rest) ← readText rest
        let rest ← readColon rest
        let (value, rest) ← readValue bound depth rest
        readMembers bound depth false (setMember name value known) rest
      else return (known, rest)

end

def parse (text : Text) : Except Fault Value := do
  let (value, rest) ← readValue (2 * text.length + 2) depthLimit text
  match skipBlanks rest with
  | [] => return value
  | rest => failPast .trailingCharacters rest

end PatternDialect.Json
