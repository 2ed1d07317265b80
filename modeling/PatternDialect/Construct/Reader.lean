import PatternDialect.Construct
import PatternDialect.Text.Escape

/-! Reading the construct that starts at a position.

A position is given by the text before it, last character first, and the text
after it.  What is done with a construct is not decided here: inside a class, or
after a backslash, the same constructs are reported. -/

namespace PatternDialect

open Character

/-- A braced count `{n}`, `{n,}` or `{n,m}`, from the text after its brace. -/
def Repeat.braces? (text : Text) : Option Text :=
  let low := text.takeWhile isDigit
  if low.isEmpty then none
  else
    match text.dropWhile isDigit with
    | '}' :: _ => some ('{' :: low ++ ['}'])
    | ',' :: rest =>
        match rest.dropWhile isDigit with
        | '}' :: _ => some ('{' :: low ++ ',' :: rest.takeWhile isDigit ++ ['}'])
        | _ => none
    | _ => none

def Quantifier.withMarks (amount : Repeat) : Text → Quantifier
  | '?' :: _ => ⟨amount, true, false⟩
  | '+' :: _ => ⟨amount, false, true⟩
  | _ => ⟨amount, false, false⟩

def Opener.read : Text → Opener
  | '?' :: ':' :: _ => .plain
  | '?' :: '=' :: _ => .lookahead false
  | '?' :: '!' :: _ => .lookahead true
  | '?' :: '>' :: _ => .atomic
  | '?' :: '<' :: '=' :: _ => .lookbehind false
  | '?' :: '<' :: '!' :: _ => .lookbehind true
  | '?' :: '<' :: _ => .named
  | '?' :: _ => .unknown
  | _ => .capture

namespace Construct

def afterDollar? : Text → Option Construct
  | '<' :: _ => some (.nameReference .dollar)
  | c :: _ => if isDigit c then some .numberReference else none
  | [] => none

def afterBackslash? : Text → Option Construct
  | 'k' :: '<' :: _ => some (.nameReference .escape)
  | c :: _ =>
      if isDigit c then some (.escapedDigit c)
      else if isLetter c then some (.escapedLetter c)
      else none
  | [] => none

def plain? (before : Text) : Text → Option Construct
  | [] => none
  | c :: rest =>
      if isBlank c then some (.blank c)
      else
        match c with
        | '[' => some .openClass
        | ']' => some .closeClass
        | '.' => some .dot
        | '*' => some (.quantifier (.withMarks .star rest))
        | '+' => some (.quantifier (.withMarks .plus rest))
        | '?' => some (.quantifier (.withMarks .optional rest))
        | '{' =>
            (Repeat.braces? rest).map fun braces =>
              .quantifier (.withMarks (.counted braces) (rest.drop (braces.length - 1)))
        | '$' => afterDollar? rest
        | '(' => some (.openGroup (.read rest))
        | ')' => some .closeGroup
        | '#' => some .comment
        | '\\' => if Escape.pending before then none else afterBackslash? rest
        | _ => none

/-- The construct that starts between two texts.  The delimiter, where there is
one, is tested before anything else. -/
def at? (delimiter : Option Char) (before after : Text) : Option Construct :=
  match after with
  | [] => none
  | c :: _ => if delimiter = some c then some (.flagsDelimiter c) else plain? before after

def occurrences (delimiter : Option Char) : Text → Text → List (Nat × Construct)
  | _, [] => []
  | before, c :: rest =>
      let later := occurrences delimiter (c :: before) rest
      match at? delimiter before (c :: rest) with
      | some construct => (before.size, construct) :: later
      | none => later

end Construct

namespace Text

/-- A run of word characters closed by `>`. -/
def name? (text : Text) : Option Text :=
  let word := text.takeWhile isWord
  if word.isEmpty then none
  else if (text.dropWhile isWord).head? = some '>' then some word
  else none

def digits (text : Text) : Text := text.takeWhile isDigit

def firstSignificant? (text : Text) : Option Char := text.find? (!isBlank ·)

end Text

end PatternDialect
