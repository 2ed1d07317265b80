import PatternDialect.Construct
import PatternDialect.Text.Quoted

/-! How constructs are named in a log. -/

namespace PatternDialect

def Opener.description : Opener → String
  | capture => "Capture"
  | plain => "NonCapture"
  | lookahead negative => "Lookahead \x7b negative: " ++ toString negative ++ " \x7d"
  | lookbehind negative => "Lookbehind \x7b negative: " ++ toString negative ++ " \x7d"
  | named => "Named"
  | atomic => "Atomic"
  | unknown => "Invalid"

namespace Construct

private def ticked (text : Text) : String := "`" ++ String.ofList text ++ "`"

def description : Construct → String
  | blank c => "whitespace " ++ String.ofList (Quoted.char c)
  | openClass => ticked ['[']
  | closeClass => ticked [']']
  | dot => ticked ['.']
  | quantifier q => "quantifier " ++ ticked q.amount.text
  | numberReference => "numbered reference"
  | nameReference form => "named reference " ++ ticked form.opener
  | openGroup form => "group opener " ++ form.description
  | closeGroup => ticked [')']
  | comment => "comment"
  | escapedDigit digit => "escape " ++ ticked ['\\', digit]
  | escapedLetter letter => "escape " ++ ticked ['\\', letter]
  | flagsDelimiter c => "flags delimiter " ++ ticked [c]

end Construct

end PatternDialect
