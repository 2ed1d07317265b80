import PatternDialect.Text.Basic

/-! Why native source is refused, by cause, and the wording of each cause. -/

namespace PatternDialect.Native

inductive Refusal where
  | unbalancedParenthesis
  | unbalancedBracket
  | invalidAtom
  | bracedQuantifier
  | invalidQuantifier
  | quantifierNotAllowed
  | incompleteEscape
  | unfinishedClassEscape
  | invalidEscape
  | invalidUnicodeEscape
  | invalidPropertyEscape
  | invalidPropertyName
  | reversedRange
  | invalidRange
  | invalidGroupModifier
  | invalidGroupIdentifier
  | duplicateName
  | unknownName (name : Text)
  | unfinishedNameReference
  deriving DecidableEq

namespace Refusal

def message : Refusal → String
  | unbalancedParenthesis => "Unbalanced parenthesis"
  | unbalancedBracket => "Unbalanced bracket"
  | invalidAtom => "Invalid atom character"
  | bracedQuantifier => "Invalid braced quantifier"
  | invalidQuantifier => "Invalid quantifier"
  | quantifierNotAllowed => "Quantifier not allowed here"
  | incompleteEscape => "Incomplete escape"
  | unfinishedClassEscape => "Unterminated escape"
  | invalidEscape => "Invalid character escape"
  | invalidUnicodeEscape => "Invalid unicode escape"
  | invalidPropertyEscape => "Invalid character at property escape start"
  | invalidPropertyName => "Invalid property name"
  | reversedRange => "Range values reversed, start char code is greater than end char code."
  | invalidRange => "Invalid character range"
  | invalidGroupModifier => "Invalid group modifier"
  | invalidGroupIdentifier => "Invalid token at named capture group identifier"
  | duplicateName => "Duplicate capture group name"
  | unknownName name =>
      "Backreference to invalid named capture group: " ++ String.ofList name
  | unfinishedNameReference => "Unexpected end of named backreference"

end Refusal

end PatternDialect.Native
