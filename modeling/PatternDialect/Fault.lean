import PatternDialect.Text.Basic

/-! What can go wrong, by cause, and the wording of each cause. -/

namespace PatternDialect

inductive NativeFault where
  | unbalancedBracket
  | invalidFlag (flag : Char) (flags : Text)
  | refused (message : String)
  deriving DecidableEq

def NativeFault.message : NativeFault → String
  | unbalancedBracket => "Unbalanced bracket"
  | invalidFlag flag flags =>
      "invalid flag '" ++ String.singleton flag ++ "' in \"" ++ String.ofList flags ++ "\""
  | refused message => message

inductive Fault where
  | unknownFlags (left : Text)
  | expectedGroupName
  | invalidGroup (opener : Text)
  | invalidGroupName (name : Text)
  | groupNameStartsWithDigit (name : Text)
  | duplicateGroupName (name : Text)
  | expectedReferenceName (opener : Text)
  | unresolvedReference (reference : Text)
  | octalEscape (escape : Text)
  | unnecessaryEscape (letter : Char)
  | unicodeFlagRequired (letter : Char)
  | unterminatedAtomicGroup
  | nothingToRepeat (quantifier : Text)
  | secondDelimiter (delimiter : Char)
  /-- The source had to be cut where no character starts. -/
  | insideCharacter (offset : Nat)
  | native (cause : NativeFault)
  | invalidSubstitution (position : Nat) (kind : Text)
  | unknownOption (name : Text)
  | templateArity (literals substitutions : Nat)
  | recompile
  deriving DecidableEq

namespace Fault

private def quote (text : Text) : String := "\"" ++ String.ofList text ++ "\""

def message : Fault → String
  | unknownFlags left => "unrecognised characters in flags: " ++ quote left
  | expectedGroupName => "invalid group structure, expected named group"
  | invalidGroup opener => "invalid group structure " ++ quote opener
  | invalidGroupName name => "invalid group name " ++ quote name
  | groupNameStartsWithDigit name =>
      "invalid group structure, group name " ++ quote name ++ " must not begin with a digit"
  | duplicateGroupName name => "duplicate group name " ++ quote name
  | expectedReferenceName opener =>
      "invalid group reference, expected group name after " ++ quote opener
  | unresolvedReference reference => "reference to non-existent sub pattern " ++ quote reference
  | octalEscape escape => "octal escapes are not allowed: " ++ quote escape
  | unnecessaryEscape letter => "unnecessary escape of character " ++ quote [letter]
  | unicodeFlagRequired letter =>
      "unnecessary escape of character " ++ quote [letter] ++ " (u flag required)"
  | unterminatedAtomicGroup => "unterminated atomic group"
  | nothingToRepeat quantifier => "nothing to repeat before " ++ quote quantifier
  | secondDelimiter delimiter =>
      "unexpected second flags delimiter '" ++ String.singleton delimiter ++ "'"
  | insideCharacter offset => "offset " ++ toString offset ++ " lies inside a character"
  | native cause => "invalid regular expression: " ++ cause.message
  | invalidSubstitution position kind =>
      "substitution #" ++ toString position ++ " has unsupported type " ++ String.ofList kind
  | unknownOption name => "unrecognised option " ++ quote name
  | templateArity literals substitutions =>
      "template with " ++ toString literals ++ " literal segments needs " ++
        toString (literals - 1) ++ " substitutions, got " ++ toString substitutions
  | recompile => "compiled patterns can not be recompiled"

/-- Whether the fault lies in the values handed over rather than in a text. -/
def isMisuse : Fault → Bool
  | invalidSubstitution .. | unknownOption _ | templateArity .. | recompile => true
  | _ => false

def report (fault : Fault) : String :=
  (if fault.isMisuse then "TypeError: " else "SyntaxError: ") ++ fault.message

end Fault

end PatternDialect
