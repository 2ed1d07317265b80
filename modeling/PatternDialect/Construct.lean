import PatternDialect.Text.Character

/-! The constructs of the dialect: what may start at a position of a pattern. -/

namespace PatternDialect

inductive Opener where
  | capture
  | plain
  | lookahead (negative : Bool)
  | lookbehind (negative : Bool)
  | named
  | atomic
  | unknown
  deriving DecidableEq

namespace Opener

def length : Opener → Nat
  | capture => 1
  | unknown => 2
  | plain | lookahead _ | named | atomic => 3
  | lookbehind _ => 4

end Opener

inductive Repeat where
  | star
  | plus
  | optional
  /-- A braced count, braces included. -/
  | counted (braces : Text)
  deriving DecidableEq

namespace Repeat

def text : Repeat → Text
  | star => ['*']
  | plus => ['+']
  | optional => ['?']
  | counted braces => braces

end Repeat

structure Quantifier where
  amount : Repeat
  lazy : Bool := false
  possessive : Bool := false
  deriving DecidableEq

namespace Quantifier

def length (q : Quantifier) : Nat :=
  q.amount.text.length + q.lazy.toNat + q.possessive.toNat

def size (q : Quantifier) : Nat :=
  q.amount.text.size + q.lazy.toNat + q.possessive.toNat

/-- The quantifier as the native engine reads it.  The ungreedy flag swaps greedy
and lazy; a possessive mark is never written. -/
def render (q : Quantifier) (ungreedy : Bool) : Text :=
  if !q.possessive && q.lazy != ungreedy then q.amount.text ++ ['?'] else q.amount.text

end Quantifier

inductive NameReference where
  | dollar
  | escape
  deriving DecidableEq

namespace NameReference

def opener : NameReference → Text
  | dollar => ['$', '<']
  | escape => ['\\', 'k', '<']

end NameReference

inductive Construct where
  | blank (c : Char)
  | openClass
  | closeClass
  | dot
  | quantifier (q : Quantifier)
  | numberReference
  | nameReference (form : NameReference)
  | openGroup (form : Opener)
  | closeGroup
  | comment
  | escapedDigit (digit : Char)
  | escapedLetter (letter : Char)
  | flagsDelimiter (c : Char)
  deriving DecidableEq

namespace Construct

def length : Construct → Nat
  | blank _ | flagsDelimiter _ | openClass | closeClass | dot | closeGroup | comment => 1
  | quantifier q => q.length
  | numberReference | escapedDigit _ | escapedLetter _ => 2
  | nameReference form => form.opener.length
  | openGroup form => form.length

def size : Construct → Nat
  | blank c | flagsDelimiter c => c.utf8Size
  | quantifier q => q.size
  | construct => construct.length

end Construct

end PatternDialect
