import PatternDialect.Text.Character

/-! Regular expressions of the native engine.

Characters of an expression are code points, so that half of a surrogate pair can
be written; no character of a text is equal to one. -/

namespace PatternDialect.Native

inductive ClassName where
  | digit
  | blank
  | word
  deriving DecidableEq

namespace ClassName

def contains : ClassName → Char → Bool
  | digit, c => Character.isDigit c
  | blank, c => Character.isBlank c
  | word, c => Character.isWord c

end ClassName

inductive ClassItem where
  | range (first last : Nat)
  | named (name : ClassName) (negated : Bool)
  deriving DecidableEq

namespace ClassItem

def contains : ClassItem → Char → Bool
  | range first last, c => first ≤ c.toNat && c.toNat ≤ last
  | named name negated, c => name.contains c != negated

end ClassItem

/-- How often an expression is repeated, and which is tried first: more or less. -/
structure Bounds where
  least : Nat
  most : Option Nat
  greedy : Bool
  deriving DecidableEq

structure Modes where
  ignoreCase : Bool := false
  multiline : Bool := false
  dotAll : Bool := false
  unicode : Bool := false
  deriving DecidableEq

structure Modifiers where
  ignoreCase : Option Bool := none
  multiline : Option Bool := none
  dotAll : Option Bool := none
  deriving DecidableEq

namespace Modifiers

def isEmpty (m : Modifiers) : Bool :=
  m.ignoreCase.isNone && m.multiline.isNone && m.dotAll.isNone

/-- Name one more mode by its letter; none may be named twice. -/
def add? (m : Modifiers) (letter : Char) (value : Bool) : Option Modifiers :=
  match letter with
  | 'i' => if m.ignoreCase.isNone then some { m with ignoreCase := some value } else none
  | 'm' => if m.multiline.isNone then some { m with multiline := some value } else none
  | 's' => if m.dotAll.isNone then some { m with dotAll := some value } else none
  | _ => none

end Modifiers

def Modes.within (modes : Modes) (m : Modifiers) : Modes where
  ignoreCase := m.ignoreCase.getD modes.ignoreCase
  multiline := m.multiline.getD modes.multiline
  dotAll := m.dotAll.getD modes.dotAll
  unicode := modes.unicode

inductive Expression where
  | empty
  | literal (code : Nat)
  | any
  | characters (items : List ClassItem) (negated : Bool)
  | sequence (first second : Expression)
  | alternative (first second : Expression)
  | group (index : Nat) (body : Expression)
  | modified (modifiers : Modifiers) (body : Expression)
  | reference (index : Nat)
  | lineStart
  | lineEnd
  | wordBoundary (negated : Bool)
  | look (behind negated : Bool) (body : Expression)
  /-- A repetition, with the groups from `firstGroup` up to `endGroup` inside it. -/
  | repetition (bounds : Bounds) (firstGroup endGroup : Nat) (body : Expression)
  deriving DecidableEq

end PatternDialect.Native
