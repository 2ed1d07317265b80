import PatternDialect.Backreference
import PatternDialect.GroupTable
import PatternDialect.Text.Escape

/-! Atoms: the spans of emitted source that a quantifier applies to.

The native engine has neither possessive quantifiers nor atomic groups.  Both
become a capturing lookahead and a reference to it, `(?=(X))\N`, which matches
what `X` matches and can not be backtracked into. -/

namespace PatternDialect

open Character

structure Atom where
  start : Nat
  stop : Nat
  /-- The native index that the first group of the span has or would have. -/
  firstGroup : Nat
  /-- Whether the span is a lookahead and its reference, which have to be wrapped
  before they are repeated. -/
  emulated : Bool
  deriving DecidableEq

namespace Atom

def atomicOpen : Text := ['(', '?', '=', '(']

def atomicClose (slot : Nat) : Text := ')' :: ')' :: Backreference.render slot

def isEscapeBody : Text → Bool
  | [] => false
  | [_] => true
  | 'c' :: rest => rest.length == 1 && rest.all isLetter
  | 'x' :: rest => rest.length == 2 && rest.all isHexDigit
  | 'u' :: '{' :: rest =>
      let digits := rest.dropLast
      rest.getLast? == some '}' && !digits.isEmpty && digits.all isHexDigit
  | 'u' :: rest => rest.length == 4 && rest.all isHexDigit
  | 'p' :: rest => rest.head? == some '{' && rest.getLast? == some '}' && !rest.contains '\\'
  | 'P' :: rest => rest.head? == some '{' && rest.getLast? == some '}' && !rest.contains '\\'
  | c :: rest => isDigit c && rest.all isDigit

/-- How many bytes of the source are searched for an escape sequence at its end. -/
def searchWidth : Nat := 16

/-- The escape sequence at the end of a source, the shortest first.  The source is
given in two parts: what is still to be searched, last character first, and what
has been passed. -/
def trailingEscape? : Text → Text → Option Text
  | [], _ => none
  | c :: before, passed =>
      if searchWidth < Text.size (c :: passed) then none
      else if c == '\\' && !Escape.pending before && isEscapeBody passed then some (c :: passed)
      else trailingEscape? before (c :: passed)

/-- The last unit of a source: an escape sequence, or a single character that is
neither `(` nor `|`. -/
def trailingUnit? (source : Text) : Option Text :=
  match trailingEscape? source.reverse [] with
  | some escape => some escape
  | none =>
      match source.getLast? with
      | some c => if c == '(' || c == '|' then none else some [c]
      | none => none

def trailing? (source : Text) (recorded : Option Atom) (groups : GroupTable) : Option Atom :=
  match recorded.filter (·.stop == source.size) with
  | some atom => some atom
  | none =>
      (trailingUnit? source).map fun unit =>
        { start := source.size - unit.size
          stop := source.size
          firstGroup := groups.size
          emulated := false }

structure Repeated where
  source : Text
  groups : GroupTable
  atom : Atom
  deriving DecidableEq

/-- Repeat the atom at the end of a source possessively.  The group that holds
the repetition comes before the groups of the atom, so their references move up. -/
def makePossessive (source : Text) (groups : GroupTable) (atom : Atom) (amount : Text) :
    Repeated :=
  let slot := groups.clamp atom.firstGroup
  let before := source.takeBytes atom.start
  let body := Backreference.renumber slot 1 (source.dropBytes atom.start)
  let rebuilt := before ++ atomicOpen ++ body ++ amount ++ atomicClose slot
  { source := rebuilt
    groups := groups.insertSuppressed atom.firstGroup
    atom := { start := atom.start, stop := rebuilt.size, firstGroup := slot, emulated := true } }

def wrap (source : Text) (atom : Atom) : Text × Atom :=
  let wrapped :=
    source.takeBytes atom.start ++ ['(', '?', ':'] ++ source.dropBytes atom.start ++ [')']
  (wrapped, { atom with stop := wrapped.size, emulated := false })

end Atom

end PatternDialect
