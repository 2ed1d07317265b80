import PatternDialect.Fault
import PatternDialect.Text.Span

/-! The native engine, as the dialect meets it.

An engine compiles native source, and its programs find matches.  Nothing is known of
either beyond that the answer depends on what is asked. -/

namespace PatternDialect

namespace Native

structure RawMatch where
  span : Span
  captures : List (Option Span)
  deriving DecidableEq

/-- Letters that are flags but none of the engine's. -/
def isIdleFlag (flag : Char) : Bool := flag == 'g' || flag == 'y' || flag == 'd'

def isModeFlag (flag : Char) : Bool := flag == 'i' || flag == 'm' || flag == 'u' || flag == 'v'

end Native

class Engine where
  Program : Type
  compile (source flags : Text) : Except String Program
  /-- The first match that starts at a byte offset or behind it. -/
  findFrom (program : Program) (haystack : Text) (offset : Nat) : Option Native.RawMatch

/-- The program of a source.  The flags are checked first. -/
def Engine.prepare [Engine] (source flags : Text) : Except Fault Engine.Program :=
  match flags.find? fun flag => !Native.isIdleFlag flag && !Native.isModeFlag flag with
  | some flag => .error (.native (.invalidFlag flag flags))
  | none =>
      match Engine.compile source (flags.filter Native.isModeFlag) with
      | .ok program => .ok program
      | .error message => .error (.native (.refused message))

end PatternDialect
