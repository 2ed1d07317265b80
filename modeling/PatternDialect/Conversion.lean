import PatternDialect.Conversion.Step

/-! Conversion of a text of the dialect to native source. -/

namespace PatternDialect

namespace Conversion

structure Result where
  source : Text
  groups : GroupTable
  flags : Option Text
  deriving DecidableEq

/-- Step until the text is used up.  Each step reads a character at least, so the
number of characters is bound enough. -/
def run (options : Options) (delimiter : Option Char) : Nat → State → Except Fault State
  | 0, s => .ok s
  | bound + 1, s =>
      if s.rest.isEmpty then .ok s
      else
        match s.step options delimiter with
        | .ok next => run options delimiter bound next
        | .error fault => .error fault

def visited (options : Options) (delimiter : Option Char) : Nat → State → List State
  | 0, _ => []
  | bound + 1, s =>
      if s.rest.isEmpty then []
      else
        match s.step options delimiter with
        | .ok next => s :: visited options delimiter bound next
        | .error _ => [s]

def finish (s : State) : Except Fault Result :=
  if s.inClass then .error (.native .unbalancedBracket)
  else if s.frames.any State.isAtomic then .error .unterminatedAtomicGroup
  else .ok { source := s.out, groups := s.groups, flags := s.flags }

end Conversion

open Conversion

/-- Convert a text.  With a delimiter, its first unescaped occurrence outside
classes ends the pattern and the rest are flags. -/
def convert (options : Options) (delimiter : Option Char) (text : Text) :
    Except Fault Conversion.Result :=
  match run options delimiter text.length (.start text) with
  | .ok s => finish s
  | .error fault => .error fault

def constructsMet (options : Options) (delimiter : Option Char) (text : Text) :
    List (Construct × Nat) :=
  (visited options delimiter text.length (.start text)).filterMap fun s =>
    (s.next? delimiter).map fun construct => (construct, s.position)

end PatternDialect
