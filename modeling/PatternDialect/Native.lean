import PatternDialect.Engine
import PatternDialect.Native.Matcher
import PatternDialect.Native.Reader

/-! The engine that patterns are run with. -/

namespace PatternDialect.Native

structure Program where
  expression : Expression
  modes : Modes
  groups : Nat
  deriving DecidableEq

def Modes.ofFlags (flags : Text) : Modes where
  ignoreCase := flags.contains 'i'
  multiline := flags.contains 'm'
  unicode := flags.contains 'u' || flags.contains 'v'

namespace Program

def compile (source flags : Text) : Except Refusal Program := do
  let modes := Modes.ofFlags flags
  let (expression, groups) ← Expression.parse modes.unicode source
  return { expression, modes, groups }

def matchAt (program : Program) (text before after : Text) : Option RawMatch :=
  let start : Cursor := { before, after, captures := List.replicate program.groups none }
  (program.expression.run text program.modes false start some).map fun found =>
    { span := ⟨before.size, found.offset⟩, captures := found.captures }

def search (program : Program) (text : Text) : Text → Text → Option RawMatch
  | before, [] => program.matchAt text before []
  | before, c :: rest =>
      match program.matchAt text before (c :: rest) with
      | some found => some found
      | none => search program text (c :: before) rest

/-- The first match from a byte offset on.  Lookbehind, `^` and `\b` see the text
before it. -/
def findFrom (program : Program) (text : Text) (offset : Nat) : Option RawMatch :=
  program.search text (text.takeBytes offset).reverse (text.dropBytes offset)

end Program

instance engine : Engine where
  Program := Program
  compile source flags := (Program.compile source flags).mapError Refusal.message
  findFrom := Program.findFrom

end PatternDialect.Native
