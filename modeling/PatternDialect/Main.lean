import PatternDialect.Command

open PatternDialect

def main (arguments : List String) : IO UInt32 := do
  let outcome := Command.respond (arguments.map String.toList)
  IO.print outcome.out
  IO.eprint outcome.err
  return outcome.exit.toUInt32
