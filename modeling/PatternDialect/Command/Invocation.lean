import PatternDialect.Command.Switch

/-! Invocations: what a command line asks for. -/

namespace PatternDialect.Command

structure Request where
  pattern : Text
  flags : Text
  delimiter : Option Char
  values : List Text
  deriving DecidableEq

inductive Task where
  | test (request : Request) (input : Text) (verbose : Bool)
  | convert (request : Request) (details : Bool)
  | find (request : Request) (input : Text)
  | check (request : Request) (input : Text)
  deriving DecidableEq

structure Invocation where
  quiet : Bool
  verbosity : Nat
  task : Task
  deriving DecidableEq

inductive Reading where
  | run (invocation : Invocation)
  | version
  | misuse
  deriving DecidableEq

def globalSwitches : List Switch :=
  [ { long := "quiet".toList, short := some 'q', takes := .nothing },
    { long := "verbose".toList, short := some 'v', takes := .nothingRepeated },
    { long := "ts".toList, short := some 't', takes := .nothing },
    { long := "version".toList, short := some 'V', takes := .halting } ]

def requestSwitches : List Switch :=
  [ { long := "flags".toList, short := some 'f', takes := .value },
    { long := "delimited".toList, takes := .attached ['/'] },
    { long := "sub".toList, short := some 's', takes := .valueRepeated } ]

def verboseSwitch : Switch := { long := "verbose".toList, short := some 'v', takes := .nothing }

def debugSwitch : Switch := { long := "debug".toList, short := some 'd', takes := .nothing }

/-- The delimiter that was given, which has exactly one character. -/
def delimiter? (given : Given) : Option (Option Char) :=
  match given.value? "delimited".toList with
  | none => some none
  | some [c] => some (some c)
  | some _ => none

def request? (given : Given) (pattern : Text) : Option Request := do
  return {
    pattern
    flags := (given.value? "flags".toList).getD []
    delimiter := ← delimiter? given
    values := given.values "sub".toList }

def readTask? (name : Text) (arguments : List Text) : Option Task := do
  let read (switches : List Switch) : Option Given :=
    readAll? (requestSwitches ++ switches) arguments.length {} arguments
  if name = "convert".toList then
    let given ← read [debugSwitch]
    match given.positionals with
    | [pattern] => return .convert (← request? given pattern) (given.has debugSwitch.long)
    | _ => none
  else if name = "test".toList then
    let given ← read [verboseSwitch]
    match given.positionals with
    | [pattern, input] =>
        return .test (← request? given pattern) input (given.has verboseSwitch.long)
    | _ => none
  else if name = "find".toList then
    let given ← read []
    match given.positionals with
    | [pattern, input] => return .find (← request? given pattern) input
    | _ => none
  else if name = "match".toList then
    let given ← read []
    match given.positionals with
    | [pattern, input] => return .check (← request? given pattern) input
    | _ => none
  else none

/-- Read a whole command line.  The version is told as soon as it is asked for. -/
def readFrom : Nat → Given → List Text → Reading
  | 0, _, _ => .misuse
  | _, _, [] => .misuse
  | bound + 1, given, argument :: rest =>
      if argument = ['-', '-'] then .misuse
      else if looksLikeSwitch argument then
        match readSwitch? globalSwitches given argument rest with
        | some (given, rest) =>
            if given.has "version".toList then .version else readFrom bound given rest
        | none => .misuse
      else
        match readTask? argument rest with
        | some task =>
            .run
              { quiet := given.has "quiet".toList
                verbosity := given.count "verbose".toList
                task }
        | none => .misuse

def read (arguments : List Text) : Reading := readFrom arguments.length {} arguments

end PatternDialect.Command
