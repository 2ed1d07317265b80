import PatternDialect.Text.Basic

/-! Switches of a command line, and reading arguments against a list of them. -/

namespace PatternDialect.Command

inductive Takes where
  | nothing
  | nothingRepeated
  /-- Nothing, and nothing after it is read. -/
  | halting
  | value
  | valueRepeated
  /-- A value that must be attached with `=`; without one it is the given text. -/
  | attached (default : Text)
  deriving DecidableEq

structure Switch where
  long : Text
  short : Option Char := none
  takes : Takes
  deriving DecidableEq

namespace Switch

def isRepeatable (switch : Switch) : Bool :=
  switch.takes == .nothingRepeated || switch.takes == .valueRepeated

end Switch

/-- What was given: switches by their long name with their values, in order, and
the arguments that are no switches. -/
structure Given where
  switches : List (Text × Text) := []
  positionals : List Text := []
  deriving DecidableEq

namespace Given

def has (given : Given) (name : Text) : Bool := given.switches.any (·.1 == name)

def count (given : Given) (name : Text) : Nat := given.switches.countP (·.1 == name)

def values (given : Given) (name : Text) : List Text :=
  (given.switches.filter (·.1 == name)).map (·.2)

def value? (given : Given) (name : Text) : Option Text := given.switches.lookup name

def add? (given : Given) (switch : Switch) (value : Text) : Option Given :=
  if given.has switch.long && !switch.isRepeatable then none
  else some { given with switches := given.switches ++ [(switch.long, value)] }

def addPositional (given : Given) (argument : Text) : Given :=
  { given with positionals := given.positionals ++ [argument] }

end Given

def looksLikeSwitch : Text → Bool
  | '-' :: _ :: _ => true
  | _ => false

def takeValue? (given : Given) (switch : Switch) : List Text → Option (Given × List Text)
  | argument :: rest =>
      if looksLikeSwitch argument then none
      else (given.add? switch argument).map fun given => (given, rest)
  | [] => none

def readLong? (switches : List Switch) (given : Given) (text : Text) (rest : List Text) :
    Option (Given × List Text) := do
  let name := text.takeWhile (· != '=')
  let attached := if name.length < text.length then some (text.drop (name.length + 1)) else none
  let switch ← switches.find? (·.long == name)
  match switch.takes, attached with
  | .nothing, none | .nothingRepeated, none | .halting, none =>
      return (← given.add? switch [], rest)
  | .nothing, some _ | .nothingRepeated, some _ | .halting, some _ => none
  | .value, some value | .valueRepeated, some value | .attached _, some value =>
      return (← given.add? switch value, rest)
  | .value, none | .valueRepeated, none => takeValue? given switch rest
  | .attached default, none => return (← given.add? switch default, rest)

/-- Read short switches that share one dash.  The first that takes a value takes
the letters after it, or else the next argument. -/
def readShort? (switches : List Switch) (rest : List Text) :
    Given → Text → Option (Given × List Text)
  | given, [] => some (given, rest)
  | given, letter :: letters => do
      let switch ← switches.find? (·.short == some letter)
      match switch.takes with
      | .nothing | .nothingRepeated => readShort? switches rest (← given.add? switch []) letters
      | .halting => return (← given.add? switch [], rest)
      | _ =>
          match letters with
          | [] => takeValue? given switch rest
          | '=' :: value => return (← given.add? switch value, rest)
          | value => return (← given.add? switch value, rest)

def readSwitch? (switches : List Switch) (given : Given) (argument : Text) (rest : List Text) :
    Option (Given × List Text) :=
  match argument with
  | '-' :: '-' :: name => readLong? switches given name rest
  | '-' :: letters => readShort? switches rest given letters
  | _ => none

/-- Read arguments to the end.  Two dashes end the switches. -/
def readAll? (switches : List Switch) : Nat → Given → List Text → Option Given
  | _, given, [] => some given
  | 0, _, _ :: _ => none
  | bound + 1, given, argument :: rest =>
      if argument = ['-', '-'] then some (rest.foldl Given.addPositional given)
      else if looksLikeSwitch argument then
        match readSwitch? switches given argument rest with
        | some (given, rest) => readAll? switches bound given rest
        | none => none
      else readAll? switches bound (given.addPositional argument) rest

end PatternDialect.Command
