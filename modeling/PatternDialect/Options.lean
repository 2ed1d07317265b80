import PatternDialect.Fault
import PatternDialect.Text.Character

/-! Flags and option snapshots.

A snapshot says which of the nine flags are on and keeps, in the order in which
they were first named, the letters it does not know. -/

namespace PatternDialect

inductive Flag where
  | global
  | ignoreCase
  | multiline
  | unicode
  | sticky
  | noCapture
  | singleLine
  | ungreedy
  | extra
  deriving DecidableEq

namespace Flag

def natives : List Flag := [global, ignoreCase, multiline, unicode, sticky]

def extended : List Flag := [noCapture, singleLine, ungreedy, extra]

def all : List Flag := natives ++ extended

def letter : Flag → Char
  | global => 'g'
  | ignoreCase => 'i'
  | multiline => 'm'
  | unicode => 'u'
  | sticky => 'y'
  | noCapture => 'n'
  | singleLine => 's'
  | ungreedy => 'U'
  | extra => 'X'

def name : Flag → String
  | global => "global"
  | ignoreCase => "ignoreCase"
  | multiline => "multiline"
  | unicode => "unicode"
  | sticky => "sticky"
  | noCapture => "noCapture"
  | singleLine => "singleLine"
  | ungreedy => "ungreedy"
  | extra => "extra"

def ofLetter? (c : Char) : Option Flag := all.find? (·.letter == c)

def ofName? (name : Text) : Option Flag := all.find? (·.name.toList == name)

def isNative (flag : Flag) : Bool := natives.contains flag

end Flag

structure Options where
  global : Bool := false
  ignoreCase : Bool := false
  multiline : Bool := false
  unicode : Bool := false
  sticky : Bool := false
  noCapture : Bool := false
  singleLine : Bool := false
  ungreedy : Bool := false
  extra : Bool := false
  /-- Letters that name no flag, in the order they were first given. -/
  others : Text := []
  deriving DecidableEq

namespace Options

def get (options : Options) : Flag → Bool
  | .global => options.global
  | .ignoreCase => options.ignoreCase
  | .multiline => options.multiline
  | .unicode => options.unicode
  | .sticky => options.sticky
  | .noCapture => options.noCapture
  | .singleLine => options.singleLine
  | .ungreedy => options.ungreedy
  | .extra => options.extra

def set (options : Options) (flag : Flag) (value : Bool) : Options :=
  match flag with
  | .global => { options with global := value }
  | .ignoreCase => { options with ignoreCase := value }
  | .multiline => { options with multiline := value }
  | .unicode => { options with unicode := value }
  | .sticky => { options with sticky := value }
  | .noCapture => { options with noCapture := value }
  | .singleLine => { options with singleLine := value }
  | .ungreedy => { options with ungreedy := value }
  | .extra => { options with extra := value }

/-- Turn a letter on or off, whether or not it names a flag. -/
def mark (options : Options) (letter : Char) (value : Bool) : Options :=
  match Flag.ofLetter? letter with
  | some flag => options.set flag value
  | none =>
      if value then
        if options.others.contains letter then options
        else { options with others := options.others ++ [letter] }
      else { options with others := options.others.filter (· != letter) }

/-- Read a flag string: each letter is turned on, or off after a `-`.  The
characters that are neither are left over. -/
def absorb : Options → Text → Options × Text
  | options, [] => (options, [])
  | options, '-' :: letter :: rest =>
      if Character.isLetter letter then absorb (options.mark letter false) rest
      else
        let (refined, left) := absorb options (letter :: rest)
        (refined, '-' :: left)
  | options, c :: rest =>
      if Character.isLetter c then absorb (options.mark c true) rest
      else
        let (refined, left) := absorb options rest
        (refined, c :: left)

/-- Refine by a flag string such as `g-im`; only white space may be left over. -/
def refine (options : Options) (flags : Text) : Except Fault Options :=
  let (refined, left) := options.absorb flags
  if left.all Character.isWhiteSpace then .ok refined else .error (.unknownFlags left)

def refineNamed : Options → List (Text × Bool) → Except Fault Options
  | options, [] => .ok options
  | options, (name, value) :: rest =>
      match Flag.ofName? name with
      | some flag => refineNamed (options.set flag value) rest
      | none => .error (.unknownOption name)

def active (options : Options) : List Flag := Flag.all.filter options.get

def nativeFlags (options : Options) : Text :=
  (Flag.natives.filter options.get).map Flag.letter ++ options.others

def allFlags (options : Options) : Text :=
  options.nativeFlags ++ (Flag.extended.filter options.get).map Flag.letter

end Options

end PatternDialect
