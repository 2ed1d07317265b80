import PatternDialect.Construct.Description
import PatternDialect.Conversion
import PatternDialect.Pattern
import PatternDialect.Template

/-! Builders: options and a delimiter with which templates are compiled.

A builder is never changed; refining it gives another one. -/

namespace PatternDialect

structure Builder where
  options : Options := {}
  /-- The character behind which a pattern may carry flags of its own. -/
  delimiter : Option Char := none
  deriving DecidableEq

namespace Builder

def withFlags (b : Builder) (flags : Text) : Except Fault Builder :=
  match b.options.refine flags with
  | .ok options => .ok { b with options }
  | .error fault => .error fault

def withNamed (b : Builder) (values : List (Text × Bool)) : Except Fault Builder :=
  match b.options.refineNamed values with
  | .ok options => .ok { b with options }
  | .error fault => .error fault

def set (b : Builder) (flag : Flag) (value : Bool) : Builder :=
  { b with options := b.options.set flag value }

def delimited (b : Builder) (delimiter : Char) : Builder := { b with delimiter := some delimiter }

structure Reading where
  options : Options
  text : Text
  result : Conversion.Result
  deriving DecidableEq

def readWith (b : Builder) (template : Template) (options : Options) : Except Fault Reading :=
  match template.merge options with
  | .ok text =>
      match convert options b.delimiter text with
      | .ok result => .ok { options, text, result }
      | .error fault => .error fault
  | .error fault => .error fault

/-- Read a template.  If its own flags change the options, it is read once more
under the new ones. -/
def read (b : Builder) (template : Template) : Except Fault Reading :=
  match b.readWith template b.options with
  | .ok reading =>
      match reading.result.flags with
      | some flags =>
          match b.options.refine flags with
          | .ok refined =>
              if refined = b.options then .ok reading else b.readWith template refined
          | .error fault => .error fault
      | none => .ok reading
  | .error fault => .error fault

/-- The text of a reading without the delimiter and the flags behind it. -/
def Reading.body (reading : Reading) (delimiter : Option Char) : Text :=
  match delimiter, reading.result.flags with
  | some _, some flags => reading.text.take (reading.text.length - flags.length - 1)
  | _, _ => reading.text

section

variable [Engine]

def Reading.compile (reading : Reading) (delimiter : Option Char) : Except Fault Pattern :=
  match Engine.prepare reading.result.source reading.options.nativeFlags with
  | .ok program =>
      .ok
        { program
          source := reading.result.source
          flags := reading.options.nativeFlags
          authoredSource := reading.body delimiter
          authoredFlags := reading.options.allFlags
          groups := reading.result.groups }
  | .error fault => .error fault

def build (b : Builder) (template : Template) : Except Fault Pattern :=
  match b.read template with
  | .ok reading => reading.compile b.delimiter
  | .error fault => .error fault

def compile (b : Builder) (text : Text) : Except Fault Pattern := b.build { head := text }

end

end Builder

inductive Event where
  | compiling (text flags : Text)
  | met (construct : Construct) (position : Nat)
  | rescanning (flags : Text)
  | emitted (source flags : Text) (groups : Nat)
  deriving DecidableEq

namespace Event

/-- Whether the event is one of many and told only on demand. -/
def isDetail : Event → Bool
  | met .. => true
  | _ => false

def message : Event → String
  | compiling text flags =>
      "compiling " ++ String.ofList (Quoted.text text) ++ " with flags " ++
        String.ofList (Quoted.text flags)
  | met construct position => construct.description ++ " at " ++ toString position
  | rescanning flags =>
      "inline flags " ++ String.ofList (Quoted.text flags) ++ " changed the options, rescanning"
  | emitted source flags groups =>
      "emitted " ++ String.ofList (Quoted.text source) ++ " with flags " ++
        String.ofList (Quoted.text flags) ++ ", " ++ toString groups ++ " groups"

def conversion (options : Options) (delimiter : Option Char) (text : Text) : List Event :=
  (constructsMet options delimiter text).map fun (construct, position) => .met construct position

end Event

namespace Builder

def readEvents (b : Builder) (template : Template) (options : Options) : List Event :=
  match template.merge options with
  | .ok text => Event.conversion options b.delimiter text
  | .error _ => []

def rereadEvents (b : Builder) (template : Template) (flags : Text) : List Event :=
  match b.options.refine flags with
  | .ok refined =>
      if refined = b.options then []
      else .rescanning flags :: b.readEvents template refined
  | .error _ => []

def events (b : Builder) (template : Template) : List Event :=
  let opening :=
    match template.merge b.options with
    | .ok text => [.compiling text b.options.allFlags]
    | .error _ => []
  let again :=
    match b.readWith template b.options with
    | .ok reading => (reading.result.flags.map (b.rereadEvents template)).getD []
    | .error _ => []
  let closing :=
    match b.read template with
    | .ok reading =>
        [.emitted reading.result.source reading.options.nativeFlags
          (reading.result.groups.size - 1)]
    | .error _ => []
  opening ++ b.readEvents template b.options ++ again ++ closing

end Builder

end PatternDialect
