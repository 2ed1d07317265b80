import PatternDialect.Builder
import PatternDialect.Command.Invocation
import PatternDialect.Json.Reader
import PatternDialect.Native

/-! The command line: what each task prints, and the code it exits with. -/

namespace PatternDialect.Command

structure Outcome where
  exit : Nat
  out : String
  err : String
  deriving DecidableEq

inductive Refusal where
  | json (message : String)
  | fault (fault : Fault)
  deriving DecidableEq

def Refusal.message : Refusal → String
  | json message => message
  | fault cause => cause.report

/-- The values of a request; the first text that is not JSON is refused. -/
def readValues : List Text → Except Refusal (List Substitution)
  | [] => .ok []
  | text :: rest => do
      match Json.parse text with
      | .error fault => .error (.json (fault.message text))
      | .ok value => return .ofJson value :: (← readValues rest)

def Request.prepare (request : Request) : Except Refusal (Builder × Template) := do
  let values ← readValues request.values
  match Template.parse request.pattern values with
  | .error fault => .error (.fault fault)
  | .ok template =>
      match Builder.withFlags {} request.flags with
      | .error fault => .error (.fault fault)
      | .ok builder => return ({ builder with delimiter := request.delimiter }, template)

def Request.compile (request : Request) : List Event × Except Refusal Pattern :=
  match request.prepare with
  | .error refusal => ([], .error refusal)
  | .ok (builder, template) =>
      match builder.build template with
      | .ok pattern => (builder.events template, .ok pattern)
      | .error fault => (builder.events template, .error (.fault fault))

def logLine (quiet : Bool) (verbosity : Nat) (event : Event) : String :=
  if quiet || verbosity < 3 then ""
  else if event.isDetail then
    if verbosity < 4 then "" else "TRACE " ++ event.message ++ "\n"
  else "DEBUG " ++ event.message ++ "\n"

def lines (content : List String) : String := String.join (content.map (· ++ "\n"))

def spanText (span : Span) : String := toString span.start ++ ".." ++ toString span.stop

/-- What a match captured, group by group and then by name in order of position. -/
def captureLines (m : Match) : List String :=
  let groups := (m.texts.zipIdx.drop 1).map fun (text, index) =>
    "  Group " ++ toString index ++ ": " ++
      match text with
      | some text => String.ofList text
      | none => "(unmatched)"
  let named := (m.named.mergeSort fun first second => first.2.start ≤ second.2.start).map
    fun (name, span) =>
      "  " ++ String.ofList name ++ ": " ++ spanText span ++ " = " ++
        String.ofList (span.textIn m.haystack)
  groups ++ named

def testLines (pattern : Pattern) (input : Text) (verbose : Bool) : List String :=
  match pattern.find? input with
  | some m =>
      ["✓ Match found!",
        "  Position: " ++ spanText m.span,
        "  Match:    " ++ String.ofList m.text] ++
        if verbose && 1 < m.groups.length then "" :: "Capture groups:" :: captureLines m else []
  | none => ["✗ No match"]

def slotText : Slot → String
  | .anonymous => "anonymous"
  | .named name => "named " ++ String.ofList name
  | .suppressed => "synthetic (hidden)"

def convertLines (pattern : Pattern) (details : Bool) : List String :=
  ["Output:", "  " ++ String.ofList pattern.display] ++
    if details then
      ["",
        "Details:",
        "  Source:         " ++ String.ofList pattern.source,
        "  Flags:          " ++ String.ofList pattern.flags,
        "  Original flags: " ++ String.ofList pattern.authoredFlags,
        "  Groups:"] ++
        (pattern.groups.slots.zipIdx.drop 1).map fun (slot, index) =>
          "    \\" ++ toString index ++ ": " ++ slotText slot
    else []

def findLines (pattern : Pattern) (input : Text) : List String :=
  match pattern.allMatches input with
  | [] => ["No matches found"]
  | found =>
      ["Found " ++ toString found.length ++ " match(es)", ""] ++
        found.zipIdx.map fun (m, index) =>
          "  [" ++ toString (index + 1) ++ "] " ++ spanText m.span ++ " = " ++
            String.ofList m.text

namespace Task

def request : Task → Request
  | test request .. | convert request _ | find request _ | check request _ => request

def heading : Task → List String
  | test request input _ =>
      ["Testing pattern...",
        "  Pattern: " ++ String.ofList request.pattern,
        "  Input:   " ++ String.ofList input,
        ""]
  | convert request _ =>
      ["Converting pattern...", "  Input:  " ++ String.ofList request.pattern, ""]
  | find .. | check .. => []

def report (pattern : Pattern) : Task → List String × Nat
  | test _ input verbose => (testLines pattern input verbose, 0)
  | convert _ details => (convertLines pattern details, 0)
  | find _ input => (findLines pattern input, 0)
  | check _ input => if pattern.isMatch input then (["true"], 0) else (["false"], 1)

end Task

namespace Invocation

def run (invocation : Invocation) : Outcome :=
  let (events, result) := invocation.task.request.compile
  let log := String.join (events.map (logLine invocation.quiet invocation.verbosity))
  match result with
  | .ok pattern =>
      let (content, exit) := invocation.task.report pattern
      { exit, out := lines (invocation.task.heading ++ content), err := log }
  | .error refusal =>
      { exit := 1
        out := lines invocation.task.heading
        err := log ++ "Error: " ++ refusal.message ++ "\n" }

end Invocation

def respond (arguments : List Text) : Outcome :=
  match read arguments with
  | .run invocation => invocation.run
  | .version => { exit := 0, out := "regx 0.1.0\n", err := "" }
  | .misuse => { exit := 2, out := "", err := "error: invalid arguments\n" }

end PatternDialect.Command
