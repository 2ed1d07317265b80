import PatternDialect.Json.Shortest
import PatternDialect.Options
import PatternDialect.Text.Escape

/-! Values that are put into a pattern, and the pattern text they become. -/

namespace PatternDialect

inductive Substitution where
  | text (content : Text)
  /-- Native source, taken as it is. -/
  | source (content : Text)
  | list (items : List Substitution)
  /-- Alternatives, each captured under a name. -/
  | map (entries : List (Text × Substitution))
  | other (kind : Text)

namespace Substitution

def alternatives : List Text → Text
  | [] => []
  | [part] => part
  | part :: rest => part ++ '|' :: alternatives rest

def alternation (parts : List Text) : Text := ['(', '?', ':'] ++ alternatives parts ++ [')']

def namedGroup (name body : Text) : Text := ['(', '?', '<'] ++ name ++ '>' :: body ++ [')']

mutual

/-- The pattern text of a value.  The position is that of the outermost value in
its template. -/
def render (position : Nat) (options : Options) : Substitution → Except Fault Text
  | .text content => .ok (Escape.literal options.unicode content)
  | .source content => .ok content
  | .list items =>
      match renderItems position options items with
      | .ok parts => .ok (alternation parts)
      | .error fault => .error fault
  | .map entries =>
      match renderEntries position options entries with
      | .ok parts => .ok (alternation parts)
      | .error fault => .error fault
  | .other kind => .error (.invalidSubstitution position kind)

def renderItems (position : Nat) (options : Options) :
    List Substitution → Except Fault (List Text)
  | [] => .ok []
  | item :: rest =>
      match render position options item with
      | .ok part =>
          match renderItems position options rest with
          | .ok parts => .ok (part :: parts)
          | .error fault => .error fault
      | .error fault => .error fault

def renderEntries (position : Nat) (options : Options) :
    List (Text × Substitution) → Except Fault (List Text)
  | [] => .ok []
  | (name, value) :: rest =>
      if !Character.isIdentifier name then .error (.invalidGroupName name)
      else
        match render position options value with
        | .ok body =>
            match renderEntries position options rest with
            | .ok parts => .ok (namedGroup name body :: parts)
            | .error fault => .error fault
        | .error fault => .error fault

end

mutual

/-- What a JSON value stands for.  Only strings, lists and objects can be put into
a pattern. -/
def ofJson : Json.Value → Substitution
  | .string content => .text content
  | .array items => .list (ofJsonItems items)
  | .object members => .map (ofJsonMembers members)
  | .null => .other "null".toList
  | .bool value => .other ("boolean (" ++ toString value ++ ")").toList
  | .number value => .other ("number (".toList ++ value.text ++ [')'])

def ofJsonItems : List Json.Value → List Substitution
  | [] => []
  | item :: rest => ofJson item :: ofJsonItems rest

def ofJsonMembers : List (Text × Json.Value) → List (Text × Substitution)
  | [] => []
  | (name, value) :: rest => (name, ofJson value) :: ofJsonMembers rest

end

end Substitution

end PatternDialect
