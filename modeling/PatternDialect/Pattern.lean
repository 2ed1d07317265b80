import PatternDialect.Engine
import PatternDialect.GroupTable
import PatternDialect.Options
import PatternDialect.Text.Quoted

/-! Compiled patterns and their matches. -/

namespace PatternDialect

structure Match where
  haystack : Text
  /-- The whole match, then the visible groups in order. -/
  groups : List (Option Span)
  named : List (Text × Span)
  deriving DecidableEq

namespace Match

def span (m : Match) : Span := (m.groups.head?.join).getD ⟨0, 0⟩

def start (m : Match) : Nat := m.span.start

def stop (m : Match) : Nat := m.span.stop

def text (m : Match) : Text := m.span.textIn m.haystack

def group? (m : Match) (index : Nat) : Option Span := (m.groups[index]?).join

def get? (m : Match) (index : Nat) : Option Text := (m.group? index).map (·.textIn m.haystack)

def getNamed? (m : Match) (name : Text) : Option Text :=
  (m.named.lookup name).map (·.textIn m.haystack)

def texts (m : Match) : List (Option Text) :=
  m.groups.map fun span => span.map (·.textIn m.haystack)

def visible : List Slot → List (Option Span) → List (Option Span)
  | slot :: slots, span :: spans =>
      if slot.isVisible then span :: visible slots spans else visible slots spans
  | _, _ => []

def namedSpans : List Slot → List (Option Span) → List (Text × Span)
  | slot :: slots, span :: spans =>
      match slot.name?, span with
      | some name, some span => (name, span) :: namedSpans slots spans
      | _, _ => namedSpans slots spans
  | _, _ => []

def arranged (groups : GroupTable) (haystack : Text) (raw : Native.RawMatch) : Match where
  haystack
  groups := some raw.span :: visible groups.declared raw.captures
  named := namedSpans groups.declared raw.captures

def unarranged (haystack : Text) (raw : Native.RawMatch) : Match where
  haystack
  groups := some raw.span :: raw.captures
  named := []

/-- The match the author sees.  It is rearranged only where the table asks for it. -/
def ofRaw (groups : GroupTable) (haystack : Text) (raw : Native.RawMatch) : Match :=
  if groups.needsAugmentation then arranged groups haystack raw else unarranged haystack raw

end Match

structure Pattern [Engine] where
  program : Engine.Program
  source : Text
  flags : Text
  /-- The text it was compiled from, values included and flags left out. -/
  authoredSource : Text
  authoredFlags : Text
  groups : GroupTable

namespace Pattern

variable [Engine]

/-- Compile native source without the dialect.  No group is known by the table. -/
def native (source flags : Text) : Except Fault Pattern :=
  match Engine.prepare source flags with
  | .ok program =>
      .ok { program, source, flags, authoredSource := source, authoredFlags := flags, groups := {} }
  | .error fault => .error fault

def isGlobal (p : Pattern) : Bool := p.flags.contains 'g'

def isSticky (p : Pattern) : Bool := p.flags.contains 'y'

def isAugmented (p : Pattern) : Bool := p.groups.needsAugmentation

/-- The first match from a byte offset on; a sticky pattern matches at the offset
or not at all.  There is none from within a character. -/
def execAt (p : Pattern) (haystack : Text) (start : Nat) : Option Match :=
  if !haystack.isBoundary start then none
  else
    match Engine.findFrom p.program haystack start with
    | some raw =>
        if p.isSticky && raw.span.start != start then none
        else some (.ofRaw p.groups haystack raw)
    | none => none

def find? (p : Pattern) (haystack : Text) : Option Match := p.execAt haystack 0

def isMatch (p : Pattern) (haystack : Text) : Bool := (p.find? haystack).isSome

inductive Iteration where
  | resumeAt (offset : Nat)
  | ended
  deriving DecidableEq

/-- Where an iteration resumes after a match.  An empty match is followed by one
character that is skipped, or by the end. -/
def resume (haystack : Text) (m : Match) : Iteration :=
  if m.start = m.stop then
    match haystack.dropBytes m.stop with
    | c :: _ => .resumeAt (m.stop + c.utf8Size)
    | [] => .ended
  else .resumeAt m.stop

def nextMatch (p : Pattern) (haystack : Text) : Iteration → Option Match × Iteration
  | .ended => (none, .ended)
  | .resumeAt offset =>
      match p.execAt haystack offset with
      | some m => (some m, resume haystack m)
      | none => (none, .ended)

def collect (p : Pattern) (haystack : Text) : Nat → Iteration → List Match × Iteration
  | 0, iteration => ([], iteration)
  | bound + 1, iteration =>
      match p.nextMatch haystack iteration with
      | (some m, next) =>
          let (rest, last) := collect p haystack bound next
          (m :: rest, last)
      | (none, next) => ([], next)

/-- All matches in order, and how the iteration ended.  There is at most one more
match than the text has characters. -/
def iterate (p : Pattern) (haystack : Text) : List Match × Iteration :=
  p.collect haystack (haystack.length + 2) (.resumeAt 0)

def allMatches (p : Pattern) (haystack : Text) : List Match := (p.iterate haystack).1

/-- All matches of a global pattern, the first match of any other. -/
def findAll (p : Pattern) (haystack : Text) : List Match :=
  if p.isGlobal then p.allMatches haystack else (p.find? haystack).toList

def display (p : Pattern) : Text :=
  '/' :: (if p.source.isEmpty then ['(', '?', ':', ')'] else p.source) ++ '/' :: p.flags

end Pattern

def Slot.inspect : Slot → Text
  | .anonymous => "Anonymous".toList
  | .named name => "Named(".toList ++ Quoted.text name ++ [')']
  | .suppressed => "Suppressed".toList

def Pattern.inspect [Engine] (p : Pattern) : Text :=
  let slots := [',', ' '].intercalate (p.groups.slots.map Slot.inspect)
  "Pattern \x7b source: ".toList ++ Quoted.text p.source ++ ", flags: ".toList ++
    Quoted.text p.flags ++ ", groups: GroupTable \x7b slots: [".toList ++ slots ++
    "] \x7d \x7d".toList

end PatternDialect
