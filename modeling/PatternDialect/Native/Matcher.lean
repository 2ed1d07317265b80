import PatternDialect.Native.Expression
import PatternDialect.Text.Span

/-! Matching by backtracking.

An expression is matched at a cursor and hands every way to match it, in order, to
a continuation until one succeeds.  Inside a lookbehind the text is read backwards. -/

namespace PatternDialect.Native

open Character

structure Cursor where
  /-- The text before the point, last character first. -/
  before : Text
  after : Text
  captures : List (Option Span) := []
  deriving DecidableEq

namespace Cursor

def offset (s : Cursor) : Nat := s.before.size

def read? (s : Cursor) (backward : Bool) : Option (Char × Cursor) :=
  if backward then
    match s.before with
    | c :: rest => some (c, { s with before := rest, after := c :: s.after })
    | [] => none
  else
    match s.after with
    | c :: rest => some (c, { s with before := c :: s.before, after := rest })
    | [] => none

def capture? (s : Cursor) (index : Nat) : Option Span :=
  if index = 0 then none else (s.captures[index - 1]?).join

def capture (s : Cursor) (index : Nat) (span : Span) : Cursor :=
  { s with captures := s.captures.set (index - 1) (some span) }

def forget (s : Cursor) (first stop : Nat) : Cursor :=
  { s with
    captures := s.captures.zipIdx.map fun (span, index) =>
      if first ≤ index + 1 && index + 1 < stop then none else span }

end Cursor

abbrev Continuation := Cursor → Option Cursor

/-- The other case of an ASCII letter; no other character has one here. -/
def swapCase (c : Char) : Char :=
  if 'a' ≤ c && c ≤ 'z' then Char.ofNat (c.toNat - 32)
  else if 'A' ≤ c && c ≤ 'Z' then Char.ofNat (c.toNat + 32)
  else c

namespace Modes

def matchesCode (modes : Modes) (code : Nat) (c : Char) : Bool :=
  c.toNat == code || (modes.ignoreCase && (swapCase c).toNat == code)

def matchesItem (modes : Modes) (item : ClassItem) (c : Char) : Bool :=
  item.contains c || (modes.ignoreCase && item.contains (swapCase c))

end Modes

def matchText (modes : Modes) (backward : Bool) : Text → Cursor → Option Cursor
  | [], s => some s
  | c :: rest, s =>
      match s.read? backward with
      | some (found, next) =>
          if modes.matchesCode c.toNat found then matchText modes backward rest next else none
      | none => none

def matchOne (backward : Bool) (test : Char → Bool) (s : Cursor) (k : Continuation) :
    Option Cursor :=
  match s.read? backward with
  | some (c, next) => if test c then k next else none
  | none => none

/-- Repeat a body.  An iteration beyond the least number that matches nothing is
given up, so after the least number each iteration reads a character. -/
def matchRepeated (body : Cursor → Continuation → Option Cursor) (reset : Cursor → Cursor)
    (greedy : Bool) : Nat → Nat → Option Nat → Cursor → Continuation → Option Cursor
  | 0, _, _, _, _ => none
  | bound + 1, least, most, s, k =>
      if most = some 0 then k s
      else
        let again (_ : Unit) : Option Cursor :=
          body (reset s) fun next =>
            if least = 0 && next.offset = s.offset then none
            else matchRepeated body reset greedy bound (least - 1) (most.map (· - 1)) next k
        if least ≠ 0 then again ()
        else if greedy then
          match again () with
          | some found => some found
          | none => k s
        else
          match k s with
          | some found => some found
          | none => again ()

def atLineStart (modes : Modes) (s : Cursor) : Bool :=
  match s.before with
  | [] => true
  | c :: _ => modes.multiline && isLineEnd c

def atLineEnd (modes : Modes) (s : Cursor) : Bool :=
  match s.after with
  | [] => true
  | c :: _ => modes.multiline && isLineEnd c

def atWordBoundary (s : Cursor) : Bool :=
  s.before.head?.any isWord != s.after.head?.any isWord

namespace Expression

def run (text : Text) :
    Expression → Modes → Bool → Cursor → Continuation → Option Cursor
  | .empty, _, _, s, k => k s
  | .literal code, modes, backward, s, k => matchOne backward (modes.matchesCode code) s k
  | .any, modes, backward, s, k => matchOne backward (fun c => modes.dotAll || !isLineEnd c) s k
  | .characters items negated, modes, backward, s, k =>
      matchOne backward (fun c => items.any (modes.matchesItem · c) != negated) s k
  | .sequence first second, modes, backward, s, k =>
      if backward then
        second.run text modes backward s fun next => first.run text modes backward next k
      else first.run text modes backward s fun next => second.run text modes backward next k
  | .alternative first second, modes, backward, s, k =>
      match first.run text modes backward s k with
      | some found => some found
      | none => second.run text modes backward s k
  | .group index body, modes, backward, s, k =>
      body.run text modes backward s fun next =>
        k (next.capture index ⟨min s.offset next.offset, max s.offset next.offset⟩)
  | .modified modifiers body, modes, backward, s, k =>
      body.run text (modes.within modifiers) backward s k
  | .reference index, modes, backward, s, k =>
      match s.capture? index with
      | none => k s
      | some span =>
          let wanted := span.textIn text
          match matchText modes backward (if backward then wanted.reverse else wanted) s with
          | some next => k next
          | none => none
  | .lineStart, modes, _, s, k => if atLineStart modes s then k s else none
  | .lineEnd, modes, _, s, k => if atLineEnd modes s then k s else none
  | .wordBoundary negated, _, _, s, k => if atWordBoundary s != negated then k s else none
  | .look behind negated body, modes, _, s, k =>
      match body.run text modes behind s some with
      | some found => if negated then none else k { s with captures := found.captures }
      | none => if negated then k s else none
  | .repetition bounds firstGroup endGroup body, modes, backward, s, k =>
      matchRepeated (fun next k => body.run text modes backward next k)
        (·.forget firstGroup endGroup) bounds.greedy (bounds.least + text.length + 1)
        bounds.least bounds.most s k

end Expression

end PatternDialect.Native
