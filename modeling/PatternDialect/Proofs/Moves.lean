import PatternDialect.Proofs.Quiet

/-! What a step can do.  Every step of a conversion is one of a dozen moves, each
with what it does to the output, to the groups and to the references. -/

namespace PatternDialect

open Character Source

/-- The source and the atom as they are repeated: what is emulated is wrapped. -/
def Atom.prepared (source : Text) (atom : Atom) : Text × Atom :=
  if atom.emulated then atom.wrap source else (source, atom)

namespace Conversion

/-- What a step does to the groups and the references. -/
inductive Action where
  | none
  | refer (slot : Nat)
  | enter (slot : Option Slot)
  | insert (index : Nat)
  | leave (referring : Bool)
  | splice
  deriving DecidableEq

namespace State

def slotOf (s : State) (options : Options) : Opener → Option Slot
  | .capture =>
      if !options.noCapture then some .anonymous
      else if s.atLookaheadStart then some .suppressed
      else none
  | .named => (Text.name? (s.rest.drop 3)).map .named
  | .atomic => some .suppressed
  | .plain | .lookahead _ | .lookbehind _ | .unknown => none

def resolve (s : State) (name : Text) : Except Fault Nat :=
  if name.all isDigit then s.resolveDigits name else s.groups.resolveName name

def referred : Except Fault Nat → Action
  | .ok slot => .refer slot
  | .error _ => .none

def actionOf (s : State) (options : Options) : Construct → Action
  | .quantifier q =>
      match q.possessive, s.quantified? q with
      | true, some atom => .insert (s.groups.clamp atom.firstGroup)
      | _, _ => .none
  | .numberReference => referred (s.resolveDigits (Text.digits (s.rest.drop 1)))
  | .nameReference form =>
      match Text.name? (s.rest.drop form.opener.length) with
      | some name => referred (s.resolve name)
      | none => .none
  | .openGroup form => .enter (s.slotOf options form)
  | .closeGroup =>
      match s.frames with
      | frame :: _ => .leave (isAtomic frame)
      | [] => .none
  | .escapedDigit _ => if (s.splice.filter (·.stop == s.out.size)).isSome then .splice else .none
  | _ => .none

def action (s : State) (options : Options) (delimiter : Option Char) : Action :=
  match s.next? delimiter with
  | some construct =>
      if s.inClass || s.escaped then .none else s.actionOf options construct
  | none => .none

def opened (s : State) : Option Slot → GroupTable
  | some slot => s.groups.push slot
  | none => s.groups

/-- The ways to open a group: its kind, what is emitted, and its slot. -/
inductive Opening (s : State) (options : Options) : FrameKind → Text → Option Slot → Prop where
  | capture (slot : Slot) (visible : slot ≠ .suppressed) :
      Opening s options (.capture s.groups.size) ['('] (some slot)
  | hidden (noCapture : options.noCapture = true) (start : s.atLookaheadStart = true) :
      Opening s options (.capture s.groups.size) ['('] (some .suppressed)
  | atomic : Opening s options (.atomic s.groups.size) Atom.atomicOpen (some .suppressed)
  | plain : Opening s options .plain ['(', '?', ':'] none
  | lookahead (negative : Bool) :
      Opening s options (.lookahead negative) ['(', '?', if negative then '!' else '='] none
  | lookbehind (negative : Bool) :
      Opening s options .plain ['(', '?', '<', if negative then '!' else '='] none

def prepared (s : State) : Option Atom → Text
  | some atom => (atom.prepared s.out).1
  | none => s.out

def possessed (s : State) (atom : Atom) (q : Quantifier) : State :=
  let repeated := Atom.makePossessive (atom.prepared s.out).1 s.groups (atom.prepared s.out).2
    q.amount.text
  ({ s with
      out := repeated.source
      groups := repeated.groups
      atom := some repeated.atom }.markReference).skip q.length

def closed (s : State) (frame : Frame) (frames : List Frame) : State :=
  { s.emitClose frame with
    frames
    splice := (s.emitClose frame).spliceOf frame s.out.size
    capture := (s.emitClose frame).captureOf frame
    atom := some
      { start := frame.start
        stop := (s.emitClose frame).out.size
        firstGroup := frame.firstGroup
        emulated := isAtomic frame } }

/-- The moves of a conversion, with the state they lead to. -/
inductive Move (options : Options) (delimiter : Option Char) (s : State) :
    Action → State → Prop where
  | write (count : Nat) (text : Text) (quiet : s.Quiet count text) :
      Move options delimiter s .none ((s.emit text).skip count)
  | restore (c : Char) (more : Text) (rest : s.rest = c :: more) (place : s.place = .escape)
      (kept : isBlank c = true ∨ c = '#') : Move options delimiter s .none (s.dropEscape.copy 1)
  | openClass (more : Text) (rest : s.rest = '[' :: more) (place : s.place = .outside) :
      Move options delimiter s .none ({ s with classStart := some s.out.size }.copy 1)
  | closeClass (start : Nat) (more : Text) (rest : s.rest = ']' :: more)
      (class_ : s.classStart = some start) (unescaped : s.escaped = false) :
      Move options delimiter s .none ({ s.copy 1 with classStart := none }.recordAtom start)
  | anything (more : Text) (rest : s.rest = '.' :: more) (place : s.place = .outside) :
      Move options delimiter s .none (((s.emit ['[', '^', ']']).skip 1).recordAtom s.out.size)
  | repeat_ (q : Quantifier) (next : s.next? delimiter = some (.quantifier q))
      (mark : q.possessive = false) (place : s.place = .outside)
      (after : (s.skip q.length).place = .outside) :
      Move options delimiter s .none ({ s with
        out := s.prepared (s.atom.filter (·.stop == s.out.size)) ++ q.render options.ungreedy
        atom := none }.skip q.length)
  | possess (q : Quantifier) (atom : Atom) (next : s.next? delimiter = some (.quantifier q))
      (place : s.place = .outside) (mark : q.possessive = true)
      (found : s.quantified? q = some atom) (after : (s.skip q.length).place = .outside) :
      Move options delimiter s (.insert (s.groups.clamp atom.firstGroup)) (s.possessed atom q)
  | refer (slot count : Nat) (positive : 0 < slot) (bound : slot < s.groups.size)
      (place : s.place = .outside) (after : (s.skip count).place = .outside) :
      Move options delimiter s (.refer slot) ((s.skip count).emitReference slot)
  | enter (kind : FrameKind) (text : Text) (slot : Option Slot) (count : Nat)
      (opening : s.Opening options kind text slot) (place : s.place = .outside)
      (after : (s.skip count).place = .outside) :
      Move options delimiter s (.enter slot)
        ((({ s with groups := s.opened slot }.emit text).skip count).openFrame kind s.out.size
          s.groups.size)
  | leave (frame : Frame) (frames : List Frame) (more : Text) (rest : s.rest = ')' :: more)
      (open_ : s.frames = frame :: frames) (place : s.place = .outside) :
      Move options delimiter s (.leave (isAtomic frame)) (s.closed frame frames)
  | splice (splice : Splice) (count : Nat) (last : s.splice = some splice)
      (stop : splice.stop = s.out.size) (place : s.place = .outside)
      (after : (s.skip count).place = .outside) :
      Move options delimiter s .splice { ({ s with groups := s.groups.suppress splice.slot }.skip
        count).emitReference splice.slot with splice := none }
  | flags (place : s.place = .outside) :
      Move options delimiter s .none
        { (s.skip 1).skip (s.skip 1).rest.length with flags := some (s.skip 1).rest }

end State

end Conversion

end PatternDialect
