import PatternDialect.Atom
import PatternDialect.Construct.Reader
import PatternDialect.Options

/-! The state of a conversion: what has been read, what has been emitted, and what
the steps to come have to know about both. -/

namespace PatternDialect.Conversion

inductive FrameKind where
  | capture (slot : Nat)
  | plain
  | lookahead (negative : Bool)
  | atomic (slot : Nat)
  deriving DecidableEq

structure Frame where
  kind : FrameKind
  /-- Offset in the output where the group was opened. -/
  start : Nat
  /-- Number of slots when it was opened. -/
  firstGroup : Nat
  deriving DecidableEq

structure ClosedCapture where
  slot : Nat
  start : Nat
  stop : Nat
  deriving DecidableEq

/-- A lookahead that holds a single capture and nothing else: the slot of the
capture and where the lookahead ends in the output. -/
structure Splice where
  slot : Nat
  stop : Nat
  deriving DecidableEq

structure State where
  /-- The text read, last character first. -/
  before : Text := []
  rest : Text
  out : Text := []
  classStart : Option Nat := none
  groups : GroupTable := {}
  frames : List Frame := []
  /-- The last group or class that a quantifier may apply to. -/
  atom : Option Atom := none
  capture : Option ClosedCapture := none
  /-- The last lookahead, if it may stem from an emulated atomic group. -/
  splice : Option Splice := none
  referenceEnd : Option Nat := none
  flags : Option Text := none
  deriving DecidableEq

namespace State

def start (text : Text) : State := { rest := text }

def position (s : State) : Nat := s.before.size

def inClass (s : State) : Bool := s.classStart.isSome

def escaped (s : State) : Bool := Escape.pending s.before

def skip (s : State) (count : Nat) : State :=
  { s with before := (s.rest.take count).reverse ++ s.before, rest := s.rest.drop count }

@[simp] theorem before_skip (s : State) (count : Nat) :
    (s.skip count).before = (s.rest.take count).reverse ++ s.before := rfl

@[simp] theorem rest_skip (s : State) (count : Nat) :
    (s.skip count).rest = s.rest.drop count := rfl

@[simp] theorem out_skip (s : State) (count : Nat) : (s.skip count).out = s.out := rfl

@[simp] theorem classStart_skip (s : State) (count : Nat) :
    (s.skip count).classStart = s.classStart := rfl

@[simp] theorem groups_skip (s : State) (count : Nat) : (s.skip count).groups = s.groups := rfl

@[simp] theorem frames_skip (s : State) (count : Nat) : (s.skip count).frames = s.frames := rfl

@[simp] theorem atom_skip (s : State) (count : Nat) : (s.skip count).atom = s.atom := rfl

@[simp] theorem capture_skip (s : State) (count : Nat) :
    (s.skip count).capture = s.capture := rfl

@[simp] theorem splice_skip (s : State) (count : Nat) : (s.skip count).splice = s.splice := rfl

@[simp] theorem referenceEnd_skip (s : State) (count : Nat) :
    (s.skip count).referenceEnd = s.referenceEnd := rfl

@[simp] theorem flags_skip (s : State) (count : Nat) : (s.skip count).flags = s.flags := rfl

@[simp] theorem skip_zero (s : State) : s.skip 0 = s := rfl

def emit (s : State) (text : Text) : State := { s with out := s.out ++ text }

@[simp] theorem before_emit (s : State) (text : Text) : (s.emit text).before = s.before := rfl

@[simp] theorem rest_emit (s : State) (text : Text) : (s.emit text).rest = s.rest := rfl

@[simp] theorem out_emit (s : State) (text : Text) : (s.emit text).out = s.out ++ text := rfl

@[simp] theorem classStart_emit (s : State) (text : Text) :
    (s.emit text).classStart = s.classStart := rfl

@[simp] theorem groups_emit (s : State) (text : Text) : (s.emit text).groups = s.groups := rfl

@[simp] theorem frames_emit (s : State) (text : Text) : (s.emit text).frames = s.frames := rfl

@[simp] theorem atom_emit (s : State) (text : Text) : (s.emit text).atom = s.atom := rfl

@[simp] theorem capture_emit (s : State) (text : Text) :
    (s.emit text).capture = s.capture := rfl

@[simp] theorem splice_emit (s : State) (text : Text) : (s.emit text).splice = s.splice := rfl

@[simp] theorem referenceEnd_emit (s : State) (text : Text) :
    (s.emit text).referenceEnd = s.referenceEnd := rfl

@[simp] theorem flags_emit (s : State) (text : Text) : (s.emit text).flags = s.flags := rfl

@[simp] theorem emit_nil (s : State) : s.emit [] = s := by simp [emit]

def copy (s : State) (count : Nat) : State := (s.emit (s.rest.take count)).skip count

@[simp] theorem before_copy (s : State) (count : Nat) :
    (s.copy count).before = (s.rest.take count).reverse ++ s.before := rfl

@[simp] theorem rest_copy (s : State) (count : Nat) :
    (s.copy count).rest = s.rest.drop count := rfl

@[simp] theorem out_copy (s : State) (count : Nat) :
    (s.copy count).out = s.out ++ s.rest.take count := rfl

@[simp] theorem classStart_copy (s : State) (count : Nat) :
    (s.copy count).classStart = s.classStart := rfl

@[simp] theorem groups_copy (s : State) (count : Nat) : (s.copy count).groups = s.groups := rfl

@[simp] theorem frames_copy (s : State) (count : Nat) : (s.copy count).frames = s.frames := rfl

@[simp] theorem atom_copy (s : State) (count : Nat) : (s.copy count).atom = s.atom := rfl

@[simp] theorem capture_copy (s : State) (count : Nat) :
    (s.copy count).capture = s.capture := rfl

@[simp] theorem splice_copy (s : State) (count : Nat) : (s.copy count).splice = s.splice := rfl

@[simp] theorem referenceEnd_copy (s : State) (count : Nat) :
    (s.copy count).referenceEnd = s.referenceEnd := rfl

@[simp] theorem flags_copy (s : State) (count : Nat) : (s.copy count).flags = s.flags := rfl

@[simp] theorem copy_zero (s : State) : s.copy 0 = s := by simp [copy]

theorem copy_of_take (s : State) {count : Nat} {word : Text} (taken : s.rest.take count = word) :
    s.copy count = (s.emit word).skip count := by
  rw [copy, taken]

def dropEscape (s : State) : State :=
  if s.out.getLast? = some '\\' then { s with out := s.out.dropLast } else s

def recordAtom (s : State) (start : Nat) : State :=
  { s with
    atom := some
      { start, stop := s.out.size, firstGroup := s.groups.size, emulated := false } }

def markReference (s : State) : State := { s with referenceEnd := some s.out.size }

def emitReference (s : State) (slot : Nat) : State :=
  (s.emit (Backreference.render slot)).markReference

def openFrame (s : State) (kind : FrameKind) (start firstGroup : Nat) : State :=
  { s with frames := { kind, start, firstGroup } :: s.frames, splice := none }

end State

end PatternDialect.Conversion
