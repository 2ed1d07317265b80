import PatternDialect.Fault
import PatternDialect.Text.Character
import PatternDialect.Text.Decimal

/-! The table of native capture groups, in the order they are opened.

Index 0 stands for the whole match.  A suppressed group exists for the engine
alone: it has no number of its own for the author. -/

namespace PatternDialect

inductive Slot where
  | anonymous
  | named (name : Text)
  | suppressed
  deriving DecidableEq

namespace Slot

def isVisible : Slot → Bool
  | suppressed => false
  | _ => true

def name? : Slot → Option Text
  | named name => some name
  | _ => none

end Slot

/-- The groups declared so far, the whole match left out. -/
structure GroupTable where
  declared : List Slot := []
  deriving DecidableEq

namespace GroupTable

def slots (table : GroupTable) : List Slot := .anonymous :: table.declared

/-- Number of slots; the next group opened gets this index. -/
def size (table : GroupTable) : Nat := table.declared.length + 1

def isEmpty (table : GroupTable) : Bool := table.declared.isEmpty

def get? (table : GroupTable) (index : Nat) : Option Slot := table.slots[index]?

def push (table : GroupTable) (slot : Slot) : GroupTable :=
  { table with declared := table.declared ++ [slot] }

def indexOf? (table : GroupTable) (name : Text) : Option Nat :=
  table.slots.findIdx? (· == .named name)

def pushNamed (table : GroupTable) (name : Text) : Except Fault GroupTable :=
  if name.head?.any Character.isDigit then .error (.groupNameStartsWithDigit name)
  else if !Character.isIdentifier name then .error (.invalidGroupName name)
  else if (table.indexOf? name).isSome then .error (.duplicateGroupName name)
  else .ok (table.push (.named name))

/-- The index closest to the given one at which a group can be inserted. -/
def clamp (table : GroupTable) (index : Nat) : Nat := max 1 (min index table.size)

def insertSuppressed (table : GroupTable) (index : Nat) : GroupTable :=
  { table with declared := table.declared.insertIdx (table.clamp index - 1) .suppressed }

def suppress (table : GroupTable) : Nat → GroupTable
  | 0 => table
  | index + 1 =>
      if table.declared[index]? = some .anonymous then
        { table with declared := table.declared.set index .suppressed }
      else table

def isSuppressed (table : GroupTable) (index : Nat) : Bool :=
  table.get? index == some .suppressed

def visibleCount (table : GroupTable) : Nat := table.declared.countP Slot.isVisible

/-- Index of the visible slot with the given number, counted from 0. -/
def visibleIndex? : List Slot → Nat → Option Nat
  | [], _ => none
  | slot :: rest, number =>
      if slot.isVisible then
        match number with
        | 0 => some 0
        | number + 1 => (visibleIndex? rest number).map (· + 1)
      else (visibleIndex? rest number).map (· + 1)

def resolveName (table : GroupTable) (name : Text) : Except Fault Nat :=
  match table.indexOf? name with
  | some index => .ok index
  | none => .error (.unresolvedReference name)

/-- The native index of a group by its visible number, counted from 1. -/
def resolveNumber (table : GroupTable) (number : Nat) : Except Fault Nat :=
  match if number = 0 then none else visibleIndex? table.slots number with
  | some index => .ok index
  | none => .error (.unresolvedReference (Decimal.write number))

/-- Whether some group is named or hidden, so that matches have to be rearranged. -/
def needsAugmentation (table : GroupTable) : Bool := table.declared.any (· != .anonymous)

def names (table : GroupTable) : List Text := table.slots.filterMap Slot.name?

end GroupTable

end PatternDialect
