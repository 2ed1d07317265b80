import PatternDialect.Builder

/-! A workshop: builders and patterns in registers, and the identities that tell
built patterns from native ones. -/

namespace PatternDialect

structure Registry where
  next : Nat := 1
  live : List Nat := []
  deriving DecidableEq

namespace Registry

def limit : Nat := 18446744073709551616

/-- The registry after handing out `next`.  After the largest identity comes 0. -/
def advance (r : Registry) : Registry := { r with next := (r.next + 1) % limit }

def register (r : Registry) : Registry := { r.advance with live := r.next :: r.live }

def contains (r : Registry) (id : Nat) : Bool := r.live.contains id

def unregister (r : Registry) (id : Nat) : Registry :=
  { r with live := r.live.filter (· != id) }

end Registry

variable [Engine]

structure Holding where
  id : Nat
  pattern : Pattern

structure Workshop where
  registry : Registry := {}
  builders : List Builder := [{}]
  /-- Patterns in the order they were made; a register may be empty. -/
  registers : List (Option Holding) := []

namespace Workshop

def builder? (w : Workshop) (index : Nat) : Option Builder := w.builders[index]?

def holding? (w : Workshop) (index : Nat) : Option Holding := (w.registers[index]?).join

def pattern? (w : Workshop) (index : Nat) : Option Pattern := (w.holding? index).map (·.pattern)

def addBuilder (w : Workshop) (b : Builder) : Workshop :=
  { w with builders := w.builders ++ [b] }

def addHolding (w : Workshop) (holding : Option Holding) : Workshop :=
  { w with registers := w.registers ++ [holding] }

def keepBuilt (w : Workshop) (pattern : Pattern) : Workshop :=
  { w with registry := w.registry.register }.addHolding (some ⟨w.registry.next, pattern⟩)

def keepNative (w : Workshop) (pattern : Pattern) : Workshop :=
  { w with registry := w.registry.advance }.addHolding (some ⟨w.registry.next, pattern⟩)

/-- Compile a template into a new register, which stays empty on a fault. -/
def build (w : Workshop) (b : Builder) (template : Template) :
    Except Fault Pattern × Workshop :=
  match b.build template with
  | .ok pattern => (.ok pattern, w.keepBuilt pattern)
  | .error fault => (.error fault, w.addHolding none)

def native (w : Workshop) (source flags : Text) : Except Fault Pattern × Workshop :=
  match Pattern.native source flags with
  | .ok pattern => (.ok pattern, w.keepNative pattern)
  | .error fault => (.error fault, w.addHolding none)

/-- Compile native source into the register of a native pattern.  A pattern that
was built can not be replaced. -/
def recompile (w : Workshop) (index : Nat) (holding : Holding) (source flags : Text) :
    Except Fault Pattern × Workshop :=
  if w.registry.contains holding.id then (.error .recompile, w)
  else
    match Pattern.native source flags with
    | .ok pattern =>
        (.ok pattern,
          { w with
            registry := w.registry.advance.unregister holding.id
            registers := w.registers.set index (some ⟨w.registry.next, pattern⟩) })
    | .error fault => (.error fault, w)

/-- Empty a register; the identity it held is live no more.  An empty register stays
as it is. -/
def drop (w : Workshop) (index : Nat) : Workshop :=
  match w.holding? index with
  | some holding =>
      { w with
        registry := w.registry.unregister holding.id
        registers := w.registers.set index none }
  | none => w

end Workshop

end PatternDialect
