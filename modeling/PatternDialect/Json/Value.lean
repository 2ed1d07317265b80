import PatternDialect.Text.Basic

/-! JSON values.  An object keeps its members in the order they were first given. -/

namespace PatternDialect.Json

inductive Number where
  | whole (value : Int)
  /-- A double, by its bits. -/
  | real (bits : UInt64)
  deriving DecidableEq

inductive Value where
  | null
  | bool (value : Bool)
  | number (value : Number)
  | string (value : Text)
  | array (items : List Value)
  | object (members : List (Text × Value))

/-- Set a member: a name that is there already keeps its place. -/
def setMember (name : Text) (value : Value) : List (Text × Value) → List (Text × Value)
  | [] => [(name, value)]
  | (other, old) :: rest =>
      if other = name then (other, value) :: rest
      else (other, old) :: setMember name value rest

end PatternDialect.Json
