import PatternDialect.Source
import PatternDialect.Text.Decimal

/-! Back-references `\N` in native source. -/

namespace PatternDialect.Backreference

open Character Source

def render (index : Nat) : Text := '\\' :: Decimal.write index

/-- The digits of a reference after `amount` groups came in before group `first`.
Numbers have 64 bits; one that has more is no reference and stays as it is. -/
def shift (first amount : Nat) (digits : Text) : Text :=
  match Decimal.read? digits with
  | some number =>
      if first ≤ number then Decimal.write ((number + amount) % Decimal.limit) else digits
  | none => digits

/-- Shift the references of a text, read from the given place on.  The digits of
the reference being read are held back, last one first. -/
def renumberFrom (first amount : Nat) : Place → Text → Text → Text
  | _, digits, [] => shift first amount digits.reverse
  | place, digits, c :: rest =>
      if isDigit c && (!digits.isEmpty || (place == .escape && c != '0')) then
        renumberFrom first amount .outside (c :: digits) rest
      else
        shift first amount digits.reverse ++
          c :: renumberFrom first amount (place.next c) [] rest

/-- Add `amount` to every reference outside classes whose number is at least
`first`. -/
def renumber (first amount : Nat) (text : Text) : Text :=
  renumberFrom first amount .outside [] text

end PatternDialect.Backreference
