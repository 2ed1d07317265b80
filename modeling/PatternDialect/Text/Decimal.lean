import PatternDialect.Text.Character

/-! Decimal numbers in texts.  A number that is read fits into 64 bits. -/

namespace PatternDialect.Decimal

def limit : Nat := 18446744073709551616

def digitValue (c : Char) : Nat := c.toNat - '0'.toNat

def value (digits : Text) : Nat :=
  digits.foldl (fun n c => 10 * n + digitValue c) 0

/-- The number written by a run of digits, unless it is empty or too large. -/
def read? (digits : Text) : Option Nat :=
  if digits.isEmpty || !digits.all Character.isDigit then none
  else if value digits < limit then some (value digits) else none

def write (n : Nat) : Text := Nat.toDigits 10 n

end PatternDialect.Decimal
