import PatternDialect.Json.Value

/-! The shortest decimal that reads back as a given double. -/

namespace PatternDialect.Json

/-- A nonnegative double `mantissa * 2 ^ exponent`, and whether the gap below it
is half the gap above it. -/
structure Binary where
  mantissa : Nat
  exponent : Int
  narrow : Bool
  deriving DecidableEq

def Binary.ofBits (bits : UInt64) : Binary :=
  let field : Nat := bits.toNat / Nat.pow 2 52 % Nat.pow 2 11
  let fraction : Nat := bits.toNat % Nat.pow 2 52
  if field = 0 then ⟨fraction, -1074, false⟩
  else ⟨fraction + Nat.pow 2 52, (field : Int) - 1075, fraction == 0 && field != 1⟩

/-- A decimal `digits * 10 ^ exponent`. -/
structure Scientific where
  digits : Nat
  exponent : Int
  deriving DecidableEq

/-- A power with a possibly negative exponent, as a numerator and a denominator. -/
def power (base : Nat) (exponent : Int) : Nat × Nat :=
  (Nat.pow base exponent.toNat, Nat.pow base (-exponent).toNat)

namespace Binary

def compareQuarters (x : Binary) (quarters : Nat) (d : Scientific) : Ordering :=
  let (up, down) := power 2 x.exponent
  let (tens, tenths) := power 10 d.exponent
  compare (4 * d.digits * tens * down) (quarters * up * tenths)

/-- Whether the decimal is read as this double.  The ends of the interval belong
to it if the mantissa is even. -/
def accepts (x : Binary) (d : Scientific) : Bool :=
  let low := x.compareQuarters (4 * x.mantissa - if x.narrow then 1 else 2) d
  let high := x.compareQuarters (4 * x.mantissa + 2) d
  let even := x.mantissa % 2 == 0
  (low == .gt || (low == .eq && even)) && (high == .lt || (high == .eq && even))

def below (x : Binary) (place : Int) : Scientific :=
  let (up, down) := power 2 x.exponent
  let (tens, tenths) := power 10 place
  ⟨x.mantissa * up * tenths / (tens * down), place⟩

def prefersAbove (x : Binary) (d : Scientific) : Bool :=
  -- The point halfway between them is `(2 * digits + 1) / 2`, taken at twice the scale.
  match x.compareQuarters (8 * x.mantissa) ⟨2 * d.digits + 1, d.exponent⟩ with
  | .lt => true
  | .gt => false
  | .eq => d.digits % 2 == 1

def atPlace? (x : Binary) (place : Int) : Option Scientific :=
  let low := x.below place
  let high : Scientific := ⟨low.digits + 1, place⟩
  match x.accepts low, x.accepts high with
  | true, true => some (if x.prefersAbove low then high else low)
  | true, false => some low
  | false, true => some high
  | false, false => none

def leadingPlace (x : Binary) : Nat → Int → Int
  | 0, place => place
  | bound + 1, place =>
      if (x.below place).digits = 0 then leadingPlace x bound (place - 1) else place

def search (x : Binary) : Nat → Int → Scientific
  | 0, place => x.below place
  | bound + 1, place =>
      match x.atPlace? place with
      | some d => d
      | none => search x bound (place - 1)

def shortest (x : Binary) : Scientific :=
  if x.mantissa = 0 then ⟨0, 0⟩ else x.search 20 (x.leadingPlace 640 308)

end Binary

namespace Scientific

def normalize : Nat → Scientific → Scientific
  | 0, d => d
  | bound + 1, d =>
      if d.digits % 10 = 0 && d.digits != 0 then
        normalize bound ⟨d.digits / 10, d.exponent + 1⟩
      else d

/-- An exponent with its sign. -/
def exponentText (exponent : Int) : Text :=
  (if exponent < 0 then '-' else '+') :: Nat.toDigits 10 exponent.natAbs

def text (d : Scientific) : Text :=
  let d := d.normalize 400
  let digits := Nat.toDigits 10 d.digits
  let point : Int := digits.length + d.exponent
  if d.digits = 0 then ['0', '.', '0']
  else if 0 ≤ d.exponent && point ≤ 16 then
    digits ++ List.replicate d.exponent.toNat '0' ++ ['.', '0']
  else if 0 < point && point ≤ 16 then
    digits.take point.toNat ++ '.' :: digits.drop point.toNat
  else if -5 < point && point ≤ 0 then
    ['0', '.'] ++ List.replicate (-point).toNat '0' ++ digits
  else
    let fraction := digits.drop 1
    digits.take 1 ++ (if fraction.isEmpty then [] else '.' :: fraction) ++
      'e' :: exponentText (point - 1)

end Scientific

def Number.text : Number → Text
  | .whole value => (toString value).toList
  | .real bits =>
      let magnitude := (Binary.ofBits bits).shortest.text
      if bits.toNat < Nat.pow 2 63 then magnitude else '-' :: magnitude

end PatternDialect.Json
