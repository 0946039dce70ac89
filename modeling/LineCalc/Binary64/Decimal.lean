import LineCalc.Binary64.Basic
/-
  Binary64: decimal text

  A finite number prints as digits, a point and digits, never with an exponent.
  A whole number prints exactly and with one zero behind the point. Any other
  number prints with the fewest decimal places that read back as the same
  number; of two such decimals the nearer one is taken, and the upper one if
  both are equally near.
-/

namespace LineCalc

/-- The decimal fraction `digits / 10 ^ places`. -/
structure Decimal where
  digits : Nat
  places : Nat
  deriving DecidableEq, Repr

namespace Decimal

/-- The magnitude a decimal fraction rounds to. -/
def round (d : Decimal) : Option Magnitude :=
  Magnitude.round (d.digits * Magnitude.unitsPerOne) (10 ^ d.places)

/-- Digits before the point, and as many behind it as there are places. -/
def text (d : Decimal) : List Char :=
  Digits.ofNat (d.digits / 10 ^ d.places) ++ '.' :: Digits.fixed d.places (d.digits % 10 ^ d.places)

end Decimal

namespace Magnitude

/-- The decimal with so many places next below a magnitude. -/
def floorAt (m : Magnitude) (places : Nat) : Decimal :=
  ⟨m.units * 10 ^ places / unitsPerOne, places⟩

/-- The decimal with so many places next above that one. -/
def ceilAt (m : Magnitude) (places : Nat) : Decimal :=
  ⟨m.units * 10 ^ places / unitsPerOne + 1, places⟩

/-- Whether the lower of the two neighbours is strictly the nearer one. -/
def floorIsNearer (m : Magnitude) (places : Nat) : Bool :=
  2 * (m.units * 10 ^ places % unitsPerOne) < unitsPerOne

/-- The decimal with so many places that reads back as the magnitude, if one
does: the nearer neighbour of two. -/
def decimalAt? (m : Magnitude) (places : Nat) : Option Decimal :=
  let low := m.floorAt places
  let high := m.ceilAt places
  if low.round = some m then
    if high.round = some m then some (if m.floorIsNearer places then low else high)
    else some low
  else if high.round = some m then some high
  else none

/-- The decimal with the fewest places that reads back. With 1074 places every magnitude
is exact, so nothing is left to try then. -/
def shortest (m : Magnitude) : Decimal :=
  ((List.range' 1 1073).findSome? m.decimalAt?).getD (m.floorAt 1074)

/-- The decimal a magnitude is printed as. -/
def decimal (m : Magnitude) : Decimal :=
  if m.units % unitsPerOne = 0 then ⟨m.units / unitsPerOne * 10, 1⟩
  else m.shortest

end Magnitude

/-- The text of a number: a minus sign if it is negative, and its decimal. -/
def Binary64.text : Binary64 → String
  | finite negative size =>
    String.ofList ((if negative then ['-'] else []) ++ size.decimal.text)
  | infinite negative => if negative then "-inf" else "inf"
  | nan => "NaN"

end LineCalc
