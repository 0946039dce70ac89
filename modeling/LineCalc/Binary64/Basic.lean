import LineCalc.Binary64.Round
/-
  Binary64: double precision numbers

  A number is finite, with a sign and a magnitude, infinite with a sign, or not
  a number. Zero has both signs. Every operation is the exact result of its
  operands rounded once: a sum is added in units, a product and a quotient are
  one fraction of units. `Binary64.bits` and `Binary64.ofBits` are the layout
  of the format in 64 bits; all patterns that are not a number are one value.
-/

namespace LineCalc

/-- A double precision number. -/
inductive Binary64 where
  | finite (negative : Bool) (size : Magnitude)
  | infinite (negative : Bool)
  | nan
  deriving DecidableEq, Repr

namespace Binary64

/-- Zero with a sign. -/
def zero (negative : Bool) : Binary64 := finite negative Magnitude.zero

/-- A rounded size with its sign. A size that is too large is infinite. -/
def ofRounded (negative : Bool) : Option Magnitude → Binary64
  | some size => finite negative size
  | none => infinite negative

/-- The number nearest to an integer. -/
def ofInt (n : Int) : Binary64 :=
  ofRounded (n < 0) (Magnitude.round (n.natAbs * Magnitude.unitsPerOne) 1)

/-! ## Tests -/

/-- Whether a number is finite. -/
def isFinite : Binary64 → Bool
  | finite _ _ => true
  | _ => false

/-- Whether a number is zero, of either sign. -/
def isZero : Binary64 → Bool
  | finite _ size => size.mantissa = 0
  | _ => false

/-- Whether two numbers compare equal: both zeros do, and what is not a number
equals nothing. -/
def equal : Binary64 → Binary64 → Bool
  | nan, _ => false
  | _, nan => false
  | x, y => x = y || (x.isZero && y.isZero)

/-! ## Arithmetic -/

/-- A number of units with a sign. -/
def signed (negative : Bool) (units : Nat) : Int :=
  if negative then -(units : Int) else units

/-- The number with the other sign. -/
def neg : Binary64 → Binary64
  | finite negative size => finite (!negative) size
  | infinite negative => infinite (!negative)
  | nan => nan

/-- A sum of units, rounded. A sum of nothing is negative only if both of its
parts are. -/
def ofSum (bothNegative : Bool) (units : Int) : Binary64 :=
  if units = 0 then zero bothNegative
  else ofRounded (units < 0) (Magnitude.round units.natAbs 1)

/-- The sum of two numbers. -/
def add : Binary64 → Binary64 → Binary64
  | nan, _ => nan
  | _, nan => nan
  | infinite s, infinite t => if s = t then infinite s else nan
  | infinite s, finite _ _ => infinite s
  | finite _ _, infinite t => infinite t
  | finite s x, finite t y => ofSum (s && t) (signed s x.units + signed t y.units)

/-- The difference of two numbers. -/
def sub (x y : Binary64) : Binary64 := add x y.neg

/-- The product of two numbers. -/
def mul : Binary64 → Binary64 → Binary64
  | nan, _ => nan
  | _, nan => nan
  | infinite s, infinite t => infinite (s != t)
  | infinite s, finite t y => if y.mantissa = 0 then nan else infinite (s != t)
  | finite s x, infinite t => if x.mantissa = 0 then nan else infinite (s != t)
  | finite s x, finite t y =>
    ofRounded (s != t) (Magnitude.round (x.units * y.units) Magnitude.unitsPerOne)

/-- The quotient of two numbers. A quotient by zero is infinite, or not a number
if zero is divided. -/
def div : Binary64 → Binary64 → Binary64
  | nan, _ => nan
  | _, nan => nan
  | infinite _, infinite _ => nan
  | infinite s, finite t _ => infinite (s != t)
  | finite s _, infinite t => zero (s != t)
  | finite s x, finite t y =>
    if y.mantissa = 0 then
      if x.mantissa = 0 then nan else infinite (s != t)
    else ofRounded (s != t) (Magnitude.round (x.units * Magnitude.unitsPerOne) y.units)

/-! ## Bits -/

/-- The value of the sign bit. -/
def signBit (negative : Bool) : Nat := if negative then 2 ^ 63 else 0

/-- The 64 bits of a number: sign, biased exponent and fraction. The exponent
field is one more than the exponent where the mantissa is full, and its
leading bit carries that one. -/
def bits : Binary64 → UInt64
  | finite negative size =>
    UInt64.ofNat (signBit negative + size.exponent * 2 ^ 52 + size.mantissa)
  | infinite negative => UInt64.ofNat (signBit negative + 2047 * 2 ^ 52)
  | nan => UInt64.ofNat (2047 * 2 ^ 52 + 2 ^ 51)

/-- The magnitude with a biased exponent below 2047 and a fraction of 52 bits. -/
def ofFields (biased : Nat) (fraction : Nat) (hb : biased < 2047) (hf : fraction < 2 ^ 52) :
    Magnitude :=
  if biased = 0 then
    ⟨fraction, 0, Nat.lt_trans hf (by decide), Magnitude.least_exponent_le, .inl rfl⟩
  else
    ⟨2 ^ 52 + fraction, biased - 1, by omega, by omega, .inr (Nat.le_add_right _ _)⟩

/-- The number that 64 bits denote. -/
def ofBits (word : UInt64) : Binary64 :=
  let negative : Bool := 2 ^ 63 ≤ word.toNat
  let biased := word.toNat / 2 ^ 52 % 2048
  let fraction := word.toNat % 2 ^ 52
  if hb : biased < 2047 then
    finite negative (ofFields biased fraction hb (Nat.mod_lt _ (by decide)))
  else if fraction = 0 then infinite negative
  else nan

theorem signBit_cases (negative : Bool) : signBit negative = 0 ∨ signBit negative = 2 ^ 63 := by
  cases negative <;> simp [signBit]

theorem toNat_bits (negative : Bool) (size : Magnitude) :
    (finite negative size).bits.toNat =
      signBit negative + size.exponent * 2 ^ 52 + size.mantissa := by
  have hs := signBit_cases negative
  have hm := size.mantissa_lt
  have he := size.exponent_le
  rw [bits]
  simp only [UInt64.toNat_ofNat']
  apply Nat.mod_eq_of_lt
  omega

/-- A number is read back from its bits. -/
theorem ofBits_bits (x : Binary64) : ofBits x.bits = x := by
  cases x with
  | nan => rfl
  | infinite negative => cases negative <;> rfl
  | finite negative size =>
    have hw := toNat_bits negative size
    have hs := signBit_cases negative
    obtain ⟨m, e, hm, he, hf⟩ := size
    have hb : (signBit negative + e * 2 ^ 52 + m) / 2 ^ 52 % 2048 = e + m / 2 ^ 52 := by
      omega
    have hfr : (signBit negative + e * 2 ^ 52 + m) % 2 ^ 52 = m % 2 ^ 52 := by omega
    have hn : decide (2 ^ 63 ≤ signBit negative + e * 2 ^ 52 + m) = negative := by
      cases negative <;> simp [signBit] <;> omega
    simp only [ofBits, hw, hb, hfr, hn]
    rw [dif_pos (by omega)]
    congr 1
    unfold ofFields
    split
    · congr 1 <;> omega
    · congr 1 <;> omega

theorem exponent_add_mantissa_ofFields {biased fraction : Nat} (hb : biased < 2047)
    (hf : fraction < 2 ^ 52) :
    (ofFields biased fraction hb hf).exponent * 2 ^ 52 + (ofFields biased fraction hb hf).mantissa =
      biased * 2 ^ 52 + fraction := by
  unfold ofFields
  split
  case isTrue hzero =>
    rw [hzero]
  case isFalse hpos =>
    show (biased - 1) * 2 ^ 52 + (2 ^ 52 + fraction) = _
    omega

theorem bits_ofBits {word : UInt64} (h : ofBits word ≠ nan) : (ofBits word).bits = word := by
  have hword := word.toNat_lt
  have hsign : signBit (decide (2 ^ 63 ≤ word.toNat)) = word.toNat / 2 ^ 63 * 2 ^ 63 := by
    by_cases hs : 2 ^ 63 ≤ word.toNat
    · rw [decide_eq_true hs, signBit, if_pos rfl]
      omega
    · rw [decide_eq_false hs, signBit, if_neg Bool.false_ne_true]
      omega
  apply UInt64.toNat_inj.mp
  unfold ofBits at h ⊢
  dsimp only at h ⊢
  split
  case isTrue hb =>
    have hfields := exponent_add_mantissa_ofFields hb (Nat.mod_lt word.toNat (by decide))
    have hbits := toNat_bits (decide (2 ^ 63 ≤ word.toNat))
      (ofFields _ _ hb (Nat.mod_lt word.toNat (by decide)))
    omega
  case isFalse hb =>
    rw [dif_neg hb] at h
    split
    case isTrue hzero =>
      rw [bits, hsign]
      simp only [UInt64.toNat_ofNat']
      omega
    case isFalse hne =>
      rw [if_neg hne] at h
      exact absurd rfl h

end Binary64

end LineCalc
