import LineCalc.Proofs.Decimals
import LineCalc.Proofs.Nearest
import LineCalc.Value
/-
  Numerals: the text of a value holds all of it

  A finite real prints as a numeral: digits, a point and digits, behind a minus sign or
  not. A numeral is known from its text, for its point is the only character behind the
  sign that is no digit, and it has an exact value. The nearest number to that value with
  that sign is the real that was printed, so a real is known from its numeral. No integer
  has a point, and neither the text of an infinite real nor that of what is no number
  has digits only.

  What is proved:
    1. `Numeral.text_injective` — a text is the text of one numeral at most;
    2. `Binary64.isNearest_numeral_iff` — a finite real is what its numeral rounds to;
    3. `Value.text_reads_back` — values print alike only if they are the same.
-/

namespace LineCalc

/-! ## Numerals -/

/-- Digits, a point and digits, behind a minus sign if it is negative. -/
structure Numeral where
  negative : Bool
  whole : List Char
  fraction : List Char
  whole_ne_nil : whole ≠ []
  fraction_ne_nil : fraction ≠ []
  isDigit_whole : ∀ c ∈ whole, c.isDigit = true
  isDigit_fraction : ∀ c ∈ fraction, c.isDigit = true

namespace Numeral

/-- The text of a numeral. -/
def text (n : Numeral) : String :=
  String.ofList ((if n.negative then ['-'] else []) ++ (n.whole ++ '.' :: n.fraction))

/-- The exact value of a numeral. -/
def toRat (n : Numeral) : ℚ :=
  withSign n.negative
    (Digits.toNat n.whole + (Digits.toNat n.fraction : ℚ) / 10 ^ n.fraction.length)

/-- Behind the sign there is a digit. -/
theorem ne_minus_cons (n : Numeral) (rest : List Char) :
    n.whole ++ '.' :: n.fraction ≠ '-' :: rest := by
  obtain ⟨c, run, hwhole⟩ := List.exists_cons_of_ne_nil n.whole_ne_nil
  have hdigit : c.isDigit = true := n.isDigit_whole c (hwhole ▸ List.mem_cons_self)
  rw [hwhole]
  intro h
  obtain rfl := (List.cons.inj h).1
  cases hdigit

theorem takeWhile_isDigit (n : Numeral) :
    (n.whole ++ '.' :: n.fraction).takeWhile Char.isDigit = n.whole := by
  rw [List.takeWhile_append_of_pos n.isDigit_whole, List.takeWhile_cons_of_neg (by decide),
    List.append_nil]

theorem text_injective {n m : Numeral} (h : n.text = m.text) : n = m := by
  have hchars := congrArg String.toList h
  rw [text, text, String.toList_ofList, String.toList_ofList] at hchars
  have hunsigned : n.negative = m.negative ∧
      n.whole ++ '.' :: n.fraction = m.whole ++ '.' :: m.fraction := by
    cases hn : n.negative <;> cases hm : m.negative <;> rw [hn, hm] at hchars
    · exact ⟨rfl, hchars⟩
    · exact absurd hchars (n.ne_minus_cons _)
    · exact absurd hchars.symm (m.ne_minus_cons _)
    · exact ⟨rfl, (List.cons.inj hchars).2⟩
  have hwhole : n.whole = m.whole := by
    rw [← n.takeWhile_isDigit, hunsigned.2, m.takeWhile_isDigit]
  have hfraction : n.fraction = m.fraction := by
    have hrest := hunsigned.2
    rw [hwhole] at hrest
    exact (List.cons.inj (List.append_cancel_left hrest)).2
  cases n
  cases m
  simp only [mk.injEq]
  exact ⟨hunsigned.1, hwhole, hfraction⟩

theorem point_mem_text (n : Numeral) : '.' ∈ n.text.toList := by
  simp [text]

end Numeral

/-- The decimal fraction that a numeral denotes, its sign apart. -/
def Numeral.decimal (n : Numeral) : Decimal :=
  ⟨Digits.toNat n.whole * 10 ^ n.fraction.length + Digits.toNat n.fraction, n.fraction.length⟩

theorem Numeral.toRat_eq (n : Numeral) : n.toRat = withSign n.negative n.decimal.toRat := by
  have hpower : (10 : ℚ) ^ n.fraction.length ≠ 0 := by positivity
  rw [toRat, Decimal.toRat, decimal, Nat.cast_add, Nat.cast_mul, Nat.cast_pow, Nat.cast_ofNat,
    add_div, mul_div_cancel_right₀ _ hpower]

/-- The numeral of a decimal fraction that has places. -/
def Decimal.numeral (d : Decimal) (negative : Bool) (h : 0 < d.places) : Numeral where
  negative := negative
  whole := Digits.ofNat (d.digits / 10 ^ d.places)
  fraction := Digits.fixed d.places (d.digits % 10 ^ d.places)
  whole_ne_nil := Digits.ofNat_ne_nil _
  fraction_ne_nil := List.ne_nil_of_length_pos (by rwa [Digits.length_fixed])
  isDigit_whole := fun _ hmem => Digits.isDigit_of_mem_ofNat hmem
  isDigit_fraction := fun _ hmem => Digits.isDigit_of_mem_fixed hmem

theorem Decimal.toRat_numeral (d : Decimal) (negative : Bool) (h : 0 < d.places) :
    (d.numeral negative h).toRat = withSign negative d.toRat := by
  rw [Numeral.toRat, numeral, Digits.toNat_ofNat, Digits.length_fixed, Digits.toNat_fixed,
    Nat.mod_mod, Decimal.toRat]
  have hpower : 0 < 10 ^ d.places := Nat.pow_pos (by decide)
  have hsplit := Magnitude.natCast_div_eq d.digits hpower
  rw [Nat.cast_pow, Nat.cast_ofNat] at hsplit
  rw [hsplit]

/-! ## The numeral of a real -/

/-- The numeral that a finite real prints as. -/
def Magnitude.numeral (size : Magnitude) (negative : Bool) : Numeral :=
  size.decimal.numeral negative size.places_decimal.1

namespace Binary64

theorem text_finite (negative : Bool) (size : Magnitude) :
    (finite negative size).text = (size.numeral negative).text := rfl

theorem isNearest_decimal_iff {negative : Bool} {size : Magnitude} {d : Decimal} :
    (finite negative size).IsNearest (withSign negative d.toRat) ↔ d.round = some size := by
  have hpos := Magnitude.unitsPerOne_cast_pos
  have hunits : 0 ≤ d.toRat * Magnitude.unitsPerOne :=
    mul_nonneg (div_nonneg (Nat.cast_nonneg _) (by positivity)) hpos.le
  rw [Decimal.round_eq_some_iff, ← isNearest_finite_iff hunits, mul_div_cancel_right₀ _ hpos.ne']

/-- A finite real is the nearest number with the sign of its numeral to the value of that. -/
theorem isNearest_numeral_iff {negative : Bool} {size : Magnitude} {r : Binary64} :
    r.isNegative = negative ∧ r.IsNearest (size.numeral negative).toRat ↔
      r = finite negative size := by
  have hself : (finite negative size).IsNearest (size.numeral negative).toRat := by
    rw [Magnitude.numeral, Decimal.toRat_numeral]
    exact isNearest_decimal_iff.mpr size.round_decimal
  constructor
  · rintro ⟨hsign, hnearest⟩
    exact hnearest.eq hself hsign
  · rintro rfl
    exact ⟨rfl, hself⟩

/-- No numeral with fewer places has the real as its nearest number. -/
theorem length_fraction_numeral_le {size : Magnitude} {other : Numeral}
    (h : (finite other.negative size).IsNearest other.toRat) (negative : Bool) :
    (size.numeral negative).fraction.length ≤ other.fraction.length := by
  rw [other.toRat_eq, isNearest_decimal_iff] at h
  have hplaces : 0 < other.decimal.places := List.length_pos_of_ne_nil other.fraction_ne_nil
  have hlength : (size.numeral negative).fraction.length = size.decimal.places :=
    Digits.length_fixed _ _
  rw [hlength]
  exact size.places_decimal.2 other.decimal h hplaces

theorem numeral_of_whole {negative : Bool} {size : Magnitude} {n : Nat}
    (h : |(finite negative size).toRat| = n) :
    (size.numeral negative).whole = Digits.ofNat n ∧ (size.numeral negative).fraction = ['0'] := by
  have hpos := Magnitude.unitsPerOne_cast_pos
  rw [toRat, abs_withSign, abs_of_nonneg (div_nonneg (Nat.cast_nonneg _) hpos.le),
    div_eq_iff hpos.ne'] at h
  have hdecimal : size.decimal = ⟨n * 10, 1⟩ :=
    Magnitude.decimal_of_units_eq (by exact_mod_cast h)
  show Digits.ofNat (size.decimal.digits / 10 ^ size.decimal.places) = _ ∧
    Digits.fixed size.decimal.places (size.decimal.digits % 10 ^ size.decimal.places) = _
  rw [hdecimal, Nat.pow_one, Nat.mul_div_cancel n (by decide), Nat.mul_mod_left]
  exact ⟨rfl, rfl⟩

/-! ## Which real a text is of -/

theorem point_mem_text_finite (negative : Bool) (size : Magnitude) :
    '.' ∈ (finite negative size).text.toList := by
  rw [text_finite]
  exact (size.numeral negative).point_mem_text

theorem point_not_mem_text_infinite (negative : Bool) :
    '.' ∉ (infinite negative).text.toList := by
  cases negative <;> decide

theorem finite_of_text_eq {negative sign : Bool} {size other : Magnitude}
    (h : (finite negative size).text = (finite sign other).text) :
    finite negative size = finite sign other := by
  rw [text_finite, text_finite] at h
  have hnumeral : size.numeral negative = other.numeral sign := Numeral.text_injective h
  rw [← isNearest_numeral_iff, ← hnumeral]
  obtain ⟨hsign, hnearest⟩ := isNearest_numeral_iff.mpr (Eq.refl (finite negative size))
  exact ⟨hsign.trans (congrArg Numeral.negative hnumeral), hnearest⟩

theorem eq_of_text_eq {r s : Binary64} (hr : r ≠ nan) (hs : s ≠ nan) (h : r.text = s.text) :
    r = s := by
  cases r with
  | nan => exact absurd rfl hr
  | finite negative size =>
    cases s with
    | nan => exact absurd rfl hs
    | finite sign other => exact finite_of_text_eq h
    | infinite sign =>
      exact absurd (h ▸ point_mem_text_finite negative size) (point_not_mem_text_infinite sign)
  | infinite negative =>
    cases s with
    | nan => exact absurd rfl hs
    | finite sign other =>
      exact absurd (h ▸ point_mem_text_finite sign other) (point_not_mem_text_infinite negative)
    | infinite sign =>
      cases negative <;> cases sign
      · rfl
      · exact absurd h (by decide)
      · exact absurd h (by decide)
      · rfl

/-- In the text of every real there is a character that is no digit and no minus sign. -/
theorem exists_mark (r : Binary64) : ∃ c ∈ r.text.toList, c ≠ '-' ∧ c.isDigit = false := by
  cases r with
  | finite negative size =>
    exact ⟨'.', point_mem_text_finite negative size, by decide, rfl⟩
  | infinite negative => exact ⟨'i', by cases negative <;> decide, by decide, rfl⟩
  | nan => exact ⟨'N', by decide, by decide, rfl⟩

theorem bits_injective {r s : Binary64} (h : r.bits = s.bits) : r = s := by
  rw [← ofBits_bits r, h, ofBits_bits]

end Binary64

/-! ## Values -/

namespace Value

theorem toInt_text_integer (n : Int64) : Digits.toInt (integer n).text.toList = n.toInt := by
  rw [text, Digits.intText, String.toList_ofList, Digits.toInt_ofInt]

theorem text_real_ne_integer (r : Binary64) (n : Int64) : (real r).text ≠ (integer n).text := by
  intro h
  obtain ⟨c, hmem, hminus, hdigit⟩ := r.exists_mark
  have htext : r.text.toList = Digits.ofInt n.toInt := by
    show (real r).text.toList = _
    rw [h, text, Digits.intText, String.toList_ofList]
  rw [htext] at hmem
  rcases Digits.eq_minus_or_isDigit_of_mem_ofInt hmem with rfl | hc
  · exact hminus rfl
  · rw [hdigit] at hc
    cases hc

theorem eq_of_text_eq {v w : Value} (hv : v ≠ real .nan) (hw : w ≠ real .nan)
    (h : v.text = w.text) : v = w := by
  cases v with
  | integer n =>
    cases w with
    | integer m =>
      have hread := congrArg (fun s => Digits.toInt s.toList) h
      simp only [toInt_text_integer] at hread
      rw [Int64.toInt_inj.mp hread]
    | real s => exact absurd h.symm (text_real_ne_integer s n)
  | real r =>
    cases w with
    | integer m => exact absurd h (text_real_ne_integer r m)
    | real s =>
      have hr : r ≠ .nan := fun hnan => hv (congrArg real hnan)
      have hs : s ≠ .nan := fun hnan => hw (congrArg real hnan)
      exact congrArg real (Binary64.eq_of_text_eq hr hs h)

theorem text_integer (n : Int64) :
    (integer n).text =
      String.ofList ((if n.toInt < 0 then ['-'] else []) ++ Digits.ofNat n.toInt.natAbs) := by
  rw [text, Digits.intText, Digits.ofInt]
  split
  · rfl
  · rfl

/-- Every value but what is no number is known from its text. An integer prints as digits
behind a minus sign or not, which read back. A finite real prints as one numeral with its
sign, and it is the nearest number to the value of the numeral, and to that of none with
fewer places; if it is whole the numeral has its digits before the point and one zero
behind it. An infinite real prints as a word.
So values print alike exactly if they are the same integer or have the same bits, and no
real prints like an integer. -/
theorem text_reads_back :
    (∀ n : Int64, ∃ run, run ≠ [] ∧ (∀ c ∈ run, c.isDigit = true) ∧
      (integer n).text = String.ofList ((if n.toInt < 0 then ['-'] else []) ++ run) ∧
      Digits.toInt (integer n).text.toList = n.toInt) ∧
    (∀ (negative : Bool) (size : Magnitude), ∃ numeral : Numeral,
      (real (.finite negative size)).text = numeral.text ∧
      (∀ other : Numeral, other.text = numeral.text → other = numeral) ∧
      numeral.negative = negative ∧
      (∀ r : Binary64, r.isNegative = numeral.negative ∧ r.IsNearest numeral.toRat ↔
        r = .finite negative size) ∧
      (∀ other : Numeral, other.negative = negative →
        (Binary64.finite negative size).IsNearest other.toRat →
          numeral.fraction.length ≤ other.fraction.length) ∧
      ∀ n : Nat, |(Binary64.finite negative size).toRat| = n →
        numeral.whole = Digits.ofNat n ∧ numeral.fraction = ['0']) ∧
    (∀ negative, (real (.infinite negative)).text = if negative then "-inf" else "inf") ∧
    (∀ v w : Value, v ≠ real .nan → w ≠ real .nan →
      (v.text = w.text ↔ (∃ n, v = integer n ∧ w = integer n) ∨
        ∃ r s : Binary64, v = real r ∧ w = real s ∧ r.bits = s.bits)) ∧
    (∀ word other : UInt64, Binary64.ofBits word ≠ .nan → Binary64.ofBits other ≠ .nan →
      ((real (.ofBits word)).text = (real (.ofBits other)).text ↔ word = other)) ∧
    ∀ r n, (real r).text ≠ (integer n).text := by
  refine ⟨?_, ?_, fun _ => rfl, ?_, ?_, text_real_ne_integer⟩
  · intro n
    exact ⟨_, Digits.ofNat_ne_nil _, fun c hmem => Digits.isDigit_of_mem_ofNat hmem, text_integer n,
      toInt_text_integer n⟩
  · intro negative size
    refine ⟨size.numeral negative, Binary64.text_finite negative size,
      fun _ => Numeral.text_injective, rfl, fun r => Binary64.isNearest_numeral_iff, ?_,
      fun n => Binary64.numeral_of_whole⟩
    rintro other rfl hnearest
    exact Binary64.length_fraction_numeral_le hnearest _
  · intro v w hv hw
    constructor
    · intro h
      obtain rfl := eq_of_text_eq hv hw h
      cases v with
      | integer n => exact .inl ⟨n, rfl, rfl⟩
      | real r => exact .inr ⟨r, r, rfl, rfl, rfl⟩
    · rintro (⟨n, rfl, rfl⟩ | ⟨r, s, rfl, rfl, hbits⟩)
      · rfl
      · rw [Binary64.bits_injective hbits]
  · intro word other hword hother
    constructor
    · intro h
      rw [← Binary64.bits_ofBits hword, Binary64.eq_of_text_eq hword hother h,
        Binary64.bits_ofBits hother]
    · intro h
      rw [h]

/-- Two neighbours print differently, and so do the two zeros, which are whole. -/
theorem text_reads_back_of_neighbours :
    (Binary64.ofBits 0x3FD3333333333333 ≠ .nan ∧ Binary64.ofBits 0x3FD3333333333334 ≠ .nan ∧
      (real (.ofBits 0x3FD3333333333333)).text ≠ (real (.ofBits 0x3FD3333333333334)).text) ∧
    (real (.zero false) ≠ real .nan ∧ real (.zero true) ≠ real .nan ∧
      (real (.zero false)).text ≠ (real (.zero true)).text) ∧
    |(Binary64.zero true).toRat| = (0 : Nat) ∧
      ∃ numeral : Numeral, (real (.zero true)).text = numeral.text ∧ numeral.negative = true ∧
        numeral.whole = ['0'] ∧ numeral.fraction = ['0'] := by
  obtain ⟨-, hreals, -, hvalues, hwords, -⟩ := text_reads_back
  have hlow : Binary64.ofBits 0x3FD3333333333333 ≠ .nan := by decide
  have hhigh : Binary64.ofBits 0x3FD3333333333334 ≠ .nan := by decide
  have hplus : real (.zero false) ≠ real .nan := by decide
  have hminus : real (.zero true) ≠ real .nan := by decide
  have hzero : |(Binary64.zero true).toRat| = (0 : Nat) := by
    rw [Binary64.zero, Binary64.toRat, Magnitude.units_zero, Nat.cast_zero, zero_div,
      withSign_zero, abs_zero]
  have hdigits : Digits.ofNat 0 = ['0'] := by
    rw [Digits.ofNat]
    decide
  refine ⟨⟨hlow, hhigh, ?_⟩, ⟨hplus, hminus, ?_⟩, hzero, ?_⟩
  · rw [Ne, hwords _ _ hlow hhigh]
    decide
  · rw [Ne, hvalues _ _ hplus hminus]
    rintro (⟨n, hn, -⟩ | ⟨r, s, hr, hs, hbits⟩)
    · cases hn
    · cases hr
      cases hs
      exact absurd hbits (by decide)
  · obtain ⟨numeral, htext, -, hsign, -, -, hwhole⟩ := hreals true .zero
    exact ⟨numeral, htext, hsign, hdigits ▸ hwhole 0 hzero⟩

end Value

end LineCalc
