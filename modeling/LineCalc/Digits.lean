/-
  Digits: the decimal text of a whole number

  `Digits.ofNat` writes a natural number without leading zeros, `Digits.toNat`
  reads any run of digits, leading zeros included. `Digits.ofInt` puts a minus
  sign before the digits of a negative number, and `Digits.toInt` reads it.
  `Digits.hex` writes a natural number in base sixteen, in lower case, and
  `Digits.ofHex` reads it.
-/

-- Here and in the modules that build on this one, `b ^ n` is the power that
-- `Nat` and `Int` have by themselves.
attribute [instance (20000), default_instance 20000] instPowNat

namespace LineCalc.Digits

/-- The character of a digit below sixteen, in lower case. -/
def digitChar (d : Nat) : Char :=
  if d < 10 then Char.ofNat (48 + d) else Char.ofNat (87 + d)

/-- The number a digit character stands for. -/
def digitValue (c : Char) : Nat := c.toNat - 48

/-- The decimal digits of a number, most significant first. -/
def ofNat (n : Nat) : List Char :=
  if n < 10 then [digitChar n] else ofNat (n / 10) ++ [digitChar (n % 10)]
termination_by n

/-- The last decimal digits of a number, so many of them. -/
def fixed : Nat → Nat → List Char
  | 0, _ => []
  | count + 1, n => fixed count (n / 10) ++ [digitChar (n % 10)]

/-- The number that a run of decimal digits denotes. -/
def toNat (run : List Char) : Nat :=
  run.foldl (fun n c => 10 * n + digitValue c) 0

/-- The decimal text of an integer: digits, behind a minus sign if negative. -/
def ofInt (n : Int) : List Char :=
  if n < 0 then '-' :: ofNat n.natAbs else ofNat n.natAbs

/-- The integer that digits denote, behind a minus sign if it is negative. -/
def toInt : List Char → Int
  | '-' :: run => -(toNat run : Int)
  | run => toNat run

/-- The hexadecimal digits of a number, most significant first. -/
def hex (n : Nat) : List Char :=
  if n < 16 then [digitChar n] else hex (n / 16) ++ [digitChar (n % 16)]
termination_by n

/-- The number that a hexadecimal digit stands for. -/
def hexValue (c : Char) : Nat := if c.isDigit then c.toNat - 48 else c.toNat - 87

/-- The number that a run of hexadecimal digits denotes. -/
def ofHex (run : List Char) : Nat := run.foldl (fun n c => 16 * n + hexValue c) 0

/-- The decimal text of a natural number as a string. -/
def text (n : Nat) : String := String.ofList (ofNat n)

/-- The decimal text of a 64-bit integer as a string. -/
def intText (n : Int64) : String := String.ofList (ofInt n.toInt)

/-! ## Reading what was written -/

theorem digitValue_digitChar {d : Nat} (h : d < 10) : digitValue (digitChar d) = d := by
  have : ∀ d : Fin 10, digitValue (digitChar d) = d := by decide
  exact this ⟨d, h⟩

theorem isDigit_digitChar {d : Nat} (h : d < 10) : (digitChar d).isDigit = true := by
  have : ∀ d : Fin 10, (digitChar d).isDigit = true := by decide
  exact this ⟨d, h⟩

theorem toNat_concat (run : List Char) (c : Char) :
    toNat (run ++ [c]) = 10 * toNat run + digitValue c := by
  simp [toNat, List.foldl_append]

/-- Reading the digits of a number gives the number back. -/
theorem toNat_ofNat (n : Nat) : toNat (ofNat n) = n := by
  fun_induction ofNat n with
  | case1 n h => simpa [toNat] using digitValue_digitChar h
  | case2 n _ ih =>
    rw [toNat_concat, ih, digitValue_digitChar (Nat.mod_lt n (by decide))]
    omega

theorem ofNat_ne_nil (n : Nat) : ofNat n ≠ [] := by
  rw [ofNat]
  split <;> simp

theorem isDigit_of_mem_ofNat {c : Char} {n : Nat} (h : c ∈ ofNat n) : c.isDigit = true := by
  fun_induction ofNat n with
  | case1 n hn =>
    rw [List.mem_singleton.1 h]
    exact isDigit_digitChar hn
  | case2 n _ ih =>
    rcases List.mem_append.1 h with h | h
    · exact ih h
    · rw [List.mem_singleton.1 h]
      exact isDigit_digitChar (Nat.mod_lt n (by decide))

theorem eq_minus_or_isDigit_of_mem_ofInt {c : Char} {n : Int} (h : c ∈ ofInt n) :
    c = '-' ∨ c.isDigit = true := by
  unfold ofInt at h
  split at h
  · exact (List.mem_cons.mp h).imp id isDigit_of_mem_ofNat
  · exact .inr (isDigit_of_mem_ofNat h)

theorem head_ofNat_ne_minus (n : Nat) (run : List Char) : ofNat n ≠ '-' :: run := by
  intro h
  have hdigit : ('-').isDigit = true := isDigit_of_mem_ofNat (h ▸ List.mem_cons_self)
  cases hdigit

theorem toInt_ofInt (n : Int) : toInt (ofInt n) = n := by
  unfold ofInt
  split
  · rw [toInt, toNat_ofNat]
    omega
  · rw [toInt.eq_def]
    split
    · rename_i run h
      exact absurd h (head_ofNat_ne_minus _ run)
    · rw [toNat_ofNat]
      omega

theorem hexValue_digitChar {d : Nat} (h : d < 16) : hexValue (digitChar d) = d := by
  have : ∀ d : Fin 16, hexValue (digitChar d) = d := by decide
  exact this ⟨d, h⟩

theorem ofHex_concat (run : List Char) (c : Char) :
    ofHex (run ++ [c]) = 16 * ofHex run + hexValue c := by
  simp [ofHex, List.foldl_append]

theorem ofHex_hex (n : Nat) : ofHex (hex n) = n := by
  fun_induction hex n with
  | case1 n h => simpa [ofHex] using hexValue_digitChar h
  | case2 n _ ih =>
    rw [ofHex_concat, ih, hexValue_digitChar (Nat.mod_lt n (by decide))]
    omega

theorem length_fixed (count n : Nat) : (fixed count n).length = count := by
  induction count generalizing n with
  | zero => rfl
  | succ count ih => simp [fixed, ih]

theorem isDigit_of_mem_fixed {c : Char} {count n : Nat} (h : c ∈ fixed count n) :
    c.isDigit = true := by
  induction count generalizing n with
  | zero => cases h
  | succ count ih =>
    rcases List.mem_append.1 h with h | h
    · exact ih h
    · rw [List.mem_singleton.1 h]
      exact isDigit_digitChar (Nat.mod_lt n (by decide))

/-- The last digits of a number denote it up to a power of ten. -/
theorem toNat_fixed (count n : Nat) : toNat (fixed count n) = n % 10 ^ count := by
  induction count generalizing n with
  | zero => simp [fixed, toNat, Nat.mod_one]
  | succ count ih =>
    rw [fixed, toNat_concat, ih, digitValue_digitChar (Nat.mod_lt n (by decide)),
      Nat.pow_succ, Nat.mul_comm (10 ^ count), Nat.mod_mul]
    omega

end LineCalc.Digits
