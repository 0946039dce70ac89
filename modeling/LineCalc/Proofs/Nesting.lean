import LineCalc.Token
/-
  Nesting: how many parentheses are open along a text or a list of tokens

  A parenthesis changes the number of open ones by one, anything else does not.
  `balance` is the change over a whole list, `deepest` the largest number open
  at any point of it, counted from none at its start. What is proved:
    1. `deepest_le_iff` — `deepest` bounds exactly the balance of every prefix;
    2. `deepest_append` — the depth of two lists one behind the other;
    3. `balance_enclosed`, `deepest_enclosed` — a list in parentheses.
  The change is a parameter, so that a line is measured in the same way as
  characters and as tokens.
-/

namespace LineCalc

/-- By how much a character changes the number of open parentheses. -/
def parenOfChar (c : Char) : Int :=
  if c = '(' then 1 else if c = ')' then -1 else 0

theorem parenOfChar_left : parenOfChar '(' = 1 := rfl

theorem parenOfChar_right : parenOfChar ')' = -1 := rfl

theorem parenOfChar_eq_zero {c : Char} (hleft : c ≠ '(') (hright : c ≠ ')') :
    parenOfChar c = 0 := by
  simp [parenOfChar, hleft, hright]

theorem parenOfChar_of_isDigit {c : Char} (h : c.isDigit = true) : parenOfChar c = 0 := by
  refine parenOfChar_eq_zero ?_ ?_
  · rintro rfl
    cases h
  · rintro rfl
    cases h

/-- By how much a token changes the number of open parentheses. -/
def Located.paren (located : Located) : Int :=
  match located.token with
  | .leftParen => 1
  | .rightParen => -1
  | _ => 0

theorem Located.paren_left (position : Nat) : Located.paren ⟨.leftParen, position⟩ = 1 := rfl

theorem Located.paren_right (position : Nat) : Located.paren ⟨.rightParen, position⟩ = -1 := rfl

theorem Located.paren_operator (op : Operator) (position : Nat) :
    Located.paren ⟨.operator op, position⟩ = 0 := rfl

namespace Nesting
variable {α : Type} (paren : α → Int)

/-- The parentheses opened in a list less those closed in it. -/
def balance : List α → Int
  | [] => 0
  | x :: xs => paren x + balance xs

/-- The most parentheses open at once, at any point of a list. -/
def deepest : List α → Int
  | [] => 0
  | x :: xs => max 0 (paren x + deepest xs)

@[simp] theorem balance_nil : balance paren [] = 0 := rfl

@[simp] theorem balance_cons (x : α) (xs : List α) :
    balance paren (x :: xs) = paren x + balance paren xs := rfl

@[simp] theorem balance_append (xs ys : List α) :
    balance paren (xs ++ ys) = balance paren xs + balance paren ys := by
  induction xs with
  | nil => simp
  | cons x xs ih =>
    rw [List.cons_append, balance_cons, balance_cons, ih]
    omega

theorem balance_of_eq_zero {xs : List α} (hxs : ∀ x ∈ xs, paren x = 0) :
    balance paren xs = 0 := by
  induction xs with
  | nil => rfl
  | cons x xs ih =>
    rw [balance_cons, hxs x List.mem_cons_self, ih fun y hy => hxs y (List.mem_cons_of_mem x hy)]
    rfl

theorem deepest_nonneg (xs : List α) : 0 ≤ deepest paren xs := by
  cases xs with
  | nil => exact Int.le_refl 0
  | cons x xs => exact Int.le_max_left 0 _

theorem deepest_append (xs ys : List α) :
    deepest paren (xs ++ ys) = max (deepest paren xs) (balance paren xs + deepest paren ys) := by
  induction xs with
  | nil =>
    have := deepest_nonneg paren ys
    simp [deepest]
    omega
  | cons x xs ih =>
    simp only [List.cons_append, deepest, ih, balance_cons]
    omega

theorem deepest_cons_of_eq_zero {x : α} (hx : paren x = 0) (xs : List α) :
    deepest paren (x :: xs) = deepest paren xs := by
  have := deepest_nonneg paren xs
  simp only [deepest, hx]
  omega

theorem deepest_append_of_eq_zero {xs : List α} (hxs : ∀ x ∈ xs, paren x = 0) (ys : List α) :
    deepest paren (xs ++ ys) = deepest paren ys := by
  induction xs with
  | nil => rfl
  | cons x xs ih =>
    rw [List.cons_append, deepest_cons_of_eq_zero paren (hxs x List.mem_cons_self),
      ih fun y hy => hxs y (List.mem_cons_of_mem x hy)]

/-- The depth is that of the changes, whatever makes them. -/
theorem deepest_map {β : Type} {paren : α → Int} {parenOf : β → Int} {f : α → β}
    (h : ∀ x, parenOf (f x) = paren x) (xs : List α) :
    deepest parenOf (xs.map f) = deepest paren xs := by
  induction xs with
  | nil => rfl
  | cons x xs ih => simp only [List.map_cons, deepest, ih, h]

/-- The depth of a list is the largest balance of its prefixes. -/
theorem deepest_le_iff {xs : List α} {n : Int} :
    deepest paren xs ≤ n ↔ ∀ before, before <+: xs → balance paren before ≤ n := by
  induction xs generalizing n with
  | nil => simp [deepest]
  | cons x xs ih =>
    have hstep : deepest paren (x :: xs) ≤ n ↔ 0 ≤ n ∧ deepest paren xs ≤ n - paren x := by
      simp only [deepest]
      omega
    rw [hstep, ih]
    constructor
    · rintro ⟨hn, hrest⟩ before hbefore
      rcases List.prefix_cons_iff.mp hbefore with rfl | ⟨inner, rfl, hinner⟩
      · simpa using hn
      · have := hrest inner hinner
        simp only [balance_cons]
        omega
    · intro h
      refine ⟨by simpa using h [] List.nil_prefix, fun before hbefore => ?_⟩
      have := h (x :: before) (List.prefix_cons_inj x |>.mpr hbefore)
      simp only [balance_cons] at this
      omega

/-- No prefix of a list closes more than it opens. -/
def NeverNegative (xs : List α) : Prop :=
  ∀ before, before <+: xs → 0 ≤ balance paren before

variable {paren} {opening closing : α}

theorem balance_enclosed (hopening : paren opening = 1) (hclosing : paren closing = -1)
    (xs : List α) : balance paren (opening :: xs ++ [closing]) = balance paren xs := by
  simp only [List.cons_append, balance_cons, balance_append, balance_nil, hopening, hclosing]
  omega

theorem deepest_enclosed (hopening : paren opening = 1) (hclosing : paren closing = -1)
    {xs : List α} (hxs : balance paren xs = 0) :
    deepest paren (opening :: xs ++ [closing]) = deepest paren xs + 1 := by
  have := deepest_nonneg paren xs
  simp only [List.cons_append, deepest, deepest_append, hopening, hclosing, hxs]
  omega

theorem NeverNegative.enclosed (hopening : paren opening = 1) (hclosing : paren closing = -1)
    {xs : List α} (hxs : NeverNegative paren xs) :
    NeverNegative paren (opening :: xs ++ [closing]) := by
  intro before hbefore
  rcases List.prefix_cons_iff.mp hbefore with rfl | ⟨inner, rfl, hinner⟩
  · exact Int.le_refl 0
  · rw [balance_cons, hopening]
    rcases List.prefix_concat_iff.mp hinner with rfl | hinner
    · have := hxs xs List.prefix_rfl
      simp only [balance_append, balance_cons, balance_nil, hclosing]
      omega
    · have := hxs inner hinner
      omega

theorem NeverNegative.append {xs ys : List α} (hbalance : balance paren xs = 0)
    (hxs : NeverNegative paren xs) (hys : NeverNegative paren ys) :
    NeverNegative paren (xs ++ ys) := by
  intro before hbefore
  rcases List.prefix_or_prefix_of_prefix hbefore (List.prefix_append xs ys) with h | ⟨inner, rfl⟩
  · exact hxs before h
  · have := hys inner ((List.prefix_append_right_inj xs).mp hbefore)
    rw [balance_append, hbalance]
    omega

theorem NeverNegative.cons {x : α} {xs : List α} (hx : 0 ≤ paren x)
    (hxs : NeverNegative paren xs) : NeverNegative paren (x :: xs) := by
  intro before hbefore
  rcases List.prefix_cons_iff.mp hbefore with rfl | ⟨inner, rfl, hinner⟩
  · exact Int.le_refl 0
  · have := hxs inner hinner
    rw [balance_cons]
    omega

end Nesting

end LineCalc
