import LineCalc.Proofs.Pointing
/-
  Exactness: an expression without divisions is worth its exact value or overflows

  `Expr.exact` computes a tree in the integers, where nothing is ever too large.
  `Expr.subtrees` lists the subtrees of a tree in the order in which they are
  evaluated, and `Expr.FirstOut` is the first of them whose exact value is no
  64-bit integer.

  What is proved:
    1. `Operator.apply_integers` — one operation answers the exact result, or
       overflows at its own position;
    2. `Expr.value_of_divisionFree` — a tree is worth its exact value if no
       subtree is out of range, and overflows at the first one otherwise, even
       where a later operation would lead back into range;
    3. the same for the lines whose text holds no division.
-/

namespace LineCalc

/-- Whether a number is a 64-bit integer. -/
def InRange (n : Int) : Prop := -2 ^ 63 ≤ n ∧ n < 2 ^ 63

instance (n : Int) : Decidable (InRange n) := inferInstanceAs (Decidable (_ ∧ _))

theorem inRange_toInt (value : Int64) : InRange value.toInt := ⟨value.le_toInt, value.toInt_lt⟩

theorem toInt_ofInt_of_inRange {n : Int} (h : InRange n) : (Int64.ofInt n).toInt = n :=
  Int64.toInt_ofInt_of_le h.1 h.2

/-- The result of an operator in the integers. A quotient is no integer: it counts
as zero, and the trees below hold none. -/
def Operator.exact : Operator → Int → Int → Int
  | add, a, b => a + b
  | sub, a, b => a - b
  | mul, a, b => a * b
  | div, _, _ => 0

namespace Expr

/-- Whether no operation of a tree is a division. -/
def DivisionFree : Expr → Prop
  | literal _ _ => True
  | binary left op right _ => left.DivisionFree ∧ right.DivisionFree ∧ op ≠ .div

instance decidableDivisionFree : (tree : Expr) → Decidable tree.DivisionFree
  | literal _ _ => inferInstanceAs (Decidable True)
  | binary left op right _ =>
    have := decidableDivisionFree left
    have := decidableDivisionFree right
    inferInstanceAs (Decidable (left.DivisionFree ∧ right.DivisionFree ∧ op ≠ .div))

/-- The value of a tree without divisions in the integers. -/
def exact : Expr → Int
  | literal value _ => value.toInt
  | binary left op right _ => op.exact left.exact right.exact

theorem exact_binary (left : Expr) (op : Operator) (right : Expr) (position : Nat) :
    (binary left op right position).exact = op.exact left.exact right.exact := rfl

/-- The subtrees of a tree, those of the left operand first, then those of the
right one, then the tree itself. -/
def subtrees : Expr → List Expr
  | literal value position => [literal value position]
  | binary left op right position =>
    left.subtrees ++ right.subtrees ++ [binary left op right position]

/-- The root of a tree, its operands apart. -/
def node : Expr → Node
  | literal value position => .literal value position
  | binary _ op _ position => .operation op position

theorem map_node_subtrees (tree : Expr) : tree.subtrees.map node = tree.postorder := by
  induction tree with
  | literal value position => rfl
  | binary left op right position ihl ihr => simp [subtrees, postorder, ihl, ihr, node]

/-- Whether the exact value of every subtree is a 64-bit integer. -/
def AllInRange (tree : Expr) : Prop := ∀ sub ∈ tree.subtrees, InRange sub.exact

instance (tree : Expr) : Decidable tree.AllInRange :=
  inferInstanceAs (Decidable (∀ sub ∈ tree.subtrees, InRange sub.exact))

/-- Whether a subtree is the first one whose exact value is out of range. -/
def FirstOut (tree sub : Expr) : Prop :=
  ∃ before after, tree.subtrees = before ++ sub :: after ∧
    (∀ earlier ∈ before, InRange earlier.exact) ∧ ¬ InRange sub.exact

/-- The first subtree whose exact value is out of range, if there is one. -/
def firstOut? (tree : Expr) : Option Expr :=
  tree.subtrees.find? fun sub => !decide (InRange sub.exact)

theorem mem_subtrees_self (tree : Expr) : tree ∈ tree.subtrees := by
  cases tree <;> simp [subtrees]

theorem firstOut?_eq_none_iff {tree : Expr} : tree.firstOut? = none ↔ tree.AllInRange := by
  simp [firstOut?, AllInRange]

theorem firstOut?_eq_some_iff {tree sub : Expr} :
    tree.firstOut? = some sub ↔ tree.FirstOut sub := by
  rw [firstOut?, List.find?_eq_some_iff_append, FirstOut]
  constructor
  · rintro ⟨hout, before, after, hsplit, hbefore⟩
    exact ⟨before, after, hsplit, by simpa using hbefore, by simpa using hout⟩
  · rintro ⟨before, after, hsplit, hbefore, hout⟩
    exact ⟨by simpa using hout, before, after, hsplit, by simpa using hbefore⟩

theorem firstOut?_literal (value : Int64) (position : Nat) :
    (literal value position).firstOut? = none := by
  rw [firstOut?_eq_none_iff]
  intro sub hsub
  rw [List.mem_singleton.mp hsub]
  exact inRange_toInt value

theorem firstOut?_binary (left : Expr) (op : Operator) (right : Expr) (position : Nat) :
    (binary left op right position).firstOut? =
      (left.firstOut?.or right.firstOut?).or
        (if InRange (binary left op right position).exact then none
          else some (binary left op right position)) := by
  have hself : [binary left op right position].find? (fun sub => !decide (InRange sub.exact)) =
      if InRange (binary left op right position).exact then none
        else some (binary left op right position) := by
    by_cases hin : InRange (binary left op right position).exact <;> simp [hin]
  rw [firstOut?, subtrees, List.find?_append, List.find?_append, hself]
  rfl

end Expr

/-! ## Evaluation -/

theorem Operator.apply_integers {op : Operator} (hop : op ≠ .div) (a b : Int64) (position : Nat) :
    op.apply (.integer a) (.integer b) position =
      if InRange (op.exact a.toInt b.toInt)
        then .ok (.integer (Int64.ofInt (op.exact a.toInt b.toInt)))
        else .error (.overflow position) := by
  cases op with
  | add => rfl
  | sub => rfl
  | mul => rfl
  | div => exact absurd rfl hop

namespace Expr

/-- A tree without divisions is worth its exact value, or overflows at the first
subtree whose exact value is out of range. -/
theorem value_of_divisionFree {tree : Expr} (h : tree.DivisionFree) :
    tree.value =
      match tree.firstOut? with
      | none => .ok (.integer (Int64.ofInt tree.exact))
      | some sub => .error (.overflow sub.position) := by
  induction tree with
  | literal value position => rw [firstOut?_literal, Expr.value, exact, Int64.ofInt_toInt]
  | binary left op right position ihl ihr =>
    obtain ⟨hleft, hright, hop⟩ := h
    rw [value, ihl hleft, ihr hright, firstOut?_binary]
    cases houtl : left.firstOut? with
    | some sub => rfl
    | none =>
      cases houtr : right.firstOut? with
      | some sub => rfl
      | none =>
        -- Both operands are in range, so the operation is on their exact values.
        have hinl := firstOut?_eq_none_iff.mp houtl left left.mem_subtrees_self
        have hinr := firstOut?_eq_none_iff.mp houtr right right.mem_subtrees_self
        simp only [Operator.apply_integers hop, toInt_ofInt_of_inRange hinl,
          toInt_ofInt_of_inRange hinr, ← exact_binary left op right position, Option.none_or]
        by_cases hin : InRange (binary left op right position).exact
        · rw [if_pos hin, if_pos hin]
        · rw [if_neg hin, if_neg hin]
          rfl

theorem value_of_allInRange {tree : Expr} (h : tree.DivisionFree) (hin : tree.AllInRange) :
    tree.value = .ok (.integer (Int64.ofInt tree.exact)) := by
  rw [value_of_divisionFree h, firstOut?_eq_none_iff.mpr hin]

theorem exists_firstOut {tree : Expr} (h : tree.DivisionFree) (hout : ¬ tree.AllInRange) :
    ∃ sub, tree.FirstOut sub ∧ tree.value = .error (.overflow sub.position) := by
  cases hfirst : tree.firstOut? with
  | none => exact absurd (firstOut?_eq_none_iff.mp hfirst) hout
  | some sub =>
    refine ⟨sub, firstOut?_eq_some_iff.mp hfirst, ?_⟩
    rw [value_of_divisionFree h, hfirst]

theorem toInt_ofInt_exact {tree : Expr} (hin : tree.AllInRange) :
    (Int64.ofInt tree.exact).toInt = tree.exact :=
  toInt_ofInt_of_inRange (hin tree tree.mem_subtrees_self)

/-- The value of a tree without divisions is an integer exactly if every subtree is
in range, and then it is the exact one. -/
theorem value_eq_integer_iff {tree : Expr} (h : tree.DivisionFree) (v : Int64) :
    tree.value = .ok (.integer v) ↔ tree.AllInRange ∧ v.toInt = tree.exact := by
  by_cases hin : tree.AllInRange
  · rw [value_of_allInRange h hin]
    constructor
    · intro hv
      cases hv
      exact ⟨hin, toInt_ofInt_exact hin⟩
    · rintro ⟨-, hv⟩
      rw [← hv, Int64.ofInt_toInt]
  · obtain ⟨sub, -, herror⟩ := exists_firstOut h hin
    rw [herror]
    constructor
    · nofun
    · exact fun ⟨hall, _⟩ => absurd hall hin

end Expr

/-! ## Lines -/

theorem Expr.divisionFree_of_inorder {tree : Expr}
    (h : ∀ position, ⟨.operator .div, position⟩ ∉ tree.inorder) : tree.DivisionFree := by
  induction tree with
  | literal value position => trivial
  | binary left op right position ihl ihr =>
    refine ⟨?_, ?_, ?_⟩
    · exact ihl fun place hmem => h place (List.mem_append_left _ hmem)
    · exact ihr fun place hmem =>
        h place (List.mem_append_right _ (List.mem_cons_of_mem _ hmem))
    · rintro rfl
      exact h position (List.mem_append_right _ List.mem_cons_self)

theorem divisionFree_of_parseLine {source : String} {tree : Expr}
    (h : parseLine source = .ok tree) (hsource : '/' ∉ source.toList) : tree.DivisionFree := by
  apply Expr.divisionFree_of_inorder
  intro position hmem
  exact hsource (List.mem_of_getElem? (symbol_of_mem_inorder h hmem))

/-- An expression without divisions is worth an integer exactly if the exact value
of each of its subtrees is a 64-bit integer. Then its value is the exact one, and
otherwise it overflows at the first subtree, in postorder, that is out of range.
So a line that is accepted and holds no division sign answers the exact value of
the tree that its tokens derive, or an overflow at the first operator whose exact
result is out of range. -/
theorem value_exact_or_overflow :
    (∀ tree : Expr, tree.subtrees.map Expr.node = tree.postorder ∧
      (tree.DivisionFree →
        ((∃ v, tree.value = .ok (.integer v)) ↔ tree.AllInRange) ∧
        (∀ v, tree.value = .ok (.integer v) → v.toInt = tree.exact) ∧
        (¬ tree.AllInRange →
          ∃ sub, tree.FirstOut sub ∧ tree.value = .error (.overflow sub.position)))) ∧
    ∀ source : String, (∃ tree, parseLine source = .ok tree) → '/' ∉ source.toList →
      ∃ ts reading, tokenize source = .ok ts ∧ Derives (.chain .sum) ts reading ∧
        ((reading.AllInRange ∧
            ∃ v, evaluateLine source = .ok (.integer v) ∧ v.toInt = reading.exact) ∨
          ∃ sub, reading.FirstOut sub ∧ OperatorAt source.toList sub.position ∧
            evaluateLine source = .error (.runtime (.overflow sub.position))) := by
  constructor
  · intro tree
    refine ⟨tree.map_node_subtrees, fun h => ⟨⟨?_, ?_⟩, ?_, Expr.exists_firstOut h⟩⟩
    · rintro ⟨v, hv⟩
      exact ((Expr.value_eq_integer_iff h v).mp hv).1
    · exact fun hin => ⟨_, Expr.value_of_allInRange h hin⟩
    · exact fun v hv => ((Expr.value_eq_integer_iff h v).mp hv).2
  · rintro source ⟨tree, hparse⟩ hsource
    obtain ⟨ts, hts, hderives, -⟩ := derives_of_parseLine hparse
    have hfree := divisionFree_of_parseLine hparse hsource
    refine ⟨ts, tree, hts, hderives, ?_⟩
    rw [evaluateLine_of_parseLine hparse, Expr.answer]
    by_cases hin : tree.AllInRange
    · rw [Expr.value_of_allInRange hfree hin]
      exact .inl ⟨hin, _, rfl, Expr.toInt_ofInt_exact hin⟩
    · obtain ⟨sub, hsub, hvalue⟩ := Expr.exists_firstOut hfree hin
      have hpoints : OperatorAt source.toList sub.position := points_of_value hparse hvalue
      rw [hvalue]
      exact .inr ⟨sub, hsub, hpoints, rfl⟩

/-- A result that a later operation would lead back into range overflows all the same,
and a product is worth its value before it is added. -/
theorem value_exact_or_overflow_of_cancelling :
    let tree : Expr :=
      .binary (.binary (.literal Int64.minValue 0) .mul (.literal (-1) 2) 1) .sub (.literal 1 4) 3
    let source := "9223372036854775807+1-1"
    let other := "1+2*3"
    (InRange tree.exact ∧ tree.DivisionFree ∧ ¬ tree.AllInRange ∧
      ∃ sub, tree.FirstOut sub ∧ tree.value = .error (.overflow sub.position)) ∧
    ((∃ tree, parseLine source = .ok tree) ∧ '/' ∉ source.toList ∧
      ∃ ts reading, tokenize source = .ok ts ∧ Derives (.chain .sum) ts reading ∧
        ((reading.AllInRange ∧
            ∃ v, evaluateLine source = .ok (.integer v) ∧ v.toInt = reading.exact) ∨
          ∃ sub, reading.FirstOut sub ∧ OperatorAt source.toList sub.position ∧
            evaluateLine source = .error (.runtime (.overflow sub.position)))) ∧
    (∃ tree, parseLine other = .ok tree) ∧ '/' ∉ other.toList ∧
      ∃ ts reading, tokenize other = .ok ts ∧ Derives (.chain .sum) ts reading ∧
        reading.exact = 7 ∧ evaluateLine other = .ok (.integer 7) := by
  intro tree source other
  have hfree : tree.DivisionFree := by decide
  have hout : ¬ tree.AllInRange := by decide +kernel
  have hparse : ∃ tree, parseLine source = .ok tree :=
    ⟨.binary (.binary (.literal 9223372036854775807 0) .add (.literal 1 20) 19) .sub
      (.literal 1 22) 21, by decide +kernel⟩
  have hsource : '/' ∉ source.toList := by decide +kernel
  have hparse' : ∃ tree, parseLine other = .ok tree :=
    ⟨.binary (.literal 1 0) .add (.binary (.literal 2 2) .mul (.literal 3 4) 3) 1,
      by decide +kernel⟩
  have hother : '/' ∉ other.toList := by decide +kernel
  have hvalue : evaluateLine other = .ok (.integer 7) := by decide +kernel
  obtain ⟨htrees, hlines⟩ := value_exact_or_overflow
  refine ⟨⟨by decide +kernel, hfree, hout, ((htrees tree).2 hfree).2.2 hout⟩,
    ⟨hparse, hsource, hlines source hparse hsource⟩, hparse', hother, ?_⟩
  obtain ⟨ts, reading, hts, hderives, hanswer⟩ := hlines other hparse' hother
  refine ⟨ts, reading, hts, hderives, ?_, hvalue⟩
  rcases hanswer with ⟨-, v, hv, hexact⟩ | ⟨sub, -, -, herror⟩
  · rw [hvalue] at hv
    cases hv
    exact hexact.symm
  · rw [hvalue] at herror
    cases herror

end LineCalc
