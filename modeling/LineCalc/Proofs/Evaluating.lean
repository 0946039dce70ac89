import LineCalc.Proofs.Exactness
import LineCalc.Proofs.Reals
/-
  Evaluating: the type of a value, and the first error of a tree

  The type of a value is known from the tree: it is an integer if no operation is
  a division, and a finite real otherwise. An evaluation goes through the nodes in
  postorder and ends at the first of them whose operator fails on the values of its
  operands. `Expr.completed` lists the trees that a list of nodes completes on a
  stack, which are the subtrees where the nodes are those of a tree.

  What is proved:
    1. `Expr.suits_of_value` — every value is of the type of its tree, and if a
       tree has a value all its subtrees have one;
    2. `Expr.value_eq_error_iff` — a tree fails with the error of the first subtree
       that fails at its root;
    3. `Expr.take_subtrees` — the subtrees up to a place are known from the nodes up
       to that place, so nothing behind the first failure changes the answer.
-/

namespace LineCalc

/-! ## The type of a value -/

/-- Whether a value is of the type that a tree has. -/
def Value.Suits (tree : Expr) : Value → Prop
  | integer _ => tree.DivisionFree
  | real r => ¬ tree.DivisionFree ∧ r.isFinite

theorem Value.Suits.isReal_iff {tree : Expr} {v : Value} (h : v.Suits tree) :
    v.isReal ↔ ¬ tree.DivisionFree := by
  cases v with
  | integer n => exact iff_of_false Bool.false_ne_true (not_not_intro h)
  | real r => exact iff_of_true rfl h.1

theorem Operator.isReal_of_apply {op : Operator} {left right v : Value} {position : Nat}
    (h : op.apply left right position = .ok v) :
    v.isReal ↔ op = .div ∨ left.isReal ∨ right.isReal := by
  by_cases hreals : op = .div ∨ left.isReal ∨ right.isReal
  · refine iff_of_true ?_ hreals
    by_cases hzero : op = .div ∧ right.isZero
    · obtain ⟨rfl, hzero⟩ := hzero
      cases h.symm.trans (apply_eq_divisionByZero_iff.mpr ⟨⟨rfl, hzero⟩, rfl⟩)
    · rw [apply_eq_ofRounded hreals hzero] at h
      rw [(Value.of_ofRounded_ok h).1]
      rfl
  · -- Two integers and no division: the answer is an integer or none.
    refine iff_of_false ?_ hreals
    simp only [not_or] at hreals
    obtain ⟨hop, hleft, hright⟩ := hreals
    obtain ⟨a, rfl⟩ := Value.exists_integer hleft
    obtain ⟨b, rfl⟩ := Value.exists_integer hright
    rw [apply_integers hop] at h
    split at h
    · cases h
      exact Bool.false_ne_true
    · cases h

namespace Expr

theorem value_binary_eq_ok {left right : Expr} {op : Operator} {position : Nat} {v : Value}
    (h : (binary left op right position).value = .ok v) :
    ∃ l r, left.value = .ok l ∧ right.value = .ok r ∧ op.apply l r position = .ok v := by
  rw [value] at h
  cases hleft : left.value with
  | error e =>
    simp only [hleft] at h
    cases h
  | ok l =>
    cases hright : right.value with
    | error e =>
      simp only [hleft, hright] at h
      cases h
    | ok r =>
      simp only [hleft, hright] at h
      exact ⟨l, r, rfl, rfl, h⟩

theorem suits_of_value {tree : Expr} {v : Value} (h : tree.value = .ok v) : v.Suits tree := by
  induction tree generalizing v with
  | literal n position =>
    cases h
    trivial
  | binary left op right position ihl ihr =>
    obtain ⟨l, r, hleft, hright, happly⟩ := value_binary_eq_ok h
    have hreal := Operator.isReal_of_apply happly
    rw [(ihl hleft).isReal_iff, (ihr hright).isReal_iff] at hreal
    cases v with
    | integer n =>
      show left.DivisionFree ∧ right.DivisionFree ∧ op ≠ .div
      simp only [Value.isReal, Bool.false_eq_true, false_iff, not_or, Decidable.not_not] at hreal
      exact ⟨hreal.2.1, hreal.2.2, hreal.1⟩
    | real s =>
      refine ⟨?_, Operator.isFinite_of_apply happly⟩
      rintro ⟨hfreel, hfreer, hop⟩
      rcases hreal.mp rfl with hdiv | hfree | hfree
      · exact hop hdiv
      · exact hfree hfreel
      · exact hfree hfreer

theorem exists_value_of_mem_subtrees {tree sub : Expr} {v : Value} (h : tree.value = .ok v)
    (hsub : sub ∈ tree.subtrees) : ∃ w, sub.value = .ok w := by
  induction tree generalizing v with
  | literal n position =>
    rw [List.mem_singleton.mp hsub]
    exact ⟨v, h⟩
  | binary left op right position ihl ihr =>
    obtain ⟨l, r, hleft, hright, -⟩ := value_binary_eq_ok h
    simp only [subtrees, List.mem_append, List.mem_singleton] at hsub
    rcases hsub with (hsub | hsub) | rfl
    · exact ihl hleft hsub
    · exact ihr hright hsub
    · exact ⟨v, h⟩

/-! ## The first error -/

/-- Whether the operands of the root have values, and its operator fails on them. -/
def FailsWith (e : RuntimeError) : Expr → Prop
  | literal _ _ => False
  | binary left op right position =>
    ∃ l r, left.value = .ok l ∧ right.value = .ok r ∧ op.apply l r position = .error e

/-- The error that the operator at the root fails with on the values of its operands. -/
def rootError? : Expr → Option RuntimeError
  | literal _ _ => none
  | binary left op right position =>
    match left.value with
    | .error _ => none
    | .ok l =>
      match right.value with
      | .error _ => none
      | .ok r =>
        match op.apply l r position with
        | .error e => some e
        | .ok _ => none

theorem rootError?_eq_some_iff {tree : Expr} {e : RuntimeError} :
    tree.rootError? = some e ↔ tree.FailsWith e := by
  cases tree with
  | literal n position => simp [rootError?, FailsWith]
  | binary left op right position =>
    rw [rootError?, FailsWith]
    cases left.value with
    | error e' => simp
    | ok l =>
      cases right.value with
      | error e' => simp
      | ok r => cases h : op.apply l r position <;> simp [h]

theorem rootError?_eq_none_iff {tree : Expr} :
    tree.rootError? = none ↔ ∀ e, ¬ tree.FailsWith e := by
  simp only [Option.eq_none_iff_forall_ne_some, ne_eq, rootError?_eq_some_iff]

/-- A tree fails with the first error of a root among its subtrees, and only then. -/
theorem findSome?_rootError? (tree : Expr) :
    tree.subtrees.findSome? rootError? =
      match tree.value with
      | .error e => some e
      | .ok _ => none := by
  induction tree with
  | literal n position => rfl
  | binary left op right position ihl ihr =>
    rw [subtrees, List.findSome?_append, List.findSome?_append, ihl, ihr, value]
    cases hleft : left.value with
    | error e => rfl
    | ok l =>
      cases hright : right.value with
      | error e => rfl
      | ok r =>
        simp only [Option.none_or, List.findSome?_singleton, rootError?, hleft, hright]

/-- Whether a subtree is the first one that fails at its root. -/
def FirstFailing (tree sub : Expr) (e : RuntimeError) : Prop :=
  ∃ before after, tree.subtrees = before ++ sub :: after ∧
    (∀ earlier ∈ before, ∀ other, ¬ earlier.FailsWith other) ∧ sub.FailsWith e

theorem value_eq_error_iff {tree : Expr} {e : RuntimeError} :
    tree.value = .error e ↔ ∃ sub, tree.FirstFailing sub e := by
  have hvalue : tree.value = .error e ↔ tree.subtrees.findSome? rootError? = some e := by
    rw [findSome?_rootError?]
    cases tree.value <;> simp
  rw [hvalue, List.findSome?_eq_some_iff]
  simp only [rootError?_eq_some_iff, rootError?_eq_none_iff, FirstFailing]
  constructor
  · rintro ⟨before, sub, after, hsplit, hfails, hbefore⟩
    exact ⟨sub, before, after, hsplit, hbefore, hfails⟩
  · rintro ⟨sub, before, after, hsplit, hbefore, hfails⟩
    exact ⟨before, sub, after, hsplit, hfails, hbefore⟩

theorem FailsWith.about_root {tree : Expr} {e : RuntimeError} (h : tree.FailsWith e) :
    e.position = tree.position ∧
      ∀ place, e = .divisionByZero place → tree.node = .operation .div place := by
  cases tree with
  | literal n position => cases h
  | binary left op right position =>
    obtain ⟨l, r, -, -, happly⟩ := h
    obtain ⟨hposition, hof⟩ := Operator.apply_error happly
    refine ⟨hposition, ?_⟩
    rintro place rfl
    obtain rfl : op = .div := hof
    obtain rfl : place = position := hposition
    rfl

/-! ## The nodes behind the first error -/

/-- The trees that nodes complete on a stack, one after the other. -/
def completed (stack : List Expr) : List Node → List Expr
  | [] => []
  | node :: rest =>
    match push stack node with
    | some (top :: below) => top :: completed (top :: below) rest
    | _ => []

theorem completed_postorder (tree : Expr) (stack : List Expr) (rest : List Node) :
    completed stack (tree.postorder ++ rest) = tree.subtrees ++ completed (tree :: stack) rest := by
  induction tree generalizing stack rest with
  | literal n position => rfl
  | binary left op right position ihl ihr =>
    simp only [postorder, subtrees, List.append_assoc, ihl, ihr]
    rfl

theorem completed_take (count : Nat) (stack : List Expr) (nodes : List Node) :
    completed stack (nodes.take count) = (completed stack nodes).take count := by
  induction nodes generalizing count stack with
  | nil => simp [completed]
  | cons node rest ih =>
    cases count with
    | zero => rfl
    | succ count =>
      simp only [List.take_succ_cons, completed]
      split
      · rw [ih, List.take_succ_cons]
      · rfl

/-- The subtrees up to a place are completed by the nodes up to that place. -/
theorem take_subtrees (tree : Expr) (count : Nat) :
    tree.subtrees.take count = completed [] (tree.postorder.take count) := by
  have hall := completed_postorder tree [] []
  simp only [List.append_nil, completed] at hall
  rw [completed_take, hall]

theorem isPrefix_subtrees {tree other : Expr} {front : List Expr}
    (hfront : front <+: tree.subtrees) (h : front.map node <+: other.postorder) :
    front <+: other.subtrees := by
  -- The same nodes complete the same subtrees, and both trees begin with them.
  have hnodes : other.postorder.take front.length = tree.postorder.take front.length := by
    rw [← map_node_subtrees tree, ← List.map_take, ← List.prefix_iff_eq_take.mp hfront]
    simpa using (List.prefix_iff_eq_take.mp h).symm
  rw [List.prefix_iff_eq_take, take_subtrees, hnodes, ← take_subtrees]
  exact List.prefix_iff_eq_take.mp hfront

/-- A tree that begins with the nodes up to the first failure fails alike. -/
theorem value_of_same_front {tree other sub : Expr} {before after : List Expr} {e : RuntimeError}
    (hsplit : tree.subtrees = before ++ sub :: after)
    (hbefore : ∀ earlier ∈ before, ∀ e', ¬ earlier.FailsWith e') (hfails : sub.FailsWith e)
    (h : (before ++ [sub]).map node <+: other.postorder) : other.value = .error e := by
  have hfront : before ++ [sub] <+: tree.subtrees := ⟨after, by simp [hsplit]⟩
  obtain ⟨behind, hother⟩ := isPrefix_subtrees hfront h
  refine value_eq_error_iff.mpr ⟨sub, before, behind, ?_, hbefore, hfails⟩
  simpa using hother.symm

/-- An expression is worth an integer only if no operation is a division, and a real only
if one is; that real is finite. The same holds of each subtree that has a value, and all
have one if the whole has one. An expression fails with the error of the first subtree, in
postorder, whose operator fails on the values of its operands; the error is about that
operator, and divides by zero only at a division. Every expression that begins with the
same nodes up to that operator fails alike, whatever stands behind it. -/
theorem value_typed_or_first_error (tree : Expr) :
    tree.subtrees.map node = tree.postorder ∧
      (∀ n, tree.value = .ok (.integer n) → tree.DivisionFree) ∧
      (∀ r, tree.value = .ok (.real r) → ¬ tree.DivisionFree ∧ r.isFinite) ∧
      (∀ sub ∈ tree.subtrees, ∀ v, sub.value = .ok v → v.Suits sub) ∧
      (∀ v, tree.value = .ok v → ∀ sub ∈ tree.subtrees, ∃ w, sub.value = .ok w) ∧
      (∀ e, tree.value = .error e ↔ ∃ sub, tree.FirstFailing sub e) ∧
      ∀ before sub after e, tree.subtrees = before ++ sub :: after →
        (∀ earlier ∈ before, ∀ other, ¬ earlier.FailsWith other) → sub.FailsWith e →
          e.position = sub.position ∧
            (∀ place, e = .divisionByZero place → sub.node = .operation .div place) ∧
            ∀ other : Expr, (before ++ [sub]).map node <+: other.postorder →
              other.value = .error e := by
  refine ⟨tree.map_node_subtrees, fun n h => suits_of_value h, fun r h => suits_of_value h,
    fun sub _ v h => suits_of_value h, fun v h sub => exists_value_of_mem_subtrees h,
    fun e => value_eq_error_iff, ?_⟩
  intro before sub after e hsplit hbefore hfails
  obtain ⟨hposition, hdivision⟩ := hfails.about_root
  exact ⟨hposition, hdivision, fun other => value_of_same_front hsplit hbefore hfails⟩

/-- A division by zero is found before the overflow behind it. -/
theorem value_typed_or_first_error_of_two_faults :
    let negative : Expr := .literal (-7) 0
    let quotient : Expr := .binary (.literal 6 0) .div (.literal 2 2) 1
    let three : Binary64 := .ofInt 3
    let front : List Expr := [.literal 1 0, .literal 0 2]
    let fault : Expr := .binary (.literal 1 0) .div (.literal 0 2) 1
    let excess : Expr := .binary (.literal 9223372036854775807 4) .add (.literal 1 6) 5
    let tree : Expr := .binary fault .add excess 3
    let other : Expr := .binary fault .sub (.literal 5 4) 3
    let e : RuntimeError := .divisionByZero 1
    (negative.value = .ok (.integer (-7)) ∧ negative.DivisionFree) ∧
      (quotient.value = .ok (.real three) ∧ ¬ quotient.DivisionFree ∧ three.isFinite ∧
        ∀ sub ∈ quotient.subtrees, ∃ w, sub.value = .ok w) ∧
      (tree.subtrees = front ++ fault :: (excess.subtrees ++ [tree]) ∧
        (∀ earlier ∈ front, ∀ e', ¬ earlier.FailsWith e') ∧ fault.FailsWith e) ∧
      (front ++ [fault]).map node <+: other.postorder ∧
      e.position = fault.position ∧ tree.value = .error e ∧ other.value = .error e := by
  intro negative quotient three front fault excess tree other e
  have hquotient : quotient.value = .ok (.real three) := by decide +kernel
  have hsplit : tree.subtrees = front ++ fault :: (excess.subtrees ++ [tree]) := rfl
  have hfront : ∀ earlier ∈ front, ∀ e', ¬ earlier.FailsWith e' := by
    simp [front, FailsWith]
  have hfault : fault.FailsWith e := ⟨_, _, rfl, rfl, rfl⟩
  have hother : (front ++ [fault]).map node <+: other.postorder := ⟨_, rfl⟩
  have hlaws := value_typed_or_first_error tree
  obtain ⟨-, -, -, -, -, herror, hfirst⟩ := hlaws
  obtain ⟨hposition, -, hsame⟩ := hfirst front fault _ e hsplit hfront hfault
  obtain ⟨-, -, hreal, -, hall, -, -⟩ := value_typed_or_first_error quotient
  exact ⟨⟨rfl, (value_typed_or_first_error negative).2.1 (-7) rfl⟩,
    ⟨hquotient, (hreal three hquotient).1, (hreal three hquotient).2, hall _ hquotient⟩,
    ⟨hsplit, hfront, hfault⟩, hother, hposition,
    (herror e).mpr ⟨fault, front, _, hsplit, hfront, hfault⟩, hsame other hother⟩

end Expr

end LineCalc
