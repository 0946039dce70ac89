import LineCalc.Proofs.Acceptance
/-
  Rendering: the text of a tree with as few parentheses as the grammar allows

  `Expr.render` writes a tree as a line. It puts parentheses around an operand
  only where the grammar would read another tree without them. The same rule is
  `Expr.writtenIn`: a tree that is written where a phrase is due stands in
  parentheses exactly if it is no such phrase by itself.

  What is proved:
    1. `writes_writtenIn` — a tree that is written is cut and derived as that
       tree again, wherever it stands;
    2. `Derives.deepest_writtenIn_le` — no tokens that derive a tree nest less
       deep than its rendering;
    3. `exists_parseLine_render` and `writable_of_parseLine` — the lines' trees,
       up to positions, are exactly those whose rendering keeps the limits.
-/

namespace LineCalc

/-! ## Trees without positions, as text -/

namespace Expr

/-- The tree with every position set to zero. -/
def erased : Expr → Expr
  | literal value _ => literal value 0
  | binary left op right _ => binary left.erased op right.erased 0

/-- The level of the operator at the root, if there is one. -/
def level? : Expr → Option Level
  | literal _ _ => none
  | binary _ op _ _ => some op.level

/-- Whether no literal of a tree is negative. -/
def Nonneg : Expr → Prop
  | literal value _ => 0 ≤ value.toInt
  | binary left _ right _ => left.Nonneg ∧ right.Nonneg

end Expr

/-- Whether a tree is a sum or a difference. -/
def Expr.isSum : Expr → Bool
  | literal _ _ => false
  | binary _ .add _ _ => true
  | binary _ .sub _ _ => true
  | binary _ .mul _ _ => false
  | binary _ .div _ _ => false

/-- Whether a tree is an operation. -/
def Expr.isOperation : Expr → Bool
  | literal _ _ => false
  | binary _ _ _ _ => true

/-- Whether the left operand of an operator stands in parentheses: a sum or a difference to
the left of `*` and `/`. -/
def Operator.groupsLeft : Operator → Expr → Bool
  | add, _ => false
  | sub, _ => false
  | mul, left => left.isSum
  | div, left => left.isSum

/-- Whether the right operand of an operator stands in parentheses: a sum or a difference
to the right of `+` and `-`, any operation to the right of `*` and `/`. -/
def Operator.groupsRight : Operator → Expr → Bool
  | add, right => right.isSum
  | sub, right => right.isSum
  | mul, right => right.isOperation
  | div, right => right.isOperation

/-- A text, in parentheses or not. -/
def enclosedIf (grouped : Bool) (text : List Char) : List Char :=
  if grouped then '(' :: text ++ [')'] else text

namespace Expr

/-- The characters of a tree, with as few parentheses as its shape needs. -/
def written : Expr → List Char
  | literal value _ => Digits.ofInt value.toInt
  | binary left op right _ =>
    enclosedIf (op.groupsLeft left) left.written ++
      op.symbol :: enclosedIf (op.groupsRight right) right.written

/-- The line of a tree. -/
def render (tree : Expr) : String := String.ofList tree.written

/-- What the limits of a line ask of a tree and of its rendering. -/
structure Writable (tree : Expr) : Prop where
  nonneg : tree.Nonneg
  operations : tree.operations ≤ maxOperators
  nesting : ∀ before, before <+: tree.render.toList →
    Nesting.balance parenOfChar before ≤ maxNesting

theorem writable_iff {tree : Expr} :
    tree.Writable ↔ tree.Nonneg ∧ tree.operations ≤ maxOperators ∧
      Nesting.deepest parenOfChar tree.render.toList ≤ maxNesting := by
  rw [Nesting.deepest_le_iff]
  constructor
  · rintro ⟨hnonneg, hoperations, hnesting⟩
    exact ⟨hnonneg, hoperations, hnesting⟩
  · rintro ⟨hnonneg, hoperations, hnesting⟩
    exact ⟨hnonneg, hoperations, hnesting⟩

instance decidableNonneg : (tree : Expr) → Decidable tree.Nonneg
  | literal value _ => inferInstanceAs (Decidable (0 ≤ value.toInt))
  | binary left _ right _ =>
    have := decidableNonneg left
    have := decidableNonneg right
    inferInstanceAs (Decidable (left.Nonneg ∧ right.Nonneg))

instance (tree : Expr) : Decidable tree.Writable := decidable_of_iff' _ writable_iff

end Expr

/-! ## The phrase a tree is by itself -/

/-- Whether a tree with this level at its root is such a phrase by itself. -/
def Phrase.admits : Phrase → Option Level → Bool
  | _, none => true
  | factor, some _ => false
  | chain outer, some level => level = .product || outer = .sum

/-- A tree as it is written where a phrase is due. -/
def Expr.writtenIn (phrase : Phrase) (tree : Expr) : List Char :=
  enclosedIf (!phrase.admits tree.level?) tree.written

theorem Expr.writtenIn_sum (tree : Expr) : tree.writtenIn (.chain .sum) = tree.written := by
  have hadmits : (Phrase.chain .sum).admits tree.level? = true := by
    cases tree.level? <;> simp [Phrase.admits]
  simp [writtenIn, hadmits, enclosedIf]

theorem Operator.groupsLeft_eq (op : Operator) (left : Expr) :
    op.groupsLeft left = !(Phrase.chain op.level).admits left.level? := by
  cases left with
  | literal value position => cases op <;> rfl
  | binary _ inner _ _ => cases op <;> cases inner <;> rfl

theorem Operator.groupsRight_eq (op : Operator) (right : Expr) :
    op.groupsRight right = !op.level.operand.admits right.level? := by
  cases right with
  | literal value position => cases op <;> rfl
  | binary _ inner _ _ => cases op <;> cases inner <;> rfl

theorem Expr.written_binary (left : Expr) (op : Operator) (right : Expr) (position : Nat) :
    (binary left op right position).written =
      left.writtenIn (.chain op.level) ++ op.symbol :: right.writtenIn op.level.operand := by
  rw [written, writtenIn, writtenIn, Operator.groupsLeft_eq, Operator.groupsRight_eq]

/-! ## Reading what is written -/

/-- A text is read as a phrase with a tree, up to positions: wherever it stands,
before anything but a digit. -/
def Writes (phrase : Phrase) (tree : Expr) (position : Nat) (text : List Char) : Prop :=
  ∃ ts read, Derives phrase ts read ∧ read.erased = tree.erased ∧
    ∀ {rest : List Char} {items : List Item}, (∀ c ∈ rest.head?, c.isDigit = false) →
      Cuts (position + text.length) rest items → Cuts position (text ++ rest) (ts.map .ok ++ items)

namespace Writes
variable {phrase : Phrase} {level : Level} {tree left right : Expr} {position : Nat}
  {text text' : List Char}

theorem of_factor (h : Writes .factor tree position text) :
    Writes phrase tree position text := by
  obtain ⟨ts, read, hderives, herased, hcuts⟩ := h
  exact ⟨ts, read, hderives.of_factor, herased, hcuts⟩

theorem of_chain (h : Writes (.chain level) tree position text)
    (hadmits : phrase.admits (some level) = true) : Writes phrase tree position text := by
  rcases phrase with _ | outer
  · cases hadmits
  · cases outer with
    | product =>
      cases level with
      | product => exact h
      | sum => cases hadmits
    | sum =>
      obtain ⟨ts, read, hderives, herased, hcuts⟩ := h
      exact ⟨ts, read, hderives.of_chain, herased, hcuts⟩

theorem literal {value : Int64} (place : Nat) (h : 0 ≤ value.toInt) :
    Writes .factor (.literal value place) position (Digits.ofInt value.toInt) := by
  have htext : Digits.ofInt value.toInt = Digits.ofNat value.toInt.natAbs :=
    if_neg (Int.not_lt.mpr h)
  have hlimit : value.toInt.natAbs ≤ maxInteger := by
    have := value.toInt_lt
    unfold maxInteger
    omega
  have hitem : Item.ofDigits (Digits.ofNat value.toInt.natAbs) position =
      .ok ⟨.integer value, position⟩ := by
    rw [Item.ofDigits, Digits.toNat_ofNat, if_pos hlimit, Int.natAbs_of_nonneg h,
      Int64.ofInt_toInt]
  refine ⟨_, _, .literal value position, rfl, ?_⟩
  intro rest items hrest hitems
  rw [htext] at hitems ⊢
  have hcut := Cuts.run (Digits.ofNat_ne_nil _) (fun c hc => Digits.isDigit_of_mem_ofNat hc)
    hrest hitems
  rwa [hitem] at hcut

theorem group (h : Writes (.chain .sum) tree (position + 1) text) :
    Writes .factor tree position ('(' :: text ++ [')']) := by
  obtain ⟨ts, read, hderives, herased, hcuts⟩ := h
  refine ⟨_, read, .group position (position + 1 + text.length) hderives, herased, ?_⟩
  intro rest items hrest hitems
  have hclosing : Cuts (position + 1 + text.length) (')' :: rest)
      (.ok ⟨.rightParen, position + 1 + text.length⟩ :: items) := by
    refine .single rfl rfl ?_
    simpa [Nat.add_assoc, Nat.add_comm, Nat.add_left_comm] using hitems
  have hopening : Cuts position ('(' :: (text ++ ')' :: rest))
      (.ok ⟨.leftParen, position⟩ ::
        (ts.map .ok ++ .ok ⟨.rightParen, position + 1 + text.length⟩ :: items)) :=
    .single rfl rfl (hcuts (by simp) hclosing)
  simpa using hopening

theorem operation {op : Operator} (place : Nat) (hop : op.level = level)
    (hleft : Writes (.chain level) left position text)
    (hright : Writes level.operand right (position + text.length + 1) text') :
    Writes (.chain level) (.binary left op right place) position (text ++ op.symbol :: text') := by
  obtain ⟨ts, read, hderives, herased, hcuts⟩ := hleft
  obtain ⟨us, read', hderives', herased', hcuts'⟩ := hright
  refine ⟨_, _, .operation (position + text.length) hop hderives hderives', ?_, ?_⟩
  · simp only [Expr.erased, herased, herased']
  · intro rest items hrest hitems
    have hbehind := hcuts' hrest
      (by simpa [Nat.add_assoc, Nat.add_comm, Nat.add_left_comm] using hitems)
    have hwhole := hcuts (by simp [isDigit_symbol]) (.symbol op hbehind)
    simpa using hwhole

end Writes

theorem writes_writtenIn {tree : Expr} (hnonneg : tree.Nonneg) (phrase : Phrase)
    (position : Nat) : Writes phrase tree position (tree.writtenIn phrase) := by
  induction tree generalizing phrase position with
  | literal value place =>
    have hadmits : phrase.admits none = true := by cases phrase <;> rfl
    simp only [Expr.writtenIn, Expr.level?, hadmits, Bool.not_true, enclosedIf, Bool.false_eq_true,
      if_false]
    exact .of_factor (.literal place hnonneg)
  | binary left op right place ihl ihr =>
    have hchain (position : Nat) : Writes (.chain op.level) (.binary left op right place) position
        (Expr.binary left op right place).written := by
      rw [Expr.written_binary]
      exact .operation place rfl (ihl hnonneg.1 _ _) (ihr hnonneg.2 _ _)
    unfold Expr.writtenIn
    cases hadmits : phrase.admits (Expr.binary left op right place).level? with
    | true => exact (hchain position).of_chain hadmits
    | false =>
      -- In parentheses any chain is a factor, and a factor is any phrase.
      exact .of_factor (.group ((hchain (position + 1)).of_chain (by simp [Phrase.admits])))

/-! ## The depth of what is written -/

theorem parenOfChar_of_mem_ofInt {c : Char} {n : Int} (h : c ∈ Digits.ofInt n) :
    parenOfChar c = 0 := by
  rcases Digits.eq_minus_or_isDigit_of_mem_ofInt h with rfl | hdigit
  · rfl
  · exact parenOfChar_of_isDigit hdigit

theorem parenOfChar_symbol (op : Operator) : parenOfChar op.symbol = 0 := by
  cases op <;> rfl

theorem balance_enclosedIf (grouped : Bool) (text : List Char) :
    Nesting.balance parenOfChar (enclosedIf grouped text) = Nesting.balance parenOfChar text := by
  cases grouped with
  | false => rfl
  | true => exact Nesting.balance_enclosed parenOfChar_left parenOfChar_right text

theorem Expr.balance_written (tree : Expr) : Nesting.balance parenOfChar tree.written = 0 := by
  induction tree with
  | literal value position =>
    exact Nesting.balance_of_eq_zero _ fun c hc => parenOfChar_of_mem_ofInt hc
  | binary left op right position ihl ihr =>
    simp only [written, Nesting.balance_append, Nesting.balance_cons, balance_enclosedIf,
      parenOfChar_symbol, ihl, ihr]
    rfl

theorem Expr.deepest_writtenIn (phrase : Phrase) (tree : Expr) :
    Nesting.deepest parenOfChar (tree.writtenIn phrase) =
      Nesting.deepest parenOfChar tree.written +
        if phrase.admits tree.level? then 0 else 1 := by
  unfold writtenIn
  cases phrase.admits tree.level? with
  | true => simp [enclosedIf]
  | false =>
    simpa [enclosedIf] using
      Nesting.deepest_enclosed parenOfChar_left parenOfChar_right tree.balance_written

theorem Phrase.admits_chain_of_operand {level : Level} {root : Option Level}
    (h : level.operand.admits root = true) : (Phrase.chain level).admits root = true := by
  rcases root with _ | root
  · rfl
  · cases level with
    | sum => simp [admits]
    | product => cases h

/-- No tokens that derive a tree nest less deep than the tree as it is written. -/
theorem Derives.deepest_writtenIn_le {phrase : Phrase} {ts : List Located} {tree : Expr}
    (h : Derives phrase ts tree) :
    Nesting.deepest parenOfChar (tree.writtenIn phrase) ≤ Nesting.deepest Located.paren ts := by
  induction h with
  | literal value position =>
    have hdigits := Nesting.deepest_append_of_eq_zero parenOfChar
      (fun c hc => parenOfChar_of_mem_ofInt (n := value.toInt) hc) []
    rw [List.append_nil] at hdigits
    rw [Expr.deepest_writtenIn, Expr.written, hdigits]
    exact Int.le_refl 0
  | @group ts tree opening closing hinner ih =>
    -- Written parentheses are matched by these; if none are written, these are too many.
    rw [Expr.writtenIn_sum] at ih
    rw [Expr.deepest_writtenIn, Nesting.deepest_enclosed (Located.paren_left opening)
      (Located.paren_right closing) hinner.balance_eq_zero]
    split <;> omega
  | @operand level ts tree _ ih =>
    refine Int.le_trans ?_ ih
    rw [Expr.deepest_writtenIn, Expr.deepest_writtenIn]
    by_cases hadmits : level.operand.admits tree.level? = true
    · exact Int.le_of_eq (by rw [if_pos hadmits, if_pos (Phrase.admits_chain_of_operand hadmits)])
    · rw [if_neg hadmits]
      split <;> omega
  | @operation level op ts us left right position hop hl _ ihl ihr =>
    subst hop
    have hbalance : Nesting.balance parenOfChar (left.writtenIn (.chain op.level)) = 0 := by
      rw [Expr.writtenIn, balance_enclosedIf, Expr.balance_written]
    have hadmits : (Phrase.chain op.level).admits (some op.level) = true := by
      cases op <;> rfl
    rw [Expr.deepest_writtenIn, Expr.level?, if_pos hadmits, Expr.written_binary,
      Nesting.deepest_append, Nesting.deepest_append, hbalance, hl.balance_eq_zero,
      Nesting.deepest_cons_of_eq_zero _ (parenOfChar_symbol op),
      Nesting.deepest_cons_of_eq_zero _ (Located.paren_operator op position)]
    omega

/-! ## Trees that differ in their positions only -/

namespace Expr

theorem level?_erased (tree : Expr) : tree.erased.level? = tree.level? := by
  cases tree <;> rfl

theorem written_erased (tree : Expr) : tree.erased.written = tree.written := by
  induction tree with
  | literal value position => rfl
  | binary left op right position ihl ihr =>
    simp only [erased, written, Operator.groupsLeft_eq, Operator.groupsRight_eq, level?_erased,
      ihl, ihr]

theorem operations_erased (tree : Expr) : tree.erased.operations = tree.operations := by
  induction tree with
  | literal value position => rfl
  | binary left op right position ihl ihr => simp only [erased, operations, ihl, ihr]

theorem nonneg_erased (tree : Expr) : tree.erased.Nonneg ↔ tree.Nonneg := by
  induction tree with
  | literal value position => exact Iff.rfl
  | binary left op right position ihl ihr => simp only [erased, Nonneg, ihl, ihr]

theorem operations_of_erased {tree other : Expr} (h : other.erased = tree.erased) :
    other.operations = tree.operations := by
  rw [← other.operations_erased, h, tree.operations_erased]

theorem Writable.of_erased {tree other : Expr} (h : tree.Writable)
    (herased : other.erased = tree.erased) : other.Writable := by
  have hnonneg : other.Nonneg := by
    rw [← other.nonneg_erased, herased, tree.nonneg_erased]
    exact h.nonneg
  have hrender : other.render = tree.render := by
    rw [render, render, ← other.written_erased, herased, tree.written_erased]
  refine ⟨hnonneg, ?_, ?_⟩
  · rw [operations_of_erased herased]
    exact h.operations
  · rw [hrender]
    exact h.nesting

end Expr

/-! ## Lines and their trees -/

theorem exists_parseLine_render {tree : Expr} (h : tree.Writable) :
    ∃ parsed, parseLine tree.render = .ok parsed ∧ parsed.erased = tree.erased := by
  obtain ⟨ts, parsed, hderives, herased, hcuts⟩ := writes_writtenIn h.nonneg (.chain .sum) 0
  have hitems := hcuts (by simp) (.nil _)
  simp only [Expr.writtenIn_sum, List.append_nil] at hitems
  have hts : tokenize tree.render = .ok ts := by
    rw [tokenize_eq_ok_iff, Item.ofSource, Expr.render, String.toList_ofList]
    exact hitems.ofChars_eq
  have hoperators : countOperators ts = tree.operations := by
    rw [hderives.countOperators_eq, Expr.operations_of_erased herased]
  refine ⟨parsed, parseLine_of_derives hts hderives ?_ ?_, herased⟩
  · rw [deepest_of_tokenize hts]
    exact (Nesting.deepest_le_iff _).mpr h.nesting
  · rw [hoperators]
    exact h.operations

theorem Derives.nonneg {phrase : Phrase} {ts : List Located} {tree : Expr}
    (h : Derives phrase ts tree)
    (hts : ∀ value position, ⟨.integer value, position⟩ ∈ ts → 0 ≤ value.toInt) :
    tree.Nonneg := by
  induction h with
  | literal value position => exact hts value position List.mem_cons_self
  | group opening closing _ ih =>
    apply ih
    intro value position hmem
    exact hts value position (by simp [hmem])
  | operand _ ih => exact ih hts
  | operation position _ _ _ ihl ihr =>
    constructor
    · apply ihl
      intro value place hmem
      exact hts value place (by simp [hmem])
    · apply ihr
      intro value place hmem
      exact hts value place (by simp [hmem])

/-- The tree of a line has a rendering within the limits: the line itself keeps
them, and the rendering has as many operators and is no deeper. -/
theorem writable_of_parseLine {source : String} {tree : Expr}
    (h : parseLine source = .ok tree) : tree.Writable := by
  obtain ⟨ts, hts, hderives, -⟩ := derives_of_parseLine h
  obtain ⟨hnesting, hoperators⟩ := within_of_parseLine h hts
  refine ⟨?_, ?_, ?_⟩
  · apply hderives.nonneg
    intro value position hmem
    have hitem : .ok ⟨.integer value, position⟩ ∈ Item.ofSource source := by
      rw [tokenize_eq_ok_iff.mp hts]
      exact List.mem_map_of_mem hmem
    exact nonneg_of_mem_ofSource hitem
  · rw [← hderives.countOperators_eq]
    exact hoperators
  · rw [Expr.render, String.toList_ofList, ← tree.writtenIn_sum]
    exact (Nesting.deepest_le_iff _).mp (Int.le_trans hderives.deepest_writtenIn_le hnesting)

/-- The trees of lines are, up to positions, exactly the trees whose rendering
keeps the limits, and each of these is the tree of its rendering. So the
rendering of the tree of a line is a line with the same tree. -/
theorem parseLine_image (tree : Expr) :
    (tree.Writable → ∃ parsed, parseLine tree.render = .ok parsed ∧
      parsed.erased = tree.erased) ∧
    (∀ source, parseLine source = .ok tree → tree.Writable) ∧
    ((∃ source parsed, parseLine source = .ok parsed ∧ parsed.erased = tree.erased) ↔
      tree.Writable) ∧
    ∀ source, parseLine source = .ok tree →
      ∃ parsed, parseLine tree.render = .ok parsed ∧ parsed.erased = tree.erased := by
  refine ⟨exists_parseLine_render, fun source => writable_of_parseLine, ⟨?_, ?_⟩, ?_⟩
  · rintro ⟨source, parsed, hparsed, herased⟩
    exact (writable_of_parseLine hparsed).of_erased herased.symm
  · intro hwritable
    exact ⟨tree.render, exists_parseLine_render hwritable⟩
  · intro source h
    exact exists_parseLine_render (writable_of_parseLine h)

/-- Each operator to the left and to the right of another, with parentheses and without. -/
theorem parseLine_image_of_four_operators :
    let difference : Expr :=
      .binary (.literal 1 0) .sub (.binary (.literal 2 0) .add (.literal 3 0) 0) 0
    let quotient : Expr := .binary (.binary difference .mul (.literal 4 0) 0) .div
      (.binary (.literal 5 0) .mul (.literal 6 0) 0) 0
    let tree : Expr := .binary (.binary quotient .add
      (.binary (.literal 7 0) .div (.literal 8 0) 0) 0) .sub (.literal 9 0) 0
    tree.render = "(1-(2+3))*4/(5*6)+7/8-9" ∧ tree.Writable ∧
      ∃ parsed, parseLine tree.render = .ok parsed ∧ parsed.erased = tree.erased :=
  ⟨by decide +kernel, by decide +kernel, (parseLine_image _).1 (by decide +kernel)⟩

end LineCalc
