import LineCalc.Token
/-
  Expressions: trees of integer literals and binary operations

  Every node knows its position: a literal where it begins, an operation where
  its operator stands. Parentheses leave no node. `Expr.text` is the fully
  parenthesized prefix form of a tree, without positions. `Expr.postorder`
  lists the nodes with the operands before their operation, and
  `Expr.ofPostorder?` builds the tree back from that list.
-/

namespace LineCalc

/-- An expression. -/
inductive Expr where
  | literal (value : Int64) (position : Nat)
  | binary (left : Expr) (op : Operator) (right : Expr) (position : Nat)
  deriving DecidableEq, Repr

/-- What stands at a node, its operands apart. -/
inductive Expr.Node where
  | literal (value : Int64) (position : Nat)
  | operation (op : Operator) (position : Nat)
  deriving DecidableEq, Repr

namespace Expr

/-- The position of the root. -/
def position : Expr → Nat
  | literal _ position => position
  | binary _ _ _ position => position

/-- The prefix form: a literal as its decimal text, an operation in parentheses
with its operator before its operands. -/
def text : Expr → String
  | literal value _ => Digits.intText value
  | binary left op right _ =>
    "(" ++ op.text ++ " " ++ left.text ++ " " ++ right.text ++ ")"

/-- The text of a node: the value of a literal, or the operator. -/
def Node.text : Node → String
  | literal value _ => Digits.intText value
  | operation op _ => op.text

/-- The position of a node. -/
def Node.position : Node → Nat
  | literal _ position => position
  | operation _ position => position

/-- The nodes of a tree: those of the left operand, those of the right one,
then the root. -/
def postorder : Expr → List Node
  | literal value position => [.literal value position]
  | binary left op right position =>
    left.postorder ++ right.postorder ++ [.operation op position]

/-- The stack of trees after one more node: an operation takes the two topmost
trees. -/
def push : List Expr → Node → Option (List Expr)
  | stack, .literal value position => some (.literal value position :: stack)
  | right :: left :: stack, .operation op position =>
    some (.binary left op right position :: stack)
  | _, .operation _ _ => none

/-- The tree whose nodes are listed, if the list is one tree's. -/
def ofPostorder? (nodes : List Node) : Option Expr :=
  match nodes.foldlM push [] with
  | some [tree] => some tree
  | _ => none

theorem foldlM_push_postorder (tree : Expr) (stack : List Expr) :
    tree.postorder.foldlM push stack = some (tree :: stack) := by
  induction tree generalizing stack with
  | literal value position => rfl
  | binary left op right position ihl ihr =>
    simp [postorder, List.foldlM_append, ihl, ihr, push]

/-- A tree is built back from the list of its nodes. -/
theorem ofPostorder?_postorder (tree : Expr) : ofPostorder? tree.postorder = some tree := by
  simp [ofPostorder?, foldlM_push_postorder]

/-- The number of operations in a tree. -/
def operations : Expr → Nat
  | literal _ _ => 0
  | binary left _ right _ => left.operations + right.operations + 1

end Expr

end LineCalc
