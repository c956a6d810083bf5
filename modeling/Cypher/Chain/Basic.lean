/-
  Chains — operands joined by operators, read from left to right.

  A chain is empty, or an operand followed by pairs of an operator and an
  operand: so there is exactly one operator between neighbours, and none at
  either end. Expressions and label lists are chains.

  * `Chain.push` appends an operator and an operand;
  * `Chain.operands`, `Chain.operators` and the alternating list `Chain.flat`
    are the views of a chain, and `Chain.ofFlat?` reads a chain off the last.
-/
import Cypher.Chain.Operator

namespace Cypher

/-- Operands joined by operators. -/
inductive Chain (α : Type) where
  | empty
  | cons (head : α) (tail : List (Operator × α))
  deriving DecidableEq, Repr

/-- One element of a chain's flat view. -/
inductive ChainElement (α : Type) where
  | operand (operand : α)
  | operator (operator : Operator)
  deriving DecidableEq, Repr

namespace Chain

variable {α : Type}

/-! ## Building -/

/-- The chain of one operand. -/
def single (operand : α) : Chain α :=
  cons operand []

/-- Appends an operator and an operand. A chain never starts with an operator,
    so that an empty chain drops it. -/
def push (operator : Operator) (operand : α) : Chain α → Chain α
  | empty => single operand
  | cons head tail => cons head (tail ++ [(operator, operand)])

/-! ## Views -/

/-- The operands in order. -/
def operands : Chain α → List α
  | empty => []
  | cons head tail => head :: tail.map Prod.snd

/-- The operators in order. -/
def operators : Chain α → List Operator
  | empty => []
  | cons _ tail => tail.map Prod.fst

/-- The chain has no operand. -/
def isEmpty : Chain α → Bool
  | empty => true
  | cons .. => false

/-- The number of operands and operators. -/
def length (chain : Chain α) : Nat :=
  chain.operands.length + chain.operators.length

/-- Operands and operators as they alternate. -/
def flat : Chain α → List (ChainElement α)
  | empty => []
  | cons head tail =>
    .operand head :: tail.flatMap fun (operator, operand) => [.operator operator, .operand operand]

/-- The pairs of an operator and an operand in an alternating list. -/
def linksOfFlat? : List (ChainElement α) → Option (List (Operator × α))
  | [] => some []
  | .operator operator :: .operand operand :: rest =>
    (linksOfFlat? rest).map ((operator, operand) :: ·)
  | _ => none

/-- The chain with this flat view. -/
def ofFlat? : List (ChainElement α) → Option (Chain α)
  | [] => some empty
  | .operand head :: rest => (linksOfFlat? rest).map (cons head)
  | .operator _ :: _ => none

/-! ## Writing -/

/-- The pairs of an operator and an operand, each part after a space. -/
def renderLinks (renderOperand : α → Text) : List (Operator × α) → Text
  | [] => []
  | (operator, operand) :: links =>
    ' ' :: operator.written ++ ' ' :: renderOperand operand ++ renderLinks renderOperand links

/-- Operands and operators with a space between neighbours. -/
def render (renderOperand : α → Text) : Chain α → Text
  | empty => []
  | cons head tail => renderOperand head ++ renderLinks renderOperand tail

/-! ## Laws -/

@[simp] theorem operands_single (a : α) : (single a).operands = [a] := rfl

@[simp] theorem operators_single (a : α) : (single a).operators = [] := rfl

@[simp] theorem operands_push (o : Operator) (a : α) (c : Chain α) :
    (c.push o a).operands = c.operands ++ [a] := by
  cases c <;> simp [push, operands, single]

theorem operators_push (o : Operator) (a : α) (c : Chain α) :
    (c.push o a).operators = if c.isEmpty then [] else c.operators ++ [o] := by
  cases c <;> simp [push, operators, single, isEmpty]

theorem isEmpty_iff {c : Chain α} : c.isEmpty = true ↔ c = empty := by
  cases c <;> simp [isEmpty]

theorem linksOfFlat?_flatMap (links : List (Operator × α)) :
    linksOfFlat? (links.flatMap fun (o, a) => [ChainElement.operator o, .operand a]) =
      some links := by
  induction links with
  | nil => rfl
  | cons link links ih => simp [linksOfFlat?, ih]

/-- A chain is read back off its flat view. -/
theorem ofFlat?_flat (c : Chain α) : ofFlat? c.flat = some c := by
  cases c with
  | empty => rfl
  | cons head tail => simp [flat, ofFlat?, linksOfFlat?_flatMap]

end Chain

end Cypher
