/-
  Operands — what an expression is made of.

  An expression is a chain of operands, and function calls and groups hold
  expressions again. A `CASE … END` expression is kept as it was written, a
  number as its characters.

  * `Operand` and `Expression`, with decidable equality;
  * `Operand.numbers`: the number literals at any depth, in order;
  * `Operand.nesting`: how deeply calls and groups stand inside each other.
-/
import Cypher.Chain.Basic

namespace Cypher

/-- The literal words. -/
inductive Literal where
  | null
  | boolean (value : Bool)
  deriving DecidableEq, Repr

/-- A literal as it is written, in small letters. -/
def Literal.written : Literal → Text
  | null => ['n', 'u', 'l', 'l']
  | boolean true => ['t', 'r', 'u', 'e']
  | boolean false => ['f', 'a', 'l', 's', 'e']

/-- The literal with this text. -/
def Literal.ofWritten? (text : Text) : Option Literal :=
  [null, boolean true, boolean false].find? fun literal => literal.written == text

/-- An operand of an expression. -/
inductive Operand where
  /-- A call: `name(arguments)` or `name(DISTINCT arguments)` -/
  | call (name : Text) (distinct : Bool) (arguments : Chain Operand)
  /-- A verbatim `CASE … END` -/
  | case_ (text : Text)
  /-- An expression in parentheses: `(inner)` -/
  | group (inner : Chain Operand)
  /-- A property `owner.name`, the name quoted or not -/
  | property (owner name : Text)
  /-- One of `null`, `true` and `false` -/
  | literal (literal : Literal)
  /-- A bare name -/
  | identifier (name : Text)
  /-- Quoted text, without the back-ticks -/
  | string (value : Text)
  /-- A number as it is written, with its sign -/
  | number (text : Text)
  /-- The operand `*` -/
  | wildcard
  deriving Repr

/-- Operands joined by operators, without precedence. -/
abbrev Expression := Chain Operand

/-! ## Equality -/

mutual

/-- Compares two operands. -/
def Operand.beq : Operand → Operand → Bool
  | .call name distinct arguments, .call name' distinct' arguments' =>
    name == name' && distinct == distinct' && Expression.beq arguments arguments'
  | .case_ text, .case_ text' => text == text'
  | .group inner, .group inner' => Expression.beq inner inner'
  | .property owner name, .property owner' name' => owner == owner' && name == name'
  | .literal literal, .literal literal' => literal == literal'
  | .identifier name, .identifier name' => name == name'
  | .string value, .string value' => value == value'
  | .number text, .number text' => text == text'
  | .wildcard, .wildcard => true
  | _, _ => false

/-- Compares two expressions. -/
def Expression.beq : Chain Operand → Chain Operand → Bool
  | .empty, .empty => true
  | .cons head tail, .cons head' tail' => Operand.beq head head' && Operand.beqLinks tail tail'
  | _, _ => false

/-- Compares two expressions from their second operand on. -/
def Operand.beqLinks : List (Operator × Operand) → List (Operator × Operand) → Bool
  | [], [] => true
  | (operator, operand) :: links, (operator', operand') :: links' =>
    operator == operator' && Operand.beq operand operand' && Operand.beqLinks links links'
  | _, _ => false

end

mutual

theorem Operand.beq_iff : ∀ a b : Operand, Operand.beq a b = true ↔ a = b
  | .call _ _ arguments, b => by
    cases b <;> simp [Operand.beq, Expression.beq_iff arguments, and_assoc]
  | .case_ _, b => by cases b <;> simp [Operand.beq]
  | .group inner, b => by cases b <;> simp [Operand.beq, Expression.beq_iff inner]
  | .property _ _, b => by cases b <;> simp [Operand.beq]
  | .literal _, b => by cases b <;> simp [Operand.beq]
  | .identifier _, b => by cases b <;> simp [Operand.beq]
  | .string _, b => by cases b <;> simp [Operand.beq]
  | .number _, b => by cases b <;> simp [Operand.beq]
  | .wildcard, b => by cases b <;> simp [Operand.beq]

theorem Expression.beq_iff : ∀ a b : Chain Operand, Expression.beq a b = true ↔ a = b
  | .empty, b => by cases b <;> simp [Expression.beq]
  | .cons head tail, b => by
    cases b <;> simp [Expression.beq, Operand.beq_iff head, Operand.beqLinks_iff tail]

theorem Operand.beqLinks_iff :
    ∀ a b : List (Operator × Operand), Operand.beqLinks a b = true ↔ a = b
  | [], b => by cases b <;> simp [Operand.beqLinks]
  | (operator, operand) :: links, b => by
    cases b <;>
      simp [Operand.beqLinks, Operand.beq_iff operand, Operand.beqLinks_iff links, Prod.ext_iff]

end

instance : DecidableEq Operand := fun a b => decidable_of_iff _ (Operand.beq_iff a b)

/-! ## Number literals -/

mutual

/-- The number literals of an operand, in the order in which they stand. -/
def Operand.numbers : Operand → List Text
  | .call _ _ arguments => Expression.numbers arguments
  | .group inner => Expression.numbers inner
  | .number text => [text]
  | _ => []

/-- The number literals of an expression, in the order in which they stand. -/
def Expression.numbers : Chain Operand → List Text
  | .empty => []
  | .cons head tail => Operand.numbers head ++ Operand.numbersOfLinks tail

/-- The number literals of an expression from its second operand on. -/
def Operand.numbersOfLinks : List (Operator × Operand) → List Text
  | [] => []
  | (_, operand) :: links => Operand.numbers operand ++ Operand.numbersOfLinks links

end

/-! ## Nesting -/

mutual

/-- The greatest number of calls and groups of the operand that stand inside
    each other. -/
def Operand.nesting : Operand → Nat
  | .call _ _ arguments => Expression.nesting arguments + 1
  | .group inner => Expression.nesting inner + 1
  | _ => 0

/-- The greatest nesting of an operand of the expression. -/
def Expression.nesting : Chain Operand → Nat
  | .empty => 0
  | .cons head tail => max (Operand.nesting head) (Operand.nestingOfLinks tail)

/-- The greatest nesting of an operand from the second one on. -/
def Operand.nestingOfLinks : List (Operator × Operand) → Nat
  | [] => 0
  | (_, operand) :: links => max (Operand.nesting operand) (Operand.nestingOfLinks links)

end

end Cypher
