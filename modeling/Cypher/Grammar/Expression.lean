/-
  Expressions — chains of operands, with calls and groups nested in them.

  * `operand limit inside` is one operand, where `inside` is what a call or a
    group may hold, and nothing if they may not be nested any deeper;
  * `expression limit allowance` is an expression in which calls and groups may
    be nested `allowance` deep. `limit` is the allowance of a whole query, which
    an error reports.
-/
import Cypher.Grammar.Terminal

namespace Cypher

namespace Production

variable {α : Type}

/-- A production with the expression inside a call or a group. It is given as a
    function of the unit, so that only the levels that a query has are unfolded;
    where no further level is allowed, the query is given up. -/
def nested (limit : Nat) (inside : Option (Unit → Production Expression))
    (body : Production Expression → Production α) : Production α :=
  match inside with
  | some inner => body (inner ())
  | none => tooDeep limit

/-- A call: `name(arguments)` or `name(DISTINCT arguments)`. -/
def call (limit : Nat) (inside : Option (Unit → Production Expression)) : Production Operand := do
  let name ← identifier
  symbol .leftParen
  nested limit inside fun inner => do
    let distinct ← maybe (keyword .distinct)
    let arguments ← inner
    symbol .rightParen
    return .call name distinct.isSome arguments

/-- A verbatim `CASE … END`, up to the first `END`. -/
def caseExpression : Production Operand := do
  let word ← keyword .case_
  let text ← caseRest word
  return .case_ text

/-- A group: `(inner)`. -/
def group (limit : Nat) (inside : Option (Unit → Production Expression)) : Production Operand := do
  symbol .leftParen
  nested limit inside fun inner => do
    let expression ← inner
    symbol .rightParen
    return .group expression

/-- A property: `owner.name`. -/
def property : Production Operand := do
  let owner ← identifier
  symbol .dot
  let name ← nameOrQuoted
  return .property owner name

/-- One operand. The alternatives are tried in this order, so that a name is an
    identifier only if it is nothing else. -/
def operand (limit : Nat) (inside : Option (Unit → Production Expression)) :
    Production Operand :=
  attempt (call limit inside) <|>
  attempt caseExpression <|>
  attempt (group limit inside) <|>
  attempt property <|>
  Operand.literal <$> literal <|>
  Operand.identifier <$> identifier <|>
  Operand.string <$> quotedString <|>
  Operand.number <$> number <|>
  (fun _ => Operand.wildcard) <$> symbol .star

/-- An expression in which calls and groups are nested at most `allowance` deep. -/
def expression (limit : Nat) : (allowance : Nat) → Production Expression
  | 0 => chain (operand limit none)
  | allowance + 1 => chain (operand limit (some fun _ => expression limit allowance))

end Production

end Cypher
