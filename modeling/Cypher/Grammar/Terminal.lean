/-
  Terminals — the productions for single tokens and plain lists.

  * `symbol`, `keyword`, `identifier`, `quotedString`, `literal`, `operator` and
    `unsignedNumber` are one token each;
  * `number` has an optional minus sign directly before its digits;
  * `chain` and `commaList` are items with operators or commas between them.
-/
import Cypher.Grammar.Production
import Cypher.Query.Operand

namespace Cypher

namespace Production

variable {α : Type}

/-! ## Tokens -/

/-- A symbol. -/
def symbol (x : Symbol) : Production Unit :=
  token (.symbol x) fun kind => if kind = .symbol x then some () else none

/-- A keyword, in any mixture of capitals and small letters; the value is the
    word as it stands in the query. -/
def keyword (k : Keyword) : Production Text :=
  token (.keyword k) fun kind => if kind.isKeyword k then kind.identifier? else none

/-- An identifier. -/
def identifier : Production Text :=
  token .identifier TokenKind.identifier?

/-- Quoted text, without its back-ticks. -/
def quotedString : Production Text :=
  token .quotedString TokenKind.quoted?

/-- Quoted text, or else an identifier. -/
def nameOrQuoted : Production Text :=
  quotedString <|> identifier

/-- One of the words `null`, `true` and `false`, in small letters. -/
def literal : Production Literal :=
  token .literal fun kind => kind.identifier?.bind Literal.ofWritten?

/-- An operator. -/
def operator : Production Operator :=
  token .operator Operator.ofToken?

/-! ## Numbers -/

/-- A number without a sign. -/
def unsignedNumber : Production Text :=
  token .number TokenKind.number?

/-- A minus sign and a number directly after it. -/
def negativeNumber : Production Text := do
  symbol .minus
  let text ← adjacent TokenKind.number?
  return '-' :: text

/-- A number; a minus sign directly before the digits belongs to it. -/
def number : Production Text :=
  attempt negativeNumber <|> unsignedNumber

/-! ## Lists -/

/-- Operands with operators between them; there may be none. -/
def chain (operand : Production α) : Production (Chain α) := do
  match ← separated operator operand with
  | none => return .empty
  | some (head, tail) => return .cons head tail

/-- The items of a list, where one blank item alone makes no item. -/
def dropLoneBlank (isBlank : α → Bool) : List α → List α
  | [only] => if isBlank only then [] else [only]
  | items => items

/-- Items with commas between them. Items may be blank, but one blank item alone
    is the empty list. -/
def commaList (isBlank : α → Bool) (item : Production α) : Production (List α) := do
  match ← separated (symbol .comma) item with
  | none => return []
  | some (head, tail) => return dropLoneBlank isBlank (head :: tail.map Prod.snd)

end Production

end Cypher
