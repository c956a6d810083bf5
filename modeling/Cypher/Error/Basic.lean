/-
  Syntax errors — what is reported when a query does not match the grammar.

  * `SyntaxError` is a cause and a span of the query. The cause is what was
    expected and what was found instead, text that no token matches, or an
    expression nested too deeply;
  * `SyntaxError.message` is the wording.
-/
import Cypher.Token.Basic

namespace Cypher

/-- What stands at the place of an error. -/
inductive Found where
  /-- A token, by its characters -/
  | token (text : Text)
  /-- Characters that no token matches -/
  | unrecognized (text : Text)
  | endOfInput
  deriving DecidableEq, Repr

/-- The wording of what was found. -/
def Found.describe : Found → Text
  | token text => text.inBackTicks
  | unrecognized text => "unrecognized input ".toList ++ text.inBackTicks
  | endOfInput => "end of input".toList

/-- Why a query is refused. -/
inductive SyntaxError.Cause where
  /-- None of the alternatives that were looked for stands there. -/
  | unexpected (alternatives : List Text) (found : Found)
  /-- No token matches the text. -/
  | unrecognized (text : Text)
  /-- Calls and groups stand inside each other more than `limit` deep. -/
  | nestingTooDeep (limit : Nat)
  deriving DecidableEq, Repr

/-- The one kind of error of a query. -/
structure SyntaxError where
  cause : SyntaxError.Cause
  span : Span
  deriving DecidableEq, Repr

namespace SyntaxError

/-- The name of this kind of error. -/
def name : Text :=
  "Cypher syntax error".toList

/-- The alternatives that would have been accepted, in the order in which they
    were looked for. -/
def alternatives (error : SyntaxError) : List Text :=
  match error.cause with
  | .unexpected alternatives _ => alternatives
  | .unrecognized _ | .nestingTooDeep _ => []

/-- What was found. Nesting becomes too deep at an opening parenthesis. -/
def found (error : SyntaxError) : Found :=
  match error.cause with
  | .unexpected _ found => found
  | .unrecognized text => .unrecognized text
  | .nestingTooDeep _ => .token ['(']

/-- The wording of a failed expectation. -/
def expectedMessage (alternatives : List Text) (found : Found) : Text :=
  match alternatives with
  | [] => "unexpected ".toList ++ found.describe
  | [only] => "expected ".toList ++ only ++ ", found ".toList ++ found.describe
  | _ =>
    "expected one of ".toList ++ Text.commaJoined alternatives ++ ", found ".toList ++
      found.describe

/-- The wording of an error. -/
def message (error : SyntaxError) : Text :=
  match error.cause with
  | .unexpected alternatives found => expectedMessage alternatives found
  | .unrecognized text => (Found.unrecognized text).describe
  | .nestingTooDeep limit => "expression nesting exceeds the limit of ".toList ++ Text.ofNat limit

/-- The error for calls and groups nested more than `limit` deep. -/
def nestingTooDeep (limit : Nat) (span : Span) : SyntaxError :=
  ⟨.nestingTooDeep limit, span⟩

end SyntaxError

end Cypher
