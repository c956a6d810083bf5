/-
  Operators — what joins two operands of a chain.

  There are fourteen, in three classes, and no precedence among them. Eleven
  are written as symbols, three (`IN`, `AND`, `OR`) as words in any mixture of
  capitals and small letters.

  * `Operator.written` is the canonical text of an operator;
  * `Operator.ofToken?` reads an operator off a token.
-/
import Cypher.Token.Basic

namespace Cypher

/-- An operator between two operands. -/
inductive Operator where
  | regexMatch | in_ | and_ | or_ | equal | notEqual | greater | less | pipe
  | add | subtract | multiply | divide
  | colon
  deriving DecidableEq, Repr

/-- What an operator is for. -/
inductive OperatorClass where
  | boolean | arithmetic | structural
  deriving DecidableEq, Repr

namespace Operator

/-- The class of an operator. -/
def class_ : Operator → OperatorClass
  | regexMatch | in_ | and_ | or_ | equal | notEqual | greater | less | pipe => .boolean
  | add | subtract | multiply | divide => .arithmetic
  | colon => .structural

/-- The canonical text of an operator. -/
def written : Operator → Text
  | regexMatch => ['=', '~']
  | in_ => ['I', 'N']
  | and_ => ['A', 'N', 'D']
  | or_ => ['O', 'R']
  | equal => ['=']
  | notEqual => ['<', '>']
  | greater => ['>']
  | less => ['<']
  | pipe => ['|']
  | add => ['+']
  | subtract => ['-']
  | multiply => ['*']
  | divide => ['/']
  | colon => [':']

/-- The operators, in the order in which they are listed. -/
def all : List Operator :=
  [regexMatch, in_, and_, or_, equal, notEqual, greater, less, pipe, add, subtract, multiply,
    divide, colon]

/-- The operator with this canonical text. -/
def ofWritten? (text : Text) : Option Operator :=
  all.find? fun op => op.written == text

/-- The operator that is this word, up to the case of ASCII letters. -/
def ofWord? (word : Text) : Option Operator :=
  [in_, and_, or_].find? fun op => op.written.eqIgnoringCase word

/-- The operator that is this symbol. -/
def ofSymbol? : Symbol → Option Operator
  | .regexMatch => some regexMatch
  | .equal => some equal
  | .notEqual => some notEqual
  | .greater => some greater
  | .less => some less
  | .pipe => some pipe
  | .plus => some add
  | .minus => some subtract
  | .star => some multiply
  | .slash => some divide
  | .colon => some colon
  | _ => none

/-- The operator that a token stands for. -/
def ofToken? : TokenKind → Option Operator
  | .symbol s => ofSymbol? s
  | .identifier word => ofWord? word
  | _ => none

/-! ## Laws -/

theorem written_injective {o p : Operator} (h : o.written = p.written) : o = p := by
  cases o <;> cases p <;> simp_all [written]

/-- An operator is found by its canonical text. -/
theorem ofWritten?_written (o : Operator) : ofWritten? o.written = some o := by
  cases o <;> rfl

/-- A symbol that stands for an operator is written as the operator. -/
theorem written_of_ofSymbol? {s : Symbol} {o : Operator} (h : ofSymbol? s = some o) :
    s.written = o.written := by
  cases s <;> simp [ofSymbol?] at h <;> subst h <;> rfl

end Operator

end Cypher
