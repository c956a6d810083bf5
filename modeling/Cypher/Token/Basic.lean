/-
  Tokens — the smallest units of a query.

  * `Symbol` are the nineteen punctuation marks and operator signs;
  * `TokenKind` is a symbol, a number, an identifier or back-tick quoted text.
    Keywords and word operators are identifiers: only the grammar tells them
    from names;
  * `Lexeme` is a token or a stretch of text that no token matches, `Item` a
    lexeme with its span, `Token` a token with its span;
  * `written` is the exact text of a symbol, a token or a lexeme in the query,
    `describe` its name in messages.
-/
import Cypher.Text.Basic

namespace Cypher

/-! ## Symbols -/

/-- A punctuation mark or operator sign. -/
inductive Symbol where
  | leftParen | rightParen | leftBracket | rightBracket | leftBrace | rightBrace
  | comma | dot | colon | star
  | regexMatch | equal | notEqual | less | greater | pipe | plus | minus | slash
  deriving DecidableEq, Repr

/-- The characters of a symbol. -/
def Symbol.written : Symbol → Text
  | leftParen => ['(']
  | rightParen => [')']
  | leftBracket => ['[']
  | rightBracket => [']']
  | leftBrace => ['\x7b']
  | rightBrace => ['\x7d']
  | comma => [',']
  | dot => ['.']
  | colon => [':']
  | star => ['*']
  | regexMatch => ['=', '~']
  | equal => ['=']
  | notEqual => ['<', '>']
  | less => ['<']
  | greater => ['>']
  | pipe => ['|']
  | plus => ['+']
  | minus => ['-']
  | slash => ['/']

/-! ## Kinds of tokens -/

/-- A token without its place. Numbers and identifiers carry their characters,
    quoted text what stands between the back-ticks. -/
inductive TokenKind where
  | symbol (symbol : Symbol)
  | number (text : Text)
  | identifier (name : Text)
  | quoted (text : Text)
  deriving DecidableEq, Repr

/-- The characters of a token in the query. -/
def TokenKind.written : TokenKind → Text
  | symbol s => s.written
  | number text => text
  | identifier name => name
  | quoted text => text.inBackTicks

/-- The token in a message: its text in back-ticks, with the class of a number
    or of quoted text in front. -/
def TokenKind.describe : TokenKind → Text
  | symbol s => s.written.inBackTicks
  | number text => "number ".toList ++ text.inBackTicks
  | identifier name => name.inBackTicks
  | quoted text => "quoted string ".toList ++ text.inBackTicks

/-- The name, if the token is an identifier. -/
def TokenKind.identifier? : TokenKind → Option Text
  | identifier name => some name
  | _ => none

/-- The characters, if the token is a number. -/
def TokenKind.number? : TokenKind → Option Text
  | number text => some text
  | _ => none

/-- What stands between the back-ticks, if the token is quoted text. -/
def TokenKind.quoted? : TokenKind → Option Text
  | quoted text => some text
  | _ => none

/-- The token is the identifier `word`, up to the case of ASCII letters. -/
def TokenKind.isWord (word : Text) (kind : TokenKind) : Bool :=
  kind.identifier?.any fun name => name.eqIgnoringCase word

/-! ## Places -/

/-- A stretch of the query: the byte offsets of its start and of its end. -/
structure Span where
  start : Nat
  stop : Nat
  deriving DecidableEq, Repr

/-- The number of bytes; `0` if the span ends before it starts. -/
def Span.size (span : Span) : Nat :=
  span.stop - span.start

/-- The span `next` starts where this one ends. -/
def Span.isAdjacentTo (span next : Span) : Bool :=
  span.stop == next.start

/-- The span as `start..stop`. -/
def Span.describe (span : Span) : Text :=
  Text.ofNat span.start ++ ['.', '.'] ++ Text.ofNat span.stop

/-- A token and where it stands. -/
structure Token where
  kind : TokenKind
  span : Span
  deriving DecidableEq, Repr

/-- The token and its place in a message. -/
def Token.describe (token : Token) : Text :=
  token.kind.describe ++ " at ".toList ++ token.span.describe

/-! ## Lexemes -/

/-- A token, or text that no token matches. -/
inductive Lexeme where
  | token (kind : TokenKind)
  | unrecognized (text : Text)
  deriving DecidableEq, Repr

/-- The characters of a lexeme in the query. -/
def Lexeme.written : Lexeme → Text
  | token kind => kind.written
  | unrecognized text => text

/-- A lexeme and where it stands. -/
structure Item where
  lexeme : Lexeme
  span : Span
  deriving DecidableEq, Repr

/-- The item as a token, if it is one. -/
def Item.token? : Item → Option Token
  | ⟨.token kind, span⟩ => some ⟨kind, span⟩
  | ⟨.unrecognized _, _⟩ => none

/-! ## Laws -/

theorem Symbol.written_ne_nil (s : Symbol) : s.written ≠ [] := by
  cases s <;> simp [written]

/-- No two symbols are written alike. -/
theorem Symbol.written_injective {s t : Symbol} (h : s.written = t.written) : s = t := by
  cases s <;> cases t <;> simp_all [written]

end Cypher
