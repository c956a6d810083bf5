/-
  Readings — the elementary ways to read from a state.

  A reading either matches, with a value, or does not; in both cases it hands on
  the state. Where an elementary reading does not match it stays where it is,
  and all but one then record what they looked for.

  * `Reading.token` reads a token of a certain kind. Blanks before it do not
    matter; `Reading.adjacent` reads one with no blank before it, and
    `Reading.arrow` two symbols with no blank between them;
  * `Reading.endOfInput` matches where only blanks are left;
  * `Reading.startBody` and `Reading.caseRest` take text over verbatim, without
    reading tokens: it may hold what no token matches;
  * `Reading.tooDeep` gives up the query.
-/
import Cypher.Grammar.Boundary
import Cypher.Grammar.State

namespace Cypher

/-- Reads from a state: the value if it matches, and the state afterwards. -/
abbrev Reading (α : Type) : Type :=
  State → Option α × State

/-! ## Adjacent tokens -/

/-- The token that stands directly at the cursor, and the cursor after it. -/
def Cursor.adjacent? (c : Cursor) : Option (TokenKind × Cursor) :=
  match c.next? with
  | some (⟨.token kind, span⟩, after) => if span.start = c.offset then some (kind, after) else none
  | _ => none

/-- The cursor after two symbols, the second directly after the first. -/
def Cursor.afterPair? (first second : Symbol) (c : Cursor) : Option Cursor :=
  match c.next? with
  | some (⟨.token kind, _⟩, between) =>
    if kind = .symbol first then
      match between.adjacent? with
      | some (kind', after) => if kind' = .symbol second then some after else none
      | none => none
    else none
  | _ => none

namespace Reading

variable {α : Type}

/-! ## Tokens -/

/-- Reads the next token if `accept` gives it a value; otherwise records `e`. -/
def token (e : Expectation) (accept : TokenKind → Option α) : Reading α := fun s =>
  match s.cursor.next? with
  | some (⟨.token kind, _⟩, after) =>
    match accept kind with
    | some a => (some a, s.moveTo after)
    | none => (none, s.expect e)
  | _ => (none, s.expect e)

/-- Reads the token directly at the cursor if `accept` gives it a value; records
    nothing. -/
def adjacent (accept : TokenKind → Option α) : Reading α := fun s =>
  match s.cursor.adjacent? with
  | some (kind, after) =>
    match accept kind with
    | some a => (some a, s.moveTo after)
    | none => (none, s)
  | none => (none, s)

/-- Reads two symbols with nothing between them; `e` is what they make together. -/
def arrow (e : Expectation) (first second : Symbol) : Reading Unit := fun s =>
  match s.cursor.afterPair? first second with
  | some after => (some (), s.moveTo after)
  | none => (none, s.expect e)

/-- Matches if only blanks are left. -/
def endOfInput : Reading Unit := fun s =>
  match s.cursor.next? with
  | none => (some (), s)
  | some _ => (none, s.expect .endOfInput)

/-! ## Verbatim parts -/

/-- Takes over the text up to the next clause, trimmed. -/
def startBody : Reading Text := fun s =>
  match s.cursor.rest.splitAtClause? with
  | some (before, rest) =>
    let body := before.trim
    (some body, (s.capture (.startBody body)).moveTo (s.cursor.advance before rest))
  | none => (none, s.expectAt s.cursor.toEnd .clause)

/-- Takes over the rest of a `CASE` expression that begins with `word`: the text
    up to and with the first `END`. -/
def caseRest (word : Text) : Reading Text := fun s =>
  match Text.splitAtWord? Keyword.end_.written s.cursor.rest with
  | some (before, rest) =>
    let taken := before ++ rest.take Keyword.end_.written.length
    let text := word ++ taken
    (some text,
      (s.capture (.caseExpression text)).moveTo
        (s.cursor.advance taken (rest.drop Keyword.end_.written.length)))
  | none => (none, s.expectAt s.cursor.toEnd (.keyword .end_))

/-! ## Giving up -/

/-- Gives up the query at the next character that is not blank: calls and groups
    stand inside each other more than `limit` deep. -/
def tooDeep (limit : Nat) : Reading α := fun s =>
  let offset := s.cursor.skipBlanks.offset
  (none, s.fail (.nestingTooDeep limit ⟨offset, offset + 1⟩))

end Reading

end Cypher
