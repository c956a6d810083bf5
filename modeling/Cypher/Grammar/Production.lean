/-
  Productions — grammars as data, and how they are read.

  A production describes how to read a value. The grammar is one of ordered
  choice: alternatives are tried in turn, and the first one that matches is
  taken. As productions are data, a law of all of them is proved by induction.

  * `Production` has one constructor for each elementary reading and one for
    each way to combine productions: in sequence, as alternatives, with going
    back, and repeated. It is a monad;
  * `Production.run` is the meaning of a production, with one equation for each
    constructor;
  * `repeated` is how a production is read as often as it matches.
-/
import Cypher.Grammar.Reading

namespace Cypher

/-- How to read a value of a type. -/
inductive Production : Type → Type 1 where
  /-- Matches without reading anything. -/
  | succeed {α : Type} (a : α) : Production α
  /-- First `p`, then the production that its value selects. -/
  | andThen {α β : Type} (p : Production α) (f : α → Production β) : Production β
  /-- Either `p`, or `q` in the state that `p` left if `p` does not match. -/
  | orTry {α : Type} (p q : Production α) : Production α
  /-- Like `p`, but goes back to where it started if `p` does not match. Nothing
      is tried once the query has been given up. -/
  | attempt {α : Type} (p : Production α) : Production α
  /-- Matches always: tells whether `p` does, and with which value. -/
  | maybe {α : Type} (p : Production α) : Production (Option α)
  /-- Matches always: tells whether `p` does, and goes back. -/
  | lookahead {α : Type} (p : Production α) : Production Bool
  /-- Zero or more `p` in a row. -/
  | many {α : Type} (p : Production α) : Production (List α)
  /-- A token that `accept` gives a value; `e` names it. -/
  | token {α : Type} (e : Expectation) (accept : TokenKind → Option α) : Production α
  /-- A token that `accept` gives a value, with no blank before it. -/
  | adjacent {α : Type} (accept : TokenKind → Option α) : Production α
  /-- Two symbols with no blank between them; `e` names them. -/
  | arrow (e : Expectation) (first second : Symbol) : Production Unit
  /-- The end of the query. -/
  | endOfInput : Production Unit
  /-- The text up to the next clause. -/
  | startBody : Production Text
  /-- The rest of a `CASE` expression after `word`. -/
  | caseRest (word : Text) : Production Text
  /-- Gives up: calls and groups are nested more than `limit` deep. -/
  | tooDeep {α : Type} (limit : Nat) : Production α

instance : Monad Production where
  pure := .succeed
  bind := .andThen

instance {α : Type} : OrElse (Production α) where
  orElse p q := .orTry p (q ())

/-! ## Going back and repeating -/

variable {α β : Type}

/-- Reads, and goes back to the start if there is no match. Reads nothing once
    the query has been given up. -/
def Reading.attempt (read : Reading α) : Reading α := fun s =>
  if s.fatal.isSome then (none, s)
  else match read s with
    | (some a, s') => (some a, s')
    | (none, s') => (none, s'.moveTo s.cursor)

/-- Reads as often as there is a match, and once more in vain. A match that
    leaves as much text as before ends the repetition. -/
def Reading.repeated (read : Reading α) (s : State) : List α × State :=
  match Reading.attempt read s with
  | (none, s') => ([], s')
  | (some a, s') =>
    if s'.cursor.rest.length < s.cursor.rest.length then
      match Reading.repeated read s' with
      | (as, s'') => (a :: as, s'')
    else ([a], s')
termination_by s.cursor.rest.length

/-! ## Meaning -/

/-- How a production reads from a state. -/
def Production.run {α : Type} : Production α → Reading α
  | .succeed a => fun s => (some a, s)
  | .andThen p f => fun s =>
    match p.run s with
    | (some a, s') => (f a).run s'
    | (none, s') => (none, s')
  | .orTry p q => fun s =>
    match p.run s with
    | (some a, s') => (some a, s')
    | (none, s') => q.run s'
  | .attempt p => Reading.attempt p.run
  | .maybe p => fun s =>
    match p.run s with
    | (result, s') => (some result, s')
  | .lookahead p => fun s =>
    match p.run s with
    | (result, s') => (some result.isSome, s'.moveTo s.cursor)
  | .many p => fun s =>
    match Reading.repeated p.run s with
    | (as, s') => (some as, s')
  | .token e accept => Reading.token e accept
  | .adjacent accept => Reading.adjacent accept
  | .arrow e first second => Reading.arrow e first second
  | .endOfInput => Reading.endOfInput
  | .startBody => Reading.startBody
  | .caseRest word => Reading.caseRest word
  | .tooDeep limit => Reading.tooDeep limit

namespace Production

/-- Reads `p` if it matches here, and otherwise stays here. -/
def optional (p : Production α) : Production (Option α) :=
  maybe (attempt p)

/-- Zero or more `item`s; every one but the first comes after a `separator`. -/
def separated (separator : Production β) (item : Production α) :
    Production (Option (α × List (β × α))) := do
  match ← optional item with
  | none => return none
  | some head =>
    let tail ← many do
      let mark ← separator
      let next ← item
      return (mark, next)
    return some (head, tail)

/-! ## Laws -/

@[simp] theorem run_pure (a : α) (s : State) : (pure a : Production α).run s = (some a, s) := by
  simp only [pure, run]

theorem run_bind (p : Production α) (f : α → Production β) (s : State) :
    (p >>= f).run s =
      match p.run s with
      | (some a, s') => (f a).run s'
      | (none, s') => (none, s') := by
  simp only [bind, run]

/-- A function of the value changes nothing else. -/
theorem run_map (g : α → β) (p : Production α) (s : State) :
    (g <$> p).run s = ((p.run s).1.map g, (p.run s).2) := by
  change (p >>= fun a => pure (g a)).run s = _
  rw [run_bind]
  split <;> simp_all

theorem run_orElse (p q : Production α) (s : State) :
    (p <|> q).run s =
      match p.run s with
      | (some a, s') => (some a, s')
      | (none, s') => q.run s' := by
  simp only [HOrElse.hOrElse, OrElse.orElse, run]

end Production

end Cypher
