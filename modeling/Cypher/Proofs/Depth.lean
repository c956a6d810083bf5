/-
  Depth — counting the calls and groups that are open.

  A production for an expression is told how many levels may still be opened in it. The same is
  reached with a counter beside the state: it goes up where a call or a group is opened, and down
  again where that ends, whether it matched or not.

  * `Counted` are readings with such a counter, `Counted.nested` is where it changes. All else hands
    it on as it comes: going back restores the cursor, and not the counter;
  * `Counted.call` to `Counted.query`: the grammar with a counter;
  * `Counted.Follows`: a reading with a counter does what a production does, and leaves the counter
    as it found it. So does the whole grammar (`followsGrammar`).
-/
import Cypher.Proofs.Productions

namespace Cypher

/-! ## Readings with a counter -/

/-- A reading that counts, beside the state, how many calls and groups are open. -/
def Counted (α : Type) : Type :=
  Nat × State → Option α × (Nat × State)

namespace Counted

variable {α β : Type}

instance : Monad Counted where
  pure a := fun s => (some a, s)
  bind read f := fun s =>
    match read s with
    | (some a, s') => f a s'
    | (none, s') => (none, s')

instance : OrElse (Counted α) where
  orElse read other := fun s =>
    match read s with
    | (some a, s') => (some a, s')
    | (none, s') => other () s'

/-- A production in which no call or group is opened. -/
def plain (p : Production α) : Counted α := fun (depth, s) =>
  ((p.run s).1, (depth, (p.run s).2))

/-- Goes back to the start if there is no match. The counter is not restored. -/
def attempt (read : Counted α) : Counted α := fun (depth, s) =>
  if s.fatal.isSome then (none, (depth, s))
  else match read (depth, s) with
    | (some a, s') => (some a, s')
    | (none, (depth', s')) => (none, (depth', s'.moveTo s.cursor))

/-- Reads if there is a match, and otherwise stays. -/
def optional (read : Counted α) : Counted (Option α) := fun s =>
  (some (attempt read s).1, (attempt read s).2)

/-- Reads as often as there is a match, and once more in vain. -/
def repeated (read : Counted α) (s : Nat × State) : List α × (Nat × State) :=
  match attempt read s with
  | (none, s') => ([], s')
  | (some a, s') =>
    if s'.2.cursor.rest.length < s.2.cursor.rest.length then
      match repeated read s' with
      | (as, s'') => (a :: as, s'')
    else ([a], s')
termination_by s.2.cursor.rest.length

/-- Zero or more in a row. -/
def many (read : Counted α) : Counted (List α) := fun s =>
  (some (repeated read s).1, (repeated read s).2)

/-- Reads one level deeper, and gives up the query if that is more than `limit` levels deep. -/
def nested (limit : Nat) (body : Counted α) : Counted α := fun (depth, s) =>
  if limit ≤ depth then plain (.tooDeep limit) (depth, s)
  else match body (depth + 1, s) with
    | (result, (depth', s')) => (result, (depth' - 1, s'))

/-! ## The grammar -/

/-- Zero or more `item`s; every one but the first comes after a `separator`. -/
def separated (separator : Production β) (item : Counted α) :
    Counted (Option (α × List (β × α))) := do
  match ← optional item with
  | none => return none
  | some head =>
    let tail ← many do
      let mark ← plain separator
      let next ← item
      return (mark, next)
    return some (head, tail)

/-- Operands with operators between them. -/
def chain (operand : Counted α) : Counted (Chain α) := do
  match ← separated .operator operand with
  | none => return .empty
  | some (head, tail) => return .cons head tail

/-- Items with commas between them. -/
def commaList (isBlank : α → Bool) (item : Counted α) : Counted (List α) := do
  match ← separated (.symbol .comma) item with
  | none => return []
  | some (head, tail) => return Production.dropLoneBlank isBlank (head :: tail.map Prod.snd)

/-- A call. -/
def call (limit : Nat) (inner : Counted Expression) : Counted Operand := do
  let name ← plain .identifier
  plain (.symbol .leftParen)
  nested limit do
    let distinct ← plain (.maybe (.keyword .distinct))
    let arguments ← inner
    plain (.symbol .rightParen)
    return .call name distinct.isSome arguments

/-- A group. -/
def group (limit : Nat) (inner : Counted Expression) : Counted Operand := do
  plain (.symbol .leftParen)
  nested limit do
    let expression ← inner
    plain (.symbol .rightParen)
    return .group expression

/-- One operand. -/
def operand (limit : Nat) (inner : Counted Expression) : Counted Operand :=
  attempt (call limit inner) <|>
  plain (.attempt .caseExpression) <|>
  attempt (group limit inner) <|>
  plain (.attempt .property) <|>
  plain (Operand.literal <$> .literal) <|>
  plain (Operand.identifier <$> .identifier) <|>
  plain (Operand.string <$> .quotedString) <|>
  plain (Operand.number <$> .number) <|>
  plain ((fun _ => Operand.wildcard) <$> .symbol .star)

/-- An expression that is unfolded at most `levels` times; the counter stops it before that. -/
def expression (limit : Nat) : (levels : Nat) → Counted Expression
  | 0 => plain (.tooDeep limit)
  | levels + 1 => chain (operand limit (expression limit levels))

/-- A condition. -/
def whereClause (condition : Counted Expression) : Counted Expression := do
  let _ ← plain (.keyword .where_)
  if ← plain .atClause then return .empty else condition

/-- A match clause. -/
def matchClause (condition : Counted Expression) : Counted MatchClause := do
  let kind ← plain .matchKind
  let paths ← plain .paths
  let condition ← optional (whereClause condition)
  return ⟨kind, paths, condition⟩

/-- An item. -/
def returnItem (expression : Counted Expression) : Counted ReturnItem := do
  let expression ← expression
  let aliasName ← plain (.optional .aliasName)
  return ⟨expression, aliasName⟩

/-- A whole query, up to the end of the text. -/
def query (expression : Counted Expression) : Counted Query := do
  let start ← plain (.optional .startClause)
  let clauses ← many (matchClause expression)
  let _ ← plain (.keyword .return_)
  let returns ← commaList ReturnItem.isBlank (returnItem expression)
  plain .endOfInput
  return ⟨start, clauses, returns⟩

/-! ## The counter is left as it was found -/

/-- From `depth` on the reading does what the production does, and leaves the counter at `depth`. -/
def Follows (read : Counted α) (depth : Nat) (p : Production α) : Prop :=
  ∀ s, read (depth, s) = ((p.run s).1, (depth, (p.run s).2))

variable {depth limit : Nat} {read : Counted α} {p : Production α}

theorem follows_plain (p : Production α) : (plain p).Follows depth p :=
  fun _ => rfl

theorem follows_pure (a : α) : (pure a : Counted α).Follows depth (pure a) :=
  fun _ => rfl

namespace Follows

theorem bind (h : read.Follows depth p) {f : α → Counted β} {g : α → Production β}
    (hf : ∀ a, (f a).Follows depth (g a)) : (read >>= f).Follows depth (p >>= g) := by
  intro s
  simp only [Bind.bind, h s, Production.run]
  rcases p.run s with ⟨_ | a, s'⟩
  · rfl
  · exact hf a s'

/-- What is read first without the counter leaves it alone. -/
theorem after_plain {f : α → Counted β} {g : α → Production β}
    (hf : ∀ a, (f a).Follows depth (g a)) : (plain p >>= f).Follows depth (p >>= g) :=
  (follows_plain p).bind hf

theorem orElse {other : Counted α} {q : Production α} (h : read.Follows depth p)
    (hq : other.Follows depth q) : (read <|> other).Follows depth (p <|> q) := by
  intro s
  simp only [HOrElse.hOrElse, OrElse.orElse, h s, Production.run]
  rcases p.run s with ⟨_ | a, s'⟩
  · exact hq s'
  · rfl

theorem attempt (h : read.Follows depth p) : (attempt read).Follows depth (.attempt p) := by
  intro s
  simp only [Counted.attempt, Production.run, Reading.attempt, h s]
  split
  · rfl
  · rcases p.run s with ⟨_ | a, s'⟩ <;> rfl

theorem optional (h : read.Follows depth p) : (optional read).Follows depth (.optional p) := by
  intro s
  simp only [Counted.optional, h.attempt s]
  rfl

theorem many (h : read.Follows depth p) : (many read).Follows depth (.many p) := by
  have hrepeated : ∀ s, repeated read (depth, s) =
      ((Reading.repeated p.run s).1, (depth, (Reading.repeated p.run s).2)) := by
    intro s
    fun_induction Reading.repeated p.run s with
    | case1 s s' heq =>
      have hs := h.attempt s
      simp only [Production.run, heq] at hs
      rw [repeated, hs]
    | case2 s a s' heq hlt as s'' hrep ih =>
      have hs := h.attempt s
      simp only [Production.run, heq] at hs
      rw [repeated, hs]
      simp only [hlt, if_true, ih, hrep]
    | case3 s a s' heq hlt =>
      have hs := h.attempt s
      simp only [Production.run, heq] at hs
      rw [repeated, hs]
      simp only [hlt, if_false]
  intro s
  simp only [Counted.many, hrepeated s]
  rfl

/-- One level deeper the counter goes up, and comes down again by what it went up. -/
theorem nested {body : Production Expression → Production α}
    (h : ∀ n, limit - depth = n + 1 → read.Follows (depth + 1) (body (.expression limit n))) :
    (nested limit read).Follows depth
      (.nested limit (Production.inside limit (limit - depth)) body) := by
  intro s
  simp only [Counted.nested]
  cases hallowance : limit - depth with
  | zero => rw [if_pos (by omega)]; rfl
  | succ n =>
    rw [if_neg (by omega), h n hallowance s]
    rfl

theorem separated (separator : Production β) (h : read.Follows depth p) :
    (separated separator read).Follows depth (.separated separator p) := by
  refine h.optional.bind fun head => ?_
  cases head with
  | none => exact follows_pure _
  | some head =>
    refine (many (after_plain fun mark => ?_)).bind fun tail => follows_pure _
    exact h.bind fun next => follows_pure (mark, next)

theorem chain (h : read.Follows depth p) : (chain read).Follows depth (.chain p) := by
  refine (h.separated _).bind fun parts => ?_
  cases parts <;> exact follows_pure _

theorem commaList (isBlank : α → Bool) (h : read.Follows depth p) :
    (commaList isBlank read).Follows depth (.commaList isBlank p) := by
  refine (h.separated _).bind fun parts => ?_
  cases parts <;> exact follows_pure _

end Follows

/-! ## The counter in the grammar -/

section

variable {inner : Counted Expression}

/-- Inside a call or a group, one level deeper, `inner` reads expressions. -/
def ReadsInside (limit depth : Nat) (inner : Counted Expression) : Prop :=
  ∀ n, limit - depth = n + 1 → inner.Follows (depth + 1) (.expression limit n)

theorem follows_call (h : ReadsInside limit depth inner) :
    (call limit inner).Follows depth (.call limit (Production.inside limit (limit - depth))) := by
  refine .after_plain fun name => .after_plain fun _ => .nested fun n hn => ?_
  refine .after_plain fun distinct => (h n hn).bind fun arguments => ?_
  exact .after_plain fun _ => follows_pure _

theorem follows_group (h : ReadsInside limit depth inner) :
    (group limit inner).Follows depth (.group limit (Production.inside limit (limit - depth))) := by
  refine .after_plain fun _ => .nested fun n hn => (h n hn).bind fun expression => ?_
  exact .after_plain fun _ => follows_pure _

theorem follows_operand (h : ReadsInside limit depth inner) :
    (operand limit inner).Follows depth
      (.operand limit (Production.inside limit (limit - depth))) :=
  (follows_call h).attempt.orElse <| (follows_plain _).orElse <|
    (follows_group h).attempt.orElse <| (follows_plain _).orElse <| (follows_plain _).orElse <|
    (follows_plain _).orElse <| (follows_plain _).orElse <| (follows_plain _).orElse <|
    follows_plain _

end

/-- The counter stops an expression before it is unfolded too often. -/
theorem follows_expression {levels : Nat} (h : limit - depth < levels) :
    (expression limit levels).Follows depth (.expression limit (limit - depth)) := by
  induction levels generalizing depth with
  | zero => omega
  | succ levels ih =>
    rw [Production.expression_eq_chain]
    refine (follows_operand fun n hn => ?_).chain
    obtain rfl : n = limit - (depth + 1) := by omega
    exact ih (by omega)

end Counted

namespace Production

/-! ## The parts of a query, with the expressions in them -/

/-- A condition in which `condition` is read. -/
def whereClauseOf (condition : Production Expression) : Production Expression := do
  let _ ← keyword .where_
  if ← atClause then return .empty else condition

/-- A match clause in whose condition `condition` is read. -/
def matchClauseOf (condition : Production Expression) : Production MatchClause := do
  let kind ← matchKind
  let paths ← paths
  let condition ← optional (whereClauseOf condition)
  return ⟨kind, paths, condition⟩

/-- An item in which `expression` is read. -/
def returnItemOf (expression : Production Expression) : Production ReturnItem := do
  let expression ← expression
  let aliasName ← optional aliasName
  return ⟨expression, aliasName⟩

/-- A query in whose conditions and items `expression` is read. -/
def queryOf (expression : Production Expression) : Production Query := do
  let start ← optional startClause
  let clauses ← many (matchClauseOf expression)
  let _ ← keyword .return_
  let returns ← commaList ReturnItem.isBlank (returnItemOf expression)
  endOfInput
  return ⟨start, clauses, returns⟩

theorem query_eq_queryOf (limit : Nat) : query limit = queryOf (expression limit limit) :=
  rfl

end Production

namespace Counted

variable {depth : Nat} {inner : Counted Expression} {e : Production Expression}

theorem follows_whereClause (h : inner.Follows depth e) :
    (whereClause inner).Follows depth (.whereClauseOf e) := by
  refine .after_plain fun _ => .after_plain fun found => ?_
  cases found with
  | true => exact follows_pure _
  | false => exact h

theorem follows_matchClause (h : inner.Follows depth e) :
    (matchClause inner).Follows depth (.matchClauseOf e) := by
  refine .after_plain fun kind => .after_plain fun paths => ?_
  exact (follows_whereClause h).optional.bind fun condition => follows_pure _

theorem follows_returnItem (h : inner.Follows depth e) :
    (returnItem inner).Follows depth (.returnItemOf e) :=
  h.bind fun _ => .after_plain fun _ => follows_pure _

theorem follows_query (h : inner.Follows depth e) :
    (query inner).Follows depth (.queryOf e) := by
  refine .after_plain fun start => (follows_matchClause h).many.bind fun clauses => ?_
  refine .after_plain fun _ => ((follows_returnItem h).commaList _).bind fun returns => ?_
  exact .after_plain fun _ => follows_pure _

/-- With the counter at `depth`, every production that may open calls and groups does what it does
    when it is told how many levels are left, and leaves the counter as it found it. -/
structure FollowsGrammar (limit depth : Nat) (inner : Counted Expression) : Prop where
  call : (call limit inner).Follows depth (.call limit (Production.inside limit (limit - depth)))
  group : (group limit inner).Follows depth (.group limit (Production.inside limit (limit - depth)))
  operand : (operand limit inner).Follows depth
    (.operand limit (Production.inside limit (limit - depth)))
  expression : inner.Follows depth (.expression limit (limit - depth))
  whereClause : (whereClause inner).Follows depth
    (.whereClauseOf (.expression limit (limit - depth)))
  matchClause : (matchClause inner).Follows depth
    (.matchClauseOf (.expression limit (limit - depth)))
  returnItem : (returnItem inner).Follows depth (.returnItemOf (.expression limit (limit - depth)))
  query : (query inner).Follows depth (.queryOf (.expression limit (limit - depth)))

theorem followsGrammar {limit levels : Nat} (h : limit - depth < levels) :
    FollowsGrammar limit depth (expression limit levels) := by
  have hinside : ReadsInside limit depth (expression limit levels) := by
    intro n hn
    obtain rfl : n = limit - (depth + 1) := by omega
    exact follows_expression (by omega)
  have hexpression := follows_expression h
  exact ⟨follows_call hinside, follows_group hinside, follows_operand hinside, hexpression,
    follows_whereClause hexpression, follows_matchClause hexpression,
    follows_returnItem hexpression, follows_query hexpression⟩

end Counted

end Cypher
