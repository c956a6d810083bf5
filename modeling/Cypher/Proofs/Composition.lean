/-
  Composition — how the grammar is put together.

  A law of the grammar holds of single readings, and is kept by the ways to combine productions.
  From there to a whole query the way leads through every production. It is taken once, here: a
  law is then proved by induction on `Production.Composed`, with one case for each way to combine
  productions.

  * `Scope.Same`: two values are equal, or the same up to letter case;
  * `Production.Composed`: two productions are put together alike, out of readings of tokens, and go
    on alike with what is the same. It tells how many productions stand inside each other, that what
    is repeated moves on, and that calls and groups stand behind a parenthesis and may be nested
    deeper in the second production;
  * `Composed.operand` to `Composed.query`: so is each production of the grammar under a limit and
    under a larger one.
-/
import Cypher.Proofs.GoingBack
import Cypher.Proofs.Lowering

namespace Cypher

/-! ## Expectations and tokens -/

/-- The token is one that the expectation asks for. An arrow is no single token. -/
def Expectation.accepts : Expectation → TokenKind → Bool
  | symbol s, kind => kind = .symbol s
  | keyword k, kind => kind.isKeyword k
  | identifier, kind => kind.identifier?.isSome
  | quotedString, kind => kind.quoted?.isSome
  | literal, kind => (kind.identifier?.bind Literal.ofWritten?).isSome
  | number, kind => kind.number?.isSome
  | operator, kind => (Operator.ofToken? kind).isSome
  | leftArrow, _ | rightArrow, _ | clause, _ | endOfInput, _ => false

/-- One token decides whether the expectation is met. A minus sign may be the sign of a
    number, and then the number counts as well. -/
def Expectation.isPlain : Expectation → Bool
  | symbol s => s != .minus
  | leftArrow | rightArrow | clause | endOfInput => false
  | _ => true

namespace Production

theorem isSome_accept_symbol (x : Symbol) (kind : TokenKind) :
    (if kind = .symbol x then some () else none).isSome =
      Expectation.accepts (.symbol x) kind := by
  by_cases h : kind = .symbol x <;> simp [h, Expectation.accepts]

theorem isSome_accept_keyword (k : Keyword) (kind : TokenKind) :
    (if kind.isKeyword k then kind.identifier? else none).isSome =
      Expectation.accepts (.keyword k) kind := by
  cases kind with
  | identifier name =>
    by_cases h : TokenKind.isKeyword k (.identifier name) = true <;>
      simp [h, Expectation.accepts, TokenKind.identifier?]
  | _ =>
    simp [Expectation.accepts, TokenKind.isKeyword, TokenKind.isWord, TokenKind.identifier?]

/-! ## Productions put together alike -/

/-- What two productions may have: calls and groups are nested `limit` deep in the first one and
    `more` levels deeper in the second one at most. There is a lookahead only if `looks`, and a
    `START` body or the end of the query only if `whole`. Their values are equal, or only the same
    up to letter case if `folds`. -/
structure Scope where
  limit : Nat
  more : Nat
  looks : Bool
  whole : Bool
  folds : Bool

/-- The values are the same up to `fold`, and equal unless they may differ in letter case. -/
structure Scope.Same (scope : Scope) {α γ : Type} (fold : α → γ) (a b : α) : Prop where
  folded : fold a = fold b
  eq : scope.folds = false → a = b

theorem Scope.Same.refl {scope : Scope} {α γ : Type} {fold : α → γ} (a : α) :
    scope.Same fold a a :=
  ⟨rfl, fun _ => rfl⟩

theorem Scope.Same.of_some {scope : Scope} {α γ : Type} {fold : α → γ} {a b : α}
    (h : scope.Same (Option.map fold) (some a) (some b)) : scope.Same fold a b :=
  ⟨Option.some.inj h.folded, fun hfolds => Option.some.inj (h.eq hfolds)⟩

/-- What is dropped as a blank item is dropped up to `fold`. -/
theorem map_dropLoneBlank {α γ : Type} {fold : α → γ} {isBlank : α → Bool}
    (hblank : ∀ a b, fold a = fold b → isBlank a = isBlank b) {as bs : List α}
    (h : as.map fold = bs.map fold) :
    (dropLoneBlank isBlank as).map fold = (dropLoneBlank isBlank bs).map fold := by
  rcases as with _ | ⟨a, _ | ⟨a', as⟩⟩ <;> rcases bs with _ | ⟨b, _ | ⟨b', bs⟩⟩ <;>
    simp only [List.map_cons, List.map_nil, List.cons.injEq, reduceCtorEq, and_true, and_false] at h
  · rfl
  · simp only [dropLoneBlank, hblank a b h]
    split
    · rfl
    · simp only [List.map_cons, h]
  · simp only [dropLoneBlank, List.map_cons, h]

/-- The operands that are one word, quoted text, a number or `*`. -/
def plain : Production Operand :=
  Operand.literal <$> literal <|> Operand.identifier <$> identifier <|>
    Operand.string <$> quotedString <|> Operand.number <$> number <|>
    (fun _ => Operand.wildcard) <$> symbol .star

/-- The productions are put together alike, with values that are the same up to `fold`, but calls
    and groups may be nested deeper in the second one. In the first one at most `size` productions
    stand inside each other. What stands in parentheses is not counted, and is at most 24 itself. -/
inductive Composed (scope : Scope) :
    (size : Nat) → {α γ : Type} → (fold : α → γ) → Production α → Production α → Prop
  | succeed {α γ : Type} {fold : α → γ} {a b : α} : scope.Same fold a b →
      Composed scope 1 fold (.succeed a) (.succeed b)
  | andThen {α β γ δ : Type} {m n : Nat} {fold : α → γ} {fold' : β → δ} {p p' : Production α}
      {f f' : α → Production β} : Composed scope m fold p p' →
      (∀ a b, scope.Same fold a b → Composed scope n fold' (f a) (f' b)) →
      Composed scope (max m n + 1) fold' (.andThen p f) (.andThen p' f')
  | orTry {α γ : Type} {m n : Nat} {fold : α → γ} {p p' q q' : Production α} :
      Composed scope m fold p p' → Composed scope n fold q q' →
      Composed scope (max m n + 1) fold (.orTry p q) (.orTry p' q')
  | attempt {α γ : Type} {n : Nat} {fold : α → γ} {p p' : Production α} :
      Composed scope n fold p p' → Composed scope (n + 1) fold (.attempt p) (.attempt p')
  | maybe {α γ : Type} {n : Nat} {fold : α → γ} {p p' : Production α} :
      Composed scope n fold p p' → Composed scope (n + 1) (Option.map fold) (.maybe p) (.maybe p')
  | lookahead {α γ : Type} {n : Nat} {fold : α → γ} {p p' : Production α} : scope.looks = true →
      Composed scope n fold p p' → Composed scope (n + 1) id (.lookahead p) (.lookahead p')
  | many {α γ : Type} {n : Nat} {fold : α → γ} {p p' : Production α} : p.MovesOn →
      Composed scope n fold p p' → Composed scope (n + 2) (List.map fold) (.many p) (.many p')
  | token {α γ : Type} {fold : α → γ} {e : Expectation} {accept : TokenKind → Option α} :
      (∀ kind, (accept kind).isSome = e.accepts kind) → e.isPlain = true →
      (scope.folds = true → ∀ kind, (accept kind).map fold = (accept kind.lower).map fold) →
      Composed scope 1 fold (.token e accept) (.token e accept)
  | leftMark : Composed scope 3 id leftMark leftMark
  | rightMark : Composed scope 3 id rightMark rightMark
  | number : Composed scope 5 Text.lower number number
  | caseExpression : Composed scope 3 Operand.folded caseExpression caseExpression
  | startBody : scope.whole = true → Composed scope 1 Text.lower startBody startBody
  | endOfInput : scope.whole = true → Composed scope 1 id endOfInput endOfInput
  /-- A literal may become a name, which then is another alternative. -/
  | propertyOrPlain : scope.folds = true → Composed scope 11 Operand.folded
      (attempt property <|> plain) (attempt property <|> plain)
  /-- Behind a parenthesis there is room again. -/
  | parenthesis {α γ : Type} {fold : α → γ} {p p' : Production α} : Composed scope 24 fold p p' →
      Composed scope 2 fold (symbol .leftParen >>= fun _ => p) (symbol .leftParen >>= fun _ => p')
  /-- A level that only the second production may have. -/
  | tooDeep {α γ : Type} {fold : α → γ} {p' : Production α} :
      (scope.more = 0 → p' = tooDeep scope.limit) → Composed scope 2 fold
        (symbol .leftParen >>= fun _ => tooDeep scope.limit) (symbol .leftParen >>= fun _ => p')
  | mono {α γ : Type} {m n : Nat} {fold : α → γ} {p p' : Production α} : m ≤ n →
      Composed scope m fold p p' → Composed scope n fold p p'

namespace Composed

variable {scope : Scope} {m n : Nat} {α β γ δ : Type} {fold : α → γ} {fold' : β → δ}

/-! ## Combinations -/

theorem pure {a b : α} (h : scope.Same fold a b) : Composed scope 1 fold (pure a) (pure b) :=
  .succeed h

theorem bind {p p' : Production α} {f f' : α → Production β} (hp : Composed scope m fold p p')
    (hf : ∀ a b, scope.Same fold a b → Composed scope n fold' (f a) (f' b)) :
    Composed scope (max m n + 1) fold' (p >>= f) (p' >>= f') :=
  .andThen hp hf

/-- What is read first has no part in the value. -/
theorem before {p p' : Production α} {q q' : Production β} (hp : Composed scope m fold p p')
    (hq : Composed scope n fold' q q') :
    Composed scope (max m n + 1) fold' (p >>= fun _ => q) (p' >>= fun _ => q') :=
  hp.bind fun _ _ _ => hq

/-- The productions go on with a value or without one, as it was read. -/
theorem bindOption {p p' : Production (Option α)} {f f' : Option α → Production β}
    (hp : Composed scope m (Option.map fold) p p')
    (hnone : Composed scope n fold' (f none) (f' none))
    (hsome : ∀ a b, scope.Same fold a b → Composed scope n fold' (f (some a)) (f' (some b))) :
    Composed scope (max m n + 1) fold' (p >>= f) (p' >>= f') := by
  refine hp.bind fun a b hab => ?_
  cases a with
  | none =>
    cases b with
    | none => exact hnone
    | some b => cases hab.folded
  | some a =>
    cases b with
    | none => cases hab.folded
    | some b => exact hsome a b hab.of_some

theorem map {p p' : Production α} {g : α → β} (hp : Composed scope n fold p p')
    (hg : ∀ a b, fold a = fold b → fold' (g a) = fold' (g b)) :
    Composed scope (max n 1 + 1) fold' (g <$> p) (g <$> p') :=
  hp.bind fun a b hab => .pure ⟨hg a b hab.folded, fun hfolds => by rw [hab.eq hfolds]⟩

theorem orElse {p p' q q' : Production α} (hp : Composed scope m fold p p')
    (hq : Composed scope n fold q q') : Composed scope (max m n + 1) fold (p <|> q) (p' <|> q') :=
  .orTry hp hq

theorem optional {p p' : Production α} (hp : Composed scope n fold p p') :
    Composed scope (n + 2) (Option.map fold) (optional p) (optional p') :=
  .maybe (.attempt hp)

theorem separated {separator : Production β} {item item' : Production α}
    (hs : Composed scope 1 id separator separator) (hmoves : separator.MovesOn)
    (hi : Composed scope n fold item item') :
    Composed scope (n + 7)
      (Option.map fun parts => (fold parts.1, parts.2.map fun link => (link.1, fold link.2)))
      (separated separator item) (separated separator item') := by
  have hlink : Composed scope (n + 3) (fun link : β × α => (link.1, fold link.2))
      (link separator item) (link separator item') := by
    refine .mono (by omega) (hs.bind fun mark mark' hmark => hi.bind fun a b hab => .pure ?_)
    obtain rfl : mark = mark' := hmark.folded
    exact ⟨congrArg (Prod.mk mark) hab.folded, fun hfolds => by rw [hab.eq hfolds]⟩
  refine .mono (by omega) (hi.optional.bindOption (n := n + 6) ?_ fun a b hab => ?_)
  · exact .mono (by omega) (.pure (.refl _))
  · refine .mono (by omega)
      ((many (movesOn_bind hmoves _) hlink).bind fun tail tail' htail => .pure ?_)
    exact ⟨by simp only [Option.map_some, hab.folded, htail.folded],
      fun hfolds => by rw [hab.eq hfolds, htail.eq hfolds]⟩

/-! ## Terminals -/

theorem symbol {x : Symbol} (hx : x ≠ .minus) : Composed scope 1 id (symbol x) (symbol x) :=
  .token (isSome_accept_symbol x) (by simpa [Expectation.isPlain] using hx)
    fun _ kind => by simp only [TokenKind.lower_eq_symbol_iff]

theorem keyword (k : Keyword) : Composed scope 1 Text.lower (keyword k) (keyword k) :=
  .token (isSome_accept_keyword k) rfl fun _ => TokenKind.keyword_lower k

theorem identifier : Composed scope 1 Text.lower identifier identifier :=
  .token (fun _ => rfl) rfl fun _ => TokenKind.identifier?_lower

theorem quotedString : Composed scope 1 Text.lower quotedString quotedString :=
  .token (fun _ => rfl) rfl fun _ => TokenKind.quoted?_lower

theorem operator : Composed scope 1 id operator operator :=
  .token (fun _ => rfl) rfl fun _ kind => by rw [Operator.ofToken?_lower]

theorem nameOrQuoted : Composed scope 2 Text.lower nameOrQuoted nameOrQuoted :=
  quotedString.orElse identifier

theorem chain {p p' : Production α} (hp : Composed scope n fold p p') :
    Composed scope (n + 8) (Chain.map fold) (chain p) (chain p') := by
  refine .mono (by omega) ((operator.separated (movesOn_token _ _) hp).bindOption (n := 1)
    (.pure (.refl _)) fun parts parts' hparts => .pure ?_)
  obtain ⟨hhead, htail⟩ := Prod.mk.inj hparts.folded
  exact ⟨by simp only [Chain.map, hhead, htail], fun hfolds => by rw [hparts.eq hfolds]⟩

theorem commaList {isBlank : α → Bool} {p p' : Production α}
    (hblank : ∀ a b, fold a = fold b → isBlank a = isBlank b) (hp : Composed scope n fold p p') :
    Composed scope (n + 8) (List.map fold) (commaList isBlank p) (commaList isBlank p') := by
  have hcomma : Composed scope 1 id (Production.symbol .comma) (Production.symbol .comma) :=
    symbol (by simp)
  refine .mono (by omega) ((hcomma.separated (movesOn_token _ _) hp).bindOption (n := 1)
    (.pure (.refl _)) fun parts parts' hparts => .pure ?_)
  obtain ⟨hhead, htail⟩ := Prod.mk.inj hparts.folded
  have hitems := congrArg (List.map Prod.snd) htail
  simp only [List.map_map, Function.comp_def] at hitems
  refine ⟨map_dropLoneBlank hblank ?_, fun hfolds => by rw [hparts.eq hfolds]⟩
  simp only [List.map_cons, List.map_map, Function.comp_def, hhead, hitems]

/-! ## Expressions -/

section

variable {allowance : Nat}

/-- A level that both productions have, or that the first one may not have. -/
theorem nested {body body' : Production Expression → Production α}
    (hbody : ∀ l, allowance = l + 1 → Composed scope 24 fold (body (expression scope.limit l))
      (body' (expression (scope.limit + scope.more) (l + scope.more)))) :
    Composed scope 2 fold
      (Production.symbol .leftParen >>= fun _ =>
        nested scope.limit (inside scope.limit allowance) body)
      (Production.symbol .leftParen >>= fun _ => nested (scope.limit + scope.more)
        (inside (scope.limit + scope.more) (allowance + scope.more)) body') := by
  cases allowance with
  | zero => exact .tooDeep fun hmore => by rw [hmore]; rfl
  | succ l =>
    rw [Nat.add_right_comm]
    exact .parenthesis (hbody l rfl)

theorem property : Composed scope 5 Operand.folded property property := by
  refine identifier.bind fun owner owner' howner => (symbol (by simp)).before <|
    nameOrQuoted.bind fun name name' hname => .pure ⟨?_, fun hfolds => ?_⟩
  · simp only [Operand.folded, howner.folded, hname.folded]
  · rw [howner.eq hfolds, hname.eq hfolds]

/-- The alternatives of an operand without an expression in it. -/
theorem atom : Composed scope 11 Operand.folded
    (Production.attempt Production.property <|> plain)
    (Production.attempt Production.property <|> plain) := by
  cases hfolds : scope.folds with
  | true => exact .propertyOrPlain hfolds
  | false =>
    have hliteral : Composed scope 1 Literal.written literal literal :=
      .token (fun _ => rfl) rfl fun h => by rw [hfolds] at h; cases h
    refine property.attempt.orElse <| (hliteral.map fun a b hab => ?_).orElse <|
      (identifier.map fun a b hab => ?_).orElse <| (quotedString.map fun a b hab => ?_).orElse <|
      (number.map fun a b hab => ?_).orElse <| (symbol (by simp)).map fun _ _ _ => rfl
    all_goals simp only [Operand.folded, hab]

theorem operand (ih : ∀ l, allowance = l + 1 → Composed scope 22 Expression.folded
      (expression scope.limit l) (expression (scope.limit + scope.more) (l + scope.more))) :
    Composed scope 14 Operand.folded (operand scope.limit (inside scope.limit allowance))
      (operand (scope.limit + scope.more)
        (inside (scope.limit + scope.more) (allowance + scope.more))) := by
  have hclose : Composed scope 1 id (Production.symbol .rightParen)
      (Production.symbol .rightParen) := symbol (by simp)
  have hcall : Composed scope 3 Operand.folded
      (call scope.limit (inside scope.limit allowance)) (call (scope.limit + scope.more)
        (inside (scope.limit + scope.more) (allowance + scope.more))) := by
    refine identifier.bind fun name name' hname => nested fun l hl =>
      (keyword _).maybe.bind fun d d' hd => (ih l hl).bind fun e e' he => hclose.before <|
      .pure ⟨?_, fun hfolds => ?_⟩
    · have hdistinct : d.isSome = d'.isSome := by
        simpa only [Option.isSome_map] using congrArg Option.isSome hd.folded
      simp only [Operand.folded, hname.folded, he.folded, hdistinct]
    · rw [hname.eq hfolds, hd.eq hfolds, he.eq hfolds]
  have hgroup : Composed scope 2 Operand.folded
      (group scope.limit (inside scope.limit allowance)) (group (scope.limit + scope.more)
        (inside (scope.limit + scope.more) (allowance + scope.more))) := by
    refine nested fun l hl => .mono (by decide) ((ih l hl).bind fun e e' he => hclose.before <|
      .pure ⟨?_, fun hfolds => ?_⟩)
    · simp only [Operand.folded, he.folded]
    · rw [he.eq hfolds]
  exact hcall.attempt.orElse <| caseExpression.attempt.orElse <| hgroup.attempt.orElse atom

theorem expression (allowance : Nat) : Composed scope 22 Expression.folded
    (expression scope.limit allowance)
    (expression (scope.limit + scope.more) (allowance + scope.more)) := by
  have hchain : ∀ a, Composed scope 14 Operand.folded
        (Production.operand scope.limit (inside scope.limit a))
        (Production.operand (scope.limit + scope.more)
          (inside (scope.limit + scope.more) (a + scope.more))) →
      Composed scope 22 Expression.folded (Production.expression scope.limit a)
        (Production.expression (scope.limit + scope.more) (a + scope.more)) := by
    intro a h
    rw [expression_eq_chain, expression_eq_chain, show Expression.folded = Chain.map Operand.folded
      from funext Expression.folded_eq]
    exact h.chain
  induction allowance with
  | zero => exact hchain 0 (operand nofun)
  | succ l ih =>
    refine hchain (l + 1) (operand fun l' hl' => ?_)
    cases hl'
    exact ih

end

/-! ## Patterns -/

theorem labels : Composed scope 11 Labels.folded labels labels :=
  (symbol (by simp)).before nameOrQuoted.chain

/-- A name with its labels between two brackets. -/
theorem labelled {left right : Symbol} (hl : left ≠ .minus) (hr : right ≠ .minus)
    {make : Text → Option Labels → α}
    (hmake : ∀ name name' labels labels', name.lower = name'.lower →
      labels.map Labels.folded = labels'.map Labels.folded →
      fold (make name labels) = fold (make name' labels')) :
    let p : Production α := Production.attempt do
      Production.symbol left
      let name ← Production.identifier
      let labels ← Production.maybe Production.labels
      Production.symbol right
      return make name labels
    Composed scope 16 fold p p := by
  refine attempt ((symbol hl).before <| identifier.bind fun name name' hname =>
    labels.maybe.bind fun l l' hlabels => (symbol hr).before <| .pure ⟨?_, fun hfolds => ?_⟩)
  · exact hmake _ _ _ _ hname.folded hlabels.folded
  · rw [hname.eq hfolds, hlabels.eq hfolds]

theorem node : Composed scope 16 Node.folded node node :=
  labelled (by simp) (by simp) fun _ _ _ _ hname hlabels => by
    simp only [Node.folded, hname, hlabels]

theorem relationship : Composed scope 16 Relationship.folded relationship relationship :=
  labelled (by simp) (by simp) fun _ _ _ _ hname hlabels => by
    simp only [Relationship.folded, hname, hlabels]

theorem edge : Composed scope 19 Edge.folded edge edge := by
  refine attempt (leftMark.bind fun left left' hleft => relationship.bind fun r r' hr =>
    rightMark.bind fun right right' hright => .pure ⟨?_, fun hfolds => ?_⟩)
  · obtain rfl : left = left' := hleft.folded
    obtain rfl : right = right' := hright.folded
    simp only [Edge.folded, hr.folded]
  · rw [hleft.eq hfolds, hr.eq hfolds, hright.eq hfolds]

theorem step : Composed scope 20 Step.folded step step := by
  refine edge.bind fun e e' he => node.bind fun n n' hn => .pure ⟨?_, fun hfolds => ?_⟩
  · simp only [Step.folded, he.folded, hn.folded]
  · rw [he.eq hfolds, hn.eq hfolds]

theorem path : Composed scope 24 Path.folded path path := by
  refine node.maybe.bindOption (n := 23) (.mono (by decide) (.pure (.refl _)))
    fun start start' hstart => ?_
  refine (many (movesOn_bind backtracks_edge.moves _) step).bind fun steps steps' hsteps =>
    .pure ⟨?_, fun hfolds => ?_⟩
  · simp only [Path.folded, Option.map_some, hstart.folded, hsteps.folded]
  · rw [hstart.eq hfolds, hsteps.eq hfolds]

theorem paths : Composed scope 32 (List.map Path.folded) paths paths := by
  refine path.commaList fun a b hab => ?_
  have hstart := congrArg (fun path => path.start.isNone) hab
  simpa only [Path.folded, Option.isNone_map, Path.isEmpty] using hstart

/-! ## Clauses -/

theorem matchKind : Composed scope 5 id matchKind matchKind :=
  ((keyword _).map fun _ _ _ => rfl).orElse <| attempt <| (keyword _).before <|
    (keyword _).before <| .pure (.refl _)

theorem whereClause (hlooks : scope.looks = true) : Composed scope 24 Expression.folded
    (whereClause scope.limit) (whereClause (scope.limit + scope.more)) := by
  have hmatch : Composed scope 6 id ((fun _ => ()) <$> Production.matchKind)
      ((fun _ => ()) <$> Production.matchKind) := matchKind.map fun _ _ _ => rfl
  have hat : Composed scope 8 id atClause atClause :=
    lookahead hlooks (hmatch.orElse ((keyword _).map fun _ _ _ => rfl))
  refine (keyword _).before (bind (n := 22) hat fun found found' hfound => ?_)
  obtain rfl : found = found' := hfound.folded
  cases found with
  | true => exact .mono (by decide) (.pure (.refl _))
  | false => exact expression scope.limit

theorem matchClause (hlooks : scope.looks = true) : Composed scope 34 MatchClause.folded
    (matchClause scope.limit) (matchClause (scope.limit + scope.more)) := by
  refine matchKind.bind fun kind kind' hkind => paths.bind fun p p' hp =>
    (whereClause hlooks).optional.bind fun c c' hc => .pure ⟨?_, fun hfolds => ?_⟩
  · obtain rfl : kind = kind' := hkind.folded
    simp only [MatchClause.folded, hp.folded, hc.folded]
  · rw [hkind.eq hfolds, hp.eq hfolds, hc.eq hfolds]

theorem clauses (hlooks : scope.looks = true) : Composed scope 36 (List.map MatchClause.folded)
    (Production.many (Production.matchClause scope.limit))
    (Production.many (Production.matchClause (scope.limit + scope.more))) :=
  many (movesOn_bind backtracks_matchKind.moves _) (matchClause hlooks)

theorem returnItem : Composed scope 23 ReturnItem.folded (returnItem scope.limit)
    (returnItem (scope.limit + scope.more)) := by
  have halias : Composed scope 3 Text.lower aliasName aliasName := (keyword _).before nameOrQuoted
  refine (expression scope.limit).bind fun e e' he => halias.optional.bind fun a a' ha =>
    .pure ⟨?_, fun hfolds => ?_⟩
  · simp only [ReturnItem.folded, he.folded, ha.folded]
  · rw [he.eq hfolds, ha.eq hfolds]

theorem returns : Composed scope 31 (List.map ReturnItem.folded)
    (Production.commaList ReturnItem.isBlank (Production.returnItem scope.limit))
    (Production.commaList ReturnItem.isBlank
      (Production.returnItem (scope.limit + scope.more))) :=
  returnItem.commaList fun _ _ => ReturnItem.isBlank_eq_of_folded

/-- A query under a limit and under a larger one. -/
theorem query (limit more : Nat) (folds : Bool) :
    Composed ⟨limit, more, true, true, folds⟩ 38 Query.folded (query limit)
      (query (limit + more)) := by
  have hstart : Composed ⟨limit, more, true, true, folds⟩ 2 Text.lower startClause startClause :=
    (keyword _).before (startBody rfl)
  refine hstart.optional.bind fun s s' hs => (clauses rfl).bind fun c c' hc =>
    (keyword _).before <| returns.bind fun r r' hr => (endOfInput rfl).before <|
    .pure ⟨?_, fun hfolds => ?_⟩
  · simp only [Query.folded, hs.folded, hc.folded, hr.folded]
  · rw [hs.eq hfolds, hc.eq hfolds, hr.eq hfolds]

end Composed

end Production

end Cypher
