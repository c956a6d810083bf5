/-
  Token by token — how the grammar reads a query without verbatim parts.

  A `START` body and a `CASE` expression are taken over as they stand. All other
  productions read one token after the other, and look at no token but the next one,
  except for signs and arrows, where a second token counts if it stands directly after
  the first.

  * `Production.Tokenwise limit looks p`: the production `p` is put together from tokens,
    numbers and arrows, it gives up only at `limit`, and it has a lookahead only if `looks`;
  * `Tokenwise.expression` to `Tokenwise.body`: so are the productions of the grammar, as they are
    composed (`Composed.tokenwise`);
  * `Tokenwise.leads`, `Tokenwise.ordinary`, `Tokenwise.exists_expected`: what holds of all of
    them.
-/
import Cypher.Proofs.Composition
import Cypher.Proofs.Rewriting

namespace Cypher

/-- A note on what reading tokens one after the other comes upon. -/
def Note.Ordinary (limit : Nat) (looks : Bool) : Note → Prop
  | expected e _ => e ≠ .clause ∧ e ≠ .endOfInput
  | tooDeep l _ => l = limit
  | looked _ => looks = true

namespace Text

/-! ## From token to token -/

/-- Reading tokens one after the other leads from one text to the other. -/
inductive Leads : Text → Text → Prop
  | refl (t : Text) : Leads t t
  | token {t u v : Text} {kind : TokenKind} : t.token? = some (kind, u) → Leads u v → Leads t v

theorem Leads.trans {t u v : Text} (h : t.Leads u) (h' : u.Leads v) : t.Leads v := by
  induction h with
  | refl t => exact h'
  | token htok _ ih => exact .token htok (ih h')

theorem leads_of_token? {t u : Text} {kind : TokenKind} (h : t.token? = some (kind, u)) :
    t.Leads u :=
  .token h (.refl u)

theorem leads_of_adjacentToken? {t u : Text} {kind : TokenKind}
    (h : t.adjacentToken? = some (kind, u)) : t.Leads u :=
  leads_of_token? (adjacentToken?_eq_some_iff.1 h).2

/-- No word `CASE` is among the tokens. -/
def CaseFree (t : Text) : Prop :=
  ∀ u, t.Leads u → ∀ rest, ¬Production.KeywordAt .case_ u rest

theorem CaseFree.of_leads {t u : Text} (h : t.CaseFree) (hu : t.Leads u) : u.CaseFree :=
  fun v hv => h v (hu.trans hv)

/-- The word `CASE` is not among the tokens, unless it is the last thing in the text. -/
def CaseLast (t : Text) : Prop :=
  ∀ u, t.Leads u → ∀ rest, Production.KeywordAt .case_ u rest → rest = []

theorem CaseFree.caseLast {t : Text} (h : t.CaseFree) : t.CaseLast :=
  fun u hu rest hrest => absurd hrest (h u hu rest)

theorem CaseLast.of_leads {t u : Text} (h : t.CaseLast) (hu : t.Leads u) : u.CaseLast :=
  fun v hv => h v (hu.trans hv)

theorem caseFree_of_tokens {c : Cursor}
    (h : ∀ token ∈ c.lexed.tokens, token.kind.isWord Keyword.case_.written = false) :
    Text.CaseFree c.rest := by
  intro u hu
  generalize ht : c.rest = t at hu
  induction hu generalizing c with
  | refl t =>
    rintro rest ⟨word, hword, hcase⟩
    obtain ⟨span, after, -, hlexed⟩ := Cursor.lexed_of_token? (c := c) (ht ▸ hword)
    rw [hlexed, List.forall_mem_cons] at h
    have hno : word.eqIgnoringCase Keyword.case_.written = false := h.1
    rw [hcase] at hno
    cases hno
  | token htok _ ih =>
    obtain ⟨span, after, hafter, hlexed⟩ := Cursor.lexed_of_token? (c := c) (ht ▸ htok)
    rw [hlexed, List.forall_mem_cons] at h
    exact ih h.2 hafter

/-- The first token is not the word `START`. -/
theorem not_keywordAt_start_of_tokens {source : Text}
    (h : ∀ token ∈ (tokenize source).tokens.head?,
      token.kind.isWord Keyword.start.written = false) (u : Text) :
    ¬Production.KeywordAt .start source u := by
  rintro ⟨word, hword, hstart⟩
  obtain ⟨span, after, -, hlexed⟩ := Cursor.lexed_of_token? (c := .start source) hword
  have hno : word.eqIgnoringCase Keyword.start.written = false :=
    h ⟨.identifier word, span⟩ (by rw [tokenize, hlexed]; rfl)
  rw [hstart] at hno
  cases hno

end Text

namespace Production

/-! ## Productions that read tokens -/

/-- The production reads token by token. What it looks for is what its expectations say;
    a minus sign is only looked for as a mark of an edge or as the sign of a number. -/
inductive Tokenwise (limit : Nat) (looks : Bool) : {α : Type} → Production α → Prop
  | succeed {α : Type} (a : α) : Tokenwise limit looks (.succeed a)
  | andThen {α β : Type} {p : Production α} {f : α → Production β} : Tokenwise limit looks p →
      (∀ a, Tokenwise limit looks (f a)) → Tokenwise limit looks (.andThen p f)
  | orTry {α : Type} {p q : Production α} : Tokenwise limit looks p → Tokenwise limit looks q →
      Tokenwise limit looks (.orTry p q)
  | attempt {α : Type} {p : Production α} : Tokenwise limit looks p →
      Tokenwise limit looks (.attempt p)
  | maybe {α : Type} {p : Production α} : Tokenwise limit looks p →
      Tokenwise limit looks (.maybe p)
  | lookahead {α : Type} {p : Production α} : looks = true → Tokenwise limit looks p →
      Tokenwise limit looks (.lookahead p)
  | many {α : Type} {p : Production α} : p.Advances → Tokenwise limit looks p →
      Tokenwise limit looks (.many p)
  | token {α : Type} {e : Expectation} {accept : TokenKind → Option α} :
      (∀ kind, (accept kind).isSome = e.accepts kind) → e.isPlain = true →
      Tokenwise limit looks (.token e accept)
  | leftMark : Tokenwise limit looks leftMark
  | rightMark : Tokenwise limit looks rightMark
  | number : Tokenwise limit looks number
  | caseExpression : Tokenwise limit looks caseExpression
  | tooDeep {α : Type} : Tokenwise limit looks (.tooDeep limit : Production α)

namespace Tokenwise

variable {limit : Nat} {looks : Bool} {α β : Type}

/-! ## Combinations -/

theorem pure (a : α) : Tokenwise limit looks (pure a : Production α) :=
  .succeed a

theorem bind {p : Production α} {f : α → Production β} (hp : Tokenwise limit looks p)
    (hf : ∀ a, Tokenwise limit looks (f a)) : Tokenwise limit looks (p >>= f) :=
  .andThen hp hf

theorem map (g : α → β) {p : Production α} (hp : Tokenwise limit looks p) :
    Tokenwise limit looks (g <$> p) :=
  hp.bind fun a => .pure (g a)

theorem orElse {p q : Production α} (hp : Tokenwise limit looks p)
    (hq : Tokenwise limit looks q) : Tokenwise limit looks (p <|> q) :=
  .orTry hp hq

theorem optional {p : Production α} (hp : Tokenwise limit looks p) :
    Tokenwise limit looks (optional p) :=
  .maybe (.attempt hp)

theorem link {separator : Production β} {p : Production α}
    (hs : Tokenwise limit looks separator) (hp : Tokenwise limit looks p) :
    Tokenwise limit looks (link separator p) :=
  hs.bind fun _ => hp.bind fun _ => .pure _

theorem symbol {x : Symbol} (hx : x ≠ .minus) : Tokenwise limit looks (symbol x) :=
  .token (isSome_accept_symbol x) (by simpa [Expectation.isPlain] using hx)

theorem keyword (k : Keyword) : Tokenwise limit looks (keyword k) :=
  .token (isSome_accept_keyword k) rfl

theorem identifier : Tokenwise limit looks identifier :=
  .token (fun _ => rfl) rfl

theorem quotedString : Tokenwise limit looks quotedString :=
  .token (fun _ => rfl) rfl

theorem literal : Tokenwise limit looks literal :=
  .token (fun _ => rfl) rfl

theorem operator : Tokenwise limit looks operator :=
  .token (fun _ => rfl) rfl

theorem nameOrQuoted : Tokenwise limit looks nameOrQuoted :=
  quotedString.orElse identifier

end Tokenwise

/-! ## The grammar -/

/-- What is composed without a `START` body and the end of the query reads token by token. -/
theorem Composed.tokenwise {scope : Scope} {n : Nat} {α γ : Type} {fold : α → γ}
    {p p' : Production α} (h : Composed scope n fold p p') (hwhole : scope.whole = false)
    (hfolds : scope.folds = false) : Tokenwise scope.limit scope.looks p := by
  induction h with
  | succeed _ => exact .succeed _
  | andThen _ _ ihp ihf => exact .andThen ihp fun a => ihf a a (.refl a)
  | orTry _ _ ihp ihq => exact .orTry ihp ihq
  | attempt _ ih => exact .attempt ih
  | maybe _ ih => exact .maybe ih
  | lookahead hlooks _ ih => exact .lookahead hlooks ih
  | many hmoves _ ih => exact .many hmoves.advances ih
  | token haccepts hplain _ => exact .token haccepts hplain
  | leftMark => exact .leftMark
  | rightMark => exact .rightMark
  | number => exact .number
  | caseExpression => exact .caseExpression
  | startBody h => rw [hwhole] at h; cases h
  | endOfInput h => rw [hwhole] at h; cases h
  | propertyOrPlain h => rw [hfolds] at h; cases h
  | parenthesis _ ih => exact (Tokenwise.symbol (by simp)).bind fun _ => ih
  | tooDeep _ => exact (Tokenwise.symbol (by simp)).bind fun _ => .tooDeep
  | mono _ _ ih => exact ih

namespace Tokenwise

variable {limit : Nat} {looks : Bool}

/-- The productions under one limit, without what may come before and after the clauses. -/
theorem of_composed {n : Nat} {α γ : Type} {fold : α → γ} {p : Production α}
    (h : Composed ⟨limit, 0, looks, false, false⟩ n fold p p) : Tokenwise limit looks p :=
  h.tokenwise rfl rfl

theorem expression (allowance : Nat) : Tokenwise limit looks (expression limit allowance) :=
  of_composed (.expression allowance)

theorem operand (allowance : Nat) :
    Tokenwise limit looks (operand limit (inside limit allowance)) :=
  of_composed (.operand fun l _ => .expression l)

theorem paths : Tokenwise limit looks paths :=
  of_composed .paths

theorem matchKind : Tokenwise limit looks matchKind :=
  of_composed .matchKind

theorem whereClause : Tokenwise limit true (whereClause limit) :=
  of_composed (.whereClause rfl)

theorem matchClause : Tokenwise limit true (matchClause limit) :=
  of_composed (.matchClause rfl)

theorem clauses : Tokenwise limit true (Production.many (Production.matchClause limit)) :=
  of_composed (.clauses rfl)

theorem returnItem : Tokenwise limit looks (returnItem limit) :=
  of_composed .returnItem

theorem returns : Tokenwise limit looks
    (commaList ReturnItem.isBlank (Production.returnItem limit)) :=
  of_composed .returns

end Tokenwise

/-! ## The body of a query -/

/-- A query without what may come before and after it. -/
def body (limit : Nat) : Production (List MatchClause × List ReturnItem) := do
  let clauses ← many (matchClause limit)
  let _ ← keyword .return_
  let returns ← commaList ReturnItem.isBlank (returnItem limit)
  return (clauses, returns)

theorem Tokenwise.body (limit : Nat) : Tokenwise limit true (body limit) :=
  clauses.bind fun _ => (keyword _).bind fun _ => returns.bind fun _ => .pure _

theorem andThen_andThen {α β γ : Type} (o : Outcome α) (f : α → Text → Outcome β)
    (g : β → Text → Outcome γ) :
    (o.andThen f).andThen g = o.andThen fun a rest => (f a rest).andThen g := by
  cases o <;> rfl

/-- A query is its body, between an optional `START` clause and the end of the text. -/
theorem outcome_query_eq (limit : Nat) (t : Text) :
    (query limit).outcome t = ((optional startClause).outcome t).andThen fun start u =>
      ((body limit).outcome u).andThen fun parts rest =>
        if rest.dropBlanks = [] then .matched ⟨start, parts.1, parts.2⟩ rest else .missed rest := by
  have hend : ∀ (q : Query) (v : Text),
      ((if v.dropBlanks = [] then Outcome.matched () v else .missed v).andThen fun _ w =>
        (pure q : Production Query).outcome w) =
      if v.dropBlanks = [] then .matched q v else .missed v := by
    intro q v
    split <;> rfl
  simp only [query, body, bind, outcome, andThen_andThen, hend]
  rfl

theorem notes_query_eq (limit : Nat) (t : Text) :
    (query limit).notes t = (optional startClause).notes t ++
      ((optional startClause).outcome t).onMatch fun _ u =>
        (body limit).notes u ++ ((body limit).outcome u).onMatch fun _ rest =>
          endOfInput.notes rest := by
  have hend : ∀ (q : Query) (v : Text),
      (endOfInput >>= fun _ => pure q : Production Query).notes v = endOfInput.notes v := by
    intro q v
    rw [notes_bind]
    cases endOfInput.outcome v <;> simp [Outcome.onMatch, notes_pure]
  simp only [query, body, notes_bind, hend]
  simp only [bind, outcome]
  congr 1
  cases (optional startClause).outcome t with
  | missed u => rfl
  | gaveUp => rfl
  | matched start u =>
    simp only [Outcome.onMatch]
    cases Outcome.repeated (matchClause limit).outcome u with
    | missed v => simp [Outcome.andThen]
    | gaveUp => simp [Outcome.andThen]
    | matched clauses v =>
      simp only [Outcome.andThen]
      cases (keyword .return_).outcome v with
      | missed v => simp
      | gaveUp => simp
      | matched word v =>
        simp only
        cases (commaList ReturnItem.isBlank (returnItem limit)).outcome v with
        | missed v => simp
        | gaveUp => simp
        | matched returns v => simp [notes_pure]

/-- Without the word `START` in front, a query is its body up to the end of the text. -/
theorem outcome_query_of_not_start {limit : Nat} {t : Text} (h : ∀ u, ¬KeywordAt .start t u) :
    (query limit).outcome t = ((body limit).outcome t).andThen fun parts rest =>
      if rest.dropBlanks = [] then .matched ⟨none, parts.1, parts.2⟩ rest else .missed rest := by
  have hnone : (optional startClause).outcome t = .matched none t :=
    outcome_optional_eq_matched.2 (Or.inr ⟨rfl, rfl, misses_startClause_of h⟩)
  rw [outcome_query_eq, hnone]
  rfl

theorem notes_query_of_not_start {limit : Nat} {t : Text} (h : ∀ u, ¬KeywordAt .start t u) :
    (query limit).notes t = .expected (.keyword .start) t.dropBlanks ::
      ((body limit).notes t ++ ((body limit).outcome t).onMatch fun _ rest =>
        endOfInput.notes rest) := by
  have hnone : (optional startClause).outcome t = .matched none t :=
    outcome_optional_eq_matched.2 (Or.inr ⟨rfl, rfl, misses_startClause_of h⟩)
  obtain ⟨u, hu⟩ := misses_keyword_iff.2 h
  have hnotes : (optional startClause).notes t = [.expected (.keyword .start) t.dropBlanks] := by
    change (keyword .start >>= fun _ => startBody).notes t = _
    rw [notes_bind, hu, keyword, notes_token_of_misses ⟨u, hu⟩]
    rfl
  rw [notes_query_eq, hnone, hnotes]
  rfl

/-! ## Words as operands -/

/-- The operand that a word alone is. -/
def ofWord (name : Text) : Operand :=
  (Literal.ofWritten? name).elim (.identifier name) .literal

/-- A word alone is an operand. If it is no literal, that is noted. -/
theorem plain_of_word {t u name : Text} (h : t.token? = some (.identifier name, u)) :
    plain.outcome t = .matched (ofWord name) u ∧
      ∀ n ∈ plain.notes t, ∃ e, n = .expected e t.dropBlanks := by
  rw [plain, outcome_orElse, notes_orElse, notes_map, ofWord]
  cases hl : Literal.ofWritten? name with
  | some l =>
    have hmatched : literal.outcome t = .matched l u := outcome_literal_eq_matched.2 ⟨name, h, hl⟩
    rw [outcome_map_eq_matched.2 ⟨l, hmatched, rfl⟩, literal, notes_token_of_matched hmatched]
    exact ⟨rfl, by simp [Outcome.onMiss]⟩
  | none =>
    have hmissed : literal.outcome t = .missed t :=
      outcome_literal_eq_missed.2 ⟨rfl, fun word v hv => by rw [h] at hv; cases hv; exact hl⟩
    have hname : identifier.outcome t = .matched name u := outcome_identifier_eq_matched.2 h
    rw [outcome_map_eq_missed.2 hmissed]
    simp only [Outcome.orTry, Outcome.onMiss, outcome_orElse, notes_orElse, notes_map,
      outcome_map_eq_matched.2 ⟨name, hname, rfl⟩]
    refine ⟨rfl, ?_⟩
    rw [literal, notes_token_of_misses ⟨t, hmissed⟩, identifier, notes_token_of_matched hname]
    simp

/-! ## What all of them have in common -/

section

variable {α : Type} {e : Expectation} {first second : Symbol} {a b : α} {t : Text}

theorem mem_notes_mark {n : Note} (h : n ∈ (mark e first second a b).notes t) :
    n = .expected e t.dropBlanks ∨ n = .expected (.symbol .minus) t.dropBlanks := by
  rcases mem_notes_orElse.1 h with hn | ⟨u, hu, hn⟩ <;> rw [notes_map] at hn
  · exact Or.inl (mem_notes_arrow.1 hn).1
  · obtain rfl := (outcome_arrow_eq_missed.1 (outcome_map_eq_missed.1 hu)).1
    exact Or.inr (mem_notes_token.1 hn).1

/-- A mark that is missing is noted as an arrow. -/
theorem expected_mem_notes_mark (h : (mark e first second a b).outcome t = .missed t) :
    .expected e t.dropBlanks ∈ (mark e first second a b).notes t := by
  obtain ⟨u, hu, -⟩ := outcome_orElse_eq_missed.1 h
  refine mem_notes_orElse.2 (Or.inl ?_)
  rw [notes_map]
  exact mem_notes_arrow.2 ⟨rfl, u, outcome_map_eq_missed.1 hu⟩

end

/-- Where no word `CASE` stands, no verbatim expression is read, and one is noted. -/
theorem caseExpression_of_not_keywordAt {t : Text} (h : ∀ u, ¬KeywordAt .case_ t u) :
    caseExpression.outcome t = .missed t ∧
      caseExpression.notes t = [.expected (.keyword .case_) t.dropBlanks] := by
  obtain ⟨u, hu⟩ := misses_keyword_iff.2 h
  obtain rfl := stays_keyword _ hu
  refine ⟨outcome_bind_eq_missed.2 (Or.inl hu), ?_⟩
  rw [caseExpression, notes_bind, hu, keyword, notes_token_of_misses ⟨u, hu⟩]
  rfl

/-- No verbatim expression is read where the word `CASE` is the last thing in the text. -/
theorem caseExpression_of_caseLast {t : Text} (h : t.CaseLast) :
    ∃ u, t.Leads u ∧ caseExpression.outcome t = .missed u := by
  by_cases hcase : ∃ u, KeywordAt .case_ t u
  · obtain ⟨u, hu⟩ := hcase
    obtain rfl := h t (.refl t) u hu
    obtain ⟨word, hword⟩ := matched_keyword_iff.2 hu
    refine ⟨[], Text.leads_of_token? (outcome_keyword_eq_matched.1 hword).1, ?_⟩
    exact outcome_bind_eq_missed.2 (Or.inr ⟨word, [], hword, rfl⟩)
  · exact ⟨t, .refl t, (caseExpression_of_not_keywordAt fun u hu => hcase ⟨u, hu⟩).1⟩

theorem leads_of_number {t u text : Text} (h : number.outcome t = .matched text u) :
    t.Leads u := by
  rcases outcome_number_eq_matched.1 h with h | ⟨v, digits, -, hv, hu⟩
  · exact Text.leads_of_token? h
  · exact (Text.leads_of_token? hv).trans (Text.leads_of_adjacentToken? hu)

theorem leads_of_mark {α : Type} {e : Expectation} {first second : Symbol} {a b c : α}
    {t u : Text} (h : (mark e first second a b).outcome t = .matched c u) : t.Leads u := by
  rcases outcome_mark_eq_matched.1 h with ⟨-, v, hv, hu⟩ | ⟨-, hu, -⟩
  · exact (Text.leads_of_token? hv).trans (Text.leads_of_adjacentToken? hu)
  · exact Text.leads_of_token? hu

namespace Tokenwise

variable {limit : Nat} {looks : Bool} {α : Type} {p : Production α} {t u : Text}

/-- Where no verbatim expression is among the tokens, reading goes from token to token. -/
theorem leads_of_caseLast (hp : Tokenwise limit looks p) (ht : t.CaseLast) :
    (∀ a, p.outcome t = .matched a u → t.Leads u) ∧ (p.outcome t = .missed u → t.Leads u) := by
  induction hp generalizing t u with
  | succeed a => exact ⟨fun b h => by cases h; exact .refl t, fun h => by cases h⟩
  | andThen _ _ ihp ihf =>
    refine ⟨fun b h => ?_, fun h => ?_⟩
    · obtain ⟨a, v, hv, hu⟩ := outcome_bind_eq_matched.1 h
      have htv := (ihp ht).1 a hv
      exact htv.trans ((ihf a (ht.of_leads htv)).1 b hu)
    · rcases outcome_bind_eq_missed.1 h with hv | ⟨a, v, hv, hu⟩
      · exact (ihp ht).2 hv
      · have htv := (ihp ht).1 a hv
        exact htv.trans ((ihf a (ht.of_leads htv)).2 hu)
  | orTry _ _ ihp ihq =>
    refine ⟨fun a h => ?_, fun h => ?_⟩
    · rcases outcome_orElse_eq_matched.1 h with hv | ⟨v, hv, hu⟩
      · exact (ihp ht).1 a hv
      · have htv := (ihp ht).2 hv
        exact htv.trans ((ihq (ht.of_leads htv)).1 a hu)
    · obtain ⟨v, hv, hu⟩ := outcome_orElse_eq_missed.1 h
      have htv := (ihp ht).2 hv
      exact htv.trans ((ihq (ht.of_leads htv)).2 hu)
  | attempt _ ih =>
    refine ⟨fun a h => (ih ht).1 a (outcome_attempt_eq_matched.1 h), fun h => ?_⟩
    rw [(outcome_attempt_eq_missed.1 h).1]
    exact .refl t
  | maybe _ ih =>
    refine ⟨fun o h => ?_, fun h => absurd h outcome_maybe_ne_missed⟩
    rcases outcome_maybe_eq_matched.1 h with ⟨a, -, hu⟩ | ⟨-, hu⟩
    exacts [(ih ht).1 a hu, (ih ht).2 hu]
  | lookahead _ _ ih =>
    refine ⟨fun b h => ?_, fun h => absurd h outcome_lookahead_ne_missed⟩
    rw [(outcome_lookahead_eq_matched.1 h).1]
    exact .refl t
  | many hadvances _ ih =>
    refine ⟨fun as h => ?_, fun h => absurd h outcome_many_ne_missed⟩
    have hrepeats := (outcome_many_eq_matched hadvances).1 h
    clear h
    induction hrepeats with
    | stop _ => exact .refl _
    | step ha _ ihrest =>
      have htu := (ih ht).1 _ ha
      exact htu.trans (ihrest (ht.of_leads htu))
  | token haccepts _ =>
    refine ⟨fun a h => ?_, fun h => by rw [(outcome_token_eq_missed.1 h).1]; exact .refl t⟩
    obtain ⟨kind, hkind, -⟩ := outcome_token_eq_matched.1 h
    exact Text.leads_of_token? hkind
  | leftMark =>
    exact ⟨fun m h => leads_of_mark h, fun h => by rw [stays_mark h]; exact .refl t⟩
  | rightMark =>
    exact ⟨fun m h => leads_of_mark h, fun h => by rw [stays_mark h]; exact .refl t⟩
  | number =>
    exact ⟨fun text h => leads_of_number h, fun h => by rw [stays_number h]; exact .refl t⟩
  | caseExpression =>
    obtain ⟨v, hv, hmiss⟩ := caseExpression_of_caseLast ht
    rw [hmiss]
    exact ⟨nofun, fun h => by cases h; exact hv⟩
  | tooDeep => exact ⟨nofun, nofun⟩

theorem leads (hp : Tokenwise limit looks p) (ht : t.CaseFree) :
    (∀ a, p.outcome t = .matched a u → t.Leads u) ∧ (p.outcome t = .missed u → t.Leads u) :=
  hp.leads_of_caseLast ht.caseLast

/-- What is expected is a token or an arrow, the query is given up only at the limit, and only
    a lookahead looks. -/
theorem ordinary (hp : Tokenwise limit looks p) : ∀ n ∈ p.notes t, n.Ordinary limit looks := by
  have htoken : ∀ {α : Type} {e : Expectation} {accept : TokenKind → Option α} {t : Text},
      e ≠ .clause → e ≠ .endOfInput →
      ∀ n ∈ (Production.token e accept).notes t, n.Ordinary limit looks := by
    intro α e accept t hclause hend n hn
    rw [(mem_notes_token.1 hn).1]
    exact ⟨hclause, hend⟩
  have hmark : ∀ {α : Type} {e : Expectation} {first second : Symbol} {a b : α} {t : Text},
      e ≠ .clause → e ≠ .endOfInput →
      ∀ n ∈ (mark e first second a b).notes t, n.Ordinary limit looks := by
    intro α e first second a b t hclause hend n hn
    rcases mem_notes_mark hn with rfl | rfl
    exacts [⟨hclause, hend⟩, ⟨by simp, by simp⟩]
  induction hp generalizing t with
  | succeed a => exact nofun
  | andThen _ _ ihp ihf =>
    intro n hn
    rcases mem_notes_bind.1 hn with hn | ⟨a, u, -, hn⟩
    exacts [ihp n hn, ihf a n hn]
  | orTry _ _ ihp ihq =>
    intro n hn
    rcases mem_notes_orElse.1 hn with hn | ⟨u, -, hn⟩
    exacts [ihp n hn, ihq n hn]
  | attempt _ ih => exact ih
  | maybe _ ih => exact ih
  | lookahead hlooks _ ih =>
    intro n hn
    rcases mem_notes_lookahead.1 hn with hn | ⟨a, u, -, rfl⟩
    · exact ih n hn
    · exact hlooks
  | many _ _ ih =>
    exact forall_mem_notes_many (fun _ n => n.Ordinary limit looks) (fun t => ih (t := t))
      (fun _ hn => hn) t
  | @token _ e accept _ hplain =>
    exact htoken (by rintro rfl; cases hplain) (by rintro rfl; cases hplain)
  | leftMark => exact hmark (e := .leftArrow) (by simp) (by simp)
  | rightMark => exact hmark (e := .rightArrow) (by simp) (by simp)
  | number =>
    intro n hn
    rcases mem_notes_orElse.1 hn with hn | ⟨u, -, hn⟩
    · rcases mem_notes_bind.1 hn with hn | ⟨a, u, -, hn⟩
      · exact htoken (by simp) (by simp) n hn
      · rcases mem_notes_bind.1 hn with hn | ⟨a, u, -, hn⟩ <;> cases hn
    · exact htoken (by simp) (by simp) n hn
  | caseExpression =>
    intro n hn
    rcases mem_notes_bind.1 hn with hn | ⟨a, u, -, hn⟩
    · exact htoken (by simp) (by simp) n hn
    · rcases mem_notes_bind.1 hn with hn | ⟨a, u, -, hn⟩
      · rw [(mem_notes_caseRest.1 hn).1]
        exact ⟨by simp, by simp⟩
      · cases hn
  | tooDeep =>
    intro n hn
    rw [List.mem_singleton.1 hn]
    exact rfl

/-- A miss has its reasons, there or further on. -/
theorem exists_expected (hp : Tokenwise limit looks p) (h : p.outcome t = .missed u) :
    ∃ e ahead, Note.expected e ahead ∈ p.notes t ∧ ahead <:+ u.dropBlanks := by
  induction hp generalizing t u with
  | succeed a => cases h
  | andThen _ _ ihp ihf =>
    rcases outcome_bind_eq_missed.1 h with h | ⟨a, v, hv, h⟩
    · obtain ⟨e, ahead, hmem, hahead⟩ := ihp h
      exact ⟨e, ahead, mem_notes_bind.2 (Or.inl hmem), hahead⟩
    · obtain ⟨e, ahead, hmem, hahead⟩ := ihf a h
      exact ⟨e, ahead, mem_notes_bind.2 (Or.inr ⟨a, v, hv, hmem⟩), hahead⟩
  | orTry _ _ ihp ihq =>
    obtain ⟨v, hv, h⟩ := outcome_orElse_eq_missed.1 h
    obtain ⟨e, ahead, hmem, hahead⟩ := ihq h
    exact ⟨e, ahead, mem_notes_orElse.2 (Or.inr ⟨v, hv, hmem⟩), hahead⟩
  | attempt _ ih =>
    obtain ⟨rfl, v, hv⟩ := outcome_attempt_eq_missed.1 h
    obtain ⟨e, ahead, hmem, hahead⟩ := ih hv
    exact ⟨e, ahead, hmem,
      hahead.trans (Text.dropBlanks_suffix_of_suffix ((suffix_of_outcome _).2 hv))⟩
  | maybe _ _ => exact absurd h outcome_maybe_ne_missed
  | lookahead _ _ _ => exact absurd h outcome_lookahead_ne_missed
  | many _ _ _ => exact absurd h outcome_many_ne_missed
  | token _ _ =>
    obtain rfl := stays_token _ _ h
    exact ⟨_, _, mem_notes_token.2 ⟨rfl, u, h⟩, List.suffix_rfl⟩
  | leftMark =>
    obtain rfl := stays_mark h
    exact ⟨_, _, expected_mem_notes_mark h, List.suffix_rfl⟩
  | rightMark =>
    obtain rfl := stays_mark h
    exact ⟨_, _, expected_mem_notes_mark h, List.suffix_rfl⟩
  | number =>
    obtain ⟨v, hv, h⟩ := outcome_orElse_eq_missed.1 h
    obtain rfl := stays_token _ _ h
    exact ⟨_, _, mem_notes_orElse.2 (Or.inr ⟨u, hv, mem_notes_token.2 ⟨rfl, u, h⟩⟩),
      List.suffix_rfl⟩
  | caseExpression =>
    rcases outcome_bind_eq_missed.1 h with h | ⟨a, v, hv, h⟩
    · obtain rfl := stays_keyword _ h
      exact ⟨_, _, mem_notes_bind.2 (Or.inl (mem_notes_token.2 ⟨rfl, u, h⟩)), List.suffix_rfl⟩
    · refine ⟨.keyword .end_, [],
        mem_notes_bind.2 (Or.inr ⟨a, v, hv, mem_notes_bind.2 (Or.inl ?_)⟩), List.nil_suffix⟩
      rcases outcome_bind_eq_missed.1 h with h | ⟨b, w, -, h⟩
      · exact mem_notes_caseRest.2 ⟨rfl, u, h⟩
      · cases h
  | tooDeep => cases h

end Tokenwise

end Production

end Cypher
