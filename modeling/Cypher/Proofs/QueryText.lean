/-
  Queries and their canonical text.

  * `readsBack_whereClause`, `readsBack_matchClause`, `readsBack_returnItem`: the parts of a
    query are read back from their canonical text;
  * `parse_render_iff`: a query whose parts have their shapes and fit together is read
    back exactly if none of its verbatim expressions is taken for a call.
-/
import Cypher.Proofs.ExpressionText
import Cypher.Proofs.PatternText

namespace Cypher

namespace Production

/-! ## Where a clause begins -/

theorem keywordAt_congr {t x u : Text} {k : Keyword} (h : t.SameAhead x) :
    KeywordAt k t u ↔ KeywordAt k x u := by
  simp only [KeywordAt, h.token?]

theorem matchKindAt_congr {t x u : Text} {k : MatchKind} (h : t.SameAhead x) :
    MatchKindAt k t u ↔ MatchKindAt k x u := by
  cases k <;> simp only [MatchKindAt, keywordAt_congr h]

theorem clauseAt_congr {t x : Text} (h : t.SameAhead x) : ClauseAt t ↔ ClauseAt x := by
  simp only [ClauseAt, matchKindAt_congr h, keywordAt_congr h]

/-- A clause comes next, and what was read before it ends here. -/
structure BeginsClause (rest : Text) : Prop where
  space : ∃ u, rest = ' ' :: u
  ends : EndsExpression rest
  clause : ClauseAt rest
  word : ∃ k u, k ∈ [.match_, .return_, .optional] ∧ KeywordAt k rest u

theorem BeginsClause.not_keywordAt {rest : Text} (h : BeginsClause rest) {k : Keyword}
    (hk : k ∉ [.match_, .return_, .optional]) (u : Text) : ¬KeywordAt k rest u := by
  obtain ⟨l, v, hl, hv⟩ := h.word
  exact fun hu => hk ((hv.unique hu).1 ▸ hl)

/-- A space, or the end of the text. -/
def AtGap (t : Text) : Prop :=
  t = [] ∨ ∃ u, t = ' ' :: u

theorem AtGap.notNext_isAlphanum {t : Text} (h : AtGap t) : Text.NotNext Char.isAlphanum t := by
  rcases h with rfl | ⟨u, rfl⟩
  exacts [Text.notNext_nil _, Text.notNext_cons.2 rfl]

theorem atGap_space (t : Text) : AtGap (' ' :: t) :=
  Or.inr ⟨t, rfl⟩

theorem AtGap.renderPaths {paths : List Path} {t : Text} (h : AtGap t) :
    AtGap (renderPaths paths ++ t) := by
  unfold Production.renderPaths
  split
  exacts [h, atGap_space _]

theorem AtGap.renderCondition {condition : Option Expression} {t : Text} (h : AtGap t) :
    AtGap ((condition.map renderCondition).getD [] ++ t) := by
  cases condition with
  | none => exact h
  | some e => exact atGap_space _

theorem keywordAt_gap (k : Keyword) {t : Text} (h : AtGap t) : KeywordAt k (k.written ++ t) t :=
  keywordAt_written k h.notNext_isAlphanum

theorem matchKindAt_written (k : MatchKind) {t : Text} (h : AtGap t) :
    MatchKindAt k (k.written ++ t) t := by
  cases k with
  | required => exact keywordAt_gap .match_ h
  | optional =>
    refine ⟨' ' :: (Keyword.match_.written ++ t), ?_, keywordAt_gap .match_ h⟩
    simp only [MatchKind.written, List.append_assoc, List.singleton_append]
    exact keywordAt_gap .optional (atGap_space _)

theorem renderClause_append (clause : MatchClause) (after : Text) : clause.render ++ after =
    clause.kind.written ++ (renderPaths clause.paths ++
      ((clause.condition.map renderCondition).getD [] ++ after)) := by
  simp only [MatchClause.render, renderPaths, List.append_assoc]

theorem renderClauses_cons (clause : MatchClause) (clauses : List MatchClause) (after : Text) :
    renderClauses (clause :: clauses) after =
      clause.render ++ ' ' :: renderClauses clauses after := by
  simp [renderClauses]

theorem atGap_returns (returns : List ReturnItem) : AtGap
    (if returns.isEmpty then [] else ' ' :: Text.commaJoined (returns.map ReturnItem.render)) := by
  split
  exacts [Or.inl rfl, atGap_space _]

theorem atGap_afterKind (clause : MatchClause) (rest : Text) : AtGap (renderPaths clause.paths ++
    ((clause.condition.map renderCondition).getD [] ++ ' ' :: rest)) :=
  (atGap_space _).renderCondition.renderPaths

/-- Whatever clauses are left, a keyword that opens a clause comes first. -/
theorem renderClauses_eq (clauses : List MatchClause) (returns : List ReturnItem) :
    ∃ k z, renderClauses clauses (renderReturns returns) = Keyword.written k ++ z ∧ AtGap z ∧
      (k = .match_ ∨ k = .return_ ∨
        k = .optional ∧ ∃ z', z = ' ' :: (Keyword.match_.written ++ z') ∧ AtGap z') := by
  cases clauses with
  | nil => exact ⟨.return_, _, rfl, atGap_returns returns, Or.inr (Or.inl rfl)⟩
  | cons clause clauses =>
    have hgap := atGap_afterKind clause (renderClauses clauses (renderReturns returns))
    rw [renderClauses_cons, renderClause_append]
    cases clause.kind with
    | required => exact ⟨.match_, _, rfl, hgap, Or.inl rfl⟩
    | optional =>
      refine ⟨.optional, _, ?_, atGap_space _, Or.inr (Or.inr ⟨rfl, _, rfl, hgap⟩)⟩
      simp [MatchKind.written]

theorem beginsClause_renderClauses (clauses : List MatchClause) (returns : List ReturnItem) :
    BeginsClause (' ' :: renderClauses clauses (renderReturns returns)) := by
  obtain ⟨k, z, hrender, hgap, hk⟩ := renderClauses_eq clauses returns
  have hat : KeywordAt k (' ' :: (k.written ++ z)) z := keywordAt_gap k hgap
  have hne : k ≠ .end_ := by rcases hk with rfl | rfl | ⟨rfl, -⟩ <;> simp
  rw [hrender]
  refine ⟨⟨_, rfl⟩, endsExpression_keyword hne hgap.notNext_isAlphanum, ?_, k, z, ?_, hat⟩
  · rcases hk with rfl | rfl | ⟨rfl, z', rfl, hgap'⟩
    · exact Or.inl ⟨.required, z, hat⟩
    · exact Or.inr ⟨z, hat⟩
    · exact Or.inl ⟨.optional, z', _, hat, keywordAt_gap .match_ hgap'⟩
  · rcases hk with rfl | rfl | ⟨rfl, -⟩ <;> simp

/-- `MATCH` comes next only if there is another clause, and it is not optional. -/
theorem required_of_keywordAt_match {clauses : List MatchClause} {returns : List ReturnItem}
    {u : Text} (h : KeywordAt .match_ (' ' :: renderClauses clauses (renderReturns returns)) u) :
    ∃ clause rest, clauses = clause :: rest ∧ clause.kind = .required := by
  cases clauses with
  | nil =>
    have hat : KeywordAt .return_ (' ' :: renderReturns returns) _ :=
      keywordAt_gap .return_ (atGap_returns returns)
    cases (hat.unique h).1
  | cons clause rest =>
    refine ⟨clause, rest, rfl, ?_⟩
    cases hkind : clause.kind with
    | required => rfl
    | optional =>
      rw [renderClauses_cons, renderClause_append, hkind] at h
      obtain ⟨v, hv, -⟩ := matchKindAt_written .optional
        (atGap_afterKind clause (renderClauses rest (renderReturns returns)))
      cases (((keywordAt_congr (Text.sameAhead_space _)).1 hv).unique h).1

/-! ## Conditions -/

/-- No operator is a keyword. -/
theorem not_keywordAt_operator {k : Keyword} (o : Operator) (rest u : Text) :
    ¬KeywordAt k (' ' :: (o.written ++ ' ' :: rest)) u := by
  rintro ⟨word, hword, hk⟩
  obtain ⟨kind, hkind, ho, -⟩ := token?_operator o rest
  rw [Text.token?_space, hkind] at hword
  cases hword
  rw [Operator.ofToken?, ofWord?_of_keyword hk] at ho
  cases ho

/-- A condition that begins with no word of a clause is not taken for one. -/
theorem not_clauseAt_condition {e : Expression} {after : Text} {depth : Nat} (hne : e ≠ .empty)
    (hread : Readable (Expression.places depth after e)) (hafter : EndsOperand after)
    (hmatch : Expression.startsWith .match_ e = false)
    (hreturn : Expression.startsWith .return_ e = false)
    (hoptional : ∀ name, e = .cons (.identifier name) [] →
      name.eqIgnoringCase Keyword.optional.written = true → ∀ u, ¬KeywordAt .match_ after u) :
    ¬ClauseAt (Expression.render e ++ after) := by
  have hno : ∀ {k : Keyword}, k ≠ .case_ → Expression.startsWith k e = false →
      ∀ u, ¬KeywordAt k (Expression.render e ++ after) u := by
    rintro k hk hstart u ⟨word, htok, hword⟩
    rw [startsWith_of_token? (fun head tail => wellShaped_head hread) hafter hk hne htok hword]
      at hstart
    cases hstart
  rintro (⟨_ | _, u, hu⟩ | ⟨u, hu⟩)
  · exact hno (by simp) hmatch u hu
  · obtain ⟨v, ⟨word, htok, hword⟩, hu⟩ := hu
    cases e with
    | empty => exact hne rfl
    | cons head tail =>
      rw [Expression.render, List.append_assoc] at htok
      have hshape := wellShaped_head hread rfl
      have hends : EndsOperand (Operand.renderLinks tail ++ after) := endsOperand_links hafter
      have hlead := leadingWord?_of_token? (k := .optional) hshape hends (by simp) htok hword
      cases head with
      | call name distinct arguments =>
        obtain ⟨rest, hrest⟩ : ∃ rest, (Operand.call name distinct arguments).render ++
            (Operand.renderLinks tail ++ after) = name ++ '(' :: rest :=
          ⟨_, by simp [Operand.render]; rfl⟩
        rw [hrest, Text.token?_identifier hshape.1 (Text.notNext_cons.2 rfl)] at htok
        cases htok
        obtain ⟨word', hword', -⟩ := hu
        cases hword'
      | property owner name =>
        have hrender : (Operand.property owner name).render ++ (Operand.renderLinks tail ++ after) =
            owner ++ '.' :: (name.inBackTicks ++ (Operand.renderLinks tail ++ after)) := by
          simp [Operand.render]
        rw [hrender, Text.token?_identifier hshape.1 (Text.notNext_cons.2 rfl)] at htok
        cases htok
        obtain ⟨word', hword', -⟩ := hu
        cases hword'
      | identifier name =>
        rw [Operand.render, Text.token?_identifier hshape.1 hends.notNext_isAlphanum] at htok
        cases htok
        cases tail with
        | nil => exact hoptional _ rfl hword u hu
        | cons link links =>
          obtain ⟨o, operand⟩ := link
          have hu' : KeywordAt .match_ (' ' :: (o.written ++ ' ' ::
              (operand.render ++ (Operand.renderLinks links ++ after)))) u := by
            simpa [Operand.renderLinks] using hu
          exact not_keywordAt_operator o _ u hu'
      | _ => cases hlead
  · exact hno (by simp) hreturn u hu

theorem readsBack_whereClause {limit : Nat} {e : Expression} {after : Text}
    (hread : Readable (Expression.places 0 after e)) (hnesting : Expression.nesting e ≤ limit)
    (hmatch : Expression.startsWith .match_ e = false)
    (hreturn : Expression.startsWith .return_ e = false) (hafter : BeginsClause after)
    (hoptional : ∀ name, e = .cons (.identifier name) [] →
      name.eqIgnoringCase Keyword.optional.written = true → ∀ u, ¬KeywordAt .match_ after u) :
    ReadsBack (whereClause limit) (renderCondition e ++ after) e after
      (∀ place ∈ Expression.places 0 after e, place.StandsVerbatim limit) := by
  cases e with
  | empty =>
    have hat : KeywordAt .where_ (' ' :: (Keyword.where_.written ++ after)) after :=
      keywordAt_written .where_ hafter.ends.notNext_isAlphanum
    refine (ReadsBack.always fun {t} ht => ⟨after, outcome_whereClause_eq_matched.2
      ⟨after, ?_, Or.inl ⟨hafter.clause, rfl, rfl⟩⟩, .refl _⟩).congr (by simp [Expression.places])
    rw [keywordAt_congr ht]
    simpa [renderCondition, Chain.isEmpty] using hat
  | cons head tail =>
    have hrender : renderCondition (.cons head tail) ++ after = ' ' :: (Keyword.where_.written ++
        ' ' :: (Expression.render (.cons head tail) ++ after)) := by
      simp [renderCondition, Chain.isEmpty]
    have hat : KeywordAt .where_ (renderCondition (.cons head tail) ++ after)
        (' ' :: (Expression.render (.cons head tail) ++ after)) := by
      rw [hrender]
      exact keywordAt_gap .where_ (atGap_space _)
    have hno : ¬ClauseAt (' ' :: (Expression.render (.cons head tail) ++ after)) := by
      rw [← clauseAt_congr (Text.sameAhead_space _)]
      exact not_clauseAt_condition (by simp) hread hafter.ends.toEndsOperand hmatch hreturn
        hoptional
    have he := (readsBack_expression (.cons head tail) (Nat.add_zero limit) hread hnesting
      hafter.ends (by simp)).space
    constructor
    · intro hc t ht
      obtain ⟨u, hu, hrest⟩ := he.reads hc (.refl _)
      refine ⟨u, outcome_whereClause_eq_matched.2 ⟨_, ?_, Or.inr ⟨hno, hu⟩⟩, hrest⟩
      rw [keywordAt_congr ht]
      exact hat
    · intro t u ht h
      obtain ⟨v, hv, ⟨-, h, -⟩ | ⟨-, h⟩⟩ := outcome_whereClause_eq_matched.1 h
      · cases h
      · rw [keywordAt_congr ht] at hv
        obtain ⟨-, rfl⟩ := hat.unique hv
        exact he.only (.refl _) h

/-! ## Match clauses -/

/-- The operands in the condition of a clause. -/
def placesOfCondition (after : Text) (condition : Option Expression) : List Place :=
  (condition.map (Expression.places 0 after)).getD []

theorem readsBack_condition {limit : Nat} {clause : MatchClause} {after : Text}
    (hshape : clause.WellShaped) (hread : Readable (placesOfCondition after clause.condition))
    (hnesting : ∀ e ∈ clause.condition, Expression.nesting e ≤ limit) (hafter : BeginsClause after)
    (hoptional : clause.endsInOptional = true → ∀ u, ¬KeywordAt .match_ after u) :
    ReadsBack (optional (whereClause limit))
      ((clause.condition.map renderCondition).getD [] ++ after) clause.condition after
      (∀ place ∈ placesOfCondition after clause.condition, place.StandsVerbatim limit) := by
  obtain ⟨kind, paths, condition⟩ := clause
  cases condition with
  | none =>
    refine (ReadsBack.optional_none fun {t} ht => misses_whereClause_of fun u hu => ?_).congr
      (by simp [placesOfCondition])
    exact hafter.not_keywordAt (by simp) u ((keywordAt_congr ht).1 hu)
  | some e =>
    obtain ⟨-, hmatch, hreturn⟩ := hshape.condition e rfl
    refine .optional_some (readsBack_whereClause hread (hnesting e rfl) hmatch hreturn hafter ?_)
    rintro name rfl hname
    exact hoptional hname

/-- One directive stands at a place, and ends in one way. -/
theorem MatchKindAt.unique {k l : MatchKind} {t u v : Text} (hu : MatchKindAt k t u)
    (hv : MatchKindAt l t v) : k = l ∧ u = v := by
  have hkind := outcome_matchKind_eq_matched.2 hu
  rw [outcome_matchKind_eq_matched.2 hv] at hkind
  cases hkind
  exact ⟨rfl, rfl⟩

/-- After the paths of a clause comes a word, of the condition or of the next clause. -/
theorem identifier_condition {condition : Option Expression} {after : Text}
    (hafter : BeginsClause after) : ∃ word u,
      Text.token? ((condition.map renderCondition).getD [] ++ after) =
        some (.identifier word, u) := by
  cases condition with
  | none =>
    obtain ⟨k, u, -, word, hword, -⟩ := hafter.word
    exact ⟨word, u, hword⟩
  | some e =>
    refine ⟨Keyword.where_.written,
      (if e.isEmpty then [] else ' ' :: Expression.render e) ++ after, ?_⟩
    rw [Option.map_some, Option.getD_some, renderCondition, List.append_assoc]
    refine token?_keyword .where_ ?_
    split
    exacts [hafter.ends.notNext_isAlphanum, Text.notNext_cons.2 rfl]

theorem readsBack_matchClause {limit : Nat} {clause : MatchClause} {after : Text}
    (hshape : clause.WellShaped) (hread : Readable (placesOfCondition after clause.condition))
    (hnesting : ∀ e ∈ clause.condition, Expression.nesting e ≤ limit) (hafter : BeginsClause after)
    (hoptional : clause.endsInOptional = true → ∀ u, ¬KeywordAt .match_ after u) :
    ReadsBack (matchClause limit) (clause.render ++ after) clause after
      (∀ place ∈ placesOfCondition after clause.condition, place.StandsVerbatim limit) := by
  have hcondition := readsBack_condition hshape hread hnesting hafter hoptional
  obtain ⟨word, w, hword⟩ : ∃ word u, Text.token? ((clause.condition.map renderCondition).getD [] ++
      after) = some (.identifier word, u) := identifier_condition hafter
  have hpaths := readsBack_paths hshape.paths hshape.not_lone_blank
    (fun kind u hu => by rw [hword] at hu; cases hu; exact Or.inr ⟨word, rfl⟩)
    (fun u hu => by rw [hword] at hu; cases hu)
  have hgap : AtGap (renderPaths clause.paths ++
      ((clause.condition.map renderCondition).getD [] ++ after)) := by
    obtain ⟨z, rfl⟩ := hafter.space
    exact atGap_afterKind clause z
  have hkind : ∀ {t : Text}, t.SameAhead (clause.render ++ after) →
      MatchKindAt clause.kind t _ := fun ht => by
    rw [renderClause_append] at ht
    exact (matchKindAt_congr ht).2 (matchKindAt_written clause.kind hgap)
  constructor
  · intro hc t ht
    obtain ⟨u, hu, hrest⟩ := hpaths.reads trivial (.refl _)
    obtain ⟨v, hv, hend⟩ := hcondition.reads hc hrest
    exact ⟨v, outcome_matchClause_eq_matched.2 ⟨_, u, hkind ht, hu, hv⟩, hend⟩
  · intro t v ht h
    obtain ⟨u, u', hu, hu', hv⟩ := outcome_matchClause_eq_matched.1 h
    obtain ⟨-, rfl⟩ := (hkind ht).unique hu
    exact hcondition.only (hpaths.sameAhead (.refl _) hu') hv

/-! ## The clauses of a query -/

theorem ReadsBack.of_rest_space {α : Type} {p : Production α} {x rest : Text} {a : α} {c : Prop}
    (h : ReadsBack p x a (' ' :: rest) c) : ReadsBack p x a rest c :=
  ⟨fun hc _ ht => h.reads hc ht, fun ht hu => h.only ht hu⟩

theorem readsBack_clauses {limit : Nat} {clauses : List MatchClause} {returns : List ReturnItem}
    (hshape : ∀ clause ∈ clauses, clause.WellShaped)
    (hread : Readable (placesOfClauses (renderReturns returns) clauses))
    (hnesting : ∀ clause ∈ clauses, ∀ e ∈ clause.condition, Expression.nesting e ≤ limit)
    (hoptional : clauses.IsChain fun clause next =>
      clause.endsInOptional = true → next.kind = .optional) :
    ReadsBack (many (matchClause limit)) (renderClauses clauses (renderReturns returns)) clauses
      (renderReturns returns)
      (∀ place ∈ placesOfClauses (renderReturns returns) clauses, place.StandsVerbatim limit) := by
  induction clauses with
  | nil =>
    refine (ReadsBack.many_nil (advances_matchClause limit) fun {t} ht =>
      misses_matchClause_of fun k u hu => ?_).congr (by simp [placesOfClauses])
    have hat : KeywordAt .return_ (renderReturns returns) _ :=
      keywordAt_gap .return_ (atGap_returns returns)
    rw [matchKindAt_congr ht] at hu
    cases k with
    | required => cases (KeywordAt.unique hu hat).1
    | optional => obtain ⟨v, hv, -⟩ := hu; cases (hv.unique hat).1
  | cons clause clauses ih =>
    simp only [placesOfClauses, Readable, List.forall_mem_append] at hread ⊢
    rw [List.forall_mem_cons] at hshape hnesting
    have hnext : clause.endsInOptional = true →
        ∀ u, ¬KeywordAt .match_ (' ' :: renderClauses clauses (renderReturns returns)) u := by
      intro hends u hu
      obtain ⟨next, rest, rfl, hkind⟩ := required_of_keywordAt_match hu
      rw [(List.isChain_cons_cons.1 hoptional).1 hends] at hkind
      cases hkind
    have hclause := readsBack_matchClause hshape.1 hread.1 hnesting.1
      (beginsClause_renderClauses clauses returns) hnext
    rw [renderClauses_cons]
    exact hclause.of_rest_space.many_cons (advances_matchClause limit)
      (ih hshape.2 hread.2 hnesting.2 hoptional.of_cons)

/-! ## Items -/

/-- The end of the text or a comma comes next. -/
def EndsItem (rest : Text) : Prop :=
  rest = [] ∨ ∃ u, rest = ',' :: u

theorem EndsItem.token? {rest : Text} (h : EndsItem rest) {kind : TokenKind} {u : Text}
    (hu : rest.token? = some (kind, u)) : kind = .symbol .comma := by
  rcases h with rfl | ⟨v, rfl⟩ <;> cases hu
  rfl

theorem EndsItem.endsExpression {rest : Text} (h : EndsItem rest) : EndsExpression rest := by
  rcases h with rfl | ⟨v, rfl⟩
  exacts [endsExpression_nil, endsExpression_closing (by simp) v]

theorem endsItem_renderItemsAfter (items : List ReturnItem) :
    EndsItem (renderItemsAfter items) := by
  cases items with
  | nil => exact Or.inl rfl
  | cons item items => exact Or.inr ⟨_, rfl⟩

theorem endsExpression_alias {name : Option Text} {after : Text} (hafter : EndsItem after) :
    EndsExpression (renderAlias name ++ after) := by
  cases name with
  | none => exact hafter.endsExpression
  | some n =>
    have hrender : renderAlias (some n) ++ after =
        ' ' :: Keyword.as_.written ++ ' ' :: (n.inBackTicks ++ after) := by simp [renderAlias]
    rw [hrender]
    exact endsExpression_keyword (k := .as_) (by simp) (atGap_space _).notNext_isAlphanum

theorem readsBack_alias {name : Option Text} {after : Text}
    (hname : ∀ n ∈ name, Text.isQuotableText n = true) (hafter : EndsItem after) :
    ReadsBack (optional aliasName) (renderAlias name ++ after) name after True := by
  cases name with
  | none =>
    refine .optional_none fun {t} ht => misses_aliasName_of fun u hu => ?_
    obtain ⟨word, hword, -⟩ := (keywordAt_congr ht).1 hu
    cases hafter.token? hword
  | some n =>
    refine .optional_some (.always fun {t} ht => ?_)
    have hrender : renderAlias (some n) ++ after =
        ' ' :: (Keyword.as_.written ++ ' ' :: (n.inBackTicks ++ after)) := by simp [renderAlias]
    obtain ⟨u, hu, hrest⟩ := (readsBack_nameOrQuoted (hname n rfl)).space.reads trivial (.refl _)
    refine ⟨u, outcome_aliasName_eq_matched.2 ⟨_, ?_, hu⟩, hrest⟩
    rw [keywordAt_congr ht, hrender]
    exact keywordAt_gap .as_ (atGap_space _)

theorem readsBack_returnItem {limit : Nat} {item : ReturnItem} {after : Text}
    (hshape : item.WellShaped)
    (hread : Readable (Expression.places 0 (renderAlias item.aliasName ++ after) item.expression))
    (hnesting : Expression.nesting item.expression ≤ limit) (hafter : EndsItem after) :
    ReadsBack (returnItem limit) (item.render ++ after) item after
      (∀ place ∈ Expression.places 0 (renderAlias item.aliasName ++ after) item.expression,
        place.StandsVerbatim limit) := by
  have halias := readsBack_alias (fun n hn => (hshape.aliasName n hn).1) hafter
  have he := readsBack_expression item.expression (Nat.add_zero limit) hread hnesting
    (endsExpression_alias hafter) ?_
  · have hrender : item.render ++ after =
        Expression.render item.expression ++ (renderAlias item.aliasName ++ after) := by
      simp [ReturnItem.render, renderAlias]
    rw [hrender]
    constructor
    · intro hc t ht
      obtain ⟨u, hu, hrest⟩ := he.reads hc ht
      obtain ⟨v, hv, hend⟩ := halias.reads trivial hrest
      exact ⟨v, outcome_returnItem_eq_matched.2 ⟨u, hu, hv⟩, hend⟩
    · intro t v ht h
      obtain ⟨u, hu, -⟩ := outcome_returnItem_eq_matched.1 h
      exact he.only ht hu
  · intro hempty kind u hu
    cases hname : item.aliasName with
    | none => rw [hname] at hu; rw [hafter.token? hu]; simp
    | some n =>
      have := (hshape.aliasName n hname).2
      rw [hempty] at this
      cases this

theorem readsBack_moreItems {limit : Nat} {items : List ReturnItem}
    (hshape : ∀ item ∈ items, item.WellShaped) (hread : Readable (placesOfItems items))
    (hnesting : ∀ item ∈ items, Expression.nesting item.expression ≤ limit) :
    ReadsBack (many (link (symbol .comma) (returnItem limit))) (renderItemsAfter items)
      (items.map fun item => ((), item)) []
      (∀ place ∈ placesOfItems items, place.StandsVerbatim limit) := by
  induction items with
  | nil =>
    refine (ReadsBack.many_nil (advances_link (advances_symbol _) _) fun {t} ht =>
      misses_link_of_separator ⟨t, outcome_symbol_eq_missed.2 ⟨rfl, fun u hu => ?_⟩⟩).congr
        (by simp [placesOfItems])
    rw [Text.SameAhead.token? ht] at hu
    cases hu
  | cons item items ih =>
    simp only [placesOfItems, Readable, List.forall_mem_append] at hread ⊢
    rw [List.forall_mem_cons] at hshape hnesting
    have hitem := readsBack_returnItem hshape.1 hread.1 hnesting.1 (endsItem_renderItemsAfter items)
    have hlink := (readsBack_symbol (s := .comma) (by simp) (by simp)).link hitem.space
    have hrender : renderItemsAfter (item :: items) =
        Symbol.comma.written ++ ' ' :: (item.render ++ renderItemsAfter items) := by
      simp [renderItemsAfter, Symbol.written]
    rw [hrender]
    exact (hlink.many_cons (advances_link (advances_symbol _) _)
      (ih hshape.2 hread.2 hnesting.2)).congr (by simp)

theorem readsBack_returns {limit : Nat} {items : List ReturnItem}
    (hshape : ∀ item ∈ items, item.WellShaped)
    (hblank : ∀ item, items = [item] → item.isBlank = false)
    (hread : Readable (placesOfItems items))
    (hnesting : ∀ item ∈ items, Expression.nesting item.expression ≤ limit) :
    ReadsBack (commaList ReturnItem.isBlank (returnItem limit))
      (if items.isEmpty then [] else ' ' :: Text.commaJoined (items.map ReturnItem.render)) items []
      (∀ place ∈ placesOfItems items, place.StandsVerbatim limit) := by
  cases items with
  | nil =>
    -- nothing is read as one blank item, which is dropped
    have hitem : ReadsBack (returnItem limit) (ReturnItem.render ⟨.empty, none⟩ ++ [])
        ⟨.empty, none⟩ [] _ :=
      readsBack_returnItem ⟨Chain.alternates _, by simp⟩ (by simp [Readable, Expression.places])
        (by simp [Expression.nesting]) (Or.inl rfl)
    refine (ReadsBack.always fun {t} ht => ?_).congr (by simp [placesOfItems])
    obtain ⟨u, hu, hrest⟩ := hitem.reads (by simp [Expression.places]) ht
    refine ⟨u, outcome_commaList_eq_matched.2 (Or.inr ⟨_, [], u, rfl, hu, .stop ?_⟩), hrest⟩
    refine misses_link_of_separator ⟨u, outcome_symbol_eq_missed.2 ⟨rfl, fun v hv => ?_⟩⟩
    rw [hrest.token?] at hv
    cases hv
  | cons item items =>
    simp only [placesOfItems, Readable, List.forall_mem_append] at hread ⊢
    rw [List.forall_mem_cons] at hshape hnesting
    have hitem := readsBack_returnItem hshape.1 hread.1 hnesting.1 (endsItem_renderItemsAfter items)
    have hrender : (if (item :: items).isEmpty then [] else
        ' ' :: Text.commaJoined ((item :: items).map ReturnItem.render)) =
        ' ' :: (item.render ++ renderItemsAfter items) := by
      simp [Text.commaJoined_cons, renderItemsAfter, List.flatMap_map]
    rw [hrender]
    refine hitem.space.commaList ?_ (readsBack_moreItems hshape.2 hread.2 hnesting.2)
    rintro rfl
    exact hblank item rfl

/-! ## Queries -/

theorem startsWord_written (k : Keyword) {t : Text} (h : AtGap t) :
    Text.startsWord k.written (k.written ++ t) = true := by
  refine Text.startsWord_iff.2 ⟨k.written, t, rfl, rfl, ?_⟩
  rcases h with rfl | ⟨u, rfl⟩
  · exact Text.notNext_nil _
  · exact Text.notNext_cons.2 (Text.isAlphanumeric_eq_false_of_isBlank rfl)

theorem notNext_isBlank_written (k : Keyword) (t : Text) :
    Text.NotNext Text.isBlank (k.written ++ t) := by
  cases k <;> exact Text.notNext_cons.2 rfl

theorem opensClause_renderClauses (clauses : List MatchClause) (returns : List ReturnItem) :
    Text.opensClause (renderClauses clauses (renderReturns returns)) = true ∧
      Text.NotNext Text.isBlank (renderClauses clauses (renderReturns returns)) := by
  obtain ⟨k, z, hrender, hgap, hk⟩ := renderClauses_eq clauses returns
  rw [hrender]
  constructor
  · rw [Text.opensClause_iff]
    rcases hk with rfl | rfl | ⟨rfl, z', rfl, hgap'⟩
    · exact Or.inl ⟨.match_, by simp, startsWord_written .match_ hgap⟩
    · exact Or.inl ⟨.return_, by simp, startsWord_written .return_ hgap⟩
    · refine Or.inr (Text.opensOptionalMatch_iff.2 ⟨_, ' ', _, rfl, rfl, rfl, ?_⟩)
      rw [Text.dropBlanks_of_notNext (notNext_isBlank_written .match_ z')]
      exact startsWord_written .match_ hgap'
  · exact notNext_isBlank_written k z

theorem readsBack_start {start : Option Text} {clauses : List MatchClause}
    {returns : List ReturnItem}
    (hshape : ∀ body ∈ start, body.IsTrimmed ∧ body.splitAtClause? = none)
    (hoptional : ∀ body ∈ start, ∀ clause ∈ clauses.head?, clause.kind = .required →
      ¬Text.EndsWithWord Keyword.optional.written body) :
    ReadsBack (optional startClause) ((start.map fun body => renderStart body ++ [' ']).getD [] ++
      renderClauses clauses (renderReturns returns)) start
      (renderClauses clauses (renderReturns returns)) True := by
  have hbegins := beginsClause_renderClauses clauses returns
  cases start with
  | none =>
    refine .optional_none fun {t} ht => misses_startClause_of fun u hu => ?_
    exact hbegins.not_keywordAt (by simp) u ((keywordAt_congr ht).1 hu)
  | some body =>
    refine .optional_some (.always fun {t} ht => ⟨_, outcome_startClause_eq_matched.2 ?_, .refl _⟩)
    obtain ⟨htrim, hnone⟩ := hshape body rfl
    obtain ⟨hopens, hblank⟩ := opensClause_renderClauses clauses returns
    obtain ⟨hsplit, hbody⟩ := Text.splitAtClause?_body htrim hnone hopens hblank fun hmatch => by
      obtain ⟨u, hu⟩ := keywordAt_of_startsWord hmatch
      obtain ⟨clause, rest, rfl, hkind⟩ :=
        required_of_keywordAt_match ((keywordAt_congr (Text.sameAhead_space _)).1 hu)
      exact hoptional body rfl clause rfl hkind
    refine ⟨_, _, ?_, hsplit, hbody.symm⟩
    have hrender : (Option.map (fun body => renderStart body ++ [' ']) (some body)).getD [] ++
        renderClauses clauses (renderReturns returns) = Keyword.start.written ++
          (body.afterSpace ++ ' ' :: renderClauses clauses (renderReturns returns)) := by
      simp [renderStart]
    rw [keywordAt_congr ht, hrender]
    refine keywordAt_gap .start ?_
    unfold Text.afterSpace
    split
    exacts [atGap_space _, atGap_space _]

end Production

/-- A query whose parts have their shapes and fit together, and in which no bare
    `CASE` is followed by `END`, is read back from its canonical text iff none of its
    verbatim expressions is taken for a call. -/
theorem Query.parse_render_iff {limit : Nat} {q : Query} (hshape : q.WellShaped)
    (hfits : q.FitsTogether limit) (hcase : ∀ place ∈ q.places, place.NoEndAfterCase) :
    parse limit q.render = .ok q ↔ ∀ place ∈ q.places, place.StandsVerbatim limit := by
  have hread : Production.Readable q.places := fun place hplace =>
    ⟨hshape.operands place hplace, hcase place hplace⟩
  simp only [Query.places, Production.Readable, List.forall_mem_append] at hread ⊢
  have hstart :
      Production.ReadsBack _ _ _ (renderClauses q.clauses (renderReturns q.returns)) True :=
    Production.readsBack_start hshape.start hfits.start_optional
  have hclauses := Production.readsBack_clauses hshape.clauses hread.1 hfits.condition_nesting
    hfits.optional_match
  have hreturns := Production.readsBack_returns hshape.items hshape.not_lone_blank hread.2
    hfits.item_nesting
  have hrender : q.render = (q.start.map fun body => renderStart body ++ [' ']).getD [] ++
      renderClauses q.clauses (renderReturns q.returns) := by
    simp [Query.render, renderClauses, renderReturns]
  have hreturn : Production.KeywordAt .return_ (renderReturns q.returns) _ :=
    Production.keywordAt_gap .return_ (Production.atGap_returns q.returns)
  have hmany := @Production.outcome_many_eq_matched _ _ (Production.advances_matchClause limit)
  rw [parse_eq_ok_iff, hrender]
  constructor
  · rintro ⟨rest, h⟩
    obtain ⟨t₁, t₂, t₃, h₁, h₂, h₃, h₄, -⟩ := Production.outcome_query_eq_matched.1 h
    have ht₁ := hstart.sameAhead (.refl _) h₁
    have ht₂ := hclauses.sameAhead ht₁ (hmany.2 h₂)
    obtain ⟨-, rfl⟩ := hreturn.unique ((Production.keywordAt_congr ht₂).1 h₃)
    exact ⟨hclauses.only ht₁ (hmany.2 h₂), hreturns.only (.refl _) h₄⟩
  · rintro ⟨hc, hc'⟩
    obtain ⟨t₁, h₁, ht₁⟩ := hstart.reads trivial (.refl _)
    obtain ⟨t₂, h₂, ht₂⟩ := hclauses.reads hc ht₁
    obtain ⟨t₃, h₃, ht₃⟩ := hreturns.reads hc' (.refl _)
    exact ⟨t₃, Production.outcome_query_eq_matched.2
      ⟨t₁, t₂, _, h₁, hmany.1 h₂, (Production.keywordAt_congr ht₂).2 hreturn, h₃, ht₃⟩⟩

end Cypher
