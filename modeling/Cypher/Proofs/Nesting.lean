/-
  The nesting limit — exactly the queries that are nested too deeply are given up.

  How deep calls and groups may be nested has an influence on whether a text is read, but
  not on what is read. A text that is read under one limit is read as the same query under
  every limit that its nesting fits, and is given up under every other one.

  * `Outcome.within`: a match, unless it is nested too deeply;
  * `outcome_expression_within` to `outcome_query_within`: what matches under one limit
    matches under another one, or is given up;
  * `Query.parse_of_nesting`: the limit is an exact threshold.
-/
import Cypher.Proofs.Tokenwise
import Cypher.Proofs.Validity

namespace Cypher

/-! ## Nesting -/

/-- The greatest depth of the elements of a list. -/
def deepest {α : Type} (depthOf : α → Nat) : List α → Nat
  | [] => 0
  | a :: as => max (depthOf a) (deepest depthOf as)

/-- How deeply calls and groups stand inside each other in the condition of a clause. -/
def MatchClause.nesting (clause : MatchClause) : Nat :=
  (clause.condition.map Expression.nesting).getD 0

/-- How deeply calls and groups stand inside each other in an item. -/
def ReturnItem.nesting (item : ReturnItem) : Nat :=
  Expression.nesting item.expression

/-- How deeply calls and groups stand inside each other anywhere in a query. -/
def Query.nesting (query : Query) : Nat :=
  max (deepest MatchClause.nesting query.clauses) (deepest ReturnItem.nesting query.returns)

/-! ## Matches within a limit -/

/-- The match of something nested `depth` deep, if that fits the allowance. -/
def Outcome.within {α : Type} (depth allowance : Nat) (a : α) (rest : Text) : Outcome α :=
  if depth ≤ allowance then .matched a rest else .gaveUp

namespace Production

variable {α β : Type} {p : Production α} {t u rest : Text} {a : α} {depth deeper allowance : Nat}

theorem within_zero (allowance : Nat) (a : α) (rest : Text) :
    Outcome.within 0 allowance a rest = .matched a rest :=
  if_pos (Nat.zero_le _)

theorem within_succ (depth allowance : Nat) (a : α) (rest : Text) :
    Outcome.within (depth + 1) (allowance + 1) a rest = .within depth allowance a rest := by
  simp only [Outcome.within, Nat.add_le_add_iff_right]

theorem outcome_bind_of_matched {f : α → Production β} (hp : p.outcome t = .matched a u) :
    (p >>= f).outcome t = (f a).outcome u := by
  simp only [bind, outcome, hp, Outcome.andThen]

/-- What follows counts only if what comes first fits. -/
theorem outcome_bind_within {f : α → Production β} {b : β}
    (hp : p.outcome t = .within depth allowance a u)
    (hf : (f a).outcome u = .within deeper allowance b rest) :
    (p >>= f).outcome t = .within (max depth deeper) allowance b rest := by
  simp only [bind, outcome, hp, Outcome.within, Nat.max_le]
  by_cases hdepth : depth ≤ allowance
  · simp only [hdepth, if_true, true_and, Outcome.andThen, hf, Outcome.within]
  · simp only [hdepth, if_false, false_and, Outcome.andThen]

theorem outcome_bind_within_matched {f : α → Production β} {b : β}
    (hp : p.outcome t = .within depth allowance a u) (hf : (f a).outcome u = .matched b rest) :
    (p >>= f).outcome t = .within depth allowance b rest := by
  have hbind := outcome_bind_within hp (hf.trans (within_zero allowance b rest).symm)
  rwa [Nat.max_zero] at hbind

theorem outcome_attempt_within (hp : p.outcome t = .within depth allowance a rest) :
    (attempt p).outcome t = .within depth allowance a rest := by
  simp only [outcome, hp, Outcome.within]
  split <;> rfl

theorem outcome_orElse_within {q : Production α}
    (hp : p.outcome t = .within depth allowance a rest) :
    (p <|> q).outcome t = .within depth allowance a rest := by
  rw [outcome_orElse, hp, Outcome.within]
  split <;> rfl

theorem outcome_optional_within (hp : p.outcome t = .within depth allowance a rest) :
    (optional p).outcome t = .within depth allowance (some a) rest := by
  have hattempt := outcome_attempt_within hp
  simp only [optional, outcome] at hattempt ⊢
  rw [hattempt, Outcome.within, Outcome.within]
  split <;> rfl

theorem outcome_orElse_of_misses {q : Production α} (hp : p.Misses t) (hstays : p.Stays) :
    (p <|> q).outcome t = q.outcome t := by
  obtain ⟨u, hu⟩ := hp
  rw [outcome_orElse, hu, hstays hu]
  rfl

/-- Repetitions within a limit, round by round. The texts of the rounds are `good`. -/
theorem outcome_many_within {q : Production α} (hadvances : p.Advances) (depthOf : α → Nat)
    {good : Text → Prop} {as : List α} (h : p.Repeats t as rest) (ht : good t)
    (hnext : ∀ {t u a}, good t → p.outcome t = .matched a u → good u) (hstop : q.Misses rest)
    (hround : ∀ {t u a as}, good t → p.outcome t = .matched a u → p.Repeats u as rest →
      q.outcome t = .within (depthOf a) allowance a u) :
    (many q).outcome t = .within (deepest depthOf as) allowance as rest := by
  simp only [outcome]
  induction h with
  | stop =>
    obtain ⟨u, hu⟩ := hstop
    rw [Outcome.repeated, hu, deepest, within_zero]
  | @step t u rest a as ha hrest ih =>
    have hmore := ih (hnext ht ha) hstop hround
    rw [Outcome.repeated, hround ht ha hrest, deepest]
    simp only [Outcome.within, Nat.max_le] at hmore ⊢
    by_cases hdepth : depthOf a ≤ allowance
    · simp only [hdepth, if_true, true_and, hadvances ha, hmore]
      split <;> rfl
    · simp only [hdepth, if_false, false_and]

/-! ## Operands -/

/-- An operand that opens no parenthesis is read alike under all limits. -/
theorem outcome_operand_congr {limit limit' : Nat}
    {inside inside' : Option (Unit → Production Expression)}
    (hcall : ∀ name u, t.token? = some (.identifier name, u) →
      ∀ v, u.token? ≠ some (.symbol .leftParen, v))
    (hgroup : ∀ u, t.token? ≠ some (.symbol .leftParen, u)) :
    (operand limit inside).outcome t = (operand limit' inside').outcome t := by
  have hcalls : ∀ limit inside, (attempt (call limit inside)).Misses t := fun _ _ =>
    misses_attempt_iff.2 (misses_call_of hcall)
  have hgroups : ∀ limit inside, (attempt (group limit inside)).Misses t := fun _ _ =>
    misses_attempt_iff.2 (misses_group_of hgroup)
  rw [operand, operand, outcome_orElse_of_misses (hcalls _ _) (stays_attempt _),
    outcome_orElse_of_misses (hcalls _ _) (stays_attempt _), outcome_orElse, outcome_orElse]
  cases hcase : (attempt caseExpression).outcome t with
  | matched o u => rfl
  | gaveUp => rfl
  | missed u =>
    rw [stays_attempt _ hcase]
    simp only [Outcome.orTry]
    rw [outcome_orElse_of_misses (hgroups _ _) (stays_attempt _),
      outcome_orElse_of_misses (hgroups _ _) (stays_attempt _)]

/-- What follows does not go on with the expression. -/
def EndsChain (rest : Text) : Prop :=
  ∀ kind u, rest.token? = some (kind, u) →
    kind ≠ .symbol .leftParen ∧ Operator.ofToken? kind = none

/-- Under another limit, an expression that matched still matches or is given up. -/
def Thresholds (p : Production Expression) : Prop :=
  ∀ {t rest : Text} {e : Expression}, p.outcome t = .matched e rest → t.CaseFree →
    EndsChain rest → ∀ limit allowance, (expression limit allowance).outcome t =
      .within (Expression.nesting e) allowance e rest

theorem endsChain_of_symbol {s : Symbol} (hparen : s ≠ .leftParen)
    (hoperator : Operator.ofSymbol? s = none) (h : t.token? = some (.symbol s, u)) :
    EndsChain t := by
  intro kind v hv
  rw [h] at hv
  cases hv
  exact ⟨by simpa using hparen, hoperator⟩

theorem outcome_symbol_of_token? {x : Symbol} (h : t.token? = some (.symbol x, u)) :
    (symbol x).outcome t = .matched () u :=
  outcome_symbol_eq_matched.2 h

/-- What stands before a closing bracket, within a limit. -/
theorem outcome_closed_within {x : Symbol} {g : α → β}
    (hp : p.outcome t = .within depth allowance a u) (hx : u.token? = some (.symbol x, rest)) :
    (p >>= fun a => symbol x >>= fun _ => pure (g a)).outcome t =
      .within depth allowance (g a) rest := by
  refine outcome_bind_within_matched hp ?_
  rw [outcome_bind_of_matched (outcome_symbol_of_token? hx), outcome_pure]

theorem outcome_call_within {limit limit' allowance' : Nat}
    {inside : Option (Unit → Production Expression)} {o : Operand}
    (h : (call limit inside).outcome t = .matched o rest) (ht : t.CaseFree)
    (ih : ∀ inner, inside = some inner → Thresholds (inner ())) :
    (call limit' (Production.inside limit' allowance')).outcome t =
      .within o.nesting allowance' o rest := by
  obtain ⟨name, distinct, arguments, inner, t₁, t₂, t₃, t₄, rfl, h₁, h₂, hinner, hd, he, h₅⟩ :=
    outcome_call_eq_matched.1 h
  have ht₃ : t₃.CaseFree := by
    have hlead : t.Leads t₂ := (Text.leads_of_token? h₁).trans (Text.leads_of_token? h₂)
    have hmaybe : Tokenwise limit false (maybe (keyword .distinct)) := .maybe (.keyword _)
    exact (ht.of_leads hlead).of_leads ((hmaybe.leads (ht.of_leads hlead)).1 distinct hd)
  have hends : EndsChain t₄ := endsChain_of_symbol (by simp) rfl h₅
  rw [call, outcome_bind_of_matched (outcome_identifier_eq_matched.2 h₁),
    outcome_bind_of_matched (outcome_symbol_of_token? h₂), Operand.nesting]
  cases allowance' with
  | zero => rfl
  | succ n =>
    change (maybe (keyword .distinct) >>= _).outcome t₂ = _
    rw [outcome_bind_of_matched hd, within_succ]
    exact outcome_closed_within (ih inner hinner he ht₃ hends limit' n) h₅

theorem outcome_group_within {limit limit' allowance' : Nat}
    {inside : Option (Unit → Production Expression)} {o : Operand}
    (h : (group limit inside).outcome t = .matched o rest) (ht : t.CaseFree)
    (ih : ∀ inner, inside = some inner → Thresholds (inner ())) :
    (group limit' (Production.inside limit' allowance')).outcome t =
      .within o.nesting allowance' o rest := by
  obtain ⟨e, inner, t₁, t₂, rfl, h₁, hinner, he, h₃⟩ := outcome_group_eq_matched.1 h
  have hends : EndsChain t₂ := endsChain_of_symbol (by simp) rfl h₃
  rw [group, outcome_bind_of_matched (outcome_symbol_of_token? h₁), Operand.nesting]
  cases allowance' with
  | zero => rfl
  | succ n =>
    rw [within_succ]
    have hinside := ih inner hinner he (ht.of_leads (Text.leads_of_token? h₁)) hends limit' n
    exact outcome_closed_within hinside h₃

/-- An operand that matched still matches under another limit, or is given up. -/
theorem outcome_operand_within {limit limit' allowance' : Nat}
    {inside : Option (Unit → Production Expression)} {o : Operand}
    (h : (operand limit inside).outcome t = .matched o rest) (ht : t.CaseFree)
    (hrest : ∀ u, rest.token? ≠ some (.symbol .leftParen, u))
    (ih : ∀ inner, inside = some inner → Thresholds (inner ())) :
    (operand limit' (Production.inside limit' allowance')).outcome t =
      .within o.nesting allowance' o rest := by
  -- where no parenthesis is opened, the limit has no influence
  have hplain : o.nesting = 0 → (∀ name u, t.token? = some (.identifier name, u) →
      ∀ v, u.token? ≠ some (.symbol .leftParen, v)) →
      (∀ u, t.token? ≠ some (.symbol .leftParen, u)) →
      (operand limit' (Production.inside limit' allowance')).outcome t =
        .within o.nesting allowance' o rest := by
    intro hnesting hcall hgroup
    rw [hnesting, within_zero, ← h]
    exact outcome_operand_congr hcall hgroup
  have hother : o.nesting = 0 → ∀ kind u, t.token? = some (kind, u) → kind.identifier? = none →
      kind ≠ .symbol .leftParen → (operand limit' (Production.inside limit' allowance')).outcome t =
        .within o.nesting allowance' o rest := by
    intro hnesting kind u hu hname hparen
    refine hplain hnesting (fun name v hv => ?_) (fun v hv => ?_) <;> rw [hu] at hv <;> cases hv
    · cases hname
    · exact absurd rfl hparen
  cases operandReading_of_matched h with
  | call h₁ h₂ hinner hd he h₅ =>
    have hcall : (call limit inside).outcome t = _ :=
      outcome_call_eq_matched.2 ⟨_, _, _, _, _, _, _, _, rfl, h₁, h₂, hinner, hd, he, h₅⟩
    exact outcome_orElse_within (outcome_attempt_within (outcome_call_within hcall ht ih))
  | case_ hword hcase _ => exact absurd ⟨_, hword, hcase⟩ (ht t (.refl t) _)
  | group h₁ hinner he h₃ =>
    have hgroup : (group limit inside).outcome t = _ :=
      outcome_group_eq_matched.2 ⟨_, _, _, _, rfl, h₁, hinner, he, h₃⟩
    have hname : ∀ {name v}, t.token? ≠ some (.identifier name, v) := by
      intro name v hv; rw [h₁] at hv; cases hv
    have hcall : (call limit' (Production.inside limit' allowance')).Misses t :=
      misses_call_of fun name v hv => absurd hv hname
    have hcase : caseExpression.Misses t :=
      misses_caseExpression_iff.2 fun word v hv => absurd hv hname
    rw [operand, outcome_orElse_of_misses (misses_attempt_iff.2 hcall) (stays_attempt _),
      outcome_orElse_of_misses (misses_attempt_iff.2 hcase) (stays_attempt _)]
    exact outcome_orElse_within (outcome_attempt_within (outcome_group_within hgroup ht ih))
  | property howner hdot _ _ =>
    refine hplain rfl (fun name v hv w hw => ?_) (fun v hv => ?_) <;> rw [howner] at hv <;> cases hv
    rw [hdot] at hw
    cases hw
  | literal hword _ =>
    refine hplain rfl (fun name v hv => ?_) (fun v hv => ?_) <;> rw [hword] at hv <;> cases hv
    exact hrest
  | identifier hname _ _ =>
    refine hplain rfl (fun name v hv => ?_) (fun v hv => ?_) <;> rw [hname] at hv <;> cases hv
    exact hrest
  | string hvalue => exact hother rfl _ _ hvalue rfl (by simp)
  | number htext =>
    rcases outcome_number_eq_matched.1 htext with htok | ⟨u, digits, -, htok, -⟩
    · exact hother rfl _ _ htok rfl (by simp)
    · exact hother rfl _ _ htok rfl (by simp)
  | wildcard hstar => exact hother rfl _ _ hstar rfl (by simp)

/-- Where no operand is found, none is found under another limit, unless a parenthesis
    is open there. -/
theorem misses_operand_within {limit limit' : Nat}
    {inside inside' : Option (Unit → Production Expression)}
    (h : (operand limit inside).Misses t) (ht : ∀ u, t.token? ≠ some (.symbol .leftParen, u)) :
    (operand limit' inside').Misses t := by
  obtain ⟨u, hu⟩ := h
  refine ⟨u, (outcome_operand_congr (fun name v hv => ?_) ht).trans hu⟩
  exact absurd ⟨u, hu⟩ (not_misses_operand_of_identifier hv)

/-! ## Lists -/

theorem outcome_separated_within {separator : Production β} {item : Production α}
    {tail : List (β × α)} (hhead : item.outcome t = .within depth allowance a u)
    (htail : (many (link separator item)).outcome u = .within deeper allowance tail rest) :
    (separated separator item).outcome t =
      .within (max depth deeper) allowance (some (a, tail)) rest :=
  outcome_bind_within (outcome_optional_within hhead) (outcome_bind_within_matched htail rfl)

theorem outcome_chain_within {item : Production α} {tail : List (Operator × α)}
    (hhead : item.outcome t = .within depth allowance a u)
    (htail : (many (link operator item)).outcome u = .within deeper allowance tail rest) :
    (chain item).outcome t = .within (max depth deeper) allowance (.cons a tail) rest :=
  outcome_bind_within_matched (outcome_separated_within hhead htail) rfl

theorem outcome_commaList_within {isBlank : α → Bool} {item : Production α}
    {tail : List (Unit × α)} (hhead : item.outcome t = .within depth allowance a u)
    (htail : (many (link (symbol .comma) item)).outcome u = .within deeper allowance tail rest) :
    (commaList isBlank item).outcome t = .within (max depth deeper) allowance
      (dropLoneBlank isBlank (a :: tail.map Prod.snd)) rest :=
  outcome_bind_within_matched (outcome_separated_within hhead htail) rfl

theorem outcome_link_within {separator : Production β} {item : Production α} {b : β}
    (hs : separator.outcome t = .matched b u)
    (hi : item.outcome u = .within depth allowance a rest) :
    (link separator item).outcome t = .within depth allowance (b, a) rest := by
  rw [link, outcome_bind_of_matched hs]
  exact outcome_bind_within_matched hi rfl

/-! ## Expressions -/

theorem EndsChain.not_leftParen (h : EndsChain t) (u : Text) :
    t.token? ≠ some (.symbol .leftParen, u) :=
  fun hu => (h _ u hu).1 rfl

theorem nestingOfLinks_eq (links : List (Operator × Operand)) :
    Operand.nestingOfLinks links = deepest (fun link => link.2.nesting) links := by
  induction links with
  | nil => simp [Operand.nestingOfLinks, deepest]
  | cons link links ih => simp [Operand.nestingOfLinks, deepest, ih]

/-- No parenthesis follows an operand of a chain that was read to its end. -/
theorem Repeats.not_leftParen {item : Production α} {links : List (Operator × α)}
    (h : (link operator item).Repeats t links rest) (hrest : EndsChain rest) (u : Text) :
    t.token? ≠ some (.symbol .leftParen, u) := by
  cases h with
  | stop => exact hrest.not_leftParen u
  | step hlink _ =>
    intro hu
    obtain ⟨v, hoperator, -⟩ := outcome_link_eq_matched.1 hlink
    obtain ⟨kind, hkind, hsome⟩ := outcome_operator_eq_matched.1 hoperator
    rw [hu] at hkind
    cases hkind
    cases hsome

/-- An expression that matched still matches under another limit, or is given up. -/
theorem thresholds_expression (limit allowance : Nat) :
    Thresholds (expression limit allowance) := by
  induction allowance using Nat.strongRecOn with
  | ind allowance ih =>
    have hinner : ∀ inner, inside limit allowance = some inner → Thresholds (inner ()) := by
      intro inner hinner
      obtain ⟨n, rfl, heq⟩ := inside_eq_some hinner
      rw [heq]
      exact ih n (Nat.lt_succ_self n)
    intro t rest e h ht hrest limit' allowance'
    rw [expression_eq_chain] at h ⊢
    rcases outcome_chain_eq_matched.1 h with ⟨rfl, rfl, hmiss⟩ | ⟨head, tail, u, rfl, hhead, htail⟩
    · rw [Expression.nesting, within_zero]
      refine outcome_chain_eq_matched.2 (Or.inl ⟨rfl, rfl, ?_⟩)
      exact misses_operand_within hmiss hrest.not_leftParen
    · rw [Expression.nesting, nestingOfLinks_eq]
      have hu : u.CaseFree := ht.of_leads
        (((Tokenwise.operand allowance : Tokenwise limit false _).leads ht).1 head hhead)
      refine outcome_chain_within
        (outcome_operand_within hhead ht (htail.not_leftParen hrest) hinner) ?_
      refine outcome_many_within (advances_link advances_operator _) _ htail hu ?_ ?_ ?_
      · intro t u link ht hlink
        have hread : Tokenwise limit false
            (.link operator (operand limit (inside limit allowance))) :=
          .link .operator (.operand allowance)
        exact ht.of_leads ((hread.leads ht).1 link hlink)
      · refine misses_link_of_separator ⟨rest, outcome_operator_eq_missed.2 ⟨rfl, ?_⟩⟩
        exact fun kind v hv => (hrest kind v hv).2
      · rintro t u ⟨o, operand⟩ links ht hlink hlinks
        obtain ⟨v, hoperator, hoperand⟩ := outcome_link_eq_matched.1 hlink
        obtain ⟨kind, hkind, -⟩ := outcome_operator_eq_matched.1 hoperator
        have hv := ht.of_leads (Text.leads_of_token? hkind)
        exact outcome_link_within hoperator
          (outcome_operand_within hoperand hv (hlinks.not_leftParen hrest) hinner)

/-! ## Clauses -/

theorem endsChain_of_keywordAt {k : Keyword} (h : KeywordAt k t u) : EndsChain t := by
  obtain ⟨word, hword, hk⟩ := h
  intro kind v hv
  rw [hword] at hv
  cases hv
  exact ⟨by simp, ofWord?_of_keyword hk⟩

theorem endsChain_of_matchKindAt {k : MatchKind} (h : MatchKindAt k t u) : EndsChain t := by
  cases k with
  | required => exact endsChain_of_keywordAt h
  | optional => obtain ⟨v, hv, -⟩ := h; exact endsChain_of_keywordAt hv

/-- Where another keyword stands, no clause is opened. -/
theorem misses_matchClause_of_keywordAt {limit : Nat} {k : Keyword} (h : KeywordAt k t u)
    (hmatch : k ≠ .match_) (hoptional : k ≠ .optional) : (matchClause limit).Misses t := by
  refine misses_matchClause_of fun kind v hkind => ?_
  cases kind with
  | required => exact hmatch (h.unique hkind).1
  | optional => obtain ⟨w, hw, -⟩ := hkind; exact hoptional (h.unique hw).1

/-- Once the word `WHERE` is read, a condition is found. -/
theorem not_keywordAt_of_misses_whereClause {limit : Nat} (h : (whereClause limit).Misses t)
    (u : Text) : ¬KeywordAt .where_ t u := by
  intro hu
  obtain ⟨word, hword⟩ := matched_keyword_iff.2 hu
  obtain ⟨v, hv⟩ := h
  rw [whereClause, outcome_bind_of_matched hword] at hv
  rcases outcome_bind_eq_missed.1 hv with hv | ⟨found, w, -, hv⟩
  · exact absurd hv outcome_lookahead_ne_missed
  · cases found with
    | true => cases hv
    | false =>
      rw [if_neg (by simp), expression_eq_chain] at hv
      exact absurd hv outcome_chain_ne_missed

theorem outcome_whereClause_within {limit : Nat} {e : Expression} (limit' : Nat)
    (h : (whereClause limit).outcome t = .matched e rest) (ht : t.CaseFree)
    (hrest : EndsChain rest) :
    (whereClause limit').outcome t = .within (Expression.nesting e) limit' e rest := by
  obtain ⟨u, hkeyword, hcondition⟩ := outcome_whereClause_eq_matched.1 h
  obtain ⟨word, hword⟩ := matched_keyword_iff.2 hkeyword
  have hu : u.CaseFree := ht.of_leads (Text.leads_of_token? (outcome_keyword_eq_matched.1 hword).1)
  rw [whereClause, outcome_bind_of_matched hword]
  rcases hcondition with ⟨hclause, rfl, rfl⟩ | ⟨hclause, he⟩
  · rw [outcome_bind_of_matched (outcome_atClause_eq_matched.2 ⟨rfl, Or.inl ⟨rfl, hclause⟩⟩),
      if_pos rfl, Expression.nesting, within_zero, outcome_pure]
  · rw [outcome_bind_of_matched (outcome_atClause_eq_matched.2 ⟨rfl, Or.inr ⟨rfl, hclause⟩⟩),
      if_neg (by simp)]
    exact thresholds_expression limit limit he hu hrest limit' limit'

theorem outcome_matchClause_within {limit : Nat} {clause : MatchClause} (limit' : Nat)
    (h : (matchClause limit).outcome t = .matched clause rest) (ht : t.CaseFree)
    (hrest : EndsChain rest) :
    (matchClause limit').outcome t = .within clause.nesting limit' clause rest := by
  obtain ⟨u, v, hkind, hpaths, hcondition⟩ := outcome_matchClause_eq_matched.1 h
  have hopening : Tokenwise limit true matchKind := .matchKind
  have hpattern : Tokenwise limit true paths := .paths
  have hu : u.CaseFree :=
    ht.of_leads ((hopening.leads ht).1 _ (outcome_matchKind_eq_matched.2 hkind))
  have hv : v.CaseFree := hu.of_leads ((hpattern.leads hu).1 _ hpaths)
  rw [matchClause, outcome_bind_of_matched (outcome_matchKind_eq_matched.2 hkind),
    outcome_bind_of_matched hpaths]
  refine outcome_bind_within_matched (a := clause.condition) (u := rest) ?_ rfl
  rcases outcome_optional_eq_matched.1 hcondition with ⟨e, hsome, he⟩ | ⟨hnone, rfl, hmiss⟩
  · rw [MatchClause.nesting, hsome]
    exact outcome_optional_within (outcome_whereClause_within limit' he hv hrest)
  · rw [MatchClause.nesting, hnone, Option.map_none, Option.getD_none, within_zero]
    refine outcome_optional_eq_matched.2 (Or.inr ⟨rfl, rfl, misses_whereClause_of ?_⟩)
    exact not_keywordAt_of_misses_whereClause hmiss

theorem outcome_clauses_within {limit : Nat} {clauses : List MatchClause} (limit' : Nat)
    (h : (matchClause limit).Repeats t clauses rest) (ht : t.CaseFree)
    (hrest : KeywordAt .return_ rest u) : (many (matchClause limit')).outcome t =
      .within (deepest MatchClause.nesting clauses) limit' clauses rest := by
  refine outcome_many_within (advances_matchClause limit) _ h ht ?_ ?_ ?_
  · intro t u clause ht hclause
    exact ht.of_leads ((Tokenwise.matchClause.leads ht).1 clause hclause)
  · exact misses_matchClause_of_keywordAt hrest (by simp) (by simp)
  · intro t u clause clauses ht hclause hmore
    refine outcome_matchClause_within limit' hclause ht ?_
    -- a clause is followed by another one, or by `RETURN`
    cases hmore with
    | stop => exact endsChain_of_keywordAt hrest
    | step hnext _ =>
      obtain ⟨v, w, hkind, -, -⟩ := outcome_matchClause_eq_matched.1 hnext
      exact endsChain_of_matchKindAt hkind

/-! ## Items -/

/-- An item ends here: with a comma, or with the text. -/
def AtItemEnd (rest : Text) : Prop :=
  rest.dropBlanks = [] ∨ ∃ u, rest.token? = some (.symbol .comma, u)

theorem AtItemEnd.endsChain (h : AtItemEnd t) : EndsChain t := by
  rcases h with h | ⟨u, hu⟩
  · intro kind v hv
    rw [Text.token?, h] at hv
    cases hv
  · exact endsChain_of_symbol (by simp) rfl hu

theorem AtItemEnd.of_repeats {item : Production α} {links : List (Unit × α)}
    (h : (link (symbol .comma) item).Repeats t links rest) (hrest : rest.dropBlanks = []) :
    AtItemEnd t := by
  cases h with
  | stop => exact Or.inl hrest
  | step hlink _ =>
    obtain ⟨u, hcomma, -⟩ := outcome_link_eq_matched.1 hlink
    exact Or.inr ⟨u, outcome_symbol_eq_matched.1 hcomma⟩

theorem outcome_returnItem_within {limit : Nat} {item : ReturnItem} (limit' : Nat)
    (h : (returnItem limit).outcome t = .matched item rest) (ht : t.CaseFree)
    (hrest : AtItemEnd rest) :
    (returnItem limit').outcome t = .within item.nesting limit' item rest := by
  obtain ⟨u, he, halias⟩ := outcome_returnItem_eq_matched.1 h
  have hu : EndsChain u := by
    rcases outcome_optional_eq_matched.1 halias with ⟨name, -, hname⟩ | ⟨-, rfl, -⟩
    · obtain ⟨v, hv, -⟩ := outcome_aliasName_eq_matched.1 hname
      exact endsChain_of_keywordAt hv
    · exact hrest.endsChain
  rw [returnItem]
  refine outcome_bind_within_matched (thresholds_expression limit limit he ht hu limit' limit') ?_
  rw [outcome_bind_of_matched halias]
  rfl

theorem deepest_map_snd {β : Type} (depthOf : α → Nat) (links : List (β × α)) :
    deepest depthOf (links.map Prod.snd) = deepest (fun link => depthOf link.2) links := by
  induction links with
  | nil => rfl
  | cons link links ih => simp only [List.map_cons, deepest, ih]

/-- An item that is dropped has no depth. -/
theorem deepest_dropLoneBlank {depthOf : α → Nat} {isBlank : α → Bool}
    (hblank : ∀ a, isBlank a = true → depthOf a = 0) (a : α) (as : List α) :
    deepest depthOf (dropLoneBlank isBlank (a :: as)) = deepest depthOf (a :: as) := by
  rcases dropLoneBlank_cons isBlank a as with ⟨hkeep, -⟩ | ⟨hdrop, rfl, ha⟩
  · rw [hkeep]
  · simp only [hdrop, deepest, hblank a ha, Nat.max_zero]

theorem outcome_returns_within {limit : Nat} {items : List ReturnItem} (limit' : Nat)
    (h : (commaList ReturnItem.isBlank (returnItem limit)).outcome t = .matched items rest)
    (ht : t.CaseFree) (hrest : rest.dropBlanks = []) :
    (commaList ReturnItem.isBlank (returnItem limit')).outcome t =
      .within (deepest ReturnItem.nesting items) limit' items rest := by
  have hblank : ∀ item : ReturnItem, item.isBlank = true → item.nesting = 0 := by
    intro item hitem
    rw [ReturnItem.isBlank, Bool.and_eq_true, Chain.isEmpty_iff] at hitem
    rw [ReturnItem.nesting, hitem.1, Expression.nesting]
  have hitem : Tokenwise limit false (returnItem limit) := .returnItem
  have hlink : Tokenwise limit false (link (symbol .comma) (returnItem limit)) :=
    .link (.symbol (by simp)) hitem
  rcases outcome_commaList_eq_matched.1 h with ⟨-, -, u, hmiss⟩ | ⟨head, tail, u, rfl, hhead, htail⟩
  · -- an item is always found, if need be a blank one
    rcases outcome_bind_eq_missed.1 hmiss with hmiss | ⟨e, v, -, hmiss⟩
    · rw [expression_eq_chain] at hmiss
      exact absurd hmiss outcome_chain_ne_missed
    · rcases outcome_bind_eq_missed.1 hmiss with hmiss | ⟨name, w, -, hmiss⟩
      · exact absurd hmiss outcome_maybe_ne_missed
      · cases hmiss
  · rw [deepest_dropLoneBlank hblank, deepest, deepest_map_snd]
    have hu : u.CaseFree := ht.of_leads ((hitem.leads ht).1 head hhead)
    refine outcome_commaList_within
      (outcome_returnItem_within limit' hhead ht (.of_repeats htail hrest)) ?_
    refine outcome_many_within (advances_link (advances_symbol _) _) _ htail hu ?_ ?_ ?_
    · intro t u x ht hx
      exact ht.of_leads ((hlink.leads ht).1 x hx)
    · refine misses_link_of_separator ⟨rest, outcome_symbol_eq_missed.2 ⟨rfl, fun v hv => ?_⟩⟩
      rw [Text.token?, hrest] at hv
      cases hv
    · rintro t u ⟨⟨⟩, item⟩ links ht hx hmore
      obtain ⟨v, hcomma, hi⟩ := outcome_link_eq_matched.1 hx
      have hv := ht.of_leads (Text.leads_of_token? (outcome_symbol_eq_matched.1 hcomma))
      exact outcome_link_within hcomma
        (outcome_returnItem_within limit' hi hv (.of_repeats hmore hrest))

/-! ## Queries -/

/-- A query that matched still matches under another limit, or is given up. -/
theorem outcome_query_within {limit : Nat} {q : Query} (limit' : Nat)
    (h : (query limit).outcome t = .matched q rest) (hstart : ∀ u, ¬KeywordAt .start t u)
    (ht : t.CaseFree) : (query limit').outcome t = .within q.nesting limit' q rest := by
  obtain ⟨t₁, t₂, t₃, h₁, hclauses, hreturn, hitems, hend⟩ := outcome_query_eq_matched.1 h
  rcases outcome_optional_eq_matched.1 h₁ with ⟨body, -, hbody⟩ | ⟨hnone, rfl, -⟩
  · obtain ⟨u, before, hu, -⟩ := outcome_startClause_eq_matched.1 hbody
    exact absurd hu (hstart u)
  obtain ⟨word, hword⟩ := matched_keyword_iff.2 hreturn
  have hmany : Tokenwise limit true (many (matchClause limit)) := .clauses
  have ht₂ : t₂.CaseFree := ht.of_leads
    ((hmany.leads ht).1 _ ((outcome_many_eq_matched (advances_matchClause limit)).2 hclauses))
  have ht₃ : t₃.CaseFree :=
    ht₂.of_leads (Text.leads_of_token? (outcome_keyword_eq_matched.1 hword).1)
  have hbody : (body limit').outcome t₁ = .within q.nesting limit' (q.clauses, q.returns) rest := by
    refine outcome_bind_within (outcome_clauses_within limit' hclauses ht hreturn) ?_
    rw [outcome_bind_of_matched hword]
    exact outcome_bind_within_matched (outcome_returns_within limit' hitems ht₃ hend) rfl
  obtain ⟨start, clauses, returns⟩ := q
  rw [outcome_query_of_not_start hstart, hbody, Outcome.within, Outcome.within]
  obtain rfl : start = none := hnone
  split
  · simp only [Outcome.andThen, hend, if_true]
  · rfl

end Production

/-! ## The limit -/

namespace Query

open Production

/-- Reading that gives up reports the limit, and no alternatives. -/
theorem parse_of_gaveUp {limit : Nat} {source : Text} (hstart : ∀ u, ¬KeywordAt .start source u)
    (h : (Production.query limit).outcome source = .gaveUp) :
    ∃ span, parse limit source = .error (.nestingTooDeep limit span) := by
  obtain ⟨_, _, hmem⟩ := outcome_eq_gaveUp_iff.1 h
  obtain ⟨l, ahead, hdeep, hreport⟩ := Note.report_of_tooDeep source hmem
  have hlimit : l = limit := by
    rw [notes_query_of_not_start hstart] at hdeep
    rcases List.mem_cons.1 hdeep with hdeep | hdeep
    · cases hdeep
    rcases List.mem_append.1 hdeep with hdeep | hdeep
    · exact (Tokenwise.body limit).ordinary _ hdeep
    · cases hb : (body limit).outcome source with
      | matched parts rest =>
        rw [hb] at hdeep
        cases (mem_notes_endOfInput.1 hdeep).1
      | missed rest => rw [hb] at hdeep; cases hdeep
      | gaveUp => rw [hb] at hdeep; cases hdeep
  rw [parse_eq, h]
  simp only [hreport, hlimit]
  exact ⟨_, rfl⟩

/-- The limit is an exact threshold: a text that is read as a query under one limit is read
    as the same query under every limit that its nesting fits, and under every other one it
    is refused for its nesting. -/
theorem parse_of_nesting {limit : Nat} {source : Text} {q : Query}
    (h : parse limit source = .ok q)
    (hstart : ∀ token ∈ (tokenize source).tokens.head?,
      token.kind.isWord Keyword.start.written = false)
    (hcase : ∀ token ∈ (tokenize source).tokens,
      token.kind.isWord Keyword.case_.written = false) (limit' : Nat) :
    (q.nesting ≤ limit' → parse limit' source = .ok q) ∧
    (limit' < q.nesting → ∃ error, parse limit' source = .error error ∧
      error.cause = .nestingTooDeep limit' ∧
      error.message = "expression nesting exceeds the limit of ".toList ++ Text.ofNat limit' ∧
      error.alternatives = []) := by
  obtain ⟨rest, hmatched⟩ := parse_eq_ok_iff.1 h
  have hfirst := Text.not_keywordAt_start_of_tokens hstart
  have hfree : source.CaseFree := Text.caseFree_of_tokens (c := .start source) hcase
  have houtcome := outcome_query_within limit' hmatched hfirst hfree
  constructor
  · intro hfits
    rw [Outcome.within, if_pos hfits] at houtcome
    exact parse_eq_ok_iff.2 ⟨rest, houtcome⟩
  · intro hdeep
    rw [Outcome.within, if_neg (Nat.not_le.2 hdeep)] at houtcome
    obtain ⟨span, herror⟩ := parse_of_gaveUp hfirst houtcome
    exact ⟨_, herror, rfl, rfl, rfl⟩

/-- A call in a group is nested two deep: it is read under the limit two, and refused under
    the limit one. -/
theorem parse_of_nesting_two :
    let source := "RETURN (count(DISTINCT a)), b".toList
    (∃ q : Query, q.nesting = 2 ∧ parse 9 source = .ok q ∧ parse 2 source = .ok q) ∧
      ∃ error, parse 1 source = .error error ∧ error.cause = .nestingTooDeep 1 := by
  intro source
  let q : Query := ⟨none, [], [⟨.cons (.group (.cons (.call "count".toList true
    (.cons (.identifier ['a']) [])) [])) [], none⟩, ⟨.cons (.identifier ['b']) [], none⟩]⟩
  have h : parse 9 source = .ok q := by decide +kernel
  have hstart : ∀ token ∈ (tokenize source).tokens.head?,
      token.kind.isWord Keyword.start.written = false := by decide +kernel
  have hcase : ∀ token ∈ (tokenize source).tokens,
      token.kind.isWord Keyword.case_.written = false := by decide +kernel
  have hnesting : q.nesting = 2 := by decide +kernel
  have htwo := (parse_of_nesting h hstart hcase 2).1 (by rw [hnesting])
  obtain ⟨error, herror, hcause, -⟩ :=
    (parse_of_nesting h hstart hcase 1).2 (by rw [hnesting]; omega)
  exact ⟨⟨q, hnesting, h, htwo⟩, error, herror, hcause⟩

end Query

end Cypher
