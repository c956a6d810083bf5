/-
  Validity — what is read is a query of the right shape.

  * `expressionFrom_of_matched`: the operands of an expression that was read have their
    shapes, at any nesting, and its verbatim parts stand in the text;
  * `wellShaped_path`, `wellShaped_matchClause`, `wellShaped_returnItem`: so have the other
    parts of a query;
  * `Query.wellShaped_of_parse`, `Query.fitsTogether_of_parse`: a query that was read has its
    shape, and its parts fit together.
-/
import Cypher.Proofs.QueryText

namespace Cypher

namespace Production

/-! ## Tokens -/

theorem isName_of_token? {t name rest : Text} (h : t.token? = some (.identifier name, rest)) :
    name.isName = true :=
  Text.wellFormed_of_token? h

theorem isQuotableText_of_nameOrQuoted {t text rest : Text}
    (h : nameOrQuoted.outcome t = .matched text rest) : text.isQuotableText = true := by
  rcases outcome_nameOrQuoted_eq_matched.1 h with h | h
  · exact Text.wellFormed_of_token? h
  · exact Text.isQuotableText_of_isName (isName_of_token? h)

theorem isNumber_of_number {t text rest : Text} (h : number.outcome t = .matched text rest) :
    text.IsNumber := by
  rcases outcome_number_eq_matched.1 h with h | ⟨u, digits, rfl, -, h⟩
  · exact Or.inl (Text.wellFormed_of_token? h)
  · exact Or.inr ⟨digits, rfl, Text.wellFormed_of_token? (Text.adjacentToken?_eq_some_iff.1 h).2⟩

/-! ## Repetitions -/

section Repetitions

variable {α : Type} {p : Production α} {Q : Text → α → Prop} {t rest : Text}

-- `Q` may speak of the text from which a value is read, if it holds of a text when it
-- holds of a suffix of it

/-- A property of the values that `p` reads holds of all values of a repetition. -/
theorem Repeats.forall_mem (hmono : ∀ ⦃t u : Text⦄ ⦃a : α⦄, u <:+ t → Q u a → Q t a)
    (hp : ∀ ⦃t rest : Text⦄ ⦃a : α⦄, p.outcome t = .matched a rest → Q t a) {as : List α}
    (h : p.Repeats t as rest) : ∀ a ∈ as, Q t a := by
  induction h with
  | stop => simp
  | step ha _ ih =>
    exact List.forall_mem_cons.2 ⟨hp ha, fun a hmem => hmono (suffix_of_matched ha) (ih a hmem)⟩

theorem Repeats.forall_mem_links {β : Type} {separator : Production β}
    (hmono : ∀ ⦃t u : Text⦄ ⦃a : α⦄, u <:+ t → Q u a → Q t a)
    (hp : ∀ ⦃t rest : Text⦄ ⦃a : α⦄, p.outcome t = .matched a rest → Q t a) {as : List (β × α)}
    (h : (link separator p).Repeats t as rest) : ∀ a ∈ as.map Prod.snd, Q t a := by
  intro a ha
  obtain ⟨x, hx, rfl⟩ := List.mem_map.1 ha
  refine h.forall_mem (Q := fun t (x : β × α) => Q t x.2) (fun _ _ _ hu hQ => hmono hu hQ) ?_ x hx
  intro t rest x hx
  obtain ⟨v, hseparator, hitem⟩ := outcome_link_eq_matched.1 hx
  exact hmono (suffix_of_matched hseparator) (hp hitem)

theorem forall_operands_of_chain (hmono : ∀ ⦃t u : Text⦄ ⦃a : α⦄, u <:+ t → Q u a → Q t a)
    (hp : ∀ ⦃t rest : Text⦄ ⦃a : α⦄, p.outcome t = .matched a rest → Q t a) {c : Chain α}
    (h : (chain p).outcome t = .matched c rest) : ∀ a ∈ c.operands, Q t a := by
  rcases outcome_chain_eq_matched.1 h with ⟨rfl, -⟩ | ⟨head, tail, u, rfl, hhead, htail⟩
  · simp [Chain.operands]
  · exact List.forall_mem_cons.2 ⟨hp hhead, fun a ha =>
      hmono (suffix_of_matched hhead) (htail.forall_mem_links hmono hp a ha)⟩

theorem mem_of_mem_dropLoneBlank {isBlank : α → Bool} {as : List α} {a : α}
    (h : a ∈ dropLoneBlank isBlank as) : a ∈ as := by
  cases as with
  | nil => exact h
  | cons b bs =>
    rcases dropLoneBlank_cons isBlank b bs with ⟨hkeep, -⟩ | ⟨hdrop, -⟩
    · rwa [hkeep] at h
    · rw [hdrop] at h
      cases h

theorem forall_mem_of_commaList {isBlank : α → Bool}
    (hmono : ∀ ⦃t u : Text⦄ ⦃a : α⦄, u <:+ t → Q u a → Q t a)
    (hp : ∀ ⦃t rest : Text⦄ ⦃a : α⦄, p.outcome t = .matched a rest → Q t a) {as : List α}
    (h : (commaList isBlank p).outcome t = .matched as rest) : ∀ a ∈ as, Q t a := by
  rcases outcome_commaList_eq_matched.1 h with ⟨rfl, -⟩ | ⟨head, tail, u, rfl, hhead, htail⟩
  · simp
  · intro a ha
    rcases List.mem_cons.1 (mem_of_mem_dropLoneBlank ha) with rfl | ha
    · exact hp hhead
    · exact hmono (suffix_of_matched hhead) (htail.forall_mem_links hmono hp a ha)

/-- A list with commas is never one blank item. -/
theorem not_lone_blank_of_commaList {isBlank : α → Bool} {as : List α}
    (h : (commaList isBlank p).outcome t = .matched as rest) :
    ∀ a, as = [a] → isBlank a = false := by
  rintro a rfl
  rcases outcome_commaList_eq_matched.1 h with ⟨h, -⟩ | ⟨head, tail, u, h, -⟩
  · cases h
  · exact (dropLoneBlank_eq_cons_iff.1 h.symm).2 rfl

end Repetitions

/-! ## Expressions -/

/-- The operand at the place has its shape, and stands in `source` if it is verbatim. -/
def ShapedFrom (source : Text) (place : Place) : Prop :=
  place.operand.WellShaped ∧ ∀ text, place.operand = .case_ text → text <:+: source

theorem ShapedFrom.mono {t u : Text} {place : Place} (h : ShapedFrom u place) (hu : u <:+ t) :
    ShapedFrom t place :=
  ⟨h.1, fun text heq => (h.2 text heq).trans hu.isInfix⟩

theorem forall_places_of_operands {P : Place → Prop} {e : Expression}
    (h : ∀ o ∈ e.operands, ∀ depth after, ∀ place ∈ o.places depth after, P place)
    (depth : Nat) (after : Text) : ∀ place ∈ Expression.places depth after e, P place := by
  cases e with
  | empty => simp [Expression.places]
  | cons head tail =>
    rw [Chain.operands, List.forall_mem_cons] at h
    rw [Expression.places, List.forall_mem_append]
    refine ⟨h.1 depth _, ?_⟩
    replace h := h.2
    induction tail with
    | nil => simp [Operand.placesOfLinks]
    | cons link links ih =>
      rw [List.map_cons, List.forall_mem_cons] at h
      rw [Operand.placesOfLinks, List.forall_mem_append]
      exact ⟨h.1 depth _, ih h.2⟩

theorem nesting_le_of_operands {n : Nat} {e : Expression} (h : ∀ o ∈ e.operands, o.nesting ≤ n) :
    Expression.nesting e ≤ n := by
  cases e with
  | empty => exact Nat.zero_le n
  | cons head tail =>
    rw [Chain.operands, List.forall_mem_cons] at h
    rw [Expression.nesting, Nat.max_le]
    refine ⟨h.1, ?_⟩
    replace h := h.2
    induction tail with
    | nil => exact Nat.zero_le n
    | cons link links ih =>
      rw [List.map_cons, List.forall_mem_cons] at h
      rw [Operand.nestingOfLinks, Nat.max_le]
      exact ⟨h.1, ih h.2⟩

/-- The text of a verbatim expression is one, and stands where it was read. -/
theorem isCase_of_split {t word u before ending : Text}
    (hword : t.token? = some (.identifier word, u))
    (hcase : word.eqIgnoringCase Keyword.case_.written = true)
    (hsplit : Text.splitAtWord? Keyword.end_.written u = some (before, ending)) :
    Text.IsCase (word ++ (before ++ ending.take Keyword.end_.written.length)) ∧
      word ++ (before ++ ending.take Keyword.end_.written.length) <:+: t := by
  obtain ⟨hlen, hrest⟩ := Text.splitAtWord?_ending hsplit
  have hu : u = before ++ (ending.take Keyword.end_.written.length ++
      ending.drop Keyword.end_.written.length) := by
    rw [List.take_append_drop]
    exact (Text.splitAtStartFrom?_eq_some hsplit).1
  constructor
  · refine ⟨word, _, before, _, rfl, hcase, (notNext_of_split hword hsplit).1, ?_, hlen⟩
    have hne : ending.take Keyword.end_.written.length ≠ [] := by
      intro hnil; rw [hnil] at hlen; cases hlen
    rw [← Text.splitAtWord?_append_iff (Text.isWord_written .end_) hne hrest, ← hu,
      List.take_append_drop]
    exact hsplit
  · refine List.IsInfix.trans ?_ (Text.dropBlanks_suffix t).isInfix
    rw [Text.dropBlanks_of_token? hword, TokenKind.written, hu]
    exact ⟨[], ending.drop Keyword.end_.written.length, by simp⟩

/-- The word with which an operand begins is the next token where it is read. -/
theorem token?_of_leadingWord? {limit : Nat} {inside : Option (Unit → Production Expression)}
    {t rest word : Text} {o : Operand} (h : (operand limit inside).outcome t = .matched o rest)
    (hword : o.leadingWord? = some word) : ∃ u, t.token? = some (.identifier word, u) := by
  cases operandReading_of_matched h with
  | call hname => cases hword; exact ⟨_, hname⟩
  | property howner => cases hword; exact ⟨_, howner⟩
  | identifier hname => cases hword; exact ⟨_, hname⟩
  | _ => cases hword

theorem keywordAt_of_startsWith {limit allowance : Nat} {t rest : Text} {e : Expression}
    {k : Keyword} (h : (expression limit allowance).outcome t = .matched e rest)
    (hk : Expression.startsWith k e = true) : ∃ u, KeywordAt k t u := by
  rw [expression_eq_chain] at h
  rcases outcome_chain_eq_matched.1 h with ⟨rfl, -⟩ | ⟨head, tail, v, rfl, hhead, -⟩
  · cases hk
  · obtain ⟨word, hlead, hword⟩ := (Option.any_eq_true _ _).1 hk
    obtain ⟨u, hu⟩ := token?_of_leadingWord? hhead hlead
    exact ⟨u, word, hu, hword⟩

/-- The operands of the expression have their shapes, wherever it stands, and it is
    nested at most `allowance` deep. -/
def ExpressionFrom (source : Text) (allowance : Nat) (e : Expression) : Prop :=
  (∀ depth after, ∀ place ∈ Expression.places depth after e, ShapedFrom source place) ∧
    Expression.nesting e ≤ allowance

theorem ExpressionFrom.mono {t u : Text} {allowance : Nat} {e : Expression}
    (h : ExpressionFrom u allowance e) (hu : u <:+ t) : ExpressionFrom t allowance e :=
  ⟨fun depth after place hplace => (h.1 depth after place hplace).mono hu, h.2⟩

theorem shapedFrom_atom {t : Text} {o : Operand} {allowance : Nat}
    (hatom : ∀ depth after, o.places depth after = [⟨o, depth, after⟩]) (hnesting : o.nesting = 0)
    (hshape : o.WellShaped) (hverbatim : ∀ text, o = .case_ text → text <:+: t) :
    (∀ depth after, ∀ place ∈ o.places depth after, ShapedFrom t place) ∧
      o.nesting ≤ allowance := by
  refine ⟨fun depth after => ?_, hnesting ▸ Nat.zero_le _⟩
  rw [hatom, List.forall_mem_singleton]
  exact ⟨hshape, hverbatim⟩

theorem shapedFrom_operand {limit allowance : Nat} {t rest : Text} {o : Operand}
    (ih : ∀ n < allowance, ∀ {t rest : Text} {e : Expression},
      (expression limit n).outcome t = .matched e rest → ExpressionFrom t n e)
    (h : (operand limit (inside limit allowance)).outcome t = .matched o rest) :
    (∀ depth after, ∀ place ∈ o.places depth after, ShapedFrom t place) ∧
      o.nesting ≤ allowance := by
  cases operandReading_of_matched h with
  | call hname hleft hinside hdistinct harguments hright =>
    rename_i name t₁ t₂ t₃ t₄ inner distinct arguments
    obtain ⟨n, rfl, hinner⟩ := inside_eq_some hinside
    rw [hinner] at harguments
    obtain ⟨hplaces, hnesting⟩ := ih n (Nat.lt_succ_self n) harguments
    have hsuffix : t₃ <:+ t := (suffix_of_matched hdistinct).trans
      ((Text.suffix_of_token? hleft).trans (Text.suffix_of_token? hname))
    refine ⟨fun depth after => ?_, by rw [Operand.nesting]; omega⟩
    rw [Operand.places, List.forall_mem_cons]
    refine ⟨⟨⟨isName_of_token? hname, arguments.alternates, fun hnone => ?_⟩, by simp⟩,
      fun place hplace => (hplaces _ _ place hplace).mono hsuffix⟩
    -- the word `DISTINCT` was looked for where the arguments begin
    by_contra hstarts
    obtain ⟨u, word, hu, hword⟩ := keywordAt_of_startsWith harguments (by simpa using hstarts)
    rcases outcome_maybe_distinct_eq_matched.1 hdistinct with ⟨w, rfl, -⟩ | ⟨-, rfl, hmiss⟩
    · cases hnone
    · rw [hmiss word u hu] at hword; cases hword
  | case_ hword hcase hsplit =>
    obtain ⟨hshape, hinfix⟩ := isCase_of_split hword hcase hsplit
    exact shapedFrom_atom (by simp [Operand.places]) (by simp [Operand.nesting]) hshape
      fun text heq => by cases heq; exact hinfix
  | group hleft hinside hinner hright =>
    obtain ⟨n, rfl, heq⟩ := inside_eq_some hinside
    rw [heq] at hinner
    obtain ⟨hplaces, hnesting⟩ := ih n (Nat.lt_succ_self n) hinner
    refine ⟨fun depth after => ?_, by rw [Operand.nesting]; omega⟩
    rw [Operand.places, List.forall_mem_cons]
    exact ⟨⟨Chain.alternates _, by simp⟩,
      fun place hplace => (hplaces _ _ place hplace).mono (Text.suffix_of_token? hleft)⟩
  | property howner hdot hname hcase =>
    exact shapedFrom_atom (by simp [Operand.places]) (by simp [Operand.nesting])
      ⟨isName_of_token? howner, isQuotableText_of_nameOrQuoted hname⟩ (by simp)
  | literal hword hliteral =>
    exact shapedFrom_atom (by simp [Operand.places]) (by simp [Operand.nesting]) trivial (by simp)
  | identifier hname hliteral hcase =>
    exact shapedFrom_atom (by simp [Operand.places]) (by simp [Operand.nesting])
      ⟨isName_of_token? hname, hliteral⟩ (by simp)
  | string hvalue =>
    exact shapedFrom_atom (by simp [Operand.places]) (by simp [Operand.nesting])
      (Text.wellFormed_of_token? hvalue) (by simp)
  | number htext =>
    exact shapedFrom_atom (by simp [Operand.places]) (by simp [Operand.nesting])
      (isNumber_of_number htext) (by simp)
  | wildcard hstar =>
    exact shapedFrom_atom (by simp [Operand.places]) (by simp [Operand.nesting]) trivial (by simp)

theorem expressionFrom_of_matched {limit allowance : Nat} {t rest : Text} {e : Expression}
    (h : (expression limit allowance).outcome t = .matched e rest) :
    ExpressionFrom t allowance e := by
  induction allowance using Nat.strongRecOn generalizing t rest e with
  | ind allowance ih =>
    rw [expression_eq_chain] at h
    have hall := forall_operands_of_chain
      (Q := fun t o => (∀ depth after, ∀ place ∈ o.places depth after, ShapedFrom t place) ∧
        o.nesting ≤ allowance)
      (fun _ _ _ hu hQ =>
        ⟨fun depth after place hplace => (hQ.1 depth after place hplace).mono hu, hQ.2⟩)
      (fun _ _ _ hp => shapedFrom_operand ih hp) h
    exact ⟨forall_places_of_operands fun o ho => (hall o ho).1,
      nesting_le_of_operands fun o ho => (hall o ho).2⟩

/-! ## Patterns -/

theorem labelledWellShaped_of_matched {t t₂ t₃ name : Text} {labels : Option Labels}
    (hname : t.token? = some (.identifier name, t₂))
    (hlabels : (maybe Production.labels).outcome t₂ = .matched labels t₃) :
    LabelledWellShaped name labels := by
  refine ⟨isName_of_token? hname, fun chain hchain => ⟨chain.alternates, ?_⟩⟩
  rcases outcome_maybe_labels_eq_matched.1 hlabels with ⟨c, u, rfl, -, hc⟩ | ⟨rfl, -⟩
  · cases hchain
    exact forall_operands_of_chain (Q := fun _ label => Text.isQuotableText label = true)
      (fun _ _ _ _ hQ => hQ) (fun _ _ _ h => isQuotableText_of_nameOrQuoted h) hc
  · cases hchain

theorem labelledWellShaped_node {t rest : Text} {n : Node} (h : node.outcome t = .matched n rest) :
    LabelledWellShaped n.name n.labels := by
  obtain ⟨t₁, t₂, t₃, -, hname, hlabels, -⟩ := outcome_node_eq_matched.1 h
  exact labelledWellShaped_of_matched hname hlabels

theorem labelledWellShaped_edge {t rest : Text} {e : Edge} (h : edge.outcome t = .matched e rest) :
    LabelledWellShaped e.relationship.name e.relationship.types := by
  obtain ⟨u, v, -, hr, -⟩ := outcome_edge_eq_matched.1 h
  obtain ⟨t₁, t₂, t₃, -, hname, hlabels, -⟩ := outcome_relationship_eq_matched.1 hr
  exact labelledWellShaped_of_matched hname hlabels

theorem wellShaped_path {t rest : Text} {p : Path} (h : path.outcome t = .matched p rest) :
    p.WellShaped := by
  rcases outcome_path_eq_matched.1 h with ⟨rfl, -⟩ | ⟨start, steps, u, rfl, hstart, hsteps⟩
  · exact ⟨fun _ => rfl, by simp [Path.nodes, Path.empty], by simp [Path.edges, Path.empty]⟩
  · have hall := hsteps.forall_mem (Q := fun _ (s : Step) =>
        LabelledWellShaped s.edge.relationship.name s.edge.relationship.types ∧
          LabelledWellShaped s.node.name s.node.labels) (fun _ _ _ _ h => h) fun _ _ _ hs => by
      obtain ⟨v, he, hn⟩ := outcome_step_eq_matched.1 hs
      exact ⟨labelledWellShaped_edge he, labelledWellShaped_node hn⟩
    refine ⟨by simp, ?_, ?_⟩
    · simp only [Path.nodes, Option.toList_some, List.singleton_append, List.forall_mem_cons]
      refine ⟨labelledWellShaped_node hstart, fun n hn => ?_⟩
      obtain ⟨s, hs, rfl⟩ := List.mem_map.1 hn
      exact (hall s hs).2
    · intro e he
      obtain ⟨s, hs, rfl⟩ := List.mem_map.1 he
      exact (hall s hs).1

/-! ## Clauses and items -/

theorem expressionFrom_condition {limit : Nat} {t rest : Text} {e : Expression}
    (h : (whereClause limit).outcome t = .matched e rest) : ExpressionFrom t limit e ∧
      Expression.startsWith .match_ e = false ∧ Expression.startsWith .return_ e = false := by
  obtain ⟨u, ⟨word, hu, -⟩, ⟨-, rfl, -⟩ | ⟨hno, he⟩⟩ := outcome_whereClause_eq_matched.1 h
  · exact ⟨⟨by simp [Expression.places], Nat.zero_le _⟩, rfl, rfl⟩
  · refine ⟨(expressionFrom_of_matched he).mono (Text.suffix_of_token? hu), ?_, ?_⟩
    · by_contra hstarts
      obtain ⟨v, hv⟩ := keywordAt_of_startsWith he (by simpa using hstarts)
      exact hno (Or.inl ⟨.required, v, hv⟩)
    · by_contra hstarts
      obtain ⟨v, hv⟩ := keywordAt_of_startsWith he (by simpa using hstarts)
      exact hno (Or.inr ⟨v, hv⟩)

theorem matched_of_mem_optional {α : Type} {p : Production α} {t rest : Text} {o : Option α} {a : α}
    (h : (optional p).outcome t = .matched o rest) (ha : a ∈ o) :
    p.outcome t = .matched a rest := by
  rcases outcome_optional_eq_matched.1 h with ⟨a', rfl, hp⟩ | ⟨rfl, -⟩
  · cases ha
    exact hp
  · cases ha

theorem wellShaped_matchClause {limit : Nat} {t rest : Text} {clause : MatchClause}
    (h : (matchClause limit).outcome t = .matched clause rest) : clause.WellShaped ∧
      ∀ e ∈ clause.condition, ExpressionFrom t limit e := by
  obtain ⟨u, v, hkind, hpaths, hcondition⟩ := outcome_matchClause_eq_matched.1 h
  refine ⟨⟨forall_mem_of_commaList (Q := fun _ path => path.WellShaped) (fun _ _ _ _ h => h)
      (fun _ _ _ h => wellShaped_path h) hpaths, not_lone_blank_of_commaList hpaths,
    fun e he => ⟨e.alternates, ?_⟩⟩, fun e he => ?_⟩
  · exact (expressionFrom_condition (matched_of_mem_optional hcondition he)).2
  · exact (expressionFrom_condition (matched_of_mem_optional hcondition he)).1.mono
      ((suffix_of_matched hpaths).trans hkind.suffix)

/-- A name is never passed over where an operand is looked for. -/
theorem not_misses_operand_of_identifier {limit : Nat}
    {inside : Option (Unit → Production Expression)} {t name u : Text}
    (h : t.token? = some (.identifier name, u)) : ¬(operand limit inside).Misses t := by
  rw [operand, misses_orElse_iff (stays_attempt _), misses_orElse_iff (stays_attempt _),
    misses_orElse_iff (stays_attempt _), misses_orElse_iff (stays_attempt _),
    misses_orElse_iff (stays_map stays_literal _), misses_orElse_iff (stays_map stays_identifier _),
    misses_map_iff, misses_map_iff]
  rintro ⟨-, -, -, -, -, ⟨v, hv⟩, -⟩
  exact (outcome_identifier_eq_missed.1 hv).2 name u h

theorem wellShaped_returnItem {limit : Nat} {t rest : Text} {item : ReturnItem}
    (h : (returnItem limit).outcome t = .matched item rest) :
    item.WellShaped ∧ ExpressionFrom t limit item.expression := by
  obtain ⟨u, he, halias⟩ := outcome_returnItem_eq_matched.1 h
  refine ⟨⟨item.expression.alternates, fun name hname => ?_⟩, expressionFrom_of_matched he⟩
  rcases outcome_optional_eq_matched.1 halias with ⟨name', hsome, halias⟩ | ⟨hnone, -⟩
  · rw [hsome] at hname
    cases hname
    obtain ⟨v, ⟨word, hword, -⟩, hname⟩ := outcome_aliasName_eq_matched.1 halias
    refine ⟨isQuotableText_of_nameOrQuoted hname, ?_⟩
    -- without an expression, the word `AS` would have been read as an operand
    rw [expression_eq_chain] at he
    rcases outcome_chain_eq_matched.1 he with ⟨-, rfl, hmiss⟩ | ⟨head, tail, w, heq, -⟩
    · exact absurd hmiss (not_misses_operand_of_identifier hword)
    · rw [heq]; rfl
  · rw [hnone] at hname
    cases hname

theorem wellShaped_clauses {limit : Nat} {t rest : Text} {clauses : List MatchClause}
    (h : (matchClause limit).Repeats t clauses rest) : ∀ clause ∈ clauses, clause.WellShaped ∧
      ∀ e ∈ clause.condition, ExpressionFrom t limit e :=
  h.forall_mem (Q := fun t (clause : MatchClause) => clause.WellShaped ∧
      ∀ e ∈ clause.condition, ExpressionFrom t limit e)
    (fun _ _ _ hu hQ => ⟨hQ.1, fun e he => (hQ.2 e he).mono hu⟩)
    fun _ _ _ h => wellShaped_matchClause h

theorem wellShaped_items {limit : Nat} {t rest : Text} {items : List ReturnItem}
    (h : (commaList ReturnItem.isBlank (returnItem limit)).outcome t = .matched items rest) :
    ∀ item ∈ items, item.WellShaped ∧ ExpressionFrom t limit item.expression :=
  forall_mem_of_commaList (Q := fun t (item : ReturnItem) =>
      item.WellShaped ∧ ExpressionFrom t limit item.expression)
    (fun _ _ _ hu hQ => ⟨hQ.1, hQ.2.mono hu⟩) (fun _ _ _ h => wellShaped_returnItem h) h

theorem shapedFrom_clauses {t : Text} {limit : Nat} {clauses : List MatchClause}
    (h : ∀ clause ∈ clauses, ∀ e ∈ clause.condition, ExpressionFrom t limit e) (after : Text) :
    ∀ place ∈ placesOfClauses after clauses, ShapedFrom t place := by
  induction clauses with
  | nil => simp [placesOfClauses]
  | cons clause clauses ih =>
    rw [List.forall_mem_cons] at h
    rw [placesOfClauses, List.forall_mem_append]
    refine ⟨?_, ih h.2⟩
    cases hcondition : clause.condition with
    | none => simp
    | some e => exact (h.1 e hcondition).1 0 _

theorem shapedFrom_items {t : Text} {limit : Nat} {items : List ReturnItem}
    (h : ∀ item ∈ items, ExpressionFrom t limit item.expression) :
    ∀ place ∈ placesOfItems items, ShapedFrom t place := by
  induction items with
  | nil => simp [placesOfItems]
  | cons item items ih =>
    rw [List.forall_mem_cons] at h
    rw [placesOfItems, List.forall_mem_append]
    exact ⟨h.1.1 0 _, ih h.2⟩

/-! ## Neighbours -/

/-- After a condition that is nothing but `OPTIONAL` no `MATCH` comes next: the two
    words would have been read as the start of a clause. -/
theorem not_keywordAt_match_of_endsInOptional {limit : Nat} {t rest : Text} {clause : MatchClause}
    (h : (matchClause limit).outcome t = .matched clause rest)
    (hends : clause.endsInOptional = true) (u : Text) : ¬KeywordAt .match_ rest u := by
  obtain ⟨-, v, -, -, hcondition⟩ := outcome_matchClause_eq_matched.1 h
  unfold MatchClause.endsInOptional at hends
  split at hends
  · rename_i name hsome
    rw [hsome] at hcondition
    obtain ⟨w, -, ⟨-, he, -⟩ | ⟨hno, he⟩⟩ :=
      outcome_whereClause_eq_matched.1 (matched_of_mem_optional hcondition rfl)
    · cases he
    · rw [expression_eq_chain] at he
      rcases outcome_chain_eq_matched.1 he with ⟨he, -⟩ | ⟨head, tail, x, heq, hhead, htail⟩
      · cases he
      · obtain ⟨rfl, htail'⟩ := Chain.cons.inj heq
        rw [List.nil_eq] at htail'
        subst htail'
        cases htail
        cases operandReading_of_matched hhead with
        | identifier hname =>
          exact fun hu => hno (Or.inl ⟨.optional, u, rest, ⟨name, hname, hends⟩, hu⟩)
  · cases hends

theorem optional_match_of_repeats {limit : Nat} {t rest : Text} {clauses : List MatchClause}
    (h : (matchClause limit).Repeats t clauses rest) : clauses.IsChain fun clause next =>
      clause.endsInOptional = true → next.kind = .optional := by
  induction h with
  | stop => exact .nil
  | step hclause hrest ih =>
    cases hrest with
    | stop => exact .singleton _
    | @step _ _ _ next _ hnext _ =>
      refine .cons_cons (fun hends => ?_) ih
      obtain ⟨u, -, hkind, -⟩ := outcome_matchClause_eq_matched.1 hnext
      cases hk : next.kind with
      | optional => rfl
      | required =>
        rw [hk] at hkind
        exact absurd hkind (not_keywordAt_match_of_endsInOptional hclause hends u)

/-- Where a clause opens and the word `MATCH` comes next, the clause is a match that
    is not optional. -/
theorem startsWord_match_of_keywordAt {t u : Text} (h : t.opensClause = true)
    (hmatch : KeywordAt .match_ t u) : Text.startsWord Keyword.match_.written t = true := by
  rcases Text.opensClause_iff.1 h with ⟨k, -, hk⟩ | hoptional
  · obtain ⟨v, hv⟩ := keywordAt_of_startsWord hk
    rwa [← (hv.unique hmatch).1]
  · obtain ⟨written, c, rest, rfl, hlower, hblank, -⟩ := Text.opensOptionalMatch_iff.1 hoptional
    obtain ⟨v, hv⟩ := keywordAt_of_startsWord (k := .optional) (Text.startsWord_iff.2
      ⟨written, c :: rest, rfl, hlower,
        Text.notNext_cons.2 (Text.isAlphanumeric_eq_false_of_isBlank hblank)⟩)
    cases (hv.unique hmatch).1

end Production

namespace Query

open Production

/-! ## Queries -/

/-- The operands of a query that was read have their shapes, and its verbatim
    expressions stand in the text. -/
theorem shapedFrom_of_parse {limit : Nat} {source : Text} {q : Query}
    (h : parse limit source = .ok q) : ∀ place ∈ q.places, ShapedFrom source place := by
  obtain ⟨rest, h⟩ := parse_eq_ok_iff.1 h
  obtain ⟨t₁, t₂, t₃, hstart, hclauses, hreturn, hitems, -⟩ := outcome_query_eq_matched.1 h
  have ht₁ : t₁ <:+ source := suffix_of_matched hstart
  have ht₃ : t₃ <:+ source := hreturn.suffix.trans (hclauses.suffix.trans ht₁)
  rw [Query.places, List.forall_mem_append]
  constructor
  · exact shapedFrom_clauses (fun clause hmem e he =>
      ((wellShaped_clauses hclauses clause hmem).2 e he).mono ht₁) _
  · exact shapedFrom_items fun item hmem =>
      (wellShaped_items hitems item hmem).2.mono ht₃

theorem wellShaped_of_parse {limit : Nat} {source : Text} {q : Query}
    (h : parse limit source = .ok q) : q.WellShaped := by
  have hoperands := shapedFrom_of_parse h
  obtain ⟨rest, h⟩ := parse_eq_ok_iff.1 h
  obtain ⟨t₁, t₂, t₃, hstart, hclauses, hreturn, hitems, -⟩ := outcome_query_eq_matched.1 h
  refine ⟨fun place hplace => (hoperands place hplace).1,
    fun clause hmem => (wellShaped_clauses hclauses clause hmem).1,
    fun item hmem => (wellShaped_items hitems item hmem).1,
    not_lone_blank_of_commaList hitems, fun body hbody => ?_⟩
  obtain ⟨u, before, -, hsplit, rfl⟩ :=
    outcome_startClause_eq_matched.1 (matched_of_mem_optional hstart hbody)
  exact ⟨Text.isTrimmed_trim before, Text.splitAtClause?_trim hsplit⟩

theorem fitsTogether_of_parse {limit : Nat} {source : Text} {q : Query}
    (h : parse limit source = .ok q) : q.FitsTogether limit := by
  obtain ⟨rest, h⟩ := parse_eq_ok_iff.1 h
  obtain ⟨t₁, t₂, t₃, hstart, hclauses, hreturn, hitems, -⟩ := outcome_query_eq_matched.1 h
  refine ⟨fun clause hmem e he => ((wellShaped_clauses hclauses clause hmem).2 e he).2,
    fun item hmem => (wellShaped_items hitems item hmem).2.2,
    optional_match_of_repeats hclauses, fun body hbody clause hfirst hkind => ?_⟩
  obtain ⟨u, before, -, hsplit, rfl⟩ :=
    outcome_startClause_eq_matched.1 (matched_of_mem_optional hstart hbody)
  have hopens : t₁.opensClause = true := (Text.splitAtStartFrom?_eq_some_iff.1 hsplit).2.2.1
  have hmatch : ∃ v, KeywordAt .match_ t₁ v := by
    generalize q.clauses = clauses at hclauses hfirst
    cases hclauses with
    | stop => cases hfirst
    | step hclause _ =>
      cases hfirst
      obtain ⟨v, -, hv, -⟩ := outcome_matchClause_eq_matched.1 hclause
      rw [hkind] at hv
      exact ⟨v, hv⟩
  obtain ⟨v, hv⟩ := hmatch
  exact Text.not_endsWithWord_trim hsplit (startsWord_match_of_keywordAt hopens hv)

/-- A query that was read is a valid tree within the limit, and its verbatim expressions
    are parts of the text. -/
theorem valid_of_parse {limit : Nat} {source : Text} {q : Query}
    (h : parse limit source = .ok q) : q.WellShaped ∧ q.FitsTogether limit ∧
      ∀ place ∈ q.places, ∀ text, place.operand = .case_ text → text <:+: source :=
  ⟨wellShaped_of_parse h, fitsTogether_of_parse h,
    fun place hplace => (shapedFrom_of_parse h place hplace).2⟩

/-- A text with a start clause, an alias, and a verbatim expression in a call. -/
theorem valid_of_parse_verbatim :
    let source := "START n MATCH (n) RETURN f(case ) end) AS x".toList
    let item : ReturnItem :=
      ⟨.cons (.call ['f'] false (.cons (.case_ "case ) end".toList) [])) [], some ['x']⟩
    let q : Query := ⟨some ['n'], [⟨.required, [⟨some ⟨['n'], none⟩, []⟩], none⟩], [item]⟩
    parse 1 source = .ok q ∧ q.WellShaped ∧ q.FitsTogether 1 ∧
      ∀ place ∈ q.places, ∀ text, place.operand = .case_ text → text <:+: source :=
  ⟨by decide +kernel, @valid_of_parse 1 _ _ (by decide +kernel)⟩

end Query

end Cypher
