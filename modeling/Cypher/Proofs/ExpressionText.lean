/-
  Expressions and their canonical text.

  * `outcome_operand_of_call` to `outcome_operand_of_rest`: one lemma for each alternative of
    an operand, with what makes the earlier alternatives miss;
  * `Place.NoEndAfterCase`, `Place.StandsVerbatim`: what the text after an operand must be
    like, so that a bare word `CASE` is no verbatim expression and a verbatim one no call;
  * `readsBack_operand`, `readsBack_expression`: an operand or an expression is read back
    from its canonical text exactly if all its verbatim parts stand as such.
-/
import Cypher.Proofs.ReadBack

namespace Cypher

namespace Production

/-! ## One alternative of an operand -/

section

variable {limit : Nat} {inside : Option (Unit → Production Expression)} {t rest : Text}
  {o : Operand}

theorem outcome_operand_of_call (h : (call limit inside).outcome t = .matched o rest) :
    (operand limit inside).outcome t = .matched o rest := by
  rw [operand, matched_orElse_iff (stays_attempt _)]
  exact Or.inl (outcome_attempt_eq_matched.2 h)

/-- Where no call is read, a verbatim expression comes first. -/
theorem outcome_operand_of_case (hcall : (call limit inside).Misses t)
    (h : caseExpression.outcome t = .matched o rest) :
    (operand limit inside).outcome t = .matched o rest := by
  rw [operand, matched_orElse_iff (stays_attempt _)]
  refine Or.inr ⟨misses_attempt_iff.2 hcall, ?_⟩
  rw [matched_orElse_iff (stays_attempt _)]
  exact Or.inl (outcome_attempt_eq_matched.2 h)

/-- What is neither a call nor verbatim. -/
theorem outcome_operand_of_other (hcall : (call limit inside).Misses t) (hcase : NoCaseAt t)
    (h : (attempt (group limit inside) <|> attempt property <|> Operand.literal <$> literal <|>
      Operand.identifier <$> identifier <|> Operand.string <$> quotedString <|>
      Operand.number <$> number <|> (fun _ => Operand.wildcard) <$> symbol .star).outcome t =
        .matched o rest) : (operand limit inside).outcome t = .matched o rest := by
  rw [operand, matched_orElse_iff (stays_attempt _)]
  refine Or.inr ⟨misses_attempt_iff.2 hcall, ?_⟩
  rw [matched_orElse_iff (stays_attempt _)]
  exact Or.inr ⟨misses_attempt_iff.2 (misses_caseExpression_iff.2 hcase), h⟩

theorem outcome_operand_of_group {u : Text} (hparen : t.token? = some (.symbol .leftParen, u))
    (h : (group limit inside).outcome t = .matched o rest) :
    (operand limit inside).outcome t = .matched o rest := by
  refine outcome_operand_of_other (misses_call_of fun name v hv => ?_) (fun word v hv => ?_) ?_
  · rw [hparen] at hv; cases hv
  · rw [hparen] at hv; cases hv
  · exact (matched_orElse_iff (stays_attempt _)).2 (Or.inl (outcome_attempt_eq_matched.2 h))

/-- An operand that is one name, where neither a parenthesis nor a dot follows. -/
theorem outcome_operand_of_name {name : Text} (hname : t.token? = some (.identifier name, rest))
    (hparen : ∀ u, rest.token? ≠ some (.symbol .leftParen, u))
    (hdot : ∀ u, rest.token? ≠ some (.symbol .dot, u)) (hcase : NoCaseAt t) :
    (operand limit inside).outcome t =
      .matched ((Literal.ofWritten? name).elim (.identifier name) .literal) rest := by
  refine outcome_operand_of_other (misses_call_of fun word v hv => ?_) hcase ?_
  · rw [hname] at hv; cases hv; exact hparen
  refine (matched_orElse_iff (stays_attempt _)).2 (Or.inr ⟨misses_attempt_iff.2 ?_, ?_⟩)
  · exact misses_group_of fun v hv => by rw [hname] at hv; cases hv
  refine (matched_orElse_iff (stays_attempt _)).2 (Or.inr ⟨misses_attempt_iff.2 ?_, ?_⟩)
  · exact misses_property_of fun word v hv => by rw [hname] at hv; cases hv; exact hdot
  refine (matched_orElse_iff (stays_map stays_literal _)).2 ?_
  cases hl : Literal.ofWritten? name with
  | some l =>
    exact Or.inl (outcome_map_eq_matched.2 ⟨l, outcome_literal_eq_matched.2 ⟨name, hname, hl⟩, rfl⟩)
  | none =>
    refine Or.inr ⟨misses_map_iff.2 ⟨t, outcome_literal_eq_missed.2 ⟨rfl, fun word v hv => ?_⟩⟩, ?_⟩
    · rw [hname] at hv; cases hv; exact hl
    · refine (matched_orElse_iff (stays_map stays_identifier _)).2 (Or.inl ?_)
      exact outcome_map_eq_matched.2 ⟨name, outcome_identifier_eq_matched.2 hname, rfl⟩

theorem outcome_operand_of_property {owner t₁ t₂ name : Text}
    (howner : t.token? = some (.identifier owner, t₁)) (hdot : t₁.token? = some (.symbol .dot, t₂))
    (hname : nameOrQuoted.outcome t₂ = .matched name rest) (hcase : NoCaseAt t) :
    (operand limit inside).outcome t = .matched (.property owner name) rest := by
  refine outcome_operand_of_other (misses_call_of fun word v hv w hw => ?_) hcase ?_
  · rw [howner] at hv; cases hv; rw [hdot] at hw; cases hw
  refine (matched_orElse_iff (stays_attempt _)).2 (Or.inr ⟨misses_attempt_iff.2 ?_, ?_⟩)
  · exact misses_group_of fun v hv => by rw [howner] at hv; cases hv
  refine (matched_orElse_iff (stays_attempt _)).2 (Or.inl (outcome_attempt_eq_matched.2 ?_))
  exact outcome_property_eq_matched.2 ⟨owner, name, t₁, t₂, rfl, howner, hdot, hname⟩

/-- Where neither a name nor a parenthesis comes next, an operand is quoted text, a
    number or `*`. -/
theorem outcome_operand_of_rest (hname : ∀ name u, t.token? ≠ some (.identifier name, u))
    (hparen : ∀ u, t.token? ≠ some (.symbol .leftParen, u))
    (h : (Operand.string <$> quotedString <|> Operand.number <$> number <|>
      (fun _ => Operand.wildcard) <$> symbol .star).outcome t = .matched o rest) :
    (operand limit inside).outcome t = .matched o rest := by
  refine outcome_operand_of_other (misses_call_of fun name v hv => absurd hv (hname name v))
    (fun word v hv => absurd hv (hname word v)) ?_
  refine (matched_orElse_iff (stays_attempt _)).2
    (Or.inr ⟨misses_attempt_iff.2 (misses_group_of hparen), ?_⟩)
  refine (matched_orElse_iff (stays_attempt _)).2 (Or.inr ⟨misses_attempt_iff.2 ?_, ?_⟩)
  · exact misses_property_of fun name v hv => absurd hv (hname name v)
  refine (matched_orElse_iff (stays_map stays_literal _)).2 (Or.inr ⟨misses_map_iff.2 ⟨t, ?_⟩, ?_⟩)
  · exact outcome_literal_eq_missed.2 ⟨rfl, fun word v hv => absurd hv (hname word v)⟩
  refine (matched_orElse_iff (stays_map stays_identifier _)).2
    (Or.inr ⟨misses_map_iff.2 ⟨t, outcome_identifier_eq_missed.2 ⟨rfl, hname⟩⟩, h⟩)

/-- No operand begins with a closing parenthesis or a comma. -/
theorem misses_operand_of
    (h : ∀ kind u, t.token? = some (kind, u) → kind ∈ [.symbol .rightParen, .symbol .comma]) :
    (operand limit inside).Misses t := by
  have hsymbol : ∀ kind u, t.token? = some (kind, u) →
      kind = .symbol .rightParen ∨ kind = .symbol .comma := by
    simpa only [List.mem_cons, List.not_mem_nil, or_false] using h
  have hname : ∀ name u, t.token? ≠ some (.identifier name, u) := by
    intro name u hu; rcases hsymbol _ _ hu with h | h <;> cases h
  have hparen : ∀ u, t.token? ≠ some (.symbol .leftParen, u) := by
    intro u hu; rcases hsymbol _ _ hu with h | h <;> cases h
  have hnumber : number.Misses t := misses_number_of fun kind u hu => by
    rcases hsymbol _ _ hu with rfl | rfl <;> exact ⟨by simp, rfl⟩
  rw [operand, misses_orElse_iff (stays_attempt _), misses_orElse_iff (stays_attempt _),
    misses_orElse_iff (stays_attempt _), misses_orElse_iff (stays_attempt _),
    misses_orElse_iff (stays_map stays_literal _), misses_orElse_iff (stays_map stays_identifier _),
    misses_orElse_iff (stays_map stays_quotedString _),
    misses_orElse_iff (stays_map stays_number _)]
  simp only [misses_attempt_iff, misses_map_iff, misses_caseExpression_iff]
  refine ⟨misses_call_of fun name v hv => absurd hv (hname name v), fun word v hv =>
    absurd hv (hname word v), misses_group_of hparen, misses_property_of fun name v hv =>
    absurd hv (hname name v), ?_, ?_, ?_, hnumber, ?_⟩
  all_goals
    exact misses_token_of fun kind u hu => by rcases hsymbol _ _ hu with rfl | rfl <;> rfl

end

end Production

/-! ## Places -/

/-- A bare word `CASE` is not followed by the word `END`. -/
def Place.NoEndAfterCase (place : Place) : Prop :=
  match place.operand with
  | .identifier name =>
    name.eqIgnoringCase Keyword.case_.written = true → ¬Production.endsCase place.after
  | .property owner name => owner.eqIgnoringCase Keyword.case_.written = true →
    ¬Production.endsCase ('.' :: (name.inBackTicks ++ place.after))
  | _ => True

/-- A verbatim expression is not taken for a call of the name `CASE`. -/
def Place.StandsVerbatim (limit : Nat) (place : Place) : Prop :=
  ∀ text, place.operand = .case_ text →
    (Production.call limit (Production.inside limit (limit - place.depth))).Misses
      (text ++ place.after)

namespace Production

/-- Whether a production that begins with a token misses depends on the tokens ahead
    alone. -/
theorem misses_token_bind_congr {α β : Type} {e : Expectation} {accept : TokenKind → Option α}
    {f : α → Production β} {t x : Text} (h : t.token? = x.token?) :
    (token e accept >>= f).Misses t ↔ (token e accept >>= f).Misses x := by
  simp only [Misses, outcome_bind_eq_missed, outcome_token_eq_missed, outcome_token_eq_matched,
    exists_or, exists_and_right, exists_eq, true_and, h]

theorem misses_call_congr {limit : Nat} {inside : Option (Unit → Production Expression)}
    {t x : Text} (h : t.SameAhead x) :
    (call limit inside).Misses t ↔ (call limit inside).Misses x :=
  misses_token_bind_congr h.token?

/-! ## Operands without operands inside -/

section

variable {limit : Nat} {inside : Option (Unit → Production Expression)} {after : Text}

theorem token?_dot (rest : Text) : Text.token? ('.' :: rest) = some (.symbol .dot, rest) := rfl

theorem token?_leftParen (rest : Text) :
    Text.token? ('(' :: rest) = some (.symbol .leftParen, rest) := rfl

theorem token?_rightParen (rest : Text) :
    Text.token? (')' :: rest) = some (.symbol .rightParen, rest) := rfl

theorem noCaseAt_of {t u name : Text} (hname : t.token? = some (.identifier name, u))
    (h : name.eqIgnoringCase Keyword.case_.written = true → ¬endsCase u) : NoCaseAt t := by
  intro word v hv hword
  rw [hname] at hv
  cases hv
  exact h hword

theorem readsBack_property {owner name : Text} (howner : owner.isName = true)
    (hname : name.isQuotableText = true)
    (hcase : owner.eqIgnoringCase Keyword.case_.written = true →
      ¬endsCase ('.' :: (name.inBackTicks ++ after))) :
    ReadsBack (operand limit inside) ((Operand.property owner name).render ++ after)
      (.property owner name) after True := by
  have hrender : (Operand.property owner name).render ++ after =
      owner ++ '.' :: (name.inBackTicks ++ after) := by simp [Operand.render]
  refine .always fun {t} ht => ⟨after, ?_, .refl _⟩
  have htok : t.token? = some (.identifier owner, '.' :: (name.inBackTicks ++ after)) := by
    rw [ht.token?, hrender]
    exact Text.token?_identifier howner (Text.notNext_cons.2 rfl)
  refine outcome_operand_of_property htok (token?_dot _) ?_ (noCaseAt_of htok hcase)
  exact outcome_nameOrQuoted_eq_matched.2 (Or.inl (Text.token?_quoted hname))

/-- A name that stands alone is a literal or an identifier. -/
theorem readsBack_name {name : Text} (hname : name.isName = true) (hafter : EndsOperand after)
    (hcase : name.eqIgnoringCase Keyword.case_.written = true → ¬endsCase after) :
    ReadsBack (operand limit inside) (name ++ after)
      ((Literal.ofWritten? name).elim (.identifier name) .literal) after True := by
  refine .always fun {t} ht => ⟨after, ?_, .refl _⟩
  have htok : t.token? = some (.identifier name, after) := by
    rw [ht.token?]
    exact Text.token?_identifier hname hafter.notNext_isAlphanum
  exact outcome_operand_of_name htok hafter.no_call hafter.no_property (noCaseAt_of htok hcase)

theorem readsBack_literal (l : Literal) (hafter : EndsOperand after) :
    ReadsBack (operand limit inside) (l.written ++ after) (.literal l) after True := by
  have hname : l.written.isName = true := by rcases l with _ | ⟨_ | _⟩ <;> rfl
  have hcase : l.written.eqIgnoringCase Keyword.case_.written = true → ¬endsCase after := by
    rcases l with _ | ⟨_ | _⟩ <;> exact fun h => absurd h (by decide)
  have hof : Literal.ofWritten? l.written = some l := by rcases l with _ | ⟨_ | _⟩ <;> rfl
  have hread : ReadsBack (operand limit inside) (l.written ++ after) _ after True :=
    readsBack_name hname hafter hcase
  rwa [hof] at hread

theorem readsBack_string {value : Text} (hvalue : value.isQuotableText = true) :
    ReadsBack (operand limit inside) (value.inBackTicks ++ after) (.string value) after True := by
  refine .always fun {t} ht => ⟨after, ?_, .refl _⟩
  have htok : t.token? = some (.quoted value, after) := by
    rw [ht.token?, Text.token?_quoted hvalue]
  refine outcome_operand_of_rest (fun name u hu => ?_) (fun u hu => ?_) ?_
  · rw [htok] at hu; cases hu
  · rw [htok] at hu; cases hu
  · exact (matched_orElse_iff (stays_map stays_quotedString _)).2 (Or.inl
      (outcome_map_eq_matched.2 ⟨value, outcome_quotedString_eq_matched.2 htok, rfl⟩))

theorem outcome_operand_of_number {t text rest : Text} {kind : TokenKind} {u : Text}
    (htok : t.token? = some (kind, u)) (hkind : kind = .symbol .minus ∨ ∃ n, kind = .number n)
    (h : number.outcome t = .matched text rest) :
    (operand limit inside).outcome t = .matched (.number text) rest := by
  refine outcome_operand_of_rest (fun name v hv => ?_) (fun v hv => ?_) ?_
  · rw [htok] at hv; rcases hkind with rfl | ⟨n, rfl⟩ <;> cases hv
  · rw [htok] at hv; rcases hkind with rfl | ⟨n, rfl⟩ <;> cases hv
  refine (matched_orElse_iff (stays_map stays_quotedString _)).2 (Or.inr ⟨misses_map_iff.2 ?_, ?_⟩)
  · refine ⟨t, outcome_quotedString_eq_missed.2 ⟨rfl, fun value v hv => ?_⟩⟩
    rw [htok] at hv; rcases hkind with rfl | ⟨n, rfl⟩ <;> cases hv
  · exact (matched_orElse_iff (stays_map stays_number _)).2 (Or.inl
      (outcome_map_eq_matched.2 ⟨text, h, rfl⟩))

theorem readsBack_number {text : Text} (htext : text.IsNumber) (hafter : EndsOperand after) :
    ReadsBack (operand limit inside) (text ++ after) (.number text) after True := by
  refine .always fun {t} ht => ⟨after, ?_, .refl _⟩
  rcases htext with htext | ⟨numeral, rfl, hnumeral⟩
  · have htok : t.token? = some (.number text, after) := by
      rw [ht.token?, Text.token?_number htext hafter.notNext_goesOnNumeral]
    exact outcome_operand_of_number htok (Or.inr ⟨text, rfl⟩)
      (outcome_number_eq_matched.2 (Or.inl htok))
  · have htok : t.token? = some (.symbol .minus, numeral ++ after) := by
      rw [ht.token?]; rfl
    have hadjacent : Text.adjacentToken? (numeral ++ after) = some (.number numeral, after) := by
      rw [Text.adjacentToken?_eq_some_iff]
      refine ⟨?_, Text.token?_number hnumeral hafter.notNext_goesOnNumeral⟩
      obtain ⟨c, cs, rfl, hc⟩ := Text.exists_digit_of_isNumeral hnumeral
      exact Text.dropBlanks_cons_of_not _
        (Text.isBlank_eq_false_of_isAlphanum (Text.isAlphanum_of_isDigit hc))
    exact outcome_operand_of_number htok (Or.inl rfl)
      (outcome_number_eq_matched.2 (Or.inr ⟨_, numeral, rfl, htok, hadjacent⟩))

theorem readsBack_wildcard :
    ReadsBack (operand limit inside) ('*' :: after) .wildcard after True := by
  refine .always fun {t} ht => ⟨after, ?_, .refl _⟩
  have htok : t.token? = some (.symbol .star, after) := by rw [ht.token?]; rfl
  refine outcome_operand_of_rest (fun name u hu => ?_) (fun u hu => ?_) ?_
  · rw [htok] at hu; cases hu
  · rw [htok] at hu; cases hu
  refine (matched_orElse_iff (stays_map stays_quotedString _)).2 (Or.inr ⟨misses_map_iff.2 ?_, ?_⟩)
  · refine ⟨t, outcome_quotedString_eq_missed.2 ⟨rfl, fun value v hv => ?_⟩⟩
    rw [htok] at hv
    cases hv
  refine (matched_orElse_iff (stays_map stays_number _)).2 (Or.inr ⟨misses_map_iff.2 ?_, ?_⟩)
  · exact misses_number_of fun kind u hu => by rw [htok] at hu; cases hu; exact ⟨by simp, rfl⟩
  · exact outcome_map_eq_matched.2 ⟨(), outcome_symbol_eq_matched.2 htok, rfl⟩

/-- What follows the word `CASE` of a verbatim expression, up to its end. -/
theorem notNext_of_split {t word u before ending : Text}
    (hword : t.token? = some (.identifier word, u))
    (hsplit : Text.splitAtWord? Keyword.end_.written u = some (before, ending)) :
    Text.NotNext Char.isAlphanum (before ++ ending.take Keyword.end_.written.length) ∧
      before ++ ending.take Keyword.end_.written.length ≠ [] := by
  obtain ⟨hlen, -⟩ := Text.splitAtWord?_ending hsplit
  constructor
  · intro c cs hcs
    refine Text.notNext_of_identifier hword c (cs ++ ending.drop Keyword.end_.written.length) ?_
    rw [(Text.splitAtStartFrom?_eq_some hsplit).1, ← List.cons_append, ← hcs, List.append_assoc,
      List.take_append_drop]
  · intro hnil
    rw [(List.append_eq_nil_iff.1 hnil).2] at hlen
    cases hlen

/-- A verbatim expression is read back exactly if no call is read at its place. -/
theorem readsBack_case {text : Text} (htext : text.IsCase) (hafter : EndsOperand after) :
    ReadsBack (operand limit inside) (text ++ after) (.case_ text) after
      ((call limit inside).Misses (text ++ after)) := by
  obtain ⟨word, inner, before, ending, rfl, hword, hinner, hsplit, hending⟩ := htext
  have hne : ending ≠ [] := by rintro rfl; cases hending
  obtain rfl : inner = before ++ ending := (Text.splitAtStartFrom?_eq_some hsplit).1
  constructor
  · intro hcall t ht
    refine ⟨after, outcome_operand_of_case ((misses_call_congr ht).2 hcall) ?_, .refl _⟩
    have hname : word.isName = true :=
      Text.isName_of_lower_eq (Text.isWord_written .case_) (Text.eqIgnoringCase_iff.1 hword)
    have hnext : Text.NotNext Char.isAlphanum (before ++ ending ++ after) :=
      hinner.append (by simp [hne]) after
    refine outcome_caseExpression_eq_matched.2
      ⟨word, before ++ ending ++ after, before, ending ++ after, ?_, hword, ?_, ?_, ?_⟩
    · rw [ht.token?, List.append_assoc]; exact Text.token?_identifier hname hnext
    · rw [List.append_assoc, Text.splitAtWord?_append_iff (Text.isWord_written .end_) hne
        hafter.notNext_isAlphanumeric]
      exact hsplit
    · rw [← hending, List.take_left]
    · rw [← hending, List.drop_left]
  · intro t u ht h
    rw [operand, matched_orElse_iff (stays_attempt _)] at h
    rcases h with h | ⟨h, -⟩
    · obtain ⟨_, _, _, _, _, _, _, _, h, -⟩ :=
        outcome_call_eq_matched.1 (outcome_attempt_eq_matched.1 h)
      cases h
    · exact (misses_call_congr ht).1 (misses_attempt_iff.1 h)

/-! ## Calls and groups -/

/-- The word `DISTINCT` in front of the arguments, if it is there. -/
theorem matched_distinct {distinct : Bool} {t y : Text}
    (hy : distinct = false → ∀ word u, y.token? = some (.identifier word, u) →
      word.eqIgnoringCase Keyword.distinct.written = false)
    (ht : t.SameAhead ((if distinct then Keyword.distinct.written ++ [' '] else []) ++ y)) :
    ∃ o u, (maybe (keyword .distinct)).outcome t = .matched o u ∧ o.isSome = distinct ∧
      u.SameAhead y := by
  cases distinct with
  | true =>
    have htok : t.token? = some (.identifier Keyword.distinct.written, ' ' :: y) := by
      rw [ht.token?, if_pos rfl, List.append_assoc]
      exact token?_keyword .distinct (Text.notNext_cons.2 rfl)
    exact ⟨some Keyword.distinct.written, ' ' :: y,
      outcome_maybe_distinct_eq_matched.2 (Or.inl ⟨_, rfl, htok, by decide⟩), rfl, rfl⟩
  | false =>
    refine ⟨none, t, outcome_maybe_distinct_eq_matched.2 (Or.inr ⟨rfl, rfl, fun word u hu => ?_⟩),
      rfl, ht⟩
    rw [ht.token?] at hu
    exact hy rfl word u hu

theorem readsBack_call {allowance : Nat} {name : Text} {distinct : Bool} {arguments : Expression}
    {c : Prop} (hname : name.isName = true)
    (hdistinct : distinct = false → ∀ word u,
      Text.token? (Expression.render arguments ++ ')' :: after) = some (.identifier word, u) →
      word.eqIgnoringCase Keyword.distinct.written = false)
    (harguments : ReadsBack (expression limit allowance)
      (Expression.render arguments ++ ')' :: after) arguments (')' :: after) c) :
    ReadsBack (operand limit (Production.inside limit (allowance + 1)))
      ((Operand.call name distinct arguments).render ++ after) (.call name distinct arguments)
      after c := by
  have hrender : (Operand.call name distinct arguments).render ++ after =
      name ++ '(' :: ((if distinct then Keyword.distinct.written ++ [' '] else []) ++
        (Expression.render arguments ++ ')' :: after)) := by
    simp [Operand.render]
  have hopen : ∀ {t x : Text}, t.SameAhead (name ++ '(' :: x) →
      t.token? = some (.identifier name, '(' :: x) := fun ht => by
    rw [ht.token?]
    exact Text.token?_identifier hname (Text.notNext_cons.2 rfl)
  obtain ⟨o, u, hu, ho, hy⟩ := matched_distinct hdistinct (.refl _)
  rw [hrender]
  constructor
  · intro hc t ht
    obtain ⟨v, hv, hclosing⟩ := harguments.reads hc hy
    refine ⟨after, outcome_operand_of_call (outcome_call_eq_matched.2 ⟨name, o, arguments, _, _, _,
      u, v, by rw [ho], hopen ht, token?_leftParen _, rfl, hu, hv, ?_⟩), .refl _⟩
    rw [hclosing.token?, token?_rightParen]
  · intro t v ht h
    generalize hcall : Operand.call name distinct arguments = call at h
    cases operandReading_of_matched h with
    | call hname' hleft hinside hd ha hright =>
      cases hcall
      rw [hopen ht] at hname'
      cases hname'
      rw [token?_leftParen] at hleft
      cases hleft
      cases hinside
      rw [hu] at hd
      cases hd
      exact harguments.only hy ha
    | _ => cases hcall

theorem readsBack_group {allowance : Nat} {inner : Expression} {c : Prop}
    (hinner : ReadsBack (expression limit allowance)
      (Expression.render inner ++ ')' :: after) inner (')' :: after) c) :
    ReadsBack (operand limit (Production.inside limit (allowance + 1)))
      ((Operand.group inner).render ++ after) (.group inner) after c := by
  have hrender : (Operand.group inner).render ++ after =
      '(' :: (Expression.render inner ++ ')' :: after) := by simp [Operand.render]
  have hopen : ∀ {t : Text}, t.SameAhead ('(' :: (Expression.render inner ++ ')' :: after)) →
      t.token? = some (.symbol .leftParen, Expression.render inner ++ ')' :: after) :=
    fun ht => by rw [ht.token?, token?_leftParen]
  rw [hrender]
  constructor
  · intro hc t ht
    obtain ⟨v, hv, hclosing⟩ := hinner.reads hc (.refl _)
    refine ⟨after, outcome_operand_of_group (hopen ht) (outcome_group_eq_matched.2
      ⟨inner, _, _, v, rfl, hopen ht, rfl, hv, ?_⟩), .refl _⟩
    rw [hclosing.token?, token?_rightParen]
  · intro t v ht h
    cases operandReading_of_matched h with
    | group hleft hinside he hright =>
      rw [hopen ht] at hleft
      cases hleft
      cases hinside
      exact hinner.only (.refl _) he

end

/-! ## The first word of an expression -/

theorem endsOperand_links {links : List (Operator × Operand)} {after : Text}
    (hafter : EndsOperand after) : EndsOperand (Operand.renderLinks links ++ after) := by
  cases links with
  | nil => simpa [Operand.renderLinks] using hafter
  | cons link links =>
    obtain ⟨o, operand⟩ := link
    have hrender : Operand.renderLinks ((o, operand) :: links) ++ after =
        ' ' :: o.written ++ ' ' :: (operand.render ++ (Operand.renderLinks links ++ after)) := by
      simp [Operand.renderLinks]
    rw [hrender]
    exact endsOperand_operator o _

/-- A keyword other than `CASE` that an operand begins with is its leading word. -/
theorem leadingWord?_of_token? {o : Operand} {after word u : Text} {k : Keyword}
    (hshape : o.WellShaped) (hafter : EndsOperand after) (hk : k ≠ .case_)
    (htok : Text.token? (o.render ++ after) = some (.identifier word, u))
    (hword : word.eqIgnoringCase k.written = true) : o.leadingWord? = some word := by
  cases o with
  | call name distinct arguments =>
    have hrender : ∃ rest, (Operand.call name distinct arguments).render ++ after =
        name ++ '(' :: rest := ⟨_, by simp [Operand.render]; rfl⟩
    obtain ⟨rest, hrest⟩ := hrender
    rw [hrest, Text.token?_identifier hshape.1 (Text.notNext_cons.2 rfl)] at htok
    cases htok
    rfl
  | case_ text =>
    obtain ⟨word', inner, before, ending, rfl, hcase, hinner, hsplit, hending⟩ := hshape
    have hne : inner ≠ [] := by rintro rfl; cases hsplit
    have hname :=
      Text.isName_of_lower_eq (Text.isWord_written .case_) (Text.eqIgnoringCase_iff.1 hcase)
    rw [Operand.render, List.append_assoc,
      Text.token?_identifier hname (hinner.append hne after)] at htok
    cases htok
    exact absurd (KeywordAt.eq_of_eqIgnoringCase hword hcase) hk
  | group inner => simp only [Operand.render, List.append_assoc] at htok; cases htok
  | property owner name =>
    have hrender : (Operand.property owner name).render ++ after =
        owner ++ '.' :: (name.inBackTicks ++ after) := by simp [Operand.render]
    rw [hrender, Text.token?_identifier hshape.1 (Text.notNext_cons.2 rfl)] at htok
    cases htok
    rfl
  | literal l =>
    have hname : l.written.isName = true := by rcases l with _ | ⟨_ | _⟩ <;> rfl
    rw [Operand.render, Text.token?_identifier hname hafter.notNext_isAlphanum] at htok
    cases htok
    rcases l with _ | ⟨_ | _⟩ <;> cases k <;> exact absurd hword (by decide)
  | identifier name =>
    rw [Operand.render, Text.token?_identifier hshape.1 hafter.notNext_isAlphanum] at htok
    cases htok
    rfl
  | string value => rw [Operand.render, Text.token?_quoted hshape] at htok; cases htok
  | number text =>
    rw [Operand.render] at htok
    rcases hshape with htext | ⟨numeral, rfl, -⟩
    · rw [Text.token?_number htext hafter.notNext_goesOnNumeral] at htok; cases htok
    · cases htok
  | wildcard => cases htok

/-- An expression that begins with a keyword other than `CASE`. -/
theorem startsWith_of_token? {e : Expression} {after word u : Text} {k : Keyword}
    (hshape : ∀ head tail, e = .cons head tail → head.WellShaped) (hafter : EndsOperand after)
    (hk : k ≠ .case_) (hne : e ≠ .empty)
    (htok : Text.token? (Expression.render e ++ after) = some (.identifier word, u))
    (hword : word.eqIgnoringCase k.written = true) : Expression.startsWith k e = true := by
  cases e with
  | empty => exact absurd rfl hne
  | cons head tail =>
    rw [Expression.render, List.append_assoc] at htok
    have := leadingWord?_of_token? (hshape head tail rfl) (endsOperand_links hafter) hk htok hword
    rw [Expression.startsWith, this]
    exact hword

/-! ## Operands and expressions -/

/-- The operand at a place is not verbatim. -/
theorem standsVerbatim_of_ne {limit depth : Nat} {o : Operand} {after : Text}
    (h : ∀ text, o ≠ .case_ text) : Place.StandsVerbatim limit ⟨o, depth, after⟩ :=
  fun text heq => absurd heq (h text)

theorem forall_places_singleton {limit depth : Nat} {o : Operand} {after : Text}
    (h : ∀ text, o ≠ .case_ text) :
    True ↔ ∀ place ∈ [(⟨o, depth, after⟩ : Place)], place.StandsVerbatim limit := by
  simpa using standsVerbatim_of_ne h

/-- The shapes of the operands at some places, and what follows a bare `CASE` there. -/
def Readable (places : List Place) : Prop :=
  ∀ place ∈ places, place.operand.WellShaped ∧ place.NoEndAfterCase

theorem mem_places_self (o : Operand) (depth : Nat) (after : Text) :
    ⟨o, depth, after⟩ ∈ o.places depth after := by
  cases o <;> simp [Operand.places]

theorem wellShaped_head {e : Expression} {depth : Nat} {after : Text} {head : Operand}
    {tail : List (Operator × Operand)} (hread : Readable (Expression.places depth after e))
    (he : e = .cons head tail) : head.WellShaped := by
  subst he
  refine (hread ⟨head, depth, Operand.renderLinks tail ++ after⟩ ?_).1
  rw [Expression.places]
  exact List.mem_append_left _ (mem_places_self head depth _)

mutual

/-- An operand is read back iff its verbatim parts stand as such. -/
theorem readsBack_operand {limit : Nat} : ∀ (o : Operand) {allowance depth : Nat} {after : Text},
    allowance + depth = limit → Readable (o.places depth after) → o.nesting ≤ allowance →
    EndsOperand after → ReadsBack (operand limit (inside limit allowance)) (o.render ++ after) o
      after (∀ place ∈ o.places depth after, place.StandsVerbatim limit)
  | .call name distinct arguments, allowance, depth, after, hlimit, hread, hnesting, hafter => by
    simp only [Operand.places, Readable, List.forall_mem_cons] at hread ⊢
    obtain ⟨⟨⟨hname, -, hdistinct⟩, -⟩, hread⟩ := hread
    obtain ⟨allowance, rfl⟩ : ∃ n, allowance = n + 1 :=
      Nat.exists_eq_add_one.2 (Nat.lt_of_lt_of_le (Nat.succ_pos _) hnesting)
    rw [Operand.nesting, Nat.add_le_add_iff_right] at hnesting
    have hdeeper : allowance + (depth + 1) = limit := by omega
    have hclosing := endsExpression_closing (c := ')') (by simp) after
    have hinner := readsBack_expression arguments hdeeper hread hnesting hclosing
      fun _ kind u h => by cases h; simp
    refine (readsBack_call hname ?_ hinner).congr ?_
    · intro hd word u htok
      by_contra hword
      have hne : arguments ≠ .empty := by rintro rfl; cases htok
      have hstarts := startsWith_of_token? (fun head tail heq => wellShaped_head hread heq)
        hclosing.toEndsOperand (k := .distinct) (by simp) hne htok (by simpa using hword)
      rw [hdistinct hd] at hstarts
      cases hstarts
    · exact ⟨fun h => ⟨standsVerbatim_of_ne (by simp), h⟩, fun h => h.2⟩
  | .case_ text, allowance, depth, after, hlimit, hread, hnesting, hafter => by
    have hshape := (hread ⟨.case_ text, depth, after⟩ (by simp [Operand.places])).1
    have hallowance : limit - depth = allowance := by omega
    refine (readsBack_case hshape hafter).congr ?_
    simp [Operand.places, Place.StandsVerbatim, hallowance]
  | .group inner, allowance, depth, after, hlimit, hread, hnesting, hafter => by
    simp only [Operand.places, Readable, List.forall_mem_cons] at hread ⊢
    obtain ⟨allowance, rfl⟩ : ∃ n, allowance = n + 1 :=
      Nat.exists_eq_add_one.2 (Nat.lt_of_lt_of_le (Nat.succ_pos _) hnesting)
    rw [Operand.nesting, Nat.add_le_add_iff_right] at hnesting
    have hdeeper : allowance + (depth + 1) = limit := by omega
    have hinner := readsBack_expression inner hdeeper hread.2 hnesting
      (endsExpression_closing (by simp) after) fun _ kind u h => by cases h; simp
    refine (readsBack_group hinner).congr ?_
    exact ⟨fun h => ⟨standsVerbatim_of_ne (by simp), h⟩, fun h => h.2⟩
  | .property owner name, allowance, depth, after, hlimit, hread, hnesting, hafter => by
    obtain ⟨hshape, hcase⟩ := hread ⟨.property owner name, depth, after⟩ (by simp [Operand.places])
    exact (readsBack_property hshape.1 hshape.2 hcase).congr
      (forall_places_singleton (by simp))
  | .literal l, allowance, depth, after, hlimit, hread, hnesting, hafter =>
    (readsBack_literal l hafter).congr (forall_places_singleton (by simp))
  | .identifier name, allowance, depth, after, hlimit, hread, hnesting, hafter => by
    obtain ⟨hshape, hcase⟩ := hread ⟨.identifier name, depth, after⟩ (by simp [Operand.places])
    have h : ReadsBack (operand limit (inside limit allowance)) (name ++ after) _ after True :=
      readsBack_name hshape.1 hafter hcase
    rw [hshape.2] at h
    exact h.congr (forall_places_singleton (by simp))
  | .string value, allowance, depth, after, hlimit, hread, hnesting, hafter =>
    (readsBack_string (hread ⟨.string value, depth, after⟩ (by simp [Operand.places])).1).congr
      (forall_places_singleton (by simp))
  | .number text, allowance, depth, after, hlimit, hread, hnesting, hafter =>
    have hnumber := (hread ⟨.number text, depth, after⟩ (by simp [Operand.places])).1
    (readsBack_number hnumber hafter).congr (forall_places_singleton (by simp))
  | .wildcard, allowance, depth, after, hlimit, hread, hnesting, hafter =>
    readsBack_wildcard.congr (forall_places_singleton (by simp))

/-- An expression is read back iff its verbatim parts stand as such. An empty one is
    read where no operand can begin. -/
theorem readsBack_expression {limit : Nat} : ∀ (e : Expression) {allowance depth : Nat}
    {after : Text}, allowance + depth = limit → Readable (Expression.places depth after e) →
    Expression.nesting e ≤ allowance → EndsExpression after →
    (e = .empty → ∀ kind u, after.token? = some (kind, u) →
      kind ∈ [.symbol .rightParen, .symbol .comma]) →
    ReadsBack (expression limit allowance) (Expression.render e ++ after) e after
      (∀ place ∈ Expression.places depth after e, place.StandsVerbatim limit)
  | .empty, allowance, depth, after, hlimit, hread, hnesting, hafter, hempty => by
    rw [expression_eq_chain]
    refine (ReadsBack.chain_empty fun {t} ht => misses_operand_of fun kind u hu => ?_).congr ?_
    · rw [Text.SameAhead.token? ht] at hu
      exact hempty rfl kind u hu
    · simp [Expression.places]
  | .cons head tail, allowance, depth, after, hlimit, hread, hnesting, hafter, hempty => by
    simp only [Expression.places, Readable, List.forall_mem_append] at hread ⊢
    rw [Expression.nesting, Nat.max_le] at hnesting
    have hhead := readsBack_operand head hlimit hread.1 hnesting.1
      (endsOperand_links hafter.toEndsOperand)
    have htail := readsBack_links tail hlimit hread.2 hnesting.2 hafter
    rw [expression_eq_chain, Expression.render, List.append_assoc]
    exact hhead.chain_cons htail

/-- The operators and operands after the first one are read back iff the verbatim
    parts among them stand as such. -/
theorem readsBack_links {limit : Nat} : ∀ (links : List (Operator × Operand))
    {allowance depth : Nat} {after : Text}, allowance + depth = limit →
    Readable (Operand.placesOfLinks depth after links) →
    Operand.nestingOfLinks links ≤ allowance → EndsExpression after →
    ReadsBack (many (link operator (operand limit (inside limit allowance))))
      (Operand.renderLinks links ++ after) links after
      (∀ place ∈ Operand.placesOfLinks depth after links, place.StandsVerbatim limit)
  | [], allowance, depth, after, hlimit, hread, hnesting, hafter => by
    refine (ReadsBack.many_nil (advances_link advances_operator _) fun {t} ht =>
      misses_link_of_separator (misses_token_of fun kind u hu => ?_)).congr ?_
    · rw [Text.SameAhead.token? ht] at hu
      exact hafter.no_operator kind u hu
    · simp [Operand.placesOfLinks]
  | (o, operand) :: links, allowance, depth, after, hlimit, hread, hnesting, hafter => by
    simp only [Operand.placesOfLinks, Readable, List.forall_mem_append] at hread ⊢
    rw [Operand.nestingOfLinks, Nat.max_le] at hnesting
    have hoperand := readsBack_operand operand hlimit hread.1 hnesting.1
      (endsOperand_links hafter.toEndsOperand)
    have hlinks := readsBack_links links hlimit hread.2 hnesting.2 hafter
    have hlink := (readsBack_operator o _).link hoperand.space
    have hrender : Operand.renderLinks ((o, operand) :: links) ++ after = ' ' :: (o.written ++
        ' ' :: (operand.render ++ (Operand.renderLinks links ++ after))) := by
      simp [Operand.renderLinks]
    rw [hrender]
    exact (hlink.space.many_cons (advances_link advances_operator _) hlinks).congr (by simp)

end

end Production

end Cypher
