/-
  Soundness — what is read is the text, written canonically.

  Each lemma is about a part that is read from a text: if the text after the part is
  rewritten as some canonical text, the text from the part on is rewritten as the
  canonical text of the part, followed by that text.

  * `rewrites_operand`, `rewrites_expression`: for expressions, and no `END` follows a
    bare word `CASE` in their canonical text;
  * `rewrites_path`, `rewrites_matchClause`, `rewrites_returnItem`: for the other parts;
  * `Query.forall₂_tokens_of_parse`: the tokens of a query and of its canonical text
    correspond one to one.
-/
import Cypher.Proofs.QueryText
import Cypher.Proofs.Rewriting

namespace Cypher

namespace Rewrites

open Production

/-! ## Terminals -/

variable {t u after : Text}

theorem symbol {s : Symbol} (ht : t.token? = some (.symbol s, u))
    (hequal : s = .equal → Text.NotNext (· = '~') after)
    (hless : s = .less → Text.NotNext (· = '>') after) (h : Rewrites u after) :
    Rewrites t (s.written ++ after) :=
  .token ht (Text.token?_symbol hequal hless) (.same _) (by rintro _ ⟨⟩) h

/-- A symbol that is no part of a longer one. -/
theorem bracket {s : Symbol} (ht : t.token? = some (.symbol s, u)) (hequal : s ≠ .equal)
    (hless : s ≠ .less) (h : Rewrites u after) : Rewrites t (s.written ++ after) :=
  symbol ht (fun hs => absurd hs hequal) (fun hs => absurd hs hless) h

theorem name {name : Text} (ht : t.token? = some (.identifier name, u))
    (hafter : Text.NotNext Char.isAlphanum after) (h : Rewrites u after) :
    Rewrites t (name ++ after) :=
  .token ht (Text.token?_identifier (Text.wellFormed_of_token? ht) hafter) (.same _)
    (by rintro _ ⟨⟩) h

theorem word {word w : Text} (hw : w ∈ capitalWords)
    (ht : t.token? = some (.identifier word, u)) (hword : word.eqIgnoringCase w = true)
    (hafter : Text.NotNext Char.isAlphanum after) (h : Rewrites u after) :
    Rewrites t (w ++ after) := by
  have hname : ∀ w ∈ capitalWords, w.isName = true := by decide
  exact .token ht (Text.token?_identifier (hname w hw) hafter)
    (TokenKind.renderedAs_capitals hw hword) (by rintro _ ⟨⟩) h

theorem keyword {k : Keyword} (hk : k.written ∈ capitalWords) (ht : KeywordAt k t u)
    (hafter : Text.NotNext Char.isAlphanum after) (h : Rewrites u after) :
    Rewrites t (k.written ++ after) := by
  obtain ⟨word, hu, hword⟩ := ht
  exact .word hk hu hword hafter h

theorem nameOrQuoted {text : Text} (ht : nameOrQuoted.outcome t = .matched text u)
    (h : Rewrites u after) : Rewrites t (text.inBackTicks ++ after) := by
  rcases outcome_nameOrQuoted_eq_matched.1 ht with ht | ht
  · exact .token ht (Text.token?_quoted (Text.wellFormed_of_token? ht)) (.same _)
      (by rintro _ ⟨⟩) h
  · refine .token ht (Text.token?_quoted ?_) (.quoted text) (by rintro _ ⟨⟩) h
    exact Text.isQuotableText_of_isName (Text.wellFormed_of_token? ht)

/-- No word `END` follows where canonical text follows that ends an operand. -/
theorem not_keywordAt_end (h : Rewrites u after) (hafter : EndsOperand after) (v : Text) :
    ¬KeywordAt .end_ u v := by
  rintro ⟨word, hv, hword⟩
  cases h with
  | done hnil =>
    have := Text.dropBlanks_of_token? hv
    rw [hnil] at this
    exact Text.written_ne_nil_of_token? hv (List.append_eq_nil_iff.1 this.symm).1
  | token hu htok hkind =>
    rw [hu] at hv
    cases hv
    cases hkind with
    | same =>
      have hno : word.eqIgnoringCase Keyword.end_.written = false := hafter.no_end _ _ htok
      rw [hword] at hno
      cases hno
    | capitals hcapital =>
      obtain ⟨w, hw, hcapital⟩ := hcapital
      have hno := ne_end_of_capital hw
      rw [Text.eqIgnoringCase_iff] at hword hcapital
      rw [Text.eqIgnoringCase_iff.2 (hcapital.symm.trans hword)] at hno
      cases hno
    | quoted => cases hafter.no_end _ _ htok
  | case_ hu hcase =>
    rw [hu] at hv
    cases hv
    cases KeywordAt.eq_of_eqIgnoringCase hcase hword

theorem number {text : Text} (ht : number.outcome t = .matched text u) (hafter : EndsOperand after)
    (h : Rewrites u after) : Rewrites t (text ++ after) := by
  have hdigits : ∀ {t digits : Text}, t.token? = some (.number digits, u) →
      Rewrites t (digits ++ after) := fun hdigits =>
    .token hdigits (Text.token?_number (Text.wellFormed_of_token? hdigits)
      hafter.notNext_goesOnNumeral) (.same _) (fun _ _ => h.not_keywordAt_end hafter) h
  rcases outcome_number_eq_matched.1 ht with ht | ⟨v, digits, rfl, hminus, hv⟩
  · exact hdigits ht
  · exact bracket (s := .minus) hminus (by simp) (by simp)
      (hdigits (Text.adjacentToken?_eq_some_iff.1 hv).2)

theorem operator {o : Operator} (ht : operator.outcome t = .matched o u) (h : Rewrites u after) :
    Rewrites t (o.written ++ ' ' :: after) := by
  obtain ⟨kind, hkind, ho⟩ := outcome_operator_eq_matched.1 ht
  have hspace : ∀ c : Char, c ≠ ' ' → Text.NotNext (· = c) (' ' :: after) := fun c hc =>
    Text.notNext_cons.2 (by simpa using hc.symm)
  cases kind with
  | symbol s =>
    rw [← Operator.written_of_ofSymbol? ho]
    exact symbol hkind (fun _ => hspace '~' (by simp)) (fun _ => hspace '>' (by simp)) h.space
  | identifier word =>
    rw [Operator.ofToken?, Operator.ofWord?] at ho
    have hmem : o ∈ [Operator.in_, .and_, .or_] := List.mem_of_find?_eq_some ho
    have hword : o.written.eqIgnoringCase word = true :=
      List.find?_some (p := fun op : Operator => op.written.eqIgnoringCase word) ho
    have hcapital : ∀ o ∈ [Operator.in_, .and_, .or_], o.written ∈ capitalWords := by decide
    rw [Text.eqIgnoringCase_iff] at hword
    exact .word (hcapital o hmem) hkind (Text.eqIgnoringCase_iff.2 hword.symm)
      (Text.notNext_cons.2 rfl) h.space
  | _ => cases ho

end Rewrites

namespace Production

/-! ## Expressions -/

/-- The text `t` is rewritten as `x` and `after`, where no `END` follows a bare word `CASE`
    at any of the places. -/
def RewritesTo (t x after : Text) (places : List Place) : Prop :=
  Rewrites t (x ++ after) ∧ ∀ place ∈ places, place.NoEndAfterCase

/-- An operand in which no other one stands. -/
theorem rewritesTo_atom {t after : Text} {o : Operand} {depth : Nat}
    (h : Rewrites t (o.render ++ after)) (hplaces : o.places depth after = [⟨o, depth, after⟩])
    (hcase : Place.NoEndAfterCase ⟨o, depth, after⟩) :
    RewritesTo t o.render after (o.places depth after) := by
  rw [RewritesTo, hplaces, List.forall_mem_singleton]
  exact ⟨h, hcase⟩

/-- The closing parenthesis of a call or a group. -/
theorem rewrites_rightParen {t rest after : Text}
    (h : t.token? = some (.symbol .rightParen, rest)) (hrest : Rewrites rest after) :
    Rewrites t (')' :: after) :=
  .bracket (s := .rightParen) h (by simp) (by simp) hrest

theorem rewrites_call {t t₁ t₂ t₃ after name : Text} {distinct : Option Text}
    {arguments : Expression} {depth : Nat} (hname : t.token? = some (.identifier name, t₁))
    (hleft : t₁.token? = some (.symbol .leftParen, t₂))
    (hdistinct : (maybe (keyword .distinct)).outcome t₂ = .matched distinct t₃)
    (harguments : RewritesTo t₃ (Expression.render arguments) (')' :: after)
      (Expression.places (depth + 1) (')' :: after) arguments)) :
    RewritesTo t (Operand.call name distinct.isSome arguments).render after
      (Operand.places depth after (.call name distinct.isSome arguments)) := by
  obtain ⟨harguments, hplaces⟩ := harguments
  have hopened : Rewrites t₂
      ((if distinct.isSome then Keyword.distinct.written ++ [' '] else []) ++
        (Expression.render arguments ++ ')' :: after)) := by
    rcases outcome_maybe_distinct_eq_matched.1 hdistinct with
      ⟨word, rfl, hword, hcapital⟩ | ⟨rfl, rfl, -⟩
    · rw [Option.isSome_some, if_pos rfl, List.append_assoc]
      exact .word (by decide) hword hcapital (Text.notNext_cons.2 rfl) harguments.space
    · exact harguments
  have hrender : (Operand.call name distinct.isSome arguments).render ++ after = name ++ '(' ::
      ((if distinct.isSome then Keyword.distinct.written ++ [' '] else []) ++
        (Expression.render arguments ++ ')' :: after)) := by simp [Operand.render]
  rw [RewritesTo, hrender, Operand.places, List.forall_mem_cons]
  exact ⟨.name hname (Text.notNext_cons.2 rfl)
    (.bracket (s := .leftParen) hleft (by simp) (by simp) hopened), trivial, hplaces⟩

theorem rewrites_group {t t₁ after : Text} {inner : Expression} {depth : Nat}
    (hleft : t.token? = some (.symbol .leftParen, t₁))
    (hinner : RewritesTo t₁ (Expression.render inner) (')' :: after)
      (Expression.places (depth + 1) (')' :: after) inner)) :
    RewritesTo t (Operand.group inner).render after
      (Operand.places depth after (.group inner)) := by
  have hrender : (Operand.group inner).render ++ after =
      '(' :: (Expression.render inner ++ ')' :: after) := by simp [Operand.render]
  rw [RewritesTo, hrender, Operand.places, List.forall_mem_cons]
  exact ⟨.bracket (s := .leftParen) hleft (by simp) (by simp) hinner.1, trivial, hinner.2⟩

theorem rewrites_operand {limit allowance : Nat} {t rest : Text} {o : Operand}
    (ih : ∀ n < allowance, ∀ {t rest after : Text} {e : Expression} {depth : Nat},
      (expression limit n).outcome t = .matched e rest → EndsOperand after →
      Rewrites rest after →
      RewritesTo t (Expression.render e) after (Expression.places depth after e))
    (h : (operand limit (inside limit allowance)).outcome t = .matched o rest) {after : Text}
    {depth : Nat} (hafter : EndsOperand after) (hrest : Rewrites rest after) :
    RewritesTo t o.render after (o.places depth after) := by
  have hclosing := (endsExpression_closing (c := ')') (by simp) after).toEndsOperand
  cases operandReading_of_matched h with
  | call hname hleft hinside hdistinct harguments hright =>
    obtain ⟨n, rfl, hinner⟩ := inside_eq_some hinside
    rw [hinner] at harguments
    exact rewrites_call hname hleft hdistinct
      (ih n (Nat.lt_succ_self n) harguments hclosing (rewrites_rightParen hright hrest))
  | group hleft hinside hinner hright =>
    obtain ⟨n, rfl, heq⟩ := inside_eq_some hinside
    rw [heq] at hinner
    exact rewrites_group hleft
      (ih n (Nat.lt_succ_self n) hinner hclosing (rewrites_rightParen hright hrest))
  | @case_ word u before ending hword hcase hsplit =>
    refine rewritesTo_atom ?_ (by simp [Operand.places]) trivial
    obtain ⟨hnext, hne⟩ := notNext_of_split hword hsplit
    refine .case_ hword hcase hsplit ?_ hrest
    rw [Operand.render, List.append_assoc, List.append_assoc, ← List.append_assoc before]
    exact Text.token?_identifier (Text.wellFormed_of_token? hword) (hnext.append hne after)
  | @property owner name t₁ t₂ _ howner hdot hname hcase =>
    have hdot : Rewrites t₁ ('.' :: (name.inBackTicks ++ after)) :=
      .bracket (s := .dot) hdot (by simp) (by simp) (.nameOrQuoted hname hrest)
    refine rewritesTo_atom ?_ (by simp [Operand.places]) fun howner' hend =>
      hcase owner t₁ howner howner' (hdot.endsCase_of_endsCase hend)
    have hrender : (Operand.property owner name).render ++ after =
        owner ++ '.' :: (name.inBackTicks ++ after) := by simp [Operand.render]
    rw [hrender]
    exact .name howner (Text.notNext_cons.2 rfl) hdot
  | literal hword hliteral =>
    refine rewritesTo_atom ?_ (by simp [Operand.places]) trivial
    have hwritten := List.find?_some (p := fun l : Literal => l.written == _) hliteral
    rw [Operand.render, eq_of_beq hwritten]
    exact .name hword hafter.notNext_isAlphanum hrest
  | identifier hname hliteral hcase =>
    refine rewritesTo_atom ?_ (by simp [Operand.places]) fun hword hend =>
      hcase _ _ hname hword (hrest.endsCase_of_endsCase hend)
    rw [Operand.render]
    exact .name hname hafter.notNext_isAlphanum hrest
  | string hvalue =>
    refine rewritesTo_atom ?_ (by simp [Operand.places]) trivial
    rw [Operand.render]
    exact .nameOrQuoted (outcome_nameOrQuoted_eq_matched.2 (Or.inl hvalue)) hrest
  | number htext =>
    refine rewritesTo_atom ?_ (by simp [Operand.places]) trivial
    rw [Operand.render]
    exact .number htext hafter hrest
  | wildcard hstar =>
    refine rewritesTo_atom ?_ (by simp [Operand.places]) trivial
    rw [Operand.render]
    exact .bracket (s := .star) hstar (by simp) (by simp) hrest

theorem rewrites_expression {limit allowance : Nat} {t rest after : Text} {e : Expression}
    {depth : Nat} (h : (expression limit allowance).outcome t = .matched e rest)
    (hafter : EndsOperand after) (hrest : Rewrites rest after) :
    RewritesTo t (Expression.render e) after (Expression.places depth after e) := by
  induction allowance using Nat.strongRecOn generalizing t rest after e depth with
  | ind allowance ih =>
    rw [expression_eq_chain] at h
    rcases outcome_chain_eq_matched.1 h with ⟨rfl, rfl, -⟩ | ⟨head, tail, u, rfl, hhead, htail⟩
    · exact ⟨hrest, by simp [Expression.places]⟩
    · have hlinks : RewritesTo u (Operand.renderLinks tail) after
          (Operand.placesOfLinks depth after tail) := by
        clear hhead h
        induction htail with
        | stop => exact ⟨hrest, by simp [Operand.placesOfLinks]⟩
        | @step _ _ _ link links hlink _ ihlinks =>
          obtain ⟨o, operand⟩ := link
          obtain ⟨v, hoperator, hoperand⟩ := outcome_link_eq_matched.1 hlink
          obtain ⟨hmore, hplaces⟩ := ihlinks hrest
          obtain ⟨hoperand, hplaces'⟩ := rewrites_operand (fun n hn => ih n hn) hoperand
            (endsOperand_links hafter) hmore
          have hrender : Operand.renderLinks ((o, operand) :: links) ++ after = ' ' ::
              (o.written ++ ' ' :: (operand.render ++ (Operand.renderLinks links ++ after))) := by
            simp [Operand.renderLinks]
          rw [RewritesTo, hrender, Operand.placesOfLinks, List.forall_mem_append]
          exact ⟨(Rewrites.operator hoperator hoperand).space, hplaces', hplaces⟩
      obtain ⟨hhead, hplaces⟩ := rewrites_operand (fun n hn => ih n hn) hhead
        (endsOperand_links hafter) hlinks.1
      rw [RewritesTo, Expression.render, List.append_assoc, Expression.places,
        List.forall_mem_append]
      exact ⟨hhead, hplaces, hlinks.2⟩

/-! ## Patterns -/

theorem rewrites_labelChain {t rest after : Text} {labels : Labels}
    (h : (chain nameOrQuoted).outcome t = .matched labels rest) (hrest : Rewrites rest after) :
    Rewrites t (Labels.render labels ++ after) := by
  rcases outcome_chain_eq_matched.1 h with ⟨rfl, rfl, -⟩ | ⟨head, tail, u, rfl, hhead, htail⟩
  · exact hrest
  · have hlinks : Rewrites u (Chain.renderLinks Text.inBackTicks tail ++ after) := by
      clear hhead h
      induction htail with
      | stop => exact hrest
      | @step _ _ _ link links hlink _ ih =>
        obtain ⟨o, label⟩ := link
        obtain ⟨v, hoperator, hlabel⟩ := outcome_link_eq_matched.1 hlink
        have hrender : Chain.renderLinks Text.inBackTicks ((o, label) :: links) ++ after = ' ' ::
            (o.written ++ ' ' :: (label.inBackTicks ++
              (Chain.renderLinks Text.inBackTicks links ++ after))) := by simp [Chain.renderLinks]
        rw [hrender]
        exact (Rewrites.operator hoperator (.nameOrQuoted hlabel (ih hrest))).space
    rw [Labels.render, Chain.render, List.append_assoc]
    exact .nameOrQuoted hhead hlinks

/-- A name with its labels, up to a bracket. -/
theorem rewrites_labelled {t u rest after name : Text} {labels : Option Labels}
    (hname : t.token? = some (.identifier name, u))
    (hlabels : (maybe Production.labels).outcome u = .matched labels rest)
    (hafter : Text.NotNext Char.isAlphanum after) (hrest : Rewrites rest after) :
    Rewrites t (renderLabelled name labels ++ after) := by
  rw [renderLabelled, List.append_assoc]
  rcases outcome_maybe_labels_eq_matched.1 hlabels with
    ⟨labels, v, rfl, hcolon, hlabels⟩ | ⟨rfl, rfl, -⟩
  · exact .name hname (Text.notNext_cons.2 rfl) (.bracket (s := .colon) hcolon (by simp) (by simp)
      (rewrites_labelChain hlabels hrest))
  · exact .name hname hafter hrest

theorem rewrites_node {t rest after : Text} {n : Node} (h : node.outcome t = .matched n rest)
    (hrest : Rewrites rest after) : Rewrites t (n.render ++ after) := by
  obtain ⟨t₁, t₂, t₃, hleft, hname, hlabels, hright⟩ := outcome_node_eq_matched.1 h
  have hrender : n.render ++ after = '(' :: (renderLabelled n.name n.labels ++ ')' :: after) := by
    simp [Node.render]
  rw [hrender]
  exact .bracket (s := .leftParen) hleft (by simp) (by simp) (rewrites_labelled hname hlabels
    (Text.notNext_cons.2 rfl) (.bracket (s := .rightParen) hright (by simp) (by simp) hrest))

theorem rewrites_relationship {t rest after : Text} {r : Relationship}
    (h : relationship.outcome t = .matched r rest) (hrest : Rewrites rest after) :
    Rewrites t (r.render ++ after) := by
  obtain ⟨t₁, t₂, t₃, hleft, hname, hlabels, hright⟩ := outcome_relationship_eq_matched.1 h
  have hrender : r.render ++ after = '[' :: (renderLabelled r.name r.types ++ ']' :: after) := by
    simp [Relationship.render]
  rw [hrender]
  exact .bracket (s := .leftBracket) hleft (by simp) (by simp) (rewrites_labelled hname hlabels
    (Text.notNext_cons.2 rfl) (.bracket (s := .rightBracket) hright (by simp) (by simp) hrest))

theorem rewrites_edge {t rest after : Text} {e : Edge} (h : edge.outcome t = .matched e rest)
    (hrest : Rewrites rest after) : Rewrites t (e.render ++ after) := by
  obtain ⟨t₁, t₂, hleft, hrelationship, hright⟩ := outcome_edge_eq_matched.1 h
  have hright' : Rewrites t₂ (e.right.written ++ after) := by
    rcases outcome_rightMark_eq_matched.1 hright with ⟨hmark, u, hminus, hu⟩ | ⟨hmark, hminus, -⟩
    · rw [hmark]
      exact .bracket (s := .minus) hminus (by simp) (by simp) (.bracket (s := .greater)
        (Text.adjacentToken?_eq_some_iff.1 hu).2 (by simp) (by simp) hrest)
    · rw [hmark]
      exact .bracket (s := .minus) hminus (by simp) (by simp) hrest
  have hmiddle := rewrites_relationship hrelationship hright'
  rw [Edge.render, List.append_assoc, List.append_assoc]
  rcases outcome_leftMark_eq_matched.1 hleft with ⟨hmark, u, hless, hu⟩ | ⟨hmark, hminus⟩
  · rw [hmark]
    exact .symbol (s := .less) hless (by simp) (fun _ => Text.notNext_cons.2 rfl) (.bracket
      (s := .minus) (Text.adjacentToken?_eq_some_iff.1 hu).2 (by simp) (by simp) hmiddle)
  · rw [hmark]
    exact .bracket (s := .minus) hminus (by simp) (by simp) hmiddle

theorem rewrites_path {t rest after : Text} {p : Path} (h : path.outcome t = .matched p rest)
    (hrest : Rewrites rest after) : Rewrites t (p.render ++ after) := by
  rcases outcome_path_eq_matched.1 h with ⟨rfl, rfl, -⟩ | ⟨start, steps, u, rfl, hstart, hsteps⟩
  · exact hrest
  · rw [Path.render, Option.map_some, Option.getD_some, List.append_assoc]
    refine rewrites_node hstart ?_
    clear hstart h
    induction hsteps with
    | stop => exact hrest
    | step hstep _ ih =>
      obtain ⟨v, hedge, hnode⟩ := outcome_step_eq_matched.1 hstep
      rw [List.flatMap_cons, Step.render, List.append_assoc, List.append_assoc]
      exact rewrites_edge hedge (rewrites_node hnode (ih hrest))

theorem render_of_isEmpty {t rest : Text} {p : Path} (h : path.outcome t = .matched p rest)
    (hempty : p.isEmpty = true) : p.render = [] := by
  rcases outcome_path_eq_matched.1 h with ⟨rfl, -⟩ | ⟨start, steps, u, rfl, -⟩
  · rfl
  · cases hempty

theorem rewrites_paths {t rest after : Text} {ps : List Path}
    (h : paths.outcome t = .matched ps rest) (hrest : Rewrites rest after) :
    Rewrites t (renderPaths ps ++ after) := by
  rcases outcome_commaList_eq_matched.1 h with ⟨rfl, rfl, -⟩ | ⟨head, tail, u, rfl, hhead, htail⟩
  · exact hrest
  have hmore : Rewrites u
      (((tail.map Prod.snd).map Path.render).flatMap (fun y => ',' :: ' ' :: y) ++ after) := by
    clear hhead h
    induction htail with
    | stop => exact hrest
    | step hlink _ ih =>
      obtain ⟨v, hcomma, hpath⟩ := outcome_link_eq_matched.1 hlink
      simp only [List.map_cons, List.flatMap_cons, List.append_assoc, List.cons_append]
      exact .bracket (s := .comma) (outcome_symbol_eq_matched.1 hcomma) (by simp) (by simp)
        (rewrites_path hpath (ih hrest)).space
  have hall := rewrites_path hhead hmore
  rcases dropLoneBlank_cons Path.isEmpty head (tail.map Prod.snd) with
    ⟨hkeep, -⟩ | ⟨hdrop, hnil, hblank⟩
  · rw [hkeep, renderPaths, List.isEmpty_cons, if_neg (by simp), List.map_cons,
      Text.commaJoined_cons, List.cons_append, List.append_assoc]
    exact hall.space
  · rw [hdrop]
    rwa [hnil, render_of_isEmpty hhead hblank] at hall

/-! ## Clauses -/

theorem rewrites_condition {limit : Nat} {t rest after : Text} {condition : Option Expression}
    (h : (optional (whereClause limit)).outcome t = .matched condition rest)
    (hafter : EndsOperand after) (hrest : Rewrites rest after) :
    RewritesTo t ((condition.map renderCondition).getD []) after
      (placesOfCondition after condition) := by
  rcases outcome_optional_eq_matched.1 h with ⟨e, rfl, hwhere⟩ | ⟨rfl, rfl, -⟩
  · obtain ⟨u, hu, hcondition⟩ := outcome_whereClause_eq_matched.1 hwhere
    have he : RewritesTo u (Expression.render e) after (Expression.places 0 after e) := by
      rcases hcondition with ⟨-, rfl, rfl⟩ | ⟨-, he⟩
      · exact ⟨hrest, by simp [Expression.places]⟩
      · exact rewrites_expression he hafter hrest
    refine ⟨?_, he.2⟩
    rw [Option.map_some, Option.getD_some, renderCondition, List.cons_append, List.cons_append,
      List.append_assoc]
    refine (Rewrites.keyword (by decide) hu ?_ ?_).space
    · split
      exacts [hafter.notNext_isAlphanum, Text.notNext_cons.2 rfl]
    · split
      · rename_i hempty
        obtain rfl := Chain.isEmpty_iff.1 hempty
        exact he.1
      · exact he.1.space
  · exact ⟨hrest, by simp [placesOfCondition]⟩

theorem rewrites_matchKind {k : MatchKind} {t u after : Text} (h : MatchKindAt k t u)
    (hafter : Text.NotNext Char.isAlphanum after) (hrest : Rewrites u after) :
    Rewrites t (k.written ++ after) := by
  cases k with
  | required => exact .keyword (by decide) h hafter hrest
  | optional =>
    obtain ⟨v, hoptional, hmatch⟩ := h
    simp only [MatchKind.written, List.append_assoc, List.singleton_append]
    exact .keyword (by decide) hoptional (Text.notNext_cons.2 rfl)
      (Rewrites.keyword (by decide) hmatch hafter hrest).space

theorem rewrites_matchClause {limit : Nat} {t rest after : Text} {clause : MatchClause}
    (h : (matchClause limit).outcome t = .matched clause rest) (hafter : EndsOperand (' ' :: after))
    (hrest : Rewrites rest (' ' :: after)) :
    RewritesTo t clause.render (' ' :: after)
      (placesOfCondition (' ' :: after) clause.condition) := by
  obtain ⟨u, v, hkind, hpaths, hcondition⟩ := outcome_matchClause_eq_matched.1 h
  obtain ⟨hcondition, hplaces⟩ := rewrites_condition hcondition hafter hrest
  refine ⟨?_, hplaces⟩
  rw [renderClause_append]
  exact rewrites_matchKind hkind (atGap_afterKind clause after).notNext_isAlphanum
    (rewrites_paths hpaths hcondition)

theorem rewrites_clauses {limit : Nat} {t rest : Text} {clauses : List MatchClause}
    {returns : List ReturnItem} (h : (matchClause limit).Repeats t clauses rest)
    (hrest : Rewrites rest (renderReturns returns)) :
    Rewrites t (renderClauses clauses (renderReturns returns)) ∧
      ∀ place ∈ placesOfClauses (renderReturns returns) clauses, place.NoEndAfterCase := by
  induction h with
  | stop => exact ⟨hrest, by simp [placesOfClauses]⟩
  | @step _ _ _ clause clauses hclause _ ih =>
    obtain ⟨hmore, hplaces⟩ := ih hrest
    obtain ⟨hclause, hplaces'⟩ := rewrites_matchClause hclause
      (beginsClause_renderClauses clauses returns).ends.toEndsOperand hmore.space
    rw [renderClauses_cons, placesOfClauses, List.forall_mem_append]
    exact ⟨hclause, hplaces', hplaces⟩

/-! ## Items -/

theorem rewrites_alias {t rest after : Text} {name : Option Text}
    (h : (optional aliasName).outcome t = .matched name rest) (hrest : Rewrites rest after) :
    Rewrites t (renderAlias name ++ after) := by
  rcases outcome_optional_eq_matched.1 h with ⟨n, rfl, halias⟩ | ⟨rfl, rfl, -⟩
  · obtain ⟨u, hu, hname⟩ := outcome_aliasName_eq_matched.1 halias
    have hrender : renderAlias (some n) ++ after =
        ' ' :: (Keyword.as_.written ++ ' ' :: (n.inBackTicks ++ after)) := by simp [renderAlias]
    rw [hrender]
    exact (Rewrites.keyword (by decide) hu (Text.notNext_cons.2 rfl)
      (Rewrites.nameOrQuoted hname hrest).space).space
  · exact hrest

theorem rewrites_returnItem {limit : Nat} {t rest after : Text} {item : ReturnItem}
    (h : (returnItem limit).outcome t = .matched item rest) (hafter : EndsItem after)
    (hrest : Rewrites rest after) : RewritesTo t item.render after
      (Expression.places 0 (renderAlias item.aliasName ++ after) item.expression) := by
  obtain ⟨u, he, halias⟩ := outcome_returnItem_eq_matched.1 h
  have hrender : item.render ++ after =
      Expression.render item.expression ++ (renderAlias item.aliasName ++ after) := by
    simp [ReturnItem.render, renderAlias]
  rw [RewritesTo, hrender]
  exact rewrites_expression he (endsExpression_alias hafter).toEndsOperand
    (rewrites_alias halias hrest)

theorem render_of_isBlank {item : ReturnItem} (h : item.isBlank = true) : item.render = [] := by
  obtain ⟨expression, aliasName⟩ := item
  simp only [ReturnItem.isBlank, Bool.and_eq_true, Chain.isEmpty_iff,
    Option.isNone_iff_eq_none] at h
  obtain ⟨rfl, rfl⟩ := h
  simp [ReturnItem.render, Expression.render]

theorem rewrites_items {limit : Nat} {t rest : Text} {items : List ReturnItem}
    (h : (commaList ReturnItem.isBlank (returnItem limit)).outcome t = .matched items rest)
    (hrest : Rewrites rest []) :
    Rewrites t (if items.isEmpty then [] else
      ' ' :: Text.commaJoined (items.map ReturnItem.render)) ∧
      ∀ place ∈ placesOfItems items, place.NoEndAfterCase := by
  rcases outcome_commaList_eq_matched.1 h with ⟨rfl, rfl, -⟩ | ⟨head, tail, u, rfl, hhead, htail⟩
  · exact ⟨hrest, by simp [placesOfItems]⟩
  have hmore : Rewrites u (renderItemsAfter (tail.map Prod.snd)) ∧
      ∀ place ∈ placesOfItems (tail.map Prod.snd), place.NoEndAfterCase := by
    clear hhead h
    induction htail with
    | stop => exact ⟨hrest, by simp [placesOfItems]⟩
    | @step _ _ _ link links hlink _ ih =>
      obtain ⟨v, hcomma, hitem⟩ := outcome_link_eq_matched.1 hlink
      obtain ⟨hmore, hplaces⟩ := ih hrest
      obtain ⟨hitem, hplaces'⟩ := rewrites_returnItem hitem (endsItem_renderItemsAfter _) hmore
      rw [List.map_cons, placesOfItems, List.forall_mem_append]
      exact ⟨.bracket (s := .comma) (outcome_symbol_eq_matched.1 hcomma) (by simp) (by simp)
        hitem.space, hplaces', hplaces⟩
  obtain ⟨hall, hplaces⟩ := rewrites_returnItem hhead (endsItem_renderItemsAfter _) hmore.1
  rcases dropLoneBlank_cons ReturnItem.isBlank head (tail.map Prod.snd) with
    ⟨hkeep, -⟩ | ⟨hdrop, hnil, hblank⟩
  · rw [hkeep, List.isEmpty_cons, if_neg (by simp), List.map_cons, Text.commaJoined_cons,
      List.flatMap_map, placesOfItems, List.forall_mem_append]
    exact ⟨hall.space, hplaces, hmore.2⟩
  · rw [hdrop]
    rw [hnil, render_of_isBlank hblank] at hall
    exact ⟨hall, by simp [placesOfItems]⟩

/-! ## Queries -/

theorem rewrites_query {limit : Nat} {t rest : Text} {q : Query}
    (h : (query limit).outcome t = .matched q rest) :
    ∃ u, (optional startClause).outcome t = .matched q.start u ∧
      Rewrites u (renderClauses q.clauses (renderReturns q.returns)) ∧
      ∀ place ∈ q.places, place.NoEndAfterCase := by
  obtain ⟨t₁, t₂, t₃, hstart, hclauses, hreturn, hitems, hnil⟩ := outcome_query_eq_matched.1 h
  obtain ⟨hitems, hplaces⟩ := rewrites_items hitems (.done hnil rfl)
  obtain ⟨hclauses, hplaces'⟩ := rewrites_clauses hclauses
    (.keyword (by decide) hreturn (atGap_returns q.returns).notNext_isAlphanum hitems)
  rw [Query.places, List.forall_mem_append]
  exact ⟨t₁, hstart, hclauses, hplaces', hplaces⟩

end Production

namespace Query

open Production

/-- Where a bare word `CASE` was read, no word `END` follows in the canonical text. -/
theorem noEndAfterCase_of_parse {limit : Nat} {source : Text} {q : Query}
    (h : parse limit source = .ok q) : ∀ place ∈ q.places, place.NoEndAfterCase := by
  obtain ⟨rest, h⟩ := parse_eq_ok_iff.1 h
  obtain ⟨u, -, -, hplaces⟩ := rewrites_query h
  exact hplaces

/-- No token is lost, added or moved: a query without the words `START` and `CASE` has the
    tokens of its canonical text, one by one. -/
theorem forall₂_tokens_of_parse {limit : Nat} {source : Text} {q : Query}
    (h : parse limit source = .ok q)
    (hstart : ∀ token ∈ (tokenize source).tokens.head?,
      token.kind.isWord Keyword.start.written = false)
    (hcase : ∀ token ∈ (tokenize source).tokens,
      token.kind.isWord Keyword.case_.written = false) :
    (tokenize source).errors = [] ∧ (tokenize q.render).errors = [] ∧
      List.Forall₂ (fun a b => a.kind.RenderedAs b.kind) (tokenize source).tokens
        (tokenize q.render).tokens := by
  obtain ⟨rest, h⟩ := parse_eq_ok_iff.1 h
  obtain ⟨u, hbody, hrewrites, -⟩ := rewrites_query h
  rcases outcome_optional_eq_matched.1 hbody with ⟨body, -, hbody⟩ | ⟨hnone, rfl, -⟩
  · obtain ⟨v, before, ⟨word, hword, hfirst⟩, -⟩ := outcome_startClause_eq_matched.1 hbody
    obtain ⟨span, after, -, hlexed⟩ := Cursor.lexed_of_token? (c := .start source) hword
    have hno : word.eqIgnoringCase Keyword.start.written = false :=
      hstart ⟨.identifier word, span⟩ (by rw [tokenize, hlexed]; rfl)
    rw [hfirst] at hno
    cases hno
  · have hrender : q.render = renderClauses q.clauses (renderReturns q.returns) := by
      simp [Query.render, renderClauses, renderReturns, hnone]
    exact (hrender ▸ hrewrites).forall₂_tokens (c := .start u) (d := .start q.render) rfl rfl hcase

/-- Keywords in small letters, a label that is put in back-ticks, and a negative number. -/
theorem forall₂_tokens_of_parse_words :
    let source := "match (a:B)-[r]->(c) where return f(distinct a)in -1 as x,".toList
    let path : Path := ⟨some ⟨['a'], some (.cons ['B'] [])⟩,
      [⟨⟨.line, ⟨['r'], none⟩, .arrow⟩, ⟨['c'], none⟩⟩]⟩
    let e : Expression := .cons (.call ['f'] true (.cons (.identifier ['a']) []))
      [(.in_, .number ['-', '1'])]
    let q : Query := ⟨none, [⟨.required, [path], some .empty⟩], [⟨e, some ['x']⟩, ⟨.empty, none⟩]⟩
    parse 1 source = .ok q ∧ List.Forall₂ (fun a b => a.kind.RenderedAs b.kind)
      (tokenize source).tokens (tokenize q.render).tokens := by
  intro source path e q
  have h : parse 1 source = .ok q := by decide +kernel
  have hstart : ∀ token ∈ (tokenize source).tokens.head?,
      token.kind.isWord Keyword.start.written = false := by decide +kernel
  have hcase : ∀ token ∈ (tokenize source).tokens,
      token.kind.isWord Keyword.case_.written = false := by decide +kernel
  exact ⟨h, (forall₂_tokens_of_parse h hstart hcase).2.2⟩

end Query

end Cypher
