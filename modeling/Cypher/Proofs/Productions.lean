/-
  The productions of the grammar — what a match of each of them says.

  * `outcome_node_eq_matched` to `outcome_path_eq_matched`: the parts of a
    pattern, token by token;
  * `OperandReading`: the nine ways in which an operand is read, each with the
    facts about earlier alternatives that matter later
    (`operandReading_of_matched`);
  * `outcome_matchClause_eq_matched` to `outcome_query_eq_matched`: the clauses
    of a query.
-/
import Cypher.Proofs.Matching

namespace Cypher

namespace Production

variable {α : Type}

/-! ## Patterns -/

@[simp] theorem outcome_chain_ne_missed {p : Production α} {t rest : Text} :
    (chain p).outcome t ≠ .missed rest := by
  simp only [chain, ne_eq, outcome_bind_eq_missed, outcome_separated_ne_missed, false_or]
  rintro ⟨_ | ⟨head, tail⟩, u, -, h⟩ <;> simp at h

/-- What may stand after a name: a colon with labels, or nothing. -/
theorem outcome_maybe_labels_eq_matched {t rest : Text} {o : Option Labels} :
    (maybe labels).outcome t = .matched o rest ↔
      (∃ c u, o = some c ∧ t.token? = some (.symbol .colon, u) ∧
        (chain nameOrQuoted).outcome u = .matched c rest) ∨
      o = none ∧ rest = t ∧ ∀ u, t.token? ≠ some (.symbol .colon, u) := by
  simp only [outcome_maybe_eq_matched, labels, outcome_bind_eq_matched, outcome_bind_eq_missed,
    outcome_symbol_eq_matched, outcome_symbol_eq_missed, outcome_chain_ne_missed, and_false,
    exists_false, or_false]
  refine or_congr ⟨?_, ?_⟩ Iff.rfl
  · rintro ⟨c, rfl, -, u, hu, hc⟩; exact ⟨c, u, rfl, hu, hc⟩
  · rintro ⟨c, u, rfl, hu, hc⟩; exact ⟨c, rfl, (), u, hu, hc⟩

/-- A name with its labels between two brackets. -/
theorem outcome_labelled_eq_matched {left right : Symbol} {make : Text → Option Labels → α}
    {t rest : Text} {a : α} :
    (attempt do
      symbol left
      let name ← identifier
      let labels ← maybe labels
      symbol right
      return make name labels).outcome t = .matched a rest ↔
    ∃ name labels' t₁ t₂ t₃, a = make name labels' ∧ t.token? = some (.symbol left, t₁) ∧
      t₁.token? = some (.identifier name, t₂) ∧
      (maybe labels).outcome t₂ = .matched labels' t₃ ∧ t₃.token? = some (.symbol right, rest) := by
  simp only [outcome_attempt_eq_matched, outcome_bind_eq_matched, outcome_symbol_eq_matched,
    outcome_identifier_eq_matched, outcome_pure, Outcome.matched.injEq]
  constructor
  · rintro ⟨-, t₁, h₁, name, t₂, h₂, labels', t₃, h₃, -, t₄, h₄, rfl, rfl⟩
    exact ⟨name, labels', t₁, t₂, t₃, rfl, h₁, h₂, h₃, h₄⟩
  · rintro ⟨name, labels', t₁, t₂, t₃, rfl, h₁, h₂, h₃, h₄⟩
    exact ⟨(), t₁, h₁, name, t₂, h₂, labels', t₃, h₃, (), rest, h₄, rfl, rfl⟩

theorem outcome_node_eq_matched {t rest : Text} {n : Node} :
    node.outcome t = .matched n rest ↔
      ∃ t₁ t₂ t₃, t.token? = some (.symbol .leftParen, t₁) ∧
        t₁.token? = some (.identifier n.name, t₂) ∧
        (maybe labels).outcome t₂ = .matched n.labels t₃ ∧
        t₃.token? = some (.symbol .rightParen, rest) := by
  rw [node, outcome_labelled_eq_matched]
  constructor
  · rintro ⟨name, labels', t₁, t₂, t₃, rfl, h⟩; exact ⟨t₁, t₂, t₃, h⟩
  · rintro ⟨t₁, t₂, t₃, h⟩; exact ⟨n.name, n.labels, t₁, t₂, t₃, rfl, h⟩

theorem outcome_relationship_eq_matched {t rest : Text} {r : Relationship} :
    relationship.outcome t = .matched r rest ↔
      ∃ t₁ t₂ t₃, t.token? = some (.symbol .leftBracket, t₁) ∧
        t₁.token? = some (.identifier r.name, t₂) ∧
        (maybe labels).outcome t₂ = .matched r.types t₃ ∧
        t₃.token? = some (.symbol .rightBracket, rest) := by
  rw [relationship, outcome_labelled_eq_matched]
  constructor
  · rintro ⟨name, labels', t₁, t₂, t₃, rfl, h⟩; exact ⟨t₁, t₂, t₃, h⟩
  · rintro ⟨t₁, t₂, t₃, h⟩; exact ⟨r.name, r.types, t₁, t₂, t₃, rfl, h⟩

/-- An arrow with the value `a`, or a minus sign alone with the value `b`. -/
def mark (e : Expectation) (first second : Symbol) (a b : α) : Production α :=
  (fun _ => a) <$> arrow e first second <|> (fun _ => b) <$> symbol .minus

theorem outcome_mark_eq_matched {e : Expectation} {first second : Symbol} {a b c : α}
    {t rest : Text} : (mark e first second a b).outcome t = .matched c rest ↔
      (c = a ∧ ∃ u, t.token? = some (.symbol first, u) ∧
        u.adjacentToken? = some (.symbol second, rest)) ∨
      c = b ∧ t.token? = some (.symbol .minus, rest) ∧
        ∀ u v, t.token? = some (.symbol first, u) →
          u.adjacentToken? ≠ some (.symbol second, v) := by
  simp only [mark, outcome_orElse_eq_matched, outcome_map_eq_matched, outcome_map_eq_missed,
    outcome_arrow_eq_matched, outcome_arrow_eq_missed, outcome_symbol_eq_matched]
  grind

theorem stays_mark {e : Expectation} {first second : Symbol} {a b : α} :
    (mark e first second a b).Stays :=
  stays_orElse (stays_map (fun h => (outcome_arrow_eq_missed.1 h).1) _)
    (stays_map (stays_token _ _) _)

theorem outcome_leftMark_eq_matched {t rest : Text} {m : LeftMark} :
    leftMark.outcome t = .matched m rest ↔
      (m = .arrow ∧ ∃ u, t.token? = some (.symbol .less, u) ∧
        u.adjacentToken? = some (.symbol .minus, rest)) ∨
      m = .line ∧ t.token? = some (.symbol .minus, rest) :=
  outcome_mark_eq_matched.trans (by grind)

theorem outcome_rightMark_eq_matched {t rest : Text} {m : RightMark} :
    rightMark.outcome t = .matched m rest ↔
      (m = .arrow ∧ ∃ u, t.token? = some (.symbol .minus, u) ∧
        u.adjacentToken? = some (.symbol .greater, rest)) ∨
      m = .line ∧ t.token? = some (.symbol .minus, rest) ∧
        ∀ v, rest.adjacentToken? ≠ some (.symbol .greater, v) :=
  outcome_mark_eq_matched.trans (by grind)

theorem outcome_edge_eq_matched {t rest : Text} {e : Edge} :
    edge.outcome t = .matched e rest ↔
      ∃ t₁ t₂, leftMark.outcome t = .matched e.left t₁ ∧
        relationship.outcome t₁ = .matched e.relationship t₂ ∧
        rightMark.outcome t₂ = .matched e.right rest := by
  simp only [edge, outcome_attempt_eq_matched, outcome_bind_eq_matched, outcome_pure,
    Outcome.matched.injEq]
  constructor
  · rintro ⟨left, t₁, h₁, r, t₂, h₂, right, t₃, h₃, rfl, rfl⟩; exact ⟨t₁, t₂, h₁, h₂, h₃⟩
  · rintro ⟨t₁, t₂, h₁, h₂, h₃⟩; exact ⟨_, t₁, h₁, _, t₂, h₂, _, rest, h₃, rfl, rfl⟩

theorem outcome_step_eq_matched {t rest : Text} {s : Step} :
    step.outcome t = .matched s rest ↔
      ∃ u, edge.outcome t = .matched s.edge u ∧ node.outcome u = .matched s.node rest := by
  simp only [step, outcome_bind_eq_matched, outcome_pure, Outcome.matched.injEq]
  constructor
  · rintro ⟨e, u, he, n, v, hn, rfl, rfl⟩; exact ⟨u, he, hn⟩
  · rintro ⟨u, he, hn⟩; exact ⟨_, u, he, _, rest, hn, rfl, rfl⟩

theorem advances_node : node.Advances := by
  intro t rest n h
  obtain ⟨t₁, t₂, t₃, h₁, h₂, h₃, h₄⟩ := outcome_node_eq_matched.1 h
  have := Text.length_lt_of_token? h₁
  have := Text.length_lt_of_token? h₂
  have := (suffix_of_matched h₃).length_le
  have := Text.length_lt_of_token? h₄
  omega

theorem advances_step : step.Advances := by
  intro t rest s h
  obtain ⟨u, he, hn⟩ := outcome_step_eq_matched.1 h
  exact Nat.lt_of_lt_of_le (advances_node hn) (suffix_of_matched he).length_le

theorem outcome_path_eq_matched {t rest : Text} {p : Path} :
    path.outcome t = .matched p rest ↔
      p = .empty ∧ rest = t ∧ node.Misses t ∨
      ∃ start steps u, p = ⟨some start, steps⟩ ∧ node.outcome t = .matched start u ∧
        step.Repeats u steps rest := by
  have hmiss : ∀ {u : Text}, node.outcome t = .missed u ↔ u = t ∧ node.Misses t := by
    intro u
    constructor
    · intro h; exact ⟨(outcome_attempt_eq_missed.1 h).1, u, h⟩
    · rintro ⟨rfl, v, hv⟩
      obtain ⟨rfl, -⟩ := outcome_attempt_eq_missed.1 hv
      exact hv
  simp only [path, outcome_bind_eq_matched, outcome_maybe_eq_matched, hmiss]
  constructor
  · rintro ⟨o, u, ⟨start, rfl, hstart⟩ | ⟨rfl, rfl, hm⟩, h⟩
    · obtain ⟨steps, v, hsteps, hp⟩ := outcome_bind_eq_matched.1 h
      cases hp
      exact Or.inr ⟨start, steps, u, rfl, hstart, (outcome_many_eq_matched advances_step).1 hsteps⟩
    · cases h; exact Or.inl ⟨rfl, rfl, hm⟩
  · rintro (⟨rfl, rfl, hm⟩ | ⟨start, steps, u, rfl, hstart, hsteps⟩)
    · exact ⟨none, rest, Or.inr ⟨rfl, rfl, hm⟩, rfl⟩
    · refine ⟨some start, u, Or.inl ⟨start, rfl, hstart⟩, outcome_bind_eq_matched.2 ?_⟩
      exact ⟨steps, rest, (outcome_many_eq_matched advances_step).2 hsteps, rfl⟩

/-! ## Operands -/

/-- What a call or a group may hold, where calls and groups may be nested
    `allowance` deep. -/
def inside (limit : Nat) : (allowance : Nat) → Option (Unit → Production Expression)
  | 0 => none
  | allowance + 1 => some fun _ => expression limit allowance

theorem expression_eq_chain (limit allowance : Nat) :
    expression limit allowance = chain (operand limit (inside limit allowance)) := by
  cases allowance <;> rw [expression, inside]

theorem inside_eq_some {limit allowance : Nat} {inner : Unit → Production Expression}
    (h : inside limit allowance = some inner) :
    ∃ n, allowance = n + 1 ∧ inner () = expression limit n := by
  cases allowance with
  | zero => cases h
  | succ n => cases h; exact ⟨n, rfl, rfl⟩

/-- The text that follows a word `CASE` holds the word `END`. -/
def endsCase (t : Text) : Prop :=
  (Text.splitAtWord? Keyword.end_.written t).isSome = true

/-- No verbatim expression starts here: the next word is not `CASE`, or no `END`
    follows it. -/
def NoCaseAt (t : Text) : Prop :=
  ∀ word u, t.token? = some (.identifier word, u) →
    word.eqIgnoringCase Keyword.case_.written = true → ¬endsCase u

theorem outcome_nested_eq_matched {limit : Nat} {inside : Option (Unit → Production Expression)}
    {body : Production Expression → Production α} {t rest : Text} {a : α} :
    (nested limit inside body).outcome t = .matched a rest ↔
      ∃ inner, inside = some inner ∧ (body (inner ())).outcome t = .matched a rest := by
  cases inside with
  | none => simp [nested, outcome]
  | some inner => simp [nested]

theorem outcome_call_eq_matched {limit : Nat} {inside : Option (Unit → Production Expression)}
    {t rest : Text} {o : Operand} : (call limit inside).outcome t = .matched o rest ↔
      ∃ name distinct arguments inner t₁ t₂ t₃ t₄,
        o = .call name (Option.isSome distinct) arguments ∧
        t.token? = some (.identifier name, t₁) ∧ t₁.token? = some (.symbol .leftParen, t₂) ∧
        inside = some inner ∧ (maybe (keyword .distinct)).outcome t₂ = .matched distinct t₃ ∧
        (inner ()).outcome t₃ = .matched arguments t₄ ∧
        t₄.token? = some (.symbol .rightParen, rest) := by
  simp only [call, outcome_nested_eq_matched, outcome_bind_eq_matched,
    outcome_identifier_eq_matched, outcome_symbol_eq_matched, outcome_pure, Outcome.matched.injEq]
  constructor
  · rintro ⟨name, t₁, h₁, -, t₂, h₂, inner, hi, d, t₃, hd, args, t₄, ha, -, t₅, h₅, rfl, rfl⟩
    exact ⟨name, d, args, inner, t₁, t₂, t₃, t₄, rfl, h₁, h₂, hi, hd, ha, h₅⟩
  · rintro ⟨name, d, args, inner, t₁, t₂, t₃, t₄, rfl, h₁, h₂, hi, hd, ha, h₅⟩
    exact ⟨name, t₁, h₁, (), t₂, h₂, inner, hi, d, t₃, hd, args, t₄, ha, (), rest, h₅, rfl, rfl⟩

theorem outcome_group_eq_matched {limit : Nat} {inside : Option (Unit → Production Expression)}
    {t rest : Text} {o : Operand} : (group limit inside).outcome t = .matched o rest ↔
      ∃ expression inner t₁ t₂, o = .group expression ∧
        t.token? = some (.symbol .leftParen, t₁) ∧ inside = some inner ∧
        (inner ()).outcome t₁ = .matched expression t₂ ∧
        t₂.token? = some (.symbol .rightParen, rest) := by
  simp only [group, outcome_nested_eq_matched, outcome_bind_eq_matched,
    outcome_symbol_eq_matched, outcome_pure, Outcome.matched.injEq]
  constructor
  · rintro ⟨-, t₁, h₁, inner, hi, e, t₂, he, -, t₃, h₃, rfl, rfl⟩
    exact ⟨e, inner, t₁, t₂, rfl, h₁, hi, he, h₃⟩
  · rintro ⟨e, inner, t₁, t₂, rfl, h₁, hi, he, h₃⟩
    exact ⟨(), t₁, h₁, inner, hi, e, t₂, he, (), rest, h₃, rfl, rfl⟩

theorem outcome_property_eq_matched {t rest : Text} {o : Operand} :
    property.outcome t = .matched o rest ↔
      ∃ owner name t₁ t₂, o = .property owner name ∧ t.token? = some (.identifier owner, t₁) ∧
        t₁.token? = some (.symbol .dot, t₂) ∧ nameOrQuoted.outcome t₂ = .matched name rest := by
  simp only [property, outcome_bind_eq_matched, outcome_identifier_eq_matched,
    outcome_symbol_eq_matched, outcome_pure, Outcome.matched.injEq]
  constructor
  · rintro ⟨owner, t₁, h₁, -, t₂, h₂, name, t₃, h₃, rfl, rfl⟩
    exact ⟨owner, name, t₁, t₂, rfl, h₁, h₂, h₃⟩
  · rintro ⟨owner, name, t₁, t₂, rfl, h₁, h₂, h₃⟩
    exact ⟨owner, t₁, h₁, (), t₂, h₂, name, rest, h₃, rfl, rfl⟩

theorem misses_call_of {limit : Nat} {inside : Option (Unit → Production Expression)} {t : Text}
    (h : ∀ name u, t.token? = some (.identifier name, u) →
      ∀ v, u.token? ≠ some (.symbol .leftParen, v)) : (call limit inside).Misses t := by
  simp only [Misses, call, outcome_bind_eq_missed, outcome_identifier_eq_missed,
    outcome_identifier_eq_matched, outcome_symbol_eq_missed]
  by_cases hid : ∃ name u, t.token? = some (.identifier name, u)
  · obtain ⟨name, u, hu⟩ := hid
    exact ⟨u, Or.inr ⟨name, u, hu, Or.inl ⟨rfl, h name u hu⟩⟩⟩
  · exact ⟨t, Or.inl ⟨rfl, fun name u hu => hid ⟨name, u, hu⟩⟩⟩

theorem outcome_caseExpression_eq_matched {t rest : Text} {o : Operand} :
    caseExpression.outcome t = .matched o rest ↔
      ∃ word u before ending, t.token? = some (.identifier word, u) ∧
        word.eqIgnoringCase Keyword.case_.written = true ∧
        Text.splitAtWord? Keyword.end_.written u = some (before, ending) ∧
        o = .case_ (word ++ (before ++ ending.take Keyword.end_.written.length)) ∧
        rest = ending.drop Keyword.end_.written.length := by
  simp only [caseExpression, outcome_bind_eq_matched, outcome_keyword_eq_matched, outcome_pure,
    Outcome.matched.injEq]
  constructor
  · rintro ⟨word, u, ⟨hu, hword⟩, text, v, hv, rfl, rfl⟩
    simp only [outcome] at hv
    split at hv
    · rename_i before ending hsplit
      cases hv
      exact ⟨word, u, before, ending, hu, hword, hsplit, rfl, rfl⟩
    · cases hv
  · rintro ⟨word, u, before, ending, hu, hword, hsplit, rfl, rfl⟩
    exact ⟨word, u, ⟨hu, hword⟩, _, _, by simp only [outcome, hsplit], rfl, rfl⟩

theorem misses_caseExpression_iff {t : Text} : caseExpression.Misses t ↔ NoCaseAt t := by
  simp only [Misses, caseExpression, outcome_bind_eq_missed, outcome_keyword_eq_missed,
    outcome_keyword_eq_matched, outcome_pure, reduceCtorEq, and_false, exists_false, or_false,
    NoCaseAt, endsCase]
  constructor
  · rintro ⟨rest, ⟨rfl, h⟩ | ⟨word, u, ⟨hu, hword⟩, h⟩⟩ word' u' hu' hword'
    · rw [h word' u' hu'] at hword'; cases hword'
    · rw [hu] at hu'; cases hu'
      simp only [outcome] at h
      split at h
      · cases h
      · rename_i hsplit; simp [hsplit]
  · intro h
    by_cases hcase : ∃ word u, t.token? = some (.identifier word, u) ∧
        word.eqIgnoringCase Keyword.case_.written = true
    · obtain ⟨word, u, hu, hword⟩ := hcase
      have hnone := Option.not_isSome_iff_eq_none.1 (h word u hu hword)
      exact ⟨u, Or.inr ⟨word, u, ⟨hu, hword⟩, by simp only [outcome, hnone]⟩⟩
    · refine ⟨t, Or.inl ⟨rfl, fun word u hu => ?_⟩⟩
      by_contra hword
      exact hcase ⟨word, u, hu, by simpa using hword⟩

theorem misses_group_of {limit : Nat} {inside : Option (Unit → Production Expression)} {t : Text}
    (h : ∀ u, t.token? ≠ some (.symbol .leftParen, u)) : (group limit inside).Misses t := by
  simp only [Misses, group, outcome_bind_eq_missed, outcome_symbol_eq_missed]
  exact ⟨t, Or.inl ⟨rfl, h⟩⟩

theorem misses_property_of {t : Text} (h : ∀ name u, t.token? = some (.identifier name, u) →
      ∀ v, u.token? ≠ some (.symbol .dot, v)) : property.Misses t := by
  simp only [Misses, property, outcome_bind_eq_missed, outcome_identifier_eq_missed,
    outcome_identifier_eq_matched, outcome_symbol_eq_missed]
  by_cases hid : ∃ name u, t.token? = some (.identifier name, u)
  · obtain ⟨name, u, hu⟩ := hid
    exact ⟨u, Or.inr ⟨name, u, hu, Or.inl ⟨rfl, h name u hu⟩⟩⟩
  · exact ⟨t, Or.inl ⟨rfl, fun name u hu => hid ⟨name, u, hu⟩⟩⟩

/-- The keyword `DISTINCT` stands here, or it does not and nothing is read. -/
theorem outcome_maybe_distinct_eq_matched {t rest : Text} {o : Option Text} :
    (maybe (keyword .distinct)).outcome t = .matched o rest ↔
      (∃ word, o = some word ∧ t.token? = some (.identifier word, rest) ∧
        word.eqIgnoringCase Keyword.distinct.written = true) ∨
      o = none ∧ rest = t ∧ ∀ word u, t.token? = some (.identifier word, u) →
        word.eqIgnoringCase Keyword.distinct.written = false := by
  simp

/-- How the operand `o` is read from `t`, up to `rest`. -/
inductive OperandReading (limit : Nat) (inside : Option (Unit → Production Expression))
    (t : Text) : (o : Operand) → (rest : Text) → Prop
  | call {name t₁ t₂ t₃ t₄ rest : Text} {inner : Unit → Production Expression}
      {distinct : Option Text} {arguments : Expression}
      (hname : t.token? = some (.identifier name, t₁))
      (hleft : t₁.token? = some (.symbol .leftParen, t₂))
      (hinside : inside = some inner)
      (hdistinct : (maybe (keyword .distinct)).outcome t₂ = .matched distinct t₃)
      (harguments : (inner ()).outcome t₃ = .matched arguments t₄)
      (hright : t₄.token? = some (.symbol .rightParen, rest)) :
      OperandReading limit inside t (.call name distinct.isSome arguments) rest
  | case_ {word u before ending : Text}
      (hword : t.token? = some (.identifier word, u))
      (hcase : word.eqIgnoringCase Keyword.case_.written = true)
      (hsplit : Text.splitAtWord? Keyword.end_.written u = some (before, ending)) :
      OperandReading limit inside t
        (.case_ (word ++ (before ++ ending.take Keyword.end_.written.length)))
        (ending.drop Keyword.end_.written.length)
  | group {t₁ t₂ rest : Text} {inner : Unit → Production Expression} {expression : Expression}
      (hleft : t.token? = some (.symbol .leftParen, t₁))
      (hinside : inside = some inner)
      (hinner : (inner ()).outcome t₁ = .matched expression t₂)
      (hright : t₂.token? = some (.symbol .rightParen, rest)) :
      OperandReading limit inside t (.group expression) rest
  | property {owner name t₁ t₂ rest : Text}
      (howner : t.token? = some (.identifier owner, t₁))
      (hdot : t₁.token? = some (.symbol .dot, t₂))
      (hname : nameOrQuoted.outcome t₂ = .matched name rest)
      (hcase : NoCaseAt t) :
      OperandReading limit inside t (.property owner name) rest
  | literal {word rest : Text} {l : Literal}
      (hword : t.token? = some (.identifier word, rest))
      (hliteral : Literal.ofWritten? word = some l) :
      OperandReading limit inside t (.literal l) rest
  | identifier {name rest : Text}
      (hname : t.token? = some (.identifier name, rest))
      (hliteral : Literal.ofWritten? name = none)
      (hcase : NoCaseAt t) :
      OperandReading limit inside t (.identifier name) rest
  | string {value rest : Text} (hvalue : t.token? = some (.quoted value, rest)) :
      OperandReading limit inside t (.string value) rest
  | number {text rest : Text} (htext : number.outcome t = .matched text rest) :
      OperandReading limit inside t (.number text) rest
  | wildcard {rest : Text} (hstar : t.token? = some (.symbol .star, rest)) :
      OperandReading limit inside t .wildcard rest

/-- An operand that matches is read in one of the nine ways. -/
theorem operandReading_of_matched {limit : Nat} {inside : Option (Unit → Production Expression)}
    {t rest : Text} {o : Operand} (h : (operand limit inside).outcome t = .matched o rest) :
    OperandReading limit inside t o rest := by
  rw [operand, matched_orElse_iff (stays_attempt _)] at h
  rcases h with h | ⟨-, h⟩
  · obtain ⟨name, d, args, inner, t₁, t₂, t₃, t₄, rfl, h₁, h₂, hi, hd, ha, h₅⟩ :=
      outcome_call_eq_matched.1 (outcome_attempt_eq_matched.1 h)
    exact .call h₁ h₂ hi hd ha h₅
  rw [matched_orElse_iff (stays_attempt _), misses_attempt_iff, misses_caseExpression_iff] at h
  rcases h with h | ⟨hcase, h⟩
  · obtain ⟨word, u, before, ending, hu, hword, hsplit, rfl, rfl⟩ :=
      outcome_caseExpression_eq_matched.1 (outcome_attempt_eq_matched.1 h)
    exact .case_ hu hword hsplit
  rcases (matched_orElse_iff (stays_attempt _)).1 h with h | ⟨-, h⟩
  · obtain ⟨e, inner, t₁, t₂, rfl, h₁, hi, he, h₃⟩ :=
      outcome_group_eq_matched.1 (outcome_attempt_eq_matched.1 h)
    exact .group h₁ hi he h₃
  rcases (matched_orElse_iff (stays_attempt _)).1 h with h | ⟨-, h⟩
  · obtain ⟨owner, name, t₁, t₂, rfl, h₁, h₂, h₃⟩ :=
      outcome_property_eq_matched.1 (outcome_attempt_eq_matched.1 h)
    exact .property h₁ h₂ h₃ hcase
  rcases (matched_orElse_iff (stays_map stays_literal _)).1 h with h | ⟨⟨_, hliteral⟩, h⟩
  · obtain ⟨l, hl, rfl⟩ := outcome_map_eq_matched.1 h
    obtain ⟨word, hword, hl⟩ := outcome_literal_eq_matched.1 hl
    exact .literal hword hl
  rw [outcome_map_eq_missed, outcome_literal_eq_missed] at hliteral
  rcases (matched_orElse_iff (stays_map stays_identifier _)).1 h with h | ⟨-, h⟩
  · obtain ⟨name, hname, rfl⟩ := outcome_map_eq_matched.1 h
    rw [outcome_identifier_eq_matched] at hname
    exact .identifier hname (hliteral.2 _ _ hname) hcase
  rcases (matched_orElse_iff (stays_map stays_quotedString _)).1 h with h | ⟨-, h⟩
  · obtain ⟨value, hvalue, rfl⟩ := outcome_map_eq_matched.1 h
    exact .string (outcome_quotedString_eq_matched.1 hvalue)
  rcases (matched_orElse_iff (stays_map stays_number _)).1 h with h | ⟨-, h⟩
  · obtain ⟨text, htext, rfl⟩ := outcome_map_eq_matched.1 h
    exact .number htext
  obtain ⟨⟨⟩, hstar, rfl⟩ := outcome_map_eq_matched.1 h
  exact .wildcard (outcome_symbol_eq_matched.1 hstar)

/-! ## Clauses -/

/-- The next token is the keyword `k`, in capitals or small letters, and `rest`
    follows it. -/
def KeywordAt (k : Keyword) (t rest : Text) : Prop :=
  ∃ word, t.token? = some (.identifier word, rest) ∧ word.eqIgnoringCase k.written = true

theorem matched_keyword_iff {k : Keyword} {t rest : Text} :
    (∃ word, (keyword k).outcome t = .matched word rest) ↔ KeywordAt k t rest := by
  simp only [outcome_keyword_eq_matched, KeywordAt]

theorem misses_keyword_iff {k : Keyword} {t : Text} :
    (keyword k).Misses t ↔ ∀ rest, ¬KeywordAt k t rest := by
  simp only [Misses, outcome_keyword_eq_missed, exists_eq_left, KeywordAt, not_exists, not_and,
    Bool.not_eq_true]
  exact ⟨fun h rest word hw => h word rest hw, fun h word rest hw => h rest word hw⟩

theorem stays_keyword (k : Keyword) : (keyword k).Stays :=
  stays_token _ _

theorem KeywordAt.eq_of_eqIgnoringCase {k l : Keyword} {word : Text}
    (hk : word.eqIgnoringCase k.written = true) (hl : word.eqIgnoringCase l.written = true) :
    k = l := by
  simp only [Text.eqIgnoringCase, beq_iff_eq] at hk hl
  have h := hk.symm.trans hl
  cases k <;> cases l <;> first | rfl | (exact absurd h (by decide))

/-- Only one keyword stands at a place. -/
theorem KeywordAt.unique {k l : Keyword} {t u v : Text} (hk : KeywordAt k t u)
    (hl : KeywordAt l t v) : k = l ∧ u = v := by
  obtain ⟨word, hu, hword⟩ := hk
  obtain ⟨word', hv, hword'⟩ := hl
  rw [hu] at hv
  cases hv
  exact ⟨eq_of_eqIgnoringCase hword hword', rfl⟩

theorem outcome_startClause_eq_matched {t rest body : Text} :
    startClause.outcome t = .matched body rest ↔
      ∃ u before, KeywordAt .start t u ∧ u.splitAtClause? = some (before, rest) ∧
        body = before.trim := by
  simp only [startClause, outcome_bind_eq_matched, outcome_keyword_eq_matched]
  constructor
  · rintro ⟨word, u, hword, h⟩
    simp only [outcome] at h
    split at h
    · rename_i before v hsplit
      cases h
      exact ⟨u, before, ⟨word, hword⟩, hsplit, rfl⟩
    · cases h
  · rintro ⟨u, before, ⟨word, hword⟩, hsplit, rfl⟩
    exact ⟨word, u, hword, by simp only [outcome, hsplit]⟩

theorem misses_startClause_of {t : Text} (h : ∀ u, ¬KeywordAt .start t u) :
    startClause.Misses t := by
  obtain ⟨u, hu⟩ := misses_keyword_iff.2 h
  exact ⟨u, outcome_bind_eq_missed.2 (Or.inl hu)⟩

theorem outcome_optionalMatch_eq_matched {t rest : Text} {k : MatchKind} :
    optionalMatch.outcome t = .matched k rest ↔
      k = .optional ∧ ∃ u, KeywordAt .optional t u ∧ KeywordAt .match_ u rest := by
  simp only [optionalMatch, outcome_bind_eq_matched, outcome_keyword_eq_matched, outcome_pure,
    Outcome.matched.injEq, KeywordAt]
  constructor
  · rintro ⟨w, u, hu, w', v, hv, rfl, rfl⟩; exact ⟨rfl, u, ⟨w, hu⟩, w', hv⟩
  · rintro ⟨rfl, u, ⟨w, hu⟩, w', hv⟩; exact ⟨w, u, hu, w', rest, hv, rfl, rfl⟩

theorem misses_optionalMatch_iff {t : Text} : optionalMatch.Misses t ↔
    ∀ u v, KeywordAt .optional t u → ¬KeywordAt .match_ u v := by
  constructor
  · rintro ⟨rest, h⟩ u v ⟨w, hu, hw⟩ hv
    simp only [optionalMatch, outcome_bind_eq_missed, outcome_keyword_eq_missed,
      outcome_keyword_eq_matched, outcome_pure, reduceCtorEq, and_false, exists_false,
      or_false] at h
    rcases h with ⟨rfl, h⟩ | ⟨w', u', ⟨hu', hw'⟩, rfl, h⟩
    · rw [h w u hu] at hw; cases hw
    · rw [hu] at hu'; cases hu'
      obtain ⟨w'', hv, hw''⟩ := hv
      rw [h w'' v hv] at hw''; cases hw''
  · intro h
    by_cases ho : ∃ u, KeywordAt .optional t u
    · obtain ⟨u, hu⟩ := ho
      obtain ⟨v, hv⟩ := misses_keyword_iff.2 fun v => h u v hu
      obtain ⟨w, hw⟩ := matched_keyword_iff.2 hu
      exact ⟨v, outcome_bind_eq_missed.2 (Or.inr ⟨w, u, hw, outcome_bind_eq_missed.2 (Or.inl hv)⟩)⟩
    · obtain ⟨u, hu⟩ := misses_keyword_iff.2 fun u hu => ho ⟨u, hu⟩
      exact ⟨u, outcome_bind_eq_missed.2 (Or.inl hu)⟩

/-- The keywords that open a match clause. -/
def MatchKindAt (k : MatchKind) (t rest : Text) : Prop :=
  match k with
  | .required => KeywordAt .match_ t rest
  | .optional => ∃ u, KeywordAt .optional t u ∧ KeywordAt .match_ u rest

theorem outcome_matchKind_eq_matched {t rest : Text} {k : MatchKind} :
    matchKind.outcome t = .matched k rest ↔ MatchKindAt k t rest := by
  rw [matchKind, matched_orElse_iff (stays_map (stays_keyword _) _), outcome_map_eq_matched,
    misses_map_iff, misses_keyword_iff, outcome_attempt_eq_matched,
    outcome_optionalMatch_eq_matched]
  constructor
  · rintro (⟨w, hw, rfl⟩ | ⟨-, rfl, h⟩)
    exacts [matched_keyword_iff.1 ⟨w, hw⟩, h]
  · intro h
    cases k with
    | required =>
      obtain ⟨w, hw⟩ := matched_keyword_iff.2 h
      exact Or.inl ⟨w, hw, rfl⟩
    | optional =>
      obtain ⟨u, hu, hv⟩ := h
      refine Or.inr ⟨fun v hm => ?_, rfl, u, hu, hv⟩
      cases (hu.unique hm).1

theorem misses_matchKind_iff {t : Text} : matchKind.Misses t ↔ ∀ k u, ¬MatchKindAt k t u := by
  have hm : matchKind.Misses t ↔ (keyword .match_).Misses t ∧ optionalMatch.Misses t := by
    simp only [matchKind, Misses, outcome_orElse_eq_missed, outcome_map_eq_missed,
      outcome_attempt_eq_missed]
    constructor
    · rintro ⟨rest, u, hu, rfl, h⟩
      exact ⟨⟨_, hu⟩, by rwa [stays_keyword _ hu] at h⟩
    · rintro ⟨⟨u, hu⟩, h⟩
      exact ⟨t, t, stays_keyword _ hu ▸ hu, rfl, h⟩
  rw [hm, misses_keyword_iff, misses_optionalMatch_iff]
  constructor
  · rintro ⟨hreq, hopt⟩ (_ | _) u h
    · exact hreq u h
    · obtain ⟨v, hv, hu⟩ := h; exact hopt v u hv hu
  · intro h
    exact ⟨fun u hu => h .required u hu, fun u v hu hv => h .optional v ⟨u, hu, hv⟩⟩

/-- A clause starts here: `MATCH`, `OPTIONAL MATCH` or `RETURN`. -/
def ClauseAt (t : Text) : Prop :=
  (∃ k u, MatchKindAt k t u) ∨ ∃ u, KeywordAt .return_ t u

theorem outcome_atClause_eq_matched {t rest : Text} {b : Bool} :
    atClause.outcome t = .matched b rest ↔
      rest = t ∧ (b = true ∧ ClauseAt t ∨ b = false ∧ ¬ClauseAt t) := by
  have hstays : ((fun _ => ()) <$> matchKind : Production Unit).Stays :=
    stays_map (stays_orElse (stays_map (stays_keyword _) _) (stays_attempt _)) _
  rw [atClause, outcome_lookahead_eq_matched]
  refine and_congr_right fun _ =>
    or_congr (and_congr_right fun _ => ?_) (and_congr_right fun _ => ?_)
  · simp only [matched_orElse_iff hstays, outcome_map_eq_matched, misses_map_iff,
      outcome_matchKind_eq_matched, misses_matchKind_iff, ClauseAt]
    constructor
    · rintro ⟨-, u, ⟨k, hk, -⟩ | ⟨-, w, hw, -⟩⟩
      exacts [Or.inl ⟨k, u, hk⟩, Or.inr ⟨u, matched_keyword_iff.1 ⟨w, hw⟩⟩]
    · intro h
      by_cases hk : ∃ k u, MatchKindAt k t u
      · obtain ⟨k, u, hk⟩ := hk; exact ⟨(), u, Or.inl ⟨k, hk, trivial⟩⟩
      · obtain ⟨u, hu⟩ := h.resolve_left hk
        obtain ⟨w, hw⟩ := matched_keyword_iff.2 hu
        exact ⟨(), u, Or.inr ⟨fun k u hku => hk ⟨k, u, hku⟩, w, hw, trivial⟩⟩
  · simp only [Misses, outcome_orElse_eq_missed, outcome_map_eq_missed, ClauseAt, not_or]
    constructor
    · rintro ⟨rest, u, hu, hr⟩
      have hut := hstays (outcome_map_eq_missed.2 hu)
      subst hut
      refine ⟨?_, ?_⟩
      · rintro ⟨k, v, hk⟩; exact misses_matchKind_iff.1 ⟨_, hu⟩ k v hk
      · rintro ⟨v, hv⟩; exact misses_keyword_iff.1 ⟨_, hr⟩ v hv
    · rintro ⟨hk, hr⟩
      obtain ⟨u, hu⟩ := misses_matchKind_iff.2 fun k u h => hk ⟨k, u, h⟩
      obtain ⟨v, hv⟩ := misses_keyword_iff.2 fun u h => hr ⟨u, h⟩
      have hut := hstays (outcome_map_eq_missed.2 hu)
      exact ⟨v, t, hut ▸ hu, hv⟩

theorem outcome_whereClause_eq_matched {limit : Nat} {t rest : Text} {e : Expression} :
    (whereClause limit).outcome t = .matched e rest ↔
      ∃ u, KeywordAt .where_ t u ∧
        (ClauseAt u ∧ e = .empty ∧ rest = u ∨
          ¬ClauseAt u ∧ (expression limit limit).outcome u = .matched e rest) := by
  simp only [whereClause, outcome_bind_eq_matched, outcome_atClause_eq_matched]
  constructor
  · rintro ⟨w, u, hw, b, v, ⟨rfl, ⟨rfl, hc⟩ | ⟨rfl, hc⟩⟩, h⟩
    · cases h; exact ⟨_, matched_keyword_iff.1 ⟨w, hw⟩, Or.inl ⟨hc, rfl, rfl⟩⟩
    · exact ⟨_, matched_keyword_iff.1 ⟨w, hw⟩, Or.inr ⟨hc, h⟩⟩
  · rintro ⟨u, hu, ⟨hc, rfl, rfl⟩ | ⟨hc, h⟩⟩
    · obtain ⟨w, hw⟩ := matched_keyword_iff.2 hu
      exact ⟨w, rest, hw, true, rest, ⟨rfl, Or.inl ⟨rfl, hc⟩⟩, rfl⟩
    · obtain ⟨w, hw⟩ := matched_keyword_iff.2 hu
      exact ⟨w, u, hw, false, u, ⟨rfl, Or.inr ⟨rfl, hc⟩⟩, h⟩

theorem misses_whereClause_of {limit : Nat} {t : Text} (h : ∀ u, ¬KeywordAt .where_ t u) :
    (whereClause limit).Misses t := by
  obtain ⟨u, hu⟩ := misses_keyword_iff.2 h
  exact ⟨u, outcome_bind_eq_missed.2 (Or.inl hu)⟩

theorem outcome_matchClause_eq_matched {limit : Nat} {t rest : Text} {c : MatchClause} :
    (matchClause limit).outcome t = .matched c rest ↔
      ∃ u v, MatchKindAt c.kind t u ∧ paths.outcome u = .matched c.paths v ∧
        (optional (whereClause limit)).outcome v = .matched c.condition rest := by
  simp only [matchClause, outcome_bind_eq_matched, outcome_matchKind_eq_matched, outcome_pure,
    Outcome.matched.injEq]
  constructor
  · rintro ⟨k, u, hk, ps, v, hp, o, w, ho, rfl, rfl⟩; exact ⟨u, v, hk, hp, ho⟩
  · rintro ⟨u, v, hk, hp, ho⟩; exact ⟨_, u, hk, _, v, hp, _, rest, ho, rfl, rfl⟩

theorem misses_matchClause_of {limit : Nat} {t : Text} (h : ∀ k u, ¬MatchKindAt k t u) :
    (matchClause limit).Misses t := by
  obtain ⟨u, hu⟩ := misses_matchKind_iff.2 h
  exact ⟨u, outcome_bind_eq_missed.2 (Or.inl hu)⟩

theorem KeywordAt.length_lt {k : Keyword} {t rest : Text} (h : KeywordAt k t rest) :
    rest.length < t.length := by
  obtain ⟨word, hword, -⟩ := h
  exact Text.length_lt_of_token? hword

theorem MatchKindAt.length_lt {k : MatchKind} {t rest : Text} (h : MatchKindAt k t rest) :
    rest.length < t.length := by
  cases k with
  | required => exact KeywordAt.length_lt h
  | optional => obtain ⟨u, hu, hv⟩ := h; exact Nat.lt_trans hv.length_lt hu.length_lt

theorem KeywordAt.suffix {k : Keyword} {t rest : Text} (h : KeywordAt k t rest) : rest <:+ t := by
  obtain ⟨word, hword, -⟩ := h
  exact Text.suffix_of_token? hword

theorem MatchKindAt.suffix {k : MatchKind} {t rest : Text} (h : MatchKindAt k t rest) :
    rest <:+ t := by
  cases k with
  | required => exact KeywordAt.suffix h
  | optional => obtain ⟨u, hu, hv⟩ := h; exact hv.suffix.trans hu.suffix

theorem advances_matchClause (limit : Nat) : (matchClause limit).Advances := by
  intro t rest c h
  obtain ⟨u, v, hk, hp, ho⟩ := outcome_matchClause_eq_matched.1 h
  have := hk.length_lt
  have := (suffix_of_matched hp).length_le
  have := (suffix_of_matched ho).length_le
  omega

theorem outcome_aliasName_eq_matched {t rest name : Text} :
    aliasName.outcome t = .matched name rest ↔
      ∃ u, KeywordAt .as_ t u ∧ nameOrQuoted.outcome u = .matched name rest := by
  simp only [aliasName, outcome_bind_eq_matched]
  constructor
  · rintro ⟨w, u, hw, h⟩; exact ⟨u, matched_keyword_iff.1 ⟨w, hw⟩, h⟩
  · rintro ⟨u, hu, h⟩
    obtain ⟨w, hw⟩ := matched_keyword_iff.2 hu
    exact ⟨w, u, hw, h⟩

theorem misses_aliasName_of {t : Text} (h : ∀ u, ¬KeywordAt .as_ t u) : aliasName.Misses t := by
  obtain ⟨u, hu⟩ := misses_keyword_iff.2 h
  exact ⟨u, outcome_bind_eq_missed.2 (Or.inl hu)⟩

theorem outcome_returnItem_eq_matched {limit : Nat} {t rest : Text} {i : ReturnItem} :
    (returnItem limit).outcome t = .matched i rest ↔
      ∃ u, (expression limit limit).outcome t = .matched i.expression u ∧
        (optional aliasName).outcome u = .matched i.aliasName rest := by
  simp only [returnItem, outcome_bind_eq_matched, outcome_pure, Outcome.matched.injEq]
  constructor
  · rintro ⟨e, u, he, o, v, ho, rfl, rfl⟩; exact ⟨u, he, ho⟩
  · rintro ⟨u, he, ho⟩; exact ⟨_, u, he, _, rest, ho, rfl, rfl⟩

theorem outcome_query_eq_matched {limit : Nat} {t rest : Text} {q : Query} :
    (query limit).outcome t = .matched q rest ↔
      ∃ t₁ t₂ t₃, (optional startClause).outcome t = .matched q.start t₁ ∧
        (matchClause limit).Repeats t₁ q.clauses t₂ ∧ KeywordAt .return_ t₂ t₃ ∧
        (commaList ReturnItem.isBlank (returnItem limit)).outcome t₃ = .matched q.returns rest ∧
        rest.dropBlanks = [] := by
  simp only [query, outcome_bind_eq_matched, outcome_pure, outcome_endOfInput_eq_matched,
    outcome_many_eq_matched (advances_matchClause limit), Outcome.matched.injEq]
  constructor
  · rintro ⟨start, t₁, h₁, cs, t₂, h₂, w, t₃, h₃, is, t₄, h₄, -, t₅, ⟨rfl, h₅⟩, rfl, rfl⟩
    exact ⟨t₁, t₂, t₃, h₁, h₂, matched_keyword_iff.1 ⟨w, h₃⟩, h₄, h₅⟩
  · rintro ⟨t₁, t₂, t₃, h₁, h₂, h₃, h₄, h₅⟩
    obtain ⟨w, hw⟩ := matched_keyword_iff.2 h₃
    exact ⟨_, t₁, h₁, _, t₂, h₂, w, t₃, hw, _, rest, h₄, (), rest, ⟨rfl, h₅⟩, rfl, rfl⟩

end Production

end Cypher
