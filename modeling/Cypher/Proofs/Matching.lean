/-
  Matching — when a production matches, combinator by combinator.

  * `outcome_…_eq_matched` and `outcome_…_eq_missed`: for each way to combine
    productions, and for each terminal, what a match or a miss amounts to;
  * `Production.Repeats p t as rest`: the values `as` are read one after the other
    by `p`, which then misses. If `p` always makes progress, this is what `many p`
    reads (`outcome_many_eq_matched`), whence `chain` and `commaList`;
  * `suffix_of_matched`: what is left after a match is a suffix of the text.
-/
import Cypher.Proofs.Outcome
import Mathlib.Data.List.Forall2
import Mathlib.Tactic.Common

namespace Cypher

namespace Production

variable {α β : Type}

/-- The production does not match the text, nor give up on it. -/
def Misses (p : Production α) (t : Text) : Prop :=
  ∃ rest, p.outcome t = .missed rest

/-! ## Sequences and alternatives -/

@[simp] theorem outcome_pure (a : α) (t : Text) :
    (pure a : Production α).outcome t = .matched a t := by
  simp only [pure, outcome]

@[simp] theorem outcome_bind_eq_matched {p : Production α} {f : α → Production β} {t rest : Text}
    {b : β} : (p >>= f).outcome t = .matched b rest ↔
      ∃ a u, p.outcome t = .matched a u ∧ (f a).outcome u = .matched b rest := by
  simp only [bind, outcome]
  cases p.outcome t <;> simp [Outcome.andThen, and_assoc]

@[simp] theorem outcome_bind_eq_missed {p : Production α} {f : α → Production β} {t rest : Text} :
    (p >>= f).outcome t = .missed rest ↔ p.outcome t = .missed rest ∨
      ∃ a u, p.outcome t = .matched a u ∧ (f a).outcome u = .missed rest := by
  simp only [bind, outcome]
  cases p.outcome t <;> simp [Outcome.andThen, and_assoc]

@[simp] theorem outcome_map_eq_matched {g : α → β} {p : Production α} {t rest : Text} {b : β} :
    (g <$> p).outcome t = .matched b rest ↔ ∃ a, p.outcome t = .matched a rest ∧ g a = b := by
  change (p >>= fun a => pure (g a)).outcome t = _ ↔ _
  simp only [outcome_bind_eq_matched, outcome_pure, Outcome.matched.injEq]
  constructor
  · rintro ⟨a, u, h, rfl, rfl⟩; exact ⟨a, h, rfl⟩
  · rintro ⟨a, h, rfl⟩; exact ⟨a, rest, h, rfl, rfl⟩

@[simp] theorem outcome_map_eq_missed {g : α → β} {p : Production α} {t rest : Text} :
    (g <$> p).outcome t = .missed rest ↔ p.outcome t = .missed rest := by
  change (p >>= fun a => pure (g a)).outcome t = _ ↔ _
  simp

theorem outcome_orElse (p q : Production α) (t : Text) :
    (p <|> q).outcome t = (p.outcome t).orTry q.outcome := by
  simp only [HOrElse.hOrElse, OrElse.orElse, outcome]

@[simp] theorem outcome_orElse_eq_matched {p q : Production α} {t rest : Text} {a : α} :
    (p <|> q).outcome t = .matched a rest ↔ p.outcome t = .matched a rest ∨
      ∃ u, p.outcome t = .missed u ∧ q.outcome u = .matched a rest := by
  rw [outcome_orElse]
  cases p.outcome t <;> simp [Outcome.orTry]

@[simp] theorem outcome_orElse_eq_missed {p q : Production α} {t rest : Text} :
    (p <|> q).outcome t = .missed rest ↔
      ∃ u, p.outcome t = .missed u ∧ q.outcome u = .missed rest := by
  rw [outcome_orElse]
  cases p.outcome t <;> simp [Outcome.orTry]

/-! ## Going back -/

@[simp] theorem outcome_attempt_eq_matched {p : Production α} {t rest : Text} {a : α} :
    (attempt p).outcome t = .matched a rest ↔ p.outcome t = .matched a rest := by
  simp only [outcome, Outcome.orBack]
  cases p.outcome t <;> simp [Outcome.orTry]

@[simp] theorem outcome_attempt_eq_missed {p : Production α} {t rest : Text} :
    (attempt p).outcome t = .missed rest ↔ rest = t ∧ p.Misses t := by
  simp only [outcome, Outcome.orBack, Misses]
  cases p.outcome t <;> simp [Outcome.orTry, eq_comm]

/-- A miss leaves the text as it was. -/
def Stays (p : Production α) : Prop :=
  ∀ {t rest : Text}, p.outcome t = .missed rest → rest = t

theorem stays_attempt (p : Production α) : (attempt p).Stays :=
  fun h => (outcome_attempt_eq_missed.1 h).1

theorem stays_map {p : Production α} (hp : p.Stays) (g : α → β) : (g <$> p).Stays :=
  fun h => hp (outcome_map_eq_missed.1 h)

theorem stays_orElse {p q : Production α} (hp : p.Stays) (hq : q.Stays) : (p <|> q).Stays := by
  intro t rest h
  obtain ⟨u, hpu, hqu⟩ := outcome_orElse_eq_missed.1 h
  rw [hq hqu, hp hpu]

theorem misses_attempt_iff {p : Production α} {t : Text} : (attempt p).Misses t ↔ p.Misses t := by
  simp only [Misses, outcome_attempt_eq_missed]
  exact ⟨fun ⟨_, _, h⟩ => h, fun h => ⟨t, rfl, h⟩⟩

theorem misses_map_iff {g : α → β} {p : Production α} {t : Text} :
    (g <$> p).Misses t ↔ p.Misses t := by
  simp [Misses]

/-- Of two alternatives the second is read where the first one misses. -/
theorem matched_orElse_iff {p q : Production α} (hp : p.Stays) {t rest : Text} {a : α} :
    (p <|> q).outcome t = .matched a rest ↔
      p.outcome t = .matched a rest ∨ p.Misses t ∧ q.outcome t = .matched a rest := by
  rw [outcome_orElse_eq_matched]
  refine or_congr_right ⟨?_, ?_⟩
  · rintro ⟨u, hu, h⟩; exact ⟨⟨u, hu⟩, hp hu ▸ h⟩
  · rintro ⟨⟨u, hu⟩, h⟩; exact ⟨u, hu, (hp hu).symm ▸ h⟩

theorem misses_orElse_iff {p q : Production α} (hp : p.Stays) {t : Text} :
    (p <|> q).Misses t ↔ p.Misses t ∧ q.Misses t := by
  simp only [Misses, outcome_orElse_eq_missed]
  constructor
  · rintro ⟨rest, u, hu, h⟩; exact ⟨⟨u, hu⟩, rest, hp hu ▸ h⟩
  · rintro ⟨⟨u, hu⟩, rest, h⟩; exact ⟨rest, u, hu, (hp hu).symm ▸ h⟩

@[simp] theorem outcome_maybe_eq_matched {p : Production α} {t rest : Text} {o : Option α} :
    (maybe p).outcome t = .matched o rest ↔
      (∃ a, o = some a ∧ p.outcome t = .matched a rest) ∨
        o = none ∧ p.outcome t = .missed rest := by
  simp only [outcome]
  cases p.outcome t <;> simp [Outcome.orTry, Outcome.map, and_assoc, eq_comm, ← and_comm]

@[simp] theorem outcome_maybe_ne_missed {p : Production α} {t rest : Text} :
    (maybe p).outcome t ≠ .missed rest := by
  simp only [outcome]
  cases p.outcome t <;> simp [Outcome.orTry, Outcome.map]

@[simp] theorem outcome_optional_eq_matched {p : Production α} {t rest : Text} {o : Option α} :
    (optional p).outcome t = .matched o rest ↔
      (∃ a, o = some a ∧ p.outcome t = .matched a rest) ∨ o = none ∧ rest = t ∧ p.Misses t := by
  simp [optional]

@[simp] theorem outcome_lookahead_eq_matched {p : Production α} {t rest : Text} {b : Bool} :
    (lookahead p).outcome t = .matched b rest ↔ rest = t ∧
      (b = true ∧ (∃ a u, p.outcome t = .matched a u) ∨ b = false ∧ p.Misses t) := by
  simp only [outcome, Misses]
  cases p.outcome t <;> simp [Outcome.orTry, Outcome.andThen, and_comm, eq_comm]

/-! ## Tokens -/

@[simp] theorem outcome_token_eq_matched {e : Expectation} {accept : TokenKind → Option α}
    {t rest : Text} {a : α} : (token e accept).outcome t = .matched a rest ↔
      ∃ kind, t.token? = some (kind, rest) ∧ accept kind = some a := by
  simp only [outcome]
  cases t.token? with
  | none => simp
  | some found =>
    obtain ⟨kind, u⟩ := found
    cases h : accept kind <;> simp only [Option.some.injEq, Prod.mk.injEq] <;> grind

@[simp] theorem outcome_token_eq_missed {e : Expectation} {accept : TokenKind → Option α}
    {t rest : Text} : (token e accept).outcome t = .missed rest ↔
      rest = t ∧ ∀ kind u, t.token? = some (kind, u) → accept kind = none := by
  simp only [outcome]
  cases t.token? with
  | none => simp [eq_comm]
  | some found =>
    obtain ⟨kind, u⟩ := found
    cases h : accept kind <;> simp_all [eq_comm]

theorem stays_token (e : Expectation) (accept : TokenKind → Option α) : (token e accept).Stays :=
  fun h => (outcome_token_eq_missed.1 h).1

theorem misses_token_of {e : Expectation} {accept : TokenKind → Option α} {t : Text}
    (h : ∀ kind u, t.token? = some (kind, u) → accept kind = none) : (token e accept).Misses t :=
  ⟨t, outcome_token_eq_missed.2 ⟨rfl, h⟩⟩

@[simp] theorem outcome_adjacent_eq_matched {accept : TokenKind → Option α}
    {t rest : Text} {a : α} : (adjacent accept).outcome t = .matched a rest ↔
      ∃ kind, t.adjacentToken? = some (kind, rest) ∧ accept kind = some a := by
  simp only [outcome]
  cases t.adjacentToken? with
  | none => simp
  | some found =>
    obtain ⟨kind, u⟩ := found
    cases h : accept kind <;> simp only [Option.some.injEq, Prod.mk.injEq] <;> grind

@[simp] theorem outcome_adjacent_eq_missed {accept : TokenKind → Option α} {t rest : Text} :
    (adjacent accept).outcome t = .missed rest ↔
      rest = t ∧ ∀ kind u, t.adjacentToken? = some (kind, u) → accept kind = none := by
  simp only [outcome]
  cases t.adjacentToken? with
  | none => simp [eq_comm]
  | some found =>
    obtain ⟨kind, u⟩ := found
    cases h : accept kind <;> simp_all [eq_comm]

@[simp] theorem outcome_arrow_eq_matched {e : Expectation} {first second : Symbol}
    {t rest : Text} {x : Unit} : (arrow e first second).outcome t = .matched x rest ↔
      ∃ u, t.token? = some (.symbol first, u) ∧
        u.adjacentToken? = some (.symbol second, rest) := by
  simp only [outcome]
  split
  · rename_i kind u htok
    split
    · split <;> grind
    · grind
  · grind

@[simp] theorem outcome_arrow_eq_missed {e : Expectation} {first second : Symbol}
    {t rest : Text} : (arrow e first second).outcome t = .missed rest ↔
      rest = t ∧ ∀ u v, t.token? = some (.symbol first, u) →
        u.adjacentToken? ≠ some (.symbol second, v) := by
  simp only [outcome]
  split
  · rename_i kind u htok
    split
    · split <;> grind
    · grind
  · grind

@[simp] theorem outcome_endOfInput_eq_matched {t rest : Text} {x : Unit} :
    endOfInput.outcome t = .matched x rest ↔ rest = t ∧ t.dropBlanks = [] := by
  simp only [outcome]
  split <;> grind

/-! ## Terminals -/

@[simp] theorem outcome_symbol_eq_matched {x : Symbol} {t rest : Text} {a : Unit} :
    (symbol x).outcome t = .matched a rest ↔ t.token? = some (.symbol x, rest) := by
  simp [symbol]

@[simp] theorem outcome_symbol_eq_missed {x : Symbol} {t rest : Text} :
    (symbol x).outcome t = .missed rest ↔
      rest = t ∧ ∀ u, t.token? ≠ some (.symbol x, u) := by
  simp only [symbol, outcome_token_eq_missed]
  grind

@[simp] theorem outcome_keyword_eq_matched {k : Keyword} {t rest word : Text} :
    (keyword k).outcome t = .matched word rest ↔
      t.token? = some (.identifier word, rest) ∧ word.eqIgnoringCase k.written = true := by
  simp only [keyword, outcome_token_eq_matched]
  constructor
  · rintro ⟨kind, h, hk⟩
    split at hk
    · rename_i hword
      cases kind with
      | identifier name => cases hk; exact ⟨h, hword⟩
      | _ => cases hk
    · cases hk
  · rintro ⟨h, hk⟩
    exact ⟨_, h, if_pos hk⟩

@[simp] theorem outcome_keyword_eq_missed {k : Keyword} {t rest : Text} :
    (keyword k).outcome t = .missed rest ↔ rest = t ∧
      ∀ word u, t.token? = some (.identifier word, u) → word.eqIgnoringCase k.written = false := by
  simp only [keyword, outcome_token_eq_missed]
  refine and_congr_right fun _ => ⟨fun h word u hu => ?_, fun h kind u hu => ?_⟩
  · have hnone := h _ u hu
    by_cases hk : word.eqIgnoringCase k.written = true
    · rw [if_pos (show TokenKind.isKeyword k (.identifier word) = true from hk)] at hnone
      cases hnone
    · simpa using hk
  · cases kind with
    | identifier word =>
      refine if_neg fun (hk : word.eqIgnoringCase k.written = true) => ?_
      rw [h word u hu] at hk
      cases hk
    | _ => simp [TokenKind.identifier?]

@[simp] theorem outcome_identifier_eq_matched {t rest name : Text} :
    identifier.outcome t = .matched name rest ↔ t.token? = some (.identifier name, rest) := by
  simp only [identifier, outcome_token_eq_matched]
  constructor
  · rintro ⟨kind, h, hk⟩; cases kind <;> simp_all [TokenKind.identifier?]
  · intro h; exact ⟨_, h, rfl⟩

@[simp] theorem outcome_identifier_eq_missed {t rest : Text} :
    identifier.outcome t = .missed rest ↔
      rest = t ∧ ∀ name u, t.token? ≠ some (.identifier name, u) := by
  simp only [identifier, outcome_token_eq_missed]
  refine and_congr_right fun _ => ⟨fun h name u hu => ?_, fun h kind u hu => ?_⟩
  · simpa [TokenKind.identifier?] using h _ u hu
  · cases kind with
    | identifier name => exact absurd hu (h name u)
    | _ => rfl

@[simp] theorem outcome_quotedString_eq_matched {t rest text : Text} :
    quotedString.outcome t = .matched text rest ↔ t.token? = some (.quoted text, rest) := by
  simp only [quotedString, outcome_token_eq_matched]
  constructor
  · rintro ⟨kind, h, hk⟩; cases kind <;> simp_all [TokenKind.quoted?]
  · intro h; exact ⟨_, h, rfl⟩

@[simp] theorem outcome_quotedString_eq_missed {t rest : Text} :
    quotedString.outcome t = .missed rest ↔
      rest = t ∧ ∀ text u, t.token? ≠ some (.quoted text, u) := by
  simp only [quotedString, outcome_token_eq_missed]
  refine and_congr_right fun _ => ⟨fun h text u hu => ?_, fun h kind u hu => ?_⟩
  · simpa [TokenKind.quoted?] using h _ u hu
  · cases kind with
    | quoted text => exact absurd hu (h text u)
    | _ => rfl

@[simp] theorem outcome_nameOrQuoted_eq_matched {t rest text : Text} :
    nameOrQuoted.outcome t = .matched text rest ↔
      t.token? = some (.quoted text, rest) ∨ t.token? = some (.identifier text, rest) := by
  simp only [nameOrQuoted, outcome_orElse_eq_matched, outcome_quotedString_eq_matched,
    outcome_quotedString_eq_missed, outcome_identifier_eq_matched]
  grind

@[simp] theorem outcome_nameOrQuoted_eq_missed {t rest : Text} :
    nameOrQuoted.outcome t = .missed rest ↔ rest = t ∧
      ∀ text u, t.token? ≠ some (.quoted text, u) ∧ t.token? ≠ some (.identifier text, u) := by
  simp only [nameOrQuoted, outcome_orElse_eq_missed, outcome_quotedString_eq_missed,
    outcome_identifier_eq_missed]
  grind

@[simp] theorem outcome_literal_eq_matched {t rest : Text} {l : Literal} :
    literal.outcome t = .matched l rest ↔
      ∃ word, t.token? = some (.identifier word, rest) ∧ Literal.ofWritten? word = some l := by
  simp only [literal, outcome_token_eq_matched]
  constructor
  · rintro ⟨kind, h, hk⟩
    cases kind with
    | identifier word => exact ⟨word, h, hk⟩
    | _ => cases hk
  · rintro ⟨word, h, hk⟩; exact ⟨_, h, hk⟩

@[simp] theorem outcome_literal_eq_missed {t rest : Text} :
    literal.outcome t = .missed rest ↔ rest = t ∧
      ∀ word u, t.token? = some (.identifier word, u) → Literal.ofWritten? word = none := by
  simp only [literal, outcome_token_eq_missed]
  refine and_congr_right fun _ => ⟨fun h word u hu => h _ u hu, fun h kind u hu => ?_⟩
  cases kind with
  | identifier word => exact h word u hu
  | _ => rfl

@[simp] theorem outcome_operator_eq_matched {t rest : Text} {o : Operator} :
    operator.outcome t = .matched o rest ↔
      ∃ kind, t.token? = some (kind, rest) ∧ Operator.ofToken? kind = some o := by
  simp [operator]

@[simp] theorem outcome_operator_eq_missed {t rest : Text} :
    operator.outcome t = .missed rest ↔ rest = t ∧
      ∀ kind u, t.token? = some (kind, u) → Operator.ofToken? kind = none := by
  simp [operator]

theorem outcome_unsignedNumber_eq_matched {t rest text : Text} :
    unsignedNumber.outcome t = .matched text rest ↔ t.token? = some (.number text, rest) := by
  simp only [unsignedNumber, outcome_token_eq_matched]
  constructor
  · rintro ⟨kind, h, hk⟩
    cases kind with
    | number text => cases hk; exact h
    | _ => cases hk
  · intro h; exact ⟨_, h, rfl⟩

theorem outcome_negativeNumber_eq_matched {t rest text : Text} :
    negativeNumber.outcome t = .matched text rest ↔ ∃ u digits, text = '-' :: digits ∧
      t.token? = some (.symbol .minus, u) ∧ u.adjacentToken? = some (.number digits, rest) := by
  simp only [negativeNumber, outcome_bind_eq_matched, outcome_symbol_eq_matched,
    outcome_adjacent_eq_matched, outcome_pure, Outcome.matched.injEq]
  constructor
  · rintro ⟨-, u, hu, digits, v, ⟨kind, hv, hk⟩, rfl, rfl⟩
    cases kind with
    | number digits => cases hk; exact ⟨u, digits, rfl, hu, hv⟩
    | _ => cases hk
  · rintro ⟨u, digits, rfl, hu, hv⟩
    exact ⟨(), u, hu, digits, rest, ⟨_, hv, rfl⟩, rfl, rfl⟩

/-- A number is read with the minus sign directly before it, if there is one. -/
@[simp] theorem outcome_number_eq_matched {t rest text : Text} :
    number.outcome t = .matched text rest ↔ t.token? = some (.number text, rest) ∨
      ∃ u digits, text = '-' :: digits ∧ t.token? = some (.symbol .minus, u) ∧
        u.adjacentToken? = some (.number digits, rest) := by
  simp only [number, outcome_orElse_eq_matched, outcome_attempt_eq_matched,
    outcome_attempt_eq_missed, outcome_negativeNumber_eq_matched,
    outcome_unsignedNumber_eq_matched]
  constructor
  · rintro (h | ⟨u, ⟨rfl, -⟩, h⟩)
    exacts [Or.inr h, Or.inl h]
  · rintro (h | h)
    · refine Or.inr ⟨t, ⟨rfl, t, ?_⟩, h⟩
      simp only [negativeNumber, outcome_bind_eq_missed, outcome_symbol_eq_missed, true_and]
      exact Or.inl fun u hu => by rw [h] at hu; cases hu
    · exact Or.inl h

theorem misses_number_of {t : Text} (h : ∀ kind u, t.token? = some (kind, u) →
    kind ≠ .symbol .minus ∧ kind.number? = none) : number.Misses t := by
  rw [number, misses_orElse_iff (stays_attempt _), misses_attempt_iff]
  refine ⟨⟨t, outcome_bind_eq_missed.2 (Or.inl (outcome_symbol_eq_missed.2 ⟨rfl, ?_⟩))⟩, ?_⟩
  · intro u hu; exact (h _ u hu).1 rfl
  · exact misses_token_of fun kind u hu => (h kind u hu).2

theorem stays_literal : literal.Stays :=
  stays_token _ _

theorem stays_identifier : identifier.Stays :=
  stays_token _ _

theorem stays_quotedString : quotedString.Stays :=
  stays_token _ _

theorem stays_number : number.Stays :=
  stays_orElse (stays_attempt _) (stays_token _ _)

/-! ## What is left of the text -/

theorem suffix_of_splitAtStart {starts : Text → Bool} {t before rest : Text}
    (h : t.splitAtStart? starts = some (before, rest)) : rest <:+ t :=
  (Text.splitAtStartFrom?_eq_some h).1 ▸ List.suffix_append _ _

/-- Whether a production matches or not, it ends at a suffix of the text. -/
theorem suffix_of_outcome (p : Production α) :
    ∀ {t rest : Text}, (∀ a, p.outcome t = .matched a rest → rest <:+ t) ∧
      (p.outcome t = .missed rest → rest <:+ t) := by
  induction p with
  | succeed a => simp [outcome]
  | andThen p f ihp ihf =>
    refine fun {t rest} => ⟨fun b h => ?_, fun h => ?_⟩
    · obtain ⟨a, u, hp, hf⟩ := outcome_bind_eq_matched.1 h
      exact ((ihf a).1 b hf).trans (ihp.1 a hp)
    · rcases outcome_bind_eq_missed.1 h with hp | ⟨a, u, hp, hf⟩
      exacts [ihp.2 hp, ((ihf a).2 hf).trans (ihp.1 a hp)]
  | orTry p q ihp ihq =>
    refine fun {t rest} => ⟨fun a h => ?_, fun h => ?_⟩
    · rcases outcome_orElse_eq_matched.1 h with hp | ⟨u, hp, hq⟩
      exacts [ihp.1 a hp, (ihq.1 a hq).trans (ihp.2 hp)]
    · obtain ⟨u, hp, hq⟩ := outcome_orElse_eq_missed.1 h
      exact (ihq.2 hq).trans (ihp.2 hp)
  | attempt p ih =>
    refine fun {t rest} => ⟨fun a h => ih.1 a (outcome_attempt_eq_matched.1 h), fun h => ?_⟩
    exact (outcome_attempt_eq_missed.1 h).1 ▸ List.suffix_rfl
  | maybe p ih =>
    refine fun {t rest} => ⟨fun o h => ?_, fun h => absurd h outcome_maybe_ne_missed⟩
    rcases outcome_maybe_eq_matched.1 h with ⟨a, -, hp⟩ | ⟨-, hp⟩
    exacts [ih.1 a hp, ih.2 hp]
  | lookahead p ih =>
    refine fun {t rest} => ⟨fun b h => ?_, fun h => ?_⟩
    · exact (outcome_lookahead_eq_matched.1 h).1 ▸ List.suffix_rfl
    · simp only [outcome] at h
      cases hp : p.outcome t <;> simp [hp, Outcome.andThen, Outcome.orTry] at h
  | many p ih =>
    intro t
    simp only [outcome]
    fun_induction Outcome.repeated p.outcome t with
    | case1 t u hp => simp
    | case2 t hp => simp
    | case3 t a u hp hlt ihrep =>
      have hu := ih.1 a hp
      refine fun {rest} => ⟨fun as h => ?_, fun h => ?_⟩
      · cases hr : Outcome.repeated p.outcome u with
        | matched as' v =>
          rw [hr] at h; cases h
          exact (ihrep.1 as' hr).trans hu
        | missed v => rw [hr] at h; cases h
        | gaveUp => rw [hr] at h; cases h
      · cases hr : Outcome.repeated p.outcome u with
        | matched as' v => rw [hr] at h; cases h
        | missed v => rw [hr] at h; cases h; exact (ihrep.2 hr).trans hu
        | gaveUp => rw [hr] at h; cases h
    | case4 t a u hp hlt => simpa using ih.1 a hp
  | token e accept =>
    refine fun {t rest} => ⟨fun a h => ?_, fun h => ?_⟩
    · obtain ⟨kind, hkind, -⟩ := outcome_token_eq_matched.1 h
      exact Text.suffix_of_token? hkind
    · exact (outcome_token_eq_missed.1 h).1 ▸ List.suffix_rfl
  | adjacent accept =>
    refine fun {t rest} => ⟨fun a h => ?_, fun h => ?_⟩
    · obtain ⟨kind, hkind, -⟩ := outcome_adjacent_eq_matched.1 h
      exact Text.suffix_of_token? (Text.adjacentToken?_eq_some_iff.1 hkind).2
    · exact (outcome_adjacent_eq_missed.1 h).1 ▸ List.suffix_rfl
  | arrow e first second =>
    refine fun {t rest} => ⟨fun a h => ?_, fun h => ?_⟩
    · obtain ⟨u, hu, hv⟩ := outcome_arrow_eq_matched.1 h
      exact (Text.suffix_of_token? (Text.adjacentToken?_eq_some_iff.1 hv).2).trans
        (Text.suffix_of_token? hu)
    · exact (outcome_arrow_eq_missed.1 h).1 ▸ List.suffix_rfl
  | endOfInput =>
    intro t rest
    simp only [outcome]
    split <;> simp +contextual
  | startBody =>
    intro t rest
    simp only [outcome]
    split
    · rename_i before u h
      simp only [Outcome.matched.injEq, reduceCtorEq, false_imp_iff, and_true]
      rintro a ⟨-, rfl⟩
      exact suffix_of_splitAtStart h
    · simp +contextual
  | caseRest word =>
    intro t rest
    simp only [outcome]
    split
    · rename_i before u h
      simp only [Outcome.matched.injEq, reduceCtorEq, false_imp_iff, and_true]
      rintro a ⟨-, rfl⟩
      exact (List.drop_suffix _ _).trans (suffix_of_splitAtStart h)
    · simp +contextual
  | tooDeep limit => simp [outcome]

theorem suffix_of_matched {p : Production α} {t rest : Text} {a : α}
    (h : p.outcome t = .matched a rest) : rest <:+ t :=
  (suffix_of_outcome p).1 a h

/-! ## Repetition -/

/-- Every match leaves less text to read. -/
def Advances (p : Production α) : Prop :=
  ∀ {t rest : Text} {a : α}, p.outcome t = .matched a rest → rest.length < t.length

theorem advances_token (e : Expectation) (accept : TokenKind → Option α) :
    (token e accept).Advances := by
  intro t rest a h
  obtain ⟨kind, hkind, -⟩ := outcome_token_eq_matched.1 h
  exact Text.length_lt_of_token? hkind

theorem advances_symbol (x : Symbol) : (symbol x).Advances :=
  advances_token _ _

theorem advances_operator : operator.Advances :=
  advances_token _ _

theorem advances_bind {p : Production α} (hp : p.Advances) (f : α → Production β) :
    (p >>= f).Advances := by
  intro t rest b h
  obtain ⟨a, u, ha, hf⟩ := outcome_bind_eq_matched.1 h
  exact Nat.lt_of_le_of_lt (suffix_of_matched hf).length_le (hp ha)

/-- The values `as` are read in a row, and then the production misses. -/
inductive Repeats (p : Production α) : Text → List α → Text → Prop
  | stop {t : Text} : p.Misses t → Repeats p t [] t
  | step {t u rest : Text} {a : α} {as : List α} : p.outcome t = .matched a u →
      Repeats p u as rest → Repeats p t (a :: as) rest

/-- What a repetition of a production that makes progress reads. -/
theorem outcome_many_eq_matched {p : Production α} (hp : p.Advances) {t rest : Text}
    {as : List α} : (many p).outcome t = .matched as rest ↔ p.Repeats t as rest := by
  constructor
  · intro h
    simp only [outcome] at h
    fun_induction Outcome.repeated p.outcome t generalizing as rest with
    | case1 t u hmiss => cases h; exact .stop ⟨u, hmiss⟩
    | case2 t hgave => cases h
    | case3 t a u ha hlt ih =>
      cases hr : Outcome.repeated p.outcome u with
      | matched as' v => rw [hr] at h; cases h; exact .step ha (ih hr)
      | missed v => rw [hr] at h; cases h
      | gaveUp => rw [hr] at h; cases h
    | case4 t a u ha hlt => exact absurd (hp ha) hlt
  · intro h
    simp only [outcome]
    induction h with
    | stop hmiss =>
      obtain ⟨u, hu⟩ := hmiss
      rw [Outcome.repeated, hu]
    | step ha _ ih =>
      rw [Outcome.repeated, ha]
      simp only [hp ha, if_true, ih, Outcome.map]

@[simp] theorem outcome_many_ne_missed {p : Production α} {t rest : Text} :
    (many p).outcome t ≠ .missed rest := by
  simp only [outcome]
  fun_induction Outcome.repeated p.outcome t with
  | case1 => simp
  | case2 => simp
  | case3 t a u hp hlt ih =>
    cases hr : Outcome.repeated p.outcome u with
    | matched as v => simp [Outcome.map]
    | missed v => rw [hr] at ih; simpa [Outcome.map] using ih
    | gaveUp => simp [Outcome.map]
  | case4 => simp

theorem Repeats.suffix {p : Production α} {t rest : Text} {as : List α}
    (h : p.Repeats t as rest) : rest <:+ t := by
  induction h with
  | stop => exact List.suffix_rfl
  | step ha _ ih => exact ih.trans (suffix_of_matched ha)

/-! ## Lists with separators -/

/-- A separator and the item after it. -/
def link (separator : Production β) (item : Production α) : Production (β × α) := do
  let mark ← separator
  let next ← item
  return (mark, next)

@[simp] theorem outcome_link_eq_matched {separator : Production β} {item : Production α}
    {t rest : Text} {x : β × α} : (link separator item).outcome t = .matched x rest ↔
      ∃ u, separator.outcome t = .matched x.1 u ∧ item.outcome u = .matched x.2 rest := by
  obtain ⟨mark, next⟩ := x
  simp only [link, outcome_bind_eq_matched, outcome_pure, Outcome.matched.injEq, Prod.mk.injEq]
  constructor
  · rintro ⟨_, u, hs, _, _, hi, ⟨rfl, rfl⟩, rfl⟩; exact ⟨u, hs, hi⟩
  · rintro ⟨u, hs, hi⟩; exact ⟨mark, u, hs, next, rest, hi, ⟨rfl, rfl⟩, rfl⟩

theorem misses_link_of_separator {separator : Production β} {item : Production α} {t : Text}
    (h : separator.Misses t) : (link separator item).Misses t := by
  obtain ⟨u, hu⟩ := h
  exact ⟨u, by simp only [link, outcome_bind_eq_missed, hu, true_or]⟩

theorem advances_link {separator : Production β} (hs : separator.Advances) (item : Production α) :
    (link separator item).Advances :=
  advances_bind hs _

/-- Items with separators are read one by one, until a separator with an item
    after it is missing. -/
theorem outcome_separated_eq_matched {separator : Production β} {item : Production α}
    (hs : separator.Advances) {t rest : Text} {x : Option (α × List (β × α))} :
    (separated separator item).outcome t = .matched x rest ↔
      x = none ∧ rest = t ∧ item.Misses t ∨
        ∃ head tail u, x = some (head, tail) ∧ item.outcome t = .matched head u ∧
          (link separator item).Repeats u tail rest := by
  have hlink : (link separator item).Advances := advances_link hs item
  simp only [separated, outcome_bind_eq_matched, outcome_optional_eq_matched]
  constructor
  · rintro ⟨o, u, ⟨head, rfl, hhead⟩ | ⟨rfl, rfl, hmiss⟩, h⟩
    · obtain ⟨tail, v, htail, hx⟩ := outcome_bind_eq_matched.1 h
      cases hx
      exact Or.inr ⟨head, tail, u, rfl, hhead, (outcome_many_eq_matched hlink).1 htail⟩
    · cases h
      exact Or.inl ⟨rfl, rfl, hmiss⟩
  · rintro (⟨rfl, rfl, hmiss⟩ | ⟨head, tail, u, rfl, hhead, htail⟩)
    · exact ⟨none, rest, Or.inr ⟨rfl, rfl, hmiss⟩, rfl⟩
    · refine ⟨some head, u, Or.inl ⟨head, rfl, hhead⟩, outcome_bind_eq_matched.2 ?_⟩
      exact ⟨tail, rest, (outcome_many_eq_matched hlink).2 htail, rfl⟩

@[simp] theorem outcome_separated_ne_missed {separator : Production β} {item : Production α}
    {t rest : Text} : (separated separator item).outcome t ≠ .missed rest := by
  simp only [separated, optional, ne_eq, outcome_bind_eq_missed, outcome_maybe_ne_missed, false_or]
  rintro ⟨_ | head, u, -, h⟩
  · simp at h
  · simp only [outcome_bind_eq_missed, outcome_many_ne_missed, outcome_pure, reduceCtorEq,
      and_false, exists_false, or_self] at h

/-- A chain is empty where no operand stands, and otherwise goes on as long as an
    operator and an operand follow. -/
theorem outcome_chain_eq_matched {p : Production α} {t rest : Text} {c : Chain α} :
    (chain p).outcome t = .matched c rest ↔ c = .empty ∧ rest = t ∧ p.Misses t ∨
      ∃ head tail u, c = .cons head tail ∧ p.outcome t = .matched head u ∧
        (link operator p).Repeats u tail rest := by
  simp only [chain, outcome_bind_eq_matched,
    outcome_separated_eq_matched advances_operator]
  constructor
  · rintro ⟨x, u, ⟨rfl, rfl, hmiss⟩ | ⟨head, tail, v, rfl, hhead, htail⟩, h⟩
    · cases h; exact Or.inl ⟨rfl, rfl, hmiss⟩
    · cases h; exact Or.inr ⟨head, tail, v, rfl, hhead, htail⟩
  · rintro (⟨rfl, rfl, hmiss⟩ | ⟨head, tail, u, rfl, hhead, htail⟩)
    · exact ⟨none, rest, Or.inl ⟨rfl, rfl, hmiss⟩, rfl⟩
    · exact ⟨_, rest, Or.inr ⟨head, tail, u, rfl, hhead, htail⟩, rfl⟩

/-- A list is left as it is, unless it is one blank item, which is dropped. -/
theorem dropLoneBlank_cons (isBlank : α → Bool) (a : α) (as : List α) :
    dropLoneBlank isBlank (a :: as) = a :: as ∧ (as = [] → isBlank a = false) ∨
      dropLoneBlank isBlank (a :: as) = [] ∧ as = [] ∧ isBlank a = true := by
  cases as with
  | nil => cases ha : isBlank a <;> simp [dropLoneBlank, ha]
  | cons b bs => exact Or.inl ⟨rfl, by simp⟩

theorem dropLoneBlank_eq_cons_iff {isBlank : α → Bool} {items : List α} {a : α} {as : List α} :
    dropLoneBlank isBlank items = a :: as ↔ items = a :: as ∧ (as = [] → isBlank a = false) := by
  cases items with
  | nil => simp [dropLoneBlank]
  | cons b bs =>
    rcases dropLoneBlank_cons isBlank b bs with ⟨hkeep, hblank⟩ | ⟨hdrop, rfl, hblank⟩
    · rw [hkeep]
      exact ⟨fun h => ⟨h, by cases h; exact hblank⟩, fun h => h.1⟩
    · rw [hdrop]
      simp only [reduceCtorEq, List.cons.injEq, false_iff, not_and]
      rintro ⟨rfl, rfl⟩ h
      rw [h rfl] at hblank
      cases hblank

/-- A list with commas is read item by item; a lone blank item is dropped. -/
theorem outcome_commaList_eq_matched {isBlank : α → Bool} {item : Production α} {t rest : Text}
    {as : List α} : (commaList isBlank item).outcome t = .matched as rest ↔
      as = [] ∧ rest = t ∧ item.Misses t ∨
        ∃ head tail u, as = dropLoneBlank isBlank (head :: tail.map Prod.snd) ∧
          item.outcome t = .matched head u ∧
          (link (symbol .comma) item).Repeats u tail rest := by
  simp only [commaList, outcome_bind_eq_matched,
    outcome_separated_eq_matched (advances_symbol .comma)]
  constructor
  · rintro ⟨x, u, ⟨rfl, rfl, hmiss⟩ | ⟨head, tail, v, rfl, hhead, htail⟩, h⟩
    · cases h; exact Or.inl ⟨rfl, rfl, hmiss⟩
    · cases h; exact Or.inr ⟨head, tail, v, rfl, hhead, htail⟩
  · rintro (⟨rfl, rfl, hmiss⟩ | ⟨head, tail, u, rfl, hhead, htail⟩)
    · exact ⟨none, rest, Or.inl ⟨rfl, rfl, hmiss⟩, rfl⟩
    · exact ⟨_, rest, Or.inr ⟨head, tail, u, rfl, hhead, htail⟩, rfl⟩

end Production

end Cypher
