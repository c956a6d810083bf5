/-
  Optional clauses — `MATCH` and `OPTIONAL MATCH` differ in nothing but the kind of the clause.

  The two directives are read along different ways, the second one as an attempt after the first
  one has failed, and what follows stands at different offsets. From there on the texts are read
  alike, for the outcome of a production depends on the text ahead alone.

  * `Production.repeats_matchClause_of_matchKindAt`: the clauses of a text that begins with a
    directive, said by what follows the directive;
  * `Query.parse_of_matchKindAt`: a query is read alike behind either directive;
  * `Query.parse_optional_match`: with `OPTIONAL` in front of its first `MATCH` a text is read
    as the same query with an optional first clause, and is refused if it was refused before.
-/
import Cypher.Proofs.Cutting
import Cypher.Proofs.GivingUp

namespace Cypher

namespace Production

variable {limit : Nat} {k k' : MatchKind} {t u v rest blanks : Text} {clauses : List MatchClause}

/-! ## Directives -/

/-- A text that begins with a directive does not begin with the word `START`. -/
theorem MatchKindAt.not_keywordAt_start (h : MatchKindAt k t u) : ∀ v, ¬KeywordAt .start t v := by
  intro v hstart
  cases k with
  | required => cases (KeywordAt.unique h hstart).1
  | optional =>
    obtain ⟨w, hoptional, -⟩ := h
    cases (hoptional.unique hstart).1

theorem matchKindAt_required (hrest : Text.NotNext Char.isAlphanum rest) :
    MatchKindAt .required (Keyword.match_.written ++ rest) rest :=
  keywordAt_written .match_ hrest

/-- Blanks in front of a keyword do not matter. -/
theorem KeywordAt.blanks_append {k : Keyword} (h : KeywordAt k t rest)
    (hblanks : blanks.all Text.isBlank = true) : KeywordAt k (blanks ++ t) rest := by
  obtain ⟨word, hword, hk⟩ := h
  refine ⟨word, ?_, hk⟩
  rw [Text.token?_eq_some_iff] at hword ⊢
  rwa [Text.dropBlanks_blank_append t hblanks]

theorem matchKindAt_optional (hblanks : blanks.all Text.isBlank = true) (hne : blanks ≠ [])
    (hrest : Text.NotNext Char.isAlphanum rest) :
    MatchKindAt .optional
      (Keyword.optional.written ++ (blanks ++ (Keyword.match_.written ++ rest))) rest := by
  have hopens : Text.Opens blanks := by
    rintro c cs rfl
    rw [List.all_cons, Bool.and_eq_true] at hblanks
    simpa using hblanks.1
  exact ⟨_, keywordAt_written .optional (hopens.isAlphanum.append hne _),
    (keywordAt_written .match_ hrest).blanks_append hblanks⟩

/-! ## What follows a directive -/

/-- The clauses of a text that begins with a directive: the first one has the kind of the
    directive, and everything else is read from what follows it. -/
theorem repeats_matchClause_of_matchKindAt (h : MatchKindAt k t u) :
    (matchClause limit).Repeats t clauses rest ↔
      ∃ ps condition others v w, clauses = ⟨k, ps, condition⟩ :: others ∧
        paths.outcome u = .matched ps v ∧
        (optional (whereClause limit)).outcome v = .matched condition w ∧
        (matchClause limit).Repeats w others rest := by
  constructor
  · intro hclauses
    cases hclauses with
    | stop hmiss => exact absurd h (not_matchKindAt_of_misses_matchClause hmiss k u)
    | @step _ w _ first others hfirst hothers =>
      obtain ⟨u', v, hkind, hpaths, hcondition⟩ := outcome_matchClause_eq_matched.1 hfirst
      obtain ⟨rfl, rfl⟩ := h.unique hkind
      exact ⟨first.paths, first.condition, others, v, w, rfl, hpaths, hcondition, hothers⟩
  · rintro ⟨ps, condition, others, v, w, rfl, hpaths, hcondition, hothers⟩
    exact .step (outcome_matchClause_eq_matched.2 ⟨u, v, h, hpaths, hcondition⟩) hothers

end Production

namespace Query

open Production

variable {limit : Nat} {k k' : MatchKind} {t t' u : Text} {q : Query}

/-- A text that begins with a directive is read as a query whose first clause has that kind.
    Behind another directive the same text is read as the same query, up to that kind. -/
theorem parse_of_matchKindAt (h : MatchKindAt k t u) (h' : MatchKindAt k' t' u)
    (hq : parse limit t = .ok q) :
    ∃ ps condition others, q.clauses = ⟨k, ps, condition⟩ :: others ∧
      parse limit t' = .ok { q with clauses := ⟨k', ps, condition⟩ :: others } := by
  obtain ⟨rest, hrest⟩ := parse_eq_ok_iff.1 hq
  obtain ⟨t₁, t₂, t₃, hstart, hclauses, hreturn, hitems, hend⟩ := outcome_query_eq_matched.1 hrest
  have hnone : ∀ {k : MatchKind} {t : Text}, MatchKindAt k t u →
      (optional startClause).outcome t = .matched none t := fun hkind =>
    outcome_optional_eq_matched.2
      (Or.inr ⟨rfl, rfl, misses_startClause_of hkind.not_keywordAt_start⟩)
  simp only [hnone h, Outcome.matched.injEq] at hstart
  obtain ⟨hstart, rfl⟩ := hstart
  obtain ⟨ps, condition, others, v, w, hfirst, hothers⟩ :=
    (repeats_matchClause_of_matchKindAt h).1 hclauses
  refine ⟨ps, condition, others, hfirst, parse_eq_ok_iff.2 ⟨rest, ?_⟩⟩
  exact outcome_query_eq_matched.2 ⟨t', t₂, t₃, hstart ▸ hnone h',
    (repeats_matchClause_of_matchKindAt h').2 ⟨ps, condition, others, v, w, rfl, hothers⟩,
    hreturn, hitems, hend⟩

/-- A text behind `MATCH` is a query iff it is one behind `OPTIONAL MATCH`, and then the two are
    the same query but for the kind of the first clause. -/
theorem parse_optional_match (limit : Nat) (rest blanks : Text)
    (hrest : Text.NotNext Char.isAlphanum rest) (hne : blanks ≠ [])
    (hblanks : blanks.all Text.isBlank = true) :
    ((∃ q, parse limit (Keyword.match_.written ++ rest) = .ok q) ↔
      ∃ q, parse limit
        (Keyword.optional.written ++ blanks ++ Keyword.match_.written ++ rest) = .ok q) ∧
    ∀ q q', parse limit (Keyword.match_.written ++ rest) = .ok q →
      parse limit (Keyword.optional.written ++ blanks ++ Keyword.match_.written ++ rest) = .ok q' →
      ∃ ps condition others, q.clauses = ⟨.required, ps, condition⟩ :: others ∧
        q' = { q with clauses := ⟨.optional, ps, condition⟩ :: others } := by
  have hrequired := matchKindAt_required hrest
  have hoptional := matchKindAt_optional hblanks hne hrest
  simp only [List.append_assoc]
  refine ⟨⟨?_, ?_⟩, ?_⟩
  · rintro ⟨q, hq⟩
    obtain ⟨_, _, _, -, hq'⟩ := parse_of_matchKindAt hrequired hoptional hq
    exact ⟨_, hq'⟩
  · rintro ⟨q, hq⟩
    obtain ⟨_, _, _, -, hq'⟩ := parse_of_matchKindAt hoptional hrequired hq
    exact ⟨_, hq'⟩
  · intro q q' hq hq'
    obtain ⟨ps, condition, others, hfirst, hsame⟩ := parse_of_matchKindAt hrequired hoptional hq
    rw [hsame] at hq'
    cases hq'
    exact ⟨ps, condition, others, hfirst, rfl⟩

/-- The blanks are a line separator and a tab; verbatim text and a second clause follow. -/
theorem parse_optional_match_verbatim :
    let rest : Text := "(a) WHERE CASE é END OPTIONAL MATCH (b) RETURN a".toList
    let blanks : Text := ['\u2028', '\t']
    Text.NotNext Char.isAlphanum rest ∧ blanks ≠ [] ∧ blanks.all Text.isBlank = true ∧
      ∃ q q', parse 0 (Keyword.match_.written ++ rest) = .ok q ∧
        parse 0 (Keyword.optional.written ++ blanks ++ Keyword.match_.written ++ rest) = .ok q' ∧
        ∃ ps condition others, q.clauses = ⟨.required, ps, condition⟩ :: others ∧
          q' = { q with clauses := ⟨.optional, ps, condition⟩ :: others } := by
  intro rest blanks
  have hrest : Text.NotNext Char.isAlphanum rest := Text.notNext_cons.2 (by decide)
  have hblanks : blanks.all Text.isBlank = true := by decide
  obtain ⟨hiff, hsame⟩ := parse_optional_match 0 rest blanks hrest (by decide) hblanks
  have hquery : ∃ q, parse 0 (Keyword.match_.written ++ rest) = .ok q :=
    ⟨⟨none, [⟨.required, [⟨some ⟨['a'], none⟩, []⟩], some (.cons (.case_ "CASE é END".toList) [])⟩,
      ⟨.optional, [⟨some ⟨['b'], none⟩, []⟩], none⟩],
      [⟨.cons (.identifier ['a']) [], none⟩]⟩, by decide +kernel⟩
  obtain ⟨q', hq'⟩ := hiff.1 hquery
  obtain ⟨q, hq⟩ := hquery
  exact ⟨hrest, by decide, hblanks, q, q', hq, hq', hsame q q' hq hq'⟩

end Query

end Cypher
