/-
  Start clauses — a `START` clause in front of a query changes nothing behind it.

  The body of a `START` clause is any text at all, and the place where it ends is found by a
  search for whole words. From there on the query is read as it would be read alone.

  * `Production.outcome_query_start`: what a query does behind a `START` clause, it does alone;
  * `Query.opening_of_parse`: the word that a query begins with;
  * `Query.parse_start_append`: a `START` clause and a query make a query with that start, and
    without a clause behind it a `START` clause is refused.
-/
import Cypher.Proofs.Boundary
import Cypher.Proofs.Tokenwise

namespace Cypher

namespace Production

variable {k : Keyword} {t u mid rest : Text}

/-! ## The word `START` -/

/-- The first word is `START` and all letters and digits that directly follow it. -/
theorem token?_start (t : Text) :
    (Keyword.start.written ++ t).token? =
      some (.identifier (Keyword.start.written ++ t.takeWhile Char.isAlphanum),
        t.dropWhile Char.isAlphanum) := by
  have hname : Text.isName (Keyword.start.written ++ t.takeWhile Char.isAlphanum) = true := by
    simp [Keyword.written, Text.isName]
  have htoken := Text.token?_identifier hname (Text.notNext_dropWhile Char.isAlphanum t)
  rwa [List.append_assoc, List.takeWhile_append_dropWhile] at htoken

/-- A text with `START` in front begins with no other keyword, and with this one only if the
    word ends there. -/
theorem KeywordAt.start_of_append (h : KeywordAt k (Keyword.start.written ++ t) u) :
    k = .start ∧ u = t := by
  obtain ⟨word, hword, hk⟩ := h
  rw [token?_start] at hword
  cases hword
  rw [Text.eqIgnoringCase_iff, Text.lower, List.map_append] at hk
  cases k with
  | start =>
    have hnil : t.takeWhile Char.isAlphanum = [] := by simpa [Keyword.written, Text.lower] using hk
    have happend : t.takeWhile Char.isAlphanum ++ t.dropWhile Char.isAlphanum = t :=
      List.takeWhile_append_dropWhile
    rw [hnil, List.nil_append] at happend
    exact ⟨rfl, happend⟩
  | _ => simp [Keyword.written, Text.lower] at hk

/-- A clause does not begin with the word `START`. -/
theorem not_keywordAt_start_of_opensClause (h : t.opensClause = true) :
    ∀ u, ¬KeywordAt .start t u := by
  intro u hstart
  have hword : ∀ {k v}, k ≠ .start → ¬KeywordAt k t v := fun hk hv => hk (hv.unique hstart).1
  rcases Text.opensClause_iff.1 h with ⟨k, hk, hstarts⟩ | hoptional
  · obtain ⟨v, hv⟩ := keywordAt_of_startsWord hstarts
    refine hword ?_ hv
    rintro rfl
    simp at hk
  · obtain ⟨written, c, after, rfl, hlower, hblank, -⟩ := Text.opensOptionalMatch_iff.1 hoptional
    have hends : Text.NotNext Text.isAlphanumeric (c :: after) :=
      Text.notNext_cons.2 (Text.isAlphanumeric_eq_false_of_isBlank hblank)
    obtain ⟨v, hv⟩ := keywordAt_of_startsWord (k := .optional)
      (Text.startsWord_iff.2 ⟨written, c :: after, rfl, hlower, hends⟩)
    exact hword (by simp) hv

/-! ## Queries behind a start clause -/

/-- Behind a `START` clause a query does what it does alone. -/
theorem outcome_query_start (limit : Nat) (hmid : Text.NotNext Char.isAlphanum (mid ++ rest))
    (hsplit : Text.splitAtClause? (mid ++ rest) = some (mid, rest)) :
    (query limit).outcome (Keyword.start.written ++ (mid ++ rest)) =
      ((query limit).outcome rest).map fun q => { q with start := some mid.trim } := by
  have hclause : rest.opensClause = true := (Text.splitAtStartFrom?_eq_some hsplit).2.1
  have hstart : (optional startClause).outcome (Keyword.start.written ++ (mid ++ rest)) =
      .matched (some mid.trim) rest :=
    outcome_optional_eq_matched.2 (Or.inl ⟨_, rfl, outcome_startClause_eq_matched.2
      ⟨mid ++ rest, mid, keywordAt_written .start hmid, hsplit, rfl⟩⟩)
  rw [outcome_query_eq, hstart,
    outcome_query_of_not_start (not_keywordAt_start_of_opensClause hclause), Outcome.andThen]
  cases (body limit).outcome rest with
  | missed u => rfl
  | gaveUp => rfl
  | matched parts u =>
    simp only [Outcome.andThen]
    split <;> rfl

end Production

namespace Query

open Production

variable {limit : Nat} {t : Text} {q : Query}

/-- A query begins with a `START` clause that ends somewhere, or with the keyword of another
    clause. -/
theorem opening_of_parse (h : parse limit t = .ok q) :
    (∃ u, KeywordAt .start t u ∧ u.splitAtClause? ≠ none) ∨
      ∃ k ≠ Keyword.start, ∃ u, KeywordAt k t u := by
  obtain ⟨rest, hrest⟩ := parse_eq_ok_iff.1 h
  obtain ⟨t₁, t₂, t₃, hstart, hclauses, hreturn, -⟩ := outcome_query_eq_matched.1 hrest
  rcases outcome_optional_eq_matched.1 hstart with ⟨body, -, hbody⟩ | ⟨-, rfl, -⟩
  · obtain ⟨u, before, hu, hsplit, -⟩ := outcome_startClause_eq_matched.1 hbody
    exact Or.inl ⟨u, hu, by simp [hsplit]⟩
  · right
    generalize q.clauses = clauses at hclauses
    cases hclauses with
    | stop _ => exact ⟨.return_, by simp, t₃, hreturn⟩
    | @step t u t' clause clauses hclause _ =>
      obtain ⟨u, _, hkind, -⟩ := outcome_matchClause_eq_matched.1 hclause
      generalize clause.kind = kind at hkind
      cases kind with
      | required => exact ⟨.match_, by simp, u, hkind⟩
      | optional =>
        obtain ⟨v, hv, -⟩ := hkind
        exact ⟨.optional, by simp, v, hv⟩

/-- Where a `START` clause that is not empty ends before another clause, the text is read as the
    query behind it with that start. A `START` clause that ends nowhere is refused. -/
theorem parse_start_append (limit : Nat) (mid rest : Text) :
    (mid ≠ [] → Text.NotNext Char.isAlphanum mid →
      Text.splitAtClause? (mid ++ rest) = some (mid, rest) →
      ∀ q, parse limit (Keyword.start.written ++ mid ++ rest) = .ok q ↔
        ∃ q', parse limit rest = .ok q' ∧ q = { q' with start := some mid.trim }) ∧
    (Text.splitAtClause? mid = none →
      ∃ error, parse limit (Keyword.start.written ++ mid) = .error error) := by
  constructor
  · intro hne hmid hsplit q
    have houtcome := outcome_query_start limit (hmid.append hne rest) hsplit
    rw [List.append_assoc]
    simp only [parse_eq_ok_iff, houtcome]
    cases (Production.query limit).outcome rest <;> simp [Outcome.map, eq_comm]
  · intro hnone
    cases hparse : parse limit (Keyword.start.written ++ mid) with
    | error error => exact ⟨error, rfl⟩
    | ok q =>
      rcases opening_of_parse hparse with ⟨u, hu, hsome⟩ | ⟨k, hk, u, hu⟩
      · rw [hu.start_of_append.2] at hsome
        exact absurd hnone hsome
      · exact absurd hu.start_of_append.1 hk

/-- The body holds an opening back-tick, a letter that is not ASCII directly before a keyword, and
    the word `OPTIONAL`, none of which ends it. -/
theorem parse_start_append_matches :
    let mid : Text := "\x60( éMATCH RETURNS optional: ".toList
    let rest : Text := "Match (a) RETURN CASE ` END".toList
    mid ≠ [] ∧ Text.NotNext Char.isAlphanum mid ∧
      Text.splitAtClause? (mid ++ rest) = some (mid, rest) ∧
      (∃ q, parse 0 rest = .ok q ∧
        parse 0 (Keyword.start.written ++ mid ++ rest) =
          .ok { q with start := some "\x60( éMATCH RETURNS optional:".toList }) ∧
      Text.splitAtClause? mid = none ∧
      ∃ error, parse 0 (Keyword.start.written ++ mid) = .error error := by
  intro mid rest
  have hmid : Text.NotNext Char.isAlphanum mid := Text.notNext_cons.2 (by decide)
  have hsplit : Text.splitAtClause? (mid ++ rest) = some (mid, rest) := by decide +kernel
  have hnone : Text.splitAtClause? mid = none := by decide +kernel
  obtain ⟨hstarts, hrefused⟩ := parse_start_append 0 mid rest
  have hquery : parse 0 rest = .ok ⟨none, [⟨.required, [⟨some ⟨['a'], none⟩, []⟩], none⟩],
      [⟨.cons (.case_ "CASE ` END".toList) [], none⟩]⟩ := by decide +kernel
  have hstart := (hstarts (by decide) hmid hsplit _).2 ⟨_, hquery, rfl⟩
  exact ⟨by decide, hmid, hsplit, ⟨_, hquery, hstart⟩, hnone, hrefused hnone⟩

/-- Directly before a clause, the word `START` is part of a longer word. -/
theorem start_append_empty_refused :
    let mid : Text := []
    let rest : Text := "RETURN a".toList
    Text.NotNext Char.isAlphanum mid ∧ Text.splitAtClause? (mid ++ rest) = some (mid, rest) ∧
      (∃ q, parse defaultLimit rest = .ok q) ∧
      ∃ error, parse defaultLimit (Keyword.start.written ++ mid ++ rest) = .error error := by
  intro mid rest
  have hquery : parse defaultLimit rest =
      .ok ⟨none, [], [⟨.cons (.identifier ['a']) [], none⟩]⟩ := by decide +kernel
  have hrefused : parse defaultLimit (Keyword.start.written ++ mid ++ rest) =
      .error ⟨.unexpected (["`START`", "`MATCH`", "`OPTIONAL`", "`RETURN`"].map String.toList)
        (.token "STARTRETURN".toList), ⟨0, 11⟩⟩ := by decide +kernel
  exact ⟨Text.notNext_nil _, by decide +kernel, ⟨_, hquery⟩, _, hrefused⟩

end Query

end Cypher
