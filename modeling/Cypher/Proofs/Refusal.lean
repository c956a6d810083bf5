/-
  Refusal — where a query is refused, and what else it could have gone on with there.

  * `Production.getsTo_of_looked`: what a lookahead has found is read again afterwards;
  * `Query.start_le_of_failure`: nothing fails beyond the place of the error;
  * `RefusedAt limit t old`: the text `t` is refused where `old` is left of it;
  * `RefusedAt.lt_start_of_isMet`, `RefusedAt.parse_of_endOfInput`: a text that goes on there
    with something that was expected gets further;
  * `RefusedAt.start_of_not_invites`: a text that goes on with anything else does not.
-/
import Cypher.Proofs.Cutting
import Cypher.Proofs.GivingUp

namespace Cypher

namespace Production

variable {limit : Nat} {t : Text}

/-! ## Lookaheads -/

theorem not_looked_of_tokenwise {α : Type} {p : Production α} {r : Text}
    (hp : Tokenwise limit false p) : .looked r ∉ p.notes t :=
  fun hn => Bool.noConfusion (hp.ordinary _ hn)

/-- Where a lookahead after the word `WHERE` is a match, the condition is empty, and what was
    found follows. -/
theorem matched_of_looked_whereClause {r : Text} (h : .looked r ∈ (whereClause limit).notes t) :
    ∃ u v, (whereClause limit).outcome t = .matched .empty u ∧ v.dropBlanks = r ∧
      ((∃ k, MatchKindAt k u v) ∨ KeywordAt .return_ u v) := by
  rcases mem_notes_bind.1 h with h | ⟨word, u, hword, h⟩
  · exact absurd h (not_looked_of_tokenwise (.keyword _ : Tokenwise limit _ _))
  have hwhere := matched_keyword_iff.1 ⟨word, hword⟩
  rcases mem_notes_bind.1 h with h | ⟨found, v, -, h⟩
  · rcases mem_notes_lookahead.1 h with h | ⟨_, v, hv, heq⟩
    · exact absurd h (not_looked_of_tokenwise
        (.orElse (.map _ .matchKind) (.map _ (.keyword _)) : Tokenwise limit _ _))
    · cases heq
      have hfound : (∃ k, MatchKindAt k u v) ∨ KeywordAt .return_ u v := by
        rcases outcome_orElse_eq_matched.1 hv with hv | ⟨w, hw, hv⟩
        · obtain ⟨k, hk, -⟩ := outcome_map_eq_matched.1 hv
          exact Or.inl ⟨k, outcome_matchKind_eq_matched.1 hk⟩
        · rw [stays_map (stays_orElse (stays_map (stays_keyword _) _) (stays_attempt _)) _ hw] at hv
          obtain ⟨word', hword', -⟩ := outcome_map_eq_matched.1 hv
          exact Or.inr (matched_keyword_iff.1 ⟨word', hword'⟩)
      have hclause : ClauseAt u := hfound.imp (fun ⟨k, hk⟩ => ⟨k, v, hk⟩) fun hr => ⟨v, hr⟩
      exact ⟨u, v, outcome_whereClause_eq_matched.2 ⟨u, hwhere, Or.inl ⟨hclause, rfl, rfl⟩⟩, rfl,
        hfound⟩
  · cases found with
    | true => cases h
    | false => exact absurd h (not_looked_of_tokenwise (Tokenwise.expression limit))

/-- Likewise the clause ends there. -/
theorem matched_of_looked_matchClause {r : Text} (h : .looked r ∈ (matchClause limit).notes t) :
    ∃ c u v, (matchClause limit).outcome t = .matched c u ∧ v.dropBlanks = r ∧
      ((∃ k, MatchKindAt k u v) ∨ KeywordAt .return_ u v) := by
  rcases mem_notes_bind.1 h with h | ⟨kind, t₁, hkind, h⟩
  · exact absurd h (not_looked_of_tokenwise (.matchKind : Tokenwise limit _ _))
  rcases mem_notes_bind.1 h with h | ⟨paths, t₂, hpaths, h⟩
  · exact absurd h (not_looked_of_tokenwise (.paths : Tokenwise limit _ _))
  rcases mem_notes_bind.1 h with h | ⟨condition, t₃, -, h⟩
  · obtain ⟨u, v, hu, hv, hfound⟩ := matched_of_looked_whereClause h
    refine ⟨⟨kind, paths, some .empty⟩, u, v, outcome_matchClause_eq_matched.2 ?_, hv, hfound⟩
    exact ⟨t₁, t₂, outcome_matchKind_eq_matched.1 hkind, hpaths,
      outcome_optional_eq_matched.2 (Or.inl ⟨_, rfl, hu⟩)⟩
  · cases h

/-- What was found is then the next clause, or the word `RETURN` that ends the clauses. -/
theorem getsTo_of_looked_clauses {r : Text} (h : .looked r ∈ (many (matchClause limit)).notes t) :
    (many (matchClause limit)).GetsTo Note.isFailure (r.byteSize + 1) t ∨
      ∃ clauses u v, (many (matchClause limit)).outcome t = .matched clauses u ∧
        v.dropBlanks = r ∧ KeywordAt .return_ u v := by
  induction hlength : t.length using Nat.strongRecOn generalizing t with
  | ind n ih =>
    have hadvances : (matchClause limit).Advances := advances_matchClause limit
    -- a round with such a lookahead is a match, so there is always a next one
    by_cases hround : ∃ c u, (matchClause limit).outcome t = .matched c u
    · obtain ⟨c, u, hu⟩ := hround
      have hlt := hadvances hu
      have hmore : ∀ {cs w}, (many (matchClause limit)).outcome u = .matched cs w →
          (many (matchClause limit)).outcome t = .matched (c :: cs) w := by
        intro cs w hw
        rw [outcome_many_eq_matched hadvances] at hw ⊢
        exact .step hu hw
      have hnotes : (many (matchClause limit)).notes t =
          (matchClause limit).notes t ++ (many (matchClause limit)).notes u :=
        Outcome.repeatedNotes_of_matched hu hlt
      rw [hnotes] at h
      rcases List.mem_append.1 h with h | h
      · obtain ⟨c', u', v, hu', hv, hfound⟩ := matched_of_looked_matchClause h
        rw [hu] at hu'
        cases hu'
        rcases hfound with ⟨k, hk⟩ | hreturn
        · have hkind := outcome_matchKind_eq_matched.2 hk
          have hclause : (matchClause limit).GetsTo Note.isFailure (r.byteSize + 1) u :=
            .andThen_right hkind <| (Tokenwise.paths.bind fun _ =>
              Tokenwise.whereClause.optional.bind fun _ => .pure _).getsTo (fun _ h => h)
                (by rw [hv]; omega)
          exact Or.inl (.many_right hu hlt (hclause.many_left .matchClause hadvances fun _ h => h))
        · have hstop : (matchClause limit).Misses u :=
            misses_matchClause_of_keywordAt hreturn (by simp) (by simp)
          exact Or.inr ⟨[c], u, v, hmore ((outcome_many_eq_matched hadvances).2 (.stop hstop)), hv,
            hreturn⟩
      · rcases ih _ (hlength ▸ hlt) h rfl with hgets | ⟨cs, w, v, hw, hv, hreturn⟩
        · exact Or.inl (.many_right hu hlt hgets)
        · exact Or.inr ⟨c :: cs, w, v, hmore hw, hv, hreturn⟩
    · have hnotes : (many (matchClause limit)).notes t = (matchClause limit).notes t :=
        Outcome.repeatedNotes_of_ne_matched fun c u hu => hround ⟨c, u, hu⟩
      rw [hnotes] at h
      obtain ⟨c, u, -, hu, -⟩ := matched_of_looked_matchClause h
      exact absurd ⟨c, u, hu⟩ hround

/-- What a lookahead has found is read again afterwards, or something fails beyond it. -/
theorem getsTo_of_looked {r : Text} (h : .looked r ∈ (body limit).notes t) :
    (body limit).GetsTo Note.isFailure (r.byteSize + 1) t := by
  have hreturns : Tokenwise limit false
      (commaList ReturnItem.isBlank (returnItem limit)) := .returns
  have hafter : ∀ clauses : List MatchClause, Tokenwise limit false (keyword .return_ >>= fun _ =>
      commaList ReturnItem.isBlank (returnItem limit) >>= fun returns => pure (clauses, returns)) :=
    fun _ => (Tokenwise.keyword _).bind fun _ => hreturns.bind fun _ => .pure _
  rcases mem_notes_bind.1 h with h | ⟨clauses, u, -, h⟩
  · rcases getsTo_of_looked_clauses h with hgets | ⟨clauses, u, v, hu, hv, hreturn⟩
    · exact hgets.andThen_left hafter fun _ h => h
    · obtain ⟨word, hword⟩ := matched_keyword_iff.2 hreturn
      refine .andThen_right hu (.andThen_right hword ?_)
      exact (hreturns.bind fun _ => .pure _).getsTo (fun _ h => h) (by rw [hv]; omega)
  · exact absurd h (not_looked_of_tokenwise (hafter clauses))

/-! ## The notes on a query -/

/-- A query without the word `START` has the notes of its body, and one on each end. -/
theorem mem_notes_query {n : Note} (hstart : ∀ u, ¬KeywordAt .start t u) :
    n ∈ (query limit).notes t ↔ n = .expected (.keyword .start) t.dropBlanks ∨
      n ∈ (body limit).notes t ∨ ∃ parts u, (body limit).outcome t = .matched parts u ∧
        n = .expected .endOfInput u.dropBlanks ∧ u.dropBlanks ≠ [] := by
  rw [notes_query_of_not_start hstart, List.mem_cons, List.mem_append]
  refine or_congr_right (or_congr_right ?_)
  cases (body limit).outcome t with
  | matched parts u =>
    simp only [Outcome.onMatch, mem_notes_endOfInput, Outcome.matched.injEq]
    constructor
    · exact fun h => ⟨_, _, ⟨rfl, rfl⟩, h⟩
    · rintro ⟨_, _, ⟨rfl, rfl⟩, h⟩
      exact h
  | missed u => simp [Outcome.onMatch]
  | gaveUp => simp [Outcome.onMatch]

/-- A query is given up where its body is. -/
theorem noneBeyond_query {l : Nat} {ahead : Text} (hstart : ∀ u, ¬KeywordAt .start t u)
    (hcase : t.CaseLast) (h : .tooDeep l ahead ∈ (query limit).notes t) :
    Note.NoneBeyond ahead ((query limit).notes t) := by
  have hdeep : .tooDeep l ahead ∈ (body limit).notes t := by
    rcases (mem_notes_query hstart).1 h with h | h | ⟨parts, u, -, h, -⟩
    · cases h
    · exact h
    · cases h
  have hnone := (tidy_body limit).givenUp hcase hdeep
  intro n hn hfailure
  rcases (mem_notes_query hstart).1 hn with rfl | hn | ⟨parts, u, hu, -⟩
  · exact Text.byteSize_le_of_suffix (ahead_of_mem_notes _ _ hdeep).1
  · exact hnone n hn hfailure
  · exact absurd hdeep (Tidy.not_tooDeep_of_matched hu)

/-- A query whose body got beyond a place fails further on, or it is read. -/
theorem exists_failure_of_beyond {place : Text} (hstart : ∀ u, ¬KeywordAt .start t u)
    (h : (body limit).Beyond t place) (hrefused : ∀ q u, (query limit).outcome t ≠ .matched q u) :
    ∃ n ∈ (query limit).notes t, n.isFailure = true ∧ n.ahead.byteSize < place.byteSize := by
  have hnote : ∀ n ∈ (body limit).notes t, n ∈ (query limit).notes t := fun n hn =>
    (mem_notes_query hstart).2 (Or.inr (Or.inl hn))
  have hend : ∀ {parts u}, (body limit).outcome t = .matched parts u →
      u.dropBlanks.byteSize < place.byteSize →
      ∃ n ∈ (query limit).notes t, n.isFailure = true ∧ n.ahead.byteSize < place.byteSize := by
    intro parts u hu hlt
    refine ⟨_, (mem_notes_query hstart).2 (Or.inr (Or.inr ⟨parts, u, hu, rfl, ?_⟩)), rfl, hlt⟩
    intro hnil
    refine hrefused ⟨none, parts.1, parts.2⟩ u ?_
    rw [outcome_query_of_not_start hstart, hu]
    exact if_pos hnil
  rcases h with ⟨n, hn, -, hlt⟩ | ⟨parts, u, hu, hlt⟩
  · cases n with
    | expected e ahead => exact ⟨_, hnote _ hn, rfl, hlt⟩
    | tooDeep l ahead => exact ⟨_, hnote _ hn, rfl, hlt⟩
    | looked ahead =>
      have hahead : ahead.byteSize < place.byteSize := hlt
      rcases getsTo_of_looked hn with ⟨m, hm, hfailure, hle⟩ | ⟨parts, u, hu, hle⟩
      · exact ⟨m, hnote m hm, hfailure, by omega⟩
      · exact hend hu (by omega)
  · exact hend hu hlt

/-- A query that is missed did not get beyond the furthest place. -/
theorem not_beyond_of_missed {place u : Text} (hstart : ∀ u, ¬KeywordAt .start t u)
    (hmissed : (query limit).outcome t = .missed u)
    (hfurthest : ∀ e ahead, .expected e ahead ∈ (query limit).notes t →
      place.byteSize ≤ ahead.byteSize) : ¬(body limit).Beyond t place := by
  intro hbeyond
  obtain ⟨n, hn, hfailure, hlt⟩ := exists_failure_of_beyond hstart hbeyond fun q v hv => by
    rw [hmissed] at hv
    cases hv
  cases n with
  | expected e ahead => exact absurd (hfurthest e ahead hn) (Nat.not_le.2 hlt)
  | tooDeep l ahead => exact absurd hn (Tidy.not_tooDeep_of_missed hmissed)
  | looked ahead => cases hfailure

end Production

/-! ## Places of errors -/

namespace Furthest

variable {source place : Text} {notes : List Note} {f : Furthest}

/-- The error begins at the furthest place. -/
theorem Of.start_error (h : Of source notes f place) (hplace : place.dropBlanks = place) :
    f.error.span.start + place.byteSize = source.byteSize := by
  have hsize := Text.byteSize_le_of_suffix h.suffix
  have hoffset : f.cursor.offset = source.byteSize - place.byteSize := by rw [h.cursor]; rfl
  have hskip : f.cursor.skipBlanks.offset = f.cursor.offset :=
    (Cursor.skipBlanks_offset_eq_iff _).2 (by rw [h.cursor]; exact hplace)
  have hstart : f.error.span.start = f.cursor.offset := by
    rw [error]
    split
    · rfl
    · rename_i hnext
      rw [← hskip]
      exact congrArg Span.start (Cursor.next?_eq_some hnext).2.2.1
    · rename_i hnext
      rw [← hskip]
      exact congrArg Span.start (Cursor.next?_eq_some hnext).2.2.1
  omega

theorem alternatives_error (f : Furthest) :
    f.error.alternatives = f.expected.map Expectation.describe := by
  rw [error]
  split <;> rfl

end Furthest

namespace Query

open Production

variable {limit : Nat} {t u : Text} {error : SyntaxError}

/-- A query that is missed is refused at the furthest place. -/
theorem parse_of_missed {e : Expectation} {ahead : Text}
    (h : (Production.query limit).outcome t = .missed u)
    (hnote : .expected e ahead ∈ (Production.query limit).notes t) :
    ∃ (f : Furthest) (place : Text), parse limit t = .error f.error ∧
      f.Of t ((Production.query limit).notes t) place ∧
      f.error.span.start + place.byteSize = t.byteSize ∧
      ∃ e, .expected e place ∈ (Production.query limit).notes t := by
  have hsuffix : ∀ n ∈ (Production.query limit).notes t, n.ahead <:+ t := fun n hn =>
    (ahead_of_mem_notes _ n hn).1.trans (Text.dropBlanks_suffix t)
  obtain ⟨place, hplace⟩ := Furthest.exists_of_notes hsuffix
  obtain ⟨e', he'⟩ := hplace.exists_expected hsuffix hnote
  refine ⟨_, place, ?_, hplace, hplace.start_error (ahead_of_mem_notes _ _ he').2, e', he'⟩
  rw [parse_eq, h, ← Note.report_of_not_tooDeep fun l v => Tidy.not_tooDeep_of_missed h]

/-- Nothing fails beyond the place of the error. -/
theorem start_le_of_failure {n : Note} (hstart : ∀ u, ¬KeywordAt .start t u)
    (hcase : t.CaseLast) (h : parse limit t = .error error)
    (hn : n ∈ (Production.query limit).notes t) (hfailure : n.isFailure = true) :
    t.byteSize ≤ error.span.start + n.ahead.byteSize := by
  cases ho : (Production.query limit).outcome t with
  | matched q u =>
    rw [parse_eq, ho] at h
    cases h
  | missed u =>
    obtain ⟨f, place, herror, hof, hsize, -⟩ :=
      parse_of_missed ho ((mem_notes_query hstart).2 (Or.inl rfl))
    rw [herror] at h
    cases h
    cases n with
    | expected e ahead =>
      have hle := hof.furthest e ahead hn
      exact hsize ▸ Nat.add_le_add_left hle _
    | tooDeep l ahead => exact absurd hn (Tidy.not_tooDeep_of_missed ho)
    | looked ahead => cases hfailure
  | gaveUp =>
    obtain ⟨_, _, hdeep⟩ := outcome_eq_gaveUp_iff.1 ho
    obtain ⟨l, v, hv, hreport⟩ := Note.report_of_tooDeep t hdeep
    rw [parse_eq, ho] at h
    simp only [hreport, Except.error.injEq] at h
    subst h
    have hle := noneBeyond_query hstart hcase hv n hn hfailure
    change t.byteSize ≤ t.byteSize - v.byteSize + n.ahead.byteSize
    omega

/-- What gets beyond a place is read, or it is refused further on. -/
theorem lt_start_of_beyond {place : Text} (hstart : ∀ u, ¬KeywordAt .start t u)
    (hcase : t.CaseLast) (hbeyond : (body limit).Beyond t place)
    (h : parse limit t = .error error) : t.byteSize < error.span.start + place.byteSize := by
  obtain ⟨n, hn, hfailure, hlt⟩ := exists_failure_of_beyond hstart hbeyond fun q u hu => by
    rw [parse_eq, hu] at h
    cases h
  exact Nat.lt_of_le_of_lt (start_le_of_failure hstart hcase h hn hfailure)
    (Nat.add_lt_add_left hlt _)

/-- After the word `START` alone a clause is expected at the end of the text. -/
theorem start_of_start (limit : Nat) (h : KeywordAt .start t []) :
    ∃ error, parse limit t = .error error ∧ error.span.start = t.byteSize := by
  obtain ⟨word, hword⟩ := matched_keyword_iff.2 h
  have hstart : (Production.optional startClause).outcome t = .matched none t :=
    outcome_optional_eq_matched.2 (Or.inr ⟨rfl, rfl, [], outcome_bind_eq_missed.2
      (Or.inr ⟨word, [], hword, rfl⟩)⟩)
  have hclauses : (many (matchClause limit)).outcome t = .matched [] t :=
    (outcome_many_eq_matched (advances_matchClause limit)).2
      (.stop (misses_matchClause_of_keywordAt h (by simp) (by simp)))
  have hbody : (body limit).outcome t = .missed t := by
    obtain ⟨u, hu⟩ : (keyword .return_).Misses t := misses_keyword_iff.2 fun u hu => by
      cases (hu.unique h).1
    obtain rfl := stays_keyword _ hu
    exact outcome_bind_eq_missed.2 (Or.inr ⟨[], u, hclauses, outcome_bind_eq_missed.2 (Or.inl hu)⟩)
  have houtcome : (Production.query limit).outcome t = .missed t := by
    rw [outcome_query_eq, hstart, Outcome.andThen, hbody]
    rfl
  have hnote : .expected .clause [] ∈ (Production.query limit).notes t := by
    rw [notes_query_eq]
    refine List.mem_append_left _ (mem_notes_bind.2 (Or.inr ⟨word, [], hword, ?_⟩))
    exact mem_notes_startBody.2 ⟨rfl, [], rfl⟩
  obtain ⟨f, place, herror, hof, hsize, -⟩ := parse_of_missed houtcome hnote
  have hplace := hof.furthest _ _ hnote
  rw [Text.byteSize_nil] at hplace
  exact ⟨f.error, herror, by omega⟩

end Query

/-! ## Going on differently -/

/-- What a text may go on with: a word is the last thing in it. -/
structure Text.Enters (new : Text) : Prop where
  dropBlanks : new.dropBlanks = new
  word : ∀ name u, new.token? = some (.identifier name, u) → u = []
  caseLast : new.CaseLast

namespace Fork

variable {old new t x : Text}

theorem dropBlanks_eq (h : Fork old new t x) (ht : t.dropBlanks = old) : x.dropBlanks = new := by
  cases h with
  | here _ hx _ => exact hx
  | token htok _ _ _ hrest =>
    have hlt := lt_of_token? htok hrest
    rw [ht] at hlt
    exact absurd hlt (Nat.lt_irrefl _)

theorem caseLast (h : Fork old new t x) (hnew : new.CaseLast) : x.CaseLast := by
  induction h with
  | @here t x _ hx _ =>
    intro u hu rest hrest
    cases hu with
    | refl =>
      refine hnew new (.refl new) rest ?_
      rwa [← hx, Production.KeywordAt, Text.token?_dropBlanks]
    | token htok hu =>
      rw [← Text.token?_dropBlanks, hx] at htok
      exact hnew u (.token htok hu) rest hrest
  | @token t x u y kind _ hx hcase _ _ ih =>
    intro v hv rest hrest
    cases hv with
    | refl =>
      obtain ⟨word, hword, hkeyword⟩ := hrest
      rw [hx] at hword
      cases hword
      have hno : word.eqIgnoringCase Keyword.case_.written = false := hcase
      rw [hkeyword] at hno
      cases hno
    | token htok hv =>
      rw [hx] at htok
      cases htok
      exact ih v hv rest hrest

end Fork

namespace Outcome.Alongside

variable {α : Type} {old new : Text} {o o' : Outcome α} {a : α} {u y : Text}

theorem of_matched_left (h : Alongside old new o o') (ho : o = .matched a u) :
    ∃ y, o' = .matched a y ∧ Fork old new u y := by
  cases h with
  | matched b hfork => cases ho; exact ⟨_, rfl, hfork⟩
  | missed _ => cases ho
  | gaveUp => cases ho

theorem of_matched_right (h : Alongside old new o o') (ho : o' = .matched a y) :
    ∃ u, o = .matched a u ∧ Fork old new u y := by
  cases h with
  | matched b hfork => cases ho; exact ⟨_, rfl, hfork⟩
  | missed _ => cases ho
  | gaveUp => cases ho

theorem of_gaveUp (h : Alongside old new o o') (ho : o' = .gaveUp) : o = .gaveUp := by
  cases h with
  | matched b _ => cases ho
  | missed _ => cases ho
  | gaveUp => rfl

end Outcome.Alongside

/-- The text is refused where `old` is left of it: something was expected there, and nothing
    further on. -/
structure RefusedAt (limit : Nat) (t old : Text) : Prop where
  start : ∀ u, ¬Production.KeywordAt .start t u
  caseFree : t.CaseFree
  missed : ∃ u, (Production.query limit).outcome t = .missed u
  furthest : ∀ e ahead, .expected e ahead ∈ (Production.query limit).notes t →
    old.byteSize ≤ ahead.byteSize
  expected : ∃ e, .expected e old ∈ (Production.query limit).notes t

namespace RefusedAt

open Production

variable {limit : Nat} {t old new x : Text}

theorem not_beyond (h : RefusedAt limit t old) : ¬(body limit).Beyond t old := by
  obtain ⟨u, hu⟩ := h.missed
  exact not_beyond_of_missed h.start hu h.furthest

theorem leads (h : RefusedAt limit t old) : ∃ u, t.Leads u ∧ u.dropBlanks = old := by
  obtain ⟨e, he⟩ := h.expected
  rcases (mem_notes_query h.start).1 he with heq | hn | ⟨parts, u, hu, heq, -⟩
  · cases heq
    exact ⟨t, .refl t, rfl⟩
  · exact (Tokenwise.body limit).leads_of_mem_notes h.caseFree _ hn
  · cases heq
    exact ⟨u, ((Tokenwise.body limit).leads h.caseFree).1 _ hu, rfl⟩

/-- The body of the other text is read alike, or gets beyond the place. -/
theorem forks (h : RefusedAt limit t old) (hfork : Fork old new t x) (hnew : new.Enters) :
    (body limit).Alongside old new t x ∨ (body limit).Beyond x new ∧
      (new.IsSingle → Note.Invites old new ((Production.query limit).notes t)) := by
  have hold : ∀ u, ¬KeywordAt .case_ old u := by
    obtain ⟨v, hv, hvold⟩ := h.leads
    rintro u ⟨word, hword, hcase⟩
    rw [← hvold, Text.token?_dropBlanks] at hword
    exact h.caseFree v hv u ⟨word, hword, hcase⟩
  rcases (Tokenwise.body limit).forks hold hnew.word hfork with halongside | hbeyond | hbeyond
  · exact Or.inl halongside
  · exact absurd hbeyond h.not_beyond
  · refine Or.inr ⟨hbeyond.1, fun hsingle => (hbeyond.2 hsingle).mono fun n hn => ?_⟩
    exact (mem_notes_query h.start).2 (Or.inr (Or.inl hn))

/-- The other text begins with the word `START` only if nothing stands before the place. Then
    that word was expected there. -/
theorem start_or (h : RefusedAt limit t old) (hfork : Fork old new t x) (hnew : new.Enters) :
    (∀ u, ¬KeywordAt .start x u) ∨
      KeywordAt .start x [] ∧ KeywordAt .start new [] ∧
        .expected (.keyword .start) old ∈ (Production.query limit).notes t := by
  by_cases hstart : ∃ u, KeywordAt .start x u
  · obtain ⟨u, word, hword, heq⟩ := hstart
    cases hfork with
    | here ht hx _ =>
      have hnewword : new.token? = some (.identifier word, u) := by
        rw [← hx, Text.token?_dropBlanks, hword]
      obtain rfl := hnew.word word u hnewword
      refine Or.inr ⟨⟨word, hword, heq⟩, ⟨word, hnewword, heq⟩, ?_⟩
      exact (mem_notes_query h.start).2 (Or.inl (by rw [ht]))
    | token ht hx _ _ _ =>
      rw [hword] at hx
      cases hx
      exact absurd ⟨word, ht, heq⟩ (h.start _)
  · exact Or.inl fun u hu => hstart ⟨u, hu⟩

/-- What was expected at the place is read there. -/
theorem lt_start_of_isMet {e : Expectation} {error : SyntaxError} (h : RefusedAt limit t old)
    (hfork : Fork old new t x) (hnew : new.Enters) (hne : new ≠ [])
    (he : .expected e old ∈ (Production.query limit).notes t) (hmet : e.IsMet new)
    (herror : Query.parse limit x = .error error) :
    x.byteSize < error.span.start + new.byteSize := by
  rcases h.start_or hfork hnew with hstart | ⟨hstart, -, -⟩
  · rcases h.forks hfork hnew with halongside | ⟨hbeyond, -⟩
    · -- read alike, the other text does not meet what was expected
      rcases (mem_notes_query h.start).1 he with heq | hn | ⟨parts, u, -, heq, -⟩
      · cases heq
        obtain ⟨kind, u, hu, haccepts⟩ := hmet
        rw [← hfork.dropBlanks_eq rfl, Text.token?_dropBlanks] at hu
        cases kind with
        | identifier word => exact absurd ⟨word, hu, haccepts⟩ (hstart u)
        | _ => cases haccepts
      · exact absurd hmet (halongside.notes.unmet e hn)
      · cases heq
        exact absurd (hnew.dropBlanks.symm.trans hmet) hne
    · exact Query.lt_start_of_beyond hstart (hfork.caseLast hnew.caseLast) hbeyond herror
  · obtain ⟨error', herror', hsize⟩ := Query.start_of_start limit hstart
    rw [herror] at herror'
    cases herror'
    have hpos : new.byteSize ≠ 0 := fun hzero => hne (Text.byteSize_eq_zero_iff.1 hzero)
    omega

/-- Where the end was expected, the text before the place is a query. -/
theorem parse_of_endOfInput (h : RefusedAt limit t old) (hfork : Fork old [] t x)
    (he : .expected .endOfInput old ∈ (Production.query limit).notes t) :
    ∃ q, Query.parse limit x = .ok q := by
  have hnil : Text.Enters [] := ⟨rfl, nofun, fun u hu rest hrest => by
    cases hu with
    | refl => obtain ⟨word, hword, -⟩ := hrest; cases hword
    | token htok _ => cases htok⟩
  have hstart := (h.start_or hfork hnil).resolve_right fun hstart => by
    obtain ⟨word, hword, -⟩ := hstart.2.1
    cases hword
  rcases h.forks hfork hnil with halongside | ⟨hbeyond, -⟩
  · rcases (mem_notes_query h.start).1 he with heq | hn | ⟨parts, u, hu, heq, -⟩
    · cases heq
    · exact absurd rfl ((Tokenwise.body limit).ordinary _ hn).2
    · cases heq
      obtain ⟨y, hy, hrest⟩ := halongside.outcome.of_matched_left hu
      refine ⟨⟨none, parts.1, parts.2⟩, Query.parse_eq_ok_iff.2 ⟨y, ?_⟩⟩
      rw [outcome_query_of_not_start hstart, hy]
      exact if_pos (hrest.dropBlanks_eq rfl)
  · rcases hbeyond with ⟨n, -, -, hlt⟩ | ⟨parts, u, -, hlt⟩ <;> cases hlt

/-- Where nothing expected stands, the other text is refused at the same place. -/
theorem start_of_not_invites (h : RefusedAt limit t old) (hfork : Fork old new t x)
    (hnew : new.Enters) (hne : new ≠ []) (hsingle : new.IsSingle)
    (hno : ¬Note.Invites old new ((Production.query limit).notes t)) :
    ∃ error, Query.parse limit x = .error error ∧ error.span.start + new.byteSize = x.byteSize := by
  have hstart := (h.start_or hfork hnew).resolve_right fun hstart => by
    obtain ⟨-, ⟨word, hword, heq⟩, he⟩ := hstart
    exact hno (Or.inl ⟨_, he, .identifier word, [], hword, heq⟩)
  have halongside := (h.forks hfork hnew).resolve_right fun hbeyond => hno (hbeyond.2 hsingle)
  have hpos : new.byteSize ≠ 0 := fun hzero => hne (Text.byteSize_eq_zero_iff.1 hzero)
  -- it is refused as well, nothing is expected beyond the fork, and something at it
  have hmatched : ∀ {parts y}, (body limit).outcome x = .matched parts y →
      new.byteSize ≤ y.dropBlanks.byteSize := fun hy => by
    obtain ⟨u, -, hrest⟩ := halongside.outcome.of_matched_right hy
    exact hrest.le_byteSize.2
  have hmissed : ∃ u, (Production.query limit).outcome x = .missed u := by
    rw [outcome_query_of_not_start hstart]
    cases ho : (body limit).outcome x with
    | matched parts y =>
      have hy := hmatched ho
      refine ⟨y, if_neg fun hnil => ?_⟩
      rw [hnil] at hy
      exact hpos (Nat.le_zero.1 hy)
    | missed y => exact ⟨y, rfl⟩
    | gaveUp =>
      obtain ⟨v, hv⟩ := h.missed
      rw [outcome_query_of_not_start h.start, halongside.outcome.of_gaveUp ho] at hv
      cases hv
  have hbefore : ∀ e ahead, .expected e ahead ∈ (Production.query limit).notes x →
      new.byteSize ≤ ahead.byteSize := by
    intro e ahead he
    rcases (mem_notes_query hstart).1 he with heq | hn | ⟨parts, y, hy, heq, -⟩
    · cases heq
      exact hfork.le_byteSize.2
    · exact halongside.notes.before _ hn
    · cases heq
      exact hmatched hy
  have hthere : ∃ e, .expected e new ∈ (Production.query limit).notes x := by
    obtain ⟨e, he⟩ := h.expected
    simp only [mem_notes_query hstart]
    rcases (mem_notes_query h.start).1 he with heq | hn | ⟨parts, u, hu, heq, -⟩
    · cases heq
      exact ⟨_, Or.inl (by rw [hfork.dropBlanks_eq rfl])⟩
    · obtain ⟨e', he'⟩ := halongside.notes.expected e hn
      exact ⟨e', Or.inr (Or.inl he')⟩
    · cases heq
      obtain ⟨y, hy, hrest⟩ := halongside.outcome.of_matched_left hu
      have hynew := hrest.dropBlanks_eq rfl
      exact ⟨_, Or.inr (Or.inr ⟨parts, y, hy, by rw [hynew], by rwa [hynew]⟩)⟩
  obtain ⟨u, hu⟩ := hmissed
  obtain ⟨e, he⟩ := hthere
  obtain ⟨f, place, herror, hof, hsize, e', he'⟩ := Query.parse_of_missed hu he
  have hle := hof.furthest e new he
  have hge := hbefore e' place he'
  exact ⟨f.error, herror, by omega⟩

end RefusedAt

end Cypher
