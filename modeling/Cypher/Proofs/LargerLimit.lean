/-
  Larger limits — a limit that was not reached leaves no trace.

  The limit on nesting is consulted in the middle of alternatives that may be given up later.
  Still it matters only where it is exceeded: then the whole query is given up. Where this does
  not happen, every production makes the same choices and the same notes under a larger limit.

  * `Production.ExtendedBy p p'`: wherever `p` does not give up, `p'` does the same;
  * `Composed.extendedBy`, `extendedBy_query`: the productions of the grammar are extended by
    themselves under a larger limit;
  * `Query.parse_of_limit_le`: the result stays as it is, be it a query or an error.
-/
import Cypher.Proofs.Composition

namespace Cypher

namespace Production

variable {α β : Type}

/-- Wherever `p` does not give up, `p'` does the same and makes the same notes. -/
def ExtendedBy (p p' : Production α) : Prop :=
  ∀ t, p.outcome t ≠ .gaveUp → p'.outcome t = p.outcome t ∧ p'.notes t = p.notes t

namespace ExtendedBy

/-! ## Combinations -/

theorem refl (p : Production α) : p.ExtendedBy p :=
  fun _ _ => ⟨rfl, rfl⟩

/-- What always gives up is extended by anything. -/
theorem tooDeep (limit : Nat) (p : Production α) : (Production.tooDeep limit).ExtendedBy p :=
  fun _ h => absurd rfl h

theorem bind {p p' : Production α} {f f' : α → Production β} (hp : p.ExtendedBy p')
    (hf : ∀ a, (f a).ExtendedBy (f' a)) : (p >>= f).ExtendedBy (p' >>= f') := by
  intro t ht
  rw [notes_bind, notes_bind]
  simp only [Bind.bind, outcome] at ht ⊢
  cases ho : p.outcome t with
  | gaveUp =>
    rw [ho] at ht
    exact absurd rfl ht
  | missed u =>
    obtain ⟨houtcome, hnotes⟩ := hp t (by simp [ho])
    rw [houtcome, hnotes, ho]
    exact ⟨rfl, rfl⟩
  | matched a u =>
    rw [ho] at ht
    obtain ⟨houtcome, hnotes⟩ := hp t (by simp [ho])
    obtain ⟨hnext, hmore⟩ := hf a u ht
    rw [houtcome, hnotes, ho]
    exact ⟨hnext, congrArg (p.notes t ++ ·) hmore⟩

theorem orElse {p p' q q' : Production α} (hp : p.ExtendedBy p') (hq : q.ExtendedBy q') :
    (p <|> q).ExtendedBy (p' <|> q') := by
  intro t ht
  rw [notes_orElse, notes_orElse]
  simp only [outcome_orElse] at ht ⊢
  cases ho : p.outcome t with
  | gaveUp =>
    rw [ho] at ht
    exact absurd rfl ht
  | matched a u =>
    obtain ⟨houtcome, hnotes⟩ := hp t (by simp [ho])
    rw [houtcome, hnotes, ho]
    exact ⟨rfl, rfl⟩
  | missed u =>
    rw [ho] at ht
    obtain ⟨houtcome, hnotes⟩ := hp t (by simp [ho])
    obtain ⟨hnext, hmore⟩ := hq u ht
    rw [houtcome, hnotes, ho]
    exact ⟨hnext, congrArg (p.notes t ++ ·) hmore⟩

theorem attempt {p p' : Production α} (hp : p.ExtendedBy p') :
    (Production.attempt p).ExtendedBy (Production.attempt p') := by
  intro t ht
  simp only [outcome] at ht ⊢
  obtain ⟨houtcome, hnotes⟩ := hp t fun ho => ht (by rw [ho]; rfl)
  exact ⟨by rw [houtcome], hnotes⟩

theorem maybe {p p' : Production α} (hp : p.ExtendedBy p') :
    (Production.maybe p).ExtendedBy (Production.maybe p') := by
  intro t ht
  simp only [outcome] at ht ⊢
  obtain ⟨houtcome, hnotes⟩ := hp t fun ho => ht (by rw [ho]; rfl)
  exact ⟨by rw [houtcome], hnotes⟩

theorem lookahead {p p' : Production α} (hp : p.ExtendedBy p') :
    (Production.lookahead p).ExtendedBy (Production.lookahead p') := by
  intro t ht
  simp only [outcome, notes] at ht ⊢
  obtain ⟨houtcome, hnotes⟩ := hp t fun ho => ht (by rw [ho]; rfl)
  exact ⟨by rw [houtcome], by rw [houtcome, hnotes]⟩

theorem many {p p' : Production α} (hp : p.ExtendedBy p') (hadvances : p.Advances) :
    (Production.many p).ExtendedBy (Production.many p') := by
  intro t ht
  simp only [outcome, notes] at ht ⊢
  induction hlength : t.length using Nat.strongRecOn generalizing t with
  | ind n ih =>
    cases ho : p.outcome t with
    | gaveUp => exact absurd (Outcome.repeated_of_gaveUp ho) ht
    | missed u =>
      obtain ⟨houtcome, hnotes⟩ := hp t (by simp [ho])
      rw [ho] at houtcome
      rw [Outcome.repeated_of_missed ho, Outcome.repeated_of_missed houtcome,
        Outcome.repeatedNotes_of_ne_matched (by simp [houtcome]),
        Outcome.repeatedNotes_of_ne_matched (by simp [ho])]
      exact ⟨rfl, hnotes⟩
    | matched a u =>
      have hlt := hadvances ho
      obtain ⟨houtcome, hnotes⟩ := hp t (by simp [ho])
      rw [ho] at houtcome
      rw [Outcome.repeated_of_matched ho hlt] at ht ⊢
      rw [Outcome.repeated_of_matched houtcome hlt, Outcome.repeatedNotes_of_matched ho hlt,
        Outcome.repeatedNotes_of_matched houtcome hlt]
      -- the rounds that follow do not give up either
      obtain ⟨hmore, hmoreNotes⟩ := ih u.length (hlength ▸ hlt) u
        (fun hgave => ht (by rw [hgave]; rfl)) rfl
      exact ⟨by rw [hmore], by rw [hnotes, hmoreNotes]⟩

end ExtendedBy

/-- What is composed alike does the same, where it does not give up. -/
theorem Composed.extendedBy {scope : Scope} {n : Nat} {γ : Type} {fold : α → γ}
    {p p' : Production α} (h : Composed scope n fold p p') (hfolds : scope.folds = false) :
    p.ExtendedBy p' := by
  induction h with
  | succeed h => rw [h.eq hfolds]; exact .refl _
  | andThen _ _ ihp ihf => exact ihp.bind fun a => ihf a a (.refl a)
  | orTry _ _ ihp ihq => exact ihp.orElse ihq
  | attempt _ ih => exact ih.attempt
  | maybe _ ih => exact ih.maybe
  | lookahead _ _ ih => exact ih.lookahead
  | many hmoves _ ih => exact ih.many hmoves.advances
  | parenthesis _ ih => exact (ExtendedBy.refl _).bind fun _ => ih
  | tooDeep _ => exact (ExtendedBy.refl _).bind fun _ => .tooDeep _ _
  | mono _ _ ih => exact ih
  | _ => exact .refl _

theorem extendedBy_query {limit limit' : Nat} (hle : limit ≤ limit') :
    (query limit).ExtendedBy (query limit') := by
  obtain ⟨more, rfl⟩ := Nat.exists_eq_add_of_le hle
  exact (Composed.query limit more false).extendedBy rfl

end Production

/-! ## Results -/

namespace Query

/-- A result that is not about nesting is the same under every larger limit. -/
theorem parse_of_limit_le {limit limit' : Nat} {source : Text} (hle : limit ≤ limit')
    (h : ∀ error, parse limit source = .error error → ∀ l, error.cause ≠ .nestingTooDeep l) :
    parse limit' source = parse limit source := by
  have hgoes : (Production.query limit).outcome source ≠ .gaveUp := by
    intro hgave
    obtain ⟨_, _, hdeep⟩ := Production.outcome_eq_gaveUp_iff.1 hgave
    obtain ⟨l, ahead, -, hreport⟩ := Note.report_of_tooDeep source hdeep
    refine h _ ?_ l (congrArg SyntaxError.cause hreport)
    rw [parse_eq, hgave]
  obtain ⟨houtcome, hnotes⟩ := Production.extendedBy_query hle source hgoes
  rw [parse_eq, parse_eq, houtcome, hnotes]

/-- A call in a group, with verbatim parts around it, does not reach the limit two: the error
    behind the group is the same under the default limit. -/
theorem parse_of_limit_le_refused :
    let source := "START n MATCH (a) RETURN (f(CASE ` END)) )".toList
    ∃ error, parse 2 source = .error error ∧ error.span = ⟨41, 42⟩ ∧
      parse defaultLimit source = .error error := by
  intro source
  let error : SyntaxError := ⟨.unexpected (["operator", "`AS`", "`,`",
    "end of input"].map String.toList) (.token [')']), ⟨41, 42⟩⟩
  have herror : parse 2 source = .error error := by decide +kernel
  have hsame : parse defaultLimit source = parse 2 source := by
    refine parse_of_limit_le (by decide) fun e he => ?_
    rw [herror] at he
    cases he
    exact nofun
  exact ⟨error, herror, rfl, hsame.trans herror⟩

end Query

end Cypher
