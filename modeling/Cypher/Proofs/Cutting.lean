/-
  Cutting — the tokens before a place do not depend on what stands there.

  A token is as long as it can be, so that what follows may belong to it. A blank belongs to
  no token but quoted text, and that ends with its own back-tick. So if a text is cut after
  some of its tokens, and goes on there with a blank or ends, these tokens stay as they are.

  * `Text.Opens gap`: the text begins with a blank, or is empty;
  * `Text.token?_swap`: a token before the place stays as it is;
  * `fork_of_leads`: the text before and after the cut fork at the place;
  * `Tokenwise.leads_of_mem_notes`: every note is made after some of the tokens.
-/
import Cypher.Proofs.Forking

namespace Cypher

namespace Text

variable {a v old gap : Text} {p : Char → Bool}

/-! ## Gaps -/

/-- The text begins with a blank, or is empty. -/
def Opens (gap : Text) : Prop :=
  NotNext (fun c => !isBlank c) gap

/-- No character of a token comes next. -/
theorem Opens.notNext (h : Opens gap) (hp : ∀ c, isBlank c = true → p c = false) :
    NotNext p gap := by
  intro c cs hcs
  refine hp c ?_
  simpa using h c cs hcs

theorem Opens.isDigit (h : Opens gap) : NotNext Char.isDigit gap := by
  refine h.notNext fun c hc => ?_
  by_contra hdigit
  rw [isBlank_eq_false_of_isAlphanum (isAlphanum_of_isDigit (by simpa using hdigit))] at hc
  cases hc

theorem Opens.isAlphanum (h : Opens gap) : NotNext Char.isAlphanum gap := by
  refine h.notNext fun c hc => ?_
  by_contra halnum
  rw [isBlank_eq_false_of_isAlphanum (by simpa using halnum)] at hc
  cases hc

theorem Opens.ne (h : Opens gap) {d : Char} (hd : isBlank d = false) : NotNext (· = d) gap := by
  refine h.notNext fun c hc => ?_
  rw [decide_eq_false_iff_not]
  rintro rfl
  rw [hd] at hc
  cases hc

theorem Opens.adjacentToken? (h : Opens gap) : gap.adjacentToken? = none := by
  cases hgap : gap.adjacentToken? with
  | none => rfl
  | some found =>
    obtain ⟨kind, u⟩ := found
    obtain ⟨hblanks, htoken⟩ := adjacentToken?_eq_some_iff.1 hgap
    cases gap with
    | nil => cases htoken
    | cons c cs =>
      have hc : isBlank c = true := by simpa using notNext_cons.1 h
      have hlen := congrArg List.length hblanks
      have hle := length_dropBlanks_le cs
      rw [dropBlanks, List.dropWhile_cons, if_pos hc] at hlen
      rw [List.length_cons] at hlen
      exact absurd hle (by rw [dropBlanks]; omega)

/-- What comes next is the same, or the gap. -/
theorem NotNext.swap (h : NotNext p (v ++ old)) (hgap : NotNext p gap) : NotNext p (v ++ gap) := by
  cases v with
  | nil => exact hgap
  | cons c cs => exact notNext_cons.2 (notNext_cons.1 h)

theorem NotNext.head?_any (h : NotNext p v) : v.head?.any p = false := by
  cases v with
  | nil => rfl
  | cons c cs => exact notNext_cons.1 h

theorem head?_any_swap (h : (v ++ old).head?.any p = false) (hgap : NotNext p gap) :
    (v ++ gap).head?.any p = false := by
  cases v with
  | nil => exact hgap.head?_any
  | cons c cs => exact h

/-! ## Numerals -/

theorem takeWhile_swap (htake : (a ++ (v ++ old)).takeWhile p = a)
    (hdrop : (a ++ (v ++ old)).dropWhile p = v ++ old) (hgap : NotNext p gap) :
    (a ++ (v ++ gap)).takeWhile p = a ∧ (a ++ (v ++ gap)).dropWhile p = v ++ gap := by
  have hall : a.all p = true := by
    rw [← htake]
    exact List.all_takeWhile
  have hstop : NotNext p (v ++ gap) := NotNext.swap (hdrop ▸ notNext_dropWhile p _) hgap
  exact ⟨takeWhile_append_of_notNext hall hstop, dropWhile_append_of_notNext hall hstop⟩

theorem splitInteger_swap (hne : a ≠ []) (h : splitInteger (a ++ (v ++ old)) = (a, v ++ old))
    (hgap : Opens gap) : splitInteger (a ++ (v ++ gap)) = (a, v ++ gap) := by
  cases a with
  | nil => exact absurd rfl hne
  | cons c cs =>
    simp only [List.cons_append, splitInteger] at h ⊢
    split
    · rename_i hc
      simp only [hc, if_true, Prod.mk.injEq, List.cons.injEq, true_and] at h
      rw [← h.1]
      rfl
    · rename_i hc
      simp only [hc, if_false, Prod.mk.injEq] at h
      have hswap := takeWhile_swap (a := c :: cs) h.1 h.2 hgap.isDigit
      rw [← List.cons_append, hswap.1, hswap.2]

/-- Digits that come first do not depend on what follows them. -/
theorem head?_any_isDigit_swap (hdigit : (a ++ (v ++ old)).head?.any Char.isDigit = true)
    (htake : (a ++ (v ++ old)).takeWhile Char.isDigit = a) :
    (a ++ (v ++ gap)).head?.any Char.isDigit = true := by
  cases a with
  | cons c cs => exact hdigit
  | nil =>
    cases hv : v ++ old with
    | nil => rw [List.nil_append, hv] at hdigit; cases hdigit
    | cons c cs =>
      have hc : c.isDigit = true := by rwa [List.nil_append, hv] at hdigit
      rw [List.nil_append, hv, List.takeWhile_cons, if_pos hc] at htake
      cases htake

theorem splitFraction_swap (h : splitFraction (a ++ (v ++ old)) = (a, v ++ old))
    (hgap : Opens gap) : splitFraction (a ++ (v ++ gap)) = (a, v ++ gap) := by
  cases a with
  | nil =>
    cases v with
    | nil =>
      cases gap with
      | nil => rfl
      | cons c cs =>
        have hc : c ≠ '.' := by simpa using notNext_cons.1 (hgap.ne (d := '.') rfl)
        simp [splitFraction, hc]
    | cons c cs =>
      simp only [List.nil_append, List.cons_append, splitFraction] at h ⊢
      split at h
      · cases h
      · rename_i hno
        rw [if_neg]
        intro hyes
        rw [Bool.and_eq_true] at hno hyes
        have hfalse : (cs ++ old).head?.any Char.isDigit = false := by
          by_contra hdigit
          exact hno ⟨hyes.1, by simpa using hdigit⟩
        rw [head?_any_swap hfalse hgap.isDigit] at hyes
        cases hyes.2
  | cons c cs =>
    simp only [List.cons_append, splitFraction] at h ⊢
    split at h
    · rename_i hyes
      rw [Bool.and_eq_true] at hyes
      simp only [Prod.mk.injEq, List.cons.injEq, true_and] at h
      have hswap := takeWhile_swap h.1 h.2 hgap.isDigit
      rw [if_pos (by rw [Bool.and_eq_true]; exact ⟨hyes.1, head?_any_isDigit_swap hyes.2 h.1⟩),
        hswap.1, hswap.2]
    · cases h

/-- A sign before digits stays, and so does its absence. -/
theorem splitSign_swap (v : Text) (hgap : Opens gap) :
    (splitSign (v ++ gap)).1 = (splitSign v).1 ∧
      (splitSign (v ++ gap)).2 = (splitSign v).2 ++ gap := by
  cases v with
  | nil =>
    cases gap with
    | nil => exact ⟨rfl, rfl⟩
    | cons c cs =>
      have hplus : c ≠ '+' := by simpa using notNext_cons.1 (hgap.ne (d := '+') rfl)
      have hminus : c ≠ '-' := by simpa using notNext_cons.1 (hgap.ne (d := '-') rfl)
      simp [splitSign, hplus, hminus]
  | cons c cs => rw [splitSign_append_of_ne_nil (by simp)]; exact ⟨rfl, rfl⟩

theorem splitExponent_swap (h : splitExponent (a ++ (v ++ old)) = (a, v ++ old))
    (hgap : Opens gap) : splitExponent (a ++ (v ++ gap)) = (a, v ++ gap) := by
  cases a with
  | nil =>
    cases v with
    | nil =>
      cases gap with
      | nil => rfl
      | cons c cs =>
        have hc : c ≠ 'e' := by simpa using notNext_cons.1 (hgap.ne (d := 'e') rfl)
        have hc' : c ≠ 'E' := by simpa using notNext_cons.1 (hgap.ne (d := 'E') rfl)
        simp [splitExponent, hc, hc']
    | cons c cs =>
      -- no exponent before `old`, and the gap adds no digit that would make one
      simp only [List.nil_append, List.cons_append, splitExponent] at h ⊢
      split at h
      · cases h
      · rename_i hno
        rw [if_neg]
        intro hyes
        rw [Bool.and_eq_true] at hno hyes
        refine hno ⟨hyes.1, ?_⟩
        rw [(splitSign_swap cs hgap).2] at hyes
        cases hds : (splitSign cs).2 with
        | nil =>
          rw [hds, List.nil_append, hgap.isDigit.head?_any] at hyes
          cases hyes.2
        | cons d ds =>
          have hne : cs ≠ [] := by rintro rfl; cases hds
          rw [splitSign_append_of_ne_nil hne, hds]
          rw [hds] at hyes
          exact hyes.2
  | cons c cs =>
    simp only [List.cons_append, splitExponent] at h ⊢
    split at h
    · rename_i hyes
      rw [Bool.and_eq_true] at hyes
      simp only [Prod.mk.injEq, List.cons.injEq, true_and] at h
      -- a mark is an exponent only with a digit, so the sign and the digits lie before the cut
      have hne : cs ≠ [] := by
        rintro rfl
        have htake := (List.append_eq_nil_iff.1 h.1).2
        cases hds : (splitSign ([] ++ (v ++ old))).2 with
        | nil => rw [hds] at hyes; cases hyes.2
        | cons d ds =>
          rw [hds] at htake hyes
          have hd : d.isDigit = true := hyes.2
          rw [List.takeWhile_cons, if_pos hd] at htake
          cases htake
      simp only [splitSign_append_of_ne_nil hne] at h hyes ⊢
      have hdigits : (splitSign cs).2 = ((splitSign cs).2 ++ (v ++ old)).takeWhile Char.isDigit :=
        List.append_cancel_left ((splitSign_append cs).trans h.1.symm)
      have hswap := takeWhile_swap hdigits.symm h.2 hgap.isDigit
      rw [if_pos (by
          rw [Bool.and_eq_true]; exact ⟨hyes.1, head?_any_isDigit_swap hyes.2 hdigits.symm⟩),
        hswap.1, hswap.2, splitSign_append]
    · cases h

theorem splitNumeral_swap {text : Text} (hne : (splitInteger (text ++ (v ++ old))).1 ≠ [])
    (h : splitNumeral (text ++ (v ++ old)) = (text, v ++ old)) (hgap : Opens gap) :
    splitNumeral (text ++ (v ++ gap)) = (text, v ++ gap) := by
  rcases hinteger : splitInteger (text ++ (v ++ old)) with ⟨i, t⟩
  rcases hfraction : splitFraction t with ⟨f, t'⟩
  rcases hexponent : splitExponent t' with ⟨e, t''⟩
  have hf := splitFraction_append t
  have he := splitExponent_append t'
  simp only [splitNumeral, hinteger, hfraction, hexponent, Prod.mk.injEq] at h hne hf he
  obtain ⟨rfl, rfl⟩ := h
  subst he hf
  simp only [List.append_assoc] at hinteger ⊢
  have hinteger' : splitInteger (i ++ ((f ++ (e ++ v)) ++ gap)) = (i, (f ++ (e ++ v)) ++ gap) :=
    splitInteger_swap hne (by simpa only [List.append_assoc] using hinteger) hgap
  have hfraction' : splitFraction (f ++ ((e ++ v) ++ gap)) = (f, (e ++ v) ++ gap) :=
    splitFraction_swap (by simpa only [List.append_assoc] using hfraction) hgap
  have hexponent' : splitExponent (e ++ (v ++ gap)) = (e, v ++ gap) :=
    splitExponent_swap hexponent hgap
  simp only [List.append_assoc] at hinteger' hfraction'
  simp only [splitNumeral, hinteger', hfraction', hexponent', List.append_assoc]

/-! ## Tokens -/

/-- A symbol is not the beginning of a longer one. -/
theorem notNext_of_symbol {s : Symbol} {rest : Text}
    (h : (s.written ++ rest).token? = some (.symbol s, rest)) :
    (s = .equal → NotNext (· = '~') rest) ∧ (s = .less → NotNext (· = '>') rest) := by
  constructor
  · rintro rfl
    cases rest with
    | nil => exact notNext_nil _
    | cons c cs =>
      refine notNext_cons.2 (decide_eq_false ?_)
      rintro rfl
      cases h
  · rintro rfl
    cases rest with
    | nil => exact notNext_nil _
    | cons c cs =>
      refine notNext_cons.2 (decide_eq_false ?_)
      rintro rfl
      cases h

/-- A numeral is cut off where it is read. -/
theorem splitNumeral_of_token? {text rest : Text}
    (h : (text ++ rest).token? = some (.number text, rest)) :
    splitNumeral (text ++ rest) = (text, rest) ∧ (splitInteger (text ++ rest)).1 ≠ [] := by
  obtain ⟨c, cs, rfl, hc⟩ := exists_digit_of_isNumeral (wellFormed_of_token? h)
  rw [token?_eq_some_iff, List.cons_append, dropBlanks_cons_of_not _
    (isBlank_eq_false_of_isAlphanum (isAlphanum_of_isDigit hc))] at h
  simp only [Lexeme.scan?, isAlpha_eq_false_of_isDigit hc, hc, Bool.false_eq_true, if_false,
    if_true, Option.some.injEq, Prod.mk.injEq, Lexeme.token.injEq, TokenKind.number.injEq] at h
  refine ⟨Prod.ext h.1 h.2, fun hnil => ?_⟩
  have hinteger := isInteger_splitInteger (cs ++ rest) hc
  rw [List.cons_append] at hnil
  rw [hnil] at hinteger
  cases hinteger

/-- A token before the place stays as it is. -/
theorem token?_swap_written {kind : TokenKind}
    (h : (kind.written ++ (v ++ old)).token? = some (kind, v ++ old)) (hgap : Opens gap) :
    (kind.written ++ (v ++ gap)).token? = some (kind, v ++ gap) := by
  have hshape := wellFormed_of_token? h
  cases kind with
  | symbol s =>
    have hstop := notNext_of_symbol h
    exact token?_symbol (fun hs => (hstop.1 hs).swap (hgap.ne rfl))
      (fun hs => (hstop.2 hs).swap (hgap.ne rfl))
  | identifier name =>
    exact token?_identifier hshape ((notNext_of_identifier h).swap hgap.isAlphanum)
  | quoted text => exact token?_quoted hshape
  | number text =>
    obtain ⟨hsplit, hne⟩ := splitNumeral_of_token? h
    have hsplit' := splitNumeral_swap hne hsplit hgap
    obtain ⟨c, cs, rfl, hc⟩ := exists_digit_of_isNumeral hshape
    simp only [TokenKind.written, List.cons_append] at hsplit' ⊢
    rw [token?_eq_some_iff, dropBlanks_cons_of_not _
      (isBlank_eq_false_of_isAlphanum (isAlphanum_of_isDigit hc))]
    simp [Lexeme.scan?, isAlpha_eq_false_of_isDigit hc, hc, hsplit']

/-- A token before the place stays as it is, and so do the blanks in front of it. -/
theorem token?_swap {t u : Text} {kind : TokenKind} (h : (t ++ old).token? = some (kind, u))
    (hold : old <:+ u) (hgap : Opens gap) :
    ∃ v, u = v ++ old ∧ (t ++ gap).token? = some (kind, v ++ gap) ∧
      ((t ++ old).dropBlanks = t ++ old ↔ (t ++ gap).dropBlanks = t ++ gap) := by
  obtain ⟨v, rfl⟩ := hold
  have hrest := dropBlanks_of_token? h
  obtain ⟨blanks, hall, ht⟩ : ∃ blanks, blanks.all isBlank = true ∧
      t = blanks ++ (kind.written ++ v) := by
    refine ⟨(t ++ old).takeWhile isBlank, List.all_takeWhile, ?_⟩
    have hsplit := takeWhile_append_dropBlanks (t ++ old)
    rw [hrest, ← List.append_assoc, ← List.append_assoc] at hsplit
    rw [← List.append_assoc]
    exact (List.append_cancel_right hsplit).symm
  have hwritten : (kind.written ++ (v ++ gap)).token? = some (kind, v ++ gap) := by
    rw [← token?_dropBlanks, hrest] at h
    exact token?_swap_written h hgap
  have hstop : ∀ rest, NotNext isBlank (kind.written ++ rest) := by
    intro rest
    have hnot : NotNext isBlank (kind.written ++ (v ++ old)) := hrest ▸ notNext_dropWhile _ _
    cases hkind : kind.written with
    | nil => exact absurd hkind (written_ne_nil_of_token? h)
    | cons c cs => rw [hkind] at hnot; exact notNext_cons.2 (notNext_cons.1 hnot)
  have hgapped : (t ++ gap).dropBlanks = kind.written ++ (v ++ gap) := by
    rw [ht, List.append_assoc, List.append_assoc]
    exact dropWhile_append_of_notNext hall (hstop _)
  refine ⟨v, rfl, by rw [← token?_dropBlanks, hgapped, hwritten], ?_⟩
  rw [hrest, hgapped, ht]
  simp only [List.append_assoc, List.self_eq_append_left]

end Text

/-! ## Forks by cutting -/

theorem Text.Leads.suffix {t u : Text} (h : t.Leads u) : u <:+ t := by
  induction h with
  | refl t => exact List.suffix_rfl
  | token htoken _ ih => exact ih.trans (suffix_of_token? htoken)

/-- A text that is cut after some of its tokens, and goes on there in another way. -/
theorem fork_of_leads {t u old gap : Text} (h : (t ++ old).Leads u) (hu : u.dropBlanks = old)
    (hcase : (t ++ old).CaseFree) (hgap : gap.Opens) :
    Fork old gap.dropBlanks (t ++ old) (t ++ gap) := by
  generalize hsource : t ++ old = source at h hcase
  induction h generalizing t with
  | refl source =>
    -- only blanks are left before the place
    subst hsource
    have hblanks : (t ++ old).takeWhile Text.isBlank = t := by
      have hsplit := Text.takeWhile_append_dropBlanks (t ++ old)
      rw [hu] at hsplit
      exact List.append_cancel_right hsplit
    have hall : t.all Text.isBlank = true := by rw [← hblanks]; exact List.all_takeWhile
    have hopens : Text.Opens (t ++ gap) := by
      cases t with
      | nil => exact hgap
      | cons c cs =>
        rw [List.all_cons, Bool.and_eq_true] at hall
        exact Text.notNext_cons.2 (by simp [hall.1])
    refine .here hu ?_ hopens.adjacentToken?
    rw [Text.dropBlanks, Text.dropBlanks]
    exact List.dropWhile_append_of_pos fun c hc => List.all_eq_true.1 hall c hc
  | @token source v w kind htoken hrest ih =>
    subst hsource
    have hold : old <:+ v := hu ▸ (Text.dropBlanks_suffix w).trans hrest.suffix
    obtain ⟨v, rfl, htoken', hblanks⟩ := Text.token?_swap htoken hold hgap
    refine .token htoken htoken' ?_ hblanks
      (ih hu rfl (hcase.of_leads (Text.leads_of_token? htoken)))
    by_contra hword
    rw [Bool.not_eq_false] at hword
    cases kind with
    | identifier word => exact hcase _ (.refl _) _ ⟨word, htoken, hword⟩
    | _ => cases hword

/-! ## Where notes are made -/

/-- Every note is made after some of the tokens. -/
theorem Production.Tokenwise.leads_of_mem_notes {α : Type} {limit : Nat} {looks : Bool}
    {p : Production α} {t : Text} (hp : Tokenwise limit looks p) (ht : t.CaseFree) :
    ∀ n ∈ p.notes t, ∃ u, t.Leads u ∧ u.dropBlanks = n.ahead := by
  induction hp generalizing t with
  | succeed a => intro n hn; cases hn
  | andThen hp _ ihp ihf =>
    intro n hn
    rcases mem_notes_bind.1 hn with hn | ⟨a, u, hu, hn⟩
    · exact ihp ht n hn
    · have htu := (hp.leads ht).1 a hu
      obtain ⟨v, hv, hahead⟩ := ihf a (ht.of_leads htu) n hn
      exact ⟨v, htu.trans hv, hahead⟩
  | orTry hp _ ihp ihq =>
    intro n hn
    rcases mem_notes_orElse.1 hn with hn | ⟨u, hu, hn⟩
    · exact ihp ht n hn
    · have htu := (hp.leads ht).2 hu
      obtain ⟨v, hv, hahead⟩ := ihq (ht.of_leads htu) n hn
      exact ⟨v, htu.trans hv, hahead⟩
  | attempt _ ih => exact ih ht
  | maybe _ ih => exact ih ht
  | lookahead _ hp ih =>
    intro n hn
    rcases mem_notes_lookahead.1 hn with hn | ⟨a, u, hu, rfl⟩
    · exact ih ht n hn
    · exact ⟨u, (hp.leads ht).1 a hu, rfl⟩
  | many hadvances hp ih =>
    refine fun n hn => forall_mem_notes_many
      (fun t n => t.CaseFree → ∃ u, t.Leads u ∧ u.dropBlanks = n.ahead)
      (fun t n hn ht => ih ht n hn) (fun {t u a note} hu hn ht => ?_) t n hn ht
    have htu := (hp.leads ht).1 a hu
    obtain ⟨v, hv, hahead⟩ := hn (ht.of_leads htu)
    exact ⟨v, htu.trans hv, hahead⟩
  | token _ _ =>
    intro n hn
    exact ⟨t, .refl t, ((isLeaf_token _ _).ahead n hn).symm⟩
  | leftMark => exact fun n hn => ⟨t, .refl t, (isLeaf_mark.ahead n hn).symm⟩
  | rightMark => exact fun n hn => ⟨t, .refl t, (isLeaf_mark.ahead n hn).symm⟩
  | number => exact fun n hn => ⟨t, .refl t, (isLeaf_number.ahead n hn).symm⟩
  | caseExpression =>
    intro n hn
    rw [(caseExpression_of_not_keywordAt (ht t (.refl t))).2] at hn
    rw [List.mem_singleton.1 hn]
    exact ⟨t, .refl t, rfl⟩
  | tooDeep =>
    intro n hn
    rw [List.mem_singleton.1 hn]
    exact ⟨t, .refl t, rfl⟩

end Cypher
