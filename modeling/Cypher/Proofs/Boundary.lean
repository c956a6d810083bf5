/-
  Clause boundaries — what a cut at the next clause says of the text before it.

  * `splitAtStartFrom?_eq_some_iff`, `splitAtStartFrom?_eq_none_iff`: a text is cut at
    the first place where a word may begin and something starts;
  * `splitAtClause?_trim`, `not_endsWithWord_trim`: the trimmed text before the first
    clause holds no clause, and does not end with `OPTIONAL` if a `MATCH` follows;
  * `splitAtClause?_body`: such a body between spaces is cut off again.
-/
import Cypher.Grammar.Boundary
import Cypher.Proofs.WholeWord
import Cypher.Query.Render
import Mathlib.Data.List.TakeWhile

namespace Cypher

namespace Text

/-! ## The first place where something starts -/

/-- An alphanumeric character stands at the end of `s`, or directly before it if
    it is empty and `inWord` holds. -/
def inWordAfter (inWord : Bool) (s : Text) : Bool :=
  s.foldl (fun _ c => isAlphanumeric c) inWord

@[simp] theorem inWordAfter_nil (b : Bool) : inWordAfter b [] = b := rfl

@[simp] theorem inWordAfter_cons (b : Bool) (c : Char) (cs : Text) :
    inWordAfter b (c :: cs) = inWordAfter (isAlphanumeric c) cs := rfl

@[simp] theorem inWordAfter_append (b : Bool) (s t : Text) :
    inWordAfter b (s ++ t) = inWordAfter (inWordAfter b s) t :=
  List.foldl_append ..

theorem inWordAfter_of_ne_nil {s : Text} (hs : s ≠ []) (b b' : Bool) :
    inWordAfter b s = inWordAfter b' s := by
  cases s with
  | nil => exact absurd rfl hs
  | cons c cs => rfl

/-- Where all characters are alphanumeric, or none is, the last one is so too. -/
theorem inWordAfter_of_all {s : Text} {v : Bool} (hs : ∀ c ∈ s, isAlphanumeric c = v)
    (hne : s ≠ []) (b : Bool) : inWordAfter b s = v := by
  induction s generalizing b with
  | nil => exact absurd rfl hne
  | cons c cs ih =>
    cases cs with
    | nil => exact hs c (by simp)
    | cons d ds =>
      exact ih (fun x hx => hs x (List.mem_cons_of_mem _ hx)) (by simp) (isAlphanumeric c)

theorem inWordAfter_of_blank {s : Text} (hs : s.all isBlank = true) (hne : s ≠ []) (b : Bool) :
    inWordAfter b s = false :=
  inWordAfter_of_all
    (fun c hc => isAlphanumeric_eq_false_of_isBlank (List.all_eq_true.1 hs c hc)) hne b

variable {starts : Text → Bool} {b : Bool}

theorem splitAtStartFrom?_eq_none_iff {t : Text} :
    splitAtStartFrom? starts b t = none ↔
      ∀ p r, t = p ++ r → r ≠ [] → inWordAfter b p = false → starts r = false := by
  induction t generalizing b with
  | nil =>
    simp only [splitAtStartFrom?, true_iff]
    rintro p r h hr
    exact absurd (List.append_eq_nil_iff.1 h.symm).2 hr
  | cons c cs ih =>
    rw [splitAtStartFrom?]
    constructor
    · intro h p r heq hr hp
      split at h
      · cases h
      · rename_i hc
        rw [Option.map_eq_none_iff, ih] at h
        cases p with
        | nil =>
          rw [List.nil_append] at heq
          rw [← heq]
          rw [inWordAfter_nil] at hp
          simpa [hp] using hc
        | cons d ds =>
          rw [List.cons_append, List.cons.injEq] at heq
          exact h ds r heq.2 hr (by rw [heq.1]; exact hp)
    · intro h
      have hc : (!b && starts (c :: cs)) = false := by
        cases hb : b with
        | true => rfl
        | false => simpa using h [] (c :: cs) rfl (by simp) hb
      rw [hc, if_neg (by simp), Option.map_eq_none_iff, ih]
      exact fun p r heq hr hp => h (c :: p) r (by rw [heq]; rfl) hr hp

theorem splitAtStartFrom?_eq_some_iff {t before rest : Text} :
    splitAtStartFrom? starts b t = some (before, rest) ↔
      t = before ++ rest ∧ rest ≠ [] ∧ starts rest = true ∧ inWordAfter b before = false ∧
        ∀ p r, before = p ++ r → r ≠ [] → inWordAfter b p = false → starts (r ++ rest) = false := by
  induction t generalizing b before with
  | nil =>
    simp only [splitAtStartFrom?, reduceCtorEq, false_iff]
    rintro ⟨h, hr, -⟩
    exact hr (List.append_eq_nil_iff.1 h.symm).2
  | cons c cs ih =>
    rw [splitAtStartFrom?]
    constructor
    · intro h
      split at h
      · rename_i hc
        cases h
        simp only [Bool.and_eq_true, Bool.not_eq_true'] at hc
        refine ⟨rfl, by simp, hc.2, hc.1, fun p r heq hr => ?_⟩
        exact absurd (List.append_eq_nil_iff.1 heq.symm).2 hr
      · rename_i hc
        simp only [Option.map_eq_some_iff, Prod.mk.injEq, Prod.exists] at h
        obtain ⟨before', rest', h, rfl, rfl⟩ := h
        obtain ⟨rfl, hne, hstarts, hflag, hfirst⟩ := ih.1 h
        refine ⟨rfl, hne, hstarts, hflag, fun p r heq hr hp => ?_⟩
        cases p with
        | nil =>
          rw [List.nil_append] at heq
          rw [← heq, List.cons_append]
          rw [inWordAfter_nil] at hp
          simpa [hp] using hc
        | cons d ds =>
          rw [List.cons_append, List.cons.injEq] at heq
          exact hfirst ds r heq.2 hr (by rw [heq.1]; exact hp)
    · rintro ⟨heq, hne, hstarts, hflag, hfirst⟩
      cases before with
      | nil =>
        rw [List.nil_append] at heq
        rw [inWordAfter_nil] at hflag
        simp [heq, hstarts, hflag]
      | cons d ds =>
        rw [List.cons_append, List.cons.injEq] at heq
        obtain ⟨rfl, rfl⟩ := heq
        have hc : (!b && starts (c :: (ds ++ rest))) = false := by
          cases hb : b with
          | true => rfl
          | false => simpa using hfirst [] (c :: ds) rfl (by simp) hb
        rw [hc, if_neg (by simp), ih.2 ⟨rfl, hne, hstarts, hflag, fun p r heq hr hp =>
          hfirst (c :: p) r (by rw [heq]; rfl) hr hp⟩]
        rfl

/-! ## Trimming -/

theorem dropBlanks_blank_append {s : Text} (t : Text) (hs : s.all isBlank = true) :
    dropBlanks (s ++ t) = dropBlanks t := by
  induction s with
  | nil => rfl
  | cons c cs ih =>
    simp only [List.all_cons, Bool.and_eq_true] at hs
    simpa [dropBlanks, hs.1] using ih hs.2

theorem dropBlanks_append_of_ne_nil {s : Text} (t : Text) (hs : dropBlanks s ≠ []) :
    dropBlanks (s ++ t) = dropBlanks s ++ t := by
  induction s with
  | nil => exact absurd rfl hs
  | cons c cs ih =>
    by_cases hc : isBlank c = true
    · simp only [dropBlanks, List.cons_append, List.dropWhile_cons, hc, if_true] at hs ih ⊢
      exact ih hs
    · rw [List.cons_append, dropBlanks_cons_of_not _ (by simpa using hc),
        dropBlanks_cons_of_not _ (by simpa using hc), List.cons_append]

theorem dropBlanks_of_notNext {t : Text} (h : NotNext isBlank t) : dropBlanks t = t := by
  cases t with
  | nil => rfl
  | cons c cs => exact dropBlanks_cons_of_not cs (notNext_cons.1 h)

/-- What is left of a text between the blanks at its ends. -/
theorem exists_blanks_trim (t : Text) : ∃ lead trail : Text,
    t = lead ++ (trim t ++ trail) ∧ lead.all isBlank = true ∧ trail.all isBlank = true := by
  refine ⟨t.takeWhile isBlank, ((dropBlanks t).reverse.takeWhile isBlank).reverse, ?_,
    List.all_takeWhile, by simp [List.all_takeWhile]⟩
  have h := congrArg List.reverse (takeWhile_append_dropBlanks (dropBlanks t).reverse)
  rw [List.reverse_append, List.reverse_reverse] at h
  rw [trim, dropBlanksEnd, h, takeWhile_append_dropBlanks]

/-- A text without blanks at its ends. -/
def IsTrimmed (t : Text) : Prop :=
  NotNext isBlank t ∧ NotNext isBlank t.reverse

theorem isTrimmed_trim (t : Text) : IsTrimmed (trim t) := by
  have hend : NotNext isBlank (trim t).reverse := by
    rw [trim, dropBlanksEnd, List.reverse_reverse]
    exact notNext_dropWhile _ _
  refine ⟨fun c cs hcs => ?_, hend⟩
  -- the first character of the trimmed text is the first one that is not blank
  have hfirst : NotNext isBlank (dropBlanks t) := notNext_dropWhile _ _
  have happ := congrArg List.reverse (takeWhile_append_dropBlanks (dropBlanks t).reverse)
  rw [List.reverse_append, List.reverse_reverse] at happ
  rw [trim, dropBlanksEnd] at hcs
  rw [hcs, List.cons_append] at happ
  exact hfirst c _ happ.symm

theorem isTrimmed_iff {t : Text} : IsTrimmed t ↔ trim t = t := by
  constructor
  · rintro ⟨h, hrev⟩
    rw [trim, dropBlanks_of_notNext h, dropBlanksEnd, dropBlanks_of_notNext hrev,
      List.reverse_reverse]
  · intro h; exact h ▸ isTrimmed_trim t

/-- A trimmed text does not end with blanks. -/
theorem IsTrimmed.dropBlanks_suffix_ne_nil {p r : Text} (h : IsTrimmed (p ++ r)) (hr : r ≠ []) :
    dropBlanks r ≠ [] := by
  intro hnil
  have hall := List.dropWhile_eq_nil_iff.1 hnil
  have hlast := h.2
  rw [List.reverse_append] at hlast
  cases hrev : r.reverse with
  | nil => exact hr (List.reverse_eq_nil_iff.1 hrev)
  | cons c cs =>
    rw [hrev, List.cons_append, notNext_cons] at hlast
    have hc : c ∈ r := List.mem_reverse.1 (hrev ▸ List.mem_cons_self)
    rw [hall c hc] at hlast
    cases hlast

/-! ## Clauses -/

/-- The text ends with the whole word `word`. -/
def EndsWithWord (word t : Text) : Prop :=
  ∃ before written : Text, t = before ++ written ∧ written.lower = word.lower ∧
    inWordAfter false before = false

theorem opensOptionalMatch_iff {t : Text} : opensOptionalMatch t = true ↔
    ∃ (written : Text) (c : Char) (rest : Text), t = written ++ c :: rest ∧
      written.lower = Keyword.optional.written.lower ∧ isBlank c = true ∧
      startsWord Keyword.match_.written (dropBlanks rest) = true := by
  simp only [opensOptionalMatch, Option.any_eq_true, Bool.and_eq_true]
  constructor
  · rintro ⟨rest, hrest, ⟨hends, hblank⟩, hmatch⟩
    obtain ⟨written, -, hlower, rfl⟩ := afterWord?_eq_some hrest
    cases rest with
    | nil => simp at hblank
    | cons c cs =>
      simp only [List.head?_cons, Option.some.injEq, exists_eq_left'] at hblank
      refine ⟨written, c, cs, rfl, hlower, hblank, ?_⟩
      simpa [dropBlanks, hblank] using hmatch
  · rintro ⟨written, c, cs, rfl, hlower, hblank, hmatch⟩
    have hafter := afterWord?_append (c :: cs) (afterWord?_eq_some_of_lower hlower)
    refine ⟨c :: cs, by simpa using hafter, ⟨?_, by simpa using hblank⟩,
      by simpa [dropBlanks, hblank] using hmatch⟩
    simp [endsWord, isAlphanumeric_eq_false_of_isBlank hblank]

theorem opensClause_iff {t : Text} : opensClause t = true ↔
    (∃ k ∈ [Keyword.match_, .where_, .return_], startsWord k.written t = true) ∨
      opensOptionalMatch t = true := by
  simp [opensClause, or_assoc]

theorem opensClause_of_notNext {t : Text} (ht : NotNext isAlphanumeric t) :
    opensClause t = false := by
  rw [← Bool.not_eq_true, opensClause_iff]
  rintro (⟨k, -, hk⟩ | h)
  · rw [startsWord_of_notNext (isWord_written k) ht.isAlphanum] at hk
    cases hk
  · obtain ⟨written, c, rest, rfl, hlower, -, -⟩ := opensOptionalMatch_iff.1 h
    have hstart : startsWord Keyword.optional.written written = true :=
      startsWord_iff.2 ⟨written, [], by simp, hlower, notNext_nil _⟩
    cases written with
    | nil => cases hstart
    | cons d ds =>
      rw [startsWord_of_notNext (isWord_written .optional)
        (notNext_cons.2 (notNext_cons.1 ht.isAlphanum))] at hstart
      cases hstart

/-- A word at the start of a text that ends outside a word is one when the text
    goes on. -/
theorem startsWord_append_of_not_inWord {word s t : Text} (hword : IsWord word)
    (h : startsWord word s = true) (hs : inWordAfter true s = false) :
    startsWord word (s ++ t) = true := by
  obtain ⟨written, rest, rfl, hlower, hrest⟩ := startsWord_iff.1 h
  refine startsWord_iff.2 ⟨written, rest ++ t, by simp, hlower, ?_⟩
  cases rest with
  | nil =>
    -- the word itself would be what the text ends with
    have hall := all_isAlpha_of_lower_eq hword hlower
    have hlen := length_eq_of_lower_eq hlower
    rw [List.append_nil, inWordAfter_of_all (v := true)] at hs
    · cases hs
    · exact fun c hc => isAlphanumeric_of_isAlphanum
        (isAlphanum_of_isAlpha (List.all_eq_true.1 hall c hc))
    · rintro rfl; exact hword.ne_nil (List.length_eq_zero_iff.1 hlen.symm)
  | cons c cs => exact notNext_cons.2 (notNext_cons.1 hrest)

/-- A clause at the start of a text is one when the text goes on, if what follows
    does not go on with the last word. -/
theorem opensClause_append {s t : Text} (h : opensClause s = true)
    (hst : NotNext isAlphanumeric t ∨ inWordAfter true s = false) :
    opensClause (s ++ t) = true := by
  have hword : ∀ (k : Keyword) (u : Text), (NotNext isAlphanumeric t ∨ inWordAfter true u = false) →
      startsWord k.written u = true → startsWord k.written (u ++ t) = true := by
    rintro k u (ht | hu) hk
    · rwa [startsWord_append (isWord_written k) u ht]
    · exact startsWord_append_of_not_inWord (isWord_written k) hk hu
  rw [opensClause_iff] at h ⊢
  rcases h with ⟨k, hmem, hk⟩ | h
  · exact Or.inl ⟨k, hmem, hword k s hst hk⟩
  · obtain ⟨written, c, rest, rfl, hlower, hblank, hmatch⟩ := opensOptionalMatch_iff.1 h
    have hne : dropBlanks rest ≠ [] := by
      intro hnil; rw [hnil] at hmatch; cases hmatch
    refine Or.inr (opensOptionalMatch_iff.2 ⟨written, c, rest ++ t, by simp, hlower, hblank, ?_⟩)
    rw [dropBlanks_append_of_ne_nil t hne]
    refine hword .match_ _ (hst.imp_right fun hs => ?_) hmatch
    rw [inWordAfter_append, inWordAfter_cons, ← takeWhile_append_dropBlanks rest,
      inWordAfter_append] at hs
    rwa [inWordAfter_of_ne_nil hne]

/-- Inside the trimmed text before the first clause no clause starts, up to the blanks
    that follow it; without such blanks, the text does not end in a word. -/
theorem exists_trail_of_splitAtClause? {t before rest : Text}
    (h : splitAtClause? t = some (before, rest)) : ∃ trail : Text, trail.all isBlank = true ∧
      ∀ p r, before.trim = p ++ r → r ≠ [] →
        (inWordAfter false p = false → opensClause (r ++ (trail ++ rest)) = false) ∧
        (trail = [] → inWordAfter true r = false) := by
  obtain ⟨-, -, -, hflag, hfirst⟩ := splitAtStartFrom?_eq_some_iff.1 h
  obtain ⟨lead, trail, hbefore, hlead, htrail⟩ := exists_blanks_trim before
  refine ⟨trail, htrail, fun p r hpr hr => ⟨fun hp => ?_, ?_⟩⟩
  · rw [← List.append_assoc]
    refine hfirst (lead ++ p) (r ++ trail) ?_ (by simp [hr]) ?_
    · rw [hbefore, hpr]; simp
    · rw [inWordAfter_append]
      cases p with
      | cons c cs => exact hp
      | nil =>
        cases lead with
        | nil => rfl
        | cons d ds => exact inWordAfter_of_blank hlead (by simp) false
  · rintro rfl
    rw [hbefore, hpr, List.append_nil, inWordAfter_append, inWordAfter_append] at hflag
    rw [inWordAfter_of_ne_nil hr, hflag]

/-- The trimmed text before the first clause holds no clause. -/
theorem splitAtClause?_trim {t before rest : Text} (h : splitAtClause? t = some (before, rest)) :
    splitAtClause? before.trim = none := by
  obtain ⟨trail, htrail, hinside⟩ := exists_trail_of_splitAtClause? h
  refine splitAtStartFrom?_eq_none_iff.2 fun p r hpr hr hp => ?_
  obtain ⟨hnone, hend⟩ := hinside p r hpr hr
  have hends : NotNext isAlphanumeric (trail ++ rest) ∨ inWordAfter true r = false := by
    cases trail with
    | nil => exact Or.inr (hend rfl)
    | cons c cs =>
      simp only [List.all_cons, Bool.and_eq_true] at htrail
      exact Or.inl (notNext_cons.2 (isAlphanumeric_eq_false_of_isBlank htrail.1))
  by_contra hopen
  have happ := opensClause_append (by simpa using hopen) hends
  rw [hnone hp] at happ
  cases happ

theorem notNext_isBlank_of_startsWord {word t : Text} (hword : IsWord word)
    (h : startsWord word t = true) : NotNext isBlank t := by
  obtain ⟨written, rest, rfl, hlower, -⟩ := startsWord_iff.1 h
  have hname := isName_of_lower_eq hword hlower
  cases written with
  | nil => cases hname
  | cons c cs =>
    simp only [isName, Bool.and_eq_true] at hname
    exact notNext_cons.2 (isBlank_eq_false_of_isAlphanum (isAlphanum_of_isAlpha hname.1))

/-- The trimmed text before a `MATCH` does not end with `OPTIONAL`. -/
theorem not_endsWithWord_trim {t before rest : Text} (h : splitAtClause? t = some (before, rest))
    (hmatch : startsWord Keyword.match_.written rest = true) :
    ¬EndsWithWord Keyword.optional.written before.trim := by
  obtain ⟨trail, htrail, hinside⟩ := exists_trail_of_splitAtClause? h
  rintro ⟨p, written, hpw, hlower, hp⟩
  have hall := all_isAlpha_of_lower_eq (isWord_written .optional) hlower
  have hne : written ≠ [] := by
    rintro rfl; cases hlower
  obtain ⟨hopen, hend⟩ := hinside p written hpw hne
  replace hopen := hopen hp
  cases trail with
  | nil =>
    -- `OPTIONAL` would stand directly before the clause
    have := hend rfl
    rw [inWordAfter_of_all (v := true) (fun c hc => isAlphanumeric_of_isAlphanum
      (isAlphanum_of_isAlpha (List.all_eq_true.1 hall c hc))) hne] at this
    cases this
  | cons c cs =>
    simp only [List.all_cons, Bool.and_eq_true] at htrail
    rw [← Bool.not_eq_true, opensClause_iff] at hopen
    refine hopen (Or.inr (opensOptionalMatch_iff.2
      ⟨written, c, cs ++ rest, by simp, hlower, htrail.1, ?_⟩))
    rw [dropBlanks_blank_append rest htrail.2,
      dropBlanks_of_notNext (notNext_isBlank_of_startsWord (isWord_written .match_) hmatch)]
    exact hmatch

/-- A body without a clause in it is no clause at any of its places, however it
    goes on after a space, unless `OPTIONAL` is completed by a `MATCH`. -/
theorem opensClause_append_space {body rest p r : Text} (htrim : body.IsTrimmed)
    (hnone : splitAtClause? body = none) (hrest : NotNext isBlank rest)
    (hoptional : startsWord Keyword.match_.written rest = true →
      ¬EndsWithWord Keyword.optional.written body)
    (hbody : body = p ++ r) (hr : r ≠ []) (hp : inWordAfter false p = false) :
    opensClause (r ++ ' ' :: rest) = false := by
  have hclosed : opensClause r = false := splitAtStartFrom?_eq_none_iff.1 hnone p r hbody hr hp
  rw [← Bool.not_eq_true, opensClause_iff] at hclosed ⊢
  have hspace : NotNext isAlphanumeric (' ' :: rest) := notNext_cons.2 (by
    rw [isAlphanumeric_of_ascii] <;> decide)
  rintro (⟨k, hmem, hk⟩ | h)
  · rw [startsWord_append (isWord_written k) r hspace] at hk
    exact hclosed (Or.inl ⟨k, hmem, hk⟩)
  · obtain ⟨written, c, after, heq, hlower, hblank, hmatch⟩ := opensOptionalMatch_iff.1 h
    rcases List.append_eq_append_iff.1 heq with ⟨more, rfl, hmore⟩ | ⟨tail, rfl, htail⟩
    · cases more with
      | nil =>
        cases hmore
        rw [dropBlanks_of_notNext hrest] at hmatch
        exact hoptional hmatch ⟨p, r, hbody, by simpa using hlower, hp⟩
      | cons d ds =>
        -- the word would reach over the space
        cases hmore
        have hall := all_isAlpha_of_lower_eq (isWord_written .optional) hlower
        simp at hall
    · cases tail with
      | nil =>
        cases htail
        rw [dropBlanks_of_notNext hrest] at hmatch
        exact hoptional hmatch ⟨p, written, by simpa using hbody, hlower, hp⟩
      | cons d ds =>
        rw [List.cons_append, List.cons.injEq] at htail
        obtain ⟨rfl, rfl⟩ := htail
        have hne : dropBlanks (c :: ds) ≠ [] := by
          refine IsTrimmed.dropBlanks_suffix_ne_nil (p := p ++ written) ?_ (by simp)
          rw [List.append_assoc, ← hbody]
          exact htrim
        have hdrop : dropBlanks (c :: ds) = dropBlanks ds := by simp [dropBlanks, hblank]
        rw [hdrop] at hne
        rw [dropBlanks_append_of_ne_nil _ hne,
          startsWord_append (isWord_written .match_) _ hspace] at hmatch
        exact hclosed (Or.inr (opensOptionalMatch_iff.2
          ⟨written, c, ds, rfl, hlower, hblank, hmatch⟩))

/-- A trimmed body without a clause in it is cut off in front of the next clause. -/
theorem splitAtClause?_body {body rest : Text} (htrim : body.IsTrimmed)
    (hnone : splitAtClause? body = none) (hopens : opensClause rest = true)
    (hrest : NotNext isBlank rest)
    (hoptional : startsWord Keyword.match_.written rest = true →
      ¬EndsWithWord Keyword.optional.written body) :
    splitAtClause? (body.afterSpace ++ ' ' :: rest) = some (body.afterSpace ++ [' '], rest) ∧
      (body.afterSpace ++ [' ']).trim = body := by
  have hspace : isAlphanumeric ' ' = false := by rw [isAlphanumeric_of_ascii] <;> decide
  have hclosed : ∀ t, opensClause (' ' :: t) = false :=
    fun t => opensClause_of_notNext (notNext_cons.2 hspace)
  constructor
  · have hne : rest ≠ [] := by rintro rfl; cases hopens
    refine splitAtStartFrom?_eq_some_iff.2 ⟨by simp, hne, hopens, by simp [hspace], ?_⟩
    intro p r hpr hr hp
    obtain ⟨r, x, rfl⟩ := (List.eq_nil_or_concat r).resolve_left hr
    rw [List.concat_eq_append, ← List.append_assoc] at hpr
    obtain ⟨hafter, hx⟩ := List.append_inj' hpr rfl
    cases hx
    rw [List.concat_eq_append, List.append_assoc, List.singleton_append]
    unfold afterSpace at hafter
    split at hafter
    · rw [(List.append_eq_nil_iff.1 hafter.symm).2]; exact hclosed rest
    · cases p with
      | nil => rw [List.nil_append] at hafter; rw [← hafter]; exact hclosed _
      | cons d ds =>
        rw [List.cons_append, List.cons.injEq] at hafter
        obtain ⟨rfl, hbody⟩ := hafter
        rw [inWordAfter_cons, hspace] at hp
        cases r with
        | nil => exact hclosed rest
        | cons e es =>
          exact opensClause_append_space htrim hnone hrest hoptional hbody (by simp) hp
  · unfold afterSpace
    split
    · rename_i hempty; rw [List.isEmpty_iff.1 hempty]; rfl
    · rename_i hempty
      have hne : dropBlanks body ≠ [] := by
        rw [dropBlanks_of_notNext htrim.1]
        simpa using hempty
      have hdrop : dropBlanks (' ' :: body ++ [' ']) = body ++ [' '] := by
        rw [← List.singleton_append, List.append_assoc, dropBlanks_blank_append _ rfl,
          dropBlanks_append_of_ne_nil _ hne, dropBlanks_of_notNext htrim.1]
      have hdropEnd : dropBlanks ([' '] ++ body.reverse) = body.reverse := by
        rw [dropBlanks_blank_append _ rfl, dropBlanks_of_notNext htrim.2]
      rw [trim, hdrop, dropBlanksEnd, List.reverse_append, List.reverse_singleton, hdropEnd,
        List.reverse_reverse]

end Text

end Cypher
