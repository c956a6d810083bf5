/-
  Locality — an error depends only on the text up to it, and on the item after it.

  A query is read token by token, and nothing beyond the furthest failure is looked at, except
  for the one token that may stand directly after a sign. So a text that goes on differently
  after that is refused with the same error at the same place.

  * `Abreast old new t x`: the texts have the same items at the same distances, up to where the
    one goes on with `old` and the other one with `new`;
  * `Tokenwise.keepsUp`: productions that read tokens do the same on both texts, unless the
    reading of the first one gets beyond `old`;
  * `exists_abreast_of_items`: texts with the same first items are abreast;
  * `Query.parse_of_take_items`: texts with the same items up to an error and the next one have
    the same error.
-/
import Cypher.Proofs.Pointing
import Cypher.Proofs.Spacing

namespace Cypher

/-! ## Texts abreast -/

/-- The one text begins as far before `old` as the other one before `new`. -/
abbrev Text.Level (old new t x : Text) : Prop :=
  t.byteSize + new.byteSize = x.byteSize + old.byteSize

/-- The texts have the same items at the same distances, up to where the one goes on with `old`
    and the other one with `new`. The word `CASE` is not among them. There, too, the next item is
    the same, and so is the sign that the next token may begin. -/
inductive Abreast (old new : Text) : Text → Text → Prop
  | here {t x u y : Text} {lexeme : Lexeme} : Text.Level old new t x → t.dropBlanks = old →
      x.dropBlanks = new → Lexeme.scan? old = some (lexeme, u) →
      Lexeme.scan? new = some (lexeme, y) → SameNext t x → Abreast old new t x
  | item {t x u y : Text} {lexeme : Lexeme} : Text.Level old new t x →
      Lexeme.scan? t.dropBlanks = some (lexeme, u) → Lexeme.scan? x.dropBlanks = some (lexeme, y) →
      (∀ kind, lexeme = .token kind → kind.isWord Keyword.case_.written = false) →
      Abreast old new u y → Abreast old new t x

/-- No blank comes first iff skipping blanks saves no byte. -/
theorem Text.dropBlanks_eq_self_iff {t : Text} :
    t.dropBlanks = t ↔ t.dropBlanks.byteSize = t.byteSize :=
  ⟨congrArg byteSize, eq_of_suffix_of_byteSize (dropBlanks_suffix t) List.suffix_rfl⟩

theorem Lexeme.ne_nil_of_scan? {t u : Text} {lexeme : Lexeme}
    (h : scan? t = some (lexeme, u)) : t ≠ [] := by
  rintro rfl
  cases h

theorem Lexeme.suffix_of_scan? {t u : Text} {lexeme : Lexeme}
    (h : scan? t.dropBlanks = some (lexeme, u)) : u <:+ t :=
  ((scan?_eq_some h).1 ▸ List.suffix_append _ _).trans (Text.dropBlanks_suffix t)

theorem TokenKind.not_keywordAt_of_isWord {t u : Text} {kind : TokenKind} {k : Keyword}
    (ht : t.token? = some (kind, u)) (hkind : kind.isWord k.written = false) (v : Text) :
    ¬Production.KeywordAt k t v := by
  rintro ⟨word, hword, hk⟩
  rw [ht] at hword
  cases hword
  rw [isWord, identifier?, Option.any_some, hk] at hkind
  cases hkind

/-- Texts with the same first lexeme begin with the same token, and with the same sign if the
    same tokens stand directly after it. -/
theorem SameNext.of_scan? {t x u y : Text} {lexeme : Lexeme}
    (ht : Lexeme.scan? t.dropBlanks = some (lexeme, u))
    (hx : Lexeme.scan? x.dropBlanks = some (lexeme, y))
    (hcase : ∀ kind, lexeme = .token kind → kind.isWord Keyword.case_.written = false)
    (hadjacent : ∀ next, (∃ v, u.adjacentToken? = some (next, v)) ↔
      ∃ z, y.adjacentToken? = some (next, z)) : SameNext t x := by
  cases lexeme with
  | unrecognized text =>
    have hnone : t.token? = none ∧ x.token? = none := by simp [Text.token?, ht, hx]
    refine ⟨by simp [hnone], ?_, by simp [hnone]⟩
    rintro v ⟨word, hword, -⟩
    rw [hnone.1] at hword
    cases hword
  | token kind =>
    have htok : t.token? = some (kind, u) := Text.token?_eq_some_iff.2 ht
    have htok' : x.token? = some (kind, y) := Text.token?_eq_some_iff.2 hx
    refine ⟨by simp [htok, htok'], TokenKind.not_keywordAt_of_isWord htok (hcase kind rfl), ?_⟩
    rintro kind' next u' y' hu hy -
    rw [htok] at hu
    rw [htok'] at hy
    cases hu
    cases hy
    exact hadjacent next

namespace Abreast

variable {old new t x u y : Text}

theorem level (h : Abreast old new t x) : Text.Level old new t x := by
  cases h with
  | here hlevel => exact hlevel
  | item hlevel => exact hlevel

/-- Behind the blanks, too, the distances are the same. -/
theorem level_dropBlanks (h : Abreast old new t x) :
    Text.Level old new t.dropBlanks x.dropBlanks := by
  cases h with
  | here _ ht hx => rw [ht, hx]; exact Nat.add_comm _ _
  | item _ ht hx _ hrest =>
    have hlevel := hrest.level
    rw [Text.Level, (Lexeme.scan?_eq_some ht).1, (Lexeme.scan?_eq_some hx).1,
      Text.byteSize_append, Text.byteSize_append]
    omega

theorem dropBlanks_iff (h : Abreast old new t x) : t.dropBlanks = t ↔ x.dropBlanks = x := by
  have hlevel := h.level
  have hlevel' := h.level_dropBlanks
  rw [Text.dropBlanks_eq_self_iff, Text.dropBlanks_eq_self_iff]
  omega

theorem dropBlanks_ne_nil (h : Abreast old new t x) : t.dropBlanks ≠ [] ∧ x.dropBlanks ≠ [] := by
  cases h with
  | here _ ht hx hold hnew =>
    rw [ht, hx]
    exact ⟨Lexeme.ne_nil_of_scan? hold, Lexeme.ne_nil_of_scan? hnew⟩
  | item _ ht hx => exact ⟨Lexeme.ne_nil_of_scan? ht, Lexeme.ne_nil_of_scan? hx⟩

theorem suffix (h : Abreast old new t x) : old <:+ t ∧ new <:+ x := by
  induction h with
  | here _ ht hx => exact ⟨ht ▸ Text.dropBlanks_suffix _, hx ▸ Text.dropBlanks_suffix _⟩
  | item _ ht hx _ _ ih =>
    exact ⟨ih.1.trans (Lexeme.suffix_of_scan? ht), ih.2.trans (Lexeme.suffix_of_scan? hx)⟩

/-- The next item is the same at the end. -/
theorem exists_scan? (h : Abreast old new t x) : ∃ lexeme u y,
    Lexeme.scan? old = some (lexeme, u) ∧ Lexeme.scan? new = some (lexeme, y) := by
  induction h with
  | here _ _ _ hold hnew _ => exact ⟨_, _, _, hold, hnew⟩
  | item _ _ _ _ _ ih => exact ih

/-- Both texts begin with the same token, and with the same sign. -/
theorem sameNext (h : Abreast old new t x) : SameNext t x := by
  induction h with
  | here _ _ _ _ _ hsame => exact hsame
  | item _ ht hx hcase hrest ih =>
    refine .of_scan? ht hx hcase fun next => ?_
    simp only [Text.adjacentToken?_eq_some_iff, exists_and_left, hrest.dropBlanks_iff,
      ih.token next]

/-- After the same tokens, the texts are still abreast, or the first one is beyond `old`. -/
theorem along (h : Abreast old new t x) (halong : Along t x u y) :
    u.dropBlanks.byteSize < old.byteSize ∨ Abreast old new u y := by
  induction halong with
  | refl t x => exact Or.inr h
  | token ht hx hrest ih =>
    cases h with
    | here _ hold _ _ _ _ =>
      have hlt := Text.byteSize_lt_of_token? ht
      have hle := Text.byteSize_le_of_suffix hrest.suffix.1
      have hle' := Text.byteSize_dropBlanks_le
      rw [hold] at hlt
      exact Or.inl (Nat.lt_of_le_of_lt ((hle' _).trans hle) hlt)
    | item _ ht' hx' _ hnext =>
      rw [Text.token?_eq_some_iff, ht'] at ht
      rw [Text.token?_eq_some_iff, hx'] at hx
      cases ht
      cases hx
      exact ih hnext

end Abreast

/-! ## Reading abreast -/

namespace Production

variable {α : Type} {limit : Nat} {looks : Bool} {old new t x : Text}

/-- The production does the same on both texts, unless the reading of the first one gets beyond
    `old`. -/
def KeepsUp (old : Text) (p : Production α) (t x : Text) : Prop :=
  p.Beyond t old ∨ p.InStep t x

/-- A miss beyond a place was noted there. -/
theorem Tokenwise.beyond_of_missed {p : Production α} {u : Text} (hp : Tokenwise limit looks p)
    (h : p.outcome t = .missed u) (hlt : u.dropBlanks.byteSize < old.byteSize) :
    p.Beyond t old := by
  obtain ⟨e, ahead, hnote, hahead⟩ := hp.exists_expected h
  exact .of_note hnote (Nat.lt_of_le_of_lt (Text.byteSize_le_of_suffix hahead) hlt)

theorem KeepsUp.andThen {β : Type} {p : Production α} {f : α → Production β}
    (hf : ∀ a, Tokenwise limit looks (f a)) (h : Abreast old new t x) (hp : p.KeepsUp old t x)
    (hnext : ∀ a u y, Abreast old new u y → (f a).KeepsUp old u y) :
    (p >>= f).KeepsUp old t x := by
  by_cases hbeyond : (p >>= f).Beyond t old
  · exact Or.inl hbeyond
  have hleft : ¬p.Beyond t old := fun hb => hbeyond (hb.andThen_left hf fun _ _ => rfl)
  refine Or.inr (InStep.andThen (hp.resolve_left hleft) fun a u y ht _ halong => ?_)
  rcases h.along halong with hlt | huy
  · exact absurd (Or.inr ⟨a, u, ht, hlt⟩) hleft
  · exact (hnext a u y huy).resolve_left fun hb => hbeyond (.andThen_right ht hb)

theorem KeepsUp.orTry {p q : Production α} (htokens : Tokenwise limit looks p)
    (h : Abreast old new t x) (hp : p.KeepsUp old t x)
    (hnext : ∀ u y, Abreast old new u y → q.KeepsUp old u y) : (p <|> q).KeepsUp old t x := by
  by_cases hbeyond : (p <|> q).Beyond t old
  · exact Or.inl hbeyond
  have hleft : ¬p.Beyond t old := fun hb => hbeyond hb.orTry_left
  refine Or.inr (InStep.orTry (hp.resolve_left hleft) fun u y ht _ halong => ?_)
  rcases h.along halong with hlt | huy
  · exact absurd (htokens.beyond_of_missed ht hlt) hleft
  · exact (hnext u y huy).resolve_left fun hb => hbeyond (.orTry_right ht hb)

theorem KeepsUp.many {p : Production α} (hadvances : p.Advances)
    (htokens : Tokenwise limit looks p)
    (hp : ∀ u y, Abreast old new u y → p.KeepsUp old u y) (h : Abreast old new t x) :
    (Production.many p).KeepsUp old t x := by
  induction hlength : t.length using Nat.strongRecOn generalizing t x with
  | ind n ih =>
    by_cases hbeyond : (Production.many p).Beyond t old
    · exact Or.inl hbeyond
    have hleft : ¬p.Beyond t old := fun hb =>
      hbeyond (hb.many_left htokens hadvances fun _ _ => rfl)
    have hround := (hp t x h).resolve_left hleft
    refine Or.inr (.many_round hadvances hround fun a u y ht _ halong => ?_)
    rcases h.along halong with hlt | huy
    · exact absurd (Or.inr ⟨a, u, ht, hlt⟩) hleft
    · exact (ih _ (hlength ▸ hadvances ht) huy rfl).resolve_left fun hb =>
        hbeyond (.many_right ht (hadvances ht) hb)

/-- Productions that read tokens keep up with each other on texts abreast. -/
theorem Tokenwise.keepsUp {p : Production α} (hp : Tokenwise limit looks p)
    (h : Abreast old new t x) : p.KeepsUp old t x := by
  induction hp generalizing t x with
  | succeed a => exact Or.inr (.succeed a)
  | andThen _ hf ihp ihf => exact .andThen hf h (ihp h) fun a u y huy => ihf a huy
  | orTry hp _ ihp ihq => exact .orTry hp h (ihp h) fun u y huy => ihq huy
  | attempt _ ih => exact (ih h).imp .attempt .attempt
  | maybe _ ih => exact (ih h).imp .maybe .maybe
  | lookahead _ _ ih => exact (ih h).imp .lookahead .lookahead
  | many hadvances hp ih => exact .many hadvances hp (fun u y huy => ih huy) h
  | token _ _ => exact Or.inr (.token h.sameNext)
  | leftMark => exact Or.inr (.leftMark h.sameNext)
  | rightMark => exact Or.inr (.rightMark h.sameNext)
  | number => exact Or.inr (.number h.sameNext)
  | caseExpression => exact Or.inr (.caseExpression h.sameNext)
  | tooDeep => exact Or.inr (.tooDeep limit)

end Production

/-! ## Texts with the same items -/

theorem Item.isWord_eq_false {item : Item} {word : Text}
    (h : ∀ token ∈ item.token?, token.kind.isWord word = false) :
    ∀ kind, item.lexeme = .token kind → kind.isWord word = false := by
  obtain ⟨lexeme, span⟩ := item
  rintro kind rfl
  exact h ⟨kind, span⟩ rfl

namespace Cursor

variable {c d after : Cursor} {item : Item}

/-- Cursors with the same first items have the same next item, and the others follow it. -/
theorem exists_next?_of_take {n : Nat} (hlength : 0 < c.items.length)
    (h : d.items.take (n + 1) = c.items.take (n + 1)) :
    ∃ item c' d', c.next? = some (item, c') ∧ d.next? = some (item, d') ∧
      c.items = item :: c'.items ∧ d'.items.take n = c'.items.take n := by
  cases hc : c.next? with
  | none => rw [items_eq_nil hc] at hlength; cases hlength
  | some found =>
    obtain ⟨item, c'⟩ := found
    have hitems := items_eq_cons hc
    rw [hitems, List.take_succ_cons] at h
    cases hd : d.next? with
    | none => rw [items_eq_nil hd] at h; cases h
    | some found =>
      obtain ⟨item', d'⟩ := found
      rw [items_eq_cons hd, List.take_succ_cons] at h
      obtain ⟨rfl, hrest⟩ := List.cons.inj h
      exact ⟨item', c', d', rfl, rfl, hitems, hrest⟩

/-- Where the next item begins. -/
theorem start_of_next? (h : c.next? = some (item, after)) :
    item.span.start + c.rest.dropBlanks.byteSize = c.offset + c.rest.byteSize := by
  have hskip := EndsAt.skipBlanks (c := c) rfl
  rw [(next?_eq_some h).2.2.1]
  exact hskip

/-- Cursors with the same two items ahead have the same token and the same sign ahead. -/
theorem sameNext_of_next? {c' d' c'' d'' : Cursor} {second : Item}
    (hc : c.next? = some (item, c')) (hd : d.next? = some (item, d'))
    (hc' : c'.next? = some (second, c'')) (hd' : d'.next? = some (second, d''))
    (hcase : ∀ kind, item.lexeme = .token kind → kind.isWord Keyword.case_.written = false) :
    SameNext c.rest d.rest := by
  have hblank : c'.rest.dropBlanks = c'.rest ↔ d'.rest.dropBlanks = d'.rest := by
    have hstart := start_of_next? hc'
    have hstart' := start_of_next? hd'
    have hstop := (stop_of_next? hc).symm.trans (stop_of_next? hd)
    rw [Text.dropBlanks_eq_self_iff, Text.dropBlanks_eq_self_iff]
    omega
  have htoken : ∀ next, (∃ v, c'.rest.token? = some (next, v)) ↔
      ∃ z, d'.rest.token? = some (next, z) := by
    intro next
    simp only [Text.token?_eq_some_iff, scan?_of_next? hc', scan?_of_next? hd', Option.some.injEq,
      Prod.mk.injEq, exists_and_left, exists_eq']
  refine .of_scan? (scan?_of_next? hc) (scan?_of_next? hd) hcase fun next => ?_
  simp only [Text.adjacentToken?_eq_some_iff, exists_and_left, hblank, htoken next]

end Cursor

/-- Texts with the same items up to one and the next are abreast up to where it begins. -/
theorem exists_abreast_of_items {c d : Cursor} {i : Nat} {item : Item}
    (hoffset : c.offset = d.offset) (hitem : c.items[i]? = some item)
    (hnext : i + 1 < c.items.length)
    (hcase : ∀ item ∈ c.items.take (i + 1), ∀ token ∈ item.token?,
      token.kind.isWord Keyword.case_.written = false)
    (hsame : d.items.take (i + 2) = c.items.take (i + 2)) :
    ∃ old new, Abreast old new c.rest d.rest ∧
      item.span.start + old.byteSize = c.offset + c.rest.byteSize := by
  induction i generalizing c d with
  | zero =>
    obtain ⟨first, c', d', hc, hd, hitems, hrest⟩ :=
      Cursor.exists_next?_of_take (Nat.lt_of_succ_lt hnext) hsame
    rw [hitems] at hitem hnext hcase
    have hfirst := Item.isWord_eq_false (hcase first (List.mem_cons_self ..))
    cases hitem
    obtain ⟨second, c'', d'', hc', hd', -⟩ :=
      Cursor.exists_next?_of_take (Nat.lt_of_succ_lt_succ hnext) hrest
    have hstart := Cursor.start_of_next? hc
    have hstart' := Cursor.start_of_next? hd
    refine ⟨_, _, .here ?_ rfl rfl (Cursor.scan?_of_next? hc) (Cursor.scan?_of_next? hd)
      (Cursor.sameNext_of_next? hc hd hc' hd' hfirst), hstart⟩
    omega
  | succ i ih =>
    obtain ⟨first, c', d', hc, hd, hitems, hrest⟩ :=
      Cursor.exists_next?_of_take (Nat.zero_lt_of_lt hnext) hsame
    have hends : c'.offset + c'.rest.byteSize = c.offset + c.rest.byteSize :=
      Cursor.EndsAt.next? rfl hc
    have hends' : d'.offset + d'.rest.byteSize = d.offset + d.rest.byteSize :=
      Cursor.EndsAt.next? rfl hd
    have hstop := (Cursor.stop_of_next? hc).symm.trans (Cursor.stop_of_next? hd)
    rw [hitems] at hitem hnext hcase
    have hfirst := Item.isWord_eq_false (hcase first (List.mem_cons_self ..))
    obtain ⟨old, new, habreast, hstart⟩ := ih hstop hitem (Nat.lt_of_succ_lt_succ hnext)
      (fun item hmem => hcase item (List.mem_cons_of_mem _ hmem)) hrest
    have hlevel := habreast.level
    refine ⟨old, new, .item ?_ (Cursor.scan?_of_next? hc) (Cursor.scan?_of_next? hd) hfirst
      habreast, by omega⟩
    omega

/-! ## Errors of texts abreast -/

/-- Failures in step at the end of what is abreast are the same error. -/
theorem Furthest.InStep.error_eq {old new t x : Text} {f g : Furthest} (h : InStep t x f g)
    (habreast : Abreast old new t x) (hold : old.dropBlanks = old)
    (hcursor : f.cursor = .before t.byteSize old) (hne : f.expected ≠ []) : g.error = f.error := by
  rcases h with ⟨rfl, -⟩ | ⟨hexpected, u, y, halong, hf, hg⟩
  · exact absurd rfl hne
  have hu : u.dropBlanks = old := congrArg Cursor.rest (hf.symm.trans hcursor)
  have hlevel := habreast.level
  have hsize := Text.byteSize_le_of_suffix habreast.suffix.1
  have hsize' := Text.byteSize_le_of_suffix habreast.suffix.2
  have hy : y.dropBlanks = new := by
    rcases habreast.along halong with hlt | huy
    · rw [hu] at hlt
      exact absurd hlt (Nat.lt_irrefl _)
    · have hahead := huy.level_dropBlanks
      rw [hu] at hahead
      exact Text.eq_of_suffix_of_byteSize
        ((Text.dropBlanks_suffix y).trans halong.suffix.2) habreast.suffix.2 (by omega)
  obtain ⟨lexeme, v, z, hv, hz⟩ := habreast.exists_scan?
  have hnew : new.dropBlanks = new := hy ▸ Text.dropBlanks_dropBlanks y
  have hoffset : t.byteSize - old.byteSize = x.byteSize - new.byteSize := by omega
  rw [hy] at hg
  rw [error_of_scan? hcursor hold hv, error_of_scan? hg hnew hz, hexpected, hoffset]

namespace Query

open Production

/-- Texts abreast are read alike, unless the reading of the first one gets beyond the end. -/
theorem inStep_query_of_abreast {limit : Nat} {old new t x : Text} (h : Abreast old new t x)
    (hstart : ∀ u, ¬KeywordAt .start t u) (hbeyond : ¬(body limit).Beyond t old) :
    (Production.query limit).InStep t x := by
  have hstart' : ∀ y, ¬KeywordAt .start x y := by
    rintro y ⟨word, hy, hword⟩
    obtain ⟨u, hu⟩ := (h.sameNext.token _).2 ⟨y, hy⟩
    exact hstart u ⟨word, hu, hword⟩
  have hbody := ((Tokenwise.body limit).keepsUp h).resolve_left hbeyond
  refine inStep_query_of_body hbody hstart hstart' fun parts u y hparts halong => ?_
  rcases h.along halong with hlt | huy
  · exact absurd (Or.inr ⟨parts, u, hparts, hlt⟩) hbeyond
  · exact iff_of_false huy.dropBlanks_ne_nil.1 huy.dropBlanks_ne_nil.2

/-- Texts with the same items up to an error and the next one have the same error. -/
theorem parse_of_take_items {limit i : Nat} {source source' : Text} {error : SyntaxError}
    {item : Item} (h : parse limit source = .error error)
    (hnesting : ∀ l, error.cause ≠ .nestingTooDeep l)
    (hstart : ∀ token ∈ (tokenize source).tokens.head?,
      token.kind.isWord Keyword.start.written = false)
    (hitem : (Cursor.start source).items[i]? = some item) (hspan : error.span = item.span)
    (hnext : i + 1 < (Cursor.start source).items.length)
    (hcase : ∀ item ∈ (Cursor.start source).items.take (i + 1), ∀ token ∈ item.token?,
      token.kind.isWord Keyword.case_.written = false)
    (hsame : (Cursor.start source').items.take (i + 2) = (Cursor.start source).items.take (i + 2)) :
    parse limit source' = .error error := by
  obtain ⟨old, new, habreast, hsize⟩ := exists_abreast_of_items (c := .start source)
    (d := .start source') rfl hitem hnext hcase hsame
  obtain ⟨u, hmissed⟩ := missed_of_parse h hnesting
  obtain ⟨place, e, rfl, hof, he⟩ := error_eq_of_parse h hnesting
  have hplace : place.dropBlanks = place := (ahead_of_mem_notes _ _ he).2
  -- the texts are abreast up to the place of the error
  obtain rfl : place = old := by
    have hstarts := hof.start_error hplace
    rw [hspan] at hstarts
    change item.span.start + old.byteSize = 0 + source.byteSize at hsize
    exact Text.eq_of_suffix_of_byteSize hof.suffix habreast.suffix.1 (by omega)
  have hfirst := Text.not_keywordAt_start_of_tokens hstart
  have hquery : (Production.query limit).InStep source source' :=
    inStep_query_of_abreast habreast hfirst (not_beyond_of_missed hfirst hmissed hof.furthest)
  obtain ⟨y, hmissed'⟩ : ∃ y, (Production.query limit).outcome source' = .missed y := by
    have ho := hquery.outcome
    rw [hmissed] at ho
    generalize (Production.query limit).outcome source' = o at ho
    cases ho with
    | missed halong => exact ⟨_, rfl⟩
  have herror : (Furthest.ofNotes source' ((Production.query limit).notes source')).error =
      (Furthest.ofNotes source ((Production.query limit).notes source)).error :=
    (Furthest.InStep.foldl (Or.inl ⟨rfl, rfl⟩) hquery.notes).error_eq habreast hplace hof.cursor
      (List.ne_nil_of_mem ((hof.expected e).2 he))
  rw [parse_eq, hmissed', ← herror]
  exact congrArg Except.error
    (Note.report_of_not_tooDeep fun l v => Tidy.not_tooDeep_of_missed hmissed')

/-- The error is at the second number. After the item that follows it, the one text goes on with a
    name and the other one with a verbatim expression that does not end. -/
theorem parse_of_take_items_refused :
    let source : Text := "RETURN -1 2 § x".toList
    let source' : Text := "RETURN -1 2 § CASE (".toList
    ∃ error, parse 0 source = .error error ∧ error.span = ⟨10, 11⟩ ∧
      (Cursor.start source').items.take 5 = (Cursor.start source).items.take 5 ∧
      parse 0 source' = .error error := by
  intro source source'
  let error : SyntaxError := ⟨.unexpected (["operator", "`AS`", "`,`",
    "end of input"].map String.toList) (.token ['2']), ⟨10, 11⟩⟩
  have h : parse 0 source = .error error := by decide +kernel
  have hitem : (Cursor.start source).items[3]? = some ⟨.token (.number ['2']), ⟨10, 11⟩⟩ := by
    decide +kernel
  have hsame : (Cursor.start source').items.take 5 = (Cursor.start source).items.take 5 := by
    decide +kernel
  exact ⟨error, h, rfl, hsame, parse_of_take_items h nofun (by decide +kernel) hitem rfl
    (by decide +kernel) (by decide +kernel) hsame⟩

end Query

end Cypher
