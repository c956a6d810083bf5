/-
  Giving up — a query is given up only at the furthest place that was reached.

  Alternatives that failed may have got further than the one that is taken in the end. Then
  the next token is one with which nothing can go on there: such an alternative failed after
  that token, and nothing else begins with it. So no parenthesis is opened any more at a
  place before another one where something was expected.

  * `Note.NoneBeyond place notes`: nothing failed beyond the place;
  * `Text.NextNot stuck t`: the next token of `t` is not of the class `stuck`;
  * `Production.Tidy ends p`: where `p` gives up nothing failed further on, and where `p`
    ends neither, as long as `ends` holds there;
  * `tidy_operand` to `tidy_body`: so are the productions of the grammar.
-/
import Cypher.Proofs.Nesting
import Cypher.Proofs.Forking

namespace Cypher

/-! ## No failure beyond a place -/

/-- Nothing failed beyond the place. -/
def Note.NoneBeyond (place : Text) (notes : List Note) : Prop :=
  ∀ n ∈ notes, n.isFailure = true → place.byteSize ≤ n.ahead.byteSize

namespace Note.NoneBeyond

variable {place place' : Text} {notes more : List Note}

theorem mono (h : NoneBeyond place notes) (hle : place'.byteSize ≤ place.byteSize) :
    NoneBeyond place' notes :=
  fun n hn hfailure => Nat.le_trans hle (h n hn hfailure)

theorem append (h : NoneBeyond place notes) (h' : NoneBeyond place more) :
    NoneBeyond place (notes ++ more) :=
  fun n hn => (List.mem_append.1 hn).elim (h n) (h' n)

theorem of_ahead (h : ∀ n ∈ notes, n.ahead = place) : NoneBeyond place notes := by
  intro n hn _
  rw [h n hn]

end Note.NoneBeyond

/-! ## Classes of tokens -/

/-- The next token is not of the class. -/
def Text.NextNot (stuck : TokenKind → Bool) (t : Text) : Prop :=
  ∀ kind u, t.token? = some (kind, u) → stuck kind = false

/-- With this token a call or a property goes on after its name, or a group begins. -/
def TokenKind.goesOnName (kind : TokenKind) : Bool :=
  kind = .symbol .leftParen || kind = .symbol .dot

/-- With this token an expression or a pattern may go on. -/
def TokenKind.goesOnChain (kind : TokenKind) : Bool :=
  kind.goesOnName || (Operator.ofToken? kind).isSome

/-- With this token an item may go on. -/
def TokenKind.goesOnItem (kind : TokenKind) : Bool :=
  kind.goesOnChain || kind.isKeyword .as_

/-- With this token a clause may go on, or another one may begin in vain. -/
def TokenKind.goesOnClause (kind : TokenKind) : Bool :=
  kind.goesOnChain || kind.isKeyword .optional

namespace Text.NextNot

variable {t u : Text} {stuck stuck' : TokenKind → Bool}

theorem mono (h : NextNot stuck t) (hsub : ∀ kind, stuck' kind = true → stuck kind = true) :
    NextNot stuck' t := by
  intro kind u hu
  by_contra hkind
  rw [Bool.not_eq_false] at hkind
  have hstuck := hsub kind hkind
  rw [h kind u hu] at hstuck
  cases hstuck

theorem of_token? {kind : TokenKind} (h : t.token? = some (kind, u)) (hkind : stuck kind = false) :
    NextNot stuck t := by
  intro kind' v hv
  rw [h] at hv
  cases hv
  exact hkind

theorem not_symbol {x : Symbol} (h : NextNot stuck t) (hx : stuck (.symbol x) = true) (u : Text) :
    t.token? ≠ some (.symbol x, u) := by
  intro hu
  rw [h _ u hu] at hx
  cases hx

theorem chain_of_item (h : NextNot TokenKind.goesOnItem t) : NextNot TokenKind.goesOnChain t :=
  h.mono fun kind hkind => by rw [TokenKind.goesOnItem, hkind, Bool.true_or]

theorem chain_of_clause (h : NextNot TokenKind.goesOnClause t) : NextNot TokenKind.goesOnChain t :=
  h.mono fun kind hkind => by rw [TokenKind.goesOnClause, hkind, Bool.true_or]

theorem name_of_chain (h : NextNot TokenKind.goesOnChain t) : NextNot TokenKind.goesOnName t :=
  h.mono fun kind hkind => by rw [TokenKind.goesOnChain, hkind, Bool.true_or]

/-- Where a keyword stands, no expression goes on. -/
theorem chain_of_keywordAt {k : Keyword} (h : Production.KeywordAt k t u) :
    NextNot TokenKind.goesOnChain t := by
  obtain ⟨word, hword, hk⟩ := h
  refine of_token? hword ?_
  simp [TokenKind.goesOnChain, TokenKind.goesOnName, Operator.ofToken?,
    Production.ofWord?_of_keyword hk]

theorem chain_of_matchKindAt {k : MatchKind} (h : Production.MatchKindAt k t u) :
    NextNot TokenKind.goesOnChain t := by
  cases k with
  | required => exact chain_of_keywordAt h
  | optional => obtain ⟨v, hv, -⟩ := h; exact chain_of_keywordAt hv

end Text.NextNot

namespace Production

variable {α β γ : Type}

/-! ## Tidy productions -/

/-- Where `p` gives up, nothing failed further on; and where it ends neither, as long as `ends`
    holds there of the value and of what follows. -/
structure Tidy (ends : α → Text → Prop) (p : Production α) : Prop where
  givenUp : ∀ {t limit ahead}, t.CaseLast → .tooDeep limit ahead ∈ p.notes t →
    Note.NoneBeyond ahead (p.notes t)
  matched : ∀ {t a u}, t.CaseLast → p.outcome t = .matched a u → ends a u →
    Note.NoneBeyond u.dropBlanks (p.notes t)
  leads : ∀ {t a u}, t.CaseLast → p.outcome t = .matched a u → t.Leads u

/-- Nothing ever fails beyond the end of a match. -/
abbrev Clean (p : Production α) : Prop :=
  Tidy (fun _ _ => True) p

namespace Tidy

variable {ends : α → Text → Prop} {ends' : β → Text → Prop} {p : Production α}
  {f : α → Production β} {t u : Text}

theorem mono {stricter : α → Text → Prop} (hp : Tidy ends p)
    (h : ∀ a u, stricter a u → ends a u) : Tidy stricter p :=
  ⟨hp.givenUp, fun ht hu hends => hp.matched ht hu (h _ _ hends), hp.leads⟩

theorem not_tooDeep_of_matched {a : α} {limit : Nat} {ahead : Text}
    (h : p.outcome t = .matched a u) : .tooDeep limit ahead ∉ p.notes t := by
  intro hn
  rw [outcome_eq_gaveUp_iff.2 ⟨limit, ahead, hn⟩] at h
  cases h

theorem not_tooDeep_of_missed {limit : Nat} {ahead : Text}
    (h : p.outcome t = .missed u) : .tooDeep limit ahead ∉ p.notes t := by
  intro hn
  rw [outcome_eq_gaveUp_iff.2 ⟨limit, ahead, hn⟩] at h
  cases h

theorem pure (a : α) : Tidy ends (pure a : Production α) where
  givenUp _ hn := by cases hn
  matched _ _ _ := nofun
  leads _ h := by cases h; exact .refl _

/-- What goes on after `p` begins, gives up or ends well only where `p` ended well. -/
theorem bind (hp : Tidy ends p) (hf : ∀ a, Tidy ends' (f a))
    (hdeep : ∀ {a u limit ahead}, .tooDeep limit ahead ∈ (f a).notes u → ends a u)
    (hends : ∀ {a u b v}, (f a).outcome u = .matched b v → ends' b v → ends a u) :
    Tidy ends' (p >>= f) where
  givenUp {t limit ahead} ht hn := by
    rcases mem_notes_bind.1 hn with hdeep' | ⟨a, u, hu, hdeep'⟩
    · have ho : p.outcome t = .gaveUp := outcome_eq_gaveUp_iff.2 ⟨_, _, hdeep'⟩
      rw [notes_bind, ho, Outcome.onMatch, List.append_nil]
      exact hp.givenUp ht hdeep'
    · have hnone := hp.matched ht hu (hdeep hdeep')
      have hle := Text.byteSize_le_of_suffix (ahead_of_mem_notes (f a) _ hdeep').1
      rw [notes_bind, hu, Outcome.onMatch]
      exact (hnone.mono hle).append ((hf a).givenUp (ht.of_leads (hp.leads ht hu)) hdeep')
  matched {t b v} ht h hb := by
    obtain ⟨a, u, hu, hv⟩ := outcome_bind_eq_matched.1 h
    have hnone := hp.matched ht hu (hends hv hb)
    rw [notes_bind, hu, Outcome.onMatch]
    exact (hnone.mono (byteSize_dropBlanks_le_of_matched hv)).append
      ((hf a).matched (ht.of_leads (hp.leads ht hu)) hv hb)
  leads {t b v} ht h := by
    obtain ⟨a, u, hu, hv⟩ := outcome_bind_eq_matched.1 h
    have htu := hp.leads ht hu
    exact htu.trans ((hf a).leads (ht.of_leads htu) hv)

theorem bind_pure {g : α → β} (hp : Tidy ends p) (hends : ∀ {a u}, ends' (g a) u → ends a u) :
    Tidy ends' (p >>= fun a => Pure.pure (g a)) :=
  hp.bind (fun a => .pure (g a)) nofun fun h hb => by cases h; exact hends hb

theorem map (g : α → β) (hp : Clean p) : Clean (g <$> p) :=
  hp.bind_pure fun _ => trivial

theorem clean_bind (hp : Clean p) (hf : ∀ a, Tidy ends' (f a)) : Tidy ends' (p >>= f) :=
  hp.bind hf (fun _ => trivial) fun _ _ => trivial

theorem attempt (hp : Tidy ends p) : Tidy ends (attempt p) where
  givenUp := hp.givenUp
  matched ht h := hp.matched ht (outcome_attempt_eq_matched.1 h)
  leads ht h := hp.leads ht (outcome_attempt_eq_matched.1 h)

/-- Where `p` is not found, nothing failed beyond that place. -/
theorem maybe {ends : Option α → Text → Prop} (hp : Tidy (fun a => ends (some a)) p)
    (hstays : p.Stays)
    (hmiss : ∀ {t}, t.CaseLast → p.outcome t = .missed t → ends none t →
      Note.NoneBeyond t.dropBlanks (p.notes t)) : Tidy ends (maybe p) where
  givenUp := hp.givenUp
  matched {t o u} ht h ho := by
    rcases outcome_maybe_eq_matched.1 h with ⟨a, rfl, hu⟩ | ⟨rfl, hu⟩
    · exact hp.matched ht hu ho
    · obtain rfl := hstays hu
      exact hmiss ht hu ho
  leads {t o u} ht h := by
    rcases outcome_maybe_eq_matched.1 h with ⟨a, rfl, hu⟩ | ⟨rfl, hu⟩
    · exact hp.leads ht hu
    · rw [hstays hu]
      exact .refl _

theorem optional {ends : Option α → Text → Prop} (hp : Tidy (fun a => ends (some a)) p)
    (hmiss : ∀ {t}, t.CaseLast → p.Misses t → ends none t →
      Note.NoneBeyond t.dropBlanks (p.notes t)) : Tidy ends (optional p) :=
  hp.attempt.maybe (stays_attempt p) fun ht h hnone =>
    hmiss ht (misses_attempt_iff.1 ⟨_, h⟩) hnone

/-- A single reading. -/
theorem of_leaf (hp : IsLeaf p) (htokens : ∀ limit, Tokenwise limit false p) : Clean p where
  givenUp _ hn := absurd (outcome_eq_gaveUp_iff.2 ⟨_, _, hn⟩) (hp.goesOn _)
  matched _ h _ := (Note.NoneBeyond.of_ahead hp.ahead).mono (byteSize_dropBlanks_le_of_matched h)
  leads ht h := ((htokens 0).leads_of_caseLast ht).1 _ h

end Tidy

/-! ## Repetitions -/

/-- Rounds begin or give up only where the round before ended well. -/
theorem bridge_many {p : Production α} {starts ends' : Text → Prop} (hadvances : p.Advances)
    (hdeep : ∀ {t limit ahead}, .tooDeep limit ahead ∈ p.notes t → starts t)
    (hstarts : ∀ {t a u}, p.outcome t = .matched a u → starts t)
    (hsub : ∀ {t}, ends' t → starts t) (t : Text) :
    (∀ {limit ahead}, .tooDeep limit ahead ∈ (many p).notes t → starts t) ∧
      ∀ {as u}, (many p).outcome t = .matched as u → ends' u → starts t := by
  constructor
  · intro limit ahead hn
    rw [notes] at hn
    cases ho : p.outcome t with
    | matched a u => exact hstarts ho
    | missed u =>
      rw [Outcome.repeatedNotes_of_ne_matched (by simp [ho])] at hn
      exact absurd hn (Tidy.not_tooDeep_of_missed ho)
    | gaveUp =>
      rw [Outcome.repeatedNotes_of_ne_matched (by simp [ho])] at hn
      exact hdeep hn
  · intro as u h hu
    cases (outcome_many_eq_matched hadvances).1 h with
    | stop => exact hsub hu
    | step ha _ => exact hstarts ha

theorem Tidy.many {p : Production α} {starts : Text → Prop} {ends' : Text → Prop}
    (hp : Tidy (fun _ => starts) p) (hadvances : p.Advances)
    (hdeep : ∀ {t limit ahead}, .tooDeep limit ahead ∈ p.notes t → starts t)
    (hstarts : ∀ {t a u}, p.outcome t = .matched a u → starts t)
    (hsub : ∀ {t}, ends' t → starts t)
    (hmiss : ∀ {t}, t.CaseLast → p.Misses t → ends' t →
      Note.NoneBeyond t.dropBlanks (p.notes t)) :
    Tidy (fun _ => ends') (Production.many p) := by
  have hbridge : ∀ u, _ := bridge_many hadvances hdeep hstarts hsub
  have hmore : ∀ {t u a}, p.outcome t = .matched a u →
      (Production.many p).notes t = p.notes t ++ (Production.many p).notes u := fun h =>
    Outcome.repeatedNotes_of_matched h (hadvances h)
  have hlast : ∀ {t}, (∀ a u, p.outcome t ≠ .matched a u) →
      (Production.many p).notes t = p.notes t := Outcome.repeatedNotes_of_ne_matched
  refine ⟨fun {t limit ahead} ht hn => ?_, fun {t as u} ht h hu => ?_, fun {t as u} ht h => ?_⟩
  · -- the round that gives up comes last, and each round before it ended well
    induction hlength : t.length using Nat.strongRecOn generalizing t with
    | ind n ih =>
      cases ho : p.outcome t with
      | matched a u =>
        rw [hmore ho] at hn ⊢
        rcases List.mem_append.1 hn with hn | hn
        · exact absurd hn (not_tooDeep_of_matched ho)
        · have hle := Text.byteSize_le_of_suffix (ahead_of_mem_notes (Production.many p) _ hn).1
          have hround := (hp.matched ht ho ((hbridge u).1 hn)).mono hle
          exact hround.append (ih _ (hlength ▸ hadvances ho) (ht.of_leads (hp.leads ht ho)) hn rfl)
      | missed u =>
        rw [hlast (by simp [ho])] at hn
        exact absurd hn (not_tooDeep_of_missed ho)
      | gaveUp =>
        rw [hlast (by simp [ho])] at hn ⊢
        exact hp.givenUp ht hn
  · have hrepeats := (outcome_many_eq_matched hadvances).1 h
    clear h
    induction hrepeats with
    | stop hstop =>
      have hno : ∀ a u, p.outcome _ ≠ .matched a u := fun a u ha => by
        obtain ⟨v, hv⟩ := hstop
        rw [ha] at hv
        cases hv
      rw [hlast hno]
      exact hmiss ht hstop hu
    | @step t v rest a as ha hrest ih =>
      rw [hmore ha]
      have hv := (hbridge v).2 ((outcome_many_eq_matched hadvances).2 hrest) hu
      have hle := Text.byteSize_le_of_suffix (Text.dropBlanks_suffix_of_suffix hrest.suffix)
      exact ((hp.matched ht ha hv).mono hle).append (ih (ht.of_leads (hp.leads ht ha)) hu)
  · have hrepeats := (outcome_many_eq_matched hadvances).1 h
    clear h
    induction hrepeats with
    | stop _ => exact .refl _
    | step ha _ ih =>
      have htu := hp.leads ht ha
      exact htu.trans (ih (ht.of_leads htu))

/-- Items with separators between them. Where a separator stands, the item before it ended
    well. -/
theorem Tidy.separated {separator : Production β} {item : Production α}
    {starts ends : Text → Prop} (hleaf : IsLeaf separator)
    (hseparator : ∀ limit, Tokenwise limit false separator) (hadvances : separator.Advances)
    (hitem : Tidy (fun _ => starts) item)
    (hmiss : ∀ {t}, t.CaseLast → item.Misses t → starts t →
      Note.NoneBeyond t.dropBlanks (item.notes t))
    (hstarts : ∀ {t b u}, separator.outcome t = .matched b u → starts t)
    (hsub : ∀ {t}, ends t → starts t)
    (hlast : ∀ {t b u}, separator.outcome t = .matched b u → item.Misses u → ¬ends t) :
    Tidy (fun _ => ends) (separated separator item) := by
  have hlink : Tidy (fun _ => starts) (link separator item) :=
    (of_leaf hleaf hseparator).clean_bind fun _ => hitem.bind_pure fun h => h
  have hdeep : ∀ {t limit ahead}, .tooDeep limit ahead ∈ (link separator item).notes t →
      starts t := by
    intro t limit ahead hn
    rcases mem_notes_bind.1 hn with hn | ⟨b, u, hu, -⟩
    · exact absurd (outcome_eq_gaveUp_iff.2 ⟨_, _, hn⟩) (hleaf.goesOn t)
    · exact hstarts hu
  have hmatched : ∀ {t a u}, (link separator item).outcome t = .matched a u → starts t := by
    intro t a u h
    obtain ⟨v, hv, -⟩ := outcome_link_eq_matched.1 h
    exact hstarts hv
  have hlinks : Tidy (fun _ => ends) (Production.many (link separator item)) := by
    refine hlink.many (advances_link hadvances item) hdeep hmatched hsub
      fun {t} _ hmisses hends => ?_
    obtain ⟨v, hv⟩ := hmisses
    rcases outcome_bind_eq_missed.1 hv with hv | ⟨b, u, hu, hv⟩
    · rw [link, notes_bind, hv, Outcome.onMatch, List.append_nil]
      exact .of_ahead hleaf.ahead
    · rcases outcome_bind_eq_missed.1 hv with hv | ⟨a, w, -, hv⟩
      · exact absurd hends (hlast hu ⟨v, hv⟩)
      · cases hv
  have hbridge : ∀ u, _ := bridge_many (advances_link hadvances item) hdeep hmatched hsub
  have hhead : Tidy (fun (_ : Option α) => starts) (Production.optional item) :=
    hitem.optional hmiss
  refine hhead.bind (fun head => ?_) (fun {head u limit ahead} hn => ?_)
    (fun {head u x v} h hends => ?_)
  · cases head with
    | none => exact .pure _
    | some head => exact hlinks.bind_pure fun h => h
  · cases head with
    | none => cases hn
    | some head =>
      rcases mem_notes_bind.1 hn with hn | ⟨tail, w, -, hn⟩
      · exact (hbridge u).1 hn
      · cases hn
  · cases head with
    | none => cases h; exact hsub hends
    | some head =>
      obtain ⟨tail, w, htail, h⟩ := outcome_bind_eq_matched.1 h
      cases h
      exact (hbridge u).2 htail hends

/-- Only the value changes at the end. -/
theorem Tidy.bind_value {p : Production α} {f : α → Production β} {g : α → β}
    {ends : Text → Prop} (hp : Tidy (fun _ => ends) p) (hf : ∀ a, f a = Pure.pure (g a)) :
    Tidy (fun _ => ends) (p >>= f) := by
  obtain rfl : f = fun a => Pure.pure (g a) := funext hf
  exact hp.bind_pure fun h => h

theorem tidy_chain {item : Production α}
    (hitem : Tidy (fun _ => Text.NextNot TokenKind.goesOnName) item)
    (hmiss : ∀ {t}, t.CaseLast → item.Misses t → t.NextNot TokenKind.goesOnName →
      Note.NoneBeyond t.dropBlanks (item.notes t)) :
    Tidy (fun _ => Text.NextNot TokenKind.goesOnChain) (chain item) := by
  have hoperator : ∀ {t : Text} {o u}, operator.outcome t = .matched o u →
      t.NextNot TokenKind.goesOnName ∧ ¬t.NextNot TokenKind.goesOnChain := by
    intro t o u h
    obtain ⟨kind, hkind, ho⟩ := outcome_operator_eq_matched.1 h
    constructor
    · refine .of_token? hkind ?_
      by_contra hname
      rw [Bool.not_eq_false, TokenKind.goesOnName, Bool.or_eq_true, decide_eq_true_eq,
        decide_eq_true_eq] at hname
      rcases hname with rfl | rfl <;> cases ho
    · intro hnot
      have hgoes := hnot kind u hkind
      rw [TokenKind.goesOnChain, ho, Option.isSome_some, Bool.or_true] at hgoes
      cases hgoes
  refine Tidy.bind_value (g := fun x => x.elim .empty fun parts => .cons parts.1 parts.2)
    (Tidy.separated (isLeaf_token _ _) (fun _ => .operator) advances_operator hitem hmiss
      (fun h => (hoperator h).1) (fun h => h.name_of_chain) fun h _ => (hoperator h).2) fun x => ?_
  cases x <;> rfl

theorem outcome_commaList_ne_missed {isBlank : α → Bool} {item : Production α} {t u : Text} :
    (commaList isBlank item).outcome t ≠ .missed u := by
  intro h
  rcases outcome_bind_eq_missed.1 h with h | ⟨x, v, -, h⟩
  · exact outcome_separated_ne_missed h
  · cases x <;> cases h

theorem tidy_commaList {isBlank : α → Bool} {item : Production α} {ends : Text → Prop}
    (hitem : Tidy (fun _ => ends) item) (hnever : ∀ t, ¬item.Misses t)
    (hcomma : ∀ {t u}, t.token? = some (.symbol .comma, u) → ends t) :
    Tidy (fun _ => ends) (commaList isBlank item) := by
  refine Tidy.bind_value (g := fun x => x.elim [] fun parts =>
      dropLoneBlank isBlank (parts.1 :: parts.2.map Prod.snd))
    (Tidy.separated (isLeaf_token _ _) (fun _ => .symbol (by simp)) (advances_symbol _) hitem
      (fun _ h _ => absurd h (hnever _)) (fun h => hcomma (outcome_symbol_eq_matched.1 h))
      (fun h => h) fun _ h _ => hnever _ h) fun x => ?_
  cases x <;> rfl

/-! ## Patterns -/

theorem clean_symbol {x : Symbol} (hx : x ≠ .minus) : Clean (symbol x) :=
  .of_leaf (isLeaf_token _ _) fun _ => .symbol hx

theorem clean_keyword (k : Keyword) : Clean (keyword k) :=
  .of_leaf (isLeaf_token _ _) fun _ => .keyword k

theorem clean_identifier : Clean identifier :=
  .of_leaf (isLeaf_token _ _) fun _ => .identifier

theorem isLeaf_orElse {p q : Production α} (hp : IsLeaf p) (hq : IsLeaf q) : IsLeaf (p <|> q) where
  stays := stays_orElse hp.stays hq.stays
  tokens h := by
    rcases (matched_orElse_iff hp.stays).1 h with h | ⟨-, h⟩
    exacts [hp.tokens h, hq.tokens h]
  goesOn t h := by
    obtain ⟨l, ahead, hn⟩ := outcome_eq_gaveUp_iff.1 h
    rcases mem_notes_orElse.1 hn with hn | ⟨u, -, hn⟩
    · exact hp.goesOn _ (outcome_eq_gaveUp_iff.2 ⟨_, _, hn⟩)
    · exact hq.goesOn _ (outcome_eq_gaveUp_iff.2 ⟨_, _, hn⟩)
  ahead n hn := by
    rcases mem_notes_orElse.1 hn with hn | ⟨u, hu, hn⟩
    · exact hp.ahead n hn
    · rw [hq.ahead n hn, hp.stays hu]

theorem isLeaf_map {p : Production α} (hp : IsLeaf p) (g : α → β) : IsLeaf (g <$> p) where
  stays := stays_map hp.stays g
  tokens h := by
    obtain ⟨a, ha, -⟩ := outcome_map_eq_matched.1 h
    exact hp.tokens ha
  goesOn t h := by
    obtain ⟨l, ahead, hn⟩ := outcome_eq_gaveUp_iff.1 h
    rw [notes_map] at hn
    exact hp.goesOn t (outcome_eq_gaveUp_iff.2 ⟨_, _, hn⟩)
  ahead n hn := by
    rw [notes_map] at hn
    exact hp.ahead n hn

theorem isLeaf_nameOrQuoted : IsLeaf nameOrQuoted :=
  isLeaf_orElse (isLeaf_token _ _) (isLeaf_token _ _)

theorem clean_nameOrQuoted : Clean nameOrQuoted :=
  .of_leaf isLeaf_nameOrQuoted fun _ => .nameOrQuoted

/-- What stands before a closing bracket ended well. -/
theorem clean_closed {p : Production α} {x : Symbol} {g : α → β}
    (hp : Tidy (fun _ => Text.NextNot TokenKind.goesOnChain) p) (hx : x ≠ .minus)
    (hcloses : TokenKind.goesOnChain (.symbol x) = false) :
    Clean (p >>= fun a => symbol x >>= fun _ => pure (g a)) := by
  refine hp.bind (fun a => (clean_symbol hx).clean_bind fun _ => .pure _) (fun {a u l v} hn => ?_)
    fun h _ => ?_
  · rcases mem_notes_bind.1 hn with hn | ⟨b, u, -, hn⟩
    · cases (mem_notes_token.1 hn).1
    · cases hn
  · obtain ⟨_, w, hw, -⟩ := outcome_bind_eq_matched.1 h
    exact .of_token? (outcome_symbol_eq_matched.1 hw) hcloses

theorem clean_labelled {left right : Symbol} (hl : left ≠ .minus) (hr : right ≠ .minus)
    (hcloses : TokenKind.goesOnChain (.symbol right) = false) (make : Text → Option Labels → α) :
    Clean (Production.attempt do
      Production.symbol left
      let name ← Production.identifier
      let labels ← Production.maybe labels
      Production.symbol right
      return make name labels) := by
  have hlabels : Tidy (fun _ => Text.NextNot TokenKind.goesOnChain) labels :=
    (clean_symbol (by simp)).clean_bind fun _ =>
      tidy_chain (clean_nameOrQuoted.mono fun _ _ _ => trivial) fun _ _ _ =>
        .of_ahead isLeaf_nameOrQuoted.ahead
  have hmissed : ∀ {t u}, labels.outcome t = .missed u →
      u = t ∧ labels.notes t = [.expected (.symbol .colon) t.dropBlanks] := by
    intro t u h
    rcases outcome_bind_eq_missed.1 h with hcolon | ⟨_, v, -, h⟩
    · refine ⟨stays_token _ _ hcolon, ?_⟩
      rw [labels, notes_bind, hcolon, symbol, notes_token_of_misses ⟨u, hcolon⟩]
      rfl
    · exact absurd h outcome_chain_ne_missed
  have hmaybe : Tidy (fun _ => Text.NextNot TokenKind.goesOnChain) (maybe labels) :=
    hlabels.maybe (fun h => (hmissed h).1) fun _ h _ => by
      rw [(hmissed h).2]
      exact .of_ahead (by simp [Note.ahead])
  exact ((clean_symbol hl).clean_bind fun _ => clean_identifier.clean_bind fun _ =>
    clean_closed hmaybe hr hcloses).attempt

theorem clean_node : Clean node :=
  clean_labelled (by simp) (by simp) rfl _

theorem clean_step : Clean step := by
  have hleft : Clean leftMark := .of_leaf isLeaf_mark fun _ => .leftMark
  have hright : Clean rightMark := .of_leaf isLeaf_mark fun _ => .rightMark
  have hedge : Clean edge := (hleft.clean_bind fun _ =>
    (clean_labelled (by simp) (by simp) rfl _).clean_bind fun _ =>
      hright.clean_bind fun _ => .pure _).attempt
  exact hedge.clean_bind fun _ => clean_node.clean_bind fun _ => .pure _

/-! ## Misses at once -/

/-- `p` is not found, and nothing failed beyond the place where it was looked for. -/
def MissesAtOnce (p : Production α) (t : Text) : Prop :=
  p.outcome t = .missed t ∧ Note.NoneBeyond t.dropBlanks (p.notes t)

theorem missesAtOnce_of_leaf {p : Production α} {t : Text} (hp : IsLeaf p)
    (h : ∀ a u, p.outcome t ≠ .matched a u) : p.MissesAtOnce t :=
  ⟨hp.missed_of_not_matched h, .of_ahead hp.ahead⟩

theorem missesAtOnce_symbol {t : Text} {x : Symbol} (h : ∀ u, t.token? ≠ some (.symbol x, u)) :
    (symbol x).MissesAtOnce t :=
  missesAtOnce_of_leaf (isLeaf_token _ _) fun _ u hu => h u (outcome_symbol_eq_matched.1 hu)

namespace MissesAtOnce

variable {p q : Production α} {t : Text}

theorem bind (h : p.MissesAtOnce t) (f : α → Production β) : (p >>= f).MissesAtOnce t := by
  refine ⟨outcome_bind_eq_missed.2 (Or.inl h.1), ?_⟩
  rw [notes_bind, h.1, Outcome.onMatch, List.append_nil]
  exact h.2

theorem attempt (h : p.MissesAtOnce t) : (attempt p).MissesAtOnce t :=
  ⟨outcome_attempt_eq_missed.2 ⟨rfl, t, h.1⟩, h.2⟩

theorem orElse (hp : p.MissesAtOnce t) (hq : q.MissesAtOnce t) : (p <|> q).MissesAtOnce t := by
  refine ⟨outcome_orElse_eq_missed.2 ⟨t, hp.1, hq.1⟩, ?_⟩
  rw [notes_orElse, hp.1, Outcome.onMiss]
  exact hp.2.append hq.2

end MissesAtOnce

theorem missesAtOnce_node {t : Text} (h : t.NextNot TokenKind.goesOnChain) :
    node.MissesAtOnce t :=
  ((missesAtOnce_symbol (h.not_symbol rfl)).bind _).attempt

/-- Where no sign stands, no step begins. -/
theorem missesAtOnce_step {t : Text} (h : t.NextNot TokenKind.goesOnChain) :
    step.MissesAtOnce t := by
  have hmark : leftMark.MissesAtOnce t := by
    refine missesAtOnce_of_leaf isLeaf_mark fun m u hu => ?_
    rcases outcome_leftMark_eq_matched.1 hu with ⟨-, v, hv, -⟩ | ⟨-, hu⟩
    · exact h.not_symbol rfl v hv
    · exact h.not_symbol rfl u hu
  exact ((hmark.bind _).attempt).bind _

theorem path_ne_missed (t : Text) : ¬path.Misses t := by
  rintro ⟨u, hu⟩
  rcases outcome_bind_eq_missed.1 hu with hu | ⟨start, v, -, hu⟩
  · exact outcome_maybe_ne_missed hu
  · cases start with
    | none => cases hu
    | some start =>
      rcases outcome_bind_eq_missed.1 hu with hu | ⟨steps, w, -, hu⟩
      · exact outcome_many_ne_missed hu
      · cases hu

theorem tidy_path : Tidy (fun _ => Text.NextNot TokenKind.goesOnChain) path := by
  have hnode : Tidy (fun (start : Option Node) u => start = none → u.NextNot TokenKind.goesOnChain)
      (maybe node) :=
    (clean_node.mono fun _ _ _ => trivial).maybe (stays_attempt _) fun _ _ h =>
      (missesAtOnce_node (h rfl)).2
  have hsteps : Tidy (fun _ => Text.NextNot TokenKind.goesOnChain) (many step) :=
    clean_step.many advances_step (fun _ => trivial) (fun _ => trivial) (fun _ => trivial)
      fun _ _ h => (missesAtOnce_step h).2
  refine hnode.bind (fun start => ?_) (fun {start u l v} hn hnone => ?_)
    fun {start u b v} h hends hnone => ?_
  · cases start with
    | none => exact .pure _
    | some start => exact hsteps.bind_pure fun h => h
  · subst hnone
    cases hn
  · subst hnone
    cases h
    exact hends

theorem tidy_paths : Tidy (fun _ => Text.NextNot TokenKind.goesOnChain) paths :=
  tidy_commaList tidy_path path_ne_missed fun h => .of_token? h rfl

/-! ## Operands -/

/-- Where a word stands, `p` reads that word before it gives up or ends. -/
structure PassesWord (p : Production α) : Prop where
  givenUp : ∀ {t name u limit ahead}, t.token? = some (.identifier name, u) →
    .tooDeep limit ahead ∈ p.notes t → ahead.byteSize ≤ u.dropBlanks.byteSize
  matched : ∀ {t name u a w}, t.token? = some (.identifier name, u) →
    p.outcome t = .matched a w → w.dropBlanks.byteSize ≤ u.dropBlanks.byteSize

namespace PassesWord

variable {p q : Production α}

theorem token (e : Expectation) (accept : TokenKind → Option α) :
    (Production.token e accept).PassesWord where
  givenUp _ hn := by cases (mem_notes_token.1 hn).1
  matched h hw := by
    obtain ⟨kind, hkind, -⟩ := outcome_token_eq_matched.1 hw
    rw [h] at hkind
    cases hkind
    exact Nat.le_refl _

theorem bind (hp : p.PassesWord) (f : α → Production β) : (p >>= f).PassesWord where
  givenUp h hn := by
    rcases mem_notes_bind.1 hn with hn | ⟨a, v, hv, hn⟩
    · exact hp.givenUp h hn
    · have hle := Text.byteSize_le_of_suffix (ahead_of_mem_notes (f a) _ hn).1
      exact Nat.le_trans hle (hp.matched h hv)
  matched h hw := by
    obtain ⟨a, v, hv, hw⟩ := outcome_bind_eq_matched.1 hw
    exact Nat.le_trans (byteSize_dropBlanks_le_of_matched hw) (hp.matched h hv)

theorem attempt (hp : p.PassesWord) : (attempt p).PassesWord where
  givenUp := hp.givenUp
  matched h hw := hp.matched h (outcome_attempt_eq_matched.1 hw)

theorem orElse (hp : p.PassesWord) (hstays : p.Stays) (hq : q.PassesWord) :
    (p <|> q).PassesWord where
  givenUp h hn := by
    rcases mem_notes_orElse.1 hn with hn | ⟨v, hv, hn⟩
    · exact hp.givenUp h hn
    · rw [hstays hv] at hn
      exact hq.givenUp h hn
  matched h hw := by
    rcases (matched_orElse_iff hstays).1 hw with hw | ⟨-, hw⟩
    exacts [hp.matched h hw, hq.matched h hw]

/-- Items with operators between them, if a word is always an item. -/
theorem chain (hp : p.PassesWord)
    (hfound : ∀ {t name u}, t.token? = some (.identifier name, u) → ¬p.Misses t) :
    (chain p).PassesWord := by
  have hoptional : (Production.optional p).PassesWord := by
    refine ⟨hp.givenUp, fun h hw => ?_⟩
    rcases outcome_optional_eq_matched.1 hw with ⟨a, -, hw⟩ | ⟨-, -, hmiss⟩
    · exact hp.matched h hw
    · exact absurd hmiss (hfound h)
  exact (hoptional.bind _).bind _

end PassesWord

/-- The place of the next token, or the place after it if that is a word. -/
def AtWord (t place : Text) : Prop :=
  place = t.dropBlanks ∨ ∃ name u, t.token? = some (.identifier name, u) ∧ place = u.dropBlanks

theorem noneBeyond_of_atWord {t place : Text} {notes : List Note}
    (h : ∀ n ∈ notes, n.isFailure = true → AtWord t n.ahead)
    (hle : place.byteSize ≤ t.dropBlanks.byteSize)
    (hword : ∀ {name u}, t.token? = some (.identifier name, u) →
      place.byteSize ≤ u.dropBlanks.byteSize) : Note.NoneBeyond place notes := by
  intro n hn hfailure
  rcases h n hn hfailure with heq | ⟨name, u, hu, heq⟩ <;> rw [heq]
  · exact hle
  · exact hword hu

/-- Of two alternatives, the first one looks no further than the next word, or else the second
    one does not go on there. -/
theorem Tidy.orElse {ends : α → Text → Prop} {p q : Production α} (hp : Tidy ends p)
    (hstays : p.Stays) (hq : Tidy ends q) (hword : q.PassesWord)
    (hmiss : ∀ {t}, t.CaseLast → p.Misses t → (∀ n ∈ p.notes t, AtWord t n.ahead) ∨
      q.Misses t ∨ ∃ a u, q.outcome t = .matched a u ∧ ¬ends a u) : Tidy ends (p <|> q) where
  givenUp {t limit ahead} ht hn := by
    rcases mem_notes_orElse.1 hn with hdeep | ⟨u, hu, hdeep⟩
    · have ho : p.outcome t = .gaveUp := outcome_eq_gaveUp_iff.2 ⟨_, _, hdeep⟩
      rw [notes_orElse, ho, Outcome.onMiss, List.append_nil]
      exact hp.givenUp ht hdeep
    · obtain rfl := hstays hu
      rw [notes_orElse, hu, Outcome.onMiss]
      refine Note.NoneBeyond.append ?_ (hq.givenUp ht hdeep)
      rcases hmiss ht ⟨u, hu⟩ with hnear | ⟨v, hv⟩ | ⟨a, v, hv, -⟩
      · have hle := Text.byteSize_le_of_suffix (ahead_of_mem_notes q _ hdeep).1
        exact noneBeyond_of_atWord (fun n hn _ => hnear n hn) hle fun hname =>
          hword.givenUp hname hdeep
      · exact absurd hdeep (not_tooDeep_of_missed hv)
      · exact absurd hdeep (not_tooDeep_of_matched hv)
  matched {t a u} ht h hends := by
    rcases (matched_orElse_iff hstays).1 h with h | ⟨⟨v, hv⟩, h⟩
    · rw [notes_orElse, h, Outcome.onMiss, List.append_nil]
      exact hp.matched ht h hends
    · obtain rfl := hstays hv
      rw [notes_orElse, hv, Outcome.onMiss]
      refine Note.NoneBeyond.append ?_ (hq.matched ht h hends)
      rcases hmiss ht ⟨v, hv⟩ with hnear | ⟨w, hw⟩ | ⟨b, w, hw, hnot⟩
      · exact noneBeyond_of_atWord (fun n hn _ => hnear n hn) (byteSize_dropBlanks_le_of_matched h)
          fun hname => hword.matched hname h
      · rw [h] at hw
        cases hw
      · rw [h] at hw
        cases hw
        exact absurd hends hnot
  leads ht h := by
    rcases (matched_orElse_iff hstays).1 h with h | ⟨-, h⟩
    exacts [hp.leads ht h, hq.leads ht h]

/-- A symbol that is looked for is noted, or it stands there. -/
theorem ahead_or_symbol {x : Symbol} {f : Unit → Production α} {t : Text} {n : Note}
    (h : n ∈ (symbol x >>= f).notes t) :
    n.ahead = t.dropBlanks ∨ ∃ u, t.token? = some (.symbol x, u) := by
  rcases mem_notes_bind.1 h with h | ⟨_, u, hu, -⟩
  · exact Or.inl ((isLeaf_token _ _).ahead n h)
  · exact Or.inr ⟨u, outcome_symbol_eq_matched.1 hu⟩

/-- A name and a symbol after it. -/
theorem atWord_or_symbol {x : Symbol} {f : Text → Unit → Production α} {t : Text} {n : Note}
    (h : n ∈ (identifier >>= fun name => symbol x >>= f name).notes t) :
    AtWord t n.ahead ∨ ∃ name u v, t.token? = some (.identifier name, u) ∧
      u.token? = some (.symbol x, v) := by
  rcases mem_notes_bind.1 h with h | ⟨name, u, hu, h⟩
  · exact Or.inl (Or.inl ((isLeaf_token _ _).ahead n h))
  · rw [outcome_identifier_eq_matched] at hu
    rcases ahead_or_symbol h with h | ⟨v, hv⟩
    · exact Or.inl (Or.inr ⟨name, u, hu, h⟩)
    · exact Or.inr ⟨name, u, v, hu, hv⟩

theorem atWord_caseExpression {t : Text} {n : Note} (ht : t.CaseLast)
    (h : n ∈ caseExpression.notes t) : AtWord t n.ahead := by
  rcases mem_notes_bind.1 h with h | ⟨word, u, hu, h⟩
  · exact Or.inl ((isLeaf_token _ _).ahead n h)
  · have hcase := matched_keyword_iff.1 ⟨word, hu⟩
    obtain rfl := ht t (.refl t) u hcase
    refine Or.inr ⟨word, [], (outcome_keyword_eq_matched.1 hu).1, ?_⟩
    rcases mem_notes_bind.1 h with h | ⟨text, v, hv, -⟩
    · rw [(mem_notes_caseRest.1 h).1]
      rfl
    · cases hv

theorem clean_caseExpression : Clean caseExpression := by
  have hno : ∀ {t o u}, t.CaseLast → caseExpression.outcome t ≠ .matched o u := by
    intro t o u ht h
    obtain ⟨v, -, hv⟩ := caseExpression_of_caseLast ht
    rw [h] at hv
    cases hv
  refine ⟨fun ht hn => ?_, fun ht h => absurd h (hno ht), fun ht h => absurd h (hno ht)⟩
  obtain ⟨v, -, hv⟩ := caseExpression_of_caseLast ht
  exact absurd hn (Tidy.not_tooDeep_of_missed hv)

theorem isLeaf_plain : IsLeaf plain :=
  isLeaf_orElse (isLeaf_map (isLeaf_token _ _) _) <|
    isLeaf_orElse (isLeaf_map (isLeaf_token _ _) _) <|
      isLeaf_orElse (isLeaf_map (isLeaf_token _ _) _) <|
        isLeaf_orElse (isLeaf_map isLeaf_number _) (isLeaf_map (isLeaf_token _ _) _)

theorem clean_plain : Clean plain :=
  .of_leaf isLeaf_plain fun _ => (Tokenwise.literal.map _).orElse <|
    (Tokenwise.identifier.map _).orElse <| (Tokenwise.quotedString.map _).orElse <|
      (Tokenwise.number.map _).orElse <| (Tokenwise.symbol (by simp)).map _

theorem passesWord_plain : plain.PassesWord where
  givenUp _ hn := absurd (outcome_eq_gaveUp_iff.2 ⟨_, _, hn⟩) (isLeaf_plain.goesOn _)
  matched h hw := by
    rw [(plain_of_word h).1] at hw
    cases hw
    exact Nat.le_refl _

section

variable {limit : Nat} {inside : Option (Unit → Production Expression)}

theorem clean_nested {body : Production Expression → Production α}
    (h : ∀ inner, inside = some inner → Clean (body (inner ()))) :
    Clean (nested limit inside body) := by
  cases inside with
  | none =>
    refine ⟨fun _ hn => ?_, nofun, nofun⟩
    cases List.mem_singleton.1 hn
    exact .of_ahead fun n hn => by rw [List.mem_singleton.1 hn]; rfl
  | some inner => exact h inner rfl

theorem clean_call (h : ∀ inner, inside = some inner →
    Tidy (fun _ => Text.NextNot TokenKind.goesOnChain) (inner ())) : Clean (call limit inside) :=
  clean_identifier.clean_bind fun _ => (clean_symbol (by simp)).clean_bind fun _ =>
    clean_nested fun inner hinner =>
      ((clean_keyword _).maybe (stays_keyword _) fun _ _ _ =>
        .of_ahead (isLeaf_token _ _).ahead).clean_bind fun _ =>
          clean_closed (h inner hinner) (by simp) rfl

theorem clean_group (h : ∀ inner, inside = some inner →
    Tidy (fun _ => Text.NextNot TokenKind.goesOnChain) (inner ())) : Clean (group limit inside) :=
  (clean_symbol (by simp)).clean_bind fun _ => clean_nested fun inner hinner =>
    clean_closed (h inner hinner) (by simp) rfl

theorem clean_property : Clean property :=
  clean_identifier.clean_bind fun _ => (clean_symbol (by simp)).clean_bind fun _ =>
    clean_nameOrQuoted.clean_bind fun _ => .pure _

theorem misses_plain_of_leftParen {t u : Text} (h : t.token? = some (.symbol .leftParen, u)) :
    plain.Misses t := by
  have hkind : ∀ kind v, t.token? = some (kind, v) → kind = .symbol .leftParen := by
    intro kind v hv
    rw [h] at hv
    cases hv
    rfl
  have hnumber : number.Misses t := misses_number_of fun kind v hv => by
    rw [hkind kind v hv]
    exact ⟨by simp, rfl⟩
  rw [plain, misses_orElse_iff (stays_map stays_literal _),
    misses_orElse_iff (stays_map stays_identifier _),
    misses_orElse_iff (stays_map stays_quotedString _),
    misses_orElse_iff (stays_map stays_number _)]
  simp only [misses_map_iff]
  refine ⟨?_, ?_, ?_, hnumber, ?_⟩
  all_goals exact misses_token_of fun kind v hv => by rw [hkind kind v hv]; rfl

theorem passesWord_operand : (operand limit inside).PassesWord :=
  ((PassesWord.token _ _).bind _).attempt.orElse (stays_attempt _) <|
    ((PassesWord.token _ _).bind _).attempt.orElse (stays_attempt _) <|
      ((PassesWord.token _ _).bind _).attempt.orElse (stays_attempt _) <|
        ((PassesWord.token _ _).bind _).attempt.orElse (stays_attempt _) passesWord_plain

/-- An alternative that failed further on did so after a parenthesis or a dot. That stands
    after what is read in its place, or nothing is. -/
theorem tidy_operand (h : ∀ inner, inside = some inner →
    Tidy (fun _ => Text.NextNot TokenKind.goesOnChain) (inner ())) :
    Tidy (fun _ => Text.NextNot TokenKind.goesOnName) (operand limit inside) := by
  have hloose : ∀ {p : Production Operand}, Clean p →
      Tidy (fun _ => Text.NextNot TokenKind.goesOnName) (Production.attempt p) :=
    fun hp => hp.attempt.mono fun _ _ _ => trivial
  have hplain : Tidy (fun _ => Text.NextNot TokenKind.goesOnName) plain :=
    clean_plain.mono fun _ _ _ => trivial
  have hproperty := (hloose clean_property).orElse (stays_attempt _) hplain passesWord_plain
    fun {t} _ _ => by
      by_cases hdot : ∃ name u v, t.token? = some (.identifier name, u) ∧
          u.token? = some (.symbol .dot, v)
      · obtain ⟨name, u, v, hu, hv⟩ := hdot
        exact Or.inr (Or.inr ⟨_, u, (plain_of_word hu).1, fun hnot => hnot.not_symbol rfl v hv⟩)
      · exact Or.inl fun n hn => (atWord_or_symbol hn).resolve_right hdot
  have hwordProperty := ((PassesWord.token _ _).bind _).attempt.orElse (stays_attempt property)
    passesWord_plain
  have hclean : Clean (group limit inside) := clean_group h
  have hgroup := (hloose hclean).orElse (stays_attempt _) hproperty hwordProperty
    fun {t} _ _ => by
      by_cases hparen : ∃ u, t.token? = some (.symbol .leftParen, u)
      · obtain ⟨u, hu⟩ := hparen
        refine Or.inr (Or.inl ((misses_orElse_iff (stays_attempt _)).2
          ⟨misses_attempt_iff.2 (misses_property_of fun name v hv => ?_),
            misses_plain_of_leftParen hu⟩))
        rw [hu] at hv
        cases hv
      · exact Or.inl fun n hn => Or.inl ((ahead_or_symbol hn).resolve_right hparen)
  have hwordGroup := ((PassesWord.token _ _).bind _).attempt.orElse
    (stays_attempt (group limit inside)) hwordProperty
  have hcase := (hloose clean_caseExpression).orElse (stays_attempt _) hgroup hwordGroup
    fun ht _ => Or.inl fun n hn => atWord_caseExpression ht hn
  have hwordCase := ((PassesWord.token _ _).bind _).attempt.orElse (stays_attempt caseExpression)
    hwordGroup
  refine (hloose (clean_call h)).orElse (stays_attempt _) hcase hwordCase fun {t} ht _ => ?_
  by_cases hparen : ∃ name u v, t.token? = some (.identifier name, u) ∧
      u.token? = some (.symbol .leftParen, v)
  · obtain ⟨name, u, v, hu, hv⟩ := hparen
    have hcaseMiss : caseExpression.Misses t := by
      obtain ⟨w, -, hw⟩ := caseExpression_of_caseLast ht
      exact ⟨w, hw⟩
    have hgroupMiss : (group limit inside).Misses t := misses_group_of fun w hw => by
      rw [hu] at hw
      cases hw
    have hpropertyMiss : property.Misses t := misses_property_of fun name' u' hu' w hw => by
      rw [hu] at hu'
      cases hu'
      rw [hv] at hw
      cases hw
    refine Or.inr (Or.inr ⟨ofWord name, u, ?_, fun hnot => hnot.not_symbol rfl v hv⟩)
    rw [matched_orElse_iff (stays_attempt _), misses_attempt_iff,
      matched_orElse_iff (stays_attempt _), misses_attempt_iff,
      matched_orElse_iff (stays_attempt _), misses_attempt_iff]
    exact Or.inr ⟨hcaseMiss, Or.inr ⟨hgroupMiss, Or.inr ⟨hpropertyMiss, (plain_of_word hu).1⟩⟩⟩
  · exact Or.inl fun n hn => (atWord_or_symbol hn).resolve_right hparen

/-- Where no operand begins, none fails further on either. -/
theorem missesAtOnce_operand {t : Text} (h : (operand limit inside).Misses t)
    (hends : t.NextNot TokenKind.goesOnName) : (operand limit inside).MissesAtOnce t := by
  have hname : identifier.MissesAtOnce t := missesAtOnce_of_leaf (isLeaf_token _ _)
    fun name u hu => not_misses_operand_of_identifier (outcome_identifier_eq_matched.1 hu) h
  have hcase : (keyword .case_).MissesAtOnce t := missesAtOnce_of_leaf (isLeaf_token _ _)
    fun word u hu =>
      not_misses_operand_of_identifier (outcome_keyword_eq_matched.1 hu).1 h
  have hparen : (symbol .leftParen).MissesAtOnce t :=
    missesAtOnce_symbol (hends.not_symbol rfl)
  have hplain : plain.MissesAtOnce t := missesAtOnce_of_leaf isLeaf_plain fun o u hu => by
    have hmiss := h
    rw [operand, misses_orElse_iff (stays_attempt _), misses_orElse_iff (stays_attempt _),
      misses_orElse_iff (stays_attempt _), misses_orElse_iff (stays_attempt _)] at hmiss
    obtain ⟨v, hv⟩ : plain.Misses t := hmiss.2.2.2.2
    rw [hu] at hv
    cases hv
  exact (hname.bind _).attempt.orElse <| (hcase.bind _).attempt.orElse <|
    (hparen.bind _).attempt.orElse <| (hname.bind _).attempt.orElse hplain

theorem tidy_expression (limit allowance : Nat) :
    Tidy (fun _ => Text.NextNot TokenKind.goesOnChain) (expression limit allowance) := by
  induction allowance with
  | zero =>
    rw [expression_eq_chain]
    exact tidy_chain (tidy_operand nofun) fun _ h hends => (missesAtOnce_operand h hends).2
  | succ n ih =>
    rw [expression_eq_chain]
    refine tidy_chain (tidy_operand fun inner hinner => ?_) fun _ h hends =>
      (missesAtOnce_operand h hends).2
    cases hinner
    exact ih

theorem passesWord_expression (limit allowance : Nat) :
    (expression limit allowance).PassesWord := by
  rw [expression_eq_chain]
  exact passesWord_operand.chain not_misses_operand_of_identifier

end

/-! ## Clauses -/

theorem missesAtOnce_keyword {t : Text} {k : Keyword} (h : ∀ u, ¬KeywordAt k t u) :
    (keyword k).MissesAtOnce t :=
  missesAtOnce_of_leaf (isLeaf_token _ _) fun word u hu => h u (matched_keyword_iff.1 ⟨word, hu⟩)

/-- Where a keyword of the class cannot stand. -/
theorem not_keywordAt_of_nextNot {stuck : TokenKind → Bool} {t : Text} {k : Keyword}
    (h : t.NextNot stuck) (hk : ∀ kind, kind.isKeyword k = true → stuck kind = true) (u : Text) :
    ¬KeywordAt k t u := by
  rintro ⟨word, hword, hkeyword⟩
  have hstuck := hk (.identifier word) hkeyword
  rw [h _ u hword] at hstuck
  cases hstuck

theorem clean_matchKind : Clean matchKind := by
  have hoptional : Clean (Production.attempt optionalMatch) :=
    ((clean_keyword _).clean_bind fun _ => (clean_keyword _).clean_bind fun _ => .pure _).attempt
  have hword : (Production.attempt optionalMatch).PassesWord :=
    ((PassesWord.token _ _).bind _).attempt
  refine Tidy.orElse ((clean_keyword _).map _) (stays_map (stays_keyword _) _) hoptional hword
    fun _ _ => Or.inl fun n hn => Or.inl ?_
  rw [notes_map] at hn
  exact (isLeaf_token _ _).ahead n hn

/-- What was expected where a clause was looked for: there, or after a word `OPTIONAL` that
    opens no clause. -/
theorem atWord_of_mem_notes_matchKind {t : Text} {n : Note} (h : n ∈ matchKind.notes t) :
    n.ahead = t.dropBlanks ∨ AtWord t n.ahead ∧ ¬ClauseAt t := by
  have hleaf : ∀ {k : Keyword} {u : Text} {n : Note}, n ∈ (keyword k).notes u →
      n.ahead = u.dropBlanks := (isLeaf_token _ _).ahead _
  rcases mem_notes_orElse.1 h with h | ⟨u, hu, h⟩
  · rw [notes_map] at h
    exact Or.inl (hleaf h)
  · rw [stays_map (stays_keyword _) _ hu] at h
    rcases mem_notes_bind.1 h with h | ⟨word, v, hv, h⟩
    · exact Or.inl (hleaf h)
    · have hoptional := matched_keyword_iff.1 ⟨word, hv⟩
      rcases mem_notes_bind.1 h with h | ⟨_, w, -, h⟩
      · refine Or.inr ⟨Or.inr ⟨word, v, (outcome_keyword_eq_matched.1 hv).1, hleaf h⟩, ?_⟩
        have hmiss := misses_keyword_iff.1 (mem_notes_token.1 h).2
        rintro (⟨kind, w, hkind⟩ | ⟨w, hw⟩)
        · cases kind with
          | required => cases (hoptional.unique hkind).1
          | optional =>
            obtain ⟨v', hv', hw⟩ := hkind
            rw [← (hoptional.unique hv').2] at hw
            exact hmiss w hw
        · cases (hoptional.unique hw).1
      · cases h

theorem atWord_of_mem_notes_atClause {t : Text} {n : Note} (h : n ∈ atClause.notes t)
    (hfailure : n.isFailure = true) : n.ahead = t.dropBlanks ∨ AtWord t n.ahead ∧ ¬ClauseAt t := by
  rcases mem_notes_lookahead.1 h with h | ⟨_, u, -, rfl⟩
  · rcases mem_notes_orElse.1 h with h | ⟨u, hu, h⟩ <;> rw [notes_map] at h
    · exact atWord_of_mem_notes_matchKind h
    · rw [stays_map (stays_orElse (stays_map (stays_keyword _) _) (stays_attempt _)) _ hu] at h
      exact Or.inl ((isLeaf_token _ _).ahead _ h)
  · cases hfailure

theorem tidy_whereClause (limit : Nat) :
    Tidy (fun _ => Text.NextNot TokenKind.goesOnChain) (whereClause limit) := by
  refine (clean_keyword _).clean_bind fun _ => ?_
  have hexpression := tidy_expression limit limit
  have hword := passesWord_expression limit limit
  have hfound : ∀ t, atClause.outcome t = .matched true t ∧ ClauseAt t ∨
      atClause.outcome t = .matched false t := by
    intro t
    by_cases hclause : ClauseAt t
    · exact Or.inl ⟨outcome_atClause_eq_matched.2 ⟨rfl, Or.inl ⟨rfl, hclause⟩⟩, hclause⟩
    · exact Or.inr (outcome_atClause_eq_matched.2 ⟨rfl, Or.inr ⟨rfl, hclause⟩⟩)
  have hnear : ∀ {t}, ∀ n ∈ atClause.notes t, n.isFailure = true → AtWord t n.ahead :=
    fun n hn hfailure => (atWord_of_mem_notes_atClause hn hfailure).elim Or.inl And.left
  refine ⟨fun {t l v} ht hn => ?_, fun {t e u} ht h hends => ?_, fun {t e u} ht h => ?_⟩
  · rcases hfound t with ⟨ho, -⟩ | ho
    · rw [notes_bind, ho, Outcome.onMatch, if_pos rfl, notes_pure, List.append_nil] at hn
      exact absurd hn (Tidy.not_tooDeep_of_matched ho)
    · rw [notes_bind, ho, Outcome.onMatch, if_neg (by simp)] at hn ⊢
      have hdeep := (List.mem_append.1 hn).resolve_left (Tidy.not_tooDeep_of_matched ho)
      exact (noneBeyond_of_atWord hnear
        (Text.byteSize_le_of_suffix (ahead_of_mem_notes _ _ hdeep).1)
        fun hname => hword.givenUp hname hdeep).append (hexpression.givenUp ht hdeep)
  · rcases hfound t with ⟨ho, hclause⟩ | ho
    · rw [outcome_bind_of_matched ho, if_pos rfl] at h
      cases h
      rw [notes_bind, ho, Outcome.onMatch, if_pos rfl, notes_pure, List.append_nil]
      intro n hn hfailure
      have hahead := (atWord_of_mem_notes_atClause hn hfailure).resolve_right fun hno =>
        hno.2 hclause
      rw [hahead]
    · rw [outcome_bind_of_matched ho, if_neg (by simp)] at h
      rw [notes_bind, ho, Outcome.onMatch, if_neg (by simp)]
      exact (noneBeyond_of_atWord hnear (byteSize_dropBlanks_le_of_matched h)
        fun hname => hword.matched hname h).append (hexpression.matched ht h hends)
  · rcases hfound t with ⟨ho, -⟩ | ho <;> rw [outcome_bind_of_matched ho] at h
    · cases h
      exact .refl t
    · rw [if_neg (by simp)] at h
      exact hexpression.leads ht h

theorem tidy_matchClause (limit : Nat) :
    Tidy (fun _ => Text.NextNot TokenKind.goesOnChain) (matchClause limit) := by
  have hcondition : Tidy (fun _ => Text.NextNot TokenKind.goesOnChain)
      (Production.optional (whereClause limit)) :=
    (tidy_whereClause limit).optional fun _ h _ =>
      ((missesAtOnce_keyword (not_keywordAt_of_misses_whereClause h)).bind _).2
  have hwhere : ∀ {t u : Text}, KeywordAt .where_ t u → t.NextNot TokenKind.goesOnChain :=
    Text.NextNot.chain_of_keywordAt
  refine clean_matchKind.clean_bind fun kind => tidy_paths.bind
    (fun paths => hcondition.bind_pure fun h => h) (fun {paths t l v} hn => ?_)
    fun {paths t c u} h hends => ?_
  · rcases mem_notes_bind.1 hn with hn | ⟨c, u, -, hn⟩
    · rcases mem_notes_bind.1 hn with hn | ⟨word, u, hu, -⟩
      · cases (mem_notes_token.1 hn).1
      · exact hwhere (matched_keyword_iff.1 ⟨word, hu⟩)
    · cases hn
  · obtain ⟨condition, v, hv, h⟩ := outcome_bind_eq_matched.1 h
    cases h
    rcases outcome_optional_eq_matched.1 hv with ⟨e, -, he⟩ | ⟨-, rfl, -⟩
    · obtain ⟨w, hw, -⟩ := outcome_whereClause_eq_matched.1 he
      exact hwhere hw
    · exact hends

/-- Once a clause is opened, it is found. -/
theorem not_matchKindAt_of_misses_matchClause {limit : Nat} {t : Text}
    (h : (matchClause limit).Misses t) (k : MatchKind) (u : Text) : ¬MatchKindAt k t u := by
  intro hk
  obtain ⟨v, hv⟩ := h
  rw [matchClause, outcome_bind_of_matched (outcome_matchKind_eq_matched.2 hk)] at hv
  rcases outcome_bind_eq_missed.1 hv with hv | ⟨paths, w, -, hv⟩
  · exact outcome_commaList_ne_missed hv
  · rcases outcome_bind_eq_missed.1 hv with hv | ⟨condition, w, -, hv⟩
    · exact outcome_maybe_ne_missed hv
    · cases hv

/-- What does not depend on the limit does not give up. -/
theorem not_tooDeep_of_tokenwise {p : Production α} {t ahead : Text} {l : Nat}
    (hp : ∀ limit, Tokenwise limit false p) : .tooDeep l ahead ∉ p.notes t :=
  fun hn => absurd ((hp (l + 1)).ordinary _ hn) (Nat.ne_of_lt (Nat.lt_succ_self l))

theorem tidy_clauses (limit : Nat) :
    Tidy (fun _ => Text.NextNot TokenKind.goesOnClause) (many (matchClause limit)) := by
  refine (tidy_matchClause limit).many (advances_matchClause limit) (fun {t l v} hn => ?_)
    (fun {t c u} h => ?_) Text.NextNot.chain_of_clause fun {t} _ h hends => ?_
  · rcases mem_notes_bind.1 hn with hn | ⟨kind, u, hu, -⟩
    · exact absurd hn (not_tooDeep_of_tokenwise fun _ => .matchKind)
    · exact Text.NextNot.chain_of_matchKindAt (outcome_matchKind_eq_matched.1 hu)
  · obtain ⟨u, v, hkind, -⟩ := outcome_matchClause_eq_matched.1 h
    exact Text.NextNot.chain_of_matchKindAt hkind
  · have hmatch : (keyword .match_).MissesAtOnce t :=
      missesAtOnce_keyword (not_matchKindAt_of_misses_matchClause h .required)
    have hoptional : (keyword .optional).MissesAtOnce t :=
      missesAtOnce_keyword (not_keywordAt_of_nextNot hends fun kind hkind => by
        rw [TokenKind.goesOnClause, hkind, Bool.or_true])
    exact (((hmatch.bind _).orElse (hoptional.bind _).attempt).bind _).2

theorem returnItem_ne_missed (limit : Nat) (t : Text) : ¬(returnItem limit).Misses t := by
  rintro ⟨u, hu⟩
  rcases outcome_bind_eq_missed.1 hu with hu | ⟨e, v, -, hu⟩
  · rw [expression_eq_chain] at hu
    exact outcome_chain_ne_missed hu
  · rcases outcome_bind_eq_missed.1 hu with hu | ⟨name, w, -, hu⟩
    · exact outcome_maybe_ne_missed hu
    · cases hu

theorem tidy_returnItem (limit : Nat) :
    Tidy (fun _ => Text.NextNot TokenKind.goesOnItem) (returnItem limit) := by
  have hclean : Clean aliasName := (clean_keyword _).clean_bind fun _ => clean_nameOrQuoted
  have halias : Tidy (fun _ => Text.NextNot TokenKind.goesOnItem) (Production.optional aliasName) :=
    (hclean.mono fun _ _ _ => trivial).optional fun _ _ hends =>
      ((missesAtOnce_keyword (not_keywordAt_of_nextNot hends fun kind hkind => by
        rw [TokenKind.goesOnItem, hkind, Bool.or_true])).bind _).2
  refine (tidy_expression limit limit).bind (fun e => halias.bind_pure fun h => h)
    (fun {e t l v} hn => ?_) fun {e t i u} h hends => ?_
  · rcases mem_notes_bind.1 hn with hn | ⟨name, u, -, hn⟩
    · exact absurd hn (not_tooDeep_of_tokenwise fun _ =>
        .optional ((Tokenwise.keyword _).bind fun _ => .nameOrQuoted))
    · cases hn
  · obtain ⟨name, v, hv, h⟩ := outcome_bind_eq_matched.1 h
    cases h
    rcases outcome_optional_eq_matched.1 hv with ⟨name', -, hname⟩ | ⟨-, rfl, -⟩
    · obtain ⟨w, hw, -⟩ := outcome_aliasName_eq_matched.1 hname
      exact Text.NextNot.chain_of_keywordAt hw
    · exact hends.chain_of_item

/-- Where a query is given up, nothing failed further on. -/
theorem tidy_body (limit : Nat) :
    Tidy (fun _ => Text.NextNot TokenKind.goesOnItem) (body limit) := by
  have hreturns : Tidy (fun _ => Text.NextNot TokenKind.goesOnItem)
      (commaList ReturnItem.isBlank (returnItem limit)) :=
    tidy_commaList (tidy_returnItem limit) (returnItem_ne_missed limit) fun h => .of_token? h rfl
  have hreturn : ∀ {t u : Text}, KeywordAt .return_ t u → t.NextNot TokenKind.goesOnClause := by
    rintro t u ⟨word, hword, hk⟩
    have hchain := Text.NextNot.chain_of_keywordAt ⟨word, hword, hk⟩ _ u hword
    refine .of_token? hword ?_
    rw [TokenKind.goesOnClause, hchain, Bool.false_or]
    by_contra hoptional
    cases KeywordAt.eq_of_eqIgnoringCase hk (Bool.not_eq_false _ ▸ hoptional)
  refine (tidy_clauses limit).bind (fun clauses => (clean_keyword _).clean_bind fun _ =>
    hreturns.bind_pure fun h => h) (fun {clauses t l v} hn => ?_) fun {clauses t parts u} h _ => ?_
  · rcases mem_notes_bind.1 hn with hn | ⟨word, u, hu, -⟩
    · cases (mem_notes_token.1 hn).1
    · exact hreturn (matched_keyword_iff.1 ⟨word, hu⟩)
  · obtain ⟨word, v, hv, -⟩ := outcome_bind_eq_matched.1 h
    exact hreturn (matched_keyword_iff.1 ⟨word, hv⟩)

end Production

end Cypher
