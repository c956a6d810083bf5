/-
  Letter case — capitals and small letters make no difference to what is read.

  Keywords and operators are words in any mixture of capitals and small letters, and names
  keep theirs. Only `null`, `true` and `false` are literals in small letters and names
  otherwise. So a text and its lowering are read alike: the queries are the same up to the
  case of their texts and up to literals that become names, and the errors stand at the same
  place and list the same alternatives.

  * `Production.Alike fold p q`: on a text and on its lowering, the productions have
    outcomes that are the same up to `fold`, and notes with the same effect;
  * `alike_propertyOrPlain`: a literal that becomes a name leaves one note more, at a place that
    does not count any more;
  * `Composed.alike`: so do all productions of the grammar;
  * `Query.parse_lower`: a text and its lowering are read or refused alike.
-/
import Cypher.Proofs.Lowering
import Cypher.Proofs.Tokenwise

namespace Cypher

/-! ## Notes with the same effect -/

/-- The failure in the lowered text. -/
def Furthest.lower (f : Furthest) : Furthest :=
  ⟨⟨f.cursor.offset, f.cursor.rest.lower⟩, f.expected⟩

/-- In texts of at least `least` bytes, the notes on a text and on its lowering come to
    the same. -/
def Note.SameEffect (least : Nat) (notes notes' : List Note) : Prop :=
  ∀ size, least ≤ size →
    notes.findSome? (Note.error? size) = notes'.findSome? (Note.error? size) ∧
    ∀ f : Furthest, (notes.foldl (Furthest.note size) f).lower =
      notes'.foldl (Furthest.note size) f.lower

namespace Note.SameEffect

variable {least least' : Nat} {notes notes' more more' : List Note}

theorem nil (least : Nat) : SameEffect least [] [] :=
  fun _ _ => ⟨rfl, fun _ => rfl⟩

theorem mono (h : SameEffect least notes notes') (hle : least ≤ least') :
    SameEffect least' notes notes' :=
  fun size hsize => h size (Nat.le_trans hle hsize)

theorem append (h : SameEffect least notes notes') (h' : SameEffect least more more') :
    SameEffect least (notes ++ more) (notes' ++ more') := by
  intro size hsize
  refine ⟨?_, fun f => ?_⟩
  · rw [List.findSome?_append, List.findSome?_append, (h size hsize).1, (h' size hsize).1]
  · rw [List.foldl_append, List.foldl_append, (h' size hsize).2, (h size hsize).2]

theorem expected (least : Nat) (e : Expectation) (ahead : Text) :
    SameEffect least [.expected e ahead] [.expected e ahead.lower] := by
  refine fun size _ => ⟨rfl, fun f => ?_⟩
  have hbefore : (Cursor.before size ahead.lower).offset = (Cursor.before size ahead).offset := by
    simp only [Cursor.before, Text.byteSize_lower]
  have hoffset : f.lower.cursor.offset = f.cursor.offset := rfl
  have hexpected : f.lower.expected = f.expected := rfl
  simp only [List.foldl_cons, List.foldl_nil, Furthest.note, Furthest.record, hbefore, hoffset,
    hexpected]
  by_cases hfurther : f.cursor.offset < (Cursor.before size ahead).offset
  · rw [if_pos hfurther, if_pos hfurther]
    simp only [Furthest.lower, Cursor.before, Text.byteSize_lower]
  · rw [if_neg hfurther, if_neg hfurther]
    split <;> rfl

theorem tooDeep (least : Nat) (limit : Nat) (ahead : Text) :
    SameEffect least [.tooDeep limit ahead] [.tooDeep limit ahead.lower] := by
  refine fun size _ => ⟨?_, fun f => rfl⟩
  simp only [List.findSome?_cons, error?, Text.byteSize_lower]

theorem looked (least : Nat) (ahead : Text) :
    SameEffect least [.looked ahead] [.looked ahead.lower] :=
  fun _ _ => ⟨rfl, fun _ => rfl⟩

end Note.SameEffect

/-- The furthest place only moves on. -/
theorem Furthest.offset_le_note (size : Nat) (f : Furthest) (n : Note) :
    f.cursor.offset ≤ (f.note size n).cursor.offset := by
  cases n with
  | expected e ahead =>
    simp only [note, record]
    split
    · exact Nat.le_of_lt ‹_›
    · split <;> exact Nat.le_refl _
  | tooDeep limit ahead => exact Nat.le_refl _
  | looked ahead => exact Nat.le_refl _

theorem Furthest.offset_le_foldl (size : Nat) (f : Furthest) (notes : List Note) :
    f.cursor.offset ≤ (notes.foldl (note size) f).cursor.offset := by
  induction notes generalizing f with
  | nil => exact Nat.le_refl _
  | cons n notes ih => exact Nat.le_trans (offset_le_note size f n) (ih _)

/-- No note lies beyond the furthest place. -/
theorem Furthest.le_offset_foldl {size : Nat} {e : Expectation} {ahead : Text} {notes : List Note}
    (h : Note.expected e ahead ∈ notes) (f : Furthest) :
    size - ahead.byteSize ≤ (notes.foldl (note size) f).cursor.offset := by
  induction notes generalizing f with
  | nil => cases h
  | cons n notes ih =>
    rcases List.mem_cons.1 h with rfl | h
    · refine Nat.le_trans ?_ (offset_le_foldl size _ notes)
      simp only [note, record]
      split
      · exact Nat.le_refl _
      · exact Nat.le_trans (Nat.not_lt.1 ‹_›) (by split <;> exact Nat.le_refl _)
    · exact ih h _

/-- Notes before the furthest place do not count. -/
theorem Furthest.foldl_eq_self {size : Nat} {f : Furthest} {notes : List Note} {place : Text}
    (hplace : size - place.byteSize < f.cursor.offset)
    (h : ∀ n ∈ notes, ∃ e, n = .expected e place) : notes.foldl (note size) f = f := by
  induction notes with
  | nil => rfl
  | cons n notes ih =>
    rw [List.forall_mem_cons] at h
    obtain ⟨e, rfl⟩ := h.1
    have hoffset : (Cursor.before size place).offset = size - place.byteSize := rfl
    have hnote : f.note size (.expected e place) = f := by
      simp only [note, record]
      rw [if_neg (by omega), if_neg (by omega)]
    rw [List.foldl_cons, hnote]
    exact ih h.2

/-- Notes that come too late to count may differ. -/
theorem Note.SameEffect.append_late {least : Nat} {notes notes' late late' : List Note}
    {e : Expectation} {ahead place : Text} (h : SameEffect least notes notes')
    (hnote : .expected e ahead ∈ notes) (hlt : ahead.byteSize < place.byteSize)
    (hle : place.byteSize ≤ least) (hlate : ∀ n ∈ late, ∃ e, n = .expected e place)
    (hlate' : ∀ n ∈ late', ∃ e, n = .expected e place.lower) :
    SameEffect least (notes ++ late) (notes' ++ late') := by
  have hnone : ∀ {size : Nat} {late : List Note} {place : Text},
      (∀ n ∈ late, ∃ e, n = .expected e place) → late.findSome? (Note.error? size) = none := by
    intro size late place hlate
    refine List.findSome?_eq_none_iff.2 fun n hn => ?_
    obtain ⟨e, rfl⟩ := hlate n hn
    rfl
  intro size hsize
  refine ⟨?_, fun f => ?_⟩
  · rw [List.findSome?_append, List.findSome?_append, hnone hlate, hnone hlate',
      (h size hsize).1]
  · have hplace : size - ahead.byteSize ≤ (notes.foldl (Furthest.note size) f).cursor.offset :=
      Furthest.le_offset_foldl hnote f
    have hoffset : (notes'.foldl (Furthest.note size) f.lower).cursor.offset =
        (notes.foldl (Furthest.note size) f).cursor.offset := by
      rw [← (h size hsize).2 f]
      rfl
    rw [List.foldl_append, List.foldl_append,
      Furthest.foldl_eq_self (by omega) hlate,
      Furthest.foldl_eq_self (by rw [hoffset, Text.byteSize_lower]; omega) hlate',
      (h size hsize).2]

/-! ## Productions on a text and on its lowering -/

/-- The outcomes have the same value up to `fold`, and end at the same place. -/
inductive Outcome.Alike {α γ : Type} (fold : α → γ) : Outcome α → Outcome α → Prop
  | matched {a b : α} (u : Text) : fold a = fold b →
      Alike fold (.matched a u) (.matched b u.lower)
  | missed (u : Text) : Alike fold (.missed u) (.missed u.lower)
  | gaveUp : Alike fold .gaveUp .gaveUp

/-- A token that is accepted or not, up to `fold`. -/
theorem Outcome.Alike.of_map_eq {α γ : Type} {fold : α → γ} {o o' : Option α}
    (h : o.map fold = o'.map fold) (t u : Text) :
    ((o.map fun a => Outcome.matched a u).getD (.missed t)).Alike fold
      ((o'.map fun a => Outcome.matched a u.lower).getD (.missed t.lower)) := by
  cases o with
  | none =>
    cases o' with
    | none => exact .missed t
    | some b => cases h
  | some a =>
    cases o' with
    | none => cases h
    | some b => exact .matched u (Option.some.inj h)

namespace Production

variable {α β γ δ : Type}

/-- What the productions do on a text and on its lowering is the same up to `fold`. -/
structure AlikeOn (fold : α → γ) (p q : Production α) (t : Text) : Prop where
  outcome : (p.outcome t).Alike fold (q.outcome t.lower)
  notes : Note.SameEffect t.byteSize (p.notes t) (q.notes t.lower)

/-- On every text and its lowering, the productions do the same up to `fold`. -/
def Alike (fold : α → γ) (p q : Production α) : Prop :=
  ∀ t, AlikeOn fold p q t

theorem byteSize_le_of_matched {p : Production α} {t u : Text} {a : α}
    (h : p.outcome t = .matched a u) : u.byteSize ≤ t.byteSize :=
  Text.byteSize_le_of_suffix (suffix_of_matched h)

theorem byteSize_le_of_missed {p : Production α} {t u : Text} (h : p.outcome t = .missed u) :
    u.byteSize ≤ t.byteSize :=
  Text.byteSize_le_of_suffix ((suffix_of_outcome p).2 h)

namespace Alike

variable {fold : α → γ} {fold' : β → δ} {p q : Production α}

theorem succeed {a b : α} (h : fold a = fold b) : Alike fold (pure a) (pure b) :=
  fun t => ⟨.matched t h, .nil _⟩

theorem bindOn {f g : α → Production β} {t : Text} (hp : AlikeOn fold p q t)
    (hf : ∀ a b, fold a = fold b → Alike fold' (f a) (g b)) :
    AlikeOn fold' (p >>= f) (q >>= g) t := by
  have ho := hp.outcome
  have hn := hp.notes
  generalize ht : p.outcome t = o, hx : q.outcome t.lower = o' at ho
  cases ho with
  | @matched a b u hab =>
    have hnext := hf a b hab u
    constructor
    · simpa only [Bind.bind, Production.outcome, ht, hx, Outcome.andThen] using hnext.outcome
    · rw [notes_bind, notes_bind, ht, hx]
      exact hn.append (hnext.notes.mono (byteSize_le_of_matched ht))
  | missed u =>
    constructor
    · simpa only [Bind.bind, Production.outcome, ht, hx, Outcome.andThen] using .missed u
    · rw [notes_bind, notes_bind, ht, hx]
      exact hn.append (.nil _)
  | gaveUp =>
    constructor
    · simpa only [Bind.bind, Production.outcome, ht, hx, Outcome.andThen] using .gaveUp
    · rw [notes_bind, notes_bind, ht, hx]
      exact hn.append (.nil _)

theorem bind {f g : α → Production β} (hp : Alike fold p q)
    (hf : ∀ a b, fold a = fold b → Alike fold' (f a) (g b)) : Alike fold' (p >>= f) (q >>= g) :=
  fun t => bindOn (hp t) hf

theorem map {g : α → β} (hp : Alike fold p q)
    (hg : ∀ a b, fold a = fold b → fold' (g a) = fold' (g b)) :
    Alike fold' (g <$> p) (g <$> q) :=
  hp.bind fun a b hab => succeed (hg a b hab)

/-- Alternatives, where the notes of the second ones may depend on those of the first ones. -/
theorem orElseAfter {p' q' : Production α} {t : Text} (hp : AlikeOn fold p q t)
    (hp' : ∀ u, p.outcome t = .missed u → (p'.outcome u).Alike fold (q'.outcome u.lower) ∧
      Note.SameEffect t.byteSize (p.notes t ++ p'.notes u) (q.notes t.lower ++ q'.notes u.lower)) :
    AlikeOn fold (p <|> p') (q <|> q') t := by
  have ho := hp.outcome
  have hn := hp.notes
  generalize ht : p.outcome t = o, hx : q.outcome t.lower = o' at ho
  cases ho with
  | missed u =>
    constructor
    · simpa only [outcome_orElse, ht, hx, Outcome.orTry] using (hp' u ht).1
    · rw [notes_orElse, notes_orElse, ht, hx]
      exact (hp' u ht).2
  | matched u hab =>
    constructor
    · simpa only [outcome_orElse, ht, hx, Outcome.orTry] using .matched u hab
    · rw [notes_orElse, notes_orElse, ht, hx]
      exact hn.append (.nil _)
  | gaveUp =>
    constructor
    · simpa only [outcome_orElse, ht, hx, Outcome.orTry] using .gaveUp
    · rw [notes_orElse, notes_orElse, ht, hx]
      exact hn.append (.nil _)

theorem orElseOn {p' q' : Production α} {t : Text} (hp : AlikeOn fold p q t)
    (hp' : ∀ u, p.outcome t = .missed u → AlikeOn fold p' q' u) :
    AlikeOn fold (p <|> p') (q <|> q') t :=
  orElseAfter hp fun u hu =>
    ⟨(hp' u hu).outcome, hp.notes.append ((hp' u hu).notes.mono (byteSize_le_of_missed hu))⟩

theorem orElse {p' q' : Production α} (hp : Alike fold p q) (hp' : Alike fold p' q') :
    Alike fold (p <|> p') (q <|> q') :=
  fun t => orElseOn (hp t) fun u _ => hp' u

theorem attempt (hp : Alike fold p q) : Alike fold (attempt p) (attempt q) := by
  intro t
  refine ⟨?_, (hp t).notes⟩
  have ho := (hp t).outcome
  simp only [Production.outcome]
  generalize p.outcome t = o, q.outcome t.lower = o' at ho
  cases ho with
  | matched u hab => exact .matched u hab
  | missed u => exact .missed t
  | gaveUp => exact .gaveUp

theorem maybe (hp : Alike fold p q) : Alike (Option.map fold) (maybe p) (maybe q) := by
  intro t
  refine ⟨?_, (hp t).notes⟩
  have ho := (hp t).outcome
  simp only [Production.outcome]
  generalize p.outcome t = o, q.outcome t.lower = o' at ho
  cases ho with
  | matched u hab => exact .matched u (congrArg some hab)
  | missed u => exact .matched u rfl
  | gaveUp => exact .gaveUp

theorem lookahead (hp : Alike fold p q) : Alike id (lookahead p) (lookahead q) := by
  intro t
  have ho := (hp t).outcome
  have hn := (hp t).notes
  constructor
  · simp only [Production.outcome]
    generalize p.outcome t = o, q.outcome t.lower = o' at ho
    cases ho with
    | matched u hab => exact .matched t rfl
    | missed u => exact .matched t rfl
    | gaveUp => exact .gaveUp
  · simp only [Production.notes]
    refine hn.append ?_
    generalize p.outcome t = o, q.outcome t.lower = o' at ho
    cases ho with
    | matched u hab =>
      rw [Outcome.onMatch, Outcome.onMatch, Text.dropBlanks_lower]
      exact .looked _ _
    | missed u => exact .nil _
    | gaveUp => exact .nil _

theorem many (hp : Alike fold p q) : Alike (List.map fold) (many p) (many q) := by
  intro t
  induction hlength : t.length using Nat.strongRecOn generalizing t with
  | ind n ih =>
    have ho := (hp t).outcome
    have hn := (hp t).notes
    generalize ht : p.outcome t = o, hx : q.outcome t.lower = o' at ho
    cases ho with
    | @matched a b u hab =>
      by_cases hlt : u.length < t.length
      · have hlt' : u.lower.length < t.lower.length := by
          rwa [Text.length_lower, Text.length_lower]
        have hmore := ih _ (hlength ▸ hlt) u rfl
        have hrest := hmore.outcome
        constructor
        · simp only [Production.outcome] at hrest ⊢
          rw [Outcome.repeated_of_matched ht hlt, Outcome.repeated_of_matched hx hlt']
          generalize Outcome.repeated p.outcome u = r, Outcome.repeated q.outcome u.lower = r'
            at hrest
          cases hrest with
          | matched v hlist => exact .matched v (by simp only [List.map_cons, hab, hlist])
          | missed v => exact .missed v
          | gaveUp => exact .gaveUp
        · simp only [Production.notes]
          rw [Outcome.repeatedNotes_of_matched ht hlt, Outcome.repeatedNotes_of_matched hx hlt']
          exact hn.append (hmore.notes.mono (byteSize_le_of_matched ht))
      · have hlt' : ¬u.lower.length < t.lower.length := by
          rwa [Text.length_lower, Text.length_lower]
        constructor
        · simp only [Production.outcome]
          rw [Outcome.repeated, ht, Outcome.repeated, hx]
          simp only [hlt, hlt', if_false]
          exact .matched u (by simp only [List.map_cons, hab])
        · simp only [Production.notes]
          rw [Outcome.repeatedNotes, ht, Outcome.repeatedNotes, hx]
          simpa only [hlt, hlt', if_false] using hn
    | missed u =>
      constructor
      · simp only [Production.outcome]
        rw [Outcome.repeated_of_missed ht, Outcome.repeated_of_missed hx]
        exact .matched t rfl
      · simp only [Production.notes]
        rw [Outcome.repeatedNotes_of_ne_matched (by simp [ht]),
          Outcome.repeatedNotes_of_ne_matched (by simp [hx])]
        exact hn
    | gaveUp =>
      constructor
      · simp only [Production.outcome]
        rw [Outcome.repeated_of_gaveUp ht, Outcome.repeated_of_gaveUp hx]
        exact .gaveUp
      · simp only [Production.notes]
        rw [Outcome.repeatedNotes_of_ne_matched (by simp [ht]),
          Outcome.repeatedNotes_of_ne_matched (by simp [hx])]
        exact hn

/-- A reading that matches on a text and on its lowering, or misses on both and makes a note. -/
theorem leaf (t : Text) (e : Expectation) (ahead : Text) {o o' : Outcome α}
    (h : o.Alike fold o') : Note.SameEffect t.byteSize (o.onMiss fun _ => [.expected e ahead])
      (o'.onMiss fun _ => [.expected e ahead.lower]) := by
  cases h with
  | matched u _ => exact .nil _
  | missed u => exact .expected _ e ahead
  | gaveUp => exact .nil _

theorem tokenOn {e : Expectation} {accept : TokenKind → Option α} {t : Text}
    (h : ∀ kind u, t.token? = some (kind, u) →
      (accept kind).map fold = (accept kind.lower).map fold) :
    AlikeOn fold (Production.token e accept) (Production.token e accept) t := by
  have ho : ((Production.token e accept).outcome t).Alike fold
      ((Production.token e accept).outcome t.lower) := by
    simp only [Production.outcome, Text.token?_lower]
    cases htoken : t.token? with
    | none => exact .missed t
    | some found =>
      obtain ⟨kind, u⟩ := found
      exact .of_map_eq (h kind u htoken) t u
  refine ⟨ho, ?_⟩
  have hn := leaf t e t.dropBlanks ho
  rwa [← Text.dropBlanks_lower] at hn

theorem token {e : Expectation} {accept : TokenKind → Option α}
    (h : ∀ kind, (accept kind).map fold = (accept kind.lower).map fold) :
    Alike fold (token e accept) (token e accept) :=
  fun _ => tokenOn fun kind _ _ => h kind

theorem adjacent {accept : TokenKind → Option α}
    (h : ∀ kind, (accept kind).map fold = (accept kind.lower).map fold) :
    Alike fold (adjacent accept) (adjacent accept) := by
  intro t
  refine ⟨?_, .nil _⟩
  simp only [Production.outcome, Text.adjacentToken?_lower]
  cases t.adjacentToken? with
  | none => exact .missed t
  | some found =>
    obtain ⟨kind, u⟩ := found
    exact .of_map_eq (h kind) t u

theorem arrow (e : Expectation) (first second : Symbol) :
    Alike id (arrow e first second) (arrow e first second) := by
  intro t
  have ho : ((Production.arrow e first second).outcome t).Alike id
      ((Production.arrow e first second).outcome t.lower) := by
    simp only [Production.outcome, Text.token?_lower]
    cases t.token? with
    | none => exact .missed t
    | some found =>
      obtain ⟨kind, u⟩ := found
      simp only [Option.map_some, Text.adjacentToken?_lower]
      cases u.adjacentToken? with
      | none => exact .missed t
      | some found =>
        obtain ⟨kind', v⟩ := found
        simp only [Option.map_some, TokenKind.lower_eq_symbol_iff]
        split
        · exact .matched v rfl
        · exact .missed t
  refine ⟨ho, ?_⟩
  have hn := leaf t e t.dropBlanks ho
  rwa [← Text.dropBlanks_lower] at hn

theorem endOfInput : Alike id endOfInput endOfInput := by
  intro t
  have ho : (Production.endOfInput.outcome t).Alike id (Production.endOfInput.outcome t.lower) := by
    simp only [Production.outcome, Text.dropBlanks_lower, Text.lower_eq_nil_iff]
    split
    · exact .matched t rfl
    · exact .missed t
  refine ⟨ho, ?_⟩
  have hn := leaf t .endOfInput t.dropBlanks ho
  rwa [← Text.dropBlanks_lower] at hn

theorem startBody : Alike Text.lower startBody startBody := by
  intro t
  have ho : (Production.startBody.outcome t).Alike Text.lower
      (Production.startBody.outcome t.lower) := by
    simp only [Production.outcome, Text.splitAtClause?_lower]
    cases t.splitAtClause? with
    | none => exact .missed t
    | some parts => exact .matched parts.2 (by rw [Text.trim_lower, Text.lower_lower])
  exact ⟨ho, leaf t .clause [] ho⟩

theorem caseRest {word word' : Text} (h : word.lower = word'.lower) :
    Alike Text.lower (caseRest word) (caseRest word') := by
  intro t
  have ho : ((Production.caseRest word).outcome t).Alike Text.lower
      ((Production.caseRest word').outcome t.lower) := by
    simp only [Production.outcome, Text.splitAtWord?_lower]
    cases Text.splitAtWord? Keyword.end_.written t with
    | none => exact .missed t
    | some parts =>
      obtain ⟨before, ending⟩ := parts
      have htake : ∀ n, ending.lower.take n = Text.lower (ending.take n) := fun n =>
        List.map_take.symm
      have hdrop : ∀ n, ending.lower.drop n = Text.lower (ending.drop n) := fun n =>
        List.map_drop.symm
      simp only [Option.map_some, htake, hdrop]
      exact .matched _ (by simp only [Text.lower_append, Text.lower_lower, h])
  exact ⟨ho, leaf t (.keyword .end_) [] ho⟩

theorem tooDeep (limit : Nat) : Alike fold (tooDeep limit) (tooDeep limit) := by
  intro t
  refine ⟨.gaveUp, ?_⟩
  simp only [Production.notes, Text.dropBlanks_lower]
  exact .tooDeep _ limit _

end Alike

/-! ## Terminals -/

theorem alike_symbol (x : Symbol) : Alike id (symbol x) (symbol x) :=
  .token fun kind => by simp only [TokenKind.lower_eq_symbol_iff]

theorem alike_keyword (k : Keyword) : Alike Text.lower (keyword k) (keyword k) :=
  .token (TokenKind.keyword_lower k)

theorem alike_identifier : Alike Text.lower identifier identifier :=
  .token TokenKind.identifier?_lower

theorem alike_quotedString : Alike Text.lower quotedString quotedString :=
  .token TokenKind.quoted?_lower

theorem alike_nameOrQuoted : Alike Text.lower nameOrQuoted nameOrQuoted :=
  alike_quotedString.orElse alike_identifier

theorem alike_number : Alike Text.lower number number := by
  have hnegative : Alike Text.lower negativeNumber negativeNumber := by
    refine (alike_symbol .minus).bind fun _ _ _ => ?_
    refine Alike.bind (.adjacent TokenKind.number?_lower) fun text text' htext => .succeed ?_
    rw [Text.lower_cons, Text.lower_cons, htext]
  exact hnegative.attempt.orElse (.token TokenKind.number?_lower)

theorem alike_mark {α : Type} {e : Expectation} {first second : Symbol} {a b : α} :
    Alike id (mark e first second a b) (mark e first second a b) :=
  ((Alike.arrow _ _ _).map fun _ _ _ => rfl).orElse ((alike_symbol _).map fun _ _ _ => rfl)

theorem alike_caseExpression : Alike Operand.folded caseExpression caseExpression := by
  refine (alike_keyword _).bind fun word word' hword =>
    Alike.bind (.caseRest hword) fun text text' htext => .succeed ?_
  simp only [Operand.folded, htext]

theorem alike_property : Alike Operand.folded property property := by
  refine alike_identifier.bind fun owner owner' howner => (alike_symbol _).bind fun _ _ _ =>
    alike_nameOrQuoted.bind fun name name' hname => .succeed ?_
  simp only [Operand.folded, howner, hname]

/-! ## Words -/

/-- Where no word comes next, no operand depends on letter case. -/
theorem alikeOn_plain {t : Text} (h : ∀ name u, t.token? ≠ some (.identifier name, u)) :
    AlikeOn Operand.folded plain plain t := by
  have hliteral : AlikeOn id literal literal t := by
    refine Alike.tokenOn fun kind u hu => ?_
    cases kind with
    | identifier name => exact absurd hu (h name u)
    | _ => rfl
  refine Alike.orElseOn (Alike.bindOn hliteral fun l l' hl => .succeed ?_) fun v _ => ?_
  · exact congrArg (fun l => (Operand.literal l).folded) hl
  refine ((alike_identifier.map fun a b hab => ?_).orElse <|
    (alike_quotedString.map fun a b hab => ?_).orElse <|
    (alike_number.map fun a b hab => ?_).orElse ((alike_symbol _).map fun _ _ _ => rfl)) v <;>
  simp only [Operand.folded, hab]

theorem folded_ofWord (name : Text) : (ofWord name).folded = .identifier name.lower := by
  rw [ofWord]
  cases hl : Literal.ofWritten? name with
  | none => rw [Option.elim, Operand.folded]
  | some l =>
    obtain rfl : l.written = name := by simpa using List.find?_some hl
    rw [Option.elim, Operand.folded]
    rcases l with _ | _ | _ <;> decide

/-- Where a word comes next that is no property, something was looked for after it. -/
theorem exists_note_property {t u name : Text} (hword : t.token? = some (.identifier name, u))
    (h : (attempt property).outcome t = .missed t) :
    ∃ e ahead, .expected e ahead ∈ (attempt property).notes t ∧
      ahead.byteSize < t.dropBlanks.byteSize := by
  obtain ⟨-, w, hproperty⟩ := outcome_attempt_eq_missed.1 h
  have hname : identifier.outcome t = .matched name u := outcome_identifier_eq_matched.2 hword
  have hdot : Tokenwise 0 false (symbol .dot >>= fun _ => nameOrQuoted >>= fun property =>
      pure (Operand.property name property)) :=
    (Tokenwise.symbol (by simp)).bind fun _ => Tokenwise.nameOrQuoted.bind fun _ => .pure _
  rcases outcome_bind_eq_missed.1 hproperty with hmiss | ⟨name', u', hname', hmiss⟩
  · rw [hname] at hmiss; cases hmiss
  rw [hname] at hname'
  cases hname'
  obtain ⟨e, ahead, hnote, -⟩ := hdot.exists_expected hmiss
  refine ⟨e, ahead, mem_notes_bind.2 (Or.inr ⟨name, u, hname, hnote⟩), ?_⟩
  have hahead := Text.byteSize_le_of_suffix (ahead_of_mem_notes _ _ hnote).1
  have hblanks := Text.byteSize_dropBlanks_le u
  have hlt := Text.byteSize_lt_of_token? hword
  exact Nat.lt_of_le_of_lt (Nat.le_trans hahead hblanks) hlt

/-- A literal in the lowered text may be a name in the text. The note that no literal
    stands here comes too late: a place after the word has been noted before. -/
theorem alike_propertyOrPlain :
    Alike Operand.folded (attempt property <|> plain) (attempt property <|> plain) := by
  intro t
  have hproperty : AlikeOn Operand.folded (attempt property) (attempt property) t :=
    alike_property.attempt t
  by_cases hword : ∃ name u, t.token? = some (.identifier name, u)
  · obtain ⟨name, u, hname⟩ := hword
    refine Alike.orElseAfter hproperty fun v hv => ?_
    obtain rfl := stays_attempt _ hv
    obtain ⟨houtcome, hlate⟩ := plain_of_word hname
    obtain ⟨houtcome', hlate'⟩ := plain_of_word (Text.token?_lower_of_some hname)
    obtain ⟨e, ahead, hnote, hlt⟩ := exists_note_property hname hv
    rw [Text.dropBlanks_lower] at hlate'
    refine ⟨?_, hproperty.notes.append_late hnote hlt (Text.byteSize_dropBlanks_le v) hlate hlate'⟩
    rw [houtcome, houtcome']
    exact .matched u (by rw [folded_ofWord, folded_ofWord, Text.lower_lower])
  · refine Alike.orElseOn hproperty fun v hv => ?_
    rw [stays_attempt _ hv]
    exact alikeOn_plain fun name u hu => hword ⟨name, u, hu⟩

/-! ## The grammar -/

/-- What is put together alike, under one limit and up to letter case, does the same on a text and
    on its lowering. -/
theorem Composed.alike {scope : Scope} {n : Nat} {fold : α → γ} {p p' : Production α}
    (h : Composed scope n fold p p') (hmore : scope.more = 0) (hfolds : scope.folds = true) :
    Alike fold p p' := by
  have hsame : ∀ {α γ : Type} {fold : α → γ} {a b : α}, fold a = fold b → scope.Same fold a b :=
    fun hab => ⟨hab, fun h => by rw [hfolds] at h; cases h⟩
  induction h with
  | succeed h => exact .succeed h.folded
  | andThen _ _ ihp ihf => exact ihp.bind fun a b hab => ihf a b (hsame hab)
  | orTry _ _ ihp ihq => exact ihp.orElse ihq
  | attempt _ ih => exact ih.attempt
  | maybe _ ih => exact ih.maybe
  | lookahead _ _ ih => exact ih.lookahead
  | many _ _ ih => exact ih.many
  | token _ _ haccept => exact .token (haccept hfolds)
  | leftMark => exact alike_mark
  | rightMark => exact alike_mark
  | number => exact alike_number
  | caseExpression => exact alike_caseExpression
  | startBody _ => exact .startBody
  | endOfInput _ => exact .endOfInput
  | propertyOrPlain _ => exact alike_propertyOrPlain
  | parenthesis _ ih => exact (alike_symbol _).bind fun _ _ _ => ih
  | tooDeep hdeep =>
    rw [hdeep hmore]
    exact (alike_symbol _).bind fun _ _ _ => .tooDeep _
  | mono _ _ ih => exact ih

theorem alike_query (limit : Nat) : Alike Query.folded (query limit) (query limit) :=
  (Composed.query limit 0 true).alike rfl rfl

end Production

/-! ## Queries -/

theorem Lexeme.byteSize_written_lower (lexeme : Lexeme) :
    lexeme.lower.written.byteSize = lexeme.written.byteSize := by
  rcases lexeme with (_ | text | name | text) | text
  · rfl
  · exact Text.byteSize_lower text
  · exact Text.byteSize_lower name
  · simp [Lexeme.lower, TokenKind.lower, written, TokenKind.written, Text.inBackTicks,
      Text.byteSize_append]
  · exact Text.byteSize_lower text

theorem Furthest.error_lower (f : Furthest) :
    f.error.span = f.lower.error.span ∧ f.error.alternatives = f.lower.error.alternatives := by
  obtain ⟨⟨offset, rest⟩, expected⟩ := f
  have hblanks : Text.byteSize (rest.lower.takeWhile Text.isBlank) =
      Text.byteSize (rest.takeWhile Text.isBlank) := by
    rw [Text.takeWhile_lower Text.isBlank_toLower, Text.byteSize_lower]
  simp only [lower, error, Cursor.next?, Cursor.skipBlanks, Cursor.advance, Text.dropBlanks_lower,
    Lexeme.scan?_lower, hblanks]
  cases Lexeme.scan? rest.dropBlanks with
  | none => exact ⟨rfl, rfl⟩
  | some found =>
    obtain ⟨lexeme, after⟩ := found
    have hsize := Lexeme.byteSize_written_lower lexeme
    cases lexeme with
    | token kind =>
      simp only [Option.map_some, hsize]
      exact ⟨rfl, rfl⟩
    | unrecognized text =>
      simp only [Option.map_some, hsize]
      exact ⟨rfl, rfl⟩

/-- Notes with the same effect are reported at the same place, with the same alternatives. -/
theorem Note.SameEffect.report {source : Text} {notes notes' : List Note}
    (h : SameEffect source.byteSize notes notes') :
    (report source notes).span = (report source.lower notes').span ∧
      (report source notes).alternatives = (report source.lower notes').alternatives := by
  obtain ⟨herror, hfurthest⟩ := h source.byteSize (Nat.le_refl _)
  have hlower : Furthest.ofNotes source.lower notes' = (Furthest.ofNotes source notes).lower := by
    rw [Furthest.ofNotes, Furthest.ofNotes, hfurthest, Text.byteSize_lower]
    rfl
  rw [Note.report, Note.report, Text.byteSize_lower, ← herror, hlower]
  cases notes.findSome? (Note.error? source.byteSize) with
  | some error => exact ⟨rfl, rfl⟩
  | none => exact Furthest.error_lower _

/-- A text and its lowering are both read, as queries that are the same up to letter case,
    or both refused, at the same place and with the same alternatives. -/
theorem Query.parse_lower (limit : Nat) (source : Text) :
    (∃ q q', parse limit source = .ok q ∧ parse limit source.lower = .ok q' ∧
      q.folded = q'.folded) ∨
    ∃ e e', parse limit source = .error e ∧ parse limit source.lower = .error e' ∧
      e.span = e'.span ∧ e.alternatives = e'.alternatives := by
  have hquery := Production.alike_query limit source
  have ho := hquery.outcome
  have hreport := hquery.notes.report
  rw [parse_eq, parse_eq]
  generalize (Production.query limit).outcome source = o,
    (Production.query limit).outcome source.lower = o' at ho
  cases ho with
  | matched u hq => exact Or.inl ⟨_, _, rfl, rfl, hq⟩
  | missed u => exact Or.inr ⟨_, _, rfl, rfl, hreport⟩
  | gaveUp => exact Or.inr ⟨_, _, rfl, rfl, hreport⟩

end Cypher
