/-
  Alternatives — an error lists what its place may go on with, and nothing else.

  * `Text.IsToken w kind`: the text `w` is one token;
  * `Expectation.Offers e w`: the text `w` is what the alternative `e` stands for;
  * `SyntaxError.ExactAfter`: the alternatives of an error lead further, and nothing else does;
  * `Query.exact_of_refused`: so it is for every error that is not about nesting.
-/
import Cypher.Proofs.Lowering
import Cypher.Proofs.Refusal

namespace Cypher

/-! ## What an alternative stands for -/

/-- The text is one token and nothing else. -/
def Text.IsToken (w : Text) (kind : TokenKind) : Prop :=
  w.adjacentToken? = some (kind, [])

/-- The text is what the alternative stands for. A minus sign stands for a negative number, and
    keywords and operators may be written in capitals or small letters. -/
def Expectation.Offers : Expectation → Text → Prop
  | symbol .minus, w => w = ['-', '1']
  | symbol s, w => w = s.written
  | keyword k, w => w.eqIgnoringCase k.written = true
  | leftArrow, w => w = ['<', '-']
  | rightArrow, w => w = ['-', '>']
  | identifier, w => ∃ name, w.IsToken (.identifier name)
  | quotedString, w => ∃ text, w.IsToken (.quoted text)
  | literal, w => ∃ l : Literal, w = l.written
  | number, w => ∃ text, w.IsToken (.number text)
  | operator, w => ∃ o : Operator, w.eqIgnoringCase o.written = true
  | clause, _ | endOfInput, _ => False

namespace Text

variable {w v : Text} {kind : TokenKind}

theorem IsToken.token? (h : w.IsToken kind) : w.token? = some (kind, []) :=
  (adjacentToken?_eq_some_iff.1 h).2

theorem IsToken.dropBlanks (h : w.IsToken kind) : w.dropBlanks = w :=
  (adjacentToken?_eq_some_iff.1 h).1

theorem IsToken.eq_written (h : w.IsToken kind) : w = kind.written := by
  have heq := dropBlanks_of_token? h.token?
  rwa [h.dropBlanks, List.append_nil] at heq

theorem IsToken.ne_nil (h : w.IsToken kind) : w ≠ [] := by
  rintro rfl
  cases h.token?

theorem IsToken.isSingle (h : w.IsToken kind) : w.IsSingle := by
  intro kind' u hu
  rw [h.token?] at hu
  cases hu
  rfl

/-- What is spelled like a token, in capitals or small letters, is a token like it. -/
theorem IsToken.of_eqIgnoringCase (h : v.IsToken kind) (heq : w.eqIgnoringCase v = true) :
    ∃ kind', w.IsToken kind' ∧ kind'.lower = kind.lower := by
  have hlower : w.lower = v.lower := eqIgnoringCase_iff.1 heq
  have hmap := adjacentToken?_lower w
  rw [hlower, adjacentToken?_lower, h] at hmap
  cases hw : w.adjacentToken? with
  | none => rw [hw] at hmap; cases hmap
  | some found =>
    obtain ⟨kind', u⟩ := found
    rw [hw] at hmap
    simp only [Option.map_some, Option.some.injEq, Prod.mk.injEq] at hmap
    obtain rfl : u = [] := lower_eq_nil_iff.1 hmap.2.symm
    exact ⟨kind', hw, hmap.1.symm⟩

theorem IsToken.enters (h : w.IsToken kind) : w.Enters where
  dropBlanks := h.dropBlanks
  word name u hu := by
    rw [h.token?] at hu
    cases hu
    rfl
  caseLast u hu rest hrest := by
    obtain ⟨word, hword, -⟩ := hrest
    cases hu with
    | refl =>
      rw [h.token?] at hword
      cases hword
      rfl
    | token htok hu =>
      rw [h.token?] at htok
      cases htok
      cases hu with
      | refl => cases hword
      | token htok _ => cases htok

/-- A symbol and one token after it. -/
theorem Enters.of_symbol {s : Symbol} {u : Text} (hblank : w.dropBlanks = w)
    (h : w.token? = some (.symbol s, u)) (hu : u.IsToken kind) : w.Enters where
  dropBlanks := hblank
  word name v hv := by
    rw [h] at hv
    cases hv
  caseLast v hv rest hrest := by
    cases hv with
    | refl =>
      obtain ⟨word, hword, -⟩ := hrest
      rw [h] at hword
      cases hword
    | token htok hv =>
      rw [h] at htok
      cases htok
      exact hu.enters.caseLast v hv rest hrest

end Text

namespace Expectation

variable {e e' : Expectation} {w : Text} {kind : TokenKind}

/-- No two expectations are worded alike. -/
theorem describe_injective (h : e.describe = e'.describe) : e = e' := by
  have hticks : ∀ {s t : Text}, s.inBackTicks = t.inBackTicks → s = t := by
    intro s t h
    simpa [Text.inBackTicks] using h
  cases e with
  | symbol s =>
    cases e' with
    | symbol s' => rw [Symbol.written_injective (hticks h)]
    | keyword k => cases s <;> cases k <;> exact absurd h (by decide)
    | _ => cases s <;> exact absurd h (by decide)
  | keyword k =>
    cases e' with
    | symbol s => cases s <;> cases k <;> exact absurd h (by decide)
    | keyword k' => rw [Keyword.written_injective (hticks h)]
    | _ => cases k <;> exact absurd h (by decide)
  | _ =>
    cases e' with
    | symbol s => cases s <;> exact absurd h (by decide)
    | keyword k => cases k <;> exact absurd h (by decide)
    | _ => first | rfl | exact absurd h (by decide)

theorem met_of_isToken (hw : w.IsToken kind) (hplain : e.isPlain = true)
    (haccepts : e.accepts kind = true) : w.Enters ∧ w ≠ [] ∧ e.IsMet w :=
  ⟨hw.enters, hw.ne_nil, (isMet_iff_of_isPlain hplain w).2 ⟨kind, [], hw.token?, haccepts⟩⟩

/-- What an alternative stands for is what was expected. -/
theorem Offers.isMet (h : e.Offers w) : w.Enters ∧ w ≠ [] ∧ e.IsMet w := by
  have hone : Text.IsToken ['1'] (.number ['1']) := rfl
  have hminus : Text.IsToken ['-'] (.symbol .minus) := rfl
  have hgreater : Text.IsToken ['>'] (.symbol .greater) := rfl
  cases e with
  | symbol s =>
    by_cases hs : s = .minus
    · subst hs
      have heq : w = ['-', '1'] := h
      subst heq
      exact ⟨.of_symbol rfl rfl hone, by simp, _, _, _, rfl, rfl⟩
    · have hw : w.IsToken (.symbol s) := by
        cases s <;> first | exact absurd rfl hs | (cases h; rfl)
      exact met_of_isToken hw (by simpa [isPlain] using hs) (by simp [accepts])
  | keyword k =>
    have hk : k.written.IsToken (.identifier k.written) := by cases k <;> rfl
    obtain ⟨kind, hw, hlower⟩ := hk.of_eqIgnoringCase h
    refine met_of_isToken hw rfl ?_
    rw [accepts, ← TokenKind.isKeyword_lower, hlower, TokenKind.isKeyword_lower]
    cases k <;> rfl
  | leftArrow =>
    have heq : w = ['<', '-'] := h
    subst heq
    exact ⟨.of_symbol rfl rfl hminus, by simp, _, _, rfl, rfl⟩
  | rightArrow =>
    have heq : w = ['-', '>'] := h
    subst heq
    exact ⟨.of_symbol rfl rfl hgreater, by simp, _, _, rfl, rfl⟩
  | identifier => obtain ⟨name, hw⟩ := h; exact met_of_isToken hw rfl rfl
  | quotedString => obtain ⟨text, hw⟩ := h; exact met_of_isToken hw rfl rfl
  | literal =>
    obtain ⟨l, rfl⟩ := h
    have hw : l.written.IsToken (.identifier l.written) := by
      cases l with
      | null => rfl
      | boolean value => cases value <;> rfl
    refine met_of_isToken hw rfl ?_
    cases l with
    | null => rfl
    | boolean value => cases value <;> rfl
  | number => obtain ⟨text, hw⟩ := h; exact met_of_isToken hw rfl rfl
  | operator =>
    obtain ⟨o, ho⟩ := h
    have hwritten : ∃ kind, o.written.IsToken kind ∧ Operator.ofToken? kind = some o := by
      cases o <;> exact ⟨_, rfl, rfl⟩
    obtain ⟨kind, hkind, hofToken⟩ := hwritten
    obtain ⟨kind', hw, hlower⟩ := hkind.of_eqIgnoringCase ho
    refine met_of_isToken hw rfl ?_
    rw [accepts, ← Operator.ofToken?_lower, hlower, Operator.ofToken?_lower, hofToken]
    rfl
  | clause => cases h
  | endOfInput => cases h

/-- A single token that was expected is what the alternative stands for. -/
theorem offers_of_isMet (hw : w.IsToken kind) (h : e.IsMet w) : e.Offers w := by
  have hplain : e.isPlain = true → e.accepts kind = true := by
    intro hplain
    obtain ⟨kind', u, hu, haccepts⟩ := (isMet_iff_of_isPlain hplain w).1 h
    rw [hw.token?] at hu
    cases hu
    exact haccepts
  have hpair : ∀ {kind' next u v}, w.token? = some (kind', u) →
      Text.adjacentToken? u ≠ some (next, v) := by
    intro kind' next u v hu
    rw [hw.isSingle kind' u hu]
    exact nofun
  cases e with
  | symbol s =>
    by_cases hs : s = .minus
    · subst hs
      obtain ⟨u, digits, v, hu, hv⟩ := h
      exact absurd hv (hpair hu)
    · have hkind : kind = .symbol s := by
        simpa [accepts] using hplain (by simpa [isPlain] using hs)
      have heq := hw.eq_written
      rw [hkind] at heq
      cases s <;> first | exact absurd rfl hs | exact heq
  | keyword k =>
    have hkeyword : kind.isKeyword k = true := hplain rfl
    cases kind with
    | identifier name => rw [hw.eq_written]; exact hkeyword
    | _ => cases hkeyword
  | leftArrow => obtain ⟨u, v, hu, hv⟩ := h; exact absurd hv (hpair hu)
  | rightArrow => obtain ⟨u, v, hu, hv⟩ := h; exact absurd hv (hpair hu)
  | identifier =>
    cases kind with
    | identifier name => exact ⟨name, hw⟩
    | _ => cases hplain rfl
  | quotedString =>
    cases kind with
    | quoted text => exact ⟨text, hw⟩
    | _ => cases hplain rfl
  | literal =>
    cases kind with
    | identifier name =>
      obtain ⟨l, hl⟩ := Option.isSome_iff_exists.1 (hplain rfl)
      have hfound := List.find?_some hl
      exact ⟨l, by rw [hw.eq_written]; exact (beq_iff_eq.1 hfound).symm⟩
    | _ => cases hplain rfl
  | number =>
    cases kind with
    | number text => exact ⟨text, hw⟩
    | _ => cases hplain rfl
  | operator =>
    obtain ⟨o, ho⟩ := Option.isSome_iff_exists.1 (hplain rfl)
    refine ⟨o, ?_⟩
    rw [hw.eq_written, Text.eqIgnoringCase_iff]
    cases kind with
    | symbol s => rw [TokenKind.written, Operator.written_of_ofSymbol? ho]
    | identifier name =>
      have hfound := List.find?_some (p := fun o : Operator => o.written.eqIgnoringCase name) ho
      exact (Text.eqIgnoringCase_iff.1 hfound).symm
    | _ => cases ho
  | clause =>
    obtain ⟨kind', u, -, haccepts⟩ := h
    cases haccepts
  | endOfInput => exact hw.ne_nil (hw.dropBlanks.symm.trans h)

end Expectation

/-! ## The alternatives of an error -/

/-- The expectation is among the alternatives of the error. -/
def SyntaxError.Lists (error : SyntaxError) (e : Expectation) : Prop :=
  e.describe ∈ error.alternatives

instance (error : SyntaxError) (e : Expectation) : Decidable (error.Lists e) :=
  inferInstanceAs (Decidable (_ ∈ _))

/-- The text is one of the alternatives. A minus sign alone is one where an arrow is, for it may
    be the mark of a relationship. -/
def SyntaxError.Admits (error : SyntaxError) (w : Text) : Prop :=
  (∃ e, error.Lists e ∧ e.Offers w) ∨
    w = ['-'] ∧ (error.Lists .leftArrow ∨ error.Lists .rightArrow)

/-- After the text `before`, exactly the alternatives of the error lead further. -/
structure SyntaxError.ExactAfter (limit : Nat) (before : Text) (error : SyntaxError) : Prop where
  /-- Each alternative stands for some text, or for the end. -/
  named : ∀ a ∈ error.alternatives, ∃ e : Expectation, a = e.describe ∧ e ≠ .clause
  /-- What an alternative stands for is read, or something after it is not. -/
  leads : ∀ e, error.Lists e → ∀ w, e.Offers w → ∀ error',
    Query.parse limit (before ++ ' ' :: w) = .error error' →
      before.byteSize + 1 < error'.span.start
  /-- Where the end is an alternative, the text before is a query. -/
  ends : error.Lists .endOfInput → ∃ q, Query.parse limit before = .ok q
  /-- Any other token is refused where it stands. -/
  refuses : ∀ w kind, w.IsToken kind → ¬error.Admits w → ∃ error',
    Query.parse limit (before ++ ' ' :: w) = .error error' ∧
      error'.span.start = before.byteSize + 1

open Production

/-- Where a text is refused, it goes on with what was expected there. -/
theorem RefusedAt.exactAfter {limit : Nat} {before old : Text} {error : SyntaxError}
    (h : RefusedAt limit (before ++ old) old)
    (hnamed : ∀ a ∈ error.alternatives, ∃ e : Expectation, a = e.describe)
    (hlists : ∀ e, error.Lists e ↔
      .expected e old ∈ (Production.query limit).notes (before ++ old)) :
    error.ExactAfter limit before := by
  have hfork : ∀ {gap new : Text}, gap.Opens → gap.dropBlanks = new →
      Fork old new (before ++ old) (before ++ gap) := by
    rintro gap new hgap rfl
    obtain ⟨u, hu, hold⟩ := h.leads
    exact fork_of_leads hu hold h.caseFree hgap
  have hspace : ∀ {w : Text}, w.Enters → Fork old w (before ++ old) (before ++ ' ' :: w) :=
    fun hw => hfork (Text.notNext_cons.2 rfl) hw.dropBlanks
  have hlonger : ∀ w : Text, (before ++ ' ' :: w).byteSize = before.byteSize + 1 + w.byteSize := by
    intro w
    rw [Text.byteSize_append, Text.byteSize_cons, ← Nat.add_assoc]
    rfl
  refine ⟨fun a ha => ?_, fun e he w hw error' herror => ?_, fun he => ?_, fun w kind hw hno => ?_⟩
  · obtain ⟨e, rfl⟩ := hnamed a ha
    refine ⟨e, rfl, ?_⟩
    rintro rfl
    rcases (mem_notes_query h.start).1 ((hlists _).1 ha) with heq | hn | ⟨_, _, -, heq, -⟩
    · cases heq
    · exact ((Tokenwise.body limit).ordinary _ hn).1 rfl
    · cases heq
  · obtain ⟨henters, hne, hmet⟩ := hw.isMet
    have hlt := h.lt_start_of_isMet (hspace henters) henters hne ((hlists e).1 he) hmet herror
    rw [hlonger] at hlt
    omega
  · have hnil : Fork old [] (before ++ old) (before ++ []) := hfork (Text.notNext_nil _) rfl
    rw [List.append_nil] at hnil
    exact h.parse_of_endOfInput hnil ((hlists _).1 he)
  · have hinvites : ¬Note.Invites old w ((Production.query limit).notes (before ++ old)) := by
      rintro (⟨e, he, hmet⟩ | ⟨⟨u, hu⟩, harrow⟩)
      · exact hno (Or.inl ⟨e, (hlists e).2 he, Expectation.offers_of_isMet hw hmet⟩)
      · rw [hw.token?] at hu
        cases hu
        exact hno (Or.inr ⟨hw.eq_written, harrow.imp (hlists _).2 (hlists _).2⟩)
    obtain ⟨error', herror, heq⟩ := h.start_of_not_invites (hspace hw.enters) hw.enters
      hw.ne_nil hw.isSingle hinvites
    rw [hlonger] at heq
    exact ⟨error', herror, by omega⟩

namespace Query

/-- An error that is not about nesting is one at the furthest place. -/
theorem exists_refusedAt {limit : Nat} {source : Text} {error : SyntaxError}
    (h : parse limit source = .error error) (hnesting : ∀ l, error.cause ≠ .nestingTooDeep l)
    (hstart : ∀ u, ¬KeywordAt .start source u) (hfree : source.CaseFree) :
    ∃ before old, source = before ++ old ∧ before.byteSize = error.span.start ∧
      RefusedAt limit source old ∧
      (∀ a ∈ error.alternatives, ∃ e : Expectation, a = e.describe) ∧
      ∀ e, error.Lists e ↔ .expected e old ∈ (Production.query limit).notes source := by
  obtain ⟨u, hmissed⟩ : ∃ u, (Production.query limit).outcome source = .missed u := by
    cases ho : (Production.query limit).outcome source with
    | matched q u => rw [parse_eq, ho] at h; cases h
    | missed u => exact ⟨u, rfl⟩
    | gaveUp =>
      obtain ⟨span, herror⟩ := parse_of_gaveUp hstart ho
      rw [h] at herror
      cases herror
      exact absurd rfl (hnesting limit)
  obtain ⟨f, old, herror, hof, hsize, hexpected⟩ :=
    parse_of_missed hmissed ((mem_notes_query hstart).2 (Or.inl rfl))
  rw [h] at herror
  cases herror
  obtain ⟨before, heq⟩ : ∃ before : Text, before ++ old = source := hof.suffix
  have hbefore := congrArg Text.byteSize heq
  rw [Text.byteSize_append] at hbefore
  refine ⟨before, old, heq.symm, by omega,
    ⟨hstart, hfree, ⟨u, hmissed⟩, hof.furthest, hexpected⟩, fun a ha => ?_, fun e => ?_⟩
  · rw [Furthest.alternatives_error] at ha
    obtain ⟨e, -, rfl⟩ := List.mem_map.1 ha
    exact ⟨e, rfl⟩
  · rw [SyntaxError.Lists, Furthest.alternatives_error, ← hof.expected]
    constructor
    · intro he
      obtain ⟨e', he', hdescribe⟩ := List.mem_map.1 he
      rwa [← Expectation.describe_injective hdescribe]
    · exact List.mem_map_of_mem

/-- The alternatives of an error are exact: the text before the error goes on with each of them,
    and with no other token. -/
theorem exact_of_refused {limit : Nat} {source : Text} {error : SyntaxError}
    (h : parse limit source = .error error) (hnesting : ∀ l, error.cause ≠ .nestingTooDeep l)
    (hstart : ∀ token ∈ (tokenize source).tokens.head?,
      token.kind.isWord Keyword.start.written = false)
    (hcase : ∀ token ∈ (tokenize source).tokens,
      token.kind.isWord Keyword.case_.written = false) :
    ∃ before after, source = before ++ after ∧ before.byteSize = error.span.start ∧
      error.ExactAfter limit before := by
  have hfirst := Text.not_keywordAt_start_of_tokens hstart
  have hfree : source.CaseFree := Text.caseFree_of_tokens (c := .start source) hcase
  obtain ⟨before, old, rfl, hsize, hrefused, hnamed, hlists⟩ :=
    exists_refusedAt h hnesting hfirst hfree
  exact ⟨before, old, rfl, hsize, hrefused.exactAfter hnamed hlists⟩

/-- After `RETURN a` an operator, an alias, a comma and the end are expected, among others. -/
theorem exact_of_refused_item :
    let source : Text := "RETURN a )".toList
    ∃ error, parse 0 source = .error error ∧ error.span.start = 9 ∧ error.Lists .operator ∧
      error.Lists .endOfInput ∧ ∃ before after, source = before ++ after ∧
        before.byteSize = error.span.start ∧ error.ExactAfter 0 before := by
  intro source
  let error : SyntaxError := ⟨.unexpected (["`(`", "`.`", "operator", "`AS`", "`,`",
    "end of input"].map String.toList) (.token [')']), ⟨9, 10⟩⟩
  have h : parse 0 source = .error error := by decide +kernel
  exact ⟨error, h, rfl, by decide, by decide, exact_of_refused h nofun (by decide +kernel)
    (by decide +kernel)⟩

/-- A minus sign alone is none of the texts that the alternatives after a node stand for, but it
    is read there as the mark of a relationship. -/
theorem minus_not_refused :
    let source : Text := "MATCH (a) )".toList
    let before : Text := "MATCH (a) ".toList
    ∃ error error', parse defaultLimit source = .error error ∧
      (∀ l, error.cause ≠ .nestingTooDeep l) ∧
      (∀ token ∈ (tokenize source).tokens.head?,
        token.kind.isWord Keyword.start.written = false) ∧
      (∀ token ∈ (tokenize source).tokens,
        token.kind.isWord Keyword.case_.written = false) ∧
      source = before ++ [')'] ∧ before.byteSize = error.span.start ∧
      Text.IsToken ['-'] (.symbol .minus) ∧ (∀ e, error.Lists e → ¬e.Offers ['-']) ∧
      parse defaultLimit (before ++ [' ', '-']) = .error error' ∧
      error'.span.start ≠ before.byteSize + 1 := by
  intro source before
  let error : SyntaxError := ⟨.unexpected (["`<-`", "`-`", "`,`", "`WHERE`", "`MATCH`",
    "`OPTIONAL`", "`RETURN`"].map String.toList) (.token [')']), ⟨10, 11⟩⟩
  let error' : SyntaxError := ⟨.unexpected (["`[`"].map String.toList) .endOfInput, ⟨12, 12⟩⟩
  have hno : ∀ e, error.Lists e → ¬e.Offers ['-'] := by
    intro e he hoffers
    cases e with
    | symbol s => cases s <;> first | exact absurd he (by decide) | cases hoffers
    | keyword k => cases k <;> first | exact absurd he (by decide) | cases hoffers
    | leftArrow => cases hoffers
    | _ => exact absurd he (by decide)
  exact ⟨error, error', by decide +kernel, nofun, by decide +kernel, by decide +kernel, rfl, rfl,
    rfl, hno, by decide +kernel, by decide⟩

end Query

end Cypher
