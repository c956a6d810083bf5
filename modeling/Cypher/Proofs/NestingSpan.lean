/-
  The span of a nesting error — where it can be cut out of the query.

  A query is given up once a parenthesis has been read that opens one level too many. The error
  covers one byte, from the next character on that is not blank. Nothing has been read there: the
  query may end, or a character of several bytes may follow, and the span is then no piece of
  the query.

  * `Span.isPiece_byte_iff`: one byte is a piece of a text iff it is a character;
  * `Production.GivesUpOpen`: where a production gives up, a parenthesis has just been opened.
    So does the whole grammar (`Composed.givesUpOpen`);
  * `Query.isPiece_span_iff_of_nesting`: the span of a nesting error is a piece of the query iff
    an ASCII character follows the parenthesis;
  * `Query.not_isPiece_span_of_nesting`: at the end of the query it is none.
-/
import Cypher.Proofs.GivingUp
import Cypher.Proofs.Partition

namespace Cypher

/-! ## Pieces of a text -/

/-- One byte after the part `before` is a piece iff a character of one byte stands there. -/
theorem Span.isPiece_byte_iff {before after : Text} :
    IsPiece (before ++ after) ⟨before.byteSize, before.byteSize + 1⟩ ↔
      ∃ c rest, after = c :: rest ∧ c.utf8Size = 1 := by
  constructor
  · rintro ⟨-, hle, -, upTo, rest, hsource, hsize⟩
    simp only at hsize
    -- of two beginnings of a text, the one with fewer bytes is a beginning of the other
    obtain ⟨more, rfl⟩ | ⟨less, hless⟩ := List.prefix_or_prefix_of_prefix
      (hsource ▸ List.prefix_append before after : before <+: upTo ++ rest)
      (List.prefix_append upTo rest)
    · rw [Text.byteSize_append] at hsize
      rw [List.append_assoc, List.append_cancel_left_eq] at hsource
      cases more with
      | nil => rw [Text.byteSize_nil] at hsize; omega
      | cons c cs =>
        have hpos := c.utf8Size_pos
        rw [Text.byteSize_cons] at hsize
        exact ⟨c, cs ++ rest, hsource, by omega⟩
    · rw [← hless, Text.byteSize_append] at hsize
      omega
  · rintro ⟨c, rest, rfl, hc⟩
    have hstop : (before ++ c :: rest).IsBoundary (before.byteSize + 1) :=
      ⟨before ++ [c], rest, by simp, by simp [hc]⟩
    exact ⟨Nat.lt_succ_self _, by simp [hc], ⟨before, c :: rest, rfl, rfl⟩, hstop⟩

/-! ## Where a query is given up -/

/-- In the text `t` a parenthesis is opened, and `ahead` follows it after blanks. -/
def Text.Opened (t ahead : Text) : Prop :=
  ∃ u : Text, '(' :: u <:+ t ∧ u.dropBlanks = ahead

theorem Text.Opened.of_suffix {t u ahead : Text} (h : u.Opened ahead) (hu : u <:+ t) :
    t.Opened ahead := by
  obtain ⟨v, hv, hahead⟩ := h
  exact ⟨v, hv.trans hu, hahead⟩

namespace Production

variable {α β : Type}

/-- Where `p` gives up, a parenthesis has just been opened. -/
def GivesUpOpen (p : Production α) : Prop :=
  ∀ t limit ahead, .tooDeep limit ahead ∈ p.notes t → t.Opened ahead

namespace GivesUpOpen

variable {p q : Production α} {limit : Nat}

/-- What does not depend on the limit never gives up. -/
theorem never (hp : ∀ limit, Tokenwise limit false p) : p.GivesUpOpen :=
  fun _ _ _ hn => absurd hn (not_tooDeep_of_tokenwise hp)

theorem bind {f : α → Production β} (hp : p.GivesUpOpen) (hf : ∀ a, (f a).GivesUpOpen) :
    (p >>= f).GivesUpOpen := by
  intro t limit ahead hn
  rcases mem_notes_bind.1 hn with hn | ⟨a, u, hu, hn⟩
  exacts [hp t _ _ hn, (hf a u _ _ hn).of_suffix (suffix_of_matched hu)]

theorem pure (a : α) : (Pure.pure a : Production α).GivesUpOpen :=
  nofun

theorem orElse (hp : p.GivesUpOpen) (hq : q.GivesUpOpen) : (p <|> q).GivesUpOpen := by
  intro t limit ahead hn
  rcases mem_notes_orElse.1 hn with hn | ⟨u, hu, hn⟩
  exacts [hp t _ _ hn, (hq u _ _ hn).of_suffix ((suffix_of_outcome p).2 hu)]

theorem lookahead (hp : p.GivesUpOpen) : (lookahead p).GivesUpOpen := by
  intro t limit ahead hn
  rcases mem_notes_lookahead.1 hn with hn | ⟨a, u, -, hn⟩
  · exact hp t _ _ hn
  · cases hn

theorem many (hp : p.GivesUpOpen) : (many p).GivesUpOpen := by
  intro t limit ahead hn
  refine forall_mem_notes_many (fun t note => ∀ l v, note = .tooDeep l v → t.Opened v)
    (fun t note hnote l v hdeep => hp t l v (hdeep ▸ hnote)) (fun hu hnote l v hdeep => ?_)
    t _ hn _ _ rfl
  exact (hnote l v hdeep).of_suffix (suffix_of_matched hu)

/-- A level that is not allowed is given up behind the parenthesis that opens it. -/
theorem tooDeep (limit : Nat) :
    (symbol .leftParen >>= fun _ => (tooDeep limit : Production α)).GivesUpOpen := by
  intro t l ahead hn
  rcases mem_notes_bind.1 hn with hn | ⟨_, u, hu, hn⟩
  · cases (mem_notes_token.1 hn).1
  · have hblanks := Text.dropBlanks_of_token? (outcome_symbol_eq_matched.1 hu)
    have hparen : '(' :: u <:+ t.dropBlanks := hblanks ▸ List.suffix_rfl
    cases List.mem_singleton.1 hn
    exact ⟨u, hparen.trans (Text.dropBlanks_suffix t), rfl⟩

end GivesUpOpen

/-- What is composed as the grammar is gives up only behind an opening parenthesis. -/
theorem Composed.givesUpOpen {scope : Scope} {n : Nat} {γ : Type} {fold : α → γ}
    {p p' : Production α} (h : Composed scope n fold p p') (hfolds : scope.folds = false) :
    p.GivesUpOpen := by
  induction h with
  | succeed _ => exact .pure _
  | andThen _ _ ihp ihf => exact .bind ihp fun a => ihf a a (.refl a)
  | orTry _ _ ihp ihq => exact .orElse ihp ihq
  | attempt _ ih => exact ih
  | maybe _ ih => exact ih
  | lookahead _ _ ih => exact .lookahead ih
  | many _ _ ih => exact .many ih
  | token haccepts hplain _ => exact .never fun _ => .token haccepts hplain
  | leftMark => exact .never fun _ => .leftMark
  | rightMark => exact .never fun _ => .rightMark
  | number => exact .never fun _ => .number
  | caseExpression => exact .never fun _ => .caseExpression
  | startBody _ => exact fun _ _ _ hn => by cases (mem_notes_startBody.1 hn).1
  | endOfInput _ => exact fun _ _ _ hn => by cases (mem_notes_endOfInput.1 hn).1
  | propertyOrPlain h => rw [hfolds] at h; cases h
  | parenthesis _ ih => exact .bind (.never fun _ => .symbol (by simp)) fun _ => ih
  | tooDeep _ => exact .tooDeep _
  | mono _ _ ih => exact ih

/-- A query is given up only behind an opening parenthesis. -/
theorem givesUpOpen_query (limit : Nat) : (query limit).GivesUpOpen :=
  (Composed.query limit 0 false).givesUpOpen rfl

end Production

theorem Furthest.cause_error_ne (f : Furthest) (l : Nat) : f.error.cause ≠ .nestingTooDeep l := by
  rw [error]
  split <;> simp

namespace Query

open Production

variable {limit l : Nat} {source : Text} {error : SyntaxError}

/-- A nesting error is reported for a note, and covers one byte from the place of the note on. -/
theorem exists_tooDeep_of_parse (h : parse limit source = .error error)
    (hnesting : error.cause = .nestingTooDeep l) :
    ∃ l' ahead, .tooDeep l' ahead ∈ (Production.query limit).notes source ∧
      error.span =
        ⟨source.byteSize - ahead.byteSize, source.byteSize - ahead.byteSize + 1⟩ := by
  cases ho : (Production.query limit).outcome source with
  | matched q rest => rw [parse_eq, ho] at h; cases h
  | missed rest =>
    rw [parse_eq, ho] at h
    rw [← Except.error.inj h,
      Note.report_of_not_tooDeep fun _ _ => Tidy.not_tooDeep_of_missed ho] at hnesting
    exact absurd hnesting (Furthest.cause_error_ne _ l)
  | gaveUp =>
    obtain ⟨_, _, hdeep⟩ := outcome_eq_gaveUp_iff.1 ho
    obtain ⟨l', ahead, hmem, hreport⟩ := Note.report_of_tooDeep source hdeep
    rw [parse_eq, ho] at h
    exact ⟨l', ahead, hmem, by rw [← Except.error.inj h, hreport]; rfl⟩

/-- A nesting error covers one byte, from the first character on that is not blank after an opening
    parenthesis. The span is a piece of the query iff that is an ASCII character. -/
theorem isPiece_span_iff_of_nesting (h : parse limit source = .error error)
    (hnesting : error.cause = .nestingTooDeep l) :
    ∃ before blanks after : Text, source = before ++ '(' :: blanks ++ after ∧
      blanks.all Text.isBlank = true ∧ Text.NotNext Text.isBlank after ∧
      error.span = ⟨Text.byteSize (before ++ '(' :: blanks),
        Text.byteSize (before ++ '(' :: blanks) + 1⟩ ∧
      (error.span.IsPiece source ↔ ∃ c rest, after = c :: rest ∧ c.toNat < 128) := by
  obtain ⟨l', _, hdeep, hspan⟩ := exists_tooDeep_of_parse h hnesting
  obtain ⟨u, ⟨before, rfl⟩, rfl⟩ := givesUpOpen_query limit source l' _ hdeep
  have hu := Text.takeWhile_append_dropBlanks u
  have hsource : before ++ '(' :: u =
      before ++ '(' :: u.takeWhile Text.isBlank ++ u.dropBlanks := by
    rw [List.append_assoc, List.cons_append, hu]
  have hoffset : Text.byteSize (before ++ '(' :: u) - Text.byteSize u.dropBlanks =
      Text.byteSize (before ++ '(' :: u.takeWhile Text.isBlank) := by
    rw [hsource, Text.byteSize_append _ u.dropBlanks, Nat.add_sub_cancel]
  rw [hoffset] at hspan
  refine ⟨before, u.takeWhile Text.isBlank, u.dropBlanks, hsource, List.all_takeWhile,
    Text.notNext_dropWhile _ u, hspan, ?_⟩
  rw [hspan, hsource, Span.isPiece_byte_iff]
  have hascii : ∀ c : Char, c.utf8Size = 1 ↔ c.toNat < 128 := fun c =>
    Char.utf8Size_eq_one_iff.trans (UInt32.le_iff_toNat_le.trans Nat.lt_succ_iff.symm)
  simp only [hascii]

/-- The call is one level too deep; blanks and a letter follow its parenthesis. -/
theorem isPiece_span_iff_of_nesting_blanks :
    let source : Text := "RETURN (f( \t a))".toList
    ∃ error, parse 1 source = .error error ∧ error.cause = .nestingTooDeep 1 ∧
      ∃ before blanks after : Text, source = before ++ '(' :: blanks ++ after ∧
        blanks.all Text.isBlank = true ∧ Text.NotNext Text.isBlank after ∧
        error.span = ⟨Text.byteSize (before ++ '(' :: blanks),
          Text.byteSize (before ++ '(' :: blanks) + 1⟩ ∧
        (error.span.IsPiece source ↔ ∃ c rest, after = c :: rest ∧ c.toNat < 128) := by
  intro source
  have h : parse 1 source = .error (.nestingTooDeep 1 ⟨13, 14⟩) := by decide +kernel
  exact ⟨_, h, rfl, isPiece_span_iff_of_nesting h rfl⟩

/-- At the end of the query, and before a character of two bytes, the span of a nesting error is no
    piece of the query. -/
theorem not_isPiece_span_of_nesting :
    let ended : Text := "RETURN (".toList
    let wide : Text := "RETURN (é)".toList
    let error : SyntaxError := .nestingTooDeep 0 ⟨8, 9⟩
    parse 0 ended = .error error ∧ ¬error.span.IsPiece ended ∧
      parse 0 wide = .error error ∧ ¬error.span.IsPiece wide := by
  intro ended wide error
  refine ⟨by decide +kernel, fun h => ?_, by decide +kernel, fun h => ?_⟩
  · have hle : 9 ≤ 8 := h.stop_le
    omega
  · obtain ⟨c, rest, hc, hsize⟩ := (@Span.isPiece_byte_iff ended ['é', ')']).1 h
    cases hc
    cases hsize

end Query

end Cypher
