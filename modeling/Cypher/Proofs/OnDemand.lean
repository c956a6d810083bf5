/-
  Tokens on demand — the items that a query is read by are those of the whole text.

  No list of tokens is made before a query is read. An item is read from the cursor whenever one is
  looked at, and the cursor goes back and forth. If nothing is taken over verbatim, it only
  ever stands behind tokens of the text, so that the items are the same as those of the whole text.

  * `Cursor.BehindTokens source`: the cursor is where reading tokens from the start leads to;
  * `Production.keeps_behindTokens`: reading token by token keeps it there;
  * `Query.next?_of_states`: in every state of reading a query, the item at the cursor is the first
    one of the whole text that starts there or later.
-/
import Cypher.Proofs.Steps
import Cypher.Proofs.Tokenwise

namespace Cypher

namespace Cursor

variable {source : Text} {c d e : Cursor} {read more : List Item} {item : Item}

theorem Reads.append (h : Reads c read d) (h' : Reads d more e) : Reads c (read ++ more) e := by
  induction h with
  | done c => exact h'
  | step hnext _ ih => exact .step hnext (ih h')

theorem Reads.items_eq (h : Reads c read d) : c.items = read ++ d.items := by
  induction h with
  | done c => rfl
  | step hnext _ ih => rw [items_eq_cons hnext, ih, List.cons_append]

/-- The cursor is at the end of the last item that was read. -/
theorem Reads.offset_eq (h : Reads c read d) :
    d.offset = c.offset ∨ ∃ item ∈ read, item.span.stop = d.offset := by
  induction h with
  | done c => exact Or.inl rfl
  | step hnext _ ih =>
    refine Or.inr ?_
    rcases ih with hd | ⟨item, hmem, hstop⟩
    · exact ⟨_, List.mem_cons_self, hd ▸ stop_of_next? hnext⟩
    · exact ⟨item, List.mem_cons_of_mem _ hmem, hstop⟩

/-- Items that were read begin before the cursor. -/
theorem Reads.start_lt (h : Reads c read d) (hmem : item ∈ read) : item.span.start < d.offset := by
  induction h with
  | done c => cases hmem
  | step hnext hreads ih =>
    rcases List.mem_cons.1 hmem with rfl | hmem
    · exact Nat.lt_of_lt_of_le (offset_le_of_next? hnext).2 hreads.offset_le
    · exact ih hmem

/-- Reading tokens from the start of the text leads to the cursor. -/
def BehindTokens (source : Text) (c : Cursor) : Prop :=
  ∃ read, Reads (start source) read c ∧ ∀ item ∈ read, item.token?.isSome = true

theorem behindTokens_start (source : Text) : (start source).BehindTokens source :=
  ⟨[], .done _, nofun⟩

namespace BehindTokens

theorem isIn (h : c.BehindTokens source) : c.IsIn source := by
  obtain ⟨read, hreads, -⟩ := h
  exact (isIn_start source).reads hreads

theorem offset_eq (h : c.BehindTokens source) :
    c.offset = 0 ∨ ∃ token ∈ (tokenize source).tokens, token.span.stop = c.offset := by
  obtain ⟨read, hreads, htokens⟩ := h
  rcases hreads.offset_eq with hzero | ⟨item, hmem, hstop⟩
  · exact Or.inl hzero
  · obtain ⟨token, htoken⟩ := Option.isSome_iff_exists.1 (htokens item hmem)
    refine Or.inr ⟨token, ?_, ?_⟩
    · rw [tokenize, lexed, List.mem_filterMap]
      exact ⟨item, hreads.items_eq ▸ List.mem_append_left _ hmem, htoken⟩
    · rw [← hstop]
      obtain ⟨_ | _, span⟩ := item <;> cases htoken
      rfl

/-- The next item is the first one of the whole text that does not begin before the cursor. -/
theorem next?_eq_find? (h : c.BehindTokens source) :
    c.next?.map Prod.fst = (start source).items.find? fun item => c.offset ≤ item.span.start := by
  obtain ⟨read, hreads, -⟩ := h
  have hread : read.find? (fun item => c.offset ≤ item.span.start) = none := by
    refine List.find?_eq_none.2 fun item hmem => ?_
    have hlt := hreads.start_lt hmem
    simpa using hlt
  rw [hreads.items_eq, List.find?_append, hread, Option.none_or]
  cases hnext : c.next? with
  | none => rw [items_eq_nil hnext]; rfl
  | some found =>
    obtain ⟨item, after⟩ := found
    have hle : c.offset ≤ item.span.start := (offset_le_of_next? hnext).1
    rw [items_eq_cons hnext, List.find?_cons_of_pos (by simpa using hle)]
    rfl

/-- The token that comes next is one of the text. -/
theorem token_mem {kind : TokenKind} {span : Span} {after : Cursor} (h : c.BehindTokens source)
    (hnext : c.next? = some (⟨.token kind, span⟩, after)) :
    ⟨kind, span⟩ ∈ (tokenize source).tokens := by
  obtain ⟨read, hreads, -⟩ := h
  rw [tokenize, lexed, List.mem_filterMap]
  refine ⟨⟨.token kind, span⟩, ?_, rfl⟩
  rw [hreads.items_eq, items_eq_cons hnext]
  exact List.mem_append_right _ List.mem_cons_self

end BehindTokens

end Cursor

namespace State

variable {source : Text} {s s' : State}

theorem TokenStep.behindTokens (h : s.TokenStep s') (hs : s.cursor.BehindTokens source) :
    s'.cursor.BehindTokens source := by
  cases h with
  | stay => exact hs
  | tokens hreads _ htokens =>
    obtain ⟨read, hread, hall⟩ := hs
    refine ⟨_, hread.append hreads, fun item hmem => ?_⟩
    rcases List.mem_append.1 hmem with hmem | hmem
    exacts [hall item hmem, htokens item hmem]
  | expected e htakes => exact hs
  | gaveUp error => exact hs

end State

namespace Production

variable {α β : Type} {limit : Nat} {looks : Bool} {source : Text}

/-- A keyword is not read where no token stands that is this word. -/
theorem run_keyword_of_ne {k : Keyword} {s : State} (h : ∀ kind span after,
    s.cursor.next? = some (⟨.token kind, span⟩, after) → kind.isKeyword k = false) :
    (keyword k).run s = (none, s.expect (.keyword k)) := by
  simp only [keyword, run, Reading.token]
  split
  · rename_i kind span after hnext
    rw [h kind span after hnext]
    rfl
  · rfl

/-- What comes after a production that is never read does not count. -/
theorem Keeps.of_missed {good : State → Prop} {p : Production α} {f : α → Production β}
    (hp : p.Keeps good) (hmiss : ∀ s, good s → (p.run s).1 = none) : (p >>= f).Keeps good := by
  intro s hs t ht
  rcases mem_states_bind.1 ht with ht | ⟨a, s', heq, -⟩
  · exact hp s hs t ht
  · have hnone := hmiss s hs
    rw [heq] at hnone
    cases hnone

/-- Reading token by token leaves the cursor behind tokens, if no token is the word `CASE`. -/
theorem keeps_behindTokens {p : Production α} (hp : Tokenwise limit looks p)
    (hcase : ∀ token ∈ (tokenize source).tokens, token.kind.isWord Keyword.case_.written = false) :
    p.Keeps fun s => s.cursor.BehindTokens source := by
  have hback : ∀ s t : State, s.cursor.BehindTokens source → t.cursor.BehindTokens source →
      (t.moveTo s.cursor).cursor.BehindTokens source := fun s t hs _ => hs
  have htoken : ∀ {α : Type} (e : Expectation) (accept : TokenKind → Option α),
      (token e accept).Keeps fun s => s.cursor.BehindTokens source := fun e accept =>
    .elementary rfl fun s => (Reading.tokenStep_token e accept s).behindTokens
  have harrow : ∀ e first second,
      (arrow e first second).Keeps fun s => s.cursor.BehindTokens source := fun e first second =>
    .elementary rfl fun s => (Reading.tokenStep_arrow e first second s).behindTokens
  have hmark : ∀ {α : Type} (e : Expectation) (first second : Symbol) (a b : α),
      (mark e first second a b).Keeps fun s => s.cursor.BehindTokens source :=
    fun e first second a b => .orTry (.andThen (harrow e first second) fun _ => .succeed a)
      (.andThen (htoken _ _) fun _ => .succeed b)
  induction hp with
  | succeed a => exact .succeed a
  | andThen _ _ ihp ihf => exact .andThen ihp ihf
  | orTry _ _ ihp ihq => exact .orTry ihp ihq
  | attempt _ ih => exact .attempt hback ih
  | maybe _ ih => exact ih
  | lookahead _ _ ih => exact .lookahead hback ih
  | many _ _ ih => exact .many hback ih
  | token _ _ => exact htoken _ _
  | leftMark => exact hmark _ _ _ _ _
  | rightMark => exact hmark _ _ _ _ _
  | number =>
    have hdigits : (adjacent TokenKind.number?).Keeps fun s => s.cursor.BehindTokens source :=
      .elementary rfl fun s => (Reading.tokenStep_adjacent _ s).behindTokens
    exact .orTry (.attempt hback (.andThen (htoken _ _) fun _ =>
      .andThen hdigits fun _ => .succeed _)) (htoken _ _)
  | caseExpression =>
    refine .of_missed (htoken _ _) fun s hs => ?_
    rw [run_keyword_of_ne fun kind span after hnext => hcase _ (hs.token_mem hnext)]
  | tooDeep => exact .elementary rfl fun s => (Reading.tokenStep_tooDeep limit s).behindTokens

end Production

namespace Query

open Production

variable {limit : Nat} {source : Text}

/-- Before the first clause the cursor does not move, if the first token is not `START`. -/
theorem keeps_start (hstart : ∀ token ∈ (tokenize source).tokens.head?,
      token.kind.isWord Keyword.start.written = false) :
    (optional startClause).Keeps fun s => s.cursor = .start source := by
  have hrun : ∀ s : State, s.cursor = .start source →
      (keyword .start).run s = (none, s.expect (.keyword .start)) := by
    intro s hs
    refine run_keyword_of_ne fun kind span after hnext => hstart ⟨kind, span⟩ ?_
    rw [hs] at hnext
    rw [tokenize, Cursor.lexed, Cursor.items_eq_cons hnext]
    rfl
  refine .maybe (.attempt (fun s t hs _ => hs) (.of_missed ?_ fun s hs => by rw [hrun s hs]))
  refine .elementary rfl fun s hs => ?_
  have hsame := congrArg (fun result => result.2.cursor) (hrun s hs)
  exact hsame.trans hs

/-- A query that does not begin with `START` and holds no `CASE` is read with the cursor behind
    tokens throughout. -/
theorem behindTokens_of_states (hstart : ∀ token ∈ (tokenize source).tokens.head?,
      token.kind.isWord Keyword.start.written = false)
    (hcase : ∀ token ∈ (tokenize source).tokens, token.kind.isWord Keyword.case_.written = false) :
    ∀ s ∈ (Production.query limit).states (.start source), s.cursor.BehindTokens source := by
  have hopening := keeps_start hstart
  have hend : endOfInput.Keeps fun s => s.cursor.BehindTokens source :=
    .elementary rfl fun s => (Reading.tokenStep_endOfInput s).behindTokens
  intro s hs
  rcases mem_states_bind.1 hs with hs | ⟨start, s', hrun, hs⟩
  · rw [hopening _ rfl s hs]
    exact Cursor.behindTokens_start source
  · have hs' := hopening.run (s := .start source) rfl
    rw [hrun] at hs'
    have hbehind : s'.cursor.BehindTokens source := hs' ▸ Cursor.behindTokens_start source
    have hclauses : Tokenwise limit true (many (matchClause limit)) := .clauses
    have hreturn : Tokenwise limit false (keyword .return_) := .keyword .return_
    have hitems : Tokenwise limit false (commaList ReturnItem.isBlank (returnItem limit)) :=
      .returns
    have hrest := (keeps_behindTokens hclauses hcase).andThen fun clauses =>
      (keeps_behindTokens hreturn hcase).andThen fun _ =>
      (keeps_behindTokens hitems hcase).andThen fun returns =>
      hend.andThen fun _ => .succeed (⟨start, clauses, returns⟩ : Query)
    exact hrest s' hbehind s hs

/-- In every state of reading a query that does not begin with `START` and holds no `CASE`, the
    cursor is at the start of the text or at the end of one of its tokens, and the item read there
    is the first one of the whole text that does not begin before the cursor. -/
theorem next?_of_states (hstart : ∀ token ∈ (tokenize source).tokens.head?,
      token.kind.isWord Keyword.start.written = false)
    (hcase : ∀ token ∈ (tokenize source).tokens, token.kind.isWord Keyword.case_.written = false) :
    ∀ s ∈ (Production.query limit).states (.start source),
      (s.cursor.offset = 0 ∨
        ∃ token ∈ (tokenize source).tokens, token.span.stop = s.cursor.offset) ∧
      Cursor.at? source s.cursor.offset = some s.cursor ∧
      s.cursor.next?.map Prod.fst =
        (Cursor.start source).items.find? fun item => s.cursor.offset ≤ item.span.start := by
  intro s hs
  have hbehind := behindTokens_of_states hstart hcase s hs
  exact ⟨hbehind.offset_eq, hbehind.isIn.at?_offset, hbehind.next?_eq_find?⟩

/-- The query is refused at a character that no token matches. On the way a minus sign is read apart
    from the digits behind it, and what began with it is given up and tried again. -/
theorem next?_of_states_refused :
    let source : Text := "MATCH (a)<-[r]-(b) RETURN -1 é".toList
    (∀ token ∈ (tokenize source).tokens.head?,
      token.kind.isWord Keyword.start.written = false) ∧
    (∀ token ∈ (tokenize source).tokens, token.kind.isWord Keyword.case_.written = false) ∧
    (∃ s ∈ (Production.query 0).states (.start source), s.cursor.rest = "1 é".toList) ∧
    ∀ s ∈ (Production.query 0).states (.start source),
      (s.cursor.offset = 0 ∨
        ∃ token ∈ (tokenize source).tokens, token.span.stop = s.cursor.offset) ∧
      Cursor.at? source s.cursor.offset = some s.cursor ∧
      s.cursor.next?.map Prod.fst =
        (Cursor.start source).items.find? fun item => s.cursor.offset ≤ item.span.start := by
  intro source
  have hstart : ∀ token ∈ (tokenize source).tokens.head?,
      token.kind.isWord Keyword.start.written = false := by decide +kernel
  have hcase : ∀ token ∈ (tokenize source).tokens,
      token.kind.isWord Keyword.case_.written = false := by decide +kernel
  exact ⟨hstart, hcase, by decide +kernel, next?_of_states hstart hcase⟩

end Query

end Cypher
