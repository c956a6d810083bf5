/-
  Lowering — a text with its capitals made small has the same tokens.

  Making ASCII capitals small changes neither the length of a text in bytes nor the class
  of any of its characters. So a text and its lowering are cut into tokens at the same
  places, and the same words stand in both.

  * `Lexeme.scan?_lower`, `Text.token?_lower`: the tokens of a lowered text are the
    lowered tokens;
  * `isKeyword_lower`, `ofToken?_lower`: they are the same keywords and operators;
  * `splitAtWord?_lower`, `splitAtClause?_lower`: whole words are found at the same places;
  * `Query.folded`: a query up to letter case.
-/
import Cypher.Proofs.Boundary

namespace Cypher

namespace Text

/-! ## Characters -/

/-- A character that is no capital stays as it is. -/
theorem toLower_eq_self {c : Char} (h : ¬(65 ≤ c.toNat ∧ c.toNat ≤ 90)) : c.toLower = c := by
  rw [← Char.toNat_inj, toNat_toLower, if_neg h]

theorem toLower_toLower (c : Char) : c.toLower.toLower = c.toLower := by
  refine toLower_eq_self ?_
  rw [toNat_toLower]
  split <;> omega

theorem isAlpha_toLower (c : Char) : c.toLower.isAlpha = c.isAlpha := by
  rw [Bool.eq_iff_iff, isAlpha_iff_toNat, isAlpha_iff_toNat, toNat_toLower]
  split <;> omega

theorem isDigit_toLower (c : Char) : c.toLower.isDigit = c.isDigit := by
  rw [Bool.eq_iff_iff, isDigit_iff_toNat, isDigit_iff_toNat, toNat_toLower]
  split <;> omega

theorem isAlphanum_toLower (c : Char) : c.toLower.isAlphanum = c.isAlphanum := by
  rw [Char.isAlphanum, Char.isAlphanum, isAlpha_toLower, isDigit_toLower]

theorem isBlank_toLower (c : Char) : isBlank c.toLower = isBlank c := by
  by_cases h : 65 ≤ c.toNat ∧ c.toNat ≤ 90
  · rw [isBlank_eq_false_of_isAlphanum, isBlank_eq_false_of_isAlphanum]
    · rw [isAlphanum_iff_toNat]; omega
    · rw [isAlphanum_toLower, isAlphanum_iff_toNat]; omega
  · rw [toLower_eq_self h]

theorem isQuotable_toLower (c : Char) : isQuotable c.toLower = isQuotable c := by
  by_cases h : 65 ≤ c.toNat ∧ c.toNat ≤ 90
  · have hc : c.isAlphanum = true := by rw [isAlphanum_iff_toNat]; omega
    rw [isQuotable, isQuotable, isAlphanum_toLower, hc]
    rfl
  · rw [toLower_eq_self h]

theorem isAlphanumeric_toLower (c : Char) : isAlphanumeric c.toLower = isAlphanumeric c := by
  by_cases h : 65 ≤ c.toNat ∧ c.toNat ≤ 90
  · have hc : c.isAlphanum = true := by rw [isAlphanum_iff_toNat]; omega
    rw [isAlphanumeric_of_isAlphanum hc, isAlphanumeric_of_isAlphanum]
    rw [isAlphanum_toLower, hc]
  · rw [toLower_eq_self h]

theorem utf8Size_toLower (c : Char) : c.toLower.utf8Size = c.utf8Size := by
  by_cases h : 65 ≤ c.toNat ∧ c.toNat ≤ 90
  · have hsize : ∀ {d : Char}, d.toNat ≤ 127 → d.utf8Size = 1 := fun hd => if_pos hd
    have hlower := toNat_toLower c
    rw [if_pos h] at hlower
    rw [hsize (by omega), hsize (by omega)]
  · rw [toLower_eq_self h]

/-- Only letters are changed. -/
theorem toLower_eq_iff {c x : Char} (hx : x.isAlpha = false) : c.toLower = x ↔ c = x := by
  have hx' : ¬x.isAlpha = true := by simp [hx]
  constructor
  · rintro rfl
    rw [isAlpha_toLower, isAlpha_iff_toNat] at hx'
    exact (toLower_eq_self (by omega)).symm
  · rintro rfl
    rw [isAlpha_iff_toNat] at hx'
    exact toLower_eq_self (by omega)

/-! ## Texts -/

@[simp] theorem lower_nil : lower [] = [] := rfl

@[simp] theorem lower_cons (c : Char) (t : Text) : lower (c :: t) = c.toLower :: t.lower := rfl

@[simp] theorem lower_append (s t : Text) : lower (s ++ t) = s.lower ++ t.lower :=
  List.map_append

@[simp] theorem lower_lower (t : Text) : t.lower.lower = t.lower := by
  simp only [lower, List.map_map]
  exact List.map_congr_left fun c _ => toLower_toLower c

@[simp] theorem byteSize_lower (t : Text) : t.lower.byteSize = t.byteSize := by
  induction t with
  | nil => rfl
  | cons c t ih => rw [lower_cons, byteSize_cons, byteSize_cons, utf8Size_toLower, ih]

@[simp] theorem length_lower (t : Text) : t.lower.length = t.length :=
  List.length_map _

theorem lower_eq_nil_iff {t : Text} : t.lower = [] ↔ t = [] :=
  List.map_eq_nil_iff

theorem takeWhile_lower {p : Char → Bool} (hp : ∀ c, p c.toLower = p c) (t : Text) :
    t.lower.takeWhile p = lower (t.takeWhile p) := by
  rw [lower, List.takeWhile_map, show p ∘ Char.toLower = p from funext hp, lower]

theorem dropWhile_lower {p : Char → Bool} (hp : ∀ c, p c.toLower = p c) (t : Text) :
    t.lower.dropWhile p = lower (t.dropWhile p) := by
  rw [lower, List.dropWhile_map, show p ∘ Char.toLower = p from funext hp, lower]

theorem dropBlanks_lower (t : Text) : t.lower.dropBlanks = t.dropBlanks.lower :=
  dropWhile_lower isBlank_toLower t

theorem trim_lower (t : Text) : t.lower.trim = t.trim.lower := by
  have hreverse : ∀ s : Text, s.lower.reverse = lower s.reverse := fun s => List.map_reverse.symm
  rw [trim, trim, dropBlanks_lower, dropBlanksEnd, dropBlanksEnd, hreverse, dropBlanks_lower,
    hreverse]

theorem head?_any_lower {p : Char → Bool} (hp : ∀ c, p c.toLower = p c) (t : Text) :
    t.lower.head?.any p = t.head?.any p := by
  cases t with
  | nil => rfl
  | cons c t => exact hp c

theorem eqIgnoringCase_lower (s t : Text) : s.lower.eqIgnoringCase t = s.eqIgnoringCase t := by
  rw [eqIgnoringCase, eqIgnoringCase, lower_lower]

/-! ## Numerals -/

theorem splitInteger_lower (t : Text) :
    splitInteger t.lower = ((splitInteger t).1.lower, (splitInteger t).2.lower) := by
  cases t with
  | nil => rfl
  | cons c cs =>
    have hzero : c.toLower = '0' ↔ c = '0' := toLower_eq_iff rfl
    have htake := takeWhile_lower isDigit_toLower (c :: cs)
    have hdrop := dropWhile_lower isDigit_toLower (c :: cs)
    rw [lower_cons] at htake hdrop
    simp only [lower_cons, splitInteger, hzero, htake, hdrop]
    split <;> rfl

theorem splitFraction_lower (t : Text) :
    splitFraction t.lower = ((splitFraction t).1.lower, (splitFraction t).2.lower) := by
  cases t with
  | nil => rfl
  | cons c cs =>
    have hdot : c.toLower = '.' ↔ c = '.' := toLower_eq_iff rfl
    simp only [lower_cons, splitFraction, hdot, head?_any_lower isDigit_toLower,
      takeWhile_lower isDigit_toLower, dropWhile_lower isDigit_toLower]
    split <;> simp

theorem splitSign_lower (t : Text) :
    splitSign t.lower = ((splitSign t).1.lower, (splitSign t).2.lower) := by
  cases t with
  | nil => rfl
  | cons c cs =>
    have hplus : c.toLower = '+' ↔ c = '+' := toLower_eq_iff rfl
    have hminus : c.toLower = '-' ↔ c = '-' := toLower_eq_iff rfl
    simp only [lower_cons, splitSign, hplus, hminus]
    split <;> simp

/-- A capital `E` is an exponent mark like a small one. -/
theorem toLower_eq_exponentMark (c : Char) :
    c.toLower = 'e' ∨ c.toLower = 'E' ↔ c = 'e' ∨ c = 'E' := by
  simp only [← Char.toNat_inj, toNat_toLower]
  change _ ∨ _ ↔ c.toNat = 101 ∨ c.toNat = 69
  have he : 'e'.toNat = 101 := rfl
  have hE : 'E'.toNat = 69 := rfl
  rw [he, hE]
  split <;> omega

theorem splitExponent_lower (t : Text) :
    splitExponent t.lower = ((splitExponent t).1.lower, (splitExponent t).2.lower) := by
  cases t with
  | nil => rfl
  | cons c cs =>
    have hmark := toLower_eq_exponentMark c
    simp only [lower_cons, splitExponent, splitSign_lower, head?_any_lower isDigit_toLower,
      takeWhile_lower isDigit_toLower, dropWhile_lower isDigit_toLower, Bool.and_eq_true,
      Bool.or_eq_true, decide_eq_true_eq, hmark]
    split <;> simp

theorem splitNumeral_lower (t : Text) :
    splitNumeral t.lower = ((splitNumeral t).1.lower, (splitNumeral t).2.lower) := by
  simp only [splitNumeral, splitInteger_lower, splitFraction_lower, splitExponent_lower,
    lower_append]

end Text

/-! ## Tokens -/

/-- The token with its capitals made small. -/
def TokenKind.lower : TokenKind → TokenKind
  | symbol s => symbol s
  | number text => number text.lower
  | identifier name => identifier name.lower
  | quoted text => quoted text.lower

/-- The lexeme with its capitals made small. -/
def Lexeme.lower : Lexeme → Lexeme
  | token kind => token kind.lower
  | unrecognized text => unrecognized text.lower

open Text

theorem Symbol.ofChar?_of_isAlpha {c : Char} (h : c.isAlpha = true) : ofChar? c = none := by
  unfold ofChar?
  split <;> first | rfl | (exact absurd h (by decide))

theorem Symbol.ofChar?_toLower (c : Char) : ofChar? c.toLower = ofChar? c := by
  cases hc : c.isAlpha with
  | true => rw [ofChar?_of_isAlpha hc, ofChar?_of_isAlpha ((isAlpha_toLower c).trans hc)]
  | false => rw [(toLower_eq_iff hc).2 rfl]

theorem Symbol.scan?_cons (c : Char) (t : Text) :
    scan? (c :: t) = if c = '=' ∧ t.head? = some '~' then some (regexMatch, t.tail)
      else if c = '<' ∧ t.head? = some '>' then some (notEqual, t.tail)
      else (ofChar? c).map fun s => (s, t) := by
  unfold scan?
  split
  · rename_i heq; cases heq; rfl
  · rename_i heq; cases heq; rfl
  · rename_i hregex hnot heq
    cases heq
    rw [if_neg, if_neg]
    · rintro ⟨rfl, hhead⟩
      obtain ⟨rest, rfl⟩ : ∃ rest, t = '>' :: rest := List.head?_eq_some_iff.1 hhead
      exact hnot rest rfl rfl
    · rintro ⟨rfl, hhead⟩
      obtain ⟨rest, rfl⟩ : ∃ rest, t = '~' :: rest := List.head?_eq_some_iff.1 hhead
      exact hregex rest rfl rfl
  · rename_i heq; cases heq

theorem Symbol.scan?_lower (t : Text) :
    scan? t.lower = (scan? t).map fun found => (found.1, found.2.lower) := by
  cases t with
  | nil => rfl
  | cons c cs =>
    have hequal : c.toLower = '=' ↔ c = '=' := toLower_eq_iff rfl
    have hless : c.toLower = '<' ↔ c = '<' := toLower_eq_iff rfl
    have hhead : ∀ {x : Char}, x.isAlpha = false →
        ((lower cs).head? = some x ↔ cs.head? = some x) := by
      intro x hx
      cases cs with
      | nil => simp
      | cons d ds => simp [toLower_eq_iff hx]
    have htail : (lower cs).tail = lower cs.tail := List.map_tail.symm
    rw [lower_cons, scan?_cons, scan?_cons]
    simp only [hequal, hless, hhead (x := '~') rfl, hhead (x := '>') rfl, htail, ofChar?_toLower]
    split
    · rfl
    · split
      · rfl
      · cases ofChar? c <;> rfl

theorem Lexeme.scanQuotation_lower (t : Text) :
    scanQuotation t.lower = ((scanQuotation t).1.lower, (scanQuotation t).2.lower) := by
  have htick : '\x60'.toLower = '\x60' := rfl
  unfold scanQuotation
  simp only [takeWhile_lower isQuotable_toLower, dropWhile_lower isQuotable_toLower]
  cases hrest : t.dropWhile isQuotable with
  | nil => simp [Lexeme.lower, htick]
  | cons c cs =>
    have hc : c.toLower = '\x60' ↔ c = '\x60' := toLower_eq_iff rfl
    by_cases hclosed : c = '\x60'
    · subst hclosed
      rfl
    · simp only [lower_cons]
      split
      · rename_i heq; exact absurd (hc.1 (List.cons.inj heq).1) hclosed
      · split
        · rename_i heq; exact absurd (List.cons.inj heq).1 hclosed
        · simp [Lexeme.lower, htick]

/-- The first lexeme of a lowered text is the lowered first lexeme. -/
theorem Lexeme.scan?_lower (t : Text) :
    scan? t.lower = (scan? t).map fun found => (found.1.lower, found.2.lower) := by
  cases t with
  | nil => rfl
  | cons c cs =>
    have htick : c.toLower = '\x60' ↔ c = '\x60' := toLower_eq_iff rfl
    have hnumeral := splitNumeral_lower (c :: cs)
    have hsymbol := Symbol.scan?_lower (c :: cs)
    rw [lower_cons] at hnumeral hsymbol
    simp only [lower_cons, scan?, isAlpha_toLower, isDigit_toLower, htick, hnumeral, hsymbol,
      scanQuotation_lower, takeWhile_lower isAlphanum_toLower, dropWhile_lower isAlphanum_toLower]
    split
    · rfl
    split
    · rfl
    split
    · rfl
    cases Symbol.scan? (c :: cs) with
    | none => rfl
    | some found => rfl

/-- The first token of a lowered text is the lowered first token. -/
theorem Text.token?_lower (t : Text) :
    t.lower.token? = t.token?.map fun found => (found.1.lower, found.2.lower) := by
  simp only [token?, dropBlanks_lower, Lexeme.scan?_lower]
  cases Lexeme.scan? t.dropBlanks with
  | none => rfl
  | some found => obtain ⟨_ | _, rest⟩ := found <;> rfl

theorem Text.token?_lower_of_some {t u : Text} {kind : TokenKind} (h : t.token? = some (kind, u)) :
    t.lower.token? = some (kind.lower, u.lower) := by
  rw [token?_lower, h]
  rfl

theorem Text.dropBlanks_lower_eq_iff (t : Text) :
    t.lower.dropBlanks = t.lower ↔ t.dropBlanks = t := by
  rw [dropBlanks_lower]
  constructor
  · intro h
    exact (dropBlanks_suffix t).eq_of_length (by simpa using congrArg List.length h)
  · intro h
    rw [h]

theorem Text.adjacentToken?_lower (t : Text) :
    t.lower.adjacentToken? = t.adjacentToken?.map fun found => (found.1.lower, found.2.lower) := by
  simp only [adjacentToken?, dropBlanks_lower_eq_iff, token?_lower]
  split <;> rfl

theorem TokenKind.isWord_lower (word : Text) (kind : TokenKind) :
    kind.lower.isWord word = kind.isWord word := by
  cases kind with
  | identifier name => exact eqIgnoringCase_lower name word
  | _ => rfl

theorem TokenKind.isKeyword_lower (k : Keyword) (kind : TokenKind) :
    kind.lower.isKeyword k = kind.isKeyword k :=
  isWord_lower k.written kind

theorem TokenKind.identifier?_lower (kind : TokenKind) :
    kind.identifier?.map Text.lower = kind.lower.identifier?.map Text.lower := by
  cases kind <;> simp [lower, identifier?]

theorem TokenKind.quoted?_lower (kind : TokenKind) :
    kind.quoted?.map Text.lower = kind.lower.quoted?.map Text.lower := by
  cases kind <;> simp [lower, quoted?]

theorem TokenKind.number?_lower (kind : TokenKind) :
    kind.number?.map Text.lower = kind.lower.number?.map Text.lower := by
  cases kind <;> simp [lower, number?]

theorem TokenKind.keyword_lower (k : Keyword) (kind : TokenKind) :
    (if kind.isKeyword k then kind.identifier? else none).map Text.lower =
      (if kind.lower.isKeyword k then kind.lower.identifier? else none).map Text.lower := by
  rw [isKeyword_lower]
  split
  · exact identifier?_lower kind
  · rfl

theorem TokenKind.lower_eq_symbol_iff {kind : TokenKind} {s : Symbol} :
    kind.lower = .symbol s ↔ kind = .symbol s := by
  cases kind <;> simp [lower]

theorem Operator.ofToken?_lower (kind : TokenKind) : ofToken? kind.lower = ofToken? kind := by
  cases kind with
  | identifier name => simp only [TokenKind.lower, ofToken?, ofWord?, eqIgnoringCase, lower_lower]
  | _ => rfl

/-! ## Whole words -/

namespace Text

theorem afterWord?_lower (word t : Text) :
    afterWord? word t.lower = (afterWord? word t).map lower := by
  induction word generalizing t with
  | nil => rfl
  | cons w ws ih =>
    cases t with
    | nil => rfl
    | cons c cs =>
      simp only [lower_cons, afterWord?, toLower_toLower, ih]
      split <;> rfl

theorem endsWord_lower (t : Text) : endsWord t.lower = endsWord t := by
  cases t with
  | nil => rfl
  | cons c cs => simp only [lower_cons, endsWord, isAlphanumeric_toLower]

theorem startsWord_lower (word t : Text) : startsWord word t.lower = startsWord word t := by
  simp only [startsWord, afterWord?_lower, Option.any_map]
  exact congrArg (Option.any · _) (funext endsWord_lower)

theorem splitAtStartFrom?_lower {starts : Text → Bool} (hstarts : ∀ t, starts t.lower = starts t)
    (inWord : Bool) (t : Text) : splitAtStartFrom? starts inWord t.lower =
      (splitAtStartFrom? starts inWord t).map fun parts => (parts.1.lower, parts.2.lower) := by
  induction t generalizing inWord with
  | nil => rfl
  | cons c cs ih =>
    have hhere := hstarts (c :: cs)
    rw [lower_cons] at hhere
    simp only [lower_cons, splitAtStartFrom?, hhere, isAlphanumeric_toLower, ih]
    split
    · rfl
    · cases splitAtStartFrom? starts (isAlphanumeric c) cs <;> rfl

theorem splitAtWord?_lower (word t : Text) : splitAtWord? word t.lower =
    (splitAtWord? word t).map fun parts => (parts.1.lower, parts.2.lower) :=
  splitAtStartFrom?_lower (startsWord_lower word) false t

theorem opensOptionalMatch_lower (t : Text) :
    opensOptionalMatch t.lower = opensOptionalMatch t := by
  simp only [opensOptionalMatch, afterWord?_lower, Option.any_map]
  refine congrArg (Option.any · _) (funext fun rest => ?_)
  simp only [endsWord_lower, head?_any_lower isBlank_toLower,
    dropBlanks_lower, startsWord_lower]

theorem splitAtClause?_lower (t : Text) : splitAtClause? t.lower =
    (splitAtClause? t).map fun parts => (parts.1.lower, parts.2.lower) := by
  refine splitAtStartFrom?_lower (fun t => ?_) false t
  simp only [opensClause, startsWord_lower, opensOptionalMatch_lower]

end Text

/-! ## Queries up to letter case -/

/-- The chain with a function applied to its operands. -/
def Chain.map {α β : Type} (f : α → β) : Chain α → Chain β
  | empty => empty
  | cons head tail => cons (f head) (tail.map fun link => (link.1, f link.2))

mutual

/-- The operand in small letters, where literals are names. -/
@[simp] def Operand.folded : Operand → Operand
  | .call name distinct arguments => .call name.lower distinct (Expression.folded arguments)
  | .case_ text => .case_ text.lower
  | .group inner => .group (Expression.folded inner)
  | .property owner name => .property owner.lower name.lower
  | .literal literal => .identifier literal.written
  | .identifier name => .identifier name.lower
  | .string value => .string value.lower
  | .number text => .number text.lower
  | .wildcard => .wildcard

/-- The expression in small letters, where literals are names. -/
@[simp] def Expression.folded : Chain Operand → Chain Operand
  | .empty => .empty
  | .cons head tail => .cons (Operand.folded head) (Operand.foldedLinks tail)

/-- The expression from its second operand on, in small letters. -/
@[simp] def Operand.foldedLinks : List (Operator × Operand) → List (Operator × Operand)
  | [] => []
  | (operator, operand) :: links =>
    (operator, Operand.folded operand) :: Operand.foldedLinks links

end

/-- The labels in small letters. -/
def Labels.folded (labels : Labels) : Labels :=
  Chain.map Text.lower labels

def Node.folded (node : Node) : Node :=
  ⟨node.name.lower, node.labels.map Labels.folded⟩

def Relationship.folded (relationship : Relationship) : Relationship :=
  ⟨relationship.name.lower, relationship.types.map Labels.folded⟩

def Edge.folded (edge : Edge) : Edge :=
  ⟨edge.left, edge.relationship.folded, edge.right⟩

def Step.folded (step : Step) : Step :=
  ⟨step.edge.folded, step.node.folded⟩

def Path.folded (path : Path) : Path :=
  ⟨path.start.map Node.folded, path.steps.map Step.folded⟩

def MatchClause.folded (clause : MatchClause) : MatchClause :=
  ⟨clause.kind, clause.paths.map Path.folded, clause.condition.map Expression.folded⟩

def ReturnItem.folded (item : ReturnItem) : ReturnItem :=
  ⟨Expression.folded item.expression, item.aliasName.map Text.lower⟩

/-- The query with all its texts in small letters, where literals are names. -/
def Query.folded (query : Query) : Query :=
  ⟨query.start.map Text.lower, query.clauses.map MatchClause.folded,
    query.returns.map ReturnItem.folded⟩

theorem Expression.folded_eq (e : Expression) :
    Expression.folded e = Chain.map Operand.folded e := by
  have hlinks : ∀ links : List (Operator × Operand),
      Operand.foldedLinks links = links.map fun link => (link.1, link.2.folded) := by
    intro links
    induction links with
    | nil => rw [Operand.foldedLinks]; rfl
    | cons link links ih => rw [Operand.foldedLinks, ih]; rfl
  cases e with
  | empty => rw [Expression.folded]; rfl
  | cons head tail => rw [Expression.folded, hlinks]; rfl

theorem ReturnItem.isBlank_eq_of_folded {item item' : ReturnItem} (h : item.folded = item'.folded) :
    item.isBlank = item'.isBlank := by
  have hempty : ∀ e : Expression, (Expression.folded e).isEmpty = e.isEmpty := by
    intro e
    cases e with
    | empty => rw [Expression.folded]
    | cons head tail => rw [Expression.folded]; rfl
  have hexpression := congrArg (fun item => item.expression.isEmpty) h
  have halias := congrArg (fun item => item.aliasName.isNone) h
  simp only [folded, hempty, Option.isNone_map] at hexpression halias
  rw [isBlank, isBlank, hexpression, halias]

end Cypher
