/-
  Round trips — canonical text and back.

  * `Query.WellFormed`: a tree that the canonical text determines;
  * `Query.parse_render_of_wellFormed`: such a tree, however it was built, is read back
    from its canonical text;
  * `Query.parse_render_iff_of_parse`: a query that was read is read back from its canonical
    text iff none of its verbatim expressions is taken for a call there.
-/
import Cypher.Proofs.Soundness
import Cypher.Proofs.Validity

namespace Cypher

/-! ## Well-formed trees -/

/-- The operand is the bare word `CASE`, or a property of it. -/
def Operand.isBareCase : Operand → Bool
  | .identifier name => name.eqIgnoringCase Keyword.case_.written
  | .property owner _ => owner.eqIgnoringCase Keyword.case_.written
  | _ => false

/-- The parts of the query have their shapes and fit together, no bare word `CASE` is
    an operand, and no verbatim expression is taken for a call of the name `CASE`. -/
structure Query.WellFormed (limit : Nat) (query : Query) : Prop
    extends query.WellShaped, query.FitsTogether limit where
  not_bare_case : ∀ place ∈ query.places, place.operand.isBareCase = false
  verbatim : ∀ place ∈ query.places, place.StandsVerbatim limit

theorem Place.noEndAfterCase_of_not_bare_case {place : Place}
    (h : place.operand.isBareCase = false) : place.NoEndAfterCase := by
  obtain ⟨operand, depth, after⟩ := place
  cases operand with
  | identifier name => intro hname; rw [Operand.isBareCase, hname] at h; cases h
  | property owner name => intro howner; rw [Operand.isBareCase, howner] at h; cases h
  | _ => trivial

/-- A verbatim expression in which a parenthesis follows the word `CASE`. -/
def Operand.opensParen : Operand → Bool
  | .case_ text => (Text.dropBlanks (text.drop Keyword.case_.written.length)).head? == some '('
  | _ => false

/-- A verbatim expression is taken for a call only if a parenthesis follows the word
    `CASE`. -/
theorem Place.standsVerbatim_of_opensParen {limit : Nat} {place : Place}
    (hshape : place.operand.WellShaped) (h : place.operand.opensParen = false) :
    place.StandsVerbatim limit := by
  obtain ⟨operand, depth, after⟩ := place
  rintro text (rfl : operand = _)
  obtain ⟨word, inner, before, ending, rfl, hword, hinner, hsplit, hending⟩ := hshape
  rw [Text.eqIgnoringCase_iff] at hword
  rw [Operand.opensParen, ← Text.length_eq_of_lower_eq hword, List.drop_left] at h
  have hne : Text.dropBlanks inner ≠ [] := by
    intro hnil
    have hend : Production.endsCase inner := by rw [Production.endsCase, hsplit]; rfl
    rw [Rewrites.endsCase_iff, ← Text.holdsWord_dropBlanks (Text.isWord_written .end_),
      hnil] at hend
    cases hend
  refine Production.misses_call_of fun name u hu v hv => ?_
  rw [List.append_assoc, Text.token?_identifier (Text.isName_of_lower_eq
    (Text.isWord_written .case_) hword)
    (hinner.append (fun hnil => hne (by rw [hnil]; rfl)) after)] at hu
  cases hu
  have hparen := Text.dropBlanks_of_token? hv
  rw [Text.dropBlanks_append_of_ne_nil after hne] at hparen
  cases hdrop : Text.dropBlanks inner with
  | nil => exact hne hdrop
  | cons c cs =>
    rw [hdrop] at hparen h
    cases hparen
    cases h

namespace Query

/-- A well-formed tree is read back from its canonical text. -/
theorem parse_render_of_wellFormed {limit : Nat} {q : Query} (h : q.WellFormed limit) :
    parse limit q.render = .ok q :=
  (parse_render_iff h.toWellShaped h.toFitsTogether fun place hplace =>
    Place.noEndAfterCase_of_not_bare_case (h.not_bare_case place hplace)).2 h.verbatim

/-- A query with a start clause, a verbatim expression in a call, and a blank item. -/
theorem parse_render_of_wellFormed_verbatim :
    let arguments : Expression :=
      .cons (.property ['a'] ['y']) [(.add, .case_ "case ) end".toList)]
    let condition : Expression := .cons (.call ['f'] true arguments) [(.or_, .identifier ['b'])]
    let path : Path := ⟨some ⟨['a'], some (.cons ['x', ' '] [])⟩, []⟩
    let items : List ReturnItem := [⟨.empty, none⟩, ⟨.cons (.number "-1e9".toList) [], some ['z']⟩]
    let q : Query := ⟨some ['n'], [⟨.optional, [path], some condition⟩], items⟩
    q.WellFormed 1 ∧ parse 1 q.render = .ok q := by
  intro arguments condition path items q
  have hq : parse 1 "START n OPTIONAL MATCH (a:`x `) WHERE f(distinct a.y+case ) end) or b
      RETURN , -1e9 AS z".toList = .ok q := by decide +kernel
  have hparen : ∀ place ∈ q.places, place.operand.opensParen = false := by decide +kernel
  have hshape := wellShaped_of_parse hq
  have h : q.WellFormed 1 := ⟨hshape, fitsTogether_of_parse hq, by decide +kernel,
    fun place hplace =>
      Place.standsVerbatim_of_opensParen (hshape.operands place hplace) (hparen place hplace)⟩
  exact ⟨h, parse_render_of_wellFormed h⟩

/-! ## Queries that were read -/

/-- A query that was read is read back from its canonical text if a parenthesis follows the
    word `CASE` in none of its verbatim expressions. -/
theorem parse_render_of_opensParen {limit : Nat} {source : Text} {q : Query}
    (h : parse limit source = .ok q)
    (hparen : ∀ place ∈ q.places, place.operand.opensParen = false) :
    parse limit q.render = .ok q := by
  have hshape := wellShaped_of_parse h
  refine (parse_render_iff hshape (fitsTogether_of_parse h) (noEndAfterCase_of_parse h)).2 ?_
  intro place hplace
  exact Place.standsVerbatim_of_opensParen (hshape.operands place hplace) (hparen place hplace)

/-- A query that was read is read back from its canonical text iff none of its verbatim
    expressions is taken for a call there. -/
theorem parse_render_iff_of_parse {limit : Nat} {source : Text} {q : Query}
    (h : parse limit source = .ok q) :
    parse limit q.render = .ok q ↔ ∀ place ∈ q.places, place.StandsVerbatim limit :=
  parse_render_iff (wellShaped_of_parse h) (fitsTogether_of_parse h) (noEndAfterCase_of_parse h)

/-- A bare word `CASE`, which is not followed by `END`, after a verbatim expression. -/
theorem parse_render_iff_of_parse_verbatim :
    let source := "MATCH , WHERE case ( end = case RETURN".toList
    let condition : Expression :=
      .cons (.case_ "case ( end".toList) [(.equal, .identifier "case".toList)]
    let q : Query := ⟨none, [⟨.required, [.empty, .empty], some condition⟩], []⟩
    parse 1 source = .ok q ∧
      (parse 1 q.render = .ok q ↔ ∀ place ∈ q.places, place.StandsVerbatim 1) := by
  intro source condition q
  have h : parse 1 source = .ok q := by decide +kernel
  exact ⟨h, parse_render_iff_of_parse h⟩

/-- In the canonical text, the back-ticks of the label `CASE` close a quotation that was left
    open after `CASE (`, and what was a verbatim expression is a call. -/
theorem not_parse_render_of_parse :
    let source := "MATCH (n) WHERE CASE ( ` END AND `AND CASE` MATCH (END:CASE) RETURN END".toList
    let condition : Expression :=
      .cons (.case_ "CASE ( ` END".toList) [(.and_, .string "AND CASE".toList)]
    let label : Node := ⟨"END".toList, some (.cons "CASE".toList [])⟩
    let q : Query := ⟨none, [⟨.required, [⟨some ⟨['n'], none⟩, []⟩], some condition⟩,
      ⟨.required, [⟨some label, []⟩], none⟩], [⟨.cons (.identifier "END".toList) [], none⟩]⟩
    parse defaultLimit source = .ok q ∧ ¬parse defaultLimit q.render = .ok q := by
  decide +kernel

end Query

end Cypher
