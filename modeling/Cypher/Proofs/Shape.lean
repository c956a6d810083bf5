/-
  Shapes — which trees are queries, and where their operands stand.

  Not every tree of the type `Query` is one that a text can be read as: names and
  numbers have a shape, and some parts would be taken for others where they stand.

  * `Place` is an operand of a query with the canonical text after it;
    `Query.places` are all of them, at any nesting;
  * `Query.WellShaped`: names, texts, numbers and verbatim parts have their shape, and
    no part of the query is one that is never read there;
  * `Query.FitsTogether`: no word `OPTIONAL` is completed by the `MATCH` after it, and
    calls and groups are nested no deeper than allowed.
-/
import Cypher.Proofs.Boundary
import Cypher.Proofs.Productions

namespace Cypher

/-! ## Chains -/

/-- One operator stands between neighbouring operands, and none elsewhere. -/
def Chain.Alternates {α : Type} (chain : Chain α) : Prop :=
  chain.operators.length = chain.operands.length - 1

theorem Chain.alternates {α : Type} (chain : Chain α) : chain.Alternates := by
  cases chain <;> simp [Alternates, operators, operands]

/-! ## Operands -/

/-- A verbatim expression: the word `CASE`, and text in which `END` stands at the
    end and nowhere else. -/
def Text.IsCase (text : Text) : Prop :=
  ∃ word inner before ending : Text, text = word ++ inner ∧
    word.eqIgnoringCase Keyword.case_.written = true ∧ Text.NotNext Char.isAlphanum inner ∧
    Text.splitAtWord? Keyword.end_.written inner = some (before, ending) ∧
    ending.length = Keyword.end_.written.length

/-- The word with which an operand begins, if it begins with one of the query. -/
def Operand.leadingWord? : Operand → Option Text
  | .call name _ _ => some name
  | .property owner _ => some owner
  | .identifier name => some name
  | _ => none

/-- The expression begins with the word `k`, in capitals or small letters. -/
def Expression.startsWith (k : Keyword) : Chain Operand → Bool
  | .empty => false
  | .cons head _ => head.leadingWord?.any fun word => word.eqIgnoringCase k.written

/-- The operand itself is one that can be read; what stands inside it is not asked. -/
def Operand.WellShaped : Operand → Prop
  | .call name distinct arguments => name.isName = true ∧ arguments.Alternates ∧
    (distinct = false → Expression.startsWith .distinct arguments = false)
  | .case_ text => text.IsCase
  | .group inner => inner.Alternates
  | .property owner name => owner.isName = true ∧ name.isQuotableText = true
  | .literal _ => True
  | .identifier name => name.isName = true ∧ Literal.ofWritten? name = none
  | .string value => value.isQuotableText = true
  | .number text => text.IsNumber
  | .wildcard => True

/-! ## Places -/

/-- An operand of a query, how many calls and groups it stands in, and the canonical
    text that follows it. -/
structure Place where
  operand : Operand
  depth : Nat
  after : Text

mutual

/-- The operand and those inside it. -/
def Operand.places (depth : Nat) (after : Text) : Operand → List Place
  | .call name distinct arguments =>
    ⟨.call name distinct arguments, depth, after⟩ ::
      Expression.places (depth + 1) (')' :: after) arguments
  | .group inner =>
    ⟨.group inner, depth, after⟩ :: Expression.places (depth + 1) (')' :: after) inner
  | operand => [⟨operand, depth, after⟩]

/-- The operands of an expression and those inside them. -/
def Expression.places (depth : Nat) (after : Text) : Chain Operand → List Place
  | .empty => []
  | .cons head tail =>
    Operand.places depth (Operand.renderLinks tail ++ after) head ++
      Operand.placesOfLinks depth after tail

/-- The operands of an expression from its second one on. -/
def Operand.placesOfLinks (depth : Nat) (after : Text) : List (Operator × Operand) → List Place
  | [] => []
  | (_, operand) :: links =>
    Operand.places depth (Operand.renderLinks links ++ after) operand ++
      Operand.placesOfLinks depth after links

end

/-- `RETURN` and the items. -/
def renderReturns (returns : List ReturnItem) : Text :=
  Keyword.return_.written ++
    if returns.isEmpty then [] else ' ' :: Text.commaJoined (returns.map ReturnItem.render)

/-- The clauses, each before a space, and what follows them. -/
def renderClauses (clauses : List MatchClause) (after : Text) : Text :=
  (clauses.flatMap fun clause => clause.render ++ [' ']) ++ after

/-- The alias of an item, if it has one. -/
def renderAlias (aliasName : Option Text) : Text :=
  (aliasName.map fun name => ' ' :: Keyword.as_.written ++ ' ' :: name.inBackTicks).getD []

/-- The items of a list from its second one on. -/
def renderItemsAfter (items : List ReturnItem) : Text :=
  items.flatMap fun item => ',' :: ' ' :: item.render

/-- The operands in the conditions of the clauses. -/
def placesOfClauses (after : Text) : List MatchClause → List Place
  | [] => []
  | clause :: clauses =>
    (clause.condition.map (Expression.places 0 (' ' :: renderClauses clauses after))).getD [] ++
      placesOfClauses after clauses

/-- The operands of the items. -/
def placesOfItems : List ReturnItem → List Place
  | [] => []
  | item :: items =>
    Expression.places 0 (renderAlias item.aliasName ++ renderItemsAfter items) item.expression ++
      placesOfItems items

/-- The operands of the conditions and of the items, at any nesting. -/
def Query.places (query : Query) : List Place :=
  placesOfClauses (renderReturns query.returns) query.clauses ++ placesOfItems query.returns

/-! ## Parts of a query -/

/-- Labels or types: quoted texts with operators between them. -/
def Labels.WellShaped (labels : Labels) : Prop :=
  labels.Alternates ∧ ∀ label ∈ labels.operands, Text.isQuotableText label = true

/-- A name, and labels after a colon if there is one. -/
def LabelledWellShaped (name : Text) (labels : Option Labels) : Prop :=
  name.isName = true ∧ ∀ chain ∈ labels, Labels.WellShaped chain

/-- The nodes and relationships of a path have names and labels, and an empty path
    has no steps. -/
structure Path.WellShaped (path : Path) : Prop where
  steps_of_empty : path.start = none → path.steps = []
  nodes : ∀ node ∈ path.nodes, LabelledWellShaped node.name node.labels
  edges : ∀ edge ∈ path.edges, LabelledWellShaped edge.relationship.name edge.relationship.types

/-- The paths of a clause are not one empty path, and its condition does not begin
    with a word that opens a clause. -/
structure MatchClause.WellShaped (clause : MatchClause) : Prop where
  paths : ∀ path ∈ clause.paths, path.WellShaped
  not_lone_blank : ∀ path, clause.paths = [path] → path.isEmpty = false
  condition : ∀ e ∈ clause.condition, e.Alternates ∧
    Expression.startsWith .match_ e = false ∧ Expression.startsWith .return_ e = false

/-- Only an expression has an alias. -/
structure ReturnItem.WellShaped (item : ReturnItem) : Prop where
  expression : item.expression.Alternates
  aliasName : ∀ name ∈ item.aliasName,
    Text.isQuotableText name = true ∧ item.expression.isEmpty = false

/-- The parts of a query have their shapes. -/
structure Query.WellShaped (query : Query) : Prop where
  operands : ∀ place ∈ query.places, place.operand.WellShaped
  clauses : ∀ clause ∈ query.clauses, clause.WellShaped
  items : ∀ item ∈ query.returns, item.WellShaped
  not_lone_blank : ∀ item, query.returns = [item] → item.isBlank = false
  start : ∀ body ∈ query.start, body.IsTrimmed ∧ body.splitAtClause? = none

/-! ## Neighbours -/

/-- The condition of the clause is nothing but the word `OPTIONAL`. -/
def MatchClause.endsInOptional (clause : MatchClause) : Bool :=
  match clause.condition with
  | some (.cons (.identifier name) []) => name.eqIgnoringCase Keyword.optional.written
  | _ => false

/-- The clauses of a query do not change their meaning next to each other, and no
    expression is nested deeper than `limit`. -/
structure Query.FitsTogether (limit : Nat) (query : Query) : Prop where
  condition_nesting : ∀ clause ∈ query.clauses, ∀ e ∈ clause.condition,
    Expression.nesting e ≤ limit
  item_nesting : ∀ item ∈ query.returns, Expression.nesting item.expression ≤ limit
  optional_match : query.clauses.IsChain fun clause next =>
    clause.endsInOptional = true → next.kind = .optional
  start_optional : ∀ body ∈ query.start, ∀ clause ∈ query.clauses.head?,
    clause.kind = .required → ¬Text.EndsWithWord Keyword.optional.written body

end Cypher
