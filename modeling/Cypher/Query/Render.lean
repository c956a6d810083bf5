/-
  Canonical text — how each part of a query is written.

  Keywords and operators stand in capitals, quoted texts and labels in
  back-ticks, and single spaces between the elements of a chain. Bare names are
  written bare, numbers and verbatim parts as they came.

  * `Operand.render`, `Expression.render`, `Node.render`, `Edge.render`,
    `Path.render`, `MatchClause.render`, `ReturnItem.render`, `Query.render`;
  * `Expression.render_eq`: an expression is written as any chain, with its
    operands in their canonical text.
-/
import Cypher.Query.Basic
import Cypher.Token.Keyword

namespace Cypher

/-! ## Expressions -/

mutual

/-- The canonical text of an operand. -/
def Operand.render : Operand → Text
  | .call name distinct arguments =>
    name ++ ['('] ++ (if distinct then Keyword.distinct.written ++ [' '] else []) ++
      Expression.render arguments ++ [')']
  | .case_ text => text
  | .group inner => ['('] ++ Expression.render inner ++ [')']
  | .property owner name => owner ++ ['.'] ++ name.inBackTicks
  | .literal literal => literal.written
  | .identifier name => name
  | .string value => value.inBackTicks
  | .number text => text
  | .wildcard => ['*']

/-- The canonical text of an expression. -/
def Expression.render : Chain Operand → Text
  | .empty => []
  | .cons head tail => Operand.render head ++ Operand.renderLinks tail

/-- The canonical text of an expression from its first operator on. -/
def Operand.renderLinks : List (Operator × Operand) → Text
  | [] => []
  | (operator, operand) :: links =>
    ' ' :: operator.written ++ ' ' :: Operand.render operand ++ Operand.renderLinks links

end

theorem Operand.renderLinks_eq (links : List (Operator × Operand)) :
    Operand.renderLinks links = Chain.renderLinks Operand.render links := by
  induction links with
  | nil => simp [Operand.renderLinks, Chain.renderLinks]
  | cons link links ih =>
    obtain ⟨operator, operand⟩ := link
    simp [Operand.renderLinks, Chain.renderLinks, ih]

/-- An expression is written like any other chain. -/
theorem Expression.render_eq (e : Expression) :
    Expression.render e = Chain.render Operand.render e := by
  cases e with
  | empty => simp [Expression.render, Chain.render]
  | cons head tail => simp [Expression.render, Chain.render, Operand.renderLinks_eq]

/-! ## Patterns -/

/-- Labels or types, each in back-ticks. -/
def Labels.render (labels : Labels) : Text :=
  Chain.render Text.inBackTicks labels

/-- A name, and the labels after a colon if there is one. -/
def renderLabelled (name : Text) (labels : Option Labels) : Text :=
  name ++ (labels.map fun chain => ':' :: Labels.render chain).getD []

/-- A node: `(name)` or `(name:labels)`. -/
def Node.render (node : Node) : Text :=
  ['('] ++ renderLabelled node.name node.labels ++ [')']

/-- A relationship: `[name]` or `[name:types]`. -/
def Relationship.render (relationship : Relationship) : Text :=
  ['['] ++ renderLabelled relationship.name relationship.types ++ [']']

/-- The left mark: `<-` or `-`. -/
def LeftMark.written : LeftMark → Text
  | arrow => ['<', '-']
  | line => ['-']

/-- The right mark: `->` or `-`. -/
def RightMark.written : RightMark → Text
  | arrow => ['-', '>']
  | line => ['-']

/-- The relationship between its marks, without spaces. -/
def Edge.render (edge : Edge) : Text :=
  edge.left.written ++ edge.relationship.render ++ edge.right.written

/-- The edge and the node, without a space. -/
def Step.render (step : Step) : Text :=
  step.edge.render ++ step.node.render

/-- The start node and the steps, without spaces. -/
def Path.render (path : Path) : Text :=
  (path.start.map Node.render).getD [] ++ path.steps.flatMap Step.render

/-! ## Clauses -/

/-- A space and the text, or nothing for an empty text. -/
def Text.afterSpace (text : Text) : Text :=
  if text.isEmpty then [] else ' ' :: text

/-- The keywords of a clause: `MATCH` or `OPTIONAL MATCH`. -/
def MatchKind.written : MatchKind → Text
  | required => Keyword.match_.written
  | optional => Keyword.optional.written ++ [' '] ++ Keyword.match_.written

/-- A start clause: `START body`. -/
def renderStart (body : Text) : Text :=
  Keyword.start.written ++ body.afterSpace

/-- A condition: `WHERE condition`, with a space in front. -/
def renderCondition (condition : Expression) : Text :=
  ' ' :: Keyword.where_.written ++
    if condition.isEmpty then [] else ' ' :: Expression.render condition

/-- A clause: its kind, its paths and its condition. -/
def MatchClause.render (clause : MatchClause) : Text :=
  clause.kind.written ++
    (if clause.paths.isEmpty then [] else ' ' :: Text.commaJoined (clause.paths.map Path.render)) ++
    (clause.condition.map renderCondition).getD []

/-- An item: `expression` or `expression AS alias`. -/
def ReturnItem.render (item : ReturnItem) : Text :=
  Expression.render item.expression ++
    (item.aliasName.map fun name =>
      ' ' :: Keyword.as_.written ++ ' ' :: name.inBackTicks).getD []

/-- The whole query on one line. -/
def Query.render (query : Query) : Text :=
  (query.start.map fun body => renderStart body ++ [' ']).getD [] ++
    (query.clauses.flatMap fun clause => clause.render ++ [' ']) ++
    Keyword.return_.written ++
    if query.returns.isEmpty then []
    else ' ' :: Text.commaJoined (query.returns.map ReturnItem.render)

end Cypher
