/-
  Patterns — the productions for nodes, relationships and paths.

  * `node`, `relationship` and `edge` read a part of a path or go back;
  * `path` always matches, if need be with the empty path;
  * `paths` is a list of paths with commas between them.
-/
import Cypher.Grammar.Terminal
import Cypher.Query.Path

namespace Cypher

namespace Production

/-- A colon and the labels after it, which may be none. -/
def labels : Production Labels := do
  symbol .colon
  chain nameOrQuoted

/-- A node: `(name)` or `(name:labels)`. -/
def node : Production Node :=
  attempt do
    symbol .leftParen
    let name ← identifier
    let labels ← maybe labels
    symbol .rightParen
    return ⟨name, labels⟩

/-- A relationship: `[name]` or `[name:types]`. -/
def relationship : Production Relationship :=
  attempt do
    symbol .leftBracket
    let name ← identifier
    let types ← maybe labels
    symbol .rightBracket
    return ⟨name, types⟩

/-- The mark on the left of a relationship: `<-` or `-`. -/
def leftMark : Production LeftMark :=
  (fun _ => LeftMark.arrow) <$> arrow .leftArrow .less .minus <|>
  (fun _ => LeftMark.line) <$> symbol .minus

/-- The mark on the right of a relationship: `->` or `-`. -/
def rightMark : Production RightMark :=
  (fun _ => RightMark.arrow) <$> arrow .rightArrow .minus .greater <|>
  (fun _ => RightMark.line) <$> symbol .minus

/-- A relationship between its marks. -/
def edge : Production Edge :=
  attempt do
    let left ← leftMark
    let relationship ← relationship
    let right ← rightMark
    return ⟨left, relationship, right⟩

/-- An edge and the node it leads to. -/
def step : Production Step := do
  let edge ← edge
  let node ← node
  return ⟨edge, node⟩

/-- A node and the steps from it, or the empty path. -/
def path : Production Path := do
  match ← maybe node with
  | none => return .empty
  | some start => return ⟨some start, ← many step⟩

/-- Paths with commas between them; some may be empty. -/
def paths : Production (List Path) :=
  commaList Path.isEmpty path

end Production

end Cypher
