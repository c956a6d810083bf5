/-
  Patterns and their canonical text.

  * `readsBack_node`, `readsBack_edge`, `readsBack_path`: the parts of a pattern are read
    back from their canonical text, whatever follows a node, and where a comma or a word
    follows a path;
  * `readsBack_paths`: so is a list of paths, unless it is one empty path.
-/
import Cypher.Proofs.ReadBack

namespace Cypher

/-! ## Lists with commas -/

theorem Text.commaJoined_cons (x : Text) (xs : List Text) :
    Text.commaJoined (x :: xs) = x ++ xs.flatMap fun y => ',' :: ' ' :: y := by
  induction xs generalizing x with
  | nil => simp [commaJoined, joined]
  | cons y ys ih =>
    have h := ih y
    simp only [commaJoined, joined] at h ⊢
    rw [List.intersperse_cons_cons, List.flatten_cons, List.flatten_cons, h]
    simp

namespace Production

variable {α : Type}

/-! ## Labels -/

/-- The links of a chain are read back if its operands are. -/
theorem readsBack_chainLinks {p : Production α} {write : α → Text} {after : Text}
    {links : List (Operator × α)}
    (h : ∀ link ∈ links, ∀ rest, ReadsBack p (write link.2 ++ rest) link.2 rest True)
    (hafter : EndsExpression after) : ReadsBack (many (link operator p))
      (Chain.renderLinks write links ++ after) links after True := by
  induction links with
  | nil =>
    refine .many_nil (advances_link advances_operator _) fun {t} ht =>
      misses_link_of_separator (misses_token_of fun kind u hu => ?_)
    rw [Text.SameAhead.token? ht] at hu
    exact hafter.no_operator kind u hu
  | cons link links ih =>
    obtain ⟨o, a⟩ := link
    have ha := h (o, a) List.mem_cons_self (Chain.renderLinks write links ++ after)
    have hlinks := ih fun link hlink => h link (List.mem_cons_of_mem _ hlink)
    have hlink := (readsBack_operator o _).link ha.space
    have hrender : Chain.renderLinks write ((o, a) :: links) ++ after =
        ' ' :: (o.written ++ ' ' :: (write a ++ (Chain.renderLinks write links ++ after))) := by
      simp [Chain.renderLinks]
    rw [hrender]
    exact (hlink.space.many_cons (advances_link advances_operator _) hlinks).congr (by simp)

/-- The labels in front of a closing bracket. -/
theorem readsBack_labelChain {labels : Labels} (hshape : Labels.WellShaped labels) {c : Char}
    (hc : c ∈ [')', ']']) (rest : Text) : ReadsBack (chain nameOrQuoted)
      (Labels.render labels ++ c :: rest) labels (c :: rest) True := by
  have hafter := endsExpression_closing (c := c) (by simp at hc ⊢; tauto) rest
  cases labels with
  | empty =>
    refine .chain_empty fun {t} ht => ⟨t, outcome_nameOrQuoted_eq_missed.2 ⟨rfl, fun text u => ?_⟩⟩
    rw [Text.SameAhead.token? ht]
    simp only [List.mem_cons, List.not_mem_nil, or_false] at hc
    rcases hc with rfl | rfl <;> constructor <;> intro h <;> cases h
  | cons head tail =>
    have hhead : Text.isQuotableText head = true := hshape.2 head (by simp [Chain.operands])
    have htail : ∀ link ∈ tail, ∀ rest, ReadsBack nameOrQuoted (Text.inBackTicks link.2 ++ rest)
        link.2 rest True := fun link hlink rest =>
      readsBack_nameOrQuoted (hshape.2 link.2 (by simp [Chain.operands]; exact Or.inr ⟨_, hlink⟩))
    rw [Labels.render, Chain.render, List.append_assoc]
    exact ((readsBack_nameOrQuoted hhead).chain_cons (readsBack_chainLinks htail hafter)).congr
      (by simp)

/-- What follows the name of a node or of a relationship, up to the closing bracket. -/
theorem matched_maybe_labels {labels : Option Labels} (hshape : ∀ chain ∈ labels, chain.WellShaped)
    {c : Char} (hc : c ∈ [')', ']']) (rest : Text) :
    ∃ u, (maybe Production.labels).outcome
        ((labels.map fun chain => ':' :: Labels.render chain).getD [] ++ c :: rest) =
      .matched labels u ∧ u.SameAhead (c :: rest) := by
  cases labels with
  | none =>
    refine ⟨c :: rest, outcome_maybe_labels_eq_matched.2 (Or.inr ⟨rfl, rfl, fun u hu => ?_⟩),
      .refl _⟩
    simp only [List.mem_cons, List.not_mem_nil, or_false] at hc
    rcases hc with rfl | rfl <;> cases hu
  | some chain =>
    obtain ⟨u, hu, hrest⟩ :=
      (readsBack_labelChain (hshape chain rfl) hc rest).reads trivial (.refl _)
    exact ⟨u, outcome_maybe_labels_eq_matched.2 (Or.inl ⟨chain, _, rfl, rfl, hu⟩), hrest⟩

/-! ## Nodes and edges -/

/-- A name and its labels in front of a closing bracket. -/
theorem matched_labelled {name : Text} {labels : Option Labels}
    (hshape : LabelledWellShaped name labels) {c : Char} (hc : c ∈ [')', ']']) (rest : Text) :
    ∃ u v, Text.token? (renderLabelled name labels ++ c :: rest) = some (.identifier name, u) ∧
      (maybe Production.labels).outcome u = .matched labels v ∧ v.SameAhead (c :: rest) := by
  obtain ⟨v, hv, hclose⟩ := matched_maybe_labels hshape.2 hc rest
  refine ⟨_, v, ?_, hv, hclose⟩
  rw [renderLabelled, List.append_assoc]
  refine Text.token?_identifier hshape.1 ?_
  cases labels with
  | none =>
    simp only [List.mem_cons, List.not_mem_nil, or_false] at hc
    rcases hc with rfl | rfl <;> exact Text.notNext_cons.2 rfl
  | some chain => exact Text.notNext_cons.2 rfl

theorem readsBack_node {n : Node} (hshape : LabelledWellShaped n.name n.labels) (rest : Text) :
    ReadsBack node (n.render ++ rest) n rest True := by
  have hrender : n.render ++ rest = '(' :: (renderLabelled n.name n.labels ++ ')' :: rest) := by
    simp [Node.render]
  refine .always fun {t} ht => ⟨rest, ?_, .refl _⟩
  obtain ⟨u, v, hu, hv, hclose⟩ := matched_labelled hshape (c := ')') (by simp) rest
  refine outcome_node_eq_matched.2 ⟨_, u, v, ?_, hu, hv, ?_⟩
  · rw [ht.token?, hrender]; rfl
  · rw [hclose.token?]; rfl

theorem readsBack_relationship {r : Relationship} (hshape : LabelledWellShaped r.name r.types)
    (rest : Text) : ReadsBack relationship (r.render ++ rest) r rest True := by
  have hrender : r.render ++ rest = '[' :: (renderLabelled r.name r.types ++ ']' :: rest) := by
    simp [Relationship.render]
  refine .always fun {t} ht => ⟨rest, ?_, .refl _⟩
  obtain ⟨u, v, hu, hv, hclose⟩ := matched_labelled hshape (c := ']') (by simp) rest
  refine outcome_relationship_eq_matched.2 ⟨_, u, v, ?_, hu, hv, ?_⟩
  · rw [ht.token?, hrender]; rfl
  · rw [hclose.token?]; rfl

/-- A left mark before the bracket of a relationship. -/
theorem readsBack_leftMark (m : LeftMark) (rest : Text) :
    ReadsBack leftMark (m.written ++ '[' :: rest) m ('[' :: rest) True := by
  refine .always fun {t} ht => ⟨'[' :: rest, outcome_leftMark_eq_matched.2 ?_, .refl _⟩
  rw [ht.token?]
  cases m with
  | arrow =>
    refine Or.inl ⟨rfl, '-' :: '[' :: rest, rfl, ?_⟩
    exact Text.adjacentToken?_eq_some_iff.2 ⟨rfl, rfl⟩
  | line => exact Or.inr ⟨rfl, rfl⟩

/-- A right mark before the parenthesis of a node. -/
theorem readsBack_rightMark (m : RightMark) (rest : Text) :
    ReadsBack rightMark (m.written ++ '(' :: rest) m ('(' :: rest) True := by
  refine .always fun {t} ht => ⟨'(' :: rest, outcome_rightMark_eq_matched.2 ?_, .refl _⟩
  rw [ht.token?]
  cases m with
  | arrow =>
    refine Or.inl ⟨rfl, '>' :: '(' :: rest, rfl, ?_⟩
    exact Text.adjacentToken?_eq_some_iff.2 ⟨rfl, rfl⟩
  | line =>
    refine Or.inr ⟨rfl, rfl, fun v hv => ?_⟩
    cases (Text.adjacentToken?_eq_some_iff.1 hv).2

theorem readsBack_step {s : Step} (hedge : LabelledWellShaped s.edge.relationship.name
      s.edge.relationship.types) (hnode : LabelledWellShaped s.node.name s.node.labels)
    (rest : Text) : ReadsBack step (s.render ++ rest) s rest True := by
  refine .always fun {t} ht => ?_
  have hrender : s.render ++ rest = s.edge.left.written ++ '[' :: (renderLabelled
      s.edge.relationship.name s.edge.relationship.types ++ ']' :: (s.edge.right.written ++ '(' ::
        (renderLabelled s.node.name s.node.labels ++ ')' :: rest))) := by
    simp [Step.render, Edge.render, Relationship.render, Node.render]
  rw [hrender] at ht
  obtain ⟨t₁, h₁, ht₁⟩ := (readsBack_leftMark s.edge.left _).reads trivial ht
  obtain ⟨t₂, h₂, ht₂⟩ := (readsBack_relationship hedge _).reads trivial
    (show t₁.SameAhead (s.edge.relationship.render ++ _) by simpa [Relationship.render] using ht₁)
  obtain ⟨t₃, h₃, ht₃⟩ := (readsBack_rightMark s.edge.right _).reads trivial ht₂
  obtain ⟨t₄, h₄, ht₄⟩ := (readsBack_node hnode rest).reads trivial
    (show t₃.SameAhead (s.node.render ++ rest) by simpa [Node.render] using ht₃)
  exact ⟨t₄, outcome_step_eq_matched.2
    ⟨t₃, outcome_edge_eq_matched.2 ⟨t₁, t₂, h₁, h₂, h₃⟩, h₄⟩, ht₄⟩

/-! ## Paths -/

/-- A comma, a word or nothing comes next: no path begins or goes on here. -/
def EndsPath (rest : Text) : Prop :=
  ∀ kind u, rest.token? = some (kind, u) → kind = .symbol .comma ∨ ∃ word, kind = .identifier word

theorem endsPath_comma (rest : Text) : EndsPath (',' :: rest) := by
  intro kind u h; cases h; exact Or.inl rfl

theorem misses_symbol_of_endsPath {x : Symbol} {t rest : Text} (h : EndsPath rest)
    (ht : t.SameAhead rest) (hx : x ≠ .comma) : (symbol x).Misses t := by
  refine ⟨t, outcome_symbol_eq_missed.2 ⟨rfl, fun u hu => ?_⟩⟩
  rw [ht.token?] at hu
  rcases h _ u hu with h | ⟨word, h⟩
  · cases h; exact hx rfl
  · cases h

theorem misses_node_of_endsPath {t rest : Text} (h : EndsPath rest) (ht : t.SameAhead rest) :
    node.Misses t := by
  obtain ⟨u, hu⟩ := misses_symbol_of_endsPath h ht (x := .leftParen) (by simp)
  exact misses_attempt_iff.2 ⟨u, outcome_bind_eq_missed.2 (Or.inl hu)⟩

theorem misses_step_of_endsPath {t rest : Text} (h : EndsPath rest) (ht : t.SameAhead rest) :
    step.Misses t := by
  have harrow : (arrow .leftArrow .less .minus).Misses t := by
    refine ⟨t, outcome_arrow_eq_missed.2 ⟨rfl, fun u v hu => ?_⟩⟩
    rw [ht.token?] at hu
    rcases h _ u hu with h | ⟨word, h⟩ <;> cases h
  have hmark : leftMark.Misses t := by
    have hstays : ((fun _ => LeftMark.arrow) <$> arrow .leftArrow .less .minus).Stays :=
      stays_map (fun h => (outcome_arrow_eq_missed.1 h).1) _
    rw [leftMark, misses_orElse_iff hstays, misses_map_iff, misses_map_iff]
    exact ⟨harrow, misses_symbol_of_endsPath h ht (by simp)⟩
  obtain ⟨u, hu⟩ := hmark
  obtain ⟨v, hv⟩ : edge.Misses t := misses_attempt_iff.2 ⟨u, outcome_bind_eq_missed.2 (Or.inl hu)⟩
  exact ⟨v, outcome_bind_eq_missed.2 (Or.inl hv)⟩

theorem readsBack_steps {steps : List Step} {after : Text}
    (hedges : ∀ s ∈ steps, LabelledWellShaped s.edge.relationship.name s.edge.relationship.types)
    (hnodes : ∀ s ∈ steps, LabelledWellShaped s.node.name s.node.labels) (hafter : EndsPath after) :
    ReadsBack (many step) (steps.flatMap Step.render ++ after) steps after True := by
  induction steps with
  | nil => exact .many_nil advances_step fun {t} ht => misses_step_of_endsPath hafter ht
  | cons s steps ih =>
    rw [List.forall_mem_cons] at hedges hnodes
    rw [List.flatMap_cons, List.append_assoc]
    exact ((readsBack_step hedges.1 hnodes.1 _).many_cons advances_step
      (ih hedges.2 hnodes.2)).congr (by simp)

theorem readsBack_path {p : Path} {after : Text} (hshape : p.WellShaped) (hafter : EndsPath after) :
    ReadsBack path (p.render ++ after) p after True := by
  obtain ⟨start, steps⟩ := p
  refine .always fun {t} ht => ?_
  cases start with
  | none =>
    obtain rfl : steps = [] := hshape.steps_of_empty rfl
    exact ⟨t, outcome_path_eq_matched.2 (Or.inl ⟨rfl, rfl, misses_node_of_endsPath hafter ht⟩), ht⟩
  | some n =>
    have hnode : LabelledWellShaped n.name n.labels := hshape.nodes n (by simp [Path.nodes])
    have hsteps : ReadsBack (many step) (steps.flatMap Step.render ++ after) steps after True :=
      readsBack_steps (fun s hs => hshape.edges s.edge (List.mem_map_of_mem hs))
        (fun s hs => hshape.nodes s.node (List.mem_append_right _ (List.mem_map_of_mem hs))) hafter
    rw [show Path.render ⟨some n, steps⟩ ++ after = n.render ++ (steps.flatMap Step.render ++ after)
      by simp [Path.render]] at ht
    obtain ⟨u, hu, hrest⟩ := (readsBack_node hnode _).reads trivial ht
    obtain ⟨v, hv, hafter'⟩ := hsteps.reads trivial hrest
    rw [outcome_many_eq_matched advances_step] at hv
    exact ⟨v, outcome_path_eq_matched.2 (Or.inr ⟨n, steps, u, rfl, hu, hv⟩), hafter'⟩

/-- The paths of a clause, after a space if there is one. -/
def renderPaths (paths : List Path) : Text :=
  if paths.isEmpty then [] else ' ' :: Text.commaJoined (paths.map Path.render)

theorem readsBack_morePaths {paths : List Path} {after : Text}
    (hshape : ∀ p ∈ paths, p.WellShaped) (hafter : EndsPath after)
    (hcomma : ∀ u, after.token? ≠ some (.symbol .comma, u)) :
    ReadsBack (many (link (symbol .comma) path))
      ((paths.map Path.render).flatMap (fun y => ',' :: ' ' :: y) ++ after)
      (paths.map fun p => ((), p)) after True ∧
    EndsPath ((paths.map Path.render).flatMap (fun y => ',' :: ' ' :: y) ++ after) := by
  induction paths with
  | nil =>
    refine ⟨.many_nil (advances_link (advances_symbol _) _) fun {t} ht =>
      misses_link_of_separator ⟨t, outcome_symbol_eq_missed.2 ⟨rfl, fun u hu => ?_⟩⟩, hafter⟩
    rw [Text.SameAhead.token? ht] at hu
    exact hcomma u hu
  | cons p paths ih =>
    rw [List.forall_mem_cons] at hshape
    obtain ⟨hpaths, hends⟩ := ih hshape.2
    have hpath := readsBack_path hshape.1 hends
    have hlink := (readsBack_symbol (s := .comma) (by simp) (by simp)).link hpath.space
    simp only [List.map_cons, List.flatMap_cons, List.append_assoc, List.cons_append]
    exact ⟨(hlink.many_cons (advances_link (advances_symbol _) _) hpaths).congr (by simp),
      endsPath_comma _⟩

theorem readsBack_paths {paths : List Path} {after : Text} (hshape : ∀ p ∈ paths, p.WellShaped)
    (hblank : ∀ p, paths = [p] → p.isEmpty = false) (hafter : EndsPath after)
    (hcomma : ∀ u, after.token? ≠ some (.symbol .comma, u)) :
    ReadsBack Production.paths (renderPaths paths ++ after) paths after True := by
  cases paths with
  | nil =>
    refine .always fun {t} ht => ⟨t, outcome_commaList_eq_matched.2
      (Or.inr ⟨.empty, [], t, rfl, ?_, .stop (misses_link_of_separator ?_)⟩), ht⟩
    · exact outcome_path_eq_matched.2 (Or.inl ⟨rfl, rfl, misses_node_of_endsPath hafter ht⟩)
    · refine ⟨t, outcome_symbol_eq_missed.2 ⟨rfl, fun u hu => ?_⟩⟩
      rw [Text.SameAhead.token? ht] at hu
      exact hcomma u hu
  | cons p paths =>
    rw [List.forall_mem_cons] at hshape
    obtain ⟨hpaths, hends⟩ := readsBack_morePaths hshape.2 hafter hcomma
    have hpath := readsBack_path hshape.1 hends
    simp only [renderPaths, List.isEmpty_cons, Bool.false_eq_true, if_false, List.map_cons,
      Text.commaJoined_cons, List.append_assoc, List.cons_append]
    refine (hpath.space.commaList ?_ hpaths).congr (by simp)
    rintro rfl
    exact hblank p rfl

end Production

end Cypher
