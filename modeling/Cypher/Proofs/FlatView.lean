/-
  Flat views — the two lists of a chain and the one in which they alternate.

  A chain is built step by step, and may be begun anew at any time. It can be kept as two lists, one
  of its operands and one of its operators. Then nothing but their lengths says which operator
  belongs between which operands, and an operator that is not there is passed over in silence.

  * `Chain.Step`, `Chain.build`: a chain as it is built, and `Chain.given`, what it was built of;
  * `Chain.Lists`: a chain as two lists, with its items found by position (`Lists.items`);
  * `Chain.lists_build`: built by the same steps, the two lists are the views of the chain;
  * `Chain.items_lists`: the items by position are the flat view, so that none is lost or moved;
  * `Chain.Interleaves`: how the items of the flat view stand;
  * `Chain.interleaves_build`: what the views of every chain hold.
-/
import Cypher.Proofs.Shape
import Mathlib.Data.List.Induction

namespace Cypher

/-- The operand, if the element is one. -/
def ChainElement.operand? {α : Type} : ChainElement α → Option α
  | operand a => some a
  | operator _ => none

/-- The operator, if the element is one. -/
def ChainElement.operator? {α : Type} : ChainElement α → Option Operator
  | operand _ => none
  | operator o => some o

namespace Chain

variable {α : Type}

/-! ## Building -/

/-- A step in which a chain is begun anew or goes on. -/
inductive Step (α : Type) where
  /-- The empty chain -/
  | new
  /-- The chain of one operand -/
  | single (operand : α)
  /-- The chain so far, with an operator and an operand appended -/
  | push (operator : Operator) (operand : α)

/-- The chain after a step. -/
def Step.apply : Step α → Chain α → Chain α
  | new, _ => empty
  | single a, _ => Chain.single a
  | push o a, chain => chain.push o a

/-- The chain after some steps, first empty. -/
def build (steps : List (Step α)) : Chain α :=
  steps.foldl (fun chain step => step.apply chain) empty

/-- What has been given after a step: operands, each with the operator in front of it. -/
def Step.give : Step α → List (Option Operator × α) → List (Option Operator × α)
  | new, _ => []
  | single a, _ => [(none, a)]
  | push o a, links => links ++ [(some o, a)]

/-- The operands given since the chain was last begun anew, each with the operator in front of it
    if there was one. -/
def given (steps : List (Step α)) : List (Option Operator × α) :=
  steps.foldl (fun links step => step.give links) []

/-- If a fact about both holds of nothing and is kept by each step, it holds of every chain and
    what it was built of. -/
theorem build_induction {P : Chain α → List (Option Operator × α) → Prop} (hempty : P empty [])
    (hstep : ∀ (step : Step α) chain links, P chain links →
      P (step.apply chain) (step.give links))
    (steps : List (Step α)) : P (build steps) (given steps) := by
  unfold build given
  generalize empty = chain at *
  generalize ([] : List (Option Operator × α)) = links at *
  induction steps generalizing chain links with
  | nil => exact hempty
  | cons step steps ih => exact ih _ _ (hstep step chain links hempty)

theorem operands_build (steps : List (Step α)) :
    (build steps).operands = (given steps).map Prod.snd := by
  refine build_induction (P := fun chain links => chain.operands = links.map Prod.snd) rfl ?_ steps
  intro step chain links h
  cases step with
  | new => rfl
  | single a => rfl
  | push o a => simp [Step.apply, Step.give, h]

/-- The operator before the first operand, if one was given, is dropped, and no other one. -/
theorem operators_build (steps : List (Step α)) :
    (build steps).operators.map some = (given steps).tail.map Prod.fst := by
  refine (build_induction (P := fun chain links => (chain.isEmpty = links.isEmpty) ∧
    chain.operators.map some = links.tail.map Prod.fst) ⟨rfl, rfl⟩ ?_ steps).2
  rintro step chain links ⟨hempty, h⟩
  cases step with
  | new => exact ⟨rfl, rfl⟩
  | single a => exact ⟨rfl, rfl⟩
  | push o a =>
    -- it depends on whether an operand was given before, and so on the two being empty together
    cases links with
    | nil =>
      obtain rfl := isEmpty_iff.1 hempty
      exact ⟨rfl, rfl⟩
    | cons link links =>
      rw [List.isEmpty_cons] at hempty
      refine ⟨by cases chain <;> rfl, ?_⟩
      simpa [Step.apply, Step.give, operators_push, hempty] using h

/-! ## Two lists -/

/-- The operands and the operators of a chain, kept apart. -/
structure Lists (α : Type) where
  operands : List α
  operators : List Operator

namespace Lists

/-- Appends an operator and an operand; without an operand before it, the operator is dropped. -/
def push (operator : Operator) (operand : α) (lists : Lists α) : Lists α :=
  ⟨lists.operands ++ [operand],
    if lists.operands.isEmpty then lists.operators else lists.operators ++ [operator]⟩

/-- The lists after a step. -/
def apply : Step α → Lists α → Lists α
  | .new, _ => ⟨[], []⟩
  | .single a, _ => ⟨[a], []⟩
  | .push o a, lists => lists.push o a

/-- The lists after some steps, first empty. -/
def build (steps : List (Step α)) : Lists α :=
  steps.foldl (fun lists step => apply step lists) ⟨[], []⟩

/-- The operator before the operand at an index: the one before that index, if it is there. -/
def operatorBefore? (lists : Lists α) : (index : Nat) → Option Operator
  | 0 => none
  | index + 1 => lists.operators[index]?

/-- Every operand with the operator before it, if there is one. -/
def items (lists : Lists α) : List (ChainElement α) :=
  lists.operands.zipIdx.flatMap fun (operand, index) =>
    ((lists.operatorBefore? index).map ChainElement.operator).toList ++ [.operand operand]

end Lists

/-- The chain as two lists. -/
def lists (chain : Chain α) : Lists α :=
  ⟨chain.operands, chain.operators⟩

theorem lists_apply (step : Step α) (chain : Chain α) :
    (step.apply chain).lists = Lists.apply step chain.lists := by
  cases step with
  | new => rfl
  | single a => rfl
  | push o a =>
    cases chain with
    | empty => rfl
    | cons head tail => simp [Step.apply, Chain.push, Lists.apply, Lists.push, lists, operands,
        operators]

/-- The two lists that are built by some steps are those of the chain. -/
theorem lists_build (steps : List (Step α)) : Lists.build steps = (build steps).lists := by
  unfold Lists.build build
  change steps.foldl _ (empty : Chain α).lists = _
  generalize (empty : Chain α) = chain
  induction steps generalizing chain with
  | nil => rfl
  | cons step steps ih =>
    rw [List.foldl_cons, List.foldl_cons, ← lists_apply]
    exact ih _

/-- From the second operand on: `before` are the operators up to there. -/
theorem items_links (before : List Operator) (links : List (Operator × α)) (operands : List α) :
    ((links.map Prod.snd).zipIdx (before.length + 1)).flatMap (fun (operand, index) =>
        ((Lists.operatorBefore? ⟨operands, before ++ links.map Prod.fst⟩ index).map
          ChainElement.operator).toList ++ [.operand operand]) =
      links.flatMap fun (operator, operand) => [.operator operator, .operand operand] := by
  induction links generalizing before with
  | nil => rfl
  | cons link links ih =>
    obtain ⟨o, a⟩ := link
    have hbefore : Lists.operatorBefore? ⟨operands, before ++ o :: links.map Prod.fst⟩
        (before.length + 1) = some o := by simp [Lists.operatorBefore?]
    have htail := ih (before ++ [o])
    simp only [List.length_append, List.length_singleton, List.append_assoc,
      List.singleton_append] at htail
    simp only [List.map_cons, List.zipIdx_cons, List.flatMap_cons, htail, hbefore]
    rfl

/-- Put together by position, the two lists of a chain are its flat view. -/
theorem items_lists (chain : Chain α) : chain.lists.items = chain.flat := by
  cases chain with
  | empty => rfl
  | cons head tail =>
    have hlinks := items_links [] tail (head :: tail.map Prod.snd)
    simp only [List.length_nil, Nat.zero_add, List.nil_append] at hlinks
    simp only [lists, operands, operators, flat, Lists.items, List.zipIdx_cons, List.flatMap_cons,
      Nat.zero_add, hlinks]
    rfl

-- Of two operands without an operator there would be no trace in the items.
example : Lists.items ⟨['a', 'b'], []⟩ = [.operand 'a', .operand 'b'] := rfl

/-! ## The flat view -/

/-- The items alternate: at the even places stand the operands, at the odd ones the operators. -/
structure Interleaves (chain : Chain α) (items : List (ChainElement α)) : Prop where
  length : items.length = chain.length
  operand : ∀ i, items[2 * i]? = chain.operands[i]?.map .operand
  operator : ∀ i, items[2 * i + 1]? = chain.operators[i]?.map .operator
  first : items.head? = chain.operands.head?.map .operand
  last : items.getLast? = chain.operands.getLast?.map .operand
  operands : items.filterMap ChainElement.operand? = chain.operands
  operators : items.filterMap ChainElement.operator? = chain.operators

/-- The items from the first operator on. -/
theorem getElem?_links (links : List (Operator × α)) (i : Nat) :
    let items := links.flatMap fun (o, a) => [ChainElement.operator o, .operand a]
    items[2 * i]? = links[i]?.map (fun link => .operator link.1) ∧
      items[2 * i + 1]? = links[i]?.map fun link => .operand link.2 := by
  induction links generalizing i with
  | nil => exact ⟨rfl, rfl⟩
  | cons link links ih =>
    cases i with
    | zero => exact ⟨rfl, rfl⟩
    | succ i => exact ih i

theorem filterMap_links (links : List (Operator × α)) :
    let items := links.flatMap fun (o, a) => [ChainElement.operator o, .operand a]
    items.filterMap ChainElement.operand? = links.map Prod.snd ∧
      items.filterMap ChainElement.operator? = links.map Prod.fst := by
  induction links with
  | nil => exact ⟨rfl, rfl⟩
  | cons link links ih => exact ⟨congrArg (link.2 :: ·) ih.1, congrArg (link.1 :: ·) ih.2⟩

theorem interleaves_flat (chain : Chain α) : chain.Interleaves chain.flat := by
  cases chain with
  | empty => exact ⟨rfl, fun _ => rfl, fun _ => rfl, rfl, rfl, rfl, rfl⟩
  | cons head tail =>
    refine ⟨?_, fun i => ?_, fun i => ?_, rfl, ?_, ?_, ?_⟩
    · simp [flat, length, Chain.operands, Chain.operators, List.length_flatMap]
      omega
    · cases i with
      | zero => rfl
      | succ i =>
        have hitem := (getElem?_links tail i).2
        simpa [flat, Chain.operands, Nat.mul_succ, Function.comp_def] using hitem
    · have hitem := (getElem?_links tail i).1
      simpa [flat, Chain.operators, Function.comp_def] using hitem
    · cases tail using List.reverseRecOn with
      | nil => rfl
      | append_singleton tail link => simp [flat, Chain.operands, List.getLast?_cons]
    · exact congrArg (head :: ·) (filterMap_links tail).1
    · exact (filterMap_links tail).2

/-- A chain is determined by its flat view. -/
theorem flat_inj {chain other : Chain α} : other.flat = chain.flat ↔ other = chain := by
  refine ⟨fun h => ?_, congrArg flat⟩
  have hsome := ofFlat?_flat other
  rw [h, ofFlat?_flat] at hsome
  exact (Option.some.inj hsome).symm

/-- Whatever steps a chain is built in, it holds the operands that were given, in their order, and
    one operator less: those that were given, but for one in front of the first operand. Its flat
    view has them all in turn, belongs to no other chain, and is what the two lists of operands and
    operators have for items. -/
theorem interleaves_build (steps : List (Step α)) :
    (build steps).Alternates ∧
      (build steps).operands = (given steps).map Prod.snd ∧
      (build steps).operators.map some = (given steps).tail.map Prod.fst ∧
      (build steps).Interleaves (build steps).flat ∧
      (∀ other : Chain α, other.flat = (build steps).flat ↔ other = build steps) ∧
      Lists.build steps = (build steps).lists ∧ (Lists.build steps).items = (build steps).flat := by
  refine ⟨alternates _, operands_build steps, operators_build steps, interleaves_flat _,
    fun _ => flat_inj, lists_build steps, ?_⟩
  rw [lists_build, items_lists]

example : (build [.single 'x', .new, .push .equal 'a', .push .add 'b']).flat =
    [.operand 'a', .operator .add, .operand 'b'] := rfl

end Chain

end Cypher
