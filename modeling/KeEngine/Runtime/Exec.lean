/-
The preview executor: one comparison per condition, applicability over the flattened conditions of
the group with short-circuit, then the walk of the decision tree to a leaf.
-/
import KeEngine.Runtime.Value

namespace Ke.Runtime

open Ke Wire

/-! ## Comparison -/

section Compare

variable (X : Floats)

/-- Python's `==`: numbers and booleans compare as numbers, text with text, lists element by
element; anything else is unequal. -/
def evalEq : FactValue X.F → ScalarValue → Bool
  | .list a, .list b => a.length == b.length && zipAll a b
  | .str a, .str b => a == b
  | actual, operand =>
    match actual.asNumber X, operandAsNumber X operand with
    | some a, some b => X.eq a b
    | _, _ => false
where
  zipAll : List (FactValue X.F) → List ScalarValue → Bool
    | x :: xs, y :: ys => evalEq x y && zipAll xs ys
    | _, _ => true

/-- The four orderings. -/
inductive OrdOp
  | gt
  | lt
  | gte
  | lte

/-- A comparison without an order (a NaN) is false. -/
def applyOrd : Option Ordering → OrdOp → Bool
  | none, _ => false
  | some c, .gt => c == .gt
  | some c, .lt => c == .lt
  | some c, .gte => c != .lt
  | some c, .lte => c != .gt

/-- Ordering, false where Python raises a `TypeError`. -/
def evalOrd (actual : FactValue X.F) (operand : ScalarValue) (ord : OrdOp) : Bool :=
  match actual.asNumber X, operandAsNumber X operand with
  | some a, some b => applyOrd (X.partialCmp a b) ord
  | _, _ =>
    match actual, operand with
    | .str a, .str b => applyOrd (some (compare a b)) ord
    | _, _ => false

/-- `str(actual) in {str(v) for v in operand}`; false for an operand that is not a list. -/
def evalIn (actual : FactValue X.F) : ScalarValue → Bool
  | .list items => items.any (fun e => pythonStrScalar X e == pythonStrFact X actual)
  | _ => false

/-- One condition: `actual <op> operand`. -/
def evaluateOp (actual : FactValue X.F) (op : Operator) (operand : ScalarValue) : Bool :=
  match op with
  | .eq => evalEq X actual operand
  | .notEq => !evalEq X actual operand
  | .in => evalIn X actual operand
  | .notIn => !evalIn X actual operand
  | .gt => evalOrd X actual operand .gt
  | .lt => evalOrd X actual operand .lt
  | .gte => evalOrd X actual operand .gte
  | .lte => evalOrd X actual operand .lte
  | .exists => actual.isPresent

end Compare

/-! ## Trace -/

/-- The surface token of an operator. -/
def opToken (op : Operator) : String := op.token

structure NormStep where
  field : String
  operator : String
  result : Bool
deriving DecidableEq

structure Obligation where
  id : String
  description : Option String
  deadline : Option String
deriving DecidableEq

structure Evaluation where
  ruleId : String
  applicable : Bool
  decision : Option String
  obligations : List Obligation
  applicabilitySteps : List NormStep
  decisionPath : List NormStep
deriving DecidableEq

/-- The ids of the obligations, sorted and without repeats. -/
def Evaluation.obligationIds (e : Evaluation) : List String := sortDedup (e.obligations.map (·.id))

/-- What a dry run shows of a rule. -/
structure NormalizedJson where
  applicable : Bool
  decision : Option String
  obligations : List String
  applicabilitySteps : List NormStep
  decisionPath : List NormStep
deriving DecidableEq

def Evaluation.normalizedJson (e : Evaluation) : NormalizedJson :=
  ⟨e.applicable, e.decision, e.obligationIds, e.applicabilitySteps, e.decisionPath⟩

/-! ## Applicability -/

inductive Mode
  | all
  | any
deriving DecidableEq

/-- Python truthiness of an optional list. -/
def isTruthy {α : Type} : Option (List α) → Bool
  | some (_ :: _) => true
  | _ => false

/-- The mode of a group: `all` exactly when its `all` list is truthy. -/
def groupMode {α : Type} (all : Option (List α)) : Mode := if isTruthy all then .all else .any

/-- `all or any or []`, nested groups spliced in place and their modes discarded. -/
def flattenOne : ConditionOrGroup → List Condition
  | .condition c => [c]
  | .group all any => if isTruthy all then flattenOpt all else flattenOpt any
where
  flattenOpt : Option (List ConditionOrGroup) → List Condition
    | none => []
    | some items => flattenItems items
  flattenItems : List ConditionOrGroup → List Condition
    | [] => []
    | x :: xs => flattenOne x ++ flattenItems xs

def flatten (group : ConditionGroupSpec) : List Condition := flattenOne (.group group.all group.any)

theorem flattenItems_eq : ∀ items : List ConditionOrGroup, flattenOne.flattenItems items = items.flatMap flattenOne
  | [] => rfl
  | x :: xs => by rw [flattenOne.flattenItems, flattenItems_eq xs, List.flatMap_cons]

/-- The members of the list that is read, one after the other. -/
theorem flattenOne_group (all any : Option (List ConditionOrGroup)) :
    flattenOne (.group all any) = ((if isTruthy all then all else any).getD []).flatMap flattenOne := by
  have hopt : ∀ o : Option (List ConditionOrGroup), flattenOne.flattenOpt o = (o.getD []).flatMap flattenOne := by
    intro o
    cases o with
    | none => rfl
    | some items => exact flattenItems_eq items
  rw [flattenOne]
  split
  · exact hopt all
  · exact hopt any

/-- A condition stands in the list that is read of each group around it: `all` unless it is empty, then `any`. -/
inductive Stands (c : Condition) : ConditionOrGroup → Prop
  | condition : Stands c (.condition c)
  | all {items : List ConditionOrGroup} {any : Option (List ConditionOrGroup)} {item : ConditionOrGroup}
      (mem : item ∈ items) (stands : Stands c item) : Stands c (.group (some items) any)
  | any {all : Option (List ConditionOrGroup)} {items : List ConditionOrGroup} {item : ConditionOrGroup}
      (falsy : isTruthy all = false) (mem : item ∈ items) (stands : Stands c item) : Stands c (.group all (some items))

theorem mem_flattenOne {c : Condition} (x : ConditionOrGroup) : c ∈ flattenOne x ↔ Stands c x := by
  induction x using ConditionOrGroup.ind with
  | hc c' =>
    rw [flattenOne, List.mem_singleton]
    refine ⟨fun heq => heq ▸ .condition, fun h => ?_⟩
    cases h
    rfl
  | hg all any iha ihb =>
    rw [flattenOne_group, List.mem_flatMap]
    cases htruthy : isTruthy all with
    | true =>
      rw [if_pos rfl]
      cases all with
      | none => cases htruthy
      | some items =>
        constructor
        · rintro ⟨item, hitem, hc⟩
          exact .all hitem ((iha items rfl item hitem).1 hc)
        · intro h
          cases h with
          | all mem stands => exact ⟨_, mem, (iha items rfl _ mem).2 stands⟩
          | any falsy => cases htruthy.symm.trans falsy
    | false =>
      rw [if_neg Bool.false_ne_true]
      constructor
      · rintro ⟨item, hitem, hc⟩
        cases any with
        | none => cases hitem
        | some items => exact .any htruthy hitem ((ihb items rfl item hitem).1 hc)
      · intro h
        cases h with
        | @all items _ _ mem =>
          cases items with
          | nil => cases mem
          | cons => cases htruthy
        | any _ mem stands => exact ⟨_, mem, (ihb _ rfl _ mem).2 stands⟩

section Exec

variable (X : Floats) (facts : Facts X.F)

/-- The value of a condition on the facts. -/
def holds (c : Condition) : Bool := evaluateOp X (lookup facts c.field) c.operator c.value

def step (c : Condition) : NormStep := ⟨c.field, opToken c.operator, holds X facts c⟩

/-- The checks in order, until one decides: the outcome and the steps taken. -/
def runChecks (mode : Mode) : List Condition → Bool × List NormStep
  | [] => (mode == .all, [])
  | c :: cs =>
    match mode, holds X facts c with
    | .all, false => (false, [step X facts c])
    | .any, true => (true, [step X facts c])
    | _, _ => ((runChecks mode cs).1, step X facts c :: (runChecks mode cs).2)

def applicability : Option ConditionGroupSpec → Bool × List NormStep
  | none => (true, [])
  | some group =>
    match flatten group with
    | [] => (true, [])
    | checks => runChecks X facts (groupMode group.all) checks

/-- The leaf that the facts reach, and the branches taken to it. -/
def walk : DecisionEntry → DecisionLeaf × List NormStep
  | .leaf l => (l, [])
  | .node _ c trueBranch falseBranch _ =>
    if holds X facts c then ((walk trueBranch).1, step X facts c :: (walk trueBranch).2)
    else ((walk falseBranch).1, step X facts c :: (walk falseBranch).2)

def evaluate (rule : RuleIR) : Evaluation :=
  match applicability X facts rule.appliesIf with
  | (false, steps) => ⟨rule.ruleId, false, none, [], steps, []⟩
  | (true, steps) =>
    let (leaf, path) := walk X facts rule.decisionTree
    let obligations := (leaf.obligations.getD []).map (fun o => ⟨o.id, o.description, o.deadline⟩)
    ⟨rule.ruleId, true, some leaf.result, obligations, steps, path⟩

/-- The dry run of a list of rules. -/
def dryRun (rules : List RuleIR) : List NormalizedJson := rules.map (fun r => (evaluate X facts r).normalizedJson)

end Exec

end Ke.Runtime
