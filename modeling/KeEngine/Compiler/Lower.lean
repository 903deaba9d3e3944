/-
The AST to the canonical rule: operators are validated, dates parsed, defaults filled in. A rule
without effective dates has no window; a dated one has a window without a time zone.
-/
import KeEngine.Compiler.Parser
import KeEngine.Core.CanonicalLaws

namespace Ke.Compiler

open Ke Wire

/-- The operator of a surface token. -/
def operatorFromStr (s : String) : Option Operator :=
  if s = "==" ∨ s = "=" then some .eq
  else if s = "!=" ∨ s = "<>" then some .notEq
  else if s = "in" then some .in
  else if s = "not in" ∨ s = "not_in" then some .notIn
  else if s = ">" then some .gt
  else if s = "<" then some .lt
  else if s = ">=" then some .gte
  else if s = "<=" then some .lte
  else if s = "exists" then some .exists
  else none

/-- Every operator is read back from the text it is shown by. -/
theorem operatorFromStr_token (op : Operator) : operatorFromStr op.token = some op := by
  cases op <;> decide

def lowerOperator (op : String) : Except CompileError Operator :=
  match operatorFromStr op with
  | some o => .ok o
  | none => .error ⟨s!"unknown operator `{op}`"⟩

def lowerCondition (c : AstCondition) : Except CompileError Condition := do
  let operator ← lowerOperator c.operator
  pure ⟨c.field, operator, c.value, c.description⟩

/-- The lists of a group of the given kind. -/
def groupLists (kind : GroupKind) (items : List ConditionOrGroup) : ConditionGroupSpec :=
  match kind with
  | .all => ⟨some items, none⟩
  | .any => ⟨none, some items⟩

def lowerGroupItem : AstGroupItem → Except CompileError ConditionOrGroup
  | .condition c => .condition <$> lowerCondition c
  | .group kind items => do
    let items ← lowerItems items
    pure (.group (groupLists kind items).all (groupLists kind items).any)
where
  lowerItems : List AstGroupItem → Except CompileError (List ConditionOrGroup)
    | [] => .ok []
    | it :: its => do
      let x ← lowerGroupItem it
      let xs ← lowerItems its
      pure (x :: xs)

def lowerGroup (group : AstGroup) : Except CompileError ConditionGroupSpec :=
  groupLists group.kind <$> group.items.mapM lowerGroupItem

theorem lowerItems_eq (items : List AstGroupItem) :
    lowerGroupItem.lowerItems items = items.mapM lowerGroupItem := by
  induction items with
  | nil => rfl
  | cons it its ih => rw [lowerGroupItem.lowerItems, List.mapM_cons, ih]

theorem lowerGroupItem_group (g : AstGroup) : lowerGroupItem (.group g.kind g.items) =
    (fun s => .group s.all s.any) <$> lowerGroup g := by
  rw [lowerGroupItem, lowerItems_eq, lowerGroup]
  cases g.items.mapM lowerGroupItem <;> rfl

def lowerObligation (o : AstObligation) : ObligationSpec := ⟨o.id, o.description, o.deadline, none⟩

def lowerLeaf (leaf : AstLeaf) : DecisionLeaf :=
  let obligations := leaf.obligations.map lowerObligation
  ⟨leaf.result, if obligations.isEmpty then none else some obligations, leaf.notes, none⟩

def lowerDecision : AstDecision → Except CompileError DecisionEntry
  | .leaf leaf => .ok (.leaf (lowerLeaf leaf))
  | .node _ none _ _ => .error ⟨"decision node has no `condition`"⟩
  | .node _ (some _) none _ => .error ⟨"decision node has no `true_branch`"⟩
  | .node _ (some _) (some _) none => .error ⟨"decision node has no `false_branch`"⟩
  | .node nodeId (some condition) (some trueBranch) (some falseBranch) => do
    let condition ← lowerCondition condition
    let trueBranch ← lowerDecision trueBranch
    let falseBranch ← lowerDecision falseBranch
    pure (.node (nodeId.getD "unnamed") condition trueBranch falseBranch none)

def lowerSource (s : AstSource) : DocumentRef := ⟨s.documentId, s.article, s.section_, s.paragraphs, s.pages, none⟩

def parseDate (s : String) : Except CompileError JurisdictionDate :=
  let bad := CompileError.mk s!"invalid ISO date `{s}` (want YYYY-MM-DD)"
  match (trim s).splitOn '-' with
  | [year, month, day] =>
    match parseSigned 16 year, parseUnsigned 256 month, parseUnsigned 256 day with
    | some year, some month, some day =>
      let date := JurisdictionDate.mk year (UInt8.ofNat month) (UInt8.ofNat day)
      if validDate date then .ok date else .error bad
    | _, _, _ => .error bad
  | _ => .error bad

def lowerWindow (ast : AstRule) : Except CompileError (Option EffectiveWindow) :=
  match ast.effectiveFrom with
  | none => .ok none
  | some f => do
    let effectiveFrom ← parseDate f
    let effectiveTo ← ast.effectiveTo.mapM parseDate
    pure (some ⟨effectiveFrom, effectiveTo, none, none⟩)

def lowerRule (ast : AstRule) : Except CompileError RuleIR := do
  let appliesIf ← ast.appliesIf.mapM lowerGroup
  let decisionTree ← lowerDecision ast.decisionTree
  let effectiveWindow ← lowerWindow ast
  pure {
    ruleId := ast.ruleId
    ruleVersion := ast.version.getD "1.0"
    description := ast.description
    tags := if ast.tags.isEmpty then none else some ast.tags
    appliesIf
    decisionTree
    obligations := ast.obligations.map lowerObligation
    source := lowerSource ast.source
    interpretationNotes := ast.interpretationNotes
    effectiveWindow
    provenance := .candidate none }

def compileRule (fields : Fields) : Except CompileError RuleIR := do lowerRule (← parseRule fields)

def compileRules (root : YamlNode) : Except CompileError (List RuleIR) := do (← parseRules root).mapM lowerRule

end Ke.Compiler
