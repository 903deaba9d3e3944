/-
The shapes of rule documents. The grammar says which documents the IR can represent, whatever the
parser does with them; the slips are the shapes outside it that an optional lookup of the parser
passes over.
-/
import KeEngine.Compiler.Lower

namespace Ke

/-! ## What a lowered rule contains -/

/-- A condition occurs in a condition tree. -/
inductive ConditionOrGroup.Contains (c : Condition) : ConditionOrGroup → Prop
  | here : Contains c (.condition c)
  | all {items : List ConditionOrGroup} {any : Option (List ConditionOrGroup)} {x : ConditionOrGroup} :
      x ∈ items → Contains c x → Contains c (.group (some items) any)
  | any {all : Option (List ConditionOrGroup)} {items : List ConditionOrGroup} {x : ConditionOrGroup} :
      x ∈ items → Contains c x → Contains c (.group all (some items))

def ConditionGroupSpec.Contains (s : ConditionGroupSpec) (c : Condition) : Prop :=
  ConditionOrGroup.Contains c (.group s.all s.any)

/-- An obligation stands at a leaf of a decision tree. -/
inductive DecisionEntry.Imposes (o : ObligationSpec) : DecisionEntry → Prop
  | leaf {l : DecisionLeaf} {os : List ObligationSpec} : l.obligations = some os → o ∈ os → Imposes o (.leaf l)
  | trueBranch {nodeId : String} {c : Condition} {t f : DecisionEntry} {span : Option SourceSpan} :
      Imposes o t → Imposes o (.node nodeId c t f span)
  | falseBranch {nodeId : String} {c : Condition} {t f : DecisionEntry} {span : Option SourceSpan} :
      Imposes o f → Imposes o (.node nodeId c t f span)

def RuleIR.Imposes (r : RuleIR) (o : ObligationSpec) : Prop := o ∈ r.obligations ∨ r.decisionTree.Imposes o

end Ke

namespace Ke.Compiler

open Ke Wire Fields

/-! ## What a document writes -/

/-- A plain scalar that YAML reads as null. -/
def YamlNode.isNull : YamlNode → Bool
  | .scalar s => s.mayCoerce && (s.text ∈ ["", "~", "null", "Null", "NULL"] : Bool)
  | _ => false

/-- A non-null value stands under `key`. -/
def Has (fields : Fields) (key : String) (n : YamlNode) : Prop := get fields key = some n ∧ n.isNull = false

def Lacks (fields : Fields) (key : String) : Prop := ∀ n, ¬ Has fields key n

/-- A condition, a mapping with a `field`, is written in a node: at it, in a list, or under `all` or `any`. -/
inductive WrittenIn (c : Fields) : YamlNode → Prop
  | here {s : YamlScalar} : Has c "field" (.scalar s) → WrittenIn c (.mapping c)
  | item {items : List YamlNode} {x : YamlNode} : x ∈ items → WrittenIn c x → WrittenIn c (.sequence items)
  | under {m : Fields} {key : String} {n : YamlNode} : key ∈ ["all", "any"] → get m key = some n →
      WrittenIn c n → WrittenIn c (.mapping m)

/-- A value stands under an `obligations` key, at any depth of a tree. -/
inductive ObligationsIn (n : YamlNode) : YamlNode → Prop
  | here {m : Fields} : ("obligations", n) ∈ m → ObligationsIn n (.mapping m)
  | field {m : Fields} {kx : String × YamlNode} : kx ∈ m → ObligationsIn n kx.2 → ObligationsIn n (.mapping m)
  | item {items : List YamlNode} {x : YamlNode} : x ∈ items → ObligationsIn n x → ObligationsIn n (.sequence items)

/-- An entry stands in the `obligations` list of a leaf that branches lead to. -/
inductive LeafEntry (e : YamlNode) : Fields → Prop
  | leaf {m : Fields} {items : List YamlNode} :
      (getScalar m "result").isSome → getSequence m "obligations" = some items →
      e ∈ items → LeafEntry e m
  | branch {m b : Fields} {key : String} : getScalar m "result" = none → key ∈ ["true_branch", "false_branch"] →
      getMapping m key = some b → LeafEntry e b → LeafEntry e m

/-- An entry stands in the `obligations` list of the rule or of one of its leaves. -/
def RuleEntry (fields : Fields) (e : YamlNode) : Prop :=
  e ∈ (getSequence fields "obligations").getD [] ∨ ∃ m ∈ getMapping fields "decision_tree", LeafEntry e m

/-- The obligation an entry lowers to. -/
def compileObligation (e : YamlNode) : Except CompileError ObligationSpec := lowerObligation <$> parseObligation e

/-- The condition a mapping lowers to. -/
def compileCondition (fields : Fields) : Except CompileError Condition := do lowerCondition (← parseCondition fields)

def compileItem (n : YamlNode) : Except CompileError ConditionOrGroup := do lowerGroupItem (← parseItem n)

def compileGroup (fields : Fields) : Except CompileError ConditionGroupSpec := do lowerGroup (← parseGroup fields)

def compileDecision (fields : Fields) : Except CompileError DecisionEntry := do lowerDecision (← parseDecision fields)

/-! ## The grammar -/

inductive Shape
  | scalar
  | list
  /-- a list of scalars -/
  | texts
  | mapping

def Shape.Fits : Shape → YamlNode → Prop
  | .scalar, n => n.asScalar.isSome
  | .list, n => n.asSequence.isSome
  | .texts, n => ∃ items, n = .sequence items ∧ ∀ x ∈ items, x.asScalar.isSome
  | .mapping, n => n.asMapping.isSome

/-- Every optional key has the shape it is looked up by, or no value. -/
def FitsAll (keys : List (String × Shape)) (fields : Fields) : Prop :=
  ∀ key shape, (key, shape) ∈ keys → ∀ n, Has fields key n → shape.Fits n

def ruleKeys : List (String × Shape) :=
  [("applies_if", .mapping), ("obligations", .list), ("tags", .texts), ("version", .scalar), ("description", .scalar),
    ("effective_from", .scalar), ("effective_to", .scalar), ("jurisdiction", .scalar),
    ("interpretation_notes", .scalar)]

def conditionKeys : List (String × Shape) := [("operator", .scalar), ("description", .scalar)]

def nodeKeys : List (String × Shape) := [("node_id", .scalar)]

def leafKeys : List (String × Shape) := [("obligations", .list), ("notes", .scalar)]

def obligationKeys : List (String × Shape) := [("description", .scalar), ("deadline", .scalar)]

def sourceKeys : List (String × Shape) :=
  [("article", .scalar), ("section", .scalar), ("pages", .texts), ("paragraphs", .texts)]

/-- A scalar, or a list of operands. -/
inductive Operand : YamlNode → Prop
  | scalar {s : YamlScalar} : Operand (.scalar s)
  | list {items : List YamlNode} : (∀ x ∈ items, Operand x) → Operand (.sequence items)

/-- A mapping that is a condition and not also a group. -/
structure ConditionShaped (fields : Fields) : Prop where
  field : (getScalar fields "field").isSome
  value : ∃ n, get fields "value" = some n ∧ Operand n
  optional : FitsAll conditionKeys fields
  all : Lacks fields "all"
  any : Lacks fields "any"

/-- The list of a group that the parser reads. -/
def readList (fields : Fields) : Option (List YamlNode) :=
  match getSequence fields "all" with
  | some items => some items
  | none => getSequence fields "any"

/-- A mapping that is a group of one kind and not also a condition; an entry with a `field` is a
condition, any other a group. -/
inductive GroupShaped : Fields → Prop
  | mk {fields : Fields} {items : List YamlNode}
      (lists : get fields "all" = some (.sequence items) ∧ Lacks fields "any" ∨
        get fields "any" = some (.sequence items) ∧ Lacks fields "all")
      (field : Lacks fields "field")
      (entries : ∀ x ∈ items, x.asMapping.isSome)
      (conditions : ∀ m, .mapping m ∈ items → (getScalar m "field").isSome → ConditionShaped m)
      (groups : ∀ m, .mapping m ∈ items → getScalar m "field" = none → GroupShaped m) : GroupShaped fields

/-- The entries of an `obligations` list are mappings with an `id`. -/
def EntriesShaped (fields : Fields) : Prop :=
  ∀ x ∈ (getSequence fields "obligations").getD [], ∃ m, x = .mapping m ∧ (getScalar m "id").isSome ∧
    FitsAll obligationKeys m

/-- A leaf, a mapping with a `result` and without branches, or a node with its condition and both branches. -/
inductive DecisionShaped : Fields → Prop
  | leaf {fields : Fields} (result : (getScalar fields "result").isSome) (optional : FitsAll leafKeys fields)
      (entries : EntriesShaped fields)
      (branches : ∀ key ∈ ["condition", "true_branch", "false_branch"], Lacks fields key) : DecisionShaped fields
  | node {fields c t f : Fields} (result : get fields "result" = none) (optional : FitsAll nodeKeys fields)
      (condition : getMapping fields "condition" = some c) (trueBranch : getMapping fields "true_branch" = some t)
      (falseBranch : getMapping fields "false_branch" = some f) (hc : ConditionShaped c) (ht : DecisionShaped t)
      (hf : DecisionShaped f) : DecisionShaped fields

structure SourceShaped (fields : Fields) : Prop where
  documentId : (getScalar fields "document_id").isSome
  optional : FitsAll sourceKeys fields

/-- A document that the IR can represent. -/
structure RuleShaped (fields : Fields) : Prop where
  ruleId : (getScalar fields "rule_id").isSome
  optional : FitsAll ruleKeys fields
  appliesIf : ∀ m, getMapping fields "applies_if" = some m → GroupShaped m
  decisionTree : ∃ m, getMapping fields "decision_tree" = some m ∧ DecisionShaped m
  source : ∃ m, getMapping fields "source" = some m ∧ SourceShaped m
  entries : EntriesShaped fields
  /-- a list wherever `obligations` are written -/
  obligations : ∀ n, ObligationsIn n (.mapping fields) → n.isNull = false → n.asSequence.isSome

/-- Nothing that a document writes is lost on the way to the rule. -/
structure FailClosed (fields : Fields) (rule : RuleIR) : Prop where
  scope : ∀ n, Has fields "applies_if" n → ∃ spec, rule.appliesIf = some spec ∧
    ∀ c, WrittenIn c n → ∃ c', compileCondition c = .ok c' ∧ spec.Contains c'
  obligations : ∀ items, ObligationsIn (.sequence items) (.mapping fields) → ∀ e ∈ items,
    ∃ o, compileObligation e = .ok o ∧ rule.Imposes o
  shape : RuleShaped fields

/-! ## The slips -/

/-- An optional key has a value of a shape that its lookup passes over. -/
def Misfit (keys : List (String × Shape)) (fields : Fields) : Prop :=
  ∃ key shape n, (key, shape) ∈ keys ∧ Has fields key n ∧ ¬ shape.Fits n

theorem not_misfit {keys : List (String × Shape)} {fields : Fields} : ¬ Misfit keys fields ↔ FitsAll keys fields := by
  unfold Misfit FitsAll
  push Not
  constructor
  · intro h key shape hk n hn
    exact h key shape n hk hn
  · intro h key shape n hk hn
    exact h key shape hk n hn

/-- The condition is also a group, or has an optional key of another shape. -/
inductive ConditionSlip (fields : Fields) : Prop
  | optional : Misfit conditionKeys fields → ConditionSlip fields
  | group {key : String} {n : YamlNode} : key ∈ ["all", "any"] → Has fields key n → ConditionSlip fields

inductive GroupSlip : Fields → Prop
  /-- an `any` beside the `all` list that is read -/
  | both {fields : Fields} {items : List YamlNode} {n : YamlNode} : getSequence fields "all" = some items →
      Has fields "any" n → GroupSlip fields
  /-- an `all` that is no list, beside the `any` list that is read -/
  | notList {fields : Fields} {n : YamlNode} : getSequence fields "all" = none → Has fields "all" n → GroupSlip fields
  /-- a `field` beside the list that is read -/
  | field {fields : Fields} {n : YamlNode} : Has fields "field" n → GroupSlip fields
  | condition {fields m : Fields} {items : List YamlNode} : readList fields = some items → .mapping m ∈ items →
      (getScalar m "field").isSome → ConditionSlip m → GroupSlip fields
  | group {fields m : Fields} {items : List YamlNode} : readList fields = some items → .mapping m ∈ items →
      getScalar m "field" = none → GroupSlip m → GroupSlip fields

/-- An entry of an `obligations` list that is read has an optional key of another shape. -/
def EntrySlip (fields : Fields) : Prop :=
  ∃ m, .mapping m ∈ (getSequence fields "obligations").getD [] ∧ Misfit obligationKeys m

inductive DecisionSlip : Fields → Prop
  | leaf {fields : Fields} : (getScalar fields "result").isSome → Misfit leafKeys fields → DecisionSlip fields
  | entry {fields : Fields} : (getScalar fields "result").isSome → EntrySlip fields → DecisionSlip fields
  /-- a condition or a branch beside the `result` that is read -/
  | leafNode {fields : Fields} {key : String} {n : YamlNode} : (getScalar fields "result").isSome →
      key ∈ ["condition", "true_branch", "false_branch"] → Has fields key n → DecisionSlip fields
  /-- a `result` that is no scalar -/
  | result {fields : Fields} {n : YamlNode} : getScalar fields "result" = none → get fields "result" = some n →
      DecisionSlip fields
  | node {fields : Fields} : getScalar fields "result" = none → Misfit nodeKeys fields → DecisionSlip fields
  | condition {fields c : Fields} : getScalar fields "result" = none → getMapping fields "condition" = some c →
      ConditionSlip c → DecisionSlip fields
  | branch {fields b : Fields} {key : String} : getScalar fields "result" = none →
      key ∈ ["true_branch", "false_branch"] → getMapping fields key = some b → DecisionSlip b → DecisionSlip fields

/-- The shapes and places that the parser passes over without an error. -/
inductive Slip (fields : Fields) : Prop
  | rule : Misfit ruleKeys fields → Slip fields
  | entry : EntrySlip fields → Slip fields
  | appliesIf {m : Fields} : getMapping fields "applies_if" = some m → GroupSlip m → Slip fields
  | decisionTree {m : Fields} : getMapping fields "decision_tree" = some m → DecisionSlip m → Slip fields
  | source {m : Fields} : getMapping fields "source" = some m → Misfit sourceKeys m → Slip fields
  /-- obligations, wherever they stand, that are no list -/
  | notList {n : YamlNode} : ObligationsIn n (.mapping fields) → n.isNull = false → n.asSequence = none → Slip fields
  /-- an entry whose obligation is not written for the rule or one of its leaves -/
  | stray {items : List YamlNode} {e : YamlNode} : ObligationsIn (.sequence items) (.mapping fields) → e ∈ items →
      (∀ e', RuleEntry fields e' → compileObligation e' ≠ compileObligation e) → Slip fields

end Ke.Compiler
