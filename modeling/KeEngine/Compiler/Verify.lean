/-
Verification of a rule set: the structural checks (T0), source coverage and interpretation notes
(T1), the lint (T5) on every rule, and the conflicts (T4) across the set.
-/
import KeEngine.Compiler.Parser
import KeEngine.Compiler.T4

namespace Ke.Compiler

open Ke Wire

inductive Tier
  | t0
  | t1
  | t5
deriving DecidableEq

structure Finding where
  tier : Tier
  ruleId : String
  code : String
  message : String
  blocking : Bool
deriving DecidableEq

/-- `trim().is_empty()` -/
def isBlank (s : String) : Bool := (trim s).isEmpty

/-- A finding when the check fails. -/
def findingIf (failed : Bool) (finding : Finding) : List Finding := if failed then [finding] else []

/-! ## T0 -/

namespace T0

def groupIsEmpty (group : ConditionGroupSpec) : Bool :=
  (group.all.elim true List.isEmpty) && (group.any.elim true List.isEmpty)

def finding (rule : RuleIR) (code message : String) : Finding := ⟨.t0, rule.ruleId, code, message, true⟩

def checkLeaves (rule : RuleIR) : DecisionEntry → List Finding
  | .leaf l => findingIf (isBlank l.result) (finding rule "T0_empty_result" "a decision leaf has an empty result")
  | .node _ _ trueBranch falseBranch _ => checkLeaves rule trueBranch ++ checkLeaves rule falseBranch

def check (rule : RuleIR) : List Finding :=
  findingIf (isBlank rule.ruleId) (finding rule "T0_empty_rule_id" "rule_id is empty") ++
    findingIf (isBlank rule.ruleVersion) (finding rule "T0_empty_version" "rule_version is empty") ++
    findingIf (isBlank rule.source.documentId)
      (finding rule "T0_empty_source_document" "source.document_id is empty") ++
    findingIf (rule.appliesIf.elim false groupIsEmpty)
      (finding rule "T0_empty_applies_if" "applies_if has an empty all/any group") ++
    checkLeaves rule rule.decisionTree

end T0

/-! ## T1 -/

namespace T1

/-- Every node and leaf has its own source span. -/
def fullySelfCovered : DecisionEntry → Bool
  | .leaf l => l.sourceSpan.isSome
  | .node _ _ trueBranch falseBranch sourceSpan =>
    sourceSpan.isSome && fullySelfCovered trueBranch && fullySelfCovered falseBranch

/-- An order comparison with a decimal, or an exception. -/
def isThreshold (c : Condition) : Bool :=
  match c.operator, c.value with
  | .gt, .decimal _ _ | .lt, .decimal _ _ | .gte, .decimal _ _ | .lte, .decimal _ _ => true
  | .notIn, _ => true
  | _, _ => false

def itemHasThreshold : ConditionOrGroup → Bool
  | .condition c => isThreshold c
  | .group all any => optHasThreshold all || optHasThreshold any
where
  optHasThreshold : Option (List ConditionOrGroup) → Bool
    | none => false
    | some items => listHasThreshold items
  listHasThreshold : List ConditionOrGroup → Bool
    | [] => false
    | x :: xs => itemHasThreshold x || listHasThreshold xs

def groupHasThreshold (group : ConditionGroupSpec) : Bool := itemHasThreshold (.group group.all group.any)

def treeHasThreshold : DecisionEntry → Bool
  | .leaf _ => false
  | .node _ condition trueBranch falseBranch _ =>
    isThreshold condition || treeHasThreshold trueBranch || treeHasThreshold falseBranch

def ruleHasThresholdOrException (rule : RuleIR) : Bool :=
  rule.appliesIf.elim false groupHasThreshold || treeHasThreshold rule.decisionTree

def check (rule : RuleIR) : List Finding :=
  findingIf (isBlank rule.source.documentId && !fullySelfCovered rule.decisionTree)
      ⟨.t1, rule.ruleId, "T1_source_coverage",
        "decision nodes lack legal source coverage and the rule has no `source:`", true⟩ ++
    findingIf (rule.interpretationNotes.isNone && ruleHasThresholdOrException rule)
      ⟨.t1, rule.ruleId, "T1_missing_interpretation_notes",
        "rule uses a numeric threshold or `not_in` exception but has no interpretation_notes", true⟩

end T1

/-! ## T5 -/

namespace T5

def hasUnannotatedTerminalLeaf : DecisionEntry → Bool
  | .leaf l => l.obligations.elim true List.isEmpty && l.notes.elim true isBlank
  | .node _ _ trueBranch falseBranch _ => hasUnannotatedTerminalLeaf trueBranch ||
      hasUnannotatedTerminalLeaf falseBranch

def advisory (rule : RuleIR) (code message : String) : Finding := ⟨.t5, rule.ruleId, code, message, false⟩

/-- `split_whitespace().count() > 1` of a text that is not blank: white space inside its trim. -/
def hasInnerWhitespace (s : String) : Bool := (trim s).any isWhitespace

def check (rule : RuleIR) : List Finding :=
  findingIf (rule.description.elim true isBlank)
      (advisory rule "T5-missing-description" "rule has no human-readable `description` (advisory)") ++
    findingIf (rule.tags.elim true List.isEmpty)
      (advisory rule "T5-missing-tags" "rule carries no classification `tags` (advisory)") ++
    findingIf (hasUnannotatedTerminalLeaf rule.decisionTree)
      (advisory rule "T5-unannotated-leaf"
        "a decision leaf has neither obligations nor explanatory `notes` (advisory)") ++
    findingIf (!isBlank rule.ruleId && hasInnerWhitespace rule.ruleId)
      ⟨.t5, rule.ruleId, "T5-rule-id-whitespace",
        "rule_id contains internal whitespace; use a single dotted/snake identifier", true⟩

end T5

/-! ## The report -/

structure VerificationReport where
  findings : List Finding
  conflicts : List T4.Conflict

def VerificationReport.hasBlocking (report : VerificationReport) : Bool :=
  report.findings.any (·.blocking) || report.conflicts.any (fun c => decide (c.severity = .blocking))

def verify (rules : List RuleIR) : VerificationReport where
  findings := rules.flatMap fun rule => T0.check rule ++ T1.check rule ++ T5.check rule
  conflicts := T4.detectConflicts rules

/-- Publication is blocked by a finding of any tier or by a contradiction, never by the milder conflicts. -/
theorem verify_hasBlocking (rules : List RuleIR) : (verify rules).hasBlocking = true ↔
    (∃ rule ∈ rules, ∃ f ∈ T0.check rule ++ T1.check rule ++ T5.check rule, f.blocking = true) ∨
      ∃ c ∈ T4.detectConflicts rules, c.severity = .blocking := by
  simp only [VerificationReport.hasBlocking, verify, Bool.or_eq_true, List.any_eq_true, List.mem_flatMap,
    decide_eq_true_eq]
  constructor
  · rintro (⟨f, ⟨rule, hr, hf⟩, hb⟩ | h)
    · exact .inl ⟨rule, hr, f, hf, hb⟩
    · exact .inr h
  · rintro (⟨rule, hr, f, hf, hb⟩ | h)
    · exact .inl ⟨f, ⟨rule, hr, hf⟩, hb⟩
    · exact .inr h

end Ke.Compiler
