/-
Scopes without a condition. The structural check looks at the lists of the outermost group; the
executor flattens nested groups, and takes an empty list of checks for a rule that always applies.
-/
import KeEngine.Compiler.FailClosed
import KeEngine.Compiler.Verify
import KeEngine.Runtime.Exec

namespace Ke.Compiler

open Ke Wire Runtime

/-- A condition is reached through the list that is read of each group: `all` unless it is empty, then `any`. -/
inductive Reaches : ConditionOrGroup → Prop
  | condition (c : Condition) : Reaches (.condition c)
  | all {items : List ConditionOrGroup} {any : Option (List ConditionOrGroup)} {item : ConditionOrGroup}
      (mem : item ∈ items) (reaches : Reaches item) : Reaches (.group (some items) any)
  | any {all : Option (List ConditionOrGroup)} {items : List ConditionOrGroup} {item : ConditionOrGroup}
      (falsy : isTruthy all = false) (mem : item ∈ items) (reaches : Reaches item) : Reaches (.group all (some items))

theorem reaches_iff {x : ConditionOrGroup} : Reaches x ↔ ∃ c, Stands c x := by
  constructor
  · intro h
    induction h with
    | condition c => exact ⟨c, .condition⟩
    | all mem _ ih => exact ih.imp fun _ hc => .all mem hc
    | any falsy mem _ ih => exact ih.imp fun _ hc => .any falsy mem hc
  · rintro ⟨c, h⟩
    induction h with
    | condition => exact .condition c
    | all mem _ ih => exact .all mem ih
    | any falsy mem _ ih => exact .any falsy mem ih

theorem flattenOne_ne_nil (x : ConditionOrGroup) : flattenOne x ≠ [] ↔ Reaches x := by
  simp only [reaches_iff, ← mem_flattenOne, Ne, List.eq_nil_iff_forall_not_mem, not_forall, not_not]

/-- A leaf of the tree has a blank result. -/
inductive BlankLeaf : DecisionEntry → Prop
  | leaf {l : DecisionLeaf} (blank : isBlank l.result = true) : BlankLeaf (.leaf l)
  | ifTrue {nodeId : String} {condition : Condition} {trueBranch falseBranch : DecisionEntry}
      {sourceSpan : Option SourceSpan} (blank : BlankLeaf trueBranch) :
      BlankLeaf (.node nodeId condition trueBranch falseBranch sourceSpan)
  | ifFalse {nodeId : String} {condition : Condition} {trueBranch falseBranch : DecisionEntry}
      {sourceSpan : Option SourceSpan} (blank : BlankLeaf falseBranch) :
      BlankLeaf (.node nodeId condition trueBranch falseBranch sourceSpan)

/-- A rule with a blank name, with a scope whose outermost lists are both empty, or with a blank result. -/
inductive Refused (rule : RuleIR) : Prop
  | ruleId (blank : isBlank rule.ruleId = true)
  | ruleVersion (blank : isBlank rule.ruleVersion = true)
  | documentId (blank : isBlank rule.source.documentId = true)
  | appliesIf {group : ConditionGroupSpec} (scope : rule.appliesIf = some group) (all : group.all.getD [] = [])
      (any : group.any.getD [] = [])
  | result (blank : BlankLeaf rule.decisionTree)

theorem exists_findingIf {failed : Bool} {finding : Finding} (hblocking : finding.blocking = true) :
    (∃ f ∈ findingIf failed finding, f.blocking = true) ↔ failed = true := by
  cases failed <;> simp [findingIf, hblocking]

theorem checkLeaves_iff (rule : RuleIR) (entry : DecisionEntry) :
    (∃ f ∈ T0.checkLeaves rule entry, f.blocking = true) ↔ BlankLeaf entry := by
  induction entry with
  | leaf l =>
    rw [T0.checkLeaves, exists_findingIf rfl]
    refine ⟨.leaf, fun h => ?_⟩
    cases h with
    | leaf blank => exact blank
  | node nodeId condition trueBranch falseBranch sourceSpan iht ihf =>
    simp only [T0.checkLeaves, List.mem_append, or_and_right, exists_or]
    rw [iht, ihf]
    refine ⟨fun h => h.elim .ifTrue .ifFalse, fun h => ?_⟩
    cases h with
    | ifTrue blank => exact .inl blank
    | ifFalse blank => exact .inr blank

theorem groupIsEmpty_iff (group : ConditionGroupSpec) :
    T0.groupIsEmpty group = true ↔ group.all.getD [] = [] ∧ group.any.getD [] = [] := by
  obtain ⟨all, any⟩ := group
  cases all <;> cases any <;> simp [T0.groupIsEmpty]

/-- The structural check has something against exactly such rules. -/
theorem refused_iff (rule : RuleIR) : (∃ f ∈ T0.check rule, f.blocking = true) ↔ Refused rule := by
  simp only [T0.check, List.mem_append, or_and_right, exists_or, or_assoc]
  rw [exists_findingIf rfl, exists_findingIf rfl, exists_findingIf rfl, exists_findingIf rfl, checkLeaves_iff]
  constructor
  · rintro (h | h | h | h | h)
    · exact .ruleId h
    · exact .ruleVersion h
    · exact .documentId h
    · cases hscope : rule.appliesIf with
      | none =>
        rw [hscope] at h
        cases h
      | some group =>
        rw [hscope] at h
        obtain ⟨hall, hany⟩ := (groupIsEmpty_iff group).1 h
        exact .appliesIf hscope hall hany
    · exact .result h
  · rintro (h | h | h | ⟨hscope, hall, hany⟩ | h)
    · exact .inl h
    · exact .inr (.inl h)
    · exact .inr (.inr (.inl h))
    · refine .inr (.inr (.inr (.inl ?_)))
      rw [hscope]
      exact (groupIsEmpty_iff _).2 ⟨hall, hany⟩
    · exact .inr (.inr (.inr (.inr h)))

/-- A rule that declares a scope and passes the structural check has checks to evaluate. -/
def ScopeChecked (rule : RuleIR) : Prop :=
  ∀ group, rule.appliesIf = some group → (∀ f ∈ T0.check rule, f.blocking = false) → flatten group ≠ []

/-- So it has, unless the scope reaches no condition and the check has nothing against the rule. -/
theorem scopeChecked_iff (rule : RuleIR) : ScopeChecked rule ↔ ∀ group, rule.appliesIf = some group →
    Reaches (.group group.all group.any) ∨ Refused rule := by
  refine forall₂_congr fun group _ => ?_
  rw [show flatten group ≠ [] ↔ Reaches (.group group.all group.any) from flattenOne_ne_nil _, ← refused_iff]
  constructor
  · intro h
    by_cases hblocking : ∃ f ∈ T0.check rule, f.blocking = true
    · exact .inr hblocking
    · exact .inl (h fun f hf => Bool.eq_false_iff.2 fun hb => hblocking ⟨f, hf, hb⟩)
  · rintro (hreaches | ⟨f, hf, hb⟩) hpasses
    · exact hreaches
    · rw [hpasses f hf] at hb
      cases hb

/-- A scope that reaches no condition is met by all facts. -/
theorem applicability_of_not_reaches (X : Floats) (facts : Facts X.F) {group : ConditionGroupSpec}
    (h : ¬ Reaches (.group group.all group.any)) : applicability X facts (some group) = (true, []) := by
  have hnil : flatten group = [] := by
    by_contra hne
    exact h ((flattenOne_ne_nil _).1 hne)
  simp only [applicability, hnil]

/-- `applies_if: {all: [{any: []}]}` -/
def emptyInside : YamlNode := .mapping [("all", .sequence [.mapping [("any", .sequence [])]])]

/-- The scope compiles and passes the structural check, and the rule applies to everyone. -/
theorem empty_inside_accepted : ∃ rule group, compileRule (scopedDocument emptyInside) = .ok rule ∧
    rule.appliesIf = some group ∧ T0.check rule = [] ∧
      (∀ (X : Floats) (facts : Facts X.F), applicability X facts rule.appliesIf = (true, [])) ∧
      ¬ ScopeChecked rule := by
  refine ⟨scopedRule (some ⟨some [.group none (some [])], none⟩), _, rfl, rfl, by decide +kernel, fun _ _ => rfl, ?_⟩
  intro h
  exact h _ rfl (by decide +kernel) rfl

end Ke.Compiler
