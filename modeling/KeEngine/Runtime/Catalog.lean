/-
The conditions of a rule, as the scenario generator catalogs them, and what evaluation reads of a fact set:
the values at the fields of the catalog, an absent field and a null one being the same.
-/
import KeEngine.Compiler.T4Premises

namespace Ke.Runtime

open Ke Wire Ke.T4

/-! ## The catalog -/

/-- Every condition of a rule, and the fields that a membership test reads. -/
structure Catalog where
  conditions : List Condition
  inFields : List String

/-- The conditions of a tree after those in `out`, each node before its branches. -/
def collectTree (out : List Condition) : DecisionEntry → List Condition
  | .leaf _ => out
  | .node _ c trueBranch falseBranch _ => collectTree (collectTree (out ++ [c]) trueBranch) falseBranch

def Catalog.fromRule (rule : RuleIR) : Catalog :=
  let conditions := collectTree (checks rule) rule.decisionTree
  ⟨conditions, sortDedup ((conditions.filter fun c => c.operator = .in ∨ c.operator = .notIn).map (·.field))⟩

/-- The fields of the catalog. -/
def Catalog.fields (catalog : Catalog) : List String := catalog.conditions.map (·.field)

theorem collectTree_eq : ∀ (out : List Condition) (e : DecisionEntry), collectTree out e = out ++ collectTree [] e
  | out, .leaf _ => (List.append_nil out).symm
  | out, .node i c t f s => by
    rw [collectTree, collectTree, collectTree_eq (collectTree (out ++ [c]) t) f, collectTree_eq (out ++ [c]) t,
      collectTree_eq (collectTree ([] ++ [c]) t) f, collectTree_eq ([] ++ [c]) t]
    simp only [List.append_assoc, List.nil_append]

theorem collectTree_node (i : String) (c : Condition) (t f : DecisionEntry) (s : Option SourceSpan) :
    collectTree [] (.node i c t f s) = c :: (collectTree [] t ++ collectTree [] f) := by
  rw [collectTree, collectTree_eq _ f, collectTree_eq ([] ++ [c]) t, List.append_assoc, List.nil_append,
    List.singleton_append]

/-! ## What evaluation reads -/

section

variable {X : Floats} {facts facts' : Facts X.F}

/-- One value at each of the fields; a missing field has the value null. -/
def AgreeAt {F : Type} (fields : List String) (facts facts' : Facts F) : Prop :=
  ∀ field ∈ fields, lookup facts field = lookup facts' field

/-- The conditions read alike on both fact sets. -/
def ReadAlike (X : Floats) (facts facts' : Facts X.F) (cs : List Condition) : Prop :=
  ∀ c ∈ cs, lookup facts c.field = lookup facts' c.field

theorem AgreeAt.readAlike {cs : List Condition} (h : AgreeAt (cs.map (·.field)) facts facts') :
    ReadAlike X facts facts' cs := fun _ hc => h _ (List.mem_map_of_mem hc)

theorem holds_alike {c : Condition} (h : lookup facts c.field = lookup facts' c.field) :
    holds X facts c = holds X facts' c := by
  unfold holds
  rw [h]

theorem step_alike {c : Condition} (h : lookup facts c.field = lookup facts' c.field) :
    step X facts c = step X facts' c := by
  unfold step
  rw [holds_alike h]

theorem runChecks_alike (mode : Mode) : ∀ {cs : List Condition}, ReadAlike X facts facts' cs →
    runChecks X facts mode cs = runChecks X facts' mode cs
  | [], _ => rfl
  | c :: cs, h => by
    have hc := h c List.mem_cons_self
    have hcs := runChecks_alike mode fun d hd => h d (List.mem_cons_of_mem c hd)
    simp only [runChecks, holds_alike hc, step_alike hc, hcs]

theorem applicability_alike {rule : RuleIR} (h : ReadAlike X facts facts' (checks rule)) :
    applicability X facts rule.appliesIf = applicability X facts' rule.appliesIf := by
  unfold checks at h
  cases hscope : rule.appliesIf with
  | none => rfl
  | some group =>
    simp only [hscope] at h
    simp only [applicability]
    cases hchecks : flatten group with
    | nil => rfl
    | cons c cs =>
      rw [hchecks] at h
      exact runChecks_alike (groupMode group.all) h

/-- The walk reads the conditions on its path, all of them in the catalog. -/
theorem walk_alike : ∀ {e : DecisionEntry}, ReadAlike X facts facts' (collectTree [] e) →
    walk X facts e = walk X facts' e
  | .leaf _, _ => rfl
  | .node i c t f s, h => by
    rw [collectTree_node] at h
    have hc := h c List.mem_cons_self
    have ht := walk_alike fun d hd => h d (List.mem_cons_of_mem c (List.mem_append_left _ hd))
    have hf := walk_alike fun d hd => h d (List.mem_cons_of_mem c (List.mem_append_right _ hd))
    simp only [walk, holds_alike hc, step_alike hc, ht, hf]

/-- Fact sets that agree at the fields of a rule's catalog have one evaluation, steps and path included. -/
theorem evaluate_agreeAt {rule : RuleIR} (h : AgreeAt (Catalog.fromRule rule).fields facts facts') :
    evaluate X facts rule = evaluate X facts' rule := by
  have halike : ReadAlike X facts facts' (collectTree (checks rule) rule.decisionTree) := h.readAlike
  rw [collectTree_eq] at halike
  have hscope := applicability_alike fun c hc => halike c (List.mem_append_left _ hc)
  have hwalk := walk_alike fun c hc => halike c (List.mem_append_right _ hc)
  unfold evaluate
  rw [hscope, hwalk]

end

/-- In scope for a verified holder; permitted from five on. -/
def holderRule : RuleIR :=
  .bare "h" (some ⟨some [.condition ⟨"verified", .eq, .bool true, none⟩], none⟩)
    (.node "n" ⟨"x", .gte, .decimal (.lit 128 5) (.lit 8 0), none⟩ (.result "permit") (.result "deny") none)

/-- A fact of no field of the rule, and a null for a field that is missing, change nothing. -/
theorem evaluate_agreeAt_holderRule :
    evaluate exactFloats [("verified", .bool true)] holderRule =
      evaluate exactFloats [("x", .null), ("note", .str "n"), ("verified", .bool true)] holderRule := by
  refine evaluate_agreeAt ?_
  intro field hfield
  have hfields : (Catalog.fromRule holderRule).fields = ["verified", "x"] := rfl
  rw [hfields] at hfield
  rcases List.mem_cons.1 hfield with rfl | hfield
  · rfl
  · rw [List.mem_singleton.1 hfield]
    rfl

end Ke.Runtime
