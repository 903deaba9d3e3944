/-
The semantic normal form against the executor. Equal normal forms give equal sets of checks and
equal sets of paths, so that two rules evaluate alike wherever conditions of one normal form have
one value, and no group hides an `any` list behind an empty `all` list.
-/
import KeEngine.Compiler.T4Premises
import KeEngine.Core.SemanticLaws

namespace Ke.Runtime

open Ke Wire Ke.T4

/-! ## Applicability -/

/-- The conditions of a normal form, in its order. -/
def semFlatten : SemPredicate → List SemCond
  | .cond c => [c]
  | .all ps => semFlattens ps
  | .any ps => semFlattens ps
where
  semFlattens : List SemPredicate → List SemCond
    | [] => []
    | p :: ps => semFlatten p ++ semFlattens ps

/-- No group reads as its empty `all` list in the normal form while the executor takes conditions
from its `any` list. -/
def shadowFree : ConditionOrGroup → Bool
  | .condition _ => true
  | .group none any => opt any
  | .group (some []) any => (flattenOne.flattenOpt any).isEmpty
  | .group (some (x :: xs)) _ => shadowFree x && items xs
where
  opt : Option (List ConditionOrGroup) → Bool
    | none => true
    | some xs => items xs
  items : List ConditionOrGroup → Bool
    | [] => true
    | x :: xs => shadowFree x && items xs

def ShadowFree (r : RuleIR) : Prop := ∀ g ∈ r.appliesIf, shadowFree (.group g.all g.any) = true

theorem semFlattens_eq : ∀ ps : List SemPredicate, semFlatten.semFlattens ps = ps.flatMap semFlatten
  | [] => rfl
  | p :: ps => by rw [semFlatten.semFlattens, List.flatMap_cons, semFlattens_eq ps]

theorem semFlattens_sort (ps : List SemPredicate) :
    (semFlatten.semFlattens (sortBy SemPredicate.cmp ps)).Perm (semFlatten.semFlattens ps) := by
  rw [semFlattens_eq, semFlattens_eq]
  exact (perm_sortBy SemPredicate.cmp ps).flatMap_right _

theorem semFlattens_items {xs : List ConditionOrGroup} :
    (∀ x ∈ xs, shadowFree x = true → (semFlatten (semItem x)).Perm ((flattenOne x).map semCond)) →
      shadowFree.items xs = true →
      (semFlatten.semFlattens (semItem.semItems xs)).Perm ((flattenOne.flattenItems xs).map semCond) := by
  induction xs with
  | nil => intro _ _; exact .nil
  | cons x xs ih =>
    intro hx h
    simp only [shadowFree.items, Bool.and_eq_true] at h
    simp only [semItem.semItems, semFlatten.semFlattens, flattenOne.flattenItems, List.map_append]
    exact (hx x (List.mem_cons_self ..) h.1).append (ih (fun y hy => hx y (List.mem_cons_of_mem _ hy)) h.2)

/-- The normal form of a group has the conditions that the executor flattens it to. -/
theorem semFlatten_semItem (x : ConditionOrGroup) :
    shadowFree x = true → (semFlatten (semItem x)).Perm ((flattenOne x).map semCond) := by
  induction x using ConditionOrGroup.ind with
  | hc c => intro _; exact .refl _
  | hg all any iha ihb =>
    intro h
    cases all with
    | none =>
      cases any with
      | none => exact .nil
      | some items => exact (semFlattens_sort _).trans (semFlattens_items (ihb items rfl) h)
    | some items =>
      cases items with
      | nil =>
        simp only [shadowFree, List.isEmpty_iff] at h
        simp only [flattenOne, isTruthy, Bool.false_eq_true, if_false, h]
        exact semFlattens_sort []
      | cons y ys =>
        refine (semFlattens_sort _).trans (semFlattens_items (iha (y :: ys) rfl) ?_)
        simpa only [shadowFree, shadowFree.items] using h

def SemPredicate.isAll : SemPredicate → Bool
  | .all _ => true
  | _ => false

/-- The mode of a group that has conditions is the top of its normal form. -/
theorem groupMode_eq {g : ConditionGroupSpec} (h : shadowFree (.group g.all g.any) = true) (hne : flatten g ≠ []) :
    groupMode g.all = if SemPredicate.isAll (semPredicate g) then .all else .any := by
  obtain ⟨all, any⟩ := g
  cases all with
  | none =>
    cases any with
    | none => exact absurd rfl hne
    | some items => rfl
  | some items =>
    cases items with
    | nil =>
      simp only [shadowFree, List.isEmpty_iff] at h
      exact absurd (by simp only [flatten, flattenOne, isTruthy, Bool.false_eq_true, if_false, h]) hne
    | cons x xs => rfl

section

variable {X : Floats} {facts : Facts X.F}

/-- Conditions of one normal form have one value on the facts. -/
def AgreeOn (X : Floats) (facts : Facts X.F) (cs ds : List Condition) : Prop :=
  ∀ c ∈ cs, ∀ d ∈ ds, semCond c = semCond d → holds X facts c = holds X facts d

theorem runChecks_any :
    ∀ cs : List Condition, (runChecks X facts .any cs).1 = true ↔ ∃ c ∈ cs, holds X facts c = true
  | [] => by simp [runChecks]
  | c :: cs => by
    simp only [runChecks, List.exists_mem_cons_iff]
    cases h : holds X facts c with
    | true => simp
    | false => simp [runChecks_any cs]

theorem runChecks_perm {cs ds : List Condition} (hperm : (cs.map semCond).Perm (ds.map semCond))
    (hagree : AgreeOn X facts cs ds) (mode : Mode) :
    (runChecks X facts mode cs).1 = (runChecks X facts mode ds).1 := by
  have hcd : ∀ c ∈ cs, ∃ d ∈ ds, holds X facts c = holds X facts d := by
    intro c hc
    obtain ⟨d, hd, heq⟩ := List.mem_map.1 (hperm.mem_iff.1 (List.mem_map_of_mem hc))
    exact ⟨d, hd, hagree c hc d hd heq.symm⟩
  have hdc : ∀ d ∈ ds, ∃ c ∈ cs, holds X facts c = holds X facts d := by
    intro d hd
    obtain ⟨c, hc, heq⟩ := List.mem_map.1 (hperm.mem_iff.2 (List.mem_map_of_mem hd))
    exact ⟨c, hc, hagree c hc d hd heq⟩
  rw [Bool.eq_iff_iff]
  cases mode with
  | all =>
    rw [runChecks_all, runChecks_all]
    constructor
    · intro h d hd
      obtain ⟨c, hc, heq⟩ := hdc d hd
      rw [← heq]; exact h c hc
    · intro h c hc
      obtain ⟨d, hd, heq⟩ := hcd c hc
      rw [heq]; exact h d hd
  | any =>
    rw [runChecks_any, runChecks_any]
    constructor
    · rintro ⟨c, hc, h⟩
      obtain ⟨d, hd, heq⟩ := hcd c hc
      exact ⟨d, hd, by rw [← heq]; exact h⟩
    · rintro ⟨d, hd, h⟩
      obtain ⟨c, hc, heq⟩ := hdc d hd
      exact ⟨c, hc, by rw [heq]; exact h⟩

theorem applicability_some (g : ConditionGroupSpec) :
    applicability X facts (some g) =
      if flatten g = [] then (true, []) else runChecks X facts (groupMode g.all) (flatten g) := by
  simp only [applicability]
  cases h : flatten g with
  | nil => rfl
  | cons c cs => rfl

theorem applicability_sameLogic {r₁ r₂ : RuleIR} (hform : r₁.appliesIf.map semPredicate = r₂.appliesIf.map semPredicate)
    (h₁ : ShadowFree r₁) (h₂ : ShadowFree r₂) (hagree : AgreeOn X facts (checks r₁) (checks r₂)) :
    (applicability X facts r₁.appliesIf).1 = (applicability X facts r₂.appliesIf).1 := by
  simp only [ShadowFree, checks] at h₁ h₂ hagree
  cases ha : r₁.appliesIf with
  | none =>
    rw [ha, Option.map_none, eq_comm, Option.map_eq_none_iff] at hform
    rw [hform]
  | some g₁ =>
    rw [ha, Option.map_some, eq_comm, Option.map_eq_some_iff] at hform
    obtain ⟨g₂, hb, hsem⟩ := hform
    rw [ha] at h₁ hagree
    rw [hb] at h₂ hagree
    have hperm : ((flatten g₁).map semCond).Perm ((flatten g₂).map semCond) :=
      (semFlatten_semItem _ (h₁ g₁ rfl)).symm.trans (by
        have := semFlatten_semItem _ (h₂ g₂ rfl)
        rw [semPredicate, semPredicate] at hsem
        rwa [hsem] at this)
    rw [hb, applicability_some, applicability_some]
    by_cases hnil : flatten g₁ = []
    · have hnil' : flatten g₂ = [] := by
        rw [hnil] at hperm
        simpa using hperm.nil_eq.symm
      rw [if_pos hnil, if_pos hnil']
    · have hnil' : flatten g₂ ≠ [] := by
        intro h
        rw [h] at hperm
        exact hnil (by simpa using hperm.eq_nil)
      rw [if_neg hnil, if_neg hnil', groupMode_eq (h₁ g₁ rfl) hnil, groupMode_eq (h₂ g₂ rfl) hnil', hsem]
      exact runChecks_perm hperm hagree _

/-! ## Decisions -/

theorem collectPaths_acc :
    ∀ (e : DecisionEntry) (acc : List SemBranch),
      collectPaths acc e = (collectPaths [] e).map fun p => ⟨acc ++ p.branches, p.outcome⟩
  | .leaf l, acc => by simp [collectPaths]
  | .node i c t f s, acc => by
    rw [collectPaths, collectPaths, collectPaths_acc t, collectPaths_acc f, List.nil_append,
      collectPaths_acc t [⟨semCond c, true⟩], List.nil_append, collectPaths_acc f [⟨semCond c, false⟩],
      List.map_append, List.map_map, List.map_map]
    simp only [Function.comp_def, List.append_assoc]

/-- The branch that the facts take at a condition. -/
def taken (X : Floats) (facts : Facts X.F) (c : Condition) : SemBranch := ⟨semCond c, holds X facts c⟩

/-- The walk of a tree is one of its paths. -/
theorem walk_path :
    ∀ e : DecisionEntry,
      (⟨(consultedNodes X facts e).map (taken X facts), semOutcome (walk X facts e).1⟩ : SemPath) ∈ collectPaths [] e
  | .leaf l => List.mem_singleton.2 rfl
  | .node i c t f s => by
    simp only [collectPaths, List.nil_append, List.mem_append]
    rw [collectPaths_acc t, collectPaths_acc f]
    simp only [consultedNodes, walk, List.map_cons]
    cases hb : holds X facts c with
    | true => exact .inl (List.mem_map.2 ⟨_, walk_path t, by simp [taken, hb]⟩)
    | false => exact .inr (List.mem_map.2 ⟨_, walk_path f, by simp [taken, hb]⟩)

theorem map_taken_eq_cons {cs : List Condition} {b : SemBranch} {bs : List SemBranch}
    (h : cs.map (taken X facts) = b :: bs) :
    ∃ d ds, cs = d :: ds ∧ semCond d = b.cond ∧ holds X facts d = b.taken ∧ ds.map (taken X facts) = bs := by
  cases cs with
  | nil => cases h
  | cons d ds =>
    rw [List.map_cons, List.cons.injEq] at h
    obtain ⟨rfl, hrest⟩ := h
    exact ⟨d, ds, rfl, rfl, rfl, hrest⟩

/-- A path of a tree whose branches are those that the facts take is the walk of the tree. -/
theorem path_walk :
    ∀ {e : DecisionEntry} {cs : List Condition} {o : SemOutcome},
      (⟨cs.map (taken X facts), o⟩ : SemPath) ∈ collectPaths [] e → AgreeOn X facts cs (consultedNodes X facts e) →
      o = semOutcome (walk X facts e).1
  | .leaf l, cs, o, h, _ => by
    have hp := List.mem_singleton.1 h
    simp only [SemPath.mk.injEq] at hp
    exact hp.2
  | .node i c t f s, cs, o, h, hagree => by
    simp only [collectPaths, List.nil_append, List.mem_append] at h
    rw [collectPaths_acc t, collectPaths_acc f] at h
    have hmem : c ∈ consultedNodes X facts (.node i c t f s) := List.mem_cons_self ..
    -- whichever branch the path takes, the node takes it too, since its condition agrees with the path's
    rcases h with h | h <;> obtain ⟨p, hp, heq⟩ := List.mem_map.1 h <;>
      simp only [SemPath.mk.injEq, List.singleton_append] at heq <;> obtain ⟨hbranches, rfl⟩ := heq
    · obtain ⟨d, ds, rfl, hsem, htrue, hrest⟩ := map_taken_eq_cons hbranches.symm
      have hc : holds X facts c = true := by rw [← hagree d (List.mem_cons_self ..) c hmem hsem, htrue]
      simp only [consultedNodes, hc, if_true] at hagree
      simp only [walk, hc, if_true]
      rw [show p = ⟨ds.map (taken X facts), p.outcome⟩ by rw [hrest]] at hp
      exact path_walk hp fun x hx y hy => hagree x (List.mem_cons_of_mem _ hx) y (List.mem_cons_of_mem _ hy)
    · obtain ⟨d, ds, rfl, hsem, hfalse, hrest⟩ := map_taken_eq_cons hbranches.symm
      have hc : holds X facts c = false := by rw [← hagree d (List.mem_cons_self ..) c hmem hsem, hfalse]
      simp only [consultedNodes, hc, Bool.false_eq_true, if_false] at hagree
      simp only [walk, hc, Bool.false_eq_true, if_false]
      rw [show p = ⟨ds.map (taken X facts), p.outcome⟩ by rw [hrest]] at hp
      exact path_walk hp fun x hx y hy => hagree x (List.mem_cons_of_mem _ hx) y (List.mem_cons_of_mem _ hy)

theorem walk_sameLogic {e₁ e₂ : DecisionEntry}
    (hpaths : sortBy SemPath.cmp (collectPaths [] e₁) = sortBy SemPath.cmp (collectPaths [] e₂))
    (hagree : AgreeOn X facts (consultedNodes X facts e₁) (consultedNodes X facts e₂)) :
    semOutcome (walk X facts e₁).1 = semOutcome (walk X facts e₂).1 := by
  have hperm : (collectPaths [] e₁).Perm (collectPaths [] e₂) :=
    (perm_sortBy SemPath.cmp _).symm.trans (hpaths ▸ perm_sortBy SemPath.cmp _)
  exact path_walk (hperm.mem_iff.1 (walk_path e₁)) hagree

/-! ## Rules of one normal form -/

/-- The conditions of a rule that decide its outcome on the facts. -/
def deciding (X : Floats) (facts : Facts X.F) (r : RuleIR) : List Condition :=
  checks r ++ consultedNodes X facts r.decisionTree

theorem AgreeOn.mono {cs ds cs' ds' : List Condition} (h : AgreeOn X facts cs ds) (hc : cs' ⊆ cs) (hd : ds' ⊆ ds) :
    AgreeOn X facts cs' ds' := fun c hc' d hd' => h c (hc hc') d (hd hd')

theorem sameLogic_iff {a b : SemanticRule} :
    sameLogic a b = true ↔ a.applicability = b.applicability ∧ a.decisionPaths = b.decisionPaths := by
  rw [sameLogic, Bool.and_eq_true, decide_eq_true_eq, decide_eq_true_eq]

theorem evaluate_outcome (r : RuleIR) :
    (evaluate X facts r).applicable = (applicability X facts r.appliesIf).1 ∧
      (evaluate X facts r).decision =
        (if (applicability X facts r.appliesIf).1 then some
          (semOutcome (walk X facts r.decisionTree).1).result else none) ∧
      (evaluate X facts r).obligationIds =
        (if (applicability X facts r.appliesIf).1 then (semOutcome (walk X facts r.decisionTree).1).obligations
          else []) := by
  simp only [evaluate, Evaluation.obligationIds]
  split
  · rename_i heq
    simp [heq, sortDedup, sortBy]
  · rename_i heq
    simp only [heq, if_true, semOutcome, List.map_map, true_and]
    rfl

/-- Rules of one normal form evaluate alike on facts on which conditions of one normal form have
one value, when neither hides an `any` list behind an empty `all` list. -/
theorem evaluate_sameLogic {r₁ r₂ : RuleIR}
    (hform : sameLogic (SemanticRule.fromRule r₁) (SemanticRule.fromRule r₂) = true) (h₁ : ShadowFree r₁)
    (h₂ : ShadowFree r₂) (hagree : AgreeOn X facts (deciding X facts r₁) (deciding X facts r₂)) :
    (evaluate X facts r₁).applicable = (evaluate X facts r₂).applicable ∧
      (evaluate X facts r₁).decision = (evaluate X facts r₂).decision ∧
      (evaluate X facts r₁).obligationIds = (evaluate X facts r₂).obligationIds := by
  obtain ⟨hpred, hpaths⟩ := sameLogic_iff.1 hform
  have happ := applicability_sameLogic hpred h₁ h₂
    (hagree.mono (List.subset_append_left ..) (List.subset_append_left ..))
  have hwalk := walk_sameLogic hpaths
    (hagree.mono (List.subset_append_right ..) (List.subset_append_right ..))
  obtain ⟨a₁, d₁, o₁⟩ := @evaluate_outcome X facts r₁
  obtain ⟨a₂, d₂, o₂⟩ := @evaluate_outcome X facts r₂
  rw [a₁, a₂, d₁, d₂, o₁, o₂, happ, hwalk]
  exact ⟨rfl, rfl, rfl⟩

/-! ## Operands whose normal form decides their value -/

/-- A text, a boolean, or a decimal that folds without overflow. -/
def Plain : ScalarValue → Prop
  | .str _ => True
  | .bool _ => True
  | .decimal mantissa scale => ∃ p, normalizeDecimal mantissa scale = .ok p
  | .list _ => False

theorem evalEq_plain {v w : ScalarValue} (hX : X.ParsesValue) (hv : Plain v) (hw : Plain w)
    (h : semValue v = semValue w) : v = w ∨ ∃ m s n t, v = .decimal m s ∧ w = .decimal n t ∧
      decimalToF64 X m s = decimalToF64 X n t := by
  cases v <;> cases w <;> simp only [semValue, SemValue.str.injEq, SemValue.bool.injEq, SemValue.num.injEq,
    reduceCtorEq] at h
  · exact .inl (by rw [h])
  · exact .inl (by rw [h])
  · rename_i m s n t
    obtain ⟨⟨m', s'⟩, hm⟩ := hv
    obtain ⟨⟨n', t'⟩, hn⟩ := hw
    rw [normDecimal_of_normalize hm, normDecimal_of_normalize hn] at h
    obtain ⟨rfl, rfl⟩ := h
    refine .inr ⟨m, s, n, t, rfl, rfl, hX.parse ?_⟩
    rw [← normalizeDecimal_value hm, ← normalizeDecimal_value hn]
  · exact absurd hv id

/-- Conditions of one normal form with plain operands have one value on every fact set. -/
theorem holds_plain (hX : X.ParsesValue) {c d : Condition} (hc : Plain c.value) (hd : Plain d.value)
    (h : semCond c = semCond d) : holds X facts c = holds X facts d := by
  obtain ⟨field, op, v, _⟩ := c
  obtain ⟨field', op', w, _⟩ := d
  simp only [semCond, SemCond.mk.injEq] at h
  obtain ⟨rfl, hop, hval⟩ := h
  obtain rfl := Operator.token_injective hop
  simp only [holds]
  generalize lookup facts field = x
  rcases evalEq_plain hX hc hd hval with heq | ⟨m, s, n, t, hv, hw, hf⟩
  · simp only at heq
    rw [heq]
  · simp only at hv hw
    subst hv hw
    have heq : evalEq X x (.decimal m s) = evalEq X x (.decimal n t) := by
      cases x <;> simp only [evalEq, operandAsNumber, hf]
    have hord : ∀ o, evalOrd X x (.decimal m s) o = evalOrd X x (.decimal n t) o := by
      intro o
      cases x <;> simp only [evalOrd, operandAsNumber, hf]
    cases op <;> simp only [evaluateOp, heq, hord, evalIn]

end

/-! ## A decimal in a value set -/

/-- Applicable when `x` is in `[5]`. -/
def integerRule : RuleIR :=
  .bare "s" (some ⟨some [.condition ⟨"x", .in, .list [.decimal (.lit 128 5) (.lit 8 0)], none⟩], none⟩) (.result "ok")

/-- The sets `[5.0]` and `[5]` have one normal form; the fact five is in the second only. -/
theorem sameLogic_differs :
    ¬ ∀ (X : Floats) (r₁ r₂ : RuleIR) (facts : Facts X.F), X.ParsesValue →
      sameLogic (SemanticRule.fromRule r₁) (SemanticRule.fromRule r₂) = true →
      (evaluate X facts r₁).applicable = (evaluate X facts r₂).applicable ∧
        (evaluate X facts r₁).decision = (evaluate X facts r₂).decision ∧
        (evaluate X facts r₁).obligationIds = (evaluate X facts r₂).obligationIds := by
  intro hall
  have h := (hall exactFloats fractionRule integerRule fiveFacts exactFloats_parsesValue (by decide +kernel)).1
  exact absurd h (by decide +kernel)

/-- Applicable when `x == 5`, with the outcome of the rule for `x == 5.0`. -/
def fivePermitRule : RuleIR :=
  .bare "c" (some ⟨some [.condition ⟨"x", .eq, .decimal (.lit 128 5) (.lit 8 0), none⟩], none⟩) (.result "permit")

theorem evaluate_sameLogic_fiveRules :
    (evaluate exactFloats fiveFacts fivePointZeroRule).applicable =
    (evaluate exactFloats fiveFacts fivePermitRule).applicable ∧
      (evaluate exactFloats fiveFacts fivePointZeroRule).decision =
      (evaluate exactFloats fiveFacts fivePermitRule).decision ∧
      (evaluate exactFloats fiveFacts fivePointZeroRule).obligationIds =
        (evaluate exactFloats fiveFacts fivePermitRule).obligationIds := by
  refine evaluate_sameLogic (by decide +kernel) (by rintro g ⟨⟩; rfl) (by rintro g ⟨⟩; rfl) ?_
  have h₁ : (deciding exactFloats fiveFacts fivePointZeroRule).all (holds exactFloats fiveFacts) = true := by
    decide +kernel
  have h₂ : (deciding exactFloats fiveFacts fivePermitRule).all (holds exactFloats fiveFacts) = true := by
    decide +kernel
  intro c hc d hd _
  rw [List.all_eq_true.1 h₁ c hc, List.all_eq_true.1 h₂ d hd]

end Ke.Runtime
