/-
Applicability as a law of its checks. The flag is the conjunction or the disjunction of the checks
that the group flattens to, the trace is the checks up to the first that decides, and the order of
the members of a group, at any depth, moves nothing but the trace.
-/
import KeEngine.Runtime.SemanticExec

namespace Ke.Runtime

open Ke Wire Ke.T4

/-! ## The trace -/

/-- The mode of a rule's checks. -/
def checksMode (r : RuleIR) : Mode :=
  match r.appliesIf with
  | some group => groupMode group.all
  | none => .all

/-- The checks are the conditions that stand in the group, through the list that is read of each group around them. -/
theorem mem_checks {r : RuleIR} {c : Condition} :
    c ∈ checks r ↔ ∃ group, r.appliesIf = some group ∧ Stands c (.group group.all group.any) := by
  unfold checks
  cases r.appliesIf with
  | none => exact iff_of_false List.not_mem_nil (by rintro ⟨_, h, -⟩; cases h)
  | some group =>
    show c ∈ flattenOne _ ↔ _
    rw [mem_flattenOne]
    constructor
    · exact fun h => ⟨group, rfl, h⟩
    · rintro ⟨_, h, hc⟩
      cases h
      exact hc

section

variable (X : Floats) (facts : Facts X.F)

/-- A check that ends the loop: a false one under `all`, a true one under `any`. -/
def decides (mode : Mode) (c : Condition) : Bool :=
  match mode with
  | .all => !holds X facts c
  | .any => holds X facts c

/-- The conjunction or the disjunction of checks. -/
def combined (mode : Mode) (cs : List Condition) : Bool :=
  match mode with
  | .all => cs.all (holds X facts)
  | .any => cs.any (holds X facts)

variable {X facts}

theorem runChecks_fst (mode : Mode) (cs : List Condition) :
    (runChecks X facts mode cs).1 = combined X facts mode cs := by
  rw [Bool.eq_iff_iff]
  cases mode with
  | all => rw [runChecks_all, combined, List.all_eq_true]
  | any => rw [runChecks_any, combined, List.any_eq_true]

/-- The loop steps through the checks up to and with the first that decides. -/
theorem runChecks_snd (mode : Mode) :
    ∀ cs : List Condition, (runChecks X facts mode cs).2 =
      (cs.take (cs.findIdx (decides X facts mode) + 1)).map (step X facts)
  | [] => rfl
  | c :: cs => by
    have ih := runChecks_snd mode cs
    -- the loop goes on exactly when the check does not decide
    cases mode <;> cases h : holds X facts c <;>
      simp only [runChecks, decides, List.findIdx_cons, h, ih, Bool.not_true, Bool.not_false, cond_true, cond_false,
        List.take_succ_cons, List.map_cons, List.take_zero, List.map_nil]

theorem applicability_eq (r : RuleIR) :
    applicability X facts r.appliesIf =
      if checks r = [] then (true, []) else runChecks X facts (checksMode r) (checks r) := by
  cases hr : r.appliesIf with
  | none => simp only [applicability, checks, hr, if_true]
  | some g => simp only [applicability_some, checks, checksMode, hr]

theorem evaluate_applicable (r : RuleIR) :
    (evaluate X facts r).applicable = (decide (checks r = []) || combined X facts (checksMode r) (checks r)) := by
  rw [(evaluate_outcome r).1, applicability_eq]
  by_cases h : checks r = []
  · simp [h]
  · simp [h, runChecks_fst]

theorem evaluate_steps (r : RuleIR) :
    (evaluate X facts r).applicabilitySteps =
      ((checks r).take ((checks r).findIdx (decides X facts (checksMode r)) + 1)).map (step X facts) := by
  have hsteps : (evaluate X facts r).applicabilitySteps = (applicability X facts r.appliesIf).2 := by
    simp only [evaluate]
    split <;> rename_i heq <;> rw [heq]
  rw [hsteps, applicability_eq]
  by_cases h : checks r = []
  · simp [h]
  · simp [h, runChecks_snd]

end

/-! ## Reordering -/

mutual

/-- Trees of conditions that differ by the order of the members of their groups, at any depth. -/
inductive Reordered : ConditionOrGroup → ConditionOrGroup → Prop
  | condition (c : Condition) : Reordered (.condition c) (.condition c)
  | group {all all' any any' : Option (List ConditionOrGroup)} :
    ReorderedList all all' → ReorderedList any any' → Reordered (.group all any) (.group all' any')

inductive ReorderedList : Option (List ConditionOrGroup) → Option (List ConditionOrGroup) → Prop
  | absent : ReorderedList none none
  | present {xs ys : List ConditionOrGroup} : ReorderedItems xs ys → ReorderedList (some xs) (some ys)

/-- The members of a list in another order, each of them reordered. -/
inductive ReorderedItems : List ConditionOrGroup → List ConditionOrGroup → Prop
  | nil : ReorderedItems [] []
  | cons {x y : ConditionOrGroup} {xs ys : List ConditionOrGroup} :
    Reordered x y → ReorderedItems xs ys → ReorderedItems (x :: xs) (y :: ys)
  | swap (x y : ConditionOrGroup) (xs : List ConditionOrGroup) : ReorderedItems (x :: y :: xs) (y :: x :: xs)
  | trans {xs ys zs : List ConditionOrGroup} : ReorderedItems xs ys → ReorderedItems ys zs → ReorderedItems xs zs

end

theorem ReorderedItems.refl_of {xs : List ConditionOrGroup} (h : ∀ x ∈ xs, Reordered x x) : ReorderedItems xs xs := by
  induction xs with
  | nil => exact .nil
  | cons x xs ih => exact .cons (h x (List.mem_cons_self ..)) (ih fun y hy => h y (List.mem_cons_of_mem _ hy))

theorem ReorderedList.refl_of {xs : Option (List ConditionOrGroup)} (h : ∀ items ∈ xs, ∀ x ∈ items, Reordered x x) :
    ReorderedList xs xs := by
  cases xs with
  | none => exact .absent
  | some items => exact .present (.refl_of (h items rfl))

theorem Reordered.refl (x : ConditionOrGroup) : Reordered x x := by
  induction x using ConditionOrGroup.ind with
  | hc c => exact .condition c
  | hg all any ihAll ihAny => exact .group (.refl_of ihAll) (.refl_of ihAny)

/-- Every permutation of the members is a reordering. -/
theorem ReorderedItems.of_perm {xs ys : List ConditionOrGroup} (h : xs.Perm ys) : ReorderedItems xs ys := by
  induction h with
  | nil => exact .nil
  | cons x _ ih => exact .cons (.refl x) ih
  | swap x y l => exact .swap y x l
  | trans _ _ ih₁ ih₂ => exact .trans ih₁ ih₂

theorem ReorderedItems.length_eq : ∀ {xs ys : List ConditionOrGroup}, ReorderedItems xs ys → xs.length = ys.length
  | _, _, .nil => rfl
  | _, _, .cons _ h => congrArg (· + 1) h.length_eq
  | _, _, .swap .. => rfl
  | _, _, .trans h₁ h₂ => h₁.length_eq.trans h₂.length_eq

theorem ReorderedList.isTruthy_eq {xs ys : Option (List ConditionOrGroup)} (h : ReorderedList xs ys) :
    isTruthy xs = isTruthy ys := by
  cases h with
  | absent => rfl
  | @present xs ys h =>
    have hlen := h.length_eq
    cases xs <;> cases ys <;> first | rfl | exact absurd hlen (by simp)

mutual

/-- Reordering permutes the flattened conditions: nested groups are spliced where they stand. -/
theorem Reordered.flattenOne_perm : ∀ {x y : ConditionOrGroup}, Reordered x y → (flattenOne x).Perm (flattenOne y)
  | _, _, .condition c => .refl _
  | _, _, .group hall hany => by
    simp only [flattenOne, hall.isTruthy_eq]
    split
    · exact hall.flattenOpt_perm
    · exact hany.flattenOpt_perm

theorem ReorderedList.flattenOpt_perm : ∀ {xs ys : Option (List ConditionOrGroup)},
    ReorderedList xs ys → (flattenOne.flattenOpt xs).Perm (flattenOne.flattenOpt ys)
  | _, _, .absent => .refl _
  | _, _, .present h => h.flattenItems_perm

theorem ReorderedItems.flattenItems_perm : ∀ {xs ys : List ConditionOrGroup},
    ReorderedItems xs ys → (flattenOne.flattenItems xs).Perm (flattenOne.flattenItems ys)
  | _, _, .nil => .refl _
  | _, _, .cons h hs => h.flattenOne_perm.append hs.flattenItems_perm
  | _, _, .swap x y xs => by
    simp only [flattenOne.flattenItems, ← List.append_assoc]
    exact List.perm_append_comm.append_right _
  | _, _, .trans h₁ h₂ => h₁.flattenItems_perm.trans h₂.flattenItems_perm

end

/-- A rule whose applicability group has its members in another order, at any depth. -/
structure ReorderedRule (r r' : RuleIR) : Prop where
  rest : r' = { r with appliesIf := r'.appliesIf }
  group : match r.appliesIf, r'.appliesIf with
    | some g, some g' => Reordered (.group g.all g.any) (.group g'.all g'.any)
    | none, none => True
    | _, _ => False

theorem ReorderedRule.checks_perm {r r' : RuleIR} (h : ReorderedRule r r') :
    (checks r).Perm (checks r') ∧ checksMode r = checksMode r' := by
  have hgroup := h.group
  simp only [checks, checksMode]
  cases hr : r.appliesIf <;> cases hr' : r'.appliesIf <;> simp only [hr, hr'] at hgroup ⊢
  · exact ⟨.refl _, trivial⟩
  · refine ⟨hgroup.flattenOne_perm, ?_⟩
    cases hgroup with
    | group hall _ => simp only [groupMode, hall.isTruthy_eq]

theorem combined_perm {X : Floats} {facts : Facts X.F} {cs ds : List Condition} (h : cs.Perm ds) (mode : Mode) :
    combined X facts mode cs = combined X facts mode ds := by
  cases mode with
  | all => exact h.all_eq
  | any => exact h.any_eq

theorem ReorderedRule.applicable_eq {r r' : RuleIR} (h : ReorderedRule r r') (X : Floats) (facts : Facts X.F) :
    (evaluate X facts r).applicable = (evaluate X facts r').applicable := by
  obtain ⟨hperm, hmode⟩ := h.checks_perm
  have hnil : checks r = [] ↔ checks r' = [] := by
    constructor <;> intro hc
    · exact List.perm_nil.1 (hc ▸ hperm.symm)
    · exact List.perm_nil.1 (hc ▸ hperm)
  rw [evaluate_applicable, evaluate_applicable, combined_perm hperm, hmode]
  simp only [hnil]

theorem evaluate_of_applicable {X : Floats} {facts : Facts X.F} {r r' : RuleIR}
    (htree : r'.decisionTree = r.decisionTree)
    (happ : (evaluate X facts r).applicable = (evaluate X facts r').applicable) :
    (evaluate X facts r).decision = (evaluate X facts r').decision ∧
      (evaluate X facts r).decisionPath = (evaluate X facts r').decisionPath ∧
      (evaluate X facts r).obligations = (evaluate X facts r').obligations := by
  rw [(evaluate_outcome r).1, (evaluate_outcome r').1] at happ
  simp only [evaluate, htree]
  split <;> rename_i heq <;> split <;> rename_i heq' <;> simp only [heq, heq', reduceCtorEq] at happ <;> simp

/-- Applicability is the conjunction or the disjunction of the flattened checks, its trace is the
checks up to the first that decides, and a reordering of the groups moves nothing but that trace. -/
theorem applicability_lawful (X : Floats) (facts : Facts X.F) (r : RuleIR) :
    (evaluate X facts r).applicable = (decide (checks r = []) || combined X facts (checksMode r) (checks r)) ∧
    (evaluate X facts r).applicabilitySteps =
      ((checks r).take ((checks r).findIdx (decides X facts (checksMode r)) + 1)).map (step X facts) ∧
    ∀ r', ReorderedRule r r' →
      (evaluate X facts r).applicable = (evaluate X facts r').applicable ∧
        (evaluate X facts r).decision = (evaluate X facts r').decision ∧
        (evaluate X facts r).decisionPath = (evaluate X facts r').decisionPath ∧
        (evaluate X facts r).obligations = (evaluate X facts r').obligations := by
  refine ⟨evaluate_applicable r, evaluate_steps r, fun r' h => ?_⟩
  have htree : r'.decisionTree = r.decisionTree := by rw [h.rest]
  exact ⟨h.applicable_eq X facts, evaluate_of_applicable htree (h.applicable_eq X facts)⟩

/-- The checks of a nested `any` group, then `x == 5`. -/
def nestedRule (items : List ConditionOrGroup) : RuleIR :=
  .bare "n" (some ⟨some [.group none (some items),
    .condition ⟨"x", .eq, .decimal (.lit 128 5) (.lit 8 0), none⟩], none⟩)
    (.result "ok")

def presentY : ConditionOrGroup := .condition ⟨"y", .exists, .bool true, none⟩

def presentZ : ConditionOrGroup := .condition ⟨"z", .exists, .bool true, none⟩

theorem nestedRule_reordered : ReorderedRule (nestedRule [presentY, presentZ]) (nestedRule [presentZ, presentY]) where
  rest := rfl
  group := .group (.present (.cons (.group .absent (.present (.of_perm (.swap ..))))
    (.cons (.condition _) .nil))) .absent

theorem applicability_lawful_nested :
    (evaluate exactFloats fiveFacts (nestedRule [presentY, presentZ])).decision =
      (evaluate exactFloats fiveFacts (nestedRule [presentZ, presentY])).decision :=
  ((applicability_lawful exactFloats fiveFacts _).2.2 _ nestedRule_reordered).2.1

end Ke.Runtime
