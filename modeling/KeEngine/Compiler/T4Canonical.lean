/-
Conflict detection before and after canonicalisation. The normal forms do not change, since a
decimal that folds without overflow has the same normal form before and after; the texts by which
premises are compared do, since they show a decimal as written.
-/
import KeEngine.Compiler.T4
import KeEngine.Core.SemanticLaws

namespace Ke.T4

open Ke Wire

variable {isNfc : String → Bool}

/-! ## Premises show the folded decimals -/

/-- A literal with its decimals folded. -/
def stringifyFolded : ScalarValue → String :=
  stringifyBy fun m s => decimalDigits (normDecimal m s).1 (normDecimal m s).2

theorem stringifyAll_canonical {items : List ScalarValue} :
    ∀ {out : List ScalarValue},
      (∀ v ∈ items, ∀ v', canonicalizeScalar isNfc v = .ok v' → stringify v' = stringifyFolded v) →
      canonicalizeScalar.scalars isNfc items = .ok out →
      stringifyBy.stringifyAll decimalDigits out =
          stringifyBy.stringifyAll (fun m s => decimalDigits (normDecimal m s).1 (normDecimal m s).2) items ∧
        out.map stringify = items.map stringifyFolded := by
  induction items with
  | nil => rintro out - h; cases h; exact ⟨rfl, rfl⟩
  | cons v vs ih =>
    intro out hv h
    obtain ⟨v', h1, h⟩ := bind_ok.1 h
    obtain ⟨vs', h2, h⟩ := bind_ok.1 h
    obtain rfl := pure_ok.1 h
    have hhead := hv v (List.mem_cons_self ..) v' h1
    obtain ⟨htail, hmap⟩ := ih (fun x hx => hv x (List.mem_cons_of_mem _ hx)) h2
    refine ⟨?_, by rw [List.map_cons, List.map_cons, hhead, hmap]⟩
    simp only [stringifyBy.stringifyAll, htail]
    exact congrArg (· :: _) hhead

theorem stringify_canonical (v : ScalarValue) :
    ∀ v', canonicalizeScalar isNfc v = .ok v' → stringify v' = stringifyFolded v := by
  induction v using ScalarValue.ind with
  | hs s =>
    intro v' h
    obtain ⟨-, h⟩ := then_ok.1 h
    obtain rfl := pure_ok.1 h
    rfl
  | hb b => intro v' h; cases h; rfl
  | hd m s =>
    intro v' h
    obtain ⟨⟨m', s'⟩, h1, h⟩ := bind_ok.1 h
    obtain rfl := pure_ok.1 h
    simp only [stringify, stringifyFolded, stringifyBy, normDecimal_of_normalize h1]
  | hl items ih =>
    intro v' h
    obtain ⟨out, h1, h⟩ := bind_ok.1 h
    obtain rfl := pure_ok.1 h
    simp only [stringify, stringifyFolded, stringifyBy, (stringifyAll_canonical ih h1).1]

theorem premiseOf_canonical {x x' : ConditionOrGroup} (h : canonicalizeCondOrGroup isNfc x = .ok x') :
    premiseOf stringify x' = premiseOf stringifyFolded x := by
  cases x with
  | condition c =>
    obtain ⟨c', h1, h⟩ := bind_ok.1 h
    obtain rfl := pure_ok.1 h
    obtain ⟨-, h1⟩ := then_ok.1 h1
    obtain ⟨-, h1⟩ := then_ok.1 h1
    obtain ⟨v, hv, h1⟩ := bind_ok.1 h1
    obtain rfl := pure_ok.1 h1
    obtain ⟨field, op, value, description⟩ := c
    cases op with
    | eq => simp only [premiseOf, stringify_canonical value v hv]
    | «in» =>
      cases value with
      | list items =>
        obtain ⟨out, h2, hv⟩ := bind_ok.1 hv
        obtain rfl := pure_ok.1 hv
        simp only [premiseOf, (stringifyAll_canonical (fun v _ => stringify_canonical v) h2).2]
      | str s =>
        obtain ⟨-, hv⟩ := then_ok.1 hv
        obtain rfl := pure_ok.1 hv
        rfl
      | bool b => cases hv; rfl
      | decimal m s =>
        obtain ⟨p, -, hv⟩ := bind_ok.1 hv
        obtain rfl := pure_ok.1 hv
        rfl
    | _ => rfl
  | group all any =>
    obtain ⟨all', -, h⟩ := bind_ok.1 h
    obtain ⟨any', -, h⟩ := bind_ok.1 h
    obtain rfl := pure_ok.1 h
    rfl

theorem foldl_premises_canonical :
    ∀ {items out : List ConditionOrGroup} {acc : Premises}, canonicalizeCondOrGroup.condItems isNfc items = .ok out →
      out.foldl (addPremise stringify) acc = items.foldl (addPremise stringifyFolded) acc
  | [], out, acc, h => by cases h; rfl
  | x :: xs, out, acc, h => by
    obtain ⟨x', h1, h⟩ := bind_ok.1 h
    obtain ⟨xs', h2, h⟩ := bind_ok.1 h
    obtain rfl := pure_ok.1 h
    simp only [List.foldl_cons, addPremise, premiseOf_canonical h1]
    exact foldl_premises_canonical h2

theorem extractPremises_canonical {r r' : RuleIR} (h : canonicalizeRule isNfc r = .ok r') :
    extractPremises r' = premisesBy stringifyFolded r := by
  obtain ⟨tags, appliesIf, decisionTree, -, hg, -, rfl⟩ := canonicalizeRule_fields h
  simp only [extractPremises, premisesBy, topItems]
  cases hr : r.appliesIf with
  | none => rw [hr] at hg; cases hg; rfl
  | some g =>
    rw [hr] at hg
    obtain ⟨g', h1, hg⟩ := bind_ok.1 hg
    obtain rfl := pure_ok.1 hg
    obtain ⟨all', h2, h1⟩ := bind_ok.1 h1
    obtain ⟨any', -, h1⟩ := bind_ok.1 h1
    obtain rfl := pure_ok.1 h1
    obtain ⟨all, any⟩ := g
    rcases optItems_canonical h2 with ⟨rfl, rfl⟩ | ⟨items, out, rfl, rfl, h3⟩
    · rfl
    · exact foldl_premises_canonical h3

/-! ## Reports -/

/-- What is compared of a conflict: the pair, its class and its severity. -/
def Conflict.summary (c : Conflict) : List String × ConflictClass × Severity := (c.ruleIds, c.class_, c.severity)

/-- The report of a pair of rules by their position. -/
def report (p : RuleIR × RuleIR) : List (List String × ConflictClass × Severity) :=
  (conflictsBetween p.1 p.2).map Conflict.summary

/-- Comparing literals as written or folded gives one verdict on the overlap of two rules. -/
def OverlapByValue (p : RuleIR × RuleIR) : Prop :=
  scopesOverlap (premisesBy stringifyFolded p.1) (premisesBy stringifyFolded p.2) =
    scopesOverlap (extractPremises p.1) (extractPremises p.2)

/-- The pair has equal normal forms, and is reported as a duplicate. -/
def Duplicate (p : RuleIR × RuleIR) : Prop :=
  sameLogic (SemanticRule.fromRule p.1) (SemanticRule.fromRule p.2) = true

/-- A pair that is no duplicate has a conflict exactly when its scopes overlap. -/
theorem conflictsBetween_nil {ra rb : RuleIR} (hd : ¬ Duplicate (ra, rb)) :
    conflictsBetween ra rb = [] ↔ scopesOverlap (extractPremises ra) (extractPremises rb) = false := by
  have hlogic : ¬ sameLogic (SemanticRule.fromRule ra) (SemanticRule.fromRule rb) = true := hd
  simp only [conflictsBetween]
  rw [if_neg hlogic]
  cases scopesOverlap (extractPremises ra) (extractPremises rb) with
  | false => simp
  | true =>
    simp only [if_true, Bool.true_eq_false, iff_false]
    split <;> simp

theorem report_canonical {ra rb ra' rb' : RuleIR} (ha : canonicalizeRule isNfc ra = .ok ra')
    (hb : canonicalizeRule isNfc rb = .ok rb') :
    report (ra', rb') = report (ra, rb) ↔ Duplicate (ra, rb) ∨ OverlapByValue (ra, rb) := by
  have hfa := fromRule_canonical ha
  have hfb := fromRule_canonical hb
  have hpa := extractPremises_canonical ha
  have hpb := extractPremises_canonical hb
  by_cases hd : Duplicate (ra, rb)
  · have hlogic : sameLogic (SemanticRule.fromRule ra) (SemanticRule.fromRule rb) = true := hd
    refine iff_of_true ?_ (.inl hd)
    simp only [report, conflictsBetween, hfa, hfb]
    rw [if_pos hlogic, if_pos hlogic]
  · have hd' : ¬ Duplicate (ra', rb') := by
      simp only [Duplicate, hfa, hfb]
      exact hd
    constructor
    · intro heq
      -- an empty report is one without overlap, on either side
      refine .inr ?_
      have hnil : conflictsBetween ra' rb' = [] ↔ conflictsBetween ra rb = [] := by
        rw [← List.map_eq_nil_iff, ← List.map_eq_nil_iff (l := conflictsBetween ra rb)]
        simp only [report] at heq
        rw [heq]
      rw [conflictsBetween_nil hd, conflictsBetween_nil hd', hpa, hpb] at hnil
      simp only [OverlapByValue]
      rw [Bool.eq_iff_iff, ← Bool.not_eq_false, ← Bool.not_eq_false, not_iff_not]
      exact hnil
    · rintro (h | hover)
      · exact absurd h hd
      · simp only [report, conflictsBetween, hfa, hfb, hpa, hpb]
        rw [hover]

theorem canonicalizeRules_forall₂ :
    ∀ {rules rules' : List RuleIR}, canonicalizeRules isNfc rules = .ok rules' →
      List.Forall₂ (fun r r' => canonicalizeRule isNfc r = .ok r') rules rules'
  | [], rules', h => by
    obtain rfl := pure_ok.1 h
    exact .nil
  | r :: rs, rules', h => by
    obtain ⟨r', h1, h⟩ := bind_ok.1 h
    obtain ⟨rs', h2, h⟩ := bind_ok.1 h
    obtain rfl := pure_ok.1 h
    exact .cons h1 (canonicalizeRules_forall₂ h2)

theorem pairs_forall₂ {α β : Type} {R : α → β → Prop} :
    ∀ {as : List α} {bs : List β}, List.Forall₂ R as bs →
      List.Forall₂ (fun p q => R p.1 q.1 ∧ R p.2 q.2) (pairs as) (pairs bs)
  | [], [], .nil => .nil
  | a :: as, b :: bs, .cons h hs => by
    refine List.rel_append ?_ (pairs_forall₂ hs)
    rw [List.forall₂_map_left_iff, List.forall₂_map_right_iff]
    exact hs.imp fun _ _ hr => ⟨h, hr⟩

theorem map_eq_map_iff_forall₂ {α β γ : Type} {f : α → γ} {g : β → γ} {R : α → β → Prop} {p : α → Prop}
    (h : ∀ a b, R a b → (g b = f a ↔ p a)) :
    ∀ {as : List α} {bs : List β}, List.Forall₂ R as bs → (bs.map g = as.map f ↔ ∀ a ∈ as, p a)
  | [], [], .nil => by simp
  | a :: as, b :: bs, .cons hr hs => by
    rw [List.map_cons, List.map_cons, List.cons.injEq, List.forall_mem_cons, h a b hr, map_eq_map_iff_forall₂ h hs]

/-- The reports of every pair, by position, survive canonicalisation exactly when every pair is a
duplicate or has its overlap decided by value. -/
theorem reports_canonical {rules rules' : List RuleIR} (h : canonicalizeRules isNfc rules = .ok rules') :
    (pairs rules').map report = (pairs rules).map report ↔ ∀ p ∈ pairs rules, Duplicate p ∨ OverlapByValue p :=
  map_eq_map_iff_forall₂ (fun _ _ hr => report_canonical hr.1 hr.2) (pairs_forall₂ (canonicalizeRules_forall₂ h))

/-- The reports of the pairs in order are the conflicts that the code lists. -/
theorem detectConflicts_summary (rules : List RuleIR) :
    (detectConflicts rules).map Conflict.summary = ((pairs rules).map report).flatten := by
  rw [detectConflicts, List.map_flatMap, List.flatMap_def]
  rfl

end Ke.T4
