/-
Dry-running a rule from its source against dry-running the artifact compiled from it: the first
evaluates the rule as written, the second its canonical form.
-/
import KeEngine.Runtime.ExactFloats

namespace Ke.Runtime

open Ke Wire

section

variable {X : Floats} {facts : Facts X.F} {isNfc : String → Bool}

/-- What the decoder reads back evaluates like the rule that was encoded exactly when every
membership check that the evaluation consults goes by value. -/
theorem evaluate_decode_encode_iff (hX : X.ParsesValue) (r : RuleIR) (facts : Facts X.F) {bytes : Bytes}
    (h : encodeRule isNfc r = .ok bytes) :
    ∃ r', decodeRule isNfc bytes = .ok r' ∧
      ((evaluate X facts r').normalizedJson = (evaluate X facts r).normalizedJson ↔
        ∀ c ∈ consulted X facts r, MembershipByValue X facts c) := by
  obtain ⟨r', h1, h2⟩ := decodeRule_encodeRule h
  exact ⟨r', h2, evaluate_canonical hX h1⟩

/-- The two dry runs of a list of rules agree exactly when those of each rule do. -/
theorem dryRun_canonical (hX : X.ParsesValue) :
    ∀ {rules rules' : List RuleIR}, canonicalizeRules isNfc rules = .ok rules' →
      (dryRun X facts rules' = dryRun X facts rules ↔
        ∀ r ∈ rules, ∀ c ∈ consulted X facts r, MembershipByValue X facts c)
  | [], rules', h => by
    obtain rfl := pure_ok.1 h
    simp [dryRun]
  | r :: rs, rules', h => by
    obtain ⟨r', h1, h⟩ := bind_ok.1 h
    obtain ⟨rs', h2, h⟩ := bind_ok.1 h
    obtain rfl := pure_ok.1 h
    have hhead := @evaluate_canonical X facts isNfc hX r r' h1
    have htail := dryRun_canonical hX h2
    simp only [dryRun] at htail
    simp only [dryRun, List.map_cons, List.cons.injEq, List.forall_mem_cons, hhead, htail]

end

/-! ## An integer written with a fraction -/

/-- Applicable when `x` is in `[5.0]`. -/
def fractionRule : RuleIR :=
  .bare "r" (some ⟨some [.condition ⟨"x", .in, .list [.decimal (.lit 128 50) (.lit 8 1)], none⟩], none⟩) (.result "ok")

/-- `x` is the integer five. -/
def fiveFacts : Facts exactFloats.F := [("x", .int (.lit 128 5))]

/-- Encode a rule, decode it, and ask whether it applies. -/
def appliesDecoded (r : RuleIR) (facts : Facts exactFloats.F) : Option Bool :=
  ((encodeRule (fun _ => true) r).toOption.bind fun bytes => (decodeRule (fun _ => true) bytes).toOption).map
    fun r' => (evaluate exactFloats facts r').applicable

theorem fractionRule_decoded : appliesDecoded fractionRule fiveFacts = some true := by decide +kernel

/-- The rule as written does not apply to `x = 5`; the rule in the artifact, whose list is `[5]`,
does. -/
theorem evaluate_decode_encode_differs :
    ¬ ∀ (X : Floats) (isNfc : String → Bool) (r : RuleIR) (facts : Facts X.F) (bytes : Bytes) (r' : RuleIR),
      X.ParsesValue → encodeRule isNfc r = .ok bytes → decodeRule isNfc bytes = .ok r' →
        (evaluate X facts r').normalizedJson = (evaluate X facts r).normalizedJson := by
  intro hall
  have hdecoded := fractionRule_decoded
  have hsource : (evaluate exactFloats fiveFacts fractionRule).applicable = false := by decide +kernel
  cases hb : encodeRule (fun _ => true) fractionRule with
  | error e => simp [appliesDecoded, hb, Except.toOption] at hdecoded
  | ok bytes =>
    obtain ⟨r', -, hr'⟩ := decodeRule_encodeRule hb
    simp only [appliesDecoded, hb, hr', Except.toOption, Option.bind_some, Option.map_some, Option.some.injEq]
      at hdecoded
    have heq := hall exactFloats (fun _ => true) fractionRule fiveFacts bytes r' exactFloats_parsesValue hb hr'
    have happ := congrArg NormalizedJson.applicable heq
    simp only [Evaluation.normalizedJson, hdecoded, hsource] at happ
    cases happ

theorem evaluate_decode_encode_fractionRule :
    ∃ bytes r', encodeRule (fun _ => true) fractionRule = .ok bytes ∧ decodeRule (fun _ => true) bytes = .ok r' ∧
      ((evaluate exactFloats fiveFacts r').normalizedJson =
        (evaluate exactFloats fiveFacts fractionRule).normalizedJson ↔
        ∀ c ∈ consulted exactFloats fiveFacts fractionRule, MembershipByValue exactFloats fiveFacts c) := by
  cases hb : encodeRule (fun _ => true) fractionRule with
  | error e =>
    have hdecoded := fractionRule_decoded
    simp [appliesDecoded, hb, Except.toOption] at hdecoded
  | ok bytes =>
    obtain ⟨r', h1, h2⟩ := evaluate_decode_encode_iff exactFloats_parsesValue fractionRule fiveFacts hb
    exact ⟨bytes, r', rfl, h1, h2⟩

end Ke.Runtime
