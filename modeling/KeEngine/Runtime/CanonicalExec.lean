/-
Canonicalisation against the executor. Folding a decimal keeps its value, so every comparison of
numbers is unaffected; membership compares text, and the text of a decimal depends on its scale.
An evaluation therefore survives canonicalisation exactly when no membership check it consults is
decided by such a text.
-/
import KeEngine.Runtime.Exec

namespace Ke.Runtime

open Ke Wire

/-- Decimal text is parsed as a function of the rational number it denotes. -/
structure Floats.ParsesValue (X : Floats) : Prop where
  parse : ∀ {m m' : I128} {s s' : I8}, decimalValue m s = decimalValue m' s' →
    X.parse (decimalToString m s) = X.parse (decimalToString m' s')

/-! ## The text of a decimal by its value -/

/-- The integer that a decimal denotes, if it denotes one. -/
def decimalInt? (mantissa : I128) (scale : I8) : Option Int :=
  if scale.val ≤ 0 then some (mantissa.val * 10 ^ (-scale.val).toNat)
  else if mantissa.val % 10 ^ scale.val.toNat = 0 then some (mantissa.val / 10 ^ scale.val.toNat)
  else none

/-- The text of a decimal by its value alone: an integer as such, anything else as a float. -/
def valueStrDecimal (X : Floats) (mantissa : I128) (scale : I8) : String :=
  match decimalInt? mantissa scale with
  | some n => toString n
  | none => pythonFloatStr X (decimalToF64 X mantissa scale)

/-- `str()` of an operand whose decimals are shown by their value. -/
def valueStrScalar (X : Floats) : ScalarValue → String := scalarStr (valueStrDecimal X)

theorem decimalToString_zero_scale {m : I128} {s : I8} (hs : s.val = 0) : decimalToString m s = toString m.val := by
  have hz : zeros (-s.val).toNat = [] := by rw [hs]; rfl
  simp only [decimalToString, decimalChars, hz, List.append_nil]
  rw [if_pos (by omega)]
  cases hm : m.val with
  | ofNat n => simp [toString, Int.repr, Nat.repr]
  | negSucc n =>
    simp only [Int.negSucc_lt_zero, if_true, Int.natAbs_negSucc]
    rw [String.ofList_append]
    rfl

theorem stripZeros_zero_of_dvd :
    ∀ {k : Nat} {m : I128}, m.val ≠ 0 → m.val % 10 ^ k = 0 → (stripZeros k m).2 = 0
  | 0, _, _, _ => rfl
  | k + 1, m, h0, hd => by
    have h10 : m.val % 10 = 0 := by
      have : (10 : Int) ∣ 10 ^ (k + 1) := dvd_pow_self 10 (by omega)
      exact Int.emod_eq_zero_of_dvd (this.trans (Int.dvd_of_emod_eq_zero hd))
    simp only [stripZeros]
    rw [if_pos ⟨h0, h10⟩]
    refine stripZeros_zero_of_dvd (m := tenth m) ?_ ?_
    · simp only [tenth]; omega
    · obtain ⟨q, hq⟩ := Int.dvd_of_emod_eq_zero hd
      have hm : (tenth m).val = 10 ^ k * q := by
        simp only [tenth, hq, pow_succ]
        rw [show (10 : Int) ^ k * 10 * q = 10 * (10 ^ k * q) by ring]
        omega
      rw [hm]
      exact Int.mul_emod_right _ _

/-- A folded decimal is shown as its value. -/
theorem pythonStrDecimal_normalize {X : Floats} (hX : X.ParsesValue) {m m' : I128} {s s' : I8}
    (h : normalizeDecimal m s = .ok (m', s')) : pythonStrDecimal X m' s' = valueStrDecimal X m s := by
  have hval := normalizeDecimal_value h
  unfold normalizeDecimal at h
  split at h
  · cases h
  · rename_i m₁ hfold
    have hm₁ := foldNegative_val hfold
    have hstrip := stripZeros_val s.val.toNat m₁
    simp only at h
    by_cases hs : s.val ≤ 0
    · -- a negative scale: the mantissa takes the zeros
      have hsz : s.val.toNat = 0 := by omega
      have hnone : stripZeros s.val.toNat m₁ = (m₁, 0) := by rw [hsz]; rfl
      have h' : m'.val = m₁.val ∧ s'.val = 0 := by
        split at h
        · cases h; exact ⟨by rw [hnone], rfl⟩
        · cases h; exact ⟨by rw [hnone], by rw [stripScale_val, hnone]; rfl⟩
      rw [pythonStrDecimal, if_pos (by omega), decimalToString_zero_scale h'.2, h'.1, hm₁]
      simp only [valueStrDecimal, decimalInt?, if_pos hs]
    · have hfold0 : (-s.val).toNat = 0 := by omega
      rw [hfold0, pow_zero, mul_one] at hm₁
      by_cases hdvd : m.val % 10 ^ s.val.toNat = 0
      · -- an integer: every fractional zero is stripped
        have hint : s'.val = 0 ∧ m'.val * 10 ^ s.val.toNat = m.val := by
          split at h
          · rename_i h0
            cases h
            have hz := stripZeros_eq_zero h0
            exact ⟨rfl, by rw [h0, zero_mul, ← hm₁, hz]⟩
          · rename_i h0
            cases h
            have hne : m₁.val ≠ 0 := by
              intro hz
              rw [hz] at hstrip
              rcases mul_eq_zero.1 hstrip with hz' | hz'
              · exact h0 hz'
              · exact absurd hz' (by positivity)
            have hk := stripZeros_zero_of_dvd hne (by rw [hm₁]; exact hdvd)
            refine ⟨by rw [stripScale_val, hk]; rfl, ?_⟩
            rw [hk, Nat.sub_zero] at hstrip
            rw [hstrip, hm₁]
        have hq : m.val / 10 ^ s.val.toNat = m'.val := by
          rw [← hint.2]
          exact Int.mul_ediv_cancel _ (by positivity)
        rw [pythonStrDecimal, if_pos (by omega), decimalToString_zero_scale hint.1]
        simp only [valueStrDecimal, decimalInt?, if_neg hs, if_pos hdvd, hq]
      · -- not an integer: a fractional digit is left, and the float is that of the value
        have hpos : ¬ s'.val ≤ 0 := by
          split at h
          · rename_i h0
            cases h
            have hz := stripZeros_eq_zero h0
            rw [hm₁] at hz
            exact absurd (by rw [hz]; rfl) hdvd
          · cases h
            rw [stripScale_val]
            intro hle
            have hk : (stripZeros s.val.toNat m₁).2 = 0 := by omega
            rw [hk, Nat.sub_zero, hm₁] at hstrip
            exact hdvd (by rw [← hstrip]; exact Int.mul_emod_left _ _)
        simp only [pythonStrDecimal, if_neg hpos, valueStrDecimal, decimalInt?, if_neg hs, if_neg hdvd, decimalToF64]
        rw [hX.parse hval]

/-! ## Operands -/

section Operands

variable {X : Floats} {isNfc : String → Bool}

theorem reprs_canonical {dec dec' : I128 → I8 → String} {items : List ScalarValue} :
    ∀ {out : List ScalarValue},
      (∀ v ∈ items, ∀ v', canonicalizeScalar isNfc v = .ok v' → scalarStr dec v' = scalarStr dec' v) →
      canonicalizeScalar.scalars isNfc items = .ok out → scalarStr.reprs dec out = scalarStr.reprs dec' items := by
  induction items with
  | nil => rintro out - h; cases h; rfl
  | cons v vs ih =>
    intro out hv h
    obtain ⟨v', h1, h⟩ := bind_ok.1 h
    obtain ⟨vs', h2, h⟩ := bind_ok.1 h
    obtain rfl := pure_ok.1 h
    have htail := ih (fun x hx => hv x (List.mem_cons_of_mem _ hx)) h2
    have hhead := hv v (List.mem_cons_self ..) v' h1
    cases v with
    | str s =>
      obtain ⟨-, h1⟩ := then_ok.1 h1
      obtain rfl := pure_ok.1 h1
      simp only [scalarStr.reprs, htail]
    | bool b =>
      obtain rfl := pure_ok.1 h1
      simp only [scalarStr.reprs, htail, hhead]
    | decimal m s =>
      obtain ⟨⟨m', s'⟩, -, h1⟩ := bind_ok.1 h1
      obtain rfl := pure_ok.1 h1
      simp only [scalarStr.reprs, htail, hhead]
    | list items =>
      obtain ⟨out, -, h1⟩ := bind_ok.1 h1
      obtain rfl := pure_ok.1 h1
      simp only [scalarStr.reprs, htail, hhead]

/-- A canonical operand is shown as its value. -/
theorem pythonStrScalar_canonical (hX : X.ParsesValue) (v : ScalarValue) :
    ∀ v', canonicalizeScalar isNfc v = .ok v' → pythonStrScalar X v' = valueStrScalar X v := by
  induction v using ScalarValue.ind with
  | hs s =>
    intro v' h
    obtain ⟨-, h⟩ := then_ok.1 h
    obtain rfl := pure_ok.1 h
    rfl
  | hb b => intro v' h; cases h; rfl
  | hd m s =>
    intro v' h
    obtain ⟨⟨m', s'⟩, h1, h⟩ := bind_ok.1 h
    obtain rfl := pure_ok.1 h
    exact pythonStrDecimal_normalize hX h1
  | hl items ih =>
    intro v' h
    obtain ⟨out, h1, h⟩ := bind_ok.1 h
    obtain rfl := pure_ok.1 h
    exact congrArg pythonListRepr (reprs_canonical ih h1)

theorem operandAsNumber_canonical (hX : X.ParsesValue) {v v' : ScalarValue}
    (h : canonicalizeScalar isNfc v = .ok v') : operandAsNumber X v' = operandAsNumber X v := by
  cases v with
  | str s =>
    obtain ⟨-, h⟩ := then_ok.1 h
    obtain rfl := pure_ok.1 h
    rfl
  | bool b => cases h; rfl
  | decimal m s =>
    obtain ⟨⟨m', s'⟩, h1, h⟩ := bind_ok.1 h
    obtain rfl := pure_ok.1 h
    exact congrArg some (hX.parse (normalizeDecimal_value h1))
  | list items =>
    obtain ⟨out, -, h⟩ := bind_ok.1 h
    obtain rfl := pure_ok.1 h
    rfl

/-- The shapes of an operand and of its canonical form agree. -/
theorem canonicalizeScalar_shape {v v' : ScalarValue} (h : canonicalizeScalar isNfc v = .ok v') :
    (∃ s, v = .str s ∧ v' = .str s) ∨ (∃ b, v = .bool b ∧ v' = .bool b) ∨
      (∃ m s m' s', v = .decimal m s ∧ v' = .decimal m' s' ∧ normalizeDecimal m s = .ok (m', s')) ∨
      ∃ items out, v = .list items ∧ v' = .list out ∧ canonicalizeScalar.scalars isNfc items = .ok out := by
  cases v with
  | str s =>
    obtain ⟨-, h⟩ := then_ok.1 h
    exact .inl ⟨s, rfl, (pure_ok.1 h).symm⟩
  | bool b => exact .inr (.inl ⟨b, rfl, (pure_ok.1 h).symm⟩)
  | decimal m s =>
    obtain ⟨⟨m', s'⟩, h1, h⟩ := bind_ok.1 h
    exact .inr (.inr (.inl ⟨m, s, m', s', rfl, (pure_ok.1 h).symm, h1⟩))
  | list items =>
    obtain ⟨out, h1, h⟩ := bind_ok.1 h
    exact .inr (.inr (.inr ⟨items, out, rfl, (pure_ok.1 h).symm, h1⟩))

theorem zipAll_canonical {items : List ScalarValue} :
    ∀ {out : List ScalarValue} {xs : List (FactValue X.F)},
      (∀ v ∈ items, ∀ v' x, canonicalizeScalar isNfc v = .ok v' → evalEq X x v' = evalEq X x v) →
      canonicalizeScalar.scalars isNfc items = .ok out →
      out.length = items.length ∧ evalEq.zipAll X xs out = evalEq.zipAll X xs items := by
  induction items with
  | nil => rintro out xs - h; cases h; exact ⟨rfl, rfl⟩
  | cons v vs ih =>
    intro out xs hv h
    obtain ⟨v', h1, h⟩ := bind_ok.1 h
    obtain ⟨vs', h2, h⟩ := bind_ok.1 h
    obtain rfl := pure_ok.1 h
    have hrest := fun xs => @ih vs' xs (fun x hx => hv x (List.mem_cons_of_mem _ hx)) h2
    refine ⟨by rw [List.length_cons, List.length_cons, (hrest []).1], ?_⟩
    cases xs with
    | nil => rfl
    | cons x xs => simp only [evalEq.zipAll, hv v (List.mem_cons_self ..) v' x h1, (hrest xs).2]

/-- Equality against an operand that is not a list is decided by its number and its text. -/
theorem evalEq_canonical (hX : X.ParsesValue) (v : ScalarValue) :
    ∀ v' x, canonicalizeScalar isNfc v = .ok v' → evalEq X x v' = evalEq X x v := by
  induction v using ScalarValue.ind with
  | hs s =>
    intro v' x h
    obtain ⟨-, h⟩ := then_ok.1 h
    obtain rfl := pure_ok.1 h
    rfl
  | hb b => intro v' x h; cases h; rfl
  | hd m s =>
    intro v' x h
    have hn := operandAsNumber_canonical hX h
    obtain ⟨⟨m', s'⟩, h1, h⟩ := bind_ok.1 h
    obtain rfl := pure_ok.1 h
    cases x <;> simp only [evalEq, hn]
  | hl items ih =>
    intro v' x h
    obtain ⟨out, h1, h⟩ := bind_ok.1 h
    obtain rfl := pure_ok.1 h
    cases x with
    | list xs =>
      obtain ⟨hl, hz⟩ := @zipAll_canonical X isNfc items out xs ih h1
      simp only [evalEq, hl, hz]
    | _ => rfl

theorem evalOrd_canonical (hX : X.ParsesValue) {v v' : ScalarValue} (h : canonicalizeScalar isNfc v = .ok v')
    (x : FactValue X.F) (ord : OrdOp) : evalOrd X x v' ord = evalOrd X x v ord := by
  have hn := operandAsNumber_canonical hX h
  rcases canonicalizeScalar_shape h with ⟨s, rfl, rfl⟩ | ⟨b, rfl, rfl⟩ | ⟨m, s, m', s', rfl, rfl, -⟩ |
    ⟨items, out, rfl, rfl, -⟩
  · rfl
  · rfl
  · cases x <;> simp only [evalOrd, hn]
  · cases x <;> rfl

end Operands

/-! ## Conditions -/

section Conditions

variable {X : Floats} {isNfc : String → Bool}

/-- The operators that compare text in a set. -/
def isMembership : Operator → Bool
  | .in => true
  | .notIn => true
  | _ => false

/-- The text of the fact is in the operand's set of texts exactly when it is in the set of the
texts of the operand's values: no decimal such as `5.0`, an integer written with a fraction,
decides the membership. -/
def MembershipByValue (X : Floats) (facts : Facts X.F) (c : Condition) : Prop :=
  ∀ items, isMembership c.operator = true → c.value = .list items →
    (pythonStrFact X (lookup facts c.field) ∈ items.map (pythonStrScalar X) ↔
      pythonStrFact X (lookup facts c.field) ∈ items.map (valueStrScalar X))

theorem evalIn_iff {x : FactValue X.F} {items : List ScalarValue} :
    evalIn X x (.list items) = true ↔ pythonStrFact X x ∈ items.map (pythonStrScalar X) := by
  simp only [evalIn, List.any_eq_true, beq_iff_eq, List.mem_map]

theorem map_canonical (hX : X.ParsesValue) :
    ∀ {items out : List ScalarValue}, canonicalizeScalar.scalars isNfc items = .ok out →
      out.map (pythonStrScalar X) = items.map (valueStrScalar X)
  | [], out, h => by cases h; rfl
  | v :: vs, out, h => by
    obtain ⟨v', h1, h⟩ := bind_ok.1 h
    obtain ⟨vs', h2, h⟩ := bind_ok.1 h
    obtain rfl := pure_ok.1 h
    rw [List.map_cons, List.map_cons, pythonStrScalar_canonical hX v v' h1, map_canonical hX h2]

theorem evalIn_canonical (hX : X.ParsesValue) {items out : List ScalarValue}
    (h : canonicalizeScalar.scalars isNfc items = .ok out) {x : FactValue X.F} :
    evalIn X x (.list out) = true ↔ pythonStrFact X x ∈ items.map (valueStrScalar X) := by
  rw [evalIn_iff, map_canonical hX h]

theorem canonicalizeCondition_fields {c c' : Condition} (h : canonicalizeCondition isNfc c = .ok c') :
    c'.field = c.field ∧ c'.operator = c.operator ∧ canonicalizeScalar isNfc c.value = .ok c'.value := by
  obtain ⟨-, h⟩ := then_ok.1 h
  obtain ⟨-, h⟩ := then_ok.1 h
  obtain ⟨v, hv, h⟩ := bind_ok.1 h
  obtain rfl := pure_ok.1 h
  exact ⟨rfl, rfl, hv⟩

/-- A condition keeps its value under canonicalisation exactly when its membership goes by value. -/
theorem holds_canonical (hX : X.ParsesValue) {c c' : Condition} (h : canonicalizeCondition isNfc c = .ok c')
    (facts : Facts X.F) : holds X facts c' = holds X facts c ↔ MembershipByValue X facts c := by
  obtain ⟨hf, ho, hv⟩ := canonicalizeCondition_fields h
  simp only [holds, hf, ho, MembershipByValue]
  generalize lookup facts c.field = x
  have hin : evalIn X x c'.value = evalIn X x c.value ↔
      ∀ items, c.value = .list items →
        (pythonStrFact X x ∈ items.map (pythonStrScalar X) ↔ pythonStrFact X x ∈ items.map (valueStrScalar X)) := by
    rcases canonicalizeScalar_shape hv with ⟨s, h1, h2⟩ | ⟨b, h1, h2⟩ | ⟨m, s, m', s', h1, h2, -⟩ |
      ⟨items, out, h1, h2, h3⟩
    · simp [h1, h2, evalIn]
    · simp [h1, h2, evalIn]
    · simp [h1, h2, evalIn]
    · rw [h1, h2, Bool.eq_iff_iff, evalIn_canonical hX h3, evalIn_iff]
      constructor
      · rintro hiff items' ⟨⟩; exact hiff.symm
      · intro hiff; exact (hiff items rfl).symm
  have heq := evalEq_canonical hX c.value c'.value x hv
  cases hop : c.operator with
  | «in» => simpa [evaluateOp, isMembership] using hin
  | notIn => simpa [evaluateOp, isMembership] using hin
  | eq => simp [evaluateOp, isMembership, heq]
  | notEq => simp [evaluateOp, isMembership, heq]
  | gt => simp [evaluateOp, isMembership, evalOrd_canonical hX hv]
  | lt => simp [evaluateOp, isMembership, evalOrd_canonical hX hv]
  | gte => simp [evaluateOp, isMembership, evalOrd_canonical hX hv]
  | lte => simp [evaluateOp, isMembership, evalOrd_canonical hX hv]
  | «exists» => simp [evaluateOp, isMembership]

theorem step_canonical {c c' : Condition} (h : canonicalizeCondition isNfc c = .ok c') (facts : Facts X.F) :
    step X facts c' = step X facts c ↔ holds X facts c' = holds X facts c := by
  obtain ⟨hf, ho, -⟩ := canonicalizeCondition_fields h
  simp only [step, NormStep.mk.injEq, hf, ho, true_and]

end Conditions

/-! ## Applicability -/

section Applicability

variable (X : Floats) (facts : Facts X.F)

/-- The checks that an applicability run evaluates, up to the one that decides. -/
def consultedChecks (mode : Mode) : List Condition → List Condition
  | [] => []
  | c :: cs =>
    match mode, holds X facts c with
    | .all, false => [c]
    | .any, true => [c]
    | _, _ => c :: consultedChecks mode cs

/-- The conditions on the path of the facts through a decision tree. -/
def consultedNodes : DecisionEntry → List Condition
  | .leaf _ => []
  | .node _ c trueBranch falseBranch _ =>
    c :: if holds X facts c then consultedNodes trueBranch else consultedNodes falseBranch

def consultedGroup : Option ConditionGroupSpec → List Condition
  | none => []
  | some group => consultedChecks X facts (groupMode group.all) (flatten group)

/-- The conditions that the evaluation of a rule looks at. -/
def consulted (r : RuleIR) : List Condition :=
  consultedGroup X facts r.appliesIf ++
    if (applicability X facts r.appliesIf).1 then consultedNodes X facts r.decisionTree else []

variable {X facts} {isNfc : String → Bool}

theorem runChecks_canonical (hX : X.ParsesValue) (mode : Mode) :
    ∀ {cs cs' : List Condition}, List.Forall₂ (fun c c' => canonicalizeCondition isNfc c = .ok c') cs cs' →
      ((∀ c ∈ consultedChecks X facts mode cs, MembershipByValue X facts c) →
        runChecks X facts mode cs' = runChecks X facts mode cs) ∧
      ((runChecks X facts mode cs').2 = (runChecks X facts mode cs).2 →
        ∀ c ∈ consultedChecks X facts mode cs, MembershipByValue X facts c)
  | [], [], .nil => ⟨fun _ => rfl, fun _ c hc => by cases hc⟩
  | c :: cs, c' :: cs', .cons h hs => by
    obtain ⟨ih1, ih2⟩ := runChecks_canonical hX mode hs
    have hstep := step_canonical h facts
    have hholds := holds_canonical hX h facts
    constructor
    · intro hall
      have hmem : c ∈ consultedChecks X facts mode (c :: cs) := by
        simp only [consultedChecks]; split <;> simp
      have hc := hholds.2 (hall c hmem)
      have hc' := hstep.2 hc
      simp only [runChecks, consultedChecks, hc, hc'] at hall ⊢
      cases mode <;> cases hb : holds X facts c <;> simp only [hb] at hall ⊢
      · rw [ih1 fun d hd => hall d (List.mem_cons_of_mem _ hd)]
      · rw [ih1 fun d hd => hall d (List.mem_cons_of_mem _ hd)]
    · intro heq
      -- the first step taken shows that the first condition kept its value
      have hhead : step X facts c' = step X facts c := by
        simp only [runChecks] at heq
        split at heq <;> split at heq <;> simp_all
      have hc := hstep.1 hhead
      have hkept := hholds.1 hc
      simp only [runChecks, consultedChecks, hc, hhead] at heq ⊢
      cases mode <;> cases hb : holds X facts c <;> simp only [hb, List.cons.injEq, true_and] at heq ⊢
      · simpa using hkept
      · simpa using ⟨hkept, ih2 heq⟩
      · simpa using ⟨hkept, ih2 heq⟩
      · simpa using hkept

theorem isTruthy_canonical {o o' : Option (List ConditionOrGroup)}
    (h : canonicalizeCondOrGroup.optItems isNfc o = .ok o') : isTruthy o' = isTruthy o := by
  cases o with
  | none => cases h; rfl
  | some items =>
    obtain ⟨out, h1, h⟩ := bind_ok.1 h
    obtain rfl := pure_ok.1 h
    cases items with
    | nil => cases h1; rfl
    | cons x xs =>
      obtain ⟨x', -, h1⟩ := bind_ok.1 h1
      obtain ⟨xs', -, h1⟩ := bind_ok.1 h1
      obtain rfl := pure_ok.1 h1
      rfl

/-- A list of conditions and the list of their canonical forms. -/
def CanonicalConditions (isNfc : String → Bool) : List Condition → List Condition → Prop :=
  List.Forall₂ (fun c c' => canonicalizeCondition isNfc c = .ok c')

theorem flattenItems_canonical {items : List ConditionOrGroup} :
    ∀ {out : List ConditionOrGroup},
      (∀ x ∈ items, ∀ x', canonicalizeCondOrGroup isNfc x = .ok x' →
        CanonicalConditions isNfc (flattenOne x) (flattenOne x')) →
      canonicalizeCondOrGroup.condItems isNfc items = .ok out →
      CanonicalConditions isNfc (flattenOne.flattenItems items) (flattenOne.flattenItems out) := by
  induction items with
  | nil => rintro out - h; cases h; exact .nil
  | cons x xs ih =>
    intro out hx h
    obtain ⟨x', h1, h⟩ := bind_ok.1 h
    obtain ⟨xs', h2, h⟩ := bind_ok.1 h
    obtain rfl := pure_ok.1 h
    exact List.rel_append (hx x (List.mem_cons_self ..) x' h1) (ih (fun y hy => hx y (List.mem_cons_of_mem _ hy)) h2)

theorem flattenOpt_canonical {o o' : Option (List ConditionOrGroup)}
    (hx : ∀ items ∈ o, ∀ x ∈ items, ∀ x', canonicalizeCondOrGroup isNfc x = .ok x' →
      CanonicalConditions isNfc (flattenOne x) (flattenOne x'))
    (h : canonicalizeCondOrGroup.optItems isNfc o = .ok o') :
    CanonicalConditions isNfc (flattenOne.flattenOpt o) (flattenOne.flattenOpt o') := by
  cases o with
  | none => cases h; exact .nil
  | some items =>
    obtain ⟨out, h1, h⟩ := bind_ok.1 h
    obtain rfl := pure_ok.1 h
    exact flattenItems_canonical (hx items rfl) h1

theorem flattenOne_canonical (x : ConditionOrGroup) :
    ∀ x', canonicalizeCondOrGroup isNfc x = .ok x' → CanonicalConditions isNfc (flattenOne x) (flattenOne x') := by
  induction x using ConditionOrGroup.ind with
  | hc c =>
    intro x' h
    obtain ⟨c', h1, h⟩ := bind_ok.1 h
    obtain rfl := pure_ok.1 h
    exact .cons h1 .nil
  | hg all any iha ihb =>
    intro x' h
    obtain ⟨all', h1, h⟩ := bind_ok.1 h
    obtain ⟨any', h2, h⟩ := bind_ok.1 h
    obtain rfl := pure_ok.1 h
    simp only [flattenOne, isTruthy_canonical h1]
    split
    · exact flattenOpt_canonical iha h1
    · exact flattenOpt_canonical ihb h2

/-- Canonicalisation keeps the mode of a group and works condition by condition. -/
theorem flatten_canonical {g g' : ConditionGroupSpec} (h : canonicalizeGroup isNfc g = .ok g') :
    groupMode g'.all = groupMode g.all ∧ CanonicalConditions isNfc (flatten g) (flatten g') := by
  obtain ⟨all', h1, h⟩ := bind_ok.1 h
  obtain ⟨any', h2, h⟩ := bind_ok.1 h
  obtain rfl := pure_ok.1 h
  refine ⟨by simp only [groupMode, isTruthy_canonical h1], flattenOne_canonical (.group g.all g.any) _ ?_⟩
  exact bind_ok.2 ⟨all', h1, bind_ok.2 ⟨any', h2, rfl⟩⟩

theorem applicability_canonical (hX : X.ParsesValue) {o o' : Option ConditionGroupSpec}
    (h : canonicalizeOptGroup isNfc o = .ok o') :
    ((∀ c ∈ consultedGroup X facts o, MembershipByValue X facts c) →
      applicability X facts o' = applicability X facts o) ∧
    ((applicability X facts o').2 = (applicability X facts o).2 →
      ∀ c ∈ consultedGroup X facts o, MembershipByValue X facts c) := by
  cases o with
  | none => cases h; exact ⟨fun _ => rfl, fun _ c hc => by cases hc⟩
  | some g =>
    obtain ⟨g', h1, h⟩ := bind_ok.1 h
    obtain rfl := pure_ok.1 h
    obtain ⟨hmode, hflat⟩ := flatten_canonical h1
    obtain ⟨hrun1, hrun2⟩ := @runChecks_canonical X facts isNfc hX (groupMode g.all) _ _ hflat
    simp only [consultedGroup, applicability, hmode]
    cases hfl : flatten g with
    | nil =>
      rw [hfl] at hflat
      rw [List.forall₂_nil_left_iff.1 hflat]
      exact ⟨fun _ => rfl, fun _ c hc => by cases hc⟩
    | cons c cs =>
      rw [hfl] at hflat hrun1 hrun2
      cases hfl' : flatten g' with
      | nil => rw [hfl'] at hflat; cases hflat
      | cons c' cs' =>
        rw [hfl'] at hrun1 hrun2
        exact ⟨hrun1, hrun2⟩

end Applicability

/-! ## Evaluation -/

section Evaluation

variable {X : Floats} {facts : Facts X.F} {isNfc : String → Bool}

theorem walk_canonical (hX : X.ParsesValue) :
    ∀ {e e' : DecisionEntry}, canonicalizeEntry isNfc e = .ok e' →
      ((∀ c ∈ consultedNodes X facts e, MembershipByValue X facts c) → walk X facts e' = walk X facts e) ∧
      ((walk X facts e').2 = (walk X facts e).2 → ∀ c ∈ consultedNodes X facts e, MembershipByValue X facts c)
  | .leaf l, e', h => by
    obtain ⟨-, h⟩ := then_ok.1 h
    obtain rfl := pure_ok.1 h
    exact ⟨fun _ => rfl, fun _ c hc => by cases hc⟩
  | .node nodeId c t f span, e', h => by
    obtain ⟨-, h⟩ := then_ok.1 h
    obtain ⟨c', h1, h⟩ := bind_ok.1 h
    obtain ⟨t', h2, h⟩ := bind_ok.1 h
    obtain ⟨f', h3, h⟩ := bind_ok.1 h
    obtain ⟨-, h⟩ := then_ok.1 h
    obtain rfl := pure_ok.1 h
    obtain ⟨iht1, iht2⟩ := walk_canonical hX h2
    obtain ⟨ihf1, ihf2⟩ := walk_canonical hX h3
    have hstep := step_canonical h1 facts
    have hholds := holds_canonical hX h1 facts
    constructor
    · intro hall
      have hc := hholds.2 (hall c (List.mem_cons_self ..))
      have hc' := hstep.2 hc
      simp only [walk, consultedNodes, hc, hc'] at hall ⊢
      split
      · rename_i hb
        rw [if_pos hb] at hall
        rw [iht1 fun d hd => hall d (List.mem_cons_of_mem _ hd)]
      · rename_i hb
        rw [if_neg hb] at hall
        rw [ihf1 fun d hd => hall d (List.mem_cons_of_mem _ hd)]
    · intro heq
      have hhead : step X facts c' = step X facts c := by
        simp only [walk] at heq
        split at heq <;> split at heq <;> exact (List.cons.inj heq).1
      have hc := hstep.1 hhead
      have hkept := hholds.1 hc
      simp only [walk, consultedNodes, hc] at heq ⊢
      split at heq
      · rename_i hb
        rw [if_pos hb]
        exact List.forall_mem_cons.2 ⟨hkept, iht2 (List.cons.inj heq).2⟩
      · rename_i hb
        rw [if_neg hb]
        exact List.forall_mem_cons.2 ⟨hkept, ihf2 (List.cons.inj heq).2⟩

/-- A rule and its canonical form evaluate alike on the facts exactly when every membership check
they consult goes by value. -/
theorem evaluate_canonical (hX : X.ParsesValue) {r r' : RuleIR} (h : canonicalizeRule isNfc r = .ok r') :
    (evaluate X facts r').normalizedJson = (evaluate X facts r).normalizedJson ↔
      ∀ c ∈ consulted X facts r, MembershipByValue X facts c := by
  obtain ⟨tags, appliesIf, decisionTree, -, hg, he, rfl⟩ := canonicalizeRule_fields h
  obtain ⟨happ1, happ2⟩ := @applicability_canonical X facts isNfc hX _ _ hg
  obtain ⟨hwalk1, hwalk2⟩ := @walk_canonical X facts isNfc hX _ _ he
  constructor
  · intro heq
    -- equal applicability steps first, then an equal path where the rule applies
    have hsteps : (applicability X facts appliesIf).2 = (applicability X facts r.appliesIf).2 := by
      have := congrArg NormalizedJson.applicabilitySteps heq
      simp only [evaluate, Evaluation.normalizedJson] at this
      split at this <;> split at this <;> simp_all
    have hgroup := happ2 hsteps
    have happ := happ1 hgroup
    simp only [consulted, List.forall_mem_append]
    refine ⟨hgroup, ?_⟩
    split
    · rename_i hb
      have hpath := congrArg NormalizedJson.decisionPath heq
      simp only [evaluate, Evaluation.normalizedJson, happ] at hpath
      split at hpath
      · rename_i hf; rw [hf] at hb; cases hb
      · exact hwalk2 hpath
    · intro c hc; cases hc
  · intro hall
    simp only [consulted, List.forall_mem_append] at hall
    have happ := happ1 hall.1
    simp only [evaluate, happ]
    split
    · rfl
    · rename_i hb
      rw [hb] at hall
      simp only [if_true] at hall
      rw [hwalk1 hall.2]

end Evaluation

end Ke.Runtime
