/-
The two normal forms of a decimal. The wire form fails where folding a negative scale overflows;
the semantic form saturates there, so that it keeps every value inside the range of a mantissa and
merges the values beyond either end of it.
-/
import KeEngine.Core.Normal
import KeEngine.Core.SemanticLaws
import KeEngine.Rounding.Clamp

namespace Ke

open Wire Rounding

/-! ## Folding a negative scale -/

/-- The product that folding a negative scale makes is outside the range of a mantissa. -/
def FoldOverflows (m : I128) (s : I8) : Prop :=
  ¬ (-(2 ^ 127) ≤ m.val * 10 ^ (-s.val).toNat ∧ m.val * 10 ^ (-s.val).toNat < 2 ^ 127)

theorem foldNegative_none : ∀ {k : Nat} {m : I128},
    foldNegative k m = none ↔ ¬ (-(2 ^ 127) ≤ m.val * 10 ^ k ∧ m.val * 10 ^ k < 2 ^ 127)
  | 0, m => by
    have hlo := m.lo
    have hhi := m.hi
    simp only [foldNegative, pow_zero, mul_one, reduceCtorEq, false_iff, not_not]
    exact ⟨hlo, hhi⟩
  | k + 1, m => by
    have hk : (1 : Int) ≤ 10 ^ k := one_le_pow₀ (by norm_num)
    rw [pow_succ' (10 : Int) k, ← mul_assoc]
    simp only [foldNegative]
    cases hten : SInt.ofInt? 128 (m.val * 10) with
    | some m' =>
      rw [Option.bind_some, foldNegative_none, SInt.ofInt?_eq_some.1 hten]
    | none =>
      -- a factor that is out of range keeps the product out of range
      have hout : ¬ (-(2 ^ 127 : Int) ≤ m.val * 10 ∧ m.val * 10 < 2 ^ 127) := by
        intro h
        rw [SInt.ofInt?, dif_pos h] at hten
        cases hten
      simp only [Option.bind_none, true_iff]
      rintro ⟨h1, h2⟩
      refine hout ⟨?_, ?_⟩
      · by_contra hlt
        nlinarith
      · by_contra hge
        nlinarith

theorem normalizeDecimal_error_iff {m : I128} {s : I8} : (∃ e, normalizeDecimal m s = .error e) ↔
    FoldOverflows m s := by
  rw [FoldOverflows, ← foldNegative_none]
  unfold normalizeDecimal
  cases hfold : foldNegative (-s.val).toNat m with
  | none => simp
  | some m' =>
    simp only [reduceCtorEq, iff_false, not_exists]
    intro e
    split <;> simp

/-! ## Saturating -/

theorem saturatingTen_val (m : I128) : (saturatingTen m).val = clamp (-(2 ^ 127)) (2 ^ 127 - 1) (m.val * 10) := by
  unfold saturatingTen
  split
  · rename_i m' h
    have hval := SInt.ofInt?_eq_some.1 h
    have hlo := m'.lo
    have hhi := m'.hi
    rw [clamp_of_mem (by rw [← hval]; exact hlo) (by rw [← hval]; omega), hval]
  · rename_i h
    have hout : ¬ (-(2 ^ 127 : Int) ≤ m.val * 10 ∧ m.val * 10 < 2 ^ 127) := by
      intro hin
      rw [SInt.ofInt?, dif_pos hin] at h
      cases h
    split
    · rw [clamp_of_le (by omega)]
    · rw [clamp_of_ge (by norm_num) (by omega)]

theorem foldSaturating_val : ∀ (k : Nat) (m : I128),
    (foldSaturating k m).val = clamp (-(2 ^ 127)) (2 ^ 127 - 1) (m.val * 10 ^ k)
  | 0, m => by
    have hlo := m.lo
    have hhi := m.hi
    rw [foldSaturating, pow_zero, mul_one, clamp_of_mem hlo (by omega)]
  | k + 1, m => by
    rw [foldSaturating, foldSaturating_val, saturatingTen_val,
      clamp_mul (by norm_num) (by norm_num) (one_le_pow₀ (by norm_num)), pow_succ' (10 : Int) k, mul_assoc]

/-- The semantic form folds to scale zero, saturating, and then is the wire form of what it folded. -/
theorem normDecimal_eq (m : I128) (s : I8) :
    normalizeDecimal (foldSaturating (-s.val).toNat m) (if s.val < 0 then .lit 8 0 else s) = .ok (normDecimal m s) := by
  by_cases hs : s.val < 0
  · have hscale : s.val.toNat = 0 := by omega
    rw [if_pos hs, normDecimal, normalizeDecimal]
    simp only [SInt.lit, hscale, neg_zero, Int.toNat_zero, foldNegative, stripZeros]
    split
    · rfl
    · refine congrArg (fun t => Except.ok (_, t)) (SInt.ext ?_)
      rw [stripScale_val, stripScale_val, hscale]
      rfl
  · have hfold : (-s.val).toNat = 0 := by omega
    rw [if_neg hs, normDecimal, normalizeDecimal]
    simp only [hfold, foldNegative, foldSaturating]
    split <;> rfl

/-- The range of a mantissa, as numbers. -/
def clampRange (x : ℚ) : ℚ := clamp (-(2 ^ 127)) (2 ^ 127 - 1) x

theorem cast_clamp (n : Int) : ((clamp (-(2 ^ 127)) (2 ^ 127 - 1) n : Int) : ℚ) = clampRange n := by
  unfold clampRange clamp
  push_cast
  norm_num

/-- The semantic form denotes the value, clamped to the range of a mantissa. -/
theorem normDecimal_value (m : I128) (s : I8) :
    decimalValue (normDecimal m s).1 (normDecimal m s).2 = clampRange (decimalValue m s) := by
  have hvalue : decimalValue (normDecimal m s).1 (normDecimal m s).2 =
      decimalValue (foldSaturating (-s.val).toNat m) (if s.val < 0 then .lit 8 0 else s) :=
    normalizeDecimal_value (normDecimal_eq m s)
  rw [hvalue]
  by_cases hs : s.val < 0
  · obtain ⟨k, hk⟩ : ∃ k : Nat, -s.val = k := ⟨(-s.val).toNat, by omega⟩
    rw [if_pos hs, decimalValue, decimalValue, foldSaturating_val, cast_clamp, hk, Int.toNat_natCast, zpow_natCast]
    push_cast
    simp [SInt.lit]
  · obtain ⟨k, hk⟩ : ∃ k : Nat, s.val = k := ⟨s.val.toNat, by omega⟩
    have hfold : (-s.val).toNat = 0 := by omega
    rw [if_neg hs, hfold, foldSaturating]
    -- a division by a power of ten stays in range
    have hpow : (0 : ℚ) < 10 ^ k := by positivity
    have hone : (1 : ℚ) ≤ 10 ^ k := one_le_pow₀ (by norm_num)
    have hlo : (-(2 ^ 127) : ℚ) ≤ m.val := by exact_mod_cast m.lo
    have hhi : (m.val : ℚ) ≤ 2 ^ 127 - 1 := by
      have := m.hi
      exact_mod_cast (show m.val ≤ 2 ^ 127 - 1 by omega)
    rw [clampRange, clamp_of_mem]
    · rw [decimalValue, hk, zpow_neg, zpow_natCast, ← div_eq_mul_inv, le_div_iff₀ hpow]
      nlinarith
    · rw [decimalValue, hk, zpow_neg, zpow_natCast, ← div_eq_mul_inv, div_le_iff₀ hpow]
      nlinarith

/-- Two numbers at or beyond one end of the range of a mantissa. -/
def SaturateTogether (x y : ℚ) : Prop := (2 ^ 127 - 1 ≤ x ∧ 2 ^ 127 - 1 ≤ y) ∨ x ≤ -(2 ^ 127) ∧ y ≤ -(2 ^ 127)

theorem normDecimal_eq_iff {m m' : I128} {s s' : I8} : normDecimal m s = normDecimal m' s' ↔
    decimalValue m s = decimalValue m' s' ∨ SaturateTogether (decimalValue m s) (decimalValue m' s') := by
  rw [SaturateTogether, ← clamp_eq_iff (by norm_num), ← clampRange, ← clampRange, ← normDecimal_value,
    ← normDecimal_value]
  constructor
  · intro h
    rw [h]
  · intro h
    have hcanon : checkDecimalCanonical (normDecimal m s).1 (normDecimal m s).2 = .ok () :=
      normalizeDecimal_canonical (normDecimal_eq m s)
    have hcanon' : checkDecimalCanonical (normDecimal m' s').1 (normDecimal m' s').2 = .ok () :=
      normalizeDecimal_canonical (normDecimal_eq m' s')
    obtain ⟨h1, h2⟩ := canonical_unique hcanon hcanon' h
    exact Prod.ext h1 h2

/-! ## Both forms -/

/-- What is promised of the wire form of a decimal. -/
structure WireForm (m : I128) (s : I8) : Prop where
  sound : ∀ {n t}, normalizeDecimal m s = .ok (n, t) → decimalValue n t = decimalValue m s ∧
    checkDecimalCanonical n t = .ok ()
  unique : ∀ {n t n' t'}, normalizeDecimal m s = .ok (n, t) → decimalValue n' t' = decimalValue m s →
    checkDecimalCanonical n' t' = .ok () → n' = n ∧ t' = t
  idempotent : ∀ {n t}, normalizeDecimal m s = .ok (n, t) → normalizeDecimal n t = .ok (n, t)
  fails : (∃ e, normalizeDecimal m s = .error e) ↔ FoldOverflows m s
  semantic : ∀ {n t}, normalizeDecimal m s = .ok (n, t) → normDecimal m s = (n, t)

theorem wireForm (m : I128) (s : I8) : WireForm m s where
  sound h := ⟨normalizeDecimal_value h, normalizeDecimal_canonical h⟩
  unique h hv hc := canonical_unique hc (normalizeDecimal_canonical h) (hv.trans (normalizeDecimal_value h).symm)
  idempotent h := normalizeDecimal_of_canonical (normalizeDecimal_canonical h)
  fails := normalizeDecimal_error_iff
  semantic h := normDecimal_of_normalize h

/-- The promises of the wire form hold of every decimal, and the semantic form keeps two values
apart unless they are different and saturate together. -/
theorem decimal_forms_iff (m m' : I128) (s s' : I8) :
    (WireForm m s ∧ (normDecimal m s = normDecimal m' s' → decimalValue m s = decimalValue m' s')) ↔
      (SaturateTogether (decimalValue m s) (decimalValue m' s') → decimalValue m s = decimalValue m' s') := by
  rw [normDecimal_eq_iff]
  constructor
  · rintro ⟨-, h⟩ hsat
    exact h (.inr hsat)
  · intro h
    refine ⟨wireForm m s, ?_⟩
    rintro (heq | hsat)
    · exact heq
    · exact h hsat

/-- Twice and three times `10 ^ 38` have one semantic form. -/
theorem saturated_decimals_merge :
    ¬ ∀ (m m' : I128) (s s' : I8), WireForm m s ∧
      (normDecimal m s = normDecimal m' s' → decimalValue m s = decimalValue m' s') := by
  intro hall
  have h := (hall (.lit 128 2) (.lit 128 3) (.lit 8 (-38)) (.lit 8 (-38))).2 (normDecimal_eq_iff.2 (.inr (.inl ?_)))
  · norm_num [decimalValue, SInt.lit] at h
  · constructor <;> norm_num [decimalValue, SInt.lit]

/-! ## The form of a rule -/

/-- Encoding a rule and decoding it again does not change its semantic form. -/
theorem fromRule_roundTrip {isNfc : String → Bool} {r : RuleIR} {bytes : Bytes} (h : encodeRule isNfc r = .ok bytes) :
    ∃ r', decodeRule isNfc bytes = .ok r' ∧ SemanticRule.fromRule r' = SemanticRule.fromRule r := by
  obtain ⟨r', hcanon, hdec⟩ := decodeRule_encodeRule h
  exact ⟨r', hdec, fromRule_canonical hcanon⟩

/-- Applicable when `x` is `2.50`. -/
def fractionalRule : RuleIR :=
  .bare "f" (some ⟨some [.condition ⟨"x", .eq, .decimal (.lit 128 250) (.lit 8 2), none⟩], none⟩) (.result "ok")

theorem fromRule_roundTrip_fractional : ∃ bytes, encodeRule (fun _ => true) fractionalRule = .ok bytes ∧
    ∃ r', decodeRule (fun _ => true) bytes = .ok r' ∧
    SemanticRule.fromRule r' = SemanticRule.fromRule fractionalRule := by
  obtain ⟨bytes, h⟩ : ∃ bytes, encodeRule (fun _ => true) fractionalRule = .ok bytes := by
    cases h : encodeRule (fun _ => true) fractionalRule with
    | ok bytes => exact ⟨bytes, rfl⟩
    | error e =>
      have hrun : (encodeRule (fun _ => true) fractionalRule).toOption.isSome = true := by decide +kernel
      rw [h] at hrun
      cases hrun
  exact ⟨bytes, h, fromRule_roundTrip h⟩

end Ke
