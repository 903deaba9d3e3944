/-
Integer comparison through `f64`. Both sides of a comparison are rounded, a fact as an integer and
an operand as decimal text, so that the six comparisons are those of the integers unless two
different integers lie in the rounding interval of one 53-bit significand.
-/
import KeEngine.Rounding.Nearest
import KeEngine.Runtime.ExactFloats

namespace Ke.Runtime

open Ke Wire Rounding

/-- Conversion from an integer and from decimal text is to the nearest number of a 53-bit
significand, and finite floats compare by their values. -/
structure Floats.RoundsNearest (X : Floats) (value : X.F → Option ℚ) : Prop where
  ofInt : ∀ i : I128, value (X.ofInt i.val) = some (roundTo 52 (i.val : ℚ))
  parse : ∀ (m : I128) (s : I8), value (decimalToF64 X m s) = some (roundTo 52 (decimalValue m s))
  eq : ∀ {a b x y}, value a = some x → value b = some y → X.eq a b = decide (x = y)
  partialCmp : ∀ {a b x y}, value a = some x → value b = some y → X.partialCmp a b = some (compare x y)

/-- Floats with rounding and without a bound on the exponent. -/
def nearestFloats : Floats where
  F := ℚ
  ofInt n := roundTo 52 (n : ℚ)
  parse s := roundTo 52 (parseChars s.toList)
  eq a b := decide (a = b)
  partialCmp a b := some (compare a b)
  isSignNegative q := decide (q < 0)
  debug := exactFloats.debug

theorem nearestFloats_roundsNearest : nearestFloats.RoundsNearest some where
  ofInt _ := rfl
  parse m s := by
    simp only [nearestFloats, decimalToF64, decimalToString, String.toList_ofList, parseChars_decimalChars]
  eq h h' := by cases h; cases h'; rfl
  partialCmp h h' := by cases h; cases h'; rfl

/-! ## The comparisons -/

/-- The value of a comparison on integers. -/
def intCompare (op : Operator) (i m : Int) : Option Bool :=
  match op with
  | .eq => some (i = m)
  | .notEq => some (i ≠ m)
  | .lt => some (i < m)
  | .lte => some (i ≤ m)
  | .gt => some (m < i)
  | .gte => some (m ≤ i)
  | _ => none

theorem decimalValue_zero_scale (m : I128) : decimalValue m (.lit 8 0) = m.val := by simp [decimalValue, SInt.lit]

theorem applyOrd_compare (i m : Int) :
    applyOrd (some (compare i m)) .lt = decide (i < m) ∧ applyOrd (some (compare i m)) .lte = decide (i ≤ m) ∧
      applyOrd (some (compare i m)) .gt = decide (m < i) ∧ applyOrd (some (compare i m)) .gte = decide (m ≤ i) := by
  rcases lt_trichotomy i m with h | rfl | h
  · simp [applyOrd, compare_lt_iff_lt.2 h, h, h.le, not_lt.2 h.le, not_le.2 h]
  · simp [applyOrd]
  · simp [applyOrd, compare_gt_iff_gt.2 h, h, h.le, not_lt.2 h.le, not_le.2 h]

/-- Integers keep their order when they are equal or no interval holds both. -/
theorem compare_roundTo {i m : Int} (h : i = m ∨ ¬ Merged 52 (i : ℚ) m) :
    compare (roundTo 52 (i : ℚ)) (roundTo 52 (m : ℚ)) = compare i m := by
  have hstrict : i ≠ m → roundTo 52 (i : ℚ) ≠ roundTo 52 (m : ℚ) := by
    intro hne heq
    exact h.resolve_left hne ((roundTo_eq_roundTo_iff (by decide) (by exact_mod_cast hne)).1 heq)
  rcases lt_trichotomy i m with hlt | rfl | hgt
  · have hle : roundTo 52 (i : ℚ) ≤ roundTo 52 (m : ℚ) := roundTo_mono (by exact_mod_cast hlt.le)
    rw [compare_lt_iff_lt.2 hlt, compare_lt_iff_lt.2 (hle.lt_of_ne (hstrict hlt.ne))]
  · simp
  · have hle : roundTo 52 (m : ℚ) ≤ roundTo 52 (i : ℚ) := roundTo_mono (by exact_mod_cast hgt.le)
    rw [compare_gt_iff_gt.2 hgt, compare_gt_iff_gt.2 (hle.lt_of_ne (hstrict hgt.ne').symm)]

section

variable {X : Floats} {value : X.F → Option ℚ}

theorem evalEq_int (hX : X.RoundsNearest value) (i m : I128) :
    evalEq X (.int i) (.decimal m (.lit 8 0)) = decide (roundTo 52 (i.val : ℚ) = roundTo 52 (m.val : ℚ)) := by
  have hm := hX.parse m (.lit 8 0)
  rw [decimalValue_zero_scale] at hm
  exact hX.eq (hX.ofInt i) hm

theorem evalOrd_int (hX : X.RoundsNearest value) (i m : I128) (ord : OrdOp) :
    evalOrd X (.int i) (.decimal m (.lit 8 0)) ord =
      applyOrd (some (compare (roundTo 52 (i.val : ℚ)) (roundTo 52 (m.val : ℚ)))) ord := by
  have hm := hX.parse m (.lit 8 0)
  rw [decimalValue_zero_scale] at hm
  simp only [evalOrd, FactValue.asNumber, operandAsNumber, hX.partialCmp (hX.ofInt i) hm]

theorem intCompare_exact (hX : X.RoundsNearest value) {i m : I128}
    (h : i.val = m.val ∨ ¬ Merged 52 (i.val : ℚ) (m.val : ℚ))
    {op : Operator} {b : Bool} (hop : intCompare op i.val m.val = some b) :
    evaluateOp X (.int i) op (.decimal m (.lit 8 0)) = b := by
  have hcmp := compare_roundTo h
  have hval : (roundTo 52 (i.val : ℚ) = roundTo 52 (m.val : ℚ)) ↔ i.val = m.val := by
    rw [← compare_eq_iff_eq, hcmp, compare_eq_iff_eq]
  obtain ⟨hlt, hle, hgt, hge⟩ := applyOrd_compare i.val m.val
  cases op <;> simp only [intCompare, Option.some.injEq, reduceCtorEq] at hop <;> subst hop <;>
    simp [evaluateOp, evalEq_int hX, evalOrd_int hX, hcmp, hval, hlt, hle, hgt, hge]

/-- Integers up to `2 ^ 53` compare exactly. -/
theorem intCompare_small (hX : X.RoundsNearest value) {i m : I128} (hi : i.val.natAbs ≤ 2 ^ 53)
    (hm : m.val.natAbs ≤ 2 ^ 53)
    {op : Operator} {b : Bool} (hop : intCompare op i.val m.val = some b) :
    evaluateOp X (.int i) op (.decimal m (.lit 8 0)) = b := by
  refine intCompare_exact hX ?_ hop
  by_cases hne : i.val = m.val
  · exact .inl hne
  · right
    rw [← roundTo_eq_roundTo_iff (by decide) (by exact_mod_cast hne), roundTo_intCast hi, roundTo_intCast hm]
    exact_mod_cast hne

/-- The comparisons of an integer fact with an integer operand are exact if and only if the two are
equal or no interval of a 53-bit significand holds both. -/
theorem intCompare_exact_iff (hX : X.RoundsNearest value) (i m : I128) :
    (∀ op b, intCompare op i.val m.val = some b → evaluateOp X (.int i) op (.decimal m (.lit 8 0)) = b) ↔
      i.val = m.val ∨ ¬ Merged 52 (i.val : ℚ) (m.val : ℚ) := by
  refine ⟨fun h => ?_, fun h op b => intCompare_exact hX h⟩
  by_cases him : i.val = m.val
  · exact .inl him
  · have hcmp := h .eq false (by simp [intCompare, him])
    simp only [evaluateOp, evalEq_int hX, decide_eq_false_iff_not] at hcmp
    have hne : (i.val : ℚ) ≠ m.val := by exact_mod_cast him
    exact .inr fun hmerged => hcmp ((roundTo_eq_roundTo_iff (by decide) hne).2 hmerged)

end

theorem intCompare_exact_iff_small :
    (∀ op b, intCompare op 7 8 = some b →
      evaluateOp nearestFloats (.int (.lit 128 7)) op (.decimal (.lit 128 8) (.lit 8 0)) = b) ↔
      (7 : Int) = 8 ∨ ¬ Merged 52 ((7 : Int) : ℚ) ((8 : Int) : ℚ) :=
  intCompare_exact_iff nearestFloats_roundsNearest (.lit 128 7) (.lit 128 8)

/-- The first integer that a 53-bit significand does not hold. -/
theorem merged_wide : Merged 52 ((9007199254740993 : Int) : ℚ) ((9007199254740992 : Int) : ℚ) := by
  refine .inl ⟨2 ^ 52, 1, le_rfl, by norm_num, ?_, ?_⟩
  · refine ⟨.inl ?_, .inr ⟨by decide, ?_⟩⟩ <;> norm_num
  · refine ⟨.inl ?_, .inl ?_⟩ <;> norm_num

/-- The fact 9007199254740993 is equal to the operand 9007199254740992. -/
theorem wide_integers_equal :
    ¬ ∀ (X : Floats) (value : X.F → Option ℚ) (i m : I128), X.RoundsNearest value →
      ∀ op b, intCompare op i.val m.val = some b → evaluateOp X (.int i) op (.decimal m (.lit 8 0)) = b := by
  intro hall
  have h := hall nearestFloats some (.lit 128 9007199254740993) (.lit 128 9007199254740992) nearestFloats_roundsNearest
    .eq false rfl
  simp only [evaluateOp, evalEq_int nearestFloats_roundsNearest, decide_eq_false_iff_not] at h
  exact h ((roundTo_eq_roundTo_iff (by decide) (by norm_num [SInt.lit])).2 merged_wide)

end Ke.Runtime
