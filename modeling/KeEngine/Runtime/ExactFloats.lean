/-
Floats as exact rationals: a carrier on which decimal text denotes the number it writes, so that
the laws assumed of float parsing and of float comparison hold without rounding.
-/
import KeEngine.Runtime.CanonicalExec

namespace Ke.Runtime

open Ke Wire

/-! ## Reading decimal text -/

/-- Digits with at most one point. -/
def parseAbs (cs : List Char) : ℚ :=
  let whole := cs.takeWhile (· ≠ '.')
  let fraction := (cs.dropWhile (· ≠ '.')).drop 1
  Nat.ofDigitChars 10 (whole ++ fraction) 0 / 10 ^ fraction.length

def parseChars : List Char → ℚ
  | '-' :: cs => -parseAbs cs
  | cs => parseAbs cs

/-- Floats without rounding. -/
def exactFloats : Floats where
  F := ℚ
  ofInt n := n
  parse s := parseChars s.toList
  eq a b := decide (a = b)
  partialCmp a b := some (compare a b)
  isSignNegative q := decide (q < 0)
  debug q := if q.den = 1 then toString q.num ++ ".0" else toString q

theorem digit_ne_point {c : Char} {n : Nat} (h : c ∈ Nat.toDigits 10 n) : c ≠ '.' ∧ c ≠ '-' := by
  have hd := Nat.isDigit_of_mem_toDigits (by decide) (by decide) h
  constructor <;> rintro rfl <;> exact absurd hd (by decide)

theorem parseAbs_whole {ds : List Char} (h : ∀ c ∈ ds, c ≠ '.') : parseAbs ds = Nat.ofDigitChars 10 ds 0 := by
  have h1 : ds.takeWhile (· ≠ '.') = ds := List.takeWhile_eq_self_iff.2 (by simpa using h)
  have h2 : ds.dropWhile (· ≠ '.') = [] := List.dropWhile_eq_nil_iff.2 (by simpa using h)
  simp only [parseAbs, h1, h2, List.drop_nil, List.append_nil, List.length_nil, pow_zero, div_one]

theorem parseAbs_point {ds es : List Char} (h : ∀ c ∈ ds, c ≠ '.') :
    parseAbs (ds ++ '.' :: es) = Nat.ofDigitChars 10 (ds ++ es) 0 / 10 ^ es.length := by
  have h1 : (ds ++ '.' :: es).takeWhile (· ≠ '.') = ds := by
    rw [List.takeWhile_append_of_pos (by simpa using h)]
    simp
  have h2 : (ds ++ '.' :: es).dropWhile (· ≠ '.') = '.' :: es := by
    rw [List.dropWhile_append_of_pos (by simpa using h)]
    simp
  simp only [parseAbs, h1, h2, List.drop_one, List.tail_cons]

/-- The sign is read off when the rest does not start with one. -/
theorem parseChars_sign {neg : Bool} {c : Char} {cs : List Char} (hc : c ≠ '-') :
    parseChars ((if neg then ['-'] else []) ++ c :: cs) = (if neg then -1 else 1) * parseAbs (c :: cs) := by
  cases neg with
  | true => simp [parseChars]
  | false =>
    simp only [Bool.false_eq_true, if_false, List.nil_append, one_mul]
    unfold parseChars
    split
    · rename_i heq
      exact absurd (List.cons.inj heq).1 hc
    · rfl

theorem toDigits_cons (n : Nat) : ∃ c cs, Nat.toDigits 10 n = c :: cs ∧ c ≠ '-' := by
  cases h : Nat.toDigits 10 n with
  | nil => exact absurd h Nat.toDigits_ne_nil
  | cons c cs => exact ⟨c, cs, rfl, (digit_ne_point (n := n) (by rw [h]; exact List.mem_cons_self ..)).2⟩

/-! ## The text of a decimal denotes its value -/

theorem zeros_ne_point {k : Nat} {c : Char} (h : c ∈ zeros k) : c ≠ '.' := by
  obtain rfl := (List.mem_replicate.1 h).2
  decide

theorem signed_value (m : I128) (s : I8) :
    (if decide (m.val < 0) then (-1 : ℚ) else 1) * ((m.val.natAbs : ℚ) * 10 ^ (-s.val)) = decimalValue m s := by
  have habs : (if decide (m.val < 0) then (-1 : ℚ) else 1) * (m.val.natAbs : ℚ) = m.val := by
    by_cases h : m.val < 0
    · simp only [h, decide_true, if_true]
      have : (m.val.natAbs : Int) = -m.val := by omega
      rw [← Int.cast_natCast (R := ℚ), this]
      push_cast
      ring
    · simp only [h, decide_false, Bool.false_eq_true, if_false, one_mul]
      have : (m.val.natAbs : Int) = m.val := by omega
      rw [← Int.cast_natCast (R := ℚ), this]
  rw [← mul_assoc, habs, decimalValue]

theorem parseChars_decimalChars (m : I128) (s : I8) : parseChars (decimalChars m s) = decimalValue m s := by
  rw [← signed_value]
  have hsign : (if m.val < 0 then ['-'] else []) = if decide (m.val < 0) then ['-'] else ([] : List Char) := by
    by_cases h : m.val < 0 <;> simp [h]
  obtain ⟨c, cs, hdigits, hc⟩ := toDigits_cons m.val.natAbs
  have hread := Nat.ofDigitChars_ten_toDigits (n := m.val.natAbs)
  have hpoint : ∀ c ∈ Nat.toDigits 10 m.val.natAbs, c ≠ '.' := fun c h => (digit_ne_point h).1
  simp only [decimalChars, hsign]
  by_cases hs : s.val ≤ 0
  · -- an integer followed by the zeros of a negative scale
    rw [if_pos hs, List.append_assoc, hdigits, List.cons_append, parseChars_sign hc, ← List.cons_append, ← hdigits,
      parseAbs_whole (by
        intro c h
        rcases List.mem_append.1 h with h | h
        · exact hpoint c h
        · exact zeros_ne_point h),
      Nat.ofDigitChars_append, hread, zeros, Nat.ofDigitChars_replicate_zero]
    push_cast
    rw [mul_comm ((10 : ℚ) ^ _), ← zpow_natCast]
    congr 3
    omega
  · rw [if_neg hs]
    have hscale : ((s.val.toNat : Nat) : Int) = s.val := by omega
    have hpow : (10 : ℚ) ^ (-s.val) = 1 / 10 ^ s.val.toNat := by
      rw [← hscale, zpow_neg, zpow_natCast, one_div, Int.toNat_natCast]
    by_cases hlen : (Nat.toDigits 10 m.val.natAbs).length ≤ s.val.toNat
    · -- a zero before the point and every digit behind it
      rw [if_pos hlen, List.append_assoc, List.append_assoc]
      have hbody : ['0', '.'] ++ (zeros (s.val.toNat - (Nat.toDigits 10 m.val.natAbs).length) ++
          Nat.toDigits 10 m.val.natAbs) =
          '0' :: ([] ++ '.' :: (zeros (s.val.toNat - (Nat.toDigits 10 m.val.natAbs).length) ++
            Nat.toDigits 10 m.val.natAbs)) := rfl
      rw [hbody, parseChars_sign (by decide), ← List.cons_append, parseAbs_point (by
        intro c h
        obtain rfl := List.mem_singleton.1 h
        decide), List.cons_append, List.nil_append, Nat.ofDigitChars_cons, Nat.ofDigitChars_append, zeros,
        Nat.ofDigitChars_replicate_zero]
      have hlen' : (List.replicate (s.val.toNat - (Nat.toDigits 10 m.val.natAbs).length) '0' ++
          Nat.toDigits 10 m.val.natAbs).length = s.val.toNat := by
        rw [List.length_append, List.length_replicate]; omega
      rw [hlen', hpow]
      simp only [Nat.sub_self, Nat.mul_zero, Nat.add_zero, hread]
      ring
    · -- the point among the digits
      rw [if_neg hlen, List.append_assoc, List.append_assoc]
      have htake : ∃ ds, (Nat.toDigits 10 m.val.natAbs).take
          ((Nat.toDigits 10 m.val.natAbs).length - s.val.toNat) = c :: ds := by
        rw [hdigits, show (c :: cs).length - s.val.toNat = ((c :: cs).length - s.val.toNat - 1) + 1 by
          rw [hdigits] at hlen; omega]
        exact ⟨_, rfl⟩
      obtain ⟨ds, hds⟩ := htake
      rw [hds, List.cons_append, List.singleton_append, parseChars_sign hc, ← List.cons_append, ← hds, parseAbs_point
        (fun c h => hpoint c (List.mem_of_mem_take h)), List.take_append_drop, hread, List.length_drop, hpow]
      rw [show (Nat.toDigits 10 m.val.natAbs).length - ((Nat.toDigits 10 m.val.natAbs).length - s.val.toNat) =
        s.val.toNat by omega]
      ring

/-- Without rounding, text is parsed by its value. -/
theorem exactFloats_parsesValue : exactFloats.ParsesValue where
  parse {m m' s s'} h := by
    simp only [exactFloats, decimalToString, String.toList_ofList, parseChars_decimalChars, h]

end Ke.Runtime
