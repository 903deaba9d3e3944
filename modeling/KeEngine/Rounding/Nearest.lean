/-
Rounding to the nearest number whose significand has `k` bits after the leading one, a tie to the
even significand, with no bound on the exponent. The rounding is monotone and odd, it is the
identity on the integers up to `2 ^ (k + 1)`, and the numbers rounded to one significand are an
interval around it.
-/
import Mathlib.Data.Int.Log
import Mathlib.Algebra.Order.Field.Rat
import Mathlib.Data.Rat.Floor
import Mathlib.Tactic.Linarith
import Mathlib.Tactic.Ring
import Mathlib.Tactic.Positivity
import Mathlib.Tactic.NormNum

namespace Rounding

section HalfEven

variable {K : Type*} [Field K] [LinearOrder K] [IsStrictOrderedRing K] [FloorRing K]

/-- The nearest integer, a half to the even one. -/
def halfEven (x : K) : ℤ :=
  if 2 * Int.fract x < 1 then ⌊x⌋
  else if 1 < 2 * Int.fract x then ⌊x⌋ + 1
  else if Even ⌊x⌋ then ⌊x⌋
  else ⌊x⌋ + 1

/-- `n` is within a half of `x`, and is even at a distance of a half. -/
def Nearest (n : ℤ) (x : K) : Prop := 2 * |x - n| ≤ 1 ∧ (2 * |x - n| = 1 → Even n)

omit [FloorRing K] in
theorem Nearest.bounds {n : ℤ} {x : K} (h : Nearest n x) : 2 * (n : K) - 1 ≤ 2 * x ∧ 2 * x ≤ 2 * n + 1 := by
  have := abs_le.1 (show |x - n| ≤ 1 / 2 by linarith [h.1])
  constructor <;> linarith

theorem halfEven_nearest (x : K) : Nearest (halfEven x) x := by
  have hfract := Int.self_sub_floor x
  have h0 := Int.fract_nonneg x
  have h1 := Int.fract_lt_one x
  have hfloor : |x - ⌊x⌋| = Int.fract x := by rw [hfract, abs_of_nonneg h0]
  have hceil : |x - ((⌊x⌋ + 1 : ℤ) : K)| = 1 - Int.fract x := by
    push_cast
    rw [abs_of_nonpos (by linarith)]
    linarith
  unfold halfEven Nearest
  split_ifs with hlt hgt heven
  · rw [hfloor]
    exact ⟨hlt.le, fun h => absurd h hlt.ne⟩
  · rw [hceil]
    exact ⟨by linarith, fun h => by linarith⟩
  · rw [hfloor]
    exact ⟨by linarith, fun _ => heven⟩
  · rw [hceil]
    exact ⟨by linarith, fun _ => (Int.not_even_iff_odd.1 heven).add_one⟩

omit [FloorRing K] in
/-- Of two nearest integers the smaller one is that of the smaller number. -/
theorem Nearest.mono {m n : ℤ} {x y : K} (hm : Nearest m x) (hn : Nearest n y) (h : x ≤ y) : m ≤ n := by
  by_contra hlt
  have hm' := hm.bounds
  have hn' := hn.bounds
  have hstep : (n : K) + 1 ≤ m := by exact_mod_cast not_le.1 hlt
  -- both are at a distance of a half, and so both are even
  have hmn : m = n + 1 := by
    have : (m : K) ≤ n + 1 := by linarith
    have : m ≤ n + 1 := by exact_mod_cast this
    omega
  have hx : 2 * |x - m| = 1 := by rw [abs_of_nonpos (by linarith)]; linarith
  have hy : 2 * |y - n| = 1 := by rw [abs_of_nonneg (by linarith)]; linarith
  have hm2 := hm.2 hx
  have hn2 := hn.2 hy
  rw [hmn, Int.even_add_one] at hm2
  exact hm2 hn2

theorem halfEven_eq {n : ℤ} {x : K} (h : Nearest n x) : halfEven x = n :=
  le_antisymm ((halfEven_nearest x).mono h le_rfl) (h.mono (halfEven_nearest x) le_rfl)

theorem halfEven_mono {x y : K} (h : x ≤ y) : halfEven x ≤ halfEven y :=
  (halfEven_nearest x).mono (halfEven_nearest y) h

@[simp] theorem halfEven_intCast (n : ℤ) : halfEven (n : K) = n := halfEven_eq (by simp [Nearest])

theorem halfEven_neg (x : K) : halfEven (-x) = -halfEven x := by
  obtain ⟨hle, heq⟩ := halfEven_nearest x
  refine halfEven_eq ?_
  have habs : |-x - ((-halfEven x : ℤ) : K)| = |x - halfEven x| := by
    push_cast
    rw [← abs_neg]
    congr 1
    ring
  rw [Nearest, habs]
  exact ⟨hle, fun h => (heq h).neg⟩

end HalfEven

/-! ## Significands -/

section Significand

variable {K : Type*} [Field K] [LinearOrder K] [IsStrictOrderedRing K] [FloorRing K] {k : ℕ}

/-- The exponent of the last bit of a significand of `k` bits after the leading one. -/
def quantum (k : ℕ) (x : K) : ℤ := Int.log 2 |x| - k

/-- The nearest number of such a significand. -/
def roundTo (k : ℕ) (x : K) : K := halfEven (x / 2 ^ quantum k x) * 2 ^ quantum k x

omit [IsStrictOrderedRing K] in
theorem quantum_neg (x : K) : quantum k (-x) = quantum k x := by rw [quantum, quantum, abs_neg]

@[simp] theorem roundTo_zero : roundTo k (0 : K) = 0 := by
  rw [roundTo, zero_div, ← Int.cast_zero, halfEven_intCast, Int.cast_zero, zero_mul]

theorem roundTo_neg (x : K) : roundTo k (-x) = -roundTo k x := by
  rw [roundTo, quantum_neg, neg_div, halfEven_neg, Int.cast_neg, neg_mul, roundTo]

theorem zpow_quantum_pos (x : K) : (0 : K) < 2 ^ quantum k x := zpow_pos two_pos _

/-- A positive number in units of its last bit. -/
theorem significand_bounds {x : K} (hx : 0 < x) : 2 ^ k ≤ x / 2 ^ quantum k x ∧ x / 2 ^ quantum k x < 2 ^ (k + 1) := by
  have hlow := Int.zpow_log_le_self (b := 2) one_lt_two hx
  have hhigh := Int.lt_zpow_succ_log_self (b := 2) one_lt_two x
  push_cast at hlow hhigh
  have hsplit : ∀ j : ℕ, (2 : K) ^ j * 2 ^ quantum k x = 2 ^ ((j : ℤ) + Int.log 2 x - k) := by
    intro j
    rw [quantum, abs_of_pos hx, ← zpow_natCast, ← zpow_add₀ two_ne_zero]
    congr 1
    ring
  rw [le_div_iff₀ (zpow_quantum_pos x), div_lt_iff₀ (zpow_quantum_pos x), hsplit, hsplit]
  constructor
  · rwa [show (k : ℤ) + Int.log 2 x - k = Int.log 2 x by ring]
  · rwa [show ((k + 1 : ℕ) : ℤ) + Int.log 2 x - k = Int.log 2 x + 1 by push_cast; ring]

theorem halfEven_bounds {x : K} (hx : 0 < x) :
    2 ^ k ≤ halfEven (x / 2 ^ quantum k x) ∧ halfEven (x / 2 ^ quantum k x) ≤ 2 ^ (k + 1) := by
  obtain ⟨hlow, hhigh⟩ := significand_bounds (k := k) hx
  constructor
  · have := halfEven_mono (x := ((2 ^ k : ℤ) : K)) (by push_cast; exact hlow)
    rwa [halfEven_intCast] at this
  · have := halfEven_mono (y := ((2 ^ (k + 1) : ℤ) : K)) (by push_cast; exact hhigh.le)
    rwa [halfEven_intCast] at this

/-- The rounding stays between the powers of two around the number. -/
theorem roundTo_bounds {x : K} (hx : 0 < x) :
    2 ^ Int.log 2 x ≤ roundTo k x ∧ roundTo k x ≤ 2 ^ (Int.log 2 x + 1) := by
  obtain ⟨hlow, hhigh⟩ := halfEven_bounds (k := k) hx
  have hpow : ∀ j : ℕ, (2 : K) ^ ((j : ℤ) + Int.log 2 x - k) = ((2 ^ j : ℤ) : K) * 2 ^ quantum k x := by
    intro j
    rw [quantum, abs_of_pos hx, Int.cast_pow, Int.cast_ofNat, ← zpow_natCast, ← zpow_add₀ two_ne_zero]
    congr 1
    ring
  constructor
  · rw [show Int.log 2 x = (k : ℤ) + Int.log 2 x - k by ring, hpow, roundTo]
    exact mul_le_mul_of_nonneg_right (by exact_mod_cast hlow) (zpow_quantum_pos x).le
  · rw [show Int.log 2 x + 1 = ((k + 1 : ℕ) : ℤ) + Int.log 2 x - k by push_cast; ring, hpow, roundTo]
    exact mul_le_mul_of_nonneg_right (by exact_mod_cast hhigh) (zpow_quantum_pos x).le

theorem roundTo_pos {x : K} (hx : 0 < x) : 0 < roundTo k x :=
  (zpow_pos two_pos _).trans_le (roundTo_bounds hx).1

theorem roundTo_mono_pos {x y : K} (hx : 0 < x) (h : x ≤ y) : roundTo k x ≤ roundTo k y := by
  have hy := hx.trans_le h
  rcases (Int.log_mono_right (b := 2) hx h).lt_or_eq with hlog | hlog
  · -- a power of two lies between the roundings
    calc roundTo k x ≤ 2 ^ (Int.log 2 x + 1) := (roundTo_bounds hx).2
      _ ≤ 2 ^ Int.log 2 y := zpow_le_zpow_right₀ one_le_two (by omega)
      _ ≤ roundTo k y := (roundTo_bounds hy).1
  · have hq : quantum k x = quantum k y := by rw [quantum, quantum, abs_of_pos hx, abs_of_pos hy, hlog]
    rw [roundTo, roundTo, hq]
    have hdiv := div_le_div_of_nonneg_right h (zpow_quantum_pos (k := k) y).le
    exact mul_le_mul_of_nonneg_right (by exact_mod_cast halfEven_mono hdiv) (zpow_quantum_pos y).le

theorem roundTo_mono {x y : K} (h : x ≤ y) : roundTo k x ≤ roundTo k y := by
  rcases lt_trichotomy x 0 with hx | rfl | hx
  · rcases lt_or_ge y 0 with hy | hy
    · have := roundTo_mono_pos (k := k) (neg_pos.2 hy) (neg_le_neg h)
      rw [roundTo_neg, roundTo_neg] at this
      exact neg_le_neg_iff.1 this
    · have hneg := roundTo_pos (k := k) (neg_pos.2 hx)
      rw [roundTo_neg] at hneg
      have hnonneg : 0 ≤ roundTo k y := by
        rcases hy.lt_or_eq with hy | rfl
        · exact (roundTo_pos hy).le
        · rw [roundTo_zero]
      linarith
  · rw [roundTo_zero]
    rcases h.lt_or_eq with hy | rfl
    · exact (roundTo_pos hy).le
    · rw [roundTo_zero]
  · exact roundTo_mono_pos hx h

theorem quantum_eq {x : K} {e : ℤ} (hx : 0 < x) (hlow : 2 ^ k ≤ x / 2 ^ e) (hhigh : x / 2 ^ e < 2 ^ (k + 1)) :
    quantum k x = e := by
  have he : (0 : K) < 2 ^ e := zpow_pos two_pos _
  rw [le_div_iff₀ he, ← zpow_natCast, ← zpow_add₀ two_ne_zero] at hlow
  rw [div_lt_iff₀ he, ← zpow_natCast, ← zpow_add₀ two_ne_zero] at hhigh
  have h1 := (Int.zpow_le_iff_le_log (b := 2) (x := (k : ℤ) + e) one_lt_two hx).1 (by exact_mod_cast hlow)
  have h2 := (Int.lt_zpow_iff_log_lt (b := 2) (x := ((k + 1 : ℕ) : ℤ) + e) one_lt_two hx).1 (by exact_mod_cast hhigh)
  rw [quantum, abs_of_pos hx]
  push_cast at h2
  omega

theorem roundTo_of_nearest {x : K} {c e : ℤ} (hx : 0 < x) (hlow : 2 ^ k ≤ x / 2 ^ e) (hhigh : x / 2 ^ e < 2 ^ (k + 1))
    (h : Nearest c (x / 2 ^ e)) : roundTo k x = c * 2 ^ e := by
  rw [roundTo, quantum_eq hx hlow hhigh, halfEven_eq h]

/-- The numbers that round to the significand `c`, in units of its last bit: half a unit to both
sides, and half of that below a power of two; the ends are rounded to an even significand. -/
def InInterval (k : ℕ) (c : ℤ) (u : K) : Prop :=
  let low := (c : K) - if c = 2 ^ k then 1 / 4 else 1 / 2
  let high := (c : K) + 1 / 2
  (low < u ∨ Even c ∧ low = u) ∧ (u < high ∨ Even c ∧ u = high)

omit [FloorRing K] in
theorem InInterval.bounds {c : ℤ} {u : K} (h : InInterval k c u) (hc : 2 ^ k ≤ c) :
    (c : K) - 1 / 2 ≤ u ∧ u ≤ c + 1 / 2 ∧ 2 ^ k - 1 / 4 ≤ u := by
  obtain ⟨hlow, hhigh⟩ := h
  refine ⟨?_, ?_, ?_⟩
  · split_ifs at hlow <;> rcases hlow with h | ⟨-, h⟩ <;> linarith
  · rcases hhigh with h | ⟨-, h⟩ <;> linarith
  · split_ifs at hlow with hpow
    · rw [hpow] at hlow
      push_cast at hlow
      rcases hlow with h | ⟨-, h⟩ <;> linarith
    · have : (2 : K) ^ k + 1 ≤ c := by exact_mod_cast (show (2 : ℤ) ^ k + 1 ≤ c by omega)
      rcases hlow with h | ⟨-, h⟩ <;> linarith

omit [FloorRing K] in
theorem InInterval.nearest {c : ℤ} {u : K} (h : InInterval k c u) (hc : 2 ^ k ≤ c) (hu : 2 ^ k ≤ u) : Nearest c u := by
  obtain ⟨hlow, hhigh, -⟩ := h.bounds hc
  have hdist : |u - c| ≤ 1 / 2 := abs_le.2 ⟨by linarith, by linarith⟩
  refine ⟨by linarith, fun heq => ?_⟩
  obtain ⟨h1, h2⟩ := h
  rcases abs_cases (u - c) with ⟨habs, -⟩ | ⟨habs, -⟩
  · rcases h2 with h2 | h2
    · linarith
    · exact h2.1
  · split_ifs at h1 with hpow
    · have hcast : (c : K) = 2 ^ k := by rw [hpow, Int.cast_pow, Int.cast_ofNat]
      linarith
    · rcases h1 with h1 | h1
      · linarith
      · exact h1.1

omit [FloorRing K] in
theorem inInterval_of_nearest {c : ℤ} {u : K} (h : Nearest c u) (hu : 2 ^ k ≤ u) : InInterval k c u := by
  have hb := h.bounds
  constructor
  · split_ifs with hpow
    · left
      rw [hpow]
      push_cast
      linarith
    · rcases (show (c : K) - 1 / 2 ≤ u by linarith).lt_or_eq with hlt | heq
      · exact .inl hlt
      · exact .inr ⟨h.2 (by rw [abs_of_nonpos (by linarith)]; linarith), heq⟩
  · rcases (show u ≤ (c : K) + 1 / 2 by linarith).lt_or_eq with hlt | heq
    · exact .inl hlt
    · exact .inr ⟨h.2 (by rw [abs_of_nonneg (by linarith)]; linarith), heq⟩

theorem half_unit (x : K) (e : ℤ) : x / 2 ^ (e - 1) = 2 * (x / 2 ^ e) := by
  rw [zpow_sub_one₀ two_ne_zero]
  field_simp

/-- A power of two in the units below it and in its own. -/
theorem power_units (k : ℕ) (e : ℤ) : (((2 : ℤ) ^ (k + 1) : ℤ) : K) * 2 ^ (e - 1) = ((2 ^ k : ℤ) : K) * 2 ^ e := by
  rw [zpow_sub_one₀ two_ne_zero]
  push_cast
  rw [pow_succ]
  field_simp

theorem quantum_significand {c e : ℤ} (hc : 2 ^ k ≤ c) (hc' : c < 2 ^ (k + 1)) : quantum k ((c : K) * 2 ^ e) = e := by
  have he : (0 : K) < 2 ^ e := zpow_pos two_pos _
  have hpos : (0 : ℤ) < c := lt_of_lt_of_le (by positivity) hc
  refine quantum_eq (mul_pos (by exact_mod_cast hpos) he) ?_ ?_ <;> rw [mul_div_cancel_right₀ _ he.ne']
  · exact_mod_cast hc
  · exact_mod_cast hc'

theorem exists_significand {x : K} (hx : 0 < x) :
    ∃ c e : ℤ, 2 ^ k ≤ c ∧ c < 2 ^ (k + 1) ∧ roundTo k x = c * 2 ^ e := by
  obtain ⟨hlow, hhigh⟩ := halfEven_bounds (k := k) hx
  rcases hhigh.lt_or_eq with hlt | heq
  · exact ⟨_, _, hlow, hlt, rfl⟩
  · refine ⟨2 ^ k, quantum k x + 1, le_rfl, pow_lt_pow_right₀ one_lt_two (Nat.lt_succ_self k), ?_⟩
    rw [roundTo, heq, ← power_units k (quantum k x + 1), add_sub_cancel_right]

theorem inInterval_of_roundTo {x : K} {c e : ℤ} (hk : 0 < k) (hc : 2 ^ k ≤ c) (hc' : c < 2 ^ (k + 1)) (hx : 0 < x)
    (h : roundTo k x = c * 2 ^ e) : InInterval k c (x / 2 ^ e) := by
  obtain ⟨hlow, hhigh⟩ := significand_bounds (k := k) hx
  obtain ⟨hr1, hr2⟩ := halfEven_bounds (k := k) hx
  have hnear := halfEven_nearest (x / 2 ^ quantum k x)
  have he : (0 : K) < 2 ^ e := zpow_pos two_pos _
  have hexp := quantum_significand (K := K) (e := e) hc hc'
  rw [roundTo] at h
  rw [← h] at hexp
  rcases hr2.lt_or_eq with hlt | heq
  · -- the rounding has the units of `x`
    rw [quantum_significand hr1 hlt] at hexp
    rw [hexp] at h hnear hlow
    rw [show halfEven (x / 2 ^ e) = c by exact_mod_cast mul_right_cancel₀ he.ne' h] at hnear
    exact inInterval_of_nearest hnear hlow
  · -- the rounding is the next power of two, in units twice as large
    rw [heq, show quantum k x = quantum k x + 1 - 1 by ring, power_units,
      quantum_significand le_rfl (pow_lt_pow_right₀ one_lt_two (Nat.lt_succ_self k))] at hexp
    obtain hq : quantum k x = e - 1 := by omega
    rw [heq, hq, power_units] at h
    obtain rfl : 2 ^ k = c := by exact_mod_cast mul_right_cancel₀ he.ne' h
    rw [heq] at hnear
    rw [hq, half_unit] at hnear hhigh
    have hb := hnear.bounds
    push_cast [pow_succ] at hb hhigh
    have heven : Even ((2 : ℤ) ^ k) := even_two.pow_of_ne_zero hk.ne'
    simp only [InInterval, if_true]
    push_cast
    refine ⟨?_, .inl (by linarith)⟩
    rcases (show (2 : K) ^ k - 1 / 4 ≤ x / 2 ^ e by linarith).lt_or_eq with hlt | heq
    · exact .inl hlt
    · exact .inr ⟨heven, heq⟩

theorem roundTo_of_inInterval {x : K} {c e : ℤ} (hc : 2 ^ k ≤ c) (hc' : c < 2 ^ (k + 1)) (hx : 0 < x)
    (h : InInterval k c (x / 2 ^ e)) : roundTo k x = c * 2 ^ e := by
  have hc2 : (c : K) + 1 ≤ 2 ^ (k + 1) := by exact_mod_cast (show c + 1 ≤ 2 ^ (k + 1) by omega)
  obtain ⟨hnext, hhigh, hlow⟩ := h.bounds hc
  by_cases hu : 2 ^ k ≤ x / 2 ^ e
  · exact roundTo_of_nearest hx hu (by linarith) (h.nearest hc hu)
  · -- below the power of two the units are half as large
    have hpow : c = 2 ^ k := by
      by_contra hne
      have : (2 : K) ^ k + 1 ≤ c := by exact_mod_cast (show (2 : ℤ) ^ k + 1 ≤ c by omega)
      linarith
    have h2 : (2 : K) ^ (k + 1) = 2 * 2 ^ k := by ring
    have h1 : (1 : K) ≤ 2 ^ k := one_le_pow₀ one_le_two
    rw [hpow, ← power_units]
    refine roundTo_of_nearest hx (by rw [half_unit]; linarith) (by rw [half_unit]; linarith) ?_
    rw [half_unit, Nearest, abs_of_nonpos (by push_cast; linarith)]
    push_cast
    refine ⟨by linarith, fun _ => even_two.pow_of_ne_zero (by omega)⟩

/-- A number rounds to a significand exactly when it is in the interval of that significand. -/
theorem roundTo_eq_iff {x : K} {c e : ℤ} (hk : 0 < k) (hc : 2 ^ k ≤ c) (hc' : c < 2 ^ (k + 1)) (hx : 0 < x) :
    roundTo k x = c * 2 ^ e ↔ InInterval k c (x / 2 ^ e) :=
  ⟨inInterval_of_roundTo hk hc hc' hx, roundTo_of_inInterval hc hc' hx⟩

omit [FloorRing K] in
theorem InInterval.pos {x : K} {c e : ℤ} (hc : 2 ^ k ≤ c) (h : InInterval k c (x / 2 ^ e)) : 0 < x := by
  have h1 : (1 : K) ≤ 2 ^ k := one_le_pow₀ one_le_two
  have hlow := (h.bounds hc).2.2
  have he : (0 : K) < 2 ^ e := zpow_pos two_pos _
  by_contra hneg
  have := div_nonpos_of_nonpos_of_nonneg (not_lt.1 hneg) he.le
  linarith

/-- Two positive numbers in the interval of one significand. -/
def MergedPos (k : ℕ) (x y : K) : Prop :=
  ∃ c e : ℤ, 2 ^ k ≤ c ∧ c < 2 ^ (k + 1) ∧ InInterval k c (x / 2 ^ e) ∧ InInterval k c (y / 2 ^ e)

/-- Two numbers of one sign in the interval of one significand. -/
def Merged (k : ℕ) (x y : K) : Prop := MergedPos k x y ∨ MergedPos k (-x) (-y)

theorem roundTo_eq_pos {x y : K} (hk : 0 < k) (hx : 0 < x) (hy : 0 < y) :
    roundTo k x = roundTo k y ↔ MergedPos k x y := by
  constructor
  · intro h
    obtain ⟨c, e, hc, hc', hround⟩ := exists_significand (k := k) hx
    exact ⟨c, e, hc, hc', (roundTo_eq_iff hk hc hc' hx).1 hround, (roundTo_eq_iff hk hc hc' hy).1 (h ▸ hround)⟩
  · rintro ⟨c, e, hc, hc', h1, h2⟩
    rw [(roundTo_eq_iff hk hc hc' hx).2 h1, (roundTo_eq_iff hk hc hc' hy).2 h2]

/-- The sign of a rounding is that of the number. -/
theorem roundTo_pos_iff {x : K} : 0 < roundTo k x ↔ 0 < x := by
  refine ⟨fun h => ?_, roundTo_pos⟩
  by_contra hx
  have := roundTo_mono (k := k) (not_lt.1 hx)
  rw [roundTo_zero] at this
  exact absurd h (not_lt.2 this)

theorem roundTo_eq_roundTo_iff {x y : K} (hk : 0 < k) (hne : x ≠ y) : roundTo k x = roundTo k y ↔ Merged k x y := by
  constructor
  · intro h
    have hsign : 0 < x ↔ 0 < y := by rw [← roundTo_pos_iff (k := k), h, roundTo_pos_iff]
    have hneg : roundTo k (-x) = roundTo k (-y) := by rw [roundTo_neg, roundTo_neg, h]
    have hsign' : 0 < -x ↔ 0 < -y := by rw [← roundTo_pos_iff (k := k), hneg, roundTo_pos_iff]
    rcases lt_trichotomy x 0 with hx | rfl | hx
    · exact .inr ((roundTo_eq_pos hk (neg_pos.2 hx) (hsign'.1 (neg_pos.2 hx))).1 hneg)
    · -- only zero rounds to zero
      have h1 := mt hsign.2 (lt_irrefl _)
      have h2 := mt hsign'.2 (by rw [neg_zero]; exact lt_irrefl _)
      exact absurd (le_antisymm (by linarith) (not_lt.1 h1)) hne
    · exact .inl ((roundTo_eq_pos hk hx (hsign.1 hx)).1 h)
  · rintro (h | h)
    · obtain ⟨c, e, hc, -, h1, h2⟩ := id h
      exact (roundTo_eq_pos hk (h1.pos hc) (h2.pos hc)).2 h
    · obtain ⟨c, e, hc, -, h1, h2⟩ := id h
      have := (roundTo_eq_pos hk (h1.pos hc) (h2.pos hc)).2 h
      rwa [roundTo_neg, roundTo_neg, neg_inj] at this

/-! ## Integers -/

theorem roundTo_of_units {x : K} {c : ℤ} (h : x = c * 2 ^ quantum k x) : roundTo k x = x := by
  rw [roundTo]
  generalize quantum k x = q at *
  have hq : (2 : K) ^ q ≠ 0 := (zpow_pos two_pos q).ne'
  rw [h, mul_div_cancel_right₀ _ hq, halfEven_intCast]

theorem roundTo_natCast {n : ℕ} (h : n ≤ 2 ^ (k + 1)) : roundTo k (n : K) = n := by
  rcases h.lt_or_eq with hlt | rfl
  · refine roundTo_of_units (c := n * 2 ^ (-quantum k (n : K)).toNat) ?_
    have hq : quantum k (n : K) ≤ 0 := by
      rw [quantum, Nat.abs_cast, Int.log_natCast]
      rcases n.eq_zero_or_pos with rfl | hn
      · simp
      · have := Nat.log_lt_of_lt_pow hn.ne' hlt
        omega
    obtain ⟨j, hj⟩ := Int.eq_ofNat_of_zero_le (show 0 ≤ -quantum k (n : K) by omega)
    rw [show quantum k (n : K) = -(j : ℤ) by omega]
    push_cast
    rw [neg_neg, Int.toNat_natCast, zpow_neg, zpow_natCast, mul_assoc,
      mul_inv_cancel₀ (pow_ne_zero _ two_ne_zero), mul_one]
  · refine roundTo_of_units (c := 2 ^ k) ?_
    have hq : quantum k ((2 ^ (k + 1) : ℕ) : K) = 1 := by
      rw [quantum, Nat.abs_cast, Int.log_natCast, Nat.log_pow one_lt_two]
      omega
    rw [hq]
    push_cast
    rw [zpow_one, pow_succ]

/-- An integer of at most `k + 1` bits, or the power of two above them, is rounded to itself. -/
theorem roundTo_intCast {n : ℤ} (h : n.natAbs ≤ 2 ^ (k + 1)) : roundTo k (n : K) = n := by
  have hn := roundTo_natCast (K := K) h
  rcases Int.natAbs_eq n with heq | heq
  · rw [heq, Int.cast_natCast, hn]
  · rw [heq, Int.cast_neg, Int.cast_natCast, roundTo_neg, hn]

end Significand

end Rounding
