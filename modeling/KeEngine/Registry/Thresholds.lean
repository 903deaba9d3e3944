/-
The two readers of decimal text and its printer. A threshold on the command line is the operand of
a rule folded to canonical form, on every text; and a printed decimal of a scale that is not
negative is read back as it was.
-/
import KeEngine.Compiler.Numerals
import KeEngine.Registry.Commands
import KeEngine.Runtime.ExactFloats

namespace Ke.Registry

open Ke Wire Compiler Ke.Runtime

/-! ## The two readers -/

/-- A decimal of a scale that is not negative, in canonical form. -/
def stripped (m : I128) (k : I8) : I128 × I8 :=
  if (stripZeros k.val.toNat m).1.val = 0 then ((stripZeros k.val.toNat m).1, .lit 8 0)
  else ((stripZeros k.val.toNat m).1, stripScale k m)

theorem normalizeDecimal_of_nonneg {m : I128} {k : I8} (hk : 0 ≤ k.val) :
    normalizeDecimal m k = .ok (stripped m k) := by
  have hfold : (-k.val).toNat = 0 := by omega
  simp only [normalizeDecimal, hfold, foldNegative, stripped]
  split <;> rfl

/-- Digits pass the checks for missing and for other characters. -/
theorem checks_of_parseDigits {intPart fracPart : List Char} {n : Nat}
    (h : parseDigits (intPart ++ fracPart) = some n) : intPart ++ fracPart ≠ [] ∧
      (intPart.isEmpty && fracPart.isEmpty) = false ∧ (!(intPart ++ fracPart).all Char.isDigit) = false := by
  obtain ⟨hne, hall, -⟩ := parseDigits_eq_some.1 h
  refine ⟨hne, ?_, ?_⟩
  · rw [Bool.eq_false_iff]
    intro hboth
    simp only [Bool.and_eq_true, List.isEmpty_iff] at hboth
    exact hne (by rw [hboth.1, hboth.2]; rfl)
  · rw [Bool.not_eq_false', List.all_eq_true]
    exact hall

/-- The command line reads a text if the compiler does, and strips what the compiler reads. -/
theorem parseThreshold_cases (criterion s : String) :
    (∃ e, parseThreshold criterion s = .error e ∧ parseDecimal s = none) ∨
      ∃ m k, parseDecimal s = some (.decimal m k) ∧
        parseThreshold criterion s = .ok (.decimal (stripped m k).1 (stripped m k).2) := by
  rw [parseDecimal_eq]
  unfold parseThreshold
  extract_lets t
  split
  rename_i neg body hsign
  rw [show splitSign (trim s) = (neg, body) from hsign]
  split
  rename_i intPart fracPart hparts
  simp only [hparts]
  cases hdigits : parseDigits (intPart ++ fracPart) with
  | none =>
    left
    simp only [Option.bind_none, Option.bind_eq_bind, and_true]
    split_ifs
    · exact ⟨_, rfl⟩
    · exact ⟨_, rfl⟩
    · exact ⟨_, rfl⟩
    · split <;> exact ⟨_, rfl⟩
  | some n =>
    obtain ⟨hne, hsome, hdigit⟩ := checks_of_parseDigits hdigits
    have hempty : t.isEmpty = false := by
      rw [List.isEmpty_eq_false_iff]
      intro ht
      rw [ht] at hsign
      cases hsign
      cases hparts
      exact hne rfl
    simp only [hempty, hsome, hdigit, Bool.false_eq_true, if_false, Option.bind_eq_bind]
    rw [Option.bind_some, Option.bind_some]
    cases SInt.ofInt? 128 (n : Int) with
    | none =>
      left
      simp only [Option.bind_none, and_true]
      split <;> exact ⟨_, rfl⟩
    | some a =>
      rw [Option.bind_some, Option.bind_some]
      cases SInt.ofInt? 128 (if neg = true then -a.val else a.val) with
      | none =>
        left
        simp only [Option.bind_none, and_true]
        split <;> exact ⟨_, rfl⟩
      | some m =>
        cases SInt.ofInt? 8 (fracPart.length : Int) with
        | none => exact .inl ⟨_, rfl, rfl⟩
        | some k =>
          refine .inr ⟨m, k, rfl, ?_⟩
          simp only [stripped]
          split <;> rfl

theorem parseDecimal_scale {s : String} {m : I128} {k : I8} (h : parseDecimal s = some (.decimal m k)) : 0 ≤ k.val := by
  obtain ⟨n, m', k', -, -, -, hk, heq⟩ := parseDecimal_eq_some.1 h
  cases heq
  omega

theorem parseThreshold_ok_iff {criterion s : String} {d : ScalarValue} : parseThreshold criterion s = .ok d ↔
    ∃ m k p, parseDecimal s = some (.decimal m k) ∧ normalizeDecimal m k = .ok p ∧ d = .decimal p.1 p.2 := by
  rcases parseThreshold_cases criterion s with ⟨e, hcli, hdec⟩ | ⟨m, k, hdec, hcli⟩
  · simp [hcli, hdec]
  · have hnorm := normalizeDecimal_of_nonneg (m := m) (parseDecimal_scale hdec)
    rw [hcli]
    constructor
    · intro h
      exact ⟨m, k, _, hdec, hnorm, (Except.ok.inj h).symm⟩
    · rintro ⟨m', k', p, h, hp, rfl⟩
      cases hdec.symm.trans h
      cases hnorm.symm.trans hp
      rfl

/-! ## What the readers compute -/

/-- The digits of a text as an `i128`, if they fit, and how many stand after the point. -/
def readDigits (s : String) : Option I128 × Nat :=
  let (intPart, fracPart) := splitOnce '.' (splitSign (trim s)).2
  ((parseDigits (intPart ++ fracPart)).bind fun n => SInt.ofInt? 128 n, fracPart.length)

theorem neg_in_range {n : Nat} {a : I128} (h : SInt.ofInt? 128 n = some a) : ∃ b, SInt.ofInt? 128 (-a.val) = some b := by
  have ha := SInt.ofInt?_eq_some.1 h
  have hhi := a.hi
  exact ⟨⟨-a.val, by omega, by omega⟩, SInt.ofInt?_eq_some.2 rfl⟩

/-- Digits that fit are negated in range, and both readers take them when their scale fits. -/
theorem readDigits_read {s : String} {a : I128} (h : (readDigits s).1 = some a) :
    (∃ b, SInt.ofInt? 128 (-a.val) = some b) ∧
      ((readDigits s).2 ≤ 127 → ∀ criterion, (parseDecimal s).isSome = true ∧ (parseThreshold criterion s).isOk = true) := by
  have hneg : ∃ b, SInt.ofInt? 128 (-a.val) = some b := by
    obtain ⟨n, -, ha⟩ := Option.bind_eq_some_iff.1 h
    exact neg_in_range ha
  refine ⟨hneg, fun hscale criterion => ?_⟩
  have hread : ∃ d, parseDecimal s = some d := by
    rw [parseDecimal_eq]
    unfold readDigits at h hscale
    generalize splitOnce '.' (splitSign (trim s)).2 = parts at h hscale ⊢
    obtain ⟨intPart, fracPart⟩ := parts
    obtain ⟨n, hn, ha⟩ := Option.bind_eq_some_iff.1 h
    have hscale : fracPart.length ≤ 127 := hscale
    obtain ⟨k, hk⟩ : ∃ k, SInt.ofInt? 8 fracPart.length = some k :=
      ⟨⟨fracPart.length, by omega, by omega⟩, SInt.ofInt?_eq_some.2 rfl⟩
    obtain ⟨signed, hsigned⟩ : ∃ signed, SInt.ofInt? 128 (if (splitSign (trim s)).1 then -a.val else a.val) = some signed := by
      split
      · exact hneg
      · exact ⟨a, SInt.ofInt?_val a⟩
    exact ⟨.decimal signed k, Option.bind_eq_some_iff.2 ⟨n, hn, Option.bind_eq_some_iff.2 ⟨a, ha,
      Option.bind_eq_some_iff.2 ⟨signed, hsigned, Option.bind_eq_some_iff.2 ⟨k, hk, rfl⟩⟩⟩⟩⟩
  obtain ⟨d, hd⟩ := hread
  rcases parseThreshold_cases criterion s with ⟨e, -, hnone⟩ | ⟨m, k, -, hok⟩
  · cases hd.symm.trans hnone
  · rw [hd, hok]
    exact ⟨rfl, rfl⟩

/-! ## The printer -/

theorem zeros_isDigit {n : Nat} {c : Char} (h : c ∈ zeros n) : c.isDigit = true := by
  obtain rfl := (List.mem_replicate.1 h).2
  rfl

/-- A printed decimal is a numeral of its sign, its digits and its scale. -/
theorem exists_printed (m : I128) {k : I8} (hk : 0 ≤ k.val) : ∃ n : Numeral, decimalChars m k = n.chars ∧
    n.sign = (if m.val < 0 then .minus else .unsigned) ∧ n.magnitude = m.val.natAbs ∧ n.fraction.length = k.val := by
  have hdigit : ∀ c ∈ Nat.toDigits 10 m.val.natAbs, c.isDigit = true := fun c h =>
    Nat.isDigit_of_mem_toDigits (b := 10) (by decide) (by decide) h
  have hread := Nat.ofDigitChars_ten_toDigits (n := m.val.natAbs)
  have hne : Nat.toDigits 10 m.val.natAbs ≠ [] := Nat.toDigits_ne_nil
  have hsign : (if m.val < 0 then ['-'] else []) = (if m.val < 0 then Sign.minus else .unsigned).chars := by
    split <;> rfl
  simp only [decimalChars, hsign]
  generalize Nat.toDigits 10 m.val.natAbs = ds at *
  generalize (if m.val < 0 then Sign.minus else .unsigned) = sign
  by_cases h0 : k.val ≤ 0
  · -- an integer
    have hzeros : zeros (-k.val).toNat = [] := by rw [show (-k.val).toNat = 0 by omega]; rfl
    rw [if_pos h0, hzeros, List.append_nil]
    refine ⟨⟨sign, ds, false, [], by simpa using hdigit, by simpa using hne, fun _ => rfl⟩, ?_, rfl, ?_, ?_⟩
    · simp [Numeral.chars, Numeral.body]
    · simpa [Numeral.magnitude] using hread
    · simp only [List.length_nil]
      omega
  · rw [if_neg h0]
    by_cases hlen : ds.length ≤ k.val.toNat
    · -- a zero, the point, and the digits behind enough zeros
      rw [if_pos hlen]
      refine ⟨⟨sign, ['0'], true, zeros (k.val.toNat - ds.length) ++ ds, ?_, by simp, by simp⟩, ?_, rfl, ?_, ?_⟩
      · intro c hc
        simp only [List.cons_append, List.nil_append, List.mem_cons, List.mem_append] at hc
        rcases hc with rfl | hc | hc
        · rfl
        · exact zeros_isDigit hc
        · exact hdigit c hc
      · simp [Numeral.chars, Numeral.body]
      · simp only [Numeral.magnitude, List.cons_append, List.nil_append, Nat.ofDigitChars_cons, zeros,
          Nat.ofDigitChars_append, Nat.ofDigitChars_replicate_zero]
        simpa using hread
      · simp only [List.length_append, zeros, List.length_replicate]
        omega
    · -- the point among the digits
      rw [if_neg hlen]
      refine ⟨⟨sign, ds.take (ds.length - k.val.toNat), true, ds.drop (ds.length - k.val.toNat), ?_, ?_, by simp⟩,
        ?_, rfl, ?_, ?_⟩
      · rwa [List.take_append_drop]
      · rwa [List.take_append_drop]
      · simp [Numeral.chars, Numeral.body]
      · rwa [Numeral.magnitude, List.take_append_drop]
      · rw [List.length_drop]
        omega

theorem parseDecimal_printed {m : I128} {k : I8} (hm : m.val ≠ -2 ^ 127) (hk : 0 ≤ k.val) :
    parseDecimal (decimalToString m k) = some (.decimal m k) := by
  obtain ⟨n, hchars, hsign, hmag, hfrac⟩ := exists_printed m hk
  have hlo := m.lo
  have hhi := m.hi
  norm_num at hlo hhi hm
  refine parseDecimal_eq_some.2 ⟨n, m, k, ?_, ?_, ?_, hfrac.symm, rfl⟩
  · rw [decimalToString, hchars, n.trim_chars]
  · rw [hmag]
    norm_num
    omega
  · rw [hsign, hmag, Sign.apply]
    by_cases hneg : m.val < 0
    · rw [if_pos hneg, if_pos rfl]
      omega
    · rw [if_neg hneg, if_neg (by decide)]
      omega

/-- The readers agree up to canonical form, what they compute on the way stays in range, and a printed decimal is read
back. -/
theorem decimal_text_agrees :
    (∀ criterion s d, parseThreshold criterion s = .ok d ↔
      ∃ m k p, parseDecimal s = some (.decimal m k) ∧ normalizeDecimal m k = .ok p ∧ d = .decimal p.1 p.2) ∧
    (∀ s a, (readDigits s).1 = some a → (∃ b, SInt.ofInt? 128 (-a.val) = some b) ∧
      ((readDigits s).2 ≤ 127 → ∀ criterion,
        (parseDecimal s).isSome = true ∧ (parseThreshold criterion s).isOk = true)) ∧
    ∀ (m : I128) (k : I8), m.val ≠ -2 ^ 127 → 0 ≤ k.val → parseDecimal (decimalToString m k) = some (.decimal m k) :=
  ⟨fun _ _ _ => parseThreshold_ok_iff, fun _ _ => readDigits_read, fun _ _ => parseDecimal_printed⟩

theorem decimal_text_agrees_half :
    parseDecimal (decimalToString (.lit 128 (-5)) (.lit 8 1)) = some (.decimal (.lit 128 (-5)) (.lit 8 1)) :=
  decimal_text_agrees.2.2 _ _ (by decide) (by decide)

end Ke.Registry
