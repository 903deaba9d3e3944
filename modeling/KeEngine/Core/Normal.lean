/-
The check of the decoder accepts normal forms only: what it accepts, the encoder leaves as it is. With
the converse in `CanonicalLaws` the two traversals of each type describe one profile. A set has one
normal form for all its orders, and a decimal one for all its scales.
-/
import KeEngine.Core.CanonicalLaws
import KeEngine.Core.Policy
import KeEngine.Wire.Profile

namespace Ke

open Wire

/-! ## The checks of the decoder imply those of the encoder -/

theorem check_implies_ensure (isNfc : String → Bool) : (check isNfc).Implies (ensure isNfc) where
  nfc {s} h := by
    unfold check at h
    unfold ensure
    simp only at h ⊢
    by_cases hs : isNfc s = true
    · rw [if_pos hs]
    · rw [if_neg hs] at h
      cases h
  date {d} h := by
    unfold check at h
    unfold ensure
    simp only at h ⊢
    by_cases hd : validDate d
    · rw [if_pos hd]
    · rw [if_neg hd] at h
      cases h
  knownTz {n} h := by
    unfold check at h
    unfold ensure
    simp only at h ⊢
    by_cases hn : n ∈ knownTimeZones
    · rw [if_pos hn]
    · rw [if_neg hn] at h
      cases h

/-! ## Decimals -/

/-- A canonical decimal is left as it is. -/
theorem normalizeDecimal_of_canonical {m : I128} {s : I8} (h : checkDecimalCanonical m s = .ok ()) :
    normalizeDecimal m s = .ok (m, s) := by
  unfold checkDecimalCanonical at h
  split at h
  · rename_i hc
    obtain ⟨hpos, hzeros, hzero⟩ := hc
    have hfold : (-s.val).toNat = 0 := by omega
    have hstrip : stripZeros s.val.toNat m = (m, s.val.toNat) :=
      stripZeros_of_stripped fun hm => hzeros ⟨by omega, hm.2⟩
    unfold normalizeDecimal
    simp only [hfold, foldNegative, hstrip]
    by_cases h0 : m.val = 0
    · have hs : s.val = 0 := by
        by_contra hne
        exact hzero ⟨h0, hne⟩
      rw [if_pos h0]
      exact congrArg (fun s => Except.ok (m, s)) (SInt.ext hs.symm)
    · rw [if_neg h0]
      refine congrArg (fun s => Except.ok (m, s)) (SInt.ext ?_)
      rw [stripScale_val, hstrip]
      omega
  · cases h

/-- Of two canonical decimals of one value, the one of the smaller scale is the other. -/
theorem canonical_unique_of_le {m m' : I128} {s s' : I8} (h' : checkDecimalCanonical m' s' = .ok ())
    (hv : decimalValue m s = decimalValue m' s') (h0 : 0 ≤ s.val) (hle : s.val ≤ s'.val) : m = m' ∧ s = s' := by
  unfold checkDecimalCanonical at h'
  split at h'
  · rename_i hc
    obtain ⟨-, hzeros, hzero⟩ := hc
    -- at the larger scale the mantissa of the other is a multiple of a power of ten
    have hmul : m.val * 10 ^ (s'.val - s.val).toNat = m'.val := by
      have hq : (m.val : ℚ) * (10 : ℚ) ^ (-s.val) * (10 : ℚ) ^ s'.val = m'.val := by
        unfold decimalValue at hv
        rw [hv, mul_assoc, ← zpow_add₀ (by norm_num), neg_add_cancel, zpow_zero, mul_one]
      rw [mul_assoc, ← zpow_add₀ (by norm_num)] at hq
      have hexp : -s.val + s'.val = ((s'.val - s.val).toNat : Int) := by omega
      rw [hexp, zpow_natCast] at hq
      exact_mod_cast hq
    have hs : s.val = s'.val := by
      by_contra hne
      obtain ⟨k, hk⟩ : ∃ k, (s'.val - s.val).toNat = k + 1 := ⟨(s'.val - s.val).toNat - 1, by omega⟩
      rw [hk, pow_succ, ← mul_assoc] at hmul
      by_cases hm : m'.val = 0
      · exact hzero ⟨hm, by omega⟩
      · exact hzeros ⟨by omega, hm, by omega⟩
    rw [hs, sub_self, Int.toNat_zero, pow_zero, mul_one] at hmul
    exact ⟨SInt.ext hmul, SInt.ext hs⟩
  · cases h'

/-- Canonical decimals of one value are one. -/
theorem canonical_unique {m m' : I128} {s s' : I8} (h : checkDecimalCanonical m s = .ok ())
    (h' : checkDecimalCanonical m' s' = .ok ()) (hv : decimalValue m s = decimalValue m' s') : m = m' ∧ s = s' := by
  have hpos : ∀ {m : I128} {s : I8}, checkDecimalCanonical m s = .ok () → 0 ≤ s.val := by
    intro m s h
    unfold checkDecimalCanonical at h
    split at h
    · rename_i hc
      exact hc.1
    · cases h
  rcases le_total s.val s'.val with hle | hle
  · exact canonical_unique_of_le h' hv (hpos h) hle
  · obtain ⟨hm, hs⟩ := canonical_unique_of_le h hv.symm (hpos h') hle
    exact ⟨hm.symm, hs.symm⟩

/-- Folding forgets the scale and keeps the value. -/
theorem normalizeDecimal_eq_iff {m m' : I128} {s s' : I8} {n n' : I128 × I8} (h : normalizeDecimal m s = .ok n)
    (h' : normalizeDecimal m' s' = .ok n') : n = n' ↔ decimalValue m s = decimalValue m' s' := by
  obtain ⟨a, b⟩ := n
  obtain ⟨a', b'⟩ := n'
  rw [← normalizeDecimal_value h, ← normalizeDecimal_value h', Prod.mk.injEq]
  constructor
  · rintro ⟨rfl, rfl⟩
    rfl
  · exact canonical_unique (normalizeDecimal_canonical h) (normalizeDecimal_canonical h')

/-! ## Sets -/

section Sets

variable {α : Type} {c : Codec α}

/-- A set that passes the scan is left as it is. -/
theorem canonicalizeSet_of_check {items : List α} (h : checkSetCanonical c items = .ok ()) :
    canonicalizeSet c items = .ok items := by
  rw [SetOrder.checkSetCanonical_codec, SetOrder.checkSetCanonical_ok] at h
  have hrun := SetOrder.canonicalizeSet_of_increasing h (.refl items)
  rw [SetOrder.canonicalizeSet_codec] at hrun
  cases hout : canonicalizeSet c items with
  | error e =>
    rw [hout] at hrun
    cases hrun
  | ok out =>
    rw [hout] at hrun
    cases hrun
    rfl

/-- All orders of a set have one normal form, and only they. -/
theorem canonicalizeSet_eq_iff {items items' out out' : List α} (h : canonicalizeSet c items = .ok out)
    (h' : canonicalizeSet c items' = .ok out') : out = out' ↔ items.Perm items' := by
  obtain ⟨hperm, hcheck⟩ := canonicalizeSet_ok h
  obtain ⟨hperm', hcheck'⟩ := canonicalizeSet_ok h'
  rw [SetOrder.checkSetCanonical_codec, SetOrder.checkSetCanonical_ok] at hcheck hcheck'
  constructor
  · rintro rfl
    exact hperm.symm.trans hperm'
  · exact fun hp => hcheck.unique hcheck' ((hperm.trans hp).trans hperm'.symm)

end Sets

/-! ## What passes validation is in normal form -/

section Canonicalize

variable {isNfc : String → Bool}

theorem validateScalars_canonicalize : ∀ {items : List ScalarValue},
    (∀ v ∈ items, validateScalar isNfc v = .ok () → canonicalizeScalar isNfc v = .ok v) →
      validateScalar.scalars isNfc items = .ok () → canonicalizeScalar.scalars isNfc items = .ok items
  | [], _, _ => rfl
  | v :: vs, hv, h => by
    obtain ⟨h1, h2⟩ := then_ok.1 h
    have hhead := hv v (List.mem_cons_self ..) h1
    have htail := validateScalars_canonicalize (fun x hx => hv x (List.mem_cons_of_mem _ hx)) h2
    exact bind_ok.2 ⟨v, hhead, bind_ok.2 ⟨vs, htail, rfl⟩⟩

theorem validateScalar_canonicalize (v : ScalarValue) (h : validateScalar isNfc v = .ok ()) :
    canonicalizeScalar isNfc v = .ok v := by
  induction v using ScalarValue.ind with
  | hs s => exact then_ok.2 ⟨(check_implies_ensure isNfc).nfc h, rfl⟩
  | hb b => rfl
  | hd m s => exact bind_ok.2 ⟨(m, s), normalizeDecimal_of_canonical h, rfl⟩
  | hl items ih => exact bind_ok.2 ⟨items, validateScalars_canonicalize ih h, rfl⟩

theorem validateCondition_canonicalize {c : Condition} (h : validateCondition isNfc c = .ok ()) :
    canonicalizeCondition isNfc c = .ok c := by
  have hk := check_implies_ensure isNfc
  unfold validateCondition at h
  simp only [then_ok] at h
  refine then_ok.2 ⟨hk.nfc h.1, then_ok.2 ⟨hk.optNfc h.2.1, ?_⟩⟩
  exact bind_ok.2 ⟨c.value, validateScalar_canonicalize c.value h.2.2, rfl⟩

theorem validateItems_canonicalize : ∀ {items : List ConditionOrGroup},
    (∀ x ∈ items, validateCondOrGroup isNfc x = .ok () → canonicalizeCondOrGroup isNfc x = .ok x) →
      validateCondOrGroup.condItems isNfc items = .ok () → canonicalizeCondOrGroup.condItems isNfc items = .ok items
  | [], _, _ => rfl
  | x :: xs, hx, h => by
    obtain ⟨h1, h2⟩ := then_ok.1 h
    have hhead := hx x (List.mem_cons_self ..) h1
    have htail := validateItems_canonicalize (fun y hy => hx y (List.mem_cons_of_mem _ hy)) h2
    exact bind_ok.2 ⟨x, hhead, bind_ok.2 ⟨xs, htail, rfl⟩⟩

theorem validateOptItems_canonicalize {o : Option (List ConditionOrGroup)}
    (hx : ∀ items ∈ o, ∀ x ∈ items, validateCondOrGroup isNfc x = .ok () → canonicalizeCondOrGroup isNfc x = .ok x)
    (h : validateCondOrGroup.optItems isNfc o = .ok ()) : canonicalizeCondOrGroup.optItems isNfc o = .ok o := by
  cases o with
  | none => rfl
  | some items => exact bind_ok.2 ⟨items, validateItems_canonicalize (hx items rfl) h, rfl⟩

theorem validateCondOrGroup_canonicalize (x : ConditionOrGroup) (h : validateCondOrGroup isNfc x = .ok ()) :
    canonicalizeCondOrGroup isNfc x = .ok x := by
  induction x using ConditionOrGroup.ind with
  | hc c => exact bind_ok.2 ⟨c, validateCondition_canonicalize h, rfl⟩
  | hg all any iha ihb =>
    obtain ⟨h1, h2⟩ := then_ok.1 h
    have hall := validateOptItems_canonicalize iha h1
    have hany := validateOptItems_canonicalize ihb h2
    exact bind_ok.2 ⟨all, hall, bind_ok.2 ⟨any, hany, rfl⟩⟩

theorem validateOptGroup_canonicalize {o : Option ConditionGroupSpec} (h : validateOptGroup isNfc o = .ok ()) :
    canonicalizeOptGroup isNfc o = .ok o := by
  cases o with
  | none => rfl
  | some g =>
    obtain ⟨h1, h2⟩ := then_ok.1 h
    have hall := validateOptItems_canonicalize (fun _ _ x _ => validateCondOrGroup_canonicalize x) h1
    have hany := validateOptItems_canonicalize (fun _ _ x _ => validateCondOrGroup_canonicalize x) h2
    have hg : canonicalizeGroup isNfc g = .ok g := bind_ok.2 ⟨g.all, hall, bind_ok.2 ⟨g.any, hany, rfl⟩⟩
    exact bind_ok.2 ⟨g, hg, rfl⟩

theorem validateEntry_canonicalize :
    ∀ {e : DecisionEntry}, validateEntry isNfc e = .ok () → canonicalizeEntry isNfc e = .ok e
  | .node nodeId condition t f sourceSpan, h => by
    have hk := check_implies_ensure isNfc
    unfold validateEntry at h
    simp only [then_ok] at h
    obtain ⟨h1, h2, h3, h4, h5⟩ := h
    refine then_ok.2 ⟨hk.nfc h1, bind_ok.2 ⟨condition, validateCondition_canonicalize h2, ?_⟩⟩
    refine bind_ok.2 ⟨t, validateEntry_canonicalize h3, bind_ok.2 ⟨f, validateEntry_canonicalize h4, ?_⟩⟩
    exact then_ok.2 ⟨hk.optSourceSpan h5, rfl⟩
  | .leaf l, h => then_ok.2 ⟨(check_implies_ensure isNfc).leaf h, rfl⟩

theorem validateTags_canonicalize {o : Option (List String)} (h : validateTags isNfc o = .ok ()) :
    canonicalizeTags isNfc o = .ok o := by
  cases o with
  | none => rfl
  | some tags =>
    obtain ⟨hn, hset⟩ := then_ok.1 h
    refine then_ok.2 ⟨(check_implies_ensure isNfc).allNfc hn, ?_⟩
    exact bind_ok.2 ⟨tags, canonicalizeSet_of_check hset, rfl⟩

theorem validateRule_canonicalize {r : RuleIR} (h : validateRule isNfc r = .ok ()) :
    canonicalizeRule isNfc r = .ok r := by
  have hk := check_implies_ensure isNfc
  unfold validateRule at h
  simp only [then_ok] at h
  obtain ⟨h1, h2, h3, h4, h5, h6, h7, h8, h9, h10, h11⟩ := h
  refine then_ok.2 ⟨hk.nfc h1, then_ok.2 ⟨hk.nfc h2, then_ok.2 ⟨hk.optNfc h3, then_ok.2 ⟨hk.optNfc h4, ?_⟩⟩⟩⟩
  refine bind_ok.2 ⟨r.tags, validateTags_canonicalize h5, ?_⟩
  refine bind_ok.2 ⟨r.appliesIf, validateOptGroup_canonicalize h6, ?_⟩
  refine bind_ok.2 ⟨r.decisionTree, validateEntry_canonicalize h7, ?_⟩
  exact then_ok.2 ⟨hk.obligations h8, then_ok.2 ⟨hk.docRef h9, then_ok.2 ⟨hk.optWindow h10,
    then_ok.2 ⟨hk.provenance h11, rfl⟩⟩⟩⟩

theorem canonicalizeVerificationPolicy_ok {v v' : VerificationPolicy}
    (h : canonicalizeVerificationPolicy v = .ok v') :
    ∃ types counts, canonicalizeSet Postcard.attestationType v.requiredAttestationTypes = .ok types ∧
      canonicalizeSet Postcard.attestationCount v.minimumAttestationCountPerType = .ok counts ∧
      v' = ⟨v.t2T3Mode, types, counts⟩ := by
  obtain ⟨types, h1, h⟩ := bind_ok.1 h
  obtain ⟨counts, h2, h⟩ := bind_ok.1 h
  exact ⟨types, counts, h1, h2, (pure_ok.1 h).symm⟩

theorem canonicalizePolicy_ok {p p' : PolicyBundle} (h : canonicalizePolicy isNfc p = .ok p') :
    (ensure isNfc).nfc p.environment = .ok () ∧ (ensure isNfc).window p.effectiveWindow = .ok () ∧
      ∃ v, canonicalizeVerificationPolicy p.verificationPolicy = .ok v ∧ p' = { p with verificationPolicy := v } := by
  obtain ⟨h1, h⟩ := then_ok.1 h
  obtain ⟨v, h2, h⟩ := bind_ok.1 h
  obtain ⟨h3, h⟩ := then_ok.1 h
  exact ⟨h1, h3, v, h2, (pure_ok.1 h).symm⟩

theorem canonicalizePolicy_validate {p p' : PolicyBundle} (h : canonicalizePolicy isNfc p = .ok p') :
    validatePolicy isNfc p' = .ok () := by
  have hk := ensure_implies_check isNfc
  obtain ⟨henv, hwin, v, hv, rfl⟩ := canonicalizePolicy_ok h
  obtain ⟨types, counts, htypes, hcounts, rfl⟩ := canonicalizeVerificationPolicy_ok hv
  have hsets : validateVerificationPolicy ⟨p.verificationPolicy.t2T3Mode, types, counts⟩ = .ok () :=
    then_ok.2 ⟨(canonicalizeSet_ok htypes).2, (canonicalizeSet_ok hcounts).2⟩
  exact then_ok.2 ⟨hk.nfc henv, then_ok.2 ⟨hsets, hk.window hwin⟩⟩

theorem validatePolicy_canonicalize {p : PolicyBundle} (h : validatePolicy isNfc p = .ok ()) :
    canonicalizePolicy isNfc p = .ok p := by
  have hk := check_implies_ensure isNfc
  obtain ⟨henv, h⟩ := then_ok.1 h
  obtain ⟨hsets, hwin⟩ := then_ok.1 h
  obtain ⟨htypes, hcounts⟩ := then_ok.1 hsets
  have hv : canonicalizeVerificationPolicy p.verificationPolicy = .ok p.verificationPolicy :=
    bind_ok.2 ⟨_, canonicalizeSet_of_check htypes, bind_ok.2 ⟨_, canonicalizeSet_of_check hcounts, rfl⟩⟩
  exact then_ok.2 ⟨hk.nfc henv, bind_ok.2 ⟨_, hv, then_ok.2 ⟨hk.window hwin, rfl⟩⟩⟩

end Canonicalize

/-! ## The three profiles -/

section Profiles

variable (isNfc : String → Bool)

def ruleProfile : Profile CanonicalError CanonicalDecodeError RuleIR where
  codec := Postcard.ruleIR
  canonicalize := canonicalizeRule isNfc
  validate := validateRule isNfc
  validate_canonicalize := canonicalizeRule_validate
  canonicalize_validate := validateRule_canonicalize

def policyProfile : Profile CanonicalError CanonicalDecodeError PolicyBundle where
  codec := Postcard.policyBundle
  canonicalize := canonicalizePolicy isNfc
  validate := validatePolicy isNfc
  validate_canonicalize := canonicalizePolicy_validate
  canonicalize_validate := validatePolicy_canonicalize

/-- A manifest is checked and otherwise left as it is. -/
def manifestProfile : Profile CanonicalError CanonicalDecodeError Manifest where
  codec := Postcard.manifest
  canonicalize m := do
    canonicalizeManifest isNfc m
    pure m
  validate := validateManifest isNfc
  validate_canonicalize h := by
    obtain ⟨hm, h⟩ := then_ok.1 h
    obtain rfl := pure_ok.1 h
    exact (ensure_implies_check isNfc).manifest hm
  canonicalize_validate h := then_ok.2 ⟨(check_implies_ensure isNfc).manifest h, rfl⟩

variable {isNfc}

theorem encodeRule_iff {r : RuleIR} {bytes : Bytes} :
    encodeRule isNfc r = .ok bytes ↔ (ruleProfile isNfc).Writes r bytes := by
  unfold encodeRule Profile.Writes
  simp only [bind_ok, mapError_ok]
  rfl

theorem encodePolicy_iff {p : PolicyBundle} {bytes : Bytes} :
    encodePolicy isNfc p = .ok bytes ↔ (policyProfile isNfc).Writes p bytes := by
  unfold encodePolicy Profile.Writes
  simp only [bind_ok, mapError_ok]
  rfl

theorem encodeManifest_iff {m : Manifest} {bytes : Bytes} :
    encodeManifest isNfc m = .ok bytes ↔ (manifestProfile isNfc).Writes m bytes := by
  unfold encodeManifest Profile.Writes
  rw [then_ok, mapError_ok]
  constructor
  · rintro ⟨hm, henc⟩
    exact ⟨m, then_ok.2 ⟨hm, rfl⟩, henc⟩
  · rintro ⟨c, hc, henc⟩
    obtain ⟨hm, hc⟩ := then_ok.1 hc
    obtain rfl := pure_ok.1 hc
    exact ⟨hm, henc⟩

/-- Reading the whole input and checking it. -/
theorem strict_ok {α : Type} {dec : Except DecodeError (α × Bytes)} {validate : α → Except CanonicalDecodeError Unit}
    {v : α} :
    (do
      let (a, rest) ← dec.mapError CanonicalDecodeError.codec
      if rest ≠ [] then throw CanonicalDecodeError.trailingBytes
      validate a
      pure a) = .ok v ↔ dec = .ok (v, []) ∧ validate v = .ok () := by
  rw [bind_ok]
  constructor
  · rintro ⟨⟨a, rest⟩, hdec, h⟩
    rw [mapError_ok] at hdec
    by_cases hr : rest = []
    · subst hr
      obtain ⟨hv, h⟩ := then_ok.1 h
      obtain rfl := pure_ok.1 h
      exact ⟨hdec, hv⟩
    · simp only [ne_eq, hr, not_false_eq_true, if_true] at h
      cases h
  · rintro ⟨hdec, hv⟩
    refine ⟨(v, []), mapError_ok.2 hdec, ?_⟩
    exact then_ok.2 ⟨hv, rfl⟩

theorem decodeRule_iff {r : RuleIR} {bytes : Bytes} :
    decodeRule isNfc bytes = .ok r ↔ (ruleProfile isNfc).Reads bytes r := strict_ok

theorem decodePolicy_iff {p : PolicyBundle} {bytes : Bytes} :
    decodePolicy isNfc bytes = .ok p ↔ (policyProfile isNfc).Reads bytes p := strict_ok

theorem decodeManifest_iff {m : Manifest} {bytes : Bytes} :
    decodeManifest isNfc bytes = .ok m ↔ (manifestProfile isNfc).Reads bytes m := strict_ok

end Profiles

end Ke
