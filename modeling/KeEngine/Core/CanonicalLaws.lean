/-
What canonicalisation establishes: every check of the encoder implies the decoder's check of the
same place, sorted tags pass the decoder's scan, a folded decimal is canonical and has the value
it had. Together: whatever `encodeRule` writes, `decodeRule` reads back as the canonical rule.
-/
import KeEngine.Core.SetOrder

namespace Ke

open Wire

/-! ## Sequencing -/

/-- A check followed by more succeeds exactly when both do. -/
theorem then_ok {ε β : Type} {x : Except ε Unit} {y : Except ε β} {b : β} :
    (x >>= fun _ => y) = .ok b ↔ x = .ok () ∧ y = .ok b := by
  rw [bind_ok]
  constructor
  · rintro ⟨⟨⟩, hx, hy⟩; exact ⟨hx, hy⟩
  · rintro ⟨hx, hy⟩; exact ⟨(), hx, hy⟩

theorem mapError_ok {ε ε' α : Type} {x : Except ε α} {f : ε → ε'} {a : α} :
    x.mapError f = .ok a ↔ x = .ok a := by
  cases x <;> simp [Except.mapError]

/-! ## The checks of the encoder imply those of the decoder -/

/-- Whatever passes `k` passes `k'`. -/
structure Checks.Implies {ε ε' : Type} (k : Checks ε) (k' : Checks ε') : Prop where
  nfc : ∀ {s}, k.nfc s = .ok () → k'.nfc s = .ok ()
  date : ∀ {d}, k.date d = .ok () → k'.date d = .ok ()
  knownTz : ∀ {n}, k.knownTz n = .ok () → k'.knownTz n = .ok ()

theorem ensure_implies_check (isNfc : String → Bool) : (ensure isNfc).Implies (check isNfc) where
  nfc {s} h := by
    simp only [ensure, check] at h ⊢
    split at h
    · rename_i hs; rw [if_pos hs]
    · cases h
  date {d} h := by
    simp only [ensure, check] at h ⊢
    split at h
    · rename_i hd; rw [if_pos hd]
    · cases h
  knownTz {n} h := by
    simp only [ensure, check] at h ⊢
    split at h
    · rename_i hn; rw [if_pos hn]
    · cases h

namespace Checks

variable {ε ε' : Type} {k : Checks ε} {k' : Checks ε'}

theorem Implies.optNfc (h : k.Implies k') {o : Option String} (ho : k.optNfc o = .ok ()) : k'.optNfc o = .ok () := by
  cases o with
  | none => rfl
  | some s => exact h.nfc ho

theorem Implies.allNfc (h : k.Implies k') : ∀ {ss : List String}, k.allNfc ss = .ok () → k'.allNfc ss = .ok ()
  | [], _ => rfl
  | _ :: _, hs => by
    obtain ⟨h1, h2⟩ := then_ok.1 hs
    exact then_ok.2 ⟨h.nfc h1, h.allNfc h2⟩

theorem Implies.optDate (h : k.Implies k') {o : Option JurisdictionDate} (ho : k.optDate o = .ok ()) :
    k'.optDate o = .ok () := by
  cases o with
  | none => rfl
  | some d => exact h.date ho

theorem Implies.sourceSpan (h : k.Implies k') {s : SourceSpan} (hs : k.sourceSpan s = .ok ()) :
    k'.sourceSpan s = .ok () := by
  simp only [Checks.sourceSpan, then_ok] at hs ⊢
  exact ⟨h.nfc hs.1, h.optNfc hs.2.1, h.optNfc hs.2.2.1, h.optNfc hs.2.2.2⟩

theorem Implies.optSourceSpan (h : k.Implies k') {o : Option SourceSpan} (ho : k.optSourceSpan o = .ok ()) :
    k'.optSourceSpan o = .ok () := by
  cases o with
  | none => rfl
  | some s => exact h.sourceSpan ho

theorem Implies.docRef (h : k.Implies k') {d : DocumentRef} (hd : k.docRef d = .ok ()) : k'.docRef d = .ok () := by
  simp only [Checks.docRef, then_ok] at hd ⊢
  exact ⟨h.nfc hd.1, h.optNfc hd.2.1, h.optNfc hd.2.2.1, h.allNfc hd.2.2.2.1, h.optNfc hd.2.2.2.2⟩

theorem Implies.obligation (h : k.Implies k') {o : ObligationSpec} (ho : k.obligation o = .ok ()) :
    k'.obligation o = .ok () := by
  simp only [Checks.obligation, then_ok] at ho ⊢
  exact ⟨h.nfc ho.1, h.optNfc ho.2.1, h.optNfc ho.2.2.1, h.optSourceSpan ho.2.2.2⟩

theorem Implies.obligations (h : k.Implies k') :
    ∀ {os : List ObligationSpec}, k.obligations os = .ok () → k'.obligations os = .ok ()
  | [], _ => rfl
  | _ :: _, hs => by
    obtain ⟨h1, h2⟩ := then_ok.1 hs
    exact then_ok.2 ⟨h.obligation h1, h.obligations h2⟩

theorem Implies.leaf (h : k.Implies k') {l : DecisionLeaf} (hl : k.leaf l = .ok ()) : k'.leaf l = .ok () := by
  simp only [Checks.leaf, then_ok] at hl ⊢
  exact ⟨h.nfc hl.1, h.obligations hl.2.1, h.optNfc hl.2.2.1, h.optSourceSpan hl.2.2.2⟩

theorem Implies.window (h : k.Implies k') {w : EffectiveWindow} (hw : k.window w = .ok ()) :
    k'.window w = .ok () := by
  simp only [Checks.window, then_ok] at hw ⊢
  refine ⟨h.date hw.1, h.optDate hw.2.1, ?_⟩
  have h3 := hw.2.2
  cases hz : w.jurisdictionTimeZone with
  | none => rfl
  | some tz =>
    rw [hz] at h3
    simp only [Checks.timeZone, then_ok] at h3 ⊢
    exact ⟨h.knownTz h3.1, h.nfc h3.2⟩

theorem Implies.optWindow (h : k.Implies k') {o : Option EffectiveWindow} (ho : k.optWindow o = .ok ()) :
    k'.optWindow o = .ok () := by
  cases o with
  | none => rfl
  | some w => exact h.window ho

theorem Implies.provenance (h : k.Implies k') {p : ProvenanceMarker} (hp : k.provenance p = .ok ()) :
    k'.provenance p = .ok () := by
  cases p with
  | candidate proposalId =>
    cases proposalId with
    | none => rfl
    | some id => exact h.nfc hp
  | mlChecked v => exact h.nfc hp
  | published e => exact h.nfc hp
  | structurallyVerified => rfl
  | expertAttested n => rfl
  | deprecated => rfl
  | revoked => rfl

theorem Implies.manifest (h : k.Implies k') {m : Manifest} (hm : k.manifest m = .ok ()) :
    k'.manifest m = .ok () := by
  simp only [Checks.manifest, then_ok] at hm ⊢
  exact ⟨h.nfc hm.1, h.nfc hm.2.1, h.nfc hm.2.2.1, h.nfc hm.2.2.2.1, h.date hm.2.2.2.2.1,
    h.optDate hm.2.2.2.2.2⟩

end Checks

/-! ## Sorted sets pass the decoder's scan -/

section Sets

variable {α : Type} {c : Codec α}

/-- A sorted set holds the same elements and passes the scan. -/
theorem canonicalizeSet_ok {items out : List α} (h : canonicalizeSet c items = .ok out) :
    out.Perm items ∧ checkSetCanonical c out = .ok () := by
  have hrun := SetOrder.canonicalizeSet_codec c items
  rw [h] at hrun
  rcases @SetOrder.canonicalizeSet_cases α c.enc items with ⟨-, e, herror⟩ | ⟨-, out', hout, hperm, hinc⟩
  · cases herror.symm.trans hrun
  · cases hout.symm.trans hrun
    rw [SetOrder.checkSetCanonical_codec]
    exact ⟨hperm, SetOrder.checkSetCanonical_ok.2 hinc⟩

end Sets

/-! ## Decimals -/

/-- The rational number that a decimal denotes. -/
def decimalValue (mantissa : I128) (scale : I8) : ℚ := (mantissa.val : ℚ) * (10 : ℚ) ^ (-scale.val)

theorem foldNegative_val : ∀ {k : Nat} {m m' : I128}, foldNegative k m = some m' → m'.val = m.val * 10 ^ k
  | 0, m, m', h => by cases h; simp
  | k + 1, m, m', h => by
    obtain ⟨m₁, h1, h2⟩ := Option.bind_eq_some_iff.1 h
    rw [foldNegative_val h2, SInt.ofInt?_eq_some.1 h1, pow_succ]
    ring

theorem stripZeros_val : ∀ (k : Nat) (m : I128), (stripZeros k m).1.val * 10 ^ (k - (stripZeros k m).2) = m.val
  | 0, m => by simp [stripZeros]
  | k + 1, m => by
    simp only [stripZeros]
    split
    · rename_i h
      have ih := stripZeros_val k (tenth m)
      have hle := stripZeros_le k (tenth m)
      rw [show k + 1 - (stripZeros k (tenth m)).2 = k - (stripZeros k (tenth m)).2 + 1 by omega, pow_succ,
        ← mul_assoc, ih]
      simp only [tenth]
      omega
    · simp

theorem stripZeros_stripped :
    ∀ (k : Nat) (m : I128), ¬ (0 < (stripZeros k m).2 ∧ (stripZeros k m).1.val ≠ 0 ∧ (stripZeros k m).1.val % 10 = 0)
  | 0, m => by simp [stripZeros]
  | k + 1, m => by
    simp only [stripZeros]
    split
    · exact stripZeros_stripped k (tenth m)
    · rename_i h
      rintro ⟨-, h'⟩
      exact h h'

theorem stripZeros_of_stripped {k : Nat} {m : I128} (h : ¬ (0 < k ∧ m.val ≠ 0 ∧ m.val % 10 = 0)) :
    stripZeros k m = (m, k) := by
  cases k with
  | zero => rfl
  | succ k =>
    simp only [stripZeros]
    rw [if_neg fun hm => h ⟨Nat.succ_pos k, hm⟩]

/-- Stripping zeros never makes zero. -/
theorem stripZeros_eq_zero : ∀ {k : Nat} {m : I128}, (stripZeros k m).1.val = 0 → m.val = 0 := by
  intro k m h
  have hv := stripZeros_val k m
  rw [h, zero_mul] at hv
  exact hv.symm

theorem stripScale_val (scale : I8) (m : I128) :
    (stripScale scale m).val = ((stripZeros scale.val.toNat m).2 : Nat) := rfl

/-- Folding keeps the value. -/
theorem normalizeDecimal_value {m m' : I128} {s s' : I8} (h : normalizeDecimal m s = .ok (m', s')) :
    decimalValue m' s' = decimalValue m s := by
  unfold normalizeDecimal at h
  split at h
  · cases h
  · rename_i m₁ hfold
    have hm₁ := foldNegative_val hfold
    have hv := stripZeros_val s.val.toNat m₁
    have hle := stripZeros_le s.val.toNat m₁
    -- the folded mantissa at the scale that is left, against the mantissa as written
    have hfolded : (m₁.val : ℚ) * (10 : ℚ) ^ (-(s.val.toNat : Int)) = decimalValue m s := by
      rw [hm₁, decimalValue]
      push_cast
      rw [mul_assoc, ← zpow_natCast (10 : ℚ), ← zpow_add₀ (by norm_num)]
      congr 2
      omega
    simp only at h
    split at h
    · rename_i h0
      cases h
      have hz := stripZeros_eq_zero h0
      rw [← hfolded, hz, decimalValue, h0]
      simp
    · cases h
      rw [← hfolded, decimalValue, stripScale_val, ← hv]
      push_cast
      rw [mul_assoc, ← zpow_natCast (10 : ℚ), ← zpow_add₀ (by norm_num)]
      congr 2
      omega

/-- Folding ends in canonical form. -/
theorem normalizeDecimal_canonical {m m' : I128} {s s' : I8} (h : normalizeDecimal m s = .ok (m', s')) :
    checkDecimalCanonical m' s' = .ok () := by
  unfold normalizeDecimal at h
  split at h
  · cases h
  · rename_i m₁ hfold
    simp only at h
    split at h
    · rename_i h0
      cases h
      exact if_pos ⟨le_rfl, by simp [SInt.lit], by simp [SInt.lit]⟩
    · rename_i h0
      cases h
      have hs := stripZeros_stripped s.val.toNat m₁
      refine if_pos ⟨by rw [stripScale_val]; omega, ?_, fun hz => h0 hz.1⟩
      rintro ⟨hpos, hrest⟩
      rw [stripScale_val] at hpos
      exact hs ⟨by omega, hrest⟩

/-! ## What is encoded passes validation -/

section Validate

variable {isNfc : String → Bool}

theorem canonicalizeScalars_validate {items : List ScalarValue} :
    ∀ {out : List ScalarValue}, (∀ v ∈ items, ∀ v', canonicalizeScalar isNfc v = .ok v' →
      validateScalar isNfc v' = .ok ()) →
      canonicalizeScalar.scalars isNfc items = .ok out → validateScalar.scalars isNfc out = .ok () := by
  induction items with
  | nil => rintro out - h; cases h; rfl
  | cons v vs ih =>
    intro out hv h
    obtain ⟨v', h1, h⟩ := bind_ok.1 h
    obtain ⟨vs', h2, h⟩ := bind_ok.1 h
    obtain rfl := pure_ok.1 h
    exact then_ok.2 ⟨hv v (List.mem_cons_self ..) v' h1, ih (fun x hx => hv x (List.mem_cons_of_mem _ hx)) h2⟩

theorem canonicalizeScalar_validate (v : ScalarValue) :
    ∀ v', canonicalizeScalar isNfc v = .ok v' → validateScalar isNfc v' = .ok () := by
  induction v using ScalarValue.ind with
  | hs s =>
    intro v' h
    obtain ⟨hs, h⟩ := then_ok.1 h
    obtain rfl := pure_ok.1 h
    exact (ensure_implies_check isNfc).nfc hs
  | hb b => intro v' h; cases h; rfl
  | hd m s =>
    intro v' h
    obtain ⟨⟨m', s'⟩, h1, h⟩ := bind_ok.1 h
    obtain rfl := pure_ok.1 h
    exact normalizeDecimal_canonical h1
  | hl items ih =>
    intro v' h
    obtain ⟨out, h1, h⟩ := bind_ok.1 h
    obtain rfl := pure_ok.1 h
    exact canonicalizeScalars_validate ih h1

theorem canonicalizeCondition_validate {c c' : Condition} (h : canonicalizeCondition isNfc c = .ok c') :
    validateCondition isNfc c' = .ok () := by
  obtain ⟨hf, h⟩ := then_ok.1 h
  obtain ⟨hd, h⟩ := then_ok.1 h
  obtain ⟨v, hv, h⟩ := bind_ok.1 h
  obtain rfl := pure_ok.1 h
  simp only [validateCondition, then_ok]
  exact ⟨(ensure_implies_check isNfc).nfc hf, (ensure_implies_check isNfc).optNfc hd,
    canonicalizeScalar_validate c.value v hv⟩

theorem condItems_validate {items : List ConditionOrGroup} :
    ∀ {out : List ConditionOrGroup},
      (∀ x ∈ items, ∀ x', canonicalizeCondOrGroup isNfc x = .ok x' → validateCondOrGroup isNfc x' = .ok ()) →
      canonicalizeCondOrGroup.condItems isNfc items = .ok out → validateCondOrGroup.condItems isNfc out = .ok () := by
  induction items with
  | nil => rintro out - h; cases h; rfl
  | cons x xs ih =>
    intro out hx h
    obtain ⟨x', h1, h⟩ := bind_ok.1 h
    obtain ⟨xs', h2, h⟩ := bind_ok.1 h
    obtain rfl := pure_ok.1 h
    exact then_ok.2 ⟨hx x (List.mem_cons_self ..) x' h1, ih (fun y hy => hx y (List.mem_cons_of_mem _ hy)) h2⟩

theorem optItems_validate {o o' : Option (List ConditionOrGroup)}
    (hx : ∀ items ∈ o, ∀ x ∈ items, ∀ x', canonicalizeCondOrGroup isNfc x = .ok x' →
      validateCondOrGroup isNfc x' = .ok ())
    (h : canonicalizeCondOrGroup.optItems isNfc o = .ok o') : validateCondOrGroup.optItems isNfc o' = .ok () := by
  cases o with
  | none => cases h; rfl
  | some items =>
    obtain ⟨out, h1, h⟩ := bind_ok.1 h
    obtain rfl := pure_ok.1 h
    exact condItems_validate (hx items rfl) h1

theorem canonicalizeCondOrGroup_validate (x : ConditionOrGroup) :
    ∀ x', canonicalizeCondOrGroup isNfc x = .ok x' → validateCondOrGroup isNfc x' = .ok () := by
  induction x using ConditionOrGroup.ind with
  | hc c =>
    intro x' h
    obtain ⟨c', h1, h⟩ := bind_ok.1 h
    obtain rfl := pure_ok.1 h
    exact canonicalizeCondition_validate h1
  | hg all any iha ihb =>
    intro x' h
    obtain ⟨all', h1, h⟩ := bind_ok.1 h
    obtain ⟨any', h2, h⟩ := bind_ok.1 h
    obtain rfl := pure_ok.1 h
    exact then_ok.2 ⟨optItems_validate iha h1, optItems_validate ihb h2⟩

theorem canonicalizeGroup_validate {g g' : ConditionGroupSpec} (h : canonicalizeGroup isNfc g = .ok g') :
    validateGroup isNfc g' = .ok () := by
  obtain ⟨all', h1, h⟩ := bind_ok.1 h
  obtain ⟨any', h2, h⟩ := bind_ok.1 h
  obtain rfl := pure_ok.1 h
  exact then_ok.2 ⟨optItems_validate (fun _ _ x _ => canonicalizeCondOrGroup_validate x) h1,
    optItems_validate (fun _ _ x _ => canonicalizeCondOrGroup_validate x) h2⟩

theorem canonicalizeEntry_validate :
    ∀ {e e' : DecisionEntry}, canonicalizeEntry isNfc e = .ok e' → validateEntry isNfc e' = .ok ()
  | .node _ _ _ _ _, e', h => by
    obtain ⟨h1, h⟩ := then_ok.1 h
    obtain ⟨c', h2, h⟩ := bind_ok.1 h
    obtain ⟨t', h3, h⟩ := bind_ok.1 h
    obtain ⟨f', h4, h⟩ := bind_ok.1 h
    obtain ⟨h5, h⟩ := then_ok.1 h
    obtain rfl := pure_ok.1 h
    simp only [validateEntry, then_ok]
    exact ⟨(ensure_implies_check isNfc).nfc h1, canonicalizeCondition_validate h2, canonicalizeEntry_validate h3,
      canonicalizeEntry_validate h4, (ensure_implies_check isNfc).optSourceSpan h5⟩
  | .leaf _, e', h => by
    obtain ⟨h1, h⟩ := then_ok.1 h
    obtain rfl := pure_ok.1 h
    exact (ensure_implies_check isNfc).leaf h1

theorem Checks.allNfc_iff {ε : Type} {k : Checks ε} :
    ∀ {ss : List String}, k.allNfc ss = .ok () ↔ ∀ s ∈ ss, k.nfc s = .ok ()
  | [] => by simp [Checks.allNfc]
  | s :: ss => by
    simp only [Checks.allNfc, then_ok, Checks.allNfc_iff, List.mem_cons, forall_eq_or_imp]

theorem canonicalizeTags_validate {o o' : Option (List String)} (h : canonicalizeTags isNfc o = .ok o') :
    validateTags isNfc o' = .ok () := by
  cases o with
  | none => cases h; rfl
  | some tags =>
    obtain ⟨hn, h⟩ := then_ok.1 h
    obtain ⟨out, hs, h⟩ := bind_ok.1 h
    obtain rfl := pure_ok.1 h
    obtain ⟨hperm, hcheck⟩ := canonicalizeSet_ok hs
    refine then_ok.2 ⟨Checks.allNfc_iff.2 fun s hm => ?_, hcheck⟩
    exact (ensure_implies_check isNfc).nfc (Checks.allNfc_iff.1 hn s (hperm.mem_iff.1 hm))

theorem canonicalizeOptGroup_validate {o o' : Option ConditionGroupSpec}
    (h : canonicalizeOptGroup isNfc o = .ok o') : validateOptGroup isNfc o' = .ok () := by
  cases o with
  | none => cases h; rfl
  | some g =>
    obtain ⟨g', h1, h⟩ := bind_ok.1 h
    obtain rfl := pure_ok.1 h
    exact canonicalizeGroup_validate h1

/-- What `canonicalizeRule` changes, and that the rest stays. -/
theorem canonicalizeRule_fields {r r' : RuleIR} (h : canonicalizeRule isNfc r = .ok r') :
    ∃ tags appliesIf decisionTree, canonicalizeTags isNfc r.tags = .ok tags ∧
      canonicalizeOptGroup isNfc r.appliesIf = .ok appliesIf ∧
      canonicalizeEntry isNfc r.decisionTree = .ok decisionTree ∧ r' = { r with tags, appliesIf, decisionTree } := by
  obtain ⟨-, h⟩ := then_ok.1 h
  obtain ⟨-, h⟩ := then_ok.1 h
  obtain ⟨-, h⟩ := then_ok.1 h
  obtain ⟨-, h⟩ := then_ok.1 h
  obtain ⟨tags, h1, h⟩ := bind_ok.1 h
  obtain ⟨appliesIf, h2, h⟩ := bind_ok.1 h
  obtain ⟨decisionTree, h3, h⟩ := bind_ok.1 h
  obtain ⟨-, h⟩ := then_ok.1 h
  obtain ⟨-, h⟩ := then_ok.1 h
  obtain ⟨-, h⟩ := then_ok.1 h
  obtain ⟨-, h⟩ := then_ok.1 h
  exact ⟨tags, appliesIf, decisionTree, h1, h2, h3, (pure_ok.1 h).symm⟩

theorem canonicalizeRule_validate {r r' : RuleIR} (h : canonicalizeRule isNfc r = .ok r') :
    validateRule isNfc r' = .ok () := by
  have hk := ensure_implies_check isNfc
  obtain ⟨h1, h⟩ := then_ok.1 h
  obtain ⟨h2, h⟩ := then_ok.1 h
  obtain ⟨h3, h⟩ := then_ok.1 h
  obtain ⟨h4, h⟩ := then_ok.1 h
  obtain ⟨tags, h5, h⟩ := bind_ok.1 h
  obtain ⟨appliesIf, h6, h⟩ := bind_ok.1 h
  obtain ⟨decisionTree, h7, h⟩ := bind_ok.1 h
  obtain ⟨h8, h⟩ := then_ok.1 h
  obtain ⟨h9, h⟩ := then_ok.1 h
  obtain ⟨h10, h⟩ := then_ok.1 h
  obtain ⟨h11, h⟩ := then_ok.1 h
  obtain rfl := pure_ok.1 h
  simp only [validateRule, then_ok]
  exact ⟨hk.nfc h1, hk.nfc h2, hk.optNfc h3, hk.optNfc h4, canonicalizeTags_validate h5,
    canonicalizeOptGroup_validate h6, canonicalizeEntry_validate h7, hk.obligations h8, hk.docRef h9,
    hk.optWindow h10, hk.provenance h11⟩

/-- Decoding what was encoded gives the canonical rule. -/
theorem decodeRule_encodeRule {r : RuleIR} {bytes : Bytes} (h : encodeRule isNfc r = .ok bytes) :
    ∃ r', canonicalizeRule isNfc r = .ok r' ∧ decodeRule isNfc bytes = .ok r' := by
  obtain ⟨r', h1, h⟩ := bind_ok.1 h
  refine ⟨r', h1, ?_⟩
  have hd := Postcard.ruleIR.dec_enc_nil (mapError_ok.1 h)
  refine bind_ok.2 ⟨(r', []), mapError_ok.2 hd, ?_⟩
  simp only [ne_eq, not_true_eq_false, if_false]
  exact then_ok.2 ⟨canonicalizeRule_validate h1, rfl⟩

end Validate

end Ke
