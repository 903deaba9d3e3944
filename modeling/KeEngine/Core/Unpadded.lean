/-
Readers of every canonical type that refuse padded varints, and with them the exact bytes for which a
strict decoder is the inverse of the encoder.
-/
import KeEngine.Core.Normal

namespace Ke.Postcard

open Wire Wire.Codec

/-! ## Fixed arrays and small enumerations -/

def hash32Unpadded : Unpadded hash32 := Unpadded.u8.vector 32

def operatorUnpadded : Unpadded operator :=
  Unpadded.consts Operator.ctorIdx [.eq, .notEq, .in, .notIn, .gt, .lt, .gte, .lte, .exists] (by decide)

def effectiveTimePolicyUnpadded : Unpadded effectiveTimePolicy :=
  Unpadded.consts EffectiveTimePolicy.ctorIdx [.midnightLocal] (by decide)

def volatilityUnpadded : Unpadded volatility := Unpadded.consts Volatility.ctorIdx [.stable, .volatile] (by decide)

def artifactKindUnpadded : Unpadded artifactKind :=
  Unpadded.consts ArtifactKind.ctorIdx [.regimePack, .equivalenceMatrix, .testCorpus, .policyBundle, .intentSpec]
    (by decide)

def t2T3ModeUnpadded : Unpadded t2T3Mode :=
  Unpadded.consts T2T3Mode.ctorIdx [.strict, .reviewOverride, .advisory, .disabled] (by decide)

def attestationTypeUnpadded : Unpadded attestationType :=
  Unpadded.consts AttestationType.ctorIdx
    [.sourceFidelity, .interpretation, .scenarioCoverage, .equivalenceClaim, .publicationApproval] (by decide)

def revocationPolicyUnpadded : Unpadded revocationPolicy :=
  Unpadded.consts RevocationPolicy.ctorIdx [.hardStop, .finishPinned, .auditOnly] (by decide)

/-! ## Operands -/

theorem scalarDepth_le {v : ScalarValue} : ∀ {items : List ScalarValue}, v ∈ items →
    scalarDepth v ≤ scalarDepth.itemsDepth items
  | w :: ws, h => by
    unfold scalarDepth.itemsDepth
    rcases List.mem_cons.1 h with rfl | h
    · exact le_max_left _ _
    · exact (scalarDepth_le h).trans (le_max_right _ _)

/-- Two codecs that agree on the operands of a rank agree, one step further, on the next. -/
theorem scalarStep_rank {k : Nat} {c d : Codec ScalarValue}
    (h : ∀ v, scalarDepth v + 1 ≤ k → c.enc v = d.enc v) (v : ScalarValue) (hv : scalarDepth v + 1 ≤ k + 1) :
    (scalarStep c).enc v = (scalarStep d).enc v := by
  cases v with
  | str s => rfl
  | bool b => rfl
  | decimal m s => rfl
  | list items =>
    have hitems : (seq c).enc items = (seq d).enc items := by
      refine Unpadded.seq_congr fun w hw => h w ?_
      have hle := scalarDepth_le hw
      unfold scalarDepth at hv
      omega
    show (do let x ← varint32.enc 3; let y ← (seq c).enc items; pure (x ++ y)) = _
    rw [hitems]
    rfl

def scalarUnpadded : Unpadded scalarValue :=
  Unpadded.fix
    (fun u => @Unpadded.enum _ _ ScalarValue.ctorIdx
      (.arm Unpadded.str (fun _ => rfl) (fun _ => rfl)
      (.arm Unpadded.bool (fun _ => rfl) (fun _ => rfl)
      (.arm (Unpadded.i128.pair Unpadded.i8) (fun _ => rfl) (fun _ => rfl)
      (.arm u.seq (fun _ => rfl) (fun _ => rfl) .nil)))))
    (fun _ => Nat.succ_pos _) scalarStep_rank

/-! ## Conditions -/

def conditionUnpadded : Unpadded condition :=
  (Unpadded.str.pair (operatorUnpadded.pair (scalarUnpadded.pair Unpadded.str.option))).iso fun _ => rfl

theorem groupDepth_le {x : ConditionOrGroup} : ∀ {items : List ConditionOrGroup}, x ∈ items →
    groupDepth x ≤ groupDepth.itemsDepth items
  | y :: ys, h => by
    unfold groupDepth.itemsDepth
    rcases List.mem_cons.1 h with rfl | h
    · exact le_max_left _ _
    · exact (groupDepth_le h).trans (le_max_right _ _)

theorem optItems_congr {k : Nat} {c d : Codec ConditionOrGroup} (h : ∀ x, groupDepth x + 1 ≤ k → c.enc x = d.enc x)
    {o : Option (List ConditionOrGroup)} (ho : groupDepth.optDepth o + 1 ≤ k) :
    (seq c).option.enc o = (seq d).option.enc o := by
  cases o with
  | none => rfl
  | some items =>
    have hitems : (seq c).enc items = (seq d).enc items := by
      refine Unpadded.seq_congr fun x hx => h x ?_
      have hle := groupDepth_le hx
      unfold groupDepth.optDepth at ho
      omega
    show (do let x ← (seq c).enc items; pure (1 :: x)) = _
    rw [hitems]
    rfl

theorem groupStep_rank {k : Nat} {c d : Codec ConditionOrGroup}
    (h : ∀ x, groupDepth x + 1 ≤ k → c.enc x = d.enc x) (x : ConditionOrGroup) (hx : groupDepth x + 1 ≤ k + 1) :
    (groupStep c).enc x = (groupStep d).enc x := by
  cases x with
  | condition _ => rfl
  | group all any =>
    unfold groupDepth at hx
    have hall : (seq c).option.enc all = (seq d).option.enc all := optItems_congr h (by omega)
    have hany : (seq c).option.enc any = (seq d).option.enc any := optItems_congr h (by omega)
    show (do
      let x ← varint32.enc 1
      let y ← (do
        let a ← (seq c).option.enc all
        let b ← (seq c).option.enc any
        pure (a ++ b))
      pure (x ++ y)) = _
    rw [hall, hany]
    rfl

def condOrGroupUnpadded : Unpadded conditionOrGroup :=
  Unpadded.fix
    (fun u => @Unpadded.enum _ _ ConditionOrGroup.ctorIdx
      (.arm conditionUnpadded (fun _ => rfl) (fun _ => rfl)
      (.arm (u.seq.option.pair u.seq.option) (fun _ => rfl) (fun _ => rfl) .nil)))
    (fun _ => Nat.succ_pos _) groupStep_rank

def conditionGroupUnpadded : Unpadded conditionGroupSpec :=
  (condOrGroupUnpadded.seq.option.pair condOrGroupUnpadded.seq.option).iso fun _ => rfl

/-! ## Spans, dates, obligations -/

def documentRefUnpadded : Unpadded documentRef :=
  (Unpadded.str.pair (Unpadded.str.option.pair (Unpadded.str.option.pair (Unpadded.str.seq.pair
    (Unpadded.u32.seq.pair Unpadded.str.option))))).iso fun _ => rfl

def byteRangeUnpadded : Unpadded byteRange := (Unpadded.u64.pair Unpadded.u64).iso fun _ => rfl

def sourceSpanUnpadded : Unpadded sourceSpan :=
  (Unpadded.str.pair (Unpadded.str.option.pair (Unpadded.str.option.pair (Unpadded.str.option.pair
    (Unpadded.u32.seq.option.pair (byteRangeUnpadded.option.pair hash32Unpadded.option)))))).iso fun _ => rfl

def jurisdictionDateUnpadded : Unpadded jurisdictionDate :=
  (Unpadded.i16.pair (Unpadded.u8.pair Unpadded.u8)).iso fun _ => rfl

def timeZoneUnpadded : Unpadded timeZone := (Unpadded.str.pair Unpadded.str).iso fun _ => rfl

def effectiveWindowUnpadded : Unpadded effectiveWindow :=
  (jurisdictionDateUnpadded.pair (jurisdictionDateUnpadded.option.pair (timeZoneUnpadded.option.pair
    effectiveTimePolicyUnpadded.option))).iso fun _ => rfl

def obligationSpecUnpadded : Unpadded obligationSpec :=
  (Unpadded.str.pair (Unpadded.str.option.pair (Unpadded.str.option.pair sourceSpanUnpadded.option))).iso fun _ => rfl

/-! ## Decisions and rules -/

def decisionLeafUnpadded : Unpadded decisionLeaf :=
  (Unpadded.str.pair (obligationSpecUnpadded.seq.option.pair (Unpadded.str.option.pair
    sourceSpanUnpadded.option))).iso fun _ => rfl

theorem entryStep_rank {k : Nat} {c d : Codec DecisionEntry}
    (h : ∀ e, entryDepth e + 1 ≤ k → c.enc e = d.enc e) (e : DecisionEntry) (he : entryDepth e + 1 ≤ k + 1) :
    (entryStep c).enc e = (entryStep d).enc e := by
  cases e with
  | leaf _ => rfl
  | node nodeId cond t f span =>
    unfold entryDepth at he
    have ht : c.enc t = d.enc t := h t (by omega)
    have hf : c.enc f = d.enc f := h f (by omega)
    have hbranches : (c.pair (c.pair sourceSpan.option)).enc (t, f, span) =
        (d.pair (d.pair sourceSpan.option)).enc (t, f, span) := by
      show (do
        let x ← c.enc t
        let y ← (do
          let a ← c.enc f
          let b ← sourceSpan.option.enc span
          pure (a ++ b))
        pure (x ++ y)) = _
      rw [ht, hf]
      rfl
    show (do
      let x ← varint32.enc 0
      let y ← (do
        let a ← str.enc nodeId
        let b ← (do
          let u ← condition.enc cond
          let v ← (c.pair (c.pair sourceSpan.option)).enc (t, f, span)
          pure (u ++ v))
        pure (a ++ b))
      pure (x ++ y)) = _
    rw [hbranches]
    rfl

def decisionEntryUnpadded : Unpadded decisionEntry :=
  Unpadded.fix
    (fun u => @Unpadded.enum _ _ DecisionEntry.ctorIdx
      (.arm (Unpadded.str.pair (conditionUnpadded.pair (u.pair (u.pair sourceSpanUnpadded.option)))) (fun _ => rfl)
        (fun _ => rfl)
      (.arm decisionLeafUnpadded (fun _ => rfl) (fun _ => rfl) .nil)))
    (fun _ => Nat.succ_pos _) entryStep_rank

def provenanceUnpadded : Unpadded provenanceMarker :=
  @Unpadded.enum _ _ ProvenanceMarker.ctorIdx
    (.arm Unpadded.str.option (fun _ => rfl) (fun _ => rfl)
    (.const rfl
    (.arm Unpadded.str (fun _ => rfl) (fun _ => rfl)
    (.arm Unpadded.u16 (fun _ => rfl) (fun _ => rfl)
    (.arm Unpadded.str (fun _ => rfl) (fun _ => rfl)
    (.const rfl
    (.const rfl .nil)))))))

def ruleUnpadded : Unpadded ruleIR :=
  (Unpadded.str.pair (Unpadded.str.pair (Unpadded.str.option.pair (Unpadded.str.seq.option.pair
    (conditionGroupUnpadded.option.pair (decisionEntryUnpadded.pair (obligationSpecUnpadded.seq.pair
      (documentRefUnpadded.pair (Unpadded.str.option.pair (effectiveWindowUnpadded.option.pair
        provenanceUnpadded)))))))))).iso fun _ => rfl

/-! ## Intent payload, manifest and policy bundle -/

def criterionUnpadded : Unpadded authorizationCriterion :=
  (Unpadded.str.pair (scalarUnpadded.pair volatilityUnpadded)).iso fun _ => rfl

def idempotencyUnpadded : Unpadded idempotencyDef := (Unpadded.str.seq.pair Unpadded.str).iso fun _ => rfl

def intentSpecUnpadded : Unpadded intentSpecIR :=
  (Unpadded.str.pair (criterionUnpadded.seq.pair (idempotencyUnpadded.pair sourceSpanUnpadded.seq))).iso fun _ => rfl

def semVerUnpadded : Unpadded semVer := (Unpadded.u16.pair (Unpadded.u16.pair Unpadded.u16)).iso fun _ => rfl

def manifestUnpadded : Unpadded manifest :=
  (artifactKindUnpadded.pair (hash32Unpadded.pair (Unpadded.str.pair (jurisdictionDateUnpadded.pair
    (jurisdictionDateUnpadded.option.pair (semVerUnpadded.pair (hash32Unpadded.pair (semVerUnpadded.pair
      (Unpadded.str.pair (Unpadded.str.pair (hash32Unpadded.pair (hash32Unpadded.pair
        Unpadded.str)))))))))))).iso fun _ => rfl

def attestationCountUnpadded : Unpadded attestationCount :=
  (attestationTypeUnpadded.pair Unpadded.u8).iso fun _ => rfl

def verificationPolicyUnpadded : Unpadded verificationPolicy :=
  (t2T3ModeUnpadded.pair (attestationTypeUnpadded.seq.pair attestationCountUnpadded.seq)).iso fun _ => rfl

def policyUnpadded : Unpadded policyBundle :=
  (Unpadded.str.pair (verificationPolicyUnpadded.pair (revocationPolicyUnpadded.pair
    effectiveWindowUnpadded))).iso fun _ => rfl

end Ke.Postcard

namespace Ke

open Wire Postcard

/-! ## The bytes that are given back -/

/-- Encoding what a strict decoder accepted gives the bytes back exactly when no varint in them is
padded. -/
theorem decode_reencodes_iff (isNfc : String → Bool) :
    (∀ bytes r, decodeRule isNfc bytes = .ok r → (encodeRule isNfc r = .ok bytes ↔ ruleUnpadded.accepts bytes = true)) ∧
      (∀ bytes p, decodePolicy isNfc bytes = .ok p →
        (encodePolicy isNfc p = .ok bytes ↔ policyUnpadded.accepts bytes = true)) ∧
      ∀ bytes m, decodeManifest isNfc bytes = .ok m →
        (encodeManifest isNfc m = .ok bytes ↔ manifestUnpadded.accepts bytes = true) := by
  refine ⟨fun bytes r h => ?_, fun bytes p h => ?_, fun bytes m h => ?_⟩
  · rw [encodeRule_iff]
    exact (decodeRule_iff.1 h).writes_iff ruleUnpadded
  · rw [encodePolicy_iff]
    exact (decodePolicy_iff.1 h).writes_iff policyUnpadded
  · rw [encodeManifest_iff]
    exact (decodeManifest_iff.1 h).writes_iff manifestUnpadded

/-- A leaf-only rule, behind the length of its identifier. -/
def bareRuleTail : Bytes :=
  [114, 3, 49, 46, 48, 0, 0, 0, 1, 6, 112, 101, 114, 109, 105, 116, 0, 0, 0, 0, 3, 100, 111, 99, 0, 0, 0, 0, 0, 0, 0,
    0, 0]

theorem decode_reencodes_iff_bareRule : ∃ r, decodeRule (fun _ => true) (1 :: bareRuleTail) = .ok r ∧
    encodeRule (fun _ => true) r = .ok (1 :: bareRuleTail) := by
  have hdec : (decodeRule (fun _ => true) (1 :: bareRuleTail)).isOk = true := by decide +kernel
  obtain ⟨r, h⟩ := exists_ok hdec
  exact ⟨r, h, ((decode_reencodes_iff fun _ => true).1 _ r h).2 (by decide +kernel)⟩

/-- The length 1 in two bytes is accepted and not given back. -/
theorem paddedRule_not_reencoded : ∃ r, decodeRule (fun _ => true) (0x81 :: 0x00 :: bareRuleTail) = .ok r ∧
    encodeRule (fun _ => true) r ≠ .ok (0x81 :: 0x00 :: bareRuleTail) := by
  have hdec : (decodeRule (fun _ => true) (0x81 :: 0x00 :: bareRuleTail)).isOk = true := by decide +kernel
  obtain ⟨r, h⟩ := exists_ok hdec
  refine ⟨r, h, fun henc => ?_⟩
  have haccepts := ((decodeRule_iff.1 h).writes_iff ruleUnpadded).1 (encodeRule_iff.1 henc)
  revert haccepts
  decide +kernel

end Ke
