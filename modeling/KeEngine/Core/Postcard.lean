/-
The wire format of the representation: every record is its fields in declaration order without
framing, an enumeration is its variant number, and the two recursive types (operands and condition
trees, decision trees) are limits of guarded codec transformers.
-/
import KeEngine.Core.Ir

namespace Ke.Postcard

open Wire Wire.Codec

/-! ## Fixed arrays and small enumerations -/

def hash32 : Codec Hash32 := vector u8 32

def sig64 : Codec Sig64 := vector u8 64

def operator : Codec Operator :=
  enum [const .eq, const .notEq, const .in, const .notIn, const .gt, const .lt, const .gte, const .lte,
    const .exists]

def effectiveTimePolicy : Codec EffectiveTimePolicy := enum [const .midnightLocal]

def volatility : Codec Volatility := enum [const .stable, const .volatile]

def artifactKind : Codec ArtifactKind :=
  enum [const .regimePack, const .equivalenceMatrix, const .testCorpus, const .policyBundle, const .intentSpec]

def t2T3Mode : Codec T2T3Mode := enum [const .strict, const .reviewOverride, const .advisory, const .disabled]

def attestationType : Codec AttestationType :=
  enum [const .sourceFidelity, const .interpretation, const .scenarioCoverage, const .equivalenceClaim,
    const .publicationApproval]

/-! ## Operands -/

/-- How deep lists nest in an operand. -/
def scalarDepth : ScalarValue → Nat
  | .str _ => 0
  | .bool _ => 0
  | .decimal _ _ => 0
  | .list items => itemsDepth items + 1
where
  itemsDepth : List ScalarValue → Nat
    | [] => 0
    | v :: vs => max (scalarDepth v) (itemsDepth vs)

def scalarStep (c : Codec ScalarValue) : Codec ScalarValue :=
  enum [
    str.arm ⟨.str, fun | .str s => some s | _ => none, by rintro (_ | _ | _ | _) _ ⟨⟩; rfl⟩,
    bool.arm ⟨.bool, fun | .bool b => some b | _ => none, by rintro (_ | _ | _ | _) _ ⟨⟩; rfl⟩,
    (i128.pair i8).arm ⟨fun p => .decimal p.1 p.2, fun | .decimal m s => some (m, s) | _ => none,
      by rintro (_ | _ | _ | _) _ ⟨⟩; rfl⟩,
    (seq c).arm ⟨.list, fun | .list items => some items | _ => none, by rintro (_ | _ | _ | _) _ ⟨⟩; rfl⟩]

theorem scalarStep_guarded : Guarded scalarStep where
  enc h := EncUpTo.choice varint_enc_ne_nil
    (.cons (ArmEncUpTo.refl _ _) (.cons (ArmEncUpTo.refl _ _) (.cons (ArmEncUpTo.refl _ _)
      (.cons (EncUpTo.arm (EncUpTo.list h)) .nil))))
  dec h := DecLe.choice
    (.cons (ArmDecLe.refl _) (.cons (ArmDecLe.refl _) (.cons (ArmDecLe.refl _)
      (.cons (DecLe.arm (DecLe.list h)) .nil))))

def scalarValue : Codec ScalarValue := fix scalarStep (fun v => scalarDepth v + 1) scalarStep_guarded

/-! ## Conditions -/

def condition : Codec Condition :=
  (str.pair (operator.pair (scalarValue.pair str.option))).iso
    (fun c => (c.field, c.operator, c.value, c.description)) (fun (f, o, v, d) => ⟨f, o, v, d⟩) (fun _ => rfl)

/-- How deep groups nest in a condition tree. -/
def groupDepth : ConditionOrGroup → Nat
  | .condition _ => 0
  | .group all any => max (optDepth all) (optDepth any) + 1
where
  optDepth : Option (List ConditionOrGroup) → Nat
    | none => 0
    | some items => itemsDepth items
  itemsDepth : List ConditionOrGroup → Nat
    | [] => 0
    | x :: xs => max (groupDepth x) (itemsDepth xs)

def groupStep (c : Codec ConditionOrGroup) : Codec ConditionOrGroup :=
  enum [
    condition.arm ⟨.condition, fun | .condition c => some c | _ => none, by rintro (_ | _) _ ⟨⟩; rfl⟩,
    ((seq c).option.pair (seq c).option).arm ⟨fun p => .group p.1 p.2,
      fun | .group all any => some (all, any) | _ => none, by rintro (_ | _) _ ⟨⟩; rfl⟩]

theorem groupStep_guarded : Guarded groupStep where
  enc h := EncUpTo.choice varint_enc_ne_nil
    (.cons (ArmEncUpTo.refl _ _)
      (.cons (EncUpTo.arm ((EncUpTo.list h).option.pair (EncUpTo.list h).option)) .nil))
  dec h := DecLe.choice
    (.cons (ArmDecLe.refl _) (.cons (DecLe.arm ((DecLe.list h).option.pair (DecLe.list h).option)) .nil))

def conditionOrGroup : Codec ConditionOrGroup := fix groupStep (fun x => groupDepth x + 1) groupStep_guarded

def conditionGroupSpec : Codec ConditionGroupSpec :=
  ((seq conditionOrGroup).option.pair (seq conditionOrGroup).option).iso
    (fun g => (g.all, g.any)) (fun (all, any) => ⟨all, any⟩) (fun _ => rfl)

/-! ## Spans, dates, obligations -/

def documentRef : Codec DocumentRef :=
  (str.pair (str.option.pair (str.option.pair ((seq str).pair ((seq u32).pair str.option))))).iso
    (fun d => (d.documentId, d.article, d.section_, d.paragraphs, d.pages, d.url))
    (fun (i, a, s, ps, gs, u) => ⟨i, a, s, ps, gs, u⟩) (fun _ => rfl)

def byteRange : Codec ByteRange :=
  (u64.pair u64).iso (fun r => (r.start, r.end_)) (fun (s, e) => ⟨s, e⟩) (fun _ => rfl)

def sourceSpan : Codec SourceSpan :=
  (str.pair (str.option.pair (str.option.pair (str.option.pair ((seq u32).option.pair
      (byteRange.option.pair hash32.option)))))).iso
    (fun s => (s.documentId, s.article, s.section_, s.paragraph, s.pages, s.byteRange, s.textHash))
    (fun (i, a, s, p, gs, r, t) => ⟨i, a, s, p, gs, r, t⟩) (fun _ => rfl)

def jurisdictionDate : Codec JurisdictionDate :=
  (i16.pair (u8.pair u8)).iso (fun d => (d.year, d.month, d.day)) (fun (y, m, d) => ⟨y, m, d⟩) (fun _ => rfl)

def timeZone : Codec TimeZone :=
  (str.pair str).iso (fun z => (z.name, z.tzDataVersion)) (fun (n, v) => ⟨n, v⟩) (fun _ => rfl)

def effectiveWindow : Codec EffectiveWindow :=
  (jurisdictionDate.pair (jurisdictionDate.option.pair (timeZone.option.pair effectiveTimePolicy.option))).iso
    (fun w => (w.effectiveFrom, w.effectiveTo, w.jurisdictionTimeZone, w.effectiveTimePolicy))
    (fun (f, t, z, p) => ⟨f, t, z, p⟩) (fun _ => rfl)

def obligationSpec : Codec ObligationSpec :=
  (str.pair (str.option.pair (str.option.pair sourceSpan.option))).iso
    (fun o => (o.id, o.description, o.deadline, o.sourceSpan)) (fun (i, d, l, s) => ⟨i, d, l, s⟩) (fun _ => rfl)

/-! ## Decisions and rules -/

def decisionLeaf : Codec DecisionLeaf :=
  (str.pair ((seq obligationSpec).option.pair (str.option.pair sourceSpan.option))).iso
    (fun l => (l.result, l.obligations, l.notes, l.sourceSpan)) (fun (r, o, n, s) => ⟨r, o, n, s⟩) (fun _ => rfl)

def entryDepth : DecisionEntry → Nat
  | .leaf _ => 0
  | .node _ _ t f _ => max (entryDepth t) (entryDepth f) + 1

def entryStep (c : Codec DecisionEntry) : Codec DecisionEntry :=
  enum [
    (str.pair (condition.pair (c.pair (c.pair sourceSpan.option)))).arm ⟨fun (i, k, t, f, s) => .node i k t f s,
      fun | .node i k t f s => some (i, k, t, f, s) | _ => none, by rintro (_ | _) _ ⟨⟩; rfl⟩,
    decisionLeaf.arm ⟨.leaf, fun | .leaf l => some l | _ => none, by rintro (_ | _) _ ⟨⟩; rfl⟩]

theorem entryStep_guarded : Guarded entryStep where
  enc h := EncUpTo.choice varint_enc_ne_nil
    (.cons (EncUpTo.arm ((EncUpTo.refl _ _).pair ((EncUpTo.refl _ _).pair (h.pair (h.pair (EncUpTo.refl _ _))))))
      (.cons (ArmEncUpTo.refl _ _) .nil))
  dec h := DecLe.choice
    (.cons (DecLe.arm ((DecLe.refl _).pair ((DecLe.refl _).pair (h.pair (h.pair (DecLe.refl _))))))
      (.cons (ArmDecLe.refl _) .nil))

def decisionEntry : Codec DecisionEntry := fix entryStep (fun e => entryDepth e + 1) entryStep_guarded

def provenanceMarker : Codec ProvenanceMarker :=
  enum [
    str.option.arm ⟨.candidate, fun | .candidate p => some p | _ => none,
      by rintro (_ | _ | _ | _ | _ | _ | _) _ ⟨⟩; rfl⟩,
    const .structurallyVerified,
    str.arm ⟨.mlChecked, fun | .mlChecked v => some v | _ => none,
      by rintro (_ | _ | _ | _ | _ | _ | _) _ ⟨⟩; rfl⟩,
    u16.arm ⟨.expertAttested, fun | .expertAttested n => some n | _ => none,
      by rintro (_ | _ | _ | _ | _ | _ | _) _ ⟨⟩; rfl⟩,
    str.arm ⟨.published, fun | .published e => some e | _ => none,
      by rintro (_ | _ | _ | _ | _ | _ | _) _ ⟨⟩; rfl⟩,
    const .deprecated,
    const .revoked]

def ruleIR : Codec RuleIR :=
  (str.pair (str.pair (str.option.pair ((seq str).option.pair (conditionGroupSpec.option.pair
      (decisionEntry.pair ((seq obligationSpec).pair (documentRef.pair (str.option.pair
        (effectiveWindow.option.pair provenanceMarker)))))))))).iso
    (fun r => (r.ruleId, r.ruleVersion, r.description, r.tags, r.appliesIf, r.decisionTree, r.obligations,
      r.source, r.interpretationNotes, r.effectiveWindow, r.provenance))
    (fun (i, v, d, t, a, e, o, s, n, w, p) => ⟨i, v, d, t, a, e, o, s, n, w, p⟩) (fun _ => rfl)

/-! ## Intent payload and manifest -/

def authorizationCriterion : Codec AuthorizationCriterion :=
  (str.pair (scalarValue.pair volatility)).iso (fun c => (c.name, c.threshold, c.volatility))
    (fun (n, t, v) => ⟨n, t, v⟩) (fun _ => rfl)

def idempotencyDef : Codec IdempotencyDef :=
  ((seq str).pair str).iso (fun d => (d.keyFields, d.scope)) (fun (k, s) => ⟨k, s⟩) (fun _ => rfl)

def intentSpecIR : Codec IntentSpecIR :=
  (str.pair ((seq authorizationCriterion).pair (idempotencyDef.pair (seq sourceSpan)))).iso
    (fun i => (i.actionClass, i.criteria, i.idempotency, i.sourceSpans))
    (fun (a, c, d, s) => ⟨a, c, d, s⟩) (fun _ => rfl)

def semVer : Codec SemVer :=
  (u16.pair (u16.pair u16)).iso (fun v => (v.major, v.minor, v.patch)) (fun (a, b, c) => ⟨a, b, c⟩) (fun _ => rfl)

def manifest : Codec Manifest :=
  (artifactKind.pair (hash32.pair (str.pair (jurisdictionDate.pair (jurisdictionDate.option.pair
      (semVer.pair (hash32.pair (semVer.pair (str.pair (str.pair (hash32.pair (hash32.pair str)))))))))))).iso
    (fun m => (m.artifactKind, m.artifactHash, m.regimeId, m.effectiveFrom, m.effectiveTo, m.compilerVersion,
      m.compilerBuildHash, m.irSchemaVersion, m.codecVersion, m.canonicalizationVersion, m.corpusRootHash,
      m.sourceCorpusHash, m.attestationPolicyVersion))
    (fun (k, h, r, f, t, c, b, i, w, z, cr, sr, p) => ⟨k, h, r, f, t, c, b, i, w, z, cr, sr, p⟩) (fun _ => rfl)

end Ke.Postcard
