/-
The canonical profile over intent payloads. Rules are made canonical when they are assembled and
checked when they are decoded; an intent payload is taken as it comes on both sides, so an artifact is
in the profile when its intent was, and a threshold in another scale moves the content address.
-/
import KeEngine.Artifact.Assembly

namespace Ke

open Wire

/-! ## The profile -/

/-- Text in NFC and thresholds in canonical decimals, by the checks that rules undergo. -/
structure IntentProfile (isNfc : String → Bool) (ir : IntentSpecIR) : Prop where
  actionClass : (check isNfc).nfc ir.actionClass = .ok ()
  names : ∀ criterion ∈ ir.criteria, (check isNfc).nfc criterion.name = .ok ()
  thresholds : ∀ criterion ∈ ir.criteria, validateScalar isNfc criterion.threshold = .ok ()
  keyFields : ∀ field ∈ ir.idempotency.keyFields, (check isNfc).nfc field = .ok ()
  scope : (check isNfc).nfc ir.idempotency.scope = .ok ()
  sourceSpans : ∀ span ∈ ir.sourceSpans, (check isNfc).sourceSpan span = .ok ()

/-- Every intent that a payload carries is in the profile. -/
def ArtifactPayload.InProfile (isNfc : String → Bool) (payload : ArtifactPayload) : Prop :=
  ∀ ir, payload = .intentSpec ir → IntentProfile isNfc ir

/-! ## Equal thresholds -/

mutual

/-- Two scalars that differ at most in how their decimals are written. -/
inductive SameValue : ScalarValue → ScalarValue → Prop
  | str (s : String) : SameValue (.str s) (.str s)
  | bool (b : Bool) : SameValue (.bool b) (.bool b)
  | decimal {m m' : I128} {s s' : I8} (h : decimalValue m s = decimalValue m' s') :
      SameValue (.decimal m s) (.decimal m' s')
  | list {items items' : List ScalarValue} (h : SameValues items items') : SameValue (.list items) (.list items')

inductive SameValues : List ScalarValue → List ScalarValue → Prop
  | nil : SameValues [] []
  | cons {v v' : ScalarValue} {vs vs' : List ScalarValue} (hv : SameValue v v') (hvs : SameValues vs vs') :
      SameValues (v :: vs) (v' :: vs')

end

/-- The scales of the decimals of a scalar, from left to right. -/
def ScalarValue.scales : ScalarValue → List I8
  | .str _ => []
  | .bool _ => []
  | .decimal _ scale => [scale]
  | .list items => all items
where
  all : List ScalarValue → List I8
    | [] => []
    | v :: vs => v.scales ++ all vs

mutual

theorem SameValue.length_scales : ∀ {v v' : ScalarValue}, SameValue v v' → v.scales.length = v'.scales.length
  | _, _, .str _ => rfl
  | _, _, .bool _ => rfl
  | _, _, .decimal _ => rfl
  | _, _, .list h => h.length_scales

theorem SameValues.length_scales : ∀ {vs vs' : List ScalarValue}, SameValues vs vs' →
    (ScalarValue.scales.all vs).length = (ScalarValue.scales.all vs').length
  | _, _, .nil => rfl
  | _, _, .cons hv hvs => by
    simp only [ScalarValue.scales.all, List.length_append]
    rw [hv.length_scales, hvs.length_scales]

end

/-- Of one scale, decimals of one value have one mantissa. -/
theorem mantissa_eq_of_value {m m' : I128} {s : I8} (h : decimalValue m s = decimalValue m' s) : m = m' := by
  unfold decimalValue at h
  have hpow : (10 : ℚ) ^ (-s.val) ≠ 0 := zpow_ne_zero _ (by norm_num)
  exact SInt.ext (by exact_mod_cast mul_right_cancel₀ hpow h)

mutual

/-- Written with the same scales, they do not differ. -/
theorem SameValue.eq_of_scales : ∀ {v v' : ScalarValue}, SameValue v v' → v.scales = v'.scales → v = v'
  | _, _, .str _, _ => rfl
  | _, _, .bool _, _ => rfl
  | _, _, .decimal h, hscales => by
    obtain rfl := (List.cons.inj hscales).1
    rw [mantissa_eq_of_value h]
  | _, _, .list h, hscales => congrArg _ (h.eq_of_scales hscales)

theorem SameValues.eq_of_scales : ∀ {vs vs' : List ScalarValue}, SameValues vs vs' →
    ScalarValue.scales.all vs = ScalarValue.scales.all vs' → vs = vs'
  | _, _, .nil, _ => rfl
  | _, _, .cons hv hvs, hscales => by
    obtain ⟨hfirst, hrest⟩ := List.append_inj hscales hv.length_scales
    rw [hv.eq_of_scales hfirst, hvs.eq_of_scales hrest]

end

/-- Two criteria that differ at most in how the decimals of their thresholds are written. -/
structure SameCriterion (c c' : AuthorizationCriterion) : Prop where
  name : c.name = c'.name
  threshold : SameValue c.threshold c'.threshold
  volatility : c.volatility = c'.volatility

/-- Two intents that differ at most in how the decimals of their thresholds are written. -/
structure SameThresholds (ir ir' : IntentSpecIR) : Prop where
  actionClass : ir.actionClass = ir'.actionClass
  criteria : List.Forall₂ SameCriterion ir.criteria ir'.criteria
  idempotency : ir.idempotency = ir'.idempotency
  sourceSpans : ir.sourceSpans = ir'.sourceSpans

/-- The scales of all thresholds, in declared order. -/
def IntentSpecIR.scales (ir : IntentSpecIR) : List I8 := ir.criteria.flatMap (·.threshold.scales)

theorem SameCriterion.eq_of_scales {c c' : AuthorizationCriterion} (h : SameCriterion c c')
    (hscales : c.threshold.scales = c'.threshold.scales) : c = c' := by
  have hthreshold := h.threshold.eq_of_scales hscales
  cases c
  cases c'
  simp only [AuthorizationCriterion.mk.injEq]
  exact ⟨h.name, hthreshold, h.volatility⟩

theorem criteria_eq_of_scales {cs cs' : List AuthorizationCriterion} (h : List.Forall₂ SameCriterion cs cs')
    (hscales : cs.flatMap (·.threshold.scales) = cs'.flatMap (·.threshold.scales)) : cs = cs' := by
  induction h with
  | nil => rfl
  | @cons c c' _ _ hc _ ih =>
    rw [List.flatMap_cons, List.flatMap_cons] at hscales
    obtain ⟨hfirst, hrest⟩ := List.append_inj hscales hc.threshold.length_scales
    rw [ih hrest, hc.eq_of_scales hfirst]

/-- Such intents are one exactly when their thresholds are written with the same scales. -/
theorem SameThresholds.scales_eq_iff {ir ir' : IntentSpecIR} (h : SameThresholds ir ir') :
    ir.scales = ir'.scales ↔ ir = ir' := by
  constructor
  · intro hscales
    have hcriteria := criteria_eq_of_scales h.criteria hscales
    cases ir
    cases ir'
    simp only [IntentSpecIR.mk.injEq]
    exact ⟨h.actionClass, hcriteria, h.idempotency, h.sourceSpans⟩
  · rintro rfl
    rfl

/-! ## What assembly hashes -/

section

variable {X : Externals} {manifest : Manifest} {ir ir' : IntentSpecIR} {auditVersions : AuditVersions} {seed : Hash32}
  {keyId : String} {a : Artifact} {kew bytes : Bytes} {n : Nat}

/-- The envelope of an intent, with the slot of its hash zeroed. -/
def intentEnvelope (manifest : Manifest) (ir : IntentSpecIR) (auditVersions : AuditVersions) : Envelope :=
  ⟨{ manifest with artifactHash := zeroHash }, .intentSpec ir, ⟨[]⟩, auditVersions, none⟩

/-- An intent is assembled under the hash of its zeroed envelope, as it is. -/
theorem assembleIntent_hash_iff {hash : Hash32} :
    (∃ a kew, assemblePayload X manifest (.intentSpec ir) auditVersions seed keyId = .ok (a, kew) ∧
      a.manifest.artifactHash = hash) ↔
      canonicalizeManifest X.isNfc { manifest with artifactHash := zeroHash } = .ok () ∧
        (∃ k, Codec.str.enc keyId = .ok k) ∧
        ∃ zeroed, Postcard.envelope.enc (intentEnvelope manifest ir auditVersions) = .ok zeroed ∧
          X.blake3 zeroed = hash := by
  constructor
  · rintro ⟨a, kew, h, rfl⟩
    obtain ⟨⟨⟩, hm, h⟩ := bind_ok.1 h
    obtain ⟨_, hp, h⟩ := bind_ok.1 h
    cases hp
    obtain ⟨zeroed, hz, h⟩ := bind_ok.1 h
    obtain ⟨s, hs, h⟩ := bind_ok.1 h
    obtain ⟨k, -, hk, -, -⟩ := Codec.pair_enc_ok.1 (mapError_ok.1 hs)
    obtain ⟨_, _, h⟩ := bind_ok.1 h
    obtain ⟨_, _, h⟩ := bind_ok.1 h
    obtain ⟨rfl, -⟩ := Prod.mk.inj (pure_ok.1 h)
    exact ⟨mapError_ok.1 hm, ⟨k, hk⟩, zeroed, mapError_ok.1 hz, rfl⟩
  · rintro ⟨hm, ⟨k, hk⟩, zeroed, hz, rfl⟩
    -- a signature encodes when the name of its key does
    have hs : ∀ sig, Postcard.compilerSignature.enc ⟨keyId, sig⟩ = .ok (k ++ sig.1) := fun sig =>
      Codec.pair_enc_ok.2 ⟨k, sig.1, hk, sig64_enc sig, rfl⟩
    exact ⟨_, _, bind_ok.2 ⟨(), mapError_ok.2 hm, bind_ok.2 ⟨_, rfl, bind_ok.2 ⟨zeroed, mapError_ok.2 hz,
      bind_ok.2 ⟨_, mapError_ok.2 (hs _), bind_ok.2 ⟨_, rfl, bind_ok.2 ⟨_, rfl, rfl⟩⟩⟩⟩⟩⟩, rfl⟩

/-- Two envelopes of which the one encodes to other bytes than the other, of the same hash. -/
def EnvelopesCollide (X : Externals) (e e' : Envelope) : Prop :=
  ∃ bs bs', Postcard.envelope.enc e = .ok bs ∧ Postcard.envelope.enc e' = .ok bs' ∧ bs ≠ bs' ∧
    X.blake3 bs = X.blake3 bs'

theorem intentEnvelope_injective
    (h : intentEnvelope manifest ir auditVersions = intentEnvelope manifest ir' auditVersions) :
    ir = ir' := by
  have hpayload : ArtifactPayload.intentSpec ir = .intentSpec ir' := congrArg Envelope.payload h
  cases hpayload
  rfl

/-- The address of an intent is that of another writing of its thresholds exactly when the scales are
the same, or the two envelopes collide. -/
theorem assembleIntent_same_iff (hsame : SameThresholds ir ir')
    (h : assemblePayload X manifest (.intentSpec ir) auditVersions seed keyId = .ok (a, kew)) :
    (∃ a' kew', assemblePayload X manifest (.intentSpec ir') auditVersions seed keyId = .ok (a', kew') ∧
      a'.manifest.artifactHash = a.manifest.artifactHash) ↔
      ir.scales = ir'.scales ∨
        EnvelopesCollide X (intentEnvelope manifest ir auditVersions) (intentEnvelope manifest ir' auditVersions) := by
  obtain ⟨hm, hk, zeroed, hz, hhash⟩ := assembleIntent_hash_iff.1 ⟨a, kew, h, rfl⟩
  rw [assembleIntent_hash_iff, hsame.scales_eq_iff]
  constructor
  · rintro ⟨-, -, zeroed', hz', hhash'⟩
    by_cases heq : zeroed = zeroed'
    · subst heq
      exact .inl (intentEnvelope_injective (Codec.enc_injective _ hz hz'))
    · exact .inr ⟨zeroed, zeroed', hz, hz', heq, hhash.trans hhash'.symm⟩
  · rintro (rfl | ⟨bs, zeroed', hbs, hz', -, hcollide⟩)
    · exact ⟨hm, hk, zeroed, hz, hhash⟩
    · obtain rfl := Except.ok.inj (hz.symm.trans hbs)
      exact ⟨hm, hk, zeroed', hz', hcollide.symm.trans hhash⟩

theorem assembleIntent_payload (h : assemblePayload X manifest (.intentSpec ir) auditVersions seed keyId =
    .ok (a, kew)) :
    a.payload = .intentSpec ir := by
  obtain ⟨index, hp⟩ := (assemblePayload_ok h).payload_eq
  exact (Prod.mk.inj (pure_ok.1 hp)).1.symm

/-- Decoding gives the payload as the envelope spells it. -/
theorem decodeArtifact_payload (h : decodeArtifact X bytes = .ok (a, n)) :
    ∃ e rest, Postcard.envelope.dec bytes = .ok (e, rest) ∧ a.payload = e.payload := by
  obtain ⟨⟨e, rest⟩, he, h⟩ := bind_ok.1 h
  obtain ⟨_, _, h⟩ := bind_ok.1 h
  obtain ⟨_, _, h⟩ := bind_ok.1 h
  obtain ⟨_, _, h⟩ := bind_ok.1 h
  obtain ⟨_, h⟩ := throw_else.1 h
  obtain ⟨_, h⟩ := then_ok.1 h
  obtain ⟨_, h⟩ := then_ok.1 h
  obtain ⟨rfl, -⟩ := Prod.mk.inj (pure_ok.1 h)
  exact ⟨e, rest, mapError_ok.1 he, rfl⟩

theorem ArtifactPayload.inProfile_intentSpec :
    (ArtifactPayload.intentSpec ir).InProfile X.isNfc ↔ IntentProfile X.isNfc ir := by
  constructor
  · intro h
    exact h ir rfl
  · rintro h _ ⟨⟩
    exact h

/-- Neither side looks at an intent: what is assembled is in the profile when its input was, what is
decoded when its bytes spell an intent that is, and an address stands for one writing of the thresholds. -/
theorem intentProfile_iff {d : Artifact} (hsame : SameThresholds ir ir')
    (h : assemblePayload X manifest (.intentSpec ir) auditVersions seed keyId = .ok (a, kew))
    (hdec : decodeArtifact X bytes = .ok (d, n)) :
    (a.payload.InProfile X.isNfc ↔ IntentProfile X.isNfc ir) ∧
      (d.payload.InProfile X.isNfc ↔
        ∀ e rest, Postcard.envelope.dec bytes = .ok (e, rest) → e.payload.InProfile X.isNfc) ∧
      ((∃ a' kew', assemblePayload X manifest (.intentSpec ir') auditVersions seed keyId = .ok (a', kew') ∧
        a'.manifest.artifactHash = a.manifest.artifactHash) ↔
        ir.scales = ir'.scales ∨
          EnvelopesCollide X (intentEnvelope manifest ir auditVersions)
          (intentEnvelope manifest ir' auditVersions)) := by
  refine ⟨?_, ?_, assembleIntent_same_iff hsame h⟩
  · rw [assembleIntent_payload h, ArtifactPayload.inProfile_intentSpec]
  · obtain ⟨e, rest, he, hpayload⟩ := decodeArtifact_payload hdec
    rw [hpayload, he]
    constructor
    · rintro hprofile _ _ ⟨⟩
      exact hprofile
    · intro hprofile
      exact hprofile e rest rfl

end

/-! ## A limit in tenths -/

/-- The transfer limit of `transferIntent`, in tenths. -/
def tenthsIntent : IntentSpecIR :=
  { transferIntent with criteria := [⟨"max", .decimal (.lit 128 100000) (.lit 8 1), .stable⟩] }

theorem sameThresholds_tenths : SameThresholds transferIntent tenthsIntent where
  actionClass := rfl
  criteria := .cons ⟨rfl, .decimal (by norm_num [decimalValue, SInt.lit]), rfl⟩ .nil
  idempotency := rfl
  sourceSpans := rfl

theorem intentProfile_iff_tenths : ∃ a kew n, transferArtifact = .ok (a, kew) ∧
    decodeArtifact standIn kew = .ok (a, n) ∧
    (a.payload.InProfile standIn.isNfc ↔ IntentProfile standIn.isNfc transferIntent) ∧
      (a.payload.InProfile standIn.isNfc ↔
        ∀ e rest, Postcard.envelope.dec kew = .ok (e, rest) → e.payload.InProfile standIn.isNfc) ∧
      ((∃ a' kew', assemblePayload standIn transferManifest (.intentSpec tenthsIntent) ⟨none, none⟩ TestKeys.fixedSeed
        TestKeys.testKeyId = .ok (a', kew') ∧ a'.manifest.artifactHash = a.manifest.artifactHash) ↔
        transferIntent.scales = tenthsIntent.scales ∨
          EnvelopesCollide standIn (intentEnvelope transferManifest transferIntent ⟨none, none⟩)
            (intentEnvelope transferManifest tenthsIntent ⟨none, none⟩)) := by
  obtain ⟨⟨a, kew⟩, h⟩ := transferArtifact_ok
  obtain ⟨n, hdec, -⟩ := (assemblePayload_ok h).decode rfl
  exact ⟨a, kew, n, h, hdec, intentProfile_iff sameThresholds_tenths h hdec⟩

/-- The limit in tenths is assembled and decodes, out of the profile and under another address. -/
theorem tenths_out_of_profile : ∃ a kew a' kew' n, transferArtifact = .ok (a, kew) ∧
    assemblePayload standIn transferManifest (.intentSpec tenthsIntent) ⟨none, none⟩ TestKeys.fixedSeed
      TestKeys.testKeyId = .ok (a', kew') ∧ decodeArtifact standIn kew' = .ok (a', n) ∧
      SameThresholds transferIntent tenthsIntent ∧ ¬ a'.payload.InProfile standIn.isNfc ∧
      a.manifest.artifactHash ≠ a'.manifest.artifactHash := by
  have hrun : transferArtifact.toOption.any (fun made =>
      (assemblePayload standIn transferManifest (.intentSpec tenthsIntent) ⟨none, none⟩ TestKeys.fixedSeed
        TestKeys.testKeyId).toOption.any fun made' =>
          decide (made.1.manifest.artifactHash ≠ made'.1.manifest.artifactHash)) = true := by
    decide +kernel
  obtain ⟨⟨a, kew⟩, h, hrun⟩ := exists_ok_and hrun
  obtain ⟨⟨a', kew'⟩, h', hdiffer⟩ := exists_ok_and hrun
  obtain ⟨n, hdec, -⟩ := (assemblePayload_ok h').decode rfl
  refine ⟨a, kew, a', kew', n, h, h', hdec, sameThresholds_tenths, ?_, of_decide_eq_true hdiffer⟩
  rw [assembleIntent_payload h', ArtifactPayload.inProfile_intentSpec]
  intro hprofile
  have hlimit := hprofile.thresholds _ (List.mem_singleton_self _)
  exact absurd hlimit (by decide)

end Ke
