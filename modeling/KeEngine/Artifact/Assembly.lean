/-
Assembly is complete: what it emits decodes to the record it returns, at the boundary that it
signed, and passes the hash and the signature check.
-/
import KeEngine.Artifact.ArtifactLaws

namespace Ke

open Wire

/-- A compiler signature over the hash-patched envelope prefix. -/
def verifySignature (X : Externals) (envelopePrefix : Bytes) (compilerSignature : CompilerSignature)
    (verifyingKey : Hash32) : Except ArtifactError Unit :=
  if X.verify verifyingKey envelopePrefix compilerSignature.signature then .ok () else .error .signatureInvalid

theorem verifySignature_signEnvelope {X : Externals} (hX : X.Lawful) (envelopePrefix : Bytes) (seed : Hash32)
    (keyId : String) :
    verifySignature X envelopePrefix (signEnvelope X envelopePrefix seed keyId) (X.verifyingKey seed) = .ok () :=
  if_pos (hX.verify_sign seed envelopePrefix)

theorem assemblePayload_keyId {X : Externals} {manifest : Manifest} {payload : ArtifactPayload}
    {auditVersions : AuditVersions} {seed : Hash32} {keyId : String} {a : Artifact} {kew : Bytes}
    (h : assemblePayload X manifest payload auditVersions seed keyId = .ok (a, kew)) :
    a.compilerSignature.keyId = keyId := by
  obtain ⟨_, _, h⟩ := bind_ok.1 h
  obtain ⟨⟨_, _⟩, _, h⟩ := bind_ok.1 h
  obtain ⟨_, _, h⟩ := bind_ok.1 h
  obtain ⟨_, _, h⟩ := bind_ok.1 h
  obtain ⟨_, _, h⟩ := bind_ok.1 h
  obtain ⟨_, _, h⟩ := bind_ok.1 h
  have h := pure_ok.1 h
  rw [Prod.mk.injEq] at h
  rw [← h.1]
  rfl

/-- What assembly emits decodes to the record, with the length of the signed prefix; the hash and
the signature verify, and the bytes are the encoding of the record. -/
theorem assemblePayload_complete {X : Externals} (hX : X.Lawful) {manifest : Manifest} {payload : ArtifactPayload}
    {auditVersions : AuditVersions} {seed : Hash32} {keyId : String} {a : Artifact} {kew : Bytes}
    (h : assemblePayload X manifest payload auditVersions seed keyId = .ok (a, kew))
    (hk : payload.Agrees manifest.artifactKind) :
    ∃ n e, decodeArtifact X kew = .ok (a, n) ∧ Postcard.envelope.enc a.toEnvelope = .ok e ∧ kew.take n = e ∧
      n = e.length ∧ a.compilerSignature = signEnvelope X e seed keyId ∧
      verifyHash X kew = .ok a.manifest.artifactHash ∧
      verifySignature X (kew.take n) a.compilerSignature (X.verifyingKey seed) = .ok () ∧
      Postcard.artifact.enc a = .ok kew := by
  have hasm := assemblePayload_ok h
  obtain ⟨e, s, t, m, he, hs, ht, hm, hkew, hhash, hsig⟩ := hasm.bytes
  have hkey : a.compilerSignature = signEnvelope X e seed keyId := by
    show a.compilerSignature = ⟨keyId, X.sign seed e⟩
    rw [← hsig, ← assemblePayload_keyId h]
  have htake : kew.take e.length = e := by rw [hkew, List.take_left]
  refine ⟨e.length, e, ?_, he, htake, rfl, hkey, hasm.verifyHash hk, ?_, hasm.enc⟩
  · obtain ⟨n, hdec, -⟩ := hasm.decode hk
    rw [hkew] at hdec ⊢
    rw [decodeArtifact_enc he hs ht hm] at hdec ⊢
    exact ⟨hdec.1, hdec.2.1, rfl⟩
  · rw [htake, hkey]
    exact verifySignature_signEnvelope hX e seed keyId

/-! ## A transfer limit -/

/-- An intent with one criterion. -/
def transferIntent : IntentSpecIR where
  actionClass := "transfer"
  criteria := [⟨"max", .decimal (.lit 128 10000) (.lit 8 0), .stable⟩]
  idempotency := ⟨["payer"], "payer"⟩
  sourceSpans := []

def transferManifest : Manifest where
  artifactKind := .intentSpec
  artifactHash := zeroHash
  regimeId := "regime"
  effectiveFrom := ⟨.lit 16 1900, 1, 1⟩
  effectiveTo := none
  compilerVersion := ⟨0, 1, 0⟩
  compilerBuildHash := zeroHash
  irSchemaVersion := Ke.irSchemaVersion
  codecVersion := Ke.codecVersion
  canonicalizationVersion := Ke.canonicalizationVersion
  corpusRootHash := zeroHash
  sourceCorpusHash := zeroHash
  attestationPolicyVersion := "ap-1"

def transferArtifact : Except ArtifactError (Artifact × Bytes) :=
  assemblePayload standIn transferManifest (.intentSpec transferIntent) ⟨none, none⟩ TestKeys.fixedSeed
    TestKeys.testKeyId

theorem transferArtifact_ok : ∃ p, transferArtifact = .ok p := exists_ok (by decide +kernel)

theorem assemblePayload_complete_transfer : ∃ a kew, transferArtifact = .ok (a, kew) ∧
    ∃ n e, decodeArtifact standIn kew = .ok (a, n) ∧ Postcard.envelope.enc a.toEnvelope = .ok e ∧ kew.take n = e ∧
      n = e.length ∧ a.compilerSignature = signEnvelope standIn e TestKeys.fixedSeed TestKeys.testKeyId ∧
      verifyHash standIn kew = .ok a.manifest.artifactHash ∧
      verifySignature standIn (kew.take n) a.compilerSignature (standIn.verifyingKey TestKeys.fixedSeed) = .ok () ∧
      Postcard.artifact.enc a = .ok kew := by
  obtain ⟨⟨a, kew⟩, h⟩ := transferArtifact_ok
  exact ⟨a, kew, h, assemblePayload_complete standIn_lawful h rfl⟩

end Ke
