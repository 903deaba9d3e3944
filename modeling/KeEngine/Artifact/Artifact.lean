/-
The artifact record and its bytes. The first five fields are the envelope: hashed with the hash slot
zeroed, then signed with the hash patched in. What follows is never hashed or signed, so attestations
are appended without moving the content address.
-/
import KeEngine.Artifact.Attestation

namespace Ke

open Wire

/-! ## The record -/

inductive ArtifactPayload
  | rules (rules : List RuleIR)
  | intentSpec (ir : IntentSpecIR)

structure SpanIndexEntry where
  ruleId : String
  spans : List SourceSpan

structure SourceSpanIndex where
  entries : List SpanIndexEntry

structure AuditVersions where
  jurisdictionResolverVersion : Option String
  scenarioCorpusVersion : Option String

/-- T2/T3 evidence. -/
structure ConsistencyBlock where
  tierResult : String
  policyMode : T2T3Mode
  modelName : String
  modelVersion : String
  scoringProfileVersion : Option String
  evidenceReferences : List String
  reviewerOverrides : List String
  reviewerRationale : Option String
  timestamp : String
  executionEnvironment : String

/-- The inert marker outside the envelope; the lifecycle state is in the event log. -/
inductive RegistryStateMetadata
  | draft
deriving DecidableEq

/-- The hashed and signed fields. -/
structure Envelope where
  manifest : Manifest
  payload : ArtifactPayload
  sourceSpanIndex : SourceSpanIndex
  auditVersions : AuditVersions
  consistencyBlock : Option ConsistencyBlock

structure Artifact extends Envelope where
  compilerSignature : CompilerSignature
  attestations : List Attestation
  registryStateMetadata : RegistryStateMetadata

inductive ArtifactError
  | canonical (e : CanonicalError)
  | canonicalDecode (e : CanonicalDecodeError)
  | trailingBytes
  | hashMismatch (expected got : Hash32)
  | signatureInvalid
  | envelopeTruncated
  | kindPayloadMismatch (kind : ArtifactKind)
deriving DecidableEq

/-! ## Wire format -/

namespace Postcard

open Codec

def artifactPayload : Codec ArtifactPayload :=
  enum [
    (seq ruleIR).arm ⟨.rules, fun | .rules rs => some rs | _ => none, by rintro (_ | _) _ ⟨⟩; rfl⟩,
    intentSpecIR.arm ⟨.intentSpec, fun | .intentSpec ir => some ir | _ => none, by rintro (_ | _) _ ⟨⟩; rfl⟩]

def spanIndexEntry : Codec SpanIndexEntry :=
  (str.pair (seq sourceSpan)).iso (fun e => (e.ruleId, e.spans)) (fun (i, s) => ⟨i, s⟩) (fun _ => rfl)

def sourceSpanIndex : Codec SourceSpanIndex :=
  (seq spanIndexEntry).iso SourceSpanIndex.entries SourceSpanIndex.mk (fun _ => rfl)

def auditVersions : Codec AuditVersions :=
  (str.option.pair str.option).iso (fun v => (v.jurisdictionResolverVersion, v.scenarioCorpusVersion))
    (fun (j, s) => ⟨j, s⟩) (fun _ => rfl)

def consistencyBlock : Codec ConsistencyBlock :=
  (str.pair (t2T3Mode.pair (str.pair (str.pair (str.option.pair ((seq str).pair ((seq str).pair (str.option.pair
      (str.pair str))))))))).iso
    (fun b => (b.tierResult, b.policyMode, b.modelName, b.modelVersion, b.scoringProfileVersion, b.evidenceReferences,
      b.reviewerOverrides, b.reviewerRationale, b.timestamp, b.executionEnvironment))
    (fun (r, p, n, v, s, e, o, q, t, x) => ⟨r, p, n, v, s, e, o, q, t, x⟩) (fun _ => rfl)

def registryStateMetadata : Codec RegistryStateMetadata := enum [const .draft]

def envelope : Codec Envelope :=
  (manifest.pair (artifactPayload.pair (sourceSpanIndex.pair (auditVersions.pair consistencyBlock.option)))).iso
    (fun e => (e.manifest, e.payload, e.sourceSpanIndex, e.auditVersions, e.consistencyBlock))
    (fun (m, p, s, a, c) => ⟨m, p, s, a, c⟩) (fun _ => rfl)

def artifact : Codec Artifact :=
  (envelope.pair (compilerSignature.pair ((seq attestation).pair registryStateMetadata))).iso
    (fun a => (a.toEnvelope, a.compilerSignature, a.attestations, a.registryStateMetadata))
    (fun (e, s, as, r) => ⟨e, s, as, r⟩) (fun _ => rfl)

end Postcard

/-! ## The hash slot -/

/-- Where the hash slot starts: right after the encoded kind. -/
def artifactHashOffset (kind : ArtifactKind) : Nat :=
  match Postcard.artifactKind.enc kind with
  | .ok bs => bs.length
  | .error _ => 0

/-- Overwrite the 32 bytes of the slot. -/
def patchHash (offset : Nat) (hash : Hash32) (bytes : Bytes) : Bytes :=
  bytes.take offset ++ hash.1 ++ bytes.drop (offset + 32)

section

variable (X : Externals)

/-- The hash of an envelope prefix with its slot zeroed. -/
def contentHash (envelopePrefix : Bytes) : Except ArtifactError Hash32 := do
  let (kind, _) ← (Postcard.artifactKind.dec envelopePrefix).mapError fun _ => .envelopeTruncated
  let offset := artifactHashOffset kind
  if envelopePrefix.length < offset + 32 then throw .envelopeTruncated
  pure (X.blake3 (patchHash offset zeroHash envelopePrefix))

/-! ## Decoding -/

/-- A decoding error of a field after the envelope. -/
def codecDecode {α : Type} (r : Except DecodeError (α × Bytes)) : Except ArtifactError (α × Bytes) :=
  r.mapError fun e => .canonicalDecode (.codec e)

/-- The kind of the manifest and the payload agree, and rules are canonical. -/
def validatePayload (kind : ArtifactKind) : ArtifactPayload → Except ArtifactError Unit
  | .rules rules =>
    if kind = .intentSpec then .error (.kindPayloadMismatch kind)
    else (validateRules X.isNfc rules).mapError .canonicalDecode
  | .intentSpec _ => if kind = .intentSpec then .ok () else .error (.kindPayloadMismatch kind)

/-- Strict decoding, with the length of the envelope. Neither hash nor signature is checked. -/
def decodeArtifact (bytes : Bytes) : Except ArtifactError (Artifact × Nat) := do
  let (envelope, rest) ← (Postcard.envelope.dec bytes).mapError fun
    | .unexpectedEnd => .envelopeTruncated
    | e => .canonicalDecode (.codec e)
  let envelopeLen := bytes.length - rest.length
  let (compilerSignature, rest) ← codecDecode (Postcard.compilerSignature.dec rest)
  let (attestations, rest) ← codecDecode ((Codec.seq Postcard.attestation).dec rest)
  let (registryStateMetadata, rest) ← codecDecode (Postcard.registryStateMetadata.dec rest)
  if rest ≠ [] then throw .trailingBytes
  (validateManifest X.isNfc envelope.manifest).mapError .canonicalDecode
  validatePayload X envelope.manifest.artifactKind envelope.payload
  pure ({ envelope with compilerSignature, attestations, registryStateMetadata }, envelopeLen)

/-- Check the content address of whole artifact bytes. -/
def verifyHash (kew : Bytes) : Except ArtifactError Hash32 := do
  let (artifact, envelopeLen) ← decodeArtifact X kew
  let got ← contentHash X (kew.take envelopeLen)
  if got ≠ artifact.manifest.artifactHash then throw (.hashMismatch artifact.manifest.artifactHash got)
  pure got

/-- The compiler's signature over the hash-patched prefix, under the key of `seed`. -/
def compilerSignatureValid (kew : Bytes) (seed : Hash32) : Bool :=
  match decodeArtifact X kew with
  | .ok (artifact, envelopeLen) =>
    X.verify (X.verifyingKey seed) (kew.take envelopeLen) artifact.compilerSignature.signature
  | .error _ => false

/-! ## Assembly -/

/-- Spans in pre-order: node, true branch, false branch; leaf, then its obligations. -/
def collectEntrySpans : DecisionEntry → List SourceSpan
  | .node _ _ trueBranch falseBranch sourceSpan =>
    sourceSpan.toList ++ collectEntrySpans trueBranch ++ collectEntrySpans falseBranch
  | .leaf l => l.sourceSpan.toList ++ (l.obligations.getD []).filterMap (·.sourceSpan)

def collectRuleSpans (rule : RuleIR) : List SourceSpan :=
  collectEntrySpans rule.decisionTree ++ rule.obligations.filterMap (·.sourceSpan)

/-- Entries sorted by rule id. -/
def buildSpanIndex (rules : List RuleIR) : SourceSpanIndex :=
  ⟨sortBy (fun a b => compare a.ruleId b.ruleId) (rules.map fun r => ⟨r.ruleId, collectRuleSpans r⟩)⟩

/-- The canonical payload and its span index. -/
def canonicalizePayload : ArtifactPayload → Except CanonicalError (ArtifactPayload × SourceSpanIndex)
  | .rules rules => do
    let rules ← canonicalizeRules X.isNfc rules
    pure (.rules rules, buildSpanIndex rules)
  | .intentSpec ir => pure (.intentSpec ir, ⟨[]⟩)

/-- Canonicalise, encode with a zeroed slot, hash, patch, sign, append. -/
def assemblePayload (manifest : Manifest) (payload : ArtifactPayload) (auditVersions : AuditVersions) (seed : Hash32)
    (keyId : String) : Except ArtifactError (Artifact × Bytes) := do
  let manifest := { manifest with artifactHash := zeroHash }
  (canonicalizeManifest X.isNfc manifest).mapError .canonical
  let (payload, sourceSpanIndex) ← (canonicalizePayload X payload).mapError .canonical
  let zeroed ← (Postcard.envelope.enc ⟨manifest, payload, sourceSpanIndex, auditVersions, none⟩).mapError
    fun e => .canonical (.codec e)
  let hash := X.blake3 zeroed
  let envelope := patchHash (artifactHashOffset manifest.artifactKind) hash zeroed
  let compilerSignature := signEnvelope X envelope seed keyId
  let sigBytes ← (Postcard.compilerSignature.enc compilerSignature).mapError fun e => .canonical (.codec e)
  let attBytes ← ((Codec.seq Postcard.attestation).enc []).mapError fun e => .canonical (.codec e)
  let metaBytes ← (Postcard.registryStateMetadata.enc .draft).mapError fun e => .canonical (.codec e)
  pure (⟨⟨{ manifest with artifactHash := hash }, payload, sourceSpanIndex, auditVersions, none⟩, compilerSignature,
    [], .draft⟩, envelope ++ (sigBytes ++ (attBytes ++ metaBytes)))

/-- Replace the attestations; the envelope stays as it is. -/
def Artifact.withAttestations (a : Artifact) (attestations : List Attestation) :
    Except ArtifactError (Artifact × Bytes) := do
  let artifact := { a with attestations }
  let kew ← (Postcard.artifact.enc artifact).mapError fun e => .canonical (.codec e)
  pure (artifact, kew)

/-- The attestation set of an artifact. -/
def verifyAttestationSet (artifact : Artifact) (policy : VerificationPolicy) (keyDirectory : KeyDirectory)
    (context : PolicyContext) : Except (List AttestationRejection) Unit :=
  verifyAttestations X artifact.manifest artifact.attestations policy keyDirectory context

end

end Ke
