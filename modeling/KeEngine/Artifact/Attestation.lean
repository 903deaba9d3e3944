/-
Typed attestations: the signature covers the encoding of every field before it, and a set of
attestations is accepted when each one verifies against the artifact, the key directory and the
context, every required type is there often enough, and a publication approval has its
co-attestations.
-/
import KeEngine.Artifact.Crypto

namespace Ke

open Wire

/-! ## The record -/

inductive AttestationScope
  | ruleIds (ids : List String)
  | wholeArtifact
deriving DecidableEq

/-- Every field of an attestation but its signature. -/
structure AttestationPayload where
  artifactHash : Hash32
  scope : AttestationScope
  attestationType : AttestationType
  signerIdentity : String
  keyId : String
  signerRole : SignerRole
  regimeId : String
  effectiveFrom : JurisdictionDate
  effectiveTo : Option JurisdictionDate
  legalSourceHash : Hash32
  irSchemaVersion : SemVer
  compilerVersion : SemVer
  attestationPolicyVersion : String
  testCorpusHash : Option Hash32
  timestamp : TimestampToken
  expiration : Option JurisdictionDate
  reviewerComments : Option String
deriving DecidableEq

structure Attestation extends AttestationPayload where
  signature : Sig64
deriving DecidableEq

namespace Postcard

open Codec

def attestationScope : Codec AttestationScope :=
  enum [
    (seq str).arm ⟨.ruleIds, fun | .ruleIds ids => some ids | _ => none, by rintro (_ | _) _ ⟨⟩; rfl⟩,
    const .wholeArtifact]

def attestationPayload : Codec AttestationPayload :=
  (hash32.pair (attestationScope.pair (attestationType.pair (str.pair (str.pair (signerRole.pair (str.pair
      (jurisdictionDate.pair (jurisdictionDate.option.pair (hash32.pair (semVer.pair (semVer.pair (str.pair
        (hash32.option.pair (timestampToken.pair (jurisdictionDate.option.pair str.option)))))))))))))))).iso
    (fun a => (a.artifactHash, a.scope, a.attestationType, a.signerIdentity, a.keyId, a.signerRole, a.regimeId,
      a.effectiveFrom, a.effectiveTo, a.legalSourceHash, a.irSchemaVersion, a.compilerVersion,
      a.attestationPolicyVersion, a.testCorpusHash, a.timestamp, a.expiration, a.reviewerComments))
    (fun (h, s, t, i, k, r, g, ef, et, l, v, c, p, th, ts, e, rc) =>
      ⟨h, s, t, i, k, r, g, ef, et, l, v, c, p, th, ts, e, rc⟩) (fun _ => rfl)

def attestation : Codec Attestation :=
  (attestationPayload.pair sig64).iso (fun a => (a.toAttestationPayload, a.signature)) (fun (p, s) => ⟨p, s⟩)
    (fun _ => rfl)

end Postcard

/-! ## Context, policy, rejections -/

/-- Clock, environment and supported versions arrive explicitly. -/
structure PolicyContext where
  environment : String
  nowUnix : UInt64
  supportedPolicyVersions : List String
  currentLegalSourceHash : Option Hash32

def PolicyContext.isLocal (c : PolicyContext) : Bool := c.environment == "local"

inductive AttestationRejection
  | keyUnknown (keyId : String)
  | keyExpired (keyId : String)
  | keyRevoked (keyId : String)
  | keyUnauthorizedForType (keyId : String) (attestationType : AttestationType)
  | notBoundToArtifact (expected got : Hash32)
  | policyVersionUnsupported (version : String)
  | expired
  | legalSourceHashChanged
  | requiredTypeMissing (attestationType : AttestationType) (required found : Nat)
  | coAttestationAbsent (missing : AttestationType)
  | mockTsaNonLocal
  | attestationSignatureInvalid
  | timestampClassMismatch
  | tsaUnsupported (class_ : TimestampAuthorityClass)
deriving DecidableEq

/-! ## The signed prefix -/

def payloadPrefix (a : Attestation) : Except PostcardError Bytes :=
  signedPrefix Postcard.attestation Postcard.attestationPayload a

section

variable (X : Externals)

/-- Sign an attestation; a signature it had is overwritten. -/
def signAttestation (payload : Attestation) (seed : Hash32) : Except PostcardError Attestation := do
  let bytes ← payloadPrefix payload
  pure { payload with signature := X.sign seed bytes }

/-! ## One attestation -/

/-- 00:00 UTC of a date in unix seconds, for the expiry comparison. -/
def unixStartOf (date : JurisdictionDate) : Int :=
  let month := (date.month.toNat : Int)
  let year := date.year.val - (if date.month ≤ 2 then 1 else 0)
  let era := (if 0 ≤ year then year else year - 399).tdiv 400
  let yearOfEra := year - era * 400
  let dayOfYear := (153 * (month + (if 2 < month then -3 else 9)) + 2).tdiv 5 + date.day.toNat - 1
  let dayOfEra := yearOfEra * 365 + yearOfEra.tdiv 4 - yearOfEra.tdiv 100 + dayOfYear
  (era * 146097 + dayOfEra - 719468) * 86400

/-- `i64::try_from(now).unwrap_or(i64::MAX)` -/
def clampI64 (now : UInt64) : Int := min now.toNat (2 ^ 63 - 1)

/-- The first rejection in the contract's order: key, signature, timestamp class, mock stamp, key
status and authority, binding, policy version, expiry, legal source. -/
def verifyAttestation (a : Attestation) (expectedArtifactHash : Hash32) (manifest : Manifest)
    (keyDirectory : KeyDirectory) (context : PolicyContext) : Except AttestationRejection Unit := do
  let entry ← (keyDirectory.lookup a.keyId).elim (throw (.keyUnknown a.keyId)) pure
  let signed ← (payloadPrefix a).mapError fun _ => .attestationSignatureInvalid
  if !X.verify entry.publicKey signed a.signature then throw .attestationSignatureInvalid
  let derived ← (deriveClass X a.timestamp a.artifactHash).mapError fun
    | .unsupported c => .tsaUnsupported c
    | .classMismatch => .timestampClassMismatch
  if derived ≠ a.timestamp.class_ then throw .timestampClassMismatch
  if derived = .mock ∧ !context.isLocal then throw .mockTsaNonLocal
  match entry.status with
  | .expired => throw (.keyExpired a.keyId)
  | .revoked => throw (.keyRevoked a.keyId)
  | .active => pure ()
  if context.nowUnix < entry.validFromUnix ∨ entry.validToUnix ≤ context.nowUnix then throw (.keyExpired a.keyId)
  if a.signerRole ∉ entry.signerRoles ∨ a.attestationType ∉ entry.authorizedAttestationTypes then
    throw (.keyUnauthorizedForType a.keyId a.attestationType)
  if a.artifactHash ≠ expectedArtifactHash then throw (.notBoundToArtifact expectedArtifactHash a.artifactHash)
  if a.regimeId ≠ manifest.regimeId ∨ a.compilerVersion ≠ manifest.compilerVersion then
    throw (.notBoundToArtifact expectedArtifactHash a.artifactHash)
  if a.attestationPolicyVersion ∉ context.supportedPolicyVersions then
    throw (.policyVersionUnsupported a.attestationPolicyVersion)
  if a.irSchemaVersion ≠ manifest.irSchemaVersion then
    throw (.policyVersionUnsupported
      s!"ir-schema-{a.irSchemaVersion.major}.{a.irSchemaVersion.minor}.{a.irSchemaVersion.patch}")
  match a.expiration with
  | some expiration => if unixStartOf expiration ≤ clampI64 context.nowUnix then throw .expired
  | none => pure ()
  match context.currentLegalSourceHash with
  | some current => if current ≠ a.legalSourceHash then throw .legalSourceHashChanged
  | none => pure ()

/-! ## The set -/

/-- What a publication approval needs beside it, by the kind of the artifact. -/
def coAttestationTypes : ArtifactKind → List AttestationType
  | .intentSpec => [.sourceFidelity]
  | _ => [.scenarioCoverage, .sourceFidelity]

def VerificationPolicy.minimumOf (policy : VerificationPolicy) (required : AttestationType) : Nat :=
  max 1 (((policy.minimumAttestationCountPerType.find? fun c => decide (c.attestationType = required)).map
    fun c => c.count.toNat).getD 1)

/-- Required types that are missing or too few among the valid attestations. -/
def missingTypes (policy : VerificationPolicy) (valid : List Attestation) : List AttestationRejection :=
  policy.requiredAttestationTypes.filterMap fun required =>
    let found := (valid.filter fun a => decide (a.attestationType = required)).length
    if found < policy.minimumOf required then
      some (.requiredTypeMissing required (policy.minimumOf required) found)
    else none

/-- Co-attestations that the first valid publication approval lacks. -/
def missingCoAttestations (kind : ArtifactKind) (valid : List Attestation) : List AttestationRejection :=
  match valid.find? (fun a => decide (a.attestationType = .publicationApproval)) with
  | none => []
  | some approval => (coAttestationTypes kind).filterMap fun coType =>
    if valid.any fun a => decide (a.attestationType = coType ∧ a.artifactHash = approval.artifactHash) then none
    else some (.coAttestationAbsent coType)

/-- The attestations of an artifact, verified one by one and then as a set; all rejections. -/
def verifyAttestations (manifest : Manifest) (attestations : List Attestation) (policy : VerificationPolicy)
    (keyDirectory : KeyDirectory) (context : PolicyContext) : Except (List AttestationRejection) Unit :=
  let verdict a := verifyAttestation X a manifest.artifactHash manifest keyDirectory context
  let valid := attestations.filter fun a => (verdict a).isOk
  let rejections := attestations.filterMap (fun a =>
      match verdict a with
      | .ok () => none
      | .error rejection => some rejection) ++
    missingTypes policy valid ++ missingCoAttestations manifest.artifactKind valid
  if rejections.isEmpty then .ok () else .error rejections

/-- Without attestations only a policy that requires none is met. -/
theorem verifyAttestations_nil (manifest : Manifest) (policy : VerificationPolicy) (keyDirectory : KeyDirectory)
    (context : PolicyContext) :
    verifyAttestations X manifest [] policy keyDirectory context = .ok () ↔ policy.requiredAttestationTypes = [] := by
  simp only [verifyAttestations, List.filterMap_nil, List.filter_nil, List.nil_append, missingCoAttestations,
    List.find?_nil, List.append_nil]
  rw [missingTypes]
  cases hr : policy.requiredAttestationTypes with
  | nil => simp
  | cons t ts =>
    have hmin : 0 < policy.minimumOf t := lt_of_lt_of_le Nat.one_pos (le_max_left _ _)
    simp [hmin]

end

end Ke
