/-
The test expert of the lifecycle commands: its key directory, the local context, and the attestation
it signs for an artifact.
-/
import KeEngine.Artifact.Artifact

namespace Ke

open Wire

def attestationPolicyVersion : String := "ap-1"

/-- One expert key for every type, under both roles, over a wide window. -/
def testExpertKeyDirectory (X : Externals) : KeyDirectory where
  entries := [{
    keyId := TestKeys.testExpertKeyId
    publicKey := X.verifyingKey TestKeys.expertFixedSeed
    signerRoles := [.domainExpert, .publicationApprover]
    authorizedAttestationTypes :=
      [.sourceFidelity, .interpretation, .scenarioCoverage, .equivalenceClaim, .publicationApproval]
    validFromUnix := 0
    validToUnix := 18446744073709551615
    status := .active }]

def localPolicyContext (nowUnix : UInt64) : PolicyContext where
  environment := "local"
  nowUnix
  supportedPolicyVersions := [attestationPolicyVersion]
  currentLegalSourceHash := none

/-- No required type: every attestation must still be valid. -/
def permissivePolicy : VerificationPolicy := ⟨.advisory, [], []⟩

def signerRoleFor : AttestationType → SignerRole
  | .publicationApproval => .publicationApprover
  | _ => .domainExpert

/-- What the expert signs for an artifact, with the signature still zeroed. -/
def expertPayload (X : Externals) (manifest : Manifest) (attestationType : AttestationType) (nowUnix : UInt64) :
    Attestation where
  artifactHash := manifest.artifactHash
  scope := .wholeArtifact
  attestationType
  signerIdentity := "Test Expert"
  keyId := TestKeys.testExpertKeyId
  signerRole := signerRoleFor attestationType
  regimeId := manifest.regimeId
  effectiveFrom := manifest.effectiveFrom
  effectiveTo := manifest.effectiveTo
  legalSourceHash := manifest.sourceCorpusHash
  irSchemaVersion := manifest.irSchemaVersion
  compilerVersion := manifest.compilerVersion
  attestationPolicyVersion := attestationPolicyVersion
  testCorpusHash := none
  timestamp := mockStamp X manifest.artifactHash nowUnix
  expiration := none
  reviewerComments := none
  signature := zeroSig

end Ke
