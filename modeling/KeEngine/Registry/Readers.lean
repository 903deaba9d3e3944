/-
Who reads the registry: serve and the graph export. Both verify an artifact with the test keys, the
expert's authorized for the types that the artifact carries, and support the policy versions that its
attestations name. Serve takes the policy from the request, the export from the kind.
-/
import KeEngine.Artifact.Verify
import KeEngine.Registry.Commands

namespace Ke.Registry

open Ke Wire

/-! ## Registry evidence -/

/-- The mirror of a state; before publication it is unknown. -/
def statusFor : LifecycleState → RegistryStatus
  | .published => .published
  | .deprecated => .deprecated
  | .revoked => .revoked
  | .draft | .structurallyVerified | .mlChecked | .expertAttested => .unknown

section

variable (X : Externals)

/-- `head_event` of a reader. -/
def Backend.headEvent (r : Backend) (hash : Hash32) : Except RegistryError LifecycleEvent := do
  let events ← r.readEvents hash
  let _ ← currentState X events
  events.getLast?.elim (throw .noState) pure

/-- The chain hash of the head, of an empty log zero. -/
def Backend.eventHeadHash (r : Backend) (hash : Hash32) (events : List LifecycleEvent) :
    Except RegistryError Hash32 :=
  if events.isEmpty then .ok zeroHash else (r.headEvent X hash).bind (·.chainHash X)

/-- The state of a log, unknown when it is empty, and its head. -/
def readRegistryEvidence (r : Backend) (hash : Hash32) : Except RegistryError RegistryEvidence := do
  let events ← r.readEvents hash
  let state ← currentState X events
  let eventHeadHash ← r.eventHeadHash X hash events
  pure ⟨state.elim .unknown statusFor, eventHeadHash, none⟩

/-! ## What an artifact is verified with -/

/-- The policy versions that the attestations of an artifact name, sorted, each once. -/
def declaredVersions (artifact : Artifact) : List String :=
  sortDedup (artifact.attestations.map (·.attestationPolicyVersion))

/-- The types that the attestations of an artifact have, in their declared order, each once. -/
def declaredTypes (artifact : Artifact) : List AttestationType :=
  (sortBy (fun a b => compare a.ctorIdx b.ctorIdx) (artifact.attestations.map (·.attestationType))).destutter (· ≠ ·)

/-- Exactly the versions that the artifact declares are supported. -/
def artifactContext (artifact : Artifact) (environment : String) (nowUnix : UInt64) : PolicyContext where
  environment
  nowUnix
  supportedPolicyVersions := declaredVersions artifact
  currentLegalSourceHash := none

def testCompilerEntry : KeyDirectoryEntry where
  keyId := TestKeys.testKeyId
  publicKey := X.verifyingKey TestKeys.fixedSeed
  signerRoles := [.registry]
  authorizedAttestationTypes := []
  validFromUnix := 0
  validToUnix := 18446744073709551615
  status := .active

def testExpertEntry (authorizedTypes : List AttestationType) : KeyDirectoryEntry where
  keyId := TestKeys.testExpertKeyId
  publicKey := X.verifyingKey TestKeys.expertFixedSeed
  signerRoles := [.domainExpert, .publicationApprover]
  authorizedAttestationTypes := authorizedTypes
  validFromUnix := 0
  validToUnix := 18446744073709551615
  status := .active

/-- The key of the compiler, and that of the expert for exactly the types that the artifact has. -/
def testKeyDirectory (artifact : Artifact) : KeyDirectory where
  entries := [testCompilerEntry X, testExpertEntry X (declaredTypes artifact)]

/-! ## Graph export -/

/-- Why an artifact is not exported. -/
inductive Refusal
  | read (e : RegistryError)
  | decode (e : ArtifactError)
  | addressMismatch (claimed filed : Hash32)
  | notPublished (status : RegistryStatus)
  | rejected (reason : RejectionReason)

inductive Admission
  | verified (artifact : Artifact)
  | refused (reason : Refusal)

/-- The verification of the export, under the policy of the kind. -/
def verifyOutcome (kew : Bytes) (artifact : Artifact) (env : String) (nowUnix : UInt64) (evidence : RegistryEvidence) :
    VerificationOutcome :=
  verifyArtifact X kew (testKeyDirectory X artifact) (artifactContext artifact env nowUnix)
    (policyForKind artifact.manifest.artifactKind) evidence nowUnix

/-- Readable, decodable, at its own address, published, verified; the first that fails is the refusal. -/
def admitArtifact (r : Backend) (address : Hash32) (env : String) (nowUnix : UInt64) : Except RegistryError Admission :=
  match r.readArtifactKew address with
  | .error e => .ok (.refused (.read e))
  | .ok kew =>
    match decodeArtifact X kew with
    | .error e => .ok (.refused (.decode e))
    | .ok (artifact, _) =>
      if artifact.manifest.artifactHash ≠ address then
        .ok (.refused (.addressMismatch artifact.manifest.artifactHash address))
      else do
        let evidence ← readRegistryEvidence X r address
        if evidence.status ≠ .published then pure (.refused (.notPublished evidence.status))
        else
          match (verifyOutcome X kew artifact env nowUnix evidence).verdict with
          | .verified => pure (.verified artifact)
          | .rejected reason => pure (.refused (.rejected reason))

/-! ## Serve -/

/-- The body of `POST /verify`. -/
structure VerifyRequest where
  hash : String
  env : Option String
  policy : Option String

/-- What the body of the answer is made of. -/
structure VerifyResponse where
  verdict : Verdict
  provenance : ArtifactProvenance
  registryState : RegistryStatus
  revocation : Option RevocationRecord

inductive ServeError
  | badHash (hex : String)
  | unknownPolicy (policy : String)
  | registry (e : RegistryError)

/-- The status code of an error. -/
def ServeError.status : ServeError → Nat
  | .badHash _ | .unknownPolicy _ => 400
  | .registry (.notFound _) => 404
  | .registry (.ambiguous ..) => 409
  | .registry (.badHashHex _) | .registry (.artifactDecode _) => 400
  | .registry _ => 500

/-- The policy that a request names, strict when it names none. -/
def verificationPolicy (policy : Option String) : Except ServeError VerificationPolicy :=
  let policy := policy.getD "strict"
  if policy = "strict" then .ok defaultVerificationPolicy
  else if policy = "permissive" then .ok ⟨.disabled, [], []⟩
  else .error (.unknownPolicy policy)

def runVerify (kew : Bytes) (req : VerifyRequest) (evidence : RegistryEvidence) (now : UInt64) :
    Except ServeError VerificationOutcome := do
  let (artifact, _) ← (decodeArtifact X kew).mapError fun e => .registry (.artifactDecode e)
  let policy ← verificationPolicy req.policy
  pure (verifyArtifact X kew (testKeyDirectory X artifact) (artifactContext artifact (req.env.getD "local") now) policy
    evidence now)

/-- The record of a revocation, when the artifact is revoked; it softens no verdict. -/
def Backend.surfacedRevocation (r : Backend) (hash : Hash32) (registryState : RegistryStatus) :
    Except RegistryError (Option RevocationRecord) :=
  if registryState = .revoked then r.readRevocation hash else .ok none

/-- The handler of `POST /verify`, up to the rendering of its answer. -/
def handleVerify (r : Backend) (req : VerifyRequest) (now : UInt64) : Except ServeError VerifyResponse := do
  let hash ← (hexToHash req.hash).mapError fun _ => .badHash req.hash
  let kew ← (r.readArtifactKew hash).mapError .registry
  let evidence ← (readRegistryEvidence X r hash).mapError .registry
  let outcome ← runVerify X kew req evidence now
  let revocation ← (r.surfacedRevocation hash outcome.registryState).mapError .registry
  pure ⟨outcome.verdict, outcome.provenance, outcome.registryState, revocation⟩

end

end Ke.Registry
