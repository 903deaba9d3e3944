/-
The verification surface of a consumer: decode, hash, compiler signature, attestations, registry
state and staleness in this order, with a provenance whatever the verdict. The key of the compiler is
looked up for its bytes alone.
-/
import KeEngine.Artifact.Assembly
import KeEngine.Artifact.AttestationSet
import KeEngine.Artifact.Expert
import KeEngine.Artifact.Unpadded

namespace Ke

open Wire

/-! ## Verdict and provenance -/

/-- The mirror of the lifecycle state; a state before publication is unknown here. -/
inductive RegistryStatus
  | published
  | deprecated
  | revoked
  | unknown
deriving DecidableEq

structure RegistryEvidence where
  status : RegistryStatus
  eventHeadHash : Hash32
  liveEventHead : Option Hash32

inductive RejectionReason
  | decode (e : ArtifactError)
  | hashMismatch
  | compilerSignatureInvalid
  | attestations (rejections : List AttestationRejection)
  | notPublished (status : RegistryStatus)
  | staleEventHead (embedded live : Hash32)
deriving DecidableEq

inductive Verdict
  | verified
  | rejected (reason : RejectionReason)
deriving DecidableEq

structure AttestationSummary where
  attestationType : AttestationType
  signerKeyId : String
  isTestKey : Bool
  tsaClass : TimestampAuthorityClass
  claimedTimeUnix : UInt64

structure ArtifactProvenance where
  artifactKind : Option ArtifactKind
  regimeId : String
  artifactHash : Hash32
  irSchemaVersion : String
  codecVersion : String
  canonicalizationVersion : String
  signerKeyId : String
  isTestKey : Bool
  attestations : List AttestationSummary
  registryState : RegistryStatus
  registryEventHeadHash : Hash32
  exportedAtUnix : UInt64

structure VerificationOutcome where
  verdict : Verdict
  provenance : ArtifactProvenance
  registryState : RegistryStatus

def isTestKey (keyId : String) : Bool := "test-".toList.isPrefixOf keyId.toList

def summarizeAttestation (a : Attestation) : AttestationSummary where
  attestationType := a.attestationType
  signerKeyId := a.keyId
  isTestKey := isTestKey a.keyId
  tsaClass := a.timestamp.class_
  claimedTimeUnix := a.timestamp.claimedTimeUnix

def SemVer.display (v : SemVer) : String := s!"{v.major}.{v.minor}.{v.patch}"

def artifactProvenance (artifact : Artifact) (registry : RegistryEvidence) (exportedAtUnix : UInt64) :
    ArtifactProvenance where
  artifactKind := some artifact.manifest.artifactKind
  regimeId := artifact.manifest.regimeId
  artifactHash := artifact.manifest.artifactHash
  irSchemaVersion := artifact.manifest.irSchemaVersion.display
  codecVersion := artifact.manifest.codecVersion
  canonicalizationVersion := artifact.manifest.canonicalizationVersion
  signerKeyId := artifact.compilerSignature.keyId
  isTestKey := isTestKey artifact.compilerSignature.keyId
  attestations := artifact.attestations.map summarizeAttestation
  registryState := registry.status
  registryEventHeadHash := registry.eventHeadHash
  exportedAtUnix

def decodeFailedProvenance (registry : RegistryEvidence) (exportedAtUnix : UInt64) : ArtifactProvenance where
  artifactKind := none
  regimeId := ""
  artifactHash := zeroHash
  irSchemaVersion := ""
  codecVersion := ""
  canonicalizationVersion := ""
  signerKeyId := ""
  isTestKey := false
  attestations := []
  registryState := registry.status
  registryEventHeadHash := registry.eventHeadHash
  exportedAtUnix

/-! ## The checks -/

section

variable (X : Externals)

/-- The checks after decoding; the first that fails is the reason. -/
def verdictChecks (artifact : Artifact) (kew : Bytes) (envelopeLen : Nat) (keyDirectory : KeyDirectory)
    (context : PolicyContext) (policy : VerificationPolicy) (registry : RegistryEvidence) :
    Except RejectionReason Unit := do
  let _ ← (verifyHash X kew).mapError fun _ => .hashMismatch
  let compilerKey ←
    ((keyDirectory.lookup artifact.compilerSignature.keyId).map KeyDirectoryEntry.publicKey).elim
      (throw .compilerSignatureInvalid) pure
  (verifySignature X (kew.take envelopeLen) artifact.compilerSignature compilerKey).mapError fun _ =>
    .compilerSignatureInvalid
  (verifyAttestationSet X artifact policy keyDirectory context).mapError .attestations
  if registry.status ≠ .published then throw (.notPublished registry.status)
  match registry.liveEventHead with
  | some live => if live ≠ registry.eventHeadHash then throw (.staleEventHead registry.eventHeadHash live)
  | none => pure ()

def verdictFor (artifact : Artifact) (kew : Bytes) (envelopeLen : Nat) (keyDirectory : KeyDirectory)
    (context : PolicyContext) (policy : VerificationPolicy) (registry : RegistryEvidence) : Verdict :=
  match verdictChecks X artifact kew envelopeLen keyDirectory context policy registry with
  | .ok () => .verified
  | .error reason => .rejected reason

/-- The one call of a consumer. -/
def verifyArtifact (kew : Bytes) (keyDirectory : KeyDirectory) (context : PolicyContext) (policy : VerificationPolicy)
    (registry : RegistryEvidence) (exportedAtUnix : UInt64) : VerificationOutcome :=
  match decodeArtifact X kew with
  | .error e => ⟨.rejected (.decode e), decodeFailedProvenance registry exportedAtUnix, registry.status⟩
  | .ok (artifact, envelopeLen) =>
    ⟨verdictFor X artifact kew envelopeLen keyDirectory context policy registry,
      artifactProvenance artifact registry exportedAtUnix, registry.status⟩

end

section

variable {X : Externals} {kew : Bytes} {keyDirectory : KeyDirectory} {context : PolicyContext}
  {policy : VerificationPolicy} {registry : RegistryEvidence} {exportedAtUnix : UInt64}

/-- Everything that a verified artifact passed. -/
structure ChecksOut (X : Externals) (kew : Bytes) (keyDirectory : KeyDirectory) (context : PolicyContext)
    (policy : VerificationPolicy) (registry : RegistryEvidence) (artifact : Artifact) (envelopeLen : Nat)
    (entry : KeyDirectoryEntry) : Prop where
  decoded : decodeArtifact X kew = .ok (artifact, envelopeLen)
  hash : verifyHash X kew = .ok artifact.manifest.artifactHash
  key : keyDirectory.lookup artifact.compilerSignature.keyId = some entry
  signature : X.verify entry.publicKey (kew.take envelopeLen) artifact.compilerSignature.signature = true
  attestations : AttestationSetComplete X artifact policy keyDirectory context
  published : registry.status = .published
  live : ∀ live ∈ registry.liveEventHead, live = registry.eventHeadHash

theorem verifySignature_ok {envelopePrefix : Bytes} {compilerSignature : CompilerSignature} {verifyingKey : Hash32} :
    verifySignature X envelopePrefix compilerSignature verifyingKey = .ok () ↔
      X.verify verifyingKey envelopePrefix compilerSignature.signature = true := by
  unfold verifySignature
  split
  · rename_i h
    exact ⟨fun _ => h, fun _ => rfl⟩
  · rename_i h
    exact ⟨nofun, fun h' => absurd h' h⟩

theorem verdictChecks_ok {artifact : Artifact} {envelopeLen : Nat}
    (hdec : decodeArtifact X kew = .ok (artifact, envelopeLen)) :
    verdictChecks X artifact kew envelopeLen keyDirectory context policy registry = .ok () ↔
      ∃ entry, ChecksOut X kew keyDirectory context policy registry artifact envelopeLen entry := by
  constructor
  · intro h
    obtain ⟨hash, hhash, h⟩ := bind_ok.1 h
    obtain ⟨compilerKey, hkey, h⟩ := bind_ok.1 h
    obtain ⟨_, hsig, h⟩ := bind_ok.1 h
    obtain ⟨_, hatt, h⟩ := bind_ok.1 h
    obtain ⟨hpublished, hfresh⟩ := throw_else.1 h
    obtain ⟨entry, hentry, rfl⟩ := Option.map_eq_some_iff.1 (elim_throw.1 hkey)
    rw [mapError_ok] at hhash hsig hatt
    refine ⟨entry, hdec, ?_, hentry, verifySignature_ok.1 hsig, ?_, not_not.1 hpublished, ?_⟩
    · obtain ⟨a, n, hdec', -, hclaimed⟩ := verifyHash_ok hhash
      rw [hdec] at hdec'
      cases hdec'
      rw [hhash, hclaimed]
    · exact (verifyAttestationSet_complete X artifact policy keyDirectory context).1 hatt
    · intro live hlive
      rw [Option.mem_def.1 hlive] at hfresh
      by_contra hne
      exact absurd ((if_pos hne).symm.trans hfresh) nofun
  · rintro ⟨entry, h⟩
    refine bind_ok.2 ⟨_, mapError_ok.2 h.hash, bind_ok.2 ⟨entry.publicKey, ?_, ?_⟩⟩
    · exact elim_throw.2 (Option.map_eq_some_iff.2 ⟨entry, h.key, rfl⟩)
    refine bind_ok.2 ⟨(), mapError_ok.2 (verifySignature_ok.2 h.signature), bind_ok.2 ⟨(), mapError_ok.2 ?_, ?_⟩⟩
    · exact (verifyAttestationSet_complete X artifact policy keyDirectory context).2 h.attestations
    refine throw_else.2 ⟨not_not.2 h.published, ?_⟩
    cases hlive : registry.liveEventHead with
    | none => rfl
    | some live => exact if_neg (not_not.2 (h.live live (Option.mem_def.2 hlive)))

/-- Verified means that every check came out. -/
theorem verified_iff : (verifyArtifact X kew keyDirectory context policy registry exportedAtUnix).verdict = .verified ↔
    ∃ artifact envelopeLen entry, ChecksOut X kew keyDirectory context policy registry artifact envelopeLen entry := by
  unfold verifyArtifact
  cases hdec : decodeArtifact X kew with
  | error e =>
    refine ⟨nofun, ?_⟩
    rintro ⟨artifact, n, entry, h⟩
    exact absurd (hdec.symm.trans h.decoded) nofun
  | ok r =>
    obtain ⟨artifact, n⟩ := r
    have hchecks := @verdictChecks_ok X kew keyDirectory context policy registry artifact n hdec
    show verdictFor X artifact kew n keyDirectory context policy registry = .verified ↔ _
    unfold verdictFor
    constructor
    · intro h
      split at h
      · rename_i hok
        obtain ⟨entry, hentry⟩ := hchecks.1 hok
        exact ⟨artifact, n, entry, hentry⟩
      · cases h
    · rintro ⟨artifact', n', entry, h⟩
      obtain ⟨rfl, rfl⟩ : artifact = artifact' ∧ n = n' := by
        have := hdec.symm.trans h.decoded
        rw [Except.ok.injEq, Prod.mk.injEq] at this
        exact this
      rw [hchecks.2 ⟨entry, h⟩]

/-! ## The key of the compiler -/

/-- The entry is active, and the time is in its window. -/
structure KeyDirectoryEntry.InForce (entry : KeyDirectoryEntry) (nowUnix : UInt64) : Prop where
  active : entry.status = .active
  notBefore : entry.validFromUnix ≤ nowUnix
  notAfter : nowUnix < entry.validToUnix

/-- Of what is verified, the entry of the compiler's key is in force. -/
def CompilerKeyInForce (X : Externals) (kew : Bytes) (keyDirectory : KeyDirectory) (context : PolicyContext)
    (policy : VerificationPolicy) (registry : RegistryEvidence) (exportedAtUnix : UInt64) : Prop :=
  (verifyArtifact X kew keyDirectory context policy registry exportedAtUnix).verdict = .verified →
    ∀ artifact envelopeLen, decodeArtifact X kew = .ok (artifact, envelopeLen) →
      ∃ entry, keyDirectory.lookup artifact.compilerSignature.keyId = some entry ∧ entry.InForce context.nowUnix

/-- Only for attestations are the status and the window of a key looked at: the key of the compiler is
in force exactly when not everything else comes out under an entry that is not. -/
theorem compilerKeyInForce_iff (X : Externals) (kew : Bytes) (keyDirectory : KeyDirectory) (context : PolicyContext)
    (policy : VerificationPolicy) (registry : RegistryEvidence) (exportedAtUnix : UInt64) :
    CompilerKeyInForce X kew keyDirectory context policy registry exportedAtUnix ↔
      ¬ ∃ artifact envelopeLen entry,
        ChecksOut X kew keyDirectory context policy registry artifact envelopeLen entry ∧
          ¬ entry.InForce context.nowUnix := by
  unfold CompilerKeyInForce
  rw [verified_iff]
  constructor
  · rintro hforce ⟨artifact, n, entry, h, hnot⟩
    obtain ⟨entry', hentry', hin⟩ := hforce ⟨artifact, n, entry, h⟩ artifact n h.decoded
    rw [h.key] at hentry'
    cases hentry'
    exact hnot hin
  · rintro hnot ⟨artifact, n, entry, h⟩ artifact' n' hdec
    rw [h.decoded] at hdec
    cases hdec
    refine ⟨entry, h.key, ?_⟩
    by_contra hin
    exact hnot ⟨artifact, n, entry, h, hin⟩

/-- The key of the compiler, revoked. -/
def revokedCompilerKey : KeyDirectoryEntry where
  keyId := TestKeys.testKeyId
  publicKey := standIn.verifyingKey TestKeys.fixedSeed
  signerRoles := [.registry]
  authorizedAttestationTypes := []
  validFromUnix := 0
  validToUnix := 1
  status := .revoked

/-- Verified, long after the end of the window. -/
theorem revoked_compiler_key_verified : ∃ artifact kew, transferArtifact = .ok (artifact, kew) ∧
    artifact.compilerSignature.keyId = TestKeys.testKeyId ∧
    ¬ CompilerKeyInForce standIn kew ⟨[revokedCompilerKey]⟩ ⟨"local", 1000, [], none⟩ permissivePolicy
      ⟨.published, zeroHash, none⟩ 1000 := by
  have hrun : transferArtifact.toOption.any (fun r =>
      decide (r.1.compilerSignature.keyId = TestKeys.testKeyId) && (decodeArtifact standIn r.2).isOk &&
      decide ((verifyArtifact standIn r.2 ⟨[revokedCompilerKey]⟩ ⟨"local", 1000, [], none⟩ permissivePolicy
        ⟨.published, zeroHash, none⟩ 1000).verdict = .verified)) = true := by decide +kernel
  obtain ⟨⟨artifact, kew⟩, h, hr⟩ := exists_ok_and hrun
  rw [Bool.and_eq_true, Bool.and_eq_true] at hr
  refine ⟨artifact, kew, h, of_decide_eq_true hr.1.1, fun hforce => ?_⟩
  obtain ⟨⟨artifact', n⟩, hdec⟩ := exists_ok hr.1.2
  obtain ⟨entry, hentry, hin⟩ := hforce (of_decide_eq_true hr.2) artifact' n hdec
  -- the directory has the one entry
  have hmem := List.mem_of_find?_eq_some hentry
  rw [List.mem_singleton] at hmem
  rw [hmem] at hin
  exact absurd hin.active (by decide)

end

end Ke
