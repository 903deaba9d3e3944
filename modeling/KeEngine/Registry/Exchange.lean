/-
`export` copies the bytes of an artifact out of the registry, and `import` verifies such a file without one. Offline
nothing is published, so no file is ever verified: what is accepted is that the bytes hold together.
-/
import KeEngine.Registry.Agreement
import KeEngine.Registry.Projection
import KeEngine.Registry.SignedPrefixes

namespace Ke.Registry

open Ke Wire

/-! ## Export -/

structure ExportOutcome where
  artifactHash : Hash32
  bytesWritten : Nat

/-- Why `export` fails: the bytes cannot be read, or not be written. -/
inductive ExportError
  | read (e : RegistryError)
  | write (message : String)

/-- The bytes that are written, and the outcome; writing them may fail. -/
def exportKew (r : Backend) (hash : Hash32) (write : Bytes → Except String Unit) :
    Except ExportError (Bytes × ExportOutcome) := do
  let kew ← (r.readArtifactKew hash).mapError .read
  (write kew).mapError .write
  pure (kew, ⟨hash, kew.length⟩)

/-! ## Import -/

structure ImportOutcome where
  artifactHash : Hash32
  verdict : Verdict
  provenance : ArtifactProvenance
  registryState : RegistryStatus

/-- Why `import` rejects a file. -/
inductive ImportError
  | read (message : String)
  | decode (e : ArtifactError)
  | hashMismatch
  | compilerSignatureInvalid
  | attestations (rejections : List AttestationRejection)

section

variable (X : Externals)

/-- The key of the compiler, and that of the expert for every type. -/
def importKeyDirectory : KeyDirectory where
  entries := [testCompilerEntry X, testExpertEntry X
    [.sourceFidelity, .interpretation, .scenarioCoverage, .equivalenceClaim, .publicationApproval]]

/-- The legal source is the one that the file names, when it decodes. -/
def importContext (kew : Bytes) (nowUnix : UInt64) : PolicyContext where
  environment := "local"
  nowUnix
  supportedPolicyVersions := ["ap-1"]
  currentLegalSourceHash := (decodeArtifact X kew).toOption.map fun decoded => decoded.1.manifest.sourceCorpusHash

def importPolicy : VerificationPolicy := ⟨.disabled, [], []⟩

/-- There is no live registry. -/
def importEvidence : RegistryEvidence := ⟨.unknown, zeroHash, none⟩

/-- What stops an import: all but a missing publication and a stale head. -/
def importRejection : Verdict → Option ImportError
  | .verified | .rejected (.notPublished _) | .rejected (.staleEventHead ..) => none
  | .rejected (.decode e) => some (.decode e)
  | .rejected .hashMismatch => some .hashMismatch
  | .rejected .compilerSignatureInvalid => some .compilerSignatureInvalid
  | .rejected (.attestations rejections) => some (.attestations rejections)

/-- `import` of a file, which may fail to be read. -/
def importKew (file : Except String Bytes) (nowUnix : UInt64) : Except ImportError ImportOutcome := do
  let kew ← file.mapError .read
  let outcome := verifyArtifact X kew (importKeyDirectory X) (importContext X kew nowUnix) importPolicy importEvidence nowUnix
  match importRejection outcome.verdict with
  | some e => throw e
  | none => pure ⟨outcome.provenance.artifactHash, outcome.verdict, outcome.provenance, outcome.registryState⟩

end

/-! ## What an import accepts -/

section

variable {X : Externals} {kew : Bytes} {a : Artifact} {n : Nat} {nowUnix : UInt64}

/-- What holds of a file by itself: it decodes, is under its address, signed, and its attestations are valid. -/
structure HoldsTogether (X : Externals) (kew : Bytes) (nowUnix : UInt64) (a : Artifact) (n : Nat) : Prop where
  decoded : decodeArtifact X kew = .ok (a, n)
  hash : verifyHash X kew = .ok a.manifest.artifactHash
  signature : ∃ entry, (importKeyDirectory X).lookup a.compilerSignature.keyId = some entry ∧
    X.verify entry.publicKey (kew.take n) a.compilerSignature.signature = true
  attestations : AttestationSetComplete X a importPolicy (importKeyDirectory X) (importContext X kew nowUnix)

/-- The checks of a decoded file before the registry is looked at. -/
def fileChecks (X : Externals) (artifact : Artifact) (kew : Bytes) (envelopeLen : Nat) (nowUnix : UInt64) :
    Except RejectionReason Unit := do
  let _ ← (verifyHash X kew).mapError fun _ => .hashMismatch
  let compilerKey ←
    (((importKeyDirectory X).lookup artifact.compilerSignature.keyId).map KeyDirectoryEntry.publicKey).elim
      (throw .compilerSignatureInvalid) pure
  (verifySignature X (kew.take envelopeLen) artifact.compilerSignature compilerKey).mapError fun _ =>
    .compilerSignatureInvalid
  (verifyAttestationSet X artifact importPolicy (importKeyDirectory X) (importContext X kew nowUnix)).mapError .attestations

/-- Offline, what passes them all is not published. -/
theorem verdictChecks_offline : verdictChecks X a kew n (importKeyDirectory X) (importContext X kew nowUnix) importPolicy
    importEvidence = fileChecks X a kew n nowUnix >>= fun _ => throw (.notPublished .unknown) := by
  unfold verdictChecks fileChecks
  simp only [bind_assoc]
  rfl

theorem fileChecks_ok (hdec : decodeArtifact X kew = .ok (a, n)) :
    fileChecks X a kew n nowUnix = .ok () ↔ HoldsTogether X kew nowUnix a n := by
  constructor
  · intro h
    obtain ⟨hash, hhash, h⟩ := bind_ok.1 h
    obtain ⟨key, hkey, h⟩ := bind_ok.1 h
    obtain ⟨entry, hentry, rfl⟩ := Option.map_eq_some_iff.1 (elim_throw.1 hkey)
    obtain ⟨_, hsignature, h⟩ := bind_ok.1 h
    have hhash := mapError_ok.1 hhash
    obtain ⟨a', n', hdec', -, rfl⟩ := verifyHash_ok hhash
    obtain ⟨rfl, -⟩ := Prod.mk.inj (Except.ok.inj (hdec.symm.trans hdec'))
    exact ⟨hdec, hhash, ⟨entry, hentry, Ke.verifySignature_ok.1 (mapError_ok.1 hsignature)⟩,
      (verifyAttestationSet_complete ..).1 (mapError_ok.1 h)⟩
  · intro h
    obtain ⟨entry, hentry, hverify⟩ := h.signature
    refine bind_ok.2 ⟨_, mapError_ok.2 h.hash, bind_ok.2 ⟨entry.publicKey, ?_, bind_ok.2 ⟨(), ?_, ?_⟩⟩⟩
    · rw [hentry]
      rfl
    · exact mapError_ok.2 (Ke.verifySignature_ok.2 hverify)
    · exact mapError_ok.2 ((verifyAttestationSet_complete ..).2 h.attestations)

/-- Whatever they fail at stops an import. -/
theorem raises_fileChecks :
    Raises (fun reason => ∃ e, importRejection (.rejected reason) = some e) (fileChecks X a kew n nowUnix) := by
  have hhash : ∃ e, importRejection (.rejected .hashMismatch) = some e := ⟨_, rfl⟩
  have hsignature : ∃ e, importRejection (.rejected .compilerSignatureInvalid) = some e := ⟨_, rfl⟩
  refine Raises.bind (Raises.ofMapError fun _ => hhash) fun _ _ => ?_
  refine Raises.bind (Raises.elim hsignature) fun _ _ => ?_
  exact Raises.bind (Raises.ofMapError fun _ => hsignature) fun _ _ => Raises.ofMapError fun rejections => ⟨_, rfl⟩

/-- An import accepts exactly the files that hold together, and calls none of them verified. -/
theorem importKew_ok {outcome : ImportOutcome} : importKew X (.ok kew) nowUnix = .ok outcome ↔
    ∃ a n, HoldsTogether X kew nowUnix a n ∧ outcome = ⟨a.manifest.artifactHash, .rejected (.notPublished .unknown),
      artifactProvenance a importEvidence nowUnix, .unknown⟩ := by
  cases hdec : decodeArtifact X kew with
  | error e =>
    have hfailed : importKew X (.ok kew) nowUnix = .error (.decode e) := by
      show (match importRejection (verifyArtifact X kew _ _ _ _ nowUnix).verdict with
        | some e => throw e
        | none => pure _) = Except.error _
      unfold verifyArtifact
      rw [hdec]
      rfl
    rw [hfailed]
    refine iff_of_false nofun ?_
    rintro ⟨a, n, h, -⟩
    cases hdec.symm.trans h.decoded
  | ok decoded =>
    obtain ⟨a, n⟩ := decoded
    have himport : importKew X (.ok kew) nowUnix =
        match importRejection (verdictFor X a kew n (importKeyDirectory X) (importContext X kew nowUnix) importPolicy
          importEvidence) with
        | some e => .error e
        | none => .ok ⟨a.manifest.artifactHash, verdictFor X a kew n (importKeyDirectory X) (importContext X kew nowUnix)
          importPolicy importEvidence, artifactProvenance a importEvidence nowUnix, .unknown⟩ := by
      show (match importRejection (verifyArtifact X kew _ _ _ _ nowUnix).verdict with
        | some e => throw e
        | none => pure _) = _
      unfold verifyArtifact
      rw [hdec]
      rfl
    have hholds := @fileChecks_ok X kew a n nowUnix hdec
    rw [himport]
    unfold verdictFor
    rw [verdictChecks_offline]
    cases hchecks : fileChecks X a kew n nowUnix with
    | error reason =>
      obtain ⟨e, he⟩ := raises_fileChecks reason hchecks
      show (match importRejection (.rejected reason) with
        | some e => Except.error e
        | none => _) = _ ↔ _
      rw [he]
      refine iff_of_false nofun ?_
      rintro ⟨a', n', h, -⟩
      obtain ⟨rfl, rfl⟩ := Prod.mk.inj (Except.ok.inj (hdec.symm.trans h.decoded))
      cases hchecks.symm.trans (hholds.2 h)
    | ok _ =>
      constructor
      · intro h
        exact ⟨a, n, hholds.1 hchecks, (Except.ok.inj h).symm⟩
      · rintro ⟨a', n', h, rfl⟩
        obtain ⟨rfl, rfl⟩ := Prod.mk.inj (Except.ok.inj (hdec.symm.trans h.decoded))
        rfl

end

/-! ## What the expert signs -/

section

variable {X : Externals} {keyDirectory : KeyDirectory} {types : List AttestationType} {context : PolicyContext}

/-- What the expert signed for an artifact is valid at every time that 64 bits count but the last, which no window
contains. -/
theorem individuallyValid_signed (hX : X.Lawful) {attestation : Attestation} {manifest : Manifest} {t : AttestationType}
    {stampedUnix : UInt64}
    (hsigned : signAttestation X (expertPayload X manifest t stampedUnix) TestKeys.expertFixedSeed = .ok attestation)
    (hkey : keyDirectory.lookup TestKeys.testExpertKeyId = some (testExpertEntry X types)) (ht : t ∈ types)
    (hlocal : context.isLocal = true) (hversion : attestationPolicyVersion ∈ context.supportedPolicyVersions)
    (hsource : ∀ current ∈ context.currentLegalSourceHash, manifest.sourceCorpusHash = current) :
    IndividuallyValid X attestation manifest.artifactHash manifest keyDirectory context ↔
      context.nowUnix ≠ 18446744073709551615 := by
  obtain ⟨p, hp, rfl⟩ := signAttestation_ok.1 hsigned
  have hwindow : context.nowUnix < 18446744073709551615 ↔ context.nowUnix ≠ 18446744073709551615 := by
    have hle := context.nowUnix.toNat_lt
    rw [UInt64.lt_iff_toNat_lt, ne_eq, ← UInt64.toNat_inj]
    show context.nowUnix.toNat < 18446744073709551615 ↔ ¬ context.nowUnix.toNat = 18446744073709551615
    omega
  rw [← hwindow]
  constructor
  · intro h
    obtain ⟨entry, hentry, hauthorizes, -⟩ := h.key
    obtain rfl := Option.some.inj (hkey.symm.trans hentry)
    exact hauthorizes.notAfter
  · intro hnow
    have hrole : signerRoleFor t ∈ [SignerRole.domainExpert, .publicationApprover] := by cases t <;> decide
    have hauthorizes : (testExpertEntry X types).Authorizes context.nowUnix (signerRoleFor t) t :=
      ⟨rfl, UInt64.zero_le, hnow, hrole, ht⟩
    refine ⟨⟨_, hkey, hauthorizes, p, ?_, hX.verify_sign _ _⟩, deriveClass_mockStamp X hX _ _, fun _ => hlocal, rfl, rfl,
      rfl, rfl, hversion, ?_, hsource⟩
    · -- the signature is not part of what is signed
      rw [payloadPrefix_eq] at hp ⊢
      exact hp
    · intro day hday
      cases hday

/-- Such attestations, with no type required, are complete exactly when an approval among them is accompanied, and
there are none or the time is not that last one. -/
theorem complete_signed_iff (hX : X.Lawful) {a : Artifact} (hsigned : ExpertSigned X a) {policy : VerificationPolicy}
    (hkey : keyDirectory.lookup TestKeys.testExpertKeyId = some (testExpertEntry X types))
    (hrequired : policy.requiredAttestationTypes = [])
    (htypes : ∀ attestation ∈ a.attestations, attestation.attestationType ∈ types) (hlocal : context.isLocal = true)
    (hversion : ∀ attestation ∈ a.attestations, attestation.attestationPolicyVersion ∈ context.supportedPolicyVersions)
    (hsource : ∀ current ∈ context.currentLegalSourceHash, a.manifest.sourceCorpusHash = current) :
    AttestationSetComplete X a policy keyDirectory context ↔
      CoAttested a.manifest.artifactKind a.attestations ∧
        (a.attestations ≠ [] → context.nowUnix ≠ 18446744073709551615) := by
  have hvalid : ∀ attestation ∈ a.attestations,
      (IndividuallyValid X attestation a.manifest.artifactHash a.manifest keyDirectory context ↔
        context.nowUnix ≠ 18446744073709551615) := by
    intro attestation hmem
    obtain ⟨t, stampedUnix, hsign⟩ := hsigned attestation hmem
    obtain ⟨p, -, rfl⟩ := signAttestation_ok.1 hsign
    exact individuallyValid_signed hX hsign hkey (htypes _ hmem) hlocal (hversion _ hmem) hsource
  constructor
  · intro h
    refine ⟨h.coAttested, fun hne => ?_⟩
    obtain ⟨attestation, hmem⟩ := List.exists_mem_of_ne_nil _ hne
    exact (hvalid attestation hmem).1 (h.valid attestation hmem)
  · rintro ⟨hco, hnow⟩
    refine ⟨fun attestation hmem => (hvalid attestation hmem).2 (hnow (List.ne_nil_of_mem hmem)), ?_, hco⟩
    rw [hrequired]
    exact nofun

/-- An approval among the attestations is accompanied, and there are none or the time is not the last one. -/
def Importable (a : Artifact) (nowUnix : UInt64) : Prop :=
  CoAttested a.manifest.artifactKind a.attestations ∧ (a.attestations ≠ [] → nowUnix ≠ 18446744073709551615)

theorem importKeyDirectory_lookup_expert : (importKeyDirectory X).lookup TestKeys.testExpertKeyId =
    some (testExpertEntry X
      [.sourceFidelity, .interpretation, .scenarioCoverage, .equivalenceClaim, .publicationApproval]) := by
  have hne : TestKeys.testKeyId ≠ TestKeys.testExpertKeyId := by decide
  unfold KeyDirectory.lookup importKeyDirectory
  refine (List.find?_cons_of_neg ?_).trans (List.find?_cons_of_pos (decide_eq_true rfl))
  exact fun h => hne (of_decide_eq_true h)

/-- The expert signs under the version that publication and import support. -/
theorem ExpertSigned.version {a : Artifact} (h : ExpertSigned X a) {attestation : Attestation}
    (hmem : attestation ∈ a.attestations) : attestation.attestationPolicyVersion = "ap-1" := by
  obtain ⟨t, stampedUnix, hsign⟩ := h attestation hmem
  obtain ⟨p, -, rfl⟩ := signAttestation_ok.1 hsign
  rfl

/-- A file of the registry holds together exactly when it is importable. -/
theorem Stored.holdsTogether_iff (hX : X.Lawful) {hash : Hash32} {kew : Bytes} {a : Artifact} {n : Nat}
    {nowUnix : UInt64} (ha : Stored X hash kew a) (hsigned : ExpertSigned X a) (hdec : decodeArtifact X kew = .ok (a, n)) :
    HoldsTogether X kew nowUnix a n ↔ Importable a nowUnix := by
  have hsource : ∀ current ∈ (importContext X kew nowUnix).currentLegalSourceHash,
      a.manifest.sourceCorpusHash = current := by
    intro current hcurrent
    unfold importContext at hcurrent
    rw [hdec] at hcurrent
    exact Option.some.inj hcurrent
  have htypes : ∀ attestation ∈ a.attestations, attestation.attestationType ∈ [AttestationType.sourceFidelity,
      .interpretation, .scenarioCoverage, .equivalenceClaim, .publicationApproval] := by
    intro attestation _
    cases attestation.attestationType <;> decide
  have hcomplete : AttestationSetComplete X a importPolicy (importKeyDirectory X) (importContext X kew nowUnix) ↔
      Importable a nowUnix :=
    complete_signed_iff hX hsigned importKeyDirectory_lookup_expert rfl htypes rfl
      (fun attestation hmem => List.mem_singleton.2 (hsigned.version hmem)) hsource
  refine ⟨fun h => hcomplete.1 h.attestations, fun h => ⟨hdec, ?_, ?_, hcomplete.2 h⟩⟩
  · rw [ha.address]
    exact ha.verifyHash
  · obtain ⟨n', hdec', -, hsig⟩ := ha.decode
    obtain ⟨-, rfl⟩ := Prod.mk.inj (Except.ok.inj (hdec.symm.trans hdec'))
    refine ⟨testCompilerEntry X, ?_, ?_⟩
    · rw [hsig]
      exact List.find?_cons_of_pos (decide_eq_true rfl)
    · rw [hsig]
      exact hX.verify_sign _ _

end

section

variable {X : Externals} {r : Backend} {hash : Hash32}

theorem exportKew_ok {write : Bytes → Except String Unit} {kew : Bytes} {exported : ExportOutcome} :
    exportKew r hash write = .ok (kew, exported) ↔
      r.readArtifactKew hash = .ok kew ∧ write kew = .ok () ∧ exported = ⟨hash, kew.length⟩ := by
  constructor
  · intro h
    obtain ⟨kew', hkew, h⟩ := bind_ok.1 h
    obtain ⟨_, hwrite, h⟩ := bind_ok.1 h
    obtain ⟨rfl, rfl⟩ := Prod.mk.inj (pure_ok.1 h)
    exact ⟨mapError_ok.1 hkew, mapError_ok.1 hwrite, rfl⟩
  · rintro ⟨hkew, hwrite, rfl⟩
    exact bind_ok.2 ⟨kew, mapError_ok.2 hkew, bind_ok.2 ⟨(), mapError_ok.2 hwrite, rfl⟩⟩

end

/-- Whatever commands run side by side, an exported file decodes under the hash that it was exported for. It is
imported exactly when it is importable, never as verified, and with the provenance that the registry exports, but for
the state and the head that a file does not have. -/
theorem together_exported {X : Externals} (hX : X.Lawful) (commands : List CommandLine)
    (schedule : List (Turn CommandError)) (hash : Hash32) (write : Bytes → Except String Unit) (nowUnix : UInt64) :
    let left := ((together X commands .empty).run @perform schedule).store
    ∀ kew exported, exportKew left hash write = .ok (kew, exported) → ∃ a n, decodeArtifact X kew = .ok (a, n) ∧
      ((∃ outcome, importKew X (.ok kew) nowUnix = .ok outcome) ↔ Importable a nowUnix) ∧
      ∀ outcome, importKew X (.ok kew) nowUnix = .ok outcome → outcome.artifactHash = exported.artifactHash ∧
        outcome.verdict = .rejected (.notPublished .unknown) ∧ ∀ p, exportProvenance X left hash nowUnix = .ok p →
          outcome.provenance = { p with registryState := .unknown, registryEventHeadHash := zeroHash } := by
  intro left kew exported hexport
  have hsound : left.Sound X := sound_together .empty commands schedule
  obtain ⟨hkew, -, rfl⟩ := exportKew_ok.1 hexport
  obtain ⟨a, ha, hsigned⟩ := hsound.stored hash kew (readArtifactKew_ok.1 hkew)
  obtain ⟨n, hdec, -⟩ := ha.decode
  have hholds := @Stored.holdsTogether_iff X hX hash kew a n nowUnix ha hsigned hdec
  have hdecoded : ∀ {a' n'}, HoldsTogether X kew nowUnix a' n' → a' = a ∧ n' = n := fun h =>
    Prod.mk.inj (Except.ok.inj (h.decoded.symm.trans hdec))
  refine ⟨a, n, hdec, ⟨?_, fun h => ⟨_, importKew_ok.2 ⟨a, n, hholds.2 h, rfl⟩⟩⟩, fun outcome houtcome => ?_⟩
  · rintro ⟨outcome, houtcome⟩
    obtain ⟨a', n', h, -⟩ := importKew_ok.1 houtcome
    obtain ⟨rfl, rfl⟩ := hdecoded h
    exact hholds.1 h
  · obtain ⟨a', n', h, rfl⟩ := importKew_ok.1 houtcome
    obtain ⟨rfl, rfl⟩ := hdecoded h
    refine ⟨ha.address, rfl, fun p hp => ?_⟩
    obtain ⟨kew', hkew', hp⟩ := bind_ok.1 hp
    obtain rfl := Except.ok.inj (hkew.symm.trans hkew')
    obtain ⟨decoded, hdec', hp⟩ := bind_ok.1 hp
    obtain rfl := Except.ok.inj (hdec.symm.trans (mapError_ok.1 hdec'))
    obtain ⟨evidence, -, hp⟩ := bind_ok.1 hp
    obtain rfl := pure_ok.1 hp
    rfl

theorem together_exported_crowd : ∃ kew exported outcome,
    exportKew ((together standIn crowd .empty).run @perform crowdFirst).store transferHash (fun _ => .ok ()) =
        .ok (kew, exported) ∧
      importKew standIn (.ok kew) 9 = .ok outcome ∧ outcome.artifactHash = exported.artifactHash ∧
        outcome.verdict = .rejected (.notPublished .unknown) := by
  have hrun : (exportKew ((together standIn crowd .empty).run @perform crowdFirst).store transferHash
      (fun _ => .ok ())).toOption.any (fun e => (importKew standIn (.ok e.1) 9).isOk) = true := by decide +kernel
  obtain ⟨⟨kew, exported⟩, hexport, hrun⟩ := exists_ok_and hrun
  obtain ⟨outcome, houtcome⟩ := exists_ok hrun
  obtain ⟨a, n, -, -, himported⟩ :=
    together_exported standIn_lawful crowd crowdFirst transferHash (fun _ => .ok ()) 9 kew exported hexport
  obtain ⟨hhash, hverdict, -⟩ := himported outcome houtcome
  exact ⟨kew, exported, outcome, hexport, houtcome, hhash, hverdict⟩

end Ke.Registry
