/-
How a verdict depends on what it is given. A directory that resolves more, a policy that asks for less and a
context that pins less verify no fewer artifacts, and what is verified early and late is verified in between. Two
sets of attestations that are verified after one envelope are verified together.
-/
import KeEngine.Artifact.Coverage
import KeEngine.Artifact.Verify

namespace Ke

open Wire

/-! ## The order of what is given -/

/-- The wider entry has the key, and whatever the other allows it allows. -/
structure KeyDirectoryEntry.Within (entry wider : KeyDirectoryEntry) : Prop where
  publicKey : wider.publicKey = entry.publicKey
  active : entry.status = .active → wider.status = .active
  notBefore : wider.validFromUnix ≤ entry.validFromUnix
  notAfter : entry.validToUnix ≤ wider.validToUnix
  roles : entry.signerRoles ⊆ wider.signerRoles
  types : entry.authorizedAttestationTypes ⊆ wider.authorizedAttestationTypes

/-- A revocation, an expiry, a narrower window or role, a key taken out: each makes a directory that is within. -/
def KeyDirectory.Within (directory wider : KeyDirectory) : Prop :=
  ∀ keyId, ∀ entry ∈ directory.lookup keyId, ∃ entry' ∈ wider.lookup keyId, entry.Within entry'

/-- Fewer types are required, none of them more often. -/
structure VerificationPolicy.AsksNoMore (policy strict : VerificationPolicy) : Prop where
  required : policy.requiredAttestationTypes ⊆ strict.requiredAttestationTypes
  minimum : ∀ t ∈ policy.requiredAttestationTypes, policy.minimumOf t ≤ strict.minimumOf t

/-- A clock between two, in a context that pins no more than the first. -/
structure PolicyContext.Between (context early late : PolicyContext) : Prop where
  notBefore : early.nowUnix ≤ context.nowUnix
  notAfter : context.nowUnix ≤ late.nowUnix
  isLocal : early.isLocal = true → context.isLocal = true
  versions : early.supportedPolicyVersions ⊆ context.supportedPolicyVersions
  source : ∀ current ∈ context.currentLegalSourceHash, early.currentLegalSourceHash = some current

/-! ## Verdicts in that order -/

section

variable {X : Externals} {artifact : Artifact} {keyDirectory wider : KeyDirectory} {context early late : PolicyContext}
  {policy strict : VerificationPolicy} {registry : RegistryEvidence} {kew : Bytes}

theorem KeyDirectoryEntry.Authorizes.between {entry wider : KeyDirectoryEntry} {role : SignerRole}
    {attestationType : AttestationType} (hearly : entry.Authorizes early.nowUnix role attestationType)
    (hlate : entry.Authorizes late.nowUnix role attestationType) (hwider : entry.Within wider)
    (hbetween : context.Between early late) : wider.Authorizes context.nowUnix role attestationType where
  active := hwider.active hearly.active
  notBefore := UInt64.le_trans hwider.notBefore (UInt64.le_trans hearly.notBefore hbetween.notBefore)
  notAfter := UInt64.lt_of_lt_of_le (UInt64.lt_of_le_of_lt hbetween.notAfter hlate.notAfter) hwider.notAfter
  role := hwider.roles hearly.role
  type := hwider.types hearly.type

theorem IndividuallyValid.between {a : Attestation} {hash : Hash32} {manifest : Manifest}
    (hearly : IndividuallyValid X a hash manifest keyDirectory early)
    (hlate : IndividuallyValid X a hash manifest keyDirectory late) (hwider : keyDirectory.Within wider)
    (hbetween : context.Between early late) : IndividuallyValid X a hash manifest wider context where
  key := by
    obtain ⟨entry, hlookup, hauth, signed, hsigned, hverify⟩ := hearly.key
    obtain ⟨entry', hlookup', hauth', -⟩ := hlate.key
    -- the two clocks find one entry
    obtain rfl := Option.some.inj (hlookup.symm.trans hlookup')
    obtain ⟨entry', hentry', hin⟩ := hwider a.keyId entry hlookup
    exact ⟨entry', hentry', hauth.between hauth' hin hbetween, signed, hsigned, by rw [hin.publicKey]; exact hverify⟩
  timestamp := hearly.timestamp
  mockLocal h := hbetween.isLocal (hearly.mockLocal h)
  hash := hearly.hash
  regime := hearly.regime
  compiler := hearly.compiler
  irSchema := hearly.irSchema
  policyVersion := hbetween.versions hearly.policyVersion
  unexpired day hday := by
    have hle : context.nowUnix.toNat ≤ late.nowUnix.toNat := UInt64.le_iff_toNat_le.1 hbetween.notAfter
    have hlt := hlate.unexpired day hday
    omega
  source current hcurrent := hearly.source current (hbetween.source current hcurrent)

theorem AttestationSetComplete.between (hearly : AttestationSetComplete X artifact strict keyDirectory early)
    (hlate : AttestationSetComplete X artifact strict keyDirectory late) (hwider : keyDirectory.Within wider)
    (hpolicy : policy.AsksNoMore strict) (hbetween : context.Between early late) :
    AttestationSetComplete X artifact policy wider context where
  valid a ha := (hearly.valid a ha).between (hlate.valid a ha) hwider hbetween
  required t ht := (hpolicy.minimum t ht).trans (hearly.required t (hpolicy.required ht))
  coAttested := hearly.coAttested

/-- What is verified early and late is verified in between, and no less under a wider directory, a policy that asks
for no more and a context that pins no more. -/
theorem verified_between (X : Externals) (kew : Bytes) (keyDirectory wider : KeyDirectory)
    (context early late : PolicyContext) (policy strict : VerificationPolicy) (registry : RegistryEvidence)
    (exportedAtUnix : UInt64)
    (hearly : (verifyArtifact X kew keyDirectory early strict registry exportedAtUnix).verdict = .verified)
    (hlate : (verifyArtifact X kew keyDirectory late strict registry exportedAtUnix).verdict = .verified)
    (hwider : keyDirectory.Within wider) (hpolicy : policy.AsksNoMore strict) (hbetween : context.Between early late) :
    (verifyArtifact X kew wider context policy registry exportedAtUnix).verdict = .verified := by
  obtain ⟨artifact, n, entry, h⟩ := verified_iff.1 hearly
  obtain ⟨artifact', n', entry', h'⟩ := verified_iff.1 hlate
  obtain ⟨rfl, rfl⟩ : artifact = artifact' ∧ n = n' := by
    have hdec := h.decoded.symm.trans h'.decoded
    rwa [Except.ok.injEq, Prod.mk.injEq] at hdec
  obtain ⟨found, hfound, hin⟩ := hwider _ entry h.key
  exact verified_iff.2 ⟨artifact, n, found,
    { decoded := h.decoded
      hash := h.hash
      key := hfound
      signature := by rw [hin.publicKey]; exact h.signature
      attestations := h.attestations.between h'.attestations hwider hpolicy hbetween
      published := h.published
      live := h.live }⟩

/-! ## Sets of attestations together -/

theorem CoAttested.append {kind : ArtifactKind} {as bs : List Attestation} (has : CoAttested kind as)
    (hbs : CoAttested kind bs) : CoAttested kind (as ++ bs) := by
  rintro ⟨a, ha, htype⟩ coType hco
  rcases List.mem_append.1 ha with ha | ha
  · obtain ⟨b, hb, hb'⟩ := has ⟨a, ha, htype⟩ coType hco
    exact ⟨b, List.mem_append_left _ hb, hb'⟩
  · obtain ⟨b, hb, hb'⟩ := hbs ⟨a, ha, htype⟩ coType hco
    exact ⟨b, List.mem_append_right _ hb, hb'⟩

theorem AttestationSetComplete.append {as bs : List Attestation}
    (has : AttestationSetComplete X { artifact with attestations := as } policy keyDirectory context)
    (hbs : AttestationSetComplete X { artifact with attestations := bs } policy keyDirectory context) :
    AttestationSetComplete X { artifact with attestations := as ++ bs } policy keyDirectory context where
  valid a ha := (List.mem_append.1 ha).elim (has.valid a) (hbs.valid a)
  required t ht := (has.required t ht).trans (typeCount_append_le t as bs)
  coAttested := has.coAttested.append hbs.coAttested

/-- The bytes of an artifact with attestations are verified when its envelope and signature are, and the set is complete. -/
theorem withAttestations_verified_iff {as : List Attestation} {a' : Artifact}
    (hwith : artifact.withAttestations as = .ok (a', kew)) {exportedAtUnix : UInt64} :
    (verifyArtifact X kew keyDirectory context policy registry exportedAtUnix).verdict = .verified ↔
      (∃ e entry, Postcard.envelope.enc artifact.toEnvelope = .ok e ∧
        validateManifest X.isNfc artifact.manifest = .ok () ∧
        validatePayload X artifact.manifest.artifactKind artifact.payload = .ok () ∧
        contentHash X e = .ok artifact.manifest.artifactHash ∧
        keyDirectory.lookup artifact.compilerSignature.keyId = some entry ∧
        X.verify entry.publicKey e artifact.compilerSignature.signature = true ∧
        registry.status = .published ∧ ∀ live ∈ registry.liveEventHead, live = registry.eventHeadHash) ∧
      AttestationSetComplete X { artifact with attestations := as } policy keyDirectory context := by
  obtain ⟨rfl, henc⟩ := withAttestations_ok hwith
  obtain ⟨e, s, t, m, he, hs, ht, hm, rfl⟩ := artifact_enc_ok henc
  have hdec := @decodeArtifact_enc X _ e s t m he hs ht hm
  rw [verified_iff]
  constructor
  · rintro ⟨artifact', n, entry, h⟩
    obtain ⟨hmanifest, hpayload, heq⟩ := hdec.1 h.decoded
    obtain ⟨rfl, rfl⟩ := Prod.mk.inj heq
    obtain ⟨a₀, n₀, hdec₀, hcontent, -⟩ := verifyHash_ok h.hash
    rw [h.decoded] at hdec₀
    cases hdec₀
    have hsig := h.signature
    rw [List.take_left] at hcontent hsig
    exact ⟨⟨e, entry, he, hmanifest, hpayload, hcontent, h.key, hsig, h.published, h.live⟩, h.attestations⟩
  · rintro ⟨⟨e', entry, he', hmanifest, hpayload, hcontent, hkey, hsig, hpublished, hlive⟩, hcomplete⟩
    obtain rfl : e = e' := Except.ok.inj (he.symm.trans he')
    have hdecoded := hdec.2 ⟨hmanifest, hpayload, rfl⟩
    refine ⟨_, _, entry,
      { decoded := hdecoded
        hash := ?_
        key := hkey
        signature := by rw [List.take_left]; exact hsig
        attestations := hcomplete
        published := hpublished
        live := hlive }⟩
    refine bind_ok.2 ⟨_, hdecoded, bind_ok.2 ⟨artifact.manifest.artifactHash, ?_, ?_⟩⟩
    · rw [List.take_left]
      exact hcontent
    · simp only [ne_eq, not_true_eq_false, if_false]
      rfl

/-- Two sets of attestations that are verified after one envelope are verified together. -/
theorem verified_together (X : Externals) (artifact : Artifact) (as bs : List Attestation) (a₁ a₂ a₃ : Artifact)
    (kew₁ kew₂ kew₃ : Bytes) (keyDirectory : KeyDirectory) (context : PolicyContext) (policy : VerificationPolicy)
    (registry : RegistryEvidence) (exportedAtUnix : UInt64) (h₁ : artifact.withAttestations as = .ok (a₁, kew₁))
    (h₂ : artifact.withAttestations bs = .ok (a₂, kew₂)) (h₃ : artifact.withAttestations (as ++ bs) = .ok (a₃, kew₃))
    (hv₁ : (verifyArtifact X kew₁ keyDirectory context policy registry exportedAtUnix).verdict = .verified)
    (hv₂ : (verifyArtifact X kew₂ keyDirectory context policy registry exportedAtUnix).verdict = .verified) :
    (verifyArtifact X kew₃ keyDirectory context policy registry exportedAtUnix).verdict = .verified := by
  obtain ⟨henvelope, has⟩ := (withAttestations_verified_iff h₁).1 hv₁
  obtain ⟨-, hbs⟩ := (withAttestations_verified_iff h₂).1 hv₂
  exact (withAttestations_verified_iff h₃).2 ⟨henvelope, has.append hbs⟩

end

/-! ## An artifact attested by the test expert -/

/-- An assembled artifact with one attestation of each type, and its bytes. -/
def attestedBy (assembled : Except ArtifactError (Artifact × Bytes)) (types : List AttestationType) :
    Option (Artifact × List Attestation × Artifact × Bytes) := do
  let (artifact, _) ← assembled.toOption
  let attestations ← types.mapM fun t =>
    (signAttestation standIn (expertPayload standIn artifact.manifest t 0) TestKeys.expertFixedSeed).toOption
  let (attested, kew) ← (artifact.withAttestations attestations).toOption
  some (artifact, attestations, attested, kew)

theorem attestedBy_ok {assembled : Except ArtifactError (Artifact × Bytes)} {types : List AttestationType}
    {artifact attested : Artifact} {attestations : List Attestation} {kew : Bytes}
    (h : attestedBy assembled types = some (artifact, attestations, attested, kew)) :
    assembled.toOption.map Prod.fst = some artifact ∧ artifact.withAttestations attestations = .ok (attested, kew) := by
  obtain ⟨r, hr, h⟩ := Option.bind_eq_some_iff.1 h
  obtain ⟨as, -, h⟩ := Option.bind_eq_some_iff.1 h
  obtain ⟨w, hw, h⟩ := Option.bind_eq_some_iff.1 h
  cases h
  exact ⟨by rw [hr]; rfl, toOption_ok.1 hw⟩

def compilerEntry : KeyDirectoryEntry where
  keyId := TestKeys.testKeyId
  publicKey := standIn.verifyingKey TestKeys.fixedSeed
  signerRoles := [.registry]
  authorizedAttestationTypes := []
  validFromUnix := 0
  validToUnix := 18446744073709551615
  status := .active

/-- The expert's key for one type, from 5 to 2000. -/
def narrowEntry : KeyDirectoryEntry where
  keyId := TestKeys.testExpertKeyId
  publicKey := standIn.verifyingKey TestKeys.expertFixedSeed
  signerRoles := [.domainExpert]
  authorizedAttestationTypes := [.sourceFidelity]
  validFromUnix := 5
  validToUnix := 2000
  status := .active

def narrowDirectory : KeyDirectory := ⟨[compilerEntry, narrowEntry]⟩

def wideDirectory : KeyDirectory := ⟨compilerEntry :: (testExpertKeyDirectory standIn).entries⟩

def publishedEvidence : RegistryEvidence := ⟨.published, zeroHash, none⟩

theorem narrow_within_wide : narrowDirectory.Within wideDirectory := by
  intro keyId entry h
  simp only [narrowDirectory, wideDirectory, testExpertKeyDirectory, KeyDirectory.lookup, List.find?_cons,
    List.find?_nil, Option.mem_def] at h ⊢
  split at h
  · cases h
    exact ⟨_, rfl, rfl, fun _ => rfl, UInt64.le_refl _, UInt64.le_refl _, fun _ h => h, fun _ h => h⟩
  · split at h
    · rename_i hkey
      cases h
      obtain rfl : TestKeys.testExpertKeyId = keyId := of_decide_eq_true hkey
      refine ⟨_, by rw [decide_eq_true rfl], ?_⟩
      exact ⟨rfl, fun _ => rfl, by decide, by decide, by decide, by decide⟩
    · cases h

theorem verified_between_transfer : ∃ artifact attestations attested kew,
    attestedBy transferArtifact [.sourceFidelity] = some (artifact, attestations, attested, kew) ∧
    (verifyArtifact standIn kew wideDirectory (localPolicyContext 700) permissivePolicy publishedEvidence 0).verdict =
      .verified := by
  have hrun : (attestedBy transferArtifact [.sourceFidelity]).any (fun r =>
      decide ((verifyArtifact standIn r.2.2.2 narrowDirectory (localPolicyContext 10) fidelityPolicy publishedEvidence
        0).verdict = .verified) &&
      decide ((verifyArtifact standIn r.2.2.2 narrowDirectory (localPolicyContext 1000) fidelityPolicy publishedEvidence
        0).verdict = .verified)) = true := by decide +kernel
  obtain ⟨⟨artifact, attestations, attested, kew⟩, h, hr⟩ := (Option.any_eq_true _ _).1 hrun
  rw [Bool.and_eq_true] at hr
  refine ⟨artifact, attestations, attested, kew, h, verified_between standIn kew narrowDirectory wideDirectory
    (localPolicyContext 700) (localPolicyContext 10) (localPolicyContext 1000) permissivePolicy fidelityPolicy
    publishedEvidence 0 (of_decide_eq_true hr.1) (of_decide_eq_true hr.2) narrow_within_wide ?_ ?_⟩
  · exact ⟨List.nil_subset _, fun t ht => by cases ht⟩
  · exact ⟨by decide, by decide, fun h => h, fun _ h => h, fun _ h => by cases h⟩

theorem verified_together_transfer : ∃ (artifact a₃ : Artifact) (as bs : List Attestation) (kew₃ : Bytes),
    artifact.withAttestations (as ++ bs) = .ok (a₃, kew₃) ∧ as ≠ bs ∧
    (verifyArtifact standIn kew₃ wideDirectory (localPolicyContext 700) fidelityPolicy publishedEvidence 0).verdict =
      .verified := by
  have hrun : (attestedBy transferArtifact [.sourceFidelity]).any (fun r =>
      (attestedBy transferArtifact [.sourceFidelity, .interpretation]).any fun r' =>
        decide (r.2.1 ≠ r'.2.1) && (r.1.withAttestations (r.2.1 ++ r'.2.1)).isOk &&
        decide ((verifyArtifact standIn r.2.2.2 wideDirectory (localPolicyContext 700) fidelityPolicy publishedEvidence
          0).verdict = .verified) &&
        decide ((verifyArtifact standIn r'.2.2.2 wideDirectory (localPolicyContext 700) fidelityPolicy publishedEvidence
          0).verdict = .verified)) = true := by decide +kernel
  obtain ⟨⟨artifact, as, a₁, kew₁⟩, h₁, hrun⟩ := (Option.any_eq_true _ _).1 hrun
  obtain ⟨⟨artifact', bs, a₂, kew₂⟩, h₂, hr⟩ := (Option.any_eq_true _ _).1 hrun
  simp only [Bool.and_eq_true, decide_eq_true_eq] at hr
  obtain ⟨⟨⟨hne, h₃⟩, hv₁⟩, hv₂⟩ := hr
  obtain ⟨⟨a₃, kew₃⟩, h₃⟩ := exists_ok h₃
  obtain ⟨hsame, h₁⟩ := attestedBy_ok h₁
  obtain ⟨hsame', h₂⟩ := attestedBy_ok h₂
  obtain rfl : artifact = artifact' := Option.some.inj (hsame.symm.trans hsame')
  exact ⟨artifact, a₃, as, bs, kew₃, h₃, hne, verified_together standIn artifact as bs a₁ a₂ a₃ kew₁ kew₂ kew₃
    wideDirectory (localPolicyContext 700) fidelityPolicy publishedEvidence 0 h₁ h₂ h₃ hv₁ hv₂⟩

end Ke
