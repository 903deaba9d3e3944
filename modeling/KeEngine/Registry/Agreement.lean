/-
Publish, serve and graph export about one artifact: what publish accepts under the policy of the kind
the export admits, and serve verifies it when its own policy asks for nothing more.
-/
import KeEngine.Core.SemanticLaws
import KeEngine.Registry.Readers
import KeEngine.Registry.Runs

namespace Ke.Registry

open Ke Wire

/-! ## Declared versions and types -/

theorem mem_declaredVersions {artifact : Artifact} {a : Attestation} (h : a ∈ artifact.attestations) :
    a.attestationPolicyVersion ∈ declaredVersions artifact := mem_sortDedup.2 (List.mem_map_of_mem h)

theorem mem_declaredTypes {artifact : Artifact} {a : Attestation} (h : a ∈ artifact.attestations) :
    a.attestationType ∈ declaredTypes artifact :=
  mem_destutter_ne ((perm_sortBy _ _).mem_iff.2 (List.mem_map_of_mem h))

/-! ## One set, two directories -/

section

variable {X : Externals} {artifact : Artifact} {nowUnix : UInt64}

theorem testExpertKeyDirectory_lookup {keyId : String} {entry : KeyDirectoryEntry}
    (h : (testExpertKeyDirectory X).lookup keyId = some entry) :
    keyId = TestKeys.testExpertKeyId ∧ entry = testExpertEntry X
      [.sourceFidelity, .interpretation, .scenarioCoverage, .equivalenceClaim, .publicationApproval] := by
  unfold KeyDirectory.lookup at h
  have hfound := List.find?_some h
  have hkeyId := of_decide_eq_true hfound
  obtain rfl := List.mem_singleton.1 (List.mem_of_find?_eq_some h)
  exact ⟨hkeyId.symm, rfl⟩

theorem testKeyDirectory_lookup_expert : (testKeyDirectory X artifact).lookup TestKeys.testExpertKeyId =
    some (testExpertEntry X (declaredTypes artifact)) := by
  have hne : TestKeys.testKeyId ≠ TestKeys.testExpertKeyId := by decide
  unfold KeyDirectory.lookup testKeyDirectory
  refine (List.find?_cons_of_neg ?_).trans (List.find?_cons_of_pos (decide_eq_true rfl))
  exact fun h => hne (of_decide_eq_true h)

theorem testKeyDirectory_lookup_compiler :
    (testKeyDirectory X artifact).lookup TestKeys.testKeyId = some (testCompilerEntry X) := by
  unfold KeyDirectory.lookup testKeyDirectory
  exact List.find?_cons_of_pos (decide_eq_true rfl)

/-- What the directory of publish lets pass, the one made for the artifact does. -/
theorem forArtifact_valid {a : Attestation} (ha : a ∈ artifact.attestations) {hash : Hash32} {manifest : Manifest}
    (h : IndividuallyValid X a hash manifest (testExpertKeyDirectory X) (localPolicyContext nowUnix)) :
    IndividuallyValid X a hash manifest (testKeyDirectory X artifact) (artifactContext artifact "local" nowUnix) := by
  obtain ⟨entry, hlookup, hauthorizes, signed⟩ := h.key
  obtain ⟨hkeyId, rfl⟩ := testExpertKeyDirectory_lookup hlookup
  have hauthorized : (testExpertEntry X (declaredTypes artifact)).Authorizes nowUnix a.signerRole a.attestationType :=
    ⟨rfl, hauthorizes.notBefore, hauthorizes.notAfter, hauthorizes.role, mem_declaredTypes ha⟩
  have hkey : (testKeyDirectory X artifact).lookup a.keyId = some (testExpertEntry X (declaredTypes artifact)) := by
    rw [hkeyId, testKeyDirectory_lookup_expert]
  exact ⟨⟨_, hkey, hauthorized, signed⟩, h.timestamp, fun _ => rfl, h.hash, h.regime, h.compiler, h.irSchema,
    mem_declaredVersions ha, h.unexpired, h.source⟩

theorem forArtifact_complete {policy : VerificationPolicy}
    (h : AttestationSetComplete X artifact policy (testExpertKeyDirectory X) (localPolicyContext nowUnix)) :
    AttestationSetComplete X artifact policy (testKeyDirectory X artifact) (artifactContext artifact "local" nowUnix) :=
  ⟨fun a ha => forArtifact_valid ha (h.valid a ha), h.required, h.coAttested⟩

/-! ## Two policies -/

theorem typeCount_pos {t : AttestationType} {attestations : List Attestation} :
    1 ≤ typeCount t attestations ↔ ∃ a ∈ attestations, a.attestationType = t := by
  unfold typeCount
  rw [Nat.one_le_iff_ne_zero, Ne, List.length_eq_zero_iff, List.filter_eq_nil_iff]
  simp only [decide_eq_true_eq, not_forall, not_not, exists_prop]

theorem minimumOf_strictPolicy (types : List AttestationType) (t : AttestationType) :
    (strictPolicy types).minimumOf t = 1 := by
  unfold VerificationPolicy.minimumOf strictPolicy
  cases hfind : (types.map fun t => (⟨t, 1⟩ : AttestationCount)).find? fun c => decide (c.attestationType = t) with
  | none => rfl
  | some c =>
    obtain ⟨t', -, rfl⟩ := List.mem_map.1 (List.mem_of_find?_eq_some hfind)
    rfl

/-- A strict policy asks for every type once. -/
theorem required_strictPolicy {types : List AttestationType} {attestations : List Attestation} :
    (∀ t ∈ (strictPolicy types).requiredAttestationTypes, (strictPolicy types).minimumOf t ≤ typeCount t attestations) ↔
      ∀ t ∈ types, ∃ a ∈ attestations, a.attestationType = t := by
  refine forall₂_congr fun t _ => ?_
  rw [minimumOf_strictPolicy, typeCount_pos]

/-- Beyond the policy of the kind the default one asks for scenario coverage, of an intent alone. -/
theorem complete_default_iff {keyDirectory : KeyDirectory} {context : PolicyContext}
    (h : AttestationSetComplete X artifact (policyForKind artifact.manifest.artifactKind) keyDirectory context) :
    AttestationSetComplete X artifact defaultVerificationPolicy keyDirectory context ↔
      artifact.manifest.artifactKind ≠ .intentSpec ∨
        ∃ a ∈ artifact.attestations, a.attestationType = .scenarioCoverage := by
  by_cases hkind : artifact.manifest.artifactKind = .intentSpec
  · rw [hkind] at h
    constructor
    · intro hdefault
      exact .inr (required_strictPolicy.1 hdefault.required _ (by decide))
    · rintro (hne | hcovered)
      · exact absurd hkind hne
      · refine ⟨h.valid, required_strictPolicy.2 fun t ht => ?_, h.coAttested⟩
        have hintent := required_strictPolicy.1 h.required
        rcases List.mem_cons.1 ht with rfl | ht
        · exact hintent _ (by decide)
        rcases List.mem_cons.1 ht with rfl | ht
        · exact hcovered
        obtain rfl := List.mem_singleton.1 ht
        exact hintent _ (by decide)
  · have hpolicy : policyForKind artifact.manifest.artifactKind = defaultVerificationPolicy := by
      cases hk : artifact.manifest.artifactKind with
      | intentSpec => exact absurd hk hkind
      | regimePack | equivalenceMatrix | testCorpus | policyBundle => rfl
    rw [hpolicy] at h
    exact ⟨fun _ => .inl hkind, fun _ => h⟩

end

/-! ## Readers of a ready registry -/

section

variable {X : Externals} {hash : Hash32} {r : Backend} {s : Slot}

theorem Slot.Ready.readRegistryEvidence (hX : X.Lawful) (h : s.Ready X hash) (hs : r.Holds hash s) :
    ∃ eventHeadHash, readRegistryEvidence X r hash = .ok ⟨s.state.elim .unknown statusFor, eventHeadHash, none⟩ := by
  have hread := h.log.readEvents hs
  have hstate := h.log.currentState hX
  rcases h.log with hempty | hgrown
  · refine ⟨zeroHash, bind_ok.2 ⟨s.log, hread, bind_ok.2 ⟨s.state, hstate, bind_ok.2 ⟨zeroHash, ?_, rfl⟩⟩⟩⟩
    unfold Backend.eventHeadHash
    rw [hempty]
    rfl
  · obtain ⟨last, hlast⟩ := hgrown.exists_last
    obtain ⟨c, hc⟩ := (hgrown.signed last (List.mem_of_getLast? hlast)).chainHash
    refine ⟨c, bind_ok.2 ⟨s.log, hread, bind_ok.2 ⟨s.state, hstate, bind_ok.2 ⟨c, ?_, rfl⟩⟩⟩⟩
    unfold Backend.eventHeadHash
    rw [if_neg fun hnil => hgrown.ne_nil (List.isEmpty_iff.1 hnil)]
    refine bind_ok.2 ⟨last, bind_ok.2 ⟨s.log, hread, bind_ok.2 ⟨s.state, hstate, ?_⟩⟩, hc⟩
    rw [hlast]
    rfl

variable {kew : Bytes} {a : Artifact} {nowUnix : UInt64}

/-- Stored bytes of a published artifact check out under the test keys when the set is complete. -/
theorem Stored.checksOut_iff (hX : X.Lawful) (h : Stored X hash kew a) {n : Nat}
    (hdec : decodeArtifact X kew = .ok (a, n)) {context : PolicyContext} {policy : VerificationPolicy}
    {eventHeadHash : Hash32} {exportedAtUnix : UInt64} :
    (verifyArtifact X kew (testKeyDirectory X a) context policy ⟨.published, eventHeadHash, none⟩
      exportedAtUnix).verdict =
        .verified ↔
      AttestationSetComplete X a policy (testKeyDirectory X a) context := by
  obtain ⟨n', hdec', -, hsig⟩ := h.decode
  rw [hdec] at hdec'
  obtain rfl : n = n' := (Prod.mk.inj (Except.ok.inj hdec')).2
  rw [verified_iff]
  constructor
  · rintro ⟨a', n', entry, hchecks⟩
    obtain rfl : a = a' := (Prod.mk.inj (Except.ok.inj (hdec.symm.trans hchecks.decoded))).1
    exact hchecks.attestations
  · intro hcomplete
    refine ⟨a, n, testCompilerEntry X, hdec, ?_, ?_, ?_, hcomplete, rfl, nofun⟩
    · rw [h.verifyHash, h.address]
    · rw [hsig]
      exact testKeyDirectory_lookup_compiler
    · rw [hsig]
      exact hX.verify_sign _ _

/-! ## Agreement -/

/-- Serve verifies the artifact on request, and the export admits it. -/
def ServedAndExported (X : Externals) (r : Backend) (hash : Hash32) (req : VerifyRequest) (nowUnix : UInt64)
    (a : Artifact) : Prop :=
  (handleVerify X r req nowUnix).map (·.verdict) = .ok .verified ∧
    admitArtifact X r hash (req.env.getD "local") nowUnix = .ok (.verified a)

/-- A request for the artifact in the local environment, in the strict mode. -/
structure VerifyRequest.Strict (req : VerifyRequest) (hash : Hash32) : Prop where
  hash : req.hash = hex32 hash
  env : req.env.getD "local" = "local"
  policy : req.policy.getD "strict" = "strict"

theorem handleVerify_verified_iff (hX : X.Lawful) (hready : s.Ready X hash) (hs : r.Holds hash s)
    (hstate : s.state = some .published) (hkew : s.kew = some kew) (ha : Stored X hash kew a) {n : Nat}
    (hdec : decodeArtifact X kew = .ok (a, n)) {req : VerifyRequest} (hreq : req.Strict hash) :
    (handleVerify X r req nowUnix).map (·.verdict) = .ok .verified ↔
      AttestationSetComplete X a defaultVerificationPolicy (testKeyDirectory X a)
      (artifactContext a "local" nowUnix) := by
  obtain ⟨eventHeadHash, hevidence⟩ := hready.readRegistryEvidence hX hs
  rw [hstate] at hevidence
  rw [← ha.checksOut_iff hX hdec]
  generalize houtcome : verifyArtifact X kew (testKeyDirectory X a) (artifactContext a "local" nowUnix)
    defaultVerificationPolicy ⟨.published, eventHeadHash, none⟩ nowUnix = outcome
  have hrun : runVerify X kew req ⟨.published, eventHeadHash, none⟩ nowUnix = .ok outcome := by
    have hpolicy : verificationPolicy req.policy = .ok defaultVerificationPolicy := by
      unfold verificationPolicy
      rw [hreq.policy]
      rfl
    refine bind_ok.2 ⟨(a, n), mapError_ok.2 hdec, bind_ok.2 ⟨_, hpolicy, ?_⟩⟩
    rw [hreq.env, houtcome]
    rfl
  have hpublished : outcome.registryState = .published := by
    rw [← houtcome]
    unfold verifyArtifact
    rw [hdec]
  have hresponse : handleVerify X r req nowUnix =
      .ok ⟨outcome.verdict, outcome.provenance, outcome.registryState, none⟩ := by
    have hread : r.readArtifactKew hash = .ok kew := congrArg Prod.fst (readArtifactKew_some hs hkew)
    have hhash : hexToHash req.hash = .ok hash := by rw [hreq.hash, hexToHash_hex32]
    have hrevocation : r.surfacedRevocation hash outcome.registryState = .ok none :=
      if_neg (by rw [hpublished]; decide)
    refine bind_ok.2 ⟨hash, mapError_ok.2 hhash, bind_ok.2 ⟨kew, mapError_ok.2 hread, ?_⟩⟩
    refine bind_ok.2 ⟨_, mapError_ok.2 hevidence, bind_ok.2 ⟨outcome, hrun, ?_⟩⟩
    exact bind_ok.2 ⟨none, mapError_ok.2 hrevocation, rfl⟩
  rw [hresponse]
  exact ⟨Except.ok.inj, congrArg Except.ok⟩

theorem admitArtifact_verified_iff (hX : X.Lawful) (hready : s.Ready X hash) (hs : r.Holds hash s)
    (hstate : s.state = some .published) (hkew : s.kew = some kew) (ha : Stored X hash kew a) {n : Nat}
    (hdec : decodeArtifact X kew = .ok (a, n)) :
    admitArtifact X r hash "local" nowUnix = .ok (.verified a) ↔
      AttestationSetComplete X a (policyForKind a.manifest.artifactKind) (testKeyDirectory X a)
        (artifactContext a "local" nowUnix) := by
  obtain ⟨eventHeadHash, hevidence⟩ := hready.readRegistryEvidence hX hs
  rw [hstate] at hevidence
  rw [← ha.checksOut_iff hX hdec]
  unfold admitArtifact
  rw [show r.readArtifactKew hash = .ok kew from congrArg Prod.fst (readArtifactKew_some hs hkew)]
  simp only [hdec, ha.address, ne_eq, not_true_eq_false, if_false]
  rw [hevidence]
  simp only [bind, Except.bind, Option.elim_some, statusFor, not_true_eq_false, if_false]
  unfold verifyOutcome
  split
  · rename_i hverified
    exact ⟨fun _ => hverified, fun _ => rfl⟩
  · rename_i reason hrejected
    rw [hrejected]
    exact iff_of_false (fun h => by cases h) fun h => by cases h

/-- What a run published under the policy of its kind, and no later command touched, is exported, and
is served when it holds rules, or is covered by scenarios all the same. -/
theorem published_served_iff (hX : X.Lawful) {before after : List CommandLine} {env tag : String}
    {state : LifecycleState} {n : Nat}
    (hpublish : ((CommandLine.publish hash env tag none nowUnix).run X (runAll X before .empty)).1 = .ok state)
    (hafter : ∀ c ∈ after, ¬ c.On X hash) (hkew : (runAll X before .empty).readArtifactKew hash = .ok kew)
    (hdec : decodeArtifact X kew = .ok (a, n)) {req : VerifyRequest} (hreq : req.Strict hash) :
    ServedAndExported X (runAll X (before ++ .publish hash env tag none nowUnix :: after) .empty) hash req nowUnix a ↔
      (∃ rules, a.payload = .rules rules) ∨ ∃ att ∈ a.attestations, att.attestationType = .scenarioCoverage := by
  have hready := runAll_ready hX before .empty
  obtain ⟨s, hs, hslot⟩ := hready hash
  -- publish answered `Ok`, so it accepted the set and filed its event
  obtain ⟨kew', a', policy, e, -, hkew', ha, hpolicy, haccepted, hfollows, hchanged⟩ :=
    (publish_changes hX hs hslot.log hslot.stored env tag none nowUnix).resolve_left fun herr => by
      obtain ⟨⟨e, he⟩, -⟩ := herr
      exact absurd (he.symm.trans hpublish) nofun
  obtain rfl : kew' = kew :=
    Except.ok.inj ((congrArg Prod.fst (readArtifactKew_some hs hkew')).symm.trans hkew)
  obtain ⟨n', hdec', -⟩ := ha.decode
  obtain ⟨rfl, rfl⟩ : a' = a ∧ n' = n := Prod.mk.inj (Except.ok.inj (hdec'.symm.trans hdec))
  obtain rfl : policyForKind a'.manifest.artifactKind = policy := Except.ok.inj hpolicy
  -- and nothing changed since
  have hready' : ((CommandLine.publish hash env tag none nowUnix).run X (runAll X before .empty)).2.Ready X :=
    CommandLine.run_ready hX hready _
  have hfiled : ((CommandLine.publish hash env tag none nowUnix).run X (runAll X before .empty)).2.Holds hash
      { s with log := s.log ++ [e] } := by
    unfold CommandLine.run CommandLine.command
    rw [hchanged]
    exact (hs.fileLog _).putPointer ..
  have hend : (runAll X (before ++ .publish hash env tag none nowUnix :: after) .empty).Holds hash
      { s with log := s.log ++ [e] } := by
    rw [runAll_append]
    exact runAll_frame hX after hready' hafter hfiled
  have hslot' : Slot.Ready X hash { s with log := s.log ++ [e] } := by
    obtain ⟨s', hs', hslot'⟩ := runAll_ready hX (before ++ .publish hash env tag none nowUnix :: after) .empty hash
    rwa [hend.unique hs']
  have hstate : Slot.state { s with log := s.log ++ [e] } = some .published := by
    obtain ⟨-, -, -, hnew, -⟩ := hfollows
    unfold Slot.state
    rw [List.getLast?_concat, ← hnew]
    rfl
  have hcomplete := forArtifact_complete ((verifyAttestationSet_complete X a' _ _ _).1 haccepted)
  have hkind : a'.manifest.artifactKind ≠ .intentSpec ↔ ∃ rules, a'.payload = .rules rules := by
    have hpayload := ha.payload
    unfold validatePayload at hpayload
    split at hpayload
    · rename_i rules heq
      split at hpayload
      · cases hpayload
      · rename_i hne
        exact ⟨fun _ => ⟨rules, heq⟩, fun _ => hne⟩
    · rename_i heq
      split at hpayload
      · rename_i hintent
        exact ⟨fun hne => absurd hintent hne, fun ⟨rules, h⟩ => absurd (heq.symm.trans h) nofun⟩
      · cases hpayload
  unfold ServedAndExported
  rw [hreq.env, handleVerify_verified_iff hX hslot' hend hstate hkew' ha hdec hreq,
    admitArtifact_verified_iff hX hslot' hend hstate hkew' ha hdec, ← hkind, complete_default_iff hcomplete]
  exact and_iff_left hcomplete

end

end Ke.Registry
