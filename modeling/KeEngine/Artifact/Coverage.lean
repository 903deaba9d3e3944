/-
What the minimums of a set count: entries of the list, whatever they repeat and whatever rules they
are about. Where copies fill a minimum, and where a partial scope stands for the whole artifact.
-/
import KeEngine.Artifact.AttestationSet

namespace Ke

open Wire

section

variable {X : Externals} {artifact : Artifact} {policy : VerificationPolicy} {keyDirectory : KeyDirectory}
  {context : PolicyContext}

/-! ## Copies -/

/-- So many pairwise distinct valid attestations of a type. -/
def MetByDistinct (X : Externals) (artifact : Artifact) (keyDirectory : KeyDirectory) (context : PolicyContext)
    (attestationType : AttestationType) (minimum : Nat) : Prop :=
  ∃ distinct : List Attestation, distinct.Nodup ∧ distinct.length = minimum ∧
    ∀ a ∈ distinct, a ∈ artifact.attestations ∧ a.attestationType = attestationType ∧
      IndividuallyValid X a artifact.manifest.artifactHash artifact.manifest keyDirectory context

/-- A further copy of an attestation of a rejected set does not get it accepted, and what is accepted
meets every minimum with distinct attestations. -/
def CopiesNeverCount (X : Externals) (artifact : Artifact) (policy : VerificationPolicy) (keyDirectory : KeyDirectory)
    (context : PolicyContext) : Prop :=
  (verifyAttestationSet X artifact policy keyDirectory context ≠ .ok () →
    ∀ a ∈ artifact.attestations,
      verifyAttestationSet X { artifact with attestations := artifact.attestations ++ [a] } policy
      keyDirectory context ≠
        .ok ()) ∧
  (verifyAttestationSet X artifact policy keyDirectory context = .ok () →
    ∀ t ∈ policy.requiredAttestationTypes, MetByDistinct X artifact keyDirectory context t (policy.minimumOf t))

/-- How many different attestations of a type there are. -/
def distinctCount (attestationType : AttestationType) (attestations : List Attestation) : Nat :=
  (attestations.filter fun a => decide (a.attestationType = attestationType)).dedup.length

/-- The list, with one more copy of one of its attestations at most, has every required type as often
as its minimum asks, and of some required type fewer different ones. -/
structure FilledByCopies (X : Externals) (artifact : Artifact) (policy : VerificationPolicy)
    (keyDirectory : KeyDirectory)
    (context : PolicyContext) : Prop where
  valid : ∀ a ∈ artifact.attestations,
    IndividuallyValid X a artifact.manifest.artifactHash artifact.manifest keyDirectory context
  coAttested : CoAttested artifact.manifest.artifactKind artifact.attestations
  filled : ∃ a ∈ artifact.attestations, ∀ t ∈ policy.requiredAttestationTypes,
    policy.minimumOf t ≤ typeCount t (artifact.attestations ++ [a])
  short : ∃ t ∈ policy.requiredAttestationTypes, distinctCount t artifact.attestations < policy.minimumOf t

theorem distinctCount_le (t : AttestationType) (as : List Attestation) : distinctCount t as ≤ typeCount t as :=
  (List.dedup_sublist _).length_le

theorem typeCount_append_le (t : AttestationType) (as bs : List Attestation) :
    typeCount t as ≤ typeCount t (as ++ bs) := by
  unfold typeCount
  rw [List.filter_append, List.length_append]
  omega

/-- A further copy changes nothing but the counts. -/
theorem complete_append_copy_iff {a : Attestation} (ha : a ∈ artifact.attestations) :
    AttestationSetComplete X { artifact with attestations := artifact.attestations ++ [a] } policy
      keyDirectory context ↔
      (∀ b ∈ artifact.attestations,
        IndividuallyValid X b artifact.manifest.artifactHash artifact.manifest keyDirectory context) ∧
      (∀ t ∈ policy.requiredAttestationTypes, policy.minimumOf t ≤ typeCount t (artifact.attestations ++ [a])) ∧
      CoAttested artifact.manifest.artifactKind artifact.attestations := by
  have hmem : ∀ b, b ∈ artifact.attestations ++ [a] ↔ b ∈ artifact.attestations := by
    intro b
    rw [List.mem_append, List.mem_singleton]
    exact ⟨fun h => h.elim id fun h => h ▸ ha, Or.inl⟩
  have hco : CoAttested artifact.manifest.artifactKind (artifact.attestations ++ [a]) ↔
      CoAttested artifact.manifest.artifactKind artifact.attestations := by
    unfold CoAttested
    simp only [hmem]
  constructor
  · intro h
    exact ⟨fun b hb => h.valid b ((hmem b).2 hb), h.required, hco.1 h.coAttested⟩
  · rintro ⟨hvalid, hrequired, hc⟩
    exact ⟨fun b hb => hvalid b ((hmem b).1 hb), hrequired, hco.2 hc⟩

theorem metByDistinct_iff
    (hvalid : ∀ a ∈ artifact.attestations,
      IndividuallyValid X a artifact.manifest.artifactHash artifact.manifest keyDirectory context)
    {t : AttestationType} {minimum : Nat} :
    MetByDistinct X artifact keyDirectory context t minimum ↔ minimum ≤ distinctCount t artifact.attestations := by
  constructor
  · rintro ⟨distinct, hnodup, rfl, hall⟩
    refine (hnodup.subperm fun a ha => ?_).length_le
    obtain ⟨hmem, htype, -⟩ := hall a ha
    exact List.mem_dedup.2 (List.mem_filter.2 ⟨hmem, decide_eq_true htype⟩)
  · intro h
    refine ⟨(artifact.attestations.filter fun a => decide (a.attestationType = t)).dedup.take minimum,
      (List.nodup_dedup _).sublist (List.take_sublist _ _), ?_, fun a ha => ?_⟩
    · rw [List.length_take]
      exact Nat.min_eq_left h
    obtain ⟨hmem, htype⟩ := List.mem_filter.1 (List.mem_dedup.1 (List.mem_of_mem_take ha))
    exact ⟨hmem, of_decide_eq_true htype, hvalid a hmem⟩

/-- Copies never count exactly when no minimum is filled by them. -/
theorem copiesNeverCount_iff (X : Externals) (artifact : Artifact) (policy : VerificationPolicy)
    (keyDirectory : KeyDirectory) (context : PolicyContext) :
    CopiesNeverCount X artifact policy keyDirectory context ↔
      ¬ FilledByCopies X artifact policy keyDirectory context := by
  have hverify := (verifyAttestationSet_complete X artifact policy keyDirectory context)
  constructor
  · rintro ⟨hcopy, hdistinct⟩ hfilled
    obtain ⟨a, ha, hcounts⟩ := hfilled.filled
    by_cases hok : verifyAttestationSet X artifact policy keyDirectory context = .ok ()
    · -- accepted as it is, with too few different ones
      obtain ⟨t, ht, hshort⟩ := hfilled.short
      have hmet := (metByDistinct_iff hfilled.valid).1 (hdistinct hok t ht)
      omega
    · -- accepted with the copy
      refine hcopy hok a ha ((verifyAttestationSet_complete X _ policy keyDirectory context).2 ?_)
      exact (complete_append_copy_iff ha).2 ⟨hfilled.valid, hcounts, hfilled.coAttested⟩
  · intro hnot
    constructor
    · intro hrejected a ha haccepted
      have hcomplete := (verifyAttestationSet_complete X _ policy keyDirectory context).1 haccepted
      obtain ⟨hvalid, hcounts, hco⟩ := (complete_append_copy_iff ha).1 hcomplete
      refine hnot ⟨hvalid, hco, ⟨a, ha, hcounts⟩, ?_⟩
      -- only a count can be what was missing before
      by_contra hshort
      push Not at hshort
      refine hrejected (hverify.2 ⟨hvalid, fun t ht => ?_, hco⟩)
      exact (hshort t ht).trans (distinctCount_le t _)
    · intro haccepted t ht
      have hcomplete := hverify.1 haccepted
      rw [metByDistinct_iff hcomplete.valid]
      by_contra hshort
      -- the type occurs, so there is something to copy
      have hpos : 0 < typeCount t artifact.attestations :=
        lt_of_lt_of_le (lt_of_lt_of_le Nat.one_pos (le_max_left _ _)) (hcomplete.required t ht)
      obtain ⟨a, ha⟩ := List.exists_mem_of_length_pos hpos
      refine hnot ⟨hcomplete.valid, hcomplete.coAttested, ⟨a, (List.mem_filter.1 ha).1, fun u hu => ?_⟩,
        t, ht, by omega⟩
      exact (hcomplete.required u hu).trans (typeCount_append_le u _ _)

/-! ### A source fidelity attestation, given twice -/

def twicePolicy : VerificationPolicy := ⟨.strict, [.sourceFidelity], [⟨.sourceFidelity, 2⟩]⟩

/-- One attestation is too few for a minimum of two, and with its copy it is enough. -/
theorem copy_fills_minimum : ∃ artifact a, attestedOnce transferArtifact .sourceFidelity .wholeArtifact =
    some (artifact, a) ∧
    a ∈ artifact.attestations ∧
    verifyAttestationSet standIn artifact twicePolicy (testExpertKeyDirectory standIn) (localPolicyContext 0) =
      .error [.requiredTypeMissing .sourceFidelity 2 1] ∧
    verifyAttestationSet standIn { artifact with attestations := artifact.attestations ++ [a] } twicePolicy
      (testExpertKeyDirectory standIn) (localPolicyContext 0) = .ok () := by
  have hrun : (attestedOnce transferArtifact .sourceFidelity .wholeArtifact).any (fun r =>
      decide (r.2 ∈ r.1.attestations) &&
      decide (verifyAttestationSet standIn r.1 twicePolicy (testExpertKeyDirectory standIn) (localPolicyContext 0) =
        .error [.requiredTypeMissing .sourceFidelity 2 1]) &&
      decide (verifyAttestationSet standIn { r.1 with attestations := r.1.attestations ++ [r.2] } twicePolicy
        (testExpertKeyDirectory standIn) (localPolicyContext 0) = .ok ())) = true := by decide +kernel
  obtain ⟨⟨artifact, a⟩, h, hr⟩ := (Option.any_eq_true _ _).1 hrun
  rw [Bool.and_eq_true, Bool.and_eq_true] at hr
  exact ⟨artifact, a, h, of_decide_eq_true hr.1.1, of_decide_eq_true hr.1.2, of_decide_eq_true hr.2⟩

/-! ## Partial scopes -/

/-- A scope is about a rule. -/
def AttestationScope.Covers : AttestationScope → String → Prop
  | .wholeArtifact, _ => True
  | .ruleIds ids, ruleId => ruleId ∈ ids

def ArtifactPayload.ruleIds : ArtifactPayload → List String
  | .rules rs => rs.map RuleIR.ruleId
  | .intentSpec _ => []

/-- Of what is accepted, every rule has a valid attestation of every required type about it. -/
def ScopeSound (X : Externals) (artifact : Artifact) (policy : VerificationPolicy) (keyDirectory : KeyDirectory)
    (context : PolicyContext) : Prop :=
  verifyAttestationSet X artifact policy keyDirectory context = .ok () →
    ∀ t ∈ policy.requiredAttestationTypes, ∀ ruleId ∈ artifact.payload.ruleIds, ∃ a ∈ artifact.attestations,
      a.attestationType = t ∧ a.scope.Covers ruleId ∧
      IndividuallyValid X a artifact.manifest.artifactHash artifact.manifest keyDirectory context

/-- The set is complete by its types, but of some required type no scope reaches some rule. -/
structure PartialScopes (X : Externals) (artifact : Artifact) (policy : VerificationPolicy)
    (keyDirectory : KeyDirectory)
    (context : PolicyContext) : Prop where
  complete : AttestationSetComplete X artifact policy keyDirectory context
  gap : ∃ t ∈ policy.requiredAttestationTypes, ∃ ruleId ∈ artifact.payload.ruleIds, ∀ a ∈ artifact.attestations,
    a.attestationType = t → ∃ ids, a.scope = .ruleIds ids ∧ ruleId ∉ ids

theorem AttestationScope.not_covers {scope : AttestationScope} {ruleId : String} :
    ¬ scope.Covers ruleId ↔ ∃ ids, scope = .ruleIds ids ∧ ruleId ∉ ids := by
  cases scope with
  | wholeArtifact => exact ⟨fun h => absurd trivial h, fun ⟨_, h, _⟩ => nomatch h⟩
  | ruleIds ids =>
    constructor
    · exact fun h => ⟨ids, rfl, h⟩
    · rintro ⟨ids', hids, h⟩
      cases hids
      exact h

/-- Scopes are read by nothing: acceptance is sound for them exactly when the partial ones leave no
rule out. -/
theorem scopeSound_iff (X : Externals) (artifact : Artifact) (policy : VerificationPolicy) (keyDirectory : KeyDirectory)
    (context : PolicyContext) :
    ScopeSound X artifact policy keyDirectory context ↔ ¬ PartialScopes X artifact policy keyDirectory context := by
  unfold ScopeSound
  rw [verifyAttestationSet_complete]
  constructor
  · rintro hsound ⟨hcomplete, t, ht, ruleId, hrule, hgap⟩
    obtain ⟨a, ha, htype, hcovers, -⟩ := hsound hcomplete t ht ruleId hrule
    exact AttestationScope.not_covers.2 (hgap a ha htype) hcovers
  · intro hnot hcomplete t ht ruleId hrule
    by_contra hno
    refine hnot ⟨hcomplete, t, ht, ruleId, hrule, fun a ha htype => ?_⟩
    apply AttestationScope.not_covers.1
    intro hcovers
    exact hno ⟨a, ha, htype, hcovers, hcomplete.valid a ha⟩

/-! ### Two rules, one attested -/

def sampleRule (ruleId : String) : RuleIR := RuleIR.bare ruleId none (.result "permit")

/-- A pack of two rules. -/
def pairArtifact : Except ArtifactError (Artifact × Bytes) :=
  assemblePayload standIn { transferManifest with artifactKind := .regimePack }
    (.rules [sampleRule "first", sampleRule "second"]) ⟨none, none⟩ TestKeys.fixedSeed TestKeys.testKeyId

def fidelityPolicy : VerificationPolicy := ⟨.strict, [.sourceFidelity], [⟨.sourceFidelity, 1⟩]⟩

/-- The attestation of the first rule counts for both. -/
theorem first_rule_counts_for_second :
    ∃ artifact a, attestedOnce pairArtifact .sourceFidelity (.ruleIds ["first"]) = some (artifact, a) ∧
    "second" ∈ artifact.payload.ruleIds ∧
    ¬ ScopeSound standIn artifact fidelityPolicy (testExpertKeyDirectory standIn) (localPolicyContext 0) := by
  have hrun : (attestedOnce pairArtifact .sourceFidelity (.ruleIds ["first"])).any (fun r =>
      decide ("second" ∈ r.1.payload.ruleIds) && decide (r.1.attestations = [r.2]) &&
      decide (r.2.scope = .ruleIds ["first"]) &&
      decide (verifyAttestationSet standIn r.1 fidelityPolicy (testExpertKeyDirectory standIn) (localPolicyContext 0) =
        .ok ())) = true := by decide +kernel
  obtain ⟨⟨artifact, a⟩, h, hr⟩ := (Option.any_eq_true _ _).1 hrun
  rw [Bool.and_eq_true, Bool.and_eq_true, Bool.and_eq_true] at hr
  have hrule := of_decide_eq_true hr.1.1.1
  refine ⟨artifact, a, h, hrule, fun hsound => ?_⟩
  obtain ⟨b, hb, -, hcovers, -⟩ := hsound (of_decide_eq_true hr.2) .sourceFidelity (by decide) "second" hrule
  -- the only attestation is the one of the first rule
  rw [of_decide_eq_true hr.1.1.2, List.mem_singleton] at hb
  rw [hb, of_decide_eq_true hr.1.2] at hcovers
  exact absurd hcovers (by decide : "second" ∉ ["first"])

end

end Ke
