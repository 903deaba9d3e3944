/-
The minimum counts of a policy: a map from type to count, written as a set of entries. The encoder and
the decoder refuse equal entries, not two entries of one type; the verifier takes the first it finds.
-/
import KeEngine.Artifact.Attestation
import KeEngine.Core.RoundTrip

namespace Ke

open Wire

/-! ## Sets that pass the scan -/

theorem nodup_of_checkSetCanonical {α : Type} {c : Codec α} {items : List α} (h : checkSetCanonical c items = .ok ()) :
    items.Nodup := by
  rw [SetOrder.checkSetCanonical_codec, SetOrder.checkSetCanonical_ok] at h
  exact (SetOrder.distinct_iff.1 h.distinct).2.of_map

/-! ## Entries and minimums -/

/-- The first entry with a key is the same in every order, when no key occurs twice. -/
theorem find?_perm {α κ : Type} [DecidableEq κ] {key : α → κ} {l l' : List α} (hperm : l.Perm l')
    (hnodup : (l.map key).Nodup) (k : κ) :
    l.find? (fun a => decide (key a = k)) = l'.find? (fun a => decide (key a = k)) := by
  cases hfind : l.find? (fun a => decide (key a = k)) with
  | none =>
    refine (List.find?_eq_none.2 fun a ha => ?_).symm
    exact List.find?_eq_none.1 hfind a (hperm.mem_iff.2 ha)
  | some a =>
    have hmem := List.mem_of_find?_eq_some hfind
    have hkey : key a = k := by simpa using List.find?_some hfind
    cases hfind' : l'.find? (fun a => decide (key a = k)) with
    | none => exact absurd (decide_eq_true hkey) (List.find?_eq_none.1 hfind' a (hperm.mem_iff.1 hmem))
    | some a' =>
      have hmem' := hperm.mem_iff.2 (List.mem_of_find?_eq_some hfind')
      have hkey' : key a' = k := by simpa using List.find?_some hfind'
      rw [List.inj_on_of_nodup_map hnodup hmem hmem' (hkey.trans hkey'.symm)]

namespace VerificationPolicy

/-- The policy with its counts in another order. -/
def withCounts (v : VerificationPolicy) (counts : List AttestationCount) : VerificationPolicy :=
  { v with minimumAttestationCountPerType := counts }

/-- A type has at most one entry, and one minimum in whatever order the entries are gone through. -/
structure UniqueMinimum (v : VerificationPolicy) : Prop where
  entry : (v.minimumAttestationCountPerType.map (·.attestationType)).Nodup
  minimum : ∀ counts, counts.Perm v.minimumAttestationCountPerType →
    ∀ t, (v.withCounts counts).minimumOf t = v.minimumOf t

/-- The entries of a type have one count. -/
def OneCount (v : VerificationPolicy) : Prop :=
  ∀ c ∈ v.minimumAttestationCountPerType, ∀ c' ∈ v.minimumAttestationCountPerType,
    c.attestationType = c'.attestationType → c.count = c'.count

variable {v : VerificationPolicy}

theorem minimumOf_perm {counts : List AttestationCount} (hperm : counts.Perm v.minimumAttestationCountPerType)
    (hnodup : (v.minimumAttestationCountPerType.map (·.attestationType)).Nodup) (t : AttestationType) :
    (v.withCounts counts).minimumOf t = v.minimumOf t := by
  unfold minimumOf
  rw [find?_perm hperm.symm hnodup t]
  rfl

/-- Of a policy without equal entries. -/
theorem uniqueMinimum_iff (h : v.minimumAttestationCountPerType.Nodup) : v.UniqueMinimum ↔ v.OneCount := by
  constructor
  · rintro ⟨hentry, -⟩ c hc c' hc' htype
    rw [List.inj_on_of_nodup_map hentry hc hc' htype]
  · intro hone
    have hentry : (v.minimumAttestationCountPerType.map (·.attestationType)).Nodup := by
      refine h.map_on fun c hc c' hc' htype => ?_
      obtain ⟨t, n⟩ := c
      obtain ⟨t', n'⟩ := c'
      obtain rfl : t = t' := htype
      obtain rfl : n = n' := hone _ hc _ hc' rfl
      rfl
    exact ⟨hentry, fun counts hperm t => minimumOf_perm hperm hentry t⟩

end VerificationPolicy

/-! ## Encoding and decoding -/

/-- Of every bundle that is encoded and of all bytes that are decoded. -/
theorem policy_uniqueMinimum_iff (isNfc : String → Bool) :
    (∀ p bytes, encodePolicy isNfc p = .ok bytes →
      (p.verificationPolicy.UniqueMinimum ↔ p.verificationPolicy.OneCount)) ∧
    ∀ bytes p rest q, Postcard.policyBundle.dec bytes = .ok (p, rest) → decodePolicy isNfc bytes = .ok q →
      (q.verificationPolicy.UniqueMinimum ↔ p.verificationPolicy.OneCount) := by
  constructor
  · intro p bytes h
    obtain ⟨c, hc, -⟩ := encodePolicy_iff.1 h
    obtain ⟨-, -, v, hv, -⟩ := canonicalizePolicy_ok hc
    obtain ⟨types, counts, -, hcounts, -⟩ := canonicalizeVerificationPolicy_ok hv
    obtain ⟨hperm, hcheck⟩ := canonicalizeSet_ok hcounts
    exact VerificationPolicy.uniqueMinimum_iff (hperm.nodup_iff.1 (nodup_of_checkSetCanonical hcheck))
  · intro bytes p rest q hread h
    obtain ⟨hdec, hvalid⟩ := decodePolicy_iff.1 h
    obtain ⟨rfl, -⟩ := Prod.mk.inj (Except.ok.inj (hread.symm.trans hdec))
    obtain ⟨-, hvalid⟩ := then_ok.1 hvalid
    obtain ⟨hsets, -⟩ := then_ok.1 hvalid
    obtain ⟨-, hcounts⟩ := then_ok.1 hsets
    exact VerificationPolicy.uniqueMinimum_iff (nodup_of_checkSetCanonical hcounts)

/-- A policy that requires one type, with the counts given. -/
def countsPolicy (counts : List AttestationCount) : PolicyBundle where
  environment := "prod"
  verificationPolicy := ⟨.strict, [.sourceFidelity], counts⟩
  revocationPolicy := .hardStop
  effectiveWindow := ⟨⟨.lit 16 2024, 1, 1⟩, none, none, none⟩

theorem policy_uniqueMinimum_iff_countsPolicy : ∃ bytes, encodePolicy (fun _ => true)
    (countsPolicy [⟨.interpretation, 2⟩, ⟨.sourceFidelity, 1⟩]) = .ok bytes ∧
      (countsPolicy [⟨.interpretation, 2⟩, ⟨.sourceFidelity, 1⟩]).verificationPolicy.UniqueMinimum := by
  obtain ⟨bytes, h⟩ := exists_ok (show (encodePolicy (fun _ => true)
    (countsPolicy [⟨.interpretation, 2⟩, ⟨.sourceFidelity, 1⟩])).isOk = true by decide +kernel)
  refine ⟨bytes, h, ((policy_uniqueMinimum_iff _).1 _ bytes h).2 ?_⟩
  unfold VerificationPolicy.OneCount
  decide

/-- One and two attestations of a type: the policy is written and read back, and the order decides. -/
theorem two_counts_accepted : ∃ bytes,
    encodePolicy (fun _ => true) (countsPolicy [⟨.sourceFidelity, 1⟩, ⟨.sourceFidelity, 2⟩]) = .ok bytes ∧
      decodePolicy (fun _ => true) bytes = .ok (countsPolicy [⟨.sourceFidelity, 1⟩, ⟨.sourceFidelity, 2⟩]) ∧
      ¬ (countsPolicy [⟨.sourceFidelity, 1⟩, ⟨.sourceFidelity, 2⟩]).verificationPolicy.UniqueMinimum := by
  have hvalid : validatePolicy (fun _ => true)
      (countsPolicy [⟨.sourceFidelity, 1⟩, ⟨.sourceFidelity, 2⟩]) = .ok () := by
    decide +kernel
  obtain ⟨bytes, h⟩ := exists_ok (show (encodePolicy (fun _ => true)
    (countsPolicy [⟨.sourceFidelity, 1⟩, ⟨.sourceFidelity, 2⟩])).isOk = true by decide +kernel)
  obtain ⟨c, hc, hdec, -⟩ := (codec_roundTrips fun _ => true).2.1.decode_encode h
  obtain rfl := Except.ok.inj ((validatePolicy_canonicalize hvalid).symm.trans hc)
  refine ⟨bytes, h, hdec, fun hunique => ?_⟩
  have hswap := hunique.minimum [⟨.sourceFidelity, 2⟩, ⟨.sourceFidelity, 1⟩] (List.Perm.swap ..) .sourceFidelity
  exact absurd hswap (by decide)

end Ke
