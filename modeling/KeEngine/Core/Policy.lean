/-
The other two canonical types: the policy bundle, whose required types and counts are sets, and the
manifest, which the encoder only checks.
-/
import KeEngine.Core.Canonical

namespace Ke

open Wire

/-- A publication and enforcement policy for a named environment. -/
structure PolicyBundle where
  environment : String
  verificationPolicy : VerificationPolicy
  revocationPolicy : RevocationPolicy
  effectiveWindow : EffectiveWindow

/-! ## Wire format -/

namespace Postcard

open Codec

def revocationPolicy : Codec RevocationPolicy := enum [const .hardStop, const .finishPinned, const .auditOnly]

def attestationCount : Codec AttestationCount :=
  (attestationType.pair u8).iso (fun c => (c.attestationType, c.count)) (fun (t, n) => ⟨t, n⟩) (fun _ => rfl)

def verificationPolicy : Codec VerificationPolicy :=
  (t2T3Mode.pair ((seq attestationType).pair (seq attestationCount))).iso
    (fun v => (v.t2T3Mode, v.requiredAttestationTypes, v.minimumAttestationCountPerType))
    (fun (m, r, c) => ⟨m, r, c⟩) (fun _ => rfl)

def policyBundle : Codec PolicyBundle :=
  (str.pair (verificationPolicy.pair (revocationPolicy.pair effectiveWindow))).iso
    (fun p => (p.environment, p.verificationPolicy, p.revocationPolicy, p.effectiveWindow))
    (fun (e, v, r, w) => ⟨e, v, r, w⟩) (fun _ => rfl)

end Postcard

/-! ## Normalisation before encoding -/

section

variable (isNfc : String → Bool)

def canonicalizeVerificationPolicy (v : VerificationPolicy) : Except CanonicalError VerificationPolicy := do
  let requiredAttestationTypes ← canonicalizeSet Postcard.attestationType v.requiredAttestationTypes
  let minimumAttestationCountPerType ← canonicalizeSet Postcard.attestationCount v.minimumAttestationCountPerType
  pure { v with requiredAttestationTypes, minimumAttestationCountPerType }

def canonicalizePolicy (p : PolicyBundle) : Except CanonicalError PolicyBundle := do
  (ensure isNfc).nfc p.environment
  let verificationPolicy ← canonicalizeVerificationPolicy p.verificationPolicy
  (ensure isNfc).window p.effectiveWindow
  pure { p with verificationPolicy }

/-- Canonical bytes of a policy bundle. -/
def encodePolicy (policy : PolicyBundle) : Except CanonicalError Bytes := do
  let c ← canonicalizePolicy isNfc policy
  (Postcard.policyBundle.enc c).mapError .codec

/-- Canonical bytes of a manifest. -/
def encodeManifest (manifest : Manifest) : Except CanonicalError Bytes := do
  canonicalizeManifest isNfc manifest
  (Postcard.manifest.enc manifest).mapError .codec

/-! ## Validation after decoding -/

def validateVerificationPolicy (v : VerificationPolicy) : Except CanonicalDecodeError Unit := do
  checkSetCanonical Postcard.attestationType v.requiredAttestationTypes
  checkSetCanonical Postcard.attestationCount v.minimumAttestationCountPerType

def validatePolicy (p : PolicyBundle) : Except CanonicalDecodeError Unit := do
  (check isNfc).nfc p.environment
  validateVerificationPolicy p.verificationPolicy
  (check isNfc).window p.effectiveWindow

/-- Strict decoding of a policy bundle. -/
def decodePolicy (bytes : Bytes) : Except CanonicalDecodeError PolicyBundle := do
  let (policy, rest) ← (Postcard.policyBundle.dec bytes).mapError .codec
  if rest ≠ [] then throw .trailingBytes
  validatePolicy isNfc policy
  pure policy

/-- Strict decoding of a manifest. -/
def decodeManifest (bytes : Bytes) : Except CanonicalDecodeError Manifest := do
  let (manifest, rest) ← (Postcard.manifest.dec bytes).mapError .codec
  if rest ≠ [] then throw .trailingBytes
  validateManifest isNfc manifest
  pure manifest

end

end Ke
