/-
What the verification of an attestation set decides: every attestation is valid by itself, every
required type is there often enough, an approval has its co-attestations. The order of the list does
not matter, its repetitions do. The day that an attestation expires on is compared in seconds, whose
arithmetic stays within 64 bits.
-/
import KeEngine.Artifact.Assembly
import KeEngine.Artifact.Expert

namespace Ke

open Wire

/-! ## The start of a day -/

/-- The era is the quotient rounded down, also before the year 0. -/
theorem era_eq (year : Int) : (if 0 ≤ year then year else year - 399).tdiv 400 = year / 400 := by
  split
  · rename_i h
    exact Int.tdiv_eq_ediv_of_nonneg h
  · rename_i h
    have hsign : Int.sign 400 = 1 := rfl
    rw [Int.tdiv_eq_ediv, hsign]
    split <;> omega

/-- The year from March, of any field values. -/
theorem marchYear_bounds (date : JurisdictionDate) :
    -32769 ≤ date.year.val - (if date.month ≤ 2 then 1 else 0) ∧
      date.year.val - (if date.month ≤ 2 then 1 else 0) ≤ 32767 := by
  have hlo := date.year.lo
  have hhi := date.year.hi
  norm_num at hlo hhi
  split <;> omega

/-- The month from March, of any field value. -/
theorem marchMonth_bounds (month : UInt8) : 0 ≤ (month.toNat : Int) + (if 2 < (month.toNat : Int) then -3 else 9) ∧
    (month.toNat : Int) + (if 2 < (month.toNat : Int) then -3 else 9) ≤ 252 := by
  have hm := month.toNat_lt
  split <;> omega

/-- A result of 64-bit arithmetic, checked for overflow. -/
def i64 (n : Int) : Option Int := if SInt.fits 64 n then some n else none

/-- `unix_start_of` with every addition, subtraction and multiplication checked. -/
def unixStartOf? (date : JurisdictionDate) : Option Int := do
  let month := (date.month.toNat : Int)
  let year ← i64 (date.year.val - (if date.month ≤ 2 then 1 else 0))
  let shifted ← (if 0 ≤ year then some year else i64 (year - 399))
  let era := shifted.tdiv 400
  let eraYears ← i64 (era * 400)
  let yearOfEra ← i64 (year - eraYears)
  let marchMonth ← i64 (month + (if 2 < month then -3 else 9))
  let scaled ← i64 (153 * marchMonth)
  let rounded ← i64 (scaled + 2)
  let counted ← i64 (rounded.tdiv 5 + date.day.toNat)
  let dayOfYear ← i64 (counted - 1)
  let plain ← i64 (yearOfEra * 365)
  let fourth ← i64 (plain + yearOfEra.tdiv 4)
  let hundredth ← i64 (fourth - yearOfEra.tdiv 100)
  let dayOfEra ← i64 (hundredth + dayOfYear)
  let eraDays ← i64 (era * 146097)
  let marchDays ← i64 (eraDays + dayOfEra)
  let days ← i64 (marchDays - 719468)
  i64 (days * 86400)

theorem i64_eq {n : Int} (hlo : -2 ^ 62 ≤ n) (hhi : n ≤ 2 ^ 62) : i64 n = some n := by
  apply if_pos
  apply decide_eq_true
  norm_num at hlo hhi ⊢
  omega

theorem i64_bind {n : Int} {k : Int → Option Int} {r : Option Int} (hlo : -2 ^ 62 ≤ n) (hhi : n ≤ 2 ^ 62)
    (hk : k n = r) : i64 n >>= k = r := by
  rw [i64_eq hlo hhi]
  exact hk

theorem unixStartOf?_eq (date : JurisdictionDate) : unixStartOf? date = some (unixStartOf date) := by
  have hd := date.day.toNat_lt
  unfold unixStartOf? unixStartOf
  extract_lets month year era yearOfEra dayOfYear dayOfEra
  have hyear : -32769 ≤ year ∧ year ≤ 32767 := marchYear_bounds date
  have hera : era = year / 400 := era_eq year
  have hyoe : 0 ≤ yearOfEra ∧ yearOfEra ≤ 399 := by omega
  have h4 : yearOfEra.tdiv 4 = yearOfEra / 4 := Int.tdiv_eq_ediv_of_nonneg hyoe.1
  have h100 : yearOfEra.tdiv 100 = yearOfEra / 100 := Int.tdiv_eq_ediv_of_nonneg hyoe.1
  have hshifted : (if 0 ≤ year then some year else i64 (year - 399)) =
      some (if 0 ≤ year then year else year - 399) := by
    split
    · rfl
    · exact i64_eq (by omega) (by omega)
  have hmarch : 0 ≤ month + (if 2 < month then -3 else 9) ∧ month + (if 2 < month then -3 else 9) ≤ 252 :=
    marchMonth_bounds date.month
  generalize hmarchMonth : month + (if 2 < month then -3 else 9) = marchMonth at hmarch
  have h5 : (153 * marchMonth + 2).tdiv 5 = (153 * marchMonth + 2) / 5 := Int.tdiv_eq_ediv_of_nonneg (by omega)
  have hdoy : dayOfYear = (153 * marchMonth + 2).tdiv 5 + date.day.toNat - 1 := by
    rw [← hmarchMonth]
  apply i64_bind (n := year) (by omega) (by omega)
  refine Option.bind_eq_some_iff.2 ⟨_, hshifted, ?_⟩
  apply i64_bind (n := era * 400) (by omega) (by omega)
  apply i64_bind (n := yearOfEra) (by omega) (by omega)
  apply i64_bind (n := marchMonth) (by omega) (by omega)
  apply i64_bind (n := 153 * marchMonth) (by omega) (by omega)
  apply i64_bind (n := 153 * marchMonth + 2) (by omega) (by omega)
  apply i64_bind (n := (153 * marchMonth + 2).tdiv 5 + date.day.toNat) (by omega) (by omega)
  rw [← hdoy]
  apply i64_bind (n := dayOfYear) (by omega) (by omega)
  apply i64_bind (n := yearOfEra * 365) (by omega) (by omega)
  apply i64_bind (n := yearOfEra * 365 + yearOfEra.tdiv 4) (by omega) (by omega)
  apply i64_bind (n := yearOfEra * 365 + yearOfEra.tdiv 4 - yearOfEra.tdiv 100) (by omega) (by omega)
  apply i64_bind (n := dayOfEra) (by omega) (by omega)
  apply i64_bind (n := era * 146097) (by omega) (by omega)
  apply i64_bind (n := era * 146097 + dayOfEra) (by omega) (by omega)
  apply i64_bind (n := era * 146097 + dayOfEra - 719468) (by omega) (by omega)
  exact i64_eq (by omega) (by omega)

/-- No date starts beyond the last second of the clamped clock. -/
theorem unixStartOf_le (date : JurisdictionDate) : unixStartOf date ≤ 2 ^ 63 - 1 := by
  have hd := date.day.toNat_lt
  unfold unixStartOf
  extract_lets month year era yearOfEra dayOfYear dayOfEra
  have hyear : -32769 ≤ year ∧ year ≤ 32767 := marchYear_bounds date
  have hera : era = year / 400 := era_eq year
  have h4 : yearOfEra.tdiv 4 = yearOfEra / 4 := Int.tdiv_eq_ediv_of_nonneg (by omega)
  have h100 : yearOfEra.tdiv 100 = yearOfEra / 100 := Int.tdiv_eq_ediv_of_nonneg (by omega)
  have hmarch : 0 ≤ month + (if 2 < month then -3 else 9) ∧ month + (if 2 < month then -3 else 9) ≤ 252 :=
    marchMonth_bounds date.month
  have hdoy : dayOfYear = (153 * (month + (if 2 < month then -3 else 9)) + 2) / 5 + date.day.toNat - 1 := by
    show (153 * (month + (if 2 < month then -3 else 9)) + 2).tdiv 5 + date.day.toNat - 1 = _
    rw [Int.tdiv_eq_ediv_of_nonneg (by omega)]
  omega

/-- Clamping the clock does not move it across the start of a day. -/
theorem clampI64_lt_iff (date : JurisdictionDate) (now : UInt64) :
    clampI64 now < unixStartOf date ↔ (now.toNat : Int) < unixStartOf date := by
  have h := unixStartOf_le date
  unfold clampI64
  omega

/-! ## One attestation -/

/-- The entry is in force at a time, and lets its key sign a type in a role. -/
structure KeyDirectoryEntry.Authorizes (entry : KeyDirectoryEntry) (nowUnix : UInt64) (role : SignerRole)
    (attestationType : AttestationType) : Prop where
  active : entry.status = .active
  notBefore : entry.validFromUnix ≤ nowUnix
  notAfter : nowUnix < entry.validToUnix
  role : role ∈ entry.signerRoles
  type : attestationType ∈ entry.authorizedAttestationTypes

/-- A single attestation is valid for an artifact. -/
structure IndividuallyValid (X : Externals) (a : Attestation) (artifactHash : Hash32) (manifest : Manifest)
    (keyDirectory : KeyDirectory) (context : PolicyContext) : Prop where
  key : ∃ entry, keyDirectory.lookup a.keyId = some entry ∧
    entry.Authorizes context.nowUnix a.signerRole a.attestationType ∧
    ∃ signed, payloadPrefix a = .ok signed ∧ X.verify entry.publicKey signed a.signature = true
  timestamp : deriveClass X a.timestamp a.artifactHash = .ok a.timestamp.class_
  mockLocal : a.timestamp.class_ = .mock → context.isLocal = true
  hash : a.artifactHash = artifactHash
  regime : a.regimeId = manifest.regimeId
  compiler : a.compilerVersion = manifest.compilerVersion
  irSchema : a.irSchemaVersion = manifest.irSchemaVersion
  policyVersion : a.attestationPolicyVersion ∈ context.supportedPolicyVersions
  unexpired : ∀ day ∈ a.expiration, (context.nowUnix.toNat : Int) < unixStartOf day
  source : ∀ current ∈ context.currentLegalSourceHash, a.legalSourceHash = current

section

variable {X : Externals}

/-! The checks of `verifyAttestation` from the policy version, from the binding and from the key on. -/

def verifyCurrency (a : Attestation) (manifest : Manifest) (context : PolicyContext) :
    Except AttestationRejection Unit := do
  if a.attestationPolicyVersion ∉ context.supportedPolicyVersions then
    throw (.policyVersionUnsupported a.attestationPolicyVersion)
  if a.irSchemaVersion ≠ manifest.irSchemaVersion then
    throw (.policyVersionUnsupported
      s!"ir-schema-{a.irSchemaVersion.major}.{a.irSchemaVersion.minor}.{a.irSchemaVersion.patch}")
  match a.expiration with
  | some expiration => if unixStartOf expiration ≤ clampI64 context.nowUnix then throw .expired
  | none => pure ()
  match context.currentLegalSourceHash with
  | some current => if current ≠ a.legalSourceHash then throw .legalSourceHashChanged
  | none => pure ()

def verifyBinding (a : Attestation) (expectedArtifactHash : Hash32) (manifest : Manifest) (context : PolicyContext) :
    Except AttestationRejection Unit := do
  if a.artifactHash ≠ expectedArtifactHash then throw (.notBoundToArtifact expectedArtifactHash a.artifactHash)
  if a.regimeId ≠ manifest.regimeId ∨ a.compilerVersion ≠ manifest.compilerVersion then
    throw (.notBoundToArtifact expectedArtifactHash a.artifactHash)
  verifyCurrency a manifest context

def verifyKey (entry : KeyDirectoryEntry) (a : Attestation) (expectedArtifactHash : Hash32) (manifest : Manifest)
    (context : PolicyContext) : Except AttestationRejection Unit := do
  match entry.status with
  | .expired => throw (.keyExpired a.keyId)
  | .revoked => throw (.keyRevoked a.keyId)
  | .active => pure ()
  if context.nowUnix < entry.validFromUnix ∨ entry.validToUnix ≤ context.nowUnix then throw (.keyExpired a.keyId)
  if a.signerRole ∉ entry.signerRoles ∨ a.attestationType ∉ entry.authorizedAttestationTypes then
    throw (.keyUnauthorizedForType a.keyId a.attestationType)
  verifyBinding a expectedArtifactHash manifest context

theorem verifyAttestation_eq (a : Attestation) (expectedArtifactHash : Hash32) (manifest : Manifest)
    (keyDirectory : KeyDirectory) (context : PolicyContext) :
    verifyAttestation X a expectedArtifactHash manifest keyDirectory context = (do
      let entry ← (keyDirectory.lookup a.keyId).elim (throw (.keyUnknown a.keyId)) pure
      let signed ← (payloadPrefix a).mapError fun _ => .attestationSignatureInvalid
      if !X.verify entry.publicKey signed a.signature then throw .attestationSignatureInvalid
      let derived ← (deriveClass X a.timestamp a.artifactHash).mapError fun
        | .unsupported c => .tsaUnsupported c
        | .classMismatch => .timestampClassMismatch
      if derived ≠ a.timestamp.class_ then throw .timestampClassMismatch
      if derived = .mock ∧ !context.isLocal then throw .mockTsaNonLocal
      verifyKey entry a expectedArtifactHash manifest context) := rfl

theorem verifyCurrency_ok {a : Attestation} {manifest : Manifest} {context : PolicyContext} :
    verifyCurrency a manifest context = .ok () ↔ a.attestationPolicyVersion ∈ context.supportedPolicyVersions ∧
      a.irSchemaVersion = manifest.irSchemaVersion ∧
      (∀ day ∈ a.expiration, (context.nowUnix.toNat : Int) < unixStartOf day) ∧
      ∀ current ∈ context.currentLegalSourceHash, a.legalSourceHash = current := by
  unfold verifyCurrency
  rw [throw_else, not_not]
  refine and_congr_right fun _ => ?_
  rw [throw_else, not_not]
  refine and_congr_right fun _ => ?_
  have hsource : (match context.currentLegalSourceHash with
      | some current => if current ≠ a.legalSourceHash then throw .legalSourceHashChanged else pure ()
      | none => pure () : Except AttestationRejection Unit) = .ok () ↔
        ∀ current ∈ context.currentLegalSourceHash, a.legalSourceHash = current := by
    cases context.currentLegalSourceHash with
    | none => exact ⟨fun _ => nofun, fun _ => rfl⟩
    | some current =>
      by_cases hc : current = a.legalSourceHash
      · simp [hc]
        rfl
      · simp [hc, eq_comm]
  rw [← hsource]
  cases a.expiration with
  | none => simp
  | some day =>
    simp only [Option.mem_some_iff, forall_eq']
    rw [← clampI64_lt_iff, ← Int.not_le]
    exact throw_else

/-- An outcome that no check before the policy version gives. -/
def Late (r : Except AttestationRejection Unit) : Prop := r = .ok () ∨ r = .error .expired

/-- A guard whose error is not late passes to a late outcome. -/
theorem throw_else_late {c : Prop} [Decidable c] {e : AttestationRejection}
    {k : Unit → Except AttestationRejection Unit}
    {r : Except AttestationRejection Unit} (hr : Late r) (he : e ≠ .expired) :
    (if c then (throw e : Except AttestationRejection Unit) >>= k else k ()) = r ↔ ¬ c ∧ k () = r := by
  by_cases hc : c
  · rw [if_pos hc]
    refine ⟨fun h => ?_, fun h => absurd hc h.1⟩
    rcases hr with rfl | rfl
    · cases h
    · exact absurd (Except.error.inj h) he
  · rw [if_neg hc]
    exact ⟨fun h => ⟨hc, h⟩, fun h => h.2⟩

/-- A step whose errors are not late passes to a late outcome. -/
theorem bind_late {α : Type} {x : Except AttestationRejection α} {k : α → Except AttestationRejection Unit}
    {r : Except AttestationRejection Unit} (hr : Late r) (hx : x ≠ .error .expired) :
    x >>= k = r ↔ ∃ a, x = .ok a ∧ k a = r := by
  cases x with
  | error e =>
    refine ⟨fun h => ?_, fun ⟨a, ha, _⟩ => nomatch ha⟩
    rcases hr with rfl | rfl
    · cases h
    · exact absurd (congrArg Except.error (Except.error.inj h)) hx
  | ok a => simp [bind, Except.bind]

section Late

variable {a : Attestation} {hash : Hash32} {manifest : Manifest} {keyDirectory : KeyDirectory} {context : PolicyContext}
  {entry : KeyDirectoryEntry} {r : Except AttestationRejection Unit}

theorem verifyBinding_late (hr : Late r) : verifyBinding a hash manifest context = r ↔ a.artifactHash = hash ∧
    a.regimeId = manifest.regimeId ∧ a.compilerVersion = manifest.compilerVersion ∧
      verifyCurrency a manifest context = r := by
  unfold verifyBinding
  refine (throw_else_late hr (by nofun)).trans ?_
  rw [not_not]
  refine and_congr_right fun _ => (throw_else_late hr (by nofun)).trans ?_
  rw [not_or, not_not, not_not, and_assoc]

theorem verifyKey_late (hr : Late r) : verifyKey entry a hash manifest context = r ↔
    entry.Authorizes context.nowUnix a.signerRole a.attestationType ∧ verifyBinding a hash manifest context = r := by
  have hrest : (do
      if context.nowUnix < entry.validFromUnix ∨ entry.validToUnix ≤ context.nowUnix then throw (.keyExpired a.keyId)
      if a.signerRole ∉ entry.signerRoles ∨ a.attestationType ∉ entry.authorizedAttestationTypes then
        throw (.keyUnauthorizedForType a.keyId a.attestationType)
      verifyBinding a hash manifest context : Except AttestationRejection Unit) = r ↔
        (entry.validFromUnix ≤ context.nowUnix ∧ context.nowUnix < entry.validToUnix) ∧
          (a.signerRole ∈ entry.signerRoles ∧ a.attestationType ∈ entry.authorizedAttestationTypes) ∧
          verifyBinding a hash manifest context = r := by
    refine (throw_else_late hr (by nofun)).trans ?_
    rw [not_or, UInt64.not_lt, UInt64.not_le]
    refine and_congr_right fun _ => (throw_else_late hr (by nofun)).trans ?_
    rw [not_or, not_not, not_not]
  have hother : ∀ {e : AttestationRejection}, e ≠ .expired →
      (Except.error e : Except AttestationRejection Unit) ≠ r := by
    intro e he h
    rcases hr with rfl | rfl
    · cases h
    · exact he (Except.error.inj h)
  unfold verifyKey
  cases hstatus : entry.status with
  | active =>
    refine hrest.trans ?_
    constructor
    · rintro ⟨⟨h1, h2⟩, ⟨h3, h4⟩, h⟩
      exact ⟨⟨hstatus, h1, h2, h3, h4⟩, h⟩
    · rintro ⟨⟨-, h1, h2, h3, h4⟩, h⟩
      exact ⟨⟨h1, h2⟩, ⟨h3, h4⟩, h⟩
  | expired => exact ⟨fun h => absurd h (hother nofun), fun h => absurd (hstatus.symm.trans h.1.active) nofun⟩
  | revoked => exact ⟨fun h => absurd h (hother nofun), fun h => absurd (hstatus.symm.trans h.1.active) nofun⟩

/-- Signed by a key that may, with the timestamp class it claims, for this artifact. -/
structure AuthenticFor (X : Externals) (a : Attestation) (artifactHash : Hash32) (manifest : Manifest)
    (keyDirectory : KeyDirectory) (context : PolicyContext) : Prop where
  key : ∃ entry, keyDirectory.lookup a.keyId = some entry ∧
    entry.Authorizes context.nowUnix a.signerRole a.attestationType ∧
    ∃ signed, payloadPrefix a = .ok signed ∧ X.verify entry.publicKey signed a.signature = true
  timestamp : deriveClass X a.timestamp a.artifactHash = .ok a.timestamp.class_
  mockLocal : a.timestamp.class_ = .mock → context.isLocal = true
  hash : a.artifactHash = artifactHash
  regime : a.regimeId = manifest.regimeId
  compiler : a.compilerVersion = manifest.compilerVersion

/-- The checks before the policy version are authenticity. -/
theorem verifyAttestation_late (hr : Late r) : verifyAttestation X a hash manifest keyDirectory context = r ↔
    AuthenticFor X a hash manifest keyDirectory context ∧ verifyCurrency a manifest context = r := by
  rw [verifyAttestation_eq]
  constructor
  · intro h
    obtain ⟨entry, hentry, h⟩ := (bind_late hr (by cases keyDirectory.lookup a.keyId <;> nofun)).1 h
    obtain ⟨signed, hsigned, h⟩ := (bind_late hr (by cases payloadPrefix a <;> nofun)).1 h
    obtain ⟨hsig, h⟩ := (throw_else_late hr (by nofun)).1 h
    obtain ⟨derived, hderived, h⟩ := (bind_late hr
      (by rcases deriveClass X a.timestamp a.artifactHash with (_ | _) | _ <;> nofun)).1 h
    obtain ⟨hclass, h⟩ := (throw_else_late hr (by nofun)).1 h
    obtain ⟨hmock, h⟩ := (throw_else_late hr (by nofun)).1 h
    obtain ⟨hauth, h⟩ := (verifyKey_late hr).1 h
    obtain ⟨hhash, hregime, hcompiler, hcurrency⟩ := (verifyBinding_late hr).1 h
    rw [mapError_ok] at hsigned hderived
    obtain rfl := not_not.1 hclass
    refine ⟨⟨⟨entry, elim_throw.1 hentry, hauth, signed, hsigned, by simpa using hsig⟩, hderived, ?_, hhash, hregime,
      hcompiler⟩, hcurrency⟩
    intro hm
    by_contra hl
    exact hmock ⟨hm, by simpa using hl⟩
  · rintro ⟨h, hcurrency⟩
    obtain ⟨entry, hlookup, hauth, signed, hsigned, hsig⟩ := h.key
    refine (bind_late hr (by rw [hlookup]; nofun)).2 ⟨entry, elim_throw.2 hlookup, ?_⟩
    refine (bind_late hr (by rw [hsigned]; nofun)).2 ⟨signed, mapError_ok.2 hsigned, ?_⟩
    refine (throw_else_late hr (by nofun)).2 ⟨by simp [hsig], ?_⟩
    refine (bind_late hr (by rw [h.timestamp]; nofun)).2 ⟨_, mapError_ok.2 h.timestamp, ?_⟩
    refine (throw_else_late hr (by nofun)).2 ⟨not_not.2 rfl, (throw_else_late hr (by nofun)).2 ⟨?_, ?_⟩⟩
    · rintro ⟨hm, hl⟩
      rw [h.mockLocal hm] at hl
      cases hl
    · exact (verifyKey_late hr).2 ⟨hauth, (verifyBinding_late hr).2 ⟨h.hash, h.regime, h.compiler, hcurrency⟩⟩

end Late

/-- The checks of a single attestation, one after the other, are its validity. -/
theorem verifyAttestation_ok {a : Attestation} {hash : Hash32} {manifest : Manifest} {keyDirectory : KeyDirectory}
    {context : PolicyContext} :
    verifyAttestation X a hash manifest keyDirectory context = .ok () ↔
      IndividuallyValid X a hash manifest keyDirectory context := by
  rw [verifyAttestation_late (.inl rfl), verifyCurrency_ok]
  constructor
  · rintro ⟨h, hpolicy, hschema, hexpiry, hsource⟩
    exact ⟨h.key, h.timestamp, h.mockLocal, h.hash, h.regime, h.compiler, hschema, hpolicy, hexpiry, hsource⟩
  · intro h
    exact ⟨⟨h.key, h.timestamp, h.mockLocal, h.hash, h.regime, h.compiler⟩, h.policyVersion, h.irSchema, h.unexpired,
      h.source⟩

/-! ## The set -/

/-- How often a type occurs. -/
def typeCount (attestationType : AttestationType) (attestations : List Attestation) : Nat :=
  (attestations.filter fun a => decide (a.attestationType = attestationType)).length

theorem typeCount_perm {attestationType : AttestationType} {as as' : List Attestation} (h : as.Perm as') :
    typeCount attestationType as = typeCount attestationType as' := (h.filter _).length_eq

/-- An approval in the list has every co-attestation that the kind of the artifact asks for. -/
def CoAttested (kind : ArtifactKind) (attestations : List Attestation) : Prop :=
  (∃ a ∈ attestations, a.attestationType = .publicationApproval) →
    ∀ coType ∈ coAttestationTypes kind, ∃ a ∈ attestations, a.attestationType = coType

/-- An approval needs source fidelity beside it, and scenario coverage but for an intent. -/
theorem coAttested_iff {kind : ArtifactKind} {attestations : List Attestation} :
    CoAttested kind attestations ↔ ((∃ a ∈ attestations, a.attestationType = .publicationApproval) →
      (∃ a ∈ attestations, a.attestationType = .sourceFidelity) ∧
        (kind ≠ .intentSpec → ∃ a ∈ attestations, a.attestationType = .scenarioCoverage)) := by
  unfold CoAttested
  refine imp_congr_right fun _ => ?_
  by_cases hkind : kind = .intentSpec
  · subst hkind
    simp [coAttestationTypes]
  · have htypes : coAttestationTypes kind = [.scenarioCoverage, .sourceFidelity] := by
      cases kind with
      | intentSpec => exact absurd rfl hkind
      | regimePack | equivalenceMatrix | testCorpus | policyBundle => rfl
    rw [htypes, List.forall_mem_cons, List.forall_mem_singleton, and_comm]
    exact and_congr_right fun _ => (imp_iff_right hkind).symm

/-- A minimum is met by at least one, and by as many as the first entry of the type counts. -/
theorem minimumOf_le_iff {policy : VerificationPolicy} {t : AttestationType} {n : Nat} :
    policy.minimumOf t ≤ n ↔ 1 ≤ n ∧ ∀ front count back,
      policy.minimumAttestationCountPerType = front ++ ⟨t, count⟩ :: back →
        (∀ c ∈ front, c.attestationType ≠ t) → count.toNat ≤ n := by
  unfold VerificationPolicy.minimumOf
  rw [max_le_iff]
  refine and_congr_right fun hn => ?_
  cases hfind : policy.minimumAttestationCountPerType.find? fun c => decide (c.attestationType = t) with
  | none =>
    -- no entry counts the type
    refine iff_of_true hn fun front count back hentries _ => ?_
    have hmem : ⟨t, count⟩ ∈ policy.minimumAttestationCountPerType := by
      rw [hentries]
      exact List.mem_append_right _ List.mem_cons_self
    exact absurd (decide_eq_true rfl) (List.find?_eq_none.1 hfind _ hmem)
  | some c =>
    obtain ⟨htype, front, back, hentries, hfront⟩ := List.find?_eq_some_iff_append.1 hfind
    obtain ⟨t', count⟩ := c
    obtain rfl : t' = t := of_decide_eq_true htype
    have hfirst : ∀ c ∈ front, c.attestationType ≠ t' := by
      intro c hc heq
      have hnot := hfront c hc
      rw [decide_eq_true heq] at hnot
      cases hnot
    constructor
    · intro hle front' count' back' hentries' hfront'
      have hfind' : policy.minimumAttestationCountPerType.find? (fun c => decide (c.attestationType = t')) =
          some ⟨t', count'⟩ := by
        refine List.find?_eq_some_iff_append.2 ⟨decide_eq_true rfl, front', back', hentries', fun c hc => ?_⟩
        rw [decide_eq_false (hfront' c hc)]
        rfl
      obtain rfl := (AttestationCount.mk.inj (Option.some.inj (hfind.symm.trans hfind'))).2
      exact hle
    · exact fun hall => hall front count back hentries hfirst

/-- Every attestation is valid by itself, every required type is there often enough (`minimumOf_le_iff`), and an
approval has its co-attestations (`coAttested_iff`). -/
structure AttestationSetComplete (X : Externals) (artifact : Artifact) (policy : VerificationPolicy)
    (keyDirectory : KeyDirectory) (context : PolicyContext) : Prop where
  valid : ∀ a ∈ artifact.attestations,
    IndividuallyValid X a artifact.manifest.artifactHash artifact.manifest keyDirectory context
  required : ∀ t ∈ policy.requiredAttestationTypes, policy.minimumOf t ≤ typeCount t artifact.attestations
  coAttested : CoAttested artifact.manifest.artifactKind artifact.attestations

theorem missingTypes_nil {policy : VerificationPolicy} {valid : List Attestation} :
    missingTypes policy valid = [] ↔ ∀ t ∈ policy.requiredAttestationTypes, policy.minimumOf t ≤ typeCount t valid := by
  unfold missingTypes
  rw [List.filterMap_eq_nil_iff]
  refine forall₂_congr fun t _ => ?_
  show (if typeCount t valid < policy.minimumOf t then _ else _) = none ↔ _
  by_cases h : typeCount t valid < policy.minimumOf t
  · simp [h]
  · simp [h, Nat.not_lt.1 h]

theorem missingTypes_perm {policy : VerificationPolicy} {valid valid' : List Attestation} (h : valid.Perm valid') :
    missingTypes policy valid = missingTypes policy valid' := by
  unfold missingTypes
  refine List.filterMap_congr fun t _ => ?_
  have hcount : typeCount t valid = typeCount t valid' := typeCount_perm h
  unfold typeCount at hcount
  rw [hcount]

/-- Attestations of one artifact: whether an approval comes first or last, it lacks the same. -/
theorem missingCoAttestations_eq {kind : ArtifactKind} {hash : Hash32} {valid : List Attestation}
    (hh : ∀ a ∈ valid, a.artifactHash = hash) :
    missingCoAttestations kind valid =
      if ∃ a ∈ valid, a.attestationType = .publicationApproval then
        (coAttestationTypes kind).filterMap fun coType =>
          if ∃ a ∈ valid, a.attestationType = coType then none else some (.coAttestationAbsent coType)
      else [] := by
  unfold missingCoAttestations
  cases hf : valid.find? (fun a => decide (a.attestationType = .publicationApproval)) with
  | none =>
    have hnone : ¬ ∃ a ∈ valid, a.attestationType = .publicationApproval := by
      rintro ⟨a, ha, htype⟩
      simpa [htype] using List.find?_eq_none.1 hf a ha
    rw [if_neg hnone]
  | some approval =>
    have hmem := List.mem_of_find?_eq_some hf
    have htype : approval.attestationType = .publicationApproval := by simpa using List.find?_some hf
    rw [if_pos ⟨approval, hmem, htype⟩]
    refine List.filterMap_congr fun coType _ => ?_
    have hany : (valid.any fun a => decide
        (a.attestationType = coType ∧ a.artifactHash = approval.artifactHash)) = true ↔
        ∃ a ∈ valid, a.attestationType = coType := by
      rw [List.any_eq_true]
      refine exists_congr fun a => and_congr_right fun ha => ?_
      rw [decide_eq_true_iff, hh a ha, hh approval hmem]
      exact and_iff_left rfl
    by_cases hco : ∃ a ∈ valid, a.attestationType = coType
    · rw [if_pos hco, if_pos (hany.2 hco)]
    · rw [if_neg hco, if_neg fun h => hco (hany.1 h)]

theorem missingCoAttestations_nil {kind : ArtifactKind} {hash : Hash32} {valid : List Attestation}
    (hh : ∀ a ∈ valid, a.artifactHash = hash) : missingCoAttestations kind valid = [] ↔ CoAttested kind valid := by
  rw [missingCoAttestations_eq hh]
  unfold CoAttested
  by_cases hp : ∃ a ∈ valid, a.attestationType = .publicationApproval
  · rw [if_pos hp, List.filterMap_eq_nil_iff]
    constructor
    · intro h _ coType hco
      by_contra hno
      have := h coType hco
      rw [if_neg hno] at this
      cases this
    · intro h coType hco
      rw [if_pos (h hp coType hco)]
  · rw [if_neg hp]
    exact ⟨fun _ h => absurd h hp, fun _ => rfl⟩

theorem missingCoAttestations_perm {kind : ArtifactKind} {hash : Hash32} {valid valid' : List Attestation}
    (hh : ∀ a ∈ valid, a.artifactHash = hash) (h : valid.Perm valid') :
    missingCoAttestations kind valid = missingCoAttestations kind valid' := by
  rw [missingCoAttestations_eq hh, missingCoAttestations_eq fun a ha => hh a (h.mem_iff.2 ha)]
  simp only [h.mem_iff]

/-- The rejections of a verdict. -/
def rejectionsOf : Except (List AttestationRejection) Unit → List AttestationRejection
  | .ok () => []
  | .error rejections => rejections

section Set

variable {manifest : Manifest} {attestations : List Attestation} {policy : VerificationPolicy}
  {keyDirectory : KeyDirectory} {context : PolicyContext}

/-- The attestations that pass by themselves. -/
def validAttestations (X : Externals) (manifest : Manifest) (attestations : List Attestation)
    (keyDirectory : KeyDirectory) (context : PolicyContext) : List Attestation :=
  attestations.filter fun a => (verifyAttestation X a manifest.artifactHash manifest keyDirectory context).isOk

/-- The rejections of those that do not. -/
def individualRejections (X : Externals) (manifest : Manifest) (attestations : List Attestation)
    (keyDirectory : KeyDirectory) (context : PolicyContext) : List AttestationRejection :=
  attestations.filterMap fun a =>
    match verifyAttestation X a manifest.artifactHash manifest keyDirectory context with
    | .ok () => none
    | .error rejection => some rejection

theorem rejectionsOf_verifyAttestations :
    rejectionsOf (verifyAttestations X manifest attestations policy keyDirectory context) =
      individualRejections X manifest attestations keyDirectory context ++
        missingTypes policy (validAttestations X manifest attestations keyDirectory context) ++
        missingCoAttestations manifest.artifactKind
          (validAttestations X manifest attestations keyDirectory context) := by
  show rejectionsOf (if List.isEmpty _ then _ else _) = _
  split
  · rename_i h
    exact (List.isEmpty_iff.1 h).symm
  · rfl

theorem verifyAttestations_ok_iff_rejections :
    verifyAttestations X manifest attestations policy keyDirectory context = .ok () ↔
      rejectionsOf (verifyAttestations X manifest attestations policy keyDirectory context) = [] := by
  constructor
  · intro h
    rw [h]
    rfl
  · intro h
    unfold verifyAttestations at h ⊢
    simp only at h ⊢
    split at h
    · rename_i he
      rw [if_pos he]
    · rename_i he
      exact absurd (List.isEmpty_iff.2 h) he

theorem mem_validAttestations {a : Attestation} :
    a ∈ validAttestations X manifest attestations keyDirectory context ↔
      a ∈ attestations ∧ IndividuallyValid X a manifest.artifactHash manifest keyDirectory context := by
  unfold validAttestations
  rw [List.mem_filter, ← verifyAttestation_ok]
  refine and_congr_right fun _ => ?_
  cases verifyAttestation X a manifest.artifactHash manifest keyDirectory context with
  | ok u => exact ⟨fun _ => rfl, fun _ => rfl⟩
  | error e => exact ⟨nofun, nofun⟩

theorem validAttestations_hash {a : Attestation}
    (h : a ∈ validAttestations X manifest attestations keyDirectory context) :
    a.artifactHash = manifest.artifactHash := (mem_validAttestations.1 h).2.hash

theorem individualRejections_nil : individualRejections X manifest attestations keyDirectory context = [] ↔
    ∀ a ∈ attestations, IndividuallyValid X a manifest.artifactHash manifest keyDirectory context := by
  unfold individualRejections
  rw [List.filterMap_eq_nil_iff]
  refine forall₂_congr fun a _ => ?_
  rw [← verifyAttestation_ok]
  cases verifyAttestation X a manifest.artifactHash manifest keyDirectory context with
  | ok u => exact ⟨fun _ => rfl, fun _ => rfl⟩
  | error e => exact ⟨nofun, nofun⟩

theorem validAttestations_all
    (h : ∀ a ∈ attestations, IndividuallyValid X a manifest.artifactHash manifest keyDirectory context) :
    validAttestations X manifest attestations keyDirectory context = attestations := by
  unfold validAttestations
  rw [List.filter_eq_self]
  intro a ha
  rw [verifyAttestation_ok.2 (h a ha)]
  rfl

end Set

/-- A set is accepted exactly when it is complete. -/
theorem verifyAttestationSet_complete (X : Externals) (artifact : Artifact) (policy : VerificationPolicy)
    (keyDirectory : KeyDirectory) (context : PolicyContext) :
    verifyAttestationSet X artifact policy keyDirectory context = .ok () ↔
      AttestationSetComplete X artifact policy keyDirectory context := by
  unfold verifyAttestationSet
  rw [verifyAttestations_ok_iff_rejections, rejectionsOf_verifyAttestations, List.append_eq_nil_iff,
    List.append_eq_nil_iff, individualRejections_nil, missingTypes_nil,
    missingCoAttestations_nil fun a ha => validAttestations_hash ha]
  constructor
  · rintro ⟨⟨hvalid, hrequired⟩, hco⟩
    rw [validAttestations_all hvalid] at hrequired hco
    exact ⟨hvalid, hrequired, hco⟩
  · intro h
    rw [validAttestations_all h.valid]
    exact ⟨⟨h.valid, h.required⟩, h.coAttested⟩

/-- The order of the attestations changes the order of the rejections only. -/
theorem rejectionsOf_perm {artifact : Artifact} {policy : VerificationPolicy} {keyDirectory : KeyDirectory}
    {context : PolicyContext} {attestations : List Attestation} (hperm : attestations.Perm artifact.attestations) :
    (rejectionsOf (verifyAttestationSet X { artifact with attestations } policy keyDirectory context)).Perm
      (rejectionsOf (verifyAttestationSet X artifact policy keyDirectory context)) := by
  unfold verifyAttestationSet
  rw [rejectionsOf_verifyAttestations, rejectionsOf_verifyAttestations]
  have hvalid : (validAttestations X artifact.manifest attestations keyDirectory context).Perm
      (validAttestations X artifact.manifest artifact.attestations keyDirectory context) := hperm.filter _
  rw [missingTypes_perm hvalid, missingCoAttestations_perm (fun a ha => validAttestations_hash ha) hvalid]
  exact ((hperm.filterMap _).append_right _).append_right _

/-- A set is accepted exactly when it is complete, and the order of its attestations changes neither
the verdict nor the rejections, each as often as it is. -/
theorem verifyAttestationSet_iff_complete (X : Externals) (artifact : Artifact) (policy : VerificationPolicy)
    (keyDirectory : KeyDirectory) (context : PolicyContext) :
    (verifyAttestationSet X artifact policy keyDirectory context = .ok () ↔
        AttestationSetComplete X artifact policy keyDirectory context) ∧
      ∀ attestations, attestations.Perm artifact.attestations →
        (verifyAttestationSet X { artifact with attestations } policy keyDirectory context = .ok () ↔
          verifyAttestationSet X artifact policy keyDirectory context = .ok ()) ∧
        (rejectionsOf (verifyAttestationSet X { artifact with attestations } policy keyDirectory context)).Perm
          (rejectionsOf (verifyAttestationSet X artifact policy keyDirectory context)) := by
  refine ⟨verifyAttestationSet_complete X artifact policy keyDirectory context, fun attestations hperm => ?_⟩
  have hrej := @rejectionsOf_perm X artifact policy keyDirectory context attestations hperm
  refine ⟨?_, hrej⟩
  unfold verifyAttestationSet at hrej ⊢
  rw [verifyAttestations_ok_iff_rejections, verifyAttestations_ok_iff_rejections]
  exact ⟨fun h => List.perm_nil.1 (h ▸ hrej.symm), fun h => List.perm_nil.1 (h ▸ hrej)⟩

end

/-! ## One attestation of the test expert -/

/-- An assembled artifact with one attestation of the test expert, of a scope. -/
def attestedOnce (assembled : Except ArtifactError (Artifact × Bytes)) (attestationType : AttestationType)
    (scope : AttestationScope) : Option (Artifact × Attestation) := do
  let (artifact, _) ← assembled.toOption
  let attestation ← (signAttestation standIn { expertPayload standIn artifact.manifest attestationType 0 with scope }
    TestKeys.expertFixedSeed).toOption
  some ({ artifact with attestations := [attestation] }, attestation)

/-- So many attestations of source fidelity are configured. -/
def fidelityCount (count : UInt8) : VerificationPolicy := ⟨.strict, [.sourceFidelity], [⟨.sourceFidelity, count⟩]⟩

/-- One is asked for where none is configured, and one is too few where two are; an approval alone is not enough. -/
theorem verifyAttestationSet_iff_complete_transfer : ∃ faithful approved a b,
    attestedOnce transferArtifact .sourceFidelity .wholeArtifact = some (faithful, a) ∧
    attestedOnce transferArtifact .publicationApproval .wholeArtifact = some (approved, b) ∧
    AttestationSetComplete standIn faithful (fidelityCount 0) (testExpertKeyDirectory standIn) (localPolicyContext 0) ∧
    ¬ AttestationSetComplete standIn { faithful with attestations := [] } (fidelityCount 0)
      (testExpertKeyDirectory standIn) (localPolicyContext 0) ∧
    ¬ AttestationSetComplete standIn faithful (fidelityCount 2) (testExpertKeyDirectory standIn)
      (localPolicyContext 0) ∧
    ¬ AttestationSetComplete standIn approved ⟨.strict, [], []⟩ (testExpertKeyDirectory standIn)
      (localPolicyContext 0) := by
  have hrun : ((attestedOnce transferArtifact .sourceFidelity .wholeArtifact).any fun r =>
      (attestedOnce transferArtifact .publicationApproval .wholeArtifact).any fun r' =>
        decide (verifyAttestationSet standIn r.1 (fidelityCount 0) (testExpertKeyDirectory standIn)
          (localPolicyContext 0) = .ok ()) &&
        !decide (verifyAttestationSet standIn { r.1 with attestations := [] } (fidelityCount 0)
          (testExpertKeyDirectory standIn) (localPolicyContext 0) = .ok ()) &&
        !decide (verifyAttestationSet standIn r.1 (fidelityCount 2) (testExpertKeyDirectory standIn)
          (localPolicyContext 0) = .ok ()) &&
        !decide (verifyAttestationSet standIn r'.1 ⟨.strict, [], []⟩ (testExpertKeyDirectory standIn)
          (localPolicyContext 0) = .ok ())) = true := by decide +kernel
  obtain ⟨⟨faithful, a⟩, ha, hrun⟩ := (Option.any_eq_true _ _).1 hrun
  obtain ⟨⟨approved, b⟩, hb, hr⟩ := (Option.any_eq_true _ _).1 hrun
  simp only [Bool.and_eq_true, decide_eq_true_eq, Bool.not_eq_true', decide_eq_false_iff_not] at hr
  obtain ⟨⟨⟨hone, hnone⟩, htwo⟩, halone⟩ := hr
  exact ⟨faithful, approved, a, b, ha, hb,
    (verifyAttestationSet_iff_complete ..).1.1 hone, mt (verifyAttestationSet_iff_complete ..).1.2 hnone,
    mt (verifyAttestationSet_iff_complete ..).1.2 htwo, mt (verifyAttestationSet_iff_complete ..).1.2 halone⟩

end Ke
