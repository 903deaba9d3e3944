/-
When an attestation expires: the seconds that its expiration date is turned into are those of the
days counted from 1970-01-01 in the Gregorian calendar, and rule R4 rejects from the first second of
that day on.
-/
import KeEngine.Artifact.AttestationSet
import KeEngine.Calendar.Gregorian

namespace Ke

open Wire Gregorian

/-! ## The start of a day -/

/-- The date that a record writes. -/
structure JurisdictionDate.Denotes (date : JurisdictionDate) (d : Date) : Prop where
  year : date.year.val = d.year
  month : date.month.toNat = d.month
  day : date.day.toNat = d.day

def unixEpoch : Date := .newYear 1970

theorem unixEpoch_serial : unixEpoch.serial = 719163 := by decide

/-- Counting in years from March, of four hundred years an era, gives the serial number of the day. -/
theorem unixStartOf_serial {date : JurisdictionDate} {d : Date} (h : date.Denotes d) :
    unixStartOf date = 86400 * (d.serial - 719163) := by
  have hpos := d.month_pos
  have hday := d.day_pos
  have hle : date.month ≤ 2 ↔ d.month ≤ 2 := by
    rw [UInt8.le_iff_toNat_le, h.month]
    rfl
  unfold unixStartOf Date.serial
  rw [Date.daysBeforeMonth_march d.year hpos d.month_le]
  extract_lets month year era yearOfEra dayOfYear dayOfEra
  have hera : era = year / 400 := era_eq year
  have h4 : yearOfEra.tdiv 4 = yearOfEra / 4 := Int.tdiv_eq_ediv_of_nonneg (by omega)
  have h100 : yearOfEra.tdiv 100 = yearOfEra / 100 := Int.tdiv_eq_ediv_of_nonneg (by omega)
  have hdoy : dayOfYear = (153 * (month + (if 2 < month then -3 else 9)) + 2) / 5 + date.day.toNat - 1 := by
    show (153 * (month + (if 2 < month then -3 else 9)) + 2).tdiv 5 + date.day.toNat - 1 = _
    rw [Int.tdiv_eq_ediv_of_nonneg]
    split <;> omega
  have hmonth : month = d.month := congrArg Nat.cast h.month
  have hyear : year = d.year - (if d.month ≤ 2 then 1 else 0) := by
    show date.year.val - (if date.month ≤ 2 then 1 else 0) = _
    rw [h.year]
    simp only [hle]
  rw [h.day] at hdoy
  unfold Date.daysBeforeYear
  by_cases hfirst : d.month ≤ 2
  · rw [if_pos hfirst] at hyear ⊢
    rw [if_neg (by omega)] at hdoy
    omega
  · rw [if_neg hfirst] at hyear ⊢
    rw [if_pos (by omega)] at hdoy
    by_cases hleap : IsLeap d.year
    · rw [if_pos hleap]
      unfold IsLeap at hleap
      omega
    · rw [if_neg hleap]
      unfold IsLeap at hleap
      omega

theorem unixStartOf_unixEpoch {date : JurisdictionDate} (h : date.Denotes unixEpoch) : unixStartOf date = 0 := by
  rw [unixStartOf_serial h, unixEpoch_serial]
  rfl

theorem unixStartOf_next {date date' : JurisdictionDate} {d : Date} (h : date.Denotes d) (h' : date'.Denotes d.next) :
    unixStartOf date' = unixStartOf date + 86400 := by
  rw [unixStartOf_serial h, unixStartOf_serial h', Date.serial_next]
  ring

theorem unixStartOf_daysApart {date : JurisdictionDate} {d : Date} (h : date.Denotes d) {n : Int}
    (hn : Date.DaysApart unixEpoch d n) : unixStartOf date = 86400 * n := by
  rw [Date.daysApart_iff, unixEpoch_serial] at hn
  rw [unixStartOf_serial h, hn]

/-! ## Rule R4 -/

section

variable {X : Externals} {a : Attestation} {hash : Hash32} {manifest : Manifest} {keyDirectory : KeyDirectory}
  {context : PolicyContext}

/-- The day that the attestation expires on has begun. -/
def PastExpiration (a : Attestation) (context : PolicyContext) : Prop :=
  ∃ day ∈ a.expiration, unixStartOf day ≤ context.nowUnix.toNat

/-- Rule R5, the check after R4. -/
def verifySource (a : Attestation) (context : PolicyContext) : Except AttestationRejection Unit :=
  match context.currentLegalSourceHash with
  | some current => if current ≠ a.legalSourceHash then throw .legalSourceHashChanged else pure ()
  | none => pure ()

theorem verifySource_ne_expired : verifySource a context ≠ .error .expired := by
  unfold verifySource
  cases context.currentLegalSourceHash with
  | none => nofun
  | some current =>
    by_cases hcurrent : current = a.legalSourceHash
    · simp [hcurrent, pure, Except.pure]
    · simp [hcurrent, throw, throwThe, MonadExceptOf.throw]

theorem verifyCurrency_expired : verifyCurrency a manifest context = .error .expired ↔
    a.attestationPolicyVersion ∈ context.supportedPolicyVersions ∧ a.irSchemaVersion = manifest.irSchemaVersion ∧
      PastExpiration a context := by
  have hsource := @verifySource_ne_expired a context
  have hlate : Late (.error .expired) := .inr rfl
  unfold verifyCurrency PastExpiration
  refine (throw_else_late hlate (by nofun)).trans ?_
  rw [not_not]
  refine and_congr_right fun _ => (throw_else_late hlate (by nofun)).trans ?_
  rw [not_not]
  refine and_congr_right fun _ => ?_
  cases a.expiration with
  | none =>
    constructor
    · exact fun h => absurd h hsource
    · rintro ⟨day, hday, -⟩
      cases hday
  | some day =>
    simp only [Option.mem_some_iff, exists_eq_left']
    -- the clamp of the clock does not move it across the start of the day
    have hclamp : unixStartOf day ≤ clampI64 context.nowUnix ↔ unixStartOf day ≤ context.nowUnix.toNat := by
      rw [← Int.not_lt, clampI64_lt_iff, Int.not_lt]
    rw [← hclamp]
    by_cases hpast : unixStartOf day ≤ clampI64 context.nowUnix
    · rw [if_pos hpast]
      exact ⟨fun _ => hpast, fun _ => rfl⟩
    · rw [if_neg hpast]
      exact ⟨fun h => absurd h hsource, fun h => absurd h hpast⟩

/-- R4 rejects exactly what the checks before it let pass and whose day of expiration has begun. -/
theorem verifyAttestation_expired : verifyAttestation X a hash manifest keyDirectory context = .error .expired ↔
    AuthenticFor X a hash manifest keyDirectory context ∧
      a.attestationPolicyVersion ∈ context.supportedPolicyVersions ∧ a.irSchemaVersion = manifest.irSchemaVersion ∧
      PastExpiration a context := by
  rw [verifyAttestation_late (.inr rfl), verifyCurrency_expired]

end

/-- A date starts 86400 seconds for each day that it is away from 1970-01-01, in both directions: at 0 on that
day, a day's seconds later on the day after, and without overflow on the way. So of the attestations that pass
the checks before R4, R4 rejects those whose expiration date has begun, and no other. -/
theorem expiry_counts_days (X : Externals) :
    (∀ (date : JurisdictionDate) (d : Date), date.Denotes d →
        ∃ n, Date.DaysApart unixEpoch d n ∧ unixStartOf date = 86400 * n) ∧
      (∀ date : JurisdictionDate, date.Denotes unixEpoch → unixStartOf date = 0) ∧
      (∀ (date date' : JurisdictionDate) (d : Date), date.Denotes d → date'.Denotes d.next →
        unixStartOf date' = unixStartOf date + 86400) ∧
      (∀ date, unixStartOf? date = some (unixStartOf date)) ∧
      ∀ a hash manifest keyDirectory context,
        (∀ date d n, a.expiration = some date → date.Denotes d → Date.DaysApart unixEpoch d n →
          (verifyAttestation X a hash manifest keyDirectory context = .error .expired ↔
            AuthenticFor X a hash manifest keyDirectory context ∧
              a.attestationPolicyVersion ∈ context.supportedPolicyVersions ∧
              a.irSchemaVersion = manifest.irSchemaVersion ∧ 86400 * n ≤ context.nowUnix.toNat)) ∧
        (a.expiration = none → verifyAttestation X a hash manifest keyDirectory context ≠ .error .expired) := by
  refine ⟨fun date d h => ?_, fun date => unixStartOf_unixEpoch, fun date date' d => unixStartOf_next,
    unixStartOf?_eq, fun a hash manifest keyDirectory context => ⟨fun date d n hdate hd hn => ?_, fun hnone h => ?_⟩⟩
  · have hn : Date.DaysApart unixEpoch d (d.serial - unixEpoch.serial) := Date.daysApart_iff.2 rfl
    exact ⟨_, hn, unixStartOf_daysApart h hn⟩
  · rw [verifyAttestation_expired]
    unfold PastExpiration
    rw [hdate]
    simp only [Option.mem_some_iff, exists_eq_left']
    rw [unixStartOf_daysApart hd hn]
  · obtain ⟨-, -, -, day, hday, -⟩ := verifyAttestation_expired.1 h
    rw [hnone] at hday
    cases hday

def sampleAttestation : Attestation where
  artifactHash := toHash32 1
  scope := .ruleIds ["first", "second"]
  attestationType := .sourceFidelity
  signerIdentity := "expert"
  keyId := TestKeys.testExpertKeyId
  signerRole := .domainExpert
  regimeId := "eu"
  effectiveFrom := ⟨.lit 16 2025, 1, 1⟩
  effectiveTo := none
  legalSourceHash := toHash32 2
  irSchemaVersion := ⟨1, 0, 0⟩
  compilerVersion := ⟨0, 1, 0⟩
  attestationPolicyVersion := "1"
  testCorpusHash := none
  timestamp := mockStamp standIn (toHash32 1) 10
  expiration := some ⟨.lit 16 2030, 2, 28⟩
  reviewerComments := some "reviewed"
  signature := zeroSig

def sampleManifest : Manifest where
  artifactKind := .intentSpec
  artifactHash := toHash32 1
  regimeId := "eu"
  effectiveFrom := ⟨.lit 16 2025, 1, 1⟩
  effectiveTo := none
  compilerVersion := ⟨0, 1, 0⟩
  compilerBuildHash := toHash32 3
  irSchemaVersion := ⟨1, 0, 0⟩
  codecVersion := "1"
  canonicalizationVersion := "1"
  corpusRootHash := toHash32 4
  sourceCorpusHash := toHash32 2
  attestationPolicyVersion := "1"

/-- The expert's key, for every claim. -/
def sampleDirectory : KeyDirectory :=
  ⟨[⟨TestKeys.testExpertKeyId, standIn.verifyingKey TestKeys.expertFixedSeed, [.domainExpert], [.sourceFidelity], 0,
    4000000000, .active⟩]⟩

def sampleContext (nowUnix : UInt64) : PolicyContext := ⟨"local", nowUnix, ["1"], none⟩

/-- The sample signed by its expert. -/
def signedSample : Attestation :=
  { sampleAttestation with
    signature := standIn.sign TestKeys.expertFixedSeed ((payloadPrefix sampleAttestation).toOption.getD []) }

theorem lastOfFebruary_day : 28 ≤ daysInMonth 2030 2 := by decide

def lastOfFebruary : Date := ⟨2030, 2, 28, Nat.le_add_left 1 1, Nat.le_add_left 2 10, Nat.le_add_left 1 27,
    lastOfFebruary_day⟩

theorem signedSample_authentic {nowUnix : UInt64} (h : nowUnix < 4000000000) : AuthenticFor standIn signedSample
    (toHash32 1) sampleManifest sampleDirectory (sampleContext nowUnix) where
  key := by
    obtain ⟨signed, hsigned, hverify⟩ := exists_ok_and (x := payloadPrefix signedSample)
      (p := fun signed => standIn.verify (standIn.verifyingKey TestKeys.expertFixedSeed) signed signedSample.signature)
      (by decide +kernel)
    exact ⟨_, rfl, ⟨rfl, UInt64.zero_le, h, by decide, by decide⟩, signed, hsigned, hverify⟩
  timestamp := by decide +kernel
  mockLocal _ := rfl
  hash := rfl
  regime := rfl
  compiler := rfl

/-- An attestation until 28 February 2030 is accepted in the last second before that day and rejected in its first. -/
theorem expiry_counts_days_boundary :
    verifyAttestation standIn signedSample (toHash32 1) sampleManifest sampleDirectory
      (sampleContext 1898467199) = .ok () ∧
      ∃ n, Date.DaysApart unixEpoch lastOfFebruary n ∧ 86400 * n = 1898467200 ∧
        verifyAttestation standIn signedSample (toHash32 1) sampleManifest sampleDirectory (sampleContext 1898467200) =
          .error .expired := by
  obtain ⟨hcount, -, -, -, hr4⟩ := expiry_counts_days standIn
  have hdate : JurisdictionDate.Denotes ⟨.lit 16 2030, 2, 28⟩ lastOfFebruary := ⟨rfl, rfl, rfl⟩
  obtain ⟨n, hn, hstart⟩ := hcount _ _ hdate
  have hvalue : 86400 * n = 1898467200 := hstart.symm.trans (by decide)
  refine ⟨by decide +kernel, n, hn, hvalue, ?_⟩
  refine ((hr4 _ _ _ _ _).1 _ _ n rfl hdate hn).2 ⟨signedSample_authentic (by decide +kernel), by decide, by decide, ?_⟩
  rw [hvalue]
  decide +kernel

end Ke
