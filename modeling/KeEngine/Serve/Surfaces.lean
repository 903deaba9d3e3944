/-
Several surfaces say the same of one artifact. What is verified, exported and resolved under a hash agree in any
registry. A dry run of the source and a dry run of the artifact that was compiled from it agree as far as canonical
rules evaluate like the rules as written, whatever other commands ran meanwhile.
-/
import KeEngine.Registry.Compiled
import KeEngine.Registry.Exchange
import KeEngine.Serve.Statuses
import KeEngine.Runtime.DryRun

namespace Ke.Serve

open Ke Wire Registry Compiler Ke.Runtime

section

variable {X : Externals} {r : Backend} {hash : Hash32} {now : UInt64}

/-! ## Verification, export and resolution -/

theorem statusFor_revoked {state : LifecycleState} : statusFor state = .revoked ↔ state = .revoked := by
  cases state <;> simp [statusFor]

theorem readRegistryEvidence_ok {evidence : RegistryEvidence} (h : readRegistryEvidence X r hash = .ok evidence) :
    ∃ events state, r.readEvents hash = .ok events ∧ currentState X events = .ok state ∧
      evidence.status = state.elim .unknown statusFor := by
  obtain ⟨events, hread, h⟩ := bind_ok.1 h
  obtain ⟨state, hstate, h⟩ := bind_ok.1 h
  obtain ⟨head, -, h⟩ := bind_ok.1 h
  obtain rfl := pure_ok.1 h
  exact ⟨events, state, hread, hstate, rfl⟩

theorem exportProvenance_ok {p : ArtifactProvenance} : exportProvenance X r hash now = .ok p ↔
    ∃ kew a n evidence, r.readArtifactKew hash = .ok kew ∧ decodeArtifact X kew = .ok (a, n) ∧
      readRegistryEvidence X r hash = .ok evidence ∧ p = artifactProvenance a evidence now := by
  constructor
  · intro h
    obtain ⟨kew, hkew, h⟩ := bind_ok.1 h
    obtain ⟨⟨a, n⟩, hdec, h⟩ := bind_ok.1 h
    obtain ⟨evidence, hevidence, h⟩ := bind_ok.1 h
    exact ⟨kew, a, n, evidence, hkew, mapError_ok.1 hdec, hevidence, (pure_ok.1 h).symm⟩
  · rintro ⟨kew, a, n, evidence, hkew, hdec, hevidence, rfl⟩
    exact bind_ok.2 ⟨kew, hkew, bind_ok.2 ⟨(a, n), mapError_ok.2 hdec, bind_ok.2 ⟨evidence, hevidence, rfl⟩⟩⟩

theorem runVerify_ok {kew : Bytes} {req : VerifyRequest} {evidence : RegistryEvidence} {outcome : VerificationOutcome} :
    runVerify X kew req evidence now = .ok outcome ↔ ∃ a n policy, decodeArtifact X kew = .ok (a, n) ∧
      verificationPolicy req.policy = .ok policy ∧ outcome = verifyArtifact X kew (testKeyDirectory X a)
        (artifactContext a (req.env.getD "local") now) policy evidence now := by
  constructor
  · intro h
    obtain ⟨⟨a, n⟩, hdec, h⟩ := bind_ok.1 h
    obtain ⟨policy, hpolicy, h⟩ := bind_ok.1 h
    exact ⟨a, n, policy, mapError_ok.1 hdec, hpolicy, (pure_ok.1 h).symm⟩
  · rintro ⟨a, n, policy, hdec, hpolicy, rfl⟩
    exact bind_ok.2 ⟨(a, n), mapError_ok.2 hdec, bind_ok.2 ⟨policy, hpolicy, rfl⟩⟩

/-- Of bytes that decode, the provenance and the state are there whatever the verdict. -/
theorem verifyArtifact_reads {kew : Bytes} {a : Artifact} {n : Nat} (hdec : decodeArtifact X kew = .ok (a, n))
    (keyDirectory : KeyDirectory) (context : PolicyContext) (policy : VerificationPolicy) (evidence : RegistryEvidence) :
    (verifyArtifact X kew keyDirectory context policy evidence now).provenance = artifactProvenance a evidence now ∧
      (verifyArtifact X kew keyDirectory context policy evidence now).registryState = evidence.status := by
  unfold verifyArtifact
  rw [hdec]
  exact ⟨rfl, rfl⟩

/-- What is answered about a hash is what is exported of it, with a verdict and the record of a revocation. -/
theorem verifyHashed_ok {req : VerifyRequest} {reply : Reply} : verifyHashed X r req now hash = .ok reply ↔
    ∃ kew a n policy evidence revocation, r.readArtifactKew hash = .ok kew ∧ decodeArtifact X kew = .ok (a, n) ∧
      readRegistryEvidence X r hash = .ok evidence ∧ verificationPolicy req.policy = .ok policy ∧
      r.surfacedRevocation hash evidence.status = .ok revocation ∧
      reply = .verification ⟨(verifyArtifact X kew (testKeyDirectory X a) (artifactContext a (req.env.getD "local") now)
        policy evidence now).verdict, artifactProvenance a evidence now, evidence.status, revocation⟩ := by
  constructor
  · intro h
    obtain ⟨kew, hkew, h⟩ := bind_ok.1 h
    obtain ⟨evidence, hevidence, h⟩ := bind_ok.1 h
    obtain ⟨outcome, houtcome, h⟩ := bind_ok.1 h
    obtain ⟨revocation, hrevocation, h⟩ := bind_ok.1 h
    obtain ⟨a, n, policy, hdec, hpolicy, rfl⟩ := runVerify_ok.1 (mapError_ok.1 houtcome)
    obtain ⟨hprovenance, hstate⟩ := @verifyArtifact_reads X now kew a n hdec (testKeyDirectory X a)
      (artifactContext a (req.env.getD "local") now) policy evidence
    have hrevocation := mapError_ok.1 hrevocation
    rw [hstate] at hrevocation
    refine ⟨kew, a, n, policy, evidence, revocation, mapError_ok.1 hkew, hdec, mapError_ok.1 hevidence, hpolicy,
      hrevocation, ?_⟩
    rw [← pure_ok.1 h, hprovenance, hstate]
  · rintro ⟨kew, a, n, policy, evidence, revocation, hkew, hdec, hevidence, hpolicy, hrevocation, rfl⟩
    obtain ⟨hprovenance, hstate⟩ := @verifyArtifact_reads X now kew a n hdec (testKeyDirectory X a)
      (artifactContext a (req.env.getD "local") now) policy evidence
    refine bind_ok.2 ⟨kew, mapError_ok.2 hkew, bind_ok.2 ⟨evidence, mapError_ok.2 hevidence, ?_⟩⟩
    refine bind_ok.2 ⟨_, mapError_ok.2 (runVerify_ok.2 ⟨a, n, policy, hdec, hpolicy, rfl⟩), ?_⟩
    rw [hstate, hprovenance]
    exact bind_ok.2 ⟨revocation, mapError_ok.2 hrevocation, rfl⟩

end

/-- In any registry, whatever is in it: a hash is verified exactly when its provenance can be exported, the policy is
known and the record of a revocation can be read. The answer is then that provenance, and the state, the revocation
and the time of what the hash resolves to, if it does. -/
theorem readers_agree (X : Externals) (r : Backend) (req : VerifyRequest) (now : UInt64) (hash : Hash32) :
    ((∃ reply, verifyHashed X r req now hash = .ok reply) ↔
      ∃ p policy revocation, exportProvenance X r hash now = .ok p ∧ verificationPolicy req.policy = .ok policy ∧
        r.surfacedRevocation hash p.registryState = .ok revocation) ∧
      ∀ reply, verifyHashed X r req now hash = .ok reply → ∃ response, reply = .verification response ∧
        exportProvenance X r hash now = .ok response.provenance ∧
        ∀ selector record, Registry.resolve X r selector now = .ok (hash, record) →
          response.registryState = statusFor record.registryStateAtResolution ∧
            response.revocation = record.revocation ∧
              response.provenance.exportedAtUnix = record.resolutionTimestampUnix := by
  constructor
  · constructor
    · rintro ⟨reply, h⟩
      obtain ⟨kew, a, n, policy, evidence, revocation, hkew, hdec, hevidence, hpolicy, hrevocation, -⟩ :=
        verifyHashed_ok.1 h
      exact ⟨_, policy, revocation, exportProvenance_ok.2 ⟨kew, a, n, evidence, hkew, hdec, hevidence, rfl⟩, hpolicy,
        hrevocation⟩
    · rintro ⟨p, policy, revocation, hp, hpolicy, hrevocation⟩
      obtain ⟨kew, a, n, evidence, hkew, hdec, hevidence, rfl⟩ := exportProvenance_ok.1 hp
      exact ⟨_, verifyHashed_ok.2 ⟨kew, a, n, policy, evidence, revocation, hkew, hdec, hevidence, hpolicy, hrevocation,
        rfl⟩⟩
  · intro reply h
    obtain ⟨kew, a, n, policy, evidence, revocation, hkew, hdec, hevidence, -, hrevocation, rfl⟩ := verifyHashed_ok.1 h
    refine ⟨_, rfl, exportProvenance_ok.2 ⟨kew, a, n, evidence, hkew, hdec, hevidence, rfl⟩, fun selector record hres => ?_⟩
    obtain ⟨events, state, hread, hstate, hstatus⟩ := readRegistryEvidence_ok hevidence
    obtain ⟨hash', -, hres⟩ := bind_ok.1 hres
    obtain ⟨events', hread', hres⟩ := bind_ok.1 hres
    obtain ⟨found, hfound, hres⟩ := bind_ok.1 hres
    obtain ⟨state', hstate', hres⟩ := bind_ok.1 hres
    obtain ⟨manifest, -, hres⟩ := bind_ok.1 hres
    obtain ⟨revocation', hrevocation', hres⟩ := bind_ok.1 hres
    obtain ⟨rfl, rfl⟩ := Prod.mk.inj (pure_ok.1 hres)
    -- the log of the hash is read once more, and says the same
    obtain rfl := Except.ok.inj (hread.symm.trans hread')
    obtain rfl := Except.ok.inj (hstate.symm.trans hfound)
    obtain rfl := elim_throw.1 hstate'
    refine ⟨hstatus, ?_, rfl⟩
    have hsame : r.surfacedRevocation hash' evidence.status = r.revocationOf hash' state' := by
      unfold Backend.surfacedRevocation Backend.revocationOf
      rw [hstatus]
      simp only [Option.elim_some, statusFor_revoked]
    exact Except.ok.inj ((hrevocation.symm.trans hsame).trans hrevocation')

/-! ## Verification and import -/

/-- A request that verifies as `import` does: in the local environment, with no type required. -/
structure Permissive (req : VerifyRequest) : Prop where
  env : req.env.getD "local" = "local"
  policy : req.policy.getD "strict" = "permissive"

theorem Permissive.disabled {req : VerifyRequest} (hreq : Permissive req) :
    verificationPolicy req.policy = .ok ⟨.disabled, [], []⟩ := by
  unfold verificationPolicy
  rw [hreq.policy]
  rfl

section

variable {X : Externals} {r : Backend} {hash : Hash32} {now : UInt64}

/-- The evidence says published exactly when the log does. -/
theorem evidence_published_iff {evidence : RegistryEvidence} (hevidence : readRegistryEvidence X r hash = .ok evidence) :
    evidence.status = .published ↔ lifecycleState X r hash = .ok (some .published) := by
  obtain ⟨events, state, hread, hstate, hstatus⟩ := readRegistryEvidence_ok hevidence
  have hlog : lifecycleState X r hash = .ok state := bind_ok.2 ⟨events, hread, hstate⟩
  rw [hlog, hstatus]
  constructor
  · intro hpublished
    rcases state with _ | state
    · cases hpublished
    · cases state <;> first | rfl | cases hpublished
  · intro h
    obtain rfl := Except.ok.inj h
    rfl

/-- There is evidence of what the log of a sound store publishes, and it pins no head. -/
theorem exists_published_evidence (hX : X.Lawful) (h : r.Sound X)
    (hstate : lifecycleState X r hash = .ok (some .published)) :
    ∃ head, readRegistryEvidence X r hash = .ok ⟨.published, head, none⟩ := by
  have hnot := (h.accepted_iff hX hash).1 ⟨_, hstate⟩
  obtain ⟨events, hread, -, hview, -⟩ := h.log hash
  obtain ⟨state, head, hlog⟩ := hview hnot
  obtain ⟨events', hread', hcurrent⟩ := bind_ok.1 hstate
  obtain rfl := Except.ok.inj (hread.symm.trans hread')
  obtain rfl := Except.ok.inj ((hlog.currentState hX).symm.trans hcurrent)
  exact ⟨head, hlog.evidence hX hread⟩

/-- A set that the expert signed is complete for serve exactly when it can be imported. -/
theorem complete_disabled_iff (hX : X.Lawful) {a : Artifact} (hsigned : ExpertSigned X a) :
    AttestationSetComplete X a ⟨.disabled, [], []⟩ (testKeyDirectory X a) (artifactContext a "local" now) ↔
      Importable a now :=
  complete_signed_iff hX hsigned testKeyDirectory_lookup_expert rfl (fun _ => mem_declaredTypes) rfl
    (fun _ => mem_declaredVersions) fun current h => absurd h (Option.not_mem_none current)

end

/-- Whatever commands run side by side, serve verifies a hash under the permissive policy exactly when the artifact is
published and its file can be imported. -/
theorem together_permissive_iff {X : Externals} (hX : X.Lawful) (commands : List CommandLine)
    (schedule : List (Turn CommandError)) (hash : Hash32) {req : VerifyRequest} (hreq : Permissive req) (now : UInt64) :
    let left := ((together X commands .empty).run @perform schedule).store
    (∃ response, verifyHashed X left req now hash = .ok (.verification response) ∧ response.verdict = .verified) ↔
      lifecycleState X left hash = .ok (some .published) ∧
        ∃ kew outcome, left.readArtifactKew hash = .ok kew ∧ importKew X (.ok kew) now = .ok outcome := by
  intro left
  have hsound : left.Sound X := sound_together .empty commands schedule
  constructor
  · rintro ⟨response, hresponse, hverified⟩
    obtain ⟨kew, a, n, policy, evidence, revocation, hkew, hdec, hevidence, hpolicy, -, heq⟩ :=
      verifyHashed_ok.1 hresponse
    obtain rfl := Except.ok.inj (hreq.disabled.symm.trans hpolicy)
    obtain rfl := Reply.verification.inj heq
    rw [hreq.env] at hverified
    obtain ⟨a', n', entry, hchecks⟩ := verified_iff.1 hverified
    obtain ⟨rfl, rfl⟩ := Prod.mk.inj (Except.ok.inj (hdec.symm.trans hchecks.decoded))
    obtain ⟨hfiled, hsigned⟩ := hsound.stored_of_decode hkew hdec
    have himportable := (complete_disabled_iff hX hsigned).1 hchecks.attestations
    exact ⟨(evidence_published_iff hevidence).1 hchecks.published, kew, _, hkew,
      importKew_ok.2 ⟨a, n, (hfiled.holdsTogether_iff hX hsigned hdec).2 himportable, rfl⟩⟩
  · rintro ⟨hstate, kew, outcome, hkew, himport⟩
    obtain ⟨a, n, hholds, -⟩ := importKew_ok.1 himport
    obtain ⟨hfiled, hsigned⟩ := hsound.stored_of_decode hkew hholds.decoded
    obtain ⟨head, hevidence⟩ := exists_published_evidence hX hsound hstate
    have himportable := (hfiled.holdsTogether_iff hX hsigned hholds.decoded).1 hholds
    have hverified : (verifyArtifact X kew (testKeyDirectory X a) (artifactContext a "local" now)
        ⟨.disabled, [], []⟩ ⟨.published, head, none⟩ now).verdict = .verified :=
      (hfiled.checksOut_iff hX hholds.decoded).2 ((complete_disabled_iff hX hsigned).2 himportable)
    refine ⟨_, verifyHashed_ok.2 ⟨kew, a, n, _, _, none, hkew, hholds.decoded, hevidence, hreq.disabled, rfl, rfl⟩, ?_⟩
    rw [hreq.env]
    exact hverified

theorem together_permissive_iff_crowd : ∃ kew outcome,
    ((together standIn crowd .empty).run @perform crowdFirst).store.readArtifactKew transferHash = .ok kew ∧
      importKew standIn (.ok kew) 9 = .ok outcome := by
  have hrun : (verifyHashed standIn ((together standIn crowd .empty).run @perform crowdFirst).store
      ⟨hex32 transferHash, none, some "permissive"⟩ 9 transferHash).toOption.any (fun
        | .verification response => decide (response.verdict = .verified)
        | _ => false) = true := by decide +kernel
  obtain ⟨reply, hreply, hverified⟩ := exists_ok_and hrun
  cases reply with
  | verification response =>
    have hpermissive : Permissive ⟨hex32 transferHash, none, some "permissive"⟩ := ⟨rfl, rfl⟩
    exact ((together_permissive_iff standIn_lawful crowd crowdFirst transferHash hpermissive 9).1
      ⟨response, hreply, of_decide_eq_true hverified⟩).2
  | health | resolution | preview | evaluations => cases hverified

/-! ## What an address is of -/

/-- The bytes that an artifact is addressed by: its envelope under the zero hash. -/
def addressed (a : Artifact) : Except EncodeError Bytes :=
  Postcard.envelope.enc { a.toEnvelope with manifest := { a.manifest with artifactHash := zeroHash } }

/-- Two artifacts are addressed by different bytes of one hash. -/
def AddressesCollide (X : Externals) (a a' : Artifact) : Prop :=
  ∃ s s', addressed a = .ok s ∧ addressed a' = .ok s' ∧ s ≠ s' ∧ X.blake3 s = X.blake3 s'

section

variable {X : Externals} {hash : Hash32} {kew kew' : Bytes} {a a' : Artifact}

theorem addressed_of_stored (h : Stored X hash kew a) : ∃ s, addressed a = .ok s ∧ X.blake3 s = hash := by
  obtain ⟨e, he, hhash, -⟩ := h.envelope
  obtain ⟨k, q, hk, rfl, hpatch⟩ := envelope_enc_patch he
  refine ⟨_, hpatch zeroHash, ?_⟩
  obtain ⟨⟨kind, rest⟩, hkind, hhash⟩ := bind_ok.1 hhash
  rw [mapError_ok, Postcard.artifactKind.dec_enc hk] at hkind
  obtain ⟨rfl, -⟩ := Prod.mk.inj (Except.ok.inj hkind)
  obtain ⟨-, hhash⟩ := throw_else.1 hhash
  have hhash := pure_ok.1 hhash
  rwa [artifactHashOffset_eq hk, patchHash_slot] at hhash

/-- Two artifacts that were stored under one hash have one payload, or their addresses collide. -/
theorem payload_of_stored (h : Stored X hash kew a) (h' : Stored X hash kew' a') :
    AddressesCollide X a a' ∨ a.payload = a'.payload := by
  obtain ⟨s, hs, hhash⟩ := addressed_of_stored h
  obtain ⟨s', hs', hhash'⟩ := addressed_of_stored h'
  by_cases heq : s = s'
  · subst heq
    have hpayload := congrArg Envelope.payload (Codec.enc_injective _ hs hs')
    exact .inr hpayload
  · exact .inl ⟨s, s', hs, hs', heq, hhash.trans hhash'.symm⟩

end

/-! ## Dry runs -/

/-- What is assembled from rules is an artifact of rules. -/
theorem assembleRules_payload {X : Externals} {document : YamlNode} {regimeId : String} {a : Artifact} {kew : Bytes}
    (h : assembleRules X document regimeId = .ok (a, kew)) : a.payload = .rules a.rules := by
  obtain ⟨rules, hrules, -⟩ := bind_ok.1 h
  obtain ⟨-, seed, -, hmade⟩ := (assembleRules_ok (mapError_ok.1 hrules)).1 h
  obtain ⟨index, hpayload⟩ := (assemblePayload_ok hmade).payload_eq
  obtain ⟨canon, -, hpayload⟩ := bind_ok.1 hpayload
  obtain ⟨hpayload, -⟩ := Prod.mk.inj (pure_ok.1 hpayload)
  unfold Artifact.rules
  rw [← hpayload]

/-- The name of a hash is parsed as the hash. -/
theorem requestHash_hex32 (hash : Hash32) : requestHash (hex32 hash) = some (.ok hash) := by
  have hbytes := parseHexBytes_hex32 hash
  refine requestHash_ok.2 (hexToHashOrPanic_ok.2 ⟨?_, hbytes⟩)
  rw [utf8ByteSize_eq, byteSize_of_parseHexBytes hbytes, hash.2]

section

variable {X : Externals} {Fl : Floats} {P : Parsers Fl.F} {r : Backend} {hash : Hash32} {now : UInt64}

/-- The rules of a stored artifact that has events, none of which collide. -/
theorem storedRules_ok (hX : X.Lawful) (h : r.Sound X) (hnot : ¬ r.Collides hash) {e : LifecycleEvent}
    (he : eventFile e ∈ r.events hash) {kew : Bytes} {a : Artifact} {n : Nat} (hkew : r.readArtifactKew hash = .ok kew)
    (hdec : decodeArtifact X kew = .ok (a, n)) {rules : List RuleIR} (hrules : a.payload = .rules rules) :
    storedRules X r now hash = .ok rules := by
  obtain ⟨events, hread, hmem, hview, -⟩ := h.log hash
  obtain ⟨state, head, hlog⟩ := hview hnot
  obtain ⟨last, rfl⟩ : ∃ last, state = some last := by
    cases hlog with
    | empty => exact absurd ((hmem e).2 he) List.not_mem_nil
    | @head _ last _ walked hlast chain => exact ⟨last.newState, rfl⟩
  obtain ⟨record, hres, -⟩ := (h.resolve_iff hX hlog hread hkew last).2 rfl
  refine bind_ok.2 ⟨(hash, record), mapError_ok.2 hres, bind_ok.2 ⟨kew, mapError_ok.2 hkew, ?_⟩⟩
  refine bind_ok.2 ⟨(a, n), mapError_ok.2 hdec, ?_⟩
  dsimp only
  rw [hrules]
  rfl

end

/-- What the dry run of a source and that of an artifact compiled from it come to, on facts: they agree exactly when
every membership check that is consulted goes by value. -/
def DryRunsAgree (Fl : Floats) (facts : Facts Fl.F) (rules rules' : List RuleIR) : Prop :=
  Runtime.dryRun Fl facts rules' = Runtime.dryRun Fl facts rules ↔
    ∀ rule ∈ rules, ∀ c ∈ consulted Fl facts rule, MembershipByValue Fl facts c

section

variable {X : Externals} {Fl : Floats} {P : Parsers Fl.F} {commands : List CommandLine}

/-- Whatever other commands run meanwhile: once a document is compiled, a dry run of it by its source and one by the
hash of the artifact agree on exactly the facts for which every membership check that they consult goes by value. The
exceptions are a fork of the log, and an artifact filed in its place whose address collides. -/
theorem together_dryRun (hX : X.Lawful) (hFl : Fl.ParsesValue) (schedule : List (Turn CommandError)) {who : Nat}
    {document : YamlNode} {regimeId : String} {nowUnix : UInt64} {state : LifecycleState} {source : String}
    (hcompile : commands[who]? = some (.compile (.ok document) regimeId nowUnix))
    (hreturned : ((together X commands .empty).run @perform schedule).programs[who]?.bind Prog.returned = some state)
    (hsource : P.yaml source = .ok document) (now : UInt64) :
    let left := ((together X commands .empty).run @perform schedule).store
    ∃ a kew rules, assembleRules X document regimeId = .ok (a, kew) ∧
      dryRunRules X Fl P left now (some source) none = some (.ok rules) ∧
      (left.Collides a.manifest.artifactHash ∨
        (∃ kew' filed n, left.readArtifactKew a.manifest.artifactHash = .ok kew' ∧
          decodeArtifact X kew' = .ok (filed, n) ∧ AddressesCollide X a filed) ∨
        ∃ rules', dryRunRules X Fl P left now none (some (hex32 a.manifest.artifactHash)) = some (.ok rules') ∧
          ∀ facts, DryRunsAgree Fl facts rules rules') := by
  intro left
  have hkept := kept_together (X := X) .empty commands schedule
  have hsound : left.Sound X := hkept.inv
  obtain ⟨hash, kind, time, e, ⟨⟨a, kew, hmade, rfl⟩, -⟩, he, -⟩ := done_of_returned hkept hcompile hreturned
  obtain ⟨_, hok, hassemble⟩ := hmade
  obtain rfl := Except.ok.inj hok
  obtain ⟨rules, hrules, -⟩ := bind_ok.1 hassemble
  have hrules := mapError_ok.1 hrules
  obtain ⟨hcanon, -⟩ := assembleRules_canonical hrules hassemble
  have hsourced : dryRunRules X Fl P left now (some source) none = some (.ok rules) := by
    refine congrArg some (mapError_ok.2 ?_)
    rw [hsource]
    exact hrules
  refine ⟨a, kew, rules, hassemble, hsourced, ?_⟩
  by_cases hcol : left.Collides a.manifest.artifactHash
  · exact .inl hcol
  · obtain ⟨kew', hkew'⟩ := hsound.kept a.manifest.artifactHash (List.ne_nil_of_mem he)
    obtain ⟨filed, hfiled, -⟩ := hsound.stored _ kew' hkew'
    obtain ⟨n, hdec, -⟩ := hfiled.decode
    have hkew' := readArtifactKew_ok.2 hkew'
    refine .inr ?_
    rcases payload_of_stored (assembleRules_stored hassemble).1 hfiled with hcollide | hpayload
    · exact .inl ⟨kew', filed, n, hkew', hdec, hcollide⟩
    · refine .inr ⟨a.rules, ?_, fun facts => dryRun_canonical hFl hcanon⟩
      show (requestHash (hex32 a.manifest.artifactHash)).map _ = _
      rw [requestHash_hex32]
      have hpayload := hpayload.symm.trans (assembleRules_payload hassemble)
      exact congrArg some (storedRules_ok hX hsound hcol he hkew' hdec hpayload)

end

/-! ## An amount, by source and by hash -/

/-- The rule about an amount of five, compiled. -/
def amountCrowd : List CommandLine := [.compile (.ok (amountDocument "5")) "us" 1]

/-- The YAML of that document. -/
def amountBodies : Parsers exactFloats.F := { noBodies with yaml := fun _ => .ok (amountDocument "5") }

/-- Its operations one after the other. -/
def amountTurns : List (Turn CommandError) := [.step 0, .step 0, .step 0, .step 0]

theorem together_dryRun_amount :
    let left := ((together standIn amountCrowd .empty).run @perform amountTurns).store
    ∃ a kew rules rules', assembleRules standIn (amountDocument "5") "us" = .ok (a, kew) ∧
      dryRunRules standIn exactFloats amountBodies left 9 (some "") none = some (.ok rules) ∧
      dryRunRules standIn exactFloats amountBodies left 9 none (some (hex32 a.manifest.artifactHash)) = some (.ok rules') ∧
      ∀ facts, DryRunsAgree exactFloats facts rules rules' := by
  intro left
  have hreturned : ((together standIn amountCrowd .empty).run @perform amountTurns).programs[0]?.bind Prog.returned =
      some .structurallyVerified := by decide +kernel
  have hcompile : amountCrowd[0]? = some (.compile (.ok (amountDocument "5")) "us" 1) := rfl
  have hsource : amountBodies.yaml "" = .ok (amountDocument "5") := rfl
  obtain ⟨a, kew, rules, hmade, hsourced, hcases⟩ :=
    together_dryRun (X := standIn) (P := amountBodies) standIn_lawful exactFloats_parsesValue amountTurns hcompile hreturned
      hsource 9
  -- the log is read, and what is filed is what was compiled
  have hrun : (assembleRules standIn (amountDocument "5") "us").toOption.any (fun made =>
      (lifecycleState standIn left made.1.manifest.artifactHash).isOk &&
        (left.readArtifactKew made.1.manifest.artifactHash).toOption.any fun filed => decide (filed = made.2)) = true := by
    decide +kernel
  obtain ⟨made, hmade', hrun⟩ := exists_ok_and hrun
  obtain rfl := Except.ok.inj (hmade.symm.trans hmade')
  obtain ⟨hstate, hfiled⟩ := Bool.and_eq_true_iff.1 hrun
  obtain ⟨kew', hkew', hsame⟩ := exists_ok_and hfiled
  obtain rfl := of_decide_eq_true hsame
  rcases hcases with hcol | ⟨kew'', filed, n, hkew'', hdec, s, s', hs, hs', hne, -⟩ | ⟨rules', hhashed, hagree⟩
  · exact absurd hcol (((sound_together .empty amountCrowd amountTurns).accepted_iff standIn_lawful _).1 (exists_ok hstate))
  · obtain rfl := Except.ok.inj (hkew'.symm.trans hkew'')
    obtain ⟨m, hdec', -⟩ := (assembleRules_stored hmade).1.decode
    obtain ⟨rfl, -⟩ := Prod.mk.inj (Except.ok.inj (hdec.symm.trans hdec'))
    exact absurd (Except.ok.inj (hs.symm.trans hs')) hne
  · exact ⟨a, kew', rules, rules', hmade, hsourced, hhashed, hagree⟩

end Ke.Serve
