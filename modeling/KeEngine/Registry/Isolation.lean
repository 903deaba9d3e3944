/-
Whether the rest of a registry can change what a hash resolves to. The check of the resolved artifact
lists the whole directory, so the answer depends on the first file that does not decode and on the first
file that claims the hash, wherever they lie.
-/
import KeEngine.Registry.Attested
import KeEngine.Registry.Resolve

namespace Ke.Registry

open Ke Wire

/-! ## The first failure of a list -/

def errorOf {ε α : Type} : Except ε α → Option ε
  | .error e => some e
  | .ok _ => none

/-- A list is gone through up to its first failure. -/
theorem mapM_error {ε α β : Type} {f : α → Except ε β} {e : ε} :
    ∀ {as : List α}, (as.findSome? fun a => errorOf (f a)) = some e → as.mapM f = .error e
  | a :: as, h => by
    rw [List.findSome?_cons] at h
    rw [List.mapM_cons]
    cases ha : f a with
    | error e' =>
      rw [ha] at h
      obtain rfl := Option.some.inj h
      rfl
    | ok b =>
      rw [ha] at h
      show ((as.mapM f).bind fun bs => .ok (b :: bs)) = .error e
      rw [mapM_error h]
      rfl

theorem mapM_done {ε α β : Type} {f : α → Except ε β} :
    ∀ {as : List α}, (as.findSome? fun a => errorOf (f a)) = none → ∃ bs, as.mapM f = .ok bs
  | [], _ => ⟨[], rfl⟩
  | a :: as, h => by
    rw [List.findSome?_cons] at h
    cases ha : f a with
    | error e' =>
      rw [ha] at h
      cases h
    | ok b =>
      rw [ha] at h
      obtain ⟨bs, hbs⟩ := mapM_done h
      exact ⟨b :: bs, mapM_ok.2 (.cons ha (mapM_ok.1 hbs))⟩

/-! ## The check of the resolved artifact -/

section

variable {X : Externals} {r r' : Backend} {hash : Hash32} {selector : Selector} {nowUnix : UInt64}

/-- What the first file of the directory that does not decode fails with. -/
def firstDamage (X : Externals) (r : Backend) : Option ArtifactError :=
  r.artifacts.findSome? fun file => errorOf (decodeArtifact X file.2)

/-- Listing fails as the first damaged file does, and lists everything when there is none. -/
theorem findSome_damage : (r.artifacts.findSome? fun file => errorOf (do
      let (artifact, _) ← (decodeArtifact X file.2).mapError RegistryError.artifactDecode
      pure (artifact.manifest.artifactHash, artifact.manifest))) =
        (firstDamage X r).map RegistryError.artifactDecode := by
  unfold firstDamage
  rw [List.map_findSome?]
  refine congrArg (List.findSome? · r.artifacts) (funext fun file => ?_)
  simp only [Function.comp_apply]
  cases decodeArtifact X file.2 <;> rfl

theorem listManifests_damaged {e : ArtifactError} (h : firstDamage X r = some e) :
    r.listManifests X = .error (.artifactDecode e) := by
  unfold Backend.listManifests
  rw [mapM_error (findSome_damage.trans (congrArg (Option.map RegistryError.artifactDecode) h))]
  rfl

theorem listManifests_done (h : firstDamage X r = none) : ∃ manifests, r.listManifests X = .ok manifests := by
  obtain ⟨listed, hlisted⟩ := mapM_done (findSome_damage.trans (congrArg (Option.map RegistryError.artifactDecode) h))
  exact ⟨_, bind_ok.2 ⟨listed, hlisted, rfl⟩⟩

theorem verifyResolvedArtifact_damaged {e : ArtifactError} {selectorDesc : String} (h : firstDamage X r = some e) :
    verifyResolvedArtifact X r hash selectorDesc = .error (.artifactDecode e) := by
  unfold verifyResolvedArtifact
  rw [listManifests_damaged h]
  rfl

theorem verifyResolvedArtifact_unclaimed {selectorDesc : String} (h : firstDamage X r = none)
    (hclaimed : firstClaimant X r hash = none) :
    verifyResolvedArtifact X r hash selectorDesc = .error (.notFound selectorDesc) := by
  obtain ⟨manifests, hlist⟩ := listManifests_done h
  obtain ⟨listed, hlisted, rfl⟩ := listManifests_ok hlist
  have hfind := hlisted.find hash
  rw [hclaimed] at hfind
  unfold verifyResolvedArtifact
  rw [hlist]
  simp only [bind, Except.bind]
  rw [hfind]
  rfl

theorem verifyResolvedArtifact_claimed {selectorDesc : String} {m : Manifest} (h : firstDamage X r = none)
    (hclaimed : firstClaimant X r hash = some m) : verifyResolvedArtifact X r hash selectorDesc = .ok m := by
  obtain ⟨manifests, hlist⟩ := listManifests_done h
  obtain ⟨listed, hlisted, rfl⟩ := listManifests_ok hlist
  have hfind := hlisted.find hash
  rw [hclaimed] at hfind
  have hclaims : m.artifactHash = hash :=
    of_decide_eq_true (List.find?_some (p := fun m : Manifest => decide (m.artifactHash = hash)) hclaimed)
  exact bind_ok.2 ⟨_, hlist, bind_ok.2 ⟨_, elim_throw.2 hfind, throw_else.2 ⟨not_not.2 hclaims, rfl⟩⟩⟩

/-! ## What is filed for a hash -/

/-- Two registries hold the same for a hash, and the same tags. -/
structure SameFiled (r r' : Backend) (hash : Hash32) : Prop where
  artifact : r'.artifacts.lookup (hex32 hash) = r.artifacts.lookup (hex32 hash)
  events : r'.events hash = r.events hash
  consistency : r'.consistency hash = r.consistency hash
  revocation : r'.revocations hash = r.revocations hash
  tags : r'.tags = r.tags

/-- The selector names the hash, itself or through a tag. -/
def Selector.Names (r : Backend) (hash : Hash32) : Selector → Prop
  | .byHash hash' => hash' = hash
  | .byTag env tag => ∃ p, r.readPointer env tag = .ok (some p) ∧ p.targetHash = .ok hash
  | .byRegime .. => False

/-- Whatever names the hash resolves in both registries to the same. -/
def Isolated (X : Externals) (r r' : Backend) (hash : Hash32) : Prop :=
  ∀ (selector : Selector) (nowUnix : UInt64), selector.Names r hash →
    resolve X r' selector nowUnix = resolve X r selector nowUnix

/-- Nothing is known of the hash: its log is empty, or is not accepted. -/
def Stateless (X : Externals) (r : Backend) (hash : Hash32) : Prop :=
  ∀ state, lifecycleState X r hash ≠ .ok (some state)

/-- The record of a revocation is asked for and does not decode. -/
def Unreadable (X : Externals) (r : Backend) (hash : Hash32) : Prop :=
  lifecycleState X r hash = .ok (some .revoked) ∧ r.revocations hash = some .bad

/-- The records made of two manifests are the same, or none is made. -/
def SameRecord (X : Externals) (r : Backend) (hash : Hash32) (m m' : Manifest) : Prop :=
  m'.attestationPolicyVersion = m.attestationPolicyVersion ∨ Unreadable X r hash

/-- How the directories of two registries can look the same from a hash. -/
inductive SameListing (X : Externals) (r r' : Backend) (hash : Hash32) (same : Manifest → Manifest → Prop) : Prop
  | damaged {e : ArtifactError} (first : firstDamage X r = some e) (first' : firstDamage X r' = some e)
  | unclaimed (whole : firstDamage X r = none) (whole' : firstDamage X r' = none)
      (none_ : firstClaimant X r hash = none) (none_' : firstClaimant X r' hash = none)
  | claimed {m m' : Manifest} (whole : firstDamage X r = none) (whole' : firstDamage X r' = none)
      (first : firstClaimant X r hash = some m) (first' : firstClaimant X r' hash = some m') (agree : same m m')

theorem Selector.Names.target (h : selector.Names r hash) : selector.target X r = .ok hash := by
  cases selector with
  | byHash hash' => exact congrArg Except.ok h
  | byTag env tag =>
    obtain ⟨p, hread, htarget⟩ := h
    exact bind_ok.2 ⟨_, hread, bind_ok.2 ⟨p, rfl, htarget⟩⟩
  | byRegime => exact h.elim

theorem SameFiled.names (h : SameFiled r r' hash) (hnames : selector.Names r hash) : selector.Names r' hash := by
  cases selector with
  | byHash => exact hnames
  | byTag env tag =>
    obtain ⟨p, hread, htarget⟩ := hnames
    refine ⟨p, ?_, htarget⟩
    unfold Backend.readPointer
    rw [h.tags]
    exact hread
  | byRegime => exact hnames

/-- An artifact filed under another address is no part of what is filed for a hash. -/
theorem SameFiled.putArtifact {other : Hash32} (h : hex32 hash ≠ hex32 other) (kew : Bytes) :
    SameFiled r (r.putArtifact other kew) hash :=
  ⟨(lookup_putFile (hex32 other) (hex32 hash) kew r.artifacts).trans (if_neg h), rfl, rfl, rfl, rfl⟩

theorem SameFiled.readEvents (h : SameFiled r r' hash) : r'.readEvents hash = r.readEvents hash := by
  unfold Backend.readEvents
  rw [h.events]

theorem SameFiled.revocationOf (h : SameFiled r r' hash) (state : LifecycleState) :
    r'.revocationOf hash state = r.revocationOf hash state := by
  unfold Backend.revocationOf Backend.readRevocation readSidecar
  rw [h.revocation]

/-! ## Resolving a hash -/

/-- What the audit records of a hash in a state. -/
def auditRecord (hash : Hash32) (events : List LifecycleEvent) (state : LifecycleState) (selectorDesc : String)
    (m : Manifest) (nowUnix : UInt64) (revocation : Option RevocationRecord) : ResolutionRecord where
  artifactHash := hash
  registryStateAtResolution := state
  resolvingEventKey := (events.getLast?.map (·.eventKind)).getD ""
  selectorDesc := selectorDesc
  attestationPolicyVersion := m.attestationPolicyVersion
  resolutionTimestampUnix := nowUnix
  revocation := revocation

theorem resolve_of_state {events : List LifecycleEvent} {state : LifecycleState}
    (htarget : selector.target X r = .ok hash) (hevents : r.readEvents hash = .ok events)
    (hstate : currentState X events = .ok (some state)) :
    resolve X r selector nowUnix = (verifyResolvedArtifact X r hash selector.describe).bind fun m =>
      (r.revocationOf hash state).bind fun revocation =>
        .ok (hash, auditRecord hash events state selector.describe m nowUnix revocation) := by
  unfold resolve
  rw [htarget]
  simp only [bind, Except.bind]
  rw [hevents]
  simp only
  rw [hstate]
  rfl

/-- Of a hash without a state, the rest of the registry is not looked at. -/
theorem SameFiled.resolve_stateless (h : SameFiled r r' hash) (hnames : selector.Names r hash)
    (hstate : Stateless X r hash) : resolve X r' selector nowUnix = resolve X r selector nowUnix := by
  unfold resolve
  rw [hnames.target, (h.names hnames).target]
  simp only [bind, Except.bind]
  rw [h.readEvents]
  cases hevents : r.readEvents hash with
  | error e => rfl
  | ok events =>
    simp only
    cases hcurrent : currentState X events with
    | error e => rfl
    | ok found =>
      cases found with
      | none => rfl
      | some state => exact absurd (bind_ok.2 ⟨events, hevents, hcurrent⟩) (hstate state)

theorem revocationOf_error {state : LifecycleState} {e : RegistryError} (h : r.revocationOf hash state = .error e) :
    state = .revoked ∧ r.revocations hash = some .bad ∧ e = .eventJsonDecode := by
  unfold Backend.revocationOf at h
  split at h
  · rename_i hstate
    unfold Backend.readRevocation readSidecar at h
    cases hfile : r.revocations hash with
    | none =>
      rw [hfile] at h
      cases h
    | some file =>
      rw [hfile] at h
      cases file with
      | good record => cases h
      | bad => exact ⟨hstate, rfl, (Except.error.inj h).symm⟩
  · cases h

theorem Unreadable.revocationOf (h : Unreadable X r hash) :
    r.revocationOf hash .revoked = .error .eventJsonDecode := by
  unfold Backend.revocationOf Backend.readRevocation readSidecar
  rw [if_pos rfl, h.2]
  rfl

/-- What follows the check tells its failures apart, when it cannot fail as the check does. -/
theorem verifyResolvedArtifact_bind_iff {β : Type} {k : Manifest → Except RegistryError β} {selectorDesc : String}
    (hk : ∀ m e, k m = .error e → e = .eventJsonDecode) :
    (verifyResolvedArtifact X r' hash selectorDesc).bind k = (verifyResolvedArtifact X r hash selectorDesc).bind k ↔
      SameListing X r r' hash fun m m' => k m' = k m := by
  constructor
  · intro heq
    cases hdamage : firstDamage X r with
    | some e =>
      rw [verifyResolvedArtifact_damaged hdamage] at heq
      cases hdamage' : firstDamage X r' with
      | some e' =>
        rw [verifyResolvedArtifact_damaged hdamage'] at heq
        cases heq
        exact .damaged hdamage hdamage'
      | none =>
        cases hclaimed' : firstClaimant X r' hash with
        | none =>
          rw [verifyResolvedArtifact_unclaimed hdamage' hclaimed'] at heq
          cases heq
        | some m' =>
          rw [verifyResolvedArtifact_claimed hdamage' hclaimed'] at heq
          cases hk m' _ heq
    | none =>
      cases hclaimed : firstClaimant X r hash with
      | none =>
        rw [verifyResolvedArtifact_unclaimed hdamage hclaimed] at heq
        cases hdamage' : firstDamage X r' with
        | some e' =>
          rw [verifyResolvedArtifact_damaged hdamage'] at heq
          cases heq
        | none =>
          cases hclaimed' : firstClaimant X r' hash with
          | none => exact .unclaimed hdamage hdamage' hclaimed hclaimed'
          | some m' =>
            rw [verifyResolvedArtifact_claimed hdamage' hclaimed'] at heq
            cases hk m' _ heq
      | some m =>
        rw [verifyResolvedArtifact_claimed hdamage hclaimed] at heq
        cases hdamage' : firstDamage X r' with
        | some e' =>
          rw [verifyResolvedArtifact_damaged hdamage'] at heq
          cases hk m _ heq.symm
        | none =>
          cases hclaimed' : firstClaimant X r' hash with
          | none =>
            rw [verifyResolvedArtifact_unclaimed hdamage' hclaimed'] at heq
            cases hk m _ heq.symm
          | some m' =>
            rw [verifyResolvedArtifact_claimed hdamage' hclaimed'] at heq
            exact .claimed hdamage hdamage' hclaimed hclaimed' heq
  · intro hlisting
    cases hlisting with
    | damaged first first' => rw [verifyResolvedArtifact_damaged first, verifyResolvedArtifact_damaged first']
    | unclaimed whole whole' none_ none_' =>
      rw [verifyResolvedArtifact_unclaimed whole none_, verifyResolvedArtifact_unclaimed whole' none_']
    | claimed whole whole' first first' agree =>
      rw [verifyResolvedArtifact_claimed whole first, verifyResolvedArtifact_claimed whole' first']
      exact agree

theorem SameListing.congr {same same' : Manifest → Manifest → Prop} (h : ∀ m m', same m m' ↔ same' m m') :
    SameListing X r r' hash same ↔ SameListing X r r' hash same' := by
  rw [show same = same' from funext fun m => funext fun m' => propext (h m m')]

/-- What a hash with a state resolves to is the same in two registries exactly when it is listed the same. -/
theorem SameFiled.resolve_iff {events : List LifecycleEvent} {state : LifecycleState} (h : SameFiled r r' hash)
    (hnames : selector.Names r hash) (hevents : r.readEvents hash = .ok events)
    (hstate : currentState X events = .ok (some state)) :
    resolve X r' selector nowUnix = resolve X r selector nowUnix ↔ SameListing X r r' hash (SameRecord X r hash) := by
  have hlifecycle : Registry.lifecycleState X r hash = .ok (some state) := bind_ok.2 ⟨events, hevents, hstate⟩
  rw [resolve_of_state hnames.target hevents hstate,
    resolve_of_state (h.names hnames).target (h.readEvents.trans hevents) hstate, h.revocationOf]
  cases hrevocation : r.revocationOf hash state with
  | error e =>
    obtain ⟨rfl, hbad, rfl⟩ := revocationOf_error hrevocation
    refine (verifyResolvedArtifact_bind_iff fun m e he => (Except.error.inj he).symm).trans ?_
    exact SameListing.congr fun m m' => ⟨fun _ => .inr ⟨hlifecycle, hbad⟩, fun _ => rfl⟩
  | ok revocation =>
    refine (verifyResolvedArtifact_bind_iff fun m e he => by cases he).trans ?_
    refine SameListing.congr fun m m' => ⟨fun heq => ?_, ?_⟩
    · exact .inl (congrArg ResolutionRecord.attestationPolicyVersion (Prod.mk.inj (Except.ok.inj heq)).2)
    · rintro (hversion | hunreadable)
      · simp only [Except.bind, auditRecord, hversion]
      · obtain rfl : state = .revoked := Option.some.inj (Except.ok.inj (hlifecycle.symm.trans hunreadable.1))
        cases hrevocation.symm.trans hunreadable.revocationOf

/-- The rest of two registries leaves what a hash resolves to exactly when the hash has no state, or the
directories look the same from it. -/
theorem resolve_isolated_iff (h : SameFiled r r' hash) :
    Isolated X r r' hash ↔ Stateless X r hash ∨ SameListing X r r' hash (SameRecord X r hash) := by
  by_cases hstate : Stateless X r hash
  · exact ⟨fun _ => .inl hstate, fun _ selector nowUnix hnames => h.resolve_stateless hnames hstate⟩
  · rw [or_iff_right hstate]
    obtain ⟨state, hlifecycle⟩ := not_forall_not.1 hstate
    obtain ⟨events, hevents, hcurrent⟩ := bind_ok.1 hlifecycle
    constructor
    · intro hisolated
      have hnames : (Selector.byHash hash).Names r hash := rfl
      exact (h.resolve_iff hnames hevents hcurrent).1 (hisolated (.byHash hash) 0 hnames)
    · intro hlisting selector nowUnix hnames
      exact (h.resolve_iff hnames hevents hcurrent).2 hlisting

end

/-! ## A damaged file elsewhere -/

/-- The registry of the limit, with an empty file under another address. -/
def damagedRegistry : Backend := transferRegistry.putArtifact zeroHash []

theorem damaged_sameFiled : SameFiled transferRegistry damagedRegistry transferHash :=
  .putArtifact (by decide +kernel) []

theorem resolve_isolated_iff_damaged :
    Isolated standIn transferRegistry damagedRegistry transferHash ↔
      Stateless standIn transferRegistry transferHash ∨
      SameListing standIn transferRegistry damagedRegistry transferHash
        (SameRecord standIn transferRegistry transferHash) :=
  resolve_isolated_iff damaged_sameFiled

/-- The empty file blocks the resolution of the limit, of which nothing was changed. -/
theorem damaged_blocks : SameFiled transferRegistry damagedRegistry transferHash ∧
    (∃ record, resolve standIn transferRegistry (.byHash transferHash) 5 = .ok (transferHash, record)) ∧
      (∀ out, resolve standIn damagedRegistry (.byHash transferHash) 5 ≠ .ok out) ∧
        ¬ Isolated standIn transferRegistry damagedRegistry transferHash := by
  have hrun : ((resolve standIn transferRegistry (.byHash transferHash) 5).toOption.any
        (fun out => decide (out.1 = transferHash)) &&
      (resolve standIn damagedRegistry (.byHash transferHash) 5).toOption.isNone) = true := by decide +kernel
  obtain ⟨hok, herror⟩ := Bool.and_eq_true_iff.1 hrun
  obtain ⟨⟨hash, record⟩, hresolved, hhash⟩ := exists_ok_and hok
  obtain rfl : hash = transferHash := of_decide_eq_true hhash
  have hblocked : ∀ out, resolve standIn damagedRegistry (.byHash transferHash) 5 ≠ .ok out := by
    intro out hout
    rw [hout] at herror
    cases herror
  exact ⟨damaged_sameFiled, ⟨record, hresolved⟩, hblocked, fun hisolated =>
    hblocked _ ((hisolated (.byHash transferHash) 5 rfl).trans hresolved)⟩

end Ke.Registry
