/-
Resolution of a selector to a hash with the record for the audit. The check of the resolved artifact
goes through the list of manifests, which are under the hashes that they claim: it reads neither the
file at the address nor its bytes.
-/
import KeEngine.Registry.Runs

namespace Ke.Registry

open Ke Wire

/-! ## Selectors -/

inductive Selector
  | byHash (hash : Hash32)
  | byTag (env tag : String)
  | byRegime (regimeId : String) (effective : JurisdictionDate) (env : String)

/-- `{:0width}` of an integer; the sign counts. -/
def paddedInt (width : Nat) (n : Int) : String :=
  let sign := if n < 0 then "-" else ""
  let digits := toString n.natAbs
  sign ++ String.ofList (List.replicate (width - (sign.length + digits.length)) '0') ++ digits

def Selector.describe : Selector → String
  | .byHash hash => "by-hash:" ++ hex32 hash
  | .byTag env tag => s!"by-tag:{env}/{tag}"
  | .byRegime regimeId effective env =>
    s!"by-regime:{regimeId}@{paddedInt 4 effective.year.val}-{paddedInt 2 effective.month.toNat}-" ++
      s!"{paddedInt 2 effective.day.toNat}:{env}"

/-- The audit fields that a consumer pins. -/
structure ResolutionRecord where
  artifactHash : Hash32
  registryStateAtResolution : LifecycleState
  resolvingEventKey : String
  selectorDesc : String
  attestationPolicyVersion : String
  resolutionTimestampUnix : UInt64
  revocation : Option RevocationRecord

/-- `a < b` as calendar dates. -/
def dateLt (a b : JurisdictionDate) : Bool :=
  decide (a.year.val < b.year.val ∨ a.year = b.year ∧ (a.month < b.month ∨ a.month = b.month ∧ a.day < b.day))

/-- The closed-open window contains the point; without an end it never closes. -/
def windowContains (from_ : JurisdictionDate) (to_ : Option JurisdictionDate) (point : JurisdictionDate) : Bool :=
  !dateLt point from_ && to_.all fun to_ => dateLt point to_

/-! ## Resolving -/

section

variable (X : Externals)

/-- The hashes of the published artifacts of a regime that apply at a date. -/
def applicable (r : Backend) (regimeId : String) (effective : JurisdictionDate) :
    Except RegistryError (List Hash32) := do
  let manifests ← r.listManifests X
  let inForce := manifests.filter fun m =>
    decide (m.2.regimeId = regimeId) && windowContains m.2.effectiveFrom m.2.effectiveTo effective
  let published ← inForce.filterM fun m => do
    let events ← r.readEvents m.1
    let state ← currentState X events
    pure (decide (state = some .published))
  pure (published.map (·.1))

/-- The hash that a selector names. -/
def Selector.target (r : Backend) (selector : Selector) : Except RegistryError Hash32 :=
  match selector with
  | .byHash hash => .ok hash
  | .byTag env tag => do
    let pointer ← r.readPointer env tag
    let pointer ← pointer.elim (throw (.notFound selector.describe)) pure
    pointer.targetHash
  | .byRegime regimeId effective _ => do
    match ← applicable X r regimeId effective with
    | [] => throw (.notFound selector.describe)
    | [hash] => pure hash
    | hashes => throw (.ambiguous selector.describe hashes.length)

/-- The first listed manifest under the hash. The comparison that follows never fails. -/
def verifyResolvedArtifact (r : Backend) (hash : Hash32) (selectorDesc : String) : Except RegistryError Manifest := do
  let manifests ← r.listManifests X
  let listed ← (manifests.find? fun m => decide (m.1 = hash)).elim (throw (.notFound selectorDesc)) pure
  if listed.2.artifactHash ≠ hash then throw (.resolvedHashMismatch selectorDesc)
  pure listed.2

/-- The record of a revocation, when that is the state. -/
def Backend.revocationOf (r : Backend) (hash : Hash32) (state : LifecycleState) :
    Except RegistryError (Option RevocationRecord) :=
  if state = .revoked then r.readRevocation hash else .ok none

def resolve (r : Backend) (selector : Selector) (nowUnix : UInt64) :
    Except RegistryError (Hash32 × ResolutionRecord) := do
  let hash ← selector.target X r
  let events ← r.readEvents hash
  let found ← currentState X events
  let state ← found.elim (throw (.notFound selector.describe)) pure
  let manifest ← verifyResolvedArtifact X r hash selector.describe
  let revocation ← r.revocationOf hash state
  pure (hash, {
    artifactHash := hash
    registryStateAtResolution := state
    resolvingEventKey := (events.getLast?.map (·.eventKind)).getD ""
    selectorDesc := selector.describe
    attestationPolicyVersion := manifest.attestationPolicyVersion
    resolutionTimestampUnix := nowUnix
    revocation })

end

/-! ## The listed manifest -/

/-- What sorting does not tell apart stays in its order. -/
theorem filter_sortBy {α : Type} {cmp : α → α → Ordering} {p : α → Bool} {l : List α}
    (h : (l.filter p).Pairwise fun a b => cmp a b ≠ .gt) : (sortBy cmp l).filter p = l.filter p := by
  have hsub : (l.filter p).Sublist (sortBy cmp l) := List.sublist_insertionSort h List.filter_sublist
  have hsub := hsub.filter p
  rw [List.filter_filter, show (fun a => p a && p a) = p from funext fun a => Bool.and_self (p a)] at hsub
  exact (hsub.eq_of_length ((perm_sortBy cmp l).filter p).length_eq.symm).symm

section

variable {X : Externals} {r : Backend} {hash : Hash32}

/-- The manifest that a file decodes to. -/
def manifestOf (X : Externals) (kew : Bytes) : Option Manifest :=
  (decodeArtifact X kew).toOption.map fun decoded => decoded.1.manifest

/-- The manifest of the first file of the directory that claims a hash, whatever its name. -/
def firstClaimant (X : Externals) (r : Backend) (hash : Hash32) : Option Manifest :=
  (r.artifacts.filterMap fun file => manifestOf X file.2).find? fun m => decide (m.artifactHash = hash)

/-- The manifests of files that decode, under the hashes that they claim. -/
def Listed (X : Externals) : List (String × Bytes) → List (Hash32 × Manifest) → Prop :=
  List.Forall₂ fun file m => ∃ a n, decodeArtifact X file.2 = .ok (a, n) ∧ m = (a.manifest.artifactHash, a.manifest)

theorem listManifests_ok {manifests : List (Hash32 × Manifest)} (h : r.listManifests X = .ok manifests) :
    ∃ listed, Listed X r.artifacts listed ∧ manifests = sortBy (fun a b => compare a.1.1 b.1.1) listed := by
  obtain ⟨listed, hlisted, h⟩ := bind_ok.1 h
  refine ⟨listed, (mapM_ok.1 hlisted).imp fun file m hm => ?_, (pure_ok.1 h).symm⟩
  obtain ⟨⟨a, n⟩, hdec, hm⟩ := bind_ok.1 hm
  exact ⟨a, n, mapError_ok.1 hdec, (pure_ok.1 hm).symm⟩

theorem Listed.decodes {files : List (String × Bytes)} {listed : List (Hash32 × Manifest)} (h : Listed X files listed)
    {file : String × Bytes} (hfile : file ∈ files) : ∃ a n, decodeArtifact X file.2 = .ok (a, n) := by
  induction h with
  | nil => cases hfile
  | cons hm _ ih =>
    rcases List.mem_cons.1 hfile with rfl | hfile
    · obtain ⟨a, n, hdec, -⟩ := hm
      exact ⟨a, n, hdec⟩
    · exact ih hfile

theorem Listed.eq {files : List (String × Bytes)} {listed : List (Hash32 × Manifest)} (h : Listed X files listed) :
    listed = (files.filterMap fun file => manifestOf X file.2).map fun m => (m.artifactHash, m) := by
  induction h with
  | nil => rfl
  | @cons file m files listed hm _ ih =>
    obtain ⟨a, n, hdec, rfl⟩ := hm
    have hof : manifestOf X file.2 = some a.manifest := by
      unfold manifestOf
      rw [hdec]
      rfl
    have hcons : ((file :: files).filterMap fun file => manifestOf X file.2) =
        a.manifest :: files.filterMap fun file => manifestOf X file.2 := List.filterMap_cons_some hof
    rw [hcons, List.map_cons, ← ih]

/-- The first listed manifest under a hash is the one of the first file that claims it. -/
theorem Listed.find {listed : List (Hash32 × Manifest)} (h : Listed X r.artifacts listed) (hash : Hash32) :
    ((sortBy (fun a b => compare a.1.1 b.1.1) listed).find? fun m => decide (m.1 = hash)) =
      (firstClaimant X r hash).map fun m => (m.artifactHash, m) := by
  rw [h.eq]
  generalize hms : (r.artifacts.filterMap fun file => manifestOf X file.2) = ms
  have hstable : ((ms.map fun m => (m.artifactHash, m)).filter fun m => decide (m.1 = hash)).Pairwise
      fun a b => compare a.1.1 b.1.1 ≠ .gt := by
    refine List.Pairwise.imp_of_mem (fun {a b} ha hb _ => ?_) (List.pairwise_of_forall fun _ _ => trivial)
    rw [of_decide_eq_true (List.mem_filter.1 ha).2, of_decide_eq_true (List.mem_filter.1 hb).2]
    exact fun hgt => absurd (Std.ReflCmp.compare_self.symm.trans hgt) nofun
  rw [← List.head?_filter, filter_sortBy hstable, List.head?_filter, List.find?_map]
  unfold firstClaimant
  rw [hms]
  rfl

theorem verifyResolvedArtifact_ok {selectorDesc : String} {m : Manifest}
    (h : verifyResolvedArtifact X r hash selectorDesc = .ok m) : firstClaimant X r hash = some m := by
  obtain ⟨manifests, hmanifests, h⟩ := bind_ok.1 h
  obtain ⟨found, hfound, h⟩ := bind_ok.1 h
  obtain ⟨-, h⟩ := throw_else.1 h
  obtain rfl := pure_ok.1 h
  obtain ⟨listed, hlisted, rfl⟩ := listManifests_ok hmanifests
  have hfind := elim_throw.1 hfound
  rw [hlisted.find] at hfind
  obtain ⟨m, hm, rfl⟩ := Option.map_eq_some_iff.1 hfind
  exact hm

theorem readArtifactKew_ok {kew : Bytes} : r.readArtifactKew hash = .ok kew ↔
    r.artifacts.lookup (hex32 hash) = some kew := by
  unfold Backend.readArtifactKew
  cases r.artifacts.lookup (hex32 hash) with
  | none => exact ⟨nofun, nofun⟩
  | some kew' => exact ⟨fun h => congrArg some (Except.ok.inj h), fun h => congrArg Except.ok (Option.some.inj h)⟩

/-! ## Misfiled artifacts -/

/-- How what is found under the address of a hash can be another than what is listed. -/
inductive Misfiled (X : Externals) (r : Backend) (hash : Hash32) : Prop
  | absent (none_ : r.artifacts.lookup (hex32 hash) = none)
  | claimsOther {kew : Bytes} {a : Artifact} {n : Nat} (filed : r.artifacts.lookup (hex32 hash) = some kew)
      (dec : decodeArtifact X kew = .ok (a, n)) (other : a.manifest.artifactHash ≠ hash)
  | altered {kew : Bytes} {a : Artifact} {n : Nat} (filed : r.artifacts.lookup (hex32 hash) = some kew)
      (dec : decodeArtifact X kew = .ok (a, n)) (claims : a.manifest.artifactHash = hash)
      (moved : contentHash X (kew.take n) ≠ .ok hash)
  | shadowed {kew : Bytes} {a : Artifact} {n : Nat} {m : Manifest} (filed : r.artifacts.lookup (hex32 hash) = some kew)
      (dec : decodeArtifact X kew = .ok (a, n)) (claims : a.manifest.artifactHash = hash)
      (first : firstClaimant X r hash = some m)
      (other : m.attestationPolicyVersion ≠ a.manifest.attestationPolicyVersion)

/-- The bytes at the address decode, rehash to it, and are what the record is about. -/
def Vouched (X : Externals) (r : Backend) (hash : Hash32) (record : ResolutionRecord) : Prop :=
  ∃ kew a n, r.readArtifactKew hash = .ok kew ∧ decodeArtifact X kew = .ok (a, n) ∧ verifyHash X kew = .ok hash ∧
    record.artifactHash = a.manifest.artifactHash ∧
    record.attestationPolicyVersion = a.manifest.attestationPolicyVersion

/-- What resolves is vouched for exactly when it is not misfiled. -/
theorem resolve_vouched_iff {selector : Selector} {nowUnix : UInt64} {record : ResolutionRecord}
    (hres : resolve X r selector nowUnix = .ok (hash, record)) : Vouched X r hash record ↔ ¬ Misfiled X r hash := by
  obtain ⟨hash', -, hres⟩ := bind_ok.1 hres
  obtain ⟨events, -, hres⟩ := bind_ok.1 hres
  obtain ⟨found, -, hres⟩ := bind_ok.1 hres
  obtain ⟨state, -, hres⟩ := bind_ok.1 hres
  obtain ⟨m, hm, hres⟩ := bind_ok.1 hres
  obtain ⟨revocation, -, hres⟩ := bind_ok.1 hres
  obtain ⟨rfl, rfl⟩ := Prod.mk.inj (pure_ok.1 hres)
  have hfirst := verifyResolvedArtifact_ok hm
  constructor
  · rintro ⟨kew, a, n, hkew, hdec, hhash, hclaimed, hversion⟩ hmisfiled
    have hkew := readArtifactKew_ok.1 hkew
    -- whatever the kind, it is about the file at the address
    have hsame : ∀ {kew' : Bytes} {a' : Artifact} {n' : Nat}, r.artifacts.lookup (hex32 hash') = some kew' →
        decodeArtifact X kew' = .ok (a', n') → kew' = kew ∧ a' = a ∧ n' = n := by
      intro kew' a' n' hkew' hdec'
      obtain rfl := Option.some.inj (hkew'.symm.trans hkew)
      exact ⟨rfl, Prod.mk.inj (Except.ok.inj (hdec'.symm.trans hdec))⟩
    cases hmisfiled with
    | absent hnone => exact absurd (hnone.symm.trans hkew) nofun
    | claimsOther filed dec other =>
      obtain ⟨-, rfl, -⟩ := hsame filed dec
      exact other hclaimed.symm
    | altered filed dec claims moved =>
      obtain ⟨rfl, rfl, rfl⟩ := hsame filed dec
      obtain ⟨a', n', hdec', hcontent, -⟩ := verifyHash_ok hhash
      obtain ⟨-, rfl, rfl⟩ := hsame filed hdec'
      exact moved hcontent
    | shadowed filed dec claims first other =>
      obtain ⟨-, rfl, -⟩ := hsame filed dec
      obtain rfl := Option.some.inj (first.symm.trans hfirst)
      exact other hversion
  · intro hnot
    cases hkew : r.artifacts.lookup (hex32 hash') with
    | none => exact absurd (.absent hkew) hnot
    | some kew =>
      -- all files of the directory decode, or nothing is listed
      obtain ⟨a, n, hdec⟩ : ∃ a n, decodeArtifact X kew = .ok (a, n) := by
        obtain ⟨manifests, hmanifests, -⟩ := bind_ok.1 hm
        obtain ⟨listed, hlisted, -⟩ := listManifests_ok hmanifests
        obtain ⟨front, rest, hfiles, -⟩ := List.lookup_eq_some_iff.1 hkew
        exact hlisted.decodes (hfiles ▸ List.mem_append_right front List.mem_cons_self)
      by_cases hclaims : a.manifest.artifactHash = hash'
      · by_cases hcontent : contentHash X (kew.take n) = .ok hash'
        · refine ⟨kew, a, n, readArtifactKew_ok.2 hkew, hdec, ?_, hclaims.symm, ?_⟩
          · refine bind_ok.2 ⟨_, hdec, bind_ok.2 ⟨hash', hcontent, ?_⟩⟩
            exact throw_else.2 ⟨not_not.2 hclaims.symm, rfl⟩
          · by_contra hversion
            exact hnot (.shadowed hkew hdec hclaims hfirst hversion)
        · exact absurd (.altered hkew hdec hclaims hcontent) hnot
      · exact absurd (.claimsOther hkew hdec hclaims) hnot

end

/-! ## The transfer limit, resolved -/

theorem resolve_vouched_iff_transfer : ∃ record,
    resolve standIn transferRegistry (.byHash transferHash) 5 = .ok (transferHash, record) ∧
      (Vouched standIn transferRegistry transferHash record ↔ ¬ Misfiled standIn transferRegistry transferHash) := by
  have hrun : (resolve standIn transferRegistry (.byHash transferHash) 5).toOption.any
      (fun out => decide (out.1 = transferHash)) = true := by decide +kernel
  obtain ⟨⟨hash, record⟩, hres, hhash⟩ := exists_ok_and hrun
  obtain rfl : hash = transferHash := of_decide_eq_true hhash
  exact ⟨record, hres, resolve_vouched_iff hres⟩

/-- The bytes of another regime under the address, the address written into their hash slot. -/
def forgedRegistry : Backend :=
  match assembleIntentSpec standIn transferDocument "ut" with
  | .ok made => transferRegistry.putArtifact transferHash (patchHash 1 transferHash made.2)
  | .error _ => transferRegistry

/-- Resolution vouches for bytes that do not rehash to their address. -/
theorem forged_resolved : ∃ record kew a n,
    resolve standIn forgedRegistry (.byHash transferHash) 5 = .ok (transferHash, record) ∧
      forgedRegistry.readArtifactKew transferHash = .ok kew ∧ decodeArtifact standIn kew = .ok (a, n) ∧
      a.manifest.artifactHash = transferHash ∧ contentHash standIn (kew.take n) ≠ .ok transferHash ∧
      ¬ Vouched standIn forgedRegistry transferHash record := by
  have hrun : ((resolve standIn forgedRegistry (.byHash transferHash) 5).toOption.any
        (fun out => decide (out.1 = transferHash)) &&
      (forgedRegistry.readArtifactKew transferHash).toOption.any (fun kew =>
        (decodeArtifact standIn kew).toOption.any fun d => decide (d.1.manifest.artifactHash = transferHash) &&
          (contentHash standIn (kew.take d.2)).toOption.all fun h => decide (h ≠ transferHash))) = true := by
    decide +kernel
  obtain ⟨hresolved, hfile⟩ := Bool.and_eq_true_iff.1 hrun
  obtain ⟨⟨hash, record⟩, hres, hhash⟩ := exists_ok_and hresolved
  obtain rfl : hash = transferHash := of_decide_eq_true hhash
  obtain ⟨kew, hkew, hfile⟩ := exists_ok_and hfile
  obtain ⟨⟨a, n⟩, hdec, hfile⟩ := exists_ok_and hfile
  obtain ⟨hclaims, hmoved⟩ := Bool.and_eq_true_iff.1 hfile
  have hmoved : contentHash standIn (kew.take n) ≠ .ok transferHash := by
    intro h
    rw [h] at hmoved
    simp [Except.toOption] at hmoved
  refine ⟨record, kew, a, n, hres, hkew, hdec, of_decide_eq_true hclaims, hmoved, ?_⟩
  rintro ⟨kew', a', n', hkew', hdec', hhash', -, -⟩
  obtain rfl := Except.ok.inj (hkew.symm.trans hkew')
  obtain ⟨a'', n'', hdec'', hcontent, -⟩ := verifyHash_ok hhash'
  obtain ⟨-, rfl⟩ := Prod.mk.inj (Except.ok.inj (hdec.symm.trans hdec''))
  exact hmoved hcontent

end Ke.Registry
