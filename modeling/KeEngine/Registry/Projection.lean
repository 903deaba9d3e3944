/-
The read-only views of the registry: the export of the provenance of an artifact, and the table that SQL is
asked over. The table has one row for each file of the directory, and a row says what the provenance of its
artifact says and what the artifact resolves to.
-/
import KeEngine.Registry.Interleaved

namespace Ke.Registry

open Ke Wire

/-! ## Provenance -/

section

variable (X : Externals)

/-- `export-provenance`, without the file that it may write. -/
def exportProvenance (r : Backend) (hash : Hash32) (exportedAtUnix : UInt64) :
    Except RegistryError ArtifactProvenance := do
  let kew ← r.readArtifactKew hash
  let (artifact, _) ← (decodeArtifact X kew).mapError .artifactDecode
  let evidence ← readRegistryEvidence X r hash
  pure (artifactProvenance artifact evidence exportedAtUnix)

/-! ## Rows -/

structure ArtifactRow where
  artifactHash : String
  regimeId : String
  artifactKind : String
  compilerVersion : String
  irSchemaVersion : String
  codecVersion : String
  canonicalizationVersion : String
  effectiveFrom : String
  effectiveTo : Option String
  corpusRootHash : String
  sourceCorpusHash : String
  attestationPolicyVersion : String
  lifecycleState : String
  signerKeyId : String
  attestations : String
  registryEventHeadHash : String
  exportedAtUnix : Int64

def artifactKindName : ArtifactKind → String
  | .regimePack => "RegimePack"
  | .equivalenceMatrix => "EquivalenceMatrix"
  | .testCorpus => "TestCorpus"
  | .policyBundle => "PolicyBundle"
  | .intentSpec => "IntentSpec"

def attestationTypeName : AttestationType → String
  | .sourceFidelity => "SourceFidelity"
  | .interpretation => "Interpretation"
  | .scenarioCoverage => "ScenarioCoverage"
  | .equivalenceClaim => "EquivalenceClaim"
  | .publicationApproval => "PublicationApproval"

/-- The types as a JSON array; no name needs escapes. -/
def attestationsColumn (types : List AttestationType) : String :=
  "[" ++ String.intercalate "," (types.map fun t => "\"" ++ attestationTypeName t ++ "\"") ++ "]"

def dateStr (d : JurisdictionDate) : String :=
  s!"{paddedInt 4 d.year.val}-{paddedInt 2 d.month.toNat}-{paddedInt 2 d.day.toNat}"

/-- The name of a state, and that of an empty log. -/
def stateName (state : Option LifecycleState) : String := state.elim "unknown" (·.eventKind)

/-- The state that the log says, by its name, and the chain hash of its head. -/
def lifecycleStateStr (r : Backend) (hash : Hash32) : Except RegistryError (String × Hash32) := do
  let events ← r.readEvents hash
  let state ← currentState X events
  let head ← r.eventHeadHash X hash events
  pure (stateName state, head)

/-- The row of a listed manifest: its fields, and what is filed under the hash that it is listed under. -/
def rowOf (r : Backend) (exportedAtUnix : UInt64) (listed : Hash32 × Manifest) : Except RegistryError ArtifactRow := do
  let (hash, manifest) := listed
  let kew ← r.readArtifactKew hash
  let (artifact, _) ← (decodeArtifact X kew).mapError .artifactDecode
  let (lifecycleState, registryEventHeadHash) ← lifecycleStateStr X r hash
  pure {
    artifactHash := hex32 manifest.artifactHash
    regimeId := manifest.regimeId
    artifactKind := artifactKindName manifest.artifactKind
    compilerVersion := manifest.compilerVersion.display
    irSchemaVersion := manifest.irSchemaVersion.display
    codecVersion := manifest.codecVersion
    canonicalizationVersion := manifest.canonicalizationVersion
    effectiveFrom := dateStr manifest.effectiveFrom
    effectiveTo := manifest.effectiveTo.map dateStr
    corpusRootHash := hex32 manifest.corpusRootHash
    sourceCorpusHash := hex32 manifest.sourceCorpusHash
    attestationPolicyVersion := manifest.attestationPolicyVersion
    lifecycleState
    signerKeyId := artifact.compilerSignature.keyId
    attestations := attestationsColumn (artifact.attestations.map (·.attestationType))
    registryEventHeadHash := hex32 registryEventHeadHash
    exportedAtUnix := exportedAtUnix.toInt64 }

/-- One row for each manifest that is listed. -/
def projectRows (r : Backend) (exportedAtUnix : UInt64) : Except RegistryError (List ArtifactRow) := do
  (← r.listManifests X).mapM (rowOf X r exportedAtUnix)

end

/-! ## Rows of sound stores -/

/-- A row and a provenance say the same of an artifact, whose log says the state. -/
structure ArtifactRow.Shows (row : ArtifactRow) (p : ArtifactProvenance) (state : Option LifecycleState) : Prop where
  artifactHash : row.artifactHash = hex32 p.artifactHash
  regimeId : row.regimeId = p.regimeId
  artifactKind : some row.artifactKind = p.artifactKind.map artifactKindName
  irSchemaVersion : row.irSchemaVersion = p.irSchemaVersion
  codecVersion : row.codecVersion = p.codecVersion
  canonicalizationVersion : row.canonicalizationVersion = p.canonicalizationVersion
  signerKeyId : row.signerKeyId = p.signerKeyId
  attestations : row.attestations = attestationsColumn (p.attestations.map (·.attestationType))
  registryEventHeadHash : row.registryEventHeadHash = hex32 p.registryEventHeadHash
  lifecycleState : row.lifecycleState = stateName state
  registryState : p.registryState = state.elim .unknown statusFor

section

variable {X : Externals} {r : Backend} {hash head : Hash32} {events : List LifecycleEvent}
  {state : Option LifecycleState} {exportedAtUnix : UInt64}

theorem lifecycleStateStr_ok (hX : X.Lawful) (hlog : LogView X hash events state head)
    (hread : r.readEvents hash = .ok events) : lifecycleStateStr X r hash = .ok (stateName state, head) :=
  bind_ok.2 ⟨events, hread, bind_ok.2 ⟨state, hlog.currentState hX, bind_ok.2 ⟨head, hlog.eventHeadHash hX hread, rfl⟩⟩⟩

/-- A stored artifact resolves to the state that its log says, when it says one. -/
theorem Backend.Sound.resolve_iff (hX : X.Lawful) (h : r.Sound X) (hlog : LogView X hash events state head)
    (hread : r.readEvents hash = .ok events) {kew : Bytes} (hkew : r.readArtifactKew hash = .ok kew) (s : LifecycleState) :
    (∃ record, resolve X r (.byHash hash) exportedAtUnix = .ok (hash, record) ∧
      record.registryStateAtResolution = s) ↔ state = some s := by
  constructor
  · rintro ⟨record, hres, rfl⟩
    obtain ⟨hash', htarget, hres⟩ := bind_ok.1 hres
    cases htarget
    obtain ⟨events', hread', hres⟩ := bind_ok.1 hres
    obtain rfl := Except.ok.inj (hread.symm.trans hread')
    obtain ⟨found, hfound, hres⟩ := bind_ok.1 hres
    obtain rfl := Except.ok.inj ((hlog.currentState hX).symm.trans hfound)
    obtain ⟨s, hs, hres⟩ := bind_ok.1 hres
    obtain ⟨manifest, -, hres⟩ := bind_ok.1 hres
    obtain ⟨revocation, -, hres⟩ := bind_ok.1 hres
    obtain ⟨-, rfl⟩ := Prod.mk.inj (pure_ok.1 hres)
    exact elim_throw.1 hs
  · rintro rfl
    obtain ⟨manifest, hmanifest⟩ := h.shelved.verifyResolvedArtifact hkew (Selector.byHash hash).describe
    have hraises : Raises (fun _ => False) (r.revocationOf hash s) :=
      .ite (fun _ => h.raises_readRevocation hash) fun _ => .ok none
    obtain ⟨revocation, hrevocation⟩ := hraises.exists_ok
    refine ⟨_, bind_ok.2 ⟨hash, rfl, bind_ok.2 ⟨events, hread, bind_ok.2 ⟨some s, hlog.currentState hX,
      bind_ok.2 ⟨s, rfl, bind_ok.2 ⟨manifest, hmanifest, bind_ok.2 ⟨revocation, hrevocation, rfl⟩⟩⟩⟩⟩⟩, rfl⟩

/-- The row of a listed artifact whose log does not collide. -/
theorem rowOf_ok (hX : X.Lawful) {a : Artifact} (hlog : LogView X hash events state head)
    (hread : r.readEvents hash = .ok events) {kew : Bytes} {n : Nat} (hkew : r.readArtifactKew hash = .ok kew)
    (hdec : decodeArtifact X kew = .ok (a, n)) :
    ∃ row p, rowOf X r exportedAtUnix (hash, a.manifest) = .ok row ∧ exportProvenance X r hash exportedAtUnix = .ok p ∧
      row.artifactHash = hex32 a.manifest.artifactHash ∧ row.Shows p state := by
  refine ⟨_, _, bind_ok.2 ⟨kew, hkew, bind_ok.2 ⟨(a, n), mapError_ok.2 hdec,
    bind_ok.2 ⟨(stateName state, head), lifecycleStateStr_ok hX hlog hread, rfl⟩⟩⟩,
    bind_ok.2 ⟨kew, hkew, bind_ok.2 ⟨(a, n), mapError_ok.2 hdec, bind_ok.2 ⟨_, hlog.evidence hX hread, rfl⟩⟩⟩, rfl, ?_⟩
  refine ⟨rfl, rfl, rfl, rfl, rfl, rfl, rfl, ?_, rfl, rfl, rfl⟩
  show attestationsColumn _ = attestationsColumn ((a.attestations.map summarizeAttestation).map _)
  rw [List.map_map]
  rfl

theorem rowOf_state {listed : Hash32 × Manifest} {row : ArtifactRow} (h : rowOf X r exportedAtUnix listed = .ok row) :
    ∃ state, lifecycleState X r listed.1 = .ok state := by
  obtain ⟨kew, -, h⟩ := bind_ok.1 h
  obtain ⟨decoded, -, h⟩ := bind_ok.1 h
  obtain ⟨_, hstr, -⟩ := bind_ok.1 h
  obtain ⟨events, hread, hstr⟩ := bind_ok.1 hstr
  obtain ⟨state, hstate, -⟩ := bind_ok.1 hstr
  exact ⟨state, bind_ok.2 ⟨events, hread, hstate⟩⟩

theorem rowOf_hash {listed : Hash32 × Manifest} {row : ArtifactRow} (h : rowOf X r exportedAtUnix listed = .ok row) :
    hex32 listed.2.artifactHash = row.artifactHash := by
  obtain ⟨kew, -, h⟩ := bind_ok.1 h
  obtain ⟨decoded, -, h⟩ := bind_ok.1 h
  obtain ⟨_, -, h⟩ := bind_ok.1 h
  obtain rfl := pure_ok.1 h
  rfl

/-- A file is stored for the artifact that it decodes to. -/
theorem Backend.Sound.stored_of_decode (h : r.Sound X) {kew : Bytes} {a : Artifact} {n : Nat}
    (hkew : r.readArtifactKew hash = .ok kew) (hdec : decodeArtifact X kew = .ok (a, n)) :
    Stored X hash kew a ∧ ExpertSigned X a := by
  obtain ⟨a', ha', hsigned⟩ := h.stored hash kew (readArtifactKew_ok.1 hkew)
  obtain ⟨n', hdec', -⟩ := ha'.decode
  obtain ⟨rfl, -⟩ := Prod.mk.inj (Except.ok.inj (hdec.symm.trans hdec'))
  exact ⟨ha', hsigned⟩

theorem Backend.Sound.address (h : r.Sound X) {kew : Bytes} {a : Artifact} {n : Nat}
    (hkew : r.readArtifactKew hash = .ok kew) (hdec : decodeArtifact X kew = .ok (a, n)) :
    a.manifest.artifactHash = hash :=
  (h.stored_of_decode hkew hdec).1.address

/-- Each row shows the provenance of the artifact that it is for, and what it resolves to. -/
structure Projected (X : Externals) (r : Backend) (exportedAtUnix : UInt64) (row : ArtifactRow) (hash : Hash32)
    (state : Option LifecycleState) (p : ArtifactProvenance) : Prop where
  named : row.artifactHash = hex32 hash
  exported : exportProvenance X r hash exportedAtUnix = .ok p
  shows : row.Shows p state
  resolves : ∀ s, (∃ record, resolve X r (.byHash hash) exportedAtUnix = .ok (hash, record) ∧
    record.registryStateAtResolution = s) ↔ state = some s

theorem Backend.Sound.projected (hX : X.Lawful) (h : r.Sound X) {listed : Hash32 × Manifest} {kew : Bytes} {a : Artifact}
    {n : Nat} (hkew : r.readArtifactKew listed.1 = .ok kew) (hdec : decodeArtifact X kew = .ok (a, n))
    (hmanifest : listed.2 = a.manifest) (hnot : ¬ r.Collides listed.1) :
    ∃ row state p, rowOf X r exportedAtUnix listed = .ok row ∧ Projected X r exportedAtUnix row listed.1 state p := by
  obtain ⟨hash, manifest⟩ := listed
  obtain rfl : manifest = a.manifest := hmanifest
  obtain ⟨events, hread, -, hview, -⟩ := h.log hash
  obtain ⟨state, head, hlog⟩ := hview hnot
  obtain ⟨row, p, hrow, hp, hnamed, hshows⟩ := rowOf_ok hX hlog hread hkew hdec
  refine ⟨row, state, p, hrow, ?_, hp, hshows, fun s => h.resolve_iff hX hlog hread hkew s⟩
  rw [hnamed, h.address hkew hdec]

/-- The hashes that are listed are the names of the files. -/
theorem Backend.Sound.listed_names (h : r.Sound X) : ∃ listed,
    r.listManifests X = .ok (sortBy (fun a b => compare a.1.1 b.1.1) listed) ∧
      (listed.map fun m => hex32 m.1).Perm (r.artifacts.map Prod.fst) ∧
        ∀ m : Hash32 × Manifest, m ∈ listed ↔ ∃ kew a n, r.readArtifactKew m.1 = .ok kew ∧
          decodeArtifact X kew = .ok (a, n) ∧ m.2 = a.manifest := by
  obtain ⟨listed, hlist, hnodup, hmem⟩ := h.shelved.listed
  refine ⟨listed, hlist, ?_, hmem⟩
  have hdistinct : (listed.map fun m => hex32 m.1).Nodup := by
    rw [← Function.comp_def hex32 Prod.fst, ← List.map_map]
    exact hnodup.map fun _ _ => hex32_inj
  refine (List.perm_ext_iff_of_nodup hdistinct h.filed.nodup).2 fun name => ?_
  rw [List.mem_map, List.mem_map]
  constructor
  · rintro ⟨m, hm, rfl⟩
    obtain ⟨kew, a, n, hkew, -⟩ := (hmem m).1 hm
    exact ⟨(hex32 m.1, kew), mem_of_lookup (readArtifactKew_ok.1 hkew), rfl⟩
  · rintro ⟨file, hfile, rfl⟩
    obtain ⟨a, hname, ha⟩ := h.shelved.stored file hfile
    obtain ⟨n, hdec, -⟩ := ha.decode
    have hlookup := lookup_of_mem h.filed.nodup hfile
    rw [hname] at hlookup
    exact ⟨(a.manifest.artifactHash, a.manifest),
      (hmem _).2 ⟨file.2, a, n, readArtifactKew_ok.2 hlookup, hdec, rfl⟩, hname.symm⟩

/-- The rows are those of what is listed, in its order. -/
theorem projectRows_ok {listed : List (Hash32 × Manifest)} (hlist : r.listManifests X = .ok listed)
    {rows : List ArtifactRow} : projectRows X r exportedAtUnix = .ok rows ↔
      List.Forall₂ (fun m row => rowOf X r exportedAtUnix m = .ok row) listed rows := by
  unfold projectRows
  rw [hlist]
  exact mapM_ok

theorem exists_projectRows {listed : List (Hash32 × Manifest)} (hlist : r.listManifests X = .ok listed)
    (hrows : ∀ m ∈ listed, ∃ row, rowOf X r exportedAtUnix m = .ok row) :
    ∃ rows, projectRows X r exportedAtUnix = .ok rows := by
  have hraises : Raises (fun _ => False) (projectRows X r exportedAtUnix) := by
    refine (Raises.ofOk hlist).bind fun manifests hmanifests => Raises.mapM fun m hm => ?_
    obtain rfl := Except.ok.inj (hlist.symm.trans hmanifests)
    obtain ⟨row, hrow⟩ := hrows m hm
    exact .ofOk hrow
  exact hraises.exists_ok

theorem rows_hashes {listed : List (Hash32 × Manifest)} {rows : List ArtifactRow}
    (hall : List.Forall₂ (fun m row => rowOf X r exportedAtUnix m = .ok row) listed rows) :
    rows.map (·.artifactHash) = listed.map fun m => hex32 m.2.artifactHash := by
  have hclaims := hall.imp fun m row hof => rowOf_hash hof
  have hsame := List.forall₂_map_right_iff.2 (List.forall₂_map_left_iff.2 hclaims)
  rw [List.forall₂_eq_eq_eq] at hsame
  exact hsame.symm

/-- A log that collides is that of a listed artifact, which has no row. -/
theorem Backend.Sound.not_collides_of_rows (hX : X.Lawful) (h : r.Sound X) {rows : List ArtifactRow}
    (hok : projectRows X r exportedAtUnix = .ok rows) (hash : Hash32) : ¬ r.Collides hash := by
  intro hcol
  obtain ⟨listed, hlist, -, hmem⟩ := h.listed_names
  obtain ⟨e, -, he, -⟩ := id hcol
  obtain ⟨kew, hkew⟩ := h.kept hash (List.ne_nil_of_mem he)
  obtain ⟨a, ha, -⟩ := h.stored hash kew hkew
  obtain ⟨n, hdec, -⟩ := ha.decode
  have hin : (hash, a.manifest) ∈ sortBy (fun a b => compare a.1.1 b.1.1) listed :=
    (perm_sortBy _ listed).mem_iff.2 ((hmem _).2 ⟨kew, a, n, readArtifactKew_ok.2 hkew, hdec, rfl⟩)
  obtain ⟨row, -, hrow⟩ := forall₂_mem_left ((projectRows_ok hlist).1 hok) hin
  exact (h.accepted_iff hX hash).1 (rowOf_state hrow) hcol

/-- The rows are made exactly when no log collides: then there is one for each file of the directory, and each is
projected from what is filed. -/
theorem Backend.Sound.projectRows (hX : X.Lawful) (h : r.Sound X) (exportedAtUnix : UInt64) :
    ((∃ rows, projectRows X r exportedAtUnix = .ok rows) ↔ ∀ hash, ¬ r.Collides hash) ∧
      ∀ rows, projectRows X r exportedAtUnix = .ok rows →
        (rows.map (·.artifactHash)).Perm (r.artifacts.map Prod.fst) ∧
          ∀ row ∈ rows, ∃ hash state p, Projected X r exportedAtUnix row hash state p := by
  obtain ⟨listed, hlist, hnames, hmem⟩ := h.listed_names
  have hsorted := perm_sortBy (fun a b : Hash32 × Manifest => compare a.1.1 b.1.1) listed
  -- what is listed has the row that is projected from it
  have hprojected : (∀ hash, ¬ r.Collides hash) → ∀ m ∈ sortBy (fun a b => compare a.1.1 b.1.1) listed,
      ∃ row state p, rowOf X r exportedAtUnix m = .ok row ∧ Projected X r exportedAtUnix row m.1 state p := by
    intro hnot m hm
    obtain ⟨kew, a, n, hkew, hdec, hmanifest⟩ := (hmem m).1 (hsorted.mem_iff.1 hm)
    exact h.projected hX hkew hdec hmanifest (hnot m.1)
  refine ⟨⟨?_, fun hnot => ?_⟩, fun rows hok => ?_⟩
  · rintro ⟨rows, hok⟩
    exact h.not_collides_of_rows hX hok
  · refine exists_projectRows hlist fun m hm => ?_
    obtain ⟨row, state, p, hrow, -⟩ := hprojected hnot m hm
    exact ⟨row, hrow⟩
  · have hall := (projectRows_ok hlist).1 hok
    constructor
    · have hcolumn : rows.map (·.artifactHash) =
          (sortBy (fun a b => compare a.1.1 b.1.1) listed).map fun m => hex32 m.1 := by
        rw [rows_hashes hall]
        refine List.map_congr_left fun m hm => ?_
        obtain ⟨kew, a, n, hkew, hdec, hmanifest⟩ := (hmem m).1 (hsorted.mem_iff.1 hm)
        rw [hmanifest, h.address hkew hdec]
      rw [hcolumn]
      exact (hsorted.map _).trans hnames
    · intro row hmemRow
      obtain ⟨m, hm, hof⟩ := forall₂_mem_right hall hmemRow
      obtain ⟨row', state, p, hrow', hp⟩ := hprojected (h.not_collides_of_rows hX hok) m hm
      obtain rfl := Except.ok.inj (hof.symm.trans hrow')
      exact ⟨m.1, state, p, hp⟩

end

/-- Whatever commands run side by side, the table can be asked exactly while no log collides; then it has one row for
each file of the directory, and a row shows the provenance of its artifact and what the hash resolves to. -/
theorem together_projected {X : Externals} (hX : X.Lawful) (commands : List CommandLine)
    (schedule : List (Turn CommandError)) (exportedAtUnix : UInt64) :
    let left := ((together X commands .empty).run @perform schedule).store
    ((∃ rows, projectRows X left exportedAtUnix = .ok rows) ↔ ∀ hash, ¬ left.Collides hash) ∧
      ∀ rows, projectRows X left exportedAtUnix = .ok rows →
        (rows.map (·.artifactHash)).Perm (left.artifacts.map Prod.fst) ∧
          ∀ row ∈ rows, ∃ hash state p, Projected X left exportedAtUnix row hash state p :=
  (sound_together .empty commands schedule).projectRows hX exportedAtUnix

theorem together_projected_crowd : ∃ rows : List ArtifactRow,
    projectRows standIn ((together standIn crowd .empty).run @perform crowdFirst).store 9 = .ok rows ∧
      rows.map (·.lifecycleState) = ["published"] ∧
        (rows.map (·.artifactHash)).Perm
          (((together standIn crowd .empty).run @perform crowdFirst).store.artifacts.map Prod.fst) := by
  have hrows := (together_projected standIn_lawful crowd crowdFirst 9).2
  have hstates : (projectRows standIn ((together standIn crowd .empty).run @perform crowdFirst).store 9).toOption.map
      (List.map (·.lifecycleState)) = some ["published"] := by decide +kernel
  cases hok : projectRows standIn ((together standIn crowd .empty).run @perform crowdFirst).store 9 with
  | error e =>
    rw [hok] at hstates
    cases hstates
  | ok rows =>
    rw [hok] at hstates
    exact ⟨rows, rfl, Option.some.inj hstates, (hrows rows hok).1⟩

end Ke.Registry
