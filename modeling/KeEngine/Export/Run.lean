/-
`ke graph export` over the whole registry: every listed address is admitted or refused, and what is admitted is
merged into one graph. An admission depends on what is filed under its address and on nothing else. A log that
does not read is no refusal but an error of the run.
-/
import KeEngine.Export.Identity
import KeEngine.Registry.History
import KeEngine.Registry.HashNames

namespace Ke.Registry

open Ke Wire

/-- The addresses among the names of directories; other names are skipped, and nothing is listed when one panics. -/
def addressesOf : List (String × Bytes) → Option (List Hash32)
  | [] => some []
  | entry :: entries => (hexToHashOrPanic entry.1).bind fun name => (addressesOf entries).map
      (name.toOption.toList ++ ·)

/-- `list_addresses`: what has a file `artifact.kew`, sorted. -/
def Backend.listAddresses (r : Backend) : Option (List Hash32) :=
  (addressesOf r.artifacts).map (sortBy fun a b => compare a.1 b.1)

/-- A registry with nothing but what is filed under an address. -/
def Backend.filedAt (r : Backend) (address : Hash32) : Backend where
  artifacts := ((r.artifacts.lookup (hex32 address)).map fun kew => (hex32 address, kew)).toList
  events := Function.update (fun _ => []) address (r.events address)
  tags := fun _ _ => none
  consistency := fun _ => none
  revocations := fun _ => none

def Admission.artifact? : Admission → Option Artifact
  | .verified artifact => some artifact
  | .refused _ => none

end Ke.Registry

namespace Ke.Export

open Ke Wire Registry

/-! ## The run -/

/-- A refused artifact: the address it was filed under and the reason. -/
structure ExportRefusal where
  artifactHex : String
  reason : Refusal

structure Exported where
  exported : List Hash32
  refusals : List ExportRefusal
  graph : Graph

structure GraphExportOutcome extends Exported where
  cypher : String

/-- What becomes of an admission. -/
def Exported.push (out : Exported) (address : Hash32) : Admission → Exported
  | .refused reason => { out with refusals := out.refusals ++ [⟨hex32 address, reason⟩] }
  | .verified artifact => { out with
      graph := out.graph.merge (project (hex32 address) artifact)
      exported := out.exported ++ [address] }

section

variable (X : Externals) (r : Backend) (env : String) (nowUnix : UInt64)

def exportStep (out : Exported) (address : Hash32) : Except RegistryError Exported := do
  let admission ← admitArtifact X r address env nowUnix
  pure (out.push address admission)

/-- `graph_export::run`, nothing when the listing panics. -/
def graphExport : Option (Except RegistryError GraphExportOutcome) :=
  r.listAddresses.map fun addresses => do
    let out ← addresses.foldlM (exportStep X r env nowUnix) ⟨[], [], .empty⟩
    pure ⟨out, renderCypher out.graph⟩

end

/-! ## What a run should be -/

section

variable (X : Externals) (r : Backend) (env : String) (nowUnix : UInt64)

/-- The artifact that is exported from an address when nothing else is filed. -/
def exportable (address : Hash32) : Option Artifact :=
  (admitArtifact X (r.filedAt address) address env nowUnix).toOption.bind (·.artifact?)

/-- Every address is exported or refused, as it would be alone. -/
structure ExportsEach (addresses : List Hash32) (out : GraphExportOutcome) : Prop where
  once : ∀ address ∈ addresses, Xor (address ∈ out.exported)
    (∃ refusal ∈ out.refusals, refusal.artifactHex = hex32 address)
  exported : out.exported = addresses.filter fun address => (exportable X r env nowUnix address).isSome
  refused : out.refusals.map (·.artifactHex) =
    (addresses.filter fun address => (exportable X r env nowUnix address).isNone).map hex32
  graph : out.graph = buildGraph (addresses.filterMap (exportable X r env nowUnix))

/-- The run is done, and every listed address in it. -/
def ExportsAll : Prop :=
  ∃ addresses out, r.listAddresses = some addresses ∧ graphExport X r env nowUnix = some (.ok out) ∧
    ExportsEach X r env nowUnix addresses out

/-- The bytes under an address are those of an artifact with that hash. -/
def AtOwnAddress (address : Hash32) : Prop :=
  ∃ kew decoded, r.readArtifactKew address = .ok kew ∧ decodeArtifact X kew = .ok decoded ∧
    decoded.1.manifest.artifactHash = address

/-- The log of an address reads, and the walk accepts it. -/
def LogReads (address : Hash32) : Prop :=
  ∃ events state, r.readEvents address = .ok events ∧ currentState X events = .ok state

/-- No name of a directory panics, and every artifact at its own address has a log that reads. -/
structure Exportable : Prop where
  names : ∀ entry ∈ r.artifacts, entry.1.utf8ByteSize = 64 → ¬ Straddles entry.1
  logs : ∀ entry ∈ r.artifacts, ∀ address, hexToHash entry.1 = .ok address → AtOwnAddress X r address →
    LogReads X r address

end

/-! ## Listing -/

/-- The names that read are listed. -/
theorem mem_addressesOf : ∀ {entries : List (String × Bytes)} {addresses : List Hash32}, addressesOf entries =
    some addresses →
    ∀ {address : Hash32}, address ∈ addresses ↔ ∃ entry ∈ entries, hexToHash entry.1 = .ok address
  | [], _, h, address => by
    cases h
    exact iff_of_false List.not_mem_nil fun ⟨_, hentry, _⟩ => List.not_mem_nil hentry
  | entry :: entries, _, h, address => by
    obtain ⟨name, hname, h⟩ := Option.bind_eq_some_iff.1 h
    obtain ⟨rest, hrest, rfl⟩ := Option.map_eq_some_iff.1 h
    have hhead : address ∈ name.toOption.toList ↔ hexToHash entry.1 = .ok address := by
      rw [hexToHash_of_orPanic hname, Option.mem_toList]
      cases name with
      | error e => exact iff_of_false nofun nofun
      | ok hash => exact ⟨fun h => congrArg Except.ok (Option.some.inj h), fun h => congrArg some (Except.ok.inj h)⟩
    rw [List.mem_append, hhead, mem_addressesOf hrest, List.exists_mem_cons_iff]

theorem addressesOf_isSome : ∀ {entries : List (String × Bytes)},
    (∃ addresses, addressesOf entries = some addresses) ↔ ∀ entry ∈ entries, entry.1.utf8ByteSize = 64 →
    ¬ Straddles entry.1
  | [] => ⟨fun _ => by nofun, fun _ => ⟨[], rfl⟩⟩
  | entry :: entries => by
    have hhead : (∃ name, hexToHashOrPanic entry.1 = some name) ↔
        (entry.1.utf8ByteSize = 64 → ¬ Straddles entry.1) := by
      rw [← Option.ne_none_iff_exists', ne_eq, hexToHashOrPanic_none, not_and]
    rw [List.forall_mem_cons, ← hhead, ← addressesOf_isSome]
    constructor
    · rintro ⟨addresses, h⟩
      obtain ⟨name, hname, h⟩ := Option.bind_eq_some_iff.1 h
      obtain ⟨rest, hrest, -⟩ := Option.map_eq_some_iff.1 h
      exact ⟨⟨name, hname⟩, rest, hrest⟩
    · rintro ⟨⟨name, hname⟩, rest, hrest⟩
      exact ⟨_, Option.bind_eq_some_iff.2 ⟨name, hname, Option.map_eq_some_iff.2 ⟨rest, hrest, rfl⟩⟩⟩

/-! ## Admission -/

section

variable {X : Externals} {r : Backend} {env : String} {nowUnix : UInt64} {address : Hash32}

/-- There is evidence exactly where the log reads and the walk accepts it: the walk has hashed the head. -/
theorem readRegistryEvidence_isOk : (∃ evidence, readRegistryEvidence X r address = .ok evidence) ↔
    LogReads X r address := by
  constructor
  · rintro ⟨evidence, h⟩
    obtain ⟨events, hread, h⟩ := bind_ok.1 h
    obtain ⟨state, hstate, -⟩ := bind_ok.1 h
    exact ⟨events, state, hread, hstate⟩
  · rintro ⟨events, state, hread, hstate⟩
    have hhead : ∃ head, r.eventHeadHash X address events = .ok head := by
      unfold Backend.eventHeadHash
      cases hevents : events with
      | nil => exact ⟨zeroHash, rfl⟩
      | cons e rest =>
        obtain ⟨c, hwalk, -⟩ := bind_ok.1 hstate
        rcases checkFrom_head hwalk with ⟨hnil, -⟩ | ⟨head, d, hlast, hd, -⟩
        · cases hevents.symm.trans hnil
        · have hread' : r.headEvent X address = .ok head := by
            refine bind_ok.2 ⟨events, hread, bind_ok.2 ⟨state, hstate, ?_⟩⟩
            rw [hlast]
            rfl
          exact ⟨d, bind_ok.2 ⟨head, hread', hd⟩⟩
    obtain ⟨head, hhead⟩ := hhead
    exact ⟨_, bind_ok.2 ⟨events, hread, bind_ok.2 ⟨state, hstate, bind_ok.2 ⟨head, hhead, rfl⟩⟩⟩⟩

theorem bind_eq_map {ε α β : Type} {x : Except ε α} {k : α → Except ε β} {P : β → Prop}
    (h : ∀ a, ∃ b, k a = .ok b ∧ P b) : ∃ f : α → β, x >>= k = x.map f ∧ ∀ a, P (f a) := by
  choose f hk hP using h
  refine ⟨f, ?_, hP⟩
  cases x with
  | error e => rfl
  | ok a => exact hk a

/-- What is not an artifact at its own address is refused. The log of what is one is read, and then nothing fails. -/
theorem admitArtifact_cases :
    (¬ AtOwnAddress X r address ∧ ∃ reason, admitArtifact X r address env nowUnix = .ok (.refused reason)) ∨
      AtOwnAddress X r address ∧ ∃ f : RegistryEvidence → Admission,
        admitArtifact X r address env nowUnix = (readRegistryEvidence X r address).map f ∧
          ∀ evidence a, f evidence = .verified a → a.manifest.artifactHash = address := by
  unfold admitArtifact
  cases hread : r.readArtifactKew address with
  | error e =>
    refine .inl ⟨?_, _, rfl⟩
    rintro ⟨kew, decoded, hkew, -⟩
    cases hread.symm.trans hkew
  | ok kew =>
    simp only
    cases hdecode : decodeArtifact X kew with
    | error e =>
      refine .inl ⟨?_, _, rfl⟩
      rintro ⟨kew', decoded, hkew, hdecoded, -⟩
      cases hread.symm.trans hkew
      cases hdecode.symm.trans hdecoded
    | ok decoded =>
      obtain ⟨artifact, certificate⟩ := decoded
      simp only
      split
      · rename_i haddress
        refine .inl ⟨?_, _, rfl⟩
        rintro ⟨kew', decoded, hkew, hdecoded, hclaims⟩
        cases hread.symm.trans hkew
        cases hdecode.symm.trans hdecoded
        exact haddress hclaims
      · rename_i haddress
        refine .inr ⟨⟨kew, _, hread, hdecode, not_not.1 haddress⟩,
          bind_eq_map (P := fun admission : Admission => ∀ a, admission = .verified a →
            a.manifest.artifactHash = address)
            fun evidence => ?_⟩
        split
        · exact ⟨.refused (.notPublished evidence.status), rfl, fun a ha => by cases ha⟩
        · split
          · exact ⟨.verified artifact, rfl, fun a ha => by rw [← Admission.verified.inj ha, not_not.1 haddress]⟩
          · rename_i reason _
            exact ⟨.refused (.rejected reason), rfl, fun a ha => by cases ha⟩

/-- An address is decided on unless the log of its own artifact is in the way. -/
theorem admitArtifact_isOk : (∃ admission, admitArtifact X r address env nowUnix = .ok admission) ↔
    (AtOwnAddress X r address → LogReads X r address) := by
  rw [← readRegistryEvidence_isOk]
  rcases @admitArtifact_cases X r env nowUnix address with ⟨hown, reason, h⟩ | ⟨hown, f, h, -⟩
  · exact iff_of_true ⟨_, h⟩ fun hown' => absurd hown' hown
  · rw [h]
    constructor
    · rintro ⟨admission, hmap⟩ -
      cases hevidence : readRegistryEvidence X r address with
      | error e => rw [hevidence] at hmap; cases hmap
      | ok evidence => exact ⟨evidence, rfl⟩
    · intro hlog
      obtain ⟨evidence, hevidence⟩ := hlog hown
      exact ⟨f evidence, by rw [hevidence]; rfl⟩

/-- The rest of the registry has no part in an admission. -/
theorem admitArtifact_filedAt :
    admitArtifact X (r.filedAt address) address env nowUnix = admitArtifact X r address env nowUnix := by
  have hkew : (r.filedAt address).readArtifactKew address = r.readArtifactKew address := by
    unfold Backend.readArtifactKew Backend.filedAt
    cases hlookup : r.artifacts.lookup (hex32 address) with
    | none => rfl
    | some kew => simp only [Option.map_some, Option.toList_some, List.lookup_cons, beq_self_eq_true]
  have hevents : (r.filedAt address).readEvents address = r.readEvents address := by
    unfold Backend.readEvents Backend.filedAt
    simp only [Function.update_self]
  have hevidence : readRegistryEvidence X (r.filedAt address) address = readRegistryEvidence X r address := by
    unfold readRegistryEvidence Backend.eventHeadHash Backend.headEvent
    rw [hevents]
  unfold admitArtifact
  rw [hkew, hevidence]

/-- An exported artifact has the hash that it is filed under. -/
theorem hash_of_admitted {artifact : Artifact} (h : admitArtifact X r address env nowUnix = .ok (.verified artifact)) :
    artifact.manifest.artifactHash = address := by
  rcases @admitArtifact_cases X r env nowUnix address with ⟨-, reason, hrefused⟩ | ⟨-, f, hmap, hverified⟩
  · cases h.symm.trans hrefused
  · rw [hmap] at h
    cases hevidence : readRegistryEvidence X r address with
    | error e => rw [hevidence] at h; cases h
    | ok evidence =>
      rw [hevidence] at h
      exact hverified evidence artifact (Except.ok.inj h)

theorem exportable_iff {artifact : Artifact} : exportable X r env nowUnix address = some artifact ↔
    admitArtifact X r address env nowUnix = .ok (.verified artifact) := by
  unfold exportable
  rw [admitArtifact_filedAt]
  cases admitArtifact X r address env nowUnix with
  | error e => exact iff_of_false (fun h => by cases h) fun h => by cases h
  | ok admission =>
    cases admission with
    | refused reason => exact iff_of_false (fun h => by cases h) fun h => by cases h
    | verified a =>
      show some a = some artifact ↔ _
      rw [Option.some.injEq, Except.ok.injEq, Admission.verified.injEq]

/-! ## The loop -/

variable (X r env nowUnix) in
/-- What the run over some addresses adds. -/
structure RunAdds (addresses : List Hash32) (out out' : Exported) : Prop where
  exported : out'.exported = out.exported ++ addresses.filter fun address => (exportable X r env nowUnix address).isSome
  refused : out'.refusals.map (·.artifactHex) = out.refusals.map (·.artifactHex) ++
    (addresses.filter fun address => (exportable X r env nowUnix address).isNone).map hex32
  graph : out'.graph = (addresses.filterMap (exportable X r env nowUnix)).foldl
    (fun g a => g.merge (project (Artifact.hex a) a)) out.graph

theorem RunAdds.push {addresses : List Hash32} {out out' : Exported} {admission : Admission}
    (hadmission : admitArtifact X r address env nowUnix = .ok admission)
    (h : RunAdds X r env nowUnix addresses (out.push address admission) out') :
    RunAdds X r env nowUnix (address :: addresses) out out' := by
  cases admission with
  | refused reason =>
    have hnone : exportable X r env nowUnix address = none := by
      cases hsome : exportable X r env nowUnix address with
      | none => rfl
      | some artifact => cases hadmission.symm.trans (exportable_iff.1 hsome)
    refine ⟨?_, ?_, ?_⟩
    · rw [List.filter_cons_of_neg (by rw [hnone]; nofun)]
      exact h.exported
    · rw [List.filter_cons_of_pos (by rw [hnone]; rfl), List.map_cons, ← List.singleton_append,
        ← List.append_assoc, h.refused]
      exact congrArg (· ++ _) List.map_append
    · rw [List.filterMap_cons_none hnone]
      exact h.graph
  | verified artifact =>
    have hsome : exportable X r env nowUnix address = some artifact := exportable_iff.2 hadmission
    have hhex : Artifact.hex artifact = hex32 address := congrArg hex32 (hash_of_admitted hadmission)
    refine ⟨?_, ?_, ?_⟩
    · rw [List.filter_cons_of_pos (by rw [hsome]; rfl), ← List.singleton_append, ← List.append_assoc]
      exact h.exported
    · rw [List.filter_cons_of_neg (by rw [hsome]; nofun)]
      exact h.refused
    · rw [List.filterMap_cons_some hsome, List.foldl_cons, hhex]
      exact h.graph

/-- The run over addresses that are all decided on. -/
theorem exportAll_done : ∀ {addresses : List Hash32} {out : Exported},
    (∀ address ∈ addresses, ∃ admission, admitArtifact X r address env nowUnix = .ok admission) →
      ∃ out', addresses.foldlM (exportStep X r env nowUnix) out = .ok out' ∧ RunAdds X r env nowUnix addresses out out'
  | [], out, _ => ⟨out, rfl, (List.append_nil _).symm, (List.append_nil _).symm, rfl⟩
  | address :: addresses, out, h => by
    obtain ⟨admission, hadmission⟩ := h address List.mem_cons_self
    obtain ⟨out', hrest, hadds⟩ := @exportAll_done addresses (out.push address admission)
      fun a ha => h a (List.mem_cons_of_mem _ ha)
    refine ⟨out', ?_, hadds.push hadmission⟩
    rw [List.foldlM_cons]
    exact bind_ok.2 ⟨_, bind_ok.2 ⟨admission, hadmission, rfl⟩, hrest⟩

/-- A run that is done has decided on every address. -/
theorem decided_of_exportAll : ∀ {addresses : List Hash32} {out out' : Exported},
    addresses.foldlM (exportStep X r env nowUnix) out = .ok out' →
      ∀ address ∈ addresses, ∃ admission, admitArtifact X r address env nowUnix = .ok admission
  | [], _, _, _ => by nofun
  | address :: addresses, out, out', h => by
    rw [List.foldlM_cons] at h
    obtain ⟨next, hstep, hrest⟩ := bind_ok.1 h
    obtain ⟨admission, hadmission, -⟩ := bind_ok.1 hstep
    rw [List.forall_mem_cons]
    exact ⟨⟨admission, hadmission⟩, decided_of_exportAll hrest⟩

theorem RunAdds.exportsEach {addresses : List Hash32} {out : Exported}
    (h : RunAdds X r env nowUnix addresses ⟨[], [], .empty⟩ out) :
    ExportsEach X r env nowUnix addresses ⟨out, renderCypher out.graph⟩ := by
  have hexported : out.exported =
    addresses.filter fun address => (exportable X r env nowUnix address).isSome := h.exported
  have hrefused : out.refusals.map (·.artifactHex) =
      (addresses.filter fun address => (exportable X r env nowUnix address).isNone).map hex32 := h.refused
  refine ⟨fun address haddress => ?_, hexported, hrefused, h.graph⟩
  have hleft : address ∈ out.exported ↔ (exportable X r env nowUnix address).isSome = true := by
    rw [hexported, List.mem_filter, and_iff_right haddress]
  have hright : (∃ refusal ∈ out.refusals, refusal.artifactHex = hex32 address) ↔
      (exportable X r env nowUnix address).isNone = true := by
    rw [← List.mem_map (f := fun refusal : ExportRefusal => refusal.artifactHex), hrefused, List.mem_map]
    constructor
    · rintro ⟨address', haddress', heq⟩
      rw [hex32_inj heq] at haddress'
      exact (List.mem_filter.1 haddress').2
    · exact fun hnone => ⟨address, List.mem_filter.2 ⟨haddress, hnone⟩, rfl⟩
  show Xor (address ∈ out.exported) (∃ refusal ∈ out.refusals, refusal.artifactHex = hex32 address)
  rw [hleft, hright]
  cases exportable X r env nowUnix address with
  | none => exact .inr ⟨rfl, nofun⟩
  | some artifact => exact .inl ⟨rfl, nofun⟩

end

/-- The run is done, and every address in it by what is filed there, exactly when no name of a directory panics and
the log of every artifact at its own address reads. -/
theorem exportsAll_iff (X : Externals) (r : Backend) (env : String) (nowUnix : UInt64) :
    ExportsAll X r env nowUnix ↔ Exportable X r := by
  constructor
  · rintro ⟨addresses, out, hlist, hrun, -⟩
    obtain ⟨listed, hlisted, hsort⟩ := Option.map_eq_some_iff.1 hlist
    refine ⟨addressesOf_isSome.1 ⟨listed, hlisted⟩, fun entry hentry address haddress => ?_⟩
    unfold graphExport at hrun
    rw [hlist] at hrun
    obtain ⟨out', hall, -⟩ := bind_ok.1 (Option.some.inj hrun)
    refine admitArtifact_isOk.1 (decided_of_exportAll hall address ?_)
    rw [← hsort, (perm_sortBy _ _).mem_iff, mem_addressesOf hlisted]
    exact ⟨entry, hentry, haddress⟩
  · rintro ⟨hnames, hlogs⟩
    obtain ⟨listed, hlisted⟩ := addressesOf_isSome.2 hnames
    have hlist : r.listAddresses = some (sortBy (fun a b => compare a.1 b.1) listed) :=
      Option.map_eq_some_iff.2 ⟨listed, hlisted, rfl⟩
    obtain ⟨out, hall, hadds⟩ := @exportAll_done X r env nowUnix (sortBy (fun a b => compare a.1 b.1) listed)
      ⟨[], [], .empty⟩ fun address haddress => by
        obtain ⟨entry, hentry, hname⟩ := (mem_addressesOf hlisted).1 ((perm_sortBy _ _).mem_iff.1 haddress)
        exact admitArtifact_isOk.2 (hlogs entry hentry address hname)
    refine ⟨_, _, hlist, ?_, hadds.exportsEach⟩
    unfold graphExport
    rw [hlist]
    exact congrArg some (bind_ok.2 ⟨out, hall, rfl⟩)

/-! ## A log that does not read -/

/-- A published artifact, and a draft whose log is damaged. -/
def damagedRegistry : Backend :=
  let r := runAll standIn (spannedLife "us" ++ [.compileIntent (.ok spannedDocument) "eu" 4]) .empty
  { r with events := Function.update r.events (spannedHash "eu") [("0000-draft.json", .bad)] }

/-- The published artifact is not exported, though nothing that is filed under its address is damaged. -/
theorem log_hides_artifact :
    (∃ a, admitArtifact standIn damagedRegistry (spannedHash "us") "local" 5 = .ok (.verified a)) ∧
      ∃ e, graphExport standIn damagedRegistry "local" 5 = some (.error e) := by
  constructor
  · have hrun : (exportable standIn damagedRegistry "local" 5 (spannedHash "us")).isSome = true := by decide +kernel
    obtain ⟨a, ha⟩ := Option.isSome_iff_exists.1 hrun
    exact ⟨a, exportable_iff.1 ha⟩
  · have hrun : ((graphExport standIn damagedRegistry "local" 5).any fun run => !run.isOk) = true := by decide +kernel
    obtain ⟨run, hrun, hfails⟩ := (Option.any_eq_true _ _).1 hrun
    cases run with
    | error e => exact ⟨e, hrun⟩
    | ok out => cases hfails

end Ke.Export
