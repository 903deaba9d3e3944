/-
Runs of commands on the files of a registry. Commands with plain names leave there what they leave in separate
stores, so what is known of the stores is known of what readers find. Other names lead out of the tags.
-/
import KeEngine.Registry.ByRegime
import KeEngine.Registry.DiskLaws
import KeEngine.Registry.RaceLaws

namespace Ke.Registry

open Ke Wire FileTree

/-! ## An opened registry -/

/-- Open a registry: its directory is made, and marked, if it is not there. -/
def LocalFsBackend.open_ (root : PathBuf) (v : Disk) : Except StoreError LocalFsBackend × Disk :=
  match v.createDirAll root with
  | (.error e, v) => (.error (.io e), v)
  | (.ok (), v) =>
    let marker := root.join "NON_AUTHORITATIVE"
    if v.files.exists marker then (.ok ⟨root⟩, v)
    else
      match v.write marker .view with
      | (.error e, v) => (.error (.io e), v)
      | (.ok (), v) => (.ok ⟨root⟩, v)

/-- The directory of the registry is there, and no store in it. -/
structure LocalFsBackend.Fresh (b : LocalFsBackend) (v : Disk) : Prop where
  start : v.files.IsDir b.root.start
  way : ∀ l ∈ visited b.root.start b.root.names, v.files.IsDir l
  empty : ∀ store, storeDepth store ≠ none → v.files.at_ (store :: b.root.location) = none

/-- One command on the files of a registry, to its end. -/
def LocalFsBackend.run (b : LocalFsBackend) (X : Externals) (c : CommandLine) (v : Disk) :
    Except CommandError LifecycleState × Disk :=
  (c.command X).run (Disk.perform b) v

/-- Commands one after the other, whether they fail or not. -/
def LocalFsBackend.runAll (b : LocalFsBackend) (X : Externals) (commands : List CommandLine) (v : Disk) : Disk :=
  commands.foldl (fun v c => (b.run X c v).2) v

section

variable {X : Externals} {b : LocalFsBackend} {v v' : Disk} {r : Backend} {hash : Hash32} {env tag store : String}
  {root : PathBuf} {c c' : CommandLine} {nowUnix : UInt64}

/-- A registry that is opened where no store is has none. -/
theorem LocalFsBackend.open_fresh (h : LocalFsBackend.open_ root v = (.ok b, v')) (hstart : v.files.IsDir root.start)
    (hempty : ∀ store, storeDepth store ≠ none → store :: root.location ∉ visited root.start root.names ∧
      v.files.at_ (store :: root.location) = none) : b.Fresh v' := by
  obtain ⟨hanswer, hfiles, -⟩ := Volume.createDirs_spec root.names root.start v
  unfold LocalFsBackend.open_ at h
  rcases hdirs : v.createDirAll root with ⟨e | ⟨⟩, v₁⟩
  · rw [hdirs] at h
    cases h
  · have hdirs' : v.createDirs root.start root.names = (.ok (), v₁) := hdirs
    rw [hdirs'] at hanswer hfiles
    obtain ⟨-, hat⟩ := Files.createDirs_ok hstart (Prod.ext hanswer.symm hfiles.symm : _ = (Except.ok (), v₁.files))
    have hstart₁ : v₁.files.IsDir root.start := by
      unfold Files.IsDir
      rw [hat]
      split
      · rfl
      · exact hstart
    have hmade : LocalFsBackend.Fresh ⟨root⟩ v₁ := by
      refine ⟨hstart₁, fun l hl => ?_, fun store hstore => ?_⟩
      · unfold Files.IsDir
        rw [hat, if_pos hl]
      · rw [hat, if_neg (hempty store hstore).1, (hempty store hstore).2]
    rw [hdirs] at h
    simp only at h
    split at h
    · obtain ⟨hb, rfl⟩ := Prod.mk.inj h
      obtain rfl := Except.ok.inj hb
      exact hmade
    · -- the marker is beside the stores
      split at h
      · cases h
      · rename_i v₂ hwrite
        obtain ⟨hb, rfl⟩ := Prod.mk.inj h
        obtain rfl := Except.ok.inj hb
        obtain ⟨hnew, hother⟩ := Volume.write_other (join_start hstart₁ _) hwrite
        have hplain : Plain "NON_AUTHORITATIVE" := by decide
        have hplace : (root.join "NON_AUTHORITATIVE").location = "NON_AUTHORITATIVE" :: root.location := by
          rw [PathBuf.join_plain hplain, PathBuf.location_below (List.forall_mem_singleton.2 hplain)]
          rfl
        have hdir : ∀ {l}, v₁.files.IsDir l → v₂.files.IsDir l := fun {l} hl =>
          (hother l fun heq => hnew (heq ▸ hl)).trans hl
        refine ⟨hdir hmade.start, fun l hl => hdir (hmade.way l hl), fun store hstore => ?_⟩
        rw [hother, hmade.empty store hstore]
        rw [hplace]
        exact fun heq => hstore (congrArg storeDepth (List.cons.inj heq).1)

namespace LocalFsBackend.Fresh

/-- Nothing is in a store that is not there. -/
theorem at_none (h : b.Fresh v) (hstore : storeDepth store ≠ none) (names : List String) :
    v.files.at_ (b.shelf.place (store :: names)) = none := by
  have hplace : b.shelf.place (store :: names) = names.reverse ++ (store :: b.root.location) := by
    unfold Shelf.place
    rw [List.reverse_cons, List.append_assoc]
    rfl
  rw [hplace]
  rcases List.eq_nil_or_concat names with rfl | ⟨front, last, rfl⟩
  · exact h.empty store hstore
  · by_contra hsome
    have hdir := Files.ancestor hsome (by simp)
    cases hdir.symm.trans (h.empty store hstore)

theorem at_slot (h : b.Fresh v) {names : List String} (hn : b.shelf.slots names) :
    v.files.at_ (b.shelf.place names) = none := by
  obtain ⟨-, store, rest, rfl, hdepth⟩ := hn
  exact h.at_none (by rw [hdepth]; nofun) rest

theorem clear (h : b.Fresh v) : b.shelf.Clear v.files where
  start := h.start
  way := h.way
  inner {front rest} hn hfront _ := by
    obtain ⟨-, store, names, hnames, hdepth⟩ := hn
    rcases front with _ | ⟨name, front⟩
    · exact absurd rfl hfront
    · obtain ⟨rfl, -⟩ := List.cons.inj hnames
      exact .inl (h.at_none (by rw [hdepth]; nofun) front)
  end_ {names} hn hdir := by
    cases hdir.symm.trans (h.at_slot hn)

/-- Nothing is listed in a store that is not there. -/
theorem entries_nil (h : b.Fresh v) (hstore : storeDepth store ≠ none) (names : List String) :
    v.entries (b.shelf.place (store :: names)) = [] := by
  refine List.eq_nil_iff_forall_not_mem.2 fun name hname => (v.listed _ _).1 hname ?_
  rw [← Shelf.place_concat]
  exact h.at_none hstore (names ++ [name])

/-- A fresh registry holds nothing. -/
theorem holds (h : b.Fresh v) : b.Holds v .empty := by
  have hlookup : ∀ {names}, b.shelf.slots names → v.files.lookup (b.root.below names) = none := by
    intro names hn
    have hlookup : v.files.lookup (b.root.below names) = v.files.at_ (b.shelf.place names) :=
      h.clear.lookup (b.shelf.plain hn) (b.shelf.ne_nil hn)
    rw [hlookup, h.at_slot hn]
  refine ⟨h.clear, ?_, ?_, ?_, ?_, ?_, ?_⟩
  · rw [h.entries_nil (by decide) []]
    exact nofun
  · rw [stores_artifacts h.clear, h.entries_nil (by decide) []]
    rfl
  · funext hash
    rw [stores_events h.clear, h.entries_nil (by decide) [hex32 hash]]
    rfl
  · intro env tag henv htag
    show (v.files.lookup (b.tagPath env tag)).map _ = none
    rw [tagPath_plain henv htag, hlookup (slots_tag henv htag)]
    rfl
  · funext hash
    show (v.files.lookup (b.consistencyPath hash)).map _ = none
    rw [consistencyPath_below, hlookup (slots_consistency hash)]
    rfl
  · funext hash
    show (v.files.lookup (b.revocationPath hash)).map _ = none
    rw [revocationPath_below, hlookup (slots_revocation hash)]
    rfl

end LocalFsBackend.Fresh

/-! ## Commands with plain names -/

theorem eventFileName_plain {event : LifecycleEvent} (hkind : '/' ∉ event.eventKind.toList) :
    Plain (eventFileName event) := by
  refine json_plain ?_
  rw [String.toList_append, String.toList_append, List.mem_append, List.mem_append, not_or, not_or]
  refine ⟨⟨fun hmem => ?_, by decide⟩, hkind⟩
  exact absurd ((seqDigits_toList event.seq).1 _ hmem) (by decide)

theorem CommandLine.calls_plain (c : CommandLine) (hc : c.Plain) : (c.command X).Calls BackendOp.Plain := by
  refine c.calls_command.mono fun op hop => ?_
  cases op with
  | appendEvent target event =>
    rcases hop with hkind | ⟨state, hkind⟩
    · refine eventFileName_plain ?_
      rw [hkind]
      decide
    · refine eventFileName_plain ?_
      rw [hkind]
      cases state <;> decide
  | putPointer env tag target eventRef =>
    cases c with
    | publish | rollback =>
      obtain ⟨rfl, rfl⟩ := hop
      exact hc
    | compile | compileIntent | mlCheck | attest | deprecateArtifact | revoke => cases hop
  | putArtifact | readArtifactKew | readEvents | putConsistency | readConsistency | putRevocation => exact trivial

namespace LocalFsBackend.Holds

theorem run (h : b.Holds v r) (hc : c.Plain) :
    (b.run X c v).1 = (c.run X r).1 ∧ b.Holds (b.run X c v).2 (c.run X r).2 :=
  (c.calls_plain hc).run_simulates (perform_simulates b) h

theorem runAll : ∀ (commands : List CommandLine) {v : Disk} {r : Backend}, (∀ c ∈ commands, c.Plain) → b.Holds v r →
    b.Holds (b.runAll X commands v) (Registry.runAll X commands r)
  | [], _, _, _, h => h
  | c :: commands, _, _, hplain, h => by
    rw [List.forall_mem_cons] at hplain
    exact runAll commands hplain.2 (h.run hplain.1).2

/-! ### What readers find -/

theorem stores_eq (h : b.Holds v r) : b.stores v = { r with tags := (b.stores v).tags } := by
  show Backend.mk (b.stores v).artifacts (b.stores v).events (b.stores v).tags (b.stores v).consistency
    (b.stores v).revocations = _
  rw [h.artifacts, h.events, h.consistency, h.revocations]

theorem lifecycleState (h : b.Holds v r) :
    Registry.lifecycleState X (b.stores v) hash = Registry.lifecycleState X r hash := by
  rw [h.stores_eq]
  rfl

theorem readArtifactKew (h : b.Holds v r) : (b.stores v).readArtifactKew hash = r.readArtifactKew hash := by
  rw [h.stores_eq]
  rfl

theorem readEvents (h : b.Holds v r) : (b.stores v).readEvents hash = r.readEvents hash := by
  rw [h.stores_eq]
  rfl

theorem resolve_byRegime (h : b.Holds v r) (regimeId : String) (date : JurisdictionDate) (env : String)
    (nowUnix : UInt64) :
    resolve X (b.stores v) (.byRegime regimeId date env) nowUnix =
      resolve X r (.byRegime regimeId date env) nowUnix := by
  rw [h.stores_eq]
  rfl

theorem handleVerify (h : b.Holds v r) (req : VerifyRequest) :
    Registry.handleVerify X (b.stores v) req nowUnix = Registry.handleVerify X r req nowUnix := by
  rw [h.stores_eq]
  rfl

theorem admitArtifact (h : b.Holds v r) :
    Registry.admitArtifact X (b.stores v) hash env nowUnix = Registry.admitArtifact X r hash env nowUnix := by
  rw [h.stores_eq]
  rfl

end LocalFsBackend.Holds

/-! ## Races -/

/-- Races with the same calls, which end alike, are safe together. -/
theorem RaceSafe.of_alike {σ τ : Type} {exec : ∀ {β : Type}, BackendOp β → σ → Except CommandError β × σ}
    {exec' : ∀ {β : Type}, BackendOp β → τ → Except CommandError β × τ} {stores : σ → Backend} {stores' : τ → Backend}
    {race : Race BackendOp CommandError LifecycleState σ} {race' : Race BackendOp CommandError LifecycleState τ}
    {schedule : List Bool} (hsafe : RaceSafe X exec stores hash race schedule)
    (hcalls : race.calls exec schedule = race'.calls exec' schedule)
    (hsides : ∀ who, (race.run exec schedule).side who = (race'.run exec' schedule).side who)
    (hlog : lifecycleState X (stores (race.run exec schedule).store) hash =
      lifecycleState X (stores' (race'.run exec' schedule).store) hash) :
    RaceSafe X exec' stores' hash race' schedule where
  once := by
    rw [← hcalls]
    exact hsafe.once
  loser who e e' call call' hcall hcall' he he' hseq := by
    rw [← hcalls] at hcall hcall'
    rw [← hsides]
    exact hsafe.loser who e e' call call' hcall hcall' he he' hseq
  log := by
    rw [← hlog]
    exact hsafe.log

/-- A race on the files is one on the stores. -/
theorem LocalFsBackend.Holds.raceSafe_iff (h : b.Holds v r) (hc : c.Plain) (hc' : c'.Plain) (schedule : List Bool) :
    RaceSafe X (Disk.perform b) b.stores hash (raceOf X c c' v) schedule ↔
      RaceSafe X perform id hash (raceOf X c c' r) schedule := by
  have halike : (raceOf X c c' v).Alike BackendOp.Plain b.Holds (raceOf X c c' r) :=
    ⟨Bool.forall_bool.2 ⟨rfl, rfl⟩, Bool.forall_bool.2 ⟨c'.calls_plain hc', c.calls_plain hc⟩, h⟩
  have hcalls := halike.calls (perform_simulates b) schedule
  have hrun := halike.run (perform_simulates b) schedule
  exact ⟨fun hsafe => hsafe.of_alike hcalls hrun.sides hrun.stores.lifecycleState,
    fun hsafe => hsafe.of_alike hcalls.symm (fun who => (hrun.sides who).symm) hrun.stores.lifecycleState.symm⟩

theorem LocalFsBackend.Holds.overlap_iff (h : b.Holds v r) (schedule : List Bool) :
    Overlap X (b.stores v) hash c c' schedule ↔ Overlap X r hash c c' schedule := by
  unfold Overlap
  rw [h.lifecycleState, h.readEvents]

/-- Safe, unless the two commands file different kinds and both have read the head before either appends. -/
theorem race_safe_iff (hX : X.Lawful) (hfresh : b.Fresh v) (commands : List CommandLine) (h : c.Moves hash)
    (h' : c'.Moves hash) (hplain : ∀ d ∈ c :: c' :: commands, d.Plain) (schedule : List Bool) :
    RaceSafe X (Disk.perform b) b.stores hash (raceOf X c c' (b.runAll X commands v)) schedule ↔
      ¬ Overlap X (b.stores (b.runAll X commands v)) hash c c' schedule := by
  simp only [List.forall_mem_cons] at hplain
  obtain ⟨hc, hc', hplain⟩ := hplain
  have hholds := hfresh.holds.runAll (X := X) commands hplain
  rw [hholds.raceSafe_iff hc hc', hholds.overlap_iff]
  exact raceSafe_iff hX commands h h' schedule

/-! ## Publish, serve and graph export -/

/-- What a run published under the policy of its kind, and no later command touched, is exported, and
is served when it holds rules, or is covered by scenarios all the same. -/
theorem servedAndExported_iff (hX : X.Lawful) (hfresh : b.Fresh v) {before after : List CommandLine}
    {state : LifecycleState} {kew : Bytes} {artifact : Artifact} {n : Nat}
    (hplain : ∀ c ∈ before ++ .publish hash env tag none nowUnix :: after, c.Plain)
    (hpublish : (b.run X (.publish hash env tag none nowUnix) (b.runAll X before v)).1 = .ok state)
    (hafter : ∀ c ∈ after, ¬ c.On X hash) (hkew : (b.stores (b.runAll X before v)).readArtifactKew hash = .ok kew)
    (hdec : decodeArtifact X kew = .ok (artifact, n)) {req : VerifyRequest} (hreq : req.Strict hash) :
    ServedAndExported X (b.stores (b.runAll X (before ++ .publish hash env tag none nowUnix :: after) v)) hash req
        nowUnix artifact ↔
      (∃ rules, artifact.payload = .rules rules) ∨
        ∃ att ∈ artifact.attestations, att.attestationType = .scenarioCoverage := by
  have hend := hfresh.holds.runAll (X := X) _ hplain
  rw [List.forall_mem_append, List.forall_mem_cons] at hplain
  have hbefore := hfresh.holds.runAll (X := X) before hplain.1
  rw [(hbefore.run hplain.2.1).1] at hpublish
  rw [hbefore.readArtifactKew] at hkew
  unfold ServedAndExported
  rw [hend.handleVerify, hend.admitArtifact]
  exact published_served_iff hX hpublish hafter hkew hdec hreq

/-! ## Resolution by regime and date -/

/-- The command sets a tag of an environment to an artifact. -/
def CommandLine.Sets (env tag : String) (hash : Hash32) : CommandLine → Prop
  | .publish target env' tag' _ _ => target = hash ∧ env' = env ∧ tag' = tag
  | .rollback env' tag' target _ => target = hash ∧ env' = env ∧ tag' = tag
  | _ => False

/-- In the course of a run, a publish or a rollback set a tag of the environment to the artifact. -/
def LocalFsBackend.MadeAvailable (b : LocalFsBackend) (X : Externals) (v : Disk) (commands : List CommandLine)
    (env : String) (hash : Hash32) : Prop :=
  ∃ before c after tag p, commands = before ++ c :: after ∧ c.Sets env tag hash ∧
    (b.stores (b.run X c (b.runAll X before v)).2).readPointer env tag = .ok (some p) ∧ p.targetHash = .ok hash

/-- In force, and made available in the environment. -/
def LocalFsBackend.Qualifies (b : LocalFsBackend) (X : Externals) (v : Disk) (commands : List CommandLine)
    (regimeId : String) (date : JurisdictionDate) (env : String) (hash : Hash32) : Prop :=
  InForce X (b.stores (b.runAll X commands v)) regimeId date hash ∧ b.MadeAvailable X v commands env hash

theorem LocalFsBackend.Holds.inForce (h : b.Holds v r) (regimeId : String) (date : JurisdictionDate) :
    InForce X (b.stores v) regimeId date = InForce X r regimeId date := by
  funext hash
  unfold InForce
  rw [h.readArtifactKew, h.lifecycleState]

theorem LocalFsBackend.Holds.answers_iff (h : b.Holds v r) (regimeId : String) (date : JurisdictionDate) (env : String)
    (nowUnix : UInt64) (qualifies : Hash32 → Prop) :
    Answers X (b.stores v) (.byRegime regimeId date env) nowUnix qualifies ↔
      Answers X r (.byRegime regimeId date env) nowUnix qualifies := by
  have hresolve := h.resolve_byRegime (X := X) regimeId date env nowUnix
  constructor
  · rintro ⟨hok, hnotFound, hambiguous⟩
    rw [hresolve] at hok hnotFound hambiguous
    exact ⟨hok, hnotFound, hambiguous⟩
  · rintro ⟨hok, hnotFound, hambiguous⟩
    rw [← hresolve] at hok hnotFound hambiguous
    exact ⟨hok, hnotFound, hambiguous⟩

/-- Resolution by regime and date answers for an environment exactly when all that is in force was made
available there, or two artifacts were. -/
theorem resolve_byRegime_iff (hX : X.Lawful) (hfresh : b.Fresh v) (commands : List CommandLine)
    (hplain : ∀ c ∈ commands, c.Plain) (regimeId : String) (date : JurisdictionDate) (env : String) (nowUnix : UInt64) :
    Answers X (b.stores (b.runAll X commands v)) (.byRegime regimeId date env) nowUnix
        (b.Qualifies X v commands regimeId date env) ↔
      (∀ hash, InForce X (b.stores (b.runAll X commands v)) regimeId date hash →
        b.MadeAvailable X v commands env hash) ∨
        ∃ hash other, hash ≠ other ∧ b.Qualifies X v commands regimeId date env hash ∧
          b.Qualifies X v commands regimeId date env other := by
  have hholds := hfresh.holds.runAll (X := X) commands hplain
  have hanswers := answers_inForce hX (runAll_ready hX commands .empty) (runAll_filed commands .empty) regimeId date env
    nowUnix
  rw [← hholds.inForce, ← hholds.answers_iff] at hanswers
  rw [hanswers.iff fun _ hqualifies => hqualifies.1]
  refine or_congr_left (forall_congr' fun hash => imp_congr_right fun hforce => ?_)
  exact and_iff_right hforce

end

/-! ## A limit on files -/

/-- A registry that was opened where nothing was. -/
def openedDisk : Disk := (LocalFsBackend.open_ ⟨[], ["registry"]⟩ .bare).2

theorem openedDisk_fresh : atRoot.Fresh openedDisk := by
  have hopen : LocalFsBackend.open_ ⟨[], ["registry"]⟩ .bare = (.ok atRoot, openedDisk) := rfl
  refine LocalFsBackend.open_fresh hopen rfl fun store _ => ⟨?_, rfl⟩
  show [store, "registry"] ∉ [["registry"]]
  exact fun hmem => absurd (congrArg List.length (List.mem_singleton.1 hmem)) (by simp)

theorem openedDisk_runAll (commands : List CommandLine) (hplain : ∀ c ∈ commands, c.Plain) :
    atRoot.Holds (atRoot.runAll standIn commands openedDisk) (runAll standIn commands .empty) :=
  openedDisk_fresh.holds.runAll commands hplain

/-! ### Raced for -/

/-- Deprecating and revoking a published limit, one after the other. -/
theorem race_safe_iff_transfer :
    RaceSafe standIn (Disk.perform atRoot) atRoot.stores transferHash
      (raceOf standIn (.deprecateArtifact transferHash 6) (.revoke transferHash (some .hardStop) none none 7)
        (atRoot.runAll standIn transferLife openedDisk)) [true, true, true, true, false, false, false] ↔
    ¬ Overlap standIn (atRoot.stores (atRoot.runAll standIn transferLife openedDisk)) transferHash
      (.deprecateArtifact transferHash 6) (.revoke transferHash (some .hardStop) none none 7)
      [true, true, true, true, false, false, false] := by
  have h : CommandLine.Moves transferHash (.deprecateArtifact transferHash 6) := rfl
  have h' : CommandLine.Moves transferHash (.revoke transferHash (some .hardStop) none none 7) := rfl
  exact race_safe_iff standIn_lawful openedDisk_fresh transferLife h h' (by decide +kernel) _

/-- Turn by turn both file an event, and no command can read the log again. -/
theorem race_lost : ¬ RaceSafe standIn (Disk.perform atRoot) atRoot.stores transferHash
    (raceOf standIn (.deprecateArtifact transferHash 6) (.revoke transferHash (some .hardStop) none none 7)
      (atRoot.runAll standIn transferLife openedDisk)) [true, false, true, false, true, false] := by
  have hholds := openedDisk_runAll transferLife (by decide +kernel)
  have hplain : CommandLine.Plain (.deprecateArtifact transferHash 6) := trivial
  have hplain' : CommandLine.Plain (.revoke transferHash (some .hardStop) none none 7) := trivial
  rw [hholds.raceSafe_iff hplain hplain']
  intro hsafe
  have hrun : (lifecycleState standIn ((raceOf standIn (.deprecateArtifact transferHash 6)
      (.revoke transferHash (some .hardStop) none none 7) (runAll standIn transferLife .empty)).run perform
        [true, false, true, false, true, false]).store transferHash).toOption.isNone = true := by decide +kernel
  obtain ⟨state, hstate⟩ := hsafe.log
  have hsome := (congrArg (fun answer => answer.toOption.isNone) hstate).symm.trans hrun
  cases hsome

/-! ### Published -/

/-- Published, asked for in the mode that serve takes for granted. -/
def transferRequest : VerifyRequest := ⟨hex32 transferHash, none, none⟩

/-- The life of the transfer limit, attested for scenarios as well. -/
def coveredLife : List CommandLine :=
  [.compileIntent (.ok transferDocument) "us" 0, .mlCheck transferHash 1,
    .attest transferHash [.sourceFidelity, .scenarioCoverage, .publicationApproval] 2]

theorem servedAndExported_iff_covered : ∃ state kew a n,
    (atRoot.run standIn (.publish transferHash "local" "stable" none 3)
      (atRoot.runAll standIn coveredLife openedDisk)).1 = .ok state ∧ decodeArtifact standIn kew = .ok (a, n) ∧
    (ServedAndExported standIn (atRoot.stores
        (atRoot.runAll standIn (coveredLife ++ .publish transferHash "local" "stable" none 3 :: []) openedDisk))
        transferHash transferRequest 3 a ↔
      (∃ rules, a.payload = .rules rules) ∨ ∃ att ∈ a.attestations, att.attestationType = .scenarioCoverage) := by
  have hholds := openedDisk_runAll coveredLife (by decide +kernel)
  have hrun : (((CommandLine.publish transferHash "local" "stable" none 3).run standIn
        (runAll standIn coveredLife .empty)).1.isOk &&
      ((runAll standIn coveredLife .empty).readArtifactKew transferHash).toOption.any (fun kew =>
        (decodeArtifact standIn kew).isOk)) = true := by decide +kernel
  obtain ⟨hpublish, hread⟩ := Bool.and_eq_true_iff.1 hrun
  obtain ⟨state, hstate⟩ := exists_ok hpublish
  obtain ⟨kew, hkew, hdec⟩ := exists_ok_and hread
  obtain ⟨⟨a, n⟩, hdec⟩ := exists_ok hdec
  rw [← (hholds.run (by decide)).1] at hstate
  rw [← hholds.readArtifactKew] at hkew
  exact ⟨state, kew, a, n, hstate, hdec, servedAndExported_iff standIn_lawful openedDisk_fresh (by decide +kernel)
    hstate (fun _ h => absurd h List.not_mem_nil) hkew hdec ⟨rfl, rfl, rfl⟩⟩

/-- An intent that no scenario covers is published and exported, and serve rejects it. -/
theorem published_intent_not_served : ∃ a,
    (atRoot.run standIn (.publish transferHash "local" "stable" none 3)
      (atRoot.runAll standIn (transferLife.take 3) openedDisk)).1 = .ok .published ∧
    admitArtifact standIn (atRoot.stores (atRoot.runAll standIn transferLife openedDisk)) transferHash "local" 3 =
      .ok (.verified a) ∧
    (handleVerify standIn (atRoot.stores (atRoot.runAll standIn transferLife openedDisk)) transferRequest 3).map
      (·.verdict) = .ok (.rejected (.attestations [.requiredTypeMissing .scenarioCoverage 1 0])) ∧
    ¬ ServedAndExported standIn (atRoot.stores (atRoot.runAll standIn transferLife openedDisk)) transferHash
      transferRequest 3 a := by
  have hbefore := openedDisk_runAll (transferLife.take 3) (by decide +kernel)
  have hholds := openedDisk_runAll transferLife (by decide +kernel)
  have hrun : (((CommandLine.publish transferHash "local" "stable" none 3).run standIn
        (runAll standIn (transferLife.take 3) .empty)).1.toOption.any (fun state => decide (state = .published)) &&
      (admitArtifact standIn (runAll standIn transferLife .empty) transferHash "local" 3).toOption.any
        (fun admission => admission.casesOn (fun _ => true) fun _ => false) &&
      (handleVerify standIn (runAll standIn transferLife .empty) transferRequest 3).toOption.any
        (fun response => decide (response.verdict =
          .rejected (.attestations [.requiredTypeMissing .scenarioCoverage 1 0])))) = true := by decide +kernel
  simp only [Bool.and_eq_true] at hrun
  obtain ⟨⟨hpublish, hadmit⟩, hserve⟩ := hrun
  obtain ⟨state, hstate, hpublished⟩ := exists_ok_and hpublish
  obtain ⟨admission, hadmission, hverified⟩ := exists_ok_and hadmit
  obtain ⟨response, hresponse, hverdict⟩ := exists_ok_and hserve
  have hverdict := of_decide_eq_true hverdict
  unfold ServedAndExported
  rw [(hbefore.run (by decide)).1, hholds.admitArtifact, hholds.handleVerify]
  cases admission with
  | refused reason => cases hverified
  | verified a =>
    refine ⟨a, ?_, hadmission, ?_, fun hserved => ?_⟩
    · rw [hstate, of_decide_eq_true hpublished]
    · rw [hresponse, ← hverdict]
      rfl
    · have hboth := hserved.1
      rw [hresponse] at hboth
      exact absurd (hverdict.symm.trans (Except.ok.inj hboth)) (by decide)

/-! ### Published elsewhere -/

/-- A date in the window of the limit. -/
def someDay : JurisdictionDate := ⟨.lit 16 2024, 7, 1⟩

theorem resolve_byRegime_iff_transfer :
    Answers standIn (atRoot.stores (atRoot.runAll standIn transferLife openedDisk)) (.byRegime "us" someDay "local") 5
        (atRoot.Qualifies standIn openedDisk transferLife "us" someDay "local") ↔
      (∀ hash, InForce standIn (atRoot.stores (atRoot.runAll standIn transferLife openedDisk)) "us" someDay hash →
        atRoot.MadeAvailable standIn openedDisk transferLife "local" hash) ∨
        ∃ hash other, hash ≠ other ∧ atRoot.Qualifies standIn openedDisk transferLife "us" someDay "local" hash ∧
          atRoot.Qualifies standIn openedDisk transferLife "us" someDay "local" other :=
  resolve_byRegime_iff standIn_lawful openedDisk_fresh transferLife (by decide +kernel) "us" someDay "local" 5

/-- Published to one environment, the limit is resolved in another, where nothing was made available. -/
theorem resolved_elsewhere :
    (∃ record, resolve standIn (atRoot.stores (atRoot.runAll standIn transferLife openedDisk))
      (.byRegime "us" someDay "prod") 5 = .ok (transferHash, record)) ∧
      (∀ hash, ¬ atRoot.MadeAvailable standIn openedDisk transferLife "prod" hash) ∧
      ¬ Answers standIn (atRoot.stores (atRoot.runAll standIn transferLife openedDisk)) (.byRegime "us" someDay "prod")
        5 (atRoot.Qualifies standIn openedDisk transferLife "us" someDay "prod") := by
  have hholds := openedDisk_runAll transferLife (by decide +kernel)
  have hrun : (resolve standIn (runAll standIn transferLife .empty) (.byRegime "us" someDay "prod") 5).toOption.any
      (fun out => decide (out.1 = transferHash)) = true := by decide +kernel
  obtain ⟨⟨hash, record⟩, hresolve, hhash⟩ := exists_ok_and hrun
  obtain rfl : hash = transferHash := of_decide_eq_true hhash
  rw [← hholds.resolve_byRegime] at hresolve
  have hnever : ∀ hash, ¬ atRoot.MadeAvailable standIn openedDisk transferLife "prod" hash := by
    rintro hash ⟨before, c, after, tag, p, hsplit, hsets, -⟩
    have hc : c ∈ transferLife := by
      rw [hsplit]
      exact List.mem_append_right before List.mem_cons_self
    simp only [transferLife, List.mem_cons, List.not_mem_nil, or_false] at hc
    rcases hc with rfl | rfl | rfl | rfl
    · exact hsets
    · exact hsets
    · exact hsets
    · exact absurd hsets.2.1 (by decide)
  exact ⟨⟨record, hresolve⟩, hnever, fun h => hnever _ ((h.ok _).1 ⟨record, hresolve⟩).1.2⟩

end Ke.Registry
