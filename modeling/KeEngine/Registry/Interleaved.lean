/-
What is left when any number of commands run at the same time, in every order of their operations and with any
operation failing: the directory holds artifacts under their own addresses, nothing that was written goes away, a
log is a tree of events rooted in one draft, and tags and records name events that are filed.
-/
import KeEngine.Registry.Views

namespace Ke.Registry

open Ke Wire

/-- Commands that run at the same time on a registry. -/
def together (X : Externals) (commands : List CommandLine) (r : Backend) :
    Pool BackendOp CommandError LifecycleState Backend := ⟨commands.map (·.command X), r⟩

section

variable {X : Externals} {r : Backend}

/-- A schedule of commands keeps the stores sound, and each command that returned `Ok` has done what it says. -/
theorem kept_together (hr : r.Sound X) (commands : List CommandLine) (schedule : List (Turn CommandError)) :
    ((together X commands r).run @perform schedule).Kept @perform (stores X)
      fun who _ t => ∀ c, commands[who]? = some c → c.Done X t := by
  refine (Pool.Kept.run schedule ⟨hr, fun who p hp => ⟨r, Backend.Extends.refl r, ?_⟩⟩).1
  have hp : (commands.map (·.command X))[who]? = some p := hp
  rw [List.getElem?_map] at hp
  obtain ⟨c, hc, rfl⟩ := Option.map_eq_some_iff.1 hp
  refine (c.keeps r).mono fun _ t hdone c' hc' => ?_
  obtain rfl := Option.some.inj (hc.symm.trans hc')
  exact hdone

/-- What a command that returned `Ok` has done is still there. -/
theorem done_of_returned {commands : List CommandLine} {pool : Pool BackendOp CommandError LifecycleState Backend}
    (h : pool.Kept @perform (stores X) fun who _ t => ∀ c, commands[who]? = some c → c.Done X t) {who : Nat}
    {c : CommandLine} {state : LifecycleState} (hc : commands[who]? = some c)
    (hreturned : pool.programs[who]?.bind Prog.returned = some state) : c.Done X pool.store :=
  h.returned (fun _ _ _ _ hextends hdone c' hc' => (hdone c' hc').extends hextends) hreturned c hc

theorem sound_together (hr : r.Sound X) (commands : List CommandLine) (schedule : List (Turn CommandError)) :
    ((together X commands r).run @perform schedule).store.Sound X := (kept_together hr commands schedule).inv

/-! ## Artifacts -/

theorem Stored.compilerSignature (hX : X.Lawful) {hash : Hash32} {kew : Bytes} {a : Artifact} (h : Stored X hash kew a) :
    compilerSignatureValid X kew TestKeys.fixedSeed = true := by
  obtain ⟨n, hdec, -, hsig⟩ := h.decode
  unfold compilerSignatureValid
  rw [hdec]
  show X.verify _ _ a.compilerSignature.signature = true
  rw [hsig]
  exact hX.verify_sign _ _

/-- In sound stores, what resolves is what is filed at the address. -/
theorem Backend.Sound.vouched (h : r.Sound X) {selector : Selector} {nowUnix : UInt64} {hash : Hash32}
    {record : ResolutionRecord} (hres : resolve X r selector nowUnix = .ok (hash, record)) :
    Vouched X r hash record := by
  obtain ⟨hash', -, hres⟩ := bind_ok.1 hres
  obtain ⟨events, -, hres⟩ := bind_ok.1 hres
  obtain ⟨found, -, hres⟩ := bind_ok.1 hres
  obtain ⟨state, -, hres⟩ := bind_ok.1 hres
  obtain ⟨m, hm, hres⟩ := bind_ok.1 hres
  obtain ⟨revocation, -, hres⟩ := bind_ok.1 hres
  obtain ⟨rfl, rfl⟩ := Prod.mk.inj (pure_ok.1 hres)
  -- the first file that claims the hash is the one at its address
  have hfirst := verifyResolvedArtifact_ok hm
  unfold firstClaimant at hfirst
  have hclaims : m.artifactHash = hash' :=
    of_decide_eq_true (List.find?_some (p := fun m : Manifest => decide (m.artifactHash = hash')) hfirst)
  obtain ⟨file, hfile, hof⟩ := List.mem_filterMap.1 (List.mem_of_find?_eq_some hfirst)
  obtain ⟨a, hname, ha⟩ := h.shelved.stored file hfile
  obtain ⟨n, hdec, -⟩ := ha.decode
  unfold manifestOf at hof
  rw [hdec] at hof
  obtain rfl := Option.some.inj hof
  have hlookup := lookup_of_mem h.filed.nodup hfile
  rw [hname] at hlookup
  subst hclaims
  exact ⟨file.2, a, n, readArtifactKew_ok.2 hlookup, hdec, ha.verifyHash, rfl, rfl⟩

/-- Whatever commands run side by side, every file of the directory is an artifact under its own address: it decodes,
rehashes to its name and carries the compiler's signature, no two files share a name, and what resolves is what is
filed. -/
theorem together_filed (hX : X.Lawful) (commands : List CommandLine) (schedule : List (Turn CommandError)) :
    let left := ((together X commands .empty).run @perform schedule).store
    (∀ file ∈ left.artifacts, ∃ hash a n, file.1 = hex32 hash ∧ decodeArtifact X file.2 = .ok (a, n) ∧
        verifyHash X file.2 = .ok hash ∧ compilerSignatureValid X file.2 TestKeys.fixedSeed = true) ∧
      (left.artifacts.map Prod.fst).Nodup ∧
      ∀ selector nowUnix hash record, resolve X left selector nowUnix = .ok (hash, record) →
        Vouched X left hash record := by
  intro left
  have hsound : left.Sound X := sound_together .empty commands schedule
  refine ⟨fun file hfile => ?_, hsound.filed.nodup, fun _ _ _ _ hres => hsound.vouched hres⟩
  obtain ⟨a, hname, ha⟩ := hsound.shelved.stored file hfile
  obtain ⟨n, hdec, -⟩ := ha.decode
  exact ⟨_, a, n, hname, hdec, ha.verifyHash, ha.compilerSignature hX⟩

/-! ## Nothing goes away -/

/-- On any registry, whatever is in it: commands that run side by side take no file away, append to logs only, and
never change a sidecar. -/
theorem together_extends (r : Backend) (commands : List CommandLine) (before after : List (Turn CommandError)) :
    ((together X commands r).run @perform before).store.Extends
      ((together X commands r).run @perform (before ++ after)).store := by
  -- growing is all that is asked of an operation, and all do it
  let growing : Contract Backend := ⟨fun _ => True, Backend.Extends, .refl, .trans⟩
  have hkeeps : ∀ (p : Command LifecycleState) (s : Backend), p.Keeps @perform growing (fun _ _ => True) s := by
    intro p
    induction p with
    | done result => exact fun _ _ _ => trivial
    | call op next ih => exact fun s t _ _ => ⟨trivial, exec_extends op t, fun b _ => ih b _⟩
  have hkept : ((together X commands r).run @perform before).Kept @perform growing fun _ _ _ => True :=
    ⟨trivial, fun _ p _ => ⟨_, Backend.Extends.refl _, hkeeps p _⟩⟩
  have hrun : (together X commands r).run @perform (before ++ after) =
      ((together X commands r).run @perform before).run @perform after := List.foldl_append ..
  rw [hrun]
  exact (hkept.run after).2

/-! ## Logs -/

/-- Whatever commands run side by side, a log is a tree: every event that is filed is the head of a branch that the
walk accepts, from a draft on, every event of it filed for the artifact. -/
theorem together_branches (hX : X.Lawful) (commands : List CommandLine) (schedule : List (Turn CommandError))
    (hash : Hash32) : ∃ log,
      ((together X commands .empty).run @perform schedule).store.events hash = log.map eventFile ∧
      (log.map eventFileName).Nodup ∧ ∀ e ∈ log, ∃ branch, branch ⊆ log ∧
        currentState X branch = .ok (some e.newState) ∧ branch.head?.map (·.newState) = some .draft ∧
        branch.getLast? = some e ∧ ∀ e' ∈ branch, e'.artifactHash = hash := by
  obtain ⟨log, hlog, hforked⟩ := (sound_together .empty commands schedule).logs hash
  refine ⟨log, hlog, hforked.names, fun e he => ?_⟩
  obtain ⟨branch, hsub, hwalked, hhead, hlast⟩ := hforked.branch he
  exact ⟨branch, hsub, hwalked.currentState hX hlast, hhead, hlast, hwalked.hashes⟩

/-- Whatever commands ran side by side, the log of an artifact is read without an error exactly when no two of its
events are filed under the same number: a race is found out as soon as it has left a fork. -/
theorem together_accepted_iff (hX : X.Lawful) (commands : List CommandLine) (schedule : List (Turn CommandError))
    (hash : Hash32) :
    let left := ((together X commands .empty).run @perform schedule).store
    (∃ state, lifecycleState X left hash = .ok state) ↔ ¬ left.Collides hash :=
  (sound_together .empty commands schedule).accepted_iff hX hash

/-! ## Tags, sidecars and results -/

/-- A pointer is about a stored artifact, and names an event that is filed for it. -/
structure Backend.Grounds (r : Backend) (env tag : String) (p : TagPointer) (target : Hash32) (e : LifecycleEvent) :
    Prop where
  env : p.env = env
  tag : p.tag = tag
  names : p.targetHash = .ok target
  stored : ∃ kew, r.readArtifactKew target = .ok kew
  filed : eventFile e ∈ r.events target
  ref : p.eventRef = e.ref
  kind : e.eventKind = "published" ∨ e.eventKind = "tag_moved"

/-- A record names a filed event that revokes, and is no laxer than its reason demands. -/
structure Backend.Justifies (r : Backend) (hash : Hash32) (record : RevocationRecord) (e : LifecycleEvent) : Prop where
  filed : eventFile e ∈ r.events hash
  revokes : e.Revokes
  ref : record.eventRef = e.ref
  recorded : record.Recorded

theorem Backend.Sound.grounds (h : r.Sound X) {env tag : String} (hne : r.tags env tag ≠ none) :
    ∃ p target e, r.readPointer env tag = .ok (some p) ∧ r.Grounds env tag p target e := by
  rcases h.readPointer env tag with ⟨hnone, -⟩ | ⟨target, e, hread, he, hkind⟩
  · exact absurd hnone hne
  · obtain ⟨kew, hkew⟩ := h.kept target (List.ne_nil_of_mem he)
    have htarget : TagPointer.targetHash ⟨env, tag, hex32 target, e.ref⟩ = .ok target := hexToHash_hex32 target
    exact ⟨_, target, e, hread, rfl, rfl, htarget, ⟨kew, readArtifactKew_ok.2 hkew⟩, he, rfl, hkind⟩

theorem Backend.Sound.justifies (h : r.Sound X) {hash : Hash32} (hne : r.revocations hash ≠ none) :
    ∃ record e, r.readRevocation hash = .ok (some record) ∧ r.Justifies hash record e := by
  obtain ⟨file, hfile⟩ := Option.ne_none_iff_exists'.1 hne
  obtain ⟨record, e, rfl, hrecorded, he, hrevokes, href⟩ := h.notices hash file hfile
  refine ⟨record, e, ?_, he, hrevokes, href, hrecorded⟩
  unfold Backend.readRevocation readSidecar
  rw [hfile]
  rfl

/-- Whatever commands run side by side, every tag is grounded and every record of a revocation justified. -/
theorem together_provenance (X : Externals) (commands : List CommandLine) (schedule : List (Turn CommandError)) :
    let left := ((together X commands .empty).run @perform schedule).store
    (∀ env tag, left.tags env tag ≠ none →
        ∃ p target e, left.readPointer env tag = .ok (some p) ∧ left.Grounds env tag p target e) ∧
      ∀ hash, left.revocations hash ≠ none →
        ∃ record e, left.readRevocation hash = .ok (some record) ∧ left.Justifies hash record e := by
  have hsound := sound_together (X := X) .empty commands schedule
  exact ⟨fun _ _ hne => hsound.grounds hne, fun _ hne => hsound.justifies hne⟩

/-- No result is lost: once a command has returned `Ok`, its event and what it wrote beside it are there, whatever
the others did meanwhile and do from then on. -/
theorem together_done (commands : List CommandLine) (before after : List (Turn CommandError)) {who : Nat}
    {c : CommandLine} {state : LifecycleState} (hc : commands[who]? = some c)
    (hreturned : ((together X commands .empty).run @perform before).programs[who]?.bind Prog.returned = some state) :
    c.Done X ((together X commands .empty).run @perform (before ++ after)).store := by
  have hdone := done_of_returned (kept_together .empty commands before) hc hreturned
  exact hdone.extends (together_extends .empty commands before after)

end

/-! ## A limit deprecated and revoked at the same time -/

/-- The transfer limit, then two commands on it. -/
def crowd : List CommandLine :=
  transferLife ++ [.deprecateArtifact transferHash 4, .revoke transferHash (some .hardStop) none none 5]

/-- The four commands of the life one after the other. -/
def crowdFirst : List (Turn CommandError) :=
  List.replicate 4 (.step 0) ++ List.replicate 6 (.step 1) ++ List.replicate 6 (.step 2) ++ List.replicate 6 (.step 3)

/-- The other two read the same head and both file an event; one of them fails then. -/
def crowdLast : List (Turn CommandError) :=
  [.step 4, .step 4, .step 5, .step 5, .step 4, .step 5, .fault 4 .precondition, .step 5, .step 5]

theorem together_filed_crowd :
    (((together standIn crowd .empty).run @perform (crowdFirst ++ crowdLast)).store.artifacts.length = 1) ∧
      (((together standIn crowd .empty).run @perform (crowdFirst ++ crowdLast)).store.artifacts.map Prod.fst).Nodup :=
  ⟨by decide +kernel, (together_filed standIn_lawful crowd (crowdFirst ++ crowdLast)).2.1⟩

/-- Both events of the fork head a branch. -/
theorem together_branches_crowd :
    ((((together standIn crowd .empty).run @perform (crowdFirst ++ crowdLast)).store.events transferHash).map Prod.fst).drop 5
        = ["0005-deprecated.json", "0005-revoked.json"] ∧
      ∃ log : List LifecycleEvent, (log.map eventFileName).Nodup ∧ ∀ e ∈ log, ∃ branch, branch ⊆ log ∧
        currentState standIn branch = .ok (some e.newState) := by
  refine ⟨by decide +kernel, ?_⟩
  obtain ⟨log, -, hnames, hbranch⟩ := together_branches standIn_lawful crowd (crowdFirst ++ crowdLast) transferHash
  refine ⟨log, hnames, fun e he => ?_⟩
  obtain ⟨branch, hsub, hstate, -⟩ := hbranch e he
  exact ⟨branch, hsub, hstate⟩

/-- Before the race there is no collision; the two events of the fork share a number, and the log is refused. -/
theorem together_accepted_iff_crowd :
    ¬ ((together standIn crowd .empty).run @perform crowdFirst).store.Collides transferHash ∧
      lifecycleState standIn ((together standIn crowd .empty).run @perform (crowdFirst ++ crowdLast)).store transferHash =
        .error (.seqGap 6 5) :=
  ⟨(together_accepted_iff standIn_lawful crowd crowdFirst transferHash).1 ⟨some .published, by decide +kernel⟩,
    by decide +kernel⟩

theorem together_done_crowd :
    (CommandLine.publish transferHash "local" "stable" none 3).Done standIn
      ((together standIn crowd .empty).run @perform (crowdFirst ++ crowdLast)).store := by
  have hreturned : ((together standIn crowd .empty).run @perform crowdFirst).programs[3]?.bind Prog.returned =
      some .published := by decide +kernel
  exact together_done crowd crowdFirst crowdLast rfl hreturned

end Ke.Registry
