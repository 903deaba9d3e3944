/-
Where tags and revocation records come from. Tags, logs and sidecars are separate stores; only publish
and rollback set a tag, after their event, and only revoke writes a record, after its event. A log
never loses an event, so the reference stays good through every later command.
-/
import KeEngine.Registry.Agreement
import KeEngine.Registry.Attested
import KeEngine.Registry.Resolve

namespace Ke.Registry

open Ke Wire

/-! ## References -/

/-- The name of an event in a pointer or a record: its kind and its number. -/
def LifecycleEvent.ref (e : LifecycleEvent) : String := s!"{e.eventKind}@seq{e.seq.toNat}"

/-- The events that set a tag. -/
def LifecycleEvent.SetsTag (e : LifecycleEvent) : Prop :=
  (e.eventKind = "published" ∨ e.eventKind = "tag_moved") ∧ e.newState = .published

/-- The event of a revocation. -/
def LifecycleEvent.Revokes (e : LifecycleEvent) : Prop := e.eventKind = "revoked" ∧ e.newState = .revoked

/-- A sidecar fits what a log says: none, and not revoked, or a record of the event that revoked. -/
def Slot.Noticed (s : Slot) : Option (JsonFile RevocationRecord) → Prop
  | none => s.state ≠ some .revoked
  | some file => s.state = some .revoked ∧
    ∃ record e, file = .good record ∧ e ∈ s.log ∧ e.Revokes ∧ record.eventRef = e.ref

/-- Every tag was set by an event that is still in the log of its target, and every record of a
revocation is about one. -/
structure Backend.Traced (r : Backend) : Prop where
  tags : ∀ env tag file, r.tags env tag = some file →
    ∃ target s e, file = .good ⟨env, tag, hex32 target, e.ref⟩ ∧ r.Holds target s ∧ e ∈ s.log ∧ e.SetsTag
  notices : ∀ hash s, r.Holds hash s → s.Noticed (r.revocations hash)

theorem Backend.Traced.empty : Backend.empty.Traced := by
  constructor
  · intro env tag file h
    cases h
  · intro hash s hs
    have hlog : [] = s.log.map eventFile := hs.log
    show s.state ≠ some .revoked
    unfold Slot.state
    rw [List.map_eq_nil_iff.1 hlog.symm]
    exact nofun

/-! ## Logs only grow -/

section

variable {X : Externals} {hash : Hash32} {r : Backend} {s s' : Slot} {c : CommandLine}

theorem Effect.log_prefix (h : Effect X hash c s s') : s.log <+: s'.log := by
  cases h with
  | none | refiled | evidence | attestedBytes => exact List.prefix_rfl
  | drafted _ _ empty =>
    rw [empty]
    exact List.nil_prefix
  | mlChecked | expertAttested | published | deprecated | revoked | tagMoved => exact List.prefix_append ..

/-- Only revoking makes or unmakes what a record would be about. -/
theorem Effect.noticed (h : Effect X hash c s s')
    (hc : ∀ policy reasonClass reason nowUnix, c ≠ .revoke hash policy reasonClass reason nowUnix)
    {file : Option (JsonFile RevocationRecord)} (hs : s.Noticed file) : s'.Noticed file := by
  -- from a state that is not revoked to another one
  have hmove : ∀ {state newState : LifecycleState} {kew : Option Bytes} {sidecar : Option (JsonFile ConsistencyBlock)}
      {kind : String} {e : LifecycleEvent}, s.state = some state → state ≠ .revoked →
        Follows X s.log newState kind e → newState ≠ .revoked → Slot.Noticed ⟨kew, s.log ++ [e], sidecar⟩ file := by
    intro state newState kew sidecar kind e hstate hne hfollows hnew
    cases file with
    | none =>
      show Slot.state _ ≠ _
      rw [hfollows.state]
      exact fun h => hnew (Option.some.inj h)
    | some file => exact absurd (Option.some.inj (hstate.symm.trans hs.1)) hne
  cases h with
  | none | refiled | evidence | attestedBytes => exact hs
  | drafted made address empty grown states =>
    cases file with
    | none =>
      show Slot.state _ ≠ _
      unfold Slot.state
      rw [← List.getLast?_map]
      rcases states with states | states
      · rw [states]
        decide
      · rw [states]
        decide
    | some file =>
      have hstate := hs.1
      unfold Slot.state at hstate
      rw [empty] at hstate
      cases hstate
  | mlChecked state event => exact hmove state (by decide) event (by decide)
  | expertAttested state _ _ _ event => exact hmove state (by decide) event (by decide)
  | published state _ _ _ _ event => exact hmove state (by decide) event (by decide)
  | deprecated state event => exact hmove state (by decide) event (by decide)
  | revoked => exact absurd rfl (hc _ _ _ _)
  | tagMoved state event => exact hmove state (by decide) event (by decide)

/-! ## What a command calls -/

/-- The command sets a tag of an environment. -/
def CommandLine.SetsTag (env tag : String) : CommandLine → Prop
  | .publish _ env' tag' _ _ | .rollback env' tag' _ _ => env' = env ∧ tag' = tag
  | _ => False

def CommandLine.Revokes : CommandLine → Prop
  | .revoke .. => True
  | _ => False

/-- The operations that a command may call: of events those of the lifecycle, of tags its own. -/
def CommandLine.Asks (c : CommandLine) : {γ : Type} → BackendOp γ → Prop
  | _, .appendEvent _ event =>
    event.eventKind = "tag_moved" ∨ ∃ state : LifecycleState, event.eventKind = state.eventKind
  | _, .putPointer env tag _ _ => c.SetsTag env tag
  | _, .putRevocation .. => c.Revokes
  | _, .putArtifact .. => True
  | _, .readArtifactKew _ => True
  | _, .readEvents _ => True
  | _, .putConsistency .. => True
  | _, .readConsistency _ => True

theorem calls_ensure {p : Prop} [Decidable p] {e : CommandError} : (ensure p e).Calls c.Asks := by
  unfold ensure
  split
  · exact Prog.calls_done _
  · exact Prog.calls_done _

theorem calls_ofRegistry {α : Type} (x : Except RegistryError α) : (ofRegistry x).Calls c.Asks := Prog.calls_done _

theorem calls_requireCurrentState : (requireCurrentState X hash).Calls c.Asks :=
  .bind (fun _ => calls_ofRegistry _) (Prog.calls_op trivial)

theorem calls_appendChained {build : LifecycleEvent → Except RegistryError LifecycleEvent}
    (hbuild : ∀ prior event, build prior = .ok event →
      event.eventKind = "tag_moved" ∨ ∃ state : LifecycleState, event.eventKind = state.eventKind) :
    (appendChained X hash build).Calls c.Asks := by
  unfold appendChained headEvent
  refine .bind (fun prior => ?_) (.bind (fun _ => calls_ofRegistry _) (Prog.calls_op trivial))
  cases hprior : build prior with
  | error e => exact trivial
  | ok event => exact .bind (fun _ => Prog.calls_done _) (Prog.calls_op (hbuild prior event hprior))

theorem registryTransition_kind {newState : LifecycleState} {nowUnix : UInt64} {prior event : LifecycleEvent}
    (h : registryTransition X hash newState nowUnix prior = .ok event) :
    event.eventKind = "tag_moved" ∨ ∃ state : LifecycleState, event.eventKind = state.eventKind :=
  .inr ⟨newState, (buildChainedEvent_ok h).2.2⟩

theorem calls_transition (newState : LifecycleState) (nowUnix : UInt64) :
    (appendChained X hash (registryTransition X hash newState nowUnix)).Calls c.Asks :=
  calls_appendChained fun _ _ h => registryTransition_kind h

theorem calls_derivedState (finalState : LifecycleState) : (derivedState X hash finalState).Calls c.Asks :=
  .bind (fun _ => .bind (fun _ => .bind (fun _ => Prog.calls_done _) calls_ensure) (calls_ofRegistry _))
    (Prog.calls_op trivial)

/-- What a check passes on is what it was about. -/
theorem calls_checked {α β : Type} {x : Except RegistryError α} {f : α → Command β}
    (h : ∀ a, x = .ok a → (f a).Calls c.Asks) : (ofRegistry x >>= f).Calls c.Asks := by
  cases x with
  | error e => exact trivial
  | ok a => exact h a rfl

theorem calls_storeAndRecord (artifact : Artifact) (kew : Bytes) (structuralClean : Bool) (nowUnix : UInt64) :
    (storeAndRecord X artifact kew structuralClean nowUnix).Calls c.Asks := by
  unfold storeAndRecord
  refine .bind (fun _ => calls_checked fun draft hdraft => ?_) (Prog.calls_op trivial)
  obtain ⟨_, -, rfl⟩ := signEvent_ok.1 hdraft
  refine .bind (fun _ => ?_) (Prog.calls_op (Or.inr ⟨LifecycleState.draft, rfl⟩))
  split
  · refine calls_checked fun sv hsv => .bind (fun _ => calls_derivedState _) (Prog.calls_op ?_)
    exact Or.inr ⟨_, (buildChainedEvent_ok hsv).2.2⟩
  · exact calls_derivedState _

theorem CommandLine.calls_command (c : CommandLine) : (c.command X).Calls c.Asks := by
  cases c with
  | compile document regimeId nowUnix =>
    exact .bind (fun _ => .bind (fun _ => calls_storeAndRecord _ _ _ _) (Prog.calls_done _)) (Prog.calls_done _)
  | compileIntent document regimeId nowUnix =>
    exact .bind (fun _ => .bind (fun _ => calls_storeAndRecord _ _ _ _) (Prog.calls_done _)) (Prog.calls_done _)
  | mlCheck target nowUnix =>
    show (Registry.mlCheck X target nowUnix).Calls _
    unfold Registry.mlCheck
    refine .bind (fun _ => .bind (fun _ => .bind (fun _ => .bind (fun _ => ?_) (Prog.calls_op trivial))
      (Prog.calls_op trivial)) calls_ensure) calls_requireCurrentState
    exact .bind (fun _ => .bind (fun _ => calls_requireCurrentState) (calls_transition _ _)) calls_ensure
  | attest target types nowUnix =>
    show (Registry.attest X target types nowUnix).Calls _
    unfold Registry.attest
    refine .bind (fun _ => .bind (fun _ => .bind (fun _ => .bind (fun _ => ?_) (Prog.calls_op trivial))
      calls_ensure) calls_requireCurrentState) calls_ensure
    refine .bind (fun decoded => .bind (fun attested => .bind (fun _ => .bind (fun _ => ?_)
      (calls_ofRegistry _)) (Prog.calls_op ?_)) (Prog.calls_done _)) (calls_ofRegistry _)
    · exact .bind (fun _ => .bind (fun _ => calls_requireCurrentState) (calls_transition _ _)) calls_ensure
    · exact trivial
  | publish target env tag bundle nowUnix =>
    show (Registry.publish X target env tag bundle nowUnix).Calls _
    unfold Registry.publish
    refine .bind (fun _ => .bind (fun _ => .bind (fun _ => ?_) (Prog.calls_op trivial)) calls_ensure)
      calls_requireCurrentState
    refine .bind (fun decoded => .bind (fun _ => ?_) (calls_ofRegistry _)) (calls_ofRegistry _)
    refine .bind (fun _ => .bind (fun _ => .bind (fun event => ?_) (calls_transition _ _)) calls_ensure)
      (calls_ofRegistry _)
    exact .bind (fun _ => calls_requireCurrentState) (Prog.calls_op ⟨rfl, rfl⟩)
  | deprecateArtifact target nowUnix =>
    show (Registry.deprecateArtifact X target nowUnix).Calls _
    unfold Registry.deprecateArtifact
    refine .bind (fun _ => .bind (fun _ => ?_) calls_ensure) calls_requireCurrentState
    exact .bind (fun _ => .bind (fun _ => calls_requireCurrentState) (calls_transition _ _)) calls_ensure
  | revoke target policy reasonClass reason nowUnix =>
    show (Registry.revoke X target policy reasonClass reason nowUnix).Calls _
    unfold Registry.revoke
    refine .bind (fun _ => .bind (fun _ => .bind (fun _ => ?_) calls_ensure) calls_requireCurrentState)
      (Prog.calls_done _)
    refine .bind (fun _ => .bind (fun event => ?_) (calls_transition _ _)) calls_ensure
    refine .bind (fun _ => calls_requireCurrentState) (Prog.calls_op ?_)
    exact trivial
  | rollback env tag target nowUnix =>
    show (Registry.rollback X env tag target nowUnix).Calls _
    unfold Registry.rollback
    refine .bind (fun _ => .bind (fun _ => .bind (fun event => ?_)
      (calls_appendChained fun _ _ h => .inl (buildChainedEvent_ok h).2.2)) calls_ensure) calls_requireCurrentState
    exact .bind (fun _ => calls_requireCurrentState) (Prog.calls_op ⟨rfl, rfl⟩)

/-! ## Commands that only record -/

/-- The command sets a tag or records a revocation. -/
def CommandLine.SetsOrRevokes : CommandLine → Prop
  | .publish .. | .rollback .. | .revoke .. => True
  | _ => False

/-- Such a command leaves the tags and the revocations. -/
theorem CommandLine.run_records (hc : ¬ c.SetsOrRevokes) :
    (c.run X r).2.tags = r.tags ∧ (c.run X r).2.revocations = r.revocations := by
  refine c.calls_command.preserves (P := fun r' => r'.tags = r.tags ∧ r'.revocations = r.revocations) @perform ?_
    ⟨rfl, rfl⟩
  intro γ op r' hop hr'
  cases op with
  | putArtifact | readArtifactKew | readEvents | readConsistency => exact hr'
  | appendEvent target event =>
    show (r'.appendEvent target event).2.tags = _ ∧ (r'.appendEvent target event).2.revocations = _
    unfold Backend.appendEvent
    split <;> exact hr'
  | putConsistency target block => exact hr'
  | putPointer | putRevocation =>
    refine absurd ?_ hc
    cases c with
    | publish | revoke | rollback => exact trivial
    | compile | compileIntent | mlCheck | attest | deprecateArtifact => cases hop

/-! ## Commands that set a tag or revoke -/

theorem putRevocation_new (hnone : r.revocations hash = none) (record : RevocationRecord) :
    (r.putRevocation hash record).2.revocations hash = some (.good record) := by
  unfold Backend.putRevocation putSidecar
  rw [hnone]
  exact Function.update_self ..

theorem putRevocation_other {target : Hash32} (hne : hash ≠ target) {record : RevocationRecord} :
    (r.putRevocation target record).2.revocations hash = r.revocations hash := by
  unfold Backend.putRevocation putSidecar
  cases r.revocations target with
  | none => exact Function.update_of_ne hne ..
  | some file => rfl

theorem Slot.Noticed.absent {file : Option (JsonFile RevocationRecord)} (h : s.Noticed file)
    (hstate : s.state ≠ some .revoked) : file = none := by
  cases file with
  | none => rfl
  | some file => exact absurd h.1 hstate

/-- A pointer that an event sets. -/
theorem Follows.ref {log : List LifecycleEvent} {newState : LifecycleState} {kind : String} {e : LifecycleEvent}
    (h : Follows X log newState kind e) : s!"{kind}@seq{e.seq.toNat}" = e.ref := by
  obtain ⟨-, -, -, -, rfl⟩ := h
  rfl

/-- A pointer that is there after a command was there before, or names an event that the command filed. -/
theorem CommandLine.run_tags (hX : X.Lawful) (hr : r.Ready X) {env tag : String} {file : JsonFile TagPointer}
    (h : (c.run X r).2.tags env tag = some file) : r.tags env tag = some file ∨
      ∃ target s' e, file = .good ⟨env, tag, hex32 target, e.ref⟩ ∧ (c.run X r).2.Holds target s' ∧ e ∈ s'.log ∧
        e.SetsTag := by
  -- the pointer of a command that files an event and sets a tag
  have hset : ∀ {target : Hash32} {t : Slot} {kind env' tag' : String} {e : LifecycleEvent}, r.Holds target t →
      (kind = "published" ∨ kind = "tag_moved") → Follows X t.log .published kind e →
        (c.run X r).2 = (r.fileLog target (t.log ++ [e])).putPointer env' tag' target s!"{kind}@seq{e.seq.toNat}" →
          r.tags env tag = some file ∨ ∃ target s' e, file = .good ⟨env, tag, hex32 target, e.ref⟩ ∧
            (c.run X r).2.Holds target s' ∧ e ∈ s'.log ∧ e.SetsTag := by
    intro target t kind env' tag' e ht hkind hfollows hrun
    rw [hrun, putPointer_tags] at h
    split at h
    · rename_i hname
      obtain ⟨rfl, rfl⟩ := hname
      obtain ⟨-, -, -, hnew, rfl⟩ := id hfollows
      refine .inr ⟨target, { t with log := t.log ++ [e] }, e, ?_, ?_,
        List.mem_append_right _ (List.mem_singleton_self e), hkind, hnew⟩
      · rw [← hfollows.ref]
        exact (Option.some.inj h).symm
      · rw [hrun]
        exact (ht.fileLog _).putPointer ..
    · exact .inl h
  by_cases hc : c.SetsOrRevokes
  · cases c with
    | publish target env' tag' bundle nowUnix =>
      obtain ⟨t, ht, htr⟩ := hr target
      rcases publish_changes hX ht htr.log htr.stored env' tag' bundle nowUnix with
        ⟨-, hrun⟩ | ⟨_, _, _, e, -, -, -, -, -, hfollows, hrun⟩
      · unfold CommandLine.run CommandLine.command at h
        rw [hrun] at h
        exact .inl h
      · exact hset ht (.inl rfl) hfollows hrun
    | rollback env' tag' target nowUnix =>
      obtain ⟨t, ht, htr⟩ := hr target
      rcases rollback_changes hX ht htr.log env' tag' nowUnix with hrun | ⟨e, -, hfollows, hrun⟩
      · unfold CommandLine.run CommandLine.command at h
        rw [hrun] at h
        exact .inl h
      · exact hset ht (.inr rfl) hfollows hrun
    | revoke target policy reasonClass reason nowUnix =>
      obtain ⟨t, ht, htr⟩ := hr target
      left
      unfold CommandLine.run CommandLine.command at h
      rcases revoke_changes hX ht htr.log policy reasonClass reason nowUnix with hrun | ⟨_, _, -, -, hrun⟩
      · rw [hrun] at h
        exact h
      · rw [hrun] at h
        exact h
    | compile | compileIntent | mlCheck | attest | deprecateArtifact => cases hc
  · rw [(CommandLine.run_records hc).1] at h
    exact .inl h

/-- What a command leaves as a sidecar fits what it leaves as a log. -/
theorem CommandLine.run_noticed (hX : X.Lawful) (hr : r.Ready X) (c : CommandLine) (hs : r.Holds hash s)
    (hnoticed : s.Noticed (r.revocations hash)) :
    ∃ s', (c.run X r).2.Holds hash s' ∧ s'.Noticed ((c.run X r).2.revocations hash) := by
  obtain ⟨s', hs', heffect⟩ := run_effect hX hr c hs
  refine ⟨s', hs', ?_⟩
  have hsame : (c.run X r).2.revocations hash = r.revocations hash →
      (∀ policy reasonClass reason nowUnix, c ≠ .revoke hash policy reasonClass reason nowUnix) →
        s'.Noticed ((c.run X r).2.revocations hash) := by
    intro hrevocations hc
    rw [hrevocations]
    exact heffect.noticed hc hnoticed
  by_cases hc : c.SetsOrRevokes
  · cases c with
    | publish target env tag bundle nowUnix =>
      obtain ⟨t, ht, htr⟩ := hr target
      refine hsame ?_ (fun _ _ _ _ => nofun)
      unfold CommandLine.run CommandLine.command
      rcases publish_changes hX ht htr.log htr.stored env tag bundle nowUnix with
        ⟨-, hrun⟩ | ⟨_, _, _, _, -, -, -, -, -, -, hrun⟩
      · rw [hrun]
      · rw [hrun]
        rfl
    | rollback env tag target nowUnix =>
      obtain ⟨t, ht, htr⟩ := hr target
      refine hsame ?_ (fun _ _ _ _ => nofun)
      unfold CommandLine.run CommandLine.command
      rcases rollback_changes hX ht htr.log env tag nowUnix with hrun | ⟨_, -, -, hrun⟩
      · rw [hrun]
      · rw [hrun]
        rfl
    | revoke target policy reasonClass reason nowUnix =>
      obtain ⟨t, ht, htr⟩ := hr target
      unfold CommandLine.run CommandLine.command at hs' ⊢
      rcases revoke_changes hX ht htr.log policy reasonClass reason nowUnix with
        hrun | ⟨recorded, e, hstate, hfollows, hrun⟩
      · rw [hrun] at hs' ⊢
        rw [hs'.unique hs]
        exact hnoticed
      · rw [hrun] at hs' ⊢
        by_cases htarget : hash = target
        · -- not revoked so far, so there is no sidecar, and the record is put
          subst htarget
          obtain rfl := hs.unique ht
          have hnone : r.revocations hash = none := hnoticed.absent fun hrevoked => by
            rw [hrevoked] at hstate
            rcases hstate with hstate | hstate <;> cases hstate
          have hput := putRevocation_new (r := r.fileLog hash (s.log ++ [e])) hnone
            ⟨recorded, reason, s!"revoked@seq{e.seq.toNat}", severityFor recorded, reasonClass⟩
          rw [hput, hs'.unique ((hs.fileLog _).putRevocation hash _)]
          obtain ⟨-, -, -, hnew, hkind⟩ := id hfollows
          exact ⟨hfollows.state, _, e, rfl, List.mem_append_right _ (List.mem_singleton_self e),
            ⟨hkind, hnew⟩, hfollows.ref⟩
        · rw [putRevocation_other htarget, hs'.unique ((hs.fileLog_other htarget _).putRevocation target _)]
          exact hnoticed
    | compile | compileIntent | mlCheck | attest | deprecateArtifact => cases hc
  · refine hsame (by rw [(CommandLine.run_records hc).2]) fun policy reasonClass reason nowUnix heq => ?_
    subst heq
    exact hc trivial

/-! ## Over whole runs -/

theorem CommandLine.run_traced (hX : X.Lawful) (hr : r.Ready X) (h : r.Traced) (c : CommandLine) :
    (c.run X r).2.Traced := by
  constructor
  · intro env tag file hfile
    rcases CommandLine.run_tags hX hr hfile with hold | hnew
    · obtain ⟨target, s, e, rfl, hs, he, hsets⟩ := h.tags env tag file hold
      obtain ⟨s', hs', heffect⟩ := run_effect hX hr c hs
      exact ⟨target, s', e, rfl, hs', heffect.log_prefix.subset he, hsets⟩
    · exact hnew
  · intro hash s' hs'
    obtain ⟨s, hs, -⟩ := hr hash
    obtain ⟨t', ht', hnoticed⟩ := c.run_noticed hX hr hs (h.notices hash s hs)
    rw [hs'.unique ht']
    exact hnoticed

theorem runAll_traced (hX : X.Lawful) : ∀ (commands : List CommandLine) {r : Backend}, r.Ready X → r.Traced →
    (runAll X commands r).Traced
  | [], _, _, h => h
  | c :: commands, _, hr, h => runAll_traced hX commands (c.run_ready hX hr) (c.run_traced hX hr h)

/-- The pointer of a tag is about a stored artifact, and names the event that set it. -/
structure TagProvenance (X : Externals) (r : Backend) (env tag : String) (p : TagPointer) : Prop where
  env : p.env = env
  tag : p.tag = tag
  target : ∃ hash kew log e, p.targetHash = .ok hash ∧ r.readArtifactKew hash = .ok kew ∧
    verifyHash X kew = .ok hash ∧ r.readEvents hash = .ok log ∧ e ∈ log ∧ p.eventRef = e.ref ∧ e.SetsTag

/-- Tags and revocations come from events. -/
structure Provenance (X : Externals) (r : Backend) : Prop where
  tags : ∀ env tag, r.tags env tag ≠ none → ∃ p, r.readPointer env tag = .ok (some p) ∧ TagProvenance X r env tag p
  sidecars : ∀ hash, r.revocations hash ≠ none ↔ lifecycleState X r hash = .ok (some .revoked)
  notices : ∀ hash, r.revocations hash ≠ none → ∃ record log e, r.readRevocation hash = .ok (some record) ∧
    r.readEvents hash = .ok log ∧ e ∈ log ∧ e.Revokes ∧ record.eventRef = e.ref
  resolved : ∀ selector nowUnix hash record, resolve X r selector nowUnix = .ok (hash, record) →
    (record.registryStateAtResolution = .revoked ↔ record.revocation ≠ none) ∧
      ∀ notice ∈ record.revocation, r.readRevocation hash = .ok (some notice)

theorem Backend.Traced.provenance (hX : X.Lawful) (hr : r.Ready X) (h : r.Traced) : Provenance X r := by
  have hsidecars : ∀ hash, r.revocations hash ≠ none ↔ lifecycleState X r hash = .ok (some .revoked) := by
    intro hash
    obtain ⟨s, hs, hready⟩ := hr hash
    have hnoticed := h.notices hash s hs
    rw [hready.lifecycleState hX hs]
    cases hfile : r.revocations hash with
    | none =>
      rw [hfile] at hnoticed
      exact ⟨fun hne => absurd rfl hne, fun hstate => absurd (Except.ok.inj hstate) hnoticed⟩
    | some file =>
      rw [hfile] at hnoticed
      exact ⟨fun _ => congrArg Except.ok hnoticed.1, fun _ => nofun⟩
  have hnotices : ∀ hash, r.revocations hash ≠ none → ∃ record log e, r.readRevocation hash = .ok (some record) ∧
      r.readEvents hash = .ok log ∧ e ∈ log ∧ e.Revokes ∧ record.eventRef = e.ref := by
    intro hash hne
    obtain ⟨s, hs, hready⟩ := hr hash
    obtain ⟨file, hfile⟩ := Option.ne_none_iff_exists'.1 hne
    have hnoticed := h.notices hash s hs
    rw [hfile] at hnoticed
    obtain ⟨-, record, e, rfl, he, hrevokes, href⟩ := hnoticed
    refine ⟨record, s.log, e, ?_, hready.log.readEvents hs, he, hrevokes, href⟩
    unfold Backend.readRevocation readSidecar
    rw [hfile]
    rfl
  refine ⟨?_, hsidecars, hnotices, ?_⟩
  · intro env tag hne
    obtain ⟨file, hfile⟩ := Option.ne_none_iff_exists'.1 hne
    obtain ⟨target, s, e, rfl, hs, he, hsets⟩ := h.tags env tag file hfile
    obtain ⟨s', hs', hready⟩ := hr target
    obtain rfl := hs.unique hs'
    obtain ⟨kew, hkew⟩ := hready.filed (List.ne_nil_of_mem he)
    obtain ⟨a, hstored⟩ := hready.stored kew hkew
    have hpointer : r.readPointer env tag = .ok (some ⟨env, tag, hex32 target, e.ref⟩) := by
      unfold Backend.readPointer
      rw [hfile]
      rfl
    have htarget : TagPointer.targetHash ⟨env, tag, hex32 target, e.ref⟩ = .ok target := hexToHash_hex32 target
    have hread : r.readArtifactKew target = .ok kew := congrArg Prod.fst (readArtifactKew_some hs hkew)
    exact ⟨_, hpointer, rfl, rfl, target, kew, s.log, e, htarget, hread, hstored.verifyHash,
      hready.log.readEvents hs, he, rfl, hsets⟩
  · intro selector nowUnix hash record hres
    obtain ⟨hash', -, hres⟩ := bind_ok.1 hres
    obtain ⟨events, hevents, hres⟩ := bind_ok.1 hres
    obtain ⟨found, hfound, hres⟩ := bind_ok.1 hres
    obtain ⟨state, hstate, hres⟩ := bind_ok.1 hres
    obtain ⟨m, -, hres⟩ := bind_ok.1 hres
    obtain ⟨revocation, hrevocation, hres⟩ := bind_ok.1 hres
    obtain ⟨rfl, rfl⟩ := Prod.mk.inj (pure_ok.1 hres)
    unfold Backend.revocationOf at hrevocation
    split at hrevocation
    · rename_i hrevoked
      rw [hrevoked] at hstate
      -- the log says so, so there is a sidecar
      have hlifecycle : lifecycleState X r hash' = .ok (some .revoked) := by
        refine bind_ok.2 ⟨events, hevents, hfound.trans ?_⟩
        rw [elim_throw.1 hstate]
      obtain ⟨notice, _, _, hread, -⟩ := hnotices hash' ((hsidecars hash').2 hlifecycle)
      obtain rfl := Except.ok.inj (hread.symm.trans hrevocation)
      refine ⟨⟨fun _ => nofun, fun _ => hrevoked⟩, ?_⟩
      rintro _ ⟨⟩
      exact hread
    · rename_i hnot
      cases hrevocation
      exact ⟨⟨fun h => absurd h hnot, fun h => absurd rfl h⟩, fun _ h => absurd h (Option.not_mem_none _)⟩

/-- After any run of commands, every tag and every record of a revocation comes from an event. -/
theorem runAll_provenance (hX : X.Lawful) (commands : List CommandLine) :
    Provenance X (runAll X commands .empty) :=
  (runAll_traced hX commands .empty .empty).provenance hX (runAll_ready hX commands .empty)

end

/-! ## A limit revoked -/

/-- The transfer limit, its tag set again, and revoked. -/
def revokedLife : List CommandLine :=
  transferLife ++ [.rollback "prod" "stable" transferHash 4, .revoke transferHash (some .hardStop) none none 5]

theorem runAll_provenance_revoked : Provenance standIn (runAll standIn revokedLife .empty) ∧
    ((runAll standIn revokedLife .empty).tags "prod" "stable").isSome = true ∧
    ((runAll standIn revokedLife .empty).revocations transferHash).isSome = true :=
  ⟨runAll_provenance standIn_lawful revokedLife, by decide +kernel, by decide +kernel⟩

end Ke.Registry
