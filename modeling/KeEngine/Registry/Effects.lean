/-
What one command can do to what the registry holds: of the artifact it is about one of a few
changes, whether it returns `Ok` or `Err`, and of any other artifact nothing.
-/
import KeEngine.Registry.Slots

namespace Ke.Registry

open Ke Wire Compiler

/-! ## Logs as they are found -/

/-- A log that is empty, or grown. -/
def LogOk (X : Externals) (hash : Hash32) (log : List LifecycleEvent) : Prop := log = [] ∨ Grown X hash log

section

variable {X : Externals} {hash : Hash32} {r r₁ : Backend} {s : Slot}

theorem LogOk.grown {log : List LifecycleEvent} (h : LogOk X hash log) {last : LifecycleEvent}
    (hlast : log.getLast? = some last) : Grown X hash log := by
  rcases h with rfl | h
  · cases hlast
  · exact h

theorem LogOk.readEvents (h : LogOk X hash s.log) (hs : r.Holds hash s) : r.readEvents hash = .ok s.log := by
  refine readEvents_files hs.log ?_
  rcases h with h | h
  · rw [h]
    exact List.Pairwise.nil
  · exact h.walked.increasing

theorem LogOk.currentState (hX : X.Lawful) (h : LogOk X hash s.log) : currentState X s.log = .ok s.state := by
  rcases h with h | h
  · unfold Slot.state
    rw [h]
    rfl
  · obtain ⟨last, hlast⟩ := h.exists_last
    unfold Slot.state
    rw [h.walked.currentState hX hlast, hlast]
    rfl

/-! ## Changes of one slot -/

/-- One registry is another but for one artifact, of which it holds a slot. -/
structure ChangedAt (r : Backend) (hash : Hash32) (s : Slot) (r' : Backend) : Prop where
  holds : r'.Holds hash s
  others : ∀ other t, other ≠ hash → r.Holds other t → r'.Holds other t

theorem ChangedAt.refl (h : r.Holds hash s) : ChangedAt r hash s r := ⟨h, fun _ _ _ ht => ht⟩

theorem ChangedAt.fileLog (h : ChangedAt r hash s r₁) (log : List LifecycleEvent) :
    ChangedAt r hash { s with log } (r₁.fileLog hash log) :=
  ⟨h.holds.fileLog log, fun other t hne ht => (h.others other t hne ht).fileLog_other hne log⟩

theorem ChangedAt.putArtifact (h : ChangedAt r hash s r₁) (kew : Bytes) :
    ChangedAt r hash { s with kew := some kew } (r₁.putArtifact hash kew) :=
  ⟨h.holds.putArtifact kew, fun other t hne ht => (h.others other t hne ht).putArtifact_other hne kew⟩

theorem ChangedAt.fileConsistency (h : ChangedAt r hash s r₁) (block : ConsistencyBlock) :
    ChangedAt r hash { s with sidecar := some (.good block) } (r₁.fileConsistency hash block) :=
  ⟨h.holds.fileConsistency block, fun other t hne ht => (h.others other t hne ht).fileConsistency_other hne block⟩

theorem ChangedAt.putPointer (h : ChangedAt r hash s r₁) (env tag : String) (target : Hash32) (eventRef : String) :
    ChangedAt r hash s (r₁.putPointer env tag target eventRef) :=
  ⟨h.holds.putPointer env tag target eventRef,
    fun other t hne ht => (h.others other t hne ht).putPointer env tag target eventRef⟩

theorem ChangedAt.putRevocation (h : ChangedAt r hash s r₁) (target : Hash32) (record : RevocationRecord) :
    ChangedAt r hash s (r₁.putRevocation target record).2 :=
  ⟨h.holds.putRevocation target record, fun other t hne ht => (h.others other t hne ht).putRevocation target record⟩

/-! ## Steps of a command -/

section

variable {α β : Type} {f : α → Command β} {Q : Except CommandError β → Backend → Prop}

theorem wp_ensure {c : Prop} [Decidable c] {e : CommandError} {f : Unit → Command β} (herr : ∀ e, Q (.error e) r)
    (h : c → (f ()).wp perform Q r) : (ensure c e >>= f).wp perform Q r := by
  unfold ensure
  by_cases hc : c
  · rw [if_pos hc]
    exact h hc
  · rw [if_neg hc]
    exact herr e

theorem wp_ofExcept {x : Except CommandError α} (herr : ∀ e, Q (.error e) r)
    (h : ∀ a, x = .ok a → (f a).wp perform Q r) : (Prog.ofExcept x >>= f).wp perform Q r := by
  cases x with
  | error e => exact herr e
  | ok a => exact h a rfl

theorem wp_ofRegistry {x : Except RegistryError α} (herr : ∀ e, Q (.error e) r)
    (h : ∀ a, x = .ok a → (f a).wp perform Q r) : (ofRegistry x >>= f).wp perform Q r := by
  cases x with
  | error e => exact herr _
  | ok a => exact h a rfl

/-- An operation that succeeds. -/
theorem wp_op {op : BackendOp α} {a : α} (hop : exec op r = (.ok a, r₁)) (h : (f a).wp perform Q r₁) :
    (Prog.op op >>= f).wp perform Q r := by
  refine Prog.wp_call perform ?_ h
  unfold perform
  rw [hop]
  rfl

/-- An operation that fails. -/
theorem wp_op_error {op : BackendOp α} {e : RegistryError} (hop : exec op r = (.error e, r₁))
    (h : ∀ e, Q (.error e) r₁) : (Prog.op op >>= f).wp perform Q r := by
  refine Prog.wp_call_error perform ?_ (h (.registry e))
  unfold perform
  rw [hop]
  rfl

/-- An operation after which it does not matter whether it failed. -/
theorem wp_op_either {op : BackendOp α} (herr : ∀ e, Q (.error e) (exec op r).2)
    (h : ∀ a, (f a).wp perform Q (exec op r).2) : (Prog.op op >>= f).wp perform Q r := by
  rcases hop : exec op r with ⟨e | a, r₁⟩
  · rw [hop] at herr
    exact wp_op_error hop herr
  · rw [hop] at h
    exact wp_op hop (h a)

theorem wp_requireCurrentState {f : LifecycleState → Command β} (hX : X.Lawful) (hs : r.Holds hash s)
    (hlog : LogOk X hash s.log) (herr : ∀ e, Q (.error e) r)
    (h : ∀ state, s.state = some state → (f state).wp perform Q r) :
    (requireCurrentState X hash >>= f).wp perform Q r := by
  unfold requireCurrentState
  rw [Prog.bind_assoc]
  refine wp_op (congrArg (·, r) (hlog.readEvents hs)) (wp_ofRegistry herr fun state hstate => h state ?_)
  rw [hlog.currentState hX] at hstate
  cases hs' : s.state with
  | none => rw [hs'] at hstate; cases hstate
  | some state' => rw [hs'] at hstate; cases hstate; rfl

/-- Reading the state at the end changes nothing. -/
theorem wp_finalState {Q : Except CommandError LifecycleState → Backend → Prop} (h : ∀ result, Q result r) :
    (requireCurrentState X hash).wp perform Q r := by
  unfold requireCurrentState
  cases hread : r.readEvents hash with
  | error e => exact wp_op_error (congrArg (·, r) hread) fun _ => h _
  | ok events => exact wp_op (congrArg (·, r) hread) (h _)

/-- Neither does deriving it. -/
theorem wp_derivedState {Q : Except CommandError LifecycleState → Backend → Prop} {finalState : LifecycleState}
    (h : ∀ result, Q result r) : (derivedState X hash finalState).wp perform Q r := by
  unfold derivedState
  refine wp_op_either (fun _ => h _) fun events => wp_ofRegistry (fun _ => h _) fun derived _ => ?_
  exact wp_ensure (fun _ => h _) fun _ => h _

/-- An event is built on the head of the log and filed after it. -/
theorem wp_appendChained {f : LifecycleEvent → Command β} {build : LifecycleEvent → Except RegistryError LifecycleEvent}
    (hX : X.Lawful) (hs : r.Holds hash s) (hlog : LogOk X hash s.log)
    (hbuild : ∀ prior e, build prior = .ok e → ChainedOn X prior e) (herr : ∀ e, Q (.error e) r)
    (h : ∀ prior e, s.log.getLast? = some prior → build prior = .ok e →
      (f e).wp perform Q (r.fileLog hash (s.log ++ [e]))) :
    (appendChained X hash build >>= f).wp perform Q r := by
  unfold appendChained headEvent
  rw [Prog.bind_assoc, Prog.bind_assoc]
  refine wp_op (congrArg (·, r) (hlog.readEvents hs)) (wp_ofRegistry herr fun prior hprior => ?_)
  have hlast : s.log.getLast? = some prior := by
    rw [hlog.currentState hX] at hprior
    cases hl : s.log.getLast? with
    | none => rw [hl] at hprior; cases hprior
    | some last => rw [hl] at hprior; cases hprior; rfl
  rw [Prog.bind_assoc]
  refine wp_ofRegistry herr fun e he => ?_
  rw [Prog.bind_assoc]
  refine wp_op (appendEvent_chained hs.log (hlog.grown hlast).walked hlast (hbuild prior e he)) ?_
  exact h prior e hlast he

end

/-! ## The change a command makes -/

/-- An event that takes a log on, to a state under a kind. -/
def Follows (X : Externals) (log : List LifecycleEvent) (newState : LifecycleState) (kind : String)
    (e : LifecycleEvent) : Prop :=
  ∃ prior, log.getLast? = some prior ∧ ChainedOn X prior e ∧ e.newState = newState ∧ e.eventKind = kind

/-- The artifact that a compile command assembles. -/
def CommandLine.Assembles (X : Externals) (a : Artifact) (kew : Bytes) : CommandLine → Prop
  | .compile document regimeId _ => ∃ d, document = .ok d ∧ assembleRules X d regimeId = .ok (a, kew)
  | .compileIntent document regimeId _ => ∃ d, document = .ok d ∧ assembleIntentSpec X d regimeId = .ok (a, kew)
  | _ => False

/-- What a command does to the slot of an artifact. -/
inductive Effect (X : Externals) (hash : Hash32) : CommandLine → Slot → Slot → Prop
  | none {c : CommandLine} {s : Slot} : Effect X hash c s s
  /-- compiled again: the bytes are written, the draft is refused -/
  | refiled {c : CommandLine} {s : Slot} {a : Artifact} {kew : Bytes} (made : c.Assembles X a kew)
      (address : a.manifest.artifactHash = hash) : Effect X hash c s { s with kew := some kew }
  | drafted {c : CommandLine} {s : Slot} {a : Artifact} {kew : Bytes} {log : List LifecycleEvent}
      (made : c.Assembles X a kew) (address : a.manifest.artifactHash = hash) (empty : s.log = [])
      (grown : Grown X hash log)
      (states : log.map (·.newState) = [.draft] ∨ log.map (·.newState) = [.draft, .structurallyVerified]) :
      Effect X hash c s { s with kew := some kew, log }
  /-- the sidecar is written, the event is not -/
  | evidence {s : Slot} {nowUnix : UInt64} {block : ConsistencyBlock} (state : s.state = some .structurallyVerified) :
      Effect X hash (.mlCheck hash nowUnix) s { s with sidecar := some (.good block) }
  | mlChecked {s : Slot} {nowUnix : UInt64} {block : ConsistencyBlock} {e : LifecycleEvent}
      (state : s.state = some .structurallyVerified) (event : Follows X s.log .mlChecked "ml_checked" e) :
      Effect X hash (.mlCheck hash nowUnix) s { s with sidecar := some (.good block), log := s.log ++ [e] }
  /-- the attested bytes are written, the event is not -/
  | attestedBytes {s : Slot} {types : List AttestationType} {nowUnix : UInt64} {kew kew' : Bytes} {a a' : Artifact}
      (state : s.state = some .mlChecked) (kew_eq : s.kew = some kew) (stored : Stored X hash kew a)
      (attested : attestArtifact X a types nowUnix = .ok (a', kew')) :
      Effect X hash (.attest hash types nowUnix) s { s with kew := some kew' }
  | expertAttested {s : Slot} {types : List AttestationType} {nowUnix : UInt64} {kew kew' : Bytes} {a a' : Artifact}
      {e : LifecycleEvent} (state : s.state = some .mlChecked) (kew_eq : s.kew = some kew)
      (stored : Stored X hash kew a) (attested : attestArtifact X a types nowUnix = .ok (a', kew'))
      (event : Follows X s.log .expertAttested "expert_attested" e) :
      Effect X hash (.attest hash types nowUnix) s { s with kew := some kew', log := s.log ++ [e] }
  | published {s : Slot} {env tag : String} {bundle : Option (Except String VerificationPolicy)} {nowUnix : UInt64}
      {kew : Bytes} {a : Artifact} {policy : VerificationPolicy} {e : LifecycleEvent}
      (state : s.state = some .expertAttested) (kew_eq : s.kew = some kew) (stored : Stored X hash kew a)
      (policy_eq : resolvePolicy bundle a.manifest.artifactKind = .ok policy)
      (accepted : verifyAttestationSet X a policy (testExpertKeyDirectory X) (localPolicyContext nowUnix) = .ok ())
      (event : Follows X s.log .published "published" e) :
      Effect X hash (.publish hash env tag bundle nowUnix) s { s with log := s.log ++ [e] }
  | deprecated {s : Slot} {nowUnix : UInt64} {e : LifecycleEvent} (state : s.state = some .published)
      (event : Follows X s.log .deprecated "deprecated" e) :
      Effect X hash (.deprecateArtifact hash nowUnix) s { s with log := s.log ++ [e] }
  | revoked {s : Slot} {policy : Option RevocationPolicy} {reasonClass : Option RevocationReasonClass}
      {reason : Option String} {nowUnix : UInt64} {e : LifecycleEvent}
      (state : s.state = some .published ∨ s.state = some .deprecated) (event : Follows X s.log .revoked "revoked" e) :
      Effect X hash (.revoke hash policy reasonClass reason nowUnix) s { s with log := s.log ++ [e] }
  | tagMoved {s : Slot} {env tag : String} {nowUnix : UInt64} {e : LifecycleEvent} (state : s.state = some .published)
      (event : Follows X s.log .published "tag_moved" e) :
      Effect X hash (.rollback env tag hash nowUnix) s { s with log := s.log ++ [e] }

/-- A command changed one slot, by its effect, and `Err` without one leaves the slot as it is. -/
def Outcome (X : Externals) (hash : Hash32) (c : CommandLine) (r : Backend) (s : Slot) (r' : Backend) : Prop :=
  ∃ s', ChangedAt r hash s' r' ∧ Effect X hash c s s'

section

variable {hash : Hash32} {r : Backend} {s : Slot}

theorem Outcome.none (hs : r.Holds hash s) (c : CommandLine) : Outcome X hash c r s r := ⟨s, .refl hs, .none⟩

theorem registryTransition_ok {newState : LifecycleState} {nowUnix : UInt64} {prior e : LifecycleEvent}
    (h : registryTransition X hash newState nowUnix prior = .ok e) : ChainedOn X prior e :=
  (buildChainedEvent_ok h).1

theorem registryTransition_follows {newState : LifecycleState} {nowUnix : UInt64} {prior e : LifecycleEvent}
    {log : List LifecycleEvent} (hlast : log.getLast? = some prior)
    (h : registryTransition X hash newState nowUnix prior = .ok e) : Follows X log newState newState.eventKind e :=
  ⟨prior, hlast, buildChainedEvent_ok h⟩

variable (hX : X.Lawful) (hs : r.Holds hash s) (hlog : LogOk X hash s.log)
include hX hs hlog

theorem mlCheck_outcome (nowUnix : UInt64) :
    (mlCheck X hash nowUnix).wp perform (fun _ => Outcome X hash (.mlCheck hash nowUnix) r s) r := by
  have hnone := Outcome.none (X := X) hs (.mlCheck hash nowUnix)
  unfold mlCheck
  refine wp_requireCurrentState hX hs hlog (fun _ => hnone) fun prior hstate => ?_
  refine wp_ensure (fun _ => hnone) fun hprior => ?_
  subst hprior
  cases hsidecar : s.sidecar with
  | some file => exact wp_op_error (putConsistency_exists hs hsidecar _) fun _ => hnone
  | none =>
    refine wp_op (putConsistency_new hs hsidecar _) ?_
    -- the sidecar stays, whatever happens to the event
    have hchanged := (ChangedAt.refl hs).fileConsistency (devConsistencyBlock nowUnix)
    have hevidence : Outcome X hash (.mlCheck hash nowUnix) r s
        (r.fileConsistency hash (devConsistencyBlock nowUnix)) := ⟨_, hchanged, .evidence hstate⟩
    refine wp_op_either (fun _ => hevidence) fun sidecar => ?_
    refine wp_ensure (fun _ => hevidence) fun _ => ?_
    refine wp_appendChained hX hchanged.holds hlog (fun _ _ => registryTransition_ok) (fun _ => hevidence) ?_
    intro prior e hlast he
    exact wp_finalState fun _ => ⟨_, hchanged.fileLog _, .mlChecked hstate (registryTransition_follows hlast he)⟩

theorem deprecateArtifact_outcome (nowUnix : UInt64) :
    (deprecateArtifact X hash nowUnix).wp perform
    (fun _ => Outcome X hash (.deprecateArtifact hash nowUnix) r s) r := by
  have hnone := Outcome.none (X := X) hs (.deprecateArtifact hash nowUnix)
  unfold deprecateArtifact
  refine wp_requireCurrentState hX hs hlog (fun _ => hnone) fun prior hstate => ?_
  refine wp_ensure (fun _ => hnone) fun hprior => ?_
  subst hprior
  refine wp_ensure (fun _ => hnone) fun _ => ?_
  refine wp_appendChained hX hs hlog (fun _ _ => registryTransition_ok) (fun _ => hnone) ?_
  intro prior e hlast he
  exact wp_finalState fun _ =>
    ⟨_, (ChangedAt.refl hs).fileLog _, .deprecated hstate (registryTransition_follows hlast he)⟩

/-- Revoking changes nothing, or the event is there and the record was put. -/
theorem revoke_changes (policy : Option RevocationPolicy) (reasonClass : Option RevocationReasonClass)
    (reason : Option String) (nowUnix : UInt64) :
    (revoke X hash policy reasonClass reason nowUnix).wp perform (fun _ r' => r' = r ∨
      ∃ recorded e, (s.state = some .published ∨ s.state = some .deprecated) ∧ Follows X s.log .revoked "revoked" e ∧
        r' = ((r.fileLog hash (s.log ++ [e])).putRevocation hash
          ⟨recorded, reason, s!"revoked@seq{e.seq.toNat}", severityFor recorded, reasonClass⟩).2) r := by
  unfold revoke
  refine wp_ofExcept (fun _ => .inl rfl) fun recorded _ => ?_
  refine wp_requireCurrentState hX hs hlog (fun _ => .inl rfl) fun prior hstate => ?_
  refine wp_ensure (fun _ => .inl rfl) fun hprior => ?_
  refine wp_ensure (fun _ => .inl rfl) fun _ => ?_
  refine wp_appendChained hX hs hlog (fun _ _ => registryTransition_ok) (fun _ => .inl rfl) ?_
  intro head e hlast he
  have hfollows := registryTransition_follows hlast he
  have hstates : s.state = some .published ∨ s.state = some .deprecated := by
    rcases hprior with rfl | rfl
    · exact .inl hstate
    · exact .inr hstate
  -- the event is there, whether the record is written or refused
  exact wp_op_either (fun _ => .inr ⟨recorded, e, hstates, hfollows, rfl⟩) fun _ =>
    wp_finalState fun _ => .inr ⟨recorded, e, hstates, hfollows, rfl⟩

theorem revoke_outcome (policy : Option RevocationPolicy) (reasonClass : Option RevocationReasonClass)
    (reason : Option String) (nowUnix : UInt64) :
    (revoke X hash policy reasonClass reason nowUnix).wp perform
      (fun _ => Outcome X hash (.revoke hash policy reasonClass reason nowUnix) r s) r := by
  rcases revoke_changes hX hs hlog policy reasonClass reason nowUnix with h | ⟨recorded, e, hstate, hfollows, h⟩
  · refine ⟨s, ?_, .none⟩
    rw [h]
    exact .refl hs
  · refine ⟨_, ?_, .revoked hstate hfollows⟩
    rw [h]
    exact ((ChangedAt.refl hs).fileLog _).putRevocation hash _

/-- Rolling back changes nothing, or the event is there and the pointer is set. -/
theorem rollback_changes (env tag : String) (nowUnix : UInt64) :
    (rollback X env tag hash nowUnix).wp perform (fun _ r' => r' = r ∨
      ∃ e, s.state = some .published ∧ Follows X s.log .published "tag_moved" e ∧
        r' = (r.fileLog hash (s.log ++ [e])).putPointer env tag hash s!"tag_moved@seq{e.seq.toNat}") r := by
  unfold rollback
  refine wp_requireCurrentState hX hs hlog (fun _ => .inl rfl) fun state hstate => ?_
  refine wp_ensure (fun _ => .inl rfl) fun heligible => ?_
  obtain rfl := of_decide_eq_true heligible
  refine wp_appendChained hX hs hlog (fun _ _ h => (buildChainedEvent_ok h).1) (fun _ => .inl rfl) ?_
  intro prior e hlast he
  obtain ⟨hchained, hnew, hkind⟩ := buildChainedEvent_ok he
  refine wp_op rfl (wp_finalState fun _ => .inr ⟨e, hstate, ?_, rfl⟩)
  -- the move keeps the state of the head
  have hprior : prior.newState = .published := by
    unfold Slot.state at hstate
    rw [hlast] at hstate
    exact Option.some.inj hstate
  exact ⟨prior, hlast, hchained, hnew.trans hprior, hkind⟩

theorem rollback_outcome (env tag : String) (nowUnix : UInt64) :
    (rollback X env tag hash nowUnix).wp perform (fun _ => Outcome X hash (.rollback env tag hash nowUnix) r s) r := by
  rcases rollback_changes hX hs hlog env tag nowUnix with h | ⟨e, hstate, hfollows, h⟩
  · refine ⟨s, ?_, .none⟩
    rw [h]
    exact .refl hs
  · refine ⟨_, ?_, .tagMoved hstate hfollows⟩
    rw [h]
    exact ((ChangedAt.refl hs).fileLog _).putPointer ..

omit hX in
/-- Storing an assembled artifact: its bytes are written, and an empty log gets a draft. -/
theorem storeAndRecord_changes {a : Artifact} (address : a.manifest.artifactHash = hash) (kew : Bytes)
    (structuralClean : Bool) (nowUnix : UInt64) :
    (storeAndRecord X a kew structuralClean nowUnix).wp perform (fun _ r' => ∃ s', ChangedAt r hash s' r' ∧
      (s' = { s with kew := some kew } ∨ s.log = [] ∧ ∃ log, Grown X hash log ∧
        (log.map (·.newState) = [.draft] ∨ log.map (·.newState) = [.draft, .structurallyVerified]) ∧
        s' = { s with kew := some kew, log })) r := by
  subst address
  unfold storeAndRecord
  have hput := (ChangedAt.refl hs).putArtifact kew
  refine wp_op rfl (wp_ofRegistry (fun _ => ⟨_, hput, .inl rfl⟩) fun draft hdraft => ?_)
  obtain ⟨hgrown, hstate⟩ := buildDraftEvent_ok hdraft
  rcases hlog with hempty | hlog
  · -- the first compilation of the artifact
    have hnofiles : (r.putArtifact a.manifest.artifactHash kew).events a.manifest.artifactHash = [] := by
      rw [hput.holds.log, hempty]
      rfl
    have happend : exec (.appendEvent a.manifest.artifactHash draft) (r.putArtifact a.manifest.artifactHash kew) =
        (.ok (), (r.putArtifact a.manifest.artifactHash kew).fileLog a.manifest.artifactHash [draft]) := by
      show Backend.appendEvent _ _ _ = _
      unfold Backend.appendEvent
      rw [hnofiles, if_neg (by simp)]
      rfl
    refine wp_op happend ?_
    have hdrafted := hput.fileLog [draft]
    have hdraftOnly : ∃ s', ChangedAt r a.manifest.artifactHash s'
        ((r.putArtifact a.manifest.artifactHash kew).fileLog a.manifest.artifactHash [draft]) ∧
          (s' = { s with kew := some kew } ∨ s.log = [] ∧ ∃ log, Grown X a.manifest.artifactHash log ∧
            (log.map (·.newState) = [.draft] ∨ log.map (·.newState) = [.draft, .structurallyVerified]) ∧
            s' = { s with kew := some kew, log }) :=
      ⟨_, hdrafted, .inr ⟨hempty, [draft], hgrown, .inl (by rw [List.map_singleton, hstate]), rfl⟩⟩
    show (if canTransition .draft .structurallyVerified (structuralPreconditions X kew structuralClean) = true then
      (_ : Command LifecycleState) else _).wp perform _ _
    split
    · rename_i hpre
      refine wp_ofRegistry (fun _ => hdraftOnly) fun sv hsv => ?_
      obtain ⟨hchained, hnew, hkind⟩ := buildChainedEvent_ok hsv
      refine wp_op (appendEvent_chained hdrafted.holds.log hgrown.walked rfl hchained) (wp_derivedState fun _ => ?_)
      refine ⟨_, hdrafted.fileLog ([draft] ++ [sv]), .inr ⟨hempty, [draft] ++ [sv], ?_, .inr ?_, rfl⟩⟩
      · refine @Grown.move X _ [draft] draft sv hgrown rfl hchained ?_
        rw [hstate, hnew, hkind]
        exact .edge hpre
      · rw [List.map_append, List.map_singleton, List.map_singleton, hstate, hnew]
        rfl
    · exact wp_derivedState fun _ => hdraftOnly
  · -- compiled before: the log keeps its own draft
    exact wp_op_error (appendEvent_draft hput.holds.log hlog hgrown) fun _ => ⟨_, hput, .inl rfl⟩

variable (hstored : ∀ kew, s.kew = some kew → ∃ a, Stored X hash kew a)
include hstored

theorem attest_outcome (types : List AttestationType) (nowUnix : UInt64) :
    (attest X hash types nowUnix).wp perform (fun _ => Outcome X hash (.attest hash types nowUnix) r s) r := by
  have hnone := Outcome.none (X := X) hs (.attest hash types nowUnix)
  unfold attest
  refine wp_ensure (fun _ => hnone) fun _ => ?_
  refine wp_requireCurrentState hX hs hlog (fun _ => hnone) fun prior hstate => ?_
  refine wp_ensure (fun _ => hnone) fun hprior => ?_
  subst hprior
  cases hkew : s.kew with
  | none => exact wp_op_error (readArtifactKew_none hs hkew) fun _ => hnone
  | some kew =>
    obtain ⟨a, ha⟩ := hstored kew hkew
    obtain ⟨n, hdec, -⟩ := ha.decode
    refine wp_op (readArtifactKew_some hs hkew) (wp_ofRegistry (fun _ => hnone) fun decoded hdecoded => ?_)
    rw [mapError_ok, hdec] at hdecoded
    cases hdecoded
    refine wp_ofExcept (fun _ => hnone) fun attested hattested => ?_
    obtain ⟨a', kew'⟩ := attested
    refine wp_op rfl ?_
    rw [ha.address]
    have hput := (ChangedAt.refl hs).putArtifact kew'
    have hbytes : Outcome X hash (.attest hash types nowUnix) r s (r.putArtifact hash kew') :=
      ⟨_, hput, .attestedBytes hstate hkew ha hattested⟩
    refine wp_ofRegistry (fun _ => hbytes) fun _ _ => ?_
    refine wp_ensure (fun _ => hbytes) fun _ => ?_
    refine wp_appendChained hX hput.holds hlog (fun _ _ => registryTransition_ok) (fun _ => hbytes) ?_
    intro prior e hlast he
    exact wp_finalState fun _ => ⟨_, hput.fileLog _,
      .expertAttested hstate hkew ha hattested (registryTransition_follows hlast he)⟩

/-- Publishing fails and changes nothing, or the set was accepted, the event is there and the pointer
is set. -/
theorem publish_changes (env tag : String) (bundle : Option (Except String VerificationPolicy)) (nowUnix : UInt64) :
    (publish X hash env tag bundle nowUnix).wp perform (fun result r' =>
      (∃ e, result = .error e) ∧ r' = r ∨
        ∃ kew a policy e, s.state = some .expertAttested ∧ s.kew = some kew ∧ Stored X hash kew a ∧
          resolvePolicy bundle a.manifest.artifactKind = .ok policy ∧
          verifyAttestationSet X a policy (testExpertKeyDirectory X) (localPolicyContext nowUnix) = .ok () ∧
          Follows X s.log .published "published" e ∧
          r' = (r.fileLog hash (s.log ++ [e])).putPointer env tag hash s!"published@seq{e.seq.toNat}") r := by
  have herr : ∀ e : CommandError, (∃ e', (.error e : Except CommandError LifecycleState) = .error e') ∧ r = r :=
    fun e => ⟨⟨e, rfl⟩, rfl⟩
  unfold publish
  refine wp_requireCurrentState hX hs hlog (fun e => .inl (herr e)) fun prior hstate => ?_
  refine wp_ensure (fun e => .inl (herr e)) fun hprior => ?_
  subst hprior
  rcases Option.eq_none_or_eq_some s.kew with hkew | ⟨kew, hkew⟩
  · exact wp_op_error (readArtifactKew_none hs hkew) fun e => .inl (herr e)
  · obtain ⟨a, ha⟩ := hstored kew hkew
    obtain ⟨n, hdec, -⟩ := ha.decode
    refine wp_op (readArtifactKew_some hs hkew) (wp_ofRegistry (fun e => .inl (herr e)) fun decoded hdecoded => ?_)
    rw [mapError_ok, hdec] at hdecoded
    cases hdecoded
    refine wp_ofRegistry (fun e => .inl (herr e)) fun policy hpolicy => ?_
    refine wp_ofRegistry (fun e => .inl (herr e)) fun _ haccepted => ?_
    refine wp_ensure (fun e => .inl (herr e)) fun _ => ?_
    refine wp_appendChained hX hs hlog (fun _ _ => registryTransition_ok) (fun e => .inl (herr e)) ?_
    intro prior e hlast he
    refine wp_op rfl (wp_finalState fun _ => .inr ⟨kew, a, policy, e, hstate, hkew, ha, hpolicy, ?_, ?_, rfl⟩)
    · exact mapError_ok.1 haccepted
    · exact registryTransition_follows hlast he

theorem publish_outcome (env tag : String) (bundle : Option (Except String VerificationPolicy)) (nowUnix : UInt64) :
    (publish X hash env tag bundle nowUnix).wp perform
      (fun _ => Outcome X hash (.publish hash env tag bundle nowUnix) r s) r := by
  rcases publish_changes hX hs hlog hstored env tag bundle nowUnix with
    ⟨-, h⟩ | ⟨kew, a, policy, e, hstate, hkew, ha, hpolicy, haccepted, hfollows, h⟩
  · refine ⟨s, ?_, .none⟩
    rw [h]
    exact .refl hs
  · refine ⟨_, ?_, .published hstate hkew ha hpolicy haccepted hfollows⟩
    rw [h]
    exact ((ChangedAt.refl hs).fileLog _).putPointer ..

end

/-! ## The registry between commands -/

/-- What the registry holds of an artifact between commands: no log or a grown one, with bytes that
were assembled for the address, and with a sidecar once the log says so. -/
structure Slot.Ready (X : Externals) (hash : Hash32) (s : Slot) : Prop where
  log : LogOk X hash s.log
  stored : ∀ kew, s.kew = some kew → ∃ a, Stored X hash kew a
  filed : s.log ≠ [] → ∃ kew, s.kew = some kew
  sidecar : ∀ e ∈ s.log, e.newState = .mlChecked → ∃ block, s.sidecar = some (.good block)

/-- Every slot is ready. -/
def Backend.Ready (X : Externals) (r : Backend) : Prop := ∀ hash, ∃ s, r.Holds hash s ∧ s.Ready X hash

theorem Backend.Ready.empty : Backend.Ready X Backend.empty := by
  intro hash
  refine ⟨⟨none, [], none⟩, ⟨List.lookup_nil, rfl, rfl⟩, ⟨.inl rfl, ?_, ?_, ?_⟩⟩
  · intro kew h
    cases h
  · exact fun h => absurd rfl h
  · intro e he
    cases he

section

variable {hash : Hash32} {r : Backend} {s : Slot}

theorem assembleRules_stored {document : YamlNode} {regimeId : String} {a : Artifact} {kew : Bytes}
    (h : assembleRules X document regimeId = .ok (a, kew)) :
    Stored X a.manifest.artifactHash kew a ∧ a.attestations = [] := by
  obtain ⟨rules, -, h⟩ := bind_ok.1 h
  obtain ⟨-, h⟩ := throw_else.1 h
  obtain ⟨seedBytes, -, h⟩ := bind_ok.1 h
  exact Stored.of_assembled (mapError_ok.1 h) nofun

theorem assembleIntentSpec_stored {document : IntentSpecInput} {regimeId : String} {a : Artifact} {kew : Bytes}
    (h : assembleIntentSpec X document regimeId = .ok (a, kew)) :
    Stored X a.manifest.artifactHash kew a ∧ a.attestations = [] := by
  obtain ⟨ir, -, h⟩ := bind_ok.1 h
  obtain ⟨seedBytes, -, h⟩ := bind_ok.1 h
  exact Stored.of_assembled (mapError_ok.1 h) rfl

/-- What is assembled has no attestations. -/
theorem CommandLine.Assembles.stored {c : CommandLine} {a : Artifact} {kew : Bytes} (h : c.Assembles X a kew) :
    Stored X a.manifest.artifactHash kew a ∧ a.attestations = [] := by
  cases c with
  | compile document regimeId nowUnix =>
    obtain ⟨d, -, h⟩ := h
    exact assembleRules_stored h
  | compileIntent document regimeId nowUnix =>
    obtain ⟨d, -, h⟩ := h
    exact assembleIntentSpec_stored h
  | mlCheck | attest | publish | deprecateArtifact | revoke | rollback => cases h

/-- A command about one artifact leaves the slots of the others. -/
theorem Outcome.holds {target : Hash32} {c : CommandLine} {r' : Backend} {t : Slot}
    (h : Outcome X target c r t r') (ht : r.Holds target t) (hs : r.Holds hash s) :
    ∃ s', r'.Holds hash s' ∧ Effect X hash c s s' := by
  obtain ⟨t', hchanged, heffect⟩ := h
  by_cases heq : hash = target
  · subst heq
    rw [hs.unique ht]
    exact ⟨t', hchanged.holds, heffect⟩
  · exact ⟨s, hchanged.others hash s heq hs, .none⟩

/-- An assembled artifact that is stored and recorded. -/
theorem storeAndRecord_outcome (hr : r.Ready X) {c : CommandLine} {a : Artifact} {kew : Bytes}
    (hmade : c.Assembles X a kew) (nowUnix : UInt64) (hs : r.Holds hash s) :
    (storeAndRecord X a kew true nowUnix).wp perform (fun _ r' => ∃ s', r'.Holds hash s' ∧ Effect X hash c s s') r := by
  obtain ⟨t, ht, htr⟩ := hr a.manifest.artifactHash
  obtain ⟨t', hchanged, h⟩ := storeAndRecord_changes ht htr.log rfl kew true nowUnix
  refine Outcome.holds ⟨t', hchanged, ?_⟩ ht hs
  rcases h with rfl | ⟨hempty, log, hgrown, hstates, rfl⟩
  · exact .refiled hmade rfl
  · exact .drafted hmade rfl hempty hgrown hstates

/-- Every command has its effect on every slot. -/
theorem run_effect (hX : X.Lawful) (hr : r.Ready X) (c : CommandLine) (hs : r.Holds hash s) :
    ∃ s', (c.run X r).2.Holds hash s' ∧ Effect X hash c s s' := by
  have hnone : ∃ s', r.Holds hash s' ∧ Effect X hash c s s' := ⟨s, hs, .none⟩
  have hwp : (c.command X).wp perform (fun _ r' => ∃ s', r'.Holds hash s' ∧ Effect X hash c s s') r := by
    cases c with
    | compile document regimeId nowUnix =>
      unfold CommandLine.command compile
      refine wp_ofExcept (fun _ => hnone) fun d hd => wp_ofExcept (fun _ => hnone) fun made hmade => ?_
      have hassembles : (CommandLine.compile document regimeId nowUnix).Assembles X made.1 made.2 :=
        ⟨d, mapError_ok.1 hd, hmade⟩
      exact storeAndRecord_outcome hr hassembles nowUnix hs
    | compileIntent document regimeId nowUnix =>
      unfold CommandLine.command compileIntent
      refine wp_ofExcept (fun _ => hnone) fun d hd => wp_ofExcept (fun _ => hnone) fun made hmade => ?_
      have hassembles : (CommandLine.compileIntent document regimeId nowUnix).Assembles X made.1 made.2 :=
        ⟨d, mapError_ok.1 hd, hmade⟩
      exact storeAndRecord_outcome hr hassembles nowUnix hs
    | mlCheck target nowUnix =>
      obtain ⟨t, ht, htr⟩ := hr target
      exact Outcome.holds (mlCheck_outcome hX ht htr.log nowUnix) ht hs
    | attest target types nowUnix =>
      obtain ⟨t, ht, htr⟩ := hr target
      exact Outcome.holds (attest_outcome hX ht htr.log htr.stored types nowUnix) ht hs
    | publish target env tag bundle nowUnix =>
      obtain ⟨t, ht, htr⟩ := hr target
      exact Outcome.holds (publish_outcome hX ht htr.log htr.stored env tag bundle nowUnix) ht hs
    | deprecateArtifact target nowUnix =>
      obtain ⟨t, ht, htr⟩ := hr target
      exact Outcome.holds (deprecateArtifact_outcome hX ht htr.log nowUnix) ht hs
    | revoke target policy reasonClass reason nowUnix =>
      obtain ⟨t, ht, htr⟩ := hr target
      exact Outcome.holds (revoke_outcome hX ht htr.log policy reasonClass reason nowUnix) ht hs
    | rollback env tag target nowUnix =>
      obtain ⟨t, ht, htr⟩ := hr target
      exact Outcome.holds (rollback_outcome hX ht htr.log env tag nowUnix) ht hs
  exact hwp

end

end

end Ke.Registry
