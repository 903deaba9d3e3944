/-
Two lifecycle commands on one artifact, one operation of one of them at a time. A command reads the
state, then the head, then appends one event. An event file is refused only when its number and its
kind are taken, so two commands that file different kinds on one head both have theirs accepted.
-/
import KeEngine.Registry.Attested

namespace Ke.Registry

open Ke Wire

/-! ## Calls of a race -/

/-- A side's call appends the event to the log of the artifact. -/
def Tries (hash : Hash32) (e : LifecycleEvent) : Call BackendOp CommandError → Prop
  | ⟨.appendEvent target event, _⟩ => target = hash ∧ event = e
  | _ => False

/-- The event that a call has appended to the log of the artifact. -/
def acceptedEvent (hash : Hash32) : Call BackendOp CommandError → Option LifecycleEvent
  | ⟨.appendEvent target event, .ok _⟩ => if target = hash then some event else none
  | _ => none

section

variable {σ : Type}

/-- The race of two commands on a registry, whatever holds its stores. -/
def raceOf (X : Externals) (c c' : CommandLine) (s : σ) : Race BackendOp CommandError LifecycleState σ :=
  ⟨c.command X, c'.command X, s⟩

/-- No number is given twice, who tries a number that the other is given fails, and the log is accepted. -/
structure RaceSafe (X : Externals) (exec : ∀ {β : Type}, BackendOp β → σ → Except CommandError β × σ)
    (stores : σ → Backend) (hash : Hash32) (race : Race BackendOp CommandError LifecycleState σ)
    (schedule : List Bool) : Prop where
  once : (((race.calls exec schedule).filterMap fun call => acceptedEvent hash call.2).map (·.seq)).Nodup
  loser : ∀ who e e' call call', (who, call) ∈ race.calls exec schedule →
    (!who, call') ∈ race.calls exec schedule → acceptedEvent hash call = some e → Tries hash e' call' →
      e'.seq = e.seq → ((race.run exec schedule).side !who).failed = true
  log : ∃ state, lifecycleState X (stores (race.run exec schedule).store) hash = .ok state

end

/-! ## Commands that file an event -/

/-- A lifecycle command on a stored artifact. -/
def CommandLine.Moves (hash : Hash32) : CommandLine → Prop
  | .mlCheck target _ | .attest target _ _ | .publish target _ _ _ _ | .deprecateArtifact target _
  | .revoke target _ _ _ _ | .rollback _ _ target _ => target = hash
  | .compile .. | .compileIntent .. => False

/-- The kind of the event that a command files on a log of a state, if it gets that far. -/
def CommandLine.files (state : LifecycleState) : CommandLine → Option String
  | .mlCheck .. => if state = .structurallyVerified then some "ml_checked" else none
  | .attest .. => if state = .mlChecked then some "expert_attested" else none
  | .publish .. => if state = .expertAttested then some "published" else none
  | .deprecateArtifact .. => if state = .published then some "deprecated" else none
  | .revoke _ policy reasonClass _ _ =>
    if (recordedPolicy policy reasonClass).isOk && decide (state = .published ∨ state = .deprecated) then some "revoked"
    else none
  | .rollback .. => if state = .published then some "tag_moved" else none
  | .compile .. | .compileIntent .. => none

theorem files_revoke {state : LifecycleState} {target : Hash32} {policy : Option RevocationPolicy}
    {reasonClass : Option RevocationReasonClass} {reason : Option String} {nowUnix : UInt64} :
    (CommandLine.revoke target policy reasonClass reason nowUnix).files state =
      if (recordedPolicy policy reasonClass).isOk && decide (state = .published ∨ state = .deprecated) then
        some "revoked"
      else none := rfl

/-- Two commands file different kinds on one log, and both have read its head before either appends. -/
def Overlap (X : Externals) (r : Backend) (hash : Hash32) (c c' : CommandLine) (schedule : List Bool) : Prop :=
  ∃ state kind kind' log, lifecycleState X r hash = .ok (some state) ∧ r.readEvents hash = .ok log ∧
    log.length < 2 ^ 32 ∧
    c.files state = some kind ∧ c'.files state = some kind' ∧ kind ≠ kind' ∧
      ∃ before after, schedule = before ++ after ∧ before.count true = 2 ∧ before.count false = 2 ∧
        true ∈ after ∧ false ∈ after

/-- Different kinds are filed on a published artifact only. -/
theorem files_published {c c' : CommandLine} {state : LifecycleState} {kind kind' : String}
    (h : c.files state = some kind) (h' : c'.files state = some kind') (hne : kind ≠ kind') : state = .published := by
  cases c <;> cases c' <;> cases state <;> simp_all [CommandLine.files]

/-! ## Quiet programs -/

/-- Any operation but an append. -/
def NoAppend : {β : Type} → BackendOp β → Prop
  | _, .appendEvent .. => False
  | _, _ => True

/-- A program that appends nothing. -/
def Quiet {α : Type} (p : Command α) : Prop := p.Calls NoAppend

section

variable {X : Externals} {hash : Hash32} {r : Backend} {α β : Type}

theorem perform_events {o : BackendOp β} (h : NoAppend o) : (perform o r).2.events = r.events := by
  cases o with
  | appendEvent => exact h.elim
  | putArtifact | readArtifactKew | readEvents | putPointer | readConsistency => rfl
  | putConsistency => rfl
  | putRevocation => rfl

theorem Quiet.step {p : Command α} (h : Quiet p) :
    Quiet (p.step perform r).1 ∧ (p.step perform r).2.events = r.events := by
  refine ⟨Prog.Calls.step perform h r, ?_⟩
  cases p with
  | done => rfl
  | call o next =>
    have hevents := perform_events (r := r) h.1
    rw [Prog.step]
    split
    · rename_i heq
      rw [heq] at hevents
      exact hevents
    · rename_i heq
      rw [heq] at hevents
      exact hevents

/-! ## Programs that append on the head -/

/-- About to append an event that is chained on the head of a log, and nothing after that. -/
def Armed (X : Externals) (hash : Hash32) (log : List LifecycleEvent) (p : Command α) : Prop :=
  ∃ prior e tail, log.getLast? = some prior ∧ ChainedOn X prior e ∧ p = .call (.appendEvent hash e) tail ∧
    ∀ u, Quiet (tail u)

/-- What is appended is chained on the head that was read right before. -/
inductive Chaining (X : Externals) (hash : Hash32) : Command α → Prop
  | quiet {p : Command α} (h : Quiet p) : Chaining X hash p
  | pass {β : Type} {o : BackendOp β} {next : β → Command α} (h : NoAppend o) (rest : ∀ b, Chaining X hash (next b)) :
      Chaining X hash (.call o next)
  | head {next : List LifecycleEvent → Command α}
      (rest : ∀ log, Quiet (next log) ∨ Armed X hash log (next log)) : Chaining X hash (.call (.readEvents hash) next)

theorem chaining_done_bind {x : Except CommandError α} {f : α → Command β} (h : ∀ a, Chaining X hash (f a)) :
    Chaining X hash ((.done x : Command α) >>= f) := by
  cases x with
  | error e => exact .quiet trivial
  | ok a => exact h a

theorem chaining_op_bind {o : BackendOp α} {f : α → Command β} (ho : NoAppend o) (h : ∀ a, Chaining X hash (f a)) :
    Chaining X hash ((Prog.op o : Command α) >>= f) := .pass ho h

theorem chaining_requireCurrentState {f : LifecycleState → Command β} (h : ∀ state, Chaining X hash (f state)) :
    Chaining X hash (requireCurrentState X hash >>= f) :=
  .pass trivial fun _ => chaining_done_bind h

/-- The last event of a log that passes the walk. -/
def headOf (X : Externals) (log : List LifecycleEvent) : Except CommandError LifecycleEvent :=
  ((currentState X log).bind fun _ => log.getLast?.elim (.error .noState) .ok).mapError .registry

theorem headOf_ok {log : List LifecycleEvent} {prior : LifecycleEvent} (h : headOf X log = .ok prior) :
    log.getLast? = some prior := by
  obtain ⟨_, -, hlast⟩ := bind_ok.1 (mapError_ok.1 h)
  exact elim_throw.1 hlast

/-- Appending on the head, in the order of its operations. -/
theorem appendChained_bind (build : LifecycleEvent → Except RegistryError LifecycleEvent)
    (f : LifecycleEvent → Command β) :
    appendChained X hash build >>= f = .call (.readEvents hash) fun log =>
      (Prog.done (headOf X log) : Command LifecycleEvent) >>= fun prior =>
        (Prog.done ((build prior).mapError .registry) : Command LifecycleEvent) >>= fun e =>
          .call (.appendEvent hash e) fun _ => f e := by
  unfold appendChained headEvent
  simp only [Prog.bind_assoc, Prog.op_bind]
  rfl

theorem chaining_appendChained {build : LifecycleEvent → Except RegistryError LifecycleEvent}
    {f : LifecycleEvent → Command β} (hbuild : ∀ prior e, build prior = .ok e → ChainedOn X prior e)
    (hf : ∀ e, Quiet (f e)) : Chaining X hash (appendChained X hash build >>= f) := by
  rw [appendChained_bind]
  refine .head fun log => ?_
  cases hhead : headOf X log with
  | error e => exact .inl trivial
  | ok prior =>
    rw [Prog.done_ok_bind]
    cases hprior : build prior with
    | error e => exact .inl trivial
    | ok e => exact .inr ⟨prior, e, fun _ => f e, headOf_ok hhead, hbuild prior e hprior, rfl, fun _ => hf e⟩

/-! ## What is filed from a log -/

/-- What reading a log answers while it stays as it is. -/
def Stays (hash : Hash32) (log : List LifecycleEvent) : {β : Type} → BackendOp β → β → Prop
  | _, .readEvents target, events => target = hash → events = log
  | _, _, _ => True

/-- What is appended is of the kind that is filed from a state, on a published artifact at the third turn. -/
def Filing (hash : Hash32) (c : CommandLine) (state : Option LifecycleState) (n : Nat) (p : Command α) : Prop :=
  ∀ e tail, p = .call (.appendEvent hash e) tail →
    ∃ s, state = some s ∧ c.files s = some e.eventKind ∧ (s = .published → n = 2)

/-- So it is at every turn, while the log stays as it is. -/
def Files (hash : Hash32) (c : CommandLine) (log : List LifecycleEvent) (state : Option LifecycleState) (p : Command α)
    (n : Nat) : Prop :=
  p.Always (Stays hash log) (Filing hash c state) n

variable {c : CommandLine} {log : List LifecycleEvent} {state : Option LifecycleState} {n : Nat}

theorem filing_done (result : Except CommandError α) : Filing hash c state n (.done result) := nofun

theorem filing_noAppend {o : BackendOp β} {next : β → Command α} (h : NoAppend o) :
    Filing hash c state n (.call o next) := by
  intro e tail heq
  cases heq
  exact h.elim

theorem files_quiet : ∀ {p : Command α} {n : Nat}, Quiet p → Files hash c log state p n
  | .done r, _, _ => filing_done r
  | .call _ _, _, ⟨ho, hnext⟩ => ⟨filing_noAppend ho, fun b _ => files_quiet (hnext b)⟩

theorem files_done_bind {x : Except CommandError α} {f : α → Command β}
    (h : ∀ a, x = .ok a → Files hash c log state (f a) n) : Files hash c log state ((.done x : Command α) >>= f) n := by
  cases x with
  | error e => exact filing_done _
  | ok a => exact h a rfl

theorem files_op_bind {o : BackendOp α} {f : α → Command β} (ho : NoAppend o)
    (h : ∀ a, Files hash c log state (f a) (n + 1)) : Files hash c log state ((Prog.op o : Command α) >>= f) n :=
  ⟨filing_noAppend ho, fun a _ => h a⟩

theorem files_requireCurrentState {f : LifecycleState → Command β} (hstate : currentState X log = .ok state)
    (h : ∀ s, state = some s → Files hash c log state (f s) (n + 1)) :
    Files hash c log state (requireCurrentState X hash >>= f) n := by
  refine ⟨filing_noAppend trivial, fun events hevents => ?_⟩
  obtain rfl := hevents rfl
  refine files_done_bind fun s hs => h s ?_
  obtain ⟨found, hfound, hs⟩ := bind_ok.1 (mapError_ok.1 hs)
  rw [hstate] at hfound
  obtain rfl := Except.ok.inj hfound
  exact elim_throw.1 hs

theorem files_appendChained {build : LifecycleEvent → Except RegistryError LifecycleEvent}
    {f : LifecycleEvent → Command β}
    (hbuild : ∀ prior e, build prior = .ok e →
      ∃ s, state = some s ∧ c.files s = some e.eventKind ∧ (s = .published → n + 1 = 2))
    (hf : ∀ e, Quiet (f e)) : Files hash c log state (appendChained X hash build >>= f) n := by
  rw [appendChained_bind]
  refine ⟨filing_noAppend trivial, fun events _ => ?_⟩
  refine files_done_bind fun prior _ => files_done_bind fun e he =>
    ⟨fun e' tail heq => ?_, fun u _ => files_quiet (hf e)⟩
  cases heq
  exact hbuild prior e (mapError_ok.1 he)

/-! ## The commands -/

theorem quiet_requireCurrentState (hash : Hash32) : Quiet (requireCurrentState X hash) :=
  ⟨trivial, fun _ => trivial⟩

/-- Of every lifecycle command on the artifact. -/
theorem chaining_command (h : c.Moves hash) : Chaining X hash (c.command X) := by
  have htransition : ∀ {newState : LifecycleState} {nowUnix : UInt64} (prior e : LifecycleEvent),
      registryTransition X hash newState nowUnix prior = .ok e → ChainedOn X prior e :=
    fun _ _ he => registryTransition_ok he
  have hend := quiet_requireCurrentState (X := X) hash
  cases c with
  | compile => exact h.elim
  | compileIntent => exact h.elim
  | mlCheck target nowUnix =>
    obtain rfl : target = hash := h
    show Chaining X target (mlCheck X target nowUnix)
    unfold mlCheck
    refine chaining_requireCurrentState fun prior => chaining_done_bind fun _ => ?_
    refine chaining_op_bind trivial fun _ => chaining_op_bind trivial fun sidecar => chaining_done_bind fun _ => ?_
    exact chaining_appendChained htransition fun _ => hend
  | attest target types nowUnix =>
    obtain rfl : target = hash := h
    show Chaining X target (attest X target types nowUnix)
    unfold attest
    refine chaining_done_bind fun _ => chaining_requireCurrentState fun prior => chaining_done_bind fun _ => ?_
    refine chaining_op_bind trivial fun kew => chaining_done_bind fun decoded => chaining_done_bind fun attested => ?_
    refine chaining_op_bind trivial fun _ => chaining_done_bind fun _ => chaining_done_bind fun _ => ?_
    exact chaining_appendChained htransition fun _ => hend
  | publish target env tag bundle nowUnix =>
    obtain rfl : target = hash := h
    show Chaining X target (publish X target env tag bundle nowUnix)
    unfold publish
    refine chaining_requireCurrentState fun prior => chaining_done_bind fun _ => ?_
    refine chaining_op_bind trivial fun kew => chaining_done_bind fun decoded => chaining_done_bind fun policy => ?_
    refine chaining_done_bind fun _ => chaining_done_bind fun _ => ?_
    exact chaining_appendChained htransition fun _ => ⟨trivial, fun _ => hend⟩
  | deprecateArtifact target nowUnix =>
    obtain rfl : target = hash := h
    show Chaining X target (deprecateArtifact X target nowUnix)
    unfold deprecateArtifact
    refine chaining_requireCurrentState fun prior => chaining_done_bind fun _ => chaining_done_bind fun _ => ?_
    exact chaining_appendChained htransition fun _ => hend
  | revoke target policy reasonClass reason nowUnix =>
    obtain rfl : target = hash := h
    show Chaining X target (revoke X target policy reasonClass reason nowUnix)
    unfold revoke
    refine chaining_done_bind fun policy => chaining_requireCurrentState fun prior => ?_
    refine chaining_done_bind fun _ => chaining_done_bind fun _ => ?_
    exact chaining_appendChained htransition fun _ => ⟨trivial, fun _ => hend⟩
  | rollback env tag target nowUnix =>
    obtain rfl : target = hash := h
    show Chaining X target (rollback X env tag target nowUnix)
    unfold rollback
    refine chaining_requireCurrentState fun prior => chaining_done_bind fun _ => ?_
    exact chaining_appendChained (fun _ _ he => (buildChainedEvent_ok he).1) fun _ => ⟨trivial, fun _ => hend⟩

theorem ensure_ok {p : Prop} [Decidable p] {e : CommandError} {u : Unit}
    (h : (if p then .ok () else .error e : Except CommandError Unit) = .ok u) : p := by
  by_contra hp
  rw [if_neg hp] at h
  cases h

theorem files_command (h : c.Moves hash) (hstate : currentState X log = .ok state) :
    Files hash c log state (c.command X) 0 := by
  have hkind : ∀ {newState : LifecycleState} {nowUnix : UInt64} {prior e : LifecycleEvent},
      registryTransition X hash newState nowUnix prior = .ok e → e.eventKind = newState.eventKind :=
    fun he => (buildChainedEvent_ok he).2.2
  have hend := quiet_requireCurrentState (X := X) hash
  cases c with
  | compile => exact h.elim
  | compileIntent => exact h.elim
  | mlCheck target nowUnix =>
    obtain rfl : target = hash := h
    show Files target _ log state (mlCheck X target nowUnix) 0
    unfold mlCheck
    refine files_requireCurrentState hstate fun prior hprior => files_done_bind fun _ hsv => ?_
    obtain rfl := ensure_ok hsv
    refine files_op_bind trivial fun _ => files_op_bind trivial fun sidecar => files_done_bind fun _ _ => ?_
    refine files_appendChained (fun _ e he => ⟨_, hprior, ?_, nofun⟩) fun _ => hend
    rw [hkind he]
    rfl
  | attest target types nowUnix =>
    obtain rfl : target = hash := h
    show Files target _ log state (attest X target types nowUnix) 0
    unfold attest
    refine files_done_bind fun _ _ => files_requireCurrentState hstate fun prior hprior => files_done_bind
      fun _ hml => ?_
    obtain rfl := ensure_ok hml
    refine files_op_bind trivial fun kew => files_done_bind fun decoded _ => files_done_bind fun attested _ => ?_
    refine files_op_bind trivial fun _ => files_done_bind fun _ _ => files_done_bind fun _ _ => ?_
    refine files_appendChained (fun _ e he => ⟨_, hprior, ?_, nofun⟩) fun _ => hend
    rw [hkind he]
    rfl
  | publish target env tag bundle nowUnix =>
    obtain rfl : target = hash := h
    show Files target _ log state (publish X target env tag bundle nowUnix) 0
    unfold publish
    refine files_requireCurrentState hstate fun prior hprior => files_done_bind fun _ hattested => ?_
    obtain rfl := ensure_ok hattested
    refine files_op_bind trivial fun kew => files_done_bind fun decoded _ => files_done_bind fun policy _ => ?_
    refine files_done_bind fun _ _ => files_done_bind fun _ _ => ?_
    refine files_appendChained (fun _ e he => ⟨_, hprior, ?_, nofun⟩) fun _ => ⟨trivial, fun _ => hend⟩
    rw [hkind he]
    rfl
  | deprecateArtifact target nowUnix =>
    obtain rfl : target = hash := h
    show Files target _ log state (deprecateArtifact X target nowUnix) 0
    unfold deprecateArtifact
    refine files_requireCurrentState hstate fun prior hprior => files_done_bind fun _ hpublished => ?_
    obtain rfl := ensure_ok hpublished
    refine files_done_bind fun _ _ => files_appendChained (fun _ e he => ⟨_, hprior, ?_, fun _ => rfl⟩) fun _ => hend
    rw [hkind he]
    rfl
  | revoke target policy reasonClass reason nowUnix =>
    obtain rfl : target = hash := h
    show Files target _ log state (revoke X target policy reasonClass reason nowUnix) 0
    unfold revoke
    refine files_done_bind fun recorded hrecorded => files_requireCurrentState hstate fun prior hprior => ?_
    refine files_done_bind fun _ hsource => files_done_bind fun _ _ => ?_
    refine files_appendChained (fun _ e he => ⟨_, hprior, ?_, fun _ => rfl⟩) fun _ => ⟨trivial, fun _ => hend⟩
    have hok : (recordedPolicy policy reasonClass).isOk = true := by
      rw [mapError_ok.1 hrecorded]
      rfl
    rw [hkind he]
    rw [files_revoke, hok, decide_eq_true (ensure_ok hsource)]
    rfl
  | rollback env tag target nowUnix =>
    obtain rfl : target = hash := h
    show Files target _ log state (rollback X env tag target nowUnix) 0
    unfold rollback
    refine files_requireCurrentState hstate fun prior hprior => files_done_bind fun _ heligible => ?_
    obtain rfl := of_decide_eq_true (ensure_ok heligible)
    refine files_appendChained (fun _ e he => ⟨_, hprior, ?_, fun _ => rfl⟩) fun _ => ⟨trivial, fun _ => hend⟩
    rw [(buildChainedEvent_ok he).2.2]
    rfl

/-! ## Turns on a log -/

/-- A log that is empty or passes the walk. -/
def LogAccepted (X : Externals) (hash : Hash32) (log : List LifecycleEvent) : Prop := log = [] ∨ Walked X hash log

theorem LogOk.logAccepted (h : LogOk X hash log) : LogAccepted X hash log := h.imp_right Grown.walked

theorem LogAccepted.walked (h : LogAccepted X hash log) {last : LifecycleEvent} (hlast : log.getLast? = some last) :
    Walked X hash log := by
  rcases h with rfl | h
  · cases hlast
  · exact h

theorem LogAccepted.readEvents (h : LogAccepted X hash log) (hfiles : r.events hash = log.map eventFile) :
    r.readEvents hash = .ok log := by
  refine readEvents_files hfiles ?_
  rcases h with rfl | h
  · exact List.Pairwise.nil
  · exact h.increasing

theorem LogAccepted.currentState (hX : X.Lawful) (h : LogAccepted X hash log) :
    ∃ state, currentState X log = .ok state := by
  rcases h with rfl | h
  · exact ⟨none, rfl⟩
  · obtain ⟨last, hlast⟩ := h.exists_last
    exact ⟨_, h.currentState hX hlast⟩

/-- A turn before the append changes no log, and may read the head. -/
theorem Chaining.step {p : Command α} (h : Chaining X hash p) (hlog : LogAccepted X hash log)
    (hfiles : r.events hash = log.map eventFile) :
    (Chaining X hash (p.step perform r).1 ∨ Armed X hash log (p.step perform r).1) ∧
      (p.step perform r).2.events = r.events := by
  cases h with
  | quiet h => exact ⟨.inl (.quiet h.step.1), h.step.2⟩
  | @pass β o next ho rest =>
    have hevents := perform_events (r := r) ho
    rw [Prog.step]
    rcases hperform : perform o r with ⟨e | b, r'⟩
    · rw [hperform] at hevents
      exact ⟨.inl (.quiet trivial), hevents⟩
    · rw [hperform] at hevents
      exact ⟨.inl (rest b), hevents⟩
  | @head next rest =>
    have hperform : perform (.readEvents hash) r = (.ok log, r) :=
      Prod.ext (mapError_ok.2 (hlog.readEvents hfiles)) rfl
    rw [Prog.step, hperform]
    exact ⟨(rest log).imp_left .quiet, rfl⟩

theorem perform_appendEvent (e : LifecycleEvent) : perform (.appendEvent hash e) r =
    ((r.appendEvent hash e).1.mapError .registry, (r.appendEvent hash e).2) := rfl

/-- The append on the head is accepted. -/
theorem Armed.step {p : Command α} (h : Armed X hash log p) (hlog : LogAccepted X hash log)
    (hfiles : r.events hash = log.map eventFile) :
    ∃ e tail, p = .call (.appendEvent hash e) tail ∧ e.seq.toNat = log.length ∧ LogAccepted X hash (log ++ [e]) ∧
      Quiet (p.step perform r).1 ∧ (p.step perform r).2.events hash = (log ++ [e]).map eventFile := by
  obtain ⟨prior, e, tail, hlast, hchained, rfl, hquiet⟩ := h
  have hwalked := hlog.walked hlast
  have happend := appendEvent_chained hfiles hwalked hlast hchained
  have hperform : perform (.appendEvent hash e) r =
      (.ok (), { r with events := Function.update r.events hash ((log ++ [e]).map eventFile) }) := by
    rw [perform_appendEvent, happend]
    rfl
  refine ⟨e, tail, rfl, ?_, .inr (hwalked.next hlast hchained), ?_, ?_⟩
  · rw [hchained.seq, hwalked.last_seq hlast]
  · rw [Prog.step, hperform]
    exact hquiet ()
  · rw [Prog.step, hperform]
    exact Function.update_self ..

/-- About to append under a name that is taken. -/
def Taken (hash : Hash32) (log : List LifecycleEvent) (p : Command α) : Prop :=
  ∃ e e' tail, p = .call (.appendEvent hash e) tail ∧ e' ∈ log ∧ eventFileName e' = eventFileName e

theorem Taken.step {p : Command α} (h : Taken hash log p) (hfiles : r.events hash = log.map eventFile) :
    Quiet (p.step perform r).1 ∧ (p.step perform r).2.events = r.events := by
  obtain ⟨e, e', tail, rfl, hmem, hname⟩ := h
  have hperform : perform (.appendEvent hash e) r = (.error (.registry (.eventExists e.seq)), r) := by
    have hrefused : r.appendEvent hash e = (.error (.eventExists e.seq), r) := by
      unfold Backend.appendEvent
      rw [if_pos]
      rw [hfiles, List.any_eq_true]
      exact ⟨eventFile e', List.mem_map_of_mem hmem, decide_eq_true hname⟩
    rw [perform_appendEvent, hrefused]
    rfl
  rw [Prog.step, hperform]
  exact ⟨trivial, rfl⟩

/-! ## After the first append -/

/-- What a side may still do when the other appends nothing more. -/
inductive Rest (X : Externals) (hash : Hash32) (log : List LifecycleEvent) (runs : Prop) (p : Command α) : Prop
  | chaining (h : Chaining X hash p)
  | armed (h : Armed X hash log p)
  | taken (h : Taken hash log p)
  | idle (h : ¬ runs)

variable {race : Race BackendOp CommandError LifecycleState Backend}

/-- Against a side that appends nothing, the log stays accepted. -/
theorem run_rest {who : Bool} : ∀ {schedule : List Bool} {log : List LifecycleEvent}
    {race : Race BackendOp CommandError LifecycleState Backend}, LogAccepted X hash log →
      race.store.events hash = log.map eventFile → Quiet (race.side who) →
        Rest X hash log ((!who) ∈ schedule) (race.side !who) →
          ∃ log', LogAccepted X hash log' ∧ (race.run perform schedule).store.events hash = log'.map eventFile
  | [], log, race, hlog, hfiles, _, _ => ⟨log, hlog, hfiles⟩
  | turn :: schedule, log, race, hlog, hfiles, hquiet, hrest => by
    rw [Race.run_cons]
    by_cases hturn : turn = who
    · subst hturn
      have hself := Race.side_turn @perform race turn
      have hother := Race.side_turn_other @perform race turn
      have hstore := Race.store_turn @perform race turn
      obtain ⟨hquiet', hevents⟩ := hquiet.step (r := race.store)
      refine run_rest hlog ?_ (hself ▸ hquiet') ?_
      · rw [hstore, hevents]
        exact hfiles
      · rw [hother]
        cases hrest with
        | chaining h => exact .chaining h
        | armed h => exact .armed h
        | taken h => exact .taken h
        | idle h => exact .idle fun hmem => h (List.mem_cons_of_mem _ hmem)
    · obtain rfl : turn = !who := by cases turn <;> cases who <;> simp_all
      have hself := Race.side_turn @perform race (!who)
      have hother := Race.side_turn_other @perform race (!who)
      have hstore := Race.store_turn @perform race (!who)
      rw [Bool.not_not] at hother
      have hquiet' : Quiet ((race.turn perform !who).side who) := hother ▸ hquiet
      cases hrest with
      | chaining h =>
        obtain ⟨hnext, hevents⟩ := h.step hlog hfiles
        refine run_rest hlog ?_ hquiet' ?_
        · rw [hstore, hevents]
          exact hfiles
        · rw [hself]
          exact hnext.elim .chaining .armed
      | armed h =>
        obtain ⟨e, -, -, -, hlog', hnext, hevents⟩ := h.step hlog hfiles
        refine run_rest hlog' ?_ hquiet' ?_
        · rw [hstore, hevents]
        · rw [hself]
          exact .chaining (.quiet hnext)
      | taken h =>
        obtain ⟨hnext, hevents⟩ := h.step hfiles
        refine run_rest hlog ?_ hquiet' ?_
        · rw [hstore, hevents]
          exact hfiles
        · rw [hself]
          exact .chaining (.quiet hnext)
      | idle h => exact absurd List.mem_cons_self h

/-! ## Before the first append -/

/-- Two sides file different kinds, and from here on both come to their second turn before either's third. -/
def Clash (commands : Bool → CommandLine) (state : Option LifecycleState) (log : List LifecycleEvent)
    (turns : Bool → Nat)
    (schedule : List Bool) : Prop :=
  ∃ s kind kind', state = some s ∧ log.length < 2 ^ 32 ∧ (commands true).files s = some kind ∧
    (commands false).files s = some kind' ∧ kind ≠ kind' ∧ ∃ before after, schedule = before ++ after ∧
      turns true + before.count true = 2 ∧ turns false + before.count false = 2 ∧ true ∈ after ∧ false ∈ after

theorem Clash.cons {commands : Bool → CommandLine} {turns : Bool → Nat} {who : Bool} {schedule : List Bool}
    (h : Clash commands state log (Function.update turns who (turns who + 1)) schedule) :
    Clash commands state log turns (who :: schedule) := by
  obtain ⟨s, kind, kind', hstate, hlength, hkind, hkind', hne, before, after, rfl, htrue, hfalse, hafter⟩ := h
  refine ⟨s, kind, kind', hstate, hlength, hkind, hkind', hne, who :: before, after, rfl, ?_, ?_, hafter⟩
  · cases who
    · rw [Function.update_of_ne (by decide)] at htrue
      rw [List.count_cons_of_ne (by decide)]
      exact htrue
    · rw [Function.update_self] at htrue
      rw [List.count_cons_self]
      omega
  · cases who
    · rw [Function.update_self] at hfalse
      rw [List.count_cons_self]
      omega
    · rw [Function.update_of_ne (by decide)] at hfalse
      rw [List.count_cons_of_ne (by decide)]
      exact hfalse

/-- Two sides that are about to append under different names clash, if both get to. -/
theorem clash_of_armed {commands : Bool → CommandLine} {turns : Bool → Nat} {who : Bool} {schedule : List Bool}
    {side : Bool → Command LifecycleState} (event : Bool → LifecycleEvent) (tail : Bool → Unit → Command LifecycleState)
    (hside : ∀ w, side w = .call (.appendEvent hash (event w)) (tail w))
    (hseq : ∀ w, (event w).seq.toNat = log.length)
    (hfiles : ∀ w, Files hash (commands w) log state (side w) (turns w))
    (hname : eventFileName (event who) ≠ eventFileName (event !who)) (hmem : who ∈ schedule)
    (hmem' : (!who) ∈ schedule) :
    Clash commands state log turns schedule := by
  have hkind : (event who).eventKind ≠ (event !who).eventKind := by
    intro heq
    refine hname ?_
    unfold eventFileName
    rw [heq, UInt32.toNat_inj.1 ((hseq who).trans (hseq !who).symm)]
  have hkind : (event true).eventKind ≠ (event false).eventKind := by
    cases who
    · exact hkind.symm
    · exact hkind
  have hboth : true ∈ schedule ∧ false ∈ schedule := by
    cases who
    · exact ⟨hmem', hmem⟩
    · exact ⟨hmem, hmem'⟩
  obtain ⟨s, hs, htrue, htwo⟩ := (hfiles true).now _ _ (hside true)
  obtain ⟨s', hs', hfalse, htwo'⟩ := (hfiles false).now _ _ (hside false)
  obtain rfl := Option.some.inj (hs.symm.trans hs')
  have hpublished := files_published htrue hfalse hkind
  refine ⟨s, _, _, hs, ?_, htrue, hfalse, hkind, [], schedule, rfl, htwo hpublished, htwo' hpublished, hboth⟩
  rw [← hseq true]
  exact (event true).seq.toNat_lt

/-- Without a clash, the log stays accepted. -/
theorem run_accepted {commands : Bool → CommandLine} (hlog : LogAccepted X hash log) :
    ∀ {schedule : List Bool} (turns : Bool → Nat) {race : Race BackendOp CommandError LifecycleState Backend},
      race.store.events hash = log.map eventFile →
        (∀ who, Chaining X hash (race.side who) ∨ Armed X hash log (race.side who)) →
          (∀ who, Files hash (commands who) log state (race.side who) (turns who)) →
            ¬ Clash commands state log turns schedule →
              ∃ log', LogAccepted X hash log' ∧ (race.run perform schedule).store.events hash = log'.map eventFile
  | [], turns, race, hfiles, _, _, _ => ⟨log, hlog, hfiles⟩
  | who :: schedule, turns, race, hfiles, hsides, hkinds, hclash => by
    rw [Race.run_cons]
    have hself := Race.side_turn @perform race who
    have hother := Race.side_turn_other @perform race who
    have hstore := Race.store_turn @perform race who
    rcases hsides who with h | h
    · -- a read, or nothing that matters
      obtain ⟨hnext, hevents⟩ := h.step hlog hfiles
      have hturned : ∀ w, w ≠ who → (race.turn perform who).side w = race.side w := by
        intro w hw
        obtain rfl : w = !who := by cases w <;> cases who <;> simp_all
        exact hother
      refine run_accepted hlog (Function.update turns who (turns who + 1)) ?_ (fun w => ?_) (fun w => ?_)
        fun h => hclash h.cons
      · rw [hstore, hevents]
        exact hfiles
      · by_cases hw : w = who
        · subst hw
          rw [hself]
          exact hnext
        · rw [hturned w hw]
          exact hsides w
      · by_cases hw : w = who
        · subst hw
          rw [hself, Function.update_self]
          refine (hkinds w).step perform (fun _ _ => filing_done _) fun o b s' hanswer => ?_
          cases o with
          | readEvents target =>
            rintro rfl
            have hread := mapError_ok.1 (congrArg Prod.fst hanswer)
            exact Except.ok.inj (hread.symm.trans (hlog.readEvents hfiles))
          | putArtifact | appendEvent | readArtifactKew | putPointer | putConsistency | readConsistency
          | putRevocation => exact trivial
        · rw [hturned w hw, Function.update_of_ne hw]
          exact hkinds w
    · -- the first append
      obtain ⟨e, tail, hcall, hseq, hlog', hnext, hevents⟩ := h.step hlog hfiles
      refine run_rest hlog' (by rw [hstore, hevents]) (hself ▸ hnext) ?_
      rw [hother]
      rcases hsides (!who) with h' | h'
      · exact .chaining h'
      · obtain ⟨e', tail', hcall', hseq', -⟩ := h'.step hlog hfiles
        by_cases hname : eventFileName e = eventFileName e'
        · exact .taken ⟨e', e, tail', hcall', List.mem_append_right log (List.mem_singleton_self e), hname⟩
        · refine .idle fun hmem => hclash ?_
          refine clash_of_armed (fun w => if w = who then e else e') (fun w => if w = who then tail else tail')
            (fun w => ?_) (fun w => ?_) hkinds ?_ List.mem_cons_self (List.mem_cons_of_mem _ hmem)
          · by_cases hw : w = who
            · subst hw
              simp only [if_true]
              exact hcall
            · obtain rfl : w = !who := by cases w <;> cases who <;> simp_all
              simp only [if_neg hw]
              exact hcall'
          · by_cases hw : w = who
            · simp only [hw, if_true]
              exact hseq
            · simp only [if_neg hw]
              exact hseq'
          · simp only [if_true, Bool.not_eq_self, if_false]
            exact hname

/-! ## What the calls leave -/

/-- The log is extended by what was accepted. -/
theorem events_calls (race : Race BackendOp CommandError LifecycleState Backend) (schedule : List Bool) :
    (race.run perform schedule).store.events hash = race.store.events hash ++
      ((race.calls perform schedule).filterMap fun call => acceptedEvent hash call.2).map eventFile := by
  have hseen : ∀ {β : Type} (o : BackendOp β) (r : Backend), (perform o r).2.events hash = r.events hash ++
      ((acceptedEvent hash ⟨o, (perform o r).1⟩).map eventFile).toList := by
    intro β o r
    cases o with
    | appendEvent target e =>
      rw [perform_appendEvent]
      unfold Backend.appendEvent
      split
      · exact (List.append_nil _).symm
      · show Function.update r.events target (r.events target ++ [eventFile e]) hash = _
        by_cases htarget : target = hash
        · subst htarget
          rw [Function.update_self]
          show _ = _ ++ (Option.map eventFile (if target = target then some e else none)).toList
          rw [if_pos rfl]
          rfl
        · rw [Function.update_of_ne fun heq => htarget heq.symm]
          show _ = _ ++ (Option.map eventFile (if target = hash then some e else none)).toList
          rw [if_neg htarget]
          exact (List.append_nil _).symm
    | putArtifact | readArtifactKew | readEvents | putPointer | readConsistency | putConsistency | putRevocation =>
      exact (List.append_nil _).symm
  have hcalls := @Race.log_calls BackendOp CommandError LifecycleState Backend @perform _ (fun r => r.events hash)
    (fun call => ((acceptedEvent hash call).map eventFile).toList) hseen schedule race
  rw [hcalls, List.map_filterMap, List.filterMap_eq_flatMap_toList]

theorem eq_of_nodup_filterMap {α : Type*} {β : Type} {f : α → Option β} : ∀ {l : List α}, (l.filterMap f).Nodup →
    ∀ {a b : α} {x : β}, a ∈ l → b ∈ l → f a = some x → f b = some x → a = b
  | first :: l, hnodup, a, b, x, ha, hb, hfa, hfb => by
    have hmem : ∀ c ∈ l, f c = some x → x ∈ l.filterMap f := fun c hc hfc => List.mem_filterMap.2 ⟨c, hc, hfc⟩
    have hrest : (l.filterMap f).Nodup := by
      cases hfirst : f first with
      | none =>
        rw [List.filterMap_cons_none hfirst] at hnodup
        exact hnodup
      | some y =>
        rw [List.filterMap_cons_some hfirst] at hnodup
        exact (List.nodup_cons.1 hnodup).2
    have hfirst : f first = some x → ∀ c ∈ l, f c ≠ some x := by
      intro hfirst c hc hfc
      rw [List.filterMap_cons_some hfirst] at hnodup
      exact (List.nodup_cons.1 hnodup).1 (hmem c hc hfc)
    rcases List.mem_cons.1 ha with rfl | ha'
    · rcases List.mem_cons.1 hb with rfl | hb'
      · rfl
      · exact absurd hfb (hfirst hfa b hb')
    · rcases List.mem_cons.1 hb with rfl | hb'
      · exact absurd hfa (hfirst hfb a ha')
      · exact eq_of_nodup_filterMap hrest ha' hb' hfa hfb

/-- Only one call is given a number. -/
theorem RaceSafe.eq_of_seq {schedule : List Bool}
    (h : (((race.calls perform schedule).filterMap fun call => acceptedEvent hash call.2).map (·.seq)).Nodup)
    {p q : Bool × Call BackendOp CommandError} {e e' : LifecycleEvent} (hp : p ∈ race.calls perform schedule)
    (hq : q ∈ race.calls perform schedule) (he : acceptedEvent hash p.2 = some e)
    (he' : acceptedEvent hash q.2 = some e')
    (hseq : e'.seq = e.seq) : p = q := by
  rw [List.map_filterMap] at h
  have hnumber : (acceptedEvent hash p.2).map (·.seq) = some e.seq := by
    rw [he]
    rfl
  refine eq_of_nodup_filterMap h hp hq hnumber ?_
  rw [he', ← hseq]
  rfl

/-- A race that leaves an accepted log is safe. -/
theorem raceSafe_of_accepted (hX : X.Lawful) {schedule : List Bool} (hlog : LogAccepted X hash log)
    (hfiles : race.store.events hash = log.map eventFile) {log' : List LifecycleEvent} (hlog' : LogAccepted X hash log')
    (hfiles' : (race.run perform schedule).store.events hash = log'.map eventFile) :
    RaceSafe X perform id hash race schedule := by
  have hinj : Function.Injective eventFile := fun e e' he => JsonFile.good.inj (congrArg Prod.snd he)
  have hgrown : log' = log ++ (race.calls perform schedule).filterMap fun call => acceptedEvent hash call.2 := by
    refine List.map_injective_iff.2 hinj ?_
    rw [← hfiles', events_calls, hfiles, List.map_append]
  have honce : (((race.calls perform schedule).filterMap fun call => acceptedEvent hash call.2).map (·.seq)).Nodup := by
    have hincreasing : log'.Pairwise fun a b => a.seq.toNat < b.seq.toNat := by
      rcases hlog' with rfl | h
      · exact List.Pairwise.nil
      · exact h.increasing
    rw [hgrown] at hincreasing
    refine List.pairwise_map.2 ((List.pairwise_append.1 hincreasing).2.1.imp fun {a b} hlt heq => ?_)
    rw [heq] at hlt
    exact lt_irrefl _ hlt
  refine ⟨honce, fun who e e' call call' hcall hcall' he he' hseq => ?_, ?_⟩
  · obtain ⟨op, answer⟩ := call'
    cases op with
    | appendEvent target event =>
      obtain ⟨rfl, rfl⟩ := he'
      cases answer with
      | error err => exact Race.failed_of_call @perform schedule race hcall'
      | ok u =>
        have hsame : who = !who := congrArg Prod.fst (RaceSafe.eq_of_seq honce hcall hcall' he (if_pos rfl) hseq)
        exact absurd hsame (by cases who <;> decide)
    | putArtifact | readArtifactKew | readEvents | putPointer | readConsistency | putConsistency | putRevocation =>
      exact he'.elim
  · obtain ⟨state, hstate⟩ := hlog'.currentState hX
    exact ⟨state, bind_ok.2 ⟨log', hlog'.readEvents hfiles', hstate⟩⟩

/-! ## Two appends -/

/-- An operation that files nothing under a name in the log of the artifact. -/
def Elsewhere (hash : Hash32) (name : String) : {β : Type} → BackendOp β → Prop
  | _, .appendEvent target event => target = hash → eventFileName event ≠ name
  | _, _ => True

theorem Quiet.elsewhere {p : Command α} (h : Quiet p) (name : String) : p.Calls (Elsewhere hash name) := by
  refine Prog.Calls.mono (fun o ho => ?_) h
  cases o with
  | appendEvent => exact ho.elim
  | putArtifact | readArtifactKew | readEvents | putPointer | readConsistency | putConsistency |
      putRevocation => exact trivial

/-- A name that nothing is filed under stays free. -/
theorem free_step {p : Command α} {name : String} (h : p.Calls (Elsewhere hash name))
    (hfree : ∀ file ∈ r.events hash, file.1 ≠ name) : ∀ file ∈ (p.step perform r).2.events hash, file.1 ≠ name := by
  cases p with
  | done => exact hfree
  | @call γ o next =>
    have hperform : ∀ file ∈ (perform o r).2.events hash, file.1 ≠ name := by
      by_cases ho : NoAppend o
      · rw [perform_events ho]
        exact hfree
      · cases o with
        | appendEvent target event =>
          have hname := h.1
          rw [perform_appendEvent]
          unfold Backend.appendEvent
          split
          · exact hfree
          · show ∀ file ∈ Function.update r.events target
              (r.events target ++ [(eventFileName event, .good event)]) hash, _
            by_cases htarget : target = hash
            · subst htarget
              rw [Function.update_self]
              intro file hfile
              rcases List.mem_append.1 hfile with hfile | hfile
              · exact hfree file hfile
              · rw [List.mem_singleton.1 hfile]
                exact hname rfl
            · rw [Function.update_of_ne fun heq => htarget heq.symm]
              exact hfree
        | putArtifact | readArtifactKew | readEvents | putPointer | readConsistency | putConsistency | putRevocation =>
          exact absurd trivial ho
    rw [Prog.step]
    split
    · rename_i heq
      rw [heq] at hperform
      exact hperform
    · rename_i heq
      rw [heq] at hperform
      exact hperform

/-- An append under a free name is accepted, whatever else the other side does before. -/
theorem pending_accepted {who : Bool} {e : LifecycleEvent} {tail : Unit → Command LifecycleState} :
    ∀ {schedule : List Bool} {race : Race BackendOp CommandError LifecycleState Backend},
      race.side who = .call (.appendEvent hash e) tail → (race.side !who).Calls (Elsewhere hash (eventFileName e)) →
        (∀ file ∈ race.store.events hash, file.1 ≠ eventFileName e) → who ∈ schedule →
          (who, ⟨.appendEvent hash e, .ok ()⟩) ∈ race.calls perform schedule
  | turn :: schedule, race, hside, hother, hfree, hmem => by
    rw [Race.calls]
    by_cases hturn : turn = who
    · subst hturn
      refine List.mem_append_left _ (List.mem_map.2 ⟨⟨.appendEvent hash e, .ok ()⟩, ?_, rfl⟩)
      have hanswer : (perform (.appendEvent hash e) race.store).1 = .ok () := by
        rw [perform_appendEvent]
        unfold Backend.appendEvent
        rw [if_neg]
        · rfl
        · rw [Bool.not_eq_true, List.any_eq_false]
          exact fun file hfile => by simpa using hfree file hfile
      rw [hside, Race.nextCall, hanswer]
      exact List.mem_singleton_self _
    · refine List.mem_append_right _ ?_
      obtain rfl : turn = !who := by cases turn <;> cases who <;> simp_all
      have hself := Race.side_turn @perform race (!who)
      have hstays := Race.side_turn_other @perform race (!who)
      rw [Bool.not_not] at hstays
      refine pending_accepted (hstays.trans hside) ?_ ?_ ((List.mem_cons.1 hmem).resolve_left fun heq => hturn heq.symm)
      · rw [hself]
        exact Prog.Calls.step perform hother race.store
      · rw [Race.store_turn]
        exact free_step hother hfree

/-! ## An event that is built -/

/-- The value can be written. -/
def Writes {γ : Type} (codec : Codec γ) (a : γ) : Prop := ∃ bytes, codec.enc a = .ok bytes

theorem writes_pair {γ δ : Type} {codec : Codec γ} {codec' : Codec δ} {p : γ × δ} (h : Writes codec p.1)
    (h' : Writes codec' p.2) : Writes (codec.pair codec') p := by
  obtain ⟨x, hx⟩ := h
  obtain ⟨y, hy⟩ := h'
  exact ⟨x ++ y, Codec.pair_enc_ok.2 ⟨x, y, hx, hy, rfl⟩⟩

theorem writes_bytes {bytes : Bytes} (h : bytes.length < 2 ^ 64) : Writes (Codec.seq Codec.u8) bytes :=
  ⟨_, bind_ok.2 ⟨_, Codec.varint64_enc h, bind_ok.2 ⟨_, Codec.encAll_u8 bytes, rfl⟩⟩⟩

theorem writes_str {text : String} (h : text.toByteArray.data.toList.length < 2 ^ 64) : Writes Codec.str text :=
  writes_bytes h

theorem writes_hash (hash : Hash32) : Writes Postcard.hash32 hash := ⟨_, Codec.encAll_u8 hash.1⟩

theorem writes_some {γ : Type} {codec : Codec γ} {a : γ} (h : Writes codec a) : Writes codec.option (some a) := by
  obtain ⟨bytes, hbytes⟩ := h
  exact ⟨1 :: bytes, bind_ok.2 ⟨bytes, hbytes, rfl⟩⟩

theorem writes_lifecycleState (state : LifecycleState) : Writes Postcard.lifecycleState state := by
  cases state <;> exact ⟨_, rfl⟩

theorem writes_mockStamp (nowUnix : UInt64) : Writes Postcard.timestampToken (mockStamp X hash nowUnix) := by
  have hlength : (mockStamp X hash nowUnix).token.length = 64 := (X.sign _ _).2
  refine writes_pair ⟨_, rfl⟩ (writes_pair (writes_bytes ?_) ⟨_, Codec.varint64_enc nowUnix.toNat_lt⟩)
  show (mockStamp X hash nowUnix).token.length < 2 ^ 64
  rw [hlength]
  decide

/-- An event of a short kind is built on any signed one whose number is not the last. -/
theorem buildChainedEvent_done {prior : LifecycleEvent} (hsigned : SignedByRoot X prior)
    (hseq : prior.seq.toNat + 1 < 2 ^ 32) (newState : LifecycleState) {kind : String}
    (hkind : kind.toByteArray.data.toList.length < 2 ^ 64) (nowUnix : UInt64) :
    ∃ e, buildChainedEvent X prior newState kind TestKeys.registryRootKeyId .registry
      (mockStamp X hash nowUnix) = .ok e := by
  obtain ⟨link, hlink⟩ := hsigned.chainHash
  obtain ⟨bytes, hbytes⟩ : Writes Postcard.eventPayload
    ⟨prior.artifactHash, prior.seq + 1, some prior.newState, newState,
      kind, TestKeys.registryRootKeyId, .registry, mockStamp X hash nowUnix, some link⟩ := by
    refine writes_pair (writes_hash _) (writes_pair ⟨_, Codec.varint32_enc (UInt32.toNat_lt _)⟩ ?_)
    refine writes_pair (writes_some (writes_lifecycleState _)) (writes_pair (writes_lifecycleState _) ?_)
    have hkeyId : Writes Codec.str TestKeys.registryRootKeyId := writes_str (by decide)
    refine writes_pair (writes_str hkind) (writes_pair hkeyId (writes_pair ⟨_, rfl⟩ ?_))
    exact writes_pair (writes_mockStamp nowUnix) (writes_some (writes_hash link))
  exact ⟨_, bind_ok.2 ⟨prior.seq + 1, if_pos hseq, bind_ok.2 ⟨link, hlink, signEvent_ok.2 ⟨bytes, hbytes, rfl⟩⟩⟩⟩

/-! ## Two commands on a published artifact -/

/-- Reads the state and the head of a log, and is then about to append an event. -/
structure Overlaps (hash : Hash32) (log : List LifecycleEvent) (e : LifecycleEvent)
    (p : Command LifecycleState) : Prop where
  stages : ∃ next₁ next₂ tail, p = .call (.readEvents hash) next₁ ∧ next₁ log = .call (.readEvents hash) next₂ ∧
    next₂ log = .call (.appendEvent hash e) tail ∧ ∀ u, Quiet (tail u)
  seq : e.seq.toNat = log.length

/-- The state of a log, which must not be empty. -/
def stateOf (X : Externals) (log : List LifecycleEvent) : Except CommandError LifecycleState :=
  ((currentState X log).bind fun state => state.elim (.error .noState) .ok).mapError .registry

theorem requireCurrentState_bind (f : LifecycleState → Command β) :
    requireCurrentState X hash >>= f = .call (.readEvents hash) fun log =>
      (Prog.done (stateOf X log) : Command LifecycleState) >>= f := rfl

theorem overlaps_of_build (build : LifecycleEvent → Except RegistryError LifecycleEvent)
    {f : LifecycleState → Command LifecycleState} {end_ : LifecycleEvent → Command LifecycleState}
    {prior e : LifecycleEvent} (hX : X.Lawful) (hwalked : Walked X hash log) (hlast : log.getLast? = some prior)
    (hf : f prior.newState = appendChained X hash build >>= end_) (hbuild : build prior = .ok e)
    (hchained : ChainedOn X prior e) (hend : ∀ e, Quiet (end_ e)) :
    Overlaps hash log e (requireCurrentState X hash >>= f) := by
  have hcurrent := hwalked.currentState hX hlast
  have hstate : stateOf X log = .ok prior.newState := mapError_ok.2 (bind_ok.2 ⟨_, hcurrent, rfl⟩)
  have hhead : headOf X log = .ok prior := mapError_ok.2 (bind_ok.2 ⟨_, hcurrent, elim_throw.2 hlast⟩)
  have hfirst : (Prog.done (stateOf X log) : Command LifecycleState) >>= f = f prior.newState := by
    rw [hstate]
    rfl
  have hsecond := hfirst.trans (hf.trans (appendChained_bind build end_))
  refine ⟨⟨_, _, fun _ => end_ e, requireCurrentState_bind f, hsecond, ?_, fun _ => hend e⟩, ?_⟩
  · rw [hhead, Prog.done_ok_bind, hbuild]
    rfl
  · rw [hchained.seq, hwalked.last_seq hlast]

/-- Each command that files an event on a published artifact. -/
theorem overlaps_command (hX : X.Lawful) (h : c.Moves hash) (hwalked : Walked X hash log) {prior : LifecycleEvent}
    (hlast : log.getLast? = some prior) (hpublished : prior.newState = .published) (hlength : log.length < 2 ^ 32)
    {kind : String} (hkind : c.files .published = some kind) :
    ∃ e, e.eventKind = kind ∧ Overlaps hash log e (c.command X) := by
  have hsigned := hwalked.signed prior (List.mem_of_getLast? hlast)
  have hseq : prior.seq.toNat + 1 < 2 ^ 32 := by
    rw [hwalked.last_seq hlast]
    exact hlength
  have hend := quiet_requireCurrentState (X := X) hash
  have hdone := @buildChainedEvent_done X hash prior hsigned hseq
  cases c with
  | deprecateArtifact target nowUnix =>
    obtain rfl : target = hash := h
    obtain rfl := Option.some.inj hkind
    obtain ⟨e, he⟩ := hdone .deprecated (show "deprecated".toByteArray.data.toList.length < 2 ^ 64 by decide) nowUnix
    obtain ⟨hchained, -, hkind⟩ := buildChainedEvent_ok he
    refine ⟨e, hkind, overlaps_of_build (registryTransition X target .deprecated nowUnix) hX hwalked hlast
      ?_ he hchained
      fun _ => hend⟩
    rw [hpublished]
    rfl
  | revoke target policy reasonClass reason nowUnix =>
    obtain rfl : target = hash := h
    cases hrecorded : recordedPolicy policy reasonClass with
    | error message =>
      have hnone : (CommandLine.revoke target policy reasonClass reason nowUnix).files .published = none := by
        rw [files_revoke, hrecorded]
        rfl
      cases hnone.symm.trans hkind
    | ok recorded =>
      have hsome : (CommandLine.revoke target policy reasonClass reason nowUnix).files .published = some "revoked" := by
        rw [files_revoke, hrecorded]
        rfl
      obtain rfl := Option.some.inj (hsome.symm.trans hkind)
      obtain ⟨e, he⟩ := hdone .revoked (show "revoked".toByteArray.data.toList.length < 2 ^ 64 by decide) nowUnix
      obtain ⟨hchained, -, hkind⟩ := buildChainedEvent_ok he
      refine ⟨e, hkind, ?_⟩
      show Overlaps target log e (Registry.revoke X target policy reasonClass reason nowUnix)
      unfold Registry.revoke
      rw [hrecorded]
      apply overlaps_of_build (registryTransition X target .revoked nowUnix) hX hwalked hlast ?hf he hchained ?hend
      case hf =>
        rw [hpublished]
        rfl
      case hend => exact fun _ => ⟨trivial, fun _ => hend⟩
  | rollback env tag target nowUnix =>
    obtain rfl : target = hash := h
    obtain rfl := Option.some.inj hkind
    obtain ⟨e, he⟩ := hdone prior.newState (show "tag_moved".toByteArray.data.toList.length < 2 ^ 64 by decide) nowUnix
    obtain ⟨hchained, -, hkind⟩ := buildChainedEvent_ok he
    refine ⟨e, hkind, ?_⟩
    apply overlaps_of_build (fun prior => buildTagMovedEvent X prior TestKeys.registryRootKeyId .registry
      (mockStamp X target nowUnix)) hX hwalked hlast ?hf he hchained ?hend
    case hf =>
      rw [hpublished]
      rfl
    case hend => exact fun _ => ⟨trivial, fun _ => hend⟩
  | mlCheck | attest | publish | compile | compileIntent => cases hkind

/-- Where two turns take a side that reads twice. -/
def stageOf (p next₁ next₂ : Command LifecycleState) : Nat → Command LifecycleState
  | 0 => p
  | 1 => next₁
  | _ => next₂

/-- Once both sides have read the head, both appends are accepted. -/
theorem both_accepted {side : Bool → Command LifecycleState} {event : Bool → LifecycleEvent}
    (hread : r.readEvents hash = .ok log) (hoverlaps : ∀ who, Overlaps hash log (event who) (side who))
    (hname : ∀ who, eventFileName (event who) ≠ eventFileName (event !who))
    (hfree : ∀ who, ∀ file ∈ r.events hash, file.1 ≠ eventFileName (event who)) {before after : List Bool}
    (htrue : before.count true = 2) (hfalse : before.count false = 2) {who : Bool} (hmem : who ∈ after) :
    (who, ⟨.appendEvent hash (event who), .ok ()⟩) ∈
      (Race.mk (side true) (side false) r).calls perform (before ++ after) := by
  choose next₁ next₂ tail hfirst hsecond hthird hquiet using fun who => (hoverlaps who).stages
  have hanswer : perform (.readEvents hash) r = (.ok log, r) := Prod.ext (mapError_ok.2 hread) rfl
  have hstep : ∀ w n, n < 2 → (stageOf (side w) (next₁ w log) (next₂ w log) n).step perform r =
      (stageOf (side w) (next₁ w log) (next₂ w log) (n + 1), r) := by
    intro w n hn
    have hn : n = 0 ∨ n = 1 := by omega
    rcases hn with rfl | rfl
    · show (side w).step perform r = (next₁ w log, r)
      rw [hfirst w, Prog.step, hanswer]
    · show (next₁ w log).step perform r = (next₂ w log, r)
      rw [hsecond w, Prog.step, hanswer]
  have hrun := Race.run_stages @perform hstep before 0 0 (by omega) (by omega)
  rw [htrue, hfalse] at hrun
  have hrun : (Race.mk (side true) (side false) r).run perform before = ⟨next₂ true log, next₂ false log, r⟩ := hrun
  rw [Race.calls_append, hrun]
  have hside : ∀ w, (Race.mk (next₂ true log) (next₂ false log) r).side w = .call (.appendEvent hash (event w))
      (tail w) := by
    intro w
    rw [← hthird w]
    cases w <;> rfl
  refine List.mem_append_right _ (pending_accepted (hside who) ?_ (hfree who) hmem)
  rw [hside]
  exact ⟨fun _ => (hname who).symm, fun u => (hquiet _ u).elsewhere _⟩

/-- Two commands that overlap are given one number. -/
theorem not_once_of_overlap (hX : X.Lawful) (commands : Bool → CommandLine) (h : ∀ who, (commands who).Moves hash)
    {schedule : List Bool} (hfiles : r.events hash = log.map eventFile) (hlog : LogAccepted X hash log)
    (hoverlap : Overlap X r hash (commands true) (commands false) schedule) :
    ¬ RaceSafe X perform id hash (raceOf X (commands true) (commands false) r) schedule := by
  intro hsafe
  obtain ⟨state, kind, kind', read, hstate, hread, hlength, hkind, hkind', hne, before, after, rfl, htrue, hfalse, hmem,
    hmem'⟩ := hoverlap
  obtain rfl := Except.ok.inj (hread.symm.trans (hlog.readEvents hfiles))
  obtain rfl := files_published hkind hkind' hne
  have hcurrent : currentState X read = .ok (some .published) := by
    unfold lifecycleState at hstate
    rw [hread] at hstate
    exact hstate
  obtain ⟨prior, hlast, hpublished⟩ : ∃ prior, read.getLast? = some prior ∧ prior.newState = .published := by
    rcases hlog with rfl | hwalked
    · cases hcurrent
    · obtain ⟨prior, hlast⟩ := hwalked.exists_last
      refine ⟨prior, hlast, ?_⟩
      exact Option.some.inj (Except.ok.inj ((hwalked.currentState hX hlast).symm.trans hcurrent))
  have hwalked := hlog.walked hlast
  obtain ⟨e, rfl, he⟩ := overlaps_command hX (h true) hwalked hlast hpublished hlength hkind
  obtain ⟨e', rfl, he'⟩ := overlaps_command hX (h false) hwalked hlast hpublished hlength hkind'
  have hname : eventFileName e ≠ eventFileName e' := fun heq => hne (eventFileName_inj heq).2
  have hfree : ∀ {e : LifecycleEvent}, e.seq.toNat = read.length → ∀ file ∈ r.events hash,
      file.1 ≠ eventFileName e := by
    intro e hseq file hfile heq
    rw [hfiles] at hfile
    obtain ⟨earlier, hearlier, rfl⟩ := List.mem_map.1 hfile
    have hlt := hwalked.seq_lt hearlier
    rw [(eventFileName_inj heq).1, hseq] at hlt
    exact lt_irrefl _ hlt
  have hboth := @both_accepted hash r read (fun who => (commands who).command X) (fun who => if who then e else e')
    hread (Bool.forall_bool.2 ⟨he', he⟩) (Bool.forall_bool.2 ⟨hname.symm, hname⟩)
    (Bool.forall_bool.2 ⟨hfree he'.seq, hfree he.seq⟩) before after htrue hfalse
  have hsame := RaceSafe.eq_of_seq hsafe.once (hboth hmem) (hboth hmem') (if_pos rfl) (if_pos rfl)
    (UInt32.toNat_inj.1 (he'.seq.trans he.seq.symm))
  have htwo : true = false := congrArg Prod.fst hsame
  cases htwo

/-! ## The races of a reachable registry -/

/-- Safe, unless the two commands file different kinds and both have read the head before either appends. -/
theorem raceSafe_iff (hX : X.Lawful) (commands : List CommandLine) {c c' : CommandLine} (h : c.Moves hash)
    (h' : c'.Moves hash) (schedule : List Bool) :
    RaceSafe X perform id hash (raceOf X c c' (runAll X commands .empty)) schedule ↔
      ¬ Overlap X (runAll X commands .empty) hash c c' schedule := by
  obtain ⟨s, hs, hready⟩ := runAll_ready hX commands Backend.Ready.empty hash
  have hlog := hready.log.logAccepted
  constructor
  · intro hsafe hoverlap
    exact not_once_of_overlap hX (fun who => if who then c else c') (Bool.forall_bool.2 ⟨h', h⟩) hs.log hlog
      hoverlap hsafe
  · intro hapart
    obtain ⟨state, hstate⟩ := hlog.currentState hX
    have hread := hlog.readEvents hs.log
    have hclash : ¬ Clash (fun who => if who then c else c') state s.log (fun _ => 0) schedule := by
      rintro ⟨state, kind, kind', rfl, hlength, hkind, hkind', hne, before, after, rfl, htrue, hfalse, hafter⟩
      rw [Nat.zero_add] at htrue hfalse
      exact hapart ⟨state, kind, kind', s.log, bind_ok.2 ⟨s.log, hread, hstate⟩, hread, hlength, hkind,
        hkind', hne, before,
        after, rfl, htrue, hfalse, hafter⟩
    have hfiles : (raceOf X c c' (runAll X commands .empty)).store.events hash = s.log.map eventFile := hs.log
    obtain ⟨log', hlog', hfiles'⟩ := run_accepted hlog (fun _ => 0) hfiles
      (Bool.forall_bool.2 ⟨.inl (chaining_command h'), .inl (chaining_command h)⟩)
      (Bool.forall_bool.2 ⟨files_command h' hstate, files_command h hstate⟩) hclash
    exact raceSafe_of_accepted hX hlog hfiles hlog' hfiles'

end

end Ke.Registry
