/-
The registry over whole runs of commands: every log is accepted, starts with a draft and moves on by
the transition table or by a move of a tag, and a state is reached through the states before it.
-/
import KeEngine.Registry.Effects

namespace Ke.Registry

open Ke Wire Compiler

/-! ## The transition table -/

/-- The place of a state in the forward order. -/
def LifecycleState.rank : LifecycleState → Nat
  | .draft => 0
  | .structurallyVerified => 1
  | .mlChecked => 2
  | .expertAttested => 3
  | .published => 4
  | .deprecated => 5
  | .revoked => 6

/-- The states that an artifact has passed on its way to a state, at least. -/
def LifecycleState.before : LifecycleState → List LifecycleState
  | .draft => []
  | .structurallyVerified => [.draft]
  | .mlChecked => [.draft, .structurallyVerified]
  | .expertAttested => [.draft, .structurallyVerified, .mlChecked]
  | .published => [.draft, .structurallyVerified, .mlChecked, .expertAttested]
  | .deprecated | .revoked => [.draft, .structurallyVerified, .mlChecked, .expertAttested, .published]

section

variable {source target : LifecycleState} {kind : String}

/-- An edge goes up. -/
theorem canTransition_rank {pre : Preconditions} (h : canTransition source target pre = true) :
    source.rank < target.rank := by
  cases source <;> cases target <;> first | (cases h; done) | decide

theorem Move.rank_le (h : Move source target kind) : source.rank ≤ target.rank := by
  cases h with
  | edge h => exact (canTransition_rank h).le
  | tagMoved => exact le_rfl

theorem Move.not_revoked (h : Move source target kind) : source ≠ .revoked := by
  rintro rfl
  cases h with
  | edge h => cases target <;> cases h

/-- What the target needs, the source has passed, with itself. -/
theorem Move.before_sublist (h : Move source target kind) : target.before.Sublist (source.before ++ [source]) := by
  cases h with
  | edge h => cases source <;> cases target <;> first | (cases h; done) | decide
  | tagMoved => decide

end

/-! ## Grown logs -/

section

variable {X : Externals} {hash : Hash32} {log : List LifecycleEvent}

/-- Neighbours of a log: chained, and a move. -/
def Linked (X : Externals) (e e' : LifecycleEvent) : Prop :=
  ChainedOn X e e' ∧ Move e.newState e'.newState e'.eventKind

theorem Grown.isChain (h : Grown X hash log) : log.IsChain (Linked X) := by
  induction h with
  | draft => exact List.isChain_singleton _
  | move _ last chained move ih =>
    refine List.isChain_append.2 ⟨ih, List.isChain_singleton _, fun x hx y hy => ?_⟩
    rw [last] at hx
    cases hx
    cases hy
    exact ⟨chained, move⟩

/-- Ranks never fall, and nothing follows a revocation. -/
theorem Grown.ranks (h : Grown X hash log) : log.Pairwise fun e e' =>
    e.newState.rank ≤ e'.newState.rank ∧ e.newState ≠ .revoked := by
  have htrans : IsTrans LifecycleEvent fun e e' => e.newState.rank ≤ e'.newState.rank ∧ e.newState ≠ .revoked :=
    ⟨fun _ _ _ hab hbc => ⟨hab.1.trans hbc.1, hab.2⟩⟩
  exact List.isChain_iff_pairwise.1 (h.isChain.imp fun _ _ hl => ⟨hl.2.rank_le, hl.2.not_revoked⟩)

/-- Every state was reached through the states before it. -/
theorem Grown.before_sublist (h : Grown X hash log) : ∀ (i : Nat) (e : LifecycleEvent), log[i]? = some e →
    e.newState.before.Sublist ((log.take i).map (·.newState)) := by
  induction h with
  | draft _ _ _ newState =>
    intro i e he
    obtain rfl := List.mem_singleton.1 (List.mem_of_getElem? he)
    rw [newState]
    exact List.nil_sublist _
  | @move log prior last grown hlast chained move ih =>
    intro i e he
    rcases lt_or_ge i log.length with hi | hi
    · rw [List.getElem?_append_left hi] at he
      rw [List.take_append_of_le_length hi.le]
      exact ih i e he
    · -- the last event: what it needs, the head before it has passed, with itself
      rw [List.getElem?_append_right hi] at he
      obtain rfl := List.mem_singleton.1 (List.mem_of_getElem? he)
      have hzero := (List.getElem?_eq_some_iff.1 he).1
      rw [List.length_singleton] at hzero
      obtain rfl : i = log.length := by omega
      rw [List.take_left]
      obtain ⟨front, rfl⟩ := List.getLast?_eq_some_iff.1 hlast
      have hprior := ih front.length prior (by simp)
      rw [List.take_left] at hprior
      rw [List.map_append, List.map_singleton]
      exact move.before_sublist.trans (hprior.append_right _)

end

/-! ## Ready registries -/

section

variable {X : Externals} {hash : Hash32} {s s' : Slot}

/-- A move onto the head keeps a slot ready, once the evidence for the new state is there. -/
theorem Slot.Ready.follow (h : s.Ready X hash) {newState : LifecycleState} {kind : String} {e : LifecycleEvent}
    (he : Follows X s.log newState kind e) (hmove : ∀ prior, s.state = some prior → Move prior newState kind)
    (hsidecar : newState = .mlChecked → ∃ block, s.sidecar = some (.good block)) :
    Slot.Ready X hash { s with log := s.log ++ [e] } := by
  obtain ⟨prior, hlast, hchained, rfl, rfl⟩ := he
  have hstate : s.state = some prior.newState := by
    unfold Slot.state
    rw [hlast]
    rfl
  refine ⟨.inr ((h.log.grown hlast).move hlast hchained (hmove _ hstate)), h.stored, fun _ => ?_, ?_⟩
  · refine h.filed fun hnil => ?_
    rw [hnil] at hlast
    cases hlast
  · intro e' he' hml
    rcases List.mem_append.1 he' with he' | he'
    · exact h.sidecar e' he' hml
    · obtain rfl := List.mem_singleton.1 he'
      exact hsidecar hml

theorem Slot.Ready.putBytes (h : s.Ready X hash) {kew : Bytes} {a : Artifact} (ha : Stored X hash kew a) :
    Slot.Ready X hash { s with kew := some kew } := by
  refine ⟨h.log, fun kew' hkew' => ?_, fun _ => ⟨kew, rfl⟩, h.sidecar⟩
  obtain rfl := Option.some.inj hkew'
  exact ⟨a, ha⟩

theorem Slot.Ready.putEvidence (h : s.Ready X hash) (block : ConsistencyBlock) :
    Slot.Ready X hash { s with sidecar := some (.good block) } :=
  ⟨h.log, h.stored, h.filed, fun _ _ _ => ⟨block, rfl⟩⟩

/-- No effect of a command makes a ready slot unready. -/
theorem Effect.ready {c : CommandLine} (h : Effect X hash c s s') (hs : s.Ready X hash) : s'.Ready X hash := by
  -- the head is in the one state that the command demands
  have hedge : ∀ {source target prior : LifecycleState} (pre : Preconditions),
      canTransition source target pre = true → s.state = some source → s.state = some prior →
        Move prior target target.eventKind := by
    intro source target prior pre hpre hsource hprior
    obtain rfl := Option.some.inj (hsource.symm.trans hprior)
    exact .edge hpre
  cases h with
  | none => exact hs
  | refiled made address =>
    subst address
    exact hs.putBytes made.stored.1
  | drafted made address empty grown states =>
    subst address
    refine ⟨.inr grown, (hs.putBytes made.stored.1).stored, fun _ => ⟨_, rfl⟩, fun e he hml => ?_⟩
    -- neither state of the new log is past the check
    have hmem := List.mem_map_of_mem (f := fun e : LifecycleEvent => e.newState) he
    rcases states with states | states <;> rw [states, hml] at hmem <;> exact absurd hmem (by decide)
  | evidence => exact hs.putEvidence _
  | mlChecked state event =>
    refine (hs.putEvidence _).follow event (fun prior hprior => ?_) fun _ => ⟨_, rfl⟩
    exact hedge ⟨true, true, true, true, true⟩ rfl state hprior
  | attestedBytes state kew_eq stored attested => exact hs.putBytes (stored.attested attested)
  | expertAttested state kew_eq stored attested event =>
    refine (hs.putBytes (stored.attested attested)).follow event (fun prior hprior => ?_) nofun
    exact hedge ⟨true, true, true, true, true⟩ rfl state hprior
  | published state _ _ _ _ event =>
    exact hs.follow event (fun prior => hedge ⟨true, true, true, true, true⟩ rfl state) nofun
  | deprecated state event =>
    exact hs.follow event (fun prior => hedge .none rfl state) nofun
  | revoked state event =>
    rcases state with state | state
    · exact hs.follow event (fun prior => hedge .none rfl state) nofun
    · exact hs.follow event (fun prior => hedge .none rfl state) nofun
  | tagMoved state event =>
    refine hs.follow event (fun prior hprior => ?_) nofun
    obtain rfl := Option.some.inj (state.symm.trans hprior)
    exact .tagMoved

/-- What a command leaves is ready, whatever it returns. -/
theorem CommandLine.run_ready (hX : X.Lawful) {r : Backend} (hr : r.Ready X) (c : CommandLine) :
    (c.run X r).2.Ready X := by
  intro hash
  obtain ⟨s, hs, hready⟩ := hr hash
  obtain ⟨s', hs', heffect⟩ := run_effect hX hr c hs
  exact ⟨s', hs', heffect.ready hready⟩

/-- So is what any run of commands leaves. -/
theorem runAll_ready (hX : X.Lawful) : ∀ (commands : List CommandLine) {r : Backend}, r.Ready X →
    (runAll X commands r).Ready X
  | [], _, hr => hr
  | c :: commands, _, hr => runAll_ready hX commands (c.run_ready hX hr)

/-! ## Commands about other artifacts -/

/-- The command is about the artifact: it assembles it, or names it. -/
def CommandLine.On (X : Externals) (hash : Hash32) (c : CommandLine) : Prop :=
  match c with
  | .compile .. | .compileIntent .. => ∃ a kew, c.Assembles X a kew ∧ a.manifest.artifactHash = hash
  | .mlCheck target _ | .attest target _ _ | .publish target _ _ _ _ | .deprecateArtifact target _
  | .revoke target _ _ _ _ | .rollback _ _ target _ => target = hash

theorem CommandLine.Assembles.on {c : CommandLine} {a : Artifact} {kew : Bytes} (h : c.Assembles X a kew)
    (address : a.manifest.artifactHash = hash) : c.On X hash := by
  cases c with
  | compile | compileIntent => exact ⟨a, kew, h, address⟩
  | mlCheck | attest | publish | deprecateArtifact | revoke | rollback => cases h

/-- A command about another artifact has no effect. -/
theorem Effect.frame {c : CommandLine} (h : Effect X hash c s s') (hnot : ¬ c.On X hash) : s' = s := by
  cases h with
  | none => rfl
  | refiled made address => exact absurd (made.on address) hnot
  | drafted made address => exact absurd (made.on address) hnot
  | evidence | mlChecked | attestedBytes | expertAttested | published | deprecated | revoked | tagMoved =>
    exact absurd rfl hnot

theorem runAll_frame (hX : X.Lawful) : ∀ (commands : List CommandLine) {r : Backend}, r.Ready X →
    (∀ c ∈ commands, ¬ c.On X hash) → r.Holds hash s → (runAll X commands r).Holds hash s
  | [], _, _, _, hs => hs
  | c :: commands, r, hr, hnot, hs => by
    obtain ⟨s', hs', heffect⟩ := run_effect hX hr c hs
    rw [heffect.frame (hnot c List.mem_cons_self)] at hs'
    exact runAll_frame hX commands (c.run_ready hX hr) (fun c' hc' => hnot c' (List.mem_cons_of_mem c hc')) hs'

theorem runAll_append (before after : List CommandLine) (r : Backend) :
    runAll X (before ++ after) r = runAll X after (runAll X before r) := List.foldl_append ..

/-! ## The logs of a run -/

/-- What holds of the log of an artifact. -/
structure LifecycleLog (X : Externals) (r : Backend) (hash : Hash32) (log : List LifecycleEvent) : Prop where
  files : r.events hash = log.map eventFile
  read : r.readEvents hash = .ok log
  accepted : ∃ state, currentState X log = .ok state
  seqs : log.map (·.seq.toNat) = List.range log.length
  links : log.IsChain fun e e' => ∃ c, e.chainHash X = .ok c ∧ e'.prevEventHash = some c
  signatures : ∀ e ∈ log, e.verifySignature X = .ok ()
  draft : ∀ e, log.head? = some e → e.newState = .draft
  moves : log.IsChain fun e e' => e'.eventKind = "tag_moved" ∧ e.newState = .published ∧ e'.newState = .published ∨
    ∃ pre, canTransition e.newState e'.newState pre = true
  published : ∀ before e after, log = before ++ e :: after → e.newState = .published →
    [.structurallyVerified, .mlChecked, .expertAttested].Sublist (before.map (·.newState))
  evidence : ∀ e ∈ log, e.newState = .mlChecked → ∃ block, r.readConsistency hash = .ok (some block)
  revoked : log.Pairwise fun e _ => e.newState ≠ .revoked
  deprecated : log.Pairwise fun e e' => e.newState = .deprecated → e'.newState ≠ .published

theorem Slot.Ready.lifecycleLog (hX : X.Lawful) {r : Backend} (hs : r.Holds hash s) (h : s.Ready X hash) :
    LifecycleLog X r hash s.log := by
  have hread := h.log.readEvents hs
  have hstate := h.log.currentState hX
  have hevidence : ∀ e ∈ s.log, e.newState = .mlChecked → ∃ block, r.readConsistency hash = .ok (some block) := by
    intro e he hml
    obtain ⟨block, hblock⟩ := h.sidecar e he hml
    refine ⟨block, ?_⟩
    unfold Backend.readConsistency readSidecar
    rw [hs.sidecar, hblock]
    rfl
  rcases h.log with hempty | hgrown
  · -- no log yet: there is nothing to say of its events
    have hfiles := hs.log
    rw [hempty] at hfiles hread hstate hevidence ⊢
    refine ⟨hfiles, hread, ⟨_, hstate⟩, rfl, .nil, ?_, ?_, .nil, ?_, hevidence, .nil, .nil⟩
    · intro e he
      cases he
    · intro e he
      cases he
    · intro before e after h
      exact absurd h.symm (List.append_ne_nil_of_right_ne_nil before (List.cons_ne_nil e after))
  · have hranks := hgrown.ranks
    refine ⟨hs.log, hread, ⟨_, hstate⟩, hgrown.walked.seqs, ?_, ?_, ?_, ?_, ?_, hevidence, ?_, ?_⟩
    · exact hgrown.isChain.imp fun _ _ hl => hl.1.link
    · exact fun e he => (hgrown.signed e he).verifySignature hX
    · obtain ⟨first, rest, hlog, -, -, hdraft⟩ := hgrown.head
      rintro e he
      rw [hlog] at he
      obtain rfl := Option.some.inj he
      exact hdraft
    · refine hgrown.isChain.imp fun e e' hl => ?_
      obtain ⟨-, hmove⟩ := hl
      generalize e.newState = source at hmove ⊢
      generalize e'.newState = target at hmove ⊢
      generalize e'.eventKind = kind at hmove ⊢
      cases hmove with
      | edge h => exact .inr ⟨_, h⟩
      | tagMoved => exact .inl ⟨rfl, rfl, rfl⟩
    · intro before e after hlog hpublished
      have hpassed := hgrown.before_sublist before.length e (by rw [hlog]; simp)
      rw [hlog, List.take_left, hpublished] at hpassed
      exact List.sublist_of_cons_sublist hpassed
    · exact hranks.imp fun h => h.2
    · refine hranks.imp fun {e e'} h hdeprecated hpublished => ?_
      have hrank := h.1
      rw [hdeprecated, hpublished] at hrank
      exact absurd hrank (by decide)

/-- After any run of commands, every log is a lifecycle. -/
theorem runAll_lifecycleLog (hX : X.Lawful) (commands : List CommandLine) (hash : Hash32) :
    ∃ log, LifecycleLog X (runAll X commands .empty) hash log := by
  obtain ⟨s, hs, hready⟩ := runAll_ready hX commands .empty hash
  exact ⟨s.log, hready.lifecycleLog hX hs⟩

end

/-! ## The life of a transfer limit -/

def transferDocument : IntentSpecInput where
  actionClass := "payment.transfer"
  criteria := [⟨"kyc_tier", "2", "stable"⟩]
  idempotency := ⟨"tenant", ["tenant_id"]⟩
  sourceSpans := []

/-- The address of the document under a regime. -/
def transferHash : Hash32 :=
  match assembleIntentSpec standIn transferDocument "us" with
  | .ok made => made.1.manifest.artifactHash
  | .error _ => zeroHash

/-- Compiled, checked, attested and published. -/
def transferLife : List CommandLine :=
  [.compileIntent (.ok transferDocument) "us" 0, .mlCheck transferHash 1,
    .attest transferHash [.sourceFidelity, .publicationApproval] 2, .publish transferHash "local" "stable" none 3]

/-- What it leaves in the registry. -/
def transferRegistry : Backend := runAll standIn transferLife .empty

theorem runAll_lifecycleLog_transfer :
    ∃ log, LifecycleLog standIn (runAll standIn transferLife .empty) transferHash log ∧
      log.map (·.newState) = [.draft, .structurallyVerified, .mlChecked, .expertAttested, .published] := by
  obtain ⟨log, hlog⟩ := runAll_lifecycleLog standIn_lawful transferLife transferHash
  have hrun : ((runAll standIn transferLife .empty).readEvents transferHash).toOption.any (fun events =>
      decide (events.map (·.newState) = [.draft, .structurallyVerified, .mlChecked, .expertAttested, .published])) =
        true := by decide +kernel
  obtain ⟨events, hread, hstates⟩ := exists_ok_and hrun
  obtain rfl := Except.ok.inj (hlog.read.symm.trans hread)
  exact ⟨log, hlog, of_decide_eq_true hstates⟩

end Ke.Registry
