/-
Genuine events filed by someone else. The links bind a log from its first event on, and what the first
event names is compared with the address by nobody: a log that is copied as a whole is accepted for
another artifact.
-/
import KeEngine.Registry.Agreement

namespace Ke.Registry

open Ke Wire

section

variable {X : Externals} {hash : Hash32} {log : List LifecycleEvent}

/-! ## Genuine events -/

/-- Signed in some reachable registry. -/
def Genuine (X : Externals) (e : LifecycleEvent) : Prop :=
  ∃ commands hash log, (runAll X commands .empty).readEvents hash = .ok log ∧ e ∈ log

/-- Signed one after the other in some reachable registry. -/
def GenuinePair (X : Externals) (e₀ e : LifecycleEvent) : Prop :=
  ∃ commands hash log before after, (runAll X commands .empty).readEvents hash = .ok log ∧
    log = before ++ e₀ :: e :: after

/-- An event with a link was chained onto the event before it. -/
theorem Grown.chained_of_mem (h : Grown X hash log) {e : LifecycleEvent} (he : e ∈ log)
    (hlink : e.prevEventHash ≠ none) :
    ∃ before e₀ after, log = before ++ e₀ :: e :: after ∧ ChainedOn X e₀ e := by
  induction h with
  | draft _ _ _ _ _ link =>
    obtain rfl := List.mem_singleton.1 he
    exact absurd link hlink
  | @move log prior last grown hlast chained _ ih =>
    rcases List.mem_append.1 he with he | he
    · obtain ⟨before, e₀, after, rfl, hchained⟩ := ih he
      exact ⟨before, e₀, after ++ [last], by simp, hchained⟩
    · obtain rfl := List.mem_singleton.1 he
      obtain ⟨before, rfl⟩ := List.getLast?_eq_some_iff.1 hlast
      exact ⟨before, prior, [], by simp, chained⟩

theorem readEvents_grown (hX : X.Lawful) {commands : List CommandLine} {hash : Hash32} {log : List LifecycleEvent}
    (hread : (runAll X commands .empty).readEvents hash = .ok log) : LogOk X hash log := by
  obtain ⟨s, hs, hslot⟩ := runAll_ready hX commands .empty hash
  obtain rfl := Except.ok.inj ((hslot.log.readEvents hs).symm.trans hread)
  exact hslot.log

theorem GenuinePair.chained (hX : X.Lawful) {e₀ e : LifecycleEvent} (h : GenuinePair X e₀ e) : ChainedOn X e₀ e := by
  obtain ⟨commands, hash, log, before, after, hread, hlog⟩ := h
  rcases readEvents_grown hX hread with hempty | hgrown
  · rw [hempty] at hlog
    exact absurd hlog.symm (List.append_ne_nil_of_right_ne_nil _ (List.cons_ne_nil _ _))
  · exact (List.isChain_iff_forall_rel_of_append_cons_cons.1 hgrown.isChain hlog).1

theorem Genuine.exists_pair (hX : X.Lawful) {e : LifecycleEvent} (h : Genuine X e) (hlink : e.prevEventHash ≠ none) :
    ∃ e₀, GenuinePair X e₀ e := by
  obtain ⟨commands, hash, log, hread, he⟩ := h
  rcases readEvents_grown hX hread with hempty | hgrown
  · rw [hempty] at he
    cases he
  · obtain ⟨before, e₀, after, hlog, -⟩ := hgrown.chained_of_mem he hlink
    exact ⟨e₀, commands, hash, log, before, after, hread, hlog⟩

/-! ## Accepted lists -/

/-- The walk checks the link of every event but the first. -/
theorem checkFrom_links : ∀ {log : List LifecycleEvent} {i : Nat} {prior c : Option Hash32},
    checkFrom X i prior log = .ok c →
      log.IsChain fun e e' => ∃ d, e.chainHash X = .ok d ∧ e'.prevEventHash = some d
  | [], _, _, _, _ => .nil
  | [e], _, _, _, _ => List.isChain_singleton e
  | e :: e' :: log, i, prior, c, h => by
    rw [checkFrom] at h
    split at h
    · cases h
    · obtain ⟨_, -, h⟩ := bind_ok.1 h
      obtain ⟨_, -, h⟩ := bind_ok.1 h
      obtain ⟨d, hd, h⟩ := bind_ok.1 h
      refine List.IsChain.cons_cons ⟨d, hd, ?_⟩ (checkFrom_links h)
      rw [checkFrom] at h
      split at h
      · cases h
      · obtain ⟨_, hlink, -⟩ := bind_ok.1 h
        unfold checkLink at hlink
        cases hprev : e'.prevEventHash with
        | none => rw [hprev] at hlink; cases hlink
        | some link =>
          rw [hprev] at hlink
          simp only at hlink
          split at hlink
          · rename_i heq
            rw [heq]
          · cases hlink

/-- A list found under an address, which the readers accept. -/
structure Accepted (X : Externals) (r : Backend) (hash : Hash32) (log : List LifecycleEvent) : Prop where
  read : r.readEvents hash = .ok log
  state : ∃ state, currentState X log = .ok state
  evidence : ∃ evidence, readRegistryEvidence X r hash = .ok evidence

/-- Every event names the address, and goes on from the state before it. -/
structure BoundTo (hash : Hash32) (log : List LifecycleEvent) : Prop where
  hashes : ∀ e ∈ log, e.artifactHash = hash
  states : log.IsChain fun e e' => e'.priorState = some e.newState

/-- Two different events with one chain hash, one of which was exchanged for the other. -/
def Collided (X : Externals) (log : List LifecycleEvent) : Prop :=
  ∃ before e e' after e₀, log = before ++ e :: e' :: after ∧ GenuinePair X e₀ e' ∧
    e₀.chainHash X = e.chainHash X ∧ (e₀.newState ≠ e.newState ∨ e₀.artifactHash ≠ e.artifactHash)

/-- Short of a collision, accepted neighbours are neighbours where they were signed. -/
theorem Accepted.isChain (hX : X.Lawful) {r : Backend} (haccepted : Accepted X r hash log)
    (hgenuine : ∀ e ∈ log, Genuine X e) (hfree : ¬ Collided X log) :
    log.IsChain fun e e' => e'.artifactHash = e.artifactHash ∧ e'.priorState = some e.newState := by
  obtain ⟨state, hstate⟩ := haccepted.state
  obtain ⟨c, hwalk, -⟩ := bind_ok.1 hstate
  have hlinks := List.isChain_iff_forall_rel_of_append_cons_cons.1 (checkFrom_links hwalk)
  refine List.isChain_iff_forall_rel_of_append_cons_cons.2 fun e e' before after hlog => ?_
  obtain ⟨d, hd, hlink⟩ := hlinks hlog
  have hmem : e' ∈ log := by
    rw [hlog]
    simp
  obtain ⟨e₀, hpair⟩ := (hgenuine e' hmem).exists_pair hX (by rw [hlink]; exact nofun)
  have hchained := hpair.chained hX
  obtain ⟨d₀, hd₀, hlink₀⟩ := hchained.link
  obtain rfl := Option.some.inj (hlink.symm.trans hlink₀)
  have hsame : e₀.newState = e.newState ∧ e₀.artifactHash = e.artifactHash := by
    by_contra hdiff
    exact hfree ⟨before, e, e', after, e₀, hlog, hpair, hd₀.trans hd.symm, not_and_or.1 hdiff⟩
  exact ⟨hchained.hash.trans hsame.2, by rw [hchained.priorState, hsame.1]⟩

/-- Genuine events that are accepted for an address are bound to it exactly when the first one names
it, and no hash collides. -/
theorem boundTo_iff (hX : X.Lawful) {r : Backend} (haccepted : Accepted X r hash log)
    (hgenuine : ∀ e ∈ log, Genuine X e) :
    BoundTo hash log ↔ (∀ e ∈ log.head?, e.artifactHash = hash) ∧ ¬ Collided X log := by
  constructor
  · intro hbound
    refine ⟨fun e he => hbound.hashes e (List.mem_of_head? he), ?_⟩
    rintro ⟨before, e, e', after, e₀, hlog, hpair, -, hdiff⟩
    have hchained := hpair.chained hX
    have hstate := List.isChain_iff_forall_rel_of_append_cons_cons.1 hbound.states hlog
    rw [hchained.priorState] at hstate
    have he : e.artifactHash = hash := hbound.hashes e (by rw [hlog]; simp)
    have he' : e'.artifactHash = hash := hbound.hashes e' (by rw [hlog]; simp)
    rcases hdiff with hdiff | hdiff
    · exact hdiff (Option.some.inj hstate)
    · exact hdiff (by rw [← hchained.hash, he', he])
  · rintro ⟨hhead, hfree⟩
    have hchain := haccepted.isChain hX hgenuine hfree
    refine ⟨?_, hchain.imp fun _ _ h => h.2⟩
    -- the address of the first event is that of all
    have hall : ∀ {log : List LifecycleEvent},
        (log.IsChain fun e e' => e'.artifactHash = e.artifactHash ∧ e'.priorState = some e.newState) →
          (∀ e ∈ log.head?, e.artifactHash = hash) → ∀ e ∈ log, e.artifactHash = hash := by
      intro log
      induction log with
      | nil => exact fun _ _ _ he => absurd he List.not_mem_nil
      | cons first log ih =>
        intro hchain hhead e he
        have hfirst := hhead first rfl
        rcases List.mem_cons.1 he with rfl | he
        · exact hfirst
        · refine ih hchain.tail (fun second hsecond => ?_) e he
          cases log with
          | nil => cases hsecond
          | cons second' log =>
            obtain rfl := Option.some.inj hsecond
            exact (List.isChain_cons_cons.1 hchain).1.1.trans hfirst
    exact hall hchain hhead

theorem boundTo_iff_transfer : ∃ log, Accepted standIn transferRegistry transferHash log ∧
    (BoundTo transferHash log ↔ (∀ e ∈ log.head?, e.artifactHash = transferHash) ∧ ¬ Collided standIn log) := by
  obtain ⟨s, hs, hslot⟩ := runAll_ready standIn_lawful transferLife .empty transferHash
  obtain ⟨head, hevidence⟩ := hslot.readRegistryEvidence standIn_lawful hs
  have hread := hslot.log.readEvents hs
  have haccepted : Accepted standIn transferRegistry transferHash s.log :=
    ⟨hread, ⟨_, hslot.log.currentState standIn_lawful⟩, _, hevidence⟩
  exact ⟨s.log, haccepted,
    boundTo_iff standIn_lawful haccepted fun e he => ⟨transferLife, transferHash, s.log, hread, he⟩⟩

/-! ## Copied logs -/

/-- The files of one log, copied to the directory of another. -/
def Backend.copyLog (r : Backend) (source target : Hash32) : Backend :=
  { r with events := Function.update r.events target (r.events source) }

theorem readEvents_copyLog (r : Backend) (source target : Hash32) :
    (r.copyLog source target).readEvents target = r.readEvents source := by
  have hfiles : (r.copyLog source target).events target = r.events source := Function.update_self ..
  unfold Backend.readEvents
  rw [hfiles]


/-- Copied to an address where nothing was compiled, the log is accepted and says published. -/
theorem copied_log_accepted : ∃ log evidence,
    Accepted standIn (transferRegistry.copyLog transferHash zeroHash) zeroHash log ∧
    currentState standIn log = .ok (some .published) ∧
    readRegistryEvidence standIn (transferRegistry.copyLog transferHash zeroHash) zeroHash = .ok evidence ∧
    evidence.status = .published ∧ (∀ e ∈ log, Genuine standIn e) ∧ ¬ BoundTo zeroHash log := by
  have hrun : ((transferRegistry.readEvents transferHash).toOption.any (fun log =>
        (currentState standIn log).toOption.any (fun state => decide (state = some .published)) &&
          log.any fun e => decide (e.artifactHash ≠ zeroHash)) &&
      (readRegistryEvidence standIn (transferRegistry.copyLog transferHash zeroHash) zeroHash).toOption.any
        fun evidence => decide (evidence.status = .published)) = true := by decide +kernel
  obtain ⟨hlog, hevidence⟩ := Bool.and_eq_true_iff.1 hrun
  obtain ⟨log, hread, hlog⟩ := exists_ok_and hlog
  obtain ⟨hstate, hother⟩ := Bool.and_eq_true_iff.1 hlog
  obtain ⟨state, hstate, hpublished⟩ := exists_ok_and hstate
  obtain rfl : state = some .published := of_decide_eq_true hpublished
  obtain ⟨evidence, hevidence, hstatus⟩ := exists_ok_and hevidence
  have hcopy := (readEvents_copyLog transferRegistry transferHash zeroHash).trans hread
  refine ⟨log, evidence, ⟨hcopy, ⟨_, hstate⟩, _, hevidence⟩, hstate, hevidence, of_decide_eq_true hstatus, ?_, ?_⟩
  · exact fun e he => ⟨transferLife, transferHash, log, hread, he⟩
  · intro hbound
    obtain ⟨e, he, hne⟩ := List.any_eq_true.1 hother
    exact of_decide_eq_true hne (hbound.hashes e he)

end

end Ke.Registry
