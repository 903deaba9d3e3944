/-
The hash chain binds a history: of two lists that the walk accepts, those whose heads have one chain
hash are one list. Every event carries the hash of all before it, and the first one carries none, so
no list can stand for a part of another.
-/
import KeEngine.Registry.Runs

namespace Ke.Registry

open Ke Wire

section

variable {X : Externals} {log log' : List LifecycleEvent}

/-! ## The walk from its end -/

/-- The walk ends with the chain hash of the head, and where there is none as it began. -/
theorem checkFrom_head : ∀ {log : List LifecycleEvent} {i : Nat} {prior c : Option Hash32},
    checkFrom X i prior log = .ok c →
      log = [] ∧ c = prior ∨ ∃ head d, log.getLast? = some head ∧ head.chainHash X = .ok d ∧ c = some d
  | [], _, _, _, h => .inl ⟨rfl, (Except.ok.inj h).symm⟩
  | e :: log, i, prior, c, h => by
    rw [checkFrom] at h
    split at h
    · cases h
    · obtain ⟨_, -, h⟩ := bind_ok.1 h
      obtain ⟨_, -, h⟩ := bind_ok.1 h
      obtain ⟨d, hd, h⟩ := bind_ok.1 h
      right
      rcases checkFrom_head h with ⟨rfl, rfl⟩ | ⟨head, d', hlast, hd', rfl⟩
      · exact ⟨e, d, rfl, hd, rfl⟩
      · refine ⟨head, d', ?_, hd', rfl⟩
        rw [List.getLast?_cons, hlast]
        rfl

/-- The last event of an accepted list was compared with what is before it. -/
theorem checkFrom_concat {e : LifecycleEvent} {i : Nat} {prior c : Option Hash32}
    (h : checkFrom X i prior (log ++ [e]) = .ok c) :
    ∃ c', checkFrom X i prior log = .ok c' ∧ checkLink (i + log.length) e.seq e.prevEventHash c' = .ok () := by
  rw [checkFrom_append] at h
  obtain ⟨c', hbefore, h⟩ := bind_ok.1 h
  refine ⟨c', hbefore, ?_⟩
  rw [checkFrom] at h
  split at h
  · cases h
  · obtain ⟨⟨⟩, hlink, -⟩ := bind_ok.1 h
    exact hlink

/-- The head of an accepted list has no link exactly when nothing is before it, and else the chain
hash of the event before. -/
theorem link_of_accepted {e : LifecycleEvent} {c : Option Hash32} (h : checkFrom X 0 none (log ++ [e]) = .ok c) :
    log = [] ∧ e.prevEventHash = none ∨
      ∃ head d, log.getLast? = some head ∧ head.chainHash X = .ok d ∧ e.prevEventHash = some d := by
  obtain ⟨c', hbefore, hlink⟩ := checkFrom_concat h
  rcases checkFrom_head hbefore with ⟨rfl, rfl⟩ | ⟨head, d, hlast, hd, rfl⟩
  · left
    cases hprev : e.prevEventHash with
    | none => exact ⟨rfl, rfl⟩
    | some link =>
      rw [hprev] at hlink
      cases hlink
  · right
    refine ⟨head, d, hlast, hd, ?_⟩
    have hpos : 0 < log.length := List.length_pos_of_ne_nil fun hnil => by
      rw [hnil] at hlast
      cases hlast
    obtain ⟨n, hn⟩ := Nat.exists_eq_succ_of_ne_zero hpos.ne'
    rw [Nat.zero_add, hn] at hlink
    cases hprev : e.prevEventHash with
    | none =>
      rw [hprev] at hlink
      cases hlink
    | some link =>
      rw [hprev] at hlink
      by_cases heq : link = d
      · rw [heq]
      · unfold checkLink at hlink
        simp only [if_neg heq] at hlink
        cases hlink

/-! ## One history for one hash -/

/-- The hash tells the encoded events of two lists apart. -/
def CollisionFree (X : Externals) (log log' : List LifecycleEvent) : Prop :=
  ∀ e ∈ log, ∀ e' ∈ log', ∀ b b', Postcard.lifecycleEvent.enc e = .ok b → Postcard.lifecycleEvent.enc e' = .ok b' →
    X.blake3 b = X.blake3 b' → b = b'

/-- Where the hash does not collide, events of one chain hash are one event, its signature included. -/
theorem CollisionFree.eq (hfree : CollisionFree X log log') {e e' : LifecycleEvent} (he : e ∈ log) (he' : e' ∈ log')
    {c : Hash32} (hc : e.chainHash X = .ok c) (hc' : e'.chainHash X = .ok c) : e = e' := by
  obtain ⟨b, hb, hc⟩ := bind_ok.1 hc
  obtain ⟨b', hb', hc'⟩ := bind_ok.1 hc'
  rw [mapError_ok] at hb hb'
  have hhash : X.blake3 b = X.blake3 b' := (pure_ok.1 hc).trans (pure_ok.1 hc').symm
  obtain rfl := hfree e he e' he' b b' hb hb' hhash
  exact Postcard.lifecycleEvent.enc_injective hb hb'

theorem CollisionFree.mono (hfree : CollisionFree X log log') {front front' : List LifecycleEvent}
    (h : front ⊆ log) (h' : front' ⊆ log') : CollisionFree X front front' :=
  fun e he e' he' => hfree e (h he) e' (h' he')

/-- The lists that `currentState` accepts are told apart by the chain hash of their heads. -/
theorem currentState_history {head head' : LifecycleEvent} {state state' : Option LifecycleState} {c : Hash32}
    (hfree : CollisionFree X log log') (hstate : currentState X log = .ok state)
    (hstate' : currentState X log' = .ok state') (hhead : log.getLast? = some head)
    (hhead' : log'.getLast? = some head') (hc : head.chainHash X = .ok c) (hc' : head'.chainHash X = .ok c) :
    log = log' := by
  obtain ⟨w, hwalk, -⟩ := bind_ok.1 hstate
  obtain ⟨w', hwalk', -⟩ := bind_ok.1 hstate'
  clear hstate hstate'
  induction log using List.reverseRecOn generalizing log' head head' c w w' with
  | nil => cases hhead
  | append_singleton front e ih =>
    obtain ⟨front', hlog'⟩ := List.getLast?_eq_some_iff.1 hhead'
    subst hlog'
    rw [List.getLast?_concat] at hhead
    obtain rfl := Option.some.inj hhead
    -- equal heads, so equal links
    obtain rfl : e = head' := hfree.eq (by simp) (by simp) hc hc'
    obtain ⟨_, hfront, -⟩ := checkFrom_concat hwalk
    obtain ⟨_, hfront', -⟩ := checkFrom_concat hwalk'
    have hfree' : CollisionFree X front front' := hfree.mono (List.subset_append_left ..) (List.subset_append_left ..)
    rcases link_of_accepted hwalk with ⟨rfl, hnone⟩ | ⟨prior, d, hlast, hd, hlink⟩
    · rcases link_of_accepted hwalk' with ⟨rfl, -⟩ | ⟨prior', d', -, -, hlink'⟩
      · rfl
      · exact absurd (hnone.symm.trans hlink') nofun
    · rcases link_of_accepted hwalk' with ⟨rfl, hnone'⟩ | ⟨prior', d', hlast', hd', hlink'⟩
      · exact absurd (hnone'.symm.trans hlink) nofun
      · obtain rfl := Option.some.inj (hlink.symm.trans hlink')
        rw [ih hfree' hlast hlast' hd hd' _ hfront _ hfront']

end

/-! ## The transfer limit, published twice -/

/-- A second publication fails and leaves the log, as its head tells. -/
theorem currentState_history_transfer : ∃ log log', transferRegistry.readEvents transferHash = .ok log ∧
    (runAll standIn (transferLife ++ [.publish transferHash "local" "stable" none 7]) .empty).readEvents transferHash =
      .ok log' ∧ log.length = 5 ∧ log = log' := by
  have hrun : (transferRegistry.readEvents transferHash).toOption.any (fun log =>
      ((runAll standIn (transferLife ++ [.publish transferHash "local" "stable" none 7]) .empty).readEvents
        transferHash).toOption.any fun log' =>
          decide (log.length = 5) && (currentState standIn log).isOk && (currentState standIn log').isOk &&
          log.getLast?.any (fun head => log'.getLast?.any fun head' => (head.chainHash standIn).toOption.any fun c =>
            (head'.chainHash standIn).toOption.any fun c' => decide (c = c')) &&
          log.all fun e => log'.all fun e' => (Postcard.lifecycleEvent.enc e).toOption.all fun b =>
            (Postcard.lifecycleEvent.enc e').toOption.all fun b' =>
              decide (standIn.blake3 b = standIn.blake3 b' → b = b')) = true := by decide +kernel
  obtain ⟨log, hlog, hrun⟩ := exists_ok_and hrun
  obtain ⟨log', hlog', hrun⟩ := exists_ok_and hrun
  simp only [Bool.and_eq_true, decide_eq_true_eq] at hrun
  obtain ⟨⟨⟨⟨hlength, hstate⟩, hstate'⟩, hheads⟩, hfree⟩ := hrun
  obtain ⟨head, hhead, hheads⟩ := (Option.any_eq_true ..).1 hheads
  obtain ⟨head', hhead', hheads⟩ := (Option.any_eq_true ..).1 hheads
  obtain ⟨c, hc, hheads⟩ := exists_ok_and hheads
  obtain ⟨c', hc', hheads⟩ := exists_ok_and hheads
  obtain rfl := of_decide_eq_true hheads
  obtain ⟨state, hstate⟩ := exists_ok hstate
  obtain ⟨state', hstate'⟩ := exists_ok hstate'
  have hfree : CollisionFree standIn log log' := by
    intro e he e' he' b b' hb hb' hhash
    have hall := List.all_eq_true.1 (List.all_eq_true.1 hfree e he) e' he'
    rw [hb, hb'] at hall
    exact of_decide_eq_true hall hhash
  refine ⟨log, log', hlog, hlog', hlength, ?_⟩
  refine currentState_history hfree hstate hstate' hhead hhead' hc hc'

end Ke.Registry
