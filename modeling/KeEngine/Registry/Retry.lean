/-
A command that is cut short and run again. Events and sidecars are written once: as long as a command
has written neither, running it again does what it would have done; after that its own guards refuse
it, and a rollback moves its tag a second time.
-/
import KeEngine.Prog.Faults
import KeEngine.Registry.Provenance

namespace Ke.Registry

open Ke Wire Compiler

/-! ## Passing the steps of a command -/

section

variable {X : Externals} {hash : Hash32} {α β : Type} {r r' : Backend} {stores : List Backend} {a : α}

theorem passes_ensure {c : Prop} [Decidable c] {e : CommandError} {f : Unit → Command α} :
    (ensure c e >>= f).Passes perform r stores a r' ↔ c ∧ (f ()).Passes perform r stores a r' := by
  refine Prog.passes_done_bind.trans ?_
  by_cases hc : c
  · rw [if_pos hc]
    exact ⟨fun ⟨_, _, h⟩ => ⟨hc, h⟩, fun h => ⟨(), rfl, h.2⟩⟩
  · rw [if_neg hc]
    exact ⟨nofun, fun h => absurd h.1 hc⟩

theorem passes_ofExcept {x : Except CommandError β} {f : β → Command α} :
    (Prog.ofExcept x >>= f).Passes perform r stores a r' ↔ ∃ b, x = .ok b ∧ (f b).Passes perform r stores a r' :=
  Prog.passes_done_bind

theorem passes_ofRegistry {x : Except RegistryError β} {f : β → Command α} :
    (ofRegistry x >>= f).Passes perform r stores a r' ↔ ∃ b, x = .ok b ∧ (f b).Passes perform r stores a r' := by
  refine Prog.passes_done_bind.trans ?_
  simp only [mapError_ok]

theorem passes_op {op : BackendOp β} {f : β → Command α} : (Prog.op op >>= f).Passes perform r stores a r' ↔
    ∃ b r₁ rest, exec op r = (.ok b, r₁) ∧ (f b).Passes perform r₁ rest a r' ∧ stores = r :: rest := by
  refine Prog.passes_op_bind.trans ?_
  have hperform : ∀ b r₁, perform op r = (.ok b, r₁) ↔ exec op r = (.ok b, r₁) := by
    intro b r₁
    unfold perform
    rw [Prod.mk.injEq, mapError_ok, ← Prod.mk.injEq]
  simp only [hperform]

/-- The state of a log depends on the files of the log. -/
theorem lifecycleState_congr (h : r.events hash = r'.events hash) :
    lifecycleState X r hash = lifecycleState X r' hash := by
  unfold lifecycleState Backend.readEvents
  rw [h]

theorem lifecycleState_some {state : LifecycleState} : lifecycleState X r hash = .ok (some state) ↔
    ∃ events, r.readEvents hash = .ok events ∧
      ((currentState X events).bind fun state => state.elim (.error .noState) .ok) = .ok state := by
  refine bind_ok.trans (exists_congr fun events => and_congr_right fun _ => ?_)
  refine Iff.trans ?_ bind_ok.symm
  constructor
  · intro h
    exact ⟨some state, h, rfl⟩
  · rintro ⟨_ | state', h, hsome⟩
    · cases hsome
    · obtain rfl := Except.ok.inj hsome
      exact h

theorem passes_requireCurrentState {f : LifecycleState → Command α} :
    (requireCurrentState X hash >>= f).Passes perform r stores a r' ↔
      ∃ state rest, lifecycleState X r hash = .ok (some state) ∧ (f state).Passes perform r rest a r' ∧
        stores = r :: rest := by
  unfold requireCurrentState
  rw [Prog.bind_assoc, passes_op]
  simp only [passes_ofRegistry, lifecycleState_some]
  constructor
  · rintro ⟨events, r₁, rest, hanswer, ⟨state, hstate, h⟩, rfl⟩
    obtain ⟨hread, rfl⟩ : r.readEvents hash = .ok events ∧ r = r₁ := Prod.mk.inj hanswer
    exact ⟨state, rest, ⟨events, hread, hstate⟩, h, rfl⟩
  · rintro ⟨state, rest, ⟨events, hread, hstate⟩, h, rfl⟩
    exact ⟨events, r, rest, congrArg (·, r) hread, ⟨state, hstate, h⟩, rfl⟩

theorem passes_finalState {state : LifecycleState} : (requireCurrentState X hash).Passes perform r stores state r' ↔
    lifecycleState X r hash = .ok (some state) ∧ stores = [r] ∧ r' = r := by
  rw [← Prog.bind_done (requireCurrentState X hash), passes_requireCurrentState]
  simp only [Prog.passes_done]
  constructor
  · rintro ⟨found, rest, hstate, ⟨hfound, rfl, rfl⟩, rfl⟩
    obtain rfl := Except.ok.inj hfound
    exact ⟨hstate, rfl, rfl⟩
  · rintro ⟨hstate, rfl, rfl⟩
    exact ⟨state, [], hstate, ⟨rfl, rfl, rfl⟩, rfl⟩

theorem passes_appendChained {f : LifecycleEvent → Command α}
    {build : LifecycleEvent → Except RegistryError LifecycleEvent} :
    (appendChained X hash build >>= f).Passes perform r stores a r' ↔
      ∃ prior e r₁ rest, r.headEvent X hash = .ok prior ∧ build prior = .ok e ∧ r.appendEvent hash e = (.ok (), r₁) ∧
        (f e).Passes perform r₁ rest a r' ∧ stores = r :: r :: rest := by
  have hhead : ∀ prior, r.headEvent X hash = .ok prior ↔ ∃ events, r.readEvents hash = .ok events ∧
      ((currentState X events).bind fun _ => events.getLast?.elim (.error .noState) .ok) = .ok prior := fun _ => bind_ok
  unfold appendChained headEvent
  rw [Prog.bind_assoc, Prog.bind_assoc, passes_op]
  simp only [Prog.bind_assoc, passes_ofRegistry, passes_op, hhead]
  constructor
  · rintro ⟨events, r₁, _, hanswer, ⟨prior, hprior, e, he, ⟨⟩, r₂, rest, happend, h, rfl⟩, rfl⟩
    obtain ⟨hread, rfl⟩ : r.readEvents hash = .ok events ∧ r = r₁ := Prod.mk.inj hanswer
    exact ⟨prior, e, r₂, rest, ⟨events, hread, hprior⟩, he, happend, h, rfl⟩
  · rintro ⟨prior, e, r₂, rest, ⟨events, hread, hprior⟩, he, happend, h, rfl⟩
    exact ⟨events, r, _, congrArg (·, r) hread, ⟨prior, hprior, e, he, (), r₂, rest, happend, h, rfl⟩, rfl⟩

end

/-! ## What a retry must leave -/

section

variable {X : Externals} {hash : Hash32} {r r₁ r' t : Backend} {s : Slot} {c : CommandLine} {stores : List Backend}
  {state : LifecycleState} {nowUnix : UInt64}

/-- The same artifact bytes, lifecycle states, sidecars and tags. -/
structure SameContents (X : Externals) (r r' : Backend) : Prop where
  bytes : ∀ hash, r.readArtifactKew hash = r'.readArtifactKew hash
  states : ∀ hash, lifecycleState X r hash = lifecycleState X r' hash
  consistency : r.consistency = r'.consistency
  revocations : r.revocations = r'.revocations
  tags : r.tags = r'.tags

/-- From what was left behind the command succeeds, with what it would have left in the first place. -/
def RetrySafe (X : Externals) (c : CommandLine) (r left : Backend) : Prop :=
  (c.run X left).1.isOk = true ∧ SameContents X (c.run X left).2 (c.run X r).2

/-- No event and no sidecar was written yet. -/
structure Unrecorded (r left : Backend) : Prop where
  events : left.events = r.events
  consistency : left.consistency = r.consistency
  revocations : left.revocations = r.revocations

/-- How a command can be left behind: with nothing recorded, and it runs as before, or else. -/
def RetryCase (X : Externals) (c : CommandLine) (r left : Backend) : Prop :=
  Unrecorded r left ∧ c.run X left = c.run X r ∨ ¬ Unrecorded r left ∧ ¬ RetrySafe X c r left

theorem RetryCase.untouched : RetryCase X c r r := .inl ⟨⟨rfl, rfl, rfl⟩, rfl⟩

theorem RetryCase.iff (h : RetryCase X c r t) (hok : (c.run X r).1.isOk = true) :
    RetrySafe X c r t ↔ Unrecorded r t := by
  rcases h with ⟨hunrecorded, hrun⟩ | ⟨hrecorded, hunsafe⟩
  · refine ⟨fun _ => hunrecorded, fun _ => ?_⟩
    unfold RetrySafe
    rw [hrun]
    exact ⟨hok, fun _ => rfl, fun _ => rfl, rfl, rfl, rfl⟩
  · exact ⟨fun h => absurd h hunsafe, fun h => absurd h hrecorded⟩

/-- A command that is accepted has its stores. -/
theorem passes_of_ok {state : LifecycleState} (h : (c.run X t).1 = .ok state) :
    ∃ stores, (c.command X).Passes perform t stores state (c.run X t).2 :=
  Prog.exists_passes (Prod.ext h rfl)

/-- A command that is refused is no retry. -/
theorem RetryCase.refused (hrecorded : ¬ Unrecorded r t)
    (h : ∀ stores state r', ¬ (c.command X).Passes perform t stores state r') : RetryCase X c r t := by
  refine .inr ⟨hrecorded, fun hsafe => ?_⟩
  obtain ⟨state, hok⟩ := exists_ok hsafe.1
  obtain ⟨stores, hpasses⟩ := passes_of_ok hok
  exact h stores state _ hpasses

/-- An event that is appended to the head of a log, and what the log says then. -/
theorem appended (hX : X.Lawful) (hs : r.Holds hash s) (hlog : LogOk X hash s.log) {prior e : LifecycleEvent}
    (hhead : r.headEvent X hash = .ok prior) (hchained : ChainedOn X prior e)
    (happend : r.appendEvent hash e = (.ok (), r₁)) :
    s.log.getLast? = some prior ∧ r₁ = r.fileLog hash (s.log ++ [e]) ∧
      lifecycleState X r₁ hash = .ok (some e.newState) ∧ r₁.events ≠ r.events := by
  obtain ⟨events, hread, hhead⟩ := bind_ok.1 hhead
  obtain rfl := Except.ok.inj ((hlog.readEvents hs).symm.trans hread)
  obtain ⟨_, -, hhead⟩ := bind_ok.1 hhead
  have hlast := elim_throw.1 hhead
  have hwalked := (hlog.grown hlast).walked
  have hfiled : r₁ = r.fileLog hash (s.log ++ [e]) :=
    (congrArg Prod.snd (happend.symm.trans (appendEvent_chained hs.log hwalked hlast hchained)))
  have hfiles : r₁.events hash = (s.log ++ [e]).map eventFile := by
    rw [hfiled]
    exact Function.update_self ..
  have hnext : Walked X hash (s.log ++ [e]) := .next hwalked hlast hchained
  refine ⟨hlast, hfiled, ?_, fun heq => ?_⟩
  · exact bind_ok.2 ⟨_, readEvents_files hfiles hnext.increasing, hnext.currentState hX List.getLast?_concat⟩
  · have hlength := congrArg List.length (hfiles.symm.trans ((congrFun heq hash).trans hs.log))
    rw [List.length_map, List.length_map, List.length_append, List.length_singleton] at hlength
    omega

/-- A command that wants one of some states, left behind with another state and with its event. -/
theorem RetryCase.gated {gate : LifecycleState → Prop}
    (hgate : ∀ stores state r', (c.command X).Passes perform t stores state r' →
      ∃ found, lifecycleState X t hash = .ok (some found) ∧ gate found)
    (hstate : lifecycleState X t hash = .ok (some state)) (hnot : ¬ gate state) (hevents : t.events ≠ r.events) :
    RetryCase X c r t := by
  refine .refused (fun hunrecorded => hevents hunrecorded.events) fun stores state' r' hpasses => ?_
  obtain ⟨found, hfound, hopen⟩ := hgate stores state' r' hpasses
  obtain rfl := Option.some.inj (Except.ok.inj (hstate.symm.trans hfound))
  exact hnot hopen

theorem putConsistency_ok {block : ConsistencyBlock} (h : r.putConsistency hash block = (.ok (), r₁)) :
    r.consistency hash = none ∧ r₁.consistency hash ≠ none := by
  unfold Backend.putConsistency putSidecar at h
  cases hfile : r.consistency hash with
  | some file =>
    rw [hfile] at h
    cases h
  | none =>
    rw [hfile] at h
    obtain ⟨-, rfl⟩ := Prod.mk.inj h
    refine ⟨rfl, fun hnone => ?_⟩
    have hself : Function.update r.consistency hash (some (JsonFile.good block)) hash = none := hnone
    rw [Function.update_self] at hself
    cases hself

theorem appendEvent_ok {e : LifecycleEvent} (h : r.appendEvent hash e = (.ok (), r₁)) :
    (∀ file ∈ r.events hash, file.1 ≠ eventFileName e) ∧
      r₁ = { r with events := Function.update r.events hash (r.events hash ++ [eventFile e]) } := by
  unfold Backend.appendEvent at h
  split at h
  · cases h
  · rename_i hnone
    refine ⟨fun file hfile hname => hnone ?_, (Prod.mk.inj h).2.symm⟩
    exact List.any_eq_true.2 ⟨file, hfile, decide_eq_true hname⟩

theorem appendEvent_mem {e : LifecycleEvent} (h : r.appendEvent hash e = (.ok (), r₁)) :
    eventFile e ∈ r₁.events hash ∧ ∀ file ∈ r.events hash, file ∈ r₁.events hash := by
  obtain ⟨-, rfl⟩ := appendEvent_ok h
  simp only [Function.update_self, List.mem_append, List.mem_singleton, or_true, true_and]
  exact fun file hfile => .inl hfile

/-! ## Command by command -/

theorem mlCheck_retry (h : (mlCheck X hash nowUnix).Passes perform r stores state r') :
    ∀ t ∈ stores, RetryCase X (.mlCheck hash nowUnix) r t := by
  -- the sidecar is there once and refused the second time
  have hwanted : ∀ {r stores state r'}, (mlCheck X hash nowUnix).Passes perform r stores state r' →
      r.consistency hash = none ∧ ∀ t ∈ stores, t = r ∨ t.consistency hash ≠ none := by
    intro r stores state r' h
    unfold mlCheck at h
    obtain ⟨_, _, -, h₁, rfl⟩ := passes_requireCurrentState.1 h
    obtain ⟨-, h₂⟩ := passes_ensure.1 h₁
    obtain ⟨_, r₁, _, hput, h₃, rfl⟩ := passes_op.1 h₂
    obtain ⟨hnone, hsome⟩ := putConsistency_ok hput
    obtain ⟨_, r₂, _, hread, h₄, rfl⟩ := passes_op.1 h₃
    obtain ⟨-, rfl⟩ : r₁.readConsistency hash = .ok _ ∧ r₁ = r₂ := Prod.mk.inj hread
    obtain ⟨-, h₅⟩ := passes_ensure.1 h₄
    obtain ⟨_, _, r₃, _, -, -, happend, h₆, rfl⟩ := passes_appendChained.1 h₅
    obtain ⟨-, rfl⟩ := appendEvent_ok happend
    obtain ⟨-, rfl, rfl⟩ := passes_finalState.1 h₆
    refine ⟨hnone, ?_⟩
    simp only [List.mem_cons, List.not_mem_nil, or_false]
    rintro t (rfl | rfl | rfl | rfl | rfl | rfl)
    · exact .inl rfl
    · exact .inl rfl
    all_goals exact .inr hsome
  intro t ht
  obtain ⟨hnone, hstores⟩ := hwanted h
  rcases hstores t ht with rfl | hsome
  · exact .untouched
  · refine .refused (fun hunrecorded => hsome ?_) fun _ _ _ hpasses => hsome (hwanted hpasses).1
    rw [hunrecorded.consistency, hnone]

theorem deprecateArtifact_retry (hX : X.Lawful) (hs : r.Holds hash s) (hlog : LogOk X hash s.log)
    (h : (deprecateArtifact X hash nowUnix).Passes perform r stores state r') :
    ∀ t ∈ stores, RetryCase X (.deprecateArtifact hash nowUnix) r t := by
  have hgate : ∀ {t stores state r'}, (deprecateArtifact X hash nowUnix).Passes perform t stores state r' →
      ∃ found, lifecycleState X t hash = .ok (some found) ∧ found = .published := by
    intro t stores state r' h
    unfold deprecateArtifact at h
    obtain ⟨found, _, hfound, h₁, -⟩ := passes_requireCurrentState.1 h
    exact ⟨found, hfound, (passes_ensure.1 h₁).1⟩
  unfold deprecateArtifact at h
  obtain ⟨_, _, -, h₁, rfl⟩ := passes_requireCurrentState.1 h
  obtain ⟨-, h₂⟩ := passes_ensure.1 h₁
  obtain ⟨-, h₃⟩ := passes_ensure.1 h₂
  obtain ⟨prior, e, r₁, _, hhead, he, happend, h₄, rfl⟩ := passes_appendChained.1 h₃
  obtain ⟨-, rfl, rfl⟩ := passes_finalState.1 h₄
  obtain ⟨hchained, hnew, -⟩ := buildChainedEvent_ok he
  obtain ⟨-, -, hstate, hevents⟩ := appended hX hs hlog hhead hchained happend
  rw [hnew] at hstate
  simp only [List.mem_cons, List.not_mem_nil, or_false]
  rintro t (rfl | rfl | rfl | rfl)
  · exact .untouched
  · exact .untouched
  · exact .untouched
  · exact .gated (fun _ _ _ => hgate) hstate (by decide) hevents

theorem publish_retry (hX : X.Lawful) (hs : r.Holds hash s) (hlog : LogOk X hash s.log) {env tag : String}
    {bundle : Option (Except String VerificationPolicy)}
    (h : (publish X hash env tag bundle nowUnix).Passes perform r stores state r') :
    ∀ t ∈ stores, RetryCase X (.publish hash env tag bundle nowUnix) r t := by
  have hgate : ∀ {t stores state r'}, (publish X hash env tag bundle nowUnix).Passes perform t stores state r' →
      ∃ found, lifecycleState X t hash = .ok (some found) ∧ found = .expertAttested := by
    intro t stores state r' h
    unfold publish at h
    obtain ⟨found, _, hfound, h₁, -⟩ := passes_requireCurrentState.1 h
    exact ⟨found, hfound, (passes_ensure.1 h₁).1⟩
  unfold publish at h
  obtain ⟨_, _, -, h₁, rfl⟩ := passes_requireCurrentState.1 h
  obtain ⟨-, h₂⟩ := passes_ensure.1 h₁
  obtain ⟨kew, r₀, _, hread, h₃, rfl⟩ := passes_op.1 h₂
  obtain ⟨-, rfl⟩ : r.readArtifactKew hash = .ok kew ∧ r = r₀ := Prod.mk.inj hread
  obtain ⟨⟨a, _⟩, -, h₄⟩ := passes_ofRegistry.1 h₃
  obtain ⟨policy, -, h₅⟩ := passes_ofRegistry.1 h₄
  obtain ⟨_, -, h₆⟩ := passes_ofRegistry.1 h₅
  obtain ⟨-, h₇⟩ := passes_ensure.1 h₆
  obtain ⟨prior, e, r₁, _, hhead, he, happend, h₈, rfl⟩ := passes_appendChained.1 h₇
  obtain ⟨_, r₂, _, hput, h₉, rfl⟩ := passes_op.1 h₈
  obtain ⟨-, rfl⟩ : _ ∧ r₁.putPointer env tag hash s!"published@seq{e.seq.toNat}" = r₂ := Prod.mk.inj hput
  obtain ⟨-, rfl, rfl⟩ := passes_finalState.1 h₉
  obtain ⟨hchained, hnew, -⟩ := buildChainedEvent_ok he
  obtain ⟨-, -, hstate, hevents⟩ := appended hX hs hlog hhead hchained happend
  rw [hnew] at hstate
  simp only [List.mem_cons, List.not_mem_nil, or_false]
  rintro t (rfl | rfl | rfl | rfl | rfl | rfl)
  · exact .untouched
  · exact .untouched
  · exact .untouched
  · exact .untouched
  · exact .gated (fun _ _ _ => hgate) hstate (by decide) hevents
  · exact .gated (fun _ _ _ => hgate) ((lifecycleState_congr rfl).trans hstate) (by decide) hevents

theorem revoke_retry (hX : X.Lawful) (hs : r.Holds hash s) (hlog : LogOk X hash s.log)
    {policy : Option RevocationPolicy}
    {reasonClass : Option RevocationReasonClass} {reason : Option String}
    (h : (revoke X hash policy reasonClass reason nowUnix).Passes perform r stores state r') :
    ∀ t ∈ stores, RetryCase X (.revoke hash policy reasonClass reason nowUnix) r t := by
  have hgate : ∀ {t stores state r'}, (revoke X hash policy reasonClass reason nowUnix).Passes perform t
      stores state r' →
      ∃ found, lifecycleState X t hash = .ok (some found) ∧ (found = .published ∨ found = .deprecated) := by
    intro t stores state r' h
    unfold revoke at h
    obtain ⟨_, -, h₀⟩ := passes_ofExcept.1 h
    obtain ⟨found, _, hfound, h₁, -⟩ := passes_requireCurrentState.1 h₀
    exact ⟨found, hfound, (passes_ensure.1 h₁).1⟩
  unfold revoke at h
  obtain ⟨_, -, h₀⟩ := passes_ofExcept.1 h
  obtain ⟨_, _, -, h₁, rfl⟩ := passes_requireCurrentState.1 h₀
  obtain ⟨-, h₂⟩ := passes_ensure.1 h₁
  obtain ⟨-, h₃⟩ := passes_ensure.1 h₂
  obtain ⟨prior, e, r₁, _, hhead, he, happend, h₄, rfl⟩ := passes_appendChained.1 h₃
  obtain ⟨_, r₂, _, hput, h₅, rfl⟩ := passes_op.1 h₄
  obtain ⟨-, rfl⟩ : _ ∧ (r₁.putRevocation hash _).2 = r₂ := Prod.mk.inj hput
  obtain ⟨-, rfl, rfl⟩ := passes_finalState.1 h₅
  obtain ⟨hchained, hnew, -⟩ := buildChainedEvent_ok he
  obtain ⟨-, -, hstate, hevents⟩ := appended hX hs hlog hhead hchained happend
  rw [hnew] at hstate
  simp only [List.mem_cons, List.not_mem_nil, or_false]
  rintro t (rfl | rfl | rfl | rfl | rfl)
  · exact .untouched
  · exact .untouched
  · exact .untouched
  · exact .gated (fun _ _ _ => hgate) hstate (by decide) hevents
  · exact .gated (fun _ _ _ => hgate) ((lifecycleState_congr rfl).trans hstate) (by decide) hevents

/-- The reference of a move gives the number of its event back. -/
theorem tagMoved_ref_inj {m n : Nat} (h : s!"tag_moved@seq{m}" = s!"tag_moved@seq{n}") : m = n := by
  have happend : "tag_moved@seq" ++ toString m = "tag_moved@seq" ++ toString n := h
  have hdigits := congrArg String.toList ((String.append_right_inj _).1 happend)
  have hparse : ∀ n : Nat, Nat.ofDigitChars 10 (toString n).toList 0 = n := fun n => by
    rw [show (toString n).toList = Nat.toDigits 10 n from Nat.toList_repr, Nat.ofDigitChars_ten_toDigits]
  rw [← hparse m, hdigits, hparse]

/-- A rollback that passes files a move, and points the tag to it. -/
theorem rollback_passes (hX : X.Lawful) (hs : r.Holds hash s) (hready : s.Ready X hash) {env tag : String}
    (h : (rollback X env tag hash nowUnix).Passes perform r stores state r') :
    ∃ e, Follows X s.log .published "tag_moved" e ∧ Slot.Ready X hash { s with log := s.log ++ [e] } ∧
      (r.fileLog hash (s.log ++ [e])).events ≠ r.events ∧ stores = [r, r, r, r.fileLog hash (s.log ++ [e]), r'] ∧
      r' = (r.fileLog hash (s.log ++ [e])).putPointer env tag hash s!"tag_moved@seq{e.seq.toNat}" := by
  unfold rollback at h
  obtain ⟨_, _, hfound, h₁, rfl⟩ := passes_requireCurrentState.1 h
  obtain ⟨heligible, h₂⟩ := passes_ensure.1 h₁
  obtain rfl := of_decide_eq_true heligible
  obtain ⟨prior, e, r₁, _, hhead, he, happend, h₃, rfl⟩ := passes_appendChained.1 h₂
  obtain ⟨_, r₂, _, hput, h₄, rfl⟩ := passes_op.1 h₃
  obtain ⟨-, rfl⟩ : _ ∧ r₁.putPointer env tag hash s!"tag_moved@seq{e.seq.toNat}" = r₂ := Prod.mk.inj hput
  obtain ⟨-, rfl, rfl⟩ := passes_finalState.1 h₄
  obtain ⟨hchained, hnew, hkind⟩ := buildChainedEvent_ok he
  obtain ⟨hlast, rfl, -, hevents⟩ := appended hX hs hready.log hhead hchained happend
  -- the move keeps the state of the head
  have hstate : s.state = some .published := Except.ok.inj ((hready.lifecycleState hX hs).symm.trans hfound)
  have hprior : prior.newState = .published := by
    unfold Slot.state at hstate
    rw [hlast] at hstate
    exact Option.some.inj hstate
  have hfollows : Follows X s.log .published "tag_moved" e := ⟨prior, hlast, hchained, hnew.trans hprior, hkind⟩
  refine ⟨e, hfollows, hready.follow hfollows (fun found hfound => ?_) nofun, hevents, rfl, rfl⟩
  obtain rfl := Option.some.inj (hstate.symm.trans hfound)
  exact .tagMoved

theorem rollback_retry (hX : X.Lawful) (hs : r.Holds hash s) (hready : s.Ready X hash) {env tag : String}
    (h : (rollback X env tag hash nowUnix).Passes perform r stores state r') :
    ∀ t ∈ stores, RetryCase X (.rollback env tag hash nowUnix) r t := by
  have hrun : ((CommandLine.rollback env tag hash nowUnix).run X r).2 = r' := congrArg Prod.snd h.run
  obtain ⟨e, hfollows, hready', hevents, rfl, hleft⟩ := rollback_passes hX hs hready h
  -- run again, it files a second move, and points the tag to that
  have hagain : ∀ t : Backend, t.Holds hash { s with log := s.log ++ [e] } →
      ¬ RetrySafe X (.rollback env tag hash nowUnix) r t := by
    rintro t ht ⟨hok, hsame⟩
    obtain ⟨state', hstate'⟩ := exists_ok hok
    obtain ⟨stores', hpasses⟩ := passes_of_ok hstate'
    obtain ⟨e', ⟨prior, hlast, hchained, -⟩, -, -, -, hleft'⟩ := rollback_passes hX ht hready' hpasses
    rw [List.getLast?_concat] at hlast
    obtain rfl := Option.some.inj hlast
    have htags := congrFun (congrFun hsame.tags env) tag
    rw [hrun, hleft', hleft, putPointer_tags, putPointer_tags, if_pos ⟨rfl, rfl⟩, if_pos ⟨rfl, rfl⟩] at htags
    have hseq := hchained.seq
    rw [tagMoved_ref_inj (TagPointer.mk.inj (JsonFile.good.inj (Option.some.inj htags))).2.2.2] at hseq
    omega
  simp only [List.mem_cons, List.not_mem_nil, or_false]
  rintro t (rfl | rfl | rfl | rfl | rfl)
  · exact .untouched
  · exact .untouched
  · exact .untouched
  · exact .inr ⟨fun hunrecorded => hevents hunrecorded.events, hagain _ (hs.fileLog _)⟩
  · refine .inr ⟨fun hunrecorded => hevents ?_, hagain _ ?_⟩
    · rw [← hunrecorded.events, hleft]
      rfl
    · rw [hleft]
      exact (hs.fileLog _).putPointer ..

/-! ## Writing bytes twice -/

theorem putFile_putFile {α : Type} (name : String) (a : α) : ∀ files : List (String × α),
    putFile name a (putFile name a files) = putFile name a files
  | [] => if_pos rfl
  | file :: files => by
    by_cases hname : file.1 = name
    · rw [putFile, if_pos hname, putFile, if_pos rfl]
    · rw [putFile, if_neg hname, putFile, if_neg hname, putFile_putFile name a files]

theorem putArtifact_putArtifact (kew : Bytes) :
    (r.putArtifact hash kew).putArtifact hash kew = r.putArtifact hash kew := by
  unfold Backend.putArtifact
  rw [putFile_putFile]

/-- The attestations of an artifact do not enter into those that are made anew. -/
theorem attestArtifact_attested {a a' : Artifact} {kew : Bytes} {types : List AttestationType}
    (h : attestArtifact X a types nowUnix = .ok (a', kew)) : attestArtifact X a' types nowUnix = .ok (a', kew) := by
  obtain ⟨as, has, h₁⟩ := bind_ok.1 h
  obtain ⟨⟨a₁, kew₁⟩, hwith, h₂⟩ := bind_ok.1 h₁
  obtain ⟨-, h₃⟩ := throw_else.1 h₂
  obtain ⟨-, h₄⟩ := throw_else.1 h₃
  obtain ⟨rfl, rfl⟩ := Prod.mk.inj (pure_ok.1 h₄)
  obtain ⟨rfl, henc⟩ := withAttestations_ok (mapError_ok.1 hwith)
  refine bind_ok.2 ⟨as, has, bind_ok.2 ⟨_, hwith, throw_else.2 ⟨not_not.2 rfl, throw_else.2 ⟨not_not.2 rfl, rfl⟩⟩⟩⟩

theorem attest_retry (hX : X.Lawful) (hs : r.Holds hash s) (hready : s.Ready X hash) {types : List AttestationType}
    (h : (attest X hash types nowUnix).Passes perform r stores state r') :
    ∀ t ∈ stores, RetryCase X (.attest hash types nowUnix) r t := by
  have hgate : ∀ {t stores state r'}, (attest X hash types nowUnix).Passes perform t stores state r' →
      ∃ found, lifecycleState X t hash = .ok (some found) ∧ found = .mlChecked := by
    intro t stores state r' h
    unfold attest at h
    obtain ⟨-, h₀⟩ := passes_ensure.1 h
    obtain ⟨found, _, hfound, h₁, -⟩ := passes_requireCurrentState.1 h₀
    exact ⟨found, hfound, (passes_ensure.1 h₁).1⟩
  have hrun := h.run
  unfold attest at h
  obtain ⟨htypes, h₀⟩ := passes_ensure.1 h
  obtain ⟨found, _, hfound, h₁, rfl⟩ := passes_requireCurrentState.1 h₀
  obtain ⟨hprior, h₂⟩ := passes_ensure.1 h₁
  obtain ⟨kew, r₀, _, hanswer, h₃, rfl⟩ := passes_op.1 h₂
  obtain ⟨hread, rfl⟩ : r.readArtifactKew hash = .ok kew ∧ r = r₀ := Prod.mk.inj hanswer
  obtain ⟨⟨a, n⟩, hdec, h₄⟩ := passes_ofRegistry.1 h₃
  obtain ⟨⟨a', kew'⟩, hmade, h₅⟩ := passes_ofExcept.1 h₄
  obtain ⟨_, r₁, rest, hput, hrest, rfl⟩ := passes_op.1 h₅
  obtain rfl : r.putArtifact a.manifest.artifactHash kew' = r₁ := (Prod.mk.inj hput).2
  -- the stored bytes are those of the address, and so are the attested ones
  obtain ⟨b, hstored⟩ : ∃ b, Stored X hash kew b := by
    refine hready.stored kew ?_
    cases hkew : s.kew with
    | none => exact absurd (hanswer.symm.trans (readArtifactKew_none hs hkew)) nofun
    | some kew₁ =>
      rw [← Except.ok.inj (congrArg Prod.fst (hanswer.symm.trans (readArtifactKew_some hs hkew)))]
  obtain ⟨m, hdec₁, -⟩ := hstored.decode
  obtain ⟨rfl, rfl⟩ := Prod.mk.inj (Except.ok.inj ((mapError_ok.1 hdec).symm.trans hdec₁))
  have haddress := hstored.address
  have hattested := hstored.attested hmade
  rw [haddress] at hput hrest
  have hs₁ := hs.putArtifact kew'
  obtain ⟨m', hdec', -⟩ := hattested.decode
  have hput' : exec (.putArtifact a'.manifest.artifactHash kew') (r.putArtifact hash kew') =
      (.ok (), r.putArtifact hash kew') := by
    show (Except.ok (), (r.putArtifact hash kew').putArtifact a'.manifest.artifactHash kew') = _
    rw [hattested.address, putArtifact_putArtifact]
  have hread' := readArtifactKew_some hs₁ rfl
  have hstate₁ : lifecycleState X (r.putArtifact hash kew') hash = .ok (some found) := hfound
  have hagain : (attest X hash types nowUnix).Passes perform (r.putArtifact hash kew')
      (r.putArtifact hash kew' :: r.putArtifact hash kew' :: r.putArtifact hash kew' :: rest) state r' := by
    refine passes_ensure.2 ⟨htypes, passes_requireCurrentState.2 ⟨found, _, hstate₁, ?_, rfl⟩⟩
    refine passes_ensure.2 ⟨hprior, passes_op.2 ⟨kew', _, _, hread', ?_, rfl⟩⟩
    refine passes_ofRegistry.2 ⟨(a', m'), mapError_ok.2 hdec', ?_⟩
    exact passes_ofExcept.2 ⟨(a', kew'), attestArtifact_attested hmade, passes_op.2 ⟨(), _, rest, hput', hrest, rfl⟩⟩
  have hattestedCase : RetryCase X (.attest hash types nowUnix) r (r.putArtifact hash kew') :=
    .inl ⟨⟨rfl, rfl, rfl⟩, hagain.run.trans hrun.symm⟩
  obtain ⟨_, -, h₆⟩ := passes_ofRegistry.1 hrest
  obtain ⟨-, h₇⟩ := passes_ensure.1 h₆
  obtain ⟨prior, e, r₂, _, hhead, he, happend, h₈, rfl⟩ := passes_appendChained.1 h₇
  obtain ⟨-, rfl, rfl⟩ := passes_finalState.1 h₈
  obtain ⟨hchained, hnew, -⟩ := buildChainedEvent_ok he
  obtain ⟨-, -, hstate, hevents⟩ := appended hX hs₁ hready.log hhead hchained happend
  rw [hnew] at hstate
  simp only [List.mem_cons, List.not_mem_nil, or_false]
  rintro t (rfl | rfl | rfl | rfl | rfl | rfl)
  · exact .untouched
  · exact .untouched
  · exact .untouched
  · exact hattestedCase
  · exact hattestedCase
  · exact .gated (fun _ _ _ => hgate) hstate (by decide) hevents

theorem derivedState_passes {finalState : LifecycleState}
    (h : (derivedState X hash finalState).Passes perform r stores state r') : stores = [r] := by
  unfold derivedState at h
  obtain ⟨_, r₀, _, hread, h₁, rfl⟩ := passes_op.1 h
  obtain ⟨_, -, h₂⟩ := passes_ofRegistry.1 h₁
  obtain ⟨-, h₃⟩ := passes_ensure.1 h₂
  obtain ⟨-, rfl, -⟩ := Prog.passes_done.1 h₃
  rfl

/-- Storing is done once, and once the draft is there it is refused. -/
theorem storeAndRecord_retry {a : Artifact} {kew : Bytes} (hcommand : c.command X = storeAndRecord X a kew true nowUnix)
    (h : (storeAndRecord X a kew true nowUnix).Passes perform r stores state r') :
    ∀ t ∈ stores, RetryCase X c r t := by
  have hgate : ∀ {t stores state r' draft}, (storeAndRecord X a kew true nowUnix).Passes perform t stores state r' →
      buildDraftEvent X a.manifest.artifactHash TestKeys.registryRootKeyId
        (mockStamp X a.manifest.artifactHash nowUnix) = .ok draft →
        ∀ file ∈ t.events a.manifest.artifactHash, file.1 ≠ eventFileName draft := by
    intro t stores state r' draft h hdraft
    unfold storeAndRecord at h
    obtain ⟨_, r₀, _, hput, h₁, -⟩ := passes_op.1 h
    obtain ⟨draft', hdraft', h₂⟩ := passes_ofRegistry.1 h₁
    obtain rfl := Except.ok.inj (hdraft.symm.trans hdraft')
    obtain ⟨_, _, _, happend, -, -⟩ := passes_op.1 h₂
    obtain rfl : t.putArtifact a.manifest.artifactHash kew = r₀ := (Prod.mk.inj hput).2
    exact (appendEvent_ok happend).1
  have hrun := h.run
  have hh := h
  unfold storeAndRecord at h
  obtain ⟨_, r₀, _, hput, h₁, rfl⟩ := passes_op.1 h
  obtain rfl : r.putArtifact a.manifest.artifactHash kew = r₀ := (Prod.mk.inj hput).2
  have hagain : (storeAndRecord X a kew true nowUnix).Passes perform
      (r.putArtifact a.manifest.artifactHash kew) _ state r' :=
    passes_op.2 ⟨(), _, _, congrArg (Except.ok (), ·) (putArtifact_putArtifact kew), h₁, rfl⟩
  obtain ⟨draft, hdraft, h₂⟩ := passes_ofRegistry.1 h₁
  obtain ⟨_, r₁, rest, happend, h₃, rfl⟩ := passes_op.1 h₂
  have hfresh := hgate hh hdraft
  -- every later store has the draft
  have hlater : ∀ t ∈ rest, ∃ file ∈ t.events a.manifest.artifactHash, file.1 = eventFileName draft := by
    have hfiled := (appendEvent_mem happend).1
    split at h₃
    · obtain ⟨sv, -, h₄⟩ := passes_ofRegistry.1 h₃
      obtain ⟨_, r₂, _, happend', h₅, rfl⟩ := passes_op.1 h₄
      obtain rfl := derivedState_passes h₅
      simp only [List.mem_cons, List.not_mem_nil, or_false]
      rintro t (rfl | rfl)
      · exact ⟨eventFile draft, hfiled, rfl⟩
      · exact ⟨eventFile draft, (appendEvent_mem happend').2 _ hfiled, rfl⟩
    · obtain rfl := derivedState_passes h₃
      intro t ht
      obtain rfl := List.mem_singleton.1 ht
      exact ⟨eventFile draft, hfiled, rfl⟩
  intro t ht
  rcases List.mem_cons.1 ht with rfl | ht
  · exact .untouched
  · rcases List.mem_cons.1 ht with rfl | ht
    · refine .inl ⟨⟨rfl, rfl, rfl⟩, ?_⟩
      unfold CommandLine.run
      rw [hcommand]
      exact hagain.run.trans hrun.symm
    · obtain ⟨file, hfile, hname⟩ := hlater t ht
      refine .refused (fun hunrecorded => ?_) fun _ _ _ hpasses => ?_
      · rw [hunrecorded.events] at hfile
        exact hfresh file hfile hname
      · rw [hcommand] at hpasses
        exact hgate hpasses hdraft file hfile hname

/-! ## Any command -/

theorem CommandLine.retry (hX : X.Lawful) (hr : r.Ready X)
    (h : (c.command X).Passes perform r stores state r') : ∀ t ∈ stores, RetryCase X c r t := by
  cases c with
  | compile document regimeId nowUnix =>
    obtain ⟨d, hd, h₁⟩ := passes_ofExcept.1 h
    obtain ⟨⟨a, kew⟩, hmade, h₂⟩ := passes_ofExcept.1 h₁
    have hassembles : (CommandLine.compile document regimeId nowUnix).Assembles X a kew := ⟨d, mapError_ok.1 hd, hmade⟩
    obtain ⟨_, hcommand⟩ := hassembles.command
    rw [hcommand] at h
    exact storeAndRecord_retry hcommand h
  | compileIntent document regimeId nowUnix =>
    obtain ⟨d, hd, h₁⟩ := passes_ofExcept.1 h
    obtain ⟨⟨a, kew⟩, hmade, h₂⟩ := passes_ofExcept.1 h₁
    have hassembles : (CommandLine.compileIntent document regimeId nowUnix).Assembles X a kew :=
      ⟨d, mapError_ok.1 hd, hmade⟩
    obtain ⟨_, hcommand⟩ := hassembles.command
    rw [hcommand] at h
    exact storeAndRecord_retry hcommand h
  | mlCheck target nowUnix => exact mlCheck_retry h
  | attest target types nowUnix =>
    obtain ⟨s, hs, hready⟩ := hr target
    exact attest_retry hX hs hready h
  | publish target env tag bundle nowUnix =>
    obtain ⟨s, hs, hready⟩ := hr target
    exact publish_retry hX hs hready.log h
  | deprecateArtifact target nowUnix =>
    obtain ⟨s, hs, hready⟩ := hr target
    exact deprecateArtifact_retry hX hs hready.log h
  | revoke target policy reasonClass reason nowUnix =>
    obtain ⟨s, hs, hready⟩ := hr target
    exact revoke_retry hX hs hready.log h
  | rollback env tag target nowUnix =>
    obtain ⟨s, hs, hready⟩ := hr target
    exact rollback_retry hX hs hready h

/-- After a fault at any operation of a command, running it again is safe exactly when neither an event
nor a sidecar was written before the fault. -/
theorem retrySafe_iff (hX : X.Lawful) {commands : List CommandLine} (fault : CommandError) {n : Nat}
    (hok : (c.run X (runAll X commands .empty)).1 = .ok state)
    (hn : n < (c.command X).opCount perform (runAll X commands .empty)) :
    RetrySafe X c (runAll X commands .empty)
        ((c.command X).runFailing perform fault n (runAll X commands .empty)).2 ↔
      Unrecorded (runAll X commands .empty)
        ((c.command X).runFailing perform fault n (runAll X commands .empty)).2 := by
  obtain ⟨stores, h⟩ := passes_of_ok hok
  rw [h.opCount] at hn
  have hleft := h.runFailing fault (List.getElem?_eq_getElem hn)
  have hcase := c.retry hX (runAll_ready hX commands .empty) h _ (List.getElem_mem hn)
  rw [hleft]
  refine hcase.iff ?_
  rw [hok]
  rfl

end

/-! ## A check cut short -/

/-- The transfer limit, compiled only. -/
def compiledRegistry : Backend := runAll standIn (transferLife.take 1) .empty

/-- What is left of its check when the sidecar that was written cannot be read back. -/
def cutCheck : Backend := ((mlCheck standIn transferHash 1).runFailing perform .precondition 2 compiledRegistry).2

theorem retrySafe_iff_transfer : ∃ state,
    ((CommandLine.mlCheck transferHash 1).run standIn compiledRegistry).1 = .ok state ∧
      2 < (mlCheck standIn transferHash 1).opCount perform compiledRegistry ∧
      (RetrySafe standIn (.mlCheck transferHash 1) compiledRegistry cutCheck ↔
        Unrecorded compiledRegistry cutCheck) := by
  have hrun : ((CommandLine.mlCheck transferHash 1).run standIn compiledRegistry).1.isOk = true := by decide +kernel
  have hops : 2 < (mlCheck standIn transferHash 1).opCount perform compiledRegistry := by decide +kernel
  obtain ⟨state, hok⟩ := exists_ok hrun
  exact ⟨state, hok, hops, retrySafe_iff standIn_lawful .precondition hok hops⟩

/-- Checked without a fault it would have passed; after this one, the check is refused. -/
theorem cut_check_refused : ((CommandLine.mlCheck transferHash 1).run standIn compiledRegistry).1.isOk = true ∧
    2 < (mlCheck standIn transferHash 1).opCount perform compiledRegistry ∧
    ((CommandLine.mlCheck transferHash 1).run standIn cutCheck).1.isOk = false ∧
    ¬ RetrySafe standIn (.mlCheck transferHash 1) compiledRegistry cutCheck := by
  have hrefused : ((CommandLine.mlCheck transferHash 1).run standIn cutCheck).1.isOk = false := by decide +kernel
  exact ⟨by decide +kernel, by decide +kernel, hrefused, fun hsafe => absurd (hrefused.symm.trans hsafe.1) nofun⟩

end Ke.Registry
