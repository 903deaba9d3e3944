/-
Commands that run at the same time. Their operations on the backend interleave in any order, any of them may
fail, and a command may stop half-way. Whatever happens, the stores stay sound, and none of them loses anything.
-/
import KeEngine.Prog.Pool
import KeEngine.Registry.ByRegime

namespace Ke.Registry

open Ke Wire

/-! ## Logs with forks -/

/-- An event of an artifact as a command makes it: the draft, or one that is chained onto an event of the log. -/
inductive Rooted (X : Externals) (hash : Hash32) (log : List LifecycleEvent) (e : LifecycleEvent) : Prop
  | draft (drafted : Grown X hash [e])
  | chained {prior : LifecycleEvent} (mem : prior ∈ log) (chained : ChainedOn X prior e)

/-- A log that commands have appended to side by side: every event goes back to a draft, and no two files share a
name. -/
structure Forked (X : Externals) (hash : Hash32) (log : List LifecycleEvent) : Prop where
  rooted : ∀ e ∈ log, Rooted X hash log e
  names : (log.map eventFileName).Nodup

section

variable {X : Externals} {hash : Hash32} {log log' : List LifecycleEvent} {e : LifecycleEvent}

theorem Rooted.mono (hsub : log ⊆ log') (h : Rooted X hash log e) : Rooted X hash log' e := by
  cases h with
  | draft drafted => exact .draft drafted
  | chained mem chained => exact .chained (hsub mem) chained

theorem Forked.nil : Forked X hash [] := ⟨nofun, List.nodup_nil⟩

theorem Forked.append (h : Forked X hash log) (he : Rooted X hash log e)
    (hname : ∀ e' ∈ log, eventFileName e' ≠ eventFileName e) : Forked X hash (log ++ [e]) := by
  have hsub : log ⊆ log ++ [e] := List.subset_append_left ..
  constructor
  · intro e' he'
    rcases List.mem_append.1 he' with he' | he'
    · exact (h.rooted e' he').mono hsub
    · rw [List.mem_singleton.1 he']
      exact he.mono hsub
  · rw [List.map_append, List.map_singleton]
    refine List.nodup_append.2 ⟨h.names, List.nodup_singleton _, ?_⟩
    rintro name hname' _ hlast rfl
    obtain ⟨e', he', hsame⟩ := List.mem_map.1 hname'
    exact hname e' he' (hsame.trans (List.mem_singleton.1 hlast))

/-- Every event is the head of a branch from the draft on, all of it in the log, which the walk accepts. -/
theorem Forked.branch (h : Forked X hash log) (he : e ∈ log) : ∃ branch, branch ⊆ log ∧ Walked X hash branch ∧
    branch.head?.map (·.newState) = some .draft ∧ branch.getLast? = some e := by
  -- the number of the event before is smaller
  induction hseq : e.seq.toNat using Nat.strong_induction_on generalizing e with
  | _ n ih =>
    cases h.rooted e he with
    | draft drafted =>
      obtain ⟨first, rest, heq, -, -, hstate⟩ := drafted.head
      obtain ⟨rfl, -⟩ := List.cons.inj heq
      exact ⟨[e], by simpa using he, drafted.walked, congrArg some hstate, rfl⟩
    | @chained prior mem chained =>
      have hlt : prior.seq.toNat < n := by
        rw [← hseq, chained.seq]
        omega
      obtain ⟨branch, hsub, hwalked, hhead, hlast⟩ := ih prior.seq.toNat hlt mem rfl
      refine ⟨branch ++ [e], ?_, .next hwalked hlast chained, ?_, by simp⟩
      · exact List.append_subset.2 ⟨hsub, by simpa using he⟩
      · obtain ⟨first, rest, rfl⟩ := List.exists_cons_of_ne_nil hwalked.ne_nil
        exact hhead

/-- The walk wants the numbers to be the indices, in 32 bits. -/
theorem checkFrom_seqs : ∀ {log : List LifecycleEvent} {i : Nat} {prior c : Option Hash32},
    checkFrom X i prior log = .ok c → log.map (·.seq) = (List.range' i log.length).map UInt32.ofNat
  | [], _, _, _, _ => rfl
  | e :: log, i, prior, c, h => by
    rw [checkFrom] at h
    split at h
    · cases h
    · rename_i hseq
      obtain ⟨_, -, h⟩ := bind_ok.1 h
      obtain ⟨_, -, h⟩ := bind_ok.1 h
      obtain ⟨d, -, h⟩ := bind_ok.1 h
      rw [List.map_cons, List.length_cons, List.range'_succ, List.map_cons, checkFrom_seqs h, not_not.1 hseq]

/-- The events by number, when no two share one: each stands on the one before it. -/
theorem Forked.walked (h : Forked X hash log) {events : List LifecycleEvent} (hperm : events.Perm log)
    (hincreasing : events.Pairwise fun a b => a.seq.toNat < b.seq.toNat) :
    ∀ {front back : List LifecycleEvent}, events = front ++ back → front ≠ [] → Walked X hash front := by
  intro front
  induction front using List.reverseRecOn with
  | nil => exact fun _ hne => absurd rfl hne
  | append_singleton front e ih =>
    intro back hevents _
    rw [hevents] at hincreasing
    have hfront := (List.pairwise_append.1 hincreasing).1
    have hbefore : ∀ e' ∈ front, e'.seq.toNat < e.seq.toNat := fun e' he' =>
      (List.pairwise_append.1 hfront).2.2 e' he' e (List.mem_singleton_self e)
    have he : e ∈ log := hperm.mem_iff.1 (by simp [hevents])
    cases h.rooted e he with
    | draft drafted =>
      -- nothing has a smaller number than a draft
      have hnil : front = [] := by
        obtain ⟨first, rest, heq, hseq, -⟩ := drafted.head
        obtain ⟨rfl, -⟩ := List.cons.inj heq
        refine List.eq_nil_iff_forall_not_mem.2 fun e' he' => ?_
        have hlt := hbefore e' he'
        rw [hseq] at hlt
        simp at hlt
      subst hnil
      exact drafted.walked
    | @chained prior mem chained =>
      -- the event it is chained onto is before it, with nothing between
      have hprior : prior ∈ front := by
        have hmem : prior ∈ front ++ [e] ++ back := hevents ▸ hperm.mem_iff.2 mem
        have hseq := chained.seq
        rcases List.mem_append.1 hmem with hmem | hmem
        · rcases List.mem_append.1 hmem with hmem | hmem
          · exact hmem
          · rw [List.mem_singleton.1 hmem] at hseq
            omega
        · have hlt := (List.pairwise_append.1 hincreasing).2.2 e (by simp) prior hmem
          omega
      have hne : front ≠ [] := List.ne_nil_of_mem hprior
      have hevents' : events = front ++ (e :: back) := by simp [hevents]
      have hwalked := ih hevents' hne
      obtain ⟨last, hlast⟩ := hwalked.exists_last
      have hsame : prior = last := by
        obtain ⟨init, rfl⟩ := List.getLast?_eq_some_iff.1 hlast
        rcases List.mem_append.1 hprior with hinit | hinit
        · have hlt := (List.pairwise_append.1 (List.pairwise_append.1 hfront).1).2.2 prior hinit last (by simp)
          have hlt' := hbefore last (by simp)
          have hseq := chained.seq
          omega
        · exact List.mem_singleton.1 hinit
      subst hsame
      exact .next hwalked hlast chained

/-- Where no two events share a number, they are read in an order that the walk accepts. -/
theorem Forked.walked_sorted (h : Forked X hash log) {events : List LifecycleEvent} (hperm : events.Perm log)
    (hnodup : (log.map (·.seq)).Nodup) (hne : sortBy (fun a b => compare a.seq b.seq) events ≠ []) :
    Walked X hash (sortBy (fun a b => compare a.seq b.seq) events) := by
  have hsorted := (perm_sortBy (fun a b => compare a.seq b.seq) events).trans hperm
  have hdistinct := List.pairwise_map.1 ((hsorted.map (·.seq)).nodup_iff.2 hnodup)
  have hincreasing := (sortBy_seq_le events).imp₂ (fun a b hle hne =>
    lt_of_le_of_ne hle fun heq => hne (UInt32.toNat_inj.1 heq)) hdistinct
  exact h.walked hsorted hincreasing (List.append_nil _).symm hne

/-- Numbers that are the indices are different, as numbers that wrap would go down. -/
theorem nodup_of_checkFrom {sorted : List LifecycleEvent} {c : Option Hash32}
    (hle : sorted.Pairwise fun a b => a.seq.toNat ≤ b.seq.toNat) (h : checkFrom X 0 none sorted = .ok c) :
    (sorted.map (·.seq)).Nodup := by
  have hseqs := checkFrom_seqs h
  have hbound : sorted.length ≤ 2 ^ 32 := by
    by_contra hlong
    have hat : ∀ (i : Nat) (hi : i < sorted.length), sorted[i].seq = UInt32.ofNat i := by
      intro i hi
      have hget := congrArg (·[i]?) hseqs
      simpa [hi] using hget
    have hdown := List.pairwise_iff_getElem.1 hle (2 ^ 32 - 1) (2 ^ 32) (by omega) (by omega) (by omega)
    rw [hat _ (by omega), hat _ (by omega)] at hdown
    simp at hdown
  rw [hseqs]
  refine List.Nodup.map_on (fun i hi j hj hij => ?_) List.nodup_range'
  have hi' := List.mem_range'_1.1 hi
  have hj' := List.mem_range'_1.1 hj
  have hij := congrArg UInt32.toNat hij
  simp only [UInt32.toNat_ofNat'] at hij
  omega

end

/-! ## Sound stores -/

/-- A record of a revocation as the command makes it. -/
structure RevocationRecord.Recorded (record : RevocationRecord) : Prop where
  floor : ∀ reason ∈ record.reasonClass, strictnessRank (revocationFloor reason) ≤ strictnessRank record.policy
  severity : record.severity = severityFor record.policy

/-- Every attestation is one that the test expert signed for the artifact. -/
def ExpertSigned (X : Externals) (a : Artifact) : Prop :=
  ∀ attestation ∈ a.attestations, ∃ t nowUnix,
    signAttestation X (expertPayload X a.manifest t nowUnix) TestKeys.expertFixedSeed = .ok attestation

/-- What every command keeps of the stores, whatever the others do. -/
structure Backend.Sound (X : Externals) (r : Backend) : Prop where
  filed : r.Filed
  stored : ∀ hash kew, r.artifacts.lookup (hex32 hash) = some kew → ∃ a, Stored X hash kew a ∧ ExpertSigned X a
  logs : ∀ hash, ∃ log, r.events hash = log.map eventFile ∧ Forked X hash log
  kept : ∀ hash, r.events hash ≠ [] → ∃ kew, r.artifacts.lookup (hex32 hash) = some kew
  evidence : ∀ hash file, r.consistency hash = some file → ∃ nowUnix, file = .good (devConsistencyBlock nowUnix)
  tags : ∀ env tag file, r.tags env tag = some file → ∃ target e, file = .good ⟨env, tag, hex32 target, e.ref⟩ ∧
    eventFile e ∈ r.events target ∧ (e.eventKind = "published" ∨ e.eventKind = "tag_moved")
  notices : ∀ hash file, r.revocations hash = some file → ∃ record e, file = .good record ∧ record.Recorded ∧
    eventFile e ∈ r.events hash ∧ e.Revokes ∧ record.eventRef = e.ref

/-- How the stores change: files stay, a log is only appended to, a sidecar stays as it is. -/
structure Backend.Extends (r r' : Backend) : Prop where
  artifacts : ∀ name, (r.artifacts.lookup name).isSome = true → (r'.artifacts.lookup name).isSome = true
  events : ∀ hash, r.events hash <+: r'.events hash
  tags : ∀ env tag, (r.tags env tag).isSome = true → (r'.tags env tag).isSome = true
  consistency : ∀ hash file, r.consistency hash = some file → r'.consistency hash = some file
  revocations : ∀ hash file, r.revocations hash = some file → r'.revocations hash = some file

section

variable {X : Externals} {r r' t : Backend} {hash : Hash32}

theorem Backend.Extends.refl (r : Backend) : r.Extends r :=
  ⟨fun _ h => h, fun _ => List.prefix_rfl, fun _ _ h => h, fun _ _ h => h, fun _ _ h => h⟩

theorem Backend.Extends.trans {r₁ r₂ r₃ : Backend} (h : r₁.Extends r₂) (h' : r₂.Extends r₃) : r₁.Extends r₃ :=
  ⟨fun name hname => h'.artifacts name (h.artifacts name hname), fun hash => (h.events hash).trans (h'.events hash),
    fun env tag htag => h'.tags env tag (h.tags env tag htag),
    fun hash file hfile => h'.consistency hash file (h.consistency hash file hfile),
    fun hash file hfile => h'.revocations hash file (h.revocations hash file hfile)⟩

/-- Sound stores that only grow: what commands rely on of each other. -/
def stores (X : Externals) : Contract Backend := ⟨Backend.Sound X, Backend.Extends, .refl, .trans⟩

theorem Backend.Extends.mem (h : r.Extends r') {e : LifecycleEvent} (he : eventFile e ∈ r.events hash) :
    eventFile e ∈ r'.events hash := (h.events hash).subset he

/-! ### No operation takes anything away -/

theorem appendEvent_cases (r : Backend) (hash : Hash32) (e : LifecycleEvent) :
    r.appendEvent hash e = (.error (.eventExists e.seq), r) ∨
      (∀ file ∈ r.events hash, file.1 ≠ eventFileName e) ∧ r.appendEvent hash e = (.ok (),
        { r with events := Function.update r.events hash (r.events hash ++ [eventFile e]) }) := by
  unfold Backend.appendEvent
  split
  · exact .inl rfl
  · rename_i hnew
    refine .inr ⟨fun file hfile hname => hnew ?_, rfl⟩
    exact List.any_eq_true.2 ⟨file, hfile, decide_eq_true hname⟩

theorem appendEvent_mem_events {e : LifecycleEvent} (h : (r.appendEvent hash e).1 = .ok ()) :
    eventFile e ∈ (r.appendEvent hash e).2.events hash := by
  rcases appendEvent_cases r hash e with hrefused | ⟨-, happend⟩
  · cases (congrArg Prod.fst hrefused).symm.trans h
  · rw [happend]
    show eventFile e ∈ Function.update r.events hash _ hash
    rw [Function.update_self]
    exact List.mem_append_right _ (List.mem_singleton_self _)

theorem mem_log {log : List LifecycleEvent} (hlog : r.events hash = log.map eventFile) {e : LifecycleEvent} :
    eventFile e ∈ r.events hash ↔ e ∈ log := by
  have hinj : Function.Injective eventFile := fun e e' he => JsonFile.good.inj (congrArg Prod.snd he)
  rw [hlog, List.mem_map_of_injective hinj]

theorem putSidecar_extends {α : Type} {kind : String} {store : Hash32 → Option (JsonFile α)} {a : α}
    {other : Hash32} {file : JsonFile α} (h : store other = some file) :
    (putSidecar kind store hash a).2 other = some file := by
  unfold putSidecar
  split
  · exact h
  · rename_i hnone
    refine (Function.update_of_ne ?_ ..).trans h
    rintro rfl
    rw [h] at hnone
    cases hnone

theorem exec_extends {β : Type} (op : BackendOp β) (r : Backend) : r.Extends (exec op r).2 := by
  cases op with
  | putArtifact target kew =>
    refine ⟨fun name hname => ?_, fun _ => List.prefix_rfl, fun _ _ h => h, fun _ _ h => h, fun _ _ h => h⟩
    show ((putFile (hex32 target) kew r.artifacts).lookup name).isSome = true
    rw [lookup_putFile]
    split
    · rfl
    · exact hname
  | appendEvent target event =>
    show r.Extends (r.appendEvent target event).2
    rcases appendEvent_cases r target event with h | ⟨-, h⟩
    · rw [h]
      exact .refl r
    · rw [h]
      refine ⟨fun _ h => h, fun hash => ?_, fun _ _ h => h, fun _ _ h => h, fun _ _ h => h⟩
      show r.events hash <+: Function.update r.events target _ hash
      by_cases hhash : hash = target
      · subst hhash
        rw [Function.update_self]
        exact List.prefix_append ..
      · rw [Function.update_of_ne hhash]
  | readArtifactKew | readEvents | readConsistency => exact .refl r
  | putPointer env tag target eventRef =>
    refine ⟨fun _ h => h, fun _ => List.prefix_rfl, fun env' tag' h => ?_, fun _ _ h => h, fun _ _ h => h⟩
    show ((r.putPointer env tag target eventRef).tags env' tag').isSome = true
    rw [putPointer_tags]
    split
    · rfl
    · exact h
  | putConsistency target block =>
    exact ⟨fun _ h => h, fun _ => List.prefix_rfl, fun _ _ h => h, fun _ _ h => putSidecar_extends h, fun _ _ h => h⟩
  | putRevocation target record =>
    exact ⟨fun _ h => h, fun _ => List.prefix_rfl, fun _ _ h => h, fun _ _ h => h, fun _ _ h => putSidecar_extends h⟩

/-! ### What is written is sound -/

theorem Backend.Sound.empty : Backend.Sound X Backend.empty where
  filed := .empty
  stored := nofun
  logs _ := ⟨[], rfl, .nil⟩
  kept _ h := absurd rfl h
  evidence := nofun
  tags := nofun
  notices := nofun

theorem ExpertSigned.of_nil {a : Artifact} (h : a.attestations = []) : ExpertSigned X a := by
  intro attestation hmem
  rw [h] at hmem
  cases hmem

theorem attestArtifact_signed {a a' : Artifact} {types : List AttestationType} {nowUnix : UInt64} {kew : Bytes}
    (h : attestArtifact X a types nowUnix = .ok (a', kew)) : ExpertSigned X a' := by
  obtain ⟨attestations, hsigned, h⟩ := bind_ok.1 h
  obtain ⟨⟨attested, attestedKew⟩, hwith, h⟩ := bind_ok.1 h
  obtain ⟨-, h⟩ := throw_else.1 h
  obtain ⟨-, h⟩ := throw_else.1 h
  obtain ⟨rfl, rfl⟩ := Prod.mk.inj (pure_ok.1 h)
  obtain ⟨rfl, -⟩ := withAttestations_ok (mapError_ok.1 hwith)
  intro attestation hmem
  obtain ⟨t, -, ht⟩ := forall₂_mem_right (mapM_ok.1 hsigned) hmem
  exact ⟨t, nowUnix, mapError_ok.1 ht⟩

theorem Backend.Sound.putArtifact (h : r.Sound X) {kew : Bytes} {a : Artifact} (ha : Stored X hash kew a)
    (hsigned : ExpertSigned X a) : (r.putArtifact hash kew).Sound X := by
  have hlookup := fun name => lookup_putFile (hex32 hash) name kew r.artifacts
  refine ⟨h.filed.putArtifact hash kew, fun other kew' hkew' => ?_, h.logs, fun other hother => ?_, h.evidence, h.tags,
    h.notices⟩
  · rw [show (r.putArtifact hash kew).artifacts.lookup (hex32 other) = _ from hlookup _] at hkew'
    split at hkew'
    · rename_i hname
      obtain rfl := hex32_inj hname
      obtain rfl := Option.some.inj hkew'
      exact ⟨a, ha, hsigned⟩
    · exact h.stored other kew' hkew'
  · rw [show (r.putArtifact hash kew).artifacts.lookup (hex32 other) = _ from hlookup _]
    split
    · exact ⟨kew, rfl⟩
    · exact h.kept other hother

theorem Backend.Sound.appendEvent (h : r.Sound X) {e : LifecycleEvent}
    (hrooted : ∀ log, r.events hash = log.map eventFile → Rooted X hash log e)
    (hkept : ∃ kew, r.artifacts.lookup (hex32 hash) = some kew) : (r.appendEvent hash e).2.Sound X := by
  have hextends := exec_extends (.appendEvent hash e) r
  rcases appendEvent_cases r hash e with happend | ⟨hnew, happend⟩
  · rw [happend]
    exact h
  · have hextends : r.Extends (r.appendEvent hash e).2 := hextends
    rw [happend] at hextends ⊢
    refine ⟨⟨h.filed.names, h.filed.nodup⟩, h.stored, fun other => ?_, fun other hother => ?_, h.evidence, ?_, ?_⟩
    · by_cases hhash : other = hash
      · subst hhash
        obtain ⟨log, hlog, hforked⟩ := h.logs other
        refine ⟨log ++ [e], ?_, hforked.append (hrooted log hlog) fun e' he' => ?_⟩
        · show Function.update r.events other _ other = _
          rw [Function.update_self, hlog, List.map_append, List.map_singleton]
        · exact hnew (eventFile e') (hlog ▸ List.mem_map_of_mem he')
      · obtain ⟨log, hlog, hforked⟩ := h.logs other
        exact ⟨log, (Function.update_of_ne hhash ..).trans hlog, hforked⟩
    · by_cases hhash : other = hash
      · rw [hhash]
        exact hkept
      · refine h.kept other fun hnil => hother ?_
        exact (Function.update_of_ne hhash ..).trans hnil
    · intro env tag file hfile
      obtain ⟨target, e', hgood, he', hkind⟩ := h.tags env tag file hfile
      exact ⟨target, e', hgood, hextends.mem he', hkind⟩
    · intro other file hfile
      obtain ⟨record, e', hgood, hrecorded, he', hrevokes, href⟩ := h.notices other file hfile
      exact ⟨record, e', hgood, hrecorded, hextends.mem he', hrevokes, href⟩

theorem Backend.Sound.putPointer (h : r.Sound X) {env tag : String} {e : LifecycleEvent}
    (he : eventFile e ∈ r.events hash) (hkind : e.eventKind = "published" ∨ e.eventKind = "tag_moved") :
    (r.putPointer env tag hash e.ref).Sound X := by
  refine ⟨⟨h.filed.names, h.filed.nodup⟩, h.stored, h.logs, h.kept, h.evidence, fun env' tag' file hfile => ?_, h.notices⟩
  rw [putPointer_tags] at hfile
  split at hfile
  · rename_i hname
    obtain ⟨rfl, rfl⟩ := hname
    exact ⟨hash, e, (Option.some.inj hfile).symm, he, hkind⟩
  · exact h.tags env' tag' file hfile

theorem putSidecar_some {α : Type} {kind : String} {store : Hash32 → Option (JsonFile α)} {a : α} {other : Hash32}
    {file : JsonFile α} (h : (putSidecar kind store hash a).2 other = some file) :
    store other = some file ∨ other = hash ∧ file = .good a := by
  unfold putSidecar at h
  split at h
  · exact .inl h
  · have h : Function.update store hash (some (.good a)) other = some file := h
    by_cases hother : other = hash
    · subst hother
      rw [Function.update_self] at h
      exact .inr ⟨rfl, (Option.some.inj h).symm⟩
    · rw [Function.update_of_ne hother] at h
      exact .inl h

theorem Backend.Sound.putConsistency (h : r.Sound X) (nowUnix : UInt64) :
    (r.putConsistency hash (devConsistencyBlock nowUnix)).2.Sound X := by
  refine ⟨⟨h.filed.names, h.filed.nodup⟩, h.stored, h.logs, h.kept, fun other file hfile => ?_, h.tags, h.notices⟩
  rcases putSidecar_some hfile with hold | ⟨-, rfl⟩
  · exact h.evidence other file hold
  · exact ⟨nowUnix, rfl⟩

theorem Backend.Sound.putRevocation (h : r.Sound X) {record : RevocationRecord} {e : LifecycleEvent}
    (hrecorded : record.Recorded) (he : eventFile e ∈ r.events hash) (hrevokes : e.Revokes)
    (href : record.eventRef = e.ref) : (r.putRevocation hash record).2.Sound X := by
  refine ⟨⟨h.filed.names, h.filed.nodup⟩, h.stored, h.logs, h.kept, h.evidence, h.tags, fun other file hfile => ?_⟩
  rcases putSidecar_some hfile with hold | ⟨rfl, rfl⟩
  · exact h.notices other file hold
  · exact ⟨record, e, rfl, hrecorded, he, hrevokes, href⟩

end

/-! ## Parts of a command -/

section

variable {X : Externals} {r : Backend} {hash : Hash32}

section

variable {α β : Type} {f : α → Command β} {Q : β → Backend → Prop}

theorem keeps_ensure {c : Prop} [Decidable c] {e : CommandError} {f : Unit → Command β}
    (h : c → (f ()).Keeps @perform (stores X) Q r) : (ensure c e >>= f).Keeps @perform (stores X) Q r := by
  unfold ensure
  by_cases hc : c
  · rw [if_pos hc]
    exact h hc
  · rw [if_neg hc]
    exact Prog.keeps_done fun a ha => by cases ha

theorem keeps_ofExcept {x : Except CommandError α} (h : ∀ a, x = .ok a → (f a).Keeps @perform (stores X) Q r) :
    (Prog.ofExcept x >>= f).Keeps @perform (stores X) Q r := by
  cases x with
  | error e => exact Prog.keeps_done fun a ha => by cases ha
  | ok a => exact h a rfl

theorem keeps_ofRegistry {x : Except RegistryError α} (h : ∀ a, x = .ok a → (f a).Keeps @perform (stores X) Q r) :
    (ofRegistry x >>= f).Keeps @perform (stores X) Q r := by
  cases x with
  | error e => exact Prog.keeps_done fun a ha => by cases ha
  | ok a => exact h a rfl

/-- An operation leaves sound stores; they grow whatever it is. -/
theorem keeps_op {op : BackendOp α} (h : ∀ t, t.Sound X → r.Extends t → (exec op t).2.Sound X ∧
    ∀ a, (exec op t).1 = .ok a → (f a).Keeps @perform (stores X) Q (exec op t).2) :
    (Prog.op op >>= f).Keeps @perform (stores X) Q r := by
  intro t ht hgrows
  obtain ⟨hsound, hnext⟩ := h t ht hgrows
  exact ⟨hsound, exec_extends op t, fun a ha => hnext a (mapError_ok.1 ha)⟩

/-- The log that is read is that of the stores, in some order. -/
theorem Backend.Sound.readEvents (h : r.Sound X) {events : List LifecycleEvent} (hread : r.readEvents hash = .ok events)
    {e : LifecycleEvent} (he : e ∈ events) : eventFile e ∈ r.events hash := by
  obtain ⟨log, hlog, -⟩ := h.logs hash
  obtain ⟨events', hread', hperm⟩ := readEvents_perm hlog
  obtain rfl := Except.ok.inj (hread.symm.trans hread')
  rw [hlog]
  exact List.mem_map_of_mem (hperm.mem_iff.1 ((perm_sortBy _ events').mem_iff.1 he))

theorem keeps_requireCurrentState {f : LifecycleState → Command β}
    (h : ∀ t state, r.Extends t → t.events hash ≠ [] → (f state).Keeps @perform (stores X) Q t) :
    (requireCurrentState X hash >>= f).Keeps @perform (stores X) Q r := by
  unfold requireCurrentState
  rw [Prog.bind_assoc]
  refine keeps_op fun t ht hgrows => ⟨ht, fun events hevents => keeps_ofRegistry fun state hstate => ?_⟩
  refine h t state hgrows fun hnil => ?_
  -- a state is that of some event
  obtain ⟨found, hfound, hstate⟩ := bind_ok.1 hstate
  obtain ⟨_, -, hlast⟩ := bind_ok.1 hfound
  cases events with
  | nil =>
    obtain rfl := Except.ok.inj hlast
    cases hstate
  | cons e events =>
    have hmem := ht.readEvents hevents List.mem_cons_self
    rw [hnil] at hmem
    cases hmem

theorem keeps_finalState {Q : LifecycleState → Backend → Prop} (h : ∀ state t, r.Extends t → Q state t) :
    (requireCurrentState X hash).Keeps @perform (stores X) Q r := by
  have hkeeps : (requireCurrentState X hash >>= fun state => .done (.ok state)).Keeps @perform (stores X) Q r :=
    keeps_requireCurrentState fun t state hgrows _ => Prog.keeps_done fun state' _ => h state' t hgrows
  rwa [Prog.bind_done] at hkeeps

/-- An event is chained onto the head that is read, and is there from then on. -/
theorem keeps_appendChained {f : LifecycleEvent → Command β}
    {build : LifecycleEvent → Except RegistryError LifecycleEvent}
    (hbuild : ∀ prior e, build prior = .ok e → ChainedOn X prior e)
    (h : ∀ t prior e, r.Extends t → build prior = .ok e → eventFile e ∈ t.events hash →
      (f e).Keeps @perform (stores X) Q t) :
    (appendChained X hash build >>= f).Keeps @perform (stores X) Q r := by
  unfold appendChained headEvent
  rw [Prog.bind_assoc, Prog.bind_assoc]
  refine keeps_op fun t ht hgrows => ⟨ht, fun events hevents => keeps_ofRegistry fun prior hprior => ?_⟩
  obtain ⟨_, -, hlast⟩ := bind_ok.1 hprior
  have hlast : events.getLast? = some prior := elim_throw.1 hlast
  have hmem := ht.readEvents hevents (List.mem_of_getLast? hlast)
  rw [Prog.bind_assoc]
  refine keeps_ofRegistry fun e he => ?_
  rw [Prog.bind_assoc]
  refine keeps_op fun u hu hgrows' => ?_
  have hprior : eventFile prior ∈ u.events hash := hgrows'.mem hmem
  refine ⟨hu.appendEvent (fun log hlog => ?_) (hu.kept hash (List.ne_nil_of_mem hprior)), fun _ happended => ?_⟩
  · exact .chained ((mem_log hlog).1 hprior) (hbuild prior e he)
  · refine h _ prior e ((hgrows.trans hgrows').trans (exec_extends (.appendEvent hash e) u)) he ?_
    exact appendEvent_mem_events happended

end

/-! ## Commands -/

/-- The event that a command files when it returns `Ok`: of which artifact, of which kind, and when. -/
def CommandLine.Announces (X : Externals) (hash : Hash32) (kind : String) (now : UInt64) (c : CommandLine) : Prop :=
  match c with
  | .compile _ _ nowUnix | .compileIntent _ _ nowUnix =>
    (∃ a kew, c.Assembles X a kew ∧ a.manifest.artifactHash = hash) ∧ kind = "draft" ∧ now = nowUnix
  | .mlCheck target nowUnix => target = hash ∧ kind = "ml_checked" ∧ now = nowUnix
  | .attest target _ nowUnix => target = hash ∧ kind = "expert_attested" ∧ now = nowUnix
  | .publish target _ _ _ nowUnix => target = hash ∧ kind = "published" ∧ now = nowUnix
  | .deprecateArtifact target nowUnix => target = hash ∧ kind = "deprecated" ∧ now = nowUnix
  | .revoke target _ _ _ nowUnix => target = hash ∧ kind = "revoked" ∧ now = nowUnix
  | .rollback _ _ target nowUnix => target = hash ∧ kind = "tag_moved" ∧ now = nowUnix

/-- What a command writes beside its event. -/
def CommandLine.Writes (hash : Hash32) (r : Backend) : CommandLine → Prop
  | .mlCheck .. => (r.consistency hash).isSome = true
  | .publish _ env tag .. | .rollback env tag .. => (r.tags env tag).isSome = true
  | .revoke .. => (r.revocations hash).isSome = true
  | _ => True

/-- Everything that a command has done when it returns `Ok` is there. -/
def CommandLine.Done (X : Externals) (c : CommandLine) (r : Backend) : Prop :=
  ∃ hash kind now e, c.Announces X hash kind now ∧ eventFile e ∈ r.events hash ∧ e.eventKind = kind ∧
    e.timestamp = mockStamp X hash now ∧ c.Writes hash r

theorem CommandLine.Done.extends {r' : Backend} {c : CommandLine} (h : c.Done X r) (hextends : r.Extends r') :
    c.Done X r' := by
  obtain ⟨hash, kind, now, e, hannounces, he, hkind, htime, hwrites⟩ := h
  refine ⟨hash, kind, now, e, hannounces, hextends.mem he, hkind, htime, ?_⟩
  cases c with
  | mlCheck =>
    obtain ⟨file, hfile⟩ := Option.isSome_iff_exists.1 hwrites
    exact Option.isSome_iff_exists.2 ⟨file, hextends.consistency hash file hfile⟩
  | publish target env tag => exact hextends.tags env tag hwrites
  | rollback env tag => exact hextends.tags env tag hwrites
  | revoke =>
    obtain ⟨file, hfile⟩ := Option.isSome_iff_exists.1 hwrites
    exact Option.isSome_iff_exists.2 ⟨file, hextends.revocations hash file hfile⟩
  | compile | compileIntent | attest | deprecateArtifact => trivial

theorem buildChainedEvent_timestamp {prior e : LifecycleEvent} {newState : LifecycleState}
    {eventKind authorityKeyId : String} {authorityRole : SignerRole} {timestamp : TimestampToken}
    (h : buildChainedEvent X prior newState eventKind authorityKeyId authorityRole timestamp = .ok e) :
    e.timestamp = timestamp := by
  obtain ⟨seq, -, h⟩ := bind_ok.1 h
  obtain ⟨c, -, h⟩ := bind_ok.1 h
  obtain ⟨p, -, rfl⟩ := signEvent_ok.1 h
  rfl

/-- Moving on to a state stamps the event with the time of the command. -/
theorem registryTransition_event {newState : LifecycleState} {nowUnix : UInt64} {prior e : LifecycleEvent}
    (h : registryTransition X hash newState nowUnix prior = .ok e) :
    e.newState = newState ∧ e.eventKind = newState.eventKind ∧ e.timestamp = mockStamp X hash nowUnix := by
  obtain ⟨-, hnew, hkind⟩ := buildChainedEvent_ok h
  exact ⟨hnew, hkind, buildChainedEvent_timestamp h⟩

variable {Q : LifecycleState → Backend → Prop}

theorem keeps_transition {newState : LifecycleState} {nowUnix : UInt64} {f : LifecycleEvent → Command LifecycleState}
    (h : ∀ t e, r.Extends t → eventFile e ∈ t.events hash → e.newState = newState → e.eventKind = newState.eventKind →
      e.timestamp = mockStamp X hash nowUnix → (f e).Keeps @perform (stores X) Q t) :
    (appendChained X hash (registryTransition X hash newState nowUnix) >>= f).Keeps @perform (stores X) Q r := by
  refine keeps_appendChained (fun _ _ => registryTransition_ok) fun t prior e hgrows he hfiled => ?_
  obtain ⟨hnew, hkind, htime⟩ := registryTransition_event he
  exact h t e hgrows hfiled hnew hkind htime

theorem mlCheck_keeps (nowUnix : UInt64) : (mlCheck X hash nowUnix).Keeps @perform (stores X)
    (fun _ t => (CommandLine.mlCheck hash nowUnix).Done X t) r := by
  unfold mlCheck
  refine keeps_requireCurrentState fun t prior _ _ => keeps_ensure fun _ => ?_
  refine keeps_op fun u hu _ => ⟨hu.putConsistency nowUnix, fun _ _ => ?_⟩
  refine keeps_op fun v hv _ => ⟨hv, fun sidecar hsidecar => keeps_ensure fun hpre => ?_⟩
  -- the sidecar that was read back stays
  have hsome : (v.consistency hash).isSome = true := by
    cases hfile : v.consistency hash with
    | some file => rfl
    | none =>
      have hnone : v.readConsistency hash = .ok none := by
        unfold Backend.readConsistency readSidecar
        rw [hfile]
      obtain rfl := Except.ok.inj (hnone.symm.trans hsidecar)
      cases hpre
  refine keeps_transition fun w e hgrows he _ hkind htime => keeps_finalState fun state w' hgrows' => ?_
  refine CommandLine.Done.extends ⟨hash, "ml_checked", nowUnix, e, ⟨rfl, rfl, rfl⟩, he, hkind, htime, ?_⟩ hgrows'
  obtain ⟨file, hfile⟩ := Option.isSome_iff_exists.1 hsome
  exact Option.isSome_iff_exists.2 ⟨file, hgrows.consistency hash file hfile⟩

theorem deprecateArtifact_keeps (nowUnix : UInt64) : (deprecateArtifact X hash nowUnix).Keeps @perform (stores X)
    (fun _ t => (CommandLine.deprecateArtifact hash nowUnix).Done X t) r := by
  unfold deprecateArtifact
  refine keeps_requireCurrentState fun t prior _ _ => keeps_ensure fun _ => keeps_ensure fun _ => ?_
  refine keeps_transition fun u e _ he _ hkind htime => keeps_finalState fun state w hgrows => ?_
  exact CommandLine.Done.extends ⟨hash, "deprecated", nowUnix, e, ⟨rfl, rfl, rfl⟩, he, hkind, htime, trivial⟩ hgrows

theorem attest_keeps (types : List AttestationType) (nowUnix : UInt64) :
    (attest X hash types nowUnix).Keeps @perform (stores X)
      (fun _ t => (CommandLine.attest hash types nowUnix).Done X t) r := by
  unfold attest
  refine keeps_ensure fun _ => keeps_requireCurrentState fun t prior _ _ => keeps_ensure fun _ => ?_
  refine keeps_op fun u hu _ => ⟨hu, fun kew hkew => keeps_ofRegistry fun decoded hdecoded => ?_⟩
  -- what was read is an artifact under its address, so what is written is one too
  obtain ⟨a, ha, -⟩ := hu.stored hash kew (readArtifactKew_ok.1 hkew)
  obtain ⟨n, hdec, -⟩ := ha.decode
  obtain rfl := Except.ok.inj ((mapError_ok.2 hdec).symm.trans hdecoded)
  refine keeps_ofExcept fun attested hattested => keeps_op fun v hv _ => ?_
  have hstored : Stored X a.manifest.artifactHash attested.2 attested.1 := by
    rw [ha.address]
    exact ha.attested hattested
  refine ⟨hv.putArtifact hstored (attestArtifact_signed hattested), fun _ _ => keeps_ofRegistry fun _ _ => keeps_ensure fun _ => ?_⟩
  refine keeps_transition fun w e _ he _ hkind htime => keeps_finalState fun state w' hgrows => ?_
  exact CommandLine.Done.extends ⟨hash, "expert_attested", nowUnix, e, ⟨rfl, rfl, rfl⟩, he, hkind, htime, trivial⟩ hgrows

/-- Setting a tag to an event that is filed. -/
theorem keeps_putPointer {env tag : String} {e : LifecycleEvent} {f : Unit → Command LifecycleState}
    (he : eventFile e ∈ r.events hash) (hkind : e.eventKind = "published" ∨ e.eventKind = "tag_moved")
    (h : ∀ t, r.Extends t → (t.tags env tag).isSome = true → (f ()).Keeps @perform (stores X) Q t) :
    (Prog.op (.putPointer env tag hash e.ref) >>= f).Keeps @perform (stores X) Q r := by
  refine keeps_op fun t ht hgrows => ⟨ht.putPointer (hgrows.mem he) hkind, fun _ _ => ?_⟩
  refine h _ (hgrows.trans (exec_extends (.putPointer env tag hash e.ref) t)) ?_
  show ((t.putPointer env tag hash e.ref).tags env tag).isSome = true
  rw [putPointer_tags, if_pos ⟨rfl, rfl⟩]
  rfl

theorem publish_keeps (env tag : String) (bundle : Option (Except String VerificationPolicy)) (nowUnix : UInt64) :
    (publish X hash env tag bundle nowUnix).Keeps @perform (stores X)
      (fun _ t => (CommandLine.publish hash env tag bundle nowUnix).Done X t) r := by
  unfold publish
  refine keeps_requireCurrentState fun t prior _ _ => keeps_ensure fun _ => ?_
  refine keeps_op fun u hu _ => ⟨hu, fun kew _ => keeps_ofRegistry fun decoded _ => keeps_ofRegistry fun policy _ => ?_⟩
  refine keeps_ofRegistry fun _ _ => keeps_ensure fun _ => ?_
  refine keeps_transition fun v e _ he _ hkind htime => ?_
  have href : s!"published@seq{e.seq.toNat}" = e.ref := by
    unfold LifecycleEvent.ref
    rw [hkind]
    rfl
  rw [href]
  refine keeps_putPointer he (.inl hkind) fun w hgrows htag => keeps_finalState fun state w' hgrows' => ?_
  exact CommandLine.Done.extends
    ⟨hash, "published", nowUnix, e, ⟨rfl, rfl, rfl⟩, hgrows.mem he, hkind, htime, htag⟩ hgrows'

theorem rollback_keeps (env tag : String) (nowUnix : UInt64) :
    (rollback X env tag hash nowUnix).Keeps @perform (stores X)
      (fun _ t => (CommandLine.rollback env tag hash nowUnix).Done X t) r := by
  unfold rollback
  refine keeps_requireCurrentState fun t prior _ _ => keeps_ensure fun _ => ?_
  refine keeps_appendChained (fun _ _ h => (buildChainedEvent_ok h).1) fun v prior e _ hbuild he => ?_
  obtain ⟨-, -, hkind⟩ := buildChainedEvent_ok hbuild
  have htime := buildChainedEvent_timestamp hbuild
  have href : s!"tag_moved@seq{e.seq.toNat}" = e.ref := by
    unfold LifecycleEvent.ref
    rw [hkind]
    rfl
  rw [href]
  refine keeps_putPointer he (.inr hkind) fun w hgrows htag => keeps_finalState fun state w' hgrows' => ?_
  exact CommandLine.Done.extends
    ⟨hash, "tag_moved", nowUnix, e, ⟨rfl, rfl, rfl⟩, hgrows.mem he, hkind, htime, htag⟩ hgrows'

/-- What is recorded is at least the floor of the reason. -/
theorem recordedPolicy_floor {policy : Option RevocationPolicy} {reasonClass : Option RevocationReasonClass}
    {recorded : RevocationPolicy} (h : recordedPolicy policy reasonClass = .ok recorded) :
    ∀ reason ∈ reasonClass, strictnessRank (revocationFloor reason) ≤ strictnessRank recorded := by
  rintro reason ⟨⟩
  cases policy with
  | none =>
    obtain rfl := Except.ok.inj h
    exact le_rfl
  | some configured =>
    simp only [recordedPolicy] at h
    split at h
    · cases h
    · obtain rfl := Except.ok.inj h
      simp only [revocationDecision]
      split
      · omega
      · exact le_rfl

theorem revoke_keeps (policy : Option RevocationPolicy) (reasonClass : Option RevocationReasonClass)
    (reason : Option String) (nowUnix : UInt64) :
    (revoke X hash policy reasonClass reason nowUnix).Keeps @perform (stores X)
      (fun _ t => (CommandLine.revoke hash policy reasonClass reason nowUnix).Done X t) r := by
  unfold revoke
  refine keeps_ofExcept fun recorded hrecorded => keeps_requireCurrentState fun t prior _ _ => ?_
  refine keeps_ensure fun _ => keeps_ensure fun _ => keeps_transition fun u e _ he hnew hkind htime => ?_
  have href : s!"revoked@seq{e.seq.toNat}" = e.ref := by
    unfold LifecycleEvent.ref
    rw [hkind]
    rfl
  refine keeps_op fun v hv hgrows => ⟨?_, fun _ hput => keeps_finalState fun state w hgrows' => ?_⟩
  · exact hv.putRevocation ⟨recordedPolicy_floor (mapError_ok.1 hrecorded), rfl⟩ (hgrows.mem he) ⟨hkind, hnew⟩ href
  · refine CommandLine.Done.extends ⟨hash, "revoked", nowUnix, e, ⟨rfl, rfl, rfl⟩, ?_, hkind, htime, ?_⟩ hgrows'
    · exact hgrows.mem he
    · -- a second record is refused
      cases hfile : v.revocations hash with
      | some file =>
        have hrefused : ∀ record, (v.putRevocation hash record).1 = .error (.sidecarExists "revocation") := by
          intro record
          unfold Backend.putRevocation putSidecar
          rw [hfile]
        cases (hrefused _).symm.trans hput
      | none =>
        show ((v.putRevocation hash _).2.revocations hash).isSome = true
        rw [putRevocation_new hfile]
        rfl

/-- What an assembly made is stored, its draft is filed, and whether it was clean is recorded. -/
theorem storeAndRecord_keeps {c : CommandLine} {a : Artifact} {kew : Bytes} (hmade : c.Assembles X a kew)
    (structuralClean : Bool) (nowUnix : UInt64)
    (hannounces : c.Announces X a.manifest.artifactHash "draft" nowUnix) (hwrites : ∀ t, c.Writes a.manifest.artifactHash t) :
    (storeAndRecord X a kew structuralClean nowUnix).Keeps @perform (stores X) (fun _ t => c.Done X t) r := by
  unfold storeAndRecord
  refine keeps_op fun t ht _ =>
    ⟨ht.putArtifact hmade.stored.1 (.of_nil hmade.stored.2), fun _ _ => keeps_ofRegistry fun draft hdraft => ?_⟩
  obtain ⟨hgrown, -⟩ := buildDraftEvent_ok hdraft
  obtain ⟨hkind, htime⟩ : draft.eventKind = "draft" ∧ draft.timestamp = mockStamp X a.manifest.artifactHash nowUnix := by
    obtain ⟨p, -, rfl⟩ := signEvent_ok.1 hdraft
    exact ⟨rfl, rfl⟩
  have hput := lookup_putFile (hex32 a.manifest.artifactHash) (hex32 a.manifest.artifactHash) kew t.artifacts
  rw [if_pos rfl] at hput
  refine keeps_op fun u hu hgrows => ?_
  have hkept : ∃ kew', u.artifacts.lookup (hex32 a.manifest.artifactHash) = some kew' :=
    Option.isSome_iff_exists.1 (hgrows.artifacts _ (Option.isSome_iff_exists.2 ⟨kew, hput⟩))
  refine ⟨hu.appendEvent (fun _ _ => .draft hgrown) hkept, fun _ happended => ?_⟩
  have hdraft := appendEvent_mem_events happended
  have hdone : ∀ {finalState : LifecycleState} {v : Backend}, eventFile draft ∈ v.events a.manifest.artifactHash →
      (derivedState X a.manifest.artifactHash finalState).Keeps @perform (stores X) (fun _ t => c.Done X t) v := by
    intro finalState v hv
    unfold derivedState
    refine keeps_op fun w hw hgrows' => ⟨hw, fun events _ => keeps_ofRegistry fun derived _ => keeps_ensure fun _ => ?_⟩
    exact Prog.keeps_done fun _ _ =>
      ⟨a.manifest.artifactHash, "draft", nowUnix, draft, hannounces, hgrows'.mem hv, hkind, htime, hwrites w⟩
  show (if canTransition .draft .structurallyVerified (structuralPreconditions X kew structuralClean) = true then
    (_ : Command LifecycleState) else _).Keeps @perform (stores X) _ _
  split
  · refine keeps_ofRegistry fun sv hsv => keeps_op fun v hv hgrows' => ⟨hv.appendEvent (fun log hlog => ?_) ?_, fun _ _ => ?_⟩
    · exact .chained ((mem_log hlog).1 (hgrows'.mem hdraft)) (buildChainedEvent_ok hsv).1
    · exact hv.kept _ (List.ne_nil_of_mem (hgrows'.mem hdraft))
    · exact hdone ((hgrows'.trans (exec_extends (.appendEvent _ sv) v)).mem hdraft)
  · exact hdone hdraft

/-- Every command keeps the stores sound, and what it does before it returns `Ok` stays. -/
theorem CommandLine.keeps (c : CommandLine) (r : Backend) :
    (c.command X).Keeps @perform (stores X) (fun _ t => c.Done X t) r := by
  cases c with
  | compile document regimeId nowUnix =>
    unfold CommandLine.command Registry.compile
    refine keeps_ofExcept fun d hd => keeps_ofExcept fun made hmade => ?_
    have hassembles : (CommandLine.compile document regimeId nowUnix).Assembles X made.1 made.2 :=
      ⟨d, mapError_ok.1 hd, hmade⟩
    exact storeAndRecord_keeps hassembles true nowUnix ⟨⟨_, _, hassembles, rfl⟩, rfl, rfl⟩ fun _ => trivial
  | compileIntent document regimeId nowUnix =>
    unfold CommandLine.command Registry.compileIntent
    refine keeps_ofExcept fun d hd => keeps_ofExcept fun made hmade => ?_
    have hassembles : (CommandLine.compileIntent document regimeId nowUnix).Assembles X made.1 made.2 :=
      ⟨d, mapError_ok.1 hd, hmade⟩
    exact storeAndRecord_keeps hassembles true nowUnix ⟨⟨_, _, hassembles, rfl⟩, rfl, rfl⟩ fun _ => trivial
  | mlCheck target nowUnix => exact mlCheck_keeps nowUnix
  | attest target types nowUnix => exact attest_keeps types nowUnix
  | publish target env tag bundle nowUnix => exact publish_keeps env tag bundle nowUnix
  | deprecateArtifact target nowUnix => exact deprecateArtifact_keeps nowUnix
  | revoke target policy reasonClass reason nowUnix => exact revoke_keeps policy reasonClass reason nowUnix
  | rollback env tag target nowUnix => exact rollback_keeps env tag nowUnix

end

end Ke.Registry
