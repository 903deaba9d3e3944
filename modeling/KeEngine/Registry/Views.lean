/-
What readers find in sound stores: the directory is listed whole, and a log is read without an error unless
two of its events share a number. A reader that fails for another reason was asked for what is not there.
-/
import KeEngine.Prog.Raises
import KeEngine.Registry.Attested
import KeEngine.Registry.Concurrent
import KeEngine.Registry.Readers

namespace Ke.Registry

open Ke Wire

/-! ## Logs -/

/-- Two events of an artifact under one number: what a race leaves. -/
def Backend.Collides (r : Backend) (hash : Hash32) : Prop :=
  ∃ e e', eventFile e ∈ r.events hash ∧ eventFile e' ∈ r.events hash ∧ e.seq = e'.seq ∧ e ≠ e'

/-- What a log says: no events, or a walk. -/
inductive LogView (X : Externals) (hash : Hash32) : List LifecycleEvent → Option LifecycleState → Hash32 → Prop
  | empty : LogView X hash [] none zeroHash
  | head {events : List LifecycleEvent} {e : LifecycleEvent} {head : Hash32} (walked : Walked X hash events)
      (last : events.getLast? = some e) (chain : e.chainHash X = .ok head) :
      LogView X hash events (some e.newState) head

section

variable {X : Externals} {r : Backend} {hash head : Hash32} {events : List LifecycleEvent}
  {state : Option LifecycleState} {among : Set Hash32}

theorem LogView.currentState (hX : X.Lawful) (h : LogView X hash events state head) :
    currentState X events = .ok state := by
  cases h with
  | empty => rfl
  | head walked last _ => exact walked.currentState hX last

theorem LogView.eventHeadHash (hX : X.Lawful) (h : LogView X hash events state head)
    (hread : r.readEvents hash = .ok events) : r.eventHeadHash X hash events = .ok head := by
  cases h with
  | empty => rfl
  | @head events e head walked last chain =>
    unfold Backend.eventHeadHash
    rw [if_neg fun hnil => walked.ne_nil (List.isEmpty_iff.1 hnil)]
    refine bind_ok.2 ⟨e, bind_ok.2 ⟨events, hread, bind_ok.2 ⟨_, walked.currentState hX last, ?_⟩⟩, chain⟩
    exact elim_throw.2 last

theorem LogView.evidence (hX : X.Lawful) (h : LogView X hash events state head)
    (hread : r.readEvents hash = .ok events) :
    readRegistryEvidence X r hash = .ok ⟨state.elim .unknown statusFor, head, none⟩ :=
  bind_ok.2 ⟨events, hread, bind_ok.2 ⟨state, h.currentState hX, bind_ok.2 ⟨head, h.eventHeadHash hX hread, rfl⟩⟩⟩

/-- The events that are filed, by number, are read; they are a walk unless two share a number. -/
theorem Backend.Sound.log (h : r.Sound X) (hash : Hash32) : ∃ events, r.readEvents hash = .ok events ∧
    (∀ e, e ∈ events ↔ eventFile e ∈ r.events hash) ∧
      (¬ r.Collides hash → ∃ state head, LogView X hash events state head) ∧
        (r.Collides hash → ∃ err, currentState X events = .error err) := by
  obtain ⟨log, hlog, hforked⟩ := h.logs hash
  obtain ⟨events, hread, hperm⟩ := readEvents_perm hlog
  have hsorted := (perm_sortBy (fun a b => compare a.seq b.seq) events).trans hperm
  refine ⟨_, hread, fun e => hsorted.mem_iff.trans (mem_log hlog).symm, fun hnot => ?_, ?_⟩
  · have hdistinct : log.Nodup := List.Nodup.of_map eventFileName hforked.names
    have hnodup : (log.map (·.seq)).Nodup := by
      refine List.Nodup.map_on (fun e he e' he' hseq => ?_) hdistinct
      by_contra hne
      exact hnot ⟨e, e', (mem_log hlog).2 he, (mem_log hlog).2 he', hseq, hne⟩
    by_cases hne : sortBy (fun a b => compare a.seq b.seq) events = []
    · rw [hne]
      exact ⟨none, zeroHash, .empty⟩
    · have hwalked := hforked.walked_sorted hperm hnodup hne
      obtain ⟨e, hlast⟩ := hwalked.exists_last
      obtain ⟨head, hchain⟩ := (hwalked.signed e (List.mem_of_getLast? hlast)).chainHash
      exact ⟨some e.newState, head, .head hwalked hlast hchain⟩
  · rintro ⟨e, e', he, he', hseq, hne⟩
    cases hstate : currentState X (sortBy (fun a b => compare a.seq b.seq) events) with
    | error err => exact ⟨err, rfl⟩
    | ok state =>
      obtain ⟨c, hwalk, -⟩ := bind_ok.1 hstate
      have hnodup := nodup_of_checkFrom (sortBy_seq_le events) hwalk
      exact absurd (List.inj_on_of_nodup_map hnodup (hsorted.mem_iff.2 ((mem_log hlog).1 he))
        (hsorted.mem_iff.2 ((mem_log hlog).1 he')) hseq) hne

theorem Backend.Sound.accepted_iff (hX : X.Lawful) (h : r.Sound X) (hash : Hash32) :
    (∃ state, lifecycleState X r hash = .ok state) ↔ ¬ r.Collides hash := by
  obtain ⟨events, hread, -, hview, hcollides⟩ := h.log hash
  constructor
  · rintro ⟨state, hstate⟩ hcol
    obtain ⟨events', hread', hcurrent⟩ := bind_ok.1 hstate
    obtain rfl := Except.ok.inj (hread.symm.trans hread')
    obtain ⟨err, herr⟩ := hcollides hcol
    cases herr.symm.trans hcurrent
  · intro hnot
    obtain ⟨state, head, hlog⟩ := hview hnot
    exact ⟨state, bind_ok.2 ⟨events, hread, hlog.currentState hX⟩⟩

/-- Commands one after the other keep the stores sound. -/
theorem runAll_sound : ∀ (commands : List CommandLine) {r : Backend}, r.Sound X → (runAll X commands r).Sound X
  | [], _, h => h
  | c :: commands, r, h => runAll_sound commands ((c.keeps r).run h (Backend.Extends.refl r))

/-- Commands one after the other leave no collision. -/
theorem runAll_collides (hX : X.Lawful) (commands : List CommandLine) (hash : Hash32) :
    ¬ (runAll X commands .empty).Collides hash := by
  obtain ⟨s, hs, hready⟩ := runAll_ready hX commands .empty hash
  exact ((runAll_sound commands .empty).accepted_iff hX hash).1 ⟨s.state, hready.lifecycleState hX hs⟩

/-! ## The directory -/

theorem Backend.Sound.shelved (h : r.Sound X) : r.Shelved X := by
  refine ⟨fun file hfile => ?_, h.filed.nodup⟩
  obtain ⟨hash, hname⟩ := h.filed.names file hfile
  have hlookup := lookup_of_mem h.filed.nodup hfile
  rw [hname] at hlookup
  obtain ⟨a, ha, -⟩ := h.stored hash file.2 hlookup
  have haddress := ha.address
  subst haddress
  exact ⟨a, hname, ha⟩

/-! ## Tags -/

/-- A tag is not set, or its pointer names an event that is filed for the artifact it targets. -/
theorem Backend.Sound.readPointer (h : r.Sound X) (env tag : String) :
    r.tags env tag = none ∧ r.readPointer env tag = .ok none ∨ ∃ target e,
      r.readPointer env tag = .ok (some ⟨env, tag, hex32 target, e.ref⟩) ∧ eventFile e ∈ r.events target ∧ (e.eventKind = "published" ∨ e.eventKind = "tag_moved") := by
  unfold Backend.readPointer
  cases htag : r.tags env tag with
  | none => exact .inl ⟨rfl, rfl⟩
  | some file =>
    obtain ⟨target, e, rfl, hfiled, hkind⟩ := h.tags env tag file htag
    exact .inr ⟨target, e, rfl, hfiled, hkind⟩

/-! ## Why a reader fails -/

/-- What was asked for is not there, is not alone, is no hash, or is no artifact. -/
def RegistryError.IsAnswer : RegistryError → Prop
  | .notFound _ | .ambiguous .. | .badHashHex _ | .artifactDecode _ => True
  | _ => False

/-- An error that answers, or one that a collision among the hashes explains. -/
def Backend.Explains (r : Backend) (among : Set Hash32) (err : RegistryError) : Prop :=
  err.IsAnswer ∨ ∃ hash ∈ among, r.Collides hash

theorem Backend.Explains.mono {r : Backend} {among among' : Set Hash32} {err : RegistryError}
    (h : r.Explains among err) (hsub : among ⊆ among') : r.Explains among' err := by
  refine h.imp_right ?_
  rintro ⟨hash, hhash, hcol⟩
  exact ⟨hash, hsub hhash, hcol⟩

/-- The hashes whose logs a resolution may read. -/
def Selector.consulted : Selector → Set Hash32
  | .byHash hash => {hash}
  | .byTag .. | .byRegime .. => Set.univ

theorem Backend.Sound.raises_readEvents {E : RegistryError → Prop} (h : r.Sound X) (hash : Hash32) :
    Raises E (r.readEvents hash) := by
  obtain ⟨events, hread, -⟩ := h.log hash
  exact .ofOk hread

theorem Backend.Sound.raises_currentState (hX : X.Lawful) (h : r.Sound X) (hread : r.readEvents hash = .ok events)
    (hhash : hash ∈ among) : Raises (r.Explains among) (currentState X events) := by
  obtain ⟨events', hread', -, hview, -⟩ := h.log hash
  obtain rfl := Except.ok.inj (hread.symm.trans hread')
  by_cases hcol : r.Collides hash
  · exact fun err _ => .inr ⟨hash, hhash, hcol⟩
  · obtain ⟨state, head, hlog⟩ := hview hcol
    exact .ofOk (hlog.currentState hX)

/-- The walk of a log answers nothing: its errors are internal. -/
theorem raises_walk (events : List LifecycleEvent) : Raises (fun err => ¬ err.IsAnswer) (currentState X events) := by
  have hlink : ∀ (i : Nat) (seq : UInt32) (link prior : Option Hash32),
      Raises (fun err => ¬ err.IsAnswer) (checkLink i seq link prior) := by
    intro i seq link prior
    unfold checkLink
    split
    · exact .ok ()
    · exact .error id
    · exact .error id
    · exact .ite (fun _ => .ok ()) fun _ => .error id
    · exact .error id
  have hcheck : ∀ (events : List LifecycleEvent) (i : Nat) (prior : Option Hash32),
      Raises (fun err => ¬ err.IsAnswer) (checkFrom X i prior events) := by
    intro events
    induction events with
    | nil => exact fun _ prior => .ok prior
    | cons e events ih =>
      intro i prior
      rw [checkFrom]
      refine .ite (fun _ => .error id) fun _ => (hlink _ _ _ _).bind fun _ _ => Raises.bind ?_ fun _ _ =>
        Raises.bind ?_ fun c _ => ih (i + 1) (some c)
      · refine (Raises.ofMapError fun _ => id).bind fun _ _ => .ite (fun _ => .ok ()) fun _ => .error id
      · exact (Raises.ofMapError fun _ => id).bind fun _ _ => .ok _
  exact (hcheck events 0 none).bind fun _ _ => .ok _

theorem Backend.Sound.raises_listManifests {E : RegistryError → Prop} (h : r.Sound X) :
    Raises E (r.listManifests X) := by
  obtain ⟨listed, hlist, -⟩ := h.shelved.listed
  exact .ofOk hlist

theorem raises_readArtifactKew (r : Backend) (hash : Hash32) : Raises (r.Explains among) (r.readArtifactKew hash) := by
  unfold Backend.readArtifactKew
  split
  · exact .ok _
  · exact .error (.inl trivial)

theorem Backend.Sound.raises_readRevocation {E : RegistryError → Prop} (h : r.Sound X) (hash : Hash32) :
    Raises E (r.readRevocation hash) := by
  by_cases hne : r.revocations hash = none
  · unfold Backend.readRevocation readSidecar
    rw [hne]
    exact .ok none
  · obtain ⟨file, hfile⟩ := Option.ne_none_iff_exists'.1 hne
    obtain ⟨record, e, rfl, -⟩ := h.notices hash file hfile
    unfold Backend.readRevocation readSidecar
    rw [hfile]
    exact .ok (some record)

theorem Backend.Sound.raises_readRegistryEvidence (hX : X.Lawful) (h : r.Sound X) (hhash : hash ∈ among) :
    Raises (r.Explains among) (readRegistryEvidence X r hash) := by
  obtain ⟨events, hread, -, hview, -⟩ := h.log hash
  by_cases hcol : r.Collides hash
  · exact fun err _ => .inr ⟨hash, hhash, hcol⟩
  · obtain ⟨state, head, hlog⟩ := hview hcol
    exact .ofOk (hlog.evidence hX hread)

theorem Backend.Sound.raises_target (hX : X.Lawful) (h : r.Sound X) (selector : Selector) :
    Raises (r.Explains selector.consulted) (selector.target X r) := by
  cases selector with
  | byHash hash => exact .ok hash
  | byTag env tag =>
    rcases h.readPointer env tag with ⟨-, hread⟩ | ⟨target, e, hread, -⟩
    · refine (Raises.ofOk hread).bind fun pointer hpointer => (Raises.elim (.inl trivial)).bind fun p hp => ?_
      obtain rfl := Except.ok.inj (hread.symm.trans hpointer)
      cases hp
    · refine (Raises.ofOk hread).bind fun pointer hpointer => (Raises.elim (.inl trivial)).bind fun p hp => ?_
      obtain rfl := Except.ok.inj (hread.symm.trans hpointer)
      obtain rfl := Except.ok.inj hp
      exact .ofOk (hexToHash_hex32 target)
  | byRegime regimeId effective env =>
    have happlicable : Raises (r.Explains Set.univ) (applicable X r regimeId effective) := by
      refine h.raises_listManifests.bind fun manifests _ => (Raises.filterM fun m _ => ?_).bind fun _ _ => .ok _
      refine (h.raises_readEvents m.1).bind fun events hread => ?_
      exact (h.raises_currentState hX hread (Set.mem_univ _)).bind fun _ _ => .ok _
    refine happlicable.bind fun hashes _ => ?_
    match hashes with
    | [] => exact .error (.inl trivial)
    | [hash] => exact .ok hash
    | _ :: _ :: _ => exact .error (.inl trivial)

/-- A resolution fails because what it was asked for is not there, or at a log with a collision. -/
theorem Backend.Sound.raises_resolve (hX : X.Lawful) (h : r.Sound X) (selector : Selector) (nowUnix : UInt64) :
    Raises (r.Explains selector.consulted) (resolve X r selector nowUnix) := by
  refine (h.raises_target hX selector).bind fun hash htarget => ?_
  refine (h.raises_readEvents hash).bind fun events hread => ?_
  have hconsulted : hash ∈ selector.consulted := by
    cases selector with
    | byHash hash' => exact (Except.ok.inj htarget).symm
    | byTag | byRegime => exact Set.mem_univ hash
  refine (h.raises_currentState hX hread hconsulted).bind fun found _ => ?_
  refine (Raises.elim (.inl trivial)).bind fun state _ => ?_
  have hverify : Raises (r.Explains selector.consulted) (verifyResolvedArtifact X r hash selector.describe) := by
    refine h.raises_listManifests.bind fun manifests hlist => (Raises.elim (.inl trivial)).bind fun m hm => ?_
    refine .ite (fun hne => absurd ?_ hne) fun _ => .ok m.2
    -- a manifest is listed under the hash that it claims
    obtain ⟨listed, hlisted, rfl⟩ := listManifests_ok hlist
    have hfound := elim_throw.1 hm
    have hmem := (perm_sortBy _ listed).mem_iff.1 (List.mem_of_find?_eq_some hfound)
    obtain ⟨file, -, a, n, -, rfl⟩ := hlisted.mem.1 hmem
    exact of_decide_eq_true (List.find?_some (p := fun m : Hash32 × Manifest => decide (m.1 = hash)) hfound)
  refine hverify.bind fun manifest _ => ?_
  have hrevocation : Raises (r.Explains selector.consulted) (r.revocationOf hash state) :=
    .ite (fun _ => h.raises_readRevocation hash) fun _ => .ok none
  exact hrevocation.bind fun revocation _ => .ok _

end

end Ke.Registry
