/-
The log of an artifact as it grows: a draft, then events chained onto the head. Files of such a log
are read back in its order, the walk accepts it, and no two of its files share a name.
-/
import KeEngine.Registry.Backend

namespace Ke.Registry

open Ke Wire

/-! ## File names -/

/-- The digits of a number come first in its file name, and give it back. -/
theorem seqDigits_toList (seq : UInt32) :
    (∀ c ∈ (seqDigits seq).toList, c.isDigit = true) ∧ Nat.ofDigitChars 10 (seqDigits seq).toList 0 = seq.toNat := by
  have hlist : (seqDigits seq).toList =
      List.replicate (4 - (toString seq.toNat).length) '0' ++ Nat.toDigits 10 seq.toNat := by
    show (String.ofList _ ++ toString seq.toNat).toList = _
    rw [String.toList_append, String.toList_ofList]
    congr 1
    exact Nat.toList_repr
  rw [hlist]
  constructor
  · intro c hc
    rcases List.mem_append.1 hc with hc | hc
    · rw [(List.mem_replicate.1 hc).2]
      decide
    · exact Nat.isDigit_of_mem_toDigits (by omega) (by omega) hc
  · rw [Nat.ofDigitChars_append, Nat.ofDigitChars_replicate_zero, Nat.mul_zero, Nat.ofDigitChars_ten_toDigits]

theorem eventFileName_toList (e : LifecycleEvent) :
    (eventFileName e).toList = (seqDigits e.seq).toList ++ '-' :: (e.eventKind.toList ++ ".json".toList) := by
  unfold eventFileName
  simp [String.toList_append]

/-- Two events with one file name have one number and one kind. -/
theorem eventFileName_inj {e e' : LifecycleEvent} (h : eventFileName e = eventFileName e') :
    e.seq = e'.seq ∧ e.eventKind = e'.eventKind := by
  have hlist := congrArg String.toList h
  rw [eventFileName_toList, eventFileName_toList] at hlist
  have hcut : ∀ (seq : UInt32) (rest : List Char),
      ((seqDigits seq).toList ++ '-' :: rest).takeWhile Char.isDigit = (seqDigits seq).toList := by
    intro seq rest
    rw [List.takeWhile_append_of_pos (seqDigits_toList seq).1, List.takeWhile_cons_of_neg (by decide), List.append_nil]
  have hdigits : (seqDigits e.seq).toList = (seqDigits e'.seq).toList := by
    have := congrArg (List.takeWhile Char.isDigit) hlist
    rwa [hcut, hcut] at this
  constructor
  · apply UInt32.toNat_inj.1
    rw [← (seqDigits_toList e.seq).2, hdigits, (seqDigits_toList e'.seq).2]
  · rw [hdigits, List.append_cancel_left_eq, List.cons.injEq, List.append_cancel_right_eq] at hlist
    exact String.toList_inj.1 hlist.2

theorem hasJsonExtension_eventFileName (e : LifecycleEvent) : hasJsonExtension (eventFileName e) = true := by
  unfold hasJsonExtension
  rw [Bool.and_eq_true, decide_eq_true_iff, List.isSuffixOf_iff_suffix, eventFileName_toList]
  constructor
  · exact (List.suffix_append _ _).trans ((List.suffix_cons _ _).trans (List.suffix_append _ _))
  · simp only [List.length_append, List.length_cons]
    have hlen : (".json".toList).length = 5 := rfl
    omega

/-! ## Reading a log -/

/-- The file of an event. -/
def eventFile (e : LifecycleEvent) : String × JsonFile LifecycleEvent := (eventFileName e, .good e)

theorem mapM_decode_eventFile : ∀ events : List LifecycleEvent,
    (events.map eventFile).mapM (fun file => file.2.decode) = .ok events
  | [] => rfl
  | e :: events => by
    rw [List.map_cons, List.mapM_cons, mapM_decode_eventFile events]
    rfl

theorem compare_seq_le (a b : UInt32) : compare a b ≠ .gt ↔ a.toNat ≤ b.toNat := by
  show compareOfLessAndEq a b ≠ .gt ↔ _
  unfold compareOfLessAndEq
  split
  · rename_i hlt
    exact ⟨fun _ => (UInt32.lt_iff_toNat_lt.1 hlt).le, fun _ => nofun⟩
  · rename_i hlt
    rw [UInt32.lt_iff_toNat_lt] at hlt
    split
    · rename_i heq
      exact ⟨fun _ => by rw [heq], fun _ => nofun⟩
    · rename_i hne
      refine ⟨fun h => absurd rfl h, fun hle => absurd (UInt32.toNat_inj.1 ?_) hne⟩
      omega

theorem sortBy_seq_le (events : List LifecycleEvent) :
    (sortBy (fun a b => compare a.seq b.seq) events).Pairwise fun a b => a.seq.toNat ≤ b.seq.toNat := by
  have : Std.Total fun a b : LifecycleEvent => compare a.seq b.seq ≠ .gt := ⟨fun a b => by
    rw [compare_seq_le, compare_seq_le]
    exact le_total a.seq.toNat b.seq.toNat⟩
  have : IsTrans LifecycleEvent fun a b => compare a.seq b.seq ≠ .gt := ⟨fun a b c hab hbc => by
    rw [compare_seq_le] at hab hbc ⊢
    exact hab.trans hbc⟩
  exact (List.pairwise_insertionSort (fun a b : LifecycleEvent => compare a.seq b.seq ≠ .gt) events).imp
    fun hab => (compare_seq_le _ _).1 hab

/-- Numbers that increase are the only order of their events by number. -/
theorem sortBy_seq {events sorted : List LifecycleEvent}
    (hsorted : sorted.Pairwise fun a b => a.seq.toNat < b.seq.toNat)
    (hperm : events.Perm sorted) : sortBy (fun a b => compare a.seq b.seq) events = sorted := by
  have hle := sortBy_seq_le events
  have hp := (perm_sortBy (fun a b => compare a.seq b.seq) events).trans hperm
  have hinj : (sorted.map (·.seq.toNat)).Nodup := (List.pairwise_map.2 hsorted).imp fun h => Nat.ne_of_lt h
  refine List.Perm.eq_of_pairwise (fun a b ha hb hab hba => ?_) hle (hsorted.imp fun h => Nat.le_of_lt h) hp
  exact List.inj_on_of_nodup_map hinj (hp.mem_iff.1 ha) hb (le_antisymm hab hba)

/-- Whatever order the names give, the files that are read are those of the same events. -/
theorem readEvents_perm {r : Backend} {hash : Hash32} {log : List LifecycleEvent}
    (hfiles : r.events hash = log.map eventFile) :
    ∃ events, r.readEvents hash = .ok (sortBy (fun a b => compare a.seq b.seq) events) ∧ events.Perm log := by
  have hall : ((r.events hash).filter fun file => hasJsonExtension file.1) = log.map eventFile := by
    rw [hfiles, List.filter_eq_self]
    intro file hfile
    obtain ⟨e, -, rfl⟩ := List.mem_map.1 hfile
    exact hasJsonExtension_eventFileName e
  have hfile : ∀ files : List (String × JsonFile LifecycleEvent), files.Perm (log.map eventFile) →
      ∃ events : List LifecycleEvent, files = events.map eventFile ∧ events.Perm log := by
    intro files hperm
    obtain ⟨events, rfl⟩ : files ∈ Set.range (List.map eventFile) := by
      rw [Set.range_list_map]
      intro file hmem
      obtain ⟨e, -, he⟩ := List.mem_map.1 (hperm.mem_iff.1 hmem)
      exact ⟨e, he⟩
    have hinj : Function.Injective eventFile := fun e e' h => JsonFile.good.inj (congrArg Prod.snd h)
    exact ⟨events, rfl, (List.map_perm_map_iff hinj).1 hperm⟩
  obtain ⟨events, hevents, hperm⟩ := hfile _ (perm_sortBy (fun a b => compare a.1 b.1) (log.map eventFile))
  refine ⟨events, ?_, hperm⟩
  unfold Backend.readEvents
  rw [hall]
  show ((sortBy (fun a b => compare a.1 b.1) (log.map eventFile)).mapM fun file => file.2.decode) >>= _ = _
  rw [hevents, mapM_decode_eventFile]
  rfl

/-- Files of increasing numbers are read back in the order of the numbers. -/
theorem readEvents_files {r : Backend} {hash : Hash32} {log : List LifecycleEvent}
    (hfiles : r.events hash = log.map eventFile) (hsorted : log.Pairwise fun a b => a.seq.toNat < b.seq.toNat) :
    r.readEvents hash = .ok log := by
  obtain ⟨events, hread, hperm⟩ := readEvents_perm hfiles
  rw [hread, sortBy_seq hsorted hperm]

/-! ## Signed events -/

theorem lifecycleEvent_enc {e : LifecycleEvent} {p : Bytes} (h : Postcard.eventPayload.enc e.toEventPayload = .ok p) :
    Postcard.lifecycleEvent.enc e = .ok (p ++ e.signature.1) :=
  Codec.pair_enc_ok.2 ⟨p, e.signature.1, h, sig64_enc e.signature, rfl⟩

/-- The signed bytes are the encoding of the payload. -/
theorem payloadPrefix_event_ok {e : LifecycleEvent} {p : Bytes} :
    e.payloadPrefix = .ok p ↔ Postcard.eventPayload.enc e.toEventPayload = .ok p := by
  unfold LifecycleEvent.payloadPrefix
  rw [mapError_ok]
  constructor
  · intro h
    obtain ⟨bytes, hbytes, -⟩ := bind_ok.1 h
    obtain ⟨q, t, hq, -, rfl⟩ := Codec.pair_enc_ok.1 (mapError_ok.1 hbytes)
    have h' := signedPrefix_ok (mapError_ok.1 hbytes) hq
    rw [h'] at h
    cases h
    exact hq
  · intro h
    exact signedPrefix_ok (lifecycleEvent_enc h) h

section

variable {X : Externals}

/-- Signed by the registry root. -/
def SignedByRoot (X : Externals) (e : LifecycleEvent) : Prop :=
  ∃ p, Postcard.eventPayload.enc e.toEventPayload = .ok p ∧ e.signature = X.sign TestKeys.registryRootSeed p

theorem signEvent_ok {event e : LifecycleEvent} : signEvent X event = .ok e ↔
    ∃ p, Postcard.eventPayload.enc event.toEventPayload = .ok p ∧
      e = { event with signature := X.sign TestKeys.registryRootSeed p } := by
  constructor
  · intro h
    obtain ⟨p, hp, h⟩ := bind_ok.1 h
    exact ⟨p, payloadPrefix_event_ok.1 hp, (pure_ok.1 h).symm⟩
  · rintro ⟨p, hp, rfl⟩
    exact bind_ok.2 ⟨p, payloadPrefix_event_ok.2 hp, rfl⟩

theorem SignedByRoot.verifySignature {e : LifecycleEvent} (h : SignedByRoot X e) (hX : X.Lawful) :
    e.verifySignature X = .ok () := by
  obtain ⟨p, hp, hsig⟩ := h
  refine bind_ok.2 ⟨p, payloadPrefix_event_ok.2 hp, if_pos ?_⟩
  rw [hsig]
  exact hX.verify_sign _ p

theorem SignedByRoot.chainHash {e : LifecycleEvent} (h : SignedByRoot X e) : ∃ c, e.chainHash X = .ok c := by
  obtain ⟨p, hp, -⟩ := h
  exact ⟨_, bind_ok.2 ⟨_, mapError_ok.2 (lifecycleEvent_enc hp), rfl⟩⟩

/-! ## Chained events -/

/-- An event built on a prior one. -/
structure ChainedOn (X : Externals) (prior e : LifecycleEvent) : Prop where
  hash : e.artifactHash = prior.artifactHash
  seq : e.seq.toNat = prior.seq.toNat + 1
  priorState : e.priorState = some prior.newState
  link : ∃ c, prior.chainHash X = .ok c ∧ e.prevEventHash = some c
  signed : SignedByRoot X e

theorem buildChainedEvent_ok {prior e : LifecycleEvent} {newState : LifecycleState} {eventKind authorityKeyId : String}
    {authorityRole : SignerRole} {timestamp : TimestampToken}
    (h : buildChainedEvent X prior newState eventKind authorityKeyId authorityRole timestamp = .ok e) :
    ChainedOn X prior e ∧ e.newState = newState ∧ e.eventKind = eventKind := by
  obtain ⟨seq, hseq, h⟩ := bind_ok.1 h
  obtain ⟨c, hc, h⟩ := bind_ok.1 h
  obtain ⟨p, hp, rfl⟩ := signEvent_ok.1 h
  refine ⟨⟨rfl, ?_, rfl, ⟨c, hc, rfl⟩, ⟨p, hp, rfl⟩⟩, rfl, rfl⟩
  unfold nextSeq at hseq
  split at hseq
  · rename_i hlt
    cases hseq
    show (prior.seq + 1).toNat = prior.seq.toNat + 1
    rw [UInt32.toNat_add]
    exact Nat.mod_eq_of_lt hlt
  · cases hseq

/-- A log that the walk accepts: a first event without a link, and events chained onto the head. -/
inductive Walked (X : Externals) (hash : Hash32) : List LifecycleEvent → Prop
  | first {e : LifecycleEvent} (hhash : e.artifactHash = hash) (seq : e.seq = 0) (link : e.prevEventHash = none)
      (signed : SignedByRoot X e) : Walked X hash [e]
  | next {log : List LifecycleEvent} {prior e : LifecycleEvent} (walked : Walked X hash log)
      (last : log.getLast? = some prior) (chained : ChainedOn X prior e) : Walked X hash (log ++ [e])

variable {hash : Hash32} {log : List LifecycleEvent}

theorem Walked.ne_nil (h : Walked X hash log) : log ≠ [] := by
  cases h <;> simp

theorem Walked.exists_last (h : Walked X hash log) : ∃ e, log.getLast? = some e :=
  ⟨log.getLast h.ne_nil, List.getLast?_eq_some_getLast h.ne_nil⟩

/-- The numbers of a log are its indices. -/
theorem Walked.seqs (h : Walked X hash log) : log.map (·.seq.toNat) = List.range log.length := by
  induction h with
  | first _ seq => simp [seq]
  | @next log prior e walked last chained ih =>
    have hprior : prior.seq.toNat = log.length - 1 := by
      have hlast := congrArg List.getLast? ih
      rw [List.getLast?_map, last, List.getLast?_range] at hlast
      split at hlast
      · cases hlast
      · exact Option.some.inj hlast
    have hpos : 0 < log.length := List.length_pos_of_ne_nil walked.ne_nil
    rw [List.map_append, ih, List.length_append, List.length_singleton, List.range_succ,
      List.map_singleton, chained.seq]
    congr 2
    omega

theorem Walked.increasing (h : Walked X hash log) : log.Pairwise fun a b => a.seq.toNat < b.seq.toNat := by
  have hlt : (log.map (·.seq.toNat)).Pairwise (· < ·) := by
    rw [h.seqs]
    exact List.pairwise_lt_range
  exact List.pairwise_map.1 hlt

theorem Walked.seq_lt (h : Walked X hash log) {e : LifecycleEvent} (he : e ∈ log) : e.seq.toNat < log.length := by
  have hmem : e.seq.toNat ∈ log.map (·.seq.toNat) := List.mem_map.2 ⟨e, he, rfl⟩
  rw [h.seqs] at hmem
  exact List.mem_range.1 hmem

theorem Walked.last_seq (h : Walked X hash log) {e : LifecycleEvent} (he : log.getLast? = some e) :
    e.seq.toNat + 1 = log.length := by
  have hlast := congrArg List.getLast? h.seqs
  rw [List.getLast?_map, he, List.getLast?_range] at hlast
  split at hlast
  · cases hlast
  · have hpos : 0 < log.length := List.length_pos_of_ne_nil h.ne_nil
    have hseq : e.seq.toNat = log.length - 1 := Option.some.inj hlast
    omega

theorem Walked.hashes (h : Walked X hash log) : ∀ e ∈ log, e.artifactHash = hash := by
  induction h with
  | first hhash =>
    intro e he
    rw [List.mem_singleton.1 he, hhash]
  | next _ last chained ih =>
    intro e he
    rcases List.mem_append.1 he with he | he
    · exact ih e he
    · rw [List.mem_singleton.1 he, chained.hash]
      exact ih _ (List.mem_of_getLast? last)

theorem Walked.signed (h : Walked X hash log) : ∀ e ∈ log, SignedByRoot X e := by
  induction h with
  | first _ _ _ signed =>
    intro e he
    rwa [List.mem_singleton.1 he]
  | next _ _ chained ih =>
    intro e he
    rcases List.mem_append.1 he with he | he
    · exact ih e he
    · rw [List.mem_singleton.1 he]
      exact chained.signed

/-! ## The walk -/

theorem checkFrom_append (last : LifecycleEvent) : ∀ (log : List LifecycleEvent) (i : Nat) (prior : Option Hash32),
    checkFrom X i prior (log ++ [last]) =
      (checkFrom X i prior log).bind fun prior' => checkFrom X (i + log.length) prior' [last]
  | [], i, prior => rfl
  | e :: log, i, prior => by
    rw [List.cons_append, checkFrom, checkFrom]
    split
    · rfl
    · rename_i hseq
      cases hlink : checkLink i e.seq e.prevEventHash prior with
      | error err => rfl
      | ok u =>
        cases hsig : e.verifySignature X with
        | error err => rfl
        | ok u =>
          cases hchain : e.chainHash X with
          | error err => rfl
          | ok c =>
            show checkFrom X (i + 1) (some c) (log ++ [last]) = _
            have hindex : i + 1 + log.length = i + (log.length + 1) := by omega
            rw [checkFrom_append last log, List.length_cons, hindex]
            rfl

/-- The walk accepts the log, up to the chain hash of its last event. -/
theorem Walked.checkFrom (hX : X.Lawful) (h : Walked X hash log) {last : LifecycleEvent}
    (hlast : log.getLast? = some last) : ∃ c, last.chainHash X = .ok c ∧ checkFrom X 0 none log = .ok (some c) := by
  induction h generalizing last with
  | first _ seq link signed =>
    obtain rfl := Option.some.inj hlast
    obtain ⟨c, hc⟩ := signed.chainHash
    refine ⟨c, hc, ?_⟩
    rw [Registry.checkFrom, if_neg (by rw [seq]; decide), link]
    refine bind_ok.2 ⟨(), rfl, bind_ok.2 ⟨(), signed.verifySignature hX, bind_ok.2 ⟨c, hc, rfl⟩⟩⟩
  | @next log prior e walked last' chained ih =>
    rw [List.getLast?_append, List.getLast?_singleton, Option.some_or] at hlast
    obtain rfl := Option.some.inj hlast
    obtain ⟨c, hc, hwalk⟩ := ih last'
    obtain ⟨d, hd⟩ := chained.signed.chainHash
    refine ⟨d, hd, ?_⟩
    rw [checkFrom_append, hwalk]
    show Registry.checkFrom X (0 + log.length) (some c) [e] = _
    have hnumber : e.seq.toNat = log.length := by rw [chained.seq, walked.last_seq last']
    have hseq : e.seq = UInt32.ofNat (0 + log.length) := by
      apply UInt32.toNat_inj.1
      rw [Nat.zero_add, ← hnumber, UInt32.ofNat_toNat]
    obtain ⟨c', hc', hlink⟩ := chained.link
    rw [hc] at hc'
    cases hc'
    have hcheck : checkLink (0 + log.length) e.seq (some c) (some c) = .ok () := by
      obtain ⟨n, hn⟩ := Nat.exists_eq_succ_of_ne_zero (List.length_pos_of_ne_nil walked.ne_nil).ne'
      rw [Nat.zero_add, hn]
      exact if_pos rfl
    rw [Registry.checkFrom, if_neg (not_not.2 hseq), hlink]
    refine bind_ok.2 ⟨(), hcheck, bind_ok.2 ⟨(), chained.signed.verifySignature hX, bind_ok.2 ⟨d, hd, rfl⟩⟩⟩

theorem Walked.currentState (hX : X.Lawful) (h : Walked X hash log) {last : LifecycleEvent}
    (hlast : log.getLast? = some last) : currentState X log = .ok (some last.newState) := by
  obtain ⟨c, -, hwalk⟩ := h.checkFrom hX hlast
  refine bind_ok.2 ⟨some c, hwalk, ?_⟩
  rw [hlast]
  rfl

/-! ## Appending -/

/-- An event chained onto the head of a filed log is appended. -/
theorem appendEvent_chained {r : Backend} {prior e : LifecycleEvent} (hfiles : r.events hash = log.map eventFile)
    (h : Walked X hash log) (hlast : log.getLast? = some prior) (hchained : ChainedOn X prior e) :
    r.appendEvent hash e = (.ok (),
      { r with events := Function.update r.events hash ((log ++ [e]).map eventFile) }) := by
  unfold Backend.appendEvent
  rw [if_neg, hfiles, List.map_append]
  · rfl
  · rw [hfiles, Bool.not_eq_true, List.any_eq_false]
    intro file hfile
    obtain ⟨a, ha, rfl⟩ := List.mem_map.1 hfile
    rw [decide_eq_true_iff]
    intro hname
    have hseq := congrArg UInt32.toNat (eventFileName_inj hname).1
    have hlt := h.seq_lt ha
    rw [hseq, hchained.seq, h.last_seq hlast] at hlt
    exact lt_irrefl _ hlt

/-! ## Lifecycles -/

/-- How a state may follow a state, and under which kind. -/
inductive Move : LifecycleState → LifecycleState → String → Prop
  | edge {source target : LifecycleState} {pre : Preconditions} (h : canTransition source target pre = true) :
      Move source target target.eventKind
  | tagMoved : Move .published .published "tag_moved"

/-- A log of an artifact: its draft, and moves chained onto the head. -/
inductive Grown (X : Externals) (hash : Hash32) : List LifecycleEvent → Prop
  | draft {e : LifecycleEvent} (hhash : e.artifactHash = hash) (seq : e.seq = 0) (priorState : e.priorState = none)
      (newState : e.newState = .draft) (kind : e.eventKind = "draft") (link : e.prevEventHash = none)
      (signed : SignedByRoot X e) : Grown X hash [e]
  | move {log : List LifecycleEvent} {prior e : LifecycleEvent} (grown : Grown X hash log)
      (last : log.getLast? = some prior) (chained : ChainedOn X prior e)
      (move : Move prior.newState e.newState e.eventKind) : Grown X hash (log ++ [e])

theorem buildDraftEvent_ok {hash : Hash32} {authorityKeyId : String} {timestamp : TimestampToken} {e : LifecycleEvent}
    (h : buildDraftEvent X hash authorityKeyId timestamp = .ok e) : Grown X hash [e] ∧ e.newState = .draft := by
  obtain ⟨p, hp, rfl⟩ := signEvent_ok.1 h
  exact ⟨.draft rfl rfl rfl rfl rfl rfl ⟨p, hp, rfl⟩, rfl⟩

theorem Grown.walked (h : Grown X hash log) : Walked X hash log := by
  induction h with
  | draft hhash seq _ _ _ link signed => exact .first hhash seq link signed
  | move _ last chained _ ih => exact .next ih last chained

/-- The log begins with its draft. -/
theorem Grown.head (h : Grown X hash log) :
    ∃ e rest, log = e :: rest ∧ e.seq = 0 ∧ e.eventKind = "draft" ∧ e.newState = .draft := by
  induction h with
  | draft _ seq _ newState kind => exact ⟨_, [], rfl, seq, kind, newState⟩
  | move _ _ _ _ ih =>
    obtain ⟨e, rest, rfl, hseq, hkind, hstate⟩ := ih
    exact ⟨e, rest ++ [_], rfl, hseq, hkind, hstate⟩

theorem Grown.ne_nil (h : Grown X hash log) : log ≠ [] := h.walked.ne_nil

theorem Grown.exists_last (h : Grown X hash log) : ∃ e, log.getLast? = some e := h.walked.exists_last

theorem Grown.signed (h : Grown X hash log) : ∀ e ∈ log, SignedByRoot X e := h.walked.signed

/-- A second draft is refused. -/
theorem appendEvent_draft {r : Backend} {e : LifecycleEvent} (hfiles : r.events hash = log.map eventFile)
    (h : Grown X hash log) (he : Grown X hash [e]) : r.appendEvent hash e = (.error (.eventExists e.seq), r) := by
  obtain ⟨first, rest, rfl, hseq, hkind, -⟩ := h.head
  obtain ⟨e', rest', heq, hseq', hkind', -⟩ := he.head
  obtain ⟨rfl, -⟩ := List.cons.inj heq
  unfold Backend.appendEvent
  rw [if_pos]
  rw [hfiles, List.any_eq_true]
  refine ⟨eventFile first, List.mem_cons_self, decide_eq_true ?_⟩
  show eventFileName first = eventFileName e
  unfold eventFileName
  rw [hseq, hkind, hseq', hkind']

end

end Ke.Registry
