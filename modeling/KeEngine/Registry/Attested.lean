/-
What becomes of the attested bytes after publication. A command that follows leaves them, unless it
compiles the same artifact again: that writes bare bytes over them before its draft is refused.
-/
import KeEngine.Registry.Runs

namespace Ke.Registry

open Ke Wire Compiler

section

variable {X : Externals} {hash : Hash32} {r : Backend} {s s' : Slot} {c : CommandLine}

/-! ## The lifecycle state of a registry -/

/-- The state that the log of an artifact says. -/
def lifecycleState (X : Externals) (r : Backend) (hash : Hash32) : Except RegistryError (Option LifecycleState) :=
  (r.readEvents hash).bind (currentState X)

theorem Slot.Ready.lifecycleState (hX : X.Lawful) (h : s.Ready X hash) (hs : r.Holds hash s) :
    lifecycleState X r hash = .ok s.state :=
  bind_ok.2 ⟨s.log, h.log.readEvents hs, h.log.currentState hX⟩

theorem Follows.state {newState : LifecycleState} {kind : String} {e : LifecycleEvent} {log : List LifecycleEvent}
    {kew : Option Bytes} {sidecar : Option (JsonFile ConsistencyBlock)} (h : Follows X log newState kind e) :
    Slot.state ⟨kew, log ++ [e], sidecar⟩ = some newState := by
  obtain ⟨-, -, -, hnew, -⟩ := h
  unfold Slot.state
  rw [List.getLast?_concat, ← hnew]
  rfl

/-! ## After publication -/

/-- Published, or further on. -/
def Slot.Passed (s : Slot) : Prop := ∃ state, s.state = some state ∧ 4 ≤ state.rank

theorem Slot.Passed.of_state {state : LifecycleState} (h : s.state = some state) (hrank : 4 ≤ state.rank) : s.Passed :=
  ⟨state, h, hrank⟩

/-- No command takes an artifact back, and only compiling it touches its bytes. -/
theorem Effect.passed (h : Effect X hash c s s') (hs : s.Passed) :
    s'.Passed ∧ (s'.kew = s.kew ∨ ∃ a kew, c.Assembles X a kew ∧ a.manifest.artifactHash = hash ∧
      s'.kew = some kew) := by
  obtain ⟨state, hstate, hrank⟩ := hs
  -- the commands before publication want a state before it
  have hearly : ∀ {early : LifecycleState}, s.state = some early → early.rank < 4 → False := by
    intro early hearly hlt
    obtain rfl := Option.some.inj (hstate.symm.trans hearly)
    omega
  cases h with
  | none => exact ⟨⟨state, hstate, hrank⟩, .inl rfl⟩
  | refiled made address => exact ⟨⟨state, hstate, hrank⟩, .inr ⟨_, _, made, address, rfl⟩⟩
  | drafted made address empty =>
    unfold Slot.state at hstate
    rw [empty] at hstate
    cases hstate
  | evidence early | mlChecked early => exact (hearly early (by decide)).elim
  | attestedBytes early | expertAttested early => exact (hearly early (by decide)).elim
  | published early => exact (hearly early (by decide)).elim
  | deprecated _ event => exact ⟨.of_state event.state (by decide), .inl rfl⟩
  | revoked _ event => exact ⟨.of_state event.state (by decide), .inl rfl⟩
  | tagMoved _ event => exact ⟨.of_state event.state (by decide), .inl rfl⟩

/-- The bytes are those of an artifact without attestations. -/
def Slot.Bare (X : Externals) (hash : Hash32) (s : Slot) : Prop :=
  ∃ a kew, s.kew = some kew ∧ Stored X hash kew a ∧ a.attestations = []

theorem CommandLine.Assembles.bare {a : Artifact} {kew : Bytes} (h : c.Assembles X a kew)
    (address : a.manifest.artifactHash = hash) (hkew : s.kew = some kew) : s.Bare X hash := by
  subst address
  exact ⟨a, kew, hkew, h.stored⟩

theorem Effect.bare (h : Effect X hash c s s') (hs : s.Passed) (hbare : s.Bare X hash) : s'.Bare X hash := by
  obtain ⟨a, kew, hkew, hstored⟩ := hbare
  rcases (h.passed hs).2 with hsame | ⟨a', kew', made, address, hkew'⟩
  · exact ⟨a, kew, hsame.trans hkew, hstored⟩
  · exact made.bare address hkew'

/-- Compiling comes down to storing what is assembled. -/
theorem CommandLine.Assembles.command {a : Artifact} {kew : Bytes} (h : c.Assembles X a kew) :
    ∃ nowUnix, c.command X = storeAndRecord X a kew true nowUnix := by
  cases c with
  | compile document regimeId nowUnix =>
    obtain ⟨d, rfl, hd⟩ := h
    refine ⟨nowUnix, ?_⟩
    show (Prog.ofExcept (assembleRules X d regimeId) >>= fun made => storeAndRecord X made.1 made.2 true nowUnix) = _
    rw [hd]
    rfl
  | compileIntent document regimeId nowUnix =>
    obtain ⟨d, rfl, hd⟩ := h
    refine ⟨nowUnix, ?_⟩
    show (Prog.ofExcept (assembleIntentSpec X d regimeId) >>=
      fun made => storeAndRecord X made.1 made.2 true nowUnix) = _
    rw [hd]
    rfl
  | mlCheck | attest | publish | deprecateArtifact | revoke | rollback => cases h

/-- Whatever was there, compiling leaves the bytes that it assembled. -/
theorem run_assembles (hr : r.Ready X) {a : Artifact} {kew : Bytes} (h : c.Assembles X a kew)
    (address : a.manifest.artifactHash = hash) (hs' : (c.run X r).2.Holds hash s') : s'.Bare X hash := by
  obtain ⟨nowUnix, hcommand⟩ := h.command
  obtain ⟨t, ht, htr⟩ := hr hash
  have hwp : (c.command X).wp perform (fun _ r' => ∃ t', r'.Holds hash t' ∧ t'.kew = some kew) r := by
    rw [hcommand]
    obtain ⟨t', hchanged, hkew⟩ := storeAndRecord_changes ht htr.log address kew true nowUnix
    refine ⟨t', hchanged.holds, ?_⟩
    rcases hkew with rfl | ⟨-, log, -, -, rfl⟩ <;> rfl
  obtain ⟨t', ht', hkew⟩ := hwp
  rw [hs'.unique ht']
  exact h.bare address hkew

/-- Some command of a list assembles the artifact at the address. -/
def Recompiles (X : Externals) (hash : Hash32) (commands : List CommandLine) : Prop :=
  ∃ c ∈ commands, ∃ a kew, c.Assembles X a kew ∧ a.manifest.artifactHash = hash

/-- The bytes after publication are those before, or bare. -/
theorem runAll_passed (hX : X.Lawful) : ∀ (commands : List CommandLine) {r : Backend} {s s' : Slot}, r.Ready X →
    r.Holds hash s → s.Passed → (runAll X commands r).Holds hash s' →
    (¬ Recompiles X hash commands → s'.kew = s.kew) ∧
      (Recompiles X hash commands ∨ s.Bare X hash → s'.Bare X hash)
  | [], r, s, s', _, hs, _, hs' => by
    obtain rfl := hs.unique hs'
    refine ⟨fun _ => rfl, fun h => h.resolve_left ?_⟩
    rintro ⟨c, hc, -⟩
    cases hc
  | c :: commands, r, s, s', hr, hs, hpassed, hs' => by
    obtain ⟨t, ht, heffect⟩ := run_effect hX hr c hs
    obtain ⟨htpassed, htkew⟩ := heffect.passed hpassed
    obtain ⟨hkept, hbare⟩ := runAll_passed hX commands (c.run_ready hX hr) ht htpassed hs'
    constructor
    · intro hnot
      rw [hkept fun ⟨c', hc', hmade⟩ => hnot ⟨c', List.mem_cons_of_mem c hc', hmade⟩]
      rcases htkew with hsame | ⟨a, kew, made, address, -⟩
      · exact hsame
      · exact absurd ⟨c, List.mem_cons_self, a, kew, made, address⟩ hnot
    · intro h
      apply hbare
      rcases h with ⟨c', hc', a, kew, made, address⟩ | h
      · rcases List.mem_cons.1 hc' with rfl | hc'
        · exact .inr (run_assembles hr made address ht)
        · exact .inl ⟨c', hc', a, kew, made, address⟩
      · exact .inr (heffect.bare hpassed h)

/-! ## Publications -/

/-- A run cut at a publish command, with the artifact that it verifies and the policy that it verifies it under. -/
structure Publication where
  before : List CommandLine
  env : String
  tag : String
  bundle : Option (Except String VerificationPolicy)
  nowUnix : UInt64
  after : List CommandLine
  artifact : Artifact
  policy : VerificationPolicy

def Publication.publish (p : Publication) (hash : Hash32) : CommandLine :=
  .publish hash p.env p.tag p.bundle p.nowUnix

/-- The command of the cut brought the artifact to publication, under the policy. -/
structure Publication.Of (p : Publication) (X : Externals) (commands : List CommandLine) (hash : Hash32) : Prop where
  split : commands = p.before ++ p.publish hash :: p.after
  unpublished : lifecycleState X (runAll X p.before .empty) hash ≠ .ok (some .published)
  published : lifecycleState X ((p.publish hash).run X (runAll X p.before .empty)).2 hash = .ok (some .published)
  artifact : ∃ kew n, (runAll X p.before .empty).readArtifactKew hash = .ok kew ∧
    decodeArtifact X kew = .ok (p.artifact, n)
  policy : resolvePolicy p.bundle p.artifact.manifest.artifactKind = .ok p.policy

/-- The stored bytes decode to an artifact with the attestations that publish saw, and its set passes what publish
checked. -/
def Publication.StandsIn (p : Publication) (X : Externals) (r : Backend) (hash : Hash32) : Prop :=
  ∃ kew a n, r.readArtifactKew hash = .ok kew ∧ decodeArtifact X kew = .ok (a, n) ∧
    a.attestations = p.artifact.attestations ∧
    verifyAttestationSet X a p.policy (testExpertKeyDirectory X) (localPolicyContext p.nowUnix) = .ok ()

/-- Where an artifact is published, a command published it, and what that verified still stands. -/
def StillAttested (X : Externals) (commands : List CommandLine) (hash : Hash32) : Prop :=
  lifecycleState X (runAll X commands .empty) hash = .ok (some .published) →
    (∃ p : Publication, p.Of X commands hash) ∧
      ∀ p : Publication, p.Of X commands hash → p.StandsIn X (runAll X commands .empty) hash

/-- Published with attestations, and compiled again since. -/
def Stripped (X : Externals) (commands : List CommandLine) (hash : Hash32) : Prop :=
  lifecycleState X (runAll X commands .empty) hash = .ok (some .published) ∧
    ∃ p : Publication, p.Of X commands hash ∧ Recompiles X hash p.after ∧ p.artifact.attestations ≠ []

/-- Publication comes by the publish command alone. -/
theorem exists_publication (hX : X.Lawful) (commands : List CommandLine)
    (h : lifecycleState X (runAll X commands .empty) hash = .ok (some .published)) :
    ∃ p : Publication, p.Of X commands hash := by
  induction commands using List.reverseRecOn with
  | nil => cases h
  | append_singleton commands c ih =>
    have hready := runAll_ready hX commands .empty
    obtain ⟨s, hs, hslot⟩ := hready hash
    obtain ⟨s', hs', heffect⟩ := run_effect hX hready c hs
    have hbefore := hslot.lifecycleState hX hs
    have hafter := (heffect.ready hslot).lifecycleState hX hs'
    rw [runAll_append] at h
    have hpublished : s'.state = some .published := Except.ok.inj (hafter.symm.trans h)
    by_cases hstate : s.state = some .published
    · -- published before the last command
      obtain ⟨p, hp⟩ := ih (hbefore.trans (congrArg Except.ok hstate))
      refine ⟨{ p with after := p.after ++ [c] }, ?_, hp.unpublished, hp.published, hp.artifact, hp.policy⟩
      show commands ++ [c] = p.before ++ p.publish hash :: (p.after ++ [c])
      rw [← List.cons_append, ← List.append_assoc, ← hp.split]
    · -- published by it
      have hother : ∀ {state : LifecycleState}, s'.state = some state → state ≠ .published → False :=
        fun hs' hne => hne (Option.some.inj (hs'.symm.trans hpublished))
      cases heffect with
      | none | refiled | evidence | attestedBytes => exact absurd hpublished hstate
      | drafted made address empty grown states =>
        have hlast : ∀ {states : List LifecycleState} {log : List LifecycleEvent}, log.map (·.newState) = states →
            log.getLast?.map (·.newState) = states.getLast? := by
          rintro _ log rfl
          exact List.getLast?_map.symm
        rcases states with states | states
        · exact (hother (hlast states) (by decide)).elim
        · exact (hother (hlast states) (by decide)).elim
      | mlChecked _ event | expertAttested _ _ _ _ event | deprecated _ event | revoked _ event =>
        exact (hother event.state (by decide)).elim
      | tagMoved state => exact absurd state hstate
      | @published _ env tag bundle nowUnix kew a policy e state kew_eq stored policy_eq accepted event =>
        obtain ⟨n, hdec, -⟩ := stored.decode
        refine ⟨⟨commands, env, tag, bundle, nowUnix, [], a, policy⟩, rfl, ?_, h, ?_, policy_eq⟩
        · intro hno
          exact hstate (Except.ok.inj (hbefore.symm.trans hno))
        · exact ⟨kew, n, congrArg Prod.fst (readArtifactKew_some hs kew_eq), hdec⟩

/-- The publish command of a publication verified the bytes that it read, and they are stored until the artifact is
compiled again. -/
theorem Publication.Of.verified (hX : X.Lawful) {p : Publication} {commands : List CommandLine}
    (hp : p.Of X commands hash) :
    verifyAttestationSet X p.artifact p.policy (testExpertKeyDirectory X) (localPolicyContext p.nowUnix) = .ok () ∧
      (¬ Recompiles X hash p.after → ∃ kew n, (runAll X commands .empty).readArtifactKew hash = .ok kew ∧
        decodeArtifact X kew = .ok (p.artifact, n)) ∧
      (Recompiles X hash p.after → ∃ kew a n, (runAll X commands .empty).readArtifactKew hash = .ok kew ∧
        decodeArtifact X kew = .ok (a, n) ∧ a.attestations = []) := by
  have hready := runAll_ready hX p.before .empty
  obtain ⟨s, hs, hslot⟩ := hready hash
  obtain ⟨s', hs', heffect⟩ := run_effect hX hready (p.publish hash) hs
  have hready' := CommandLine.run_ready hX hready (p.publish hash)
  have hpublished : s'.state = some .published :=
    Except.ok.inj (((heffect.ready hslot).lifecycleState hX hs').symm.trans hp.published)
  obtain ⟨t, ht, -⟩ := runAll_ready hX commands .empty hash
  have hend : (runAll X p.after ((p.publish hash).run X (runAll X p.before .empty)).2).Holds hash t := by
    rw [hp.split, runAll_append] at ht
    exact ht
  obtain ⟨hkept, hbare⟩ := runAll_passed hX p.after hready' hs' (.of_state hpublished (by decide)) hend
  obtain ⟨kew₀, n₀, hread₀, hdec₀⟩ := hp.artifact
  -- the publish command had an effect, as the state was another
  have hstate : s'.state ≠ s.state := by
    intro heq
    exact hp.unpublished (by rw [hslot.lifecycleState hX hs, ← heq, hpublished])
  unfold Publication.publish at heffect
  cases heffect with
  | none => exact absurd rfl hstate
  | refiled made => cases made
  | drafted made => cases made
  | @published _ _ _ _ _ kew a policy e state kew_eq stored policy_eq accepted event =>
    obtain ⟨n, hdec, -⟩ := stored.decode
    have hread : (runAll X p.before .empty).readArtifactKew hash = .ok kew :=
      congrArg Prod.fst (readArtifactKew_some hs kew_eq)
    obtain rfl := Except.ok.inj (hread₀.symm.trans hread)
    obtain ⟨rfl, rfl⟩ := Prod.mk.inj (Except.ok.inj (hdec₀.symm.trans hdec))
    obtain rfl := Except.ok.inj (hp.policy.symm.trans policy_eq)
    refine ⟨accepted, fun hagain => ?_, fun hagain => ?_⟩
    · exact ⟨kew₀, n₀, congrArg Prod.fst (readArtifactKew_some ht ((hkept hagain).trans kew_eq)), hdec₀⟩
    · obtain ⟨a, kew, hkew, hstored, hnone⟩ := hbare (.inl hagain)
      obtain ⟨n, hdec, -⟩ := hstored.decode
      exact ⟨kew, a, n, congrArg Prod.fst (readArtifactKew_some ht hkew), hdec, hnone⟩

/-- What publish verified stands exactly when the artifact was not compiled again, or had no attestations. -/
theorem Publication.standsIn_iff (hX : X.Lawful) {p : Publication} {commands : List CommandLine}
    (hp : p.Of X commands hash) : p.StandsIn X (runAll X commands .empty) hash ↔
      ¬ (Recompiles X hash p.after ∧ p.artifact.attestations ≠ []) := by
  obtain ⟨hverified, hkept, hbare⟩ := hp.verified hX
  by_cases hagain : Recompiles X hash p.after
  · obtain ⟨kew, a, n, hread, hdec, hnone⟩ := hbare hagain
    constructor
    · rintro ⟨kew', a', n', hread', hdec', hsame, -⟩ ⟨-, hattested⟩
      obtain rfl := Except.ok.inj (hread.symm.trans hread')
      obtain ⟨rfl, -⟩ := Prod.mk.inj (Except.ok.inj (hdec.symm.trans hdec'))
      exact hattested (hsame.symm.trans hnone)
    · intro hnot
      have hbefore : p.artifact.attestations = [] := by
        by_contra hattested
        exact hnot ⟨hagain, hattested⟩
      -- nothing is required of a set that was accepted empty
      have hrequired : p.policy.requiredAttestationTypes = [] := by
        unfold verifyAttestationSet at hverified
        rw [hbefore] at hverified
        exact (verifyAttestations_nil X _ _ _ _).1 hverified
      refine ⟨kew, a, n, hread, hdec, hnone.trans hbefore.symm, ?_⟩
      unfold verifyAttestationSet
      rw [hnone]
      exact (verifyAttestations_nil X _ _ _ _).2 hrequired
  · obtain ⟨kew, n, hread, hdec⟩ := hkept hagain
    exact ⟨fun _ h => hagain h.1, fun _ => ⟨kew, p.artifact, n, hread, hdec, rfl, hverified⟩⟩

/-- A run leaves a published artifact as publish verified it exactly when it is not stripped. -/
theorem stillAttested_iff (hX : X.Lawful) (commands : List CommandLine) (hash : Hash32) :
    StillAttested X commands hash ↔ ¬ Stripped X commands hash := by
  constructor
  · rintro hstill ⟨hpublished, p, hp, hagain, hattested⟩
    exact (p.standsIn_iff hX hp).1 ((hstill hpublished).2 p hp) ⟨hagain, hattested⟩
  · intro hnot hpublished
    refine ⟨exists_publication hX commands hpublished, fun p hp => (p.standsIn_iff hX hp).2 ?_⟩
    rintro ⟨hagain, hattested⟩
    exact hnot ⟨hpublished, p, hp, hagain, hattested⟩

/-! ## The transfer limit, compiled again -/

theorem stillAttested_iff_transfer :
    StillAttested standIn transferLife transferHash ↔ ¬ Stripped standIn transferLife transferHash :=
  stillAttested_iff standIn_lawful transferLife transferHash

/-- The document of a published artifact, compiled once more. -/
def recompile : CommandLine := .compileIntent (.ok transferDocument) "us" 9

/-- The publication of the transfer limit, with the artifact that was attested, and the command after it. -/
def transferPublication (artifact : Artifact) : Publication :=
  ⟨transferLife.take 3, "local", "stable", none, 3, [recompile], artifact, intentspecVerificationPolicy⟩

/-- Compiling again fails, and leaves the published artifact without its attestations. -/
theorem recompile_strips : (recompile.run standIn (runAll standIn transferLife .empty)).1.isOk = false ∧
    ¬ StillAttested standIn (transferLife ++ [recompile]) transferHash := by
  have hrun : (!(recompile.run standIn (runAll standIn transferLife .empty)).1.isOk &&
      (lifecycleState standIn (runAll standIn (transferLife.take 3) .empty) transferHash).toOption.any
        (fun state => decide (state ≠ some .published)) &&
      ((runAll standIn (transferLife.take 3) .empty).readArtifactKew transferHash).toOption.any
        (fun kew => (decodeArtifact standIn kew).toOption.any fun d =>
          decide (d.1.manifest.artifactKind = .intentSpec)) &&
      (lifecycleState standIn (runAll standIn transferLife .empty) transferHash).toOption.any
        (fun state => decide (state = some .published)) &&
      (lifecycleState standIn (runAll standIn (transferLife ++ [recompile]) .empty) transferHash).toOption.any
        (fun state => decide (state = some .published)) &&
      ((runAll standIn (transferLife ++ [recompile]) .empty).readArtifactKew transferHash).toOption.any
        (fun kew => (decodeArtifact standIn kew).toOption.any fun d =>
          !(verifyAttestationSet standIn d.1 intentspecVerificationPolicy (testExpertKeyDirectory standIn)
            (localPolicyContext 3)).isOk)) = true := by decide +kernel
  simp only [Bool.and_eq_true, Bool.not_eq_true'] at hrun
  obtain ⟨⟨⟨⟨⟨hfails, hbefore⟩, hread⟩, hpublish⟩, hend⟩, hstripped⟩ := hrun
  obtain ⟨state, hstate, hunpublished⟩ := exists_ok_and hbefore
  obtain ⟨state', hstate', hpublished⟩ := exists_ok_and hpublish
  obtain ⟨state'', hstate'', hpublished'⟩ := exists_ok_and hend
  obtain ⟨kew, hkew, hdec⟩ := exists_ok_and hread
  obtain ⟨⟨a, n⟩, hdec, hkind⟩ := exists_ok_and hdec
  obtain ⟨kew', hkew', hdec'⟩ := exists_ok_and hstripped
  obtain ⟨⟨a', n'⟩, hdec', hrejected⟩ := exists_ok_and hdec'
  obtain rfl := of_decide_eq_true hpublished
  obtain rfl := of_decide_eq_true hpublished'
  have hp : (transferPublication a).Of standIn (transferLife ++ [recompile]) transferHash := by
    refine ⟨rfl, ?_, hstate', ⟨kew, n, hkew, hdec⟩, ?_⟩
    · show lifecycleState standIn (runAll standIn (transferLife.take 3) .empty) transferHash ≠ _
      rw [hstate]
      exact fun h => of_decide_eq_true hunpublished (Except.ok.inj h)
    · show resolvePolicy none a.manifest.artifactKind = _
      rw [show a.manifest.artifactKind = .intentSpec from of_decide_eq_true hkind]
      rfl
  refine ⟨hfails, fun hstill => ?_⟩
  obtain ⟨kew'', a'', n'', hkew'', hdec'', -, haccepted⟩ := (hstill hstate'').2 (transferPublication a) hp
  obtain rfl := Except.ok.inj (hkew'.symm.trans hkew'')
  obtain ⟨rfl, -⟩ := Prod.mk.inj (Except.ok.inj (hdec'.symm.trans hdec''))
  have hset : verifyAttestationSet standIn a' intentspecVerificationPolicy (testExpertKeyDirectory standIn)
      (localPolicyContext 3) = .ok () := haccepted
  rw [hset] at hrejected
  cases hrejected

end

end Ke.Registry
