/-
What `compile` takes into the manifest from the rules as they were lowered: the start of the window,
from the first rule, and a hash of all of them before they are made canonical. The window is that of
every rule only where they all follow the first one, and the address is that of the spelling.
-/
import KeEngine.Export.Graph
import KeEngine.Registry.Resolve
import KeEngine.Runtime.Effective

namespace Ke.Registry

open Ke Wire Compiler

/-! ## Effective dates -/

theorem dateLt_iff (a b : JurisdictionDate) : dateLt a b = true ↔ ordinal a < ordinal b := keyLt_iff a b

/-- A window that never closes contains the dates from its start on. -/
theorem windowContains_open (start date : JurisdictionDate) :
    windowContains start none date = true ↔ ordinal start ≤ ordinal date := by
  have hlt := dateLt_iff date start
  unfold windowContains
  cases h : dateLt date start
  · rw [h] at hlt
    simp
    simpa using hlt
  · rw [h] at hlt
    simp
    simpa using hlt

/-- A rule is effective at every date from a start on exactly when it starts no later and never ends. -/
theorem effectiveAt_from_iff (start : JurisdictionDate) (w : EffectiveWindow) :
    (∀ date, windowContains start none date = true → effectiveAt (some w) date = true) ↔
      w.effectiveTo = none ∧ dateLt start w.effectiveFrom = false := by
  have hstart : dateLt start w.effectiveFrom = false ↔ ordinal w.effectiveFrom ≤ ordinal start := by
    rw [← Bool.not_eq_true, dateLt_iff, not_lt]
  rw [hstart]
  constructor
  · intro h
    have heffective : ∀ date, ordinal start ≤ ordinal date → ordinal w.effectiveFrom ≤ ordinal date ∧
        ∀ to_ ∈ w.effectiveTo, ordinal date < ordinal to_ :=
      fun date hdate => (effectiveAt_iff w date).1 (h date ((windowContains_open start date).2 hdate))
    refine ⟨Option.eq_none_iff_forall_not_mem.2 fun to_ hto => ?_, (heffective start le_rfl).1⟩
    -- the later of the start and the end is in the one window, and not in the other
    rcases le_total (ordinal start) (ordinal to_) with hle | hle
    · have hlt := (heffective to_ hle).2 to_ hto
      omega
    · have hlt := (heffective start le_rfl).2 to_ hto
      omega
  · rintro ⟨hto, hle⟩ date hdate
    rw [windowContains_open] at hdate
    rw [effectiveAt_iff, hto]
    exact ⟨hle.trans hdate, fun to_ hmem => absurd hmem (Option.not_mem_none to_)⟩

/-! ## What is assembled -/

section

variable {X : Externals} {document document' : YamlNode} {regimeId : String} {rules rules' : List RuleIR} {a : Artifact}
  {kew : Bytes}

/-- The start that `compile` records: that of the first rule, or the floor. -/
def recordedStart (rules : List RuleIR) : JurisdictionDate :=
  ((rules.head?.bind (·.effectiveWindow)).map (·.effectiveFrom)).getD floorDate

/-- What `compile` assembles, of the rules that it lowered. -/
theorem assembleRules_ok (hrules : compileRules document = .ok rules) {made : Artifact × Bytes} :
    assembleRules X document regimeId = .ok made ↔
      ¬ (verify rules).hasBlocking = true ∧ ∃ seed, (Codec.seq Postcard.ruleIR).enc rules = .ok seed ∧
        assemblePayload X (syntheticManifest X .regimePack regimeId (recordedStart rules) seed) (.rules rules)
          ⟨none, none⟩ TestKeys.fixedSeed TestKeys.testKeyId = .ok made := by
  unfold assembleRules
  rw [hrules]
  constructor
  · intro h
    obtain ⟨_, hok, h⟩ := bind_ok.1 h
    cases hok
    obtain ⟨hverify, h⟩ := throw_else.1 h
    obtain ⟨seed, hseed, h⟩ := bind_ok.1 h
    exact ⟨hverify, seed, mapError_ok.1 hseed, mapError_ok.1 h⟩
  · rintro ⟨hverify, seed, hseed, hmade⟩
    refine bind_ok.2 ⟨rules, rfl, throw_else.2 ⟨hverify, ?_⟩⟩
    exact bind_ok.2 ⟨seed, mapError_ok.2 hseed, mapError_ok.2 hmade⟩

/-- Rules are made canonical without their windows. -/
theorem canonicalizeRules_windows {isNfc : String → Bool} {canon : List RuleIR}
    (h : canonicalizeRules isNfc rules = .ok canon) :
    canon.map (·.effectiveWindow) = rules.map (·.effectiveWindow) := by
  have hall := T4.canonicalizeRules_forall₂ h
  clear h
  induction hall with
  | nil => rfl
  | cons hr _ ih =>
    obtain ⟨tags, appliesIf, decisionTree, -, -, -, rfl⟩ := canonicalizeRule_fields hr
    rw [List.map_cons, List.map_cons, ih]

/-- The rules of the artifact are the lowered ones, made canonical. -/
theorem assembleRules_canonical (hrules : compileRules document = .ok rules)
    (h : assembleRules X document regimeId = .ok (a, kew)) :
    canonicalizeRules X.isNfc rules = .ok a.rules ∧ a.manifest.effectiveFrom = recordedStart rules ∧
      a.manifest.effectiveTo = none := by
  obtain ⟨-, seed, -, h⟩ := (assembleRules_ok hrules).1 h
  have hasm := assemblePayload_ok h
  obtain ⟨index, hp⟩ := hasm.payload_eq
  obtain ⟨canon, hcanon, hp⟩ := bind_ok.1 hp
  obtain ⟨hpayload, -⟩ := Prod.mk.inj (pure_ok.1 hp)
  refine ⟨?_, ?_, ?_⟩
  · unfold Artifact.rules
    rw [← hpayload]
    exact hcanon
  · rw [hasm.manifest_eq]
    rfl
  · rw [hasm.manifest_eq]
    rfl

/-- At every date of the window of the artifact, all its rules are effective. -/
def WindowsAgree (a : Artifact) : Prop :=
  ∀ date, windowContains a.manifest.effectiveFrom a.manifest.effectiveTo date = true →
    ∀ rule ∈ a.rules, effectiveAt rule.effectiveWindow date = true

/-- No rule starts after the recorded start, and none ends. -/
def AllFollowFirst (rules : List RuleIR) : Prop :=
  ∀ rule ∈ rules, ∀ w ∈ rule.effectiveWindow, w.effectiveTo = none ∧
    dateLt (recordedStart rules) w.effectiveFrom = false

/-- What `compile` makes of rules has their windows exactly when they all follow the first one. -/
theorem windowsAgree_iff (hrules : compileRules document = .ok rules)
    (h : assembleRules X document regimeId = .ok (a, kew)) : WindowsAgree a ↔ AllFollowFirst rules := by
  obtain ⟨hcanon, hfrom, hto⟩ := assembleRules_canonical hrules h
  have hwindows := canonicalizeRules_windows hcanon
  -- both speak of the windows alone
  have hall : ∀ p : Option EffectiveWindow → Prop, (∀ rule ∈ a.rules, p rule.effectiveWindow) ↔
      ∀ rule ∈ rules, p rule.effectiveWindow := by
    intro p
    have hmap := List.forall_mem_map (f := fun rule : RuleIR => rule.effectiveWindow) (l := a.rules) (P := p)
    rw [hwindows, List.forall_mem_map] at hmap
    exact hmap.symm
  unfold WindowsAgree AllFollowFirst
  rw [hfrom, hto, ← hall fun window => ∀ w ∈ window, w.effectiveTo = none ∧
    dateLt (recordedStart rules) w.effectiveFrom = false]
  constructor
  · intro hagree rule hrule w hw
    refine (effectiveAt_from_iff _ w).1 fun date hdate => ?_
    rw [← show rule.effectiveWindow = some w from hw]
    exact hagree date hdate rule hrule
  · intro hfollow date hdate rule hrule
    cases hw : rule.effectiveWindow with
    | none => rfl
    | some w => exact (effectiveAt_from_iff _ w).2 (hfollow rule hrule w hw) date hdate

/-! ## Two spellings of one content -/

/-- The rules make one canonical list. -/
def SameCanonical (X : Externals) (rules rules' : List RuleIR) : Prop :=
  ∃ canon, canonicalizeRules X.isNfc rules = .ok canon ∧ canonicalizeRules X.isNfc rules' = .ok canon

/-- Two lists of rules of which the one encodes to other bytes than the other, of the same hash. -/
def SeedsCollide (X : Externals) (rules rules' : List RuleIR) : Prop :=
  ∃ seed seed', (Codec.seq Postcard.ruleIR).enc rules = .ok seed ∧ (Codec.seq Postcard.ruleIR).enc rules' = .ok seed' ∧
    seed ≠ seed' ∧ X.blake3 seed = X.blake3 seed'

theorem SameCanonical.recordedStart (h : SameCanonical X rules rules') :
    recordedStart rules = recordedStart rules' := by
  obtain ⟨canon, hcanon, hcanon'⟩ := h
  have hwindows := (canonicalizeRules_windows hcanon).symm.trans (canonicalizeRules_windows hcanon')
  have hheads := congrArg List.head? hwindows
  rw [List.head?_map, List.head?_map] at hheads
  have hjoin : ∀ rules : List RuleIR, (rules.head?.bind (·.effectiveWindow)) =
      (rules.head?.map (·.effectiveWindow)).join := fun rules => by
    cases rules.head? <;> rfl
  unfold Registry.recordedStart
  rw [hjoin, hjoin, hheads]

/-- Of what is accepted, another spelling is accepted with the same address and bytes exactly when it
is no other spelling, or its hash collides and it passes verification too. -/
theorem assembleRules_same_iff (hrules : compileRules document = .ok rules)
    (hrules' : compileRules document' = .ok rules') (hsame : SameCanonical X rules rules')
    (h : assembleRules X document regimeId = .ok (a, kew)) :
    assembleRules X document' regimeId = .ok (a, kew) ↔
      rules' = rules ∨ SeedsCollide X rules rules' ∧ (verify rules').hasBlocking = false := by
  have hstart := hsame.recordedStart
  obtain ⟨hverify, seed, hseed, hmade⟩ := (assembleRules_ok hrules).1 h
  rw [assembleRules_ok hrules']
  constructor
  · rintro ⟨hverify', seed', hseed', hmade'⟩
    -- the manifest holds the hash of the seed
    have hmanifest := (assemblePayload_ok hmade).manifest_eq
    have hmanifest' := (assemblePayload_ok hmade').manifest_eq
    have hhash : X.blake3 seed = X.blake3 seed' :=
      congrArg Manifest.sourceCorpusHash (hmanifest.symm.trans hmanifest')
    by_cases heq : seed = seed'
    · subst heq
      exact .inl (Codec.enc_injective _ hseed' hseed)
    · exact .inr ⟨⟨seed, seed', hseed, hseed', heq, hhash⟩, by simpa using hverify'⟩
  · rintro (rfl | ⟨⟨seed₁, seed', hseed₁, hseed', -, hhash⟩, hverify'⟩)
    · exact ⟨hverify, seed, hseed, hmade⟩
    · obtain rfl := Except.ok.inj (hseed.symm.trans hseed₁)
      refine ⟨by simp [hverify'], seed', hseed', ?_⟩
      have hmanifests : syntheticManifest X .regimePack regimeId (recordedStart rules') seed' =
          syntheticManifest X .regimePack regimeId (recordedStart rules) seed := by
        unfold syntheticManifest
        rw [hhash, hstart]
      obtain ⟨canon, hcanon, hcanon'⟩ := hsame
      have hpayloads : canonicalizePayload X (.rules rules') = canonicalizePayload X (.rules rules) := by
        show (canonicalizeRules X.isNfc rules' >>= _) = (canonicalizeRules X.isNfc rules >>= _)
        rw [hcanon, hcanon']
      rw [hmanifests]
      unfold assemblePayload at hmade ⊢
      rw [hpayloads]
      exact hmade

end

/-! ## Documents -/

/-- A document of one rule, with further fields. -/
def ruleDocument (ruleId : String) (fields : Fields) : YamlNode :=
  .mapping ([("rule_id", .plain ruleId), ("decision_tree", .mapping [("result", .plain "permit")]),
    ("source", .mapping [("document_id", .plain "doc")])] ++ fields)

/-- A rule from a date on. -/
def datedRule (ruleId effectiveFrom : String) : YamlNode :=
  ruleDocument ruleId [("effective_from", .plain effectiveFrom)]

/-- Two rules, of which the second starts first. -/
def followingDocument : YamlNode := .sequence [datedRule "a" "2024-06-30", datedRule "b" "2024-01-01"]

theorem windowsAgree_iff_following : ∃ rules a kew, compileRules followingDocument = .ok rules ∧
    assembleRules standIn followingDocument "us" = .ok (a, kew) ∧ rules.length = 2 ∧
      (WindowsAgree a ↔ AllFollowFirst rules) := by
  have hrun : (compileRules followingDocument).toOption.any (fun rules => decide (rules.length = 2) &&
      (assembleRules standIn followingDocument "us").isOk) = true := by decide +kernel
  obtain ⟨rules, hrules, hrun⟩ := exists_ok_and hrun
  obtain ⟨hlength, hmade⟩ := Bool.and_eq_true_iff.1 hrun
  obtain ⟨⟨a, kew⟩, hmade⟩ := exists_ok hmade
  exact ⟨rules, a, kew, hrules, hmade, of_decide_eq_true hlength, windowsAgree_iff hrules hmade⟩

/-- Two rules, of which the second starts a year later. -/
def growingDocument : YamlNode := .sequence [datedRule "a" "2024-01-01", datedRule "b" "2025-01-01"]

/-- The window of the artifact contains a date at which its second rule is not yet effective. -/
theorem window_contains_ineffective : ∃ a kew date rule, assembleRules standIn growingDocument "us" = .ok (a, kew) ∧
    windowContains a.manifest.effectiveFrom a.manifest.effectiveTo date = true ∧ rule ∈ a.rules ∧
      effectiveAt rule.effectiveWindow date = false ∧ ¬ WindowsAgree a := by
  have hrun : (assembleRules standIn growingDocument "us").toOption.any (fun made =>
      windowContains made.1.manifest.effectiveFrom made.1.manifest.effectiveTo ⟨.lit 16 2024, 7, 1⟩ &&
        made.1.rules.any fun rule => !effectiveAt rule.effectiveWindow ⟨.lit 16 2024, 7, 1⟩) = true := by decide +kernel
  obtain ⟨⟨a, kew⟩, hmade, hrun⟩ := exists_ok_and hrun
  obtain ⟨hcontains, hrule⟩ := Bool.and_eq_true_iff.1 hrun
  obtain ⟨rule, hmem, hineffective⟩ := List.any_eq_true.1 hrule
  have hineffective : effectiveAt rule.effectiveWindow ⟨.lit 16 2024, 7, 1⟩ = false := by simpa using hineffective
  refine ⟨a, kew, _, rule, hmade, hcontains, hmem, hineffective, fun hagree => ?_⟩
  rw [hagree _ hcontains rule hmem] at hineffective
  cases hineffective

/-- A rule about an amount, written as a plain numeral. -/
def amountDocument (amount : String) : YamlNode :=
  ruleDocument "r" [("applies_if", .mapping [("all", .sequence [.mapping [("field", .plain "amount"),
    ("value", .scalar ⟨amount, true, none⟩)]])])]

/-- The rule that it is lowered to. -/
def amountRule (mantissa : I128) (scale : I8) : RuleIR :=
  .bare "r" (some ⟨some [.condition ⟨"amount", .eq, .decimal mantissa scale, none⟩], none⟩) (.result "permit")

theorem compileRules_amount : compileRules (amountDocument "5") = .ok [amountRule (.lit 128 5) (.lit 8 0)] ∧
    compileRules (amountDocument "5.0") = .ok [amountRule (.lit 128 50) (.lit 8 1)] := ⟨rfl, rfl⟩

theorem sameCanonical_amount : SameCanonical standIn [amountRule (.lit 128 5) (.lit 8 0)]
    [amountRule (.lit 128 50) (.lit 8 1)] := ⟨[amountRule (.lit 128 5) (.lit 8 0)], rfl, rfl⟩

theorem assembleRules_same_iff_amount : ∃ a kew, assembleRules standIn (amountDocument "5") "us" = .ok (a, kew) ∧
    (assembleRules standIn (amountDocument "5.0") "us" = .ok (a, kew) ↔
      [amountRule (.lit 128 50) (.lit 8 1)] = [amountRule (.lit 128 5) (.lit 8 0)] ∨
        SeedsCollide standIn [amountRule (.lit 128 5) (.lit 8 0)] [amountRule (.lit 128 50) (.lit 8 1)] ∧
          (verify [amountRule (.lit 128 50) (.lit 8 1)]).hasBlocking = false) := by
  have hmade : (assembleRules standIn (amountDocument "5") "us").isOk = true := by decide +kernel
  obtain ⟨⟨a, kew⟩, hmade⟩ := exists_ok hmade
  exact ⟨a, kew, hmade, assembleRules_same_iff compileRules_amount.1 compileRules_amount.2 sameCanonical_amount hmade⟩

/-- Written `5` and `5.0`, one content is compiled to two addresses. -/
theorem spelling_moves_address : ∃ a kew a' kew', assembleRules standIn (amountDocument "5") "us" = .ok (a, kew) ∧
    assembleRules standIn (amountDocument "5.0") "us" = .ok (a', kew') ∧
      SameCanonical standIn [amountRule (.lit 128 5) (.lit 8 0)] [amountRule (.lit 128 50) (.lit 8 1)] ∧
      a.manifest.artifactHash ≠ a'.manifest.artifactHash ∧ kew ≠ kew' := by
  have hrun : (assembleRules standIn (amountDocument "5") "us").toOption.any (fun made =>
      (assembleRules standIn (amountDocument "5.0") "us").toOption.any fun made' =>
        decide (made.1.manifest.artifactHash ≠ made'.1.manifest.artifactHash ∧ made.2 ≠ made'.2)) = true := by
    decide +kernel
  obtain ⟨⟨a, kew⟩, hmade, hrun⟩ := exists_ok_and hrun
  obtain ⟨⟨a', kew'⟩, hmade', hdiffer⟩ := exists_ok_and hrun
  exact ⟨a, kew, a', kew', hmade, hmade', sameCanonical_amount, of_decide_eq_true hdiffer⟩

end Ke.Registry
