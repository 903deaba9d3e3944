/-
Conflict detection and the order of the rules. Every pair is compared in one orientation: the last
assignments of the paths of the first rule against all branches of the paths of the second. A path
that takes one condition both ways is therefore consistent with more paths on one side than on the other.
-/
import KeEngine.Compiler.T4Canonical
import KeEngine.Compiler.T4Premises
import KeEngine.Compiler.Verify
import Mathlib.Data.Sym.Sym2

namespace Ke.T4

open Ke Wire Compiler

/-! ## Pairs of a list -/

section

variable {α : Type} {l l' : List α} {a b : α}

theorem mem_pairs_cons {x : α} {p : α × α} : p ∈ pairs (x :: l) ↔ (p.1 = x ∧ p.2 ∈ l) ∨ p ∈ pairs l := by
  obtain ⟨a, b⟩ := p
  simp only [pairs, List.mem_append, List.mem_map, Prod.mk.injEq]
  constructor
  · rintro (⟨b', hb, rfl, rfl⟩ | h)
    · exact .inl ⟨rfl, hb⟩
    · exact .inr h
  · rintro (⟨rfl, hb⟩ | h)
    · exact .inl ⟨b, hb, rfl, rfl⟩
    · exact .inr h

theorem mem_pairs_append {p : α × α} : ∀ {l : List α},
    p ∈ pairs (l ++ l') ↔ p ∈ pairs l ∨ (p.1 ∈ l ∧ p.2 ∈ l') ∨ p ∈ pairs l'
  | [] => by simp [pairs]
  | x :: l => by
    rw [List.cons_append, mem_pairs_cons, mem_pairs_cons, mem_pairs_append, List.mem_append, List.mem_cons]
    tauto

theorem mem_of_mem_pairs {p : α × α} : ∀ {l : List α}, p ∈ pairs l → p.1 ∈ l ∧ p.2 ∈ l
  | x :: l, h => by
    rcases mem_pairs_cons.1 h with ⟨hfirst, hsecond⟩ | h
    · exact ⟨hfirst ▸ List.mem_cons_self, List.mem_cons_of_mem x hsecond⟩
    · obtain ⟨hfirst, hsecond⟩ := mem_of_mem_pairs h
      exact ⟨List.mem_cons_of_mem x hfirst, List.mem_cons_of_mem x hsecond⟩

/-- A pair of a list is one of every order of the list, in one orientation or the other. -/
theorem mem_pairs_perm (h : l.Perm l') : (a, b) ∈ pairs l → (a, b) ∈ pairs l' ∨ (b, a) ∈ pairs l' := by
  induction h generalizing a b with
  | nil => exact .inl
  | cons x hperm ih =>
    intro hp
    rcases mem_pairs_cons.1 hp with ⟨rfl, hb⟩ | hp
    · exact .inl (mem_pairs_cons.2 (.inl ⟨rfl, hperm.mem_iff.1 hb⟩))
    · exact (ih hp).imp (fun h => mem_pairs_cons.2 (.inr h)) fun h => mem_pairs_cons.2 (.inr h)
  | swap x y l =>
    intro hp
    simp only [mem_pairs_cons, List.mem_cons] at hp ⊢
    tauto
  | trans _ _ ih₁ ih₂ =>
    intro hp
    rcases ih₁ hp with hp | hp
    · exact ih₂ hp
    · exact (ih₂ hp).symm

end

/-! ## Symmetric comparisons -/

theorem isDisjoint_iff {a b : List String} : isDisjoint a b = true ↔ ∀ v ∈ a, v ∉ b := by
  unfold isDisjoint
  rw [List.all_eq_true]
  exact forall₂_congr fun v _ => by rw [Bool.not_eq_true', List.contains_eq_mem, decide_eq_false_iff_not]

theorem isDisjoint_comm (a b : List String) : isDisjoint a b = isDisjoint b a := by
  rw [Bool.eq_iff_iff, isDisjoint_iff, isDisjoint_iff]
  exact ⟨fun h v hb ha => h v ha hb, fun h v ha hb => h v hb ha⟩

theorem overlapFrom_iff {b : Premises} : ∀ {a : Premises} {shared : Bool}, overlapFrom b shared a = true ↔
    (∀ p ∈ a, ∀ bv, b.lookup p.1 = some bv → isDisjoint p.2 bv = false) ∧
      (shared = true ∨ ∃ p ∈ a, ∃ bv, b.lookup p.1 = some bv)
  | [], shared => by simp [overlapFrom]
  | (field, av) :: rest, shared => by
    rw [overlapFrom, List.forall_mem_cons, List.exists_mem_cons_iff]
    cases hlookup : b.lookup field with
    | none =>
      simp only [reduceCtorEq, false_implies, implies_true, true_and, exists_false, false_or]
      exact overlapFrom_iff
    | some bv =>
      simp only [Option.some.injEq, forall_eq', exists_eq', true_or, or_true, and_true]
      cases hdisjoint : isDisjoint av bv with
      | true => simp
      | false =>
        rw [if_neg (by decide), overlapFrom_iff]
        simp

/-- Two scopes overlap when a field is in both and no field of both has disjoint values. -/
theorem scopesOverlap_iff {a b : Premises} (ha : a.Nodup) : scopesOverlap a b = true ↔
    (∀ field av bv, a.lookup field = some av → b.lookup field = some bv → isDisjoint av bv = false) ∧
      ∃ field av bv, a.lookup field = some av ∧ b.lookup field = some bv := by
  unfold scopesOverlap
  rw [overlapFrom_iff]
  simp only [lookup_iff_mem ha, Bool.false_eq_true, false_or, Prod.forall, Prod.exists]
  constructor
  · rintro ⟨hdisjoint, field, av, hmem, bv, hb⟩
    exact ⟨fun f x y hx hy => hdisjoint f x hx y hy, field, av, bv, hmem, hb⟩
  · rintro ⟨hdisjoint, field, av, bv, hmem, hb⟩
    exact ⟨fun f x hx y hy => hdisjoint f x y hx hy, field, av, hmem, bv, hb⟩

theorem scopesOverlap_comm {a b : Premises} (ha : a.Nodup) (hb : b.Nodup) : scopesOverlap a b = scopesOverlap b a := by
  rw [Bool.eq_iff_iff, scopesOverlap_iff ha, scopesOverlap_iff hb]
  constructor
  · rintro ⟨hdisjoint, field, av, bv, hx, hy⟩
    exact ⟨fun f x y hf hg => isDisjoint_comm y x ▸ hdisjoint f y x hg hf, field, bv, av, hy, hx⟩
  · rintro ⟨hdisjoint, field, av, bv, hx, hy⟩
    exact ⟨fun f x y hf hg => isDisjoint_comm y x ▸ hdisjoint f y x hg hf, field, bv, av, hy, hx⟩

theorem sharedScenario_comm (pa pb : SemPath) : sharedScenario pa pb = sharedScenario pb pa := by
  simp only [sharedScenario]
  rw [isDisjoint_comm, Bool.and_comm]

theorem windowsOverlap_comm : ∀ a b : Option SemWindow, windowsOverlap a b = windowsOverlap b a
  | none, none => rfl
  | none, some _ => rfl
  | some _, none => rfl
  | some _, some _ => Bool.and_comm ..

theorem sameLogic_comm (a b : SemanticRule) : sameLogic a b = sameLogic b a := by
  rw [Bool.eq_iff_iff]
  simp only [sameLogic, Bool.and_eq_true, decide_eq_true_eq]
  exact and_congr eq_comm eq_comm

/-! ## Consistent paths -/

/-- No condition is taken one way on the one path and the other way on the other. -/
def PathsAgree (pa pb : SemPath) : Prop :=
  ∀ x ∈ pa.branches, ∀ y ∈ pb.branches, x.cond = y.cond → x.taken = y.taken

theorem PathsAgree.symm {pa pb : SemPath} (h : PathsAgree pa pb) : PathsAgree pb pa :=
  fun y hy x hx hcond => (h x hx y hy hcond.symm).symm

/-- Paths that agree are consistent. -/
theorem PathsAgree.consistent {pa pb : SemPath} (h : PathsAgree pa pb) : pathsConsistent pa pb = true := by
  unfold pathsConsistent
  rw [List.all_eq_true]
  intro y hy
  cases hfind : pa.branches.reverse.find? (fun x => x.cond = y.cond) with
  | none => rfl
  | some x =>
    have hmem := List.mem_reverse.1 (List.mem_of_find?_eq_some hfind)
    have hcond : x.cond = y.cond := by simpa using List.find?_some hfind
    exact beq_iff_eq.2 (h x hmem y hy hcond)

/-- Two outcomes of a scenario that both paths speak of. -/
def Opposed (pa pb : SemPath) : Prop := pa.outcome.result ≠ pb.outcome.result ∧ sharedScenario pa pb = true

theorem Opposed.symm {pa pb : SemPath} (h : Opposed pa pb) : Opposed pb pa :=
  ⟨h.1.symm, sharedScenario_comm pa pb ▸ h.2⟩

/-- Opposed paths that agree. -/
def Clash (a b : SemanticRule) : Prop :=
  ∃ pa ∈ a.decisionPaths, ∃ pb ∈ b.decisionPaths, Opposed pa pb ∧ PathsAgree pa pb

/-- Opposed paths that do not agree, though the last assignments of the first do with the second: the
first takes a condition of the second both ways. -/
def OneSided (a b : SemanticRule) : Prop :=
  ∃ pa ∈ a.decisionPaths, ∃ pb ∈ b.decisionPaths,
    Opposed pa pb ∧ pathsConsistent pa pb = true ∧ ¬ PathsAgree pa pb

theorem Clash.symm {a b : SemanticRule} (h : Clash a b) : Clash b a := by
  obtain ⟨pa, ha, pb, hb, hopposed, hagree⟩ := h
  exact ⟨pb, hb, pa, ha, hopposed.symm, hagree.symm⟩

theorem contradiction_iff {a b : SemanticRule} :
    (contradiction a b).isSome = true ↔ Clash a b ∨ OneSided a b := by
  have hpaths : (contradiction a b).isSome = true ↔
      ∃ pa ∈ a.decisionPaths, ∃ pb ∈ b.decisionPaths, Opposed pa pb ∧ pathsConsistent pa pb = true := by
    simp only [contradiction, List.findSome?_isSome_iff, Opposed]
    refine exists_congr fun pa => and_congr_right fun _ => exists_congr fun pb => and_congr_right fun _ => ?_
    split
    · rename_i h
      exact iff_of_true rfl ⟨⟨h.1, h.2.2⟩, h.2.1⟩
    · rename_i h
      exact iff_of_false (by decide) fun h' => h ⟨h'.1.1, h'.2, h'.1.2⟩
  rw [hpaths]
  constructor
  · rintro ⟨pa, ha, pb, hb, hopposed, hconsistent⟩
    by_cases hagree : PathsAgree pa pb
    · exact .inl ⟨pa, ha, pb, hb, hopposed, hagree⟩
    · exact .inr ⟨pa, ha, pb, hb, hopposed, hconsistent, hagree⟩
  · rintro (⟨pa, ha, pb, hb, hopposed, hagree⟩ | ⟨pa, ha, pb, hb, hopposed, hconsistent, -⟩)
    · exact ⟨pa, ha, pb, hb, hopposed, hagree.consistent⟩
    · exact ⟨pa, ha, pb, hb, hopposed, hconsistent⟩

/-- A path takes no condition both ways. -/
def SemPath.Live (p : SemPath) : Prop := ∀ x ∈ p.branches, ∀ y ∈ p.branches, x.cond = y.cond → x.taken = y.taken

/-- Of live paths, the consistent ones agree. -/
theorem SemPath.Live.agree {pa pb : SemPath} (h : SemPath.Live pa) (hconsistent : pathsConsistent pa pb = true) :
    PathsAgree pa pb := by
  intro x hx y hy hcond
  have hassigned := List.all_eq_true.1 hconsistent y hy
  cases hfind : pa.branches.reverse.find? (fun x => x.cond = y.cond) with
  | none =>
    have hnone := List.find?_eq_none.1 hfind x (List.mem_reverse.2 hx)
    exact absurd (decide_eq_true hcond) hnone
  | some last =>
    rw [hfind] at hassigned
    have hmem := List.mem_reverse.1 (List.mem_of_find?_eq_some hfind)
    have hlast : last.cond = y.cond := by simpa using List.find?_some hfind
    exact (h x hx last hmem (hcond.trans hlast.symm)).trans (beq_iff_eq.1 hassigned)

theorem not_oneSided_of_live {a b : SemanticRule} (h : ∀ pa ∈ a.decisionPaths, SemPath.Live pa) : ¬ OneSided a b := by
  rintro ⟨pa, ha, pb, hb, -, hconsistent, hdiffer⟩
  exact hdiffer ((h pa ha).agree hconsistent)

/-! ## Reports without an order -/

/-- The classes that a pair is reported with. -/
def classesOf (p : RuleIR × RuleIR) : List (ConflictClass × Severity) :=
  (conflictsBetween p.1 p.2).map fun c => (c.class_, c.severity)

theorem classesOf_eq (ra rb : RuleIR) : classesOf (ra, rb) =
    if sameLogic (SemanticRule.fromRule ra) (SemanticRule.fromRule rb) then [(.duplicateRule, .advisory)]
    else if scopesOverlap (extractPremises ra) (extractPremises rb) then
      (if (contradiction (SemanticRule.fromRule ra) (SemanticRule.fromRule rb)).isSome then
          (.contradictoryOutcome, .blocking)
        else (.overlappingScope, .reviewRequired)) ::
      (if windowsOverlap (SemanticRule.fromRule ra).effective (SemanticRule.fromRule rb).effective then
        [(.temporalOverlap, .reviewRequired)] else [])
    else [] := by
  simp only [classesOf, conflictsBetween]
  split
  · rfl
  · split
    · cases contradiction (SemanticRule.fromRule ra) (SemanticRule.fromRule rb) <;> simp only [List.map_append] <;>
        split <;> rfl
    · rfl

theorem extractPremises_overlap_comm (ra rb : RuleIR) :
    scopesOverlap (extractPremises ra) (extractPremises rb) = scopesOverlap (extractPremises rb) (extractPremises ra) :=
  scopesOverlap_comm (extractPremises_nodup ra) (extractPremises_nodup rb)

/-- The two orientations of a pair are compared alike: it is a duplicate, its scopes do not overlap, two
opposed paths agree, or one-sided paths are found in both orientations or in neither. -/
def Balanced (p : RuleIR × RuleIR) : Prop :=
  Duplicate p ∨ scopesOverlap (extractPremises p.1) (extractPremises p.2) = false ∨
    Clash (SemanticRule.fromRule p.1) (SemanticRule.fromRule p.2) ∨
      (OneSided (SemanticRule.fromRule p.1) (SemanticRule.fromRule p.2) ↔
        OneSided (SemanticRule.fromRule p.2) (SemanticRule.fromRule p.1))

theorem contradiction_comm_iff {a b : SemanticRule} :
    (contradiction a b).isSome = (contradiction b a).isSome ↔ Clash a b ∨ (OneSided a b ↔ OneSided b a) := by
  have hclash : Clash b a ↔ Clash a b := ⟨Clash.symm, Clash.symm⟩
  rw [Bool.eq_iff_iff, contradiction_iff, contradiction_iff, hclash]
  tauto

theorem classesOf_comm_of_balanced {ra rb : RuleIR} (h : Balanced (ra, rb)) :
    classesOf (ra, rb) = classesOf (rb, ra) := by
  rw [classesOf_eq, classesOf_eq, sameLogic_comm (SemanticRule.fromRule rb), extractPremises_overlap_comm rb,
    windowsOverlap_comm (SemanticRule.fromRule rb).effective]
  rcases h with h | h | h
  · have hlogic : sameLogic (SemanticRule.fromRule ra) (SemanticRule.fromRule rb) = true := h
    rw [hlogic]
    rfl
  · have hoverlap : scopesOverlap (extractPremises ra) (extractPremises rb) = false := h
    rw [hoverlap]
    rfl
  · rw [contradiction_comm_iff.2 h]

/-- Whether a contradiction is reported decides that of a pair which is compared for one. -/
theorem contradictory_mem_classesOf {ra rb : RuleIR} (hduplicate : ¬ Duplicate (ra, rb))
    (hoverlap : scopesOverlap (extractPremises ra) (extractPremises rb) = true) :
    (ConflictClass.contradictoryOutcome, Severity.blocking) ∈ classesOf (ra, rb) ↔
      (contradiction (SemanticRule.fromRule ra) (SemanticRule.fromRule rb)).isSome = true := by
  have hlogic : ¬ sameLogic (SemanticRule.fromRule ra) (SemanticRule.fromRule rb) = true := hduplicate
  rw [classesOf_eq, if_neg hlogic, if_pos hoverlap]
  cases (contradiction (SemanticRule.fromRule ra) (SemanticRule.fromRule rb)).isSome <;> simp

theorem balanced_of_classesOf_comm {ra rb : RuleIR} (h : ∀ k, k ∈ classesOf (ra, rb) ↔ k ∈ classesOf (rb, ra)) :
    Balanced (ra, rb) := by
  by_cases hduplicate : Duplicate (ra, rb)
  · exact .inl hduplicate
  cases hoverlap : scopesOverlap (extractPremises ra) (extractPremises rb) with
  | false => exact .inr (.inl hoverlap)
  | true =>
    have hduplicate' : ¬ Duplicate (rb, ra) := by
      unfold Duplicate
      rw [sameLogic_comm]
      exact hduplicate
    refine .inr (.inr (contradiction_comm_iff.1 (Bool.eq_iff_iff.2 ?_)))
    rw [← contradictory_mem_classesOf hduplicate hoverlap, h,
      contradictory_mem_classesOf hduplicate' (extractPremises_overlap_comm ra rb ▸ hoverlap)]

theorem Balanced.symm {ra rb : RuleIR} (h : Balanced (ra, rb)) : Balanced (rb, ra) :=
  balanced_of_classesOf_comm fun k => by rw [classesOf_comm_of_balanced h]

/-- What is reported: pairs of rules without an order, each with a class and its severity. -/
def reported (rules : List RuleIR) : Set (Sym2 RuleIR × ConflictClass × Severity) :=
  {x | ∃ p ∈ pairs rules, x.1 = s(p.1, p.2) ∧ x.2 ∈ classesOf p}

/-- Every order of the rules is reported alike and blocked alike. -/
structure OrderFree (rules : List RuleIR) : Prop where
  reported : ∀ rules', rules'.Perm rules → reported rules' = reported rules
  blocking : ∀ rules', rules'.Perm rules → (verify rules').hasBlocking = (verify rules).hasBlocking

variable {rules rules' : List RuleIR}

/-- A contradiction is reported exactly when one blocks. -/
theorem exists_blocking_iff : (∃ c ∈ detectConflicts rules, c.severity = .blocking) ↔
    ∃ x ∈ reported rules, x.2.2 = .blocking := by
  unfold detectConflicts
  simp only [List.mem_flatMap]
  constructor
  · rintro ⟨c, ⟨p, hp, hc⟩, hblocking⟩
    exact ⟨(s(p.1, p.2), c.class_, c.severity), ⟨p, hp, rfl, List.mem_map_of_mem hc⟩, hblocking⟩
  · rintro ⟨x, ⟨p, hp, -, hx⟩, hblocking⟩
    obtain ⟨c, hc, heq⟩ := List.mem_map.1 hx
    refine ⟨c, ⟨p, hp, hc⟩, ?_⟩
    rw [← hblocking, ← heq]

/-- What blocks is what is found in the rules one by one, or reported of a pair. -/
theorem hasBlocking_of_reported (hperm : rules'.Perm rules) (h : reported rules' = reported rules) :
    (verify rules').hasBlocking = (verify rules).hasBlocking := by
  rw [Bool.eq_iff_iff, verify_hasBlocking, verify_hasBlocking, exists_blocking_iff, exists_blocking_iff, h]
  simp only [hperm.mem_iff]

theorem reported_subset (h : ∀ p ∈ pairs rules, Balanced p) (hperm : rules.Perm rules') :
    reported rules ⊆ reported rules' := by
  rintro ⟨z, k⟩ ⟨⟨ra, rb⟩, hp, hz, hk⟩
  rcases mem_pairs_perm hperm hp with hp' | hp'
  · exact ⟨(ra, rb), hp', hz, hk⟩
  · refine ⟨(rb, ra), hp', hz.trans Sym2.eq_swap, ?_⟩
    rw [← classesOf_comm_of_balanced (h _ hp)]
    exact hk

theorem balanced_perm (h : ∀ p ∈ pairs rules, Balanced p) (hperm : rules'.Perm rules) :
    ∀ p ∈ pairs rules', Balanced p := by
  rintro ⟨ra, rb⟩ hp
  rcases mem_pairs_perm hperm hp with hp' | hp'
  · exact h _ hp'
  · exact (h _ hp').symm

open Classical in
/-- The rules with all copies of one of them in front. -/
theorem exists_perm_front (rules : List RuleIR) (ra : RuleIR) :
    ∃ front back : List RuleIR, (front ++ back).Perm rules ∧ (∀ r ∈ front, r = ra) ∧ ∀ r ∈ back, r ≠ ra := by
  refine ⟨rules.filter fun r => decide (r = ra), rules.filter fun r => !decide (r = ra),
    List.filter_append_perm .., fun r hr => ?_, fun r hr => ?_⟩
  · exact of_decide_eq_true (List.mem_filter.1 hr).2
  · simpa using (List.mem_filter.1 hr).2

/-- With all copies of one rule in front, a pair that it is in is compared in that orientation only. -/
theorem reported_front {front back : List RuleIR} {ra rb : RuleIR} (hfront : ∀ r ∈ front, r = ra)
    (hback : ∀ r ∈ back, r ≠ ra) (hne : rb ≠ ra) {k : ConflictClass × Severity} :
    (s(ra, rb), k) ∈ reported (front ++ back) → k ∈ classesOf (ra, rb) := by
  rintro ⟨⟨ra', rb'⟩, hp, hpair, hk⟩
  rcases Sym2.eq_iff.1 hpair with ⟨rfl, rfl⟩ | ⟨rfl, rfl⟩
  · exact hk
  · rcases mem_pairs_append.1 hp with hp | ⟨hb, -⟩ | hp
    · exact absurd (hfront _ (mem_of_mem_pairs hp).1) hne
    · exact absurd (hfront _ hb) hne
    · exact absurd rfl (hback _ (mem_of_mem_pairs hp).2)

/-- The other way round, with all copies of it at the end. -/
theorem reported_back {front back : List RuleIR} {ra rb : RuleIR} (hfront : ∀ r ∈ front, r = ra)
    (hback : ∀ r ∈ back, r ≠ ra) (hne : rb ≠ ra) {k : ConflictClass × Severity} :
    (s(ra, rb), k) ∈ reported (back ++ front) → k ∈ classesOf (rb, ra) := by
  rintro ⟨⟨ra', rb'⟩, hp, hpair, hk⟩
  rcases Sym2.eq_iff.1 hpair with ⟨rfl, rfl⟩ | ⟨rfl, rfl⟩
  · rcases mem_pairs_append.1 hp with hp | ⟨ha, -⟩ | hp
    · exact absurd rfl (hback _ (mem_of_mem_pairs hp).1)
    · exact absurd rfl (hback _ ha)
    · exact absurd (hfront _ (mem_of_mem_pairs hp).2) hne
  · exact hk

/-- The order is free exactly when every pair of rules is compared alike in both orientations. -/
theorem orderFree_iff (rules : List RuleIR) : OrderFree rules ↔ ∀ p ∈ pairs rules, Balanced p := by
  constructor
  · rintro ⟨hreported, -⟩ ⟨ra, rb⟩ hp
    by_cases hne : rb = ra
    · subst hne
      exact balanced_of_classesOf_comm fun _ => Iff.rfl
    obtain ⟨front, back, hperm, hfront, hback⟩ := exists_perm_front rules ra
    have hfirst := hreported _ hperm
    have hlast := hreported _ (List.perm_append_comm.trans hperm)
    obtain ⟨hra, hrb⟩ := mem_of_mem_pairs hp
    have hra : ra ∈ front := (List.mem_append.1 (hperm.mem_iff.2 hra)).resolve_right fun h => hback _ h rfl
    have hrb : rb ∈ back := (List.mem_append.1 (hperm.mem_iff.2 hrb)).resolve_left fun h => hne (hfront _ h)
    refine balanced_of_classesOf_comm fun k => ⟨fun hk => ?_, fun hk => ?_⟩
    · have hmem : (s(ra, rb), k) ∈ reported (front ++ back) :=
        ⟨(ra, rb), mem_pairs_append.2 (.inr (.inl ⟨hra, hrb⟩)), rfl, hk⟩
      rw [hfirst, ← hlast] at hmem
      exact reported_back hfront hback hne hmem
    · have hmem : (s(ra, rb), k) ∈ reported (back ++ front) :=
        ⟨(rb, ra), mem_pairs_append.2 (.inr (.inl ⟨hrb, hra⟩)), Sym2.eq_swap, hk⟩
      rw [hlast, ← hfirst] at hmem
      exact reported_front hfront hback hne hmem
  · intro h
    have hreported : ∀ rules', rules'.Perm rules → reported rules' = reported rules := fun rules' hperm =>
      Set.Subset.antisymm (reported_subset (balanced_perm h hperm) hperm) (reported_subset h hperm.symm)
    exact ⟨hreported, fun rules' hperm => hasBlocking_of_reported hperm (hreported rules' hperm)⟩

/-- Rules whose trees test no condition twice on a path are free of their order. -/
theorem orderFree_of_live (h : ∀ r ∈ rules, ∀ p ∈ (SemanticRule.fromRule r).decisionPaths, SemPath.Live p) :
    OrderFree rules := by
  refine (orderFree_iff rules).2 fun p hp => ?_
  obtain ⟨hfirst, hsecond⟩ := mem_of_mem_pairs hp
  exact .inr (.inr (.inr (iff_of_false (not_oneSided_of_live (h _ hfirst)) (not_oneSided_of_live (h _ hsecond)))))

/-! ## A condition that is tested twice -/

def onX : Option ConditionGroupSpec := some ⟨some [.condition ⟨"x", .eq, .str "1", none⟩], none⟩

def askF : Condition := ⟨"f", .eq, .str "1", none⟩

/-- Asks again on the branch where the answer is known. -/
def askingTwice : RuleIR :=
  .bare "twice" onX (.node "n" askF (.node "m" askF (.result "permit") (.result "never") none) (.result "forbid") none)

def askingOnce : RuleIR := .bare "once" onX (.node "n" askF (.result "permit") (.result "forbid") none)

/-- The two rules block each other in one order and not in the other. -/
theorem askingTwice_order : (verify [askingTwice, askingOnce]).hasBlocking = true ∧
    (verify [askingOnce, askingTwice]).hasBlocking = false ∧ ¬ OrderFree [askingTwice, askingOnce] := by
  have hblocks : (verify [askingTwice, askingOnce]).hasBlocking = true := by decide +kernel
  have hpasses : (verify [askingOnce, askingTwice]).hasBlocking = false := by decide +kernel
  refine ⟨hblocks, hpasses, fun h => ?_⟩
  have hsame := h.blocking [askingOnce, askingTwice] (List.Perm.swap ..)
  rw [hblocks, hpasses] at hsame
  cases hsame

end Ke.T4
