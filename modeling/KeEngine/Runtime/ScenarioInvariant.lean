/-
When the generator keeps its promise: no overflow, and no number on a field that a membership test reads. A
value comes to a field by every condition on it, true or false on a path, moved as a threshold or drawn, and
the last of a scenario stands; so the promise is one about the last condition on the field of each scenario.
-/
import KeEngine.Compiler.FailClosed
import KeEngine.Runtime.Integers
import KeEngine.Runtime.ScenarioSpec

namespace Ke.Runtime

open Ke Wire Ke.T4

/-! ## The promise -/

/-- The generator ends without an overflow, and gives no field of a membership test a number. -/
def GeneratesSafely (X : JsonFloats) (rule : RuleIR) (globalSeed : UInt64) (fuzzExtra : Nat) : Prop :=
  ∃ scenarios, generateForRule X rule globalSeed fuzzExtra = some scenarios ∧
    ∀ s ∈ scenarios, ∀ field ∈ (Catalog.fromRule rule).inFields, numberAt field s.facts = false

/-! ## Where it is kept -/

/-- In one of the random scenarios the condition with this index in the catalog is made false. -/
def FalseDrawn (rule : RuleIR) (globalSeed : UInt64) (fuzzExtra i : Nat) : Prop :=
  ∃ n < fuzzExtra, drawAt (ruleSeed globalSeed rule.ruleId) (n * (Catalog.fromRule rule).conditions.length + i) = 1

/-- A path that no condition on the field is on. -/
def Avoids (field : String) : DecisionEntry → Prop
  | .leaf _ => True
  | .node _ c t f _ => c.field ≠ field ∧ (Avoids field t ∨ Avoids field f)

/-- A node on the field gives it no number on a branch from which a path leads on that does not give it
another value. -/
def NodesFree (field : String) : DecisionEntry → Prop
  | .leaf _ => True
  | .node _ c t f _ =>
    (c.field = field → (Avoids field t → trueNumber c = false) ∧ (Avoids field f → falseNumber c = false)) ∧
      NodesFree field t ∧ NodesFree field f

/-- The last of the conditions on a field, with its index. -/
def lastOn (field : String) (cs : List Condition) : Option (Condition × Nat) :=
  Layers.last field (cs.zipIdx.map fun p => (p.1.field, p))

/-- No mantissa that the generator moves is at the end of its range. -/
structure NoOverflow (rule : RuleIR) (globalSeed : UInt64) (fuzzExtra : Nat) : Prop where
  ordering : ∀ c ∈ (Catalog.fromRule rule).conditions, Operator.isOrdering c.operator = true →
    movable (-1) c.value = true ∧ movable 1 c.value = true
  notEqual : ∀ c ∈ (Catalog.fromRule rule).conditions, c.operator = .notEq → movable 1 c.value = true
  nodes : ∀ c ∈ collectTree [] rule.decisionTree, c.operator = .eq → movable 1 c.value = true
  refuted : ∀ c ∈ refuted rule, c.operator = .eq → movable 1 c.value = true
  drawn : ∀ p ∈ (checks rule).zipIdx, FalseDrawn rule globalSeed fuzzExtra p.2 → p.1.operator = .eq →
    movable 1 p.1.value = true

/-- No scenario ends with a number on the field. -/
structure NumberFree (rule : RuleIR) (globalSeed : UInt64) (fuzzExtra : Nat) (field : String) : Prop where
  ordering : ∀ c ∈ (Catalog.fromRule rule).conditions, c.field = field → Operator.isOrdering c.operator = true →
    hasDecimal c.value = false
  nodes : NodesFree field rule.decisionTree
  checks : Avoids field rule.decisionTree → ∀ p, lastOn field (checks rule) = some p → trueNumber p.1 = false
  refuted : ∀ p, lastOn field (refuted rule) = some p → falseNumber p.1 = false
  drawn : (∀ c ∈ collectTree [] rule.decisionTree, c.field ≠ field) → ∀ p, lastOn field (T4.checks rule) = some p →
    FalseDrawn rule globalSeed fuzzExtra p.2 → falseNumber p.1 = false

/-! ## The last condition on a field -/

section

variable {field : String}

theorem lastOn_map {β : Type} (g : Condition → β) (cs : List Condition) :
    Layers.last field (cs.map fun c => (c.field, g c)) = (lastOn field cs).map fun p => g p.1 := by
  rw [lastOn, ← Layers.last_map, List.map_map]
  conv_lhs => rw [← List.zipIdx_map_fst 0 cs, List.map_map]
  rfl

theorem lastOn_drawn (seed : UInt64) (k : Nat) (cs : List Condition) :
    Layers.last field (drawnNumbers seed k cs) =
      (lastOn field cs).map fun p => drawNumber (drawAt seed (k + p.2)) p.1 := by
  rw [drawnNumbers, List.zipIdx_eq_map_add, List.map_map, lastOn, ← Layers.last_map, List.map_map]
  rfl

theorem lastOn_append (cs ds : List Condition) : lastOn field (cs ++ ds) =
    ((lastOn field ds).map fun p => (p.1, cs.length + p.2)).or (lastOn field cs) := by
  rw [lastOn, List.zipIdx_append, List.map_append, Layers.last_append, Nat.zero_add,
    List.zipIdx_eq_map_add (l := ds), List.map_map, lastOn, lastOn, ← Layers.last_map, List.map_map]
  rfl

theorem lastOn_eq_none {cs : List Condition} : lastOn field cs = none ↔ ∀ c ∈ cs, c.field ≠ field := by
  rw [← Option.map_eq_none_iff (f := fun p => p.1), ← lastOn_map fun c => c, Layers.last_eq_none, List.forall_mem_map]

theorem lastOn_singleton (c : Condition) : lastOn field [c] = if c.field = field then some (c, 0) else none := by
  simp [lastOn, Layers.last]

/-! ## Paths -/

theorem lastNumber_append (writes after : List (String × Bool)) : lastNumber field (writes ++ after) =
    (Layers.last field after).getD (lastNumber field writes) := by
  rw [lastNumber, Layers.last_append, Option.getD_or, lastNumber]

theorem last_cons (k : String) (w : Bool) (writes : List (String × Bool)) :
    Layers.last field ((k, w) :: writes) = some true ↔
      Layers.last field writes = some true ∨ Layers.last field writes = none ∧ k = field ∧ w = true := by
  rw [Layers.last, Option.or_eq_some_iff, Option.ite_none_right_eq_some, Option.some.injEq]

theorem avoids_iff {e : DecisionEntry} : Avoids field e ↔ ∃ path ∈ pathNumbers e, Layers.last field path = none := by
  induction e with
  | leaf _ => simp [Avoids, pathNumbers, Layers.last]
  | node i c t f s iht ihf =>
    have hbranch : ∀ (w : Bool) (paths : List (List (String × Bool))),
        (∃ path ∈ paths.map ((c.field, w) :: ·), Layers.last field path = none) ↔
          c.field ≠ field ∧ ∃ path ∈ paths, Layers.last field path = none := by
      intro w paths
      simp only [List.mem_map, exists_exists_and_eq_and, Layers.last, Option.or_eq_none_iff, ite_eq_right_iff,
        reduceCtorEq, imp_false]
      constructor
      · rintro ⟨path, hpath, hnone, hfield⟩
        exact ⟨hfield, path, hpath, hnone⟩
      · rintro ⟨hfield, path, hpath, hnone⟩
        exact ⟨path, hpath, hnone, hfield⟩
    rw [Avoids, pathNumbers, iht, ihf]
    simp only [List.mem_append, or_and_right, exists_or, hbranch, ← and_or_left]

/-- A tree gives the field no number exactly when no path ends with one. -/
theorem nodesFree_iff {e : DecisionEntry} : NodesFree field e ↔
    ∀ path ∈ pathNumbers e, Layers.last field path ≠ some true := by
  induction e with
  | leaf _ => simp [NodesFree, pathNumbers, Layers.last]
  | node i c t f s iht ihf =>
    have hbranch : ∀ (w : Bool) (e : DecisionEntry),
        (∀ path ∈ (pathNumbers e).map ((c.field, w) :: ·), Layers.last field path ≠ some true) ↔
          (∀ path ∈ pathNumbers e, Layers.last field path ≠ some true) ∧
            (c.field = field → Avoids field e → w = false) := by
      intro w e
      rw [List.forall_mem_map, avoids_iff]
      simp only [ne_eq, last_cons, not_or, not_and, Bool.not_eq_true]
      constructor
      · intro h
        refine ⟨fun path hpath => (h path hpath).1, ?_⟩
        rintro hfield ⟨path, hpath, hnone⟩
        exact (h path hpath).2 hnone hfield
      · rintro ⟨hfree, hfirst⟩ path hpath
        exact ⟨hfree path hpath, fun hnone hfield => hfirst hfield ⟨path, hpath, hnone⟩⟩
    rw [NodesFree, pathNumbers, List.forall_mem_append, hbranch, hbranch, iht, ihf]
    constructor
    · rintro ⟨hnode, ht, hf⟩
      exact ⟨⟨ht, fun hfield => (hnode hfield).1⟩, hf, fun hfield => (hnode hfield).2⟩
    · rintro ⟨⟨ht, htrue⟩, hf, hfalse⟩
      exact ⟨fun hfield => ⟨htrue hfield, hfalse hfield⟩, ht, hf⟩

/-- After other writes, which stand on the paths without the field. -/
theorem paths_free {writes : List (String × Bool)} {e : DecisionEntry} :
    (∀ path ∈ pathNumbers e, lastNumber field (writes ++ path) = false) ↔
      NodesFree field e ∧ (Avoids field e → lastNumber field writes = false) := by
  simp only [nodesFree_iff, avoids_iff, lastNumber_append]
  constructor
  · intro h
    refine ⟨fun path hpath htrue => ?_, ?_⟩
    · have hlast := h path hpath
      rw [htrue] at hlast
      cases hlast
    · rintro ⟨path, hpath, hnone⟩
      have hlast := h path hpath
      rwa [hnone] at hlast
  · rintro ⟨hfree, hbefore⟩ path hpath
    cases hlast : Layers.last field path with
    | none => exact hbefore ⟨path, hpath, hlast⟩
    | some b =>
      cases b with
      | false => rfl
      | true => exact absurd hlast (hfree path hpath)

theorem avoids_of_none : ∀ {e : DecisionEntry}, (∀ c ∈ collectTree [] e, c.field ≠ field) → Avoids field e
  | .leaf _, _ => trivial
  | .node i c t f s, h => by
    rw [collectTree_node, List.forall_mem_cons, List.forall_mem_append] at h
    exact ⟨h.1, .inl (avoids_of_none h.2.1)⟩

/-- The last node of a tree on the field has paths behind it that leave its value. -/
theorem NodesFree.last_free : ∀ {e : DecisionEntry}, NodesFree field e → ∀ {p : Condition × Nat},
    lastOn field (collectTree [] e) = some p → trueNumber p.1 = false ∧ falseNumber p.1 = false
  | .leaf _, _, _, hp => absurd hp nofun
  | .node i c t f s, ⟨hnode, ht, hf⟩, p, hp => by
    rw [collectTree_node, ← List.singleton_append, lastOn_append, lastOn_append, lastOn_singleton] at hp
    -- the false branch is last, then the true one; the node is the last only where both avoid the field
    cases hlastf : lastOn field (collectTree [] f) with
    | some q =>
      rw [hlastf] at hp
      cases hp
      have hfree := hf.last_free hlastf
      exact hfree
    | none =>
      rw [hlastf] at hp
      cases hlastt : lastOn field (collectTree [] t) with
      | some q =>
        rw [hlastt] at hp
        cases hp
        have hfree := ht.last_free hlastt
        exact hfree
      | none =>
        rw [hlastt] at hp
        simp only [Option.map_none, Option.none_or, Option.ite_none_right_eq_some, Option.some.injEq] at hp
        obtain ⟨hfield, rfl⟩ := hp
        obtain ⟨htrue, hfalse⟩ := hnode hfield
        exact ⟨htrue (avoids_of_none (lastOn_eq_none.1 hlastt)), hfalse (avoids_of_none (lastOn_eq_none.1 hlastf))⟩

end

/-! ## Scenarios without a number -/

section

variable {rule : RuleIR} {globalSeed : UInt64} {fuzzExtra : Nat} {field : String}

theorem conditions_eq (rule : RuleIR) :
    (Catalog.fromRule rule).conditions = checks rule ++ collectTree [] rule.decisionTree := collectTree_eq _ _

theorem lastNumber_map {g : Condition → Bool} {cs : List Condition} :
    lastNumber field (cs.map fun c => (c.field, g c)) = false ↔ ∀ p, lastOn field cs = some p → g p.1 = false := by
  rw [lastNumber, lastOn_map]
  cases lastOn field cs with
  | none => simp
  | some p => simp

/-- Where a scenario of a path has no number, neither have the facts that make every condition true. -/
theorem anchor_free (hnodes : NodesFree field rule.decisionTree)
    (hchecks : Avoids field rule.decisionTree → ∀ p, lastOn field (checks rule) = some p → trueNumber p.1 = false) :
    lastNumber field (anchor rule) = false := by
  rw [anchor, lastNumber_append, lastOn_map, conditions_eq, lastOn_append]
  cases htree : lastOn field (collectTree [] rule.decisionTree) with
  | some q => exact (hnodes.last_free htree).1
  | none =>
    have hfree := hchecks (avoids_of_none (lastOn_eq_none.1 htree))
    rw [Option.map_none, Option.none_or]
    cases hscope : lastOn field (checks rule) with
    | some p => exact hfree p hscope
    | none => exact lastNumber_map.2 hfree

/-- A draw gives the field a number only through the last check on it, where the tree leaves it alone. -/
theorem draws_free (hnodes : NodesFree field rule.decisionTree)
    (hchecks : Avoids field rule.decisionTree → ∀ p, lastOn field (checks rule) = some p → trueNumber p.1 = false) :
    (∀ n ∈ List.range fuzzExtra, lastNumber field (drawnNumbers (ruleSeed globalSeed rule.ruleId)
      (n * (Catalog.fromRule rule).conditions.length) (Catalog.fromRule rule).conditions) = false) ↔
      ((∀ c ∈ collectTree [] rule.decisionTree, c.field ≠ field) → ∀ p, lastOn field (checks rule) = some p →
        FalseDrawn rule globalSeed fuzzExtra p.2 → falseNumber p.1 = false) := by
  have hdraw : ∀ (draw : Nat) (c : Condition), trueNumber c = false → (draw = 1 → falseNumber c = false) →
      drawNumber draw c = false := by
    intro draw c htrue hfalse
    unfold drawNumber
    split
    · exact hfalse rfl
    · rfl
    · rfl
    · exact htrue
  simp only [lastNumber, lastOn_drawn, List.mem_range]
  rw [show lastOn field (Catalog.fromRule rule).conditions = _ from (congrArg _ (conditions_eq rule)).trans
    (lastOn_append _ _)]
  cases htree : lastOn field (collectTree [] rule.decisionTree) with
  | some q =>
    -- a node comes after every check, and gives no number either way
    obtain ⟨htrue, hfalse⟩ := hnodes.last_free htree
    refine iff_of_true (fun n _ => ?_) fun hnone => ?_
    · rw [Option.map_some, Option.some_or, Option.map_some, Option.getD_some]
      exact hdraw _ _ htrue fun _ => hfalse
    · rw [lastOn_eq_none.2 hnone] at htree
      cases htree
  | none =>
    -- only checks are on the field, and the last of them is free where it is made true
    have hnone := lastOn_eq_none.1 htree
    have htrue := hchecks (avoids_of_none hnone)
    rw [Option.map_none, Option.none_or]
    constructor
    · intro h _ p hp hdrawn
      obtain ⟨n, hn, hone⟩ := hdrawn
      have hnumber := h n hn
      rw [hp, Option.map_some, Option.getD_some, hone] at hnumber
      exact hnumber
    · intro h n hn
      cases hp : lastOn field (checks rule) with
      | none => rw [Option.map_none, Option.getD_none]
      | some p =>
        rw [Option.map_some, Option.getD_some]
        exact hdraw _ _ (htrue p hp) fun hone => h hnone p hp ⟨n, hn, hone⟩

theorem numbersOn_iff :
    (∀ b ∈ numbersOn field rule globalSeed fuzzExtra, b = false) ↔ NumberFree rule globalSeed fuzzExtra field := by
  have hafter : ∀ {writes : List (String × Bool)}, lastNumber field (anchor rule) = false →
      (∀ p ∈ writes, p.1 = field → p.2 = false) → lastNumber field (anchor rule ++ writes) = false := by
    intro writes hanchor hwrites
    rw [lastNumber_append]
    cases hlast : Layers.last field writes with
    | none => exact hanchor
    | some b =>
      obtain ⟨before, after, rfl, -⟩ := Layers.last_eq_some.1 hlast
      exact hwrites (field, b) (List.mem_append_right _ List.mem_cons_self) rfl
  unfold numbersOn
  simp only [List.forall_mem_append, List.forall_mem_map, paths_free, lastNumber_map]
  -- the first field missing or of a wrong type and the irrelevant facts only write over the anchor
  constructor
  · rintro ⟨⟨⟨⟨⟨⟨hnodes, hchecks⟩, hrefuted⟩, hordering⟩, -⟩, -⟩, hdrawn⟩
    refine ⟨fun c hc hfield hop => ?_, hnodes, hchecks, fun p hp => ?_, (draws_free hnodes hchecks).1 hdrawn⟩
    · have hnumber := hordering _ (List.mem_flatMap.2
        ⟨c, List.mem_filter.2 ⟨hc, hop⟩, List.mem_replicate.2 ⟨by decide, rfl⟩⟩)
      rw [lastNumber_append, Layers.last, if_pos hfield] at hnumber
      exact hnumber
    · cases hscope : rule.appliesIf with
      | none =>
        rw [refuted, hscope] at hp
        cases hp
      | some group =>
        rw [hscope] at hrefuted
        exact lastNumber_map.1 (hrefuted _ List.mem_cons_self) p hp
  · rintro ⟨hordering, hnodes, hchecks, hrefuted, hdrawn⟩
    have hanchor := anchor_free hnodes hchecks
    refine ⟨⟨⟨⟨⟨⟨hnodes, hchecks⟩, ?_⟩, ?_⟩, ?_⟩, ?_⟩, (draws_free hnodes hchecks).2 hdrawn⟩
    · intro b hb
      split at hb
      · rw [List.mem_singleton.1 hb]
        exact lastNumber_map.2 hrefuted
      · cases hb
    · intro b hb
      obtain ⟨c, hc, hb⟩ := List.mem_flatMap.1 hb
      obtain ⟨hc, hop⟩ := List.mem_filter.1 hc
      rw [List.eq_of_mem_replicate hb]
      refine hafter hanchor fun p hp hfield => ?_
      rw [List.mem_singleton.1 hp] at hfield ⊢
      exact hordering c hc hfield hop
    · intro b hb
      obtain ⟨c, -, hb⟩ := List.mem_flatMap.1 hb
      rw [List.eq_of_mem_replicate hb]
      exact hafter hanchor fun p hp _ => by rw [List.mem_singleton.1 hp]
    · intro b hb
      rw [List.mem_singleton.1 hb]
      refine hafter hanchor fun p hp _ => ?_
      rcases List.mem_cons.1 hp with rfl | hp
      · rfl
      · rw [List.mem_singleton.1 hp]

/-! ## Scenarios without overflow -/

theorem trueFits_of {c : Condition}
    (hordering : Operator.isOrdering c.operator = true → movable (-1) c.value = true ∧ movable 1 c.value = true)
    (hnotEqual : c.operator = .notEq → movable 1 c.value = true) : trueFits c = true := by
  unfold trueFits
  cases hop : c.operator with
  | notEq => exact hnotEqual hop
  | gt => exact (hordering (by rw [hop]; rfl)).2
  | lt => exact (hordering (by rw [hop]; rfl)).1
  | _ => rfl

theorem falseFits_of {c : Condition}
    (hordering : Operator.isOrdering c.operator = true → movable (-1) c.value = true ∧ movable 1 c.value = true)
    (hequal : c.operator = .eq → movable 1 c.value = true) : falseFits c = true := by
  unfold falseFits
  cases hop : c.operator with
  | eq => exact hequal hop
  | gte => exact (hordering (by rw [hop]; rfl)).1
  | lte => exact (hordering (by rw [hop]; rfl)).2
  | _ => rfl

theorem movable_of_trueFits {c : Condition} (h : trueFits c = true) (hop : c.operator = .notEq) :
    movable 1 c.value = true := by
  rwa [trueFits, hop] at h

theorem movable_of_falseFits {c : Condition} (h : falseFits c = true) (hop : c.operator = .eq) :
    movable 1 c.value = true := by
  rwa [falseFits, hop] at h

theorem mem_conditions {c : Condition} : c ∈ (Catalog.fromRule rule).conditions ↔
    c ∈ checks rule ∨ c ∈ collectTree [] rule.decisionTree := by
  rw [conditions_eq, List.mem_append]

theorem mem_checks_of_refuted {c : Condition} (h : c ∈ refuted rule) : c ∈ checks rule := by
  unfold refuted at h
  unfold checks
  cases hscope : rule.appliesIf with
  | none =>
    rw [hscope] at h
    cases h
  | some group =>
    rw [hscope] at h
    simp only at h ⊢
    split at h
    · exact List.mem_of_mem_take h
    · exact h

/-- The draws move what the conditions of the catalog move, and the operands of the checks they make false. -/
theorem draws_fit
    (hordering : ∀ c ∈ (Catalog.fromRule rule).conditions, Operator.isOrdering c.operator = true →
      movable (-1) c.value = true ∧ movable 1 c.value = true)
    (hnotEqual : ∀ c ∈ (Catalog.fromRule rule).conditions, c.operator = .notEq → movable 1 c.value = true)
    (hnodes : ∀ c ∈ collectTree [] rule.decisionTree, c.operator = .eq → movable 1 c.value = true) :
    (∀ n ∈ List.range fuzzExtra, ∀ p ∈ (Catalog.fromRule rule).conditions.zipIdx
      (n * (Catalog.fromRule rule).conditions.length),
        drawFits (drawAt (ruleSeed globalSeed rule.ruleId) p.2) p.1 = true) ↔
      ∀ p ∈ (checks rule).zipIdx, FalseDrawn rule globalSeed fuzzExtra p.2 → p.1.operator = .eq →
        movable 1 p.1.value = true := by
  have hmem : ∀ {p : Condition × Nat}, p ∈ (Catalog.fromRule rule).conditions.zipIdx ↔
      p ∈ (checks rule).zipIdx ∨ p ∈ (collectTree [] rule.decisionTree).zipIdx (checks rule).length := by
    intro p
    rw [conditions_eq, List.zipIdx_append, List.mem_append, Nat.zero_add]
  constructor
  · rintro h p hp ⟨n, hn, hone⟩ hop
    have hdrawn : (p.1, n * (Catalog.fromRule rule).conditions.length + p.2) ∈
        (Catalog.fromRule rule).conditions.zipIdx (n * (Catalog.fromRule rule).conditions.length) := by
      rw [List.zipIdx_eq_map_add]
      exact List.mem_map.2 ⟨p, hmem.2 (.inl hp), rfl⟩
    have hfits := h n (List.mem_range.2 hn) _ hdrawn
    rw [hone] at hfits
    exact movable_of_falseFits hfits hop
  · intro h n hn p hp
    rw [List.zipIdx_eq_map_add] at hp
    obtain ⟨q, hq, rfl⟩ := List.mem_map.1 hp
    have hcondition := List.fst_mem_of_mem_zipIdx hq
    -- only a draw of one asks for more than the conditions made true
    unfold drawFits
    split
    · rename_i hone
      refine falseFits_of (hordering q.1 hcondition) fun hop => ?_
      rcases hmem.1 hq with hq | hq
      · exact h q hq ⟨n, List.mem_range.1 hn, hone⟩ hop
      · exact hnodes q.1 (List.fst_mem_of_mem_zipIdx hq) hop
    · rfl
    · rfl
    · exact trueFits_of (hordering q.1 hcondition) (hnotEqual q.1 hcondition)

theorem noOverflow_iff :
    ((∀ c ∈ checks rule, trueFits c = true) ∧ (∀ c ∈ refuted rule, falseFits c = true) ∧
      (∀ c ∈ collectTree [] rule.decisionTree, trueFits c = true ∧ falseFits c = true) ∧
      (∀ c ∈ (Catalog.fromRule rule).conditions, trueFits c = true) ∧
      (∀ c ∈ orderings rule, ∀ p ∈ [("below", -1), ("at", 0), ("above", 1)], movable p.2 c.value = true) ∧
      (∀ n ∈ List.range fuzzExtra, ∀ p ∈ (Catalog.fromRule rule).conditions.zipIdx
        (n * (Catalog.fromRule rule).conditions.length),
          drawFits (drawAt (ruleSeed globalSeed rule.ruleId) p.2) p.1 = true) ∧ True) ↔
      NoOverflow rule globalSeed fuzzExtra := by
  constructor
  · rintro ⟨-, hrefuted, hnodes, htrue, hmoved, hdraws, -⟩
    have hordering : ∀ c ∈ (Catalog.fromRule rule).conditions, Operator.isOrdering c.operator = true →
        movable (-1) c.value = true ∧ movable 1 c.value = true := by
      intro c hc hop
      have hmoves := hmoved c (List.mem_filter.2 ⟨hc, hop⟩)
      exact ⟨hmoves ("below", -1) (by simp), hmoves ("above", 1) (by simp)⟩
    have hnotEqual := fun c hc => movable_of_trueFits (htrue c hc)
    have hequal := fun c hc => movable_of_falseFits (hnodes c hc).2
    exact ⟨hordering, hnotEqual, hequal, fun c hc => movable_of_falseFits (hrefuted c hc),
      (draws_fit hordering hnotEqual hequal).1 hdraws⟩
  · rintro ⟨hordering, hnotEqual, hequal, hrefuted, hdrawn⟩
    have htrue : ∀ c ∈ (Catalog.fromRule rule).conditions, trueFits c = true :=
      fun c hc => trueFits_of (hordering c hc) (hnotEqual c hc)
    have hat : ∀ v : ScalarValue, movable 0 v = true := by
      intro v
      cases v with
      | decimal mantissa scale =>
        show SInt.fits 128 (mantissa.val + 0) = true
        rw [Int.add_zero]
        exact decide_eq_true ⟨mantissa.lo, mantissa.hi⟩
      | _ => rfl
    refine ⟨fun c hc => htrue c (mem_conditions.2 (.inl hc)), fun c hc => ?_, fun c hc => ?_, htrue,
      fun c hc p hp => ?_, (draws_fit hordering hnotEqual hequal).2 hdrawn, trivial⟩
    · exact falseFits_of (hordering c (mem_conditions.2 (.inl (mem_checks_of_refuted hc)))) (hrefuted c hc)
    · have hcondition := mem_conditions.2 (.inr hc)
      exact ⟨htrue c hcondition, falseFits_of (hordering c hcondition) (hequal c hc)⟩
    · obtain ⟨hc, hop⟩ := List.mem_filter.1 hc
      obtain ⟨hbelow, habove⟩ := hordering c hc hop
      simp only [List.mem_cons, List.not_mem_nil, or_false] at hp
      rcases hp with rfl | rfl | rfl
      · exact hbelow
      · exact hat c.value
      · exact habove

/-- The generator keeps its promise exactly when no mantissa that it moves is at the end of its range and no
field of a membership test ends with a number. -/
theorem generatesSafely_iff {X : JsonFloats} (hX : DecimalsFinite X) (rule : RuleIR) (globalSeed : UInt64)
    (fuzzExtra : Nat) : GeneratesSafely X rule globalSeed fuzzExtra ↔ NoOverflow rule globalSeed fuzzExtra ∧
      ∀ field ∈ (Catalog.fromRule rule).inFields, NumberFree rule globalSeed fuzzExtra field := by
  have hgives := fun field => generateForRule_gives hX field rule globalSeed fuzzExtra
  have hnumbers : ∀ field, ∀ scenarios, generateForRule X rule globalSeed fuzzExtra = some scenarios →
      ((∀ s ∈ scenarios, numberAt field s.facts = false) ↔ NumberFree rule globalSeed fuzzExtra field) := by
    intro field scenarios h
    rw [← numbersOn_iff, ← ((hgives field).of_some scenarios h).2, List.forall_mem_map]
  unfold GeneratesSafely
  rw [← noOverflow_iff]
  constructor
  · rintro ⟨scenarios, h, hsafe⟩
    refine ⟨((hgives "").of_some scenarios h).1, fun field hfield => (hnumbers field scenarios h).1 ?_⟩
    exact fun s hs => hsafe s hs field hfield
  · rintro ⟨hfits, hfree⟩
    obtain ⟨scenarios, h⟩ := (hgives "").exists_some hfits
    exact ⟨scenarios, h, fun s hs field hfield => (hnumbers field scenarios h).2 (hfree field hfield) s hs⟩

end

/-! ## Two rules -/

/-- Floats with rounding, each finite. -/
def nearestJson : JsonFloats := { nearestFloats with isFinite := fun _ => true }

/-- A region as text, in a list of texts. -/
def regionRule : RuleIR :=
  .bare "r" none
    (.node "n" ⟨"region", .in, .list [.str "EU", .str "UK"], none⟩ (.result "permit") (.result "deny") none)

theorem generatesSafely_iff_regionRule : GeneratesSafely nearestJson regionRule 7 2 ↔ NoOverflow regionRule 7 2 ∧
    ∀ field ∈ (Catalog.fromRule regionRule).inFields, NumberFree regionRule 7 2 field :=
  generatesSafely_iff ⟨fun _ => rfl, fun _ _ => rfl⟩ regionRule 7 2

/-- `applies_if: {all: [{field: amount, operator: <op>, value: <value>}]}` -/
def amountScope (op : String) (value : Compiler.YamlNode) : Compiler.YamlNode :=
  .mapping [("all", .sequence [.mapping [("field", .plain "amount"), ("operator", .plain op), ("value", value)]])]

def plainScalar (text : String) : Compiler.YamlNode := .scalar ⟨text, true, none⟩

/-- An amount in a list of numbers is given one of them, and a threshold at the end of the range is moved
over it. -/
theorem generator_breaks_promise :
    (∃ rule, Compiler.compileRule (Compiler.scopedDocument (amountScope "in"
        (.sequence [plainScalar "1", plainScalar "2"]))) = .ok rule ∧
      (generateForRule nearestJson rule 0 0).isSome = true ∧ ¬ GeneratesSafely nearestJson rule 0 0) ∧
    ∃ rule, Compiler.compileRule (Compiler.scopedDocument (amountScope ">"
        (plainScalar "170141183460469231731687303715884105727"))) = .ok rule ∧
      generateForRule nearestJson rule 0 0 = none ∧ ¬ GeneratesSafely nearestJson rule 0 0 := by
  constructor
  · have hrun : ((Compiler.compileRule (Compiler.scopedDocument (amountScope "in"
        (.sequence [plainScalar "1", plainScalar "2"])))).toOption.any fun rule =>
          (generateForRule nearestJson rule 0 0).any fun scenarios => scenarios.any fun s =>
            (Catalog.fromRule rule).inFields.any fun field => numberAt field s.facts) = true := by
      decide +kernel
    obtain ⟨rule, hrule, hrun⟩ := exists_ok_and hrun
    obtain ⟨scenarios, hgenerate, hrun⟩ := Option.any_eq_true _ _ |>.1 hrun
    obtain ⟨s, hs, hrun⟩ := List.any_eq_true.1 hrun
    obtain ⟨field, hfield, hnumber⟩ := List.any_eq_true.1 hrun
    refine ⟨rule, hrule, by rw [hgenerate]; rfl, ?_⟩
    rintro ⟨scenarios', h, hsafe⟩
    cases hgenerate.symm.trans h
    rw [hsafe s hs field hfield] at hnumber
    cases hnumber
  · have hrun : ((Compiler.compileRule (Compiler.scopedDocument (amountScope ">"
        (plainScalar "170141183460469231731687303715884105727")))).toOption.any fun rule =>
          (generateForRule nearestJson rule 0 0).isNone) = true := by
      decide +kernel
    obtain ⟨rule, hrule, hrun⟩ := exists_ok_and hrun
    have hnone := Option.isNone_iff_eq_none.1 hrun
    refine ⟨rule, hrule, hnone, ?_⟩
    rintro ⟨scenarios, h, -⟩
    cases hnone.symm.trans h

end Ke.Runtime
