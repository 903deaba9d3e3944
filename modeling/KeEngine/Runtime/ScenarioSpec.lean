/-
What each function of the generator gives: when its arithmetic stays in range, and which of the values that it
writes are numbers. A scenario then has a number on a field exactly when the last write to it is one.
-/
import KeEngine.Prog.Gives
import KeEngine.Runtime.Scenario

namespace Ke.Runtime

open Ke Wire Ke.T4

/-! ## Numbers in facts -/

/-- A number, or a list with one in it. -/
def Json.hasNumber {F : Type} : Json F → Bool
  | .int _ => true
  | .float _ => true
  | .array items => hasNumbers items
  | _ => false
where
  hasNumbers : List (Json F) → Bool
    | [] => false
    | v :: vs => hasNumber v || hasNumbers vs

/-- The facts give the field a number. -/
def numberAt {F : Type} (field : String) (facts : List (String × Json F)) : Bool :=
  (facts.lookup field).any (·.hasNumber)

/-- Integers of 128 bits and exact decimals are finite as floats. -/
structure DecimalsFinite (X : JsonFloats) : Prop where
  ofInt : ∀ i : I128, X.isFinite (X.ofInt i.val) = true
  decimal : ∀ mantissa scale, X.isFinite (decimalToF64 X.toFloats mantissa scale) = true

/-! ## Operands -/

/-- A decimal, or a list with one in it. -/
def hasDecimal : ScalarValue → Bool
  | .decimal _ _ => true
  | .list items => haveDecimal items
  | _ => false
where
  haveDecimal : List ScalarValue → Bool
    | [] => false
    | v :: vs => hasDecimal v || haveDecimal vs

def isDecimal : ScalarValue → Bool
  | .decimal _ _ => true
  | _ => false

/-- The first member of a list is a decimal, or has one in it. -/
def firstDecimal : ScalarValue → Bool
  | .list (v :: _) => hasDecimal v
  | _ => false

/-- Moving the operand stays in the range of its mantissa. -/
def movable (delta : Int) : ScalarValue → Bool
  | .decimal mantissa _ => SInt.fits 128 (mantissa.val + delta)
  | _ => true

/-- The value that makes the condition true is a number, or has one in it. -/
def trueNumber (c : Condition) : Bool :=
  match c.operator with
  | .notEq => isDecimal c.value
  | .in => firstDecimal c.value
  | .notIn | .exists => false
  | _ => hasDecimal c.value

/-- The value that makes the condition false is a number, or has one in it. -/
def falseNumber (c : Condition) : Bool :=
  match c.operator with
  | .eq => isDecimal c.value
  | .notIn => firstDecimal c.value
  | .in | .exists => false
  | _ => hasDecimal c.value

def trueFits (c : Condition) : Bool :=
  match c.operator with
  | .notEq | .gt => movable 1 c.value
  | .lt => movable (-1) c.value
  | _ => true

def falseFits (c : Condition) : Bool :=
  match c.operator with
  | .eq | .lte => movable 1 c.value
  | .gte => movable (-1) c.value
  | _ => true

/-! ## Values -/

def Gen.hasNumber {F : Type} (g : Gen F) : Bool := g.value.any (·.hasNumber)

section

variable {X : JsonFloats}

theorem decimalJson_hasNumber (hX : DecimalsFinite X) (mantissa : I128) (scale : I8) :
    (decimalJson X mantissa scale).hasNumber = true := by
  have hfloat : ∀ {f : X.F}, X.isFinite f = true → (floatJson X f).hasNumber = true := by
    intro f hf
    rw [floatJson, if_pos hf]
    rfl
  unfold decimalJson
  split
  · split
    · rfl
    · exact hfloat (hX.ofInt mantissa)
  · exact hfloat (hX.decimal mantissa scale)

mutual

theorem operandToJson_hasNumber (hX : DecimalsFinite X) : ∀ v, (operandToJson X v).hasNumber = hasDecimal v
  | .str _ => rfl
  | .bool _ => rfl
  | .decimal mantissa scale => decimalJson_hasNumber hX mantissa scale
  | .list items => operandsToJson_hasNumbers hX items

theorem operandsToJson_hasNumbers (hX : DecimalsFinite X) : ∀ vs,
    Json.hasNumber.hasNumbers (operandToJson.operandsToJson X vs) = hasDecimal.haveDecimal vs
  | [] => rfl
  | v :: vs => congrArg₂ or (operandToJson_hasNumber hX v) (operandsToJson_hasNumbers hX vs)

end

theorem firstMember_hasNumber (hX : DecimalsFinite X) (v : ScalarValue) :
    (firstMember X v).hasNumber = firstDecimal v := by
  cases v with
  | list items =>
    cases items with
    | nil => rfl
    | cons v vs => exact operandToJson_hasNumber hX v
  | _ => rfl

theorem addI128_gives (mantissa : I128) (delta : Int) {b : Unit} :
    Gives (addI128 mantissa delta) (SInt.fits 128 (mantissa.val + delta) = true) (fun _ => b) b := by
  unfold addI128 SInt.ofInt? SInt.fits
  rw [decide_eq_true_iff]
  split
  · rename_i h
    exact Gives.ofSome h rfl
  · rename_i h
    refine ⟨fun hfits => absurd hfits h, fun a ha => ?_⟩
    cases ha

theorem shift_gives (hX : DecimalsFinite X) (v : ScalarValue) (delta : Int) :
    Gives (shift X v delta) (movable delta v = true) Json.hasNumber (hasDecimal v) := by
  cases v with
  | decimal mantissa scale =>
    exact (addI128_gives mantissa delta (b := ())).map fun m _ => decimalJson_hasNumber hX m scale
  | list items => exact Gives.ofSome rfl (operandToJson_hasNumber hX _)
  | _ => exact Gives.ofSome rfl rfl

theorem different_gives (hX : DecimalsFinite X) (v : ScalarValue) :
    Gives (different X v) (movable 1 v = true) Json.hasNumber (isDecimal v) := by
  cases v with
  | decimal mantissa scale =>
    exact (addI128_gives mantissa 1 (b := ())).map fun m _ => decimalJson_hasNumber hX m scale
  | _ => exact Gives.ofSome rfl rfl

theorem set_gives {x : Option (Json X.F)} {fits : Prop} {number : Bool} (h : Gives x fits Json.hasNumber number) :
    Gives (x.map Gen.set) fits Gen.hasNumber number := h.map fun _ hv => hv

theorem valueTrue_gives (hX : DecimalsFinite X) (c : Condition) :
    Gives (valueTrue X c.operator c.value) (trueFits c = true) Gen.hasNumber (trueNumber c) := by
  have hplain : ∀ {v : Json X.F} {number : Bool}, v.hasNumber = number →
      Gives (some (Gen.set v)) (true = true) Gen.hasNumber number :=
    fun hv => Gives.ofSome rfl hv
  unfold valueTrue trueFits trueNumber
  cases c.operator with
  | notEq => exact set_gives (different_gives hX c.value)
  | gt => exact set_gives (shift_gives hX c.value 1)
  | lt => exact set_gives (shift_gives hX c.value (-1))
  | «in» => exact hplain (firstMember_hasNumber hX c.value)
  | notIn => exact hplain rfl
  | «exists» => exact hplain rfl
  | eq => exact hplain (operandToJson_hasNumber hX c.value)
  | gte => exact hplain (operandToJson_hasNumber hX c.value)
  | lte => exact hplain (operandToJson_hasNumber hX c.value)

theorem valueFalse_gives (hX : DecimalsFinite X) (c : Condition) :
    Gives (valueFalse X c.operator c.value) (falseFits c = true) Gen.hasNumber (falseNumber c) := by
  have hplain : ∀ {g : Gen X.F} {number : Bool}, g.hasNumber = number →
      Gives (some g) (true = true) Gen.hasNumber number :=
    fun hv => Gives.ofSome rfl hv
  unfold valueFalse falseFits falseNumber
  cases c.operator with
  | eq => exact set_gives (different_gives hX c.value)
  | gte => exact set_gives (shift_gives hX c.value (-1))
  | lte => exact set_gives (shift_gives hX c.value 1)
  | «in» => exact hplain rfl
  | notIn => exact hplain (firstMember_hasNumber hX c.value)
  | «exists» => exact hplain rfl
  | notEq => exact hplain (operandToJson_hasNumber hX c.value)
  | gt => exact hplain (operandToJson_hasNumber hX c.value)
  | lt => exact hplain (operandToJson_hasNumber hX c.value)

end

/-! ## Layers -/

/-- Which of the pairs give a number. -/
def numbered {F : Type} (pairs : List (String × Gen F)) : List (String × Bool) :=
  pairs.map fun p => (p.1, p.2.hasNumber)

/-- The last of the writes to the field gives it a number. -/
def lastNumber (field : String) (writes : List (String × Bool)) : Bool := (Layers.last field writes).getD false

theorem numberAt_buildFacts {F : Type} (field : String) (layers : List (List (String × Gen F))) :
    numberAt field (buildFacts layers) = lastNumber field (layers.flatMap numbered) := by
  have hfacts : buildFacts layers = (layers.flatten.map fun p => (p.1, p.2.value)).foldl Layers.write [] := by
    rw [List.foldl_map, List.foldl_flatten]
    rfl
  have hnumbers : layers.flatMap numbered = layers.flatten.map fun p => (p.1, p.2.hasNumber) := by
    rw [List.map_flatten]
    rfl
  rw [numberAt, hfacts, Layers.lookup_foldl_write, Layers.last_map, lastNumber, hnumbers, Layers.last_map]
  cases Layers.last field layers.flatten with
  | none => rfl
  | some g => rfl

/-- The checks that are made false where the rule is to be out of scope: the first of `all`, each of `any`. -/
def refuted (rule : RuleIR) : List Condition :=
  match rule.appliesIf with
  | none => []
  | some group =>
    match groupMode group.all with
    | .all => (flatten group).take 1
    | .any => flatten group

section

variable {X : JsonFloats}

theorem writesOf_gives {value : Operator → ScalarValue → Option (Gen X.F)} {fits number : Condition → Bool}
    (h : ∀ c : Condition, Gives (value c.operator c.value) (fits c = true) Gen.hasNumber (number c))
    (cs : List Condition) :
    Gives (writesOf X value cs) (∀ c ∈ cs, fits c = true) numbered (cs.map fun c => (c.field, number c)) :=
  Gives.mapM (fun c => (h c).map fun _ hg => congrArg (Prod.mk c.field) hg) cs

theorem checks_gives (hX : DecimalsFinite X) (rule : RuleIR) :
    Gives (applicabilityPairs X rule true) (∀ c ∈ checks rule, trueFits c = true) numbered
      ((checks rule).map fun c => (c.field, trueNumber c)) := by
  have hwrites := writesOf_gives (valueTrue_gives hX)
  unfold applicabilityPairs checks
  cases rule.appliesIf with
  | none => exact hwrites []
  | some group =>
    simp only
    cases flatten group with
    | nil => exact hwrites []
    | cons c cs => exact hwrites (c :: cs)

theorem refuted_gives (hX : DecimalsFinite X) (rule : RuleIR) :
    Gives (applicabilityPairs X rule false) (∀ c ∈ refuted rule, falseFits c = true) numbered
      ((refuted rule).map fun c => (c.field, falseNumber c)) := by
  have hwrites := writesOf_gives (valueFalse_gives hX)
  unfold applicabilityPairs refuted
  cases rule.appliesIf with
  | none => exact hwrites []
  | some group =>
    simp only
    cases flatten group with
    | nil => cases groupMode group.all <;> exact hwrites []
    | cons c cs =>
      cases groupMode group.all with
      | all => exact hwrites [c]
      | any => exact hwrites (c :: cs)

/-- The paths of a tree, and which of their values are numbers. -/
def pathNumbers : DecisionEntry → List (List (String × Bool))
  | .leaf _ => [[]]
  | .node _ c t f _ =>
    (pathNumbers t).map ((c.field, trueNumber c) :: ·) ++ (pathNumbers f).map ((c.field, falseNumber c) :: ·)

theorem numbered_snoc {F : Type} (taken : List (String × Gen F)) (field : String) (g : Gen F) :
    numbered (taken ++ [(field, g)]) = numbered taken ++ [(field, g.hasNumber)] := List.map_append

theorem walkPaths_gives (hX : DecimalsFinite X) : ∀ (e : DecisionEntry) (taken : List (String × Gen X.F))
    (out : List (List (String × Gen X.F))),
    Gives (walkPaths X e taken out) (∀ c ∈ collectTree [] e, trueFits c = true ∧ falseFits c = true)
      (List.map numbered) (out.map numbered ++ (pathNumbers e).map (numbered taken ++ ·))
  | .leaf _, taken, out => by
    refine Gives.ofSome (fun c hc => absurd hc List.not_mem_nil) ?_
    rw [List.map_append, pathNumbers, List.map_singleton, List.map_singleton, List.append_nil]
  | .node i c t f s, taken, out => by
    -- the paths of the false branch come after those of the true one, whatever these are
    have hfalse : ∀ out' : List (List (String × Gen X.F)),
        Gives ((valueFalse X c.operator c.value).bind fun g => walkPaths X f (taken ++ [(c.field, g)]) out')
          (falseFits c = true ∧ ∀ d ∈ collectTree [] f, trueFits d = true ∧ falseFits d = true) (List.map numbered)
          (out'.map numbered ++ (pathNumbers f).map (numbered taken ++ [(c.field, falseNumber c)] ++ ·)) := by
      intro out'
      refine (valueFalse_gives hX c).bind fun g hg => ?_
      rw [← hg, ← numbered_snoc]
      exact walkPaths_gives hX f _ out'
    have hboth := (valueTrue_gives hX c).bind fun g hg =>
      (walkPaths_gives hX t (taken ++ [(c.field, g)]) out).bind fun out' hout' => by
        have hrest := hfalse out'
        rw [hout', numbered_snoc, hg] at hrest
        exact hrest
    refine hboth.congr ?_ ?_
    · rw [collectTree_node, List.forall_mem_cons, List.forall_mem_append]
      constructor
      · rintro ⟨htrue, ht, hfalse, hf⟩
        exact ⟨⟨htrue, hfalse⟩, ht, hf⟩
      · rintro ⟨⟨htrue, hfalse⟩, ht, hf⟩
        exact ⟨htrue, ht, hfalse, hf⟩
    · simp [pathNumbers, Function.comp_def]

theorem enumeratePaths_gives (hX : DecimalsFinite X) (tree : DecisionEntry) :
    Gives (enumeratePaths X tree) (∀ c ∈ collectTree [] tree, trueFits c = true ∧ falseFits c = true)
      (List.map numbered) (pathNumbers tree) :=
  (walkPaths_gives hX tree [] []).congr Iff.rfl (List.map_id _)

end

/-! ## Draws -/

/-- The generator of random numbers after `k` of them. -/
def rngAt (seed : UInt64) (k : Nat) : Rng := (fun rng => (Rng.nextU64 rng).2)^[k] ⟨seed⟩

/-- The number drawn after `k` others. -/
def drawAt (seed : UInt64) (k : Nat) : Nat := ((rngAt seed k).below 5).1

theorem below_snd (rng : Rng) (n : Nat) : (rng.below n).2 = rng.nextU64.2 := rfl

theorem below_rngAt (seed : UInt64) (k n : Nat) : ((rngAt seed k).below n).2 = rngAt seed (k + 1) := by
  rw [below_snd, rngAt, rngAt, Function.iterate_succ_apply']

def drawNumber (draw : Nat) (c : Condition) : Bool :=
  match draw with
  | 1 => falseNumber c
  | 2 | 3 => false
  | _ => trueNumber c

def drawFits (draw : Nat) (c : Condition) : Bool :=
  match draw with
  | 1 => falseFits c
  | 2 | 3 => true
  | _ => trueFits c

section

variable {X : JsonFloats}

theorem wrongType_hasNumber (operand : ScalarValue) (isInField : Bool) :
    (Gen.set (wrongType X operand isInField)).hasNumber = false := by
  unfold wrongType
  split <;> rfl

theorem fuzzValue_gives (hX : DecimalsFinite X) (rng : Rng) (c : Condition) (isInField : Bool) :
    Gives (fuzzValue X rng c isInField).1 (drawFits (rng.below 5).1 c = true) Gen.hasNumber
      (drawNumber (rng.below 5).1 c) := by
  unfold fuzzValue drawFits drawNumber
  simp only
  -- the draw decides, not how it came about
  generalize (rng.below 5).1 = draw
  match draw with
  | 0 => exact valueTrue_gives hX c
  | 1 => exact valueFalse_gives hX c
  | 2 => exact Gives.ofSome rfl rfl
  | 3 => exact Gives.ofSome rfl (wrongType_hasNumber c.value isInField)
  | _ + 4 => exact valueTrue_gives hX c

/-- What is drawn for conditions, the first of them after `k` numbers. -/
def drawnNumbers (seed : UInt64) (k : Nat) (cs : List Condition) : List (String × Bool) :=
  (cs.zipIdx k).map fun p => (p.1.field, drawNumber (drawAt seed p.2) p.1)

theorem fuzzPairs_cons (inFields : List String) (rng : Rng) (c : Condition) (cs : List Condition) :
    fuzzPairs X inFields rng (c :: cs) =
      ((fuzzValue X rng c (inFields.contains c.field)).1.bind fun g =>
        (fuzzPairs X inFields (rng.below 5).2 cs).1.map fun pairs => (c.field, g) :: pairs,
      (fuzzPairs X inFields (rng.below 5).2 cs).2) := rfl

theorem fuzzPairs_gives (hX : DecimalsFinite X) (seed : UInt64) (inFields : List String) :
    ∀ (cs : List Condition) (k : Nat),
    Gives (fuzzPairs X inFields (rngAt seed k) cs).1 (∀ p ∈ cs.zipIdx k, drawFits (drawAt seed p.2) p.1 = true)
        numbered (drawnNumbers seed k cs) ∧
      (fuzzPairs X inFields (rngAt seed k) cs).2 = rngAt seed (k + cs.length)
  | [], k => ⟨Gives.ofSome (fun _ hp => absurd hp List.not_mem_nil) rfl, rfl⟩
  | c :: cs, k => by
    obtain ⟨hpairs, hrng⟩ := fuzzPairs_gives hX seed inFields cs (k + 1)
    rw [fuzzPairs_cons, below_rngAt]
    constructor
    · rw [List.zipIdx_cons, List.forall_mem_cons, drawAt]
      refine (fuzzValue_gives hX (rngAt seed k) c (inFields.contains c.field)).bind fun g hg =>
        hpairs.map fun pairs hpairs => ?_
      rw [drawnNumbers, List.zipIdx_cons, List.map_cons, ← drawnNumbers, ← hpairs, drawAt, ← hg]
      rfl
    · rw [hrng, List.length_cons, Nat.add_right_comm, Nat.add_assoc]

theorem fuzzScenarios_gives (hX : DecimalsFinite X) (seed : UInt64) (field : String) (rule : RuleIR) (cat : Catalog) :
    ∀ extra n : Nat, Gives (fuzzScenarios X rule cat extra n (rngAt seed (n * cat.conditions.length)))
      (∀ j ∈ List.range' n extra, ∀ p ∈ cat.conditions.zipIdx (j * cat.conditions.length),
        drawFits (drawAt seed p.2) p.1 = true)
      (List.map fun s => numberAt field s.facts)
      ((List.range' n extra).map fun j =>
        lastNumber field (drawnNumbers seed (j * cat.conditions.length) cat.conditions))
  | 0, n => Gives.ofSome (fun _ hj => absurd hj List.not_mem_nil) rfl
  | extra + 1, n => by
    obtain ⟨hpairs, hrng⟩ := fuzzPairs_gives hX seed cat.inFields cat.conditions (n * cat.conditions.length)
    have hrest := fuzzScenarios_gives hX seed field rule cat extra (n + 1)
    rw [Nat.succ_mul] at hrest
    unfold fuzzScenarios
    simp only [hrng]
    rw [List.range'_succ, List.map_cons, List.forall_mem_cons]
    -- this scenario, and the rest from the generator that it leaves
    refine hpairs.bind fun pairs hp => hrest.map fun rest hr => ?_
    rw [List.map_cons, numberAt_buildFacts, hr, List.flatMap_singleton, hp]

end

/-! ## The scenarios of a rule -/

/-- The writes of facts that make every condition true. -/
def anchor (rule : RuleIR) : List (String × Bool) :=
  (checks rule).map (fun c => (c.field, trueNumber c)) ++
    (Catalog.fromRule rule).conditions.map fun c => (c.field, trueNumber c)

def orderings (rule : RuleIR) : List Condition :=
  (Catalog.fromRule rule).conditions.filter fun c => Operator.isOrdering c.operator

/-- Which of the scenarios give the field a number, in their order. -/
def numbersOn (field : String) (rule : RuleIR) (globalSeed : UInt64) (fuzzExtra : Nat) : List Bool :=
  (pathNumbers rule.decisionTree).map (fun path =>
    lastNumber field ((checks rule).map (fun c => (c.field, trueNumber c)) ++ path)) ++
  (if rule.appliesIf.isSome then [lastNumber field ((refuted rule).map fun c => (c.field, falseNumber c))] else []) ++
  (orderings rule).flatMap (fun c =>
    List.replicate 3 (lastNumber field (anchor rule ++ [(c.field, hasDecimal c.value)]))) ++
  (Catalog.fromRule rule).conditions.head?.toList.flatMap (fun c =>
    List.replicate 2 (lastNumber field (anchor rule ++ [(c.field, false)]))) ++
  [lastNumber field (anchor rule ++ [("__irrelevant_a", false), ("__irrelevant_b", false)])] ++
  (List.range fuzzExtra).map fun n => lastNumber field (drawnNumbers (ruleSeed globalSeed rule.ruleId)
    (n * (Catalog.fromRule rule).conditions.length) (Catalog.fromRule rule).conditions)

section

variable {X : JsonFloats}

theorem boundaryScenarios_gives (hX : DecimalsFinite X) (field : String) (rule : RuleIR)
    {applTrue allTrue : List (String × Gen X.F)} (hanchor : numbered applTrue ++ numbered allTrue = anchor rule) :
    Gives (boundaryScenarios X rule (Catalog.fromRule rule) applTrue allTrue)
      (∀ c ∈ orderings rule, ∀ p ∈ [("below", -1), ("at", 0), ("above", 1)], movable p.2 c.value = true)
      (List.map fun s => numberAt field s.facts)
      ((orderings rule).flatMap fun c =>
        List.replicate 3 (lastNumber field (anchor rule ++ [(c.field, hasDecimal c.value)]))) := by
  have hone : ∀ (c : Condition) (p : String × Int), Gives ((shift X c.value p.2).map fun v =>
      (⟨rule.ruleId, s!"boundary:{c.field}:{p.1}", buildFacts [applTrue, allTrue, [(c.field, .set v)]]⟩ : Scenario X.F))
      (movable p.2 c.value = true) (fun s => numberAt field s.facts)
      (lastNumber field (anchor rule ++ [(c.field, hasDecimal c.value)])) := by
    intro c p
    refine (shift_gives hX c.value p.2).map fun v hv => ?_
    rw [numberAt_buildFacts, ← hanchor, ← hv, List.append_assoc]
    rfl
  have hall := Gives.mapM (fun c => Gives.mapM (hone c) [("below", -1), ("at", 0), ("above", 1)]) (orderings rule)
  refine (hall.bind fun scenarios hscenarios => Gives.ofSome trivial ?_).congr (and_iff_left trivial) rfl
  rw [List.map_flatten, hscenarios]
  rfl

theorem firstFieldScenarios_numbers (field : String) (rule : RuleIR)
    {applTrue allTrue : List (String × Gen X.F)} (hanchor : numbered applTrue ++ numbered allTrue = anchor rule) :
    (firstFieldScenarios X rule (Catalog.fromRule rule) applTrue allTrue).map (fun s => numberAt field s.facts) =
      (Catalog.fromRule rule).conditions.head?.toList.flatMap fun c =>
        List.replicate 2 (lastNumber field (anchor rule ++ [(c.field, false)])) := by
  unfold firstFieldScenarios
  cases (Catalog.fromRule rule).conditions.head? with
  | none => rfl
  | some c =>
    have hlast : ∀ g : Gen X.F, g.hasNumber = false → numberAt field (buildFacts [applTrue, allTrue, [(c.field, g)]]) =
        lastNumber field (anchor rule ++ [(c.field, false)]) := by
      intro g hg
      rw [numberAt_buildFacts, ← hanchor, ← hg, List.append_assoc]
      rfl
    exact congrArg₂ (fun a b => [a, b]) (hlast .absent rfl) (hlast _ (wrongType_hasNumber c.value _))

theorem generateForRule_gives (hX : DecimalsFinite X) (field : String) (rule : RuleIR) (globalSeed : UInt64)
    (fuzzExtra : Nat) : Gives (generateForRule X rule globalSeed fuzzExtra)
      ((∀ c ∈ checks rule, trueFits c = true) ∧ (∀ c ∈ refuted rule, falseFits c = true) ∧
        (∀ c ∈ collectTree [] rule.decisionTree, trueFits c = true ∧ falseFits c = true) ∧
        (∀ c ∈ (Catalog.fromRule rule).conditions, trueFits c = true) ∧
        (∀ c ∈ orderings rule, ∀ p ∈ [("below", -1), ("at", 0), ("above", 1)], movable p.2 c.value = true) ∧
        (∀ n ∈ List.range fuzzExtra, ∀ p ∈ (Catalog.fromRule rule).conditions.zipIdx
          (n * (Catalog.fromRule rule).conditions.length),
            drawFits (drawAt (ruleSeed globalSeed rule.ruleId) p.2) p.1 = true) ∧ True)
      (List.map fun s => numberAt field s.facts) (numbersOn field rule globalSeed fuzzExtra) := by
  refine (checks_gives hX rule).bind fun applTrue happlTrue => ?_
  refine (refuted_gives hX rule).bind fun applFalse happlFalse => ?_
  refine (enumeratePaths_gives hX rule.decisionTree).bind fun paths hpaths => ?_
  refine (writesOf_gives (valueTrue_gives hX) (Catalog.fromRule rule).conditions).bind fun allTrue hallTrue => ?_
  have hanchor : numbered applTrue ++ numbered allTrue = anchor rule := by
    rw [happlTrue, hallTrue]
    rfl
  refine (boundaryScenarios_gives hX field rule hanchor).bind fun boundaries hboundaries => ?_
  have hfuzz := fuzzScenarios_gives hX (ruleSeed globalSeed rule.ruleId) field rule (Catalog.fromRule rule)
    fuzzExtra 0
  rw [Nat.zero_mul, ← List.range_eq_range'] at hfuzz
  refine hfuzz.bind fun fuzzed hfuzzed => Gives.ofSome trivial ?_
  -- every part ran; what is left is what each of its scenarios ends with
  have hbranches : (paths.zipIdx.map fun p =>
      (⟨rule.ruleId, s!"path#{p.2}", buildFacts [applTrue, p.1]⟩ : Scenario X.F)).map
        (fun s => numberAt field s.facts) =
      (pathNumbers rule.decisionTree).map fun path =>
        lastNumber field ((checks rule).map (fun c => (c.field, trueNumber c)) ++ path) := by
    rw [← hpaths, ← List.zipIdx_map_fst 0 paths, List.map_map, List.map_map, List.map_map, List.zipIdx_map_fst]
    refine List.map_congr_left fun p _ => ?_
    show numberAt field (buildFacts [applTrue, p.1]) = _
    rw [numberAt_buildFacts, ← happlTrue, List.flatMap_cons, List.flatMap_singleton]
    rfl
  have hscope : (if rule.appliesIf.isSome then
      [(⟨rule.ruleId, "not_applicable", buildFacts [applFalse]⟩ : Scenario X.F)] else []).map
        (fun s => numberAt field s.facts) =
      if rule.appliesIf.isSome then
        [lastNumber field ((refuted rule).map fun c => (c.field, falseNumber c))] else [] := by
    rw [apply_ite (List.map fun s : Scenario X.F => numberAt field s.facts), List.map_singleton, numberAt_buildFacts,
      List.flatMap_singleton, happlFalse]
    rfl
  have hirrelevant : numberAt field (buildFacts [applTrue, allTrue, irrelevantFacts X]) =
      lastNumber field (anchor rule ++ [("__irrelevant_a", false), ("__irrelevant_b", false)]) := by
    rw [numberAt_buildFacts, ← hanchor, List.append_assoc]
    rfl
  rw [numbersOn, List.map_append, List.map_append, List.map_append, List.map_append, List.map_append,
    List.map_singleton, hirrelevant, hboundaries, hfuzzed, firstFieldScenarios_numbers field rule hanchor]
  exact congrArg₂ (fun a b => a ++ b ++ _ ++ _ ++ _ ++ _) hbranches hscope

end

end Ke.Runtime
