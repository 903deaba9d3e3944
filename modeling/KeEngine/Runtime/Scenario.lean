/-
Scenarios for the equivalence harness: facts that lead a rule to each of its leaves, out of its scope, to
either side of each threshold, and at random from a seed. Each condition that a scenario aims at writes a
value to its field, over what was there. A threshold is moved by a unit in the last place of its mantissa,
which an `i128` may not hold: the result then is none, as it is of a build that checks its arithmetic.
-/
import KeEngine.Layers.Overlay
import KeEngine.Runtime.Catalog

namespace Ke.Runtime

open Ke Wire Ke.T4

/-- The operations of `f64` that the generator uses besides. -/
structure JsonFloats extends Floats where
  /-- `f64::is_finite` -/
  isFinite : F → Bool

/-- A JSON value: that of an operand or beside it, so no objects. -/
inductive Json (F : Type)
  | null
  | bool (b : Bool)
  | int (i : Int)
  | float (f : F)
  | str (s : String)
  | array (items : List (Json F))

/-- A value of a field, or that it has none. -/
inductive Gen (F : Type)
  | set (v : Json F)
  | absent

structure Scenario (F : Type) where
  ruleId : String
  label : String
  facts : List (String × Json F)

/-! ## The generator of random numbers -/

structure Rng where
  state : UInt64

namespace Rng

def nextU64 (rng : Rng) : UInt64 × Rng :=
  let state := rng.state + 0x9E3779B97F4A7C15
  let z := (state ^^^ (state >>> 30)) * 0xBF58476D1CE4E5B9
  let z := (z ^^^ (z >>> 27)) * 0x94D049BB133111EB
  (z ^^^ (z >>> 31), ⟨state⟩)

/-- A number under `n`. -/
def below (rng : Rng) (n : Nat) : Nat × Rng :=
  let (z, rng) := rng.nextU64
  ((z % UInt64.ofNat n).toNat, rng)

end Rng

/-- The seed of a rule: the global one, stirred with the bytes of its id. -/
def ruleSeed (globalSeed : UInt64) (ruleId : String) : UInt64 :=
  ruleId.toUTF8.data.toList.foldl (fun h b => (h ^^^ b.toUInt64) * 0x0100000001B3) (globalSeed ^^^ 0xD1B54A32D192ED03)

section

variable (X : JsonFloats)

/-! ## Operands and the values that drive a branch -/

/-- `Number::from_f64`, and null where JSON has no such number. -/
def floatJson (f : X.F) : Json X.F := if X.isFinite f then .float f else .null

/-- Without a fraction an integer where an `i64` holds the mantissa, the scale aside; a float otherwise. -/
def decimalJson (mantissa : I128) (scale : I8) : Json X.F :=
  if scale.val ≤ 0 then
    match SInt.ofInt? 64 mantissa.val with
    | some i => .int i.val
    | none => floatJson X (X.ofInt mantissa.val)
  else floatJson X (decimalToF64 X.toFloats mantissa scale)

def operandToJson : ScalarValue → Json X.F
  | .str s => .str s
  | .bool b => .bool b
  | .decimal mantissa scale => decimalJson X mantissa scale
  | .list items => .array (operandsToJson items)
where
  operandsToJson : List ScalarValue → List (Json X.F)
    | [] => []
    | v :: vs => operandToJson v :: operandsToJson vs

/-- `mantissa + delta`, unless it overflows. -/
def addI128 (mantissa : I128) (delta : Int) : Option I128 := SInt.ofInt? 128 (mantissa.val + delta)

/-- An operand moved by units in its last place. -/
def shift (operand : ScalarValue) (delta : Int) : Option (Json X.F) :=
  match operand with
  | .decimal mantissa scale => (addI128 mantissa delta).map fun mantissa => decimalJson X mantissa scale
  | operand => some (operandToJson X operand)

/-- A value other than the operand. -/
def different : ScalarValue → Option (Json X.F)
  | .str s => some (.str (s ++ "__NOMATCH"))
  | .bool b => some (.bool !b)
  | .decimal mantissa scale => (addI128 mantissa 1).map fun mantissa => decimalJson X mantissa scale
  | .list _ => some (.str "__NOMATCH__")

def nonMember : String := "__NOT_IN_SET__"

def firstMember : ScalarValue → Json X.F
  | .list (v :: _) => operandToJson X v
  | _ => .str nonMember

/-- A value that makes the comparison true. -/
def valueTrue (op : Operator) (operand : ScalarValue) : Option (Gen X.F) :=
  match op with
  | .eq => some (.set (operandToJson X operand))
  | .notEq => (different X operand).map .set
  | .in => some (.set (firstMember X operand))
  | .notIn => some (.set (.str nonMember))
  | .gt => (shift X operand 1).map .set
  | .lt => (shift X operand (-1)).map .set
  | .gte => some (.set (operandToJson X operand))
  | .lte => some (.set (operandToJson X operand))
  | .exists => some (.set (.str "present"))

/-- A value that makes the comparison false. -/
def valueFalse (op : Operator) (operand : ScalarValue) : Option (Gen X.F) :=
  match op with
  | .eq => (different X operand).map .set
  | .notEq => some (.set (operandToJson X operand))
  | .in => some (.set (.str nonMember))
  | .notIn => some (.set (firstMember X operand))
  | .gt => some (.set (operandToJson X operand))
  | .lt => some (.set (operandToJson X operand))
  | .gte => (shift X operand (-1)).map .set
  | .lte => (shift X operand 1).map .set
  | .exists => some .absent

/-- A value of another type; that the field is one of membership tests makes no difference. -/
def wrongType (operand : ScalarValue) (_isInField : Bool) : Json X.F :=
  match operand with
  | .decimal _ _ => .str "not_a_number"
  | _ => .bool true

/-! ## Layers of facts -/

/-- What a list of conditions writes, each the value that `value` finds for it. -/
def writesOf (value : Operator → ScalarValue → Option (Gen X.F)) (cs : List Condition) :
    Option (List (String × Gen X.F)) :=
  cs.mapM fun c => (value c.operator c.value).map fun g => (c.field, g)

/-- Facts in or out of the scope of the rule. -/
def applicabilityPairs (rule : RuleIR) (satisfy : Bool) : Option (List (String × Gen X.F)) :=
  match rule.appliesIf with
  | none => some []
  | some group =>
    match flatten group, satisfy, groupMode group.all with
    | [], _, _ => some []
    | checks, true, _ => writesOf X (valueTrue X) checks
    | c :: _, false, .all => writesOf X (valueFalse X) [c]
    | checks, false, .any => writesOf X (valueFalse X) checks

/-- The paths of a tree after those in `out`, each with the branches in `taken` before its own. -/
def walkPaths : DecisionEntry → List (String × Gen X.F) → List (List (String × Gen X.F)) →
    Option (List (List (String × Gen X.F)))
  | .leaf _, taken, out => some (out ++ [taken])
  | .node _ c trueBranch falseBranch _, taken, out => do
    let t ← valueTrue X c.operator c.value
    let out ← walkPaths trueBranch (taken ++ [(c.field, t)]) out
    let f ← valueFalse X c.operator c.value
    walkPaths falseBranch (taken ++ [(c.field, f)]) out

def enumeratePaths (tree : DecisionEntry) : Option (List (List (String × Gen X.F))) := walkPaths X tree [] []

end

def Gen.value {F : Type} : Gen F → Option (Json F)
  | .set v => some v
  | .absent => none

/-- The facts of the layers: a later pair stands over an earlier one, and an absent value takes the key away.
Nothing reads the order of the keys. -/
def buildFacts {F : Type} (layers : List (List (String × Gen F))) : List (String × Json F) :=
  layers.foldl (fun m layer => layer.foldl (fun m p => Layers.write m (p.1, p.2.value)) m) []

/-! ## The scenarios of a rule -/

def Operator.isOrdering : Operator → Bool
  | .gt | .lt | .gte | .lte => true
  | _ => false

section

variable (X : JsonFloats)

/-- A value for a condition, as the draw says: true, false, wrong or none. -/
def fuzzValue (rng : Rng) (c : Condition) (isInField : Bool) : Option (Gen X.F) × Rng :=
  let (draw, rng) := rng.below 5
  (match draw with
  | 0 => valueTrue X c.operator c.value
  | 1 => valueFalse X c.operator c.value
  | 2 => some .absent
  | 3 => some (.set (wrongType X c.value isInField))
  | _ => valueTrue X c.operator c.value, rng)

/-- A value for each of the conditions. -/
def fuzzPairs (inFields : List String) : Rng → List Condition → Option (List (String × Gen X.F)) × Rng
  | rng, [] => (some [], rng)
  | rng, c :: cs =>
    let (value, rng) := fuzzValue X rng c (inFields.contains c.field)
    let (pairs, rng) := fuzzPairs inFields rng cs
    (value.bind fun g => pairs.map fun pairs => (c.field, g) :: pairs, rng)

/-- The scenarios from number `n` on that are drawn at random. -/
def fuzzScenarios (rule : RuleIR) (cat : Catalog) : Nat → Nat → Rng → Option (List (Scenario X.F))
  | 0, _, _ => some []
  | extra + 1, n, rng =>
    let (pairs, rng) := fuzzPairs X cat.inFields rng cat.conditions
    pairs.bind fun pairs => (fuzzScenarios rule cat extra (n + 1) rng).map fun rest =>
      ⟨rule.ruleId, s!"fuzz#{n}", buildFacts [pairs]⟩ :: rest

/-- Each threshold a unit below, as it is and a unit above, the other conditions true. -/
def boundaryScenarios (rule : RuleIR) (cat : Catalog) (applTrue allTrue : List (String × Gen X.F)) :
    Option (List (Scenario X.F)) := do
  let scenarios ← (cat.conditions.filter fun c => Operator.isOrdering c.operator).mapM fun c =>
    [("below", -1), ("at", 0), ("above", 1)].mapM fun (tag, delta) =>
      (shift X c.value delta).map fun v => ⟨rule.ruleId, s!"boundary:{c.field}:{tag}",
        buildFacts [applTrue, allTrue, [(c.field, .set v)]]⟩
  some scenarios.flatten

/-- The first field missing, and of a wrong type, the other conditions true. -/
def firstFieldScenarios (rule : RuleIR) (cat : Catalog) (applTrue allTrue : List (String × Gen X.F)) :
    List (Scenario X.F) :=
  match cat.conditions.head? with
  | none => []
  | some c =>
    [⟨rule.ruleId, s!"missing:{c.field}", buildFacts [applTrue, allTrue, [(c.field, .absent)]]⟩,
      ⟨rule.ruleId, s!"wrong_type:{c.field}",
        buildFacts [applTrue, allTrue, [(c.field, .set (wrongType X c.value (cat.inFields.contains c.field)))]]⟩]

/-- Facts of no condition. -/
def irrelevantFacts : List (String × Gen X.F) :=
  [("__irrelevant_a", .set (.bool true)), ("__irrelevant_b", .set (.str "noise"))]

/-- The scenarios of a rule: one for each path, one out of scope, the boundaries, the first field missing and
of a wrong type, irrelevant facts, and `fuzzExtra` at random. -/
def generateForRule (rule : RuleIR) (globalSeed : UInt64) (fuzzExtra : Nat) : Option (List (Scenario X.F)) := do
  let applTrue ← applicabilityPairs X rule true
  let applFalse ← applicabilityPairs X rule false
  let paths ← enumeratePaths X rule.decisionTree
  let branches := paths.zipIdx.map fun (path, i) => ⟨rule.ruleId, s!"path#{i}", buildFacts [applTrue, path]⟩
  let notApplicable :=
    if rule.appliesIf.isSome then [⟨rule.ruleId, "not_applicable", buildFacts [applFalse]⟩] else []
  let cat := Catalog.fromRule rule
  let allTrue ← writesOf X (valueTrue X) cat.conditions
  let boundaries ← boundaryScenarios X rule cat applTrue allTrue
  let irrelevant :=
    [⟨rule.ruleId, "irrelevant_facts", buildFacts [applTrue, allTrue, irrelevantFacts X]⟩]
  let fuzzed ← fuzzScenarios X rule cat fuzzExtra 0 ⟨ruleSeed globalSeed rule.ruleId⟩
  some (branches ++ notApplicable ++ boundaries ++ firstFieldScenarios X rule cat applTrue allTrue ++ irrelevant ++
    fuzzed)

end

end Ke.Runtime
