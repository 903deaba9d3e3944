/-
Cross-rule conflict detection: every pair of rules is compared by normal form, by the value sets
of its equality and membership premises, by its decision paths and by its effective windows.
-/
import KeEngine.Core.Semantic

namespace Ke.T4

open Ke Wire

/-! ## Findings -/

inductive ConflictClass
  | contradictoryOutcome
  | overlappingScope
  | temporalOverlap
  | duplicateRule
deriving DecidableEq

inductive Severity
  | blocking
  | reviewRequired
  | advisory
deriving DecidableEq

def defaultSeverity : ConflictClass → Severity
  | .contradictoryOutcome => .blocking
  | .overlappingScope => .reviewRequired
  | .temporalOverlap => .reviewRequired
  | .duplicateRule => .advisory

def suggestedResolution : ConflictClass → String
  | .contradictoryOutcome => "reconcile outcomes or add precedence"
  | .overlappingScope => "encode precedence between the rules"
  | .temporalOverlap => "narrow the effective windows or add precedence"
  | .duplicateRule => "merge the rules or differentiate their scope"

structure Conflict where
  class_ : ConflictClass
  severity : Severity
  ruleIds : List String
  sourceDocuments : List String
  detail : String
  suggestedResolution : String
deriving DecidableEq

def Conflict.between (class_ : ConflictClass) (a b : SemanticRule) (detail : String) : Conflict where
  class_
  severity := defaultSeverity class_
  ruleIds := [a.ruleId, b.ruleId]
  sourceDocuments := sortDedup [a.sourceDocument, b.sourceDocument]
  detail
  suggestedResolution := T4.suggestedResolution class_

/-! ## Scope premises -/

/-- The text of a literal, with the text `dec` of a decimal. -/
def stringifyBy (dec : I128 → I8 → String) : ScalarValue → String
  | .str s => s
  | .bool b => toString b
  | .decimal mantissa scale => dec mantissa scale
  | .list items => "[" ++ String.intercalate "," (stringifyAll items) ++ "]"
where
  stringifyAll : List ScalarValue → List String
    | [] => []
    | v :: vs => stringifyBy dec v :: stringifyAll vs

def decimalDigits (mantissa : I128) (scale : I8) : String := toString mantissa.val ++ ":" ++ toString scale.val

/-- The text by which premises are compared: a decimal by its digits as written. -/
def stringify : ScalarValue → String := stringifyBy decimalDigits

/-- Field to allowed values; a field occurs once. -/
abbrev Premises := List (String × List String)

/-- `entry(field).or_default()`, then the insertion of `values`. -/
def Premises.insert (field : String) (values : List String) : Premises → Premises
  | [] => [(field, values)]
  | (f, vs) :: rest => if f = field then (f, vs ++ values) :: rest else (f, vs) :: insert field values rest

/-- The premise of one member of a top-level `all` list. -/
def premiseOf (text : ScalarValue → String) : ConditionOrGroup → Option (String × List String)
  | .condition ⟨field, .eq, value, _⟩ => some (field, [text value])
  | .condition ⟨field, .in, .list vs, _⟩ => some (field, vs.map text)
  | _ => none

def addPremise (text : ScalarValue → String) (fields : Premises) (item : ConditionOrGroup) : Premises :=
  match premiseOf text item with
  | some (field, values) => fields.insert field values
  | none => fields

def topItems (rule : RuleIR) : List ConditionOrGroup :=
  match rule.appliesIf with
  | some ⟨some items, _⟩ => items
  | _ => []

def premisesBy (text : ScalarValue → String) (rule : RuleIR) : Premises := (topItems rule).foldl (addPremise text) []

def extractPremises (rule : RuleIR) : Premises := premisesBy stringify rule

def isDisjoint (a b : List String) : Bool := a.all (fun v => !b.contains v)

/-- The loop over the fields of `a`: a shared field with disjoint values ends it. -/
def overlapFrom (b : Premises) (shared : Bool) : Premises → Bool
  | [] => shared
  | (field, av) :: rest =>
    match b.lookup field with
    | none => overlapFrom b shared rest
    | some bv => if isDisjoint av bv then false else overlapFrom b true rest

def scopesOverlap (a b : Premises) : Bool := overlapFrom b false a

/-! ## Contradiction and windows -/

/-- No branch condition of `pb` is assigned the other way by `pa`, whose last assignment counts. -/
def pathsConsistent (pa pb : SemPath) : Bool :=
  pb.branches.all fun br =>
    match pa.branches.reverse.find? (fun x => x.cond = br.cond) with
    | some x => x.taken == br.taken
    | none => true

/-- The paths branch on a common field, or neither branches. -/
def sharedScenario (pa pb : SemPath) : Bool :=
  let fa := pa.branches.map (·.cond.field)
  let fb := pb.branches.map (·.cond.field)
  !isDisjoint fa fb || (fa.isEmpty && fb.isEmpty)

def contradiction (a b : SemanticRule) : Option (String × String) :=
  a.decisionPaths.findSome? fun pa => b.decisionPaths.findSome? fun pb =>
    if pa.outcome.result ≠ pb.outcome.result ∧ pathsConsistent pa pb ∧ sharedScenario pa pb then
      some (pa.outcome.result, pb.outcome.result)
    else none

/-- Lexicographic order of `(year, month, day)`. -/
def dateLt (a b : I16 × UInt8 × UInt8) : Bool :=
  decide (a.1.val < b.1.val ∨ a.1.val = b.1.val ∧ (a.2.1 < b.2.1 ∨ a.2.1 = b.2.1 ∧ a.2.2 < b.2.2))

/-- `(i16::MAX, 12, 31)` -/
def openEnd : I16 × UInt8 × UInt8 := (.lit 16 32767, 12, 31)

def windowsOverlap : Option SemWindow → Option SemWindow → Bool
  | some a, some b => dateLt a.start (b.stop.getD openEnd) && dateLt b.start (a.stop.getD openEnd)
  | _, _ => false

/-! ## Detection -/

/-- Equal but for ids and metadata. -/
def sameLogic (a b : SemanticRule) : Bool :=
  decide (a.applicability = b.applicability) && decide (a.decisionPaths = b.decisionPaths)

/-- The conflicts of one pair of rules. -/
def conflictsBetween (ra rb : RuleIR) : List Conflict :=
  let a := SemanticRule.fromRule ra
  let b := SemanticRule.fromRule rb
  if sameLogic a b then
    [.between .duplicateRule a b "rules are semantically identical but differ in id/metadata"]
  else if scopesOverlap (extractPremises ra) (extractPremises rb) then
    (match contradiction a b with
      | some (x, y) =>
        [.between .contradictoryOutcome a b ("a shared scenario yields `" ++ x ++ "` vs `" ++ y ++ "`")]
      | none => [.between .overlappingScope a b "applicability scopes overlap with no encoded precedence"]) ++
    (if windowsOverlap a.effective b.effective then
      [.between .temporalOverlap a b "overlapping effective windows over an overlapping scope"]
    else [])
  else []

/-- The pairs of a list, the first before the second. -/
def pairs {α : Type} : List α → List (α × α)
  | [] => []
  | a :: as => as.map (fun b => (a, b)) ++ pairs as

def detectConflicts (rules : List RuleIR) : List Conflict := (pairs rules).flatMap (fun p => conflictsBetween p.1 p.2)

end Ke.T4
