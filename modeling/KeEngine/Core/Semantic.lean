/-
The semantic normal form of a rule: members of a group and operands of a list sorted, decimals
stripped of their zeros, the decision tree reduced to its root-to-leaf paths, obligations to their
ids. The order used for sorting is the derived one: variants by declaration, records and lists
lexicographically.
-/
import KeEngine.Core.CanonicalLaws

namespace Ke

open Wire

/-! ## Normal forms -/

inductive SemValue
  | str (s : String)
  | bool (b : Bool)
  | num (mantissa : I128) (scale : I8)
  | list (items : List SemValue)

structure SemCond where
  field : String
  operator : String
  value : SemValue

inductive SemPredicate
  | all (ps : List SemPredicate)
  | any (ps : List SemPredicate)
  | cond (c : SemCond)

structure SemBranch where
  cond : SemCond
  taken : Bool

structure SemOutcome where
  result : String
  obligations : List String
deriving DecidableEq

structure SemPath where
  branches : List SemBranch
  outcome : SemOutcome

/-- A window as `(year, month, day)` triples. -/
structure SemWindow where
  start : I16 × UInt8 × UInt8
  stop : Option (I16 × UInt8 × UInt8)
deriving DecidableEq

structure SemanticRule where
  ruleId : String
  applicability : Option SemPredicate
  decisionPaths : List SemPath
  sourceDocument : String
  effective : Option SemWindow
  tags : List String

/-! ## Equality -/

namespace SemValue

def decEq : (a b : SemValue) → Decidable (a = b)
  | .str s, .str t => decidable_of_iff (s = t) (by simp)
  | .bool s, .bool t => decidable_of_iff (s = t) (by simp)
  | .num m s, .num n t => decidable_of_iff (m = n ∧ s = t) (by simp)
  | .list xs, .list ys =>
    match decEqs xs ys with
    | .isTrue h => .isTrue (by rw [h])
    | .isFalse h => .isFalse (by rintro ⟨⟩; exact h rfl)
  | .str _, .bool _ | .str _, .num _ _ | .str _, .list _ => .isFalse nofun
  | .bool _, .str _ | .bool _, .num _ _ | .bool _, .list _ => .isFalse nofun
  | .num _ _, .str _ | .num _ _, .bool _ | .num _ _, .list _ => .isFalse nofun
  | .list _, .str _ | .list _, .bool _ | .list _, .num _ _ => .isFalse nofun
where
  decEqs : (a b : List SemValue) → Decidable (a = b)
    | [], [] => .isTrue rfl
    | [], _ :: _ => .isFalse nofun
    | _ :: _, [] => .isFalse nofun
    | x :: xs, y :: ys =>
      match decEq x y, decEqs xs ys with
      | .isTrue h, .isTrue h' => .isTrue (by rw [h, h'])
      | .isFalse h, _ => .isFalse (by rintro ⟨⟩; exact h rfl)
      | _, .isFalse h => .isFalse (by rintro ⟨⟩; exact h rfl)

instance : DecidableEq SemValue := decEq

end SemValue

deriving instance DecidableEq for SemCond

namespace SemPredicate

def decEq : (a b : SemPredicate) → Decidable (a = b)
  | .all xs, .all ys =>
    match decEqs xs ys with
    | .isTrue h => .isTrue (by rw [h])
    | .isFalse h => .isFalse (by rintro ⟨⟩; exact h rfl)
  | .any xs, .any ys =>
    match decEqs xs ys with
    | .isTrue h => .isTrue (by rw [h])
    | .isFalse h => .isFalse (by rintro ⟨⟩; exact h rfl)
  | .cond c, .cond d => decidable_of_iff (c = d) (by simp)
  | .all _, .any _ | .all _, .cond _ => .isFalse nofun
  | .any _, .all _ | .any _, .cond _ => .isFalse nofun
  | .cond _, .all _ | .cond _, .any _ => .isFalse nofun
where
  decEqs : (a b : List SemPredicate) → Decidable (a = b)
    | [], [] => .isTrue rfl
    | [], _ :: _ => .isFalse nofun
    | _ :: _, [] => .isFalse nofun
    | x :: xs, y :: ys =>
      match decEq x y, decEqs xs ys with
      | .isTrue h, .isTrue h' => .isTrue (by rw [h, h'])
      | .isFalse h, _ => .isFalse (by rintro ⟨⟩; exact h rfl)
      | _, .isFalse h => .isFalse (by rintro ⟨⟩; exact h rfl)

instance : DecidableEq SemPredicate := decEq

end SemPredicate

deriving instance DecidableEq for SemBranch

deriving instance DecidableEq for SemPath

/-! ## Order -/

/-- Lexicographic order of lists. -/
def lexList {α : Type} (cmp : α → α → Ordering) : List α → List α → Ordering
  | [], [] => .eq
  | [], _ :: _ => .lt
  | _ :: _, [] => .gt
  | x :: xs, y :: ys => (cmp x y).then (lexList cmp xs ys)

namespace SemValue

def rank : SemValue → Nat
  | .str _ => 0
  | .bool _ => 1
  | .num _ _ => 2
  | .list _ => 3

def cmp : SemValue → SemValue → Ordering
  | .str s, .str t => compare s t
  | .bool s, .bool t => compare s t
  | .num m s, .num n t => (compare m.val n.val).then (compare s.val t.val)
  | .list xs, .list ys => cmps xs ys
  | a, b => compare a.rank b.rank
where
  cmps : List SemValue → List SemValue → Ordering
    | [], [] => .eq
    | [], _ :: _ => .lt
    | _ :: _, [] => .gt
    | x :: xs, y :: ys => (cmp x y).then (cmps xs ys)

end SemValue

def SemCond.cmp (a b : SemCond) : Ordering :=
  (compare a.field b.field).then ((compare a.operator b.operator).then (a.value.cmp b.value))

namespace SemPredicate

def rank : SemPredicate → Nat
  | .all _ => 0
  | .any _ => 1
  | .cond _ => 2

def cmp : SemPredicate → SemPredicate → Ordering
  | .all xs, .all ys => cmps xs ys
  | .any xs, .any ys => cmps xs ys
  | .cond c, .cond d => c.cmp d
  | a, b => compare a.rank b.rank
where
  cmps : List SemPredicate → List SemPredicate → Ordering
    | [], [] => .eq
    | [], _ :: _ => .lt
    | _ :: _, [] => .gt
    | x :: xs, y :: ys => (cmp x y).then (cmps xs ys)

end SemPredicate

def SemBranch.cmp (a b : SemBranch) : Ordering := (a.cond.cmp b.cond).then (compare a.taken b.taken)

def SemOutcome.cmp (a b : SemOutcome) : Ordering :=
  (compare a.result b.result).then (lexList compare a.obligations b.obligations)

def SemPath.cmp (a b : SemPath) : Ordering :=
  (lexList SemBranch.cmp a.branches b.branches).then (a.outcome.cmp b.outcome)

/-! ## Reduction -/

/-- Ten times, or the end of the range on that side. -/
def saturatingTen (m : I128) : I128 :=
  match SInt.ofInt? 128 (m.val * 10) with
  | some m' => m'
  | none => if m.val < 0 then ⟨-(2 ^ (128 - 1)), le_rfl, by norm_num⟩ else ⟨2 ^ (128 - 1) - 1, by norm_num, by norm_num⟩

def foldSaturating : Nat → I128 → I128
  | 0, m => m
  | k + 1, m => foldSaturating k (saturatingTen m)

/-- The decimal of a normal form; a mantissa that overflows saturates. -/
def normDecimal (mantissa : I128) (scale : I8) : I128 × I8 :=
  let m := foldSaturating (-scale.val).toNat mantissa
  let stripped := (stripZeros scale.val.toNat m).1
  if stripped.val = 0 then (stripped, .lit 8 0) else (stripped, stripScale scale m)

def semValue : ScalarValue → SemValue
  | .str s => .str s
  | .bool b => .bool b
  | .decimal mantissa scale => .num (normDecimal mantissa scale).1 (normDecimal mantissa scale).2
  | .list items => .list (sortBy SemValue.cmp (semValues items))
where
  semValues : List ScalarValue → List SemValue
    | [] => []
    | v :: vs => semValue v :: semValues vs

/-- The surface token of an operator. -/
def opToken (op : Operator) : String := op.token

def semCond (c : Condition) : SemCond := ⟨c.field, opToken c.operator, semValue c.value⟩

/-- A group by its `all` list when it has one, else by its `any` list, members sorted. -/
def semItem : ConditionOrGroup → SemPredicate
  | .condition c => .cond (semCond c)
  | .group (some items) _ => .all (sortBy SemPredicate.cmp (semItems items))
  | .group none (some items) => .any (sortBy SemPredicate.cmp (semItems items))
  | .group none none => .all []
where
  semItems : List ConditionOrGroup → List SemPredicate
    | [] => []
    | x :: xs => semItem x :: semItems xs

def semPredicate (group : ConditionGroupSpec) : SemPredicate := semItem (.group group.all group.any)

def semOutcome (leaf : DecisionLeaf) : SemOutcome := ⟨leaf.result, sortDedup ((leaf.obligations.getD []).map (·.id))⟩

/-- The paths of a tree, each with the branches `acc` before it. -/
def collectPaths (acc : List SemBranch) : DecisionEntry → List SemPath
  | .leaf l => [⟨acc, semOutcome l⟩]
  | .node _ c trueBranch falseBranch _ =>
    collectPaths (acc ++ [⟨semCond c, true⟩]) trueBranch ++ collectPaths (acc ++ [⟨semCond c, false⟩]) falseBranch

def semDate (d : JurisdictionDate) : I16 × UInt8 × UInt8 := (d.year, d.month, d.day)

def SemanticRule.fromRule (rule : RuleIR) : SemanticRule where
  ruleId := rule.ruleId
  applicability := rule.appliesIf.map semPredicate
  decisionPaths := sortBy SemPath.cmp (collectPaths [] rule.decisionTree)
  sourceDocument := rule.source.documentId
  effective := rule.effectiveWindow.map (fun w => ⟨semDate w.effectiveFrom, w.effectiveTo.map semDate⟩)
  tags := sortDedup (rule.tags.getD [])

end Ke
