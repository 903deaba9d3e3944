/-
The platform's rules in JSON to canonical rules, for the differential harness. As in the parser, a nested group
and a branch are found by scanning the entries of their object, so that the import recurses structurally;
`importGroup_object` and `importBranch_eq` give the lookups back. The text that a float is shown by is a parameter.
-/
import KeEngine.Compiler.Lower
import KeEngine.Core.JsonValue

namespace Ke.Compiler.PythonImport

open Ke Wire

/-- A `CompileError`, or the panic of `unwrap` on a condition that is not an object. -/
inductive ImportFault
  | error (e : CompileError)
  | panic
deriving DecidableEq

/-- `CompileError::unlocated` -/
def unlocated {α : Type} (message : String) : Except ImportFault α := .error (.error ⟨message⟩)

section Import

variable {F : Type}

abbrev Entries (F : Type) := List (String × JsonValue F)

/-! ## Lookups -/

/-- The value under a key, `null` passed over. -/
def present (obj : Entries F) (key : String) : Option (JsonValue F) :=
  match obj.lookup key with
  | none | some .null => none
  | some v => some v

def optStr (obj : Entries F) (key : String) : Option String := (obj.lookup key).bind JsonValue.asStr

def reqStr (obj : Entries F) (key : String) : Except ImportFault String :=
  match optStr obj key with
  | some s => .ok s
  | none => unlocated s!"missing `{key}`"

/-- The elements of the array under a key; none where something else is there. -/
def arrayAt (obj : Entries F) (key : String) : List (JsonValue F) := ((obj.lookup key).bind JsonValue.asArray).getD []

/-! ## Conditions and groups -/

/-- A whole number as its digits. -/
def wholeToString (n : WholeNumber) : String := toString n.val

section

variable (showFloat : F → String)

/-- A number is read from its literal; `null` and an object are the empty text. -/
def importValue : JsonValue F → ScalarValue
  | .bool b => .bool b
  | .whole n => (parseDecimal (wholeToString n)).getD (.str (wholeToString n))
  | .float f => (parseDecimal (showFloat f)).getD (.str (showFloat f))
  | .str s => .str s
  | .array items => .list (importValues items)
  | .null => .str ""
  | .object _ => .str ""
where
  importValues : List (JsonValue F) → List ScalarValue
    | [] => []
    | v :: vs => importValue v :: importValues vs

/-- `import_condition` of an object. -/
def conditionOf (obj : Entries F) : Except ImportFault Condition := do
  let field ← reqStr obj "field"
  let opStr := (optStr obj "operator").getD "=="
  let operator ← (operatorFromStr opStr).elim (unlocated s!"unknown operator `{opStr}`") .ok
  let value := importValue showFloat ((obj.lookup "value").getD .null)
  pure ⟨field, operator, value, optStr obj "description"⟩

def importCondition (v : JsonValue F) : Except ImportFault Condition :=
  match v.asObject with
  | some obj => conditionOf showFloat obj
  | none => .error .panic

/-- The group of an object whose `all` and `any` values, where they are not `null`, read as the given lists. -/
def groupOf (all any : Option (Except ImportFault (List ConditionOrGroup))) : Except ImportFault ConditionGroupSpec :=
  match all with
  | some items => groupLists .all <$> items
  | none =>
    match any with
    | some items => groupLists .any <$> items
    | none => .ok ⟨none, none⟩

mutual

/-- The members of the list under `key`, if something other than `null` is there. -/
def importItemsAt (key : String) : List (String × JsonValue F) → Option (Except ImportFault (List ConditionOrGroup))
  | [] => none
  | (k, v) :: rest => if k = key then importArray v else importItemsAt key rest

def importArray : JsonValue F → Option (Except ImportFault (List ConditionOrGroup))
  | .null => none
  | .array items => some (importItems items)
  | _ => some (unlocated "`all`/`any` must be an array")

def importItems : List (JsonValue F) → Except ImportFault (List ConditionOrGroup)
  | [] => .ok []
  | v :: vs => do
    let item ← importItem v
    let items ← importItems vs
    pure (item :: items)

def importItem : JsonValue F → Except ImportFault ConditionOrGroup
  | .object obj =>
    if (obj.lookup "field").isSome then .condition <$> conditionOf showFloat obj
    else do
      let g ← groupOf (importItemsAt "all" obj) (importItemsAt "any" obj)
      pure (.group g.all g.any)
  | _ => unlocated "group item must be an object"

end

def importGroup (v : JsonValue F) : Except ImportFault ConditionGroupSpec :=
  match v with
  | .object obj => groupOf (importItemsAt showFloat "all" obj) (importItemsAt showFloat "any" obj)
  | _ => unlocated "condition group must be an object"

theorem importItems_eq : ∀ items : List (JsonValue F), importItems showFloat items = items.mapM (importItem showFloat)
  | [] => by rw [importItems]; rfl
  | v :: vs => by rw [importItems, List.mapM_cons, importItems_eq vs]

theorem importItemsAt_eq (key : String) (obj : Entries F) :
    importItemsAt showFloat key obj = (present obj key).map fun v =>
      match v.asArray with
      | some items => items.mapM (importItem showFloat)
      | none => unlocated "`all`/`any` must be an array" := by
  induction obj with
  | nil => rw [importItemsAt]; rfl
  | cons kv rest ih =>
    obtain ⟨k, v⟩ := kv
    rw [importItemsAt, present, List.lookup_cons]
    by_cases h : k = key
    · rw [if_pos h, beq_iff_eq.2 h.symm]
      cases v <;> simp [importArray, JsonValue.asArray, importItems_eq]
    · rw [if_neg h, beq_eq_false_iff_ne.2 (Ne.symm h), ih, present]

/-- `import_group` as the lookups it makes: the `all` list, else the `any` list, else no condition. -/
theorem importGroup_object (obj : Entries F) : importGroup showFloat (.object obj) =
    groupOf ((present obj "all").map fun v =>
        match v.asArray with
        | some items => items.mapM (importItem showFloat)
        | none => unlocated "`all`/`any` must be an array")
      ((present obj "any").map fun v =>
        match v.asArray with
        | some items => items.mapM (importItem showFloat)
        | none => unlocated "`all`/`any` must be an array") := by
  rw [importGroup, importItemsAt_eq, importItemsAt_eq]

/-! ## Decisions -/

def importObligation (v : JsonValue F) : Except ImportFault ObligationSpec :=
  match v.asObject with
  | some obj => do
    let id ← reqStr obj "id"
    pure ⟨id, optStr obj "description", optStr obj "deadline", none⟩
  | none => unlocated "obligation must be an object"

def importLeaf (obj : Entries F) : Except ImportFault DecisionLeaf := do
  let obligations ← (arrayAt obj "obligations").mapM importObligation
  let result ← reqStr obj "result"
  pure ⟨result, if obligations.isEmpty then none else some obligations, optStr obj "notes", none⟩

/-- The decision of an object whose branches read as the given ones: a leaf if it has a `result`. -/
def decisionOf (obj : Entries F) (trueBranch falseBranch : Except ImportFault DecisionEntry) :
    Except ImportFault DecisionEntry :=
  if (obj.lookup "result").isSome then .leaf <$> importLeaf obj
  else do
    let condition ← (present obj "condition").elim (unlocated "decision node has no condition")
      (importCondition showFloat)
    let trueBranch ← trueBranch
    let falseBranch ← falseBranch
    pure (.node ((optStr obj "node_id").getD "unnamed") condition trueBranch falseBranch none)

mutual

def importBranch (which : String) : List (String × JsonValue F) → Except ImportFault DecisionEntry
  | [] => unlocated s!"decision node has no `{which}`"
  | (k, v) :: rest => if k = which then importBranchValue which v else importBranch which rest

def importBranchValue (which : String) : JsonValue F → Except ImportFault DecisionEntry
  | .null => unlocated s!"decision node has no `{which}`"
  | .object obj => decisionOf showFloat obj (importBranch "true_branch" obj) (importBranch "false_branch" obj)
  | _ => unlocated "decision entry must be an object"

end

def importDecision (v : JsonValue F) : Except ImportFault DecisionEntry :=
  match v with
  | .object obj =>
    decisionOf showFloat obj (importBranch showFloat "true_branch" obj) (importBranch showFloat "false_branch" obj)
  | _ => unlocated "decision entry must be an object"

/-- `import_branch` as the lookup it makes. -/
theorem importBranch_eq (which : String) (obj : Entries F) : importBranch showFloat which obj =
    (present obj which).elim (unlocated s!"decision node has no `{which}`") (importDecision showFloat) := by
  induction obj with
  | nil => rw [importBranch]; rfl
  | cons kv rest ih =>
    obtain ⟨k, v⟩ := kv
    rw [importBranch, present, List.lookup_cons]
    by_cases h : k = which
    · rw [if_pos h, beq_iff_eq.2 h.symm]
      cases v <;> simp [importBranchValue, importDecision]
    · rw [if_neg h, beq_eq_false_iff_ne.2 (Ne.symm h), ih, present]

end

/-! ## Rules -/

/-- `as_u64().map(|n| n as u32)`: the low 32 bits of a whole number that is not negative. -/
def importPage : JsonValue F → Option UInt32
  | .whole n => if 0 ≤ n.val then some (UInt32.ofNat n.val.toNat) else none
  | _ => none

def importSource (v : JsonValue F) : Except ImportFault DocumentRef :=
  match v.asObject with
  | some obj => do
    let pages := (arrayAt obj "pages").filterMap importPage
    let paragraphs := (arrayAt obj "paragraphs").filterMap JsonValue.asStr
    let documentId ← reqStr obj "document_id"
    pure ⟨documentId, optStr obj "article", optStr obj "section", paragraphs, pages, optStr obj "url"⟩
  | none => unlocated "source must be an object"

/-- `parse_date`: three numbers of the types of a date, which need not be a day of the calendar. -/
def importDate (s : String) : Except ImportFault JurisdictionDate :=
  match (trim s).splitOn '-' with
  | [year, month, day] =>
    match parseSigned 16 year, parseUnsigned 256 month, parseUnsigned 256 day with
    | some year, some month, some day => .ok ⟨year, UInt8.ofNat month, UInt8.ofNat day⟩
    | _, _, _ => unlocated s!"invalid ISO date `{s}`"
  | _ => unlocated s!"invalid ISO date `{s}`"

def importWindow (obj : Entries F) : Except ImportFault (Option EffectiveWindow) :=
  match optStr obj "effective_from" with
  | none => .ok none
  | some f => do
    let effectiveFrom ← importDate f
    let effectiveTo ← (optStr obj "effective_to").mapM importDate
    pure (some ⟨effectiveFrom, effectiveTo, none, none⟩)

variable (showFloat : F → String)

def importRule (v : JsonValue F) : Except ImportFault RuleIR :=
  match v.asObject with
  | some obj => do
    let ruleId ← reqStr obj "rule_id"
    let decisionTree ← (present obj "decision_tree").elim (unlocated s!"python rule `{ruleId}` has no decision_tree")
      (importDecision showFloat)
    let source ← (present obj "source").elim (unlocated s!"python rule `{ruleId}` has no source") importSource
    let tags := (arrayAt obj "tags").filterMap JsonValue.asStr
    let appliesIf ← (present obj "applies_if").mapM (importGroup showFloat)
    let effectiveWindow ← importWindow obj
    pure {
      ruleId
      ruleVersion := (optStr obj "version").getD "1.0"
      description := optStr obj "description"
      tags := if tags.isEmpty then none else some tags
      appliesIf
      decisionTree
      obligations := []
      source
      interpretationNotes := optStr obj "interpretation_notes"
      effectiveWindow
      provenance := .candidate none }
  | none => unlocated "python rule must be a JSON object"

/-- A rule, or an array of rules. -/
def importRules (v : JsonValue F) : Except ImportFault (List RuleIR) :=
  match v with
  | .array items => items.mapM (importRule showFloat)
  | v => do
    let rule ← importRule showFloat v
    pure [rule]

end Import

end Ke.Compiler.PythonImport
