/-
Rule source to the authoring AST. The YAML library delivers a tree of scalars, sequences and
mappings; source positions serve diagnostics only and are left out of the tree, the AST and the
errors. A nested group and a branch are found by scanning the fields of their mapping, so that the
parser recurses structurally; `parseItemsAt_eq` and `parseBranch_eq` give the lookups back.
-/
import KeEngine.Core.Ir

namespace Ke.Compiler

open Ke Wire

/-! ## The YAML tree -/

/-- A scalar as the library delivers it: its text, whether it may be coerced, and its reading as a
boolean. The options that files are loaded with let every scalar be coerced, quoted ones too. -/
structure YamlScalar where
  text : String
  mayCoerce : Bool
  asBool : Option Bool
deriving DecidableEq

inductive YamlNode
  | scalar (s : YamlScalar)
  | sequence (items : List YamlNode)
  | mapping (fields : List (String × YamlNode))

abbrev Fields := List (String × YamlNode)

namespace YamlNode

/-- A plain scalar that is no boolean. -/
def plain (text : String) : YamlNode := .scalar ⟨text, true, none⟩

def asScalar : YamlNode → Option YamlScalar
  | .scalar s => some s
  | _ => none

def asSequence : YamlNode → Option (List YamlNode)
  | .sequence items => some items
  | _ => none

def asMapping : YamlNode → Option Fields
  | .mapping fields => some fields
  | _ => none

@[simp] theorem asScalar_eq_some {n : YamlNode} {s : YamlScalar} : n.asScalar = some s ↔ n = .scalar s := by
  cases n <;> simp [asScalar]

@[simp] theorem asSequence_eq_some {n : YamlNode} {items : List YamlNode} :
    n.asSequence = some items ↔ n = .sequence items := by
  cases n <;> simp [asSequence]

@[simp] theorem asMapping_eq_some {n : YamlNode} {fields : Fields} : n.asMapping = some fields ↔
    n = .mapping fields := by
  cases n <;> simp [asMapping]

/-- Induction over a YAML tree with a hypothesis for each item and each value of a field. -/
theorem ind {p : YamlNode → Prop} (hs : ∀ s, p (.scalar s)) (hl : ∀ items, (∀ x ∈ items, p x) → p (.sequence items))
    (hm : ∀ fields : Fields, (∀ kn ∈ fields, p kn.2) → p (.mapping fields)) : ∀ n, p n := by
  intro n
  refine @YamlNode.rec p (fun items => ∀ x ∈ items, p x) (fun fields => ∀ kn ∈ fields, p kn.2) (fun kn => p kn.2)
    hs hl hm ?_ ?_ ?_ ?_ ?_ n
  · intro x h; cases h
  · intro y ys hy hys x hx
    rcases List.mem_cons.1 hx with rfl | h
    · exact hy
    · exact hys x h
  · intro kn h; cases h
  · intro y ys hy hys kn hx
    rcases List.mem_cons.1 hx with rfl | h
    · exact hy
    · exact hys kn h
  · intro k x hx
    exact hx

end YamlNode

namespace Fields

/-- `get_node` -/
def get (fields : Fields) (key : String) : Option YamlNode := List.lookup key fields

def getScalar (fields : Fields) (key : String) : Option YamlScalar := (get fields key).bind YamlNode.asScalar

def getSequence (fields : Fields) (key : String) : Option (List YamlNode) := (get fields key).bind YamlNode.asSequence

def getMapping (fields : Fields) (key : String) : Option Fields := (get fields key).bind YamlNode.asMapping

/-- `opt_scalar` -/
def optScalar (fields : Fields) (key : String) : Option String := (getScalar fields key).map YamlScalar.text

theorem get_cons (k : String) (n : YamlNode) (rest : Fields) (key : String) :
    get ((k, n) :: rest) key = if k = key then some n else get rest key := by
  unfold get
  rw [List.lookup_cons]
  by_cases h : k = key
  · simp [h]
  · rw [if_neg h, beq_eq_false_iff_ne.2 (Ne.symm h)]

theorem mem_of_get {fields : Fields} {key : String} {n : YamlNode} (h : get fields key = some n) :
    (key, n) ∈ fields := by
  induction fields with
  | nil => cases h
  | cons kn rest ih =>
    obtain ⟨k, m⟩ := kn
    rw [get_cons] at h
    split at h
    · rename_i hk
      cases h
      exact hk ▸ List.mem_cons_self
    · exact List.mem_cons_of_mem _ (ih h)

theorem getScalar_eq_some {fields : Fields} {key : String} {s : YamlScalar} :
    getScalar fields key = some s ↔ get fields key = some (.scalar s) := by
  simp [getScalar, Option.bind_eq_some_iff]

theorem getSequence_eq_some {fields : Fields} {key : String} {items : List YamlNode} :
    getSequence fields key = some items ↔ get fields key = some (.sequence items) := by
  simp [getSequence, Option.bind_eq_some_iff]

theorem getMapping_eq_some {fields m : Fields} {key : String} :
    getMapping fields key = some m ↔ get fields key = some (.mapping m) := by
  simp [getMapping, Option.bind_eq_some_iff]

/-- Induction over mappings, with a hypothesis for each mapping in a list under a key and for each
mapping under a key. -/
theorem ind {p : Fields → Prop} (h : ∀ fields : Fields,
    (∀ key items m, get fields key = some (.sequence items) → .mapping m ∈ items → p m) →
    (∀ key m, get fields key = some (.mapping m) → p m) → p fields) : ∀ fields, p fields := by
  have each : ∀ n : YamlNode, (∀ m, n = .mapping m → p m) ∧ ∀ items m, n = .sequence items →
      .mapping m ∈ items → p m := by
    intro n
    induction n using YamlNode.ind with
    | hs s => exact ⟨fun _ h => (nomatch h), fun _ _ h => (nomatch h)⟩
    | hl items ih =>
      refine ⟨fun _ h => (nomatch h), ?_⟩
      rintro items' m ⟨⟩ hm
      exact (ih _ hm).1 m rfl
    | hm fields ih =>
      refine ⟨?_, fun _ _ h => (nomatch h)⟩
      rintro m ⟨⟩
      refine h fields (fun key items m hget hm => ?_) (fun key m hget => ?_)
      · exact (ih _ (mem_of_get hget)).2 items m rfl hm
      · exact (ih _ (mem_of_get hget)).1 m rfl
  exact fun fields => (each (.mapping fields)).1 fields rfl

end Fields

open Fields

/-- An error's text. -/
structure CompileError where
  message : String
deriving DecidableEq

/-- `req_scalar` -/
def reqScalar (fields : Fields) (key : String) : Except CompileError String :=
  match getScalar fields key with
  | some s => .ok s.text
  | none => .error ⟨s!"missing required `{key}`"⟩

/-! ## Scalars -/

/-- The Unicode property White_Space, which `trim` removes at both ends. -/
def isWhitespace (c : Char) : Bool :=
  let n := c.toNat
  (9 ≤ n && n ≤ 13) || n == 0x20 || n == 0x85 || n == 0xA0 || n == 0x1680 || (0x2000 ≤ n && n ≤ 0x200A) ||
    n == 0x2028 || n == 0x2029 || n == 0x202F || n == 0x205F || n == 0x3000

def trim (s : String) : List Char := ((s.toList.dropWhile isWhitespace).reverse.dropWhile isWhitespace).reverse

/-- The value of a non-empty run of ASCII digits. -/
def parseDigits : List Char → Option Nat
  | [] => none
  | cs => cs.foldlM (fun n c => if c.isDigit then some (10 * n + (c.toNat - '0'.toNat)) else none) 0

/-- `parse` at an unsigned type below the bound `hi`. -/
def parseUnsigned (hi : Nat) (cs : List Char) : Option Nat := do
  let n ← parseDigits (match cs with
    | '+' :: rest => rest
    | cs => cs)
  if n < hi then some n else none

/-- `parse` at a signed type of width `w`. -/
def parseSigned (w : Nat) (cs : List Char) : Option (SInt w) := do
  match cs with
  | '-' :: rest => SInt.ofInt? w (-(← parseDigits rest : Int))
  | '+' :: rest => SInt.ofInt? w (← parseDigits rest)
  | cs => SInt.ofInt? w (← parseDigits cs)

/-- `split_once` -/
def splitOnce (sep : Char) (cs : List Char) : List Char × List Char :=
  (cs.takeWhile (· ≠ sep), (cs.dropWhile (· ≠ sep)).tail)

/-- A plain `[-+]?digits(.digits)?` as an exact decimal; scientific notation and hex stay text. -/
def parseDecimal (s : String) : Option ScalarValue := do
  let (neg, body) := match trim s with
    | '-' :: rest => (true, rest)
    | '+' :: rest => (false, rest)
    | t => (false, t)
  let (intPart, fracPart) := splitOnce '.' body
  let mantissaAbs ← parseDigits (intPart ++ fracPart)
  let mantissaAbs ← SInt.ofInt? 128 mantissaAbs
  let mantissa ← SInt.ofInt? 128 (if neg then -mantissaAbs.val else mantissaAbs.val)
  let scale ← SInt.ofInt? 8 fracPart.length
  some (.decimal mantissa scale)

/-- A scalar that may not be coerced is text; any other may be a boolean or a number. -/
def scalarToValue (s : YamlScalar) : ScalarValue :=
  if s.mayCoerce then
    match s.asBool with
    | some b => .bool b
    | none => (parseDecimal s.text).getD (.str s.text)
  else .str s.text

/-- A scalar or a list as an operand; a mapping is refused. -/
def nodeToValue : YamlNode → Except CompileError ScalarValue
  | .scalar s => .ok (scalarToValue s)
  | .sequence items => .list <$> values items
  | .mapping _ => .error ⟨"a condition value must be a scalar or list, not a mapping"⟩
where
  values : List YamlNode → Except CompileError (List ScalarValue)
    | [] => .ok []
    | n :: ns => do
      let v ← nodeToValue n
      let vs ← values ns
      pure (v :: vs)

/-! ## The AST -/

inductive GroupKind
  | all
  | any
deriving DecidableEq

structure AstCondition where
  field : String
  /-- as written; validated in lowering -/
  operator : String
  value : ScalarValue
  description : Option String

inductive AstGroupItem
  | condition (c : AstCondition)
  | group (kind : GroupKind) (items : List AstGroupItem)

structure AstGroup where
  kind : GroupKind
  items : List AstGroupItem

structure AstObligation where
  id : String
  description : Option String
  deadline : Option String

structure AstLeaf where
  result : String
  obligations : List AstObligation
  notes : Option String

inductive AstDecision
  | node (nodeId : Option String) (condition : Option AstCondition) (trueBranch falseBranch : Option AstDecision)
  | leaf (l : AstLeaf)

structure AstSource where
  documentId : String
  article : Option String
  section_ : Option String
  paragraphs : List String
  pages : List UInt32

structure AstRule where
  ruleId : String
  version : Option String
  description : Option String
  tags : List String
  effectiveFrom : Option String
  effectiveTo : Option String
  jurisdiction : Option String
  appliesIf : Option AstGroup
  decisionTree : AstDecision
  obligations : List AstObligation
  source : AstSource
  interpretationNotes : Option String

/-! ## Conditions and groups -/

def parseValue (fields : Fields) (key : String) : Except CompileError ScalarValue :=
  match getScalar fields key with
  | some s => .ok (scalarToValue s)
  | none =>
    match getSequence fields key with
    | some items => .list <$> items.mapM nodeToValue
    | none => .error ⟨s!"condition is missing a `{key}`"⟩

def parseCondition (fields : Fields) : Except CompileError AstCondition := do
  let field ← reqScalar fields "field"
  let operator := (optScalar fields "operator").getD "=="
  let value ← parseValue fields "value"
  pure ⟨field, operator, value, optScalar fields "description"⟩

/-- The group of a mapping whose `all` and `any` lists, where it has them, parse to `all` and `any`. -/
def groupOf (all any : Option (Except CompileError (List AstGroupItem))) : Except CompileError AstGroup :=
  match all with
  | some items => AstGroup.mk .all <$> items
  | none =>
    match any with
    | some items => AstGroup.mk .any <$> items
    | none => .error ⟨"a condition group must have an `all` or `any` list"⟩

mutual

/-- The entries of the list under `key`, if the value there is a list. -/
def parseItemsAt (key : String) : Fields → Option (Except CompileError (List AstGroupItem))
  | [] => none
  | (k, n) :: rest => if k = key then parseSeq n else parseItemsAt key rest

def parseSeq : YamlNode → Option (Except CompileError (List AstGroupItem))
  | .sequence items => some (parseItems items)
  | _ => none

def parseItems : List YamlNode → Except CompileError (List AstGroupItem)
  | [] => .ok []
  | n :: ns => do
    let item ← parseItem n
    let items ← parseItems ns
    pure (item :: items)

def parseItem : YamlNode → Except CompileError AstGroupItem
  | .mapping fields =>
    if (getScalar fields "field").isSome then .condition <$> parseCondition fields
    else do
      let g ← groupOf (parseItemsAt "all" fields) (parseItemsAt "any" fields)
      pure (.group g.kind g.items)
  | _ => .error ⟨"each `all`/`any` entry must be a mapping"⟩

end

def parseGroup (fields : Fields) : Except CompileError AstGroup :=
  groupOf (parseItemsAt "all" fields) (parseItemsAt "any" fields)

theorem parseItems_eq (items : List YamlNode) : parseItems items = items.mapM parseItem := by
  induction items with
  | nil => rfl
  | cons n ns ih => rw [parseItems, List.mapM_cons, ih]

theorem parseItemsAt_eq (key : String) (fields : Fields) :
    parseItemsAt key fields = (getSequence fields key).map fun items => items.mapM parseItem := by
  induction fields with
  | nil => rfl
  | cons kn rest ih =>
    obtain ⟨k, n⟩ := kn
    rw [parseItemsAt, getSequence, get_cons]
    split
    · cases n with
      | sequence items => simp [parseSeq, YamlNode.asSequence, parseItems_eq]
      | scalar s => rfl
      | mapping f => rfl
    · exact ih

/-- `parse_group` as the lookups it makes: the `all` list, else the `any` list. -/
theorem parseGroup_eq (fields : Fields) : parseGroup fields =
    match getSequence fields "all" with
    | some items => AstGroup.mk .all <$> items.mapM parseItem
    | none =>
      match getSequence fields "any" with
      | some items => AstGroup.mk .any <$> items.mapM parseItem
      | none => .error ⟨"a condition group must have an `all` or `any` list"⟩ := by
  rw [parseGroup, parseItemsAt_eq, parseItemsAt_eq]
  cases getSequence fields "all" <;> cases getSequence fields "any" <;> rfl

theorem parseItem_mapping (fields : Fields) : parseItem (.mapping fields) =
    if (getScalar fields "field").isSome then .condition <$> parseCondition fields
    else (fun g => .group g.kind g.items) <$> parseGroup fields := by
  rw [parseItem]
  split
  · rfl
  · rw [← parseGroup]
    cases parseGroup fields <;> rfl

/-! ## Obligations and decisions -/

def parseObligation (n : YamlNode) : Except CompileError AstObligation :=
  match n.asMapping with
  | some fields => do
    let id ← reqScalar fields "id"
    pure ⟨id, optScalar fields "description", optScalar fields "deadline"⟩
  | none => .error ⟨"each obligation must be a mapping"⟩

def parseObligations (items : List YamlNode) : Except CompileError (List AstObligation) := items.mapM parseObligation

/-- The obligations of a rule or a leaf: an absent list is empty. -/
def obligationsAt (fields : Fields) : Except CompileError (List AstObligation) :=
  parseObligations ((getSequence fields "obligations").getD [])

def parseLeaf (fields : Fields) : Except CompileError AstLeaf := do
  let result ← reqScalar fields "result"
  let obligations ← obligationsAt fields
  pure ⟨result, obligations, optScalar fields "notes"⟩

/-- The decision of a mapping whose branches, where it has them, parse to the given ones: a leaf if
it has a `result`, otherwise a branch node. -/
def decisionOf (fields : Fields) (trueBranch falseBranch : Except CompileError (Option AstDecision)) :
    Except CompileError AstDecision :=
  if (getScalar fields "result").isSome then .leaf <$> parseLeaf fields
  else do
    let condition ← (getMapping fields "condition").mapM parseCondition
    let trueBranch ← trueBranch
    let falseBranch ← falseBranch
    pure (.node (optScalar fields "node_id") condition trueBranch falseBranch)

mutual

def parseBranch (key : String) : Fields → Except CompileError (Option AstDecision)
  | [] => .ok none
  | (k, n) :: rest => if k = key then parseBranchNode n else parseBranch key rest

def parseBranchNode : YamlNode → Except CompileError (Option AstDecision)
  | .mapping fields =>
    some <$> decisionOf fields (parseBranch "true_branch" fields) (parseBranch "false_branch" fields)
  | _ => .ok none

end

def parseDecision (fields : Fields) : Except CompileError AstDecision :=
  decisionOf fields (parseBranch "true_branch" fields) (parseBranch "false_branch" fields)

theorem parseBranch_eq (key : String) (fields : Fields) :
    parseBranch key fields = (getMapping fields key).mapM parseDecision := by
  induction fields with
  | nil => rfl
  | cons kn rest ih =>
    obtain ⟨k, n⟩ := kn
    rw [parseBranch, getMapping, get_cons]
    split
    · cases n with
      | mapping f => rw [parseBranchNode]; rfl
      | scalar s => rfl
      | sequence items => rfl
    · exact ih

/-! ## Rules -/

/-- The texts of the scalars of a list; anything else in it is passed over. -/
def scalarTexts (items : List YamlNode) : List String := items.filterMap fun n => n.asScalar.map YamlScalar.text

def parsePage (n : YamlNode) : Except CompileError UInt32 :=
  match n.asScalar with
  | none => .error ⟨"`pages` entries must be integers"⟩
  | some s =>
    match parseUnsigned (2 ^ 32) (trim s.text) with
    | some n => .ok (UInt32.ofNat n)
    | none => .error ⟨s!"page `{s.text}` is not an integer"⟩

def parseSource (fields : Fields) : Except CompileError AstSource := do
  let documentId ← (optScalar fields "document_id").elim (.error ⟨"`source` is missing a `document_id`"⟩) .ok
  let pages ← ((getSequence fields "pages").getD []).mapM parsePage
  let paragraphs := scalarTexts ((getSequence fields "paragraphs").getD [])
  pure ⟨documentId, optScalar fields "article", optScalar fields "section", paragraphs, pages⟩

/-- The mapping under a key that a rule must have. -/
def reqMapping (fields : Fields) (key : String) : Except CompileError Fields :=
  match getMapping fields key with
  | some m => .ok m
  | none => .error ⟨s!"rule is missing a `{key}`"⟩

def parseRule (fields : Fields) : Except CompileError AstRule := do
  let ruleId ← reqScalar fields "rule_id"
  let decisionTree ← parseDecision (← reqMapping fields "decision_tree")
  let source ← parseSource (← reqMapping fields "source")
  let appliesIf ← (getMapping fields "applies_if").mapM parseGroup
  let obligations ← obligationsAt fields
  let tags := scalarTexts ((getSequence fields "tags").getD [])
  pure {
    ruleId
    version := optScalar fields "version"
    description := optScalar fields "description"
    tags
    effectiveFrom := optScalar fields "effective_from"
    effectiveTo := optScalar fields "effective_to"
    jurisdiction := optScalar fields "jurisdiction"
    appliesIf
    decisionTree
    obligations
    source
    interpretationNotes := optScalar fields "interpretation_notes" }

/-- A document is a rule or a list of rules. -/
def parseRules : YamlNode → Except CompileError (List AstRule)
  | .mapping fields => do return [← parseRule fields]
  | .sequence items => items.mapM fun el =>
    match el.asMapping with
    | some fields => parseRule fields
    | none => .error ⟨"each rule in a list must be a mapping"⟩
  | .scalar _ => .error ⟨"expected a rule mapping or a list of rules"⟩

end Ke.Compiler
