/-
The intermediate representation: the un-lowered authoring tree of a rule, the intent payload and
the manifest of an artifact. A nested group of conditions is one constructor of
`ConditionOrGroup`, so that recursion over the tree is structural.
-/
import KeEngine.Wire.Prim

namespace Ke

open Wire

/-- A BLAKE3 digest. -/
abbrev Hash32 := {bs : Bytes // bs.length = 32}

/-- An Ed25519 signature. -/
abbrev Sig64 := {bs : Bytes // bs.length = 64}

/-- `[0u8; 32]` -/
def zeroHash : Hash32 := ⟨List.replicate 32 0, List.length_replicate⟩

abbrev I8 := SInt 8

abbrev I16 := SInt 16

abbrev I128 := SInt 128

/-! ## Conditions -/

/-- The closed set of comparison operators. -/
inductive Operator
  | eq
  | notEq
  | in
  | notIn
  | gt
  | lt
  | gte
  | lte
  | exists
deriving DecidableEq, Repr

/-- The surface form. -/
def Operator.token : Operator → String
  | .eq => "=="
  | .notEq => "!="
  | .in => "in"
  | .notIn => "not_in"
  | .gt => ">"
  | .lt => "<"
  | .gte => ">="
  | .lte => "<="
  | .exists => "exists"

theorem Operator.token_injective {a b : Operator} (h : a.token = b.token) : a = b := by
  cases a <;> cases b <;> first | rfl | exact absurd h (by decide)

/-- A typed operand; a number is the exact decimal `mantissa × 10 ^ (-scale)`. -/
inductive ScalarValue
  | str (s : String)
  | bool (b : Bool)
  | decimal (mantissa : I128) (scale : I8)
  | list (items : List ScalarValue)

structure Condition where
  field : String
  operator : Operator
  value : ScalarValue
  description : Option String

/-- A leaf condition or a nested `all` / `any` group. -/
inductive ConditionOrGroup
  | condition (c : Condition)
  | group (all any : Option (List ConditionOrGroup))

structure ConditionGroupSpec where
  all : Option (List ConditionOrGroup)
  any : Option (List ConditionOrGroup)

/-! ## Spans, dates, obligations -/

structure DocumentRef where
  documentId : String
  article : Option String
  section_ : Option String
  paragraphs : List String
  pages : List UInt32
  url : Option String
deriving DecidableEq

/-- A half-open byte range. -/
structure ByteRange where
  start : UInt64
  end_ : UInt64
deriving DecidableEq

structure SourceSpan where
  documentId : String
  article : Option String
  section_ : Option String
  paragraph : Option String
  pages : Option (List UInt32)
  byteRange : Option ByteRange
  textHash : Option Hash32
deriving DecidableEq

structure JurisdictionDate where
  year : I16
  month : UInt8
  day : UInt8
deriving DecidableEq

structure TimeZone where
  name : String
  tzDataVersion : String
deriving DecidableEq

inductive EffectiveTimePolicy
  | midnightLocal
deriving DecidableEq

structure EffectiveWindow where
  effectiveFrom : JurisdictionDate
  effectiveTo : Option JurisdictionDate
  jurisdictionTimeZone : Option TimeZone
  effectiveTimePolicy : Option EffectiveTimePolicy
deriving DecidableEq

structure ObligationSpec where
  id : String
  description : Option String
  deadline : Option String
  sourceSpan : Option SourceSpan
deriving DecidableEq

/-! ## Decisions and rules -/

structure DecisionLeaf where
  result : String
  obligations : Option (List ObligationSpec)
  notes : Option String
  sourceSpan : Option SourceSpan

/-- A branch node or a terminal leaf. -/
inductive DecisionEntry
  | node (nodeId : String) (condition : Condition) (trueBranch falseBranch : DecisionEntry)
      (sourceSpan : Option SourceSpan)
  | leaf (l : DecisionLeaf)

inductive ProvenanceMarker
  | candidate (proposalId : Option String)
  | structurallyVerified
  | mlChecked (policyVersion : String)
  | expertAttested (attestationCount : UInt16)
  | published (environment : String)
  | deprecated
  | revoked
deriving DecidableEq

structure RuleIR where
  ruleId : String
  ruleVersion : String
  description : Option String
  tags : Option (List String)
  appliesIf : Option ConditionGroupSpec
  decisionTree : DecisionEntry
  obligations : List ObligationSpec
  source : DocumentRef
  interpretationNotes : Option String
  effectiveWindow : Option EffectiveWindow
  provenance : ProvenanceMarker

/-- A rule of the given applicability and decisions, every other field at its least. -/
def RuleIR.bare (ruleId : String) (appliesIf : Option ConditionGroupSpec) (decisionTree : DecisionEntry) : RuleIR where
  ruleId
  ruleVersion := "1.0"
  description := none
  tags := none
  appliesIf
  decisionTree
  obligations := []
  source := ⟨"doc", none, none, [], [], none⟩
  interpretationNotes := none
  effectiveWindow := none
  provenance := .candidate none

/-- A leaf with a result and nothing else. -/
def DecisionEntry.result (result : String) : DecisionEntry := .leaf ⟨result, none, none, none⟩

/-! ## Intent payload -/

inductive Volatility
  | stable
  | volatile
deriving DecidableEq

structure AuthorizationCriterion where
  name : String
  threshold : ScalarValue
  volatility : Volatility

structure IdempotencyDef where
  keyFields : List String
  scope : String

structure IntentSpecIR where
  actionClass : String
  criteria : List AuthorizationCriterion
  idempotency : IdempotencyDef
  sourceSpans : List SourceSpan

/-! ## Manifest and policy vocabulary -/

/-- `SemVer` and `SchemaVersion`: `major.minor.patch`. -/
structure SemVer where
  major : UInt16
  minor : UInt16
  patch : UInt16
deriving DecidableEq

inductive ArtifactKind
  | regimePack
  | equivalenceMatrix
  | testCorpus
  | policyBundle
  | intentSpec
deriving DecidableEq

structure Manifest where
  artifactKind : ArtifactKind
  artifactHash : Hash32
  regimeId : String
  effectiveFrom : JurisdictionDate
  effectiveTo : Option JurisdictionDate
  compilerVersion : SemVer
  compilerBuildHash : Hash32
  irSchemaVersion : SemVer
  codecVersion : String
  canonicalizationVersion : String
  corpusRootHash : Hash32
  sourceCorpusHash : Hash32
  attestationPolicyVersion : String
deriving DecidableEq

inductive T2T3Mode
  | strict
  | reviewOverride
  | advisory
  | disabled
deriving DecidableEq

inductive AttestationType
  | sourceFidelity
  | interpretation
  | scenarioCoverage
  | equivalenceClaim
  | publicationApproval
deriving DecidableEq

structure AttestationCount where
  attestationType : AttestationType
  count : UInt8
deriving DecidableEq

structure VerificationPolicy where
  t2T3Mode : T2T3Mode
  requiredAttestationTypes : List AttestationType
  minimumAttestationCountPerType : List AttestationCount

/-- Behaviour towards running and new workflows on revocation. -/
inductive RevocationPolicy
  | hardStop
  | finishPinned
  | auditOnly
deriving DecidableEq

inductive RevocationReasonClass
  | keyCompromise
  | legalInvalidity
  | routineSupersession
  | advisory
deriving DecidableEq

/-! ## Pinned versions -/

def irSchemaVersion : SemVer := ⟨0, 5, 0⟩

def codecVersion : String := "postcard-1"

def canonicalizationVersion : String := "ke-canon-5"

/-- Earliest year accepted by the structural date validator. -/
def minYear : Int := 1900

/-! ## Sorting -/

/-- `sort`, stable, by a comparison. -/
def sortBy {α : Type} (cmp : α → α → Ordering) (l : List α) : List α := l.insertionSort (fun a b => cmp a b ≠ .gt)

theorem perm_sortBy {α : Type} (cmp : α → α → Ordering) (l : List α) :
    (sortBy cmp l).Perm l := List.perm_insertionSort _ l

/-- `sort` then `dedup`. -/
def sortDedup (l : List String) : List String := (sortBy compare l).destutter (· ≠ ·)

/-! ## Recursion over the tree of conditions -/

/-- Induction over a condition tree with a hypothesis for each item of a list. -/
theorem ConditionOrGroup.ind {p : ConditionOrGroup → Prop} (hc : ∀ c, p (.condition c))
    (hg : ∀ all any, (∀ items ∈ all, ∀ x ∈ items, p x) → (∀ items ∈ any, ∀ x ∈ items, p x) → p (.group all any)) :
    ∀ x, p x := by
  intro x
  refine @ConditionOrGroup.rec p (fun o => ∀ items ∈ o, ∀ x ∈ items, p x) (fun items => ∀ x ∈ items, p x)
    hc hg ?_ ?_ ?_ ?_ x
  · intro items h; cases h
  · intro items ih l hl
    cases hl
    exact ih
  · intro x h; cases h
  · intro y ys hy hys x hx
    rcases List.mem_cons.1 hx with rfl | h
    · exact hy
    · exact hys x h

/-- Induction over a scalar with a hypothesis for each item of a list. -/
theorem ScalarValue.ind {p : ScalarValue → Prop} (hs : ∀ s, p (.str s)) (hb : ∀ b, p (.bool b))
    (hd : ∀ m s, p (.decimal m s)) (hl : ∀ items, (∀ x ∈ items, p x) → p (.list items)) : ∀ v, p v := by
  intro v
  refine @ScalarValue.rec p (fun items => ∀ x ∈ items, p x) hs hb hd hl ?_ ?_ v
  · intro x h; cases h
  · intro y ys hy hys x hx
    rcases List.mem_cons.1 hx with rfl | h
    · exact hy
    · exact hys x h

end Ke
