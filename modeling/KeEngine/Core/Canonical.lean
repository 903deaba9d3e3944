/-
Canonical encoding: a value is normalised (decimals folded, tags sorted by their encoded bytes,
text, dates and zones checked) and then serialised; the decoder deserialises and checks every
invariant again. Unicode normalisation is a table this development does not carry: `isNfc` is a
parameter throughout.
-/
import KeEngine.Core.Postcard

namespace Ke

open Wire

/-! ## Errors -/

inductive CanonicalError
  | codec (e : EncodeError)
  | nonNfcString (value : String)
  | invalidDate (year : I16) (month day : UInt8)
  | unknownTimeZone (name : String)
  | decimalOverflow (mantissa : I128) (scale : I8)
  | duplicateSetElement
deriving DecidableEq

inductive CanonicalDecodeError
  | codec (e : DecodeError)
  | encode (e : EncodeError)
  | trailingBytes
  | unsortedSet
  | duplicateSetElement
  | nonNfcString
  | invalidDate (year : I16) (month day : UInt8)
  | unknownTimeZone (name : String)
  | nonCanonicalDecimal (mantissa : I128) (scale : I8)
deriving DecidableEq

/-! ## Decimals -/

/-- `m / 10`, used on multiples of ten only, where rounding does not matter. -/
def tenth (m : I128) : I128 :=
  ⟨m.val / 10, by have h := m.lo; norm_num at h ⊢; omega, by have h := m.hi; norm_num at h ⊢; omega⟩

/-- `k` checked multiplications by ten. -/
def foldNegative : Nat → I128 → Option I128
  | 0, m => some m
  | k + 1, m => (SInt.ofInt? 128 (m.val * 10)).bind (foldNegative k)

/-- Strip up to `k` trailing zeros; the result carries the scale that is left. -/
def stripZeros : Nat → I128 → I128 × Nat
  | 0, m => (m, 0)
  | k + 1, m => if m.val ≠ 0 ∧ m.val % 10 = 0 then stripZeros k (tenth m) else (m, k + 1)

theorem stripZeros_le : ∀ (k : Nat) (m : I128), (stripZeros k m).2 ≤ k
  | 0, _ => le_rfl
  | k + 1, m => by
    simp only [stripZeros]
    split
    · exact (stripZeros_le k (tenth m)).trans (Nat.le_succ k)
    · exact le_rfl

/-- The scale of a stripped decimal, an `i8` again. -/
def stripScale (scale : I8) (m : I128) : I8 :=
  ⟨(stripZeros scale.val.toNat m).2, by norm_num, by
    have h := stripZeros_le scale.val.toNat m
    have h' := scale.hi
    norm_num at h' ⊢
    omega⟩

/-- Fold a decimal into canonical form: a scale that is not negative, no trailing zeros, and zero
as `(0, 0)`. -/
def normalizeDecimal (mantissa : I128) (scale : I8) : Except CanonicalError (I128 × I8) :=
  match foldNegative (-scale.val).toNat mantissa with
  | none => .error (.decimalOverflow mantissa scale)
  | some m =>
    let stripped := (stripZeros scale.val.toNat m).1
    if stripped.val = 0 then .ok (stripped, .lit 8 0) else .ok (stripped, stripScale scale m)

def checkDecimalCanonical (mantissa : I128) (scale : I8) : Except CanonicalDecodeError Unit :=
  if 0 ≤ scale.val ∧ ¬ (0 < scale.val ∧ mantissa.val ≠ 0 ∧ mantissa.val % 10 = 0) ∧
      ¬ (mantissa.val = 0 ∧ scale.val ≠ 0) then .ok ()
  else .error (.nonCanonicalDecimal mantissa scale)

/-! ## Text, dates, zones -/

/-- Time zones the encoder accepts. -/
def knownTimeZones : List String :=
  ["UTC", "Europe/Brussels", "Europe/Berlin", "Europe/London", "Europe/Zurich", "Asia/Singapore",
    "America/New_York"]

def validDate (d : JurisdictionDate) : Prop :=
  minYear ≤ d.year.val ∧ (1 ≤ d.month ∧ d.month ≤ 12) ∧ 1 ≤ d.day ∧ d.day ≤ 31

instance (d : JurisdictionDate) : Decidable (validDate d) := inferInstanceAs (Decidable (_ ∧ _))

/-- The leaf checks that the encoder and the decoder make at the same places, each with errors of
its own. -/
structure Checks (ε : Type) where
  nfc : String → Except ε Unit
  date : JurisdictionDate → Except ε Unit
  knownTz : String → Except ε Unit

/-- `ensure_nfc`, `ensure_date` and `ensure_known_tz` -/
def ensure (isNfc : String → Bool) : Checks CanonicalError where
  nfc s := if isNfc s then .ok () else .error (.nonNfcString s)
  date d := if validDate d then .ok () else .error (.invalidDate d.year d.month d.day)
  knownTz name := if name ∈ knownTimeZones then .ok () else .error (.unknownTimeZone name)

/-- `check_nfc`, `check_date` and `check_known_tz` -/
def check (isNfc : String → Bool) : Checks CanonicalDecodeError where
  nfc s := if isNfc s then .ok () else .error .nonNfcString
  date d := if validDate d then .ok () else .error (.invalidDate d.year d.month d.day)
  knownTz name := if name ∈ knownTimeZones then .ok () else .error (.unknownTimeZone name)

namespace Checks

variable {ε : Type} (k : Checks ε)

def optNfc : Option String → Except ε Unit
  | none => .ok ()
  | some s => k.nfc s

def allNfc : List String → Except ε Unit
  | [] => .ok ()
  | s :: ss => do
    k.nfc s
    allNfc ss

def optDate : Option JurisdictionDate → Except ε Unit
  | none => .ok ()
  | some d => k.date d

def sourceSpan (s : SourceSpan) : Except ε Unit := do
  k.nfc s.documentId
  k.optNfc s.article
  k.optNfc s.section_
  k.optNfc s.paragraph

def optSourceSpan : Option SourceSpan → Except ε Unit
  | none => .ok ()
  | some s => k.sourceSpan s

def docRef (d : DocumentRef) : Except ε Unit := do
  k.nfc d.documentId
  k.optNfc d.article
  k.optNfc d.section_
  k.allNfc d.paragraphs
  k.optNfc d.url

def obligation (o : ObligationSpec) : Except ε Unit := do
  k.nfc o.id
  k.optNfc o.description
  k.optNfc o.deadline
  k.optSourceSpan o.sourceSpan

def obligations : List ObligationSpec → Except ε Unit
  | [] => .ok ()
  | o :: os => do
    k.obligation o
    obligations os

def leaf (l : DecisionLeaf) : Except ε Unit := do
  k.nfc l.result
  k.obligations (l.obligations.getD [])
  k.optNfc l.notes
  k.optSourceSpan l.sourceSpan

def timeZone (tz : TimeZone) : Except ε Unit := do
  k.knownTz tz.name
  k.nfc tz.tzDataVersion

def window (w : EffectiveWindow) : Except ε Unit := do
  k.date w.effectiveFrom
  k.optDate w.effectiveTo
  match w.jurisdictionTimeZone with
  | none => .ok ()
  | some tz => k.timeZone tz

def optWindow : Option EffectiveWindow → Except ε Unit
  | none => .ok ()
  | some w => k.window w

def provenance : ProvenanceMarker → Except ε Unit
  | .candidate (some id) => k.nfc id
  | .mlChecked policyVersion => k.nfc policyVersion
  | .published environment => k.nfc environment
  | _ => .ok ()

def manifest (m : Manifest) : Except ε Unit := do
  k.nfc m.regimeId
  k.nfc m.codecVersion
  k.nfc m.canonicalizationVersion
  k.nfc m.attestationPolicyVersion
  k.date m.effectiveFrom
  k.optDate m.effectiveTo

end Checks

/-! ## Sets -/

/-- Sort by encoded bytes, stably; equal encodings are refused. -/
def canonicalizeSet {α : Type} (c : Codec α) (items : List α) : Except CanonicalError (List α) :=
  match items.mapM (fun a => (c.enc a).map (fun key => (key, a))) with
  | .error e => .error (.codec e)
  | .ok keyed =>
    let sorted := keyed.insertionSort (fun x y => ¬ y.1 < x.1)
    if (sorted.zip sorted.tail).any (fun p => p.1.1 == p.2.1) then .error .duplicateSetElement
    else .ok (sorted.map Prod.snd)

/-- Scan a decoded sequence: each encoding strictly after the one before. -/
def checkSetFrom {α : Type} (c : Codec α) : Option Bytes → List α → Except CanonicalDecodeError Unit
  | _, [] => .ok ()
  | prev, a :: as => do
    let key ← (c.enc a).mapError .encode
    match prev with
    | none => checkSetFrom c (some key) as
    | some p =>
      if key < p then .error .unsortedSet
      else if key = p then .error .duplicateSetElement
      else checkSetFrom c (some key) as

def checkSetCanonical {α : Type} (c : Codec α) (items : List α) : Except CanonicalDecodeError Unit :=
  checkSetFrom c none items

/-! ## Normalisation before encoding -/

section Encode

variable (isNfc : String → Bool)

def canonicalizeScalar : ScalarValue → Except CanonicalError ScalarValue
  | .str s => do
    (ensure isNfc).nfc s
    pure (.str s)
  | .bool b => pure (.bool b)
  | .decimal mantissa scale => do
    let (m, s) ← normalizeDecimal mantissa scale
    pure (.decimal m s)
  -- the order of a list is kept, its elements are normalised
  | .list items => do
    let items ← scalars items
    pure (.list items)
where
  scalars : List ScalarValue → Except CanonicalError (List ScalarValue)
    | [] => pure []
    | v :: vs => do
      let v ← canonicalizeScalar v
      let vs ← scalars vs
      pure (v :: vs)

def canonicalizeCondition (c : Condition) : Except CanonicalError Condition := do
  (ensure isNfc).nfc c.field
  (ensure isNfc).optNfc c.description
  let value ← canonicalizeScalar isNfc c.value
  pure { c with value }

def canonicalizeCondOrGroup : ConditionOrGroup → Except CanonicalError ConditionOrGroup
  | .condition c => do
    let c ← canonicalizeCondition isNfc c
    pure (.condition c)
  | .group all any => do
    let all ← optItems all
    let any ← optItems any
    pure (.group all any)
where
  optItems : Option (List ConditionOrGroup) → Except CanonicalError (Option (List ConditionOrGroup))
    | none => pure none
    | some items => do
      let items ← condItems items
      pure (some items)
  condItems : List ConditionOrGroup → Except CanonicalError (List ConditionOrGroup)
    | [] => pure []
    | x :: xs => do
      let x ← canonicalizeCondOrGroup x
      let xs ← condItems xs
      pure (x :: xs)

def canonicalizeGroup (g : ConditionGroupSpec) : Except CanonicalError ConditionGroupSpec := do
  let all ← canonicalizeCondOrGroup.optItems isNfc g.all
  let any ← canonicalizeCondOrGroup.optItems isNfc g.any
  pure ⟨all, any⟩

def canonicalizeEntry : DecisionEntry → Except CanonicalError DecisionEntry
  | .node nodeId condition trueBranch falseBranch sourceSpan => do
    (ensure isNfc).nfc nodeId
    let condition ← canonicalizeCondition isNfc condition
    let trueBranch ← canonicalizeEntry trueBranch
    let falseBranch ← canonicalizeEntry falseBranch
    (ensure isNfc).optSourceSpan sourceSpan
    pure (.node nodeId condition trueBranch falseBranch sourceSpan)
  | .leaf l => do
    (ensure isNfc).leaf l
    pure (.leaf l)

def canonicalizeTags : Option (List String) → Except CanonicalError (Option (List String))
  | none => pure none
  | some tags => do
    (ensure isNfc).allNfc tags
    let tags ← canonicalizeSet Codec.str tags
    pure (some tags)

def canonicalizeOptGroup : Option ConditionGroupSpec → Except CanonicalError (Option ConditionGroupSpec)
  | none => pure none
  | some group => do
    let group ← canonicalizeGroup isNfc group
    pure (some group)

def canonicalizeRule (r : RuleIR) : Except CanonicalError RuleIR := do
  (ensure isNfc).nfc r.ruleId
  (ensure isNfc).nfc r.ruleVersion
  (ensure isNfc).optNfc r.description
  (ensure isNfc).optNfc r.interpretationNotes
  let tags ← canonicalizeTags isNfc r.tags
  let appliesIf ← canonicalizeOptGroup isNfc r.appliesIf
  let decisionTree ← canonicalizeEntry isNfc r.decisionTree
  (ensure isNfc).obligations r.obligations
  (ensure isNfc).docRef r.source
  (ensure isNfc).optWindow r.effectiveWindow
  (ensure isNfc).provenance r.provenance
  pure { r with tags, appliesIf, decisionTree }

def canonicalizeRules : List RuleIR → Except CanonicalError (List RuleIR)
  | [] => pure []
  | r :: rs => do
    let r ← canonicalizeRule isNfc r
    let rs ← canonicalizeRules rs
    pure (r :: rs)

def canonicalizeManifest (m : Manifest) : Except CanonicalError Unit := (ensure isNfc).manifest m

/-- Canonical bytes of a rule. -/
def encodeRule (rule : RuleIR) : Except CanonicalError Bytes := do
  let c ← canonicalizeRule isNfc rule
  (Postcard.ruleIR.enc c).mapError .codec

end Encode

/-! ## Validation after decoding -/

section Decode

variable (isNfc : String → Bool)

def validateScalar : ScalarValue → Except CanonicalDecodeError Unit
  | .str s => (check isNfc).nfc s
  | .bool _ => .ok ()
  | .decimal mantissa scale => checkDecimalCanonical mantissa scale
  | .list items => scalars items
where
  scalars : List ScalarValue → Except CanonicalDecodeError Unit
    | [] => .ok ()
    | v :: vs => do
      validateScalar v
      scalars vs

def validateCondition (c : Condition) : Except CanonicalDecodeError Unit := do
  (check isNfc).nfc c.field
  (check isNfc).optNfc c.description
  validateScalar isNfc c.value

def validateCondOrGroup : ConditionOrGroup → Except CanonicalDecodeError Unit
  | .condition c => validateCondition isNfc c
  | .group all any => do
    optItems all
    optItems any
where
  optItems : Option (List ConditionOrGroup) → Except CanonicalDecodeError Unit
    | none => .ok ()
    | some items => condItems items
  condItems : List ConditionOrGroup → Except CanonicalDecodeError Unit
    | [] => .ok ()
    | x :: xs => do
      validateCondOrGroup x
      condItems xs

def validateGroup (g : ConditionGroupSpec) : Except CanonicalDecodeError Unit := do
  validateCondOrGroup.optItems isNfc g.all
  validateCondOrGroup.optItems isNfc g.any

def validateEntry : DecisionEntry → Except CanonicalDecodeError Unit
  | .node nodeId condition trueBranch falseBranch sourceSpan => do
    (check isNfc).nfc nodeId
    validateCondition isNfc condition
    validateEntry trueBranch
    validateEntry falseBranch
    (check isNfc).optSourceSpan sourceSpan
  | .leaf l => (check isNfc).leaf l

def validateTags : Option (List String) → Except CanonicalDecodeError Unit
  | none => .ok ()
  | some tags => do
    (check isNfc).allNfc tags
    checkSetCanonical Codec.str tags

def validateOptGroup : Option ConditionGroupSpec → Except CanonicalDecodeError Unit
  | none => .ok ()
  | some group => validateGroup isNfc group

def validateRule (r : RuleIR) : Except CanonicalDecodeError Unit := do
  (check isNfc).nfc r.ruleId
  (check isNfc).nfc r.ruleVersion
  (check isNfc).optNfc r.description
  (check isNfc).optNfc r.interpretationNotes
  validateTags isNfc r.tags
  validateOptGroup isNfc r.appliesIf
  validateEntry isNfc r.decisionTree
  (check isNfc).obligations r.obligations
  (check isNfc).docRef r.source
  (check isNfc).optWindow r.effectiveWindow
  (check isNfc).provenance r.provenance

def validateRules : List RuleIR → Except CanonicalDecodeError Unit
  | [] => .ok ()
  | r :: rs => do
    validateRule isNfc r
    validateRules rs

def validateManifest (m : Manifest) : Except CanonicalDecodeError Unit := (check isNfc).manifest m

/-- Strict decoding: no trailing bytes, every invariant checked. -/
def decodeRule (bytes : Bytes) : Except CanonicalDecodeError RuleIR := do
  let (rule, rest) ← (Postcard.ruleIR.dec bytes).mapError .codec
  if rest ≠ [] then throw .trailingBytes
  validateRule isNfc rule
  pure rule

end Decode

end Ke
