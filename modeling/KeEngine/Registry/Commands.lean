/-
The lifecycle commands as programs over the backend. A command takes what it reads outside the
registry as an argument: the loaded document, the loaded policy bundle, the clock. Signing keys are
the fixed-seed test keys.
-/
import KeEngine.Compiler.Lower
import KeEngine.Compiler.Verify
import KeEngine.Artifact.Expert
import KeEngine.Prog.FileTree
import KeEngine.Registry.Backend

namespace Ke.Registry

open Ke Wire Compiler

/-! ## Publish policies -/

/-- Each type required once, strictly. -/
def strictPolicy (required : List AttestationType) : VerificationPolicy where
  t2T3Mode := .strict
  requiredAttestationTypes := required
  minimumAttestationCountPerType := required.map fun t => ⟨t, 1⟩

def defaultVerificationPolicy : VerificationPolicy :=
  strictPolicy [.sourceFidelity, .scenarioCoverage, .publicationApproval]

def intentspecVerificationPolicy : VerificationPolicy := strictPolicy [.sourceFidelity, .publicationApproval]

def policyForKind : ArtifactKind → VerificationPolicy
  | .intentSpec => intentspecVerificationPolicy
  | .regimePack | .equivalenceMatrix | .testCorpus | .policyBundle => defaultVerificationPolicy

/-- The policy of a bundle, when one is given, or the one of the kind; the bundle may fail to load. -/
def resolvePolicy (bundle : Option (Except String VerificationPolicy)) (kind : ArtifactKind) :
    Except RegistryError VerificationPolicy :=
  match bundle with
  | none => .ok (policyForKind kind)
  | some loaded => loaded.mapError .policyLoad

/-! ## Revocation policies -/

/-- The least policy that a reason class demands. -/
def revocationFloor : RevocationReasonClass → RevocationPolicy
  | .keyCompromise | .legalInvalidity => .hardStop
  | .routineSupersession => .finishPinned
  | .advisory => .auditOnly

def strictnessRank : RevocationPolicy → Nat
  | .hardStop => 2
  | .finishPinned => 1
  | .auditOnly => 0

/-- The stricter of the floor and the configured policy. -/
def revocationDecision (reason : RevocationReasonClass) (configured : Option RevocationPolicy) : RevocationPolicy :=
  match configured with
  | some c => if strictnessRank (revocationFloor reason) < strictnessRank c then c else revocationFloor reason
  | none => revocationFloor reason

def RevocationPolicy.debug : RevocationPolicy → String
  | .hardStop => "HardStop"
  | .finishPinned => "FinishPinned"
  | .auditOnly => "AuditOnly"

def RevocationReasonClass.debug : RevocationReasonClass → String
  | .keyCompromise => "KeyCompromise"
  | .legalInvalidity => "LegalInvalidity"
  | .routineSupersession => "RoutineSupersession"
  | .advisory => "Advisory"

/-- The policy to record, or the message that refuses the arguments. -/
def recordedPolicy (policy : Option RevocationPolicy) (reasonClass : Option RevocationReasonClass) :
    Except String RevocationPolicy :=
  match policy, reasonClass with
  | some p, none => .ok p
  | some c, some reason =>
    if strictnessRank c < strictnessRank (revocationFloor reason) then
      .error (s!"--policy {RevocationPolicy.debug c} is below the {RevocationReasonClass.debug reason} floor " ++
        s!"{RevocationPolicy.debug (revocationFloor reason)}; a configured policy may only raise strictness above " ++
        "the floor (ADR-0009 § 4)")
    else .ok (revocationDecision reason (some c))
  | none, some reason => .ok (revocationDecision reason none)
  | none, none => .error "revoke requires --policy or --reason-class"

def severityFor : RevocationPolicy → String
  | .auditOnly => "high"
  | _ => "normal"

/-! ## Intent documents -/

structure CriterionInput where
  name : String
  threshold : String
  volatility : String

structure IdempotencyInput where
  scope : String
  keyFields : List String

/-- The authoring document of an intent. -/
structure IntentSpecInput where
  actionClass : String
  criteria : List CriterionInput
  idempotency : IdempotencyInput
  sourceSpans : List SourceSpan

inductive IntentSpecError
  | noCriteria
  | emptyDecimal (criterion : String)
  | noDigits (criterion : String)
  | nonDigit (criterion : String)
  | tooManyFractionalDigits (criterion : String)
  | overflow (criterion : String)
  | volatility (criterion got : String)

/-- A decimal without floats, folded to canonical form. -/
def parseThreshold (criterion threshold : String) : Except IntentSpecError ScalarValue :=
  let t := trim threshold
  let (neg, body) := match t with
    | '-' :: rest => (true, rest)
    | '+' :: rest => (false, rest)
    | t => (false, t)
  let (intPart, fracPart) := splitOnce '.' body
  if t.isEmpty then .error (.emptyDecimal criterion)
  else if intPart.isEmpty && fracPart.isEmpty then .error (.noDigits criterion)
  else if !(intPart ++ fracPart).all Char.isDigit then .error (.nonDigit criterion)
  else
    match SInt.ofInt? 8 fracPart.length with
    | none => .error (.tooManyFractionalDigits criterion)
    | some scale =>
      match (parseDigits (intPart ++ fracPart)).bind fun n => (SInt.ofInt? 128 n).bind fun mantissa =>
          SInt.ofInt? 128 (if neg then -mantissa.val else mantissa.val) with
      | none => .error (.overflow criterion)
      | some mantissa =>
        let stripped := (stripZeros scale.val.toNat mantissa).1
        if stripped.val = 0 then .ok (.decimal stripped (.lit 8 0))
        else .ok (.decimal stripped (stripScale scale mantissa))

def parseVolatility (criterion volatility : String) : Except IntentSpecError Volatility :=
  let word := String.ofList ((trim volatility).map Char.toLower)
  if word = "stable" then .ok .stable
  else if word = "volatile" then .ok .volatile
  else .error (.volatility criterion word)

def parseIntentSpec (input : IntentSpecInput) : Except IntentSpecError IntentSpecIR := do
  let criteria ←
    if input.criteria.isEmpty then .error .noCriteria
    else input.criteria.mapM fun c => do
      let threshold ← parseThreshold c.name c.threshold
      let volatility ← parseVolatility c.name c.volatility
      pure (AuthorizationCriterion.mk c.name threshold volatility)
  pure ⟨input.actionClass, criteria, ⟨input.idempotency.keyFields, input.idempotency.scope⟩, input.sourceSpans⟩

/-! ## Commands -/

/-- Why a command returns `Err`. -/
inductive CommandError
  | registry (e : RegistryError)
  /-- an operation of the file system failed -/
  | io (e : FileTree.FileError)
  /-- the document cannot be read or is no YAML or JSON of its shape -/
  | load (message : String)
  | compile (e : CompileError)
  | blocking (report : VerificationReport)
  | intentSpec (e : IntentSpecError)
  | seed (e : EncodeError)
  | assemble (e : ArtifactError)
  | noTypes
  | priorState (found : LifecycleState)
  | precondition
  | signAttestation (e : PostcardError)
  | appendAttestations (e : ArtifactError)
  | movedAddress (from_ to_ : Hash32)
  | alteredSignature
  | revocationArguments (message : String)
  /-- the assertion of a debug build that the log says what was appended -/
  | derivedState (derived final : LifecycleState)

/-- A command over the backend. -/
abbrev Command (α : Type) := Prog BackendOp CommandError α

/-- One operation of a command. -/
def perform {β : Type} (op : BackendOp β) (r : Backend) : Except CommandError β × Backend :=
  ((exec op r).1.mapError .registry, (exec op r).2)

/-- A computation of the registry code that calls no operation. -/
def ofRegistry {α : Type} (result : Except RegistryError α) : Command α := .done (result.mapError .registry)

/-- `bail!` unless a condition holds. -/
def ensure (c : Prop) [Decidable c] (e : CommandError) : Command Unit := .done (if c then .ok () else .error e)

section

variable (X : Externals)

/-- The state of a log, which must not be empty. -/
def requireCurrentState (hash : Hash32) : Command LifecycleState := do
  let events ← Prog.op (.readEvents hash)
  ofRegistry ((currentState X events).bind fun state => state.elim (.error .noState) .ok)

/-- The last event of a log that passes the walk. -/
def headEvent (hash : Hash32) : Command LifecycleEvent := do
  let events ← Prog.op (.readEvents hash)
  ofRegistry ((currentState X events).bind fun _ => events.getLast?.elim (.error .noState) .ok)

/-- Append the event that is built on the head, stamped by the mock authority. -/
def appendChained (hash : Hash32) (build : LifecycleEvent → Except RegistryError LifecycleEvent) :
    Command LifecycleEvent := do
  let prior ← headEvent X hash
  let event ← ofRegistry (build prior)
  Prog.op (.appendEvent hash event)
  pure event

/-- A transition under the registry root. -/
def registryTransition (hash : Hash32) (newState : LifecycleState) (nowUnix : UInt64) (prior : LifecycleEvent) :
    Except RegistryError LifecycleEvent :=
  buildTransitionEvent X prior newState TestKeys.registryRootKeyId .registry (mockStamp X hash nowUnix)

/-! ### compile -/

def syntheticManifest (artifactKind : ArtifactKind) (regimeId : String) (effectiveFrom : JurisdictionDate)
    (artifactBytes : Bytes) : Manifest where
  artifactKind
  artifactHash := X.blake3 artifactBytes
  regimeId
  effectiveFrom
  effectiveTo := none
  compilerVersion := ⟨0, 1, 0⟩
  compilerBuildHash := zeroHash
  irSchemaVersion := Ke.irSchemaVersion
  codecVersion := Ke.codecVersion
  canonicalizationVersion := Ke.canonicalizationVersion
  corpusRootHash := X.blake3 artifactBytes
  sourceCorpusHash := X.blake3 artifactBytes
  attestationPolicyVersion := "ap-1"

/-- The floor of the effective dates. -/
def floorDate : JurisdictionDate := ⟨.lit 16 1900, 1, 1⟩

/-- What `compile` assembles from a document. -/
def assembleRules (document : YamlNode) (regimeId : String) : Except CommandError (Artifact × Bytes) := do
  let rules ← (compileRules document).mapError .compile
  if (verify rules).hasBlocking then throw (.blocking (verify rules))
  let effectiveFrom := ((rules.head?.bind (·.effectiveWindow)).map (·.effectiveFrom)).getD floorDate
  let seedBytes ← ((Codec.seq Postcard.ruleIR).enc rules).mapError .seed
  (assemblePayload X (syntheticManifest X .regimePack regimeId effectiveFrom seedBytes) (.rules rules) ⟨none, none⟩
    TestKeys.fixedSeed TestKeys.testKeyId).mapError .assemble

/-- What `compile-intent` assembles from a document. -/
def assembleIntentSpec (document : IntentSpecInput) (regimeId : String) : Except CommandError (Artifact × Bytes) := do
  let ir ← (parseIntentSpec document).mapError .intentSpec
  let seedBytes ← (Postcard.intentSpecIR.enc ir).mapError .seed
  (assemblePayload X (syntheticManifest X .intentSpec regimeId floorDate seedBytes) (.intentSpec ir) ⟨none, none⟩
    TestKeys.fixedSeed TestKeys.testKeyId).mapError .assemble

/-- What is known of assembled bytes. -/
def structuralPreconditions (kew : Bytes) (structuralClean : Bool) : Preconditions :=
  { Preconditions.none with
    structuralClean
    compilerSignatureValid := (verifyHash X kew).isOk && compilerSignatureValid X kew TestKeys.fixedSeed }

/-- The state that the log says, against the one that was appended last. -/
def derivedState (hash : Hash32) (finalState : LifecycleState) : Command LifecycleState := do
  let events ← Prog.op (.readEvents hash)
  let derived ← ofRegistry ((currentState X events).bind fun state =>
    state.elim (.error (.notFound "post-compile state")) .ok)
  ensure (derived = finalState) (.derivedState derived finalState)
  pure derived

/-- Store the artifact, record its draft, and record it structurally verified when it is. -/
def storeAndRecord (artifact : Artifact) (kew : Bytes) (structuralClean : Bool) (nowUnix : UInt64) :
    Command LifecycleState := do
  let hash := artifact.manifest.artifactHash
  Prog.op (.putArtifact hash kew)
  let draft ← ofRegistry (buildDraftEvent X hash TestKeys.registryRootKeyId (mockStamp X hash nowUnix))
  Prog.op (.appendEvent hash draft)
  let finalState ←
    if canTransition .draft .structurallyVerified (structuralPreconditions X kew structuralClean) then do
      let sv ← ofRegistry (buildTransitionEvent X draft .structurallyVerified TestKeys.testKeyId .registry
        (mockStamp X hash nowUnix))
      Prog.op (.appendEvent hash sv)
      pure LifecycleState.structurallyVerified
    else pure LifecycleState.draft
  derivedState X hash finalState

def compile (document : Except String YamlNode) (regimeId : String) (nowUnix : UInt64) : Command LifecycleState := do
  let document ← Prog.ofExcept (document.mapError .load)
  let (artifact, kew) ← Prog.ofExcept (assembleRules X document regimeId)
  storeAndRecord X artifact kew true nowUnix

def compileIntent (document : Except String IntentSpecInput) (regimeId : String) (nowUnix : UInt64) :
    Command LifecycleState := do
  let document ← Prog.ofExcept (document.mapError .load)
  let (artifact, kew) ← Prog.ofExcept (assembleIntentSpec X document regimeId)
  storeAndRecord X artifact kew true nowUnix

/-! ### ml-check -/

/-- The stand-in evidence of a local check. -/
def devConsistencyBlock (nowUnix : UInt64) : ConsistencyBlock where
  tierResult := "dev_standin_pass"
  policyMode := .advisory
  modelName := "dev-standin"
  modelVersion := "0.0.0"
  scoringProfileVersion := none
  evidenceReferences := []
  reviewerOverrides := []
  reviewerRationale :=
    some "DEV STAND-IN: non-authoritative local ml-check; real T2/T3 is platform-owned (ADR 0011)"
  timestamp := toString nowUnix.toNat
  executionEnvironment := "local-dev-standin"

def mlCheck (hash : Hash32) (nowUnix : UInt64) : Command LifecycleState := do
  let prior ← requireCurrentState X hash
  ensure (prior = .structurallyVerified) (.priorState prior)
  Prog.op (.putConsistency hash (devConsistencyBlock nowUnix))
  let sidecar ← Prog.op (.readConsistency hash)
  let pre := { Preconditions.none with consistencyBlockPresent := sidecar.isSome }
  ensure (canTransition .structurallyVerified .mlChecked pre = true) .precondition
  let _ ← appendChained X hash (registryTransition X hash .mlChecked nowUnix)
  requireCurrentState X hash

/-! ### attest -/

/-- The attestations of the test expert, and the artifact with them. -/
def attestArtifact (artifact : Artifact) (types : List AttestationType) (nowUnix : UInt64) :
    Except CommandError (Artifact × Bytes) := do
  let attestations ← types.mapM fun t =>
    (signAttestation X (expertPayload X artifact.manifest t nowUnix) TestKeys.expertFixedSeed).mapError
      CommandError.signAttestation
  let (attested, kew) ← (artifact.withAttestations attestations).mapError .appendAttestations
  if attested.manifest.artifactHash ≠ artifact.manifest.artifactHash then
    throw (.movedAddress artifact.manifest.artifactHash attested.manifest.artifactHash)
  if attested.compilerSignature ≠ artifact.compilerSignature then throw .alteredSignature
  pure (attested, kew)

def attest (hash : Hash32) (types : List AttestationType) (nowUnix : UInt64) : Command LifecycleState := do
  ensure (types ≠ []) .noTypes
  let prior ← requireCurrentState X hash
  ensure (prior = .mlChecked) (.priorState prior)
  let kew ← Prog.op (.readArtifactKew hash)
  let (artifact, _) ← ofRegistry ((decodeArtifact X kew).mapError .artifactDecode)
  let (attested, attestedKew) ← Prog.ofExcept (attestArtifact X artifact types nowUnix)
  Prog.op (.putArtifact artifact.manifest.artifactHash attestedKew)
  ofRegistry ((verifyAttestationSet X attested permissivePolicy (testExpertKeyDirectory X)
    (localPolicyContext nowUnix)).mapError .attestationSetRejected)
  let pre := { Preconditions.none with attestationSetValid := true }
  ensure (canTransition .mlChecked .expertAttested pre = true) .precondition
  let _ ← appendChained X hash (registryTransition X hash .expertAttested nowUnix)
  requireCurrentState X hash

/-! ### publish -/

def publish (hash : Hash32) (env tag : String) (bundle : Option (Except String VerificationPolicy))
    (nowUnix : UInt64) : Command LifecycleState := do
  let prior ← requireCurrentState X hash
  ensure (prior = .expertAttested) (.priorState prior)
  let kew ← Prog.op (.readArtifactKew hash)
  let (artifact, _) ← ofRegistry ((decodeArtifact X kew).mapError .artifactDecode)
  let policy ← ofRegistry (resolvePolicy bundle artifact.manifest.artifactKind)
  ofRegistry ((verifyAttestationSet X artifact policy (testExpertKeyDirectory X)
    (localPolicyContext nowUnix)).mapError .attestationSetRejected)
  let pre := { Preconditions.none with priorIsExpertAttested := true }
  ensure (canTransition .expertAttested .published pre = true) .precondition
  let event ← appendChained X hash (registryTransition X hash .published nowUnix)
  Prog.op (.putPointer env tag hash s!"published@seq{event.seq.toNat}")
  requireCurrentState X hash

/-! ### deprecate, revoke, rollback -/

def deprecateArtifact (hash : Hash32) (nowUnix : UInt64) : Command LifecycleState := do
  let prior ← requireCurrentState X hash
  ensure (prior = .published) (.priorState prior)
  ensure (canTransition .published .deprecated Preconditions.none = true) .precondition
  let _ ← appendChained X hash (registryTransition X hash .deprecated nowUnix)
  requireCurrentState X hash

def revoke (hash : Hash32) (policy : Option RevocationPolicy) (reasonClass : Option RevocationReasonClass)
    (reason : Option String) (nowUnix : UInt64) : Command LifecycleState := do
  let policy ← Prog.ofExcept ((recordedPolicy policy reasonClass).mapError .revocationArguments)
  let prior ← requireCurrentState X hash
  ensure (prior = .published ∨ prior = .deprecated) (.priorState prior)
  ensure (canTransition prior .revoked Preconditions.none = true) .precondition
  let event ← appendChained X hash (registryTransition X hash .revoked nowUnix)
  Prog.op (.putRevocation hash {
    policy
    reason
    eventRef := s!"revoked@seq{event.seq.toNat}"
    severity := severityFor policy
    reasonClass })
  requireCurrentState X hash

def rollback (env tag : String) (toHash : Hash32) (nowUnix : UInt64) : Command LifecycleState := do
  let state ← requireCurrentState X toHash
  ensure (isRollbackEligible state = true) (.registry (.rollbackIneligible state))
  let event ← appendChained X toHash fun prior =>
    buildTagMovedEvent X prior TestKeys.registryRootKeyId .registry (mockStamp X toHash nowUnix)
  Prog.op (.putPointer env tag toHash s!"tag_moved@seq{event.seq.toNat}")
  requireCurrentState X toHash

/-! ### Command lines -/

/-- A command with its arguments. -/
inductive CommandLine
  | compile (document : Except String YamlNode) (regimeId : String) (nowUnix : UInt64)
  | compileIntent (document : Except String IntentSpecInput) (regimeId : String) (nowUnix : UInt64)
  | mlCheck (hash : Hash32) (nowUnix : UInt64)
  | attest (hash : Hash32) (types : List AttestationType) (nowUnix : UInt64)
  | publish (hash : Hash32) (env tag : String) (bundle : Option (Except String VerificationPolicy)) (nowUnix : UInt64)
  | deprecateArtifact (hash : Hash32) (nowUnix : UInt64)
  | revoke (hash : Hash32) (policy : Option RevocationPolicy) (reasonClass : Option RevocationReasonClass)
      (reason : Option String) (nowUnix : UInt64)
  | rollback (env tag : String) (toHash : Hash32) (nowUnix : UInt64)

/-- The names of the environment and the tag that a command sets are plain, so that their path stays in the store of
tags. -/
def CommandLine.Plain : CommandLine → Prop
  | .publish _ env tag _ _ | .rollback env tag _ _ => FileTree.Plain env ∧ '/' ∉ tag.toList
  | .compile .. | .compileIntent .. | .mlCheck .. | .attest .. | .deprecateArtifact .. | .revoke .. => True

instance : DecidablePred CommandLine.Plain
  | .publish _ env tag _ _ | .rollback env tag _ _ =>
    inferInstanceAs (Decidable (FileTree.Plain env ∧ '/' ∉ tag.toList))
  | .compile .. | .compileIntent .. | .mlCheck .. | .attest .. | .deprecateArtifact .. | .revoke .. =>
    inferInstanceAs (Decidable True)

def CommandLine.command : CommandLine → Command LifecycleState
  | .compile document regimeId nowUnix => Registry.compile X document regimeId nowUnix
  | .compileIntent document regimeId nowUnix => Registry.compileIntent X document regimeId nowUnix
  | .mlCheck hash nowUnix => Registry.mlCheck X hash nowUnix
  | .attest hash types nowUnix => Registry.attest X hash types nowUnix
  | .publish hash env tag bundle nowUnix => Registry.publish X hash env tag bundle nowUnix
  | .deprecateArtifact hash nowUnix => Registry.deprecateArtifact X hash nowUnix
  | .revoke hash policy reasonClass reason nowUnix => Registry.revoke X hash policy reasonClass reason nowUnix
  | .rollback env tag toHash nowUnix => Registry.rollback X env tag toHash nowUnix

/-- One command on a registry, to its end. -/
def CommandLine.run (c : CommandLine) (r : Backend) : Except CommandError LifecycleState × Backend :=
  (c.command X).run perform r

/-- Commands one after the other, whether they fail or not. -/
def runAll (commands : List CommandLine) (r : Backend) : Backend :=
  commands.foldl (fun r c => (c.run X r).2) r

end

end Ke.Registry
