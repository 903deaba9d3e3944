/-
Lifecycle events: signed by the registry root over their payload prefix, chained by the hash of the
whole event before. The lifecycle state of an artifact is the `newState` of the last event of its
log; `currentState` walks the log and checks numbers, links and signatures.
-/
import KeEngine.Artifact.ArtifactLaws

namespace Ke.Registry

open Ke Wire

/-! ## Lifecycle states -/

/-- The states in their forward order. -/
inductive LifecycleState
  | draft
  | structurallyVerified
  | mlChecked
  | expertAttested
  | published
  | deprecated
  | revoked
deriving DecidableEq

/-- The kind of the event that produces the state. -/
def LifecycleState.eventKind : LifecycleState → String
  | .draft => "draft"
  | .structurallyVerified => "structurally_verified"
  | .mlChecked => "ml_checked"
  | .expertAttested => "expert_attested"
  | .published => "published"
  | .deprecated => "deprecated"
  | .revoked => "revoked"

/-- The name that `Debug` prints. -/
def LifecycleState.debug : LifecycleState → String
  | .draft => "Draft"
  | .structurallyVerified => "StructurallyVerified"
  | .mlChecked => "MlChecked"
  | .expertAttested => "ExpertAttested"
  | .published => "Published"
  | .deprecated => "Deprecated"
  | .revoked => "Revoked"

def isRollbackEligible (state : LifecycleState) : Bool := decide (state = .published)

/-- What the registry evaluates before it appends a transition. -/
structure Preconditions where
  structuralClean : Bool
  compilerSignatureValid : Bool
  consistencyBlockPresent : Bool
  attestationSetValid : Bool
  priorIsExpertAttested : Bool

/-- `Preconditions::default()` -/
def Preconditions.none : Preconditions := ⟨false, false, false, false, false⟩

/-- The transition table. -/
def canTransition (source target : LifecycleState) (pre : Preconditions) : Bool :=
  match source, target with
  | .draft, .structurallyVerified => pre.structuralClean && pre.compilerSignatureValid
  | .structurallyVerified, .mlChecked => pre.consistencyBlockPresent
  | .mlChecked, .expertAttested => pre.attestationSetValid
  | .expertAttested, .published => pre.priorIsExpertAttested
  | .published, .deprecated => true
  | .published, .revoked => true
  | .deprecated, .revoked => true
  | _, _ => false

/-! ## Errors -/

inductive RegistryError
  | seqGap (expected found : UInt32)
  | chainBroken (seq : UInt32)
  | signatureInvalid (seq : UInt32)
  | chainGenesisInvalid (seq : UInt32)
  | eventEncode (e : PostcardError)
  | eventJsonDecode
  | artifactDecode (e : ArtifactError)
  | badHashHex (hex : String)
  | eventExists (seq : UInt32)
  | notFound (selector : String)
  | ambiguous (selector : String) (count : Nat)
  | resolvedHashMismatch (selector : String)
  | rollbackIneligible (state : LifecycleState)
  | attestationSetRejected (rejections : List AttestationRejection)
  | policyLoad (message : String)
  | sidecarExists (kind : String)
  | noState
  /-- no error of the source but a panic of its checked arithmetic -/
  | seqOverflow
deriving DecidableEq

/-! ## Events -/

/-- Every field of an event but its signature. -/
structure EventPayload where
  artifactHash : Hash32
  seq : UInt32
  priorState : Option LifecycleState
  newState : LifecycleState
  eventKind : String
  authorityKeyId : String
  authorityRole : SignerRole
  timestamp : TimestampToken
  prevEventHash : Option Hash32
deriving DecidableEq

structure LifecycleEvent extends EventPayload where
  signature : Sig64
deriving DecidableEq

end Ke.Registry

namespace Ke.Postcard

open Ke Wire Codec Registry

def lifecycleState : Codec LifecycleState :=
  enum [const .draft, const .structurallyVerified, const .mlChecked, const .expertAttested, const .published,
    const .deprecated, const .revoked]

def eventPayload : Codec EventPayload :=
  (hash32.pair (u32.pair (lifecycleState.option.pair (lifecycleState.pair (str.pair (str.pair (signerRole.pair
      (timestampToken.pair hash32.option)))))))).iso
    (fun e => (e.artifactHash, e.seq, e.priorState, e.newState, e.eventKind, e.authorityKeyId, e.authorityRole,
      e.timestamp, e.prevEventHash))
    (fun (h, s, p, n, k, a, r, t, l) => ⟨h, s, p, n, k, a, r, t, l⟩) (fun _ => rfl)

def lifecycleEvent : Codec LifecycleEvent :=
  (eventPayload.pair sig64).iso (fun e => (e.toEventPayload, e.signature)) (fun (p, s) => ⟨p, s⟩) (fun _ => rfl)

end Ke.Postcard

namespace Ke.Registry

open Ke Wire

/-- The signed bytes of an event. -/
def LifecycleEvent.payloadPrefix (e : LifecycleEvent) : Except RegistryError Bytes :=
  (signedPrefix Postcard.lifecycleEvent Postcard.eventPayload e).mapError .eventEncode

section

variable (X : Externals)

/-- The hash of the whole event, its signature included: the link of the next event. -/
def LifecycleEvent.chainHash (e : LifecycleEvent) : Except RegistryError Hash32 := do
  let bytes ← (Postcard.lifecycleEvent.enc e).mapError fun e => RegistryError.eventEncode (.encode e)
  pure (X.blake3 bytes)

/-- The embedded public key, the one of the fixed seed. -/
def registryRootPublicKey : Hash32 := X.verifyingKey TestKeys.registryRootSeed

def LifecycleEvent.verifySignature (e : LifecycleEvent) : Except RegistryError Unit := do
  let signed ← e.payloadPrefix
  if X.verify (registryRootPublicKey X) signed e.signature then pure () else throw (.signatureInvalid e.seq)

/-- Sign with the registry root; a signature it had is overwritten. -/
def signEvent (event : LifecycleEvent) : Except RegistryError LifecycleEvent := do
  let signed ← event.payloadPrefix
  pure { event with signature := X.sign TestKeys.registryRootSeed signed }

/-! ## The state of a log -/

/-- The link of the event at index `i` against the chain hash of the event before. -/
def checkLink (i : Nat) (seq : UInt32) (link prior : Option Hash32) : Except RegistryError Unit :=
  match i, link, prior with
  | 0, none, _ => .ok ()
  | 0, some _, _ => .error (.chainGenesisInvalid seq)
  | _, none, _ => .error (.chainGenesisInvalid seq)
  | _, some link, some prior => if link = prior then .ok () else .error (.chainBroken seq)
  | _, some _, none => .error (.chainBroken seq)

/-- Walk a log from index `i` on, to the chain hash of its last event. The number expected is the
index in 32 bits. -/
def checkFrom : Nat → Option Hash32 → List LifecycleEvent → Except RegistryError (Option Hash32)
  | _, prior, [] => .ok prior
  | i, prior, event :: events =>
    if event.seq ≠ UInt32.ofNat i then .error (.seqGap (UInt32.ofNat i) event.seq)
    else do
      checkLink i event.seq event.prevEventHash prior
      event.verifySignature X
      let chainHash ← event.chainHash X
      checkFrom (i + 1) (some chainHash) events

/-- The state of the last event of a log that passes the walk; `none` for an empty log. -/
def currentState (events : List LifecycleEvent) : Except RegistryError (Option LifecycleState) := do
  let _ ← checkFrom X 0 none events
  pure (events.getLast?.map (·.newState))

/-! ## Building events -/

def buildDraftEvent (artifactHash : Hash32) (authorityKeyId : String) (timestamp : TimestampToken) :
    Except RegistryError LifecycleEvent :=
  signEvent X {
    artifactHash
    seq := 0
    priorState := none
    newState := .draft
    eventKind := LifecycleState.draft.eventKind
    authorityKeyId
    authorityRole := .registry
    timestamp
    prevEventHash := none
    signature := zeroSig }

/-- `seq + 1`, which panics on overflow. -/
def nextSeq (seq : UInt32) : Except RegistryError UInt32 :=
  if seq.toNat + 1 < 2 ^ 32 then .ok (seq + 1) else .error .seqOverflow

/-- An event chained onto a prior one, to a new state under a kind. -/
def buildChainedEvent (prior : LifecycleEvent) (newState : LifecycleState) (eventKind authorityKeyId : String)
    (authorityRole : SignerRole) (timestamp : TimestampToken) : Except RegistryError LifecycleEvent := do
  let seq ← nextSeq prior.seq
  let chainHash ← prior.chainHash X
  signEvent X {
    artifactHash := prior.artifactHash
    seq
    priorState := some prior.newState
    newState
    eventKind
    authorityKeyId
    authorityRole
    timestamp
    prevEventHash := some chainHash
    signature := zeroSig }

def buildTransitionEvent (prior : LifecycleEvent) (newState : LifecycleState) (authorityKeyId : String)
    (authorityRole : SignerRole) (timestamp : TimestampToken) : Except RegistryError LifecycleEvent :=
  buildChainedEvent X prior newState newState.eventKind authorityKeyId authorityRole timestamp

/-- A move of a tag keeps the state. -/
def buildTagMovedEvent (prior : LifecycleEvent) (authorityKeyId : String) (authorityRole : SignerRole)
    (timestamp : TimestampToken) : Except RegistryError LifecycleEvent :=
  buildChainedEvent X prior prior.newState "tag_moved" authorityKeyId authorityRole timestamp

end

end Ke.Registry
