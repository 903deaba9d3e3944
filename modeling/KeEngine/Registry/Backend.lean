/-
The registry on the local file system, as its separate stores. A file of JSON holds a value, or
something that does not decode; what is written is read back as it was.
-/
import KeEngine.Prog.Race
import KeEngine.Registry.Event

namespace Ke.Registry

open Ke Wire

/-! ## Hash names -/

def hexDigit (n : Nat) : Char := "0123456789abcdef".toList.getD n '0'

/-- Lowercase hex of a hash: the name of its directory and files. -/
def hex32 (hash : Hash32) : String :=
  String.ofList (hash.1.flatMap fun b => [hexDigit (b.toNat / 16), hexDigit (b.toNat % 16)])

def hexValue (c : Char) : Option Nat :=
  if '0' ≤ c ∧ c ≤ '9' then some (c.toNat - 48)
  else if 'a' ≤ c ∧ c ≤ 'f' then some (c.toNat - 87)
  else if 'A' ≤ c ∧ c ≤ 'F' then some (c.toNat - 55)
  else none

/-- `u8::from_str_radix` of two characters; a sign counts as a digit of nothing. -/
def parseHexByte (c d : Char) : Option UInt8 :=
  if c = '+' then (hexValue d).map UInt8.ofNat
  else (hexValue c).bind fun hi => (hexValue d).map fun lo => UInt8.ofNat (16 * hi + lo)

def parseHexBytes : List Char → Option Bytes
  | [] => some []
  | [_] => none
  | c :: d :: cs => (parseHexByte c d).bind fun b => (parseHexBytes cs).map (b :: ·)

/-- The hash of 64 characters of hex; text beyond ASCII cannot be cut into pairs. -/
def hexToHash (hex : String) : Except RegistryError Hash32 :=
  match parseHexBytes hex.toList with
  | none => .error (.badHashHex hex)
  | some bytes => if h : bytes.length = 32 then .ok ⟨bytes, h⟩ else .error (.badHashHex hex)

/-! ## Stored objects -/

/-- What the JSON of a file decodes to. -/
inductive JsonFile (α : Type)
  | good (a : α)
  | bad
deriving DecidableEq

def JsonFile.decode {α : Type} : JsonFile α → Except RegistryError α
  | .good a => .ok a
  | .bad => .error .eventJsonDecode

/-- What the registry records of a revocation. -/
structure RevocationRecord where
  policy : RevocationPolicy
  reason : Option String
  eventRef : String
  severity : String
  reasonClass : Option RevocationReasonClass
deriving DecidableEq

/-- Which artifact a tag resolves to, and the event that set it. -/
structure TagPointer where
  env : String
  tag : String
  targetHashHex : String
  eventRef : String
deriving DecidableEq

def TagPointer.targetHash (p : TagPointer) : Except RegistryError Hash32 := hexToHash p.targetHashHex

/-- The stores, each with its files and apart from the others. An environment and a tag are names here. On the file
system they are parts of a path, which stays in the store of tags when both are plain (`perform_simulates`) and may
lead anywhere otherwise. -/
structure Backend where
  /-- `artifacts/<name>/artifact.kew`, in the order of the directory -/
  artifacts : List (String × Bytes)
  /-- the files of `events/<hash>/` -/
  events : Hash32 → List (String × JsonFile LifecycleEvent)
  tags : String → String → Option (JsonFile TagPointer)
  consistency : Hash32 → Option (JsonFile ConsistencyBlock)
  revocations : Hash32 → Option (JsonFile RevocationRecord)

def Backend.empty : Backend := ⟨[], fun _ => [], fun _ _ => none, fun _ => none, fun _ => none⟩

/-- Write a file of a directory. -/
def putFile {α : Type} (name : String) (a : α) : List (String × α) → List (String × α)
  | [] => [(name, a)]
  | file :: files => if file.1 = name then (name, a) :: files else file :: putFile name a files

/-! ## Event files -/

/-- `{seq:04}` -/
def seqDigits (seq : UInt32) : String :=
  let digits := toString seq.toNat
  String.ofList (List.replicate (4 - digits.length) '0') ++ digits

def eventFileName (event : LifecycleEvent) : String := seqDigits event.seq ++ "-" ++ event.eventKind ++ ".json"

/-- A name with the extension `json`: more than the extension alone. -/
def hasJsonExtension (name : String) : Bool := ".json".toList.isSuffixOf name.toList && decide (5 < name.toList.length)

/-- The decoded files of a log: by name, then by sequence number. -/
def Backend.readEvents (r : Backend) (hash : Hash32) : Except RegistryError (List LifecycleEvent) := do
  let files := (r.events hash).filter fun file => hasJsonExtension file.1
  let events ← (sortBy (fun a b => compare a.1 b.1) files).mapM fun file => file.2.decode
  pure (sortBy (fun a b => compare a.seq b.seq) events)

/-- A file of the event's name is never overwritten. -/
def Backend.appendEvent (r : Backend) (hash : Hash32) (event : LifecycleEvent) : Except RegistryError Unit × Backend :=
  if (r.events hash).any fun file => decide (file.1 = eventFileName event) then (.error (.eventExists event.seq), r)
  else (.ok (), { r with
    events := Function.update r.events hash (r.events hash ++ [(eventFileName event, .good event)]) })

/-! ## Artifacts -/

def Backend.putArtifact (r : Backend) (hash : Hash32) (kew : Bytes) : Backend :=
  { r with artifacts := putFile (hex32 hash) kew r.artifacts }

def Backend.readArtifactKew (r : Backend) (hash : Hash32) : Except RegistryError Bytes :=
  match r.artifacts.lookup (hex32 hash) with
  | some kew => .ok kew
  | none => .error (.notFound ("by-hash:" ++ hex32 hash))

/-- The manifest of every stored artifact under the hash that it claims. -/
def Backend.listManifests (X : Externals) (r : Backend) : Except RegistryError (List (Hash32 × Manifest)) := do
  let manifests ← r.artifacts.mapM fun file => do
    let (artifact, _) ← (decodeArtifact X file.2).mapError RegistryError.artifactDecode
    pure (artifact.manifest.artifactHash, artifact.manifest)
  pure (sortBy (fun a b => compare a.1.1 b.1.1) manifests)

/-! ## Tags and sidecars -/

def Backend.putPointer (r : Backend) (env tag : String) (targetHash : Hash32) (eventRef : String) : Backend :=
  let pointers := Function.update (r.tags env) tag (some (.good ⟨env, tag, hex32 targetHash, eventRef⟩))
  { r with tags := Function.update r.tags env pointers }

def Backend.readPointer (r : Backend) (env tag : String) : Except RegistryError (Option TagPointer) :=
  match r.tags env tag with
  | none => .ok none
  | some file => file.decode.map some

/-- A sidecar is written once. -/
def putSidecar {α : Type} (kind : String) (store : Hash32 → Option (JsonFile α)) (hash : Hash32) (a : α) :
    Except RegistryError Unit × (Hash32 → Option (JsonFile α)) :=
  match store hash with
  | some _ => (.error (.sidecarExists kind), store)
  | none => (.ok (), Function.update store hash (some (.good a)))

def readSidecar {α : Type} (store : Hash32 → Option (JsonFile α)) (hash : Hash32) : Except RegistryError (Option α) :=
  match store hash with
  | none => .ok none
  | some file => file.decode.map some

def Backend.putConsistency (r : Backend) (hash : Hash32) (block : ConsistencyBlock) :
    Except RegistryError Unit × Backend :=
  let (answer, consistency) := putSidecar "consistency" r.consistency hash block
  (answer, { r with consistency })

def Backend.readConsistency (r : Backend) (hash : Hash32) : Except RegistryError (Option ConsistencyBlock) :=
  readSidecar r.consistency hash

def Backend.putRevocation (r : Backend) (hash : Hash32) (record : RevocationRecord) :
    Except RegistryError Unit × Backend :=
  let (answer, revocations) := putSidecar "revocation" r.revocations hash record
  (answer, { r with revocations })

def Backend.readRevocation (r : Backend) (hash : Hash32) : Except RegistryError (Option RevocationRecord) :=
  readSidecar r.revocations hash

/-! ## The operations -/

/-- The methods of the backend that the lifecycle commands call. -/
inductive BackendOp : Type → Type
  | putArtifact (hash : Hash32) (kew : Bytes) : BackendOp Unit
  | appendEvent (hash : Hash32) (event : LifecycleEvent) : BackendOp Unit
  | readArtifactKew (hash : Hash32) : BackendOp Bytes
  | readEvents (hash : Hash32) : BackendOp (List LifecycleEvent)
  | putPointer (env tag : String) (targetHash : Hash32) (eventRef : String) : BackendOp Unit
  | putConsistency (hash : Hash32) (block : ConsistencyBlock) : BackendOp Unit
  | readConsistency (hash : Hash32) : BackendOp (Option ConsistencyBlock)
  | putRevocation (hash : Hash32) (record : RevocationRecord) : BackendOp Unit

/-- One operation on the stores, in one step: nothing happens between its look at the files and its write, and
what it writes is there whole or not at all. -/
def exec : {β : Type} → BackendOp β → Backend → Except RegistryError β × Backend
  | _, .putArtifact hash kew, r => (.ok (), r.putArtifact hash kew)
  | _, .appendEvent hash event, r => r.appendEvent hash event
  | _, .readArtifactKew hash, r => (r.readArtifactKew hash, r)
  | _, .readEvents hash, r => (r.readEvents hash, r)
  | _, .putPointer env tag targetHash eventRef, r => (.ok (), r.putPointer env tag targetHash eventRef)
  | _, .putConsistency hash block, r => r.putConsistency hash block
  | _, .readConsistency hash, r => (r.readConsistency hash, r)
  | _, .putRevocation hash record, r => r.putRevocation hash record

end Ke.Registry
