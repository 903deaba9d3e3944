/-
The registry on the files of its directory. A command writes along the paths of the registry, and its readers find the
stores there. Under plain names every path is one of its own.
-/
import KeEngine.Prog.Volume
import KeEngine.Registry.Commands
import KeEngine.Registry.Paths

namespace Ke.Registry

open Ke Wire FileTree

/-! ## Files -/

/-- What a file of the registry holds. -/
inductive Contents
  | kew (bytes : Bytes)
  | event (e : LifecycleEvent)
  | pointer (p : TagPointer)
  | consistency (block : ConsistencyBlock)
  | revocation (record : RevocationRecord)
  /-- `manifest.json`, `schema.json` or the marker of the directory, which no command reads back -/
  | view

/-- The files of the registry, and of what is around it. -/
abbrev Disk := Volume Contents

namespace Contents

/-- The bytes of an artifact; those of a JSON text decode to none. -/
def bytes : Contents → Bytes
  | .kew bytes => bytes
  | .event _ | .pointer _ | .consistency _ | .revocation _ | .view => []

def asEvent : Contents → JsonFile LifecycleEvent
  | .event e => .good e
  | .kew _ | .pointer _ | .consistency _ | .revocation _ | .view => .bad

def asPointer : Contents → JsonFile TagPointer
  | .pointer p => .good p
  | .kew _ | .event _ | .consistency _ | .revocation _ | .view => .bad

def asConsistency : Contents → JsonFile ConsistencyBlock
  | .consistency block => .good block
  | .kew _ | .event _ | .pointer _ | .revocation _ | .view => .bad

def asRevocation : Contents → JsonFile RevocationRecord
  | .revocation record => .good record
  | .kew _ | .event _ | .pointer _ | .consistency _ | .view => .bad

/-- What a node is read as; a directory cannot be read. -/
def ofNode {β : Type} (f : Contents → JsonFile β) : Node Contents → JsonFile β
  | .file a => f a
  | .dir => .bad

def bytesOfNode : Node Contents → Bytes
  | .file a => a.bytes
  | .dir => []

end Contents

/-! ## What readers find -/

/-- The stores, as they are read along the paths of the registry. -/
def LocalFsBackend.stores (b : LocalFsBackend) (v : Disk) : Backend where
  artifacts := (v.readDir (b.root.join "artifacts")).filterMap fun entry =>
    (v.files.lookup (entry.2.join "artifact.kew")).map fun node => (entry.1, Contents.bytesOfNode node)
  events hash := (v.readDir (b.eventsDir hash)).filterMap fun entry =>
    (v.files.lookup entry.2).map fun node => (entry.1, Contents.ofNode Contents.asEvent node)
  tags env tag := (v.files.lookup (b.tagPath env tag)).map (Contents.ofNode Contents.asPointer)
  consistency hash := (v.files.lookup (b.consistencyPath hash)).map (Contents.ofNode Contents.asConsistency)
  revocations hash := (v.files.lookup (b.revocationPath hash)).map (Contents.ofNode Contents.asRevocation)

/-! ## Operations on files -/

namespace Disk

/-- Go on with the files when the first step succeeds. -/
def andThen (step : Except StoreError Unit × Disk) (next : Disk → Except StoreError Unit × Disk) :
    Except StoreError Unit × Disk :=
  match step with
  | (.ok (), v) => next v
  | (.error e, v) => (.error e, v)

def io (step : Except FileError Unit × Disk) : Except StoreError Unit × Disk := (step.1.mapError .io, step.2)

def putArtifact (b : LocalFsBackend) (hash : Hash32) (kew : Bytes) (v : Disk) : Except StoreError Unit × Disk :=
  let dir := b.artifactsDir hash
  andThen (io (v.createDirAll dir)) fun v =>
  andThen (io (v.write (dir.join "artifact.kew") (.kew kew))) fun v =>
  andThen (io (v.write (dir.join "manifest.json") .view)) fun v =>
  io (v.write (dir.join "schema.json") .view)

def appendEvent (b : LocalFsBackend) (hash : Hash32) (event : LifecycleEvent) (v : Disk) :
    Except StoreError Unit × Disk :=
  let dir := b.eventsDir hash
  let path := dir.join (eventFileName event)
  andThen (io (v.createDirAll dir)) fun v =>
  if v.files.exists path then (.error (.registry (.eventExists event.seq)), v)
  else io (v.write path (.event event))

def putPointer (b : LocalFsBackend) (env tag : String) (targetHash : Hash32) (eventRef : String) (v : Disk) :
    Except StoreError Unit × Disk :=
  let path := b.tagPath env tag
  andThen (io (v.createDirAll path.parent)) fun v =>
  io (v.write path (.pointer ⟨env, tag, hex32 targetHash, eventRef⟩))

/-- A sidecar is written once. -/
def putSidecar (path : PathBuf) (kind : String) (a : Contents) (v : Disk) : Except StoreError Unit × Disk :=
  if v.files.exists path then (.error (.registry (.sidecarExists kind)), v)
  else
    andThen (io (v.createDirAll path.parent)) fun v =>
    io (v.write path a)

/-- One operation on the files. -/
def exec (b : LocalFsBackend) : {β : Type} → BackendOp β → Disk → Except StoreError β × Disk
  | _, .putArtifact hash kew, v => putArtifact b hash kew v
  | _, .appendEvent hash event, v => appendEvent b hash event v
  | _, .readArtifactKew hash, v => (((b.stores v).readArtifactKew hash).mapError .registry, v)
  | _, .readEvents hash, v => (((b.stores v).readEvents hash).mapError .registry, v)
  | _, .putPointer env tag targetHash eventRef, v => putPointer b env tag targetHash eventRef v
  | _, .putConsistency hash block, v => putSidecar (b.consistencyPath hash) "consistency" (.consistency block) v
  | _, .readConsistency hash, v => (((b.stores v).readConsistency hash).mapError .registry, v)
  | _, .putRevocation hash record, v => putSidecar (b.revocationPath hash) "revocation" (.revocation record) v

end Disk

/-! ## Operations of a command -/

/-- The names that an operation makes a path of are plain. -/
def BackendOp.Plain : {β : Type} → BackendOp β → Prop
  | _, .appendEvent _ event => FileTree.Plain (eventFileName event)
  | _, .putPointer env tag _ _ => FileTree.Plain env ∧ '/' ∉ tag.toList
  | _, .putArtifact .. => True
  | _, .readArtifactKew _ => True
  | _, .readEvents _ => True
  | _, .putConsistency .. => True
  | _, .readConsistency _ => True
  | _, .putRevocation .. => True

def StoreError.command : StoreError → CommandError
  | .io e => .io e
  | .registry e => .registry e

/-- One operation of a command on the files. -/
def Disk.perform (b : LocalFsBackend) {β : Type} (op : BackendOp β) (v : Disk) : Except CommandError β × Disk :=
  ((Disk.exec b op v).1.mapError StoreError.command, (Disk.exec b op v).2)

/-! ## The shelf of a registry -/

/-- How many names lead to the files of a store, its own included. -/
def storeDepth (store : String) : Option Nat :=
  if store ∈ ["artifacts", "events", "tags"] then some 3
  else if store ∈ ["consistency", "revocations"] then some 2
  else none

/-- The files of the registry, under plain names. -/
def LocalFsBackend.shelf (b : LocalFsBackend) : Shelf where
  root := b.root
  slots names := (∀ name ∈ names, Plain name) ∧
    ∃ store rest, names = store :: rest ∧ storeDepth store = some names.length
  plain h := h.1
  ne_nil h := by
    obtain ⟨-, store, rest, rfl, -⟩ := h
    exact List.cons_ne_nil store rest
  apart h h' hprefix := by
    obtain ⟨-, store, rest, rfl, hlength⟩ := h
    obtain ⟨-, store', rest', rfl, hlength'⟩ := h'
    obtain ⟨rfl, -⟩ := List.cons_prefix_cons.1 hprefix
    exact hprefix.eq_of_length (Option.some.inj (hlength.symm.trans hlength'))

section

variable {b : LocalFsBackend} {v v' : Disk} {r : Backend} {hash : Hash32} {env tag name store : String}
  {names : List String} {a : Contents}

theorem slots_three (hstore : Plain store) (hdepth : storeDepth store = some 3) {name' : String} (hname : Plain name)
    (hname' : Plain name') : b.shelf.slots [store, name, name'] := by
  refine ⟨?_, store, [name, name'], rfl, hdepth⟩
  simp only [List.mem_cons, List.not_mem_nil, or_false]
  rintro _ (rfl | rfl | rfl)
  · exact hstore
  · exact hname
  · exact hname'

theorem slots_two (hstore : Plain store) (hdepth : storeDepth store = some 2) (hname : Plain name) :
    b.shelf.slots [store, name] := by
  refine ⟨?_, store, [name], rfl, hdepth⟩
  simp only [List.mem_cons, List.not_mem_nil, or_false]
  rintro _ (rfl | rfl)
  · exact hstore
  · exact hname

theorem slots_artifact (hash : Hash32) (hname : Plain name) : b.shelf.slots ["artifacts", hex32 hash, name] :=
  slots_three (by decide) rfl (hex32_plain hash) hname

theorem slots_event (hash : Hash32) (hname : Plain name) : b.shelf.slots ["events", hex32 hash, name] :=
  slots_three (by decide) rfl (hex32_plain hash) hname

theorem slots_tag (henv : Plain env) (htag : '/' ∉ tag.toList) : b.shelf.slots ["tags", env, tag ++ ".json"] :=
  slots_three (by decide) rfl henv (json_plain htag)

theorem slots_consistency (hash : Hash32) : b.shelf.slots ["consistency", hex32 hash ++ ".json"] :=
  slots_two (by decide) rfl (json_plain (hex32_plain hash).1)

theorem slots_revocation (hash : Hash32) : b.shelf.slots ["revocations", hex32 hash ++ ".json"] :=
  slots_two (by decide) rfl (json_plain (hex32_plain hash).1)

theorem artifactsDir_below (b : LocalFsBackend) (hash : Hash32) :
    b.artifactsDir hash = b.root.below ["artifacts", hex32 hash] := by
  unfold LocalFsBackend.artifactsDir
  rw [PathBuf.join_plain (hex32_plain hash), PathBuf.join_plain (show Plain "artifacts" by decide),
    PathBuf.below_below]
  rfl

theorem eventsDir_below (b : LocalFsBackend) (hash : Hash32) :
    b.eventsDir hash = b.root.below ["events", hex32 hash] := by
  unfold LocalFsBackend.eventsDir
  rw [PathBuf.join_plain (hex32_plain hash), PathBuf.join_plain (show Plain "events" by decide), PathBuf.below_below]
  rfl

theorem consistencyPath_below (b : LocalFsBackend) (hash : Hash32) :
    b.consistencyPath hash = b.root.below ["consistency", hex32 hash ++ ".json"] := by
  unfold LocalFsBackend.consistencyPath
  rw [PathBuf.join_plain (json_plain (hex32_plain hash).1), PathBuf.join_plain (show Plain "consistency" by decide),
    PathBuf.below_below]
  rfl

theorem revocationPath_below (b : LocalFsBackend) (hash : Hash32) :
    b.revocationPath hash = b.root.below ["revocations", hex32 hash ++ ".json"] := by
  unfold LocalFsBackend.revocationPath
  rw [PathBuf.join_plain (json_plain (hex32_plain hash).1), PathBuf.join_plain (show Plain "revocations" by decide),
    PathBuf.below_below]
  rfl

end

end Ke.Registry
