/-
The paths of the local file system, and what setting a tag does to the tree of files. The names of an
environment and a tag go into the path as they are, so they may lead anywhere.
-/
import KeEngine.Prog.FileTree
import KeEngine.Registry.Slots

namespace Ke.Registry

open Ke Wire FileTree

/-! ## Layout -/

/-- A registry is a directory. -/
structure LocalFsBackend where
  root : PathBuf

def LocalFsBackend.artifactsDir (b : LocalFsBackend) (hash : Hash32) : PathBuf :=
  (b.root.join "artifacts").join (hex32 hash)

def LocalFsBackend.eventsDir (b : LocalFsBackend) (hash : Hash32) : PathBuf := (b.root.join "events").join (hex32 hash)

def LocalFsBackend.tagPath (b : LocalFsBackend) (env tag : String) : PathBuf :=
  ((b.root.join "tags").join env).join (tag ++ ".json")

def LocalFsBackend.consistencyPath (b : LocalFsBackend) (hash : Hash32) : PathBuf :=
  (b.root.join "consistency").join (hex32 hash ++ ".json")

def LocalFsBackend.revocationPath (b : LocalFsBackend) (hash : Hash32) : PathBuf :=
  (b.root.join "revocations").join (hex32 hash ++ ".json")

/-- What the registry files besides tags. An event is any file of the directory of a log. -/
inductive StoredObject
  | artifactKew (hash : Hash32)
  | manifestJson (hash : Hash32)
  | schemaJson (hash : Hash32)
  | event (hash : Hash32) (name : String) (plain : Plain name)
  | consistency (hash : Hash32)
  | revocation (hash : Hash32)

def LocalFsBackend.objectPath (b : LocalFsBackend) : StoredObject → PathBuf
  | .artifactKew hash => (b.artifactsDir hash).join "artifact.kew"
  | .manifestJson hash => (b.artifactsDir hash).join "manifest.json"
  | .schemaJson hash => (b.artifactsDir hash).join "schema.json"
  | .event hash name _ => (b.eventsDir hash).join name
  | .consistency hash => b.consistencyPath hash
  | .revocation hash => b.revocationPath hash

/-! ## Tags -/

/-- What a file holds: the JSON of a tag pointer, or bytes that do not decode to one. -/
inductive Body
  | pointer (p : TagPointer)
  | other (bytes : Bytes)
deriving DecidableEq

def Body.decode : Body → Except RegistryError TagPointer
  | .pointer p => .ok p
  | .other _ => .error .eventJsonDecode

inductive StoreError
  | io (e : FileError)
  | registry (e : RegistryError)
deriving DecidableEq

def LocalFsBackend.putPointer (b : LocalFsBackend) (env tag : String) (targetHash : Hash32) (eventRef : String)
    (t : Files Body) : Except StoreError Unit × Files Body :=
  let path := b.tagPath env tag
  match t.createDirAll path.parent with
  | (.error e, t) => (.error (.io e), t)
  | (.ok (), t) =>
    let (answer, t) := t.write path (.pointer ⟨env, tag, hex32 targetHash, eventRef⟩)
    (answer.mapError .io, t)

def LocalFsBackend.readPointer (b : LocalFsBackend) (env tag : String) (t : Files Body) :
    Except StoreError (Option TagPointer) :=
  let path := b.tagPath env tag
  if t.exists path then do
    let body ← (t.read path).mapError StoreError.io
    let pointer ← body.decode.mapError StoreError.registry
    pure (some pointer)
  else .ok none

/-- The directory of the registry is there, as opening it leaves it. -/
structure LocalFsBackend.Opened (b : LocalFsBackend) (t : Files Body) : Prop where
  start : t.IsDir b.root.start
  way : ∀ v ∈ visited b.root.start b.root.names, t.IsDir v

section

variable {b : LocalFsBackend} {t t' : Files Body} {env tag env' tag' eventRef : String} {targetHash : Hash32}

theorem LocalFsBackend.Opened.of_createDirAll (hstart : t.IsDir b.root.start)
    (h : t.createDirAll b.root = (.ok (), t')) : b.Opened t' := by
  obtain ⟨-, hat⟩ := Files.createDirs_ok hstart h
  constructor
  · unfold Files.IsDir
    rw [hat]
    split
    · rfl
    · exact hstart
  · intro v hv
    exact (hat v).trans (if_pos hv)

/-- A path joined on starts where the first did, or anew. -/
theorem join_start {α : Type} {t : Files α} {p : PathBuf} (h : t.IsDir p.start) (text : String) :
    t.IsDir (p.join text).start := by
  unfold PathBuf.join
  split
  · exact t.root
  · exact h

theorem LocalFsBackend.Opened.tagPath_start (h : b.Opened t) (env tag : String) : t.IsDir (b.tagPath env tag).start :=
  join_start (join_start (join_start h.start _) _) _

theorem LocalFsBackend.Opened.objectPath_start (h : b.Opened t) (o : StoredObject) :
    t.IsDir (b.objectPath o).start := by
  cases o with
  | artifactKew hash => exact join_start (join_start (join_start h.start _) _) _
  | manifestJson hash => exact join_start (join_start (join_start h.start _) _) _
  | schemaJson hash => exact join_start (join_start (join_start h.start _) _) _
  | event hash name => exact join_start (join_start (join_start h.start _) _) _
  | consistency hash => exact join_start (join_start h.start _) _
  | revocation hash => exact join_start (join_start h.start _) _

theorem putPointer_saved (h : b.Opened t) (hput : b.putPointer env tag targetHash eventRef t = (.ok (), t')) :
    Saved t (b.tagPath env tag) (.pointer ⟨env, tag, hex32 targetHash, eventRef⟩) t' := by
  unfold LocalFsBackend.putPointer at hput
  simp only at hput
  split at hput
  · cases hput
  · rename_i t₁ hdirs
    refine Files.saved (h.tagPath_start env tag) hdirs ?_
    obtain ⟨hanswer, htree⟩ := Prod.mk.inj hput
    refine Prod.ext ?_ htree
    exact mapError_ok.1 hanswer

/-- The directory of the registry stays. -/
theorem LocalFsBackend.Opened.saved {path : PathBuf} {body : Body} (h : b.Opened t) (hsaved : Saved t path body t') :
    b.Opened t' :=
  ⟨hsaved.isDir.2 (.inl h.start), fun v hv => hsaved.isDir.2 (.inl (h.way v hv))⟩

/-- What is read of a tag is what its path leads to. -/
theorem readPointer_eq (env tag : String) : b.readPointer env tag t =
    match t.lookup (b.tagPath env tag) with
    | none => .ok none
    | some .dir => .error (.io .isADirectory)
    | some (.file body) => (body.decode.mapError StoreError.registry).map some := by
  unfold LocalFsBackend.readPointer Files.exists Files.read
  dsimp only
  cases t.lookup (b.tagPath env tag) with
  | none => rfl
  | some node =>
    cases node with
    | dir => rfl
    | file body => cases body <;> rfl

/-- What is read of a tag changes exactly when what its path leads to does. -/
theorem readPointer_iff {path : PathBuf} {p : TagPointer} (h : Saved t path (.pointer p) t')
    (hstart : t.IsDir (b.tagPath env tag).start) :
    b.readPointer env tag t' = b.readPointer env tag t ↔ ¬ t.Disturbs path (.pointer p) (b.tagPath env tag) := by
  rw [← h.lookup_ne_iff hstart, not_not]
  constructor
  · intro heq
    rw [readPointer_eq, readPointer_eq] at heq
    cases hnew : t'.lookup (b.tagPath env tag) with
    | none =>
      cases hold : t.lookup (b.tagPath env tag) with
      | none => rfl
      | some node =>
        rw [hnew, hold] at heq
        rcases node with _ | _ | _ <;> cases heq
    | some node =>
      cases hold : t.lookup (b.tagPath env tag) with
      | none =>
        rw [hnew, hold] at heq
        rcases node with _ | _ | _ <;> cases heq
      | some node' =>
        rw [hnew, hold] at heq
        rcases node with _ | p | bytes
        · rcases node' with _ | _ | _
          · rfl
          · cases heq
          · cases heq
        · rcases node' with _ | _ | _
          · cases heq
          · cases heq
            rfl
          · cases heq
        · -- bytes that do not decode are not what was written
          have hbytes := (h.file hstart hnew).resolve_left nofun
          exact hbytes.symm.trans (Files.lookup_some hstart hold)
  · intro heq
    rw [readPointer_eq, readPointer_eq, heq]

/-! ## The frame of a write -/

/-- A write of a tag leaves an object, is read back, and leaves what is read of another tag. -/
def LocalFsBackend.Framed (b : LocalFsBackend) (t t' : Files Body) (p : TagPointer) (o : StoredObject)
    (env' tag' : String) : Prop :=
  t'.lookup (b.objectPath o) = t.lookup (b.objectPath o) ∧ b.readPointer p.env p.tag t' = .ok (some p) ∧
    b.readPointer env' tag' t' = b.readPointer env' tag' t

/-- A write of a tag is framed exactly when its path does not disturb the others. -/
theorem putPointer_framed_iff (h : b.Opened t) (hput : b.putPointer env tag targetHash eventRef t = (.ok (), t'))
    (o : StoredObject) (env' tag' : String) :
    b.Framed t t' ⟨env, tag, hex32 targetHash, eventRef⟩ o env' tag' ↔
      ¬ t.Disturbs (b.tagPath env tag) (.pointer ⟨env, tag, hex32 targetHash, eventRef⟩) (b.objectPath o) ∧
        ¬ t.Disturbs (b.tagPath env tag) (.pointer ⟨env, tag, hex32 targetHash, eventRef⟩) (b.tagPath env' tag') := by
  have hsaved := putPointer_saved h hput
  have hobject := hsaved.lookup_ne_iff (h.objectPath_start o)
  have hback : b.readPointer env tag t' = .ok (some ⟨env, tag, hex32 targetHash, eventRef⟩) := by
    rw [readPointer_eq, hsaved.lookup_self (h.tagPath_start env tag)]
    rfl
  unfold LocalFsBackend.Framed
  rw [← hobject, not_not, readPointer_iff hsaved (h.tagPath_start env' tag')]
  exact and_congr_right fun _ => and_iff_right hback

/-! ## Names that alias -/

/-- Another name of an environment. -/
def aliasOf (env : String) : String := if env = "" then "." else env ++ "/"

/-- The other name leads to the same. -/
theorem lookup_aliasOf (h : b.Opened t) (env tag : String) :
    t.lookup (b.tagPath (aliasOf env) tag) = t.lookup (b.tagPath env tag) := by
  by_cases hempty : env = ""
  · subst hempty
    show t.lookup (((b.root.join "tags").join ".").join (tag ++ ".json")) =
      t.lookup (((b.root.join "tags").join "").join (tag ++ ".json"))
    obtain ⟨names, last, hlast⟩ :=
      componentsFrom_ending (show '/' ∉ ".json".toList by decide) (by decide) tag.toList []
    have hne : components (tag ++ ".json") ≠ [] := by
      unfold components
      rw [String.toList_append, hlast]
      simp
    rw [PathBuf.join_plain (show Plain "tags" by decide)]
    by_cases habsolute : (tag ++ ".json").toList.head? = some '/'
    · unfold PathBuf.join
      rw [if_pos habsolute, if_pos habsolute]
    · unfold PathBuf.join
      rw [if_neg habsolute, if_neg habsolute]
      show t.lookup ⟨b.root.start, b.root.names ++ ["tags"] ++ ["."] ++ components (tag ++ ".json")⟩ =
        t.lookup ⟨b.root.start, b.root.names ++ ["tags"] ++ [] ++ components (tag ++ ".json")⟩
      rw [List.append_assoc _ ["."], List.append_nil]
      exact Files.lookup_dot h.start (by simp) hne
  · have hjoin : ∀ p : PathBuf, p.join (aliasOf env) = p.join env := by
      intro p
      have hcomponents : components (env ++ "/") = components env := by
        unfold components
        rw [String.toList_append]
        exact componentsFrom_append_slash env.toList []
      unfold aliasOf PathBuf.join
      rw [if_neg hempty, hcomponents, String.toList_append, List.head?_append_of_ne_nil]
      exact fun hnil => hempty (String.toList_inj.1 hnil)
    unfold LocalFsBackend.tagPath
    rw [hjoin]

/-- What is written under a name is read under its other name. -/
theorem putPointer_aliasOf (h : b.Opened t) (hput : b.putPointer env tag targetHash eventRef t = (.ok (), t')) :
    b.readPointer (aliasOf env) tag t' = .ok (some ⟨env, tag, hex32 targetHash, eventRef⟩) := by
  have hsaved := putPointer_saved h hput
  rw [readPointer_eq, lookup_aliasOf (h.saved hsaved), hsaved.lookup_self (h.tagPath_start env tag)]
  rfl

/-! ## Plain names -/

theorem hex32_plain (hash : Hash32) : Plain (hex32 hash) := by
  have hdigit : ∀ n < 16, hexDigit n ≠ '/' := by decide
  have hlength : (hex32 hash).toList.length = 64 := by
    unfold hex32
    rw [String.toList_ofList, List.length_flatMap]
    simp [hash.2]
  refine ⟨fun hmem => ?_, ?_, ?_, ?_⟩
  · unfold hex32 at hmem
    rw [String.toList_ofList] at hmem
    obtain ⟨byte, -, hmem⟩ := List.mem_flatMap.1 hmem
    have hbyte := byte.toNat_lt
    rcases List.mem_cons.1 hmem with heq | hmem
    · exact hdigit _ (by omega) heq.symm
    · exact hdigit _ (by omega) (List.mem_singleton.1 hmem).symm
  all_goals
    intro heq
    rw [heq] at hlength
    exact absurd hlength (by decide)

theorem json_plain {text : String} (h : '/' ∉ text.toList) : Plain (text ++ ".json") := by
  have hlength : 5 ≤ (text ++ ".json").toList.length := by
    rw [String.toList_append, List.length_append]
    exact Nat.le_add_left 5 _
  refine ⟨?_, ?_, ?_, ?_⟩
  · rw [String.toList_append, List.mem_append, not_or]
    exact ⟨h, by decide⟩
  all_goals
    intro heq
    rw [heq] at hlength
    exact absurd hlength (by decide)

theorem tagPath_plain (henv : Plain env) (htag : '/' ∉ tag.toList) :
    b.tagPath env tag = b.root.below ["tags", env, tag ++ ".json"] := by
  unfold LocalFsBackend.tagPath
  rw [PathBuf.join_plain (json_plain htag), PathBuf.join_plain henv, PathBuf.join_plain (show Plain "tags" by decide),
    PathBuf.below_below, PathBuf.below_below]
  rfl

/-- An object lies below the registry, and not below its tags. -/
theorem objectPath_below (b : LocalFsBackend) (o : StoredObject) :
    ∃ store names, b.objectPath o = b.root.below (store :: names) ∧
    store ≠ "tags" ∧ ∀ name ∈ store :: names, Plain name := by
  have hfile : ∀ (store name : String) (hash : Hash32), Plain store → Plain name → store ≠ "tags" →
      ∃ store' names, ((b.root.join store).join (hex32 hash)).join name = b.root.below (store' :: names) ∧
        store' ≠ "tags" ∧ ∀ name ∈ store' :: names, Plain name := by
    intro store name hash hstore hname htags
    refine ⟨store, [hex32 hash, name], ?_, htags, ?_⟩
    · rw [PathBuf.join_plain hname, PathBuf.join_plain (hex32_plain hash), PathBuf.join_plain hstore,
        PathBuf.below_below,
        PathBuf.below_below]
      rfl
    · simp only [List.mem_cons, List.not_mem_nil, or_false]
      rintro _ (rfl | rfl | rfl)
      · exact hstore
      · exact hex32_plain hash
      · exact hname
  have hsidecar : ∀ (store : String) (hash : Hash32), Plain store → store ≠ "tags" →
      ∃ store' names, (b.root.join store).join (hex32 hash ++ ".json") = b.root.below (store' :: names) ∧
        store' ≠ "tags" ∧ ∀ name ∈ store' :: names, Plain name := by
    intro store hash hstore htags
    have hjson := json_plain (hex32_plain hash).1
    refine ⟨store, [hex32 hash ++ ".json"], ?_, htags, ?_⟩
    · rw [PathBuf.join_plain hjson, PathBuf.join_plain hstore, PathBuf.below_below]
      rfl
    · simp only [List.mem_cons, List.not_mem_nil, or_false]
      rintro _ (rfl | rfl)
      · exact hstore
      · exact hjson
  cases o with
  | artifactKew hash => exact hfile "artifacts" "artifact.kew" hash (by decide) (by decide) (by decide)
  | manifestJson hash => exact hfile "artifacts" "manifest.json" hash (by decide) (by decide) (by decide)
  | schemaJson hash => exact hfile "artifacts" "schema.json" hash (by decide) (by decide) (by decide)
  | event hash name plain => exact hfile "events" name hash (by decide) plain (by decide)
  | consistency hash => exact hsidecar "consistency" hash (by decide) (by decide)
  | revocation hash => exact hsidecar "revocations" hash (by decide) (by decide)

theorem tagNames_plain (henv : Plain env) (htag : '/' ∉ tag.toList) :
    ∀ name ∈ ["tags", env, tag ++ ".json"], Plain name := by
  simp only [List.mem_cons, List.not_mem_nil, or_false]
  rintro _ (rfl | rfl | rfl)
  · decide
  · exact henv
  · exact json_plain htag

/-- A tag of plain names disturbs no object. -/
theorem object_undisturbed (h : b.Opened t) (henv : Plain env) (htag : '/' ∉ tag.toList) (body : Body)
    (o : StoredObject) :
    ¬ t.Disturbs (b.tagPath env tag) body (b.objectPath o) := by
  obtain ⟨store, names, hpath, hstore, hplain⟩ := objectPath_below b o
  rw [tagPath_plain henv htag, hpath]
  refine Files.undisturbed h.way (tagNames_plain henv htag) hplain nofun nofun fun hprefix => ?_
  exact hstore (List.cons_prefix_cons.1 hprefix).1

/-- A tag of plain names disturbs no other of plain names. -/
theorem tag_undisturbed (h : b.Opened t) (henv : Plain env) (htag : '/' ∉ tag.toList) (henv' : Plain env')
    (htag' : '/' ∉ tag'.toList) (hne : (env', tag') ≠ (env, tag)) (body : Body) :
    ¬ t.Disturbs (b.tagPath env tag) body (b.tagPath env' tag') := by
  rw [tagPath_plain henv htag, tagPath_plain henv' htag']
  refine Files.undisturbed h.way (tagNames_plain henv htag) (tagNames_plain henv' htag') nofun nofun fun hprefix => ?_
  have heq := hprefix.eq_of_length rfl
  simp only [List.cons.injEq, true_and, and_true] at heq
  exact hne (Prod.ext heq.1 (String.append_left_inj _ |>.1 heq.2))

/-! ## The tags of the stores -/

/-- Under plain names, the files hold the tags of the stores. -/
def HoldsTags (b : LocalFsBackend) (t : Files Body) (r : Backend) : Prop :=
  ∀ env tag, Plain env → '/' ∉ tag.toList →
    b.readPointer env tag t = (r.readPointer env tag).mapError StoreError.registry

/-- A tag of plain names that is set in the files is set in the stores. -/
theorem HoldsTags.putPointer {r : Backend} (htags : HoldsTags b t r) (h : b.Opened t) (henv : Plain env)
    (htag : '/' ∉ tag.toList) (hput : b.putPointer env tag targetHash eventRef t = (.ok (), t')) :
    HoldsTags b t' (r.putPointer env tag targetHash eventRef) := by
  have hsaved := putPointer_saved h hput
  intro env' tag' henv' htag'
  by_cases hsame : (env', tag') = (env, tag)
  · obtain ⟨rfl, rfl⟩ := Prod.mk.inj hsame
    rw [readPointer_eq, hsaved.lookup_self (h.tagPath_start env' tag')]
    unfold Backend.readPointer
    rw [putPointer_tags, if_pos ⟨rfl, rfl⟩]
    rfl
  · have hread := (readPointer_iff hsaved (h.tagPath_start env' tag')).2
      (tag_undisturbed h henv htag henv' htag' hsame _)
    rw [hread, htags env' tag' henv' htag']
    unfold Backend.readPointer
    rw [putPointer_tags, if_neg fun hname => hsame (Prod.ext hname.1 hname.2)]

end

/-! ## A log that is overwritten -/

/-- The registry in a directory of the root. -/
def atRoot : LocalFsBackend := ⟨⟨[], ["registry"]⟩⟩

/-- A published event of an artifact, and nothing else. -/
def loggedFiles : Files Body :=
  let path := (atRoot.eventsDir zeroHash).join "0004-published.json"
  ((Files.bare.createDirAll path.parent).2.write path (.other [])).2

theorem loggedFiles_opened : atRoot.Opened loggedFiles := ⟨by decide +kernel, by decide +kernel⟩

/-- What an operation that answers leaves is what it leaves. -/
theorem eq_of_answer {α β : Type} {x : α × β} {a : α} (h : x.1 = a) : x = (a, x.2) := by
  rw [← h]

/-- The tag `current` of the environment `local`. -/
def localPointer : TagPointer := ⟨"local", "current", hex32 zeroHash, "published@seq4"⟩

theorem putPointer_framed_iff_local :
    atRoot.Framed loggedFiles (atRoot.putPointer "local" "current" zeroHash "published@seq4" loggedFiles).2
        localPointer (.consistency zeroHash) "local" "stable" ↔
      ¬ loggedFiles.Disturbs (atRoot.tagPath "local" "current") (.pointer localPointer)
          (atRoot.objectPath (.consistency zeroHash)) ∧
        ¬ loggedFiles.Disturbs (atRoot.tagPath "local" "current") (.pointer localPointer)
          (atRoot.tagPath "local" "stable") :=
  putPointer_framed_iff loggedFiles_opened (eq_of_answer (by decide +kernel)) (.consistency zeroHash) "local" "stable"

/-- The environment leads from the tags to the log, and the tag names its event. -/
theorem event_overwritten : atRoot.Opened loggedFiles ∧
    (atRoot.putPointer ("../events/" ++ hex32 zeroHash) "0004-published" zeroHash "published@seq4"
      loggedFiles).1 = .ok () ∧
      ¬ atRoot.Framed loggedFiles
        (atRoot.putPointer ("../events/" ++ hex32 zeroHash) "0004-published" zeroHash "published@seq4" loggedFiles).2
        ⟨"../events/" ++ hex32 zeroHash, "0004-published", hex32 zeroHash, "published@seq4"⟩
        (.event zeroHash "0004-published.json" (by decide)) "local" "current" := by
  have hchanged : (atRoot.putPointer ("../events/" ++ hex32 zeroHash) "0004-published" zeroHash "published@seq4"
      loggedFiles).2.lookup (atRoot.objectPath (.event zeroHash "0004-published.json" (by decide))) ≠
        loggedFiles.lookup (atRoot.objectPath (.event zeroHash "0004-published.json" (by decide))) := by
    decide +kernel
  refine ⟨loggedFiles_opened, by decide +kernel, fun hframed => hchanged hframed.1⟩

end Ke.Registry
