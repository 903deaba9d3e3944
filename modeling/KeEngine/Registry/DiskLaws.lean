/-
The files of the registry are its stores. As long as environments and tags have plain names, no operation tells the
files from separate stores.
-/
import KeEngine.Prog.Simulation
import KeEngine.Registry.Disk

namespace Ke.Registry

open Ke Wire FileTree

section

variable {b : LocalFsBackend} {v v' : Disk} {r : Backend} {hash : Hash32} {env tag name store : String}
  {names : List String} {a : Contents}

/-! ## The stores of a disk -/

theorem stores_events (h : b.shelf.Clear v.files) (hash : Hash32) :
    (b.stores v).events hash = (v.entries (b.shelf.place ["events", hex32 hash])).filterMap fun name =>
      (v.files.at_ (b.shelf.place ["events", hex32 hash, name])).map fun node =>
        (name, Contents.ofNode Contents.asEvent node) := by
  have hplain : ∀ name ∈ ["events", hex32 hash], Plain name := by
    simp only [List.mem_cons, List.not_mem_nil, or_false]
    rintro _ (rfl | rfl)
    · decide
    · exact hex32_plain hash
  have hdir : v.readDir (b.root.below ["events", hex32 hash]) = _ := h.readDir hplain (List.cons_ne_nil _ _)
  show (v.readDir (b.eventsDir hash)).filterMap _ = _
  rw [eventsDir_below, hdir, List.filterMap_map]
  rfl

theorem stores_artifacts (h : b.shelf.Clear v.files) :
    (b.stores v).artifacts = (v.entries (b.shelf.place ["artifacts"])).filterMap fun name =>
      (v.files.at_ (b.shelf.place ["artifacts", name, "artifact.kew"])).map fun node =>
        (name, Contents.bytesOfNode node) := by
  have hplain : ∀ name ∈ ["artifacts"], Plain name := by decide
  have hdir : v.readDir (b.root.below ["artifacts"]) = _ := h.readDir hplain (List.cons_ne_nil _ _)
  show (v.readDir (b.root.join "artifacts")).filterMap _ = _
  rw [PathBuf.join_plain (show Plain "artifacts" by decide), hdir, List.filterMap_map]
  refine List.filterMap_congr fun name _ => ?_
  show (v.files.lookup ((PathBuf.mk (name :: b.shelf.place ["artifacts"]) []).join "artifact.kew")).map _ = _
  rw [Files.lookup_child (show Plain "artifact.kew" by decide)]
  rfl

/-- What a path of the shelf leads to is what was saved there last. -/
theorem lookup_saves {names' : List String} (h : b.shelf.Clear v.files) (hn : b.shelf.slots names)
    (hsaves : v.Saves (b.root.below names) a v') (hn' : b.shelf.slots names') :
    v'.files.lookup (b.root.below names') =
      if names' = names then some (.file a) else v.files.lookup (b.root.below names') := by
  have hclear := h.of_saved hn hsaves.files
  have hlookup := h.lookup (b.shelf.plain hn') (b.shelf.ne_nil hn')
  have hlookup' := hclear.lookup (b.shelf.plain hn') (b.shelf.ne_nil hn')
  have hat := h.at_place hn hsaves.files hn'
  rw [← hlookup, ← hlookup'] at hat
  exact hat

/-- What is under other names stays. -/
theorem at_saves {names' : List String} (h : b.shelf.Clear v.files) (hn : b.shelf.slots names)
    (hsaves : v.Saves (b.root.below names) a v') (hother : ¬ names' <+: names) :
    v'.files.at_ (b.shelf.place names') = v.files.at_ (b.shelf.place names') := by
  refine h.at_of_saved hn hsaves.files (fun heq => ?_) fun front rest hnames _ _ heq => ?_
  · exact hother (Shelf.place_inj heq ▸ List.prefix_refl _)
  · exact hother (hnames ▸ Shelf.place_inj heq ▸ List.prefix_append _ _)

/-- A listing stays when nothing is saved below it. -/
theorem entries_saves (front : List String) (h : b.shelf.Clear v.files) (hn : b.shelf.slots names)
    (hsaves : v.Saves (b.root.below names) a v')
    (hthere : ∀ name, front ++ [name] <+: names → v.files.at_ (b.shelf.place (front ++ [name])) ≠ none) :
    v'.entries (b.shelf.place front) = v.entries (b.shelf.place front) := by
  refine hsaves.entries (s := b.shelf) h hn fun front' name rest hnames hplace => ?_
  obtain rfl := Shelf.place_inj hplace
  rw [← Shelf.place_concat]
  exact hthere name ⟨rest, by rw [hnames, List.append_assoc]; rfl⟩

/-! ## Files of a directory -/

theorem putFile_absent {α : Type} {file : String} {c : α} : ∀ {files : List (String × α)},
    (∀ other ∈ files, other.1 ≠ file) → putFile file c files = files ++ [(file, c)]
  | [], _ => rfl
  | other :: files, h => by
    rw [List.forall_mem_cons] at h
    rw [putFile, if_neg h.1, putFile_absent h.2, List.cons_append]

/-- A file in a listing is replaced where it is. -/
theorem putFile_filterMap {α : Type} {file : String} {c : α} {f f' : String → Option (String × α)}
    (hself : f' file = some (file, c)) (hothers : ∀ other, other ≠ file → f' other = f other) :
    ∀ {others : List String}, others.Nodup → file ∈ others → (∀ other ∈ others, ∃ d, f other = some (other, d)) →
      putFile file c (others.filterMap f) = others.filterMap f'
  | other :: others, hnodup, hmem, h => by
    rw [List.forall_mem_cons] at h
    obtain ⟨⟨d, hd⟩, hrest⟩ := h
    rw [List.nodup_cons] at hnodup
    rw [List.filterMap_cons_some hd, putFile]
    by_cases heq : other = file
    · subst heq
      rw [if_pos rfl, List.filterMap_cons_some hself]
      congr 1
      refine List.filterMap_congr fun other' hother' => (hothers other' ?_).symm
      exact fun heq => hnodup.1 (heq ▸ hother')
    · rw [if_neg heq, List.filterMap_cons_some ((hothers other heq).trans hd)]
      exact congrArg _ (putFile_filterMap hself hothers hnodup.2 ((List.mem_cons.1 hmem).resolve_left (Ne.symm heq))
        hrest)

theorem join_below {file : String} (hfile : Plain file) (b : LocalFsBackend) (names : List String) :
    (b.root.below names).join file = b.root.below (names ++ [file]) := by
  rw [PathBuf.join_plain hfile, PathBuf.below_below]

theorem parent_concat (b : LocalFsBackend) (names : List String) (file : String) :
    (b.root.below (names ++ [file])).parent = b.root.below names := by
  rw [PathBuf.parent_below (by simp), List.dropLast_concat]

/-- A file that was saved has made the way for another beside it. -/
theorem leads_beside (names : List String) {file file' : String}
    (hsaved : Saved v.files (b.root.below (names ++ [file])) a v'.files) :
    v'.files.Leads (b.root.below (names ++ [file'])) := by
  refine hsaved.leads.2 fun l hl => .inr ?_
  unfold PathBuf.way at hl ⊢
  rw [parent_concat] at hl ⊢
  exact hl

/-! ## Files that hold the stores -/

/-- Under plain names the files hold the stores, and nothing is in the way of an operation. -/
structure LocalFsBackend.Holds (b : LocalFsBackend) (v : Disk) (r : Backend) : Prop where
  clear : b.shelf.Clear v.files
  /-- an artifact is filed with its directory -/
  filed : ∀ name ∈ v.entries (b.shelf.place ["artifacts"]),
    v.files.at_ (b.shelf.place ["artifacts", name, "artifact.kew"]) ≠ none
  artifacts : (b.stores v).artifacts = r.artifacts
  events : (b.stores v).events = r.events
  tags : ∀ env tag, Plain env → '/' ∉ tag.toList → (b.stores v).tags env tag = r.tags env tag
  consistency : (b.stores v).consistency = r.consistency
  revocations : (b.stores v).revocations = r.revocations

theorem names_of_front {store' name' file file' : String} (h : [store, name, file] <+: [store', name', file']) :
    store = store' ∧ name = name' ∧ file = file' := by
  have heq := h.eq_of_length (by simp only [List.length_cons, List.length_nil])
  simpa only [List.cons.injEq, and_true] using heq

theorem head?_of_front {rest : List String} (h : store :: rest <+: names) : names.head? = some store := by
  obtain ⟨_, rfl⟩ := h
  rfl

namespace LocalFsBackend.Holds

/-! ### Sidecars -/

theorem lookup_consistency (h : b.Holds v r) (hash : Hash32) :
    (v.files.lookup (b.root.below ["consistency", hex32 hash ++ ".json"])).map
      (Contents.ofNode Contents.asConsistency) = r.consistency hash := by
  rw [← h.consistency, ← consistencyPath_below]
  rfl

theorem lookup_revocations (h : b.Holds v r) (hash : Hash32) :
    (v.files.lookup (b.root.below ["revocations", hex32 hash ++ ".json"])).map
      (Contents.ofNode Contents.asRevocation) = r.revocations hash := by
  rw [← h.revocations, ← revocationPath_below]
  rfl

/-! ### What a file of another store leaves -/

theorem artifacts_frame (h : b.Holds v r) (hn : b.shelf.slots names) (hsaves : v.Saves (b.root.below names) a v')
    (hstore : names.head? ≠ some "artifacts") :
    (b.stores v').artifacts = r.artifacts ∧ ∀ name ∈ v'.entries (b.shelf.place ["artifacts"]),
      v'.files.at_ (b.shelf.place ["artifacts", name, "artifact.kew"]) ≠ none := by
  have hentries := entries_saves ["artifacts"] h.clear hn hsaves
    fun _ hprefix => absurd (head?_of_front hprefix) hstore
  have hat : ∀ name, v'.files.at_ (b.shelf.place ["artifacts", name, "artifact.kew"]) =
      v.files.at_ (b.shelf.place ["artifacts", name, "artifact.kew"]) :=
    fun name => at_saves h.clear hn hsaves fun hprefix => hstore (head?_of_front hprefix)
  rw [← h.artifacts, stores_artifacts h.clear, stores_artifacts (h.clear.of_saved hn hsaves.files), hentries]
  simp only [hat, true_and]
  exact h.filed

theorem events_frame (h : b.Holds v r) (hn : b.shelf.slots names) (hsaves : v.Saves (b.root.below names) a v')
    (hash : Hash32) (hlog : ∀ name, names ≠ ["events", hex32 hash, name]) :
    (b.stores v').events hash = r.events hash := by
  have hother : ∀ name, ¬ ["events", hex32 hash, name] <+: names := by
    rintro name ⟨rest, rfl⟩
    obtain ⟨-, store, rest', hnames, hlength⟩ := hn
    obtain ⟨rfl, -⟩ := List.cons.inj hnames
    have hrest : rest.length = 0 := by
      rw [List.length_append] at hlength
      exact Nat.add_left_cancel (Option.some.inj hlength.symm : 3 + rest.length = 3 + 0)
    rw [List.length_eq_zero_iff] at hrest
    subst hrest
    exact hlog name rfl
  rw [← h.events, stores_events h.clear, stores_events (h.clear.of_saved hn hsaves.files),
    entries_saves ["events", hex32 hash] h.clear hn hsaves fun name hprefix => absurd hprefix (hother name)]
  simp only [at_saves h.clear hn hsaves (hother _)]

theorem lookup_frame {names' : List String} (h : b.Holds v r) (hn : b.shelf.slots names)
    (hsaves : v.Saves (b.root.below names) a v') (hn' : b.shelf.slots (store :: names'))
    (hstore : names.head? ≠ some store) :
    v'.files.lookup (b.root.below (store :: names')) = v.files.lookup (b.root.below (store :: names')) := by
  rw [lookup_saves h.clear hn hsaves hn', if_neg]
  rintro rfl
  exact hstore rfl

theorem tags_frame (h : b.Holds v r) (hn : b.shelf.slots names) (hsaves : v.Saves (b.root.below names) a v')
    (hstore : names.head? ≠ some "tags") (henv : Plain env) (htag : '/' ∉ tag.toList) :
    (b.stores v').tags env tag = r.tags env tag := by
  rw [← h.tags env tag henv htag]
  unfold LocalFsBackend.stores
  simp only [tagPath_plain henv htag]
  rw [h.lookup_frame hn hsaves (slots_tag henv htag) hstore]

theorem consistency_frame (h : b.Holds v r) (hn : b.shelf.slots names) (hsaves : v.Saves (b.root.below names) a v')
    (hstore : names.head? ≠ some "consistency") : (b.stores v').consistency = r.consistency := by
  funext hash
  show (v'.files.lookup (b.consistencyPath hash)).map _ = _
  rw [consistencyPath_below, h.lookup_frame hn hsaves (slots_consistency hash) hstore]
  exact h.lookup_consistency hash

theorem revocations_frame (h : b.Holds v r) (hn : b.shelf.slots names) (hsaves : v.Saves (b.root.below names) a v')
    (hstore : names.head? ≠ some "revocations") : (b.stores v').revocations = r.revocations := by
  funext hash
  show (v'.files.lookup (b.revocationPath hash)).map _ = _
  rw [revocationPath_below, h.lookup_frame hn hsaves (slots_revocation hash) hstore]
  exact h.lookup_revocations hash

/-! ### What a file of its own store does -/

/-- No artifact gets a directory when a file is saved in one that is there. -/
theorem entries_there (h : b.Holds v r) (hname : Plain name)
    (hdir : v.files.at_ (b.shelf.place ["artifacts", hex32 hash]) ≠ none)
    (hsaves : v.Saves (b.root.below ["artifacts", hex32 hash, name]) a v') :
    v'.entries (b.shelf.place ["artifacts"]) = v.entries (b.shelf.place ["artifacts"]) := by
  refine entries_saves ["artifacts"] h.clear (slots_artifact hash hname) hsaves fun other hprefix => ?_
  obtain ⟨_, hrest⟩ := hprefix
  simp only [List.cons_append, List.nil_append, List.cons.injEq, true_and] at hrest
  rw [hrest.1]
  exact hdir

/-- The bytes of an artifact are those that were saved last. -/
theorem at_artifact (h : b.Holds v r) (hsaves : v.Saves (b.root.below ["artifacts", hex32 hash, "artifact.kew"]) a v')
    (file : String) : v'.files.at_ (b.shelf.place ["artifacts", file, "artifact.kew"]) =
      if file = hex32 hash then some (.file a)
      else v.files.at_ (b.shelf.place ["artifacts", file, "artifact.kew"]) := by
  have hn : b.shelf.slots ["artifacts", hex32 hash, "artifact.kew"] := slots_artifact hash (by decide)
  split
  · rename_i heq
    rw [heq, h.clear.at_place hn hsaves.files hn, if_pos rfl]
  · rename_i hne
    exact at_saves h.clear hn hsaves fun hprefix => hne (names_of_front hprefix).2.1

/-- The store of artifacts, one of them saved, and the directories in it. -/
theorem artifacts_saved (h : b.Holds v r) {kew : Bytes}
    (hsaves : v.Saves (b.root.below ["artifacts", hex32 hash, "artifact.kew"]) (.kew kew) v') :
    (b.stores v').artifacts = putFile (hex32 hash) kew r.artifacts ∧
      ∀ file ∈ v'.entries (b.shelf.place ["artifacts"]), file = hex32 hash ∨
        file ∈ v.entries (b.shelf.place ["artifacts"]) := by
  have hn : b.shelf.slots ["artifacts", hex32 hash, "artifact.kew"] := slots_artifact hash (by decide)
  have hat := h.at_artifact hsaves
  have hold : ∀ file ∈ v.entries (b.shelf.place ["artifacts"]), ∃ d,
      (v.files.at_ (b.shelf.place ["artifacts", file, "artifact.kew"])).map
        (fun node => (file, Contents.bytesOfNode node)) = some (file, d) := by
    intro file hfile
    obtain ⟨node, hnode⟩ := Option.ne_none_iff_exists'.1 (h.filed file hfile)
    exact ⟨_, by rw [hnode]; rfl⟩
  rw [← h.artifacts, stores_artifacts h.clear, stores_artifacts (h.clear.of_saved hn hsaves.files)]
  by_cases hdir : v.files.at_ (b.shelf.place ["artifacts", hex32 hash]) = none
  · -- the artifact gets a directory
    have hentries : v'.entries (b.shelf.place ["artifacts"]) =
        v.entries (b.shelf.place ["artifacts"]) ++ [hex32 hash] :=
      Volume.Saves.entries_concat (s := b.shelf) ["artifact.kew"] hsaves h.clear hn hdir
    have hnew : hex32 hash ∉ v.entries (b.shelf.place ["artifacts"]) := fun hmem => (v.listed _ _).1 hmem hdir
    rw [hentries, List.filterMap_append, putFile_absent]
    · refine ⟨?_, fun file hfile => (List.mem_append.1 hfile).symm.imp_left List.mem_singleton.1⟩
      congr 1
      · refine List.filterMap_congr fun file hfile => ?_
        rw [hat, if_neg fun heq => hnew (by rw [← heq]; exact hfile)]
      · rw [List.filterMap_cons, hat, if_pos rfl]
        rfl
    · intro other hother heq
      obtain ⟨file, hfile, hsome⟩ := List.mem_filterMap.1 hother
      obtain ⟨d, hd⟩ := hold file hfile
      cases hsome.symm.trans hd
      exact hnew (by rw [← heq]; exact hfile)
  · rw [h.entries_there (by decide) hdir hsaves]
    refine ⟨(putFile_filterMap ?_ ?_ (v.nodup _) ((v.listed _ _).2 hdir) hold).symm, fun file hfile => .inr hfile⟩
    · rw [hat, if_pos rfl]
      rfl
    · intro other hother
      rw [hat, if_neg hother]

theorem putKew (h : b.Holds v r) {kew : Bytes}
    (hsaves : v.Saves (b.root.below ["artifacts", hex32 hash, "artifact.kew"]) (.kew kew) v') :
    b.Holds v' (r.putArtifact hash kew) := by
  have hn : b.shelf.slots ["artifacts", hex32 hash, "artifact.kew"] := slots_artifact hash (by decide)
  obtain ⟨hartifacts, hentries⟩ := h.artifacts_saved hsaves
  refine ⟨h.clear.of_saved hn hsaves.files, fun file hfile => ?_, hartifacts, ?_, fun _ _ henv htag => ?_, ?_, ?_⟩
  · rw [h.at_artifact hsaves]
    split
    · exact Option.some_ne_none _
    · rename_i hne
      exact h.filed file ((hentries file hfile).resolve_left hne)
  · funext other
    exact h.events_frame hn hsaves other fun name heq => absurd (List.cons.inj heq).1 (by decide)
  · exact h.tags_frame hn hsaves (by simp) henv htag
  · exact h.consistency_frame hn hsaves (by simp)
  · exact h.revocations_frame hn hsaves (by simp)

/-- A review view beside an artifact. -/
theorem putView (h : b.Holds v r) (hname : Plain name) (hne : name ≠ "artifact.kew")
    (hdir : v.files.at_ (b.shelf.place ["artifacts", hex32 hash]) ≠ none)
    (hsaves : v.Saves (b.root.below ["artifacts", hex32 hash, name]) a v') : b.Holds v' r := by
  have hn : b.shelf.slots ["artifacts", hex32 hash, name] := slots_artifact hash hname
  have hclear := h.clear.of_saved hn hsaves.files
  have hat : ∀ file, v'.files.at_ (b.shelf.place ["artifacts", file, "artifact.kew"]) =
      v.files.at_ (b.shelf.place ["artifacts", file, "artifact.kew"]) := by
    intro file
    exact at_saves h.clear hn hsaves fun hprefix => hne (names_of_front hprefix).2.2.symm
  have hentries := h.entries_there hname hdir hsaves
  refine ⟨hclear, fun file hfile => ?_, ?_, ?_, fun _ _ henv htag => ?_, ?_, ?_⟩
  · rw [hat]
    rw [hentries] at hfile
    exact h.filed file hfile
  · rw [← h.artifacts, stores_artifacts h.clear, stores_artifacts hclear, hentries]
    simp only [hat]
  · funext other
    exact h.events_frame hn hsaves other fun name heq => absurd (List.cons.inj heq).1 (by decide)
  · exact h.tags_frame hn hsaves (by simp) henv htag
  · exact h.consistency_frame hn hsaves (by simp)
  · exact h.revocations_frame hn hsaves (by simp)

theorem putEvent (h : b.Holds v r) {event : LifecycleEvent} (hname : Plain (eventFileName event))
    (hnone : v.files.at_ (b.shelf.place ["events", hex32 hash, eventFileName event]) = none)
    (hsaves : v.Saves (b.root.below ["events", hex32 hash, eventFileName event]) (.event event) v') :
    b.Holds v' { r with
      events := Function.update r.events hash (r.events hash ++ [(eventFileName event, .good event)]) } := by
  have hn : b.shelf.slots ["events", hex32 hash, eventFileName event] := slots_event hash hname
  have hclear := h.clear.of_saved hn hsaves.files
  obtain ⟨hartifacts, hfiled⟩ := h.artifacts_frame hn hsaves (by simp)
  refine ⟨hclear, hfiled, hartifacts, ?_, fun _ _ henv htag => ?_, ?_, ?_⟩
  · funext other
    show _ = Function.update r.events hash _ other
    by_cases hother : other = hash
    · -- the file is listed last
      subst hother
      have hentries : v'.entries (b.shelf.place ["events", hex32 other]) =
          v.entries (b.shelf.place ["events", hex32 other]) ++ [eventFileName event] :=
        Volume.Saves.entries_concat (s := b.shelf) [] hsaves h.clear hn hnone
      have hnew : eventFileName event ∉ v.entries (b.shelf.place ["events", hex32 other]) := fun hmem =>
        (v.listed _ _).1 hmem hnone
      have hat : ∀ file ∈ v.entries (b.shelf.place ["events", hex32 other]),
          v'.files.at_ (b.shelf.place ["events", hex32 other, file]) =
            v.files.at_ (b.shelf.place ["events", hex32 other, file]) := by
        intro file hfile
        refine at_saves h.clear hn hsaves fun hprefix => hnew ?_
        rw [← (names_of_front hprefix).2.2]
        exact hfile
      have hself := h.clear.at_place hn hsaves.files hn
      rw [if_pos rfl] at hself
      rw [Function.update_self, ← h.events, stores_events h.clear, stores_events hclear, hentries,
        List.filterMap_append]
      refine congrArg₂ _ (List.filterMap_congr fun file hfile => by rw [hat file hfile]) ?_
      rw [List.filterMap_cons, hself]
      rfl
    · rw [Function.update_of_ne hother]
      refine h.events_frame hn hsaves other fun name heq => hother ?_
      simp only [List.cons.injEq, true_and, and_true] at heq
      exact (hex32_inj heq.1).symm
  · exact h.tags_frame hn hsaves (by simp) henv htag
  · exact h.consistency_frame hn hsaves (by simp)
  · exact h.revocations_frame hn hsaves (by simp)

theorem putTag (h : b.Holds v r) (henv : Plain env) (htag : '/' ∉ tag.toList) {eventRef : String}
    (hsaves : v.Saves (b.root.below ["tags", env, tag ++ ".json"]) (.pointer ⟨env, tag, hex32 hash, eventRef⟩) v') :
    b.Holds v' (r.putPointer env tag hash eventRef) := by
  have hn : b.shelf.slots ["tags", env, tag ++ ".json"] := slots_tag henv htag
  obtain ⟨hartifacts, hfiled⟩ := h.artifacts_frame hn hsaves (by simp)
  refine ⟨h.clear.of_saved hn hsaves.files, hfiled, hartifacts, ?_, fun env' tag' henv' htag' => ?_, ?_, ?_⟩
  · funext other
    exact h.events_frame hn hsaves other fun name heq => absurd (List.cons.inj heq).1 (by decide)
  · have hold := h.tags env' tag' henv' htag'
    unfold LocalFsBackend.stores at hold ⊢
    simp only [tagPath_plain henv' htag'] at hold ⊢
    rw [lookup_saves h.clear hn hsaves (slots_tag henv' htag'), putPointer_tags, apply_ite (Option.map _), hold]
    refine if_congr ⟨fun heq => ?_, fun hname => ?_⟩ rfl rfl
    · simp only [List.cons.injEq, true_and, and_true] at heq
      exact heq.imp_right (String.append_left_inj _ |>.1)
    · rw [hname.1, hname.2]
  · exact h.consistency_frame hn hsaves (by simp)
  · exact h.revocations_frame hn hsaves (by simp)

/-- The sidecars of a store, one of them saved. -/
theorem sidecars_saved {β : Type} {f : Node Contents → JsonFile β} {sidecars : Hash32 → Option (JsonFile β)}
    (h : b.Holds v r) (hslot : ∀ hash, b.shelf.slots [store, hex32 hash ++ ".json"])
    (hsaves : v.Saves (b.root.below [store, hex32 hash ++ ".json"]) a v')
    (hold : ∀ hash, (v.files.lookup (b.root.below [store, hex32 hash ++ ".json"])).map f = sidecars hash)
    (other : Hash32) : (v'.files.lookup (b.root.below [store, hex32 other ++ ".json"])).map f =
      Function.update sidecars hash (some (f (.file a))) other := by
  rw [lookup_saves h.clear (hslot hash) hsaves (hslot other), Function.update_apply, apply_ite (Option.map _), hold]
  refine if_congr ⟨fun heq => ?_, fun heq => heq ▸ rfl⟩ rfl rfl
  simp only [List.cons.injEq, true_and, and_true] at heq
  exact hex32_inj (String.append_left_inj _ |>.1 heq)

theorem putConsistency (h : b.Holds v r) {block : ConsistencyBlock}
    (hsaves : v.Saves (b.root.below ["consistency", hex32 hash ++ ".json"]) (.consistency block) v') :
    b.Holds v' { r with consistency := Function.update r.consistency hash (some (.good block)) } := by
  have hn : b.shelf.slots ["consistency", hex32 hash ++ ".json"] := slots_consistency hash
  obtain ⟨hartifacts, hfiled⟩ := h.artifacts_frame hn hsaves (by simp)
  refine ⟨h.clear.of_saved hn hsaves.files, hfiled, hartifacts, ?_, fun _ _ henv htag => ?_, ?_, ?_⟩
  · funext other
    exact h.events_frame hn hsaves other fun name heq => absurd (List.cons.inj heq).1 (by decide)
  · exact h.tags_frame hn hsaves (by simp) henv htag
  · funext other
    show (v'.files.lookup (b.consistencyPath other)).map _ = _
    rw [consistencyPath_below]
    exact h.sidecars_saved slots_consistency hsaves h.lookup_consistency other
  · exact h.revocations_frame hn hsaves (by simp)

theorem putRevocation (h : b.Holds v r) {record : RevocationRecord}
    (hsaves : v.Saves (b.root.below ["revocations", hex32 hash ++ ".json"]) (.revocation record) v') :
    b.Holds v' { r with revocations := Function.update r.revocations hash (some (.good record)) } := by
  have hn : b.shelf.slots ["revocations", hex32 hash ++ ".json"] := slots_revocation hash
  obtain ⟨hartifacts, hfiled⟩ := h.artifacts_frame hn hsaves (by simp)
  refine ⟨h.clear.of_saved hn hsaves.files, hfiled, hartifacts, ?_, fun _ _ henv htag => ?_, ?_, ?_⟩
  · funext other
    exact h.events_frame hn hsaves other fun name heq => absurd (List.cons.inj heq).1 (by decide)
  · exact h.tags_frame hn hsaves (by simp) henv htag
  · exact h.consistency_frame hn hsaves (by simp)
  · funext other
    show (v'.files.lookup (b.revocationPath other)).map _ = _
    rw [revocationPath_below]
    exact h.sidecars_saved slots_revocation hsaves h.lookup_revocations other

/-! ### Operations -/

theorem putArtifact (h : b.Holds v r) (hash : Hash32) (kew : Bytes) :
    ∃ v', Disk.putArtifact b hash kew v = (.ok (), v') ∧ b.Holds v' (r.putArtifact hash kew) := by
  obtain ⟨v₁, v₂, hdirs, -, hkew, hsaves₂⟩ :=
    h.clear.save (slots_artifact hash (show Plain "artifact.kew" by decide)) (.kew kew)
  have h₂ := h.putKew hsaves₂
  have hdir : ∀ {w : Disk}, w.files.at_ (b.shelf.place ["artifacts", hex32 hash, "artifact.kew"]) ≠ none →
      w.files.at_ (b.shelf.place ["artifacts", hex32 hash]) ≠ none := by
    intro w hsome
    rw [show w.files.at_ (b.shelf.place ["artifacts", hex32 hash]) = some .dir from w.files.parent _ _ hsome]
    exact Option.some_ne_none _
  have hthere : v₂.files.at_ (b.shelf.place ["artifacts", hex32 hash, "artifact.kew"]) ≠ none := by
    rw [h.clear.at_place (slots_artifact hash (by decide)) hsaves₂.files (slots_artifact hash (by decide)), if_pos rfl]
    exact Option.some_ne_none _
  obtain ⟨v₃, hmanifest, hsaves₃⟩ := h₂.clear.write (slots_artifact hash (show Plain "manifest.json" by decide))
    (leads_beside ["artifacts", hex32 hash] hsaves₂.files) .view
  have h₃ := h₂.putView (by decide) (by decide) (hdir hthere) hsaves₃
  have hthere : v₃.files.at_ (b.shelf.place ["artifacts", hex32 hash, "artifact.kew"]) ≠ none := by
    rw [at_saves h₂.clear (slots_artifact hash (by decide)) hsaves₃ fun hprefix => ?_]
    · exact hthere
    · exact absurd (names_of_front hprefix).2.2 (by decide)
  obtain ⟨v₄, hschema, hsaves₄⟩ := h₃.clear.write (slots_artifact hash (show Plain "schema.json" by decide))
    (leads_beside ["artifacts", hex32 hash] hsaves₃.files) .view
  have h₄ := h₃.putView (by decide) (by decide) (hdir hthere) hsaves₄
  refine ⟨v₄, ?_, h₄⟩
  have hdirs : v.createDirAll (b.root.below ["artifacts", hex32 hash]) = (.ok (), v₁) := by
    rw [← parent_concat b ["artifacts", hex32 hash] "artifact.kew"]
    exact hdirs
  have hkew : v₁.write (b.root.below ["artifacts", hex32 hash, "artifact.kew"]) (.kew kew) = (.ok (), v₂) := hkew
  have hmanifest : v₂.write (b.root.below ["artifacts", hex32 hash, "manifest.json"]) .view = (.ok (), v₃) := hmanifest
  have hschema : v₃.write (b.root.below ["artifacts", hex32 hash, "schema.json"]) .view = (.ok (), v₄) := hschema
  unfold Disk.putArtifact
  simp only [artifactsDir_below, join_below (show Plain "artifact.kew" by decide),
    join_below (show Plain "manifest.json" by decide), join_below (show Plain "schema.json" by decide),
    List.cons_append, List.nil_append, hdirs, hkew, hmanifest, hschema, Disk.andThen, Disk.io, Except.mapError]

/-- An event is there when its file is. -/
theorem any_events (h : b.Holds v r) (hash : Hash32) (hname : Plain name) :
    ((r.events hash).any fun file => decide (file.1 = name)) =
      v.files.exists (b.root.below ["events", hex32 hash, name]) := by
  have hslot : b.shelf.slots ["events", hex32 hash, name] := slots_event hash hname
  have hlookup : v.files.lookup (b.root.below ["events", hex32 hash, name]) =
      v.files.at_ (b.shelf.place ["events", hex32 hash, name]) :=
    h.clear.lookup (b.shelf.plain hslot) (b.shelf.ne_nil hslot)
  rw [Bool.eq_iff_iff, List.any_eq_true, ← h.events, stores_events h.clear]
  unfold Files.exists
  rw [hlookup, Option.isSome_iff_ne_none]
  constructor
  · rintro ⟨file, hfile, hsame⟩
    obtain ⟨other, hother, hsome⟩ := List.mem_filterMap.1 hfile
    obtain ⟨node, -, rfl⟩ := Option.map_eq_some_iff.1 hsome
    obtain rfl : other = name := of_decide_eq_true hsame
    exact (v.listed _ _).1 hother
  · intro hsome
    obtain ⟨node, hnode⟩ := Option.ne_none_iff_exists'.1 hsome
    refine ⟨(name, Contents.ofNode Contents.asEvent node), List.mem_filterMap.2 ⟨name, (v.listed _ _).2 hsome, ?_⟩,
      decide_eq_true rfl⟩
    rw [hnode]
    rfl

theorem appendEvent (h : b.Holds v r) (hash : Hash32) {event : LifecycleEvent} (hname : Plain (eventFileName event)) :
    (Disk.appendEvent b hash event v).1 = (r.appendEvent hash event).1.mapError .registry ∧
      b.Holds (Disk.appendEvent b hash event v).2 (r.appendEvent hash event).2 := by
  have hslot : b.shelf.slots ["events", hex32 hash, eventFileName event] := slots_event hash hname
  have hlookup : v.files.lookup (b.root.below ["events", hex32 hash, eventFileName event]) =
      v.files.at_ (b.shelf.place ["events", hex32 hash, eventFileName event]) :=
    h.clear.lookup (b.shelf.plain hslot) (b.shelf.ne_nil hslot)
  have hpath : (b.eventsDir hash).join (eventFileName event) =
      b.root.below ["events", hex32 hash, eventFileName event] := by
    rw [eventsDir_below, join_below hname]
    rfl
  unfold Backend.appendEvent
  rw [h.any_events hash hname]
  by_cases hexists : v.files.exists (b.root.below ["events", hex32 hash, eventFileName event]) = true
  · -- the directory is there, and so is the file
    have hsome : v.files.at_ (b.shelf.place ["events", hex32 hash, eventFileName event]) ≠ none := by
      unfold Files.exists at hexists
      rw [hlookup] at hexists
      exact Option.isSome_iff_ne_none.1 hexists
    have hdirs : v.createDirAll (b.root.below ["events", hex32 hash]) = (.ok (), v) := by
      refine Volume.createDirs_dirs ?_
      have hleads := h.clear.leads (b.shelf.plain hslot) (b.shelf.ne_nil hslot) hsome
      unfold Files.Leads PathBuf.way at hleads
      rw [show b.shelf.root.below ["events", hex32 hash, eventFileName event] =
        b.root.below (["events", hex32 hash] ++ [eventFileName event]) from rfl, parent_concat] at hleads
      exact hleads
    have hrun : Disk.appendEvent b hash event v = (.error (.registry (.eventExists event.seq)), v) := by
      unfold Disk.appendEvent
      simp only [hpath]
      simp only [eventsDir_below, hdirs, Disk.andThen, Disk.io, Except.mapError, hexists, if_true]
    rw [hrun, if_pos hexists]
    exact ⟨rfl, h⟩
  · obtain ⟨v₁, v₂, hdirs, hsame, hwrite, hsaves⟩ := h.clear.save hslot (.event event)
    have hdirs : v.createDirAll (b.root.below ["events", hex32 hash]) = (.ok (), v₁) := by
      rw [← parent_concat b ["events", hex32 hash] (eventFileName event)]
      exact hdirs
    have hsame : v₁.files.exists (b.root.below ["events", hex32 hash, eventFileName event]) = false := by
      rw [← Bool.not_eq_true]
      unfold Files.exists at hexists ⊢
      rw [show v₁.files.lookup (b.root.below ["events", hex32 hash, eventFileName event]) = _ from hsame]
      exact hexists
    have hwrite : v₁.write (b.root.below ["events", hex32 hash, eventFileName event]) (.event event) = (.ok (), v₂) :=
      hwrite
    have hrun : Disk.appendEvent b hash event v = (.ok (), v₂) := by
      unfold Disk.appendEvent
      simp only [hpath]
      simp only [eventsDir_below, hdirs, Disk.andThen, Disk.io, Except.mapError, hsame, hwrite, Bool.false_eq_true,
        if_false]
    have hnone : v.files.at_ (b.shelf.place ["events", hex32 hash, eventFileName event]) = none := by
      unfold Files.exists at hexists
      rw [hlookup, Option.isSome_iff_ne_none, not_not] at hexists
      exact hexists
    rw [hrun, if_neg hexists]
    exact ⟨rfl, h.putEvent hname hnone hsaves⟩

theorem putPointer (h : b.Holds v r) (henv : Plain env) (htag : '/' ∉ tag.toList) (hash : Hash32) (eventRef : String) :
    ∃ v', Disk.putPointer b env tag hash eventRef v = (.ok (), v') ∧
      b.Holds v' (r.putPointer env tag hash eventRef) := by
  obtain ⟨v₁, v₂, hdirs, -, hwrite, hsaves⟩ := h.clear.save (slots_tag henv htag)
    (.pointer ⟨env, tag, hex32 hash, eventRef⟩)
  refine ⟨v₂, ?_, h.putTag henv htag hsaves⟩
  have hdirs : v.createDirAll (b.root.below ["tags", env, tag ++ ".json"]).parent = (.ok (), v₁) := hdirs
  have hwrite : v₁.write (b.root.below ["tags", env, tag ++ ".json"]) (.pointer ⟨env, tag, hex32 hash, eventRef⟩) =
    (.ok (), v₂) := hwrite
  unfold Disk.putPointer
  simp only [tagPath_plain henv htag, hdirs, hwrite, Disk.andThen, Disk.io, Except.mapError]

/-- A sidecar is refused where there is one, and saved where there is none. -/
theorem putSidecar (h : b.Holds v r) (hslot : b.shelf.slots names) (kind : String) (a : Contents) :
    v.files.exists (b.root.below names) = true ∧
        Disk.putSidecar (b.root.below names) kind a v = (.error (.registry (.sidecarExists kind)), v) ∨
      v.files.exists (b.root.below names) = false ∧
        ∃ v', Disk.putSidecar (b.root.below names) kind a v = (.ok (), v') ∧ v.Saves (b.root.below names) a v' := by
  unfold Disk.putSidecar
  cases hexists : v.files.exists (b.root.below names) with
  | true => exact .inl ⟨rfl, if_pos rfl⟩
  | false =>
    obtain ⟨v₁, v₂, hdirs, -, hwrite, hsaves⟩ := h.clear.save hslot a
    have hdirs : v.createDirAll (b.root.below names).parent = (.ok (), v₁) := hdirs
    have hwrite : v₁.write (b.root.below names) a = (.ok (), v₂) := hwrite
    refine .inr ⟨rfl, v₂, ?_, hsaves⟩
    simp only [hdirs, hwrite, Disk.andThen, Disk.io, Except.mapError, Bool.false_eq_true, if_false]

/-- On the files as in its store: `put` puts the store back in its place. -/
theorem putSidecar_store {β : Type} {f : Node Contents → JsonFile β} {sidecars : Hash32 → Option (JsonFile β)}
    {kind : String} {x : β} (h : b.Holds v r) (put : (Hash32 → Option (JsonFile β)) → Backend)
    (hslot : b.shelf.slots names) (hput : put sidecars = r)
    (hlookup : (v.files.lookup (b.root.below names)).map f = sidecars hash)
    (hsaved : ∀ v', v.Saves (b.root.below names) a v' →
      b.Holds v' (put (Function.update sidecars hash (some (.good x))))) :
    (Disk.putSidecar (b.root.below names) kind a v).1 =
        (Registry.putSidecar kind sidecars hash x).1.mapError .registry ∧
      b.Holds (Disk.putSidecar (b.root.below names) kind a v).2 (put (Registry.putSidecar kind sidecars hash x).2) := by
  have hfile : (sidecars hash).isSome = v.files.exists (b.root.below names) := by
    rw [← hlookup, Option.isSome_map]
    rfl
  unfold Registry.putSidecar
  rcases h.putSidecar hslot kind a with ⟨hexists, hrun⟩ | ⟨hexists, v', hrun, hsaves⟩
  · obtain ⟨file, hsome⟩ := Option.isSome_iff_exists.1 (hfile.trans hexists)
    rw [hrun, hsome]
    refine ⟨rfl, ?_⟩
    rw [hput]
    exact h
  · have hnone : sidecars hash = none := by
      rw [← Option.not_isSome_iff_eq_none, hfile, hexists]
      exact Bool.false_ne_true
    rw [hrun, hnone]
    exact ⟨rfl, hsaved v' hsaves⟩

end LocalFsBackend.Holds

/-! ## The stores simulated -/

theorem command_registry {β : Type} (x : Except RegistryError β) :
    (x.mapError StoreError.registry).mapError StoreError.command = x.mapError CommandError.registry := by
  cases x <;> rfl

/-- What the readers of a disk find is what the stores hold. -/
theorem LocalFsBackend.Holds.exec (h : b.Holds v r) : ∀ {β : Type} (op : BackendOp β), op.Plain →
    (Disk.exec b op v).1 = (Registry.exec op r).1.mapError .registry ∧
      b.Holds (Disk.exec b op v).2 (Registry.exec op r).2
  | _, .putArtifact hash kew, _ => by
    obtain ⟨v', hrun, hholds⟩ := h.putArtifact hash kew
    rw [Disk.exec, hrun]
    exact ⟨rfl, hholds⟩
  | _, .appendEvent hash event, hplain => h.appendEvent hash hplain
  | _, .readArtifactKew hash, _ => by
    refine ⟨?_, h⟩
    rw [Disk.exec, Registry.exec]
    unfold Backend.readArtifactKew
    rw [h.artifacts]
  | _, .readEvents hash, _ => by
    refine ⟨?_, h⟩
    rw [Disk.exec, Registry.exec]
    unfold Backend.readEvents
    rw [h.events]
  | _, .putPointer env tag targetHash eventRef, hplain => by
    obtain ⟨v', hrun, hholds⟩ := h.putPointer hplain.1 hplain.2 targetHash eventRef
    rw [Disk.exec, hrun]
    exact ⟨rfl, hholds⟩
  | _, .putConsistency hash block, _ => by
    rw [Disk.exec, consistencyPath_below]
    exact h.putSidecar_store (fun consistency => { r with consistency }) (slots_consistency hash) rfl
      (h.lookup_consistency hash) fun _ hsaves => h.putConsistency hsaves
  | _, .readConsistency hash, _ => by
    refine ⟨?_, h⟩
    rw [Disk.exec, Registry.exec]
    unfold Backend.readConsistency
    rw [h.consistency]
  | _, .putRevocation hash record, _ => by
    rw [Disk.exec, revocationPath_below]
    exact h.putSidecar_store (fun revocations => { r with revocations }) (slots_revocation hash) rfl
      (h.lookup_revocations hash) fun _ hsaves => h.putRevocation hsaves

/-- Under plain names, no operation tells the files from the stores. -/
theorem perform_simulates (b : LocalFsBackend) :
    Simulates (Disk.perform b) Registry.perform BackendOp.Plain b.Holds := by
  intro β op v r hplain h
  obtain ⟨hanswer, hholds⟩ := h.exec op hplain
  refine ⟨?_, hholds⟩
  show (Disk.exec b op v).1.mapError _ = (Registry.exec op r).1.mapError _
  rw [hanswer, command_registry]

end

end Ke.Registry
