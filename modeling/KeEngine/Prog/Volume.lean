/-
Trees of files whose directories list what is in them, and a shelf of files there: below one directory, paths none of
which leads through the end of another. What is saved at one of them is found there and changes no other.
-/
import KeEngine.Prog.FileTree
import Mathlib.Data.List.Nodup

namespace Ke.FileTree

/-! ## Volumes -/

/-- A tree of files, and the names in each of its directories. -/
structure Volume (α : Type) where
  files : Files α
  /-- in the order in which they were made -/
  entries : Location → List String
  nodup : ∀ loc, (entries loc).Nodup
  listed : ∀ name loc, name ∈ entries loc ↔ files.at_ (name :: loc) ≠ none

section

variable {α : Type} {v v' w : Volume α} {t t' : Files α} {loc l : Location} {names : List String} {p : PathBuf} {a : α}

/-- Nothing but the root. -/
def Volume.bare : Volume α where
  files := .bare
  entries _ := []
  nodup _ := List.nodup_nil
  listed name loc := by
    refine iff_of_false List.not_mem_nil (not_not.2 ?_)
    show (if name :: loc = [] then some (Node.dir : Node α) else none) = none
    rw [if_neg (List.cons_ne_nil name loc)]

/-- A node under a directory, whose listing goes on with a name that is new. -/
def Volume.put (v : Volume α) : Location → Node α → Volume α
  | [], _ => v
  | name :: loc, node =>
    if h : ¬ v.files.IsDir (name :: loc) ∧ v.files.IsDir loc then
      { files := v.files.put (name :: loc) node
        entries := if name ∈ v.entries loc then v.entries else
          Function.update v.entries loc (v.entries loc ++ [name])
        nodup := fun l => by
          split
          · exact v.nodup l
          · rename_i hnew
            by_cases hl : l = loc
            · subst hl
              rw [Function.update_self, List.nodup_append]
              exact ⟨v.nodup l, List.nodup_singleton name, fun n hn m hm heq => by
                rw [List.mem_singleton] at hm
                exact hnew (hm ▸ heq ▸ hn)⟩
            · rw [Function.update_of_ne hl]
              exact v.nodup l
        listed := fun n l => by
          rw [Files.put_at h.1 h.2]
          by_cases hsame : n :: l = name :: loc
          · obtain ⟨rfl, rfl⟩ := List.cons.inj hsame
            rw [if_pos rfl]
            refine iff_of_true ?_ nofun
            split
            · assumption
            · rw [Function.update_self]
              exact List.mem_append_right _ (List.mem_singleton_self n)
          · rw [if_neg hsame, ← v.listed]
            split
            · rfl
            · by_cases hl : l = loc
              · subst hl
                have hne : n ≠ name := fun heq => hsame (heq ▸ rfl)
                rw [Function.update_self, List.mem_append, List.mem_singleton, or_iff_left hne]
              · rw [Function.update_of_ne hl] }
    else v

def Volume.createDirs (v : Volume α) : Location → List String → Except FileError Unit × Volume α
  | _, [] => (.ok (), v)
  | loc, name :: names =>
    match v.files.at_ (stepTo name loc) with
    | some .dir => v.createDirs (stepTo name loc) names
    | some (.file _) => (.error .notADirectory, v)
    | none => (v.put (stepTo name loc) .dir).createDirs (stepTo name loc) names

def Volume.createDirAll (v : Volume α) (p : PathBuf) : Except FileError Unit × Volume α := v.createDirs p.start p.names

def Volume.write (v : Volume α) (p : PathBuf) (a : α) : Except FileError Unit × Volume α :=
  match v.files.walk p.start p.names with
  | none => (.error .notFound, v)
  | some loc => if v.files.IsDir loc then (.error .isADirectory, v) else (.ok (), v.put loc (.file a))

/-- The entries of a directory: their names, and the paths that they lie at. -/
def Volume.readDir (v : Volume α) (p : PathBuf) : List (String × PathBuf) :=
  match v.files.walk p.start p.names with
  | none => []
  | some loc => (v.entries loc).map fun name => (name, ⟨name :: loc, []⟩)

/-! ## The tree of a volume -/

/-- Every listing goes on. -/
def Volume.Grows (v v' : Volume α) : Prop := ∀ l, v.entries l <+: v'.entries l

theorem Volume.Grows.refl (v : Volume α) : v.Grows v := fun _ => List.prefix_refl _

theorem Volume.Grows.trans (h : v.Grows v') (h' : v'.Grows w) : v.Grows w := fun l => (h l).trans (h' l)

theorem Volume.put_files (v : Volume α) (loc : Location) (node : Node α) :
    (v.put loc node).files = v.files.put loc node := by
  unfold Files.put
  cases loc with
  | nil =>
    rw [dif_neg fun h => h.1 v.files.root]
    rfl
  | cons name loc =>
    rw [Volume.put]
    by_cases h : ¬ v.files.IsDir (name :: loc) ∧ v.files.IsDir loc
    · rw [dif_pos h, dif_pos (show ¬ v.files.IsDir (name :: loc) ∧ v.files.IsDir (name :: loc).tail from h)]
      exact dif_pos h
    · rw [dif_neg h, dif_neg (show ¬ (¬ v.files.IsDir (name :: loc) ∧ v.files.IsDir (name :: loc).tail) from h)]

theorem Volume.put_grows (v : Volume α) (loc : Location) (node : Node α) : v.Grows (v.put loc node) := by
  intro l
  cases loc with
  | nil => exact List.prefix_refl _
  | cons name loc =>
    rw [Volume.put]
    split
    · show v.entries l <+: (if name ∈ v.entries loc then v.entries else _) l
      split
      · exact List.prefix_refl _
      · by_cases hl : l = loc
        · subst hl
          rw [Function.update_self]
          exact List.prefix_append _ _
        · simp only [Function.update_of_ne hl, List.prefix_refl]
    · exact List.prefix_refl _

theorem Volume.createDirs_spec : ∀ (names : List String) (loc : Location) (v : Volume α),
    (v.createDirs loc names).1 = (v.files.createDirs loc names).1 ∧
      (v.createDirs loc names).2.files = (v.files.createDirs loc names).2 ∧ v.Grows (v.createDirs loc names).2
  | [], _, v => ⟨rfl, rfl, .refl v⟩
  | name :: names, loc, v => by
    rw [Volume.createDirs, Files.createDirs]
    rcases v.files.at_ (stepTo name loc) with _ | _ | a
    · obtain ⟨hanswer, hfiles, hgrows⟩ :=
        createDirs_spec names (stepTo name loc) (v.put (stepTo name loc) .dir)
      rw [v.put_files] at hanswer hfiles
      exact ⟨hanswer, hfiles, (v.put_grows _ _).trans hgrows⟩
    · exact createDirs_spec names (stepTo name loc) v
    · exact ⟨rfl, rfl, .refl v⟩

/-- Directories that are there are made again without effect. -/
theorem Volume.createDirs_dirs : ∀ {names : List String} {loc : Location},
    (∀ l ∈ visited loc names, v.files.IsDir l) → v.createDirs loc names = (.ok (), v)
  | [], _, _ => rfl
  | name :: names, loc, h => by
    rw [visited, List.forall_mem_cons] at h
    rw [Volume.createDirs, show v.files.at_ (stepTo name loc) = some .dir from h.1]
    exact createDirs_dirs h.2

/-- A listing to which nothing is added. -/
theorem Volume.Grows.same (h : v.Grows v')
    (hold : ∀ name, v'.files.at_ (name :: l) ≠ none → v.files.at_ (name :: l) ≠ none) : v'.entries l = v.entries l := by
  obtain ⟨rest, hrest⟩ := h l
  have hnodup := v'.nodup l
  rw [← hrest, List.nodup_append] at hnodup
  cases rest with
  | nil => exact (hrest.symm.trans (List.append_nil _))
  | cons name rest =>
    have hmem : name ∈ v'.entries l := by
      rw [← hrest]
      exact List.mem_append_right _ List.mem_cons_self
    have hbefore := (v.listed name l).2 (hold name ((v'.listed name l).1 hmem))
    exact absurd rfl (hnodup.2.2 name hbefore name List.mem_cons_self)

/-- A listing to which one name is added. -/
theorem Volume.Grows.one {name : String} (h : v.Grows v') (hnone : v.files.at_ (name :: l) = none)
    (hmade : v'.files.at_ (name :: l) ≠ none)
    (hold : ∀ name', name' ≠ name → v'.files.at_ (name' :: l) ≠ none → v.files.at_ (name' :: l) ≠ none) :
    v'.entries l = v.entries l ++ [name] := by
  obtain ⟨rest, hrest⟩ := h l
  have hnodup := v'.nodup l
  rw [← hrest, List.nodup_append] at hnodup
  have hrestMem : ∀ name' ∈ rest, name' = name := by
    intro name' hname'
    by_contra hne
    have hmem : name' ∈ v'.entries l := by
      rw [← hrest]
      exact List.mem_append_right _ hname'
    have hbefore := (v.listed name' l).2 (hold name' hne ((v'.listed name' l).1 hmem))
    exact hnodup.2.2 name' hbefore name' hname' rfl
  have hmem : name ∈ rest := by
    have hmem := (v'.listed name l).2 hmade
    rw [← hrest] at hmem
    exact (List.mem_append.1 hmem).resolve_left fun hbefore => (v.listed name l).1 hbefore hnone
  have hone : rest = [name] := by
    have hreplicate := List.eq_replicate_of_mem hrestMem
    have hlength : rest.length ≤ 1 := by
      rw [hreplicate] at hnodup
      exact List.nodup_replicate.1 hnodup.2.1
    have hpos := List.length_pos_of_mem hmem
    rw [hreplicate, show rest.length = 1 by omega]
    rfl
  rw [← hrest, hone]

/-- A file that is written changes its own place alone, where no directory is. -/
theorem Volume.write_other (hstart : v.files.IsDir p.start) (h : v.write p a = (.ok (), v')) :
    ¬ v.files.IsDir p.location ∧ ∀ l, l ≠ p.location → v'.files.at_ l = v.files.at_ l := by
  unfold Volume.write at h
  rw [Files.walk_path hstart] at h
  by_cases hleads : v.files.Leads p
  · rw [if_pos hleads] at h
    simp only at h
    split at h
    · cases h
    · rename_i hdir
      obtain rfl := (Prod.mk.inj h).2
      refine ⟨hdir, fun l hl => ?_⟩
      rw [v.put_files]
      unfold Files.put
      split
      · exact Function.update_of_ne hl _ _
      · rfl
  · rw [if_neg hleads] at h
    cases h

/-! ## Files that are saved -/

/-- A file was saved, with the directories above it. -/
structure Volume.Saves (v : Volume α) (p : PathBuf) (a : α) (v' : Volume α) : Prop where
  files : Saved v.files p a v'.files
  grows : v.Grows v'

/-- Directories are made when nothing but directories is on the way. -/
theorem Files.createDirs_answers : ∀ {names : List String} {loc : Location} {t : Files α}, t.IsDir loc →
    (∀ l ∈ visited loc names, t.at_ l = none ∨ t.IsDir l) → (t.createDirs loc names).1 = .ok ()
  | [], _, _, _, _ => rfl
  | name :: names, loc, t, h, hway => by
    rw [visited, List.forall_mem_cons] at hway
    rw [Files.createDirs]
    rcases hway.1 with hnone | hdir
    · rw [hnone]
      have hnew : ¬ t.IsDir (stepTo name loc) := fun hdir => by cases hnone.symm.trans hdir
      have hparent : t.IsDir (stepTo name loc).tail := by
        rw [(h.stepTo name).resolve_left hnew]
        exact h
      refine Files.createDirs_answers ((Files.put_at hnew hparent .dir).trans (if_pos rfl)) fun l hl => ?_
      unfold Files.IsDir
      rw [Files.put_at hnew hparent]
      split
      · exact .inr rfl
      · exact hway.2 l hl
    · rw [show t.at_ (stepTo name loc) = some .dir from hdir]
      exact Files.createDirs_answers hdir hway.2

/-! ## A shelf of files -/

/-- Paths below a directory, none of which leads through the end of another. -/
structure Shelf where
  root : PathBuf
  slots : List String → Prop
  plain : ∀ {names}, slots names → ∀ name ∈ names, Plain name
  ne_nil : ∀ {names}, slots names → names ≠ []
  apart : ∀ {names names'}, slots names → slots names' → names <+: names' → names = names'

/-- Where plain names lead to. -/
def Shelf.place (s : Shelf) (names : List String) : Location := names.reverse ++ s.root.location

variable {s : Shelf}

theorem Shelf.place_inj {names names' : List String} (h : s.place names = s.place names') : names = names' :=
  List.reverse_inj.1 (List.append_cancel_right h)

theorem Shelf.place_concat (s : Shelf) (names : List String) (name : String) :
    s.place (names ++ [name]) = name :: s.place names := by
  unfold Shelf.place
  rw [List.reverse_append]
  rfl

/-- The directory is there, and nothing is in the way of a file on the shelf. -/
structure Shelf.Clear (s : Shelf) (t : Files α) : Prop where
  start : t.IsDir s.root.start
  way : ∀ l ∈ visited s.root.start s.root.names, t.IsDir l
  inner : ∀ {front rest}, s.slots (front ++ rest) → front ≠ [] → rest ≠ [] →
    t.at_ (s.place front) = none ∨ t.IsDir (s.place front)
  end_ : ∀ {names}, s.slots names → ¬ t.IsDir (s.place names)

theorem Shelf.location_below (hplain : ∀ name ∈ names, Plain name) :
    (s.root.below names).location = s.place names := PathBuf.location_below hplain

theorem PathBuf.parent_below (hne : names ≠ []) : (p.below names).parent = p.below names.dropLast := by
  unfold PathBuf.parent PathBuf.below
  rw [List.dropLast_append_of_ne_nil hne]

namespace Shelf.Clear

theorem root (h : s.Clear t) : t.IsDir s.root.location := by
  rcases hnames : s.root.names with _ | ⟨name, rest⟩
  · unfold PathBuf.location
    rw [hnames]
    exact h.start
  · refine h.way _ (follow_mem_visited s.root.names s.root.start ?_)
    rw [hnames]
    exact List.cons_ne_nil _ _

/-- The way to a file on the shelf goes through directories, or what is on it can be made. -/
theorem mem_way (h : s.Clear t) (hn : s.slots names) (hl : l ∈ (s.root.below names).way) :
    t.IsDir l ∨ ∃ front rest, names = front ++ rest ∧ front ≠ [] ∧ rest ≠ [] ∧ l = s.place front := by
  rcases PathBuf.mem_way_below (s.plain hn) (s.ne_nil hn) hl with hroot | ⟨front, rest, hnames, hrest, rfl⟩
  · exact .inl (h.way l hroot)
  · rcases front with _ | ⟨name, front⟩
    · exact .inl h.root
    · exact .inr ⟨name :: front, rest, hnames, List.cons_ne_nil _ _, hrest, rfl⟩

/-- No file on the shelf is on the way to another. -/
theorem not_mem_way {names' : List String} (h : s.Clear t) (hn : s.slots names) (hn' : s.slots names') :
    s.place names' ∉ (s.root.below names).way := by
  intro hl
  rcases h.mem_way hn hl with hdir | ⟨front, rest, rfl, -, hrest, heq⟩
  · exact h.end_ hn' hdir
  · obtain rfl := Shelf.place_inj heq
    have hsame := s.apart hn' hn (List.prefix_append _ _)
    exact hrest (List.append_right_eq_self.1 hsame.symm)

/-- What is below the directory can be followed to. -/
theorem leads (h : s.Clear t) (hplain : ∀ name ∈ names, Plain name) (hne : names ≠ [])
    (hsome : t.at_ (s.place names) ≠ none) : t.Leads (s.root.below names) := by
  intro l hl
  rcases PathBuf.mem_way_below hplain hne hl with hroot | ⟨front, rest, rfl, hrest, rfl⟩
  · exact h.way l hroot
  · unfold Shelf.place at hsome
    rw [List.reverse_append, List.append_assoc] at hsome
    exact Files.ancestor hsome (by simp [hrest])

/-- What plain names lead to. -/
theorem lookup (h : s.Clear t) (hplain : ∀ name ∈ names, Plain name) (hne : names ≠ []) :
    t.lookup (s.root.below names) = t.at_ (s.place names) := by
  rw [Files.lookup_eq (show t.IsDir (s.root.below names).start from h.start), Shelf.location_below hplain]
  split
  · rfl
  · rename_i hleads
    by_contra hsome
    exact hleads (h.leads hplain hne (Ne.symm hsome))

theorem readDir (h : s.Clear v.files) (hplain : ∀ name ∈ names, Plain name) (hne : names ≠ []) :
    v.readDir (s.root.below names) =
      (v.entries (s.place names)).map fun name => (name, ⟨name :: s.place names, []⟩) := by
  unfold Volume.readDir
  rw [Files.walk_path (show v.files.IsDir (s.root.below names).start from h.start), Shelf.location_below hplain]
  split
  · rename_i hnone
    -- a directory that cannot be followed to lists nothing
    have hleads : ¬ v.files.Leads (s.root.below names) := fun hleads => by
      rw [if_pos hleads] at hnone
      cases hnone
    have hnil : v.entries (s.place names) = [] := by
      refine List.eq_nil_iff_forall_not_mem.2 fun name hname => hleads (h.leads hplain hne ?_)
      rw [v.files.parent name _ ((v.listed name _).1 hname)]
      exact Option.some_ne_none _
    rw [hnil]
    rfl
  · rename_i hsome
    split at hsome
    · cases hsome
      rfl
    · cases hsome

theorem of_saved (h : s.Clear t) (hn : s.slots names) (hsaved : Saved t (s.root.below names) a t') : s.Clear t' where
  start := hsaved.isDir.2 (.inl h.start)
  way l hl := hsaved.isDir.2 (.inl (h.way l hl))
  inner {front rest} hslot hfront hrest := by
    unfold Files.IsDir
    rw [hsaved.at_, Shelf.location_below (s.plain hn)]
    split
    · -- the end of a path is not on the way to another
      rename_i heq
      obtain rfl := Shelf.place_inj heq
      have hsame := s.apart hn hslot (List.prefix_append _ _)
      exact absurd (List.append_right_eq_self.1 hsame.symm) hrest
    · split
      · exact .inr rfl
      · exact h.inner hslot hfront hrest
  end_ {names'} hn' hdir := by
    rcases hsaved.isDir.1 hdir with hdir | hmem
    · exact h.end_ hn' hdir
    · exact h.not_mem_way hn hn' hmem

/-- What is elsewhere stays. -/
theorem at_of_saved (h : s.Clear t) (hn : s.slots names) (hsaved : Saved t (s.root.below names) a t')
    (hne : l ≠ s.place names)
    (hinner : ∀ front rest, names = front ++ rest → front ≠ [] → rest ≠ [] → l ≠ s.place front) :
    t'.at_ l = t.at_ l := by
  rw [hsaved.at_, Shelf.location_below (s.plain hn), if_neg hne]
  split
  · rename_i hmem
    rcases h.mem_way hn hmem with hdir | ⟨front, rest, hnames, hfront, hrest, rfl⟩
    · exact (show t.at_ l = some .dir from hdir).symm
    · exact absurd rfl (hinner front rest hnames hfront hrest)
  · rfl

/-- What is on the shelf is what was saved there last. -/
theorem at_place {names' : List String} (h : s.Clear t) (hn : s.slots names)
    (hsaved : Saved t (s.root.below names) a t') (hn' : s.slots names') :
    t'.at_ (s.place names') = if names' = names then some (.file a) else t.at_ (s.place names') := by
  rw [hsaved.at_, Shelf.location_below (s.plain hn), if_neg (h.not_mem_way hn hn')]
  exact if_congr ⟨Shelf.place_inj, congrArg s.place⟩ rfl rfl

end Shelf.Clear

/-- A listing on a shelf, unless a name is made in it. -/
theorem Volume.Saves.entries (hsaves : v.Saves (s.root.below names) a v') (h : s.Clear v.files) (hn : s.slots names)
    (hl : ∀ front name rest, names = front ++ name :: rest → l = s.place front → v.files.at_ (name :: l) ≠ none) :
    v'.entries l = v.entries l := by
  refine hsaves.grows.same fun name hmade hnone => ?_
  have hat : v'.files.at_ (name :: l) = v.files.at_ (name :: l) := by
    refine h.at_of_saved hn hsaves.files ?_ ?_
    · intro heq
      rcases List.eq_nil_or_concat names with rfl | ⟨front, last, rfl⟩
      · exact s.ne_nil hn rfl
      · rw [List.concat_eq_append, Shelf.place_concat] at heq
        obtain ⟨rfl, rfl⟩ := List.cons.inj heq
        exact hl front name [] (List.concat_eq_append ..) rfl hnone
    · intro front rest hnames hfront _ heq
      rcases List.eq_nil_or_concat front with rfl | ⟨front, last, rfl⟩
      · exact hfront rfl
      · rw [List.concat_eq_append] at heq hnames
        rw [Shelf.place_concat] at heq
        obtain ⟨rfl, rfl⟩ := List.cons.inj heq
        exact hl front name rest (by rw [hnames, List.append_assoc]; rfl) rfl hnone
  exact hmade (hat.trans hnone)

/-- A listing on a shelf in which a name is made. -/
theorem Volume.Saves.entries_concat {front : List String} {name : String} (rest : List String)
    (hsaves : v.Saves (s.root.below (front ++ name :: rest)) a v') (h : s.Clear v.files)
    (hn : s.slots (front ++ name :: rest)) (hnone : v.files.at_ (s.place (front ++ [name])) = none) :
    v'.entries (s.place front) = v.entries (s.place front) ++ [name] := by
  rw [Shelf.place_concat] at hnone
  refine hsaves.grows.one hnone ?_ fun name' hne hmade hnone' => ?_
  · have hsaved := h.at_place hn hsaves.files hn
    rw [if_pos rfl] at hsaved
    rcases rest with _ | ⟨name', rest⟩
    · rw [Shelf.place_concat] at hsaved
      rw [hsaved]
      exact Option.some_ne_none _
    · have hplace : s.place (front ++ name :: name' :: rest) =
          (name' :: rest).reverse ++ (name :: s.place front) := by
        unfold Shelf.place
        simp
      rw [hplace] at hsaved
      have hdir := Files.ancestor (show v'.files.at_ ((name' :: rest).reverse ++ (name :: s.place front)) ≠ none by
        rw [hsaved]
        exact Option.some_ne_none _) (by simp)
      rw [show v'.files.at_ (name :: s.place front) = some .dir from hdir]
      exact Option.some_ne_none _
  · have hnext : ∀ rest', front ++ name :: rest ≠ front ++ name' :: rest' := fun rest' heq =>
      hne (List.cons.inj (List.append_cancel_left heq)).1.symm
    refine hmade ((h.at_of_saved hn hsaves.files ?_ ?_).trans hnone')
    · intro heq
      rw [← Shelf.place_concat] at heq
      exact hnext [] (Shelf.place_inj heq).symm
    · intro front' rest' hnames _ _ heq
      rw [← Shelf.place_concat] at heq
      obtain rfl := Shelf.place_inj heq
      rw [List.append_assoc] at hnames
      exact hnext rest' hnames

/-- From something, a plain name leads to what has that name in it. -/
theorem Files.lookup_child {name : String} (hname : Plain name) :
    t.lookup ((PathBuf.mk loc []).join name) = t.at_ (name :: loc) := by
  rw [PathBuf.join_plain hname]
  show (t.walk loc [name]).bind t.at_ = _
  rw [Files.walk]
  split
  · rw [Files.walk, stepTo_plain hname]
    rfl
  · rename_i hdir
    by_contra hsome
    exact hdir (t.parent name loc (Ne.symm hsome))

/-- The directories above a file on the shelf can be made. -/
theorem Shelf.Clear.createDirAll (h : s.Clear v.files) (hn : s.slots names) :
    ∃ v₁, v.createDirAll (s.root.below names).parent = (.ok (), v₁) ∧ v.Grows v₁ ∧
      ∀ l, v₁.files.at_ l = if l ∈ (s.root.below names).way then some .dir else v.files.at_ l := by
  have hway : ∀ l ∈ (s.root.below names).way, v.files.at_ l = none ∨ v.files.IsDir l := by
    intro l hl
    rcases h.mem_way hn hl with hdir | ⟨front, rest, rfl, hfront, hrest, rfl⟩
    · exact .inr hdir
    · exact h.inner hn hfront hrest
  obtain ⟨hanswer, hfiles, hgrows⟩ :=
    Volume.createDirs_spec (s.root.below names).parent.names (s.root.below names).parent.start v
  have hok := Files.createDirs_answers (show v.files.IsDir (s.root.below names).parent.start from h.start) hway
  obtain ⟨-, hat⟩ := Files.createDirs_ok (show v.files.IsDir (s.root.below names).parent.start from h.start)
    (Prod.ext hok rfl : v.files.createDirs _ _ = (.ok (), _))
  refine ⟨_, Prod.ext (hanswer.trans hok) rfl, hgrows, fun l => ?_⟩
  unfold Volume.createDirAll
  rw [hfiles]
  exact hat l

/-- A file on the shelf can be written when the directories above it are there. -/
theorem Shelf.Clear.write (h : s.Clear v.files) (hn : s.slots names) (hleads : v.files.Leads (s.root.below names))
    (a : α) : ∃ v', v.write (s.root.below names) a = (.ok (), v') ∧ v.Saves (s.root.below names) a v' := by
  have hend : ¬ v.files.IsDir (s.root.below names).location := by
    rw [Shelf.location_below (s.plain hn)]
    exact h.end_ hn
  have hwalk : v.files.walk (s.root.below names).start (s.root.below names).names =
      some (s.root.below names).location := by
    rw [Files.walk_path (show v.files.IsDir (s.root.below names).start from h.start), if_pos hleads]
  refine ⟨v.put (s.root.below names).location (.file a), ?_, ⟨fun l => ?_, ?_, fun l hl => .inr (hleads l hl), hend⟩,
    v.put_grows _ _⟩
  · unfold Volume.write
    rw [hwalk]
    exact if_neg hend
  · rw [v.put_files, Files.put_at hend ((hleads.location h.start).resolve_left hend)]
    refine if_congr Iff.rfl rfl ?_
    split
    · rename_i hmem
      exact hleads l hmem
    · rfl
  · rw [Shelf.location_below (s.plain hn)]
    exact h.not_mem_way hn hn

/-- A file is saved on a shelf: the directories above it are made, with nothing changed at its place, and it is
written there. -/
theorem Shelf.Clear.save (h : s.Clear v.files) (hn : s.slots names) (a : α) :
    ∃ v₁ v', v.createDirAll (s.root.below names).parent = (.ok (), v₁) ∧
      v₁.files.lookup (s.root.below names) = v.files.lookup (s.root.below names) ∧
      v₁.write (s.root.below names) a = (.ok (), v') ∧ v.Saves (s.root.below names) a v' := by
  obtain ⟨v₁, hdirs, hgrows, hat⟩ := h.createDirAll hn
  have hisDir : ∀ l, v₁.files.IsDir l ↔ v.files.IsDir l ∨ l ∈ (s.root.below names).way := by
    intro l
    unfold Files.IsDir
    rw [hat]
    split
    · rename_i hmem
      exact iff_of_true rfl (.inr hmem)
    · rename_i hmem
      exact (or_iff_left hmem).symm
  have hplace : ∀ {names'}, s.slots names' → v₁.files.at_ (s.place names') = v.files.at_ (s.place names') :=
    fun hn' => (hat _).trans (if_neg (h.not_mem_way hn hn'))
  have hclear : s.Clear v₁.files := by
    refine ⟨(hisDir _).2 (.inl h.start), fun l hl => (hisDir l).2 (.inl (h.way l hl)), ?_, ?_⟩
    · intro front rest hslot hfront hrest
      rw [hisDir, hat]
      rcases h.inner hslot hfront hrest with hnone | hdir
      · split
        · rename_i hmem
          exact .inr (.inr hmem)
        · exact .inl hnone
      · exact .inr (.inl hdir)
    · intro names' hn' hdir
      rcases (hisDir _).1 hdir with hdir | hmem
      · exact h.end_ hn' hdir
      · exact h.not_mem_way hn hn' hmem
  obtain ⟨v', hwrite, hsaves⟩ := hclear.write hn (fun l hl => (hisDir l).2 (.inr hl)) a
  refine ⟨v₁, v', hdirs, ?_, hwrite, ⟨?_, hgrows.trans hsaves.grows⟩⟩
  · rw [hclear.lookup (s.plain hn) (s.ne_nil hn), h.lookup (s.plain hn) (s.ne_nil hn), hplace hn]
  · refine ⟨fun l => ?_, hsaves.files.fresh, fun l hl => ?_, fun hdir => hsaves.files.end_ ((hisDir _).2 (.inl hdir))⟩
    · rw [hsaves.files.at_, hat]
      refine if_congr Iff.rfl rfl ?_
      split
      · rfl
      · rfl
    · rcases h.mem_way hn hl with hdir | ⟨front, rest, rfl, hfront, hrest, rfl⟩
      · exact .inr hdir
      · exact h.inner hn hfront hrest

end

end Ke.FileTree
