/-
Files and directories as a tree, and the paths that are followed in it: joining with an absolute text
starts over, empty components and `.` stay, `..` goes up. A path leads through existing directories only.
-/
import Mathlib.Logic.Function.Basic

namespace Ke.FileTree

/-! ## Paths -/

/-- Where a node lies: the names on the way to it, the last one first. -/
abbrev Location := List String

/-- A component followed from a directory. -/
def stepTo (name : String) (loc : Location) : Location :=
  if name = "." then loc else if name = ".." then loc.tail else name :: loc

/-- Components followed one after the other, whether or not anything is there. -/
def follow (loc : Location) (names : List String) : Location := names.foldl (fun loc name => stepTo name loc) loc

/-- What is passed on the way, the end included. -/
def visited : Location → List String → List Location
  | _, [] => []
  | loc, name :: names => stepTo name loc :: visited (stepTo name loc) names

/-- The directory that a path starts in, and its components. -/
structure PathBuf where
  start : Location
  names : List String
deriving DecidableEq

def component (cs : List Char) : List String := if cs = [] then [] else [String.ofList cs]

/-- The components of a text after those characters of its first. -/
def componentsFrom (cs : List Char) : List Char → List String
  | [] => component cs
  | c :: text => if c = '/' then component cs ++ componentsFrom [] text else componentsFrom (cs ++ [c]) text

def components (text : String) : List String := componentsFrom [] text.toList

/-- An absolute text replaces the path. -/
def PathBuf.join (p : PathBuf) (text : String) : PathBuf :=
  if text.toList.head? = some '/' then ⟨[], components text⟩ else ⟨p.start, p.names ++ components text⟩

def PathBuf.parent (p : PathBuf) : PathBuf := ⟨p.start, p.names.dropLast⟩

/-- Where a path ends, if it can be followed. -/
def PathBuf.location (p : PathBuf) : Location := follow p.start p.names

/-- What a path goes through before its end. -/
def PathBuf.way (p : PathBuf) : List Location := visited p.start p.parent.names

/-- Components followed from the end of a path. -/
def PathBuf.below (p : PathBuf) (names : List String) : PathBuf := ⟨p.start, p.names ++ names⟩

/-- The text of one component that names something below. -/
def Plain (text : String) : Prop := '/' ∉ text.toList ∧ text ≠ "" ∧ text ≠ "." ∧ text ≠ ".."

instance (text : String) : Decidable (Plain text) := inferInstanceAs (Decidable (_ ∧ _ ∧ _ ∧ _))

/-! ## Components -/

theorem componentsFrom_append_slash (text : List Char) :
    ∀ cs, componentsFrom cs (text ++ ['/']) = componentsFrom cs text := by
  induction text with
  | nil =>
    intro cs
    show component cs ++ [] = component cs
    exact List.append_nil _
  | cons c text ih =>
    intro cs
    rw [List.cons_append, componentsFrom, componentsFrom]
    split
    · rw [ih]
    · rw [ih]

theorem componentsFrom_plain : ∀ (text cs : List Char), '/' ∉ text → componentsFrom cs text = component (cs ++ text)
  | [], cs, _ => by rw [List.append_nil]; rfl
  | c :: text, cs, h => by
    rw [List.mem_cons, not_or] at h
    rw [componentsFrom, if_neg fun hc => h.1 hc.symm, componentsFrom_plain text _ h.2, List.append_assoc]
    rfl

theorem components_plain {text : String} (h : Plain text) : components text = [text] := by
  have hne : text.toList ≠ [] := fun hnil => h.2.1 (String.toList_inj.1 hnil)
  unfold components
  rw [componentsFrom_plain _ _ h.1, List.nil_append, component, if_neg hne, String.ofList_toList]

theorem PathBuf.join_plain {text : String} (h : Plain text) (p : PathBuf) : p.join text = p.below [text] := by
  have hrelative : text.toList.head? ≠ some '/' := fun hhead => h.1 (List.mem_of_head? hhead)
  rw [PathBuf.join, if_neg hrelative, components_plain h]
  rfl

theorem PathBuf.below_below (p : PathBuf) (names names' : List String) :
    (p.below names).below names' = p.below (names ++ names') :=
  congrArg (PathBuf.mk p.start) (List.append_assoc ..)

theorem stepTo_plain {text : String} (h : Plain text) (loc : Location) : stepTo text loc = text :: loc := by
  rw [stepTo, if_neg h.2.2.1, if_neg h.2.2.2]

/-- A text with an ending without separators: the last component has the ending. -/
theorem componentsFrom_ending {ending : List Char} (hplain : '/' ∉ ending) (hne : ending ≠ []) :
    ∀ (text cs : List Char), ∃ names last, componentsFrom cs (text ++ ending) =
      names ++ [String.ofList (last ++ ending)]
  | [], cs => by
    refine ⟨[], cs, ?_⟩
    rw [List.nil_append, componentsFrom_plain _ _ hplain, component, if_neg fun h => hne (List.append_eq_nil_iff.1 h).2]
    rfl
  | c :: text, cs => by
    rw [List.cons_append, componentsFrom]
    split
    · obtain ⟨names, last, hrest⟩ := componentsFrom_ending hplain hne text []
      exact ⟨component cs ++ names, last, by rw [hrest, List.append_assoc]⟩
    · exact componentsFrom_ending hplain hne text (cs ++ [c])

theorem follow_append (loc : Location) (names names' : List String) :
    follow loc (names ++ names') = follow (follow loc names) names' :=
  List.foldl_append

theorem visited_append : ∀ (names : List String) (loc : Location) (names' : List String),
    visited loc (names ++ names') = visited loc names ++ visited (follow loc names) names'
  | [], _, _ => rfl
  | _ :: names, _, names' => congrArg (List.cons _) (visited_append names _ names')

/-- A way that goes anywhere passes its end. -/
theorem follow_mem_visited : ∀ (names : List String) (loc : Location), names ≠ [] → follow loc names ∈ visited loc names
  | [_], _, _ => List.mem_singleton_self _
  | _ :: name' :: names, _, _ => List.mem_cons_of_mem _ (follow_mem_visited (name' :: names) _ nofun)

/-! ## The tree -/

inductive Node (α : Type)
  | dir
  | file (a : α)
deriving DecidableEq

/-- What lies where. Only directories hold anything. -/
structure Files (α : Type) where
  at_ : Location → Option (Node α)
  root : at_ [] = some .dir
  parent : ∀ name loc, at_ (name :: loc) ≠ none → at_ loc = some .dir

inductive FileError
  | notFound
  | notADirectory
  | isADirectory
deriving DecidableEq

section

variable {α : Type} {t t' : Files α} {loc l : Location} {names : List String} {p q : PathBuf} {a : α}

def Files.IsDir (t : Files α) (loc : Location) : Prop := t.at_ loc = some .dir

instance (t : Files α) (loc : Location) : Decidable (t.IsDir loc) :=
  match h : t.at_ loc with
  | some .dir => isTrue h
  | some (.file _) => isFalse fun hdir => nomatch h.symm.trans hdir
  | none => isFalse fun hdir => nomatch h.symm.trans hdir

/-- A node under a directory, in the place of anything but a directory. -/
def Files.put (t : Files α) (loc : Location) (node : Node α) : Files α :=
  if h : ¬ t.IsDir loc ∧ t.IsDir loc.tail then
    { at_ := Function.update t.at_ loc (some node)
      root := by
        have hne : [] ≠ loc := fun hnil => h.1 (hnil ▸ t.root)
        rw [Function.update_of_ne hne]
        exact t.root
      parent := fun name l hl => by
        have hself : name :: l ≠ l := fun heq => absurd (congrArg List.length heq) (by simp)
        have hloc : l ≠ loc := by
          rintro rfl
          rw [Function.update_of_ne hself] at hl
          exact h.1 (t.parent name l hl)
        rw [Function.update_of_ne hloc]
        by_cases hnew : name :: l = loc
        · rw [← hnew] at h
          exact h.2
        · rw [Function.update_of_ne hnew] at hl
          exact t.parent name l hl }
  else t

/-- Nothing but the root. -/
def Files.bare : Files α where
  at_ l := if l = [] then some .dir else none
  root := if_pos rfl
  parent name l h := absurd (if_neg (List.cons_ne_nil name l)) h

/-- Follow components through directories. -/
def Files.walk (t : Files α) : Location → List String → Option Location
  | loc, [] => some loc
  | loc, name :: names => if t.IsDir loc then t.walk (stepTo name loc) names else none

/-- What a path leads to. -/
def Files.lookup (t : Files α) (p : PathBuf) : Option (Node α) := (t.walk p.start p.names).bind t.at_

def Files.exists (t : Files α) (p : PathBuf) : Bool := (t.lookup p).isSome

def Files.read (t : Files α) (p : PathBuf) : Except FileError α :=
  match t.lookup p with
  | some (.file a) => .ok a
  | some .dir => .error .isADirectory
  | none => .error .notFound

/-- The directories on a way are made where nothing is. What was made before a failure stays. -/
def Files.createDirs (t : Files α) : Location → List String → Except FileError Unit × Files α
  | _, [] => (.ok (), t)
  | loc, name :: names =>
    match t.at_ (stepTo name loc) with
    | some .dir => t.createDirs (stepTo name loc) names
    | some (.file _) => (.error .notADirectory, t)
    | none => (t.put (stepTo name loc) .dir).createDirs (stepTo name loc) names

def Files.createDirAll (t : Files α) (p : PathBuf) : Except FileError Unit × Files α := t.createDirs p.start p.names

/-- A file is made or replaced. -/
def Files.write (t : Files α) (p : PathBuf) (a : α) : Except FileError Unit × Files α :=
  match t.walk p.start p.names with
  | none => (.error .notFound, t)
  | some loc => if t.IsDir loc then (.error .isADirectory, t) else (.ok (), t.put loc (.file a))

/-! ## Following -/

theorem Files.put_at (hnew : ¬ t.IsDir loc) (hparent : t.IsDir loc.tail) (node : Node α) :
    (t.put loc node).at_ l = if l = loc then some node else t.at_ l := by
  unfold Files.put
  rw [dif_pos ⟨hnew, hparent⟩]
  exact Function.update_apply t.at_ loc (some node) l

/-- From a directory, a component leads to a directory or to something in it. -/
theorem Files.IsDir.stepTo (h : t.IsDir loc) (name : String) :
    t.IsDir (stepTo name loc) ∨ (stepTo name loc).tail = loc := by
  unfold FileTree.stepTo
  split
  · exact .inl h
  · split
    · left
      cases loc with
      | nil => exact h
      | cons name' loc =>
        exact t.parent name' loc (by rw [show t.at_ (name' :: loc) = some .dir from h]; nofun)
    · exact .inr rfl

/-- A path is followed to its end when all before the end are directories. -/
theorem Files.walk_eq : ∀ {names : List String} {loc : Location}, t.IsDir loc →
    t.walk loc names = if ∀ v ∈ visited loc names.dropLast, t.IsDir v then some (follow loc names) else none
  | [], loc, _ => (if_pos nofun).symm
  | [name], loc, h => by
    rw [Files.walk, if_pos h]
    exact (if_pos nofun).symm
  | name :: name' :: names, loc, h => by
    rw [Files.walk, if_pos h]
    show _ = if ∀ v ∈ FileTree.stepTo name loc :: visited (FileTree.stepTo name loc)
      (name' :: names).dropLast, t.IsDir v
      then some (follow (FileTree.stepTo name loc) (name' :: names)) else none
    by_cases hstep : t.IsDir (FileTree.stepTo name loc)
    · rw [Files.walk_eq hstep]
      simp only [List.forall_mem_cons, hstep, true_and]
    · rw [Files.walk, if_neg hstep, if_neg fun hall => hstep (hall _ List.mem_cons_self)]

/-- The way of a path goes through directories. -/
def Files.Leads (t : Files α) (p : PathBuf) : Prop := ∀ v ∈ p.way, t.IsDir v

instance (t : Files α) (p : PathBuf) : Decidable (t.Leads p) := inferInstanceAs (Decidable (∀ v ∈ p.way, t.IsDir v))

theorem Files.walk_path (h : t.IsDir p.start) : t.walk p.start p.names = if t.Leads p then some p.location else none :=
  Files.walk_eq h

theorem Files.lookup_eq (h : t.IsDir p.start) : t.lookup p = if t.Leads p then t.at_ p.location else none := by
  unfold Files.lookup
  rw [Files.walk_path h]
  split
  · rfl
  · rfl

/-- A component that stays, after some and before others, leads nowhere else. -/
theorem Files.lookup_dot {names' : List String} (h : t.IsDir loc) (hne : names ≠ []) (hne' : names' ≠ []) :
    t.lookup ⟨loc, names ++ "." :: names'⟩ = t.lookup ⟨loc, names ++ names'⟩ := by
  have hlocation : (PathBuf.mk loc (names ++ "." :: names')).location =
      (PathBuf.mk loc (names ++ names')).location := by
    show follow loc _ = follow loc _
    rw [follow_append, follow_append]
    rfl
  have hway : ∀ v, v ∈ (PathBuf.mk loc (names ++ "." :: names')).way ↔ v ∈ (PathBuf.mk loc (names ++ names')).way := by
    intro v
    show v ∈ visited loc (names ++ "." :: names').dropLast ↔ v ∈ visited loc (names ++ names').dropLast
    rw [List.dropLast_append_of_ne_nil (List.cons_ne_nil _ _), List.dropLast_append_of_ne_nil hne',
      List.dropLast_cons_of_ne_nil hne', visited_append, visited_append, List.mem_append, List.mem_append, visited,
      List.mem_cons, stepTo, if_pos rfl]
    constructor
    · rintro (hv | rfl | hv)
      · exact .inl hv
      · exact .inl (follow_mem_visited names loc hne)
      · exact .inr hv
    · exact fun hv => hv.imp_right .inr
  have hleads : t.Leads ⟨loc, names ++ "." :: names'⟩ ↔ t.Leads ⟨loc, names ++ names'⟩ :=
    forall_congr' fun v => imp_congr_left (hway v)
  rw [Files.lookup_eq h, Files.lookup_eq h, hlocation]
  exact if_congr hleads rfl rfl

/-! ## What a file that is saved leaves behind -/

theorem Files.createDirs_ok : ∀ {names : List String} {loc : Location} {t : Files α}, t.IsDir loc →
    t.createDirs loc names = (.ok (), t') →
      (∀ v ∈ visited loc names, t.at_ v = none ∨ t.IsDir v) ∧
        ∀ l, t'.at_ l = if l ∈ visited loc names then some .dir else t.at_ l
  | [], loc, t, _, hmade => by
    obtain ⟨-, rfl⟩ := Prod.mk.inj hmade
    exact ⟨nofun, fun l => (if_neg List.not_mem_nil).symm⟩
  | name :: names, loc, t, h, hmade => by
    rw [Files.createDirs] at hmade
    simp only [visited, List.mem_cons]
    split at hmade
    · -- a directory, as before
      rename_i hdir
      obtain ⟨hway, hat⟩ := Files.createDirs_ok hdir hmade
      refine ⟨?_, fun l => ?_⟩
      · rintro v (rfl | hv)
        · exact .inr hdir
        · exact hway v hv
      · rw [hat l]
        by_cases hl : l = stepTo name loc
        · subst hl
          simp only [true_or, if_true]
          split
          · rfl
          · exact hdir
        · simp only [hl, false_or]
    · cases hmade
    · -- made here, under the directory that the way comes from
      rename_i hnone
      have hnew : ¬ t.IsDir (stepTo name loc) := fun hdir => by cases hnone.symm.trans hdir
      have hparent : t.IsDir (stepTo name loc).tail := by
        rcases h.stepTo name with hdir | htail
        · exact absurd hdir hnew
        · rw [htail]
          exact h
      have hput : ∀ l, (t.put (stepTo name loc) .dir).at_ l = if l = stepTo name loc then some .dir else t.at_ l :=
        fun l => Files.put_at hnew hparent .dir
      obtain ⟨hway, hat⟩ := Files.createDirs_ok ((hput _).trans (if_pos rfl)) hmade
      refine ⟨?_, fun l => ?_⟩
      · rintro v (rfl | hv)
        · exact .inl hnone
        · by_cases hself : v = stepTo name loc
          · exact .inl (hself ▸ hnone)
          · have hv := hway v hv
            unfold Files.IsDir at hv ⊢
            rw [hput, if_neg hself] at hv
            exact hv
      · rw [hat l, hput]
        by_cases hl : l = stepTo name loc
        · simp only [hl, true_or, if_true, ite_self]
        · simp only [hl, false_or, if_false]

/-- After a file was saved with the directories above it. -/
structure Saved (t : Files α) (p : PathBuf) (a : α) (t' : Files α) : Prop where
  at_ : ∀ l, t'.at_ l = if l = p.location then some (.file a) else if l ∈ p.way then some .dir else t.at_ l
  fresh : p.location ∉ p.way
  way : ∀ v ∈ p.way, t.at_ v = none ∨ t.IsDir v
  end_ : ¬ t.IsDir p.location

/-- A file is written in a directory, in the place of anything but a directory. -/
theorem Files.write_ok (h : t.IsDir p.start) (hwrite : t.write p a = (.ok (), t')) :
    t.Leads p ∧ ¬ t.IsDir p.location ∧ t' = t.put p.location (.file a) := by
  unfold Files.write at hwrite
  rw [Files.walk_path h] at hwrite
  by_cases hleads : t.Leads p
  · rw [if_pos hleads] at hwrite
    simp only at hwrite
    split at hwrite
    · cases hwrite
    · rename_i hend
      exact ⟨hleads, hend, (Prod.mk.inj hwrite).2.symm⟩
  · rw [if_neg hleads] at hwrite
    cases hwrite

/-- The end of a path that can be followed is a directory, or lies in one. -/
theorem Files.Leads.location (hleads : t.Leads p) (h : t.IsDir p.start) :
    t.IsDir p.location ∨ t.IsDir p.location.tail := by
  obtain ⟨start, names⟩ := p
  rcases List.eq_nil_or_concat names with rfl | ⟨names, last, rfl⟩
  · exact .inl h
  · rw [List.concat_eq_append] at hleads h ⊢
    have hwhole : (PathBuf.mk start (names ++ [last])).location = FileTree.stepTo last (follow start names) :=
      follow_append start names [last]
    have hway : (PathBuf.mk start (names ++ [last])).way = visited start names :=
      congrArg (visited start) List.dropLast_concat
    unfold Files.Leads at hleads
    rw [hway] at hleads
    have hdir : t.IsDir (follow start names) := by
      rcases names with _ | ⟨name, names⟩
      · exact h
      · exact hleads _ (follow_mem_visited _ _ nofun)
    rw [hwhole]
    refine (hdir.stepTo last).imp_right fun htail => ?_
    rw [htail]
    exact hdir

theorem Files.saved {t₁ : Files α} (h : t.IsDir p.start) (hdirs : t.createDirAll p.parent = (.ok (), t₁))
    (hwrite : t₁.write p a = (.ok (), t')) : Saved t p a t' := by
  obtain ⟨hway, hat⟩ := Files.createDirs_ok h hdirs
  have hat : ∀ l, t₁.at_ l = if l ∈ p.way then some .dir else t.at_ l := hat
  have hstart : t₁.IsDir p.start := by
    unfold Files.IsDir
    rw [hat]
    split
    · rfl
    · exact h
  obtain ⟨hleads, hend, rfl⟩ := Files.write_ok hstart hwrite
  have hfresh : p.location ∉ p.way := fun hmem => hend ((hat _).trans (if_pos hmem))
  refine ⟨fun l => ?_, hfresh, hway, fun hdir => hend ((hat _).trans ((if_neg hfresh).trans hdir))⟩
  rw [Files.put_at hend ((hleads.location hstart).resolve_left hend), hat]

/-- The path can be followed once the way of another is made. -/
def Files.LeadsWith (t : Files α) (p q : PathBuf) : Prop := ∀ v ∈ q.way, t.IsDir v ∨ v ∈ p.way

/-- Saving a file at one path changes what another leads to: they end in the same place, or the other ends at a
directory that is made, or it could not be followed before and leads somewhere now. -/
def Files.Disturbs (t : Files α) (p : PathBuf) (a : α) (q : PathBuf) : Prop :=
  t.LeadsWith p q ∧
    (q.location = p.location ∧ t.at_ p.location ≠ some (.file a) ∨ q.location ∈ p.way ∧ t.at_ q.location = none ∨
      ¬ t.Leads q ∧ (q.location = p.location ∨ t.at_ q.location ≠ none))

theorem Saved.isDir (h : Saved t p a t') : t'.IsDir l ↔ t.IsDir l ∨ l ∈ p.way := by
  unfold Files.IsDir
  rw [h.at_]
  by_cases hl : l = p.location
  · subst hl
    rw [if_pos rfl]
    exact ⟨nofun, fun hor => hor.elim (fun hdir => absurd hdir h.end_) fun hmem => absurd hmem h.fresh⟩
  · rw [if_neg hl]
    split
    · rename_i hmem
      exact ⟨fun _ => .inr hmem, fun _ => rfl⟩
    · rename_i hmem
      rw [or_iff_left hmem]

theorem Saved.leads (h : Saved t p a t') : t'.Leads q ↔ t.LeadsWith p q :=
  forall_congr' fun _ => imp_congr_right fun _ => h.isDir

theorem Saved.lookup_self (h : Saved t p a t') (hstart : t.IsDir p.start) : t'.lookup p = some (.file a) := by
  rw [Files.lookup_eq (h.isDir.2 (.inl hstart)), if_pos (h.leads.2 fun v hv => .inr hv), h.at_, if_pos rfl]

theorem Files.lookup_some {node : Node α} (h : t.IsDir p.start) (hlookup : t.lookup p = some node) :
    t.at_ p.location = some node := by
  rw [Files.lookup_eq h] at hlookup
  split at hlookup
  · exact hlookup
  · cases hlookup

/-- A file that is found is the one that was saved, or was there before. -/
theorem Saved.file {a' : α} (h : Saved t p a t') (hstart : t.IsDir q.start) (hlookup : t'.lookup q = some (.file a')) :
    a' = a ∨ t.at_ q.location = some (.file a') := by
  have hat := Files.lookup_some (h.isDir.2 (.inl hstart)) hlookup
  rw [h.at_] at hat
  split at hat
  · exact .inl (Node.file.inj (Option.some.inj hat)).symm
  · split at hat
    · cases hat
    · exact .inr hat

/-- What another path leads to is changed exactly when it is disturbed. -/
theorem Saved.lookup_ne_iff (h : Saved t p a t') (hstart : t.IsDir q.start) :
    t'.lookup q ≠ t.lookup q ↔ t.Disturbs p a q := by
  rw [Files.lookup_eq (h.isDir.2 (.inl hstart)), Files.lookup_eq hstart]
  unfold Files.Disturbs
  by_cases hwith : t.LeadsWith p q
  · rw [if_pos (h.leads.2 hwith), h.at_]
    simp only [hwith, true_and]
    by_cases hleads : t.Leads q
    · rw [if_pos hleads]
      simp only [hleads, not_true, false_and, or_false]
      by_cases hend : q.location = p.location
      · rw [if_pos hend, hend]
        simp only [true_and, h.fresh, false_and, or_false]
        exact ne_comm
      · rw [if_neg hend]
        simp only [hend, false_and, false_or]
        by_cases hmem : q.location ∈ p.way
        · rw [if_pos hmem]
          rcases h.way _ hmem with hnone | hdir
          · simp [hnone, hmem]
          · have hdir : t.at_ q.location = some .dir := hdir
            simp [hdir]
        · rw [if_neg hmem]
          simp [hmem]
    · rw [if_neg hleads]
      simp only [hleads, not_false_eq_true, true_and]
      by_cases hend : q.location = p.location
      · rw [if_pos hend]
        simp [hend]
      · rw [if_neg hend]
        simp only [hend, false_and, false_or]
        by_cases hmem : q.location ∈ p.way
        · rw [if_pos hmem]
          simp [hmem, em]
        · rw [if_neg hmem]
          simp [hmem]
  · rw [if_neg fun hleads => hwith (h.leads.1 hleads)]
    have hleads : ¬ t.Leads q := fun hleads => hwith fun v hv => .inl (hleads v hv)
    rw [if_neg hleads]
    simp [hwith]

/-! ## Below a directory -/

theorem follow_plain : ∀ {names : List String} (loc : Location), (∀ name ∈ names, Plain name) →
    follow loc names = names.reverse ++ loc
  | [], _, _ => rfl
  | name :: names, loc, h => by
    show follow (stepTo name loc) names = _
    rw [stepTo_plain (h name List.mem_cons_self), follow_plain _ fun n hn => h n (List.mem_cons_of_mem _ hn),
      List.reverse_cons, List.append_assoc]
    rfl

theorem visited_plain : ∀ {names : List String} {loc l : Location}, (∀ name ∈ names, Plain name) →
    l ∈ visited loc names → ∃ front rest, names = front ++ rest ∧ front ≠ [] ∧ l = front.reverse ++ loc
  | name :: names, loc, l, h, hl => by
    rw [visited, stepTo_plain (h name List.mem_cons_self)] at hl
    rcases List.mem_cons.1 hl with rfl | hl
    · exact ⟨[name], names, rfl, nofun, rfl⟩
    · obtain ⟨front, rest, hnames, -, hl⟩ := visited_plain (fun n hn => h n (List.mem_cons_of_mem _ hn)) hl
      refine ⟨name :: front, rest, congrArg (name :: ·) hnames, nofun, ?_⟩
      rw [hl, List.reverse_cons, List.append_assoc]
      rfl

theorem PathBuf.location_below (h : ∀ name ∈ names, Plain name) :
    (p.below names).location = names.reverse ++ p.location := by
  show follow p.start (p.names ++ names) = _
  rw [follow_append, follow_plain _ h]
  rfl

/-- The way to something below a path goes through the path, and then through what lies between. -/
theorem PathBuf.mem_way_below (h : ∀ name ∈ names, Plain name) (hne : names ≠ []) (hl : l ∈ (p.below names).way) :
    l ∈ visited p.start p.names ∨ ∃ front rest, names = front ++ rest ∧ rest ≠ [] ∧
      l = front.reverse ++ p.location := by
  have hparent : (p.below names).way = visited p.start p.names ++ visited p.location names.dropLast := by
    show visited p.start (p.names ++ names).dropLast = _
    rw [List.dropLast_append_of_ne_nil hne, visited_append]
    rfl
  rw [hparent] at hl
  refine (List.mem_append.1 hl).imp_right fun hl => ?_
  obtain ⟨front, rest, hnames, -, hl⟩ := visited_plain (fun name hname => h name (List.dropLast_subset names hname)) hl
  refine ⟨front, rest ++ [names.getLast hne], ?_, by simp, hl⟩
  rw [← List.append_assoc, ← hnames, List.dropLast_concat_getLast]

/-- What lies below something lies in a directory. -/
theorem Files.ancestor (h : t.at_ (names ++ l) ≠ none) (hne : names ≠ []) : t.IsDir l := by
  induction names with
  | nil => exact absurd rfl hne
  | cons name names ih =>
    have hdir : t.at_ (names ++ l) = some .dir := t.parent name _ h
    rcases names with _ | ⟨name', names⟩
    · exact hdir
    · exact ih (by rw [hdir]; nofun) nofun

/-- Below a directory, a file that is saved disturbs nothing but itself and what is on its way. -/
theorem Files.undisturbed {names' : List String} (hdirs : ∀ v ∈ visited p.start p.names, t.IsDir v)
    (h : ∀ name ∈ names, Plain name) (h' : ∀ name ∈ names', Plain name) (hne : names ≠ []) (hne' : names' ≠ [])
    (hapart : ¬ names' <+: names) : ¬ t.Disturbs (p.below names) a (p.below names') := by
  have hsame : ∀ {front : List String}, names'.reverse ++ p.location = front.reverse ++ p.location → names' = front :=
    fun heq => List.reverse_inj.1 (List.append_cancel_right heq)
  rw [Files.Disturbs, PathBuf.location_below h, PathBuf.location_below h']
  rintro ⟨-, ⟨hend, -⟩ | ⟨hway, hnone⟩ | ⟨hleads, hend⟩⟩
  · exact hapart (hsame hend ▸ List.prefix_refl _)
  · rcases PathBuf.mem_way_below h hne hway with hroot | ⟨front, rest, hnames, -, hl⟩
    · cases hnone.symm.trans (hdirs _ hroot)
    · exact hapart (hsame hl ▸ hnames ▸ List.prefix_append front rest)
  · rcases hend with hend | hsome
    · exact hapart (hsame hend ▸ List.prefix_refl _)
    · -- what is there can be followed to
      refine hleads fun v hv => ?_
      rcases PathBuf.mem_way_below h' hne' hv with hroot | ⟨front, rest, rfl, hrest, rfl⟩
      · exact hdirs v hroot
      · rw [List.reverse_append, List.append_assoc] at hsome
        exact Files.ancestor hsome (by simp [hrest])

end

end Ke.FileTree
