/-
The differential harness: the rules of a YAML document and of the platform's JSON, compared rule by rule at
their semantic normal forms. Each side is a map by rule id, in which a later rule stands over an earlier one of
its id; the report has one line for every id at which the maps differ.
-/
import Mathlib.Data.List.Dedup
import KeEngine.Compiler.PythonImport
import KeEngine.Core.Semantic
import KeEngine.Layers.Overlay

namespace Ke

open Wire

deriving instance DecidableEq for SemanticRule

/-! ## `semantic_diff` -/

/-- A difference in one field, with what its text is made of. -/
inductive Difference
  | ruleId (a b : String)
  | applicability
  | sourceDocument (a b : String)
  | effective (a b : Option SemWindow)
  | tags (a b : List String)
  | decisionPaths (a b : Nat)
deriving DecidableEq

/-- Compare two semantic rules, field by field. -/
def semanticDiff (a b : SemanticRule) : List Difference :=
  (if a.ruleId ≠ b.ruleId then [.ruleId a.ruleId b.ruleId] else []) ++
  (if a.applicability ≠ b.applicability then [.applicability] else []) ++
  (if a.sourceDocument ≠ b.sourceDocument then [.sourceDocument a.sourceDocument b.sourceDocument] else []) ++
  (if a.effective ≠ b.effective then [.effective a.effective b.effective] else []) ++
  (if a.tags ≠ b.tags then [.tags a.tags b.tags] else []) ++
  (if a.decisionPaths ≠ b.decisionPaths then [.decisionPaths a.decisionPaths.length b.decisionPaths.length] else [])

theorem ite_singleton_eq_nil {α : Type} {c : Prop} [Decidable c] {a : α} : (if ¬ c then [a] else []) = [] ↔ c := by
  by_cases h : c <;> simp [h]

theorem semanticDiff_eq_nil {a b : SemanticRule} : semanticDiff a b = [] ↔ a = b := by
  obtain ⟨i, p, d, s, w, t⟩ := a
  obtain ⟨i', p', d', s', w', t'⟩ := b
  simp only [semanticDiff, ne_eq, List.append_eq_nil_iff, ite_singleton_eq_nil, SemanticRule.mk.injEq]
  tauto

end Ke

namespace Ke.Compiler

open Ke Wire PythonImport

/-! ## The harness -/

/-- A line of the report. -/
inductive Divergence
  | rustOnly (id : String)
  | pythonOnly (id : String)
  | diverges (id : String) (diffs : List Difference)
deriving DecidableEq

def Divergence.id : Divergence → String
  | .rustOnly id => id
  | .pythonOnly id => id
  | .diverges id _ => id

inductive DiffOutcome
  | rustError (e : CompileError)
  | pythonError (fault : ImportFault)
  | ok (rules : Nat)
  | divergence (issues : List Divergence)
deriving DecidableEq

/-- A map by rule id, in the order of the ids. -/
def index (forms : List SemanticRule) : List (String × SemanticRule) :=
  sortBy (fun p q => compare p.1 q.1) (forms.foldl (fun m f => Layers.insert f.ruleId f m) [])

/-- The lines of the report: the ids of one side alone, then the rules of both sides that differ. -/
def divergences (rust python : List (String × SemanticRule)) : List Divergence :=
  (rust.filter fun p => (python.lookup p.1).isNone).map (fun p => .rustOnly p.1) ++
  (python.filter fun p => (rust.lookup p.1).isNone).map (fun p => .pythonOnly p.1) ++
  rust.filterMap fun p => (python.lookup p.1).bind fun q =>
    let diffs := semanticDiff p.2 q
    if diffs.isEmpty then none else some (.diverges p.1 diffs)

/-- `ke-compile diff` on a document and a JSON value that were read. -/
def cmdDiff {F : Type} (showFloat : F → String) (yaml : YamlNode) (json : JsonValue F) : DiffOutcome :=
  match compileRules yaml with
  | .error e => .rustError e
  | .ok rules =>
    let rust := index (rules.map SemanticRule.fromRule)
    match importRules showFloat json with
    | .error fault => .pythonError fault
    | .ok rules =>
      let python := index (rules.map SemanticRule.fromRule)
      let issues := divergences rust python
      if issues.isEmpty then .ok rust.length else .divergence issues

/-! ## The maps -/

/-- The rule that stands at an id: the last one of it. -/
def lastRule (id : String) (rules : List RuleIR) : Option RuleIR := Layers.last id (rules.map fun r => (r.ruleId, r))

def lastForm (id : String) (rules : List RuleIR) : Option SemanticRule := (lastRule id rules).map SemanticRule.fromRule

theorem index_keyed (forms : List SemanticRule) : Layers.Keyed (index forms) :=
  ((perm_sortBy _ _).map Prod.fst).nodup_iff.2 (Layers.Keyed.foldl_insert List.nodup_nil)

theorem lookup_index (id : String) (rules : List RuleIR) :
    (index (rules.map SemanticRule.fromRule)).lookup id = lastForm id rules := by
  have hkeyed : Layers.Keyed ((rules.map SemanticRule.fromRule).foldl (fun m f => Layers.insert f.ruleId f m) []) :=
    Layers.Keyed.foldl_insert List.nodup_nil
  rw [index, hkeyed.lookup_perm (perm_sortBy _ _).symm, Layers.lookup_foldl_insert, List.lookup_nil, Option.or_none,
    List.map_map, lastForm, lastRule, ← Layers.last_map, List.map_map]
  rfl

theorem mem_index {rules : List RuleIR} {id : String} {form : SemanticRule} :
    (id, form) ∈ index (rules.map SemanticRule.fromRule) ↔ lastForm id rules = some form := by
  rw [(index_keyed _).mem_iff, lookup_index]

/-- An id is in the map when some rule has it. -/
theorem length_index (rules : List RuleIR) :
    (index (rules.map SemanticRule.fromRule)).length = (rules.map RuleIR.ruleId).dedup.length := by
  rw [← List.length_map (f := Prod.fst)]
  refine List.Perm.length_eq ((List.perm_ext_iff_of_nodup (index_keyed _) (List.nodup_dedup _)).2 fun id => ?_)
  rw [List.mem_dedup, List.mem_map, List.mem_map]
  constructor
  · rintro ⟨⟨id, form⟩, hmem, rfl⟩
    obtain ⟨r, hlast, -⟩ := Option.map_eq_some_iff.1 (mem_index.1 hmem)
    obtain ⟨before, after, heq, -⟩ := Layers.last_eq_some.1 hlast
    have hr : (id, r) ∈ rules.map fun r => (r.ruleId, r) := heq ▸ List.mem_append_right _ List.mem_cons_self
    obtain ⟨r', hr', hpair⟩ := List.mem_map.1 hr
    exact ⟨r', hr', congrArg Prod.fst hpair⟩
  · rintro ⟨r, hr, rfl⟩
    cases hlast : lastForm r.ruleId rules with
    | none =>
      rw [lastForm, Option.map_eq_none_iff, lastRule, Layers.last_eq_none] at hlast
      exact absurd rfl (hlast _ (List.mem_map_of_mem hr))
    | some form => exact ⟨(r.ruleId, form), mem_index.2 hlast, rfl⟩

/-! ## The report -/

/-- The line that two sides give an id, by the form that stands at it on each. -/
def issueOf (id : String) : Option SemanticRule → Option SemanticRule → Option Divergence
  | none, none => none
  | some _, none => some (.rustOnly id)
  | none, some _ => some (.pythonOnly id)
  | some r, some p => if r = p then none else some (.diverges id (semanticDiff r p))

section

variable {rust python : List (String × SemanticRule)}

theorem mem_rustOnly {id : String} (hrust : Layers.Keyed rust) :
    Divergence.rustOnly id ∈ divergences rust python ↔ (∃ r, rust.lookup id = some r) ∧ python.lookup id = none := by
  simp only [divergences, List.mem_append, List.mem_map, List.mem_filter, List.mem_filterMap, Option.bind_eq_some_iff,
    Option.isNone_iff_eq_none, Prod.exists, Divergence.rustOnly.injEq, reduceCtorEq, and_false, exists_false, or_false,
    hrust.mem_iff]
  constructor
  · rintro (⟨i, r, ⟨hr, hp⟩, rfl⟩ | ⟨i, r, hr, p, hp, h⟩)
    · exact ⟨⟨r, hr⟩, hp⟩
    · split at h <;> cases h
  · rintro ⟨⟨r, hr⟩, hp⟩
    exact .inl ⟨id, r, ⟨hr, hp⟩, rfl⟩

theorem mem_pythonOnly {id : String} (hpython : Layers.Keyed python) :
    Divergence.pythonOnly id ∈ divergences rust python ↔ rust.lookup id = none ∧ ∃ p, python.lookup id = some p := by
  simp only [divergences, List.mem_append, List.mem_map, List.mem_filter, List.mem_filterMap, Option.bind_eq_some_iff,
    Option.isNone_iff_eq_none, Prod.exists, Divergence.pythonOnly.injEq, reduceCtorEq, and_false, exists_false,
    false_or, hpython.mem_iff]
  constructor
  · rintro (⟨i, p, ⟨hp, hr⟩, rfl⟩ | ⟨i, r, hr, p, hp, h⟩)
    · exact ⟨hr, p, hp⟩
    · split at h <;> cases h
  · rintro ⟨hr, p, hp⟩
    exact .inl ⟨id, p, ⟨hp, hr⟩, rfl⟩

theorem mem_diverges {id : String} {diffs : List Difference} (hrust : Layers.Keyed rust) :
    Divergence.diverges id diffs ∈ divergences rust python ↔
      ∃ r p, rust.lookup id = some r ∧ python.lookup id = some p ∧ r ≠ p ∧ semanticDiff r p = diffs := by
  simp only [divergences, List.mem_append, List.mem_map, List.mem_filter, List.mem_filterMap, Option.bind_eq_some_iff,
    Prod.exists, reduceCtorEq, and_false, exists_false, false_or, hrust.mem_iff, List.isEmpty_iff, semanticDiff_eq_nil]
  constructor
  · rintro ⟨i, r, hr, p, hp, h⟩
    split at h
    · cases h
    · rename_i hne
      cases h
      exact ⟨r, p, hr, hp, hne, rfl⟩
  · rintro ⟨r, p, hr, hp, hne, rfl⟩
    exact ⟨id, r, hr, p, hp, if_neg hne⟩

/-- The report has the line of every id, and no other. -/
theorem mem_divergences {issue : Divergence} (hrust : Layers.Keyed rust) (hpython : Layers.Keyed python) :
    issue ∈ divergences rust python ↔ issueOf issue.id (rust.lookup issue.id) (python.lookup issue.id) = some issue := by
  cases issue with
  | rustOnly id =>
    rw [mem_rustOnly hrust, Divergence.id]
    cases rust.lookup id <;> cases python.lookup id <;> simp [issueOf]
  | pythonOnly id =>
    rw [mem_pythonOnly hpython, Divergence.id]
    cases rust.lookup id <;> cases python.lookup id <;> simp [issueOf]
  | diverges id diffs =>
    rw [mem_diverges hrust, Divergence.id]
    cases rust.lookup id <;> cases python.lookup id <;> simp [issueOf]

theorem ids_diverging : ((rust.filterMap fun p => (python.lookup p.1).bind fun q =>
    let diffs := semanticDiff p.2 q
    if diffs.isEmpty then none else some (Divergence.diverges p.1 diffs)).map Divergence.id).Sublist
      (rust.map Prod.fst) := by
  induction rust with
  | nil => exact .slnil
  | cons p rust ih =>
    rw [List.filterMap_cons]
    cases python.lookup p.1 with
    | none => exact ih.cons _
    | some q =>
      rw [Option.bind_some]
      by_cases h : (semanticDiff p.2 q).isEmpty = true
      · simp only [h, if_true]
        exact ih.cons _
      · simp only [h, Bool.false_eq_true, if_false, List.map_cons]
        exact ih.cons_cons _

/-- No id has two lines. -/
theorem nodup_divergences (hrust : Layers.Keyed rust) (hpython : Layers.Keyed python) :
    ((divergences rust python).map Divergence.id).Nodup := by
  have hone : ((rust.filter fun p => (python.lookup p.1).isNone).map Prod.fst).Nodup :=
    (List.filter_sublist.map _).nodup hrust
  have htwo : ((python.filter fun p => (rust.lookup p.1).isNone).map Prod.fst).Nodup :=
    (List.filter_sublist.map _).nodup hpython
  rw [divergences, List.map_append, List.map_append, List.map_map, List.map_map]
  refine List.nodup_append.2 ⟨List.nodup_append.2 ⟨hone, htwo, ?_⟩, ids_diverging.nodup hrust, ?_⟩
  · rintro id hid _ hid' rfl
    obtain ⟨p, hp, rfl⟩ := List.mem_map.1 hid
    obtain ⟨q, hq, heq⟩ := List.mem_map.1 hid'
    obtain ⟨hmem, -⟩ := List.mem_filter.1 hp
    obtain ⟨-, hnone⟩ := List.mem_filter.1 hq
    have hkey : q.1 = p.1 := heq
    rw [hkey, hrust.mem_iff.1 (show (p.1, p.2) ∈ rust from hmem)] at hnone
    cases hnone
  · rintro id hid _ hid' rfl
    -- a rule that diverges is on both sides, the ids before it on one side only
    obtain ⟨issue, hissue, rfl⟩ := List.mem_map.1 hid'
    obtain ⟨p, hp, hbind⟩ := List.mem_filterMap.1 hissue
    obtain ⟨q, hq, hif⟩ := Option.bind_eq_some_iff.1 hbind
    have hp' := hrust.mem_iff.1 (show (p.1, p.2) ∈ rust from hp)
    have hkey : issue.id = p.1 := by
      simp only at hif
      split at hif <;> cases hif
      rfl
    rw [hkey] at hid
    rcases List.mem_append.1 hid with hid | hid <;> obtain ⟨r, hr, heq⟩ := List.mem_map.1 hid <;>
      obtain ⟨-, hnone⟩ := List.mem_filter.1 hr <;> have hkey' : r.1 = p.1 := heq
    · rw [hkey', hq] at hnone
      cases hnone
    · rw [hkey', hp'] at hnone
      cases hnone

end

section

variable {F : Type} {showFloat : F → String} {yaml : YamlNode} {json : JsonValue F}

theorem divergences_eq_nil {rules imported : List RuleIR} :
    divergences (index (rules.map SemanticRule.fromRule)) (index (imported.map SemanticRule.fromRule)) = [] ↔
      ∀ id, lastForm id rules = lastForm id imported := by
  rw [List.eq_nil_iff_forall_not_mem]
  simp only [mem_divergences (index_keyed _) (index_keyed _), lookup_index]
  constructor
  · intro h id
    cases hr : lastForm id rules with
    | none =>
      cases hp : lastForm id imported with
      | none => rfl
      | some p => exact absurd (by rw [Divergence.id, hr, hp]; rfl) (h (.pythonOnly id))
    | some r =>
      cases hp : lastForm id imported with
      | none => exact absurd (by rw [Divergence.id, hr, hp]; rfl) (h (.rustOnly id))
      | some p =>
        by_contra hne
        have hne' : r ≠ p := fun heq => hne (by rw [heq])
        exact h (.diverges id (semanticDiff r p)) (by rw [Divergence.id, hr, hp]; exact if_neg hne')
  · intro h issue hissue
    rw [h issue.id] at hissue
    cases hp : lastForm issue.id imported <;> simp [hp, issueOf] at hissue

theorem cmdDiff_ok_iff {n : Nat} : cmdDiff showFloat yaml json = .ok n ↔
    ∃ rules imported, compileRules yaml = .ok rules ∧ importRules showFloat json = .ok imported ∧
      (∀ id, lastForm id rules = lastForm id imported) ∧ n = (rules.map RuleIR.ruleId).dedup.length := by
  rw [cmdDiff]
  cases hrules : compileRules yaml with
  | error e => simp
  | ok rules =>
    cases himported : importRules showFloat json with
    | error fault => simp
    | ok imported =>
      simp only [Except.ok.injEq, exists_eq_left', exists_and_left]
      split
      · rename_i hnil
        rw [List.isEmpty_iff, divergences_eq_nil] at hnil
        simp [hnil, length_index, eq_comm]
      · rename_i hne
        rw [List.isEmpty_iff, divergences_eq_nil] at hne
        simp [hne]

/-- The report is that of the last rules of each id: it is empty when these have one normal form on both sides, and
otherwise has one line for every id at which they differ. -/
theorem diff_report (showFloat : F → String) (yaml : YamlNode) (json : JsonValue F) :
    (∀ n, cmdDiff showFloat yaml json = .ok n ↔
      ∃ rules imported, compileRules yaml = .ok rules ∧ importRules showFloat json = .ok imported ∧
        (∀ id, lastForm id rules = lastForm id imported) ∧ n = (rules.map RuleIR.ruleId).dedup.length) ∧
    ∀ issues, cmdDiff showFloat yaml json = .divergence issues →
      ∃ rules imported, compileRules yaml = .ok rules ∧ importRules showFloat json = .ok imported ∧
        issues ≠ [] ∧ (issues.map Divergence.id).Nodup ∧
        ∀ issue, issue ∈ issues ↔
          issueOf issue.id (lastForm issue.id rules) (lastForm issue.id imported) = some issue := by
  refine ⟨fun n => cmdDiff_ok_iff, fun issues h => ?_⟩
  rw [cmdDiff] at h
  cases hrules : compileRules yaml with
  | error e => simp [hrules] at h
  | ok rules =>
    cases himported : importRules showFloat json with
    | error fault => simp [hrules, himported] at h
    | ok imported =>
      simp only [hrules, himported] at h
      split at h
      · cases h
      · rename_i hne
        cases h
        refine ⟨rules, imported, rfl, rfl, fun hnil => hne (by rw [hnil]; rfl),
          nodup_divergences (index_keyed _) (index_keyed _), fun issue => ?_⟩
        rw [mem_divergences (index_keyed _) (index_keyed _), lookup_index, lookup_index]

end

end Ke.Compiler
