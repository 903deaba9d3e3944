/-
Premise disjointness against the executor. Two rules whose premises disagree on a field are
exempted from conflict reporting; they can nevertheless apply to one fact set, and do so exactly
when each single field has a value that passes the checks of both rules on it.
-/
import KeEngine.Compiler.T4
import KeEngine.Runtime.DryRun

namespace Ke.T4

open Ke Wire Ke.Runtime

/-! ## Overlap -/

/-- A premise field of both maps with no common value. -/
def DisjointField (a b : Premises) : Prop :=
  ∃ field av bv, a.lookup field = some av ∧ b.lookup field = some bv ∧ isDisjoint av bv = true

/-- The keys of a premise map are pairwise different. -/
def Premises.Nodup (a : Premises) : Prop := (a.map Prod.fst).Nodup

theorem insert_keys {field : String} {values : List String} :
    ∀ {a : Premises} {f : String}, f ∈ (a.insert field values).map Prod.fst ↔ f = field ∨ f ∈ a.map Prod.fst
  | [], f => by simp [Premises.insert]
  | (g, vs) :: rest, f => by
    simp only [Premises.insert]
    split
    · rename_i h
      subst h
      simp
    · simp only [List.map_cons, List.mem_cons, insert_keys]
      constructor <;> rintro (h | h | h) <;> simp [h]

theorem insert_nodup {field : String} {values : List String} :
    ∀ {a : Premises}, a.Nodup → (a.insert field values).Nodup
  | [], _ => by simp [Premises.insert, Premises.Nodup]
  | (g, vs) :: rest, h => by
    obtain ⟨h1, h2⟩ := List.nodup_cons.1 h
    simp only [Premises.insert]
    split
    · rename_i hg
      subst hg
      exact List.nodup_cons.2 ⟨h1, h2⟩
    · rename_i hg
      refine List.nodup_cons.2 ⟨?_, insert_nodup h2⟩
      rw [insert_keys]
      rintro (hf | hf)
      · exact hg hf
      · exact h1 hf

theorem foldl_addPremise_nodup {text : ScalarValue → String} :
    ∀ {items : List ConditionOrGroup} {acc : Premises}, acc.Nodup → (items.foldl (addPremise text) acc).Nodup
  | [], acc, h => h
  | x :: xs, acc, h => by
    rw [List.foldl_cons]
    refine foldl_addPremise_nodup ?_
    simp only [addPremise]
    split
    · exact insert_nodup h
    · exact h

theorem extractPremises_nodup (r : RuleIR) : (extractPremises r).Nodup := foldl_addPremise_nodup List.nodup_nil

theorem lookup_iff_mem {a : Premises} (h : a.Nodup) {field : String} {av : List String} :
    a.lookup field = some av ↔ (field, av) ∈ a := by
  induction a with
  | nil => simp
  | cons p rest ih =>
    obtain ⟨g, vs⟩ := p
    obtain ⟨h1, h2⟩ := List.nodup_cons.1 h
    rw [List.lookup_cons, List.mem_cons]
    by_cases hg : field = g
    · subst hg
      simp only [beq_self_eq_true, Option.some.injEq, Prod.mk.injEq, true_and]
      constructor
      · rintro rfl; exact .inl rfl
      · rintro (h | h)
        · exact h.symm
        · exact absurd (List.mem_map.2 ⟨_, h, rfl⟩) h1
    · have hne : (field == g) = false := by simpa using hg
      simp only [hne, ih h2, Prod.mk.injEq]
      constructor
      · exact .inr
      · rintro (⟨h, -⟩ | h)
        · exact absurd h hg
        · exact h

theorem overlapFrom_false_of_disjoint {b : Premises} {field : String} {av bv : List String}
    (hb : b.lookup field = some bv) (hd : isDisjoint av bv = true) :
    ∀ {a : Premises} {shared : Bool}, (field, av) ∈ a → overlapFrom b shared a = false
  | (g, vs) :: rest, shared, hm => by
    simp only [overlapFrom]
    rcases List.mem_cons.1 hm with h | h
    · cases h
      rw [hb]
      simp only [hd, if_true]
    · split
      · exact overlapFrom_false_of_disjoint hb hd h
      · split
        · rfl
        · exact overlapFrom_false_of_disjoint hb hd h

/-- A field with disjoint values decides the overlap, whatever the order of the fields. -/
theorem scopesOverlap_false_of_disjointField {r₁ r₂ : RuleIR}
    (h : DisjointField (extractPremises r₁) (extractPremises r₂)) :
    scopesOverlap (extractPremises r₁) (extractPremises r₂) = false := by
  obtain ⟨field, av, bv, ha, hb, hd⟩ := h
  exact overlapFrom_false_of_disjoint hb hd ((lookup_iff_mem (extractPremises_nodup r₁)).1 ha)

/-! ## Applicability of a rule with premises -/

section

variable (X : Floats)

/-- The checks that applicability flattens to. -/
def checks (r : RuleIR) : List Condition :=
  match r.appliesIf with
  | some group => flatten group
  | none => []

/-- The checks of a rule on one field. -/
def checksOn (field : String) (r : RuleIR) : List Condition := (checks r).filter (fun c => c.field = field)

/-- Some value passes all of the checks. -/
def Satisfiable (cs : List Condition) : Prop :=
  ∃ v : FactValue X.F, ∀ c ∈ cs, evaluateOp X v c.operator c.value = true

variable {X}

theorem runChecks_all (facts : Facts X.F) :
    ∀ cs : List Condition, (runChecks X facts .all cs).1 = true ↔ ∀ c ∈ cs, holds X facts c = true
  | [] => by simp [runChecks]
  | c :: cs => by
    simp only [runChecks, List.forall_mem_cons]
    cases h : holds X facts c with
    | false => simp
    | true => simp [runChecks_all facts cs]

theorem insert_foldl_keys {text : ScalarValue → String} {f : String} :
    ∀ {items : List ConditionOrGroup} {acc : Premises}, f ∈ (items.foldl (addPremise text) acc).map Prod.fst →
      f ∈ acc.map Prod.fst ∨ ∃ x ∈ items, ∃ vs, premiseOf text x = some (f, vs)
  | [], acc, h => .inl h
  | x :: xs, acc, h => by
    rw [List.foldl_cons] at h
    rcases insert_foldl_keys h with h | ⟨y, hy, vs, hp⟩
    · simp only [addPremise] at h
      split at h
      · rename_i field values hp
        rcases insert_keys.1 h with rfl | h
        · exact .inr ⟨x, List.mem_cons_self .., values, hp⟩
        · exact .inl h
      · exact .inl h
    · exact .inr ⟨y, List.mem_cons_of_mem _ hy, vs, hp⟩

/-- A rule with a premise has a top-level `all` list, so that it applies when all its checks hold. -/
theorem applicable_iff_checks {r : RuleIR} {field : String} {av : List String}
    (h : (extractPremises r).lookup field = some av) (facts : Facts X.F) :
    (evaluate X facts r).applicable = true ↔ ∀ c ∈ checks r, holds X facts c = true := by
  have hkey : field ∈ (extractPremises r).map Prod.fst :=
    List.mem_map.2 ⟨_, (lookup_iff_mem (extractPremises_nodup r)).1 h, rfl⟩
  rcases insert_foldl_keys hkey with hnil | ⟨x, hx, vs, hp⟩
  · cases hnil
  · have happ : (evaluate X facts r).applicable = (applicability X facts r.appliesIf).1 := by
      simp only [evaluate]
      split <;> rename_i heq <;> rw [heq]
    rw [happ]
    unfold topItems at hx
    split at hx
    · rename_i items any hr
      have hmode : groupMode (some items) = .all := by
        cases items with
        | nil => cases hx
        | cons y ys => rfl
      have hflat : flatten ⟨some items, any⟩ = flattenOne.flattenItems items := by
        cases items with
        | nil => cases hx
        | cons y ys => rfl
      simp only [checks, hr, applicability, hflat, hmode]
      cases hcs : flattenOne.flattenItems items with
      | nil => simp
      | cons c cs => exact runChecks_all facts (c :: cs)
    · cases hx

theorem lookup_map {F : Type} (v : String → FactValue F) :
    ∀ {fields : List String} {f : String}, f ∈ fields → Runtime.lookup (fields.map fun f => (f, v f)) f = v f
  | g :: gs, f, h => by
    simp only [Runtime.lookup, List.map_cons, List.lookup_cons]
    by_cases hg : f = g
    · subst hg
      simp
    · have hne : (f == g) = false := by simpa using hg
      rw [hne]
      exact lookup_map v ((List.mem_cons.1 h).resolve_left hg)

/-- Two rules with a field of disjoint premise values never apply together exactly when the checks
of both on some one field are passed by no value. -/
theorem disjoint_premises_sound_iff (X : Floats) {r₁ r₂ : RuleIR}
    (h : DisjointField (extractPremises r₁) (extractPremises r₂)) :
    (∀ facts : Facts X.F, ¬ ((evaluate X facts r₁).applicable = true ∧ (evaluate X facts r₂).applicable = true)) ↔
      ∃ field, ¬ Satisfiable X (checksOn field r₁ ++ checksOn field r₂) := by
  obtain ⟨field, av, bv, ha, hb, -⟩ := h
  have hiff : (∃ facts : Facts X.F, (evaluate X facts r₁).applicable = true ∧ (evaluate X facts r₂).applicable = true) ↔
      ∀ field, Satisfiable X (checksOn field r₁ ++ checksOn field r₂) := by
    constructor
    · rintro ⟨facts, h1, h2⟩ f
      rw [applicable_iff_checks ha] at h1
      rw [applicable_iff_checks hb] at h2
      refine ⟨Runtime.lookup facts f, fun c hc => ?_⟩
      simp only [checksOn, List.mem_append, List.mem_filter, decide_eq_true_eq] at hc
      rcases hc with ⟨hc, rfl⟩ | ⟨hc, rfl⟩
      · exact h1 c hc
      · exact h2 c hc
    · intro hsat
      -- one fact for each field that either rule checks
      choose v hv using hsat
      have hall : ∀ c ∈ checks r₁ ++ checks r₂,
          holds X (((checks r₁ ++ checks r₂).map (·.field)).map fun f => (f, v f)) c = true := by
        intro c hc
        simp only [holds]
        rw [lookup_map v (List.mem_map.2 ⟨c, hc, rfl⟩)]
        refine hv c.field c ?_
        simpa only [checksOn, List.mem_append, List.mem_filter, decide_eq_true_eq, and_true] using hc
      refine ⟨_, (applicable_iff_checks ha _).2 fun c hc => hall c (List.mem_append_left _ hc),
        (applicable_iff_checks hb _).2 fun c hc => hall c (List.mem_append_right _ hc)⟩
  rw [← not_exists, hiff, not_forall]

end

/-! ## One number in two spellings -/

/-- Applicable when `x == 5.0`. -/
def fivePointZeroRule : RuleIR :=
  .bare "a" (some ⟨some [.condition ⟨"x", .eq, .decimal (.lit 128 50) (.lit 8 1), none⟩], none⟩) (.result "permit")

/-- Applicable when `x == 5`. -/
def fiveRule : RuleIR :=
  .bare "b" (some ⟨some [.condition ⟨"x", .eq, .decimal (.lit 128 5) (.lit 8 0), none⟩], none⟩) (.result "forbid")

theorem fiveRules_disjoint : DisjointField (extractPremises fivePointZeroRule) (extractPremises fiveRule) :=
  ⟨"x", ["50:1"], ["5:0"], by decide +kernel, by decide +kernel, by decide +kernel⟩

/-- The premises are `50:1` and `5:0`; the fact five meets both. -/
theorem disjoint_premises_coapply :
    ¬ ∀ (X : Floats) (r₁ r₂ : RuleIR), DisjointField (extractPremises r₁) (extractPremises r₂) →
      ¬ ∃ facts : Facts X.F, (evaluate X facts r₁).applicable = true ∧ (evaluate X facts r₂).applicable = true := by
  intro hall
  exact hall exactFloats fivePointZeroRule fiveRule fiveRules_disjoint
    ⟨fiveFacts, by decide +kernel, by decide +kernel⟩

theorem disjoint_premises_sound_iff_fiveRules :
    (∀ facts : Facts exactFloats.F, ¬ ((evaluate exactFloats facts fivePointZeroRule).applicable = true ∧
        (evaluate exactFloats facts fiveRule).applicable = true)) ↔
      ∃ field, ¬ Satisfiable exactFloats (checksOn field fivePointZeroRule ++ checksOn field fiveRule) :=
  disjoint_premises_sound_iff exactFloats fiveRules_disjoint

end Ke.T4
