/-
What an agreement of the differential harness says of the executor. Both sides build rules whose groups have one
list each and whose decimals have a scale that is not negative, so that rules of one normal form evaluate alike
wherever no condition looks at what the normal form forgets of a list.
-/
import KeEngine.Compiler.Differential
import KeEngine.Compiler.FailClosed
import KeEngine.Registry.Thresholds
import KeEngine.Runtime.Effective
import KeEngine.Runtime.ExactFloats
import KeEngine.Runtime.SemanticExec

namespace Ke.Runtime

open Ke Wire Compiler Compiler.Fields Compiler.PythonImport Ke.T4

/-! ## What is built -/

/-- A decimal as it is read from a numeral. -/
def Literal : ScalarValue → Prop
  | .decimal _ scale => 0 ≤ scale.val
  | _ => True

/-- A group has one list at most, and the operands are literals. -/
inductive Built : ConditionOrGroup → Prop
  | condition {c : Condition} (h : Literal c.value) : Built (.condition c)
  | group (kind : GroupKind) {items : List ConditionOrGroup} (h : ∀ x ∈ items, Built x) :
    Built (.group (groupLists kind items).all (groupLists kind items).any)
  | empty : Built (.group none none)

inductive BuiltTree : DecisionEntry → Prop
  | leaf (l : DecisionLeaf) : BuiltTree (.leaf l)
  | node {nodeId : String} {c : Condition} {t f : DecisionEntry} {span : Option SourceSpan} (h : Literal c.value)
    (ht : BuiltTree t) (hf : BuiltTree f) : BuiltTree (.node nodeId c t f span)

structure BuiltRule (r : RuleIR) : Prop where
  appliesIf : ∀ g ∈ r.appliesIf, Built (.group g.all g.any)
  decisionTree : BuiltTree r.decisionTree

theorem items_shadowFree {items : List ConditionOrGroup} (h : ∀ x ∈ items, shadowFree x = true) :
    shadowFree.items items = true := by
  induction items with
  | nil => rfl
  | cons x xs ih =>
    rw [shadowFree.items, h x List.mem_cons_self, ih fun y hy => h y (List.mem_cons_of_mem x hy)]
    rfl

theorem Built.shadowFree {x : ConditionOrGroup} (h : Built x) : shadowFree x = true := by
  induction h with
  | condition _ => rfl
  | empty => rfl
  | @group kind items _ ih =>
    have hitems := items_shadowFree ih
    cases kind with
    | any => exact hitems
    | all =>
      cases items with
      | nil => rfl
      | cons y ys => simpa only [groupLists, Runtime.shadowFree, Runtime.shadowFree.items] using hitems

theorem Built.literal {x : ConditionOrGroup} (h : Built x) : ∀ c ∈ flattenOne x, Literal c.value := by
  induction h with
  | condition h => simpa [flattenOne] using h
  | empty => simp [flattenOne, isTruthy, flattenOne.flattenOpt]
  | @group kind items _ ih =>
    intro c hc
    have hmem : c ∈ flattenOne.flattenItems items := by
      cases kind with
      | any => simpa [groupLists, flattenOne, isTruthy, flattenOne.flattenOpt] using hc
      | all =>
        cases items with
        | nil => simp [groupLists, flattenOne, isTruthy, flattenOne.flattenOpt] at hc
        | cons y ys => simpa [groupLists, flattenOne, isTruthy, flattenOne.flattenOpt] using hc
    rw [flattenItems_eq] at hmem
    obtain ⟨x, hx, hcx⟩ := List.mem_flatMap.1 hmem
    exact ih x hx c hcx

theorem BuiltTree.literal {X : Floats} {facts : Facts X.F} {t : DecisionEntry} (h : BuiltTree t) :
    ∀ c ∈ consultedNodes X facts t, Literal c.value := by
  induction h with
  | leaf l => simp [consultedNodes]
  | node h _ _ iht ihf =>
    rw [consultedNodes, List.forall_mem_cons]
    refine ⟨h, ?_⟩
    split
    · exact iht
    · exact ihf

theorem BuiltRule.deciding {X : Floats} {facts : Facts X.F} {r : RuleIR} (h : BuiltRule r) :
    ∀ c ∈ deciding X facts r, Literal c.value := by
  intro c hc
  rcases List.mem_append.1 hc with hc | hc
  · unfold checks at hc
    cases hg : r.appliesIf with
    | none => simp [hg] at hc
    | some g =>
      rw [hg] at hc
      exact (h.appliesIf g hg).literal c (by simpa [flatten] using hc)
  · exact h.decisionTree.literal c hc

/-! ## The compiler -/

theorem literal_parseDecimal {s : String} {v : ScalarValue} (h : parseDecimal s = some v) : Literal v := by
  cases v with
  | decimal m k => exact Registry.parseDecimal_scale h
  | _ => trivial

theorem literal_number (s : String) : Literal ((parseDecimal s).getD (.str s)) := by
  cases h : parseDecimal s with
  | none => trivial
  | some v => exact literal_parseDecimal h

theorem literal_scalar (s : YamlScalar) : Literal (scalarToValue s) := by
  unfold scalarToValue
  split
  · split
    · trivial
    · exact literal_number s.text
  · trivial

theorem compileCondition_literal {fields : Fields} {c : Condition} (h : compileCondition fields = .ok c) :
    Literal c.value := by
  obtain ⟨a, ha, h⟩ := bind_ok.1 h
  obtain ⟨f, -, ha⟩ := bind_ok.1 ha
  obtain ⟨v, hv, ha⟩ := bind_ok.1 ha
  obtain rfl := pure_ok.1 ha
  obtain ⟨op, -, h⟩ := bind_ok.1 h
  obtain rfl := pure_ok.1 h
  unfold parseValue at hv
  split at hv
  · cases hv
    exact literal_scalar _
  · split at hv
    · obtain ⟨vs, -, rfl⟩ := map_eq_ok.1 hv
      trivial
    · cases hv

/-- The members of an accepted group are its entries, one for one. -/
theorem compileGroup_members {fields : Fields} {s : ConditionGroupSpec} (h : compileGroup fields = .ok s) :
    ∃ kind items members, readList fields = some items ∧ s = groupLists kind members ∧
      List.Forall₂ (fun x y => compileItem x = .ok y) items members := by
  obtain ⟨g, hg, hs⟩ := bind_ok.1 h
  obtain ⟨items, hread, hits⟩ := parseGroup_readList hg
  obtain ⟨members, hmembers, rfl⟩ := map_eq_ok.1 hs
  exact ⟨g.kind, items, members, hread, rfl, mapM_comp hits hmembers⟩

theorem compileGroup_built (fields : Fields) : ∀ {s : ConditionGroupSpec}, compileGroup fields = .ok s →
    Built (.group s.all s.any) := by
  induction fields using Fields.ind with
  | h fields ih _ =>
    intro s hs
    obtain ⟨kind, items, members, hread, rfl, hmembers⟩ := compileGroup_members hs
    obtain ⟨key, hget⟩ := get_of_readList hread
    refine .group kind fun y hy => ?_
    obtain ⟨x, hx, hxy⟩ := forall₂_mem_right hmembers hy
    obtain ⟨m, hm⟩ := Option.isSome_iff_exists.1 (compileItem_asMapping hxy)
    obtain rfl := YamlNode.asMapping_eq_some.1 hm
    cases hf : getScalar m "field" with
    | some t =>
      obtain ⟨c, hc, rfl⟩ := compileItem_condition hxy (by rw [hf]; rfl)
      exact .condition (compileCondition_literal hc)
    | none =>
      obtain ⟨s', hs', rfl⟩ := compileItem_group hxy hf
      exact ih key items m hget hx hs'

theorem compileDecision_built (fields : Fields) : ∀ {t : DecisionEntry}, compileDecision fields = .ok t →
    BuiltTree t := by
  induction fields using Fields.ind with
  | h fields _ ih =>
    intro t ht
    cases hr : getScalar fields "result" with
    | some s =>
      obtain ⟨l, os, rfl, -, -⟩ := compileDecision_leaf ht (by rw [hr]; rfl)
      exact .leaf l
    | none =>
      obtain ⟨c, b, b', c', t', f', nodeId, span, -, hb, hb', hc', ht', hf', rfl⟩ := compileDecision_node ht hr
      exact .node (compileCondition_literal hc') (ih _ b (getMapping_eq_some.1 hb) ht')
        (ih _ b' (getMapping_eq_some.1 hb') hf')

theorem compileRule_built {fields : Fields} {r : RuleIR} (h : compileRule fields = .ok r) : BuiltRule r := by
  obtain ⟨-, happ, ⟨m, -, htree⟩, -, -⟩ := compileRule_ok h
  refine ⟨fun g hg => ?_, compileDecision_built m htree⟩
  rcases mapM_option_ok.1 happ with ⟨-, hnone⟩ | ⟨m, s, -, hs, hsome⟩
  · rw [hnone] at hg
    cases hg
  · rw [hsome] at hg
    cases hg
    exact compileGroup_built m hs

theorem compileRules_built {root : YamlNode} {rules : List RuleIR} (h : compileRules root = .ok rules) :
    ∀ r ∈ rules, BuiltRule r := by
  intro r hr
  obtain ⟨asts, hasts, h⟩ := bind_ok.1 h
  obtain ⟨ast, hast, hrule⟩ := forall₂_mem_right (mapM_ok.1 h) hr
  cases root with
  | scalar s => cases hasts
  | mapping fields =>
    obtain ⟨ast', hast', hasts⟩ := bind_ok.1 hasts
    obtain rfl := pure_ok.1 hasts
    obtain rfl := List.mem_singleton.1 hast
    exact compileRule_built (bind_ok.2 ⟨_, hast', hrule⟩)
  | sequence items =>
    obtain ⟨el, -, hel⟩ := forall₂_mem_right (mapM_ok.1 hasts) hast
    split at hel
    · exact compileRule_built (bind_ok.2 ⟨_, hel, hrule⟩)
    · cases hel

/-! ## The import -/

section

variable {F : Type} {showFloat : F → String}

theorem literal_importValue (v : JsonValue F) : Literal (importValue showFloat v) := by
  cases v with
  | whole n => exact literal_number _
  | float f => exact literal_number _
  | _ => trivial

theorem conditionOf_literal {obj : Entries F} {c : Condition} (h : conditionOf showFloat obj = .ok c) :
    Literal c.value := by
  obtain ⟨f, -, h⟩ := bind_ok.1 h
  obtain ⟨op, -, h⟩ := bind_ok.1 h
  obtain rfl := pure_ok.1 h
  exact literal_importValue _

theorem importCondition_literal {v : JsonValue F} {c : Condition} (h : importCondition showFloat v = .ok c) :
    Literal c.value := by
  unfold importCondition at h
  split at h
  · exact conditionOf_literal h
  · cases h

theorem elim_ok {α β : Type} {o : Option α} {message : String} {f : α → Except ImportFault β} {b : β}
    (h : o.elim (unlocated message) f = .ok b) : ∃ a, o = some a ∧ f a = .ok b := by
  cases o with
  | none => cases h
  | some a => exact ⟨a, rfl, h⟩

theorem mem_of_present {obj : Entries F} {key : String} {v : JsonValue F} (h : present obj key = some v) :
    (key, v) ∈ obj := by
  have hget : obj.lookup key = some v := by
    unfold present at h
    split at h
    · cases h
    · cases h
    · rename_i w hw
      cases h
      exact hw
  clear h
  induction obj with
  | nil => cases hget
  | cons kv rest ih =>
    obtain ⟨k, w⟩ := kv
    rw [Layers.lookup_cons_ite] at hget
    split at hget
    · rename_i hk
      cases hget
      exact hk ▸ List.mem_cons_self
    · exact List.mem_cons_of_mem _ (ih hget)

theorem groupOf_ok {all any : Option (Except ImportFault (List ConditionOrGroup))} {s : ConditionGroupSpec}
    (h : PythonImport.groupOf all any = .ok s) : s = ⟨none, none⟩ ∨
      ∃ kind members, s = groupLists kind members ∧ (all = some (.ok members) ∨ any = some (.ok members)) := by
  unfold PythonImport.groupOf at h
  split at h
  · obtain ⟨members, rfl, rfl⟩ := map_eq_ok.1 h
    exact .inr ⟨.all, members, rfl, .inl rfl⟩
  · split at h
    · obtain ⟨members, rfl, rfl⟩ := map_eq_ok.1 h
      exact .inr ⟨.any, members, rfl, .inr rfl⟩
    · cases h
      exact .inl rfl

theorem importItemsAt_ok {key : String} {members : List ConditionOrGroup} : ∀ {obj : Entries F},
    importItemsAt showFloat key obj = some (.ok members) →
      ∃ items, (key, .array items) ∈ obj ∧ items.mapM (importItem showFloat) = .ok members := by
  intro obj
  induction obj with
  | nil => intro h; cases h
  | cons entry rest ih =>
    intro h
    obtain ⟨k, v⟩ := entry
    rw [importItemsAt] at h
    by_cases hk : k = key
    · rw [if_pos hk] at h
      cases v with
      | array items =>
        rw [importArray, importItems_eq] at h
        exact ⟨items, hk ▸ List.mem_cons_self, Option.some.inj h⟩
      | null | bool | whole | float | str | object => cases h
    · rw [if_neg hk] at h
      obtain ⟨items, hmem, hitems⟩ := ih h
      exact ⟨items, List.mem_cons_of_mem _ hmem, hitems⟩

/-- The members of an imported group are those of an array in it, one for one. -/
theorem importGroup_members {obj : Entries F} {s : ConditionGroupSpec} (h : importGroup showFloat (.object obj) = .ok s) :
    s = ⟨none, none⟩ ∨ ∃ kind key items members, (key, .array items) ∈ obj ∧ s = groupLists kind members ∧
      List.Forall₂ (fun v x => importItem showFloat v = .ok x) items members := by
  rw [importGroup] at h
  rcases groupOf_ok h with rfl | ⟨kind, members, rfl, hall | hany⟩
  · exact .inl rfl
  · obtain ⟨items, hmem, hitems⟩ := importItemsAt_ok hall
    exact .inr ⟨kind, "all", items, members, hmem, rfl, mapM_ok.1 hitems⟩
  · obtain ⟨items, hmem, hitems⟩ := importItemsAt_ok hany
    exact .inr ⟨kind, "any", items, members, hmem, rfl, mapM_ok.1 hitems⟩

theorem importItem_cases {v : JsonValue F} {x : ConditionOrGroup} (h : importItem showFloat v = .ok x) :
    (∃ c, x = .condition c ∧ Literal c.value) ∨
      ∃ obj s, v = .object obj ∧ importGroup showFloat (.object obj) = .ok s ∧ x = .group s.all s.any := by
  cases v with
  | object obj =>
    rw [importItem] at h
    split at h
    · obtain ⟨c, hc, rfl⟩ := map_eq_ok.1 h
      exact .inl ⟨c, rfl, conditionOf_literal hc⟩
    · obtain ⟨s, hs, h⟩ := bind_ok.1 h
      obtain rfl := pure_ok.1 h
      exact .inr ⟨obj, s, rfl, by rw [importGroup]; exact hs, rfl⟩
  | null | bool | whole | float | str | array => rw [importItem] at h <;> cases h

/-- By induction over the value, at it and at the members of an array. -/
theorem importItem_built (v : JsonValue F) :
    (∀ x, importItem showFloat v = .ok x → Built x) ∧
      ∀ items, v = .array items → ∀ w ∈ items, ∀ x, importItem showFloat w = .ok x → Built x := by
  induction v using JsonValue.ind with
  | null | bool | whole | float | str =>
    refine ⟨fun x h => ?_, by rintro items ⟨⟩⟩
    rcases importItem_cases h with ⟨c, rfl, hc⟩ | ⟨obj, s, heq, -⟩
    · exact .condition hc
    · cases heq
  | array items ih =>
    refine ⟨fun x h => ?_, ?_⟩
    · rcases importItem_cases h with ⟨c, rfl, hc⟩ | ⟨obj, s, heq, -⟩
      · exact .condition hc
      · cases heq
    · rintro _ ⟨⟩ w hw x hx
      exact (ih w hw).1 x hx
  | object obj ih =>
    refine ⟨fun x h => ?_, by rintro items ⟨⟩⟩
    rcases importItem_cases h with ⟨c, rfl, hc⟩ | ⟨obj', s, heq, hs, rfl⟩
    · exact .condition hc
    · cases heq
      rcases importGroup_members hs with rfl | ⟨kind, key, items, members, hmem, rfl, hmembers⟩
      · exact .empty
      · refine .group kind fun y hy => ?_
        obtain ⟨w, hw, hwy⟩ := forall₂_mem_right hmembers hy
        exact (ih _ hmem).2 items rfl w hw y hwy

theorem importGroup_built {v : JsonValue F} {s : ConditionGroupSpec} (h : importGroup showFloat v = .ok s) :
    Built (.group s.all s.any) := by
  cases v with
  | object obj =>
    rcases importGroup_members h with rfl | ⟨kind, key, items, members, -, rfl, hmembers⟩
    · exact .empty
    · refine .group kind fun y hy => ?_
      obtain ⟨w, -, hwy⟩ := forall₂_mem_right hmembers hy
      exact (importItem_built w).1 y hwy
  | null | bool | whole | float | str | array => cases h

theorem importDecision_built (v : JsonValue F) : ∀ t, importDecision showFloat v = .ok t → BuiltTree t := by
  induction v using JsonValue.ind with
  | null | bool | whole | float | str | array => intro t h; cases h
  | object obj ih =>
    intro t h
    have hbranch : ∀ {which : String} {b : DecisionEntry}, importBranch showFloat which obj = .ok b → BuiltTree b := by
      intro which b hb
      rw [importBranch_eq] at hb
      obtain ⟨w, hw, hb⟩ := elim_ok hb
      exact ih _ (mem_of_present hw) b hb
    rw [importDecision, PythonImport.decisionOf] at h
    split at h
    · obtain ⟨l, -, rfl⟩ := map_eq_ok.1 h
      exact .leaf l
    · obtain ⟨c, hc, h⟩ := bind_ok.1 h
      obtain ⟨tb, htb, h⟩ := bind_ok.1 h
      obtain ⟨fb, hfb, h⟩ := bind_ok.1 h
      obtain rfl := pure_ok.1 h
      refine .node ?_ (hbranch htb) (hbranch hfb)
      obtain ⟨w, -, hc⟩ := elim_ok hc
      exact importCondition_literal hc

theorem importRule_built {v : JsonValue F} {r : RuleIR} (h : importRule showFloat v = .ok r) : BuiltRule r := by
  unfold importRule at h
  split at h
  · obtain ⟨ruleId, -, h⟩ := bind_ok.1 h
    obtain ⟨tree, htree, h⟩ := bind_ok.1 h
    obtain ⟨source, -, h⟩ := bind_ok.1 h
    obtain ⟨appliesIf, happ, h⟩ := bind_ok.1 h
    obtain ⟨window, -, h⟩ := bind_ok.1 h
    obtain rfl := pure_ok.1 h
    constructor
    · intro g hg
      rcases mapM_option_ok.1 happ with ⟨-, rfl⟩ | ⟨w, s, -, hs, rfl⟩
      · cases hg
      · cases hg
        exact importGroup_built hs
    · obtain ⟨w, -, htree⟩ := elim_ok htree
      exact importDecision_built w _ htree
  · cases h

theorem importRules_built {v : JsonValue F} {rules : List RuleIR} (h : importRules showFloat v = .ok rules) :
    ∀ r ∈ rules, BuiltRule r := by
  intro r hr
  unfold importRules at h
  split at h
  · obtain ⟨w, -, hw⟩ := forall₂_mem_right (mapM_ok.1 h) hr
    exact importRule_built hw
  · obtain ⟨rule, hrule, h⟩ := bind_ok.1 h
    obtain rfl := pure_ok.1 h
    obtain rfl := List.mem_singleton.1 hr
    exact importRule_built hrule

end

/-! ## Conditions that the normal form decides -/

/-- A member of a value set that its normal form gives back: a text, a boolean, a number without a fraction. -/
def Whole : ScalarValue → Prop
  | .str _ | .bool _ => True
  | .decimal _ scale => scale.val = 0
  | .list _ => False

/-- The comparison does not look at what the normal form forgets of a list: its order, and how the fractions in
it were written. -/
def Faithful (c : Condition) : Prop :=
  ∀ items, c.value = .list items → c.operator ≠ .eq ∧ c.operator ≠ .notEq ∧
    (c.operator = .in ∨ c.operator = .notIn → ∀ v ∈ items, Whole v)

theorem Literal.plain {v : ScalarValue} (h : Literal v) (hv : ∀ items, v ≠ .list items) : Plain v := by
  cases v with
  | str s => trivial
  | bool b => trivial
  | decimal m k => exact ⟨_, Registry.normalizeDecimal_of_nonneg h⟩
  | list items => exact absurd rfl (hv items)

theorem normDecimal_whole {m : I128} {k : I8} (hk : k.val = 0) : normDecimal m k = (m, .lit 8 0) := by
  obtain rfl : k = .lit 8 0 := SInt.ext hk
  simp only [normDecimal]
  split <;> rfl

/-- The normal form of a member of a value set gives it back. -/
theorem semValue_whole {v w : ScalarValue} (hv : Whole v) (hw : Whole w) (h : semValue v = semValue w) : v = w := by
  cases v <;> cases w <;> simp only [semValue, SemValue.str.injEq, SemValue.bool.injEq, SemValue.num.injEq,
    reduceCtorEq] at h
  · rw [h]
  · rw [h]
  · rename_i m k n l
    rw [normDecimal_whole hv, normDecimal_whole hw] at h
    obtain rfl : m = n := h.1
    rw [show k = l from SInt.ext (hv.trans hw.symm)]
  · exact absurd hv id

theorem mem_semValues {a : SemValue} {items : List ScalarValue} :
    a ∈ semValue.semValues items ↔ ∃ v ∈ items, semValue v = a := by
  induction items with
  | nil => simp [semValue.semValues]
  | cons v vs ih => simp [semValue.semValues, ih, eq_comm]

theorem mem_of_semValues {xs ys : List ScalarValue} (hx : ∀ v ∈ xs, Whole v) (hy : ∀ v ∈ ys, Whole v)
    (h : semValue (.list xs) = semValue (.list ys)) {v : ScalarValue} (hv : v ∈ xs) : v ∈ ys := by
  rw [semValue, semValue, SemValue.list.injEq] at h
  have hperm : (semValue.semValues xs).Perm (semValue.semValues ys) :=
    (perm_sortBy SemValue.cmp _).symm.trans (h ▸ perm_sortBy SemValue.cmp _)
  obtain ⟨w, hw, heq⟩ := mem_semValues.1 (hperm.mem_iff.1 (mem_semValues.2 ⟨v, hv, rfl⟩))
  rwa [← semValue_whole (hy w hw) (hx v hv) heq]

section

variable {X : Floats} {facts : Facts X.F}

theorem evalIn_whole {xs ys : List ScalarValue} (hx : ∀ v ∈ xs, Whole v) (hy : ∀ v ∈ ys, Whole v)
    (h : semValue (.list xs) = semValue (.list ys)) (x : FactValue X.F) :
    evalIn X x (.list xs) = evalIn X x (.list ys) := by
  rw [Bool.eq_iff_iff, evalIn, evalIn, List.any_eq_true, List.any_eq_true]
  constructor
  · rintro ⟨v, hv, heq⟩
    exact ⟨v, mem_of_semValues hx hy h hv, heq⟩
  · rintro ⟨v, hv, heq⟩
    exact ⟨v, mem_of_semValues hy hx h.symm hv, heq⟩

theorem evalOrd_list (x : FactValue X.F) (items : List ScalarValue) (o : OrdOp) :
    evalOrd X x (.list items) o = false := by
  unfold evalOrd
  cases x <;> simp [operandAsNumber]

/-- Conditions of one normal form have one value on every fact set. -/
theorem holds_faithful (hX : X.ParsesValue) {c d : Condition} (hc : Literal c.value) (hd : Literal d.value)
    (hfc : Faithful c) (hfd : Faithful d) (h : semCond c = semCond d) : holds X facts c = holds X facts d := by
  obtain ⟨field, op, v, _⟩ := c
  obtain ⟨field', op', w, _⟩ := d
  by_cases hv : ∃ xs, v = .list xs
  · obtain ⟨xs, rfl⟩ := hv
    simp only [semCond, SemCond.mk.injEq] at h
    obtain ⟨rfl, hop, hval⟩ := h
    obtain rfl := Operator.token_injective hop
    -- a list has the normal form of a list only
    cases w with
    | str s => simp [semValue] at hval
    | bool b => simp [semValue] at hval
    | decimal m k => simp [semValue] at hval
    | list ys =>
      obtain ⟨heq, hne, hin⟩ := hfc xs rfl
      obtain ⟨-, -, hin'⟩ := hfd ys rfl
      simp only [holds]
      cases op with
      | eq => exact absurd rfl heq
      | notEq => exact absurd rfl hne
      | «in» => exact evalIn_whole (hin (.inl rfl)) (hin' (.inl rfl)) hval _
      | notIn => exact congrArg Bool.not (evalIn_whole (hin (.inr rfl)) (hin' (.inr rfl)) hval _)
      | «exists» => rfl
      | gt | lt | gte | lte => rw [evaluateOp, evaluateOp, evalOrd_list, evalOrd_list]
  · refine holds_plain hX (hc.plain fun items heq => hv ⟨items, heq⟩) (hd.plain fun items heq => ?_) h
    obtain rfl : w = .list items := heq
    simp only [semCond, SemCond.mk.injEq] at h
    cases v with
    | list xs => exact hv ⟨xs, rfl⟩
    | str s => simp [semValue] at h
    | bool b => simp [semValue] at h
    | decimal m k => simp [semValue] at h

end

/-! ## An agreement -/

theorem mem_of_lastRule {id : String} {rules : List RuleIR} {r : RuleIR} (h : lastRule id rules = some r) :
    r ∈ rules ∧ r.ruleId = id := by
  obtain ⟨before, after, heq, -⟩ := Layers.last_eq_some.1 h
  have hmem : (id, r) ∈ rules.map fun r => (r.ruleId, r) := heq ▸ List.mem_append_right _ List.mem_cons_self
  obtain ⟨r', hr', hpair⟩ := List.mem_map.1 hmem
  cases hpair
  exact ⟨hr', rfl⟩

/-- Windows of one normal form cover the same dates. -/
theorem effectiveAt_sameForm {r p : RuleIR}
    (h : (SemanticRule.fromRule r).effective = (SemanticRule.fromRule p).effective) (d : JurisdictionDate) :
    effectiveAt r.effectiveWindow d = effectiveAt p.effectiveWindow d := by
  have hdate : ∀ a b : JurisdictionDate, semDate a = semDate b → a = b := by
    intro a b h
    obtain ⟨y, m, d⟩ := a
    obtain ⟨y', m', d'⟩ := b
    simpa [semDate] using h
  simp only [SemanticRule.fromRule] at h
  cases hr : r.effectiveWindow with
  | none =>
    rw [hr, Option.map_none, eq_comm, Option.map_eq_none_iff] at h
    rw [h]
  | some v =>
    rw [hr, Option.map_some, eq_comm, Option.map_eq_some_iff] at h
    obtain ⟨w, hw, h⟩ := h
    simp only [SemWindow.mk.injEq] at h
    have hstart := hdate _ _ h.1
    have hstop := Option.map_injective (fun a b => hdate a b) h.2
    rw [hw, effectiveAt, effectiveAt, hstart, hstop]

/-- When the harness reports no difference, the rules that stand at an id on the two sides are effective on the same
dates and evaluate alike, on facts for which no list is compared by what the normal form forgets of it. -/
theorem diff_sound {X : Floats} (hX : X.ParsesValue) {F : Type} (showFloat : F → String) (yaml : YamlNode)
    (json : JsonValue F) (n : Nat) (h : cmdDiff showFloat yaml json = .ok n) :
    ∃ rules imported, compileRules yaml = .ok rules ∧ importRules showFloat json = .ok imported ∧
      ∀ id, ((lastRule id rules).isSome = (lastRule id imported).isSome) ∧
        ∀ r p, lastRule id rules = some r → lastRule id imported = some p →
          (∀ d, effectiveAt r.effectiveWindow d = effectiveAt p.effectiveWindow d) ∧
          ∀ facts : Facts X.F, (∀ c ∈ deciding X facts r ++ deciding X facts p, Faithful c) →
            (evaluate X facts r).applicable = (evaluate X facts p).applicable ∧
              (evaluate X facts r).decision = (evaluate X facts p).decision ∧
              (evaluate X facts r).obligationIds = (evaluate X facts p).obligationIds := by
  obtain ⟨rules, imported, hrules, himported, hforms, -⟩ := cmdDiff_ok_iff.1 h
  refine ⟨rules, imported, hrules, himported, fun id => ⟨?_, fun r p hr hp => ?_⟩⟩
  · have hform := congrArg Option.isSome (hforms id)
    rwa [lastForm, lastForm, Option.isSome_map, Option.isSome_map] at hform
  have hform : SemanticRule.fromRule r = SemanticRule.fromRule p := by
    have hform := hforms id
    rw [lastForm, lastForm, hr, hp] at hform
    exact Option.some.inj hform
  refine ⟨effectiveAt_sameForm (congrArg SemanticRule.effective hform), fun facts hfaithful => ?_⟩
  have hbuilt := compileRules_built hrules r (mem_of_lastRule hr).1
  have hbuilt' := importRules_built himported p (mem_of_lastRule hp).1
  have hagree : AgreeOn X facts (deciding X facts r) (deciding X facts p) := fun c hc d hd =>
    holds_faithful hX (hbuilt.deciding c hc) (hbuilt'.deciding d hd) (hfaithful c (List.mem_append_left _ hc))
      (hfaithful d (List.mem_append_right _ hd))
  have happ := applicability_sameLogic (congrArg SemanticRule.applicability hform)
    (fun g hg => (hbuilt.appliesIf g hg).shadowFree) (fun g hg => (hbuilt'.appliesIf g hg).shadowFree)
    (hagree.mono (List.subset_append_left ..) (List.subset_append_left ..))
  have hwalk := walk_sameLogic (congrArg SemanticRule.decisionPaths hform)
    (hagree.mono (List.subset_append_right ..) (List.subset_append_right ..))
  obtain ⟨a₁, d₁, o₁⟩ := @evaluate_outcome X facts r
  obtain ⟨a₂, d₂, o₂⟩ := @evaluate_outcome X facts p
  rw [a₁, a₂, d₁, d₂, o₁, o₂, happ, hwalk]
  exact ⟨rfl, rfl, rfl⟩

/-! ## A rule for access -/

/-- A scalar without quotes. -/
def bareScalar (text : String) : YamlNode := .scalar ⟨text, true, none⟩

/-- The role in a set, a level of `3.0` at least. -/
def accessYaml : YamlNode := .mapping [
  ("rule_id", bareScalar "access"),
  ("applies_if", .mapping [("all", .sequence [
    .mapping [("field", bareScalar "role"), ("operator", bareScalar "in"),
      ("value", .sequence [bareScalar "auditor", bareScalar "admin"])],
    .mapping [("field", bareScalar "level"), ("operator", bareScalar ">="), ("value", bareScalar "3.0")]])]),
  ("decision_tree", .mapping [("result", bareScalar "permit")]),
  ("source", .mapping [("document_id", bareScalar "doc")])]

/-- The checks and the set the other way round, and a level of `3`. -/
def accessJson : JsonValue String := .object [
  ("rule_id", .str "access"),
  ("applies_if", .object [("all", .array [
    .object [("field", .str "level"), ("operator", .str ">="), ("value", .whole ⟨3, by decide, by decide⟩)],
    .object [("field", .str "role"), ("operator", .str "in"), ("value", .array [.str "admin", .str "auditor"])]])]),
  ("decision_tree", .object [("result", .str "permit"), ("obligations", .null)]),
  ("source", .object [("document_id", .str "doc")])]

def accessRule : RuleIR := .bare "access" (some ⟨some [
  .condition ⟨"role", .in, .list [.str "auditor", .str "admin"], none⟩,
  .condition ⟨"level", .gte, .decimal (.lit 128 30) (.lit 8 1), none⟩], none⟩) (.result "permit")

def accessImported : RuleIR := .bare "access" (some ⟨some [
  .condition ⟨"level", .gte, .decimal (.lit 128 3) (.lit 8 0), none⟩,
  .condition ⟨"role", .in, .list [.str "admin", .str "auditor"], none⟩], none⟩) (.result "permit")

def accessFacts : Facts exactFloats.F := [("role", .str "admin"), ("level", .int (.lit 128 4))]

theorem diff_sound_access : compileRules accessYaml = .ok [accessRule] ∧
    importRules id accessJson = .ok [accessImported] ∧
    (evaluate exactFloats accessFacts accessRule).applicable =
      (evaluate exactFloats accessFacts accessImported).applicable ∧
    (evaluate exactFloats accessFacts accessRule).decision =
      (evaluate exactFloats accessFacts accessImported).decision ∧
    (evaluate exactFloats accessFacts accessRule).obligationIds =
      (evaluate exactFloats accessFacts accessImported).obligationIds := by
  obtain ⟨rules, imported, hrules, himported, h⟩ :=
    diff_sound exactFloats_parsesValue id accessYaml accessJson 1 (by decide +kernel)
  obtain rfl := Except.ok.inj (hrules.symm.trans (show compileRules accessYaml = .ok [accessRule] from rfl))
  obtain rfl := Except.ok.inj (himported.symm.trans (show importRules id accessJson = .ok [accessImported] from rfl))
  refine ⟨rfl, rfl, ((h "access").2 accessRule accessImported rfl rfl).2 accessFacts fun c hc items heq => ?_⟩
  have hmem : c ∈ checks accessRule ++ checks accessImported := by
    simpa [deciding, consultedNodes, accessRule, accessImported, RuleIR.bare, DecisionEntry.result] using hc
  simp only [checks, accessRule, accessImported, RuleIR.bare, flatten, flattenOne, isTruthy, if_true,
    flattenOne.flattenOpt, flattenOne.flattenItems, List.cons_append, List.nil_append, List.append_nil,
    List.mem_cons, List.not_mem_nil, or_false] at hmem
  rcases hmem with rfl | rfl | rfl | rfl <;> cases heq <;> simp [Whole]

end Ke.Runtime
