/-
What the compiler refuses. An accepted document keeps every condition and obligation it writes, in
a shape the IR can represent, exactly when it has no slip: the lookups that refuse a wrong shape
establish the rest of the grammar.
-/
import KeEngine.Compiler.Grammar

namespace Ke.Compiler

open Ke Wire Fields

/-! ## The steps of an accepted document -/

theorem map_eq_ok {ε α β : Type} {x : Except ε α} {f : α → β} {b : β} :
    f <$> x = .ok b ↔ ∃ a, x = .ok a ∧ f a = b := by
  cases x <;> simp [Functor.map, Except.map]

/-- Two traversals, one after the other, are one traversal of their composition. -/
theorem mapM_comp {ε α β γ : Type} {f : α → Except ε β} {g : β → Except ε γ} {as : List α} {bs : List β} {cs : List γ}
    (h : as.mapM f = .ok bs) (h' : bs.mapM g = .ok cs) : List.Forall₂ (fun a c => (f a >>= g) = .ok c) as cs := by
  rw [mapM_ok] at h h'
  induction h generalizing cs with
  | nil => cases h'; exact .nil
  | cons hab _ ih =>
    cases h' with
    | cons hbc hcs => exact .cons (bind_ok.2 ⟨_, hab, hbc⟩) (ih hcs)

theorem mapM_option_ok {ε α β : Type} {f : α → Except ε β} {o : Option α} {r : Option β} :
    o.mapM f = .ok r ↔ (o = none ∧ r = none) ∨ ∃ a b, o = some a ∧ f a = .ok b ∧ r = some b := by
  cases o with
  | none =>
    rw [Option.mapM_none, pure_ok]
    simp [eq_comm]
  | some a =>
    rw [Option.mapM_some]
    cases h : f a <;> simp [h, eq_comm, Functor.map, Except.map]

theorem reqScalar_ok {fields : Fields} {key s : String} (h : reqScalar fields key = .ok s) :
    (getScalar fields key).isSome := by
  unfold reqScalar at h
  split at h
  · rename_i hs
    rw [hs]; rfl
  · cases h

theorem nodeToValue_ok : ∀ {n : YamlNode} {v : ScalarValue}, nodeToValue n = .ok v → Operand n := by
  intro n
  induction n using YamlNode.ind with
  | hs s => intro v _; exact .scalar
  | hm fields _ => intro v h; cases h
  | hl items ih =>
    intro v h
    obtain ⟨vs, hvs, -⟩ := map_eq_ok.1 h
    refine .list ?_
    clear h
    induction items generalizing vs with
    | nil => intro x hx; cases hx
    | cons y ys ihy =>
      obtain ⟨w, hw, h⟩ := bind_ok.1 hvs
      obtain ⟨ws, hws, -⟩ := bind_ok.1 h
      intro x hx
      rcases List.mem_cons.1 hx with rfl | hx
      · exact ih x List.mem_cons_self hw
      · exact ihy (fun z hz => ih z (List.mem_cons_of_mem _ hz)) ws hws x hx

theorem parseValue_ok {fields : Fields} {key : String} {v : ScalarValue} (h : parseValue fields key = .ok v) :
    ∃ n, get fields key = some n ∧ Operand n := by
  unfold parseValue at h
  split at h
  · rename_i s hs
    exact ⟨_, getScalar_eq_some.1 hs, .scalar⟩
  · split at h
    · rename_i items hl
      refine ⟨_, getSequence_eq_some.1 hl, .list ?_⟩
      obtain ⟨vs, hvs, -⟩ := map_eq_ok.1 h
      intro x hx
      obtain ⟨w, -, hw⟩ := forall₂_mem_left (mapM_ok.1 hvs) hx
      exact nodeToValue_ok hw
    · cases h

/-- An accepted condition has its `field` and its `value`; without a slip it has the rest. -/
theorem conditionShaped_of_accepted {fields : Fields} {c : Condition} (h : compileCondition fields = .ok c)
    (hslip : ¬ ConditionSlip fields) : ConditionShaped fields := by
  obtain ⟨a, ha, -⟩ := bind_ok.1 h
  obtain ⟨f, hf, ha⟩ := bind_ok.1 ha
  obtain ⟨v, hv, -⟩ := bind_ok.1 ha
  exact {
    field := reqScalar_ok hf
    value := parseValue_ok hv
    optional := not_misfit.1 fun hm => hslip (.optional hm)
    all := fun n hn => hslip (.group (by simp) hn)
    any := fun n hn => hslip (.group (by simp) hn) }

theorem ConditionShaped.not_slip {fields : Fields} (h : ConditionShaped fields) : ¬ ConditionSlip fields := by
  rintro (hm | ⟨hkey, hn⟩)
  · exact not_misfit.2 h.optional hm
  · simp only [List.mem_cons, List.not_mem_nil, or_false] at hkey
    rcases hkey with rfl | rfl
    · exact h.all _ hn
    · exact h.any _ hn

/-! ## Groups -/

theorem parseGroup_readList {fields : Fields} {g : AstGroup} (h : parseGroup fields = .ok g) :
    ∃ items, readList fields = some items ∧ items.mapM parseItem = .ok g.items := by
  rw [parseGroup_eq] at h
  unfold readList
  cases hall : getSequence fields "all" with
  | some items =>
    rw [hall] at h
    obtain ⟨its, hits, rfl⟩ := map_eq_ok.1 h
    exact ⟨items, rfl, hits⟩
  | none =>
    cases hany : getSequence fields "any" with
    | some items =>
      rw [hall, hany] at h
      obtain ⟨its, hits, rfl⟩ := map_eq_ok.1 h
      exact ⟨items, rfl, hits⟩
    | none => rw [hall, hany] at h; cases h

/-- Each entry of the list that is read lowers to an item of the group. -/
theorem compileGroup_items {fields : Fields} {s : ConditionGroupSpec} (h : compileGroup fields = .ok s) :
    ∃ items, readList fields = some items ∧
      ∀ x ∈ items, ∃ y, compileItem x = .ok y ∧ ∀ c, y.Contains c → s.Contains c := by
  obtain ⟨g, hg, hs⟩ := bind_ok.1 h
  obtain ⟨items, hread, hits⟩ := parseGroup_readList hg
  obtain ⟨ys, hys, rfl⟩ := map_eq_ok.1 hs
  refine ⟨items, hread, fun x hx => ?_⟩
  obtain ⟨y, hy, hxy⟩ := forall₂_mem_left (mapM_comp hits hys) hx
  refine ⟨y, hxy, fun c hc => ?_⟩
  cases g.kind with
  | all => exact .all hy hc
  | any => exact .any hy hc

theorem compileItem_mapping (fields : Fields) : compileItem (.mapping fields) =
    if (getScalar fields "field").isSome then .condition <$> compileCondition fields
    else (fun s => .group s.all s.any) <$> compileGroup fields := by
  unfold compileItem
  rw [parseItem_mapping]
  split
  · unfold compileCondition
    cases parseCondition fields <;> rfl
  · unfold compileGroup
    cases parseGroup fields with
    | error e => rfl
    | ok g => exact lowerGroupItem_group g

theorem compileItem_asMapping {n : YamlNode} {y : ConditionOrGroup} (h : compileItem n = .ok y) :
    n.asMapping.isSome := by
  cases n with
  | mapping f => rfl
  | scalar s => cases h
  | sequence items => cases h

theorem compileItem_condition {m : Fields} {y : ConditionOrGroup} (h : compileItem (.mapping m) = .ok y)
    (hf : (getScalar m "field").isSome) : ∃ c, compileCondition m = .ok c ∧ y = .condition c := by
  rw [compileItem_mapping, if_pos hf] at h
  obtain ⟨c, hc, rfl⟩ := map_eq_ok.1 h
  exact ⟨c, hc, rfl⟩

theorem compileItem_group {m : Fields} {y : ConditionOrGroup} (h : compileItem (.mapping m) = .ok y)
    (hf : getScalar m "field" = none) : ∃ s, compileGroup m = .ok s ∧ y = .group s.all s.any := by
  rw [compileItem_mapping, hf] at h
  obtain ⟨s, hs, rfl⟩ := map_eq_ok.1 h
  exact ⟨s, hs, rfl⟩

/-- The list a group reads, and the other list, absent where no slip is made. -/
theorem lists_of_not_slip {fields : Fields} {items : List YamlNode} (h : readList fields = some items)
    (hslip : ¬ GroupSlip fields) : get fields "all" = some (.sequence items) ∧ Lacks fields "any" ∨
      get fields "any" = some (.sequence items) ∧ Lacks fields "all" := by
  unfold readList at h
  split at h
  · rename_i hall
    cases h
    exact .inl ⟨getSequence_eq_some.1 hall, fun n hn => hslip (.both hall hn)⟩
  · rename_i hall
    exact .inr ⟨getSequence_eq_some.1 h, fun n hn => hslip (.notList hall hn)⟩

theorem get_of_readList {fields : Fields} {items : List YamlNode} (h : readList fields = some items) :
    ∃ key, get fields key = some (.sequence items) := by
  unfold readList at h
  split at h
  · rename_i hall
    cases h
    exact ⟨_, getSequence_eq_some.1 hall⟩
  · exact ⟨_, getSequence_eq_some.1 h⟩

theorem readList_of_lists {fields : Fields} {items : List YamlNode}
    (h : get fields "all" = some (.sequence items) ∧ Lacks fields "any" ∨
      get fields "any" = some (.sequence items) ∧ Lacks fields "all") : readList fields = some items := by
  unfold readList
  rcases h with ⟨hall, -⟩ | ⟨hany, hall⟩
  · rw [getSequence_eq_some.2 hall]
  · cases hs : getSequence fields "all" with
    | some items' => exact absurd ⟨getSequence_eq_some.1 hs, rfl⟩ (hall _)
    | none => exact getSequence_eq_some.2 hany

/-- An accepted group without a slip is of the grammar: its entries were checked one by one. -/
theorem groupShaped_of_accepted (fields : Fields) : ∀ {s : ConditionGroupSpec}, compileGroup fields = .ok s →
    ¬ GroupSlip fields → GroupShaped fields := by
  induction fields using Fields.ind with
  | h fields ih _ =>
    intro s hs hslip
    obtain ⟨items, hread, hitems⟩ := compileGroup_items hs
    obtain ⟨key, hget⟩ := get_of_readList hread
    refine .mk (lists_of_not_slip hread hslip) (fun n hn => hslip (.field hn)) (fun x hx => ?_) (fun m hm hf => ?_)
      (fun m hm hf => ?_)
    · obtain ⟨y, hy, -⟩ := hitems x hx
      exact compileItem_asMapping hy
    · obtain ⟨y, hy, -⟩ := hitems _ hm
      obtain ⟨c, hc, -⟩ := compileItem_condition hy hf
      exact conditionShaped_of_accepted hc fun h => hslip (.condition hread hm hf h)
    · obtain ⟨y, hy, -⟩ := hitems _ hm
      obtain ⟨s', hs', -⟩ := compileItem_group hy hf
      exact ih key items m hget hm hs' fun h => hslip (.group hread hm hf h)

theorem GroupShaped.not_slip {fields : Fields} (h : GroupShaped fields) : ¬ GroupSlip fields := by
  induction h with
  | mk lists field entries conditions groups ih =>
    have hread := readList_of_lists lists
    intro hslip
    cases hslip with
    | both hall hany =>
      rcases lists with ⟨-, hlack⟩ | ⟨-, hlack⟩
      · exact hlack _ hany
      · exact hlack _ ⟨getSequence_eq_some.1 hall, rfl⟩
    | notList hall hn =>
      rcases lists with ⟨hget, -⟩ | ⟨-, hlack⟩
      · rw [getSequence_eq_some.2 hget] at hall
        cases hall
      · exact hlack _ hn
    | field hn => exact field _ hn
    | condition hread' hm hf hc =>
      obtain rfl := Option.some.inj (hread.symm.trans hread')
      exact (conditions _ hm hf).not_slip hc
    | group hread' hm hf hg =>
      obtain rfl := Option.some.inj (hread.symm.trans hread')
      exact ih _ hm hf hg

/-- Nothing is written under a key without a value. -/
theorem not_writtenIn_of_lacks {m c : Fields} {key : String} {n : YamlNode} (hl : Lacks m key)
    (hget : get m key = some n) (hw : WrittenIn c n) : False := by
  cases hw with
  | here _ => exact hl _ ⟨hget, rfl⟩
  | item _ _ => exact hl _ ⟨hget, rfl⟩
  | under _ _ _ => exact hl _ ⟨hget, rfl⟩

/-- A condition of the grammar has no other condition written in it. -/
theorem ConditionShaped.writtenIn_eq {m c : Fields} (h : ConditionShaped m)
    (hw : WrittenIn c (.mapping m)) : c = m := by
  cases hw with
  | here _ => rfl
  | under hkey hget hw =>
    simp only [List.mem_cons, List.not_mem_nil, or_false] at hkey
    rcases hkey with rfl | rfl
    · exact (not_writtenIn_of_lacks h.all hget hw).elim
    · exact (not_writtenIn_of_lacks h.any hget hw).elim

/-- Every condition written in a group of the grammar occurs in what the group lowers to. -/
theorem GroupShaped.contains {fields : Fields} (h : GroupShaped fields) : ∀ {s : ConditionGroupSpec} {c : Fields},
    compileGroup fields = .ok s → WrittenIn c (.mapping fields) → ∃ c', compileCondition c = .ok c' ∧
    s.Contains c' := by
  induction h with
  | @mk fields items lists field entries conditions groups ih =>
    intro s c hs hw
    obtain ⟨items', hread, hitems⟩ := compileGroup_items hs
    obtain rfl := Option.some.inj ((readList_of_lists lists).symm.trans hread)
    have hlist : WrittenIn c (.sequence items) := by
      cases hw with
      | here hf => exact (field _ hf).elim
      | under hkey hget hw =>
        simp only [List.mem_cons, List.not_mem_nil, or_false] at hkey
        rcases lists with ⟨hget', hlack⟩ | ⟨hget', hlack⟩ <;> rcases hkey with rfl | rfl
        · exact Option.some.inj (hget.symm.trans hget') ▸ hw
        · exact (not_writtenIn_of_lacks hlack hget hw).elim
        · exact (not_writtenIn_of_lacks hlack hget hw).elim
        · exact Option.some.inj (hget.symm.trans hget') ▸ hw
    cases hlist with
    | @item _ x hx hw =>
      obtain ⟨m, hm⟩ := Option.isSome_iff_exists.1 (entries x hx)
      obtain rfl := YamlNode.asMapping_eq_some.1 hm
      obtain ⟨y, hy, hsub⟩ := hitems _ hx
      cases hf : getScalar m "field" with
      | some t =>
        have hfield : (getScalar m "field").isSome := by rw [hf]; rfl
        obtain rfl := (conditions m hx hfield).writtenIn_eq hw
        obtain ⟨c', hc', rfl⟩ := compileItem_condition hy hfield
        exact ⟨c', hc', hsub c' .here⟩
      | none =>
        obtain ⟨s', hs', rfl⟩ := compileItem_group hy hf
        obtain ⟨c', hc', hin⟩ := ih m hx hf hs' hw
        exact ⟨c', hc', hsub c' hin⟩

/-! ## Obligations -/

theorem compileObligation_ok {e : YamlNode} {o : ObligationSpec} (h : compileObligation e = .ok o) :
    ∃ m, e = .mapping m ∧ (getScalar m "id").isSome := by
  obtain ⟨a, ha, -⟩ := map_eq_ok.1 h
  unfold parseObligation at ha
  split at ha
  · rename_i m hm
    obtain ⟨id, hid, -⟩ := bind_ok.1 ha
    exact ⟨m, YamlNode.asMapping_eq_some.1 hm, reqScalar_ok hid⟩
  · cases ha

/-- The obligations of an accepted list are those of its entries, one for one. -/
theorem obligationsAt_ok {fields : Fields} {os : List AstObligation} (h : obligationsAt fields = .ok os) :
    List.Forall₂ (fun e o => compileObligation e = .ok o) ((getSequence fields "obligations").getD [])
      (os.map lowerObligation) := by
  rw [List.forall₂_map_right_iff]
  refine (mapM_ok.1 h).imp fun e o ho => ?_
  unfold compileObligation
  rw [ho]; rfl

/-- The entries of an accepted list have their `id`; without a slip they have the rest. -/
theorem entriesShaped_of_accepted {fields : Fields} {os : List ObligationSpec}
    (h : List.Forall₂ (fun e o => compileObligation e = .ok o) ((getSequence fields "obligations").getD []) os)
    (hslip : ¬ EntrySlip fields) : EntriesShaped fields := by
  intro x hx
  obtain ⟨o, -, ho⟩ := forall₂_mem_left h hx
  obtain ⟨m, rfl, hid⟩ := compileObligation_ok ho
  exact ⟨m, rfl, hid, not_misfit.1 fun hm => hslip ⟨m, hx, hm⟩⟩

theorem EntriesShaped.not_slip {fields : Fields} (h : EntriesShaped fields) : ¬ EntrySlip fields := by
  rintro ⟨m, hm, hmis⟩
  obtain ⟨m', heq, -, hfit⟩ := h _ hm
  obtain rfl := YamlNode.mapping.inj heq
  exact not_misfit.2 hfit hmis

/-! ## Decisions -/

/-- An accepted leaf: its obligations are those of its entries. -/
theorem compileDecision_leaf {fields : Fields} {t : DecisionEntry} (h : compileDecision fields = .ok t)
    (hr : (getScalar fields "result").isSome) : ∃ l os, t = .leaf l ∧
      List.Forall₂ (fun e o => compileObligation e = .ok o) ((getSequence fields "obligations").getD []) os ∧
      ∀ o, t.Imposes o ↔ o ∈ os := by
  obtain ⟨d, hd, ht⟩ := bind_ok.1 h
  rw [parseDecision, decisionOf, if_pos hr] at hd
  obtain ⟨leaf, hleaf, rfl⟩ := map_eq_ok.1 hd
  obtain ⟨res, -, hleaf⟩ := bind_ok.1 hleaf
  obtain ⟨os, hos, hleaf⟩ := bind_ok.1 hleaf
  obtain rfl := pure_ok.1 hleaf
  cases ht
  refine ⟨_, os.map lowerObligation, rfl, obligationsAt_ok hos, fun o => ?_⟩
  constructor
  · rintro (⟨hsome, ho⟩)
    simp only [lowerLeaf] at hsome
    split at hsome
    · cases hsome
    · cases hsome
      exact ho
  · intro ho
    refine .leaf ?_ ho
    simp only [lowerLeaf]
    rw [if_neg]
    intro hempty
    rw [List.isEmpty_iff.1 hempty] at ho
    cases ho

/-- An accepted node has its condition and both branches, and they are accepted. -/
theorem compileDecision_node {fields : Fields} {t : DecisionEntry} (h : compileDecision fields = .ok t)
    (hr : getScalar fields "result" = none) : ∃ c b b' c' t' f' nodeId span,
      getMapping fields "condition" = some c ∧ getMapping fields "true_branch" = some b ∧
      getMapping fields "false_branch" = some b' ∧ compileCondition c = .ok c' ∧ compileDecision b = .ok t' ∧
      compileDecision b' = .ok f' ∧ t = .node nodeId c' t' f' span := by
  obtain ⟨d, hd, ht⟩ := bind_ok.1 h
  rw [parseDecision, decisionOf, hr] at hd
  obtain ⟨oc, hoc, hd⟩ := bind_ok.1 hd
  obtain ⟨ot, hot, hd⟩ := bind_ok.1 hd
  obtain ⟨of, hof, hd⟩ := bind_ok.1 hd
  obtain rfl := pure_ok.1 hd
  rw [parseBranch_eq] at hot hof
  rcases mapM_option_ok.1 hoc with ⟨-, rfl⟩ | ⟨c, a, hc, ha, rfl⟩
  · cases ht
  rcases mapM_option_ok.1 hot with ⟨-, rfl⟩ | ⟨b, at_, hb, hat, rfl⟩
  · cases ht
  rcases mapM_option_ok.1 hof with ⟨-, rfl⟩ | ⟨b', af, hb', haf, rfl⟩
  · cases ht
  obtain ⟨c', hc', ht⟩ := bind_ok.1 ht
  obtain ⟨t', ht', ht⟩ := bind_ok.1 ht
  obtain ⟨f', hf', ht⟩ := bind_ok.1 ht
  obtain rfl := pure_ok.1 ht
  exact ⟨c, b, b', c', t', f', _, _, hc, hb, hb', bind_ok.2 ⟨a, ha, hc'⟩, bind_ok.2 ⟨at_, hat, ht'⟩,
    bind_ok.2 ⟨af, haf, hf'⟩, rfl⟩

/-- Every entry at a leaf of an accepted decision is imposed. -/
theorem leafEntry_imposed (fields : Fields) : ∀ {t : DecisionEntry} {e : YamlNode}, compileDecision fields = .ok t →
    LeafEntry e fields → ∃ o, compileObligation e = .ok o ∧ t.Imposes o := by
  induction fields using Fields.ind with
  | h fields _ ih =>
    intro t e ht he
    cases he with
    | leaf hres hseq he =>
      obtain ⟨l, os, -, hos, himp⟩ := compileDecision_leaf ht hres
      rw [hseq] at hos
      obtain ⟨o, ho, heo⟩ := forall₂_mem_left hos he
      exact ⟨o, heo, (himp o).2 ho⟩
    | branch hr hkey hget he =>
      obtain ⟨c, b, b', c', t', f', nodeId, span, -, hb, hb', -, ht', hf', rfl⟩ := compileDecision_node ht hr
      simp only [List.mem_cons, List.not_mem_nil, or_false] at hkey
      rcases hkey with rfl | rfl
      · obtain rfl := Option.some.inj (hb.symm.trans hget)
        obtain ⟨o, heo, ho⟩ := ih _ b (getMapping_eq_some.1 hb) ht' he
        exact ⟨o, heo, .trueBranch ho⟩
      · obtain rfl := Option.some.inj (hb'.symm.trans hget)
        obtain ⟨o, heo, ho⟩ := ih _ b' (getMapping_eq_some.1 hb') hf' he
        exact ⟨o, heo, .falseBranch ho⟩

/-- Whatever an accepted decision imposes is an entry at one of its leaves. -/
theorem leafEntry_of_imposes (fields : Fields) :
    ∀ {t : DecisionEntry} {o : ObligationSpec}, compileDecision fields = .ok t →
    t.Imposes o → ∃ e, LeafEntry e fields ∧ compileObligation e = .ok o := by
  induction fields using Fields.ind with
  | h fields _ ih =>
    intro t o ht ho
    cases hr : getScalar fields "result" with
    | some s =>
      have hres : (getScalar fields "result").isSome := by rw [hr]; rfl
      obtain ⟨l, os, -, hos, himp⟩ := compileDecision_leaf ht hres
      obtain ⟨e, he, heo⟩ := forall₂_mem_right hos ((himp o).1 ho)
      cases hseq : getSequence fields "obligations" with
      | none => rw [hseq] at he; cases he
      | some items =>
        rw [hseq] at he
        exact ⟨e, .leaf hres hseq he, heo⟩
    | none =>
      obtain ⟨c, b, b', c', t', f', nodeId, span, -, hb, hb', -, ht', hf', rfl⟩ := compileDecision_node ht hr
      cases ho with
      | trueBranch ho =>
        obtain ⟨e, he, heo⟩ := ih _ b (getMapping_eq_some.1 hb) ht' ho
        exact ⟨e, .branch hr (by simp) hb he, heo⟩
      | falseBranch ho =>
        obtain ⟨e, he, heo⟩ := ih _ b' (getMapping_eq_some.1 hb') hf' ho
        exact ⟨e, .branch hr (by simp) hb' he, heo⟩

theorem decisionShaped_of_accepted (fields : Fields) : ∀ {t : DecisionEntry}, compileDecision fields = .ok t →
    ¬ DecisionSlip fields → DecisionShaped fields := by
  induction fields using Fields.ind with
  | h fields _ ih =>
    intro t ht hslip
    cases hr : getScalar fields "result" with
    | some s =>
      have hres : (getScalar fields "result").isSome := by rw [hr]; rfl
      obtain ⟨l, os, -, hos, -⟩ := compileDecision_leaf ht hres
      exact .leaf hres (not_misfit.1 fun h => hslip (.leaf hres h))
        (entriesShaped_of_accepted hos fun h => hslip (.entry hres h))
        fun key hkey n hn => hslip (.leafNode hres hkey hn)
    | none =>
      obtain ⟨c, b, b', c', t', f', nodeId, span, hc, hb, hb', hc', ht', hf', -⟩ := compileDecision_node ht hr
      have hnone : get fields "result" = none := by
        cases hget : get fields "result" with
        | none => rfl
        | some n => exact (hslip (.result hr hget)).elim
      exact .node hnone (not_misfit.1 fun h => hslip (.node hr h)) hc hb hb'
        (conditionShaped_of_accepted hc' fun h => hslip (.condition hr hc h))
        (ih _ b (getMapping_eq_some.1 hb) ht' fun h => hslip (.branch hr (by simp) hb h))
        (ih _ b' (getMapping_eq_some.1 hb') hf' fun h => hslip (.branch hr (by simp) hb' h))

theorem getScalar_of_get_none {fields : Fields} {key : String} (h : get fields key = none) :
    getScalar fields key = none := by
  unfold getScalar
  rw [h]; rfl

theorem DecisionShaped.not_slip {fields : Fields} (h : DecisionShaped fields) : ¬ DecisionSlip fields := by
  induction h with
  | leaf result optional entries branches =>
    intro hslip
    cases hslip with
    | leaf _ hm => exact not_misfit.2 optional hm
    | entry _ he => exact entries.not_slip he
    | leafNode _ hkey hn => exact branches _ hkey _ hn
    | result hr _ | node hr _ | condition hr _ _ | branch hr _ _ _ => rw [hr] at result; cases result
  | node result optional condition trueBranch falseBranch hc _ _ iht ihf =>
    have hr := getScalar_of_get_none result
    intro hslip
    cases hslip with
    | leaf hres _ | entry hres _ | leafNode hres _ _ => rw [hr] at hres; cases hres
    | result _ hget => rw [result] at hget; cases hget
    | node _ hm => exact not_misfit.2 optional hm
    | condition _ hget hs =>
      obtain rfl := Option.some.inj (condition.symm.trans hget)
      exact hc.not_slip hs
    | branch _ hkey hget hs =>
      simp only [List.mem_cons, List.not_mem_nil, or_false] at hkey
      rcases hkey with rfl | rfl
      · obtain rfl := Option.some.inj (trueBranch.symm.trans hget)
        exact iht hs
      · obtain rfl := Option.some.inj (falseBranch.symm.trans hget)
        exact ihf hs

/-! ## Rules -/

/-- What `parseRule` and `lowerRule` have checked of an accepted document. -/
theorem compileRule_ok {fields : Fields} {rule : RuleIR} (h : compileRule fields = .ok rule) :
    (getScalar fields "rule_id").isSome ∧
      (getMapping fields "applies_if").mapM compileGroup = .ok rule.appliesIf ∧
      (∃ m, getMapping fields "decision_tree" = some m ∧ compileDecision m = .ok rule.decisionTree) ∧
      (∃ m, getMapping fields "source" = some m ∧ (getScalar m "document_id").isSome) ∧
      List.Forall₂ (fun e o => compileObligation e = .ok o) ((getSequence fields "obligations").getD [])
      rule.obligations := by
  obtain ⟨ast, hast, hrule⟩ := bind_ok.1 h
  obtain ⟨ruleId, hid, hast⟩ := bind_ok.1 hast
  obtain ⟨dm, hdm, hast⟩ := bind_ok.1 hast
  obtain ⟨d, hd, hast⟩ := bind_ok.1 hast
  obtain ⟨sm, hsm, hast⟩ := bind_ok.1 hast
  obtain ⟨src, hsrc, hast⟩ := bind_ok.1 hast
  obtain ⟨og, hog, hast⟩ := bind_ok.1 hast
  obtain ⟨os, hos, hast⟩ := bind_ok.1 hast
  obtain rfl := pure_ok.1 hast
  obtain ⟨os', hos', hrule⟩ := bind_ok.1 hrule
  obtain ⟨t, ht, hrule⟩ := bind_ok.1 hrule
  obtain ⟨w, -, hrule⟩ := bind_ok.1 hrule
  obtain rfl := pure_ok.1 hrule
  refine ⟨reqScalar_ok hid, ?_, ⟨dm, ?_, bind_ok.2 ⟨d, hd, ht⟩⟩, ⟨sm, ?_, ?_⟩, obligationsAt_ok hos⟩
  · rw [mapM_option_ok]
    rcases mapM_option_ok.1 hog with ⟨hnone, rfl⟩ | ⟨m, g, hm, hg, rfl⟩
    · exact .inl ⟨hnone, (pure_ok.1 hos').symm⟩
    · rcases mapM_option_ok.1 hos' with ⟨hn, -⟩ | ⟨g', s, hg', hs, rfl⟩
      · cases hn
      · cases hg'
        exact .inr ⟨m, s, hm, bind_ok.2 ⟨g, hg, hs⟩, rfl⟩
  · unfold reqMapping at hdm
    split at hdm
    · rename_i hm; cases hdm; exact hm
    · cases hdm
  · unfold reqMapping at hsm
    split at hsm
    · rename_i hm; cases hsm; exact hm
    · cases hsm
  · obtain ⟨id, hid, -⟩ := bind_ok.1 hsrc
    unfold optScalar at hid
    cases hs : getScalar sm "document_id" with
    | some s => rfl
    | none => rw [hs] at hid; cases hid

/-- Every entry of an accepted rule and of its leaves is imposed. -/
theorem ruleEntry_imposed {fields : Fields} {rule : RuleIR} (h : compileRule fields = .ok rule) {e : YamlNode}
    (he : RuleEntry fields e) : ∃ o, compileObligation e = .ok o ∧ rule.Imposes o := by
  obtain ⟨-, -, ⟨dm, hdm, hd⟩, -, hos⟩ := compileRule_ok h
  rcases he with he | ⟨m, hm, he⟩
  · obtain ⟨o, ho, heo⟩ := forall₂_mem_left hos he
    exact ⟨o, heo, .inl ho⟩
  · obtain rfl := Option.some.inj (hdm.symm.trans hm)
    obtain ⟨o, heo, ho⟩ := leafEntry_imposed dm hd he
    exact ⟨o, heo, .inr ho⟩

/-- Whatever an accepted rule imposes is an entry of the rule or of one of its leaves. -/
theorem ruleEntry_of_imposes {fields : Fields} {rule : RuleIR} (h : compileRule fields = .ok rule) {o : ObligationSpec}
    (ho : rule.Imposes o) : ∃ e, RuleEntry fields e ∧ compileObligation e = .ok o := by
  obtain ⟨-, -, ⟨dm, hdm, hd⟩, -, hos⟩ := compileRule_ok h
  rcases ho with ho | ho
  · obtain ⟨e, he, heo⟩ := forall₂_mem_right hos ho
    exact ⟨e, .inl he, heo⟩
  · obtain ⟨e, he, heo⟩ := leafEntry_of_imposes dm hd ho
    exact ⟨e, .inr ⟨dm, hdm, he⟩, heo⟩

theorem ruleShaped_of_accepted {fields : Fields} {rule : RuleIR} (h : compileRule fields = .ok rule)
    (hslip : ¬ Slip fields) : RuleShaped fields := by
  obtain ⟨hid, happ, ⟨dm, hdm, hd⟩, ⟨sm, hsm, hdoc⟩, hos⟩ := compileRule_ok h
  exact {
    ruleId := hid
    optional := not_misfit.1 fun hm => hslip (.rule hm)
    appliesIf := by
      intro m hm
      rcases mapM_option_ok.1 happ with ⟨hnone, -⟩ | ⟨m', s, hm', hs, -⟩
      · rw [hm] at hnone; cases hnone
      · obtain rfl := Option.some.inj (hm.symm.trans hm')
        exact groupShaped_of_accepted m hs fun hg => hslip (.appliesIf hm hg)
    decisionTree := ⟨dm, hdm, decisionShaped_of_accepted dm hd fun hg => hslip (.decisionTree hdm hg)⟩
    source := ⟨sm, hsm, hdoc, not_misfit.1 fun hm => hslip (.source hsm hm)⟩
    entries := entriesShaped_of_accepted hos fun he => hslip (.entry he)
    obligations := by
      intro n hn hnull
      cases hseq : n.asSequence with
      | some items => rfl
      | none => exact (hslip (.notList hn hnull hseq)).elim }

theorem RuleShaped.appliesIf_mapping {fields : Fields} (h : RuleShaped fields) {n : YamlNode}
    (hn : Has fields "applies_if" n) :
    ∃ m, n = .mapping m := by
  have hfit : n.asMapping.isSome := h.optional _ .mapping (by simp [ruleKeys]) n hn
  obtain ⟨m, hm⟩ := Option.isSome_iff_exists.1 hfit
  exact ⟨m, YamlNode.asMapping_eq_some.1 hm⟩

/-- An accepted document loses nothing exactly when it has no slip. -/
theorem failClosed_iff_not_slip {fields : Fields} {rule : RuleIR} (h : compileRule fields = .ok rule) :
    FailClosed fields rule ↔ ¬ Slip fields := by
  constructor
  · intro hf hslip
    cases hslip with
    | rule hm => exact not_misfit.2 hf.shape.optional hm
    | entry he => exact hf.shape.entries.not_slip he
    | appliesIf hm hg => exact (hf.shape.appliesIf _ hm).not_slip hg
    | decisionTree hm hg =>
      obtain ⟨m', hm', hd⟩ := hf.shape.decisionTree
      obtain rfl := Option.some.inj (hm.symm.trans hm')
      exact hd.not_slip hg
    | source hm hmis =>
      obtain ⟨m', hm', hs⟩ := hf.shape.source
      obtain rfl := Option.some.inj (hm.symm.trans hm')
      exact not_misfit.2 hs.optional hmis
    | notList hn hnull hseq =>
      have hlist := hf.shape.obligations _ hn hnull
      rw [hseq] at hlist
      cases hlist
    | stray hn he hstray =>
      obtain ⟨o, ho, himp⟩ := hf.obligations _ hn _ he
      obtain ⟨e', he', heo'⟩ := ruleEntry_of_imposes h himp
      exact hstray e' he' (heo'.trans ho.symm)
  · intro hslip
    have hshape := ruleShaped_of_accepted h hslip
    refine ⟨fun n hn => ?_, fun items hn e he => ?_, hshape⟩
    · obtain ⟨m, rfl⟩ := hshape.appliesIf_mapping hn
      have hm := getMapping_eq_some.2 hn.1
      obtain ⟨-, happ, -⟩ := compileRule_ok h
      rcases mapM_option_ok.1 happ with ⟨hnone, -⟩ | ⟨m', s, hm', hs, hsome⟩
      · rw [hm] at hnone; cases hnone
      · obtain rfl := Option.some.inj (hm.symm.trans hm')
        exact ⟨s, hsome, fun c hw => (hshape.appliesIf _ hm).contains hs hw⟩
    · by_contra hno
      refine hslip (.stray hn he fun e' he' heq => hno ?_)
      obtain ⟨o, heo, ho⟩ := ruleEntry_imposed h he'
      exact ⟨o, heq ▸ heo, ho⟩

/-! ## A document with its scope written as a list -/

/-- A document whose scope is the given node. -/
def scopedDocument (appliesIf : YamlNode) : Fields :=
  [("rule_id", .plain "r"), ("applies_if", appliesIf),
    ("decision_tree", .mapping [("result", .plain "permit"),
      ("obligations", .sequence [.mapping [("id", .plain "report")]])]),
    ("source", .mapping [("document_id", .plain "doc")])]

/-- `field: jurisdiction`, `value: EU` -/
def inEu : YamlNode := .mapping [("field", .plain "jurisdiction"), ("value", .plain "EU")]

/-- The rule that `scopedDocument` compiles to with the given scope. -/
def scopedRule (appliesIf : Option ConditionGroupSpec) : RuleIR :=
  .bare "r" appliesIf (.leaf ⟨"permit", some [⟨"report", none, none, none⟩], none, none⟩)

theorem failClosed_iff_not_slip_inEu :
    FailClosed (scopedDocument (.mapping [("all", .sequence [inEu])])) (scopedRule (some ⟨some [.condition
      ⟨"jurisdiction", .eq, .str "EU", none⟩], none⟩)) ↔
        ¬ Slip (scopedDocument (.mapping [("all", .sequence [inEu])])) :=
  failClosed_iff_not_slip rfl

/-- `applies_if: [{field: jurisdiction, value: EU}]` is accepted, and the rule applies to everyone. -/
theorem list_scope_is_dropped : ∃ fields rule, compileRule fields = .ok rule ∧ (∃ n, Has fields "applies_if" n) ∧
    rule.appliesIf = none ∧ ¬ FailClosed fields rule := by
  refine ⟨scopedDocument (.sequence [inEu]), scopedRule none, rfl, ⟨_, rfl, rfl⟩, rfl, fun h => ?_⟩
  obtain ⟨spec, hspec, -⟩ := h.scope (.sequence [inEu]) ⟨rfl, rfl⟩
  cases hspec

end Ke.Compiler
