/-
Laws of the semantic normal form. It does not change under canonicalisation: a decimal that folds
without overflow has one normal form before and after, the rest is mapped member by member and the
tags are the same set.
-/
import KeEngine.Core.Semantic

namespace Ke

open Wire

/-! ## Decimals -/

theorem foldSaturating_of_foldNegative :
    ∀ {k : Nat} {m m' : I128}, foldNegative k m = some m' → foldSaturating k m = m'
  | 0, m, m', h => by cases h; rfl
  | k + 1, m, m', h => by
    obtain ⟨m₁, h1, h2⟩ := Option.bind_eq_some_iff.1 h
    simp only [foldSaturating, saturatingTen, h1]
    exact foldSaturating_of_foldNegative h2

/-- Where folding does not overflow, the two normalisations of a decimal are one. -/
theorem normDecimal_of_normalize {m m' : I128} {s s' : I8} (h : normalizeDecimal m s = .ok (m', s')) :
    normDecimal m s = (m', s') := by
  unfold normalizeDecimal at h
  split at h
  · cases h
  · rename_i m₁ hfold
    simp only [normDecimal, foldSaturating_of_foldNegative hfold]
    simp only at h
    split at h
    · rename_i h0
      cases h
      rw [if_pos h0]
    · rename_i h0
      cases h
      rw [if_neg h0]

/-- A canonical decimal is its own normal form. -/
theorem normDecimal_canonical {m : I128} {s : I8} (h : checkDecimalCanonical m s = .ok ()) :
    normDecimal m s = (m, s) := by
  unfold checkDecimalCanonical at h
  split at h
  · rename_i hc
    obtain ⟨hpos, hzeros, hzero⟩ := hc
    have hfold : (-s.val).toNat = 0 := by omega
    have hstrip : stripZeros s.val.toNat m = (m, s.val.toNat) :=
      stripZeros_of_stripped fun hm => hzeros ⟨by omega, hm.2⟩
    simp only [normDecimal, hfold, foldSaturating, hstrip]
    split
    · rename_i h0
      have hs : s.val = 0 := by
        by_contra hne
        exact hzero ⟨h0, hne⟩
      rw [Prod.mk.injEq]
      exact ⟨rfl, SInt.ext hs.symm⟩
    · rw [Prod.mk.injEq]
      exact ⟨rfl, SInt.ext (by rw [stripScale_val, hstrip]; omega)⟩
  · cases h

/-! ## Normal forms survive canonicalisation -/

variable {isNfc : String → Bool}

theorem semValues_canonical {items : List ScalarValue} :
    ∀ {out : List ScalarValue}, (∀ v ∈ items, ∀ v', canonicalizeScalar isNfc v = .ok v' → semValue v' = semValue v) →
      canonicalizeScalar.scalars isNfc items = .ok out → semValue.semValues out = semValue.semValues items := by
  induction items with
  | nil => rintro out - h; cases h; rfl
  | cons v vs ih =>
    intro out hv h
    obtain ⟨v', h1, h⟩ := bind_ok.1 h
    obtain ⟨vs', h2, h⟩ := bind_ok.1 h
    obtain rfl := pure_ok.1 h
    simp only [semValue.semValues, hv v (List.mem_cons_self ..) v' h1,
      ih (fun x hx => hv x (List.mem_cons_of_mem _ hx)) h2]

theorem semValue_canonical (v : ScalarValue) :
    ∀ v', canonicalizeScalar isNfc v = .ok v' → semValue v' = semValue v := by
  induction v using ScalarValue.ind with
  | hs s =>
    intro v' h
    obtain ⟨-, h⟩ := then_ok.1 h
    obtain rfl := pure_ok.1 h
    rfl
  | hb b => intro v' h; cases h; rfl
  | hd m s =>
    intro v' h
    obtain ⟨⟨m', s'⟩, h1, h⟩ := bind_ok.1 h
    obtain rfl := pure_ok.1 h
    simp only [semValue, normDecimal_of_normalize h1, normDecimal_canonical (normalizeDecimal_canonical h1)]
  | hl items ih =>
    intro v' h
    obtain ⟨out, h1, h⟩ := bind_ok.1 h
    obtain rfl := pure_ok.1 h
    simp only [semValue, semValues_canonical ih h1]

theorem semCond_canonical {c c' : Condition} (h : canonicalizeCondition isNfc c = .ok c') : semCond c' = semCond c := by
  obtain ⟨-, h⟩ := then_ok.1 h
  obtain ⟨-, h⟩ := then_ok.1 h
  obtain ⟨v, hv, h⟩ := bind_ok.1 h
  obtain rfl := pure_ok.1 h
  simp only [semCond, semValue_canonical c.value v hv]

theorem semItems_canonical {items : List ConditionOrGroup} :
    ∀ {out : List ConditionOrGroup},
      (∀ x ∈ items, ∀ x', canonicalizeCondOrGroup isNfc x = .ok x' → semItem x' = semItem x) →
      canonicalizeCondOrGroup.condItems isNfc items = .ok out → semItem.semItems out = semItem.semItems items := by
  induction items with
  | nil => rintro out - h; cases h; rfl
  | cons x xs ih =>
    intro out hx h
    obtain ⟨x', h1, h⟩ := bind_ok.1 h
    obtain ⟨xs', h2, h⟩ := bind_ok.1 h
    obtain rfl := pure_ok.1 h
    simp only [semItem.semItems, hx x (List.mem_cons_self ..) x' h1,
      ih (fun y hy => hx y (List.mem_cons_of_mem _ hy)) h2]

/-- A canonical optional list is present exactly when the list was. -/
theorem optItems_canonical {o o' : Option (List ConditionOrGroup)}
    (h : canonicalizeCondOrGroup.optItems isNfc o = .ok o') :
    (o = none ∧ o' = none) ∨
      ∃ items out, o = some items ∧ o' = some out ∧ canonicalizeCondOrGroup.condItems isNfc items = .ok out := by
  cases o with
  | none => exact .inl ⟨rfl, (pure_ok.1 h).symm⟩
  | some items =>
    obtain ⟨out, h1, h⟩ := bind_ok.1 h
    exact .inr ⟨items, out, rfl, (pure_ok.1 h).symm, h1⟩

theorem semItem_canonical (x : ConditionOrGroup) :
    ∀ x', canonicalizeCondOrGroup isNfc x = .ok x' → semItem x' = semItem x := by
  induction x using ConditionOrGroup.ind with
  | hc c =>
    intro x' h
    obtain ⟨c', h1, h⟩ := bind_ok.1 h
    obtain rfl := pure_ok.1 h
    simp only [semItem, semCond_canonical h1]
  | hg all any iha ihb =>
    intro x' h
    obtain ⟨all', h1, h⟩ := bind_ok.1 h
    obtain ⟨any', h2, h⟩ := bind_ok.1 h
    obtain rfl := pure_ok.1 h
    rcases optItems_canonical h1 with ⟨rfl, rfl⟩ | ⟨items, out, rfl, rfl, h3⟩
    · rcases optItems_canonical h2 with ⟨rfl, rfl⟩ | ⟨items, out, rfl, rfl, h3⟩
      · rfl
      · simp only [semItem, semItems_canonical (ihb items rfl) h3]
    · simp only [semItem, semItems_canonical (iha items rfl) h3]

theorem collectPaths_canonical :
    ∀ {e e' : DecisionEntry} {acc : List SemBranch}, canonicalizeEntry isNfc e = .ok e' →
      collectPaths acc e' = collectPaths acc e
  | .leaf _, e', acc, h => by
    obtain ⟨-, h⟩ := then_ok.1 h
    obtain rfl := pure_ok.1 h
    rfl
  | .node _ _ _ _ _, e', acc, h => by
    obtain ⟨-, h⟩ := then_ok.1 h
    obtain ⟨c', h1, h⟩ := bind_ok.1 h
    obtain ⟨t', h2, h⟩ := bind_ok.1 h
    obtain ⟨f', h3, h⟩ := bind_ok.1 h
    obtain ⟨-, h⟩ := then_ok.1 h
    obtain rfl := pure_ok.1 h
    simp only [collectPaths, semCond_canonical h1, collectPaths_canonical h2, collectPaths_canonical h3]

theorem compare_le (a b : String) : compare a b ≠ .gt ↔ a ≤ b := by
  rw [ne_eq, compare_gt_iff_gt, not_lt]

theorem pairwise_sortBy (l : List String) : (sortBy compare l).Pairwise (· ≤ ·) := by
  have : Std.Total fun a b : String => compare a b ≠ .gt := ⟨fun a b => by
    rw [compare_le, compare_le]
    exact le_total a b⟩
  have : IsTrans String fun a b => compare a b ≠ .gt := ⟨fun a b c hab hbc => by
    rw [compare_le] at hab hbc ⊢
    exact hab.trans hbc⟩
  exact (List.pairwise_insertionSort (fun a b => compare a b ≠ .gt) l).imp fun hab => (compare_le _ _).1 hab

/-- Sorting forgets the order of a collection of texts. -/
theorem sortBy_perm {l l' : List String} (h : l.Perm l') : sortBy compare l = sortBy compare l' := by
  refine List.Perm.eq_of_pairwise (fun a b _ _ hab hba => le_antisymm hab hba) (pairwise_sortBy l)
    (pairwise_sortBy l') ?_
  exact ((perm_sortBy compare l).trans h).trans (perm_sortBy compare l').symm

/-- Of sorted texts, neighbours that differ are in strict order. -/
theorem isChain_lt : ∀ {l : List String}, l.Pairwise (· ≤ ·) → l.IsChain (· ≠ ·) → l.IsChain (· < ·)
  | [], _, _ => .nil
  | [a], _, _ => .singleton a
  | a :: b :: l, hle, hne => by
    obtain ⟨ha, hle⟩ := List.pairwise_cons.1 hle
    obtain ⟨hab, hne⟩ := List.isChain_cons_cons.1 hne
    exact .cons_cons (lt_of_le_of_ne (ha b List.mem_cons_self) hab) (isChain_lt hle hne)

theorem mem_destutter_ne {α : Type} [DecidableEq α] {a : α} {l : List α} (h : a ∈ l) : a ∈ l.destutter (· ≠ ·) := by
  have hfrom : ∀ (l : List α) (b : α), a = b ∨ a ∈ l → a ∈ l.destutter' (· ≠ ·) b := by
    intro l
    induction l with
    | nil =>
      rintro b (rfl | h)
      · exact List.mem_singleton_self a
      · cases h
    | cons c l ih =>
      intro b h
      by_cases hbc : b = c
      · -- the second of two equal neighbours goes
        rw [List.destutter'_cons_neg _ (not_not.2 hbc)]
        refine ih b ?_
        rcases h with h | h
        · exact .inl h
        · rcases List.mem_cons.1 h with h | h
          · exact .inl (h.trans hbc.symm)
          · exact .inr h
      · rw [List.destutter'_cons_pos _ hbc, List.mem_cons]
        rcases h with h | h
        · exact .inl h
        · exact .inr (ih c (List.mem_cons.1 h))
  cases l with
  | nil => cases h
  | cons b l => exact hfrom l b (List.mem_cons.1 h)

theorem mem_sortDedup {l : List String} {v : String} : v ∈ sortDedup l ↔ v ∈ l := by
  have hperm := (perm_sortBy (compare : String → String → Ordering) l).mem_iff (a := v)
  exact ⟨fun h => hperm.1 ((List.destutter_sublist _ _).subset h), fun h => mem_destutter_ne (hperm.2 h)⟩

theorem pairwise_sortDedup (l : List String) : (sortDedup l).Pairwise (· < ·) := by
  have hsorted := (pairwise_sortBy l).sublist (List.destutter_sublist (· ≠ ·) _)
  exact (isChain_lt hsorted (List.isChain_destutter (· ≠ ·) _)).pairwise

theorem sortDedup_congr {l l' : List String} (h : ∀ v, v ∈ l ↔ v ∈ l') : sortDedup l = sortDedup l' := by
  refine List.Perm.eq_of_pairwise' (r := (· < ·)) (pairwise_sortDedup l) (pairwise_sortDedup l') ?_
  refine (List.perm_ext_iff_of_nodup (pairwise_sortDedup l).nodup (pairwise_sortDedup l').nodup).2 fun v => ?_
  rw [mem_sortDedup, mem_sortDedup, h]

theorem tags_canonical {o o' : Option (List String)} (h : canonicalizeTags isNfc o = .ok o') :
    sortDedup (o'.getD []) = sortDedup (o.getD []) := by
  cases o with
  | none => cases h; rfl
  | some tags =>
    obtain ⟨-, h⟩ := then_ok.1 h
    obtain ⟨out, h1, h⟩ := bind_ok.1 h
    obtain rfl := pure_ok.1 h
    simp only [sortDedup, Option.getD_some, sortBy_perm (canonicalizeSet_ok h1).1]

theorem semPredicate_canonical {g g' : ConditionGroupSpec} (h : canonicalizeGroup isNfc g = .ok g') :
    semPredicate g' = semPredicate g := by
  obtain ⟨all', h1, h⟩ := bind_ok.1 h
  obtain ⟨any', h2, h⟩ := bind_ok.1 h
  obtain rfl := pure_ok.1 h
  exact semItem_canonical (.group g.all g.any) _ (bind_ok.2 ⟨all', h1, bind_ok.2 ⟨any', h2, rfl⟩⟩)

/-- The normal form of a canonical rule is that of the rule. -/
theorem fromRule_canonical {r r' : RuleIR} (h : canonicalizeRule isNfc r = .ok r') :
    SemanticRule.fromRule r' = SemanticRule.fromRule r := by
  obtain ⟨tags, appliesIf, decisionTree, ht, hg, he, rfl⟩ := canonicalizeRule_fields h
  have hsem : appliesIf.map semPredicate = r.appliesIf.map semPredicate := by
    cases hr : r.appliesIf with
    | none => rw [hr] at hg; cases hg; rfl
    | some g =>
      rw [hr] at hg
      obtain ⟨g', h1, hg⟩ := bind_ok.1 hg
      obtain rfl := pure_ok.1 hg
      exact congrArg some (semPredicate_canonical h1)
  simp only [SemanticRule.fromRule, hsem, collectPaths_canonical he, tags_canonical ht]

end Ke
