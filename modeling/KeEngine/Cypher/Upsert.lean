/-
Upserts on a table of items. An upsert names what it wants, adds an item for each want that no item meets,
and sets fields of every item that meets one of its wants. An item that is added meets the want it was added
for and no other; so, where no field that is set bears on a want, the items of a run might all be added before
the first field is set. A run that repeats itself changes nothing.
-/
import Mathlib.Data.List.Basic
import Mathlib.Data.List.Nodup

namespace Cypher

/-- Which items meet a want, the item that is added for it, and how a field is set. -/
structure Table (W K V α : Type) where
  meets : W → α → Bool
  fresh : W → α
  set : K → V → α → α

structure Upsert (W K V : Type) where
  wants : List W
  sets : List (K × V)

namespace Table

variable {W K V α : Type}

/-- What is added for a want meets that want and no other; a field holds what was set last. -/
structure Lawful (T : Table W K V α) : Prop where
  meets_fresh : ∀ w w', T.meets w (T.fresh w') = true ↔ w = w'
  set_set : ∀ k v v' x, T.set k v (T.set k v' x) = T.set k v x
  set_comm : ∀ {k k'} v v' x, k ≠ k' → T.set k v (T.set k' v' x) = T.set k' v' (T.set k v x)

section

variable (T : Table W K V α)

def ensure (items : List α) (w : W) : List α := if items.any (T.meets w) then items else items ++ [T.fresh w]

/-- Fields set in order. -/
def assign (sets : List (K × V)) (x : α) : α := sets.foldl (fun x kv => T.set kv.1 kv.2 x) x

def touches (u : Upsert W K V) (x : α) : Bool := u.wants.any fun w => T.meets w x

def assignIf (u : Upsert W K V) (x : α) : α := if T.touches u x then T.assign u.sets x else x

def apply (items : List α) (u : Upsert W K V) : List α := (u.wants.foldl T.ensure items).map (T.assignIf u)

def run (items : List α) (us : List (Upsert W K V)) : List α := us.foldl T.apply items

/-- All that a list of upserts wants. -/
def wants (us : List (Upsert W K V)) : List W := us.flatMap (·.wants)

/-- What a list of upserts does to an item. -/
def settle (us : List (Upsert W K V)) (x : α) : α := us.foldl (fun x u => T.assignIf u x) x

/-- No field that is set bears on a want. -/
def Keeps (u : Upsert W K V) : Prop := ∀ kv ∈ u.sets, ∀ w x, T.meets w (T.set kv.1 kv.2 x) = T.meets w x

end

variable {T : Table W K V α} {items : List α} {us : List (Upsert W K V)} {u : Upsert W K V}

theorem wants_cons : wants (u :: us) = u.wants ++ wants us := List.flatMap_cons

/-! ## Setting fields -/

theorem meets_assign (w : W) : ∀ {sets : List (K × V)} {x : α},
    (∀ kv ∈ sets, ∀ w x, T.meets w (T.set kv.1 kv.2 x) = T.meets w x) → T.meets w (T.assign sets x) = T.meets w x
  | [], _, _ => rfl
  | kv :: sets, x, h => by
    show T.meets w (T.assign sets (T.set kv.1 kv.2 x)) = _
    rw [meets_assign w fun p hp => h p (List.mem_cons_of_mem kv hp), h kv List.mem_cons_self]

/-- A field that is set later was set in vain. -/
theorem assign_set (hT : T.Lawful) {k : K} (v : V) : ∀ {sets : List (K × V)} {x : α}, k ∈ sets.map (·.1) →
    T.assign sets (T.set k v x) = T.assign sets x
  | kv :: sets, x, h => by
    show T.assign sets (T.set kv.1 kv.2 (T.set k v x)) = T.assign sets (T.set kv.1 kv.2 x)
    by_cases hk : kv.1 = k
    · rw [hk, hT.set_set]
    · rw [hT.set_comm _ _ _ hk]
      exact assign_set hT v ((List.mem_cons.1 h).resolve_left (Ne.symm hk))

theorem assign_assign_of_subset (hT : T.Lawful) {sets : List (K × V)} : ∀ {before : List (K × V)} {x : α},
    (∀ kv ∈ before, kv.1 ∈ sets.map (·.1)) → T.assign sets (T.assign before x) = T.assign sets x
  | [], _, _ => rfl
  | kv :: before, x, h => by
    show T.assign sets (T.assign before (T.set kv.1 kv.2 x)) = _
    rw [assign_assign_of_subset hT fun p hp => h p (List.mem_cons_of_mem kv hp),
      assign_set hT _ (h kv List.mem_cons_self)]

theorem assign_assign (hT : T.Lawful) (sets : List (K × V)) (x : α) :
    T.assign sets (T.assign sets x) = T.assign sets x :=
  assign_assign_of_subset hT fun _ hkv => List.mem_map_of_mem hkv

/-! ## Adding -/

theorem ensure_of_any {w : W} (h : items.any (T.meets w) = true) : T.ensure items w = items := if_pos h

theorem prefix_ensure (w : W) : items <+: T.ensure items w := by
  unfold ensure
  split
  · exact List.prefix_rfl
  · exact List.prefix_append items _

theorem prefix_ensures : ∀ {ws : List W} {items : List α}, items <+: ws.foldl T.ensure items
  | [], _ => List.prefix_rfl
  | w :: _, _ => (prefix_ensure w).trans prefix_ensures

theorem any_of_prefix {items' : List α} {w : W} (h : items <+: items') (hany : items.any (T.meets w) = true) :
    items'.any (T.meets w) = true := by
  obtain ⟨x, hx, hmeets⟩ := List.any_eq_true.1 hany
  exact List.any_eq_true.2 ⟨x, h.subset hx, hmeets⟩

theorem any_ensure (hT : T.Lawful) (w : W) : (T.ensure items w).any (T.meets w) = true := by
  unfold ensure
  split
  · assumption
  · rw [List.any_append, List.any_cons, (hT.meets_fresh w w).2 rfl, Bool.true_or, Bool.or_true]

theorem any_ensures (hT : T.Lawful) : ∀ {ws : List W} {items : List α} {w : W}, w ∈ ws →
    (ws.foldl T.ensure items).any (T.meets w) = true
  | v :: ws, items, w, h => by
    rw [List.foldl_cons]
    rcases List.mem_cons.1 h with rfl | h
    · exact any_of_prefix prefix_ensures (any_ensure hT w)
    · exact any_ensures hT h

/-- Nothing is added for wants that are met. -/
theorem ensures_of_any : ∀ {ws : List W} {items : List α}, (∀ w ∈ ws, items.any (T.meets w) = true) →
    ws.foldl T.ensure items = items
  | [], _, _ => rfl
  | w :: ws, items, h => by
    rw [List.foldl_cons, ensure_of_any (h w List.mem_cons_self)]
    exact ensures_of_any fun w' hw' => h w' (List.mem_cons_of_mem w hw')

/-- For distinct wants that nothing meets, one item each. -/
theorem ensures_of_none (hT : T.Lawful) : ∀ {ws : List W} {items : List α}, ws.Nodup →
    (∀ w ∈ ws, ∀ x ∈ items, T.meets w x = false) → ws.foldl T.ensure items = items ++ ws.map T.fresh
  | [], items, _, _ => (List.append_nil items).symm
  | w :: ws, items, hnodup, h => by
    obtain ⟨hw, hws⟩ := List.nodup_cons.1 hnodup
    have hnone : ¬ items.any (T.meets w) = true := by
      rw [List.any_eq_true]
      rintro ⟨x, hx, hmeets⟩
      rw [h w List.mem_cons_self x hx] at hmeets
      cases hmeets
    rw [List.foldl_cons, ensure, if_neg hnone, ensures_of_none hT hws, List.append_assoc, List.singleton_append,
      List.map_cons]
    intro v hv x hx
    rcases List.mem_append.1 hx with hx | hx
    · exact h v (List.mem_cons_of_mem w hv) x hx
    · rw [List.mem_singleton.1 hx, Bool.eq_false_iff]
      intro hmeets
      rw [(hT.meets_fresh v w).1 hmeets] at hv
      exact hw hv

/-! ## Adding first, setting afterwards -/

theorem meets_assignIf (h : T.Keeps u) (w : W) (x : α) : T.meets w (T.assignIf u x) = T.meets w x := by
  unfold assignIf
  split
  · exact meets_assign w h
  · rfl

theorem any_map_assignIf (h : T.Keeps u) (w : W) :
    (items.map (T.assignIf u)).any (T.meets w) = items.any (T.meets w) := by
  rw [List.any_map]
  congr 1
  exact funext fun x => meets_assignIf h w x

/-- What an upsert adds, it touches; what is added later for other wants, it does not. -/
theorem touches_fresh (hT : T.Lawful) {w : W} : T.touches u (T.fresh w) = true ↔ w ∈ u.wants := by
  rw [touches, List.any_eq_true]
  constructor
  · rintro ⟨v, hv, hmeets⟩
    rwa [(hT.meets_fresh v w).1 hmeets] at hv
  · exact fun hw => ⟨w, hw, (hT.meets_fresh w w).2 rfl⟩

theorem ensure_map_assignIf (hT : T.Lawful) (h : T.Keeps u) (hmet : ∀ w ∈ u.wants, items.any (T.meets w) = true)
    (w : W) : T.ensure (items.map (T.assignIf u)) w = (T.ensure items w).map (T.assignIf u) := by
  unfold ensure
  rw [any_map_assignIf h]
  split
  · rfl
  · rename_i hnone
    have hfresh : ¬ T.touches u (T.fresh w) = true := fun htouches => hnone (hmet w ((touches_fresh hT).1 htouches))
    rw [List.map_append, List.map_singleton, assignIf, if_neg hfresh]

theorem ensures_map_assignIf (hT : T.Lawful) (h : T.Keeps u) : ∀ {ws : List W} {items : List α},
    (∀ w ∈ u.wants, items.any (T.meets w) = true) →
      ws.foldl T.ensure (items.map (T.assignIf u)) = (ws.foldl T.ensure items).map (T.assignIf u)
  | [], _, _ => rfl
  | w :: ws, items, hmet => by
    rw [List.foldl_cons, List.foldl_cons, ensure_map_assignIf hT h hmet]
    exact ensures_map_assignIf hT h fun v hv => any_of_prefix (prefix_ensure w) (hmet v hv)

/-- A run adds for all its wants, and then sets the fields. -/
theorem run_eq (hT : T.Lawful) : ∀ {us : List (Upsert W K V)} {items : List α}, (∀ u ∈ us, T.Keeps u) →
    T.run items us = ((wants us).foldl T.ensure items).map (T.settle us)
  | [], items, _ => (List.map_id items).symm
  | u :: us, items, h => by
    have hu := h u List.mem_cons_self
    show T.run (T.apply items u) us = _
    rw [run_eq hT fun v hv => h v (List.mem_cons_of_mem u hv), apply,
      ensures_map_assignIf hT hu fun w => any_ensures hT, List.map_map, wants_cons, List.foldl_append]
    rfl

/-! ## The same run again -/

theorem meets_settle (w : W) : ∀ {us : List (Upsert W K V)} {x : α}, (∀ u ∈ us, T.Keeps u) →
    T.meets w (T.settle us x) = T.meets w x
  | [], _, _ => rfl
  | u :: us, x, h => by
    show T.meets w (T.settle us (T.assignIf u x)) = _
    rw [meets_settle w fun v hv => h v (List.mem_cons_of_mem u hv), meets_assignIf (h u List.mem_cons_self)]

/-- The fields that a list of upserts sets of an item. -/
def setsOf (T : Table W K V α) (us : List (Upsert W K V)) (x : α) : List (K × V) :=
  us.flatMap fun u => if T.touches u x then u.sets else []

theorem touches_of_meets {x y : α} (h : ∀ w, T.meets w x = T.meets w y) (u : Upsert W K V) :
    T.touches u x = T.touches u y := by
  unfold touches
  congr 1
  exact funext h

theorem settle_eq : ∀ {us : List (Upsert W K V)} {x : α}, (∀ u ∈ us, T.Keeps u) →
    T.settle us x = T.assign (T.setsOf us x) x
  | [], _, _ => rfl
  | u :: us, x, h => by
    have hu := h u List.mem_cons_self
    have hrest : T.setsOf us (T.assignIf u x) = T.setsOf us x := by
      unfold setsOf
      congr 1
      exact funext fun v => by rw [touches_of_meets (fun w => meets_assignIf hu w x) v]
    show T.settle us (T.assignIf u x) = _
    rw [settle_eq fun v hv => h v (List.mem_cons_of_mem u hv), hrest]
    unfold setsOf assign
    rw [List.flatMap_cons, List.foldl_append, assignIf]
    split <;> rfl

theorem settle_settle (hT : T.Lawful) (h : ∀ u ∈ us, T.Keeps u) (x : α) :
    T.settle us (T.settle us x) = T.settle us x := by
  have hsets : T.setsOf us (T.settle us x) = T.setsOf us x := by
    unfold setsOf
    congr 1
    exact funext fun u => by rw [touches_of_meets (fun w => meets_settle w h) u]
  rw [settle_eq h, hsets, settle_eq h, assign_assign hT]

/-- A run over what it has left changes nothing. -/
theorem run_run (hT : T.Lawful) (h : ∀ u ∈ us, T.Keeps u) : T.run (T.run items us) us = T.run items us := by
  have hmet : ∀ w ∈ wants us, (T.run items us).any (T.meets w) = true := by
    intro w hw
    rw [run_eq hT h, List.any_map]
    obtain ⟨x, hx, hmeets⟩ := List.any_eq_true.1 (@any_ensures _ _ _ _ _ hT _ items _ hw)
    exact List.any_eq_true.2 ⟨x, hx, (meets_settle w h).trans hmeets⟩
  rw [run_eq hT h, ensures_of_any hmet, run_eq hT h, List.map_map]
  exact List.map_congr_left fun x _ => settle_settle hT h x

/-! ## A run on no items -/

/-- Distinct wants, none of them met: every upsert gets an item of its own for each of its wants. -/
theorem run_of_distinct (hT : T.Lawful) : ∀ {us : List (Upsert W K V)} {items : List α}, (∀ u ∈ us, T.Keeps u) →
    (wants us).Nodup → (∀ w ∈ wants us, ∀ x ∈ items, T.meets w x = false) →
      T.run items us = items ++ us.flatMap fun u => u.wants.map fun w => T.assign u.sets (T.fresh w)
  | [], items, _, _, _ => (List.append_nil items).symm
  | u :: us, items, h, hnodup, hnone => by
    have hu := h u List.mem_cons_self
    rw [wants_cons] at hnodup hnone
    obtain ⟨hmine, hrest, hdisjoint⟩ := List.nodup_append.1 hnodup
    have happly : T.apply items u = items ++ u.wants.map fun w => T.assign u.sets (T.fresh w) := by
      rw [apply, ensures_of_none hT hmine fun w hw => hnone w (List.mem_append_left _ hw),
        List.map_append, List.map_map]
      congr 1
      · refine (List.map_congr_left fun x hx => if_neg ?_).trans (List.map_id items)
        rw [touches, List.any_eq_true]
        rintro ⟨w, hw, hmeets⟩
        rw [hnone w (List.mem_append_left _ hw) x hx] at hmeets
        cases hmeets
      · exact List.map_congr_left fun w hw => if_pos ((touches_fresh hT).2 hw)
    show T.run (T.apply items u) us = _
    rw [happly, run_of_distinct hT (fun v hv => h v (List.mem_cons_of_mem u hv)) hrest, List.flatMap_cons,
      List.append_assoc]
    intro w hw x hx
    rcases List.mem_append.1 hx with hx | hx
    · exact hnone w (List.mem_append_right _ hw) x hx
    · obtain ⟨v, hv, rfl⟩ := List.mem_map.1 hx
      rw [meets_assign w hu, Bool.eq_false_iff]
      intro hmeets
      exact hdisjoint v hv w hw ((hT.meets_fresh w v).1 hmeets).symm

/-- No want is met by both. -/
def Apart (T : Table W K V α) (x y : α) : Prop := ∀ w, T.meets w x = true → T.meets w y = false

theorem pairwise_ensures (hT : T.Lawful) : ∀ {ws : List W} {items : List α}, items.Pairwise T.Apart →
    (ws.foldl T.ensure items).Pairwise T.Apart
  | [], _, h => h
  | w :: ws, items, h => by
    rw [List.foldl_cons]
    refine pairwise_ensures hT ?_
    unfold ensure
    split
    · exact h
    · rename_i hnone
      refine List.pairwise_append.2 ⟨h, List.pairwise_singleton _ _, fun x hx y hy v hmeets => ?_⟩
      rw [List.mem_singleton.1 hy, Bool.eq_false_iff]
      intro hfresh
      rw [(hT.meets_fresh v w).1 hfresh] at hmeets
      exact hnone (List.any_eq_true.2 ⟨x, hx, hmeets⟩)

theorem mem_ensures {x : α} : ∀ {ws : List W} {items : List α}, x ∈ ws.foldl T.ensure items →
    x ∈ items ∨ ∃ w ∈ ws, x = T.fresh w
  | [], _, h => .inl h
  | w :: ws, items, h => by
    rw [List.foldl_cons] at h
    rcases mem_ensures h with hx | ⟨v, hv, rfl⟩
    · unfold ensure at hx
      split at hx
      · exact .inl hx
      · rcases List.mem_append.1 hx with hx | hx
        · exact .inl hx
        · exact .inr ⟨w, List.mem_cons_self, List.mem_singleton.1 hx⟩
    · exact .inr ⟨v, List.mem_cons_of_mem w hv, rfl⟩

/-- No two items of a run on none meet one want, and each meets one. -/
theorem run_nil (hT : T.Lawful) (h : ∀ u ∈ us, T.Keeps u) :
    (T.run [] us).Pairwise T.Apart ∧ ∀ x ∈ T.run [] us, ∃ w ∈ wants us, T.meets w x = true := by
  rw [run_eq hT h]
  constructor
  · rw [List.pairwise_map]
    refine (pairwise_ensures hT List.Pairwise.nil).imp fun hxy w hmeets => ?_
    rw [meets_settle w h] at hmeets ⊢
    exact hxy w hmeets
  · intro x hx
    obtain ⟨y, hy, rfl⟩ := List.mem_map.1 hx
    obtain ⟨w, hw, rfl⟩ := (mem_ensures hy).resolve_left List.not_mem_nil
    exact ⟨w, hw, by rw [meets_settle w h, (hT.meets_fresh w w).2 rfl]⟩

end Table

end Cypher
