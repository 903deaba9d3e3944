/-
Sorting by keys kept beside the items. The indices are sorted by the keys at them, stably, and the items are
taken out of slots in the order of the indices, each once: a slot that is empty would be a fault, and none
is. Sorted keys without equal neighbours are all different.
-/
import Mathlib.Data.List.Sort
import Mathlib.Data.List.FinRange
import Mathlib.Order.RelClasses

namespace Argsort

section

variable {κ α : Type} (r : κ → κ → Prop) [DecidableRel r]

/-! ## The order of the indices -/

/-- The indices of the keys, sorted by the keys at them. -/
def order (keys : List κ) : List (Fin keys.length) :=
  (List.finRange keys.length).insertionSort fun i j => r (keys.get i) (keys.get j)

theorem perm_order (keys : List κ) : (order r keys).Perm (List.finRange keys.length) := List.perm_insertionSort _ _

theorem nodup_order (keys : List κ) : (order r keys).Nodup :=
  (perm_order r keys).nodup_iff.2 (List.nodup_finRange keys.length)

/-- Reading anything at the sorted indices sorts it, where it is sorted by the keys. -/
theorem map_order {β : Type} {s : β → β → Prop} [DecidableRel s] {keys : List κ} {f : Fin keys.length → β}
    (hs : ∀ i j, r (keys.get i) (keys.get j) ↔ s (f i) (f j)) :
    (order r keys).map f = ((List.finRange keys.length).map f).insertionSort s :=
  List.map_insertionSort _ s f _ fun i _ j _ => hs i j

theorem map_get_order (keys : List κ) : (order r keys).map keys.get = keys.insertionSort r := by
  rw [map_order r fun _ _ => Iff.rfl, List.map_get_finRange]

end

/-! ## Neighbours -/

section

variable {κ : Type} {r : κ → κ → Prop} [DecidableEq κ]

/-- Of a sorted list, no two neighbours are equal exactly when no two elements are. -/
theorem neighbours_nodup [IsTrans κ r] [Std.Antisymm r] : ∀ {keys : List κ}, keys.Pairwise r →
    ((keys.zip keys.tail).any (fun w => decide (w.1 = w.2)) = false ↔ keys.Nodup)
  | [], _ => iff_of_true rfl List.nodup_nil
  | [k], _ => iff_of_true rfl (List.nodup_singleton k)
  | k :: l :: keys, h => by
    obtain ⟨hk, hrest⟩ := List.pairwise_cons.1 h
    have ih := neighbours_nodup hrest
    rw [List.tail_cons, List.zip_cons_cons, List.any_cons, Bool.or_eq_false_iff, decide_eq_false_iff_not]
    rw [List.tail_cons] at ih
    rw [ih, List.nodup_cons (a := k)]
    refine and_congr_left fun _ => ?_
    rw [List.mem_cons, not_or]
    refine ⟨fun hne => ⟨hne, fun hmem => hne ?_⟩, And.left⟩
    -- a later copy of the first key has the second between them
    exact antisymm (r := r) (hk l List.mem_cons_self) ((List.pairwise_cons.1 hrest).1 k hmem)

end

/-! ## Slots -/

section

variable {α : Type}

/-- Take what is in a slot, which must not be empty. -/
def takeSlot (slots : List (Option α)) (i : Nat) : Option (α × List (Option α)) :=
  slots[i]?.join.map fun a => (a, slots.set i none)

/-- Take from the slots at these indices, one after the other. -/
def takeAll : List Nat → List (Option α) → Option (List α)
  | [], _ => some []
  | i :: is, slots => do
    let (a, slots) ← takeSlot slots i
    let rest ← takeAll is slots
    pure (a :: rest)

theorem takeSlot_some {slots : List (Option α)} {i : Nat} {a : α} (h : slots[i]? = some (some a)) :
    takeSlot slots i = some (a, slots.set i none) := by
  unfold takeSlot
  rw [h]
  rfl

/-- Different indices, with their items in the slots: every one of them is taken. -/
theorem takeAll_of_nodup {n : Nat} {item : Fin n → α} : ∀ {is : List (Fin n)} {slots : List (Option α)}, is.Nodup →
    (∀ i ∈ is, slots[i.val]? = some (some (item i))) → takeAll (is.map Fin.val) slots = some (is.map item)
  | [], _, _, _ => rfl
  | i :: is, slots, hnodup, hslots => by
    obtain ⟨hi, his⟩ := List.nodup_cons.1 hnodup
    have hrest : takeAll (is.map Fin.val) (slots.set i.val none) = some (is.map item) := by
      refine takeAll_of_nodup his fun j hj => ?_
      have hne : i.val ≠ j.val := fun heq => hi (Fin.ext heq ▸ hj)
      rw [List.getElem?_set_ne hne]
      exact hslots j (List.mem_cons_of_mem i hj)
    rw [List.map_cons, takeAll, takeSlot_some (hslots i List.mem_cons_self), Option.bind_eq_bind, Option.bind_some]
    show (takeAll (is.map Fin.val) (slots.set i.val none)).bind _ = _
    rw [hrest]
    rfl

end

end Argsort
