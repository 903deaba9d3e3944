/-
Clamping to an interval: the nearest point of it, and which points are merged.
-/
import Mathlib.Order.Lattice
import Mathlib.Tactic.Linarith

namespace Rounding

variable {α : Type*} [LinearOrder α] {lo hi : α}

/-- The nearest point of an interval. -/
def clamp (lo hi x : α) : α := max lo (min hi x)

theorem clamp_of_mem {x : α} (h : lo ≤ x) (h' : x ≤ hi) : clamp lo hi x = x := by
  rw [clamp, min_eq_right h', max_eq_right h]

theorem clamp_of_le {x : α} (h : x ≤ lo) : clamp lo hi x = lo := max_eq_left ((min_le_right _ _).trans h)

theorem clamp_of_ge {x : α} (hle : lo ≤ hi) (h : hi ≤ x) : clamp lo hi x = hi := by
  rw [clamp, min_eq_left h, max_eq_right hle]

/-- Points are merged when both are beyond one end. -/
theorem clamp_eq_iff {x y : α} (hlt : lo < hi) :
    clamp lo hi x = clamp lo hi y ↔ x = y ∨ (hi ≤ x ∧ hi ≤ y) ∨ x ≤ lo ∧ y ≤ lo := by
  constructor
  · intro h
    rcases le_total x lo with hx | hx <;> rcases le_total y lo with hy | hy
    · exact .inr (.inr ⟨hx, hy⟩)
    · rw [clamp_of_le hx] at h
      rcases le_total y hi with hy' | hy'
      · rw [clamp_of_mem hy hy'] at h
        exact .inr (.inr ⟨hx, h ▸ le_rfl⟩)
      · rw [clamp_of_ge hlt.le hy'] at h
        exact absurd h hlt.ne
    · rw [clamp_of_le hy] at h
      rcases le_total x hi with hx' | hx'
      · rw [clamp_of_mem hx hx'] at h
        exact .inr (.inr ⟨h ▸ le_rfl, hy⟩)
      · rw [clamp_of_ge hlt.le hx'] at h
        exact absurd h hlt.ne'
    · rcases le_total x hi with hx' | hx' <;> rcases le_total y hi with hy' | hy'
      · rw [clamp_of_mem hx hx', clamp_of_mem hy hy'] at h
        exact .inl h
      · rw [clamp_of_mem hx hx', clamp_of_ge hlt.le hy'] at h
        exact .inr (.inl ⟨h ▸ le_rfl, hy'⟩)
      · rw [clamp_of_ge hlt.le hx', clamp_of_mem hy hy'] at h
        exact .inr (.inl ⟨hx', h ▸ le_rfl⟩)
      · exact .inr (.inl ⟨hx', hy'⟩)
  · rintro (rfl | ⟨hx, hy⟩ | ⟨hx, hy⟩)
    · rfl
    · rw [clamp_of_ge hlt.le hx, clamp_of_ge hlt.le hy]
    · rw [clamp_of_le hx, clamp_of_le hy]

/-- A factor may be clamped before it is multiplied by one that does not shrink. -/
theorem clamp_mul {lo hi x c : Int} (hlo : lo ≤ 0) (hhi : 0 ≤ hi) (hc : 1 ≤ c) :
    clamp lo hi (clamp lo hi x * c) = clamp lo hi (x * c) := by
  rcases le_total x lo with hx | hx
  · rw [clamp_of_le hx, clamp_of_le (by nlinarith), clamp_of_le (by nlinarith)]
  · rcases le_total hi x with hx' | hx'
    · have hle := hlo.trans hhi
      rw [clamp_of_ge hle hx', clamp_of_ge hle (by nlinarith), clamp_of_ge hle (by nlinarith)]
    · rw [clamp_of_mem hx hx']

end Rounding
