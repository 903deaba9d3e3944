/-
Writes laid over a map: a later write to a key stands over an earlier one, and a write may take the key away.
What the map then has at a key is what the last write to it says, the earlier ones and the other keys aside.
-/
import Mathlib.Data.List.Basic

namespace Layers

variable {κ ν ω ω' : Type} [DecidableEq κ]

/-! ## Maps as pairs -/

/-- Set a key: in its place, or at the end where it is new. -/
def insert (key : κ) (value : ν) : List (κ × ν) → List (κ × ν)
  | [] => [(key, value)]
  | (k, v) :: m => if k = key then (key, value) :: m else (k, v) :: insert key value m

def remove (key : κ) (m : List (κ × ν)) : List (κ × ν) := m.filter fun p => p.1 ≠ key

/-- One write: a value to set, or none to take the key away. -/
def write (m : List (κ × ν)) : κ × Option ν → List (κ × ν)
  | (key, some value) => insert key value m
  | (key, none) => remove key m

theorem lookup_cons_ite (k other : κ) (v : ν) (m : List (κ × ν)) :
    ((k, v) :: m).lookup other = if k = other then some v else m.lookup other := by
  rw [List.lookup_cons]
  by_cases h : k = other
  · rw [if_pos h, beq_iff_eq.2 h.symm]
  · rw [if_neg h, beq_eq_false_iff_ne.2 (Ne.symm h)]

theorem lookup_insert (key other : κ) (value : ν) : ∀ m : List (κ × ν),
    (insert key value m).lookup other = if key = other then some value else m.lookup other
  | [] => by rw [insert, lookup_cons_ite]
  | (k, v) :: m => by
    rw [insert]
    by_cases hk : k = key
    · subst hk
      rw [if_pos rfl, lookup_cons_ite, lookup_cons_ite]
      by_cases h : k = other <;> simp [h]
    · rw [if_neg hk, lookup_cons_ite, lookup_cons_ite, lookup_insert key other value m]
      by_cases h : key = other
      · rw [if_neg fun hko => hk (hko.trans h.symm), if_pos h, if_pos h]
      · rw [if_neg h, if_neg h]

theorem lookup_remove (key other : κ) : ∀ m : List (κ × ν),
    (remove key m).lookup other = if key = other then none else m.lookup other
  | [] => by simp [remove]
  | (k, v) :: m => by
    have ih : (m.filter fun p => decide (p.1 ≠ key)).lookup other = _ := lookup_remove key other m
    unfold remove
    by_cases hk : k = key
    · subst hk
      rw [List.filter_cons_of_neg (by simp), ih, lookup_cons_ite]
      by_cases h : k = other <;> simp [h]
    · rw [List.filter_cons_of_pos (by simpa using hk), lookup_cons_ite, lookup_cons_ite, ih]
      by_cases h : key = other
      · rw [if_neg fun hko => hk (hko.trans h.symm), if_pos h, if_pos h]
      · rw [if_neg h, if_neg h]

theorem lookup_write (m : List (κ × ν)) (p : κ × Option ν) (key : κ) :
    (write m p).lookup key = if p.1 = key then p.2 else m.lookup key := by
  obtain ⟨k, value⟩ := p
  cases value with
  | none => exact lookup_remove k key m
  | some value => exact lookup_insert k key value m

/-! ## One value a key -/

/-- Every key is there once. -/
def Keyed (m : List (κ × ν)) : Prop := (m.map Prod.fst).Nodup

theorem mem_keys_insert {key other : κ} {value : ν} : ∀ {m : List (κ × ν)},
    other ∈ (insert key value m).map Prod.fst ↔ other = key ∨ other ∈ m.map Prod.fst
  | [] => by simp [insert]
  | (k, v) :: m => by
    rw [insert]
    split
    · rename_i hk
      simp [hk]
    · simp only [List.map_cons, List.mem_cons, mem_keys_insert (m := m)]
      tauto

theorem Keyed.insert {key : κ} {value : ν} : ∀ {m : List (κ × ν)}, Keyed m → Keyed (insert key value m)
  | [], _ => by simp [Layers.insert, Keyed]
  | (k, v) :: m, h => by
    obtain ⟨hk, hm⟩ := List.nodup_cons.1 h
    rw [Layers.insert]
    split
    · rename_i heq
      exact List.nodup_cons.2 ⟨heq ▸ hk, hm⟩
    · rename_i hne
      refine List.nodup_cons.2 ⟨?_, Keyed.insert hm⟩
      rw [mem_keys_insert]
      rintro (rfl | hmem)
      · exact hne rfl
      · exact hk hmem

theorem Keyed.foldl_insert {α : Type} {key : α → κ} {value : α → ν} {as : List α} {m : List (κ × ν)} (h : Keyed m) :
    Keyed (as.foldl (fun m a => Layers.insert (key a) (value a) m) m) := by
  induction as generalizing m with
  | nil => exact h
  | cons a as ih => exact ih h.insert

theorem Keyed.mem_iff {key : κ} {value : ν} : ∀ {m : List (κ × ν)}, Keyed m →
    ((key, value) ∈ m ↔ m.lookup key = some value)
  | [], _ => by simp
  | (k, v) :: m, h => by
    obtain ⟨hk, hm⟩ := List.nodup_cons.1 h
    rw [lookup_cons_ite, List.mem_cons, Prod.mk.injEq]
    by_cases heq : k = key
    · subst heq
      have hnot : (k, value) ∉ m := fun hmem => hk (List.mem_map.2 ⟨_, hmem, rfl⟩)
      simp [hnot, eq_comm]
    · rw [if_neg heq, ← Keyed.mem_iff hm]
      simp [Ne.symm heq]

theorem Keyed.lookup_perm {m m' : List (κ × ν)} (h : Keyed m) (hperm : m.Perm m') (key : κ) :
    m'.lookup key = m.lookup key := by
  have h' : Keyed m' := (hperm.map Prod.fst).nodup_iff.1 h
  refine Option.ext fun value => ?_
  rw [← h'.mem_iff, ← h.mem_iff, hperm.mem_iff]

/-! ## The last write -/

/-- What the last write to a key says, where there is one. -/
def last (key : κ) : List (κ × ω) → Option ω
  | [] => none
  | (k, w) :: writes => (last key writes).or (if k = key then some w else none)

theorem last_append (key : κ) : ∀ writes after : List (κ × ω),
    last key (writes ++ after) = (last key after).or (last key writes)
  | [], after => by rw [List.nil_append, last, Option.or_none]
  | (k, w) :: writes, after => by rw [List.cons_append, last, last, last_append key writes after, Option.or_assoc]

theorem last_map (key : κ) (f : ω → ω') : ∀ writes : List (κ × ω),
    last key (writes.map fun p => (p.1, f p.2)) = (last key writes).map f
  | [] => rfl
  | (k, w) :: writes => by
    rw [List.map_cons, last, last, last_map key f writes]
    by_cases h : k = key <;> cases last key writes <;> simp [h]

theorem last_eq_none {key : κ} : ∀ {writes : List (κ × ω)}, last key writes = none ↔ ∀ p ∈ writes, p.1 ≠ key
  | [] => by simp [last]
  | (k, w) :: writes => by
    rw [last, Option.or_eq_none_iff, last_eq_none, List.forall_mem_cons, and_comm]
    refine and_congr_left fun _ => ?_
    by_cases h : k = key <;> simp [h]

theorem last_eq_some {key : κ} {w : ω} : ∀ {writes : List (κ × ω)}, last key writes = some w ↔
    ∃ before after, writes = before ++ (key, w) :: after ∧ ∀ p ∈ after, p.1 ≠ key
  | [] => by simp [last]
  | (k, v) :: writes => by
    rw [last, Option.or_eq_some_iff, last_eq_some, last_eq_none]
    constructor
    · rintro (⟨before, after, rfl, hafter⟩ | ⟨hnone, hfirst⟩)
      · exact ⟨(k, v) :: before, after, rfl, hafter⟩
      · split at hfirst
        · rename_i hk
          cases hfirst
          exact ⟨[], writes, by rw [hk]; rfl, hnone⟩
        · cases hfirst
    · rintro ⟨before, after, heq, hafter⟩
      cases before with
      | nil =>
        obtain ⟨hhead, rfl⟩ := List.cons.inj heq
        obtain ⟨rfl, rfl⟩ := Prod.mk.inj hhead
        exact .inr ⟨hafter, if_pos rfl⟩
      | cons p before =>
        obtain ⟨rfl, rfl⟩ := List.cons.inj heq
        exact .inl ⟨before, after, rfl, hafter⟩

/-- After the writes, a key has what the last of them says, or what it had. -/
theorem lookup_foldl_write (key : κ) : ∀ (writes : List (κ × Option ν)) (m : List (κ × ν)),
    (writes.foldl write m).lookup key = (last key writes).getD (m.lookup key)
  | [], _ => rfl
  | (k, w) :: writes, m => by
    rw [List.foldl_cons, lookup_foldl_write key writes, lookup_write, last]
    cases last key writes with
    | some w' => rfl
    | none => by_cases h : k = key <;> simp [h]

/-- The same for writes that only set. -/
theorem lookup_foldl_insert {α : Type} {key : α → κ} {value : α → ν} (k : κ) : ∀ (as : List α) (m : List (κ × ν)),
    (as.foldl (fun m a => insert (key a) (value a) m) m).lookup k =
      (last k (as.map fun a => (key a, value a))).or (m.lookup k)
  | [], _ => rfl
  | a :: as, m => by
    rw [List.foldl_cons, lookup_foldl_insert k as, lookup_insert, List.map_cons, last, Option.or_assoc]
    by_cases h : key a = k <;> simp [h]

end Layers
