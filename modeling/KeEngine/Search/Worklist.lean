/-
Search with a set of what is reached and a queue of what is still to be expanded. An item goes on the queue
when it is reached first, so what is reached and no longer queued has been expanded; when the queue is empty,
the set is what can be reached, and over finitely many items that happens.
-/
import Mathlib.Data.Finset.Card
import Mathlib.Logic.Relation

namespace Worklist

open Relation

variable {α : Type} [DecidableEq α]

structure Search (α : Type) where
  reached : Finset α
  queue : List α

/-- All of these are reached and queued. -/
def initial (starts : List α) : Search α := ⟨starts.toFinset, starts⟩

/-- Queue an item, unless it is reached. -/
def visit (s : Search α) (next : α) : Search α :=
  if next ∈ s.reached then s else ⟨insert next s.reached, s.queue ++ [next]⟩

/-- Expand the first item of the queue; nothing where there is none. -/
def step (adjacent : α → List α) (s : Search α) : Option (Search α) :=
  match s.queue with
  | [] => none
  | node :: queue => some ((adjacent node).foldl visit { s with queue })

/-- Step until the queue is empty: what is reached then, or nothing if it takes more steps than that. -/
def explore (adjacent : α → List α) : Nat → Search α → Option (Finset α)
  | 0, s => match step adjacent s with
    | none => some s.reached
    | some _ => none
  | fuel + 1, s => match step adjacent s with
    | none => some s.reached
    | some s => explore adjacent fuel s

/-! ## One expansion -/

/-- What visiting items one after the other does. -/
structure Visits (s : Search α) (nexts : List α) (s' : Search α) : Prop where
  reached : ∀ x, x ∈ s'.reached ↔ x ∈ s.reached ∨ x ∈ nexts
  queued : ∀ x, x ∈ s'.queue ↔ x ∈ s.queue ∨ x ∈ nexts ∧ x ∉ s.reached
  count : s'.queue.length + s.reached.card = s.queue.length + s'.reached.card

theorem visits : ∀ (nexts : List α) (s : Search α), Visits s nexts (nexts.foldl visit s)
  | [], s => ⟨fun x => by simp, fun x => by simp, rfl⟩
  | next :: nexts, s => by
    obtain ⟨hreached, hqueued, hcount⟩ := visits nexts (visit s next)
    rw [List.foldl_cons]
    by_cases hnext : next ∈ s.reached
    · rw [visit, if_pos hnext] at hreached hqueued hcount ⊢
      refine ⟨fun x => ?_, fun x => ?_, hcount⟩
      · rw [hreached, List.mem_cons]
        constructor
        · exact Or.imp_right Or.inr
        · rintro (hx | rfl | hx)
          · exact .inl hx
          · exact .inl hnext
          · exact .inr hx
      · rw [hqueued, List.mem_cons]
        refine or_congr_right (and_congr_left fun hx => ⟨.inr, ?_⟩)
        rintro (rfl | hmem)
        · exact absurd hnext hx
        · exact hmem
    · rw [visit, if_neg hnext] at hreached hqueued hcount ⊢
      refine ⟨fun x => ?_, fun x => ?_, ?_⟩
      · rw [hreached, Finset.mem_insert, List.mem_cons]
        tauto
      · rw [hqueued, List.mem_append, List.mem_singleton, Finset.mem_insert, List.mem_cons]
        constructor
        · rintro ((hx | rfl) | ⟨hx, hne⟩)
          · exact .inl hx
          · exact .inr ⟨.inl rfl, hnext⟩
          · exact .inr ⟨.inr hx, fun h => hne (.inr h)⟩
        · rintro (hx | ⟨rfl | hx, hreached⟩)
          · exact .inl (.inl hx)
          · exact .inl (.inr rfl)
          · by_cases heq : x = next
            · exact .inl (.inr heq)
            · exact .inr ⟨hx, not_or.2 ⟨heq, hreached⟩⟩
      · rw [Finset.card_insert_of_notMem hnext, List.length_append, List.length_singleton] at hcount
        omega

section

variable {adjacent : α → List α} {starts : List α} {s s' : Search α}

theorem step_eq_none : step adjacent s = none ↔ s.queue = [] := by
  unfold step
  cases s.queue with
  | nil => exact iff_of_true rfl rfl
  | cons node queue => exact iff_of_false nofun nofun

theorem step_eq_some (h : step adjacent s = some s') : ∃ node queue, s.queue = node :: queue ∧
    Visits { s with queue } (adjacent node) s' := by
  unfold step at h
  cases hqueue : s.queue with
  | nil =>
    rw [hqueue] at h
    cases h
  | cons node queue =>
    rw [hqueue] at h
    cases h
    exact ⟨node, queue, rfl, visits _ _⟩

/-! ## What a search keeps -/

/-- Everything reached can be reached, and is queued or expanded. -/
structure Invariant (adjacent : α → List α) (starts : List α) (s : Search α) : Prop where
  started : ∀ x ∈ starts, x ∈ s.reached
  sound : ∀ x ∈ s.reached, ∃ r ∈ starts, ReflTransGen (fun a b => b ∈ adjacent a) r x
  queued : ∀ x ∈ s.queue, x ∈ s.reached
  expanded : ∀ x ∈ s.reached, x ∈ s.queue ∨ ∀ y ∈ adjacent x, y ∈ s.reached

theorem invariant_initial (adjacent : α → List α) (starts : List α) : Invariant adjacent starts (initial starts) where
  started := fun _ hx => List.mem_toFinset.2 hx
  sound := fun x hx => ⟨x, List.mem_toFinset.1 hx, .refl⟩
  queued := fun _ hx => List.mem_toFinset.2 hx
  expanded := fun _ hx => .inl (List.mem_toFinset.1 hx)

theorem Invariant.step (h : Invariant adjacent starts s) (hstep : step adjacent s = some s') :
    Invariant adjacent starts s' := by
  obtain ⟨node, queue, hqueue, hreached, hqueued, -⟩ := step_eq_some hstep
  have hnode : node ∈ s.reached := h.queued node (by rw [hqueue]; exact List.mem_cons_self)
  refine ⟨fun x hx => (hreached x).2 (.inl (h.started x hx)), fun x hx => ?_, fun x hx => ?_, fun x hx => ?_⟩
  · rcases (hreached x).1 hx with hx | hx
    · exact h.sound x hx
    · obtain ⟨r, hr, hpath⟩ := h.sound node hnode
      exact ⟨r, hr, hpath.tail hx⟩
  · rw [hreached]
    rcases (hqueued x).1 hx with hx | ⟨hx, -⟩
    · exact .inl (h.queued x (by rw [hqueue]; exact List.mem_cons_of_mem node hx))
    · exact .inr hx
  · by_cases hold : x ∈ s.reached
    · rcases h.expanded x hold with hx | hexpanded
      · rw [hqueue] at hx
        rcases List.mem_cons.1 hx with rfl | hx
        -- the node that was expanded
        · exact .inr fun y hy => (hreached y).2 (.inr hy)
        · exact .inl ((hqueued x).2 (.inl hx))
      · exact .inr fun y hy => (hreached y).2 (.inl (hexpanded y hy))
    · rcases (hreached x).1 hx with hx | hx
      · exact absurd hx hold
      · exact .inl ((hqueued x).2 (.inr ⟨hx, hold⟩))

theorem Invariant.explore : ∀ {fuel : Nat} {s : Search α} {r : Finset α}, Invariant adjacent starts s →
    explore adjacent fuel s = some r → ∃ s', Invariant adjacent starts s' ∧ s'.queue = [] ∧ s'.reached = r
  | 0, s, r, h, hexplore => by
    unfold Worklist.explore at hexplore
    cases hstep : Worklist.step adjacent s with
    | none =>
      rw [hstep] at hexplore
      exact ⟨s, h, step_eq_none.1 hstep, Option.some.inj hexplore⟩
    | some s' =>
      rw [hstep] at hexplore
      cases hexplore
  | fuel + 1, s, r, h, hexplore => by
    unfold Worklist.explore at hexplore
    cases hstep : Worklist.step adjacent s with
    | none =>
      rw [hstep] at hexplore
      exact ⟨s, h, step_eq_none.1 hstep, Option.some.inj hexplore⟩
    | some s' =>
      rw [hstep] at hexplore
      exact Invariant.explore (h.step hstep) hexplore

/-- A search that ends has reached what can be reached. -/
theorem mem_explore {fuel : Nat} {r : Finset α} (h : explore adjacent fuel (initial starts) = some r) {x : α} :
    x ∈ r ↔ ∃ a ∈ starts, ReflTransGen (fun a b => b ∈ adjacent a) a x := by
  obtain ⟨s, hs, hempty, rfl⟩ := (invariant_initial adjacent starts).explore h
  constructor
  · exact hs.sound x
  · rintro ⟨a, ha, hpath⟩
    induction hpath with
    | refl => exact hs.started a ha
    | tail _ hxy ih =>
      rcases hs.expanded _ ih with hqueued | hexpanded
      · rw [hempty] at hqueued
        cases hqueued
      · exact hexpanded _ hxy

/-! ## Every search ends -/

/-- Each step takes an item off the queue or off what is left to reach. -/
theorem explore_isSome {items : Finset α} (hadjacent : ∀ x, ∀ y ∈ adjacent x, y ∈ items) :
    ∀ {fuel : Nat} {s : Search α}, s.queue.length + (items \ s.reached).card ≤ fuel →
      (explore adjacent fuel s).isSome
  | 0, s, h => by
    have hempty : s.queue = [] := List.length_eq_zero_iff.1 (by omega)
    rw [explore, step_eq_none.2 hempty]
    rfl
  | fuel + 1, s, h => by
    rw [explore]
    cases hstep : step adjacent s with
    | none => rfl
    | some s' =>
      obtain ⟨node, queue, hqueue, hreached, -, hcount⟩ := step_eq_some hstep
      refine explore_isSome hadjacent ?_
      -- what is new on the queue is new among the reached
      have hsub : s.reached ⊆ s'.reached := fun x hx => (hreached x).2 (.inl hx)
      have hnew : s'.reached \ s.reached ⊆ items \ s.reached := by
        intro x hx
        obtain ⟨hx, hold⟩ := Finset.mem_sdiff.1 hx
        exact Finset.mem_sdiff.2 ⟨hadjacent node x (((hreached x).1 hx).resolve_left hold), hold⟩
      have hleft : items \ s'.reached = (items \ s.reached) \ (s'.reached \ s.reached) := by
        ext x
        simp only [Finset.mem_sdiff]
        have hx := @hsub x
        tauto
      have hcard := Finset.card_sdiff_add_card_eq_card hnew
      have hcard' := Finset.card_sdiff_add_card_eq_card hsub
      rw [← hleft] at hcard
      rw [hqueue, List.length_cons] at h
      have hcount' : s'.queue.length + s.reached.card = queue.length + s'.reached.card := hcount
      omega

/-- Over finitely many items a search ends, with what can be reached. -/
theorem explore_ends (items : Finset α) (hadjacent : ∀ x, ∀ y ∈ adjacent x, y ∈ items) (starts : List α) :
    ∃ r, (∀ fuel ≥ starts.length + items.card, explore adjacent fuel (initial starts) = some r) ∧
      ∀ x, x ∈ r ↔ ∃ a ∈ starts, ReflTransGen (fun a b => b ∈ adjacent a) a x := by
  have hends : ∀ fuel ≥ starts.length + items.card, ∃ r, explore adjacent fuel (initial starts) = some r := by
    intro fuel hfuel
    refine Option.isSome_iff_exists.1 (explore_isSome hadjacent ?_)
    have hcard := Finset.card_le_card (Finset.sdiff_subset (s := items) (t := starts.toFinset))
    exact (Nat.add_le_add_left hcard _).trans hfuel
  obtain ⟨r, hr⟩ := hends _ (le_refl _)
  refine ⟨r, fun fuel hfuel => ?_, fun x => mem_explore hr⟩
  obtain ⟨r', hr'⟩ := hends fuel hfuel
  rw [hr']
  exact congrArg some (Finset.ext fun x => (mem_explore hr').trans (mem_explore hr).symm)

end

end Worklist
