/-
Computations that may fail, each described by the errors that it can fail with. A description goes through
the steps of a computation, and what a step returned is known in those after it.
-/
import Mathlib.Data.List.Basic

/-- Every error of the computation is one of `E`. -/
def Raises {ε α : Type} (E : ε → Prop) (x : Except ε α) : Prop := ∀ e, x = .error e → E e

namespace Raises

variable {ε ε' α β : Type} {E : ε → Prop} {x : Except ε α}

theorem ok (a : α) : Raises E (.ok a : Except ε α) := by
  intro e h
  cases h

theorem error {e : ε} (he : E e) : Raises E (.error e : Except ε α) := by
  intro e' h
  cases h
  exact he

theorem ofOk {a : α} (h : x = .ok a) : Raises E x := h ▸ ok a

/-- What cannot fail returns. -/
theorem exists_ok (h : Raises (fun _ => False) x) : ∃ a, x = .ok a := by
  cases x with
  | ok a => exact ⟨a, rfl⟩
  | error e => exact (h e rfl).elim

theorem mono {E' : ε → Prop} (h : Raises E x) (hE : ∀ e, E e → E' e) : Raises E' x := fun e he => hE e (h e he)

theorem bind {f : α → Except ε β} (h : Raises E x) (hf : ∀ a, x = .ok a → Raises E (f a)) : Raises E (x >>= f) := by
  intro e he
  cases x with
  | error e' =>
    cases he
    exact h e rfl
  | ok a => exact hf a rfl e he

theorem mapError {f : ε → ε'} {E' : ε' → Prop} (h : Raises E x) (hf : ∀ e, E e → E' (f e)) :
    Raises E' (x.mapError f) := by
  intro e he
  cases x with
  | ok a => cases he
  | error e' =>
    cases he
    exact hf e' (h e' rfl)

/-- Whatever an error is turned into. -/
theorem ofMapError {f : ε → ε'} {E' : ε' → Prop} (hf : ∀ e, E' (f e)) : Raises E' (x.mapError f) :=
  mapError (E := fun _ => True) (fun _ _ => trivial) fun e _ => hf e

theorem elim {o : Option α} {e : ε} (he : E e) : Raises E (o.elim (throw e) pure : Except ε α) := by
  cases o with
  | none => exact error he
  | some a => exact ok a

theorem ite {c : Prop} [Decidable c] {y : Except ε α} (hx : c → Raises E x) (hy : ¬ c → Raises E y) :
    Raises E (if c then x else y) := by
  split
  · exact hx ‹_›
  · exact hy ‹_›

theorem mapM {f : α → Except ε β} : ∀ {l : List α}, (∀ a ∈ l, Raises E (f a)) → Raises E (l.mapM f)
  | [], _ => ok []
  | a :: l, h => by
    rw [List.mapM_cons]
    refine (h a List.mem_cons_self).bind fun b _ => ?_
    exact (mapM fun c hc => h c (List.mem_cons_of_mem a hc)).bind fun bs _ => ok (b :: bs)

theorem filterM {p : α → Except ε Bool} {l : List α} (h : ∀ a ∈ l, Raises E (p a)) : Raises E (l.filterM p) := by
  have haux : ∀ (l acc : List α), (∀ a ∈ l, Raises E (p a)) → Raises E (l.filterAuxM p acc) := by
    intro l
    induction l with
    | nil => exact fun acc _ => ok acc
    | cons a l ih =>
      intro acc h
      rw [List.filterAuxM]
      exact (h a List.mem_cons_self).bind fun b _ => ih _ fun c hc => h c (List.mem_cons_of_mem a hc)
  rw [List.filterM]
  exact (haux l [] h).bind fun kept _ => ok kept.reverse

end Raises
