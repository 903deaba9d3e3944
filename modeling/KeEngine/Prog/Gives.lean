/-
Computations that may have no result, each described by when it has one and by what is to be seen of it. The
descriptions compose as the computations do, so that a long one is described piece by piece.
-/
import Mathlib.Data.List.Basic

/-- The computation has a result exactly when `fits` holds, and `b` is what is seen of it. -/
structure Gives {α β : Type} (x : Option α) (fits : Prop) (view : α → β) (b : β) : Prop where
  exists_some : fits → ∃ a, x = some a
  of_some : ∀ a, x = some a → fits ∧ view a = b

namespace Gives

variable {α β α' β' : Type} {x : Option α} {fits fits' : Prop} {view : α → β} {view' : α' → β'} {b : β} {b' : β'}

theorem ofSome {a : α} (hfits : fits) (h : view a = b) : Gives (some a) fits view b :=
  ⟨fun _ => ⟨a, rfl⟩, fun _ ha => ⟨hfits, Option.some.inj ha ▸ h⟩⟩

theorem congr {c : β} (h : Gives x fits view b) (hfits : fits ↔ fits') (hb : b = c) : Gives x fits' view c :=
  ⟨fun hf => h.exists_some (hfits.2 hf), fun a ha => (h.of_some a ha).imp hfits.1 fun hview => hview.trans hb⟩

theorem map {f : α → α'} (h : Gives x fits view b) (hf : ∀ a, view a = b → view' (f a) = b') :
    Gives (x.map f) fits view' b' := by
  constructor
  · intro hfits
    obtain ⟨a, rfl⟩ := h.exists_some hfits
    exact ⟨f a, rfl⟩
  · intro c hc
    obtain ⟨a, ha, rfl⟩ := Option.map_eq_some_iff.1 hc
    exact (h.of_some a ha).imp_right (hf a)

/-- One computation and then another, which goes on from what is seen of the first. -/
theorem bind {k : α → Option α'} (h : Gives x fits view b) (hk : ∀ a, view a = b → Gives (k a) fits' view' b') :
    Gives (x.bind k) (fits ∧ fits') view' b' := by
  constructor
  · rintro ⟨hfits, hfits'⟩
    obtain ⟨a, rfl⟩ := h.exists_some hfits
    exact (hk a (h.of_some a rfl).2).exists_some hfits'
  · intro c hc
    obtain ⟨a, ha, hc⟩ := Option.bind_eq_some_iff.1 hc
    obtain ⟨hfits, hview⟩ := h.of_some a ha
    exact ((hk a hview).of_some c hc).imp_left fun hfits' => ⟨hfits, hfits'⟩

/-- A computation for each item of a list. -/
theorem mapM {ι : Type} {f : ι → Option α} {fits : ι → Prop} {b : ι → β} (h : ∀ i, Gives (f i) (fits i) view (b i)) :
    ∀ is : List ι, Gives (is.mapM f) (∀ i ∈ is, fits i) (List.map view) (is.map b)
  | [] => ofSome (fun _ hi => absurd hi List.not_mem_nil) rfl
  | i :: is => by
    have hrest : Gives ((f i).bind fun a => (is.mapM f).map (a :: ·)) (fits i ∧ ∀ j ∈ is, fits j) (List.map view)
        ((i :: is).map b) :=
      (h i).bind fun a ha => (mapM h is).map fun as has => by rw [List.map_cons, ha, has, List.map_cons]
    rw [List.mapM_cons]
    simp only [Option.map_eq_bind] at hrest
    exact hrest.congr List.forall_mem_cons.symm rfl

end Gives
