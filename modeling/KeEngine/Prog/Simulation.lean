/-
Two kinds of stores with the same operations. Where stores are related so that an operation answers alike on both and
leaves them related, no program and no race tells them apart.
-/
import KeEngine.Prog.Race

section

variable {Op : Type → Type} {ε α σ τ : Type}

/-- Every allowed operation answers alike on related stores, and leaves them related. -/
def Simulates (exec : ∀ {β : Type}, Op β → σ → Except ε β × σ) (exec' : ∀ {β : Type}, Op β → τ → Except ε β × τ)
    (allowed : ∀ {β : Type}, Op β → Prop) (R : σ → τ → Prop) : Prop :=
  ∀ {β : Type} (o : Op β) (s : σ) (t : τ), allowed o → R s t →
    (exec o s).1 = (exec' o t).1 ∧ R (exec o s).2 (exec' o t).2

variable {exec : ∀ {β : Type}, Op β → σ → Except ε β × σ} {exec' : ∀ {β : Type}, Op β → τ → Except ε β × τ}
  {allowed : ∀ {β : Type}, Op β → Prop} {R : σ → τ → Prop}

namespace Prog.Calls

theorem run_simulates (h : Simulates @exec @exec' @allowed R) :
    ∀ {p : Prog Op ε α} {s : σ} {t : τ}, p.Calls @allowed → R s t →
      (p.run @exec s).1 = (p.run @exec' t).1 ∧ R (p.run @exec s).2 (p.run @exec' t).2
  | .done _, _, _, _, hst => ⟨rfl, hst⟩
  | .call o next, s, t, ⟨ho, hnext⟩, hst => by
    obtain ⟨hanswer, hstores⟩ := h o s t ho hst
    rw [run_call, run_call]
    rcases hexec : exec o s with ⟨r, s'⟩
    rcases hexec' : exec' o t with ⟨r', t'⟩
    rw [hexec, hexec'] at hanswer hstores
    obtain rfl : r = r' := hanswer
    cases r with
    | error e => exact ⟨rfl, hstores⟩
    | ok b => exact run_simulates h (hnext b) hstores

theorem step_simulates (h : Simulates @exec @exec' @allowed R) {p : Prog Op ε α} {s : σ} {t : τ}
    (hp : p.Calls @allowed) (hst : R s t) :
    (p.step @exec s).1 = (p.step @exec' t).1 ∧ R (p.step @exec s).2 (p.step @exec' t).2 := by
  cases p with
  | done r => exact ⟨rfl, hst⟩
  | call o next =>
    obtain ⟨hanswer, hstores⟩ := h o s t hp.1 hst
    rw [Prog.step, Prog.step]
    rcases hexec : exec o s with ⟨r, s'⟩
    rcases hexec' : exec' o t with ⟨r', t'⟩
    rw [hexec, hexec'] at hanswer hstores
    obtain rfl : r = r' := hanswer
    cases r with
    | error e => exact ⟨rfl, hstores⟩
    | ok b => exact ⟨rfl, hstores⟩

end Prog.Calls

namespace Race

/-- The same programs, of allowed operations, on related stores. -/
structure Alike (allowed : ∀ {β : Type}, Op β → Prop) (R : σ → τ → Prop) (c : Race Op ε α σ) (c' : Race Op ε α τ) :
    Prop where
  sides : ∀ who, c.side who = c'.side who
  allowed : ∀ who, (c.side who).Calls @allowed
  stores : R c.store c'.store

variable {c : Race Op ε α σ} {c' : Race Op ε α τ}

theorem Alike.turn (h : Simulates @exec @exec' @allowed R) (hc : c.Alike @allowed R c') (who : Bool) :
    (c.turn @exec who).Alike @allowed R (c'.turn @exec' who) := by
  obtain ⟨hprogram, hstores⟩ := (hc.allowed who).step_simulates h hc.stores
  rw [hc.sides who] at hprogram
  constructor
  · intro other
    by_cases hother : other = who
    · rw [hother, side_turn, side_turn, hc.sides who, hprogram]
    · rw [Bool.eq_not.2 hother, side_turn_other, side_turn_other, hc.sides]
  · intro other
    by_cases hother : other = who
    · rw [hother, side_turn]
      exact (hc.allowed who).step _ _
    · rw [Bool.eq_not.2 hother, side_turn_other]
      exact hc.allowed _
  · rw [store_turn, store_turn, ← hc.sides who]
    exact hstores

theorem Alike.run (h : Simulates @exec @exec' @allowed R) : ∀ (schedule : List Bool) {c : Race Op ε α σ}
    {c' : Race Op ε α τ}, c.Alike @allowed R c' → (c.run @exec schedule).Alike @allowed R (c'.run @exec' schedule)
  | [], _, _, hc => hc
  | who :: schedule, _, _, hc => Alike.run h schedule (hc.turn h who)

/-- The operations that are called are the same, with the same answers. -/
theorem Alike.calls (h : Simulates @exec @exec' @allowed R) : ∀ (schedule : List Bool) {c : Race Op ε α σ}
    {c' : Race Op ε α τ}, c.Alike @allowed R c' → c.calls @exec schedule = c'.calls @exec' schedule
  | [], _, _, _ => rfl
  | who :: schedule, c, c', hc => by
    have hnext : nextCall @exec (c.side who) c.store = nextCall @exec' (c'.side who) c'.store := by
      rw [← hc.sides who]
      have hallowed := hc.allowed who
      cases hside : c.side who with
      | done r => rfl
      | call o next =>
        rw [hside] at hallowed
        rw [nextCall, nextCall]
        rw [(h o c.store c'.store hallowed.1 hc.stores).1]
    rw [Race.calls, Race.calls, hnext, Alike.calls h schedule (hc.turn h who)]

end Race

end
