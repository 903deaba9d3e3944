/-
Any number of programs on one store, one operation of one of them at a time. An operation may also fail
and leave the store as it was; a program that gets no more turns has stopped. Each program is verified by
itself, against others that only do what the contract of the store allows.
-/
import KeEngine.Prog.Basic
import Mathlib.Data.List.Forall2

/-- Running programs and the store they share. -/
structure Pool (Op : Type → Type) (ε α σ : Type) : Type 1 where
  programs : List (Prog Op ε α)
  store : σ

/-- What happens next: an operation of one program, or its failure, which leaves no trace in the store. -/
inductive Turn (ε : Type)
  | step (who : Nat)
  | fault (who : Nat) (e : ε)

/-- What all programs on a store rely on and keep: an invariant, and how the store may change. -/
structure Contract (σ : Type) where
  inv : σ → Prop
  grows : σ → σ → Prop
  refl : ∀ s, grows s s
  trans : ∀ {s t u}, grows s t → grows t u → grows s u

namespace Prog

section

variable {Op : Type → Type} {ε α β σ : Type}

/-- The next operation fails. -/
def fail (e : ε) : Prog Op ε α → Prog Op ε α
  | .done r => .done r
  | .call _ _ => .done (.error e)

/-- What the program has returned. -/
def returned : Prog Op ε α → Option α
  | .done (.ok a) => some a
  | _ => none

theorem returned_iff {p : Prog Op ε α} {a : α} : p.returned = some a ↔ p = .done (.ok a) := by
  constructor
  · intro h
    cases p with
    | done r =>
      cases r with
      | error e => cases h
      | ok b => rw [Option.some.inj h]
    | call o next => cases h
  · rintro rfl
    rfl

variable (exec : ∀ {β : Type}, Op β → σ → Except ε β × σ)

/-- From the store it last saw on, the program keeps the contract as long as the others do, and what it returns
with holds of the store it saw last. -/
def Keeps (C : Contract σ) (Q : α → σ → Prop) : Prog Op ε α → σ → Prop
  | .done r, s => ∀ a, r = .ok a → Q a s
  | .call o next, s => ∀ t, C.inv t → C.grows s t → C.inv (exec o t).2 ∧ C.grows t (exec o t).2 ∧
      ∀ b, (exec o t).1 = .ok b → (next b).Keeps C Q (exec o t).2

variable {exec} {C : Contract σ} {Q : α → σ → Prop} {s t : σ}

theorem keeps_done {r : Except ε α} (h : ∀ a, r = .ok a → Q a s) : (Prog.done r : Prog Op ε α).Keeps @exec C Q s := h

theorem Keeps.mono {Q' : α → σ → Prop} (h : ∀ a s, Q a s → Q' a s) :
    ∀ {p : Prog Op ε α} {s : σ}, p.Keeps @exec C Q s → p.Keeps @exec C Q' s
  | .done _, s, hp => fun a ha => h a s (hp a ha)
  | .call _ _, _, hp => fun t ht hst =>
    ⟨(hp t ht hst).1, (hp t ht hst).2.1, fun b hb => ((hp t ht hst).2.2 b hb).mono h⟩

/-- A program goes on where another one has returned. -/
theorem Keeps.bind {R : β → σ → Prop} {f : β → Prog Op ε α} (hf : ∀ b s, R b s → (f b).Keeps @exec C Q s) :
    ∀ {p : Prog Op ε β} {s : σ}, p.Keeps @exec C R s → (p >>= f).Keeps @exec C Q s
  | .done (.ok b), s, hp => hf b s (hp b rfl)
  | .done (.error _), _, _ => fun _ ha => by cases ha
  | .call _ _, _, hp => fun t ht hst =>
    ⟨(hp t ht hst).1, (hp t ht hst).2.1, fun b hb => Keeps.bind hf ((hp t ht hst).2.2 b hb)⟩

/-- One operation: what it is called on, what it does, and what is known after. -/
theorem keeps_op {o : Op α} (h : ∀ t, C.inv t → C.grows s t → C.inv (exec o t).2 ∧ C.grows t (exec o t).2 ∧
    ∀ a, (exec o t).1 = .ok a → Q a (exec o t).2) : (op o : Prog Op ε α).Keeps @exec C Q s := by
  intro t ht hst
  obtain ⟨hinv, hgrows, hanswer⟩ := h t ht hst
  refine ⟨hinv, hgrows, fun b hb a ha => ?_⟩
  obtain rfl := Except.ok.inj ha
  exact hanswer b hb

theorem Keeps.fail {p : Prog Op ε α} (h : p.Keeps @exec C Q s) (e : ε) : (p.fail e).Keeps @exec C Q s := by
  cases p with
  | done r => exact h
  | call o next =>
    intro a ha
    cases ha

/-- One operation, on a store that the others have brought about. -/
theorem Keeps.step {p : Prog Op ε α} (h : p.Keeps @exec C Q s) (ht : C.inv t) (hst : C.grows s t) :
    C.inv (p.step @exec t).2 ∧ C.grows t (p.step @exec t).2 ∧
      ∃ u, C.grows u (p.step @exec t).2 ∧ (p.step @exec t).1.Keeps @exec C Q u := by
  cases p with
  | done r => exact ⟨ht, C.refl t, s, hst, h⟩
  | call o next =>
    obtain ⟨hinv, hgrows, hnext⟩ := h t ht hst
    rw [Prog.step]
    rcases hexec : exec o t with ⟨e | b, t'⟩
    · rw [hexec] at hinv hgrows
      exact ⟨hinv, hgrows, t', C.refl t', fun a ha => by cases ha⟩
    · rw [hexec] at hinv hgrows hnext
      exact ⟨hinv, hgrows, t', C.refl t', hnext b rfl⟩

/-- A program that runs to its end with no other between. -/
theorem Keeps.run : ∀ {p : Prog Op ε α} {s t : σ}, p.Keeps @exec C Q s → C.inv t → C.grows s t →
    C.inv (p.run @exec t).2
  | .done _, _, _, _, ht, _ => ht
  | .call o next, _, t, h, ht, hst => by
    obtain ⟨hinv, hgrows, hnext⟩ := h t ht hst
    rw [Prog.run]
    rcases hexec : exec o t with ⟨e | b, t'⟩
    · rw [hexec] at hinv
      exact hinv
    · rw [hexec] at hinv hgrows hnext
      exact (hnext b rfl).run hinv (C.refl t')

end

end Prog

namespace Pool

section

variable {Op : Type → Type} {ε α σ : Type}

variable (exec : ∀ {β : Type}, Op β → σ → Except ε β × σ)

/-- A turn of a program that there is not does nothing. -/
def turn (c : Pool Op ε α σ) : Turn ε → Pool Op ε α σ
  | .step who =>
    match c.programs[who]? with
    | some p => ⟨c.programs.set who (p.step exec c.store).1, (p.step exec c.store).2⟩
    | none => c
  | .fault who e => ⟨c.programs.modify who (Prog.fail e), c.store⟩

def run (c : Pool Op ε α σ) (schedule : List (Turn ε)) : Pool Op ε α σ := schedule.foldl (turn exec) c

variable {exec} {C : Contract σ} {Q : Nat → α → σ → Prop}

/-- Each program keeps the contract from a store on that has grown to what it is now. -/
structure Kept (exec : ∀ {β : Type}, Op β → σ → Except ε β × σ) (C : Contract σ) (Q : Nat → α → σ → Prop)
    (c : Pool Op ε α σ) : Prop where
  inv : C.inv c.store
  programs : ∀ (who : Nat) (p : Prog Op ε α), c.programs[who]? = some p → ∃ s, C.grows s c.store ∧ p.Keeps @exec C (Q who) s

theorem Kept.turn {c : Pool Op ε α σ} (h : c.Kept @exec C Q) (turn : Turn ε) :
    (c.turn @exec turn).Kept @exec C Q ∧ C.grows c.store (c.turn @exec turn).store := by
  cases turn with
  | step who =>
    cases hwho : c.programs[who]? with
    | none =>
      have hturn : c.turn @exec (.step who) = c := by simp only [Pool.turn, hwho]
      rw [hturn]
      exact ⟨h, C.refl _⟩
    | some p =>
      have hturn : c.turn @exec (.step who) =
          ⟨c.programs.set who (p.step @exec c.store).1, (p.step @exec c.store).2⟩ := by simp only [Pool.turn, hwho]
      rw [hturn]
      obtain ⟨s, hs, hp⟩ := h.programs who p hwho
      obtain ⟨hinv, hgrows, u, hu, hp'⟩ := hp.step h.inv hs
      refine ⟨⟨hinv, fun other q hq => ?_⟩, hgrows⟩
      by_cases hother : who = other
      · subst hother
        rw [List.getElem?_set_self (List.getElem?_eq_some_iff.1 hwho).1] at hq
        obtain rfl := Option.some.inj hq
        exact ⟨u, hu, hp'⟩
      · rw [List.getElem?_set_ne hother] at hq
        obtain ⟨s', hs', hq'⟩ := h.programs other q hq
        exact ⟨s', C.trans hs' hgrows, hq'⟩
  | fault who e =>
    refine ⟨⟨h.inv, fun other q hq => ?_⟩, C.refl _⟩
    have hq : (c.programs.modify who (Prog.fail e))[other]? = some q := hq
    rw [List.getElem?_modify] at hq
    obtain ⟨p, hp, rfl⟩ := Option.map_eq_some_iff.1 hq
    obtain ⟨s, hs, hkeeps⟩ := h.programs other p hp
    refine ⟨s, hs, ?_⟩
    split
    · exact hkeeps.fail e
    · exact hkeeps

theorem Kept.run : ∀ (schedule : List (Turn ε)) {c : Pool Op ε α σ}, c.Kept @exec C Q →
    (c.run @exec schedule).Kept @exec C Q ∧ C.grows c.store (c.run @exec schedule).store
  | [], _, h => ⟨h, C.refl _⟩
  | turn :: schedule, _, h => by
    obtain ⟨hturn, hgrows⟩ := h.turn turn
    obtain ⟨hrun, hgrows'⟩ := Kept.run schedule hturn
    exact ⟨hrun, C.trans hgrows hgrows'⟩

/-- What a program returned with still holds. -/
theorem Kept.returned {c : Pool Op ε α σ} (h : c.Kept @exec C Q) (hQ : ∀ who a s t, C.grows s t → Q who a s → Q who a t)
    {who : Nat} {a : α} (hreturned : c.programs[who]?.bind Prog.returned = some a) : Q who a c.store := by
  obtain ⟨p, hp, hp'⟩ := Option.bind_eq_some_iff.1 hreturned
  obtain rfl := Prog.returned_iff.1 hp'
  obtain ⟨s, hs, hkeeps⟩ := h.programs who _ hp
  exact hQ who a s c.store hs (hkeeps a rfl)

end

end Pool
