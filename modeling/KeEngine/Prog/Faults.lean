/-
A program that is cut short: one of its operations fails and leaves the store as it was before. What
is left behind is the store at which that operation was called, so the runs with a fault are read off
the stores that a run without one passes.
-/
import KeEngine.Prog.Basic

namespace Prog

section

variable {Op : Type → Type} {ε α β σ : Type}

variable (exec : ∀ {β : Type}, Op β → σ → Except ε β × σ)

/-! ## Runs with a fault -/

/-- Run, but for one operation, counted from zero: it fails with an error and does nothing. -/
def runFailing (fault : ε) : Nat → Prog Op ε α → σ → Except ε α × σ
  | _, .done r, s => (r, s)
  | 0, .call _ _, s => (.error fault, s)
  | n + 1, .call o next, s =>
    match exec o s with
    | (.ok b, s') => runFailing fault n (next b) s'
    | (.error e, s') => (.error e, s')

/-- How many operations a run calls. -/
def opCount : Prog Op ε α → σ → Nat
  | .done _, _ => 0
  | .call o next, s =>
    match exec o s with
    | (.ok b, s') => (next b).opCount s' + 1
    | (.error _, _) => 1

/-! ## Runs that succeed -/

/-- A run that succeeds, with the stores at which it calls its operations. -/
inductive Passes : Prog Op ε α → σ → List σ → α → σ → Prop
  | done (a : α) (s : σ) : Passes (.done (.ok a)) s [] a s
  | call {γ : Type} {o : Op γ} {next : γ → Prog Op ε α} {s s₁ s' : σ} {b : γ} {stores : List σ} {a : α}
      (answer : exec o s = (.ok b, s₁)) (rest : Passes (next b) s₁ stores a s') :
      Passes (.call o next) s (s :: stores) a s'

variable {exec} {p : Prog Op ε α} {s s' : σ} {a : α} {stores : List σ}

theorem Passes.run (h : p.Passes @exec s stores a s') : p.run @exec s = (.ok a, s') := by
  induction h with
  | done => rfl
  | call answer _ ih =>
    rw [run_call, answer]
    exact ih

theorem exists_passes : ∀ {p : Prog Op ε α} {s : σ}, p.run @exec s = (.ok a, s') →
    ∃ stores, p.Passes @exec s stores a s'
  | .done r, s, h => by
    obtain ⟨rfl, rfl⟩ := Prod.mk.inj h
    exact ⟨[], .done a s⟩
  | .call o next, s, h => by
    rw [run_call] at h
    rcases hexec : exec o s with ⟨e | b, s₁⟩
    · rw [hexec] at h
      cases h
    · rw [hexec] at h
      obtain ⟨stores, hrest⟩ := exists_passes h
      exact ⟨s :: stores, .call hexec hrest⟩

/-- What a fault leaves is the store at which the operation was called. -/
theorem Passes.runFailing (h : p.Passes @exec s stores a s') (fault : ε) {n : Nat} {t : σ} (ht : stores[n]? = some t) :
    p.runFailing @exec fault n s = (.error fault, t) := by
  induction h generalizing n with
  | done => cases ht
  | call answer _ ih =>
    cases n with
    | zero =>
      obtain rfl := Option.some.inj ht
      rfl
    | succ n =>
      unfold Prog.runFailing
      rw [answer]
      exact ih ht

theorem Passes.opCount (h : p.Passes @exec s stores a s') : p.opCount @exec s = stores.length := by
  induction h with
  | done => rfl
  | call answer _ ih =>
    unfold Prog.opCount
    rw [answer]
    exact congrArg (· + 1) ih

/-! ## Passing part by part -/

theorem passes_done {r : Except ε α} : (Prog.done r : Prog Op ε α).Passes @exec s stores a s' ↔
    r = .ok a ∧ stores = [] ∧ s' = s := by
  constructor
  · rintro ⟨⟩
    exact ⟨rfl, rfl, rfl⟩
  · rintro ⟨rfl, rfl, rfl⟩
    exact .done a s'

theorem passes_done_bind {r : Except ε β} {f : β → Prog Op ε α} :
    ((Prog.done r : Prog Op ε β) >>= f).Passes @exec s stores a s' ↔ ∃ b, r = .ok b ∧
    (f b).Passes @exec s stores a s' := by
  constructor
  · intro h
    cases r with
    | error e => cases h
    | ok b => exact ⟨b, rfl, h⟩
  · rintro ⟨b, rfl, h⟩
    exact h

theorem passes_op_bind {o : Op β} {f : β → Prog Op ε α} : (op o >>= f).Passes @exec s stores a s' ↔
    ∃ b s₁ rest, exec o s = (.ok b, s₁) ∧ (f b).Passes @exec s₁ rest a s' ∧ stores = s :: rest := by
  rw [op_bind]
  constructor
  · rintro ⟨⟩
    rename_i answer rest
    exact ⟨_, _, _, answer, rest, rfl⟩
  · rintro ⟨b, s₁, rest, answer, hrest, rfl⟩
    exact .call answer hrest

end

end Prog
