/-
Programs over the operations of a shared store. A program calls its operations one at a time and
goes on with their answers; an operation that fails ends the program with its error. Two programs
on one store therefore interleave at their operations.
-/
import KeEngine.Wire.Codec

/-- A program: its result, or an operation and how to go on with the answer. -/
inductive Prog (Op : Type → Type) (ε α : Type) : Type 1
  | done (r : Except ε α)
  | call {β : Type} (op : Op β) (next : β → Prog Op ε α)

namespace Prog

section

variable {Op : Type → Type} {ε α β σ : Type}

/-! ## Building programs -/

/-- One operation, its answer as the result. -/
def op (o : Op α) : Prog Op ε α := .call o fun a => .done (.ok a)

/-- A computation that calls no operation. -/
def ofExcept (r : Except ε α) : Prog Op ε α := .done r

def bind : Prog Op ε α → (α → Prog Op ε β) → Prog Op ε β
  | .done (.ok a), f => f a
  | .done (.error e), _ => .done (.error e)
  | .call o next, f => .call o fun b => (next b).bind f

instance : Monad (Prog Op ε) where
  pure a := .done (.ok a)
  bind := bind

/-- Ended with an error. -/
def failed : Prog Op ε α → Bool
  | .done (.error _) => true
  | _ => false

@[simp] theorem pure_def (a : α) : (pure a : Prog Op ε α) = .done (.ok a) := rfl

@[simp] theorem done_ok_bind (a : α) (f : α → Prog Op ε β) : (.done (.ok a) : Prog Op ε α) >>= f = f a := rfl

@[simp] theorem done_error_bind (e : ε) (f : α → Prog Op ε β) :
    (.done (.error e) : Prog Op ε α) >>= f = .done (.error e) := rfl

@[simp] theorem call_bind {γ : Type} (o : Op γ) (next : γ → Prog Op ε α) (f : α → Prog Op ε β) :
    .call o next >>= f = .call o fun c => next c >>= f := rfl

theorem op_bind (o : Op α) (f : α → Prog Op ε β) : op o >>= f = .call o f := rfl

theorem bind_assoc {γ : Type} (f : α → Prog Op ε β) (g : β → Prog Op ε γ) :
    ∀ p : Prog Op ε α, p >>= f >>= g = p >>= fun a => f a >>= g
  | .done (.ok _) => rfl
  | .done (.error _) => rfl
  | .call o next => congrArg (Prog.call o) (funext fun c => bind_assoc f g (next c))

theorem bind_done : ∀ p : Prog Op ε α, (p >>= fun a => .done (.ok a)) = p
  | .done (.ok _) => rfl
  | .done (.error _) => rfl
  | .call o next => congrArg (Prog.call o) (funext fun c => bind_done (next c))

/-! ## Running alone -/

variable (exec : ∀ {β : Type}, Op β → σ → Except ε β × σ)

/-- Run to the end. -/
def run : Prog Op ε α → σ → Except ε α × σ
  | .done r, s => (r, s)
  | .call o next, s =>
    match exec o s with
    | (.ok b, s') => (next b).run s'
    | (.error e, s') => (.error e, s')

/-- One operation. -/
def step : Prog Op ε α → σ → Prog Op ε α × σ
  | .done r, s => (.done r, s)
  | .call o next, s =>
    match exec o s with
    | (.ok b, s') => (next b, s')
    | (.error e, s') => (.done (.error e), s')

@[simp] theorem run_done (r : Except ε α) (s : σ) : (.done r : Prog Op ε α).run exec s = (r, s) := rfl

theorem run_call {γ : Type} (o : Op γ) (next : γ → Prog Op ε α) (s : σ) :
    (Prog.call o next).run exec s =
      match exec o s with
      | (.ok b, s') => (next b).run exec s'
      | (.error e, s') => (.error e, s') := by
  rw [run]

/-- What every operation preserves, a run preserves. -/
theorem run_preserves {P : σ → Prop} (h : ∀ {γ : Type} (o : Op γ) s, P s → P (exec o s).2) :
    ∀ (p : Prog Op ε α) (s : σ), P s → P (p.run exec s).2
  | .done _, _, hs => hs
  | .call o next, s, hs => by
    have hs' := h o s hs
    rw [run_call]
    rcases hexec : exec o s with ⟨e | b, s'⟩
    · rw [hexec] at hs'
      exact hs'
    · rw [hexec] at hs'
      exact run_preserves h (next b) s' hs'

/-! ## Programs of some operations -/

/-- Every operation that the program can call is one of those allowed. -/
def Calls (allowed : ∀ {γ : Type}, Op γ → Prop) : Prog Op ε α → Prop
  | .done _ => True
  | .call o next => allowed o ∧ ∀ b, (next b).Calls allowed

section

variable {allowed : ∀ {γ : Type}, Op γ → Prop}

theorem calls_done (r : Except ε α) : (Prog.done r : Prog Op ε α).Calls allowed := trivial

theorem calls_op {o : Op α} (h : allowed o) : (op o : Prog Op ε α).Calls allowed := ⟨h, fun _ => trivial⟩

theorem Calls.bind {f : α → Prog Op ε β} (hf : ∀ a, (f a).Calls @allowed) :
    ∀ {p : Prog Op ε α}, p.Calls @allowed → (p >>= f).Calls @allowed
  | .done (.ok a), _ => hf a
  | .done (.error _), _ => trivial
  | .call _ _, ⟨ho, hnext⟩ => ⟨ho, fun b => Calls.bind hf (hnext b)⟩

theorem Calls.mono {allowed' : ∀ {γ : Type}, Op γ → Prop} (h : ∀ {γ : Type} (o : Op γ), allowed o → allowed' o) :
    ∀ {p : Prog Op ε α}, p.Calls @allowed → p.Calls @allowed'
  | .done _, _ => trivial
  | .call o _, ⟨ho, hnext⟩ => ⟨h o ho, fun b => (hnext b).mono h⟩

theorem Calls.step {p : Prog Op ε α} (h : p.Calls @allowed) (s : σ) : (p.step @exec s).1.Calls @allowed := by
  cases p with
  | done => exact trivial
  | call o next =>
    rw [Prog.step]
    split
    · exact h.2 _
    · exact trivial

/-- What the allowed operations preserve, a run preserves. -/
theorem Calls.preserves {P : σ → Prop} (h : ∀ {γ : Type} (o : Op γ) s, allowed o → P s → P (exec o s).2) :
    ∀ {p : Prog Op ε α} {s : σ}, p.Calls @allowed → P s → P (p.run exec s).2
  | .done _, _, _, hs => hs
  | .call o next, s, ⟨ho, hnext⟩, hs => by
    have hs' := h o s ho hs
    rw [run_call]
    rcases hexec : exec o s with ⟨e | b, s'⟩
    · rw [hexec] at hs'
      exact hs'
    · rw [hexec] at hs'
      exact (hnext b).preserves h hs'

end

/-! ## What holds at every turn -/

/-- A property of the number of turns and of what is left to run, at every turn that granted answers lead to. -/
def Always (granted : ∀ {γ : Type}, Op γ → γ → Prop) (P : Nat → Prog Op ε α → Prop) : Prog Op ε α → Nat → Prop
  | .done r, n => P n (.done r)
  | .call o next, n => P n (.call o next) ∧ ∀ b, granted o b → (next b).Always granted P (n + 1)

section

variable {granted : ∀ {γ : Type}, Op γ → γ → Prop} {P : Nat → Prog Op ε α → Prop} {p : Prog Op ε α} {n : Nat}

theorem Always.now (h : p.Always @granted P n) : P n p := by
  cases p with
  | done => exact h
  | call => exact h.1

theorem Always.step (h : p.Always @granted P n) {s : σ} (hdone : ∀ n r, P n (.done r))
    (hgranted : ∀ {γ : Type} (o : Op γ) b s', exec o s = (.ok b, s') → granted o b) :
    (p.step @exec s).1.Always @granted P (n + 1) := by
  cases p with
  | done r => exact hdone (n + 1) r
  | call o next =>
    rw [Prog.step]
    rcases hexec : exec o s with ⟨e | b, s'⟩
    · exact hdone (n + 1) _
    · exact h.2 b (hgranted o b s' hexec)

end

/-! ## What holds after a run -/

/-- The result and the store after the run satisfy a condition. -/
def wp (p : Prog Op ε α) (Q : Except ε α → σ → Prop) (s : σ) : Prop := Q (p.run @exec s).1 (p.run @exec s).2

theorem wp_call {γ : Type} {o : Op γ} {f : γ → Prog Op ε α} {Q : Except ε α → σ → Prop} {s s' : σ} {c : γ}
    (ho : exec o s = (.ok c, s')) (h : (f c).wp @exec Q s') : (op o >>= f).wp @exec Q s := by
  rw [op_bind]
  unfold wp at h ⊢
  rw [run_call, ho]
  exact h

theorem wp_call_error {γ : Type} {o : Op γ} {f : γ → Prog Op ε α} {Q : Except ε α → σ → Prop} {s s' : σ} {e : ε}
    (ho : exec o s = (.error e, s')) (h : Q (.error e) s') : (op o >>= f).wp @exec Q s := by
  rw [op_bind]
  unfold wp
  rw [run_call, ho]
  exact h

end

end Prog
