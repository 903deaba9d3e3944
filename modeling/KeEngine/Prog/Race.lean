/-
Two programs on one store, one operation of one of them at a time, by a schedule.
-/
import KeEngine.Prog.Basic

/-- Two running programs and the store they share. -/
structure Race (Op : Type → Type) (ε α σ : Type) : Type 1 where
  left : Prog Op ε α
  right : Prog Op ε α
  store : σ

/-- An operation that was called, with the answer. -/
structure Call (Op : Type → Type) (ε : Type) : Type 1 where
  {β : Type}
  op : Op β
  answer : Except ε β

namespace Race

section

variable {Op : Type → Type} {ε α σ : Type}

def side (c : Race Op ε α σ) (who : Bool) : Prog Op ε α := if who then c.left else c.right

variable (exec : ∀ {β : Type}, Op β → σ → Except ε β × σ)

/-- One operation of the left program on `true`, of the right one on `false`. -/
def turn (c : Race Op ε α σ) : Bool → Race Op ε α σ
  | true => ⟨(c.left.step exec c.store).1, c.right, (c.left.step exec c.store).2⟩
  | false => ⟨c.left, (c.right.step exec c.store).1, (c.right.step exec c.store).2⟩

def run (c : Race Op ε α σ) (schedule : List Bool) : Race Op ε α σ := schedule.foldl (turn exec) c

/-- The operation a program calls next. -/
def nextCall : Prog Op ε α → σ → List (Call Op ε)
  | .done _, _ => []
  | .call o _, s => [⟨o, (exec o s).1⟩]

/-- The operations called by either side, in order. -/
def calls (c : Race Op ε α σ) : List Bool → List (Bool × Call Op ε)
  | [] => []
  | who :: schedule => (nextCall exec (c.side who) c.store).map (who, ·) ++ calls (c.turn exec who) schedule

@[simp] theorem run_nil (c : Race Op ε α σ) : c.run exec [] = c := rfl

@[simp] theorem run_cons (c : Race Op ε α σ) (who : Bool) (schedule : List Bool) :
    c.run exec (who :: schedule) = (c.turn exec who).run exec schedule := rfl

/-- What either side's operations preserve, every schedule preserves. -/
theorem run_preserves {P : Race Op ε α σ → Prop} (h : ∀ c who, P c → P (c.turn exec who)) :
    ∀ (schedule : List Bool) (c : Race Op ε α σ), P c → P (c.run exec schedule)
  | [], _, hc => hc
  | who :: schedule, c, hc => run_preserves h schedule (c.turn exec who) (h c who hc)

/-! ### One turn -/

theorem side_turn (c : Race Op ε α σ) (who : Bool) :
    (c.turn exec who).side who = ((c.side who).step exec c.store).1 := by
  cases who <;> rfl

theorem side_turn_other (c : Race Op ε α σ) (who : Bool) : (c.turn exec who).side (!who) = c.side (!who) := by
  cases who <;> rfl

theorem store_turn (c : Race Op ε α σ) (who : Bool) : (c.turn exec who).store = ((c.side who).step exec c.store).2 := by
  cases who <;> rfl

theorem calls_append (after : List Bool) : ∀ (before : List Bool) (c : Race Op ε α σ),
    c.calls exec (before ++ after) = c.calls exec before ++ (c.run exec before).calls exec after
  | [], _ => rfl
  | who :: before, c => by
    rw [List.cons_append, calls, calls, calls_append after before, List.append_assoc]
    rfl

/-- Sides that go through known stages on an unchanged store are where their turns have brought them. -/
theorem run_stages {s : σ} {stage : Bool → Nat → Prog Op ε α} {bound : Nat}
    (h : ∀ who n, n < bound → (stage who n).step exec s = (stage who (n + 1), s)) :
    ∀ (schedule : List Bool) (n m : Nat), n + schedule.count true ≤ bound → m + schedule.count false ≤ bound →
      (Race.mk (stage true n) (stage false m) s).run exec schedule =
        ⟨stage true (n + schedule.count true), stage false (m + schedule.count false), s⟩
  | [], n, m, _, _ => rfl
  | true :: schedule, n, m, hn, hm => by
    rw [List.count_cons_self] at hn
    rw [List.count_cons_of_ne (by decide)] at hm
    have hturn : (Race.mk (stage true n) (stage false m) s).turn exec true =
        ⟨stage true (n + 1), stage false m, s⟩ := by
      show Race.mk ((stage true n).step exec s).1 _ ((stage true n).step exec s).2 = _
      rw [h true n (by omega)]
    rw [run_cons, hturn, run_stages h schedule (n + 1) m (by omega) hm, List.count_cons_self,
      List.count_cons_of_ne (by decide), Nat.add_right_comm, Nat.add_assoc n]
  | false :: schedule, n, m, hn, hm => by
    rw [List.count_cons_self] at hm
    rw [List.count_cons_of_ne (by decide)] at hn
    have hturn : (Race.mk (stage true n) (stage false m) s).turn exec false =
        ⟨stage true n, stage false (m + 1), s⟩ := by
      show Race.mk _ ((stage false m).step exec s).1 ((stage false m).step exec s).2 = _
      rw [h false m (by omega)]
    rw [run_cons, hturn, run_stages h schedule n (m + 1) hn (by omega), List.count_cons_self,
      List.count_cons_of_ne (by decide), Nat.add_right_comm, Nat.add_assoc m]

/-! ### Whole schedules -/

/-- A log that every operation extends by what is observed of it is, in the end, extended by what
is observed of all the calls. -/
theorem log_calls {γ : Type} {log : σ → List γ} {seen : Call Op ε → List γ}
    (h : ∀ {β : Type} (o : Op β) s, log (exec o s).2 = log s ++ seen ⟨o, (exec o s).1⟩) :
    ∀ (schedule : List Bool) (c : Race Op ε α σ),
      log (c.run exec schedule).store = log c.store ++ (c.calls exec schedule).flatMap fun p => seen p.2
  | [], c => by simp [calls]
  | who :: schedule, c => by
    have hstep : ∀ (p : Prog Op ε α) (s : σ), log (p.step exec s).2 = log s ++ (nextCall exec p s).flatMap seen := by
      intro p s
      cases p with
      | done r => simp [Prog.step, nextCall]
      | call o next =>
        have ho := h o s
        simp only [Prog.step, nextCall, List.flatMap_cons, List.flatMap_nil, List.append_nil]
        rw [← ho]
        rcases exec o s with ⟨e | b, s'⟩ <;> rfl
    have hturn : log (c.turn exec who).store = log c.store ++ (nextCall exec (c.side who) c.store).flatMap seen := by
      cases who
      · exact hstep c.right c.store
      · exact hstep c.left c.store
    rw [run_cons, log_calls h schedule, hturn, calls, List.flatMap_append, List.append_assoc, List.flatMap_map]

/-- A side that has ended stays as it is. -/
theorem side_turn_of_done {c : Race Op ε α σ} {who : Bool} {r : Except ε α} (h : c.side who = .done r) (by_ : Bool) :
    (c.turn exec by_).side who = .done r := by
  cases who <;> cases by_ <;> simp only [side, Bool.false_eq_true, if_true, if_false] at h ⊢ <;>
    simp [turn, h, Prog.step]

/-- A side one of whose operations failed has failed. -/
theorem failed_of_call : ∀ (schedule : List Bool) (c : Race Op ε α σ) {who : Bool} {β : Type} {o : Op β} {e : ε},
    (who, ⟨o, .error e⟩) ∈ c.calls exec schedule → ((c.run exec schedule).side who).failed = true
  | [], c, who, β, o, e, h => by cases h
  | by_ :: schedule, c, who, β, o, e, h => by
    rcases List.mem_append.1 h with h | h
    · obtain ⟨call, hcall, heq⟩ := List.mem_map.1 h
      obtain ⟨rfl, rfl⟩ := Prod.mk.inj heq
      have hended : (c.turn exec by_).side by_ = .done (.error e) := by
        have hstep : ∀ (p : Prog Op ε α) (s : σ), (⟨o, .error e⟩ : Call Op ε) ∈ nextCall exec p s →
            (p.step exec s).1 = .done (.error e) := by
          intro p s hp
          cases p with
          | done r => cases hp
          | call o' next =>
            simp only [nextCall, List.mem_singleton, Call.mk.injEq] at hp
            obtain ⟨rfl, ho, ha⟩ := hp
            have ho := eq_of_heq ho
            subst ho
            have ha := eq_of_heq ha
            rw [Prog.step]
            rcases hx : exec o s with ⟨e' | b, s'⟩
            · rw [hx] at ha
              cases ha
              rfl
            · rw [hx] at ha
              cases ha
        cases by_
        · exact hstep c.right c.store hcall
        · exact hstep c.left c.store hcall
      have hstay : ((c.turn exec by_).run exec schedule).side by_ = .done (.error e) :=
        run_preserves exec (P := fun c' => c'.side by_ = .done (.error e))
          (fun _ by' hc' => side_turn_of_done exec hc' by') schedule _ hended
      rw [run_cons, hstay]
      rfl
    · exact failed_of_call schedule (c.turn exec by_) h

end

end Race
