/-
Effective windows: closed-open, by date alone. A rule without a window is always effective.
-/
import KeEngine.Core.Ir

namespace Ke

open Wire

/-- `a < b` by the key `(year, month, day)`. -/
def keyLt (a b : JurisdictionDate) : Bool :=
  decide (a.year.val < b.year.val ∨ a.year = b.year ∧ (a.month < b.month ∨ a.month = b.month ∧ a.day < b.day))

def effectiveAt (window : Option EffectiveWindow) (date : JurisdictionDate) : Bool :=
  match window with
  | none => true
  | some w =>
    if keyLt date w.effectiveFrom then false
    else
      match w.effectiveTo with
      | some to_ => keyLt date to_
      | none => true

/-! ## The order of dates -/

/-- The place of a date in the order of the keys. -/
def ordinal (d : JurisdictionDate) : Int := 65536 * d.year.val + 256 * d.month.toNat + d.day.toNat

theorem keyLt_iff (a b : JurisdictionDate) : keyLt a b = true ↔ ordinal a < ordinal b := by
  have hm := a.month.toNat_lt
  have hm' := b.month.toNat_lt
  have hd := a.day.toNat_lt
  have hd' := b.day.toNat_lt
  have hyear : a.year = b.year ↔ a.year.val = b.year.val := ⟨fun h => by rw [h], SInt.ext⟩
  unfold keyLt ordinal
  rw [decide_eq_true_eq, UInt8.lt_iff_toNat_lt, UInt8.lt_iff_toNat_lt, ← UInt8.toNat_inj, hyear]
  omega

/-- A window covers the dates from its start on, up to its end. -/
theorem effectiveAt_iff (w : EffectiveWindow) (date : JurisdictionDate) : effectiveAt (some w) date = true ↔
    ordinal w.effectiveFrom ≤ ordinal date ∧ ∀ to_ ∈ w.effectiveTo, ordinal date < ordinal to_ := by
  unfold effectiveAt
  simp only
  split
  · rename_i hlt
    rw [keyLt_iff] at hlt
    simp only [Bool.false_eq_true, false_iff, not_and]
    omega
  · rename_i hlt
    rw [keyLt_iff] at hlt
    cases w.effectiveTo with
    | none => simpa using hlt
    | some to_ => simpa [keyLt_iff] using fun _ => not_lt.1 hlt

end Ke
