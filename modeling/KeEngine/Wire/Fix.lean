/-
Codecs of recursive types: the limit of the levels `⊥, F ⊥, F (F ⊥), …` of a codec transformer `F`
that writes at least one byte before it recurses. A value is written at a level above its depth,
and read at a level above the length of the input; because `F` is guarded the two agree.
-/
import KeEngine.Wire.Codec

namespace Wire

namespace Codec

/-! ## Approximation -/

/-- `d` writes every value that `c` writes in fewer than `k` bytes, and writes it the same. -/
def EncUpTo {α : Type} (k : Nat) (c d : Codec α) : Prop :=
  ∀ a bs, c.enc a = .ok bs → bs.length < k → d.enc a = .ok bs

/-- `d` reads whatever `c` reads, and reads it the same. -/
def DecLe {α : Type} (c d : Codec α) : Prop := ∀ bs x, c.dec bs = .ok x → d.dec bs = .ok x

theorem EncUpTo.refl {α : Type} (k : Nat) (c : Codec α) : EncUpTo k c c := fun _ _ h _ => h

theorem DecLe.refl {α : Type} (c : Codec α) : DecLe c c := fun _ _ h => h

theorem EncUpTo.pair {α β : Type} {k : Nat} {c c' : Codec α} {d d' : Codec β} (hc : EncUpTo k c c')
    (hd : EncUpTo k d d') : EncUpTo k (c.pair d) (c'.pair d') := by
  intro p bs h hb
  obtain ⟨x, y, hx, hy, rfl⟩ := pair_enc_ok.1 h
  rw [List.length_append] at hb
  exact pair_enc_ok.2 ⟨x, y, hc _ _ hx (by omega), hd _ _ hy (by omega), rfl⟩

theorem DecLe.pair {α β : Type} {c c' : Codec α} {d d' : Codec β} (hc : DecLe c c') (hd : DecLe d d') :
    DecLe (c.pair d) (c'.pair d') := by
  intro bs x h
  obtain ⟨⟨a, r⟩, h1, h⟩ := bind_ok.1 h
  obtain ⟨⟨b, s⟩, h2, h⟩ := bind_ok.1 h
  exact bind_ok.2 ⟨_, hc _ _ h1, bind_ok.2 ⟨_, hd _ _ h2, h⟩⟩

theorem EncUpTo.option {α : Type} {k : Nat} {c d : Codec α} (h : EncUpTo k c d) :
    EncUpTo k c.option d.option := by
  intro a bs he hb
  cases a with
  | none => exact he
  | some a =>
    obtain ⟨x, hx, he⟩ := bind_ok.1 he
    obtain rfl := pure_ok.1 he
    rw [List.length_cons] at hb
    exact bind_ok.2 ⟨x, h _ _ hx (by omega), rfl⟩

theorem DecLe.option {α : Type} {c d : Codec α} (h : DecLe c d) : DecLe c.option d.option := by
  intro bs x hx
  cases bs with
  | nil => exact hx
  | cons b bs =>
    simp only [Codec.option] at hx ⊢
    split at hx
    · rename_i hb; rw [if_pos hb]; exact hx
    · rename_i hb
      rw [if_neg hb]
      split at hx
      · rename_i hb1
        rw [if_pos hb1]
        obtain ⟨⟨a, r⟩, h1, hx⟩ := bind_ok.1 hx
        exact bind_ok.2 ⟨_, h _ _ h1, hx⟩
      · cases hx

theorem EncUpTo.encAll {α : Type} {k : Nat} {c d : Codec α} (h : EncUpTo k c d) :
    ∀ {as : List α} {bs : Bytes}, Codec.encAll c as = .ok bs → bs.length < k → Codec.encAll d as = .ok bs
  | [], bs, he, _ => he
  | a :: as, bs, he, hb => by
    obtain ⟨x, hx, he⟩ := bind_ok.1 he
    obtain ⟨y, hy, he⟩ := bind_ok.1 he
    obtain rfl := pure_ok.1 he
    rw [List.length_append] at hb
    exact bind_ok.2 ⟨x, h _ _ hx (by omega), bind_ok.2 ⟨y, EncUpTo.encAll h hy (by omega), rfl⟩⟩

theorem DecLe.decAll {α : Type} {c d : Codec α} (h : DecLe c d) :
    ∀ {n : Nat} {bs : Bytes} {x : List α × Bytes}, Codec.decAll c n bs = .ok x → Codec.decAll d n bs = .ok x
  | 0, bs, x, he => he
  | n + 1, bs, x, he => by
    obtain ⟨⟨a, r⟩, h1, he⟩ := bind_ok.1 he
    obtain ⟨⟨as, s⟩, h2, he⟩ := bind_ok.1 he
    exact bind_ok.2 ⟨_, h _ _ h1, bind_ok.2 ⟨_, DecLe.decAll h h2, he⟩⟩

theorem EncUpTo.list {α : Type} {k : Nat} {len : Codec Nat} {c d : Codec α} (h : EncUpTo k c d) :
    EncUpTo k (Codec.list len c) (Codec.list len d) := by
  intro as bs he hb
  obtain ⟨x, hx, he⟩ := bind_ok.1 he
  obtain ⟨y, hy, he⟩ := bind_ok.1 he
  obtain rfl := pure_ok.1 he
  rw [List.length_append] at hb
  exact bind_ok.2 ⟨x, hx, bind_ok.2 ⟨y, h.encAll hy (by omega), rfl⟩⟩

theorem DecLe.list {α : Type} {len : Codec Nat} {c d : Codec α} (h : DecLe c d) :
    DecLe (Codec.list len c) (Codec.list len d) := by
  intro bs x hx
  obtain ⟨⟨n, r⟩, h1, hx⟩ := bind_ok.1 hx
  exact bind_ok.2 ⟨_, h1, h.decAll hx⟩

/-! ## Approximation of the arms of a sum -/

/-- `y` writes every value that `x` writes in fewer than `k` bytes the same, and has the same values. -/
def ArmEncUpTo {α : Type} (k : Nat) (x y : Arm α) : Prop :=
  ∀ a, ((x.enc a).isSome = (y.enc a).isSome) ∧
    ∀ bs, x.enc a = some (.ok bs) → bs.length < k → y.enc a = some (.ok bs)

def ArmDecLe {α : Type} (x y : Arm α) : Prop := ∀ bs r, x.dec bs = .ok r → y.dec bs = .ok r

theorem ArmEncUpTo.refl {α : Type} (k : Nat) (x : Arm α) : ArmEncUpTo k x x := fun _ => ⟨rfl, fun _ h _ => h⟩

theorem ArmDecLe.refl {α : Type} (x : Arm α) : ArmDecLe x x := fun _ _ h => h

theorem EncUpTo.arm {α β : Type} {k : Nat} {c d : Codec β} {v : Variant α β} (h : EncUpTo k c d) :
    ArmEncUpTo k (c.arm v) (d.arm v) := by
  intro a
  refine ⟨by simp [Codec.arm], fun bs he hb => ?_⟩
  obtain ⟨b, hb', he⟩ := Option.map_eq_some_iff.1 he
  exact Option.map_eq_some_iff.2 ⟨b, hb', h _ _ he hb⟩

theorem DecLe.arm {α β : Type} {c d : Codec β} {v : Variant α β} (h : DecLe c d) :
    ArmDecLe (c.arm v) (d.arm v) := by
  intro bs r hr
  obtain ⟨⟨b, s⟩, h1, hr⟩ := bind_ok.1 hr
  exact bind_ok.2 ⟨_, h _ _ h1, hr⟩

theorem pick_upTo {α : Type} {k : Nat} {a : α} :
    ∀ {xs ys : List (Arm α)} {n m : Nat} {bs : Bytes}, List.Forall₂ (ArmEncUpTo k) xs ys →
      pick a n xs = some (m, .ok bs) → bs.length < k → pick a n ys = some (m, .ok bs) := by
  intro xs ys n m bs hxys
  induction hxys generalizing n with
  | nil =>
    intro h _
    cases h
  | @cons x y xs ys hxy _ ih =>
    intro h hb
    simp only [pick] at h ⊢
    cases hx : x.enc a with
    | none =>
      have hy : y.enc a = none := by
        have := (hxy a).1
        rw [hx] at this
        simpa using this.symm
      rw [hx] at h; rw [hy]
      exact ih h hb
    | some r =>
      rw [hx] at h
      simp only [Option.some.injEq, Prod.mk.injEq] at h
      obtain ⟨rfl, rfl⟩ := h
      rw [(hxy a).2 bs hx hb]

/-- A sum writes its tag before the arm, so its arms may be one byte less precise. -/
theorem EncUpTo.choice {α : Type} {k : Nat} {tag : Codec Nat} {xs ys : List (Arm α)}
    (htag : ∀ n, tag.enc n ≠ .ok []) (h : List.Forall₂ (ArmEncUpTo k) xs ys) :
    EncUpTo (k + 1) (choice tag xs) (choice tag ys) := by
  intro a bs he hb
  simp only [Codec.choice] at he ⊢
  split at he
  · rename_i n r hp
    obtain ⟨x, hx, he⟩ := bind_ok.1 he
    obtain ⟨y, rfl, he⟩ := bind_ok.1 he
    obtain rfl := pure_ok.1 he
    have hne : 0 < x.length := List.length_pos_of_ne_nil (by rintro rfl; exact htag n hx)
    rw [List.length_append] at hb
    rw [pick_upTo h hp (by omega)]
    exact bind_ok.2 ⟨x, hx, rfl⟩
  · cases he

theorem DecLe.choice {α : Type} {tag : Codec Nat} {xs ys : List (Arm α)} (h : List.Forall₂ ArmDecLe xs ys) :
    DecLe (choice tag xs) (choice tag ys) := by
  intro bs r hr
  obtain ⟨⟨n, s⟩, h1, hr⟩ := bind_ok.1 hr
  refine bind_ok.2 ⟨_, h1, ?_⟩
  simp only at hr ⊢
  split at hr
  · rename_i x hx
    obtain ⟨hn, rfl⟩ := List.getElem?_eq_some_iff.1 hx
    have hl := h.length_eq
    rw [List.getElem?_eq_getElem (by omega : n < ys.length)]
    exact (List.forall₂_iff_get.1 h).2 n hn (by omega) s r hr
  · cases hr

/-! ## The limit -/

/-- `F` writes at least one byte before it uses its argument, and reads more the more it can. -/
structure Guarded {α : Type} (F : Codec α → Codec α) : Prop where
  enc : ∀ {k c d}, EncUpTo k c d → EncUpTo (k + 1) (F c) (F d)
  dec : ∀ {c d}, DecLe c d → DecLe (F c) (F d)

/-- The codec of no value. -/
def bottom {α : Type} : Codec α where
  enc _ := .error .noArm
  dec _ := .error .unexpectedEnd
  dec_enc := by intro a bs h; cases h
  dec_rest := by intro bs a rest h; cases h

/-- `n` uses of `F` on the codec of no value. -/
def level {α : Type} (F : Codec α → Codec α) : Nat → Codec α
  | 0 => bottom
  | n + 1 => F (level F n)

section Limit

variable {α : Type} {F : Codec α → Codec α}

theorem level_dec_succ (hF : Guarded F) : ∀ n, DecLe (level F n) (level F (n + 1))
  | 0 => fun _ _ h => by cases h
  | n + 1 => hF.dec (level_dec_succ hF n)

theorem level_dec_mono (hF : Guarded F) {n m : Nat} (h : n ≤ m) : DecLe (level F n) (level F m) := by
  induction h with
  | refl => exact DecLe.refl _
  | step _ ih => exact fun bs x hx => level_dec_succ hF _ bs x (ih bs x hx)

/-- Whatever any level writes in fewer than `k` bytes, level `k` already writes. -/
theorem level_enc (hF : Guarded F) : ∀ (k n m : Nat), k ≤ m → EncUpTo k (level F n) (level F m)
  | 0, _, _, _ => fun _ _ _ hb => absurd hb (Nat.not_lt_zero _)
  | _ + 1, 0, _, _ => fun _ _ h _ => by cases h
  | k + 1, n + 1, m + 1, hm => hF.enc (level_enc hF k n m (by omega))

/-- The codec of a recursive type: a value is written at the level `rank` gives it, input of `n`
bytes is read at level `n + 1`. -/
def fix (F : Codec α → Codec α) (rank : α → Nat) (hF : Guarded F) : Codec α where
  enc a := (level F (rank a)).enc a
  dec bs := (level F (bs.length + 1)).dec bs
  dec_enc := by
    intro a bs h rest
    have h1 := level_enc hF (bs.length + 1) (rank a) (bs.length + 1) le_rfl a bs h (Nat.lt_succ_self _)
    have h2 := (level F (bs.length + 1)).dec_enc h1 rest
    exact level_dec_mono hF (by rw [List.length_append]; omega) _ _ h2
  dec_rest := fun h => (level F _).dec_rest h

end Limit

end Codec

end Wire
