/-
Readers that refuse padding. The decoder of a varint accepts more bytes than the number needs; a
format without padded varints has one spelling of each value. For every codec built from the
combinators there is a reader of the same values that refuses a padded varint, and what it reads is
the encoding of the value and nothing else.
-/
import KeEngine.Wire.Prim

namespace Wire

namespace Codec

/-- A reader of what `c` writes, and of nothing else. -/
structure Unpadded {α : Type} (c : Codec α) where
  read : Bytes → Except DecodeError (α × Bytes)
  read_enc : ∀ {a : α} {p : Bytes}, c.enc a = .ok p → ∀ rest, read (p ++ rest) = .ok (a, rest)
  enc_read : ∀ {bs : Bytes} {a : α} {rest : Bytes}, read bs = .ok (a, rest) → ∃ p, c.enc a = .ok p ∧ bs = p ++ rest

/-- A reader of what an arm of a sum writes. -/
structure UnpaddedArm {α : Type} (x : Arm α) where
  read : Bytes → Except DecodeError (α × Bytes)
  read_enc : ∀ {a : α} {p : Bytes}, x.enc a = some (.ok p) → ∀ rest, read (p ++ rest) = .ok (a, rest)
  enc_read : ∀ {bs : Bytes} {a : α} {rest : Bytes}, read bs = .ok (a, rest) →
    ∃ p, x.enc a = some (.ok p) ∧ bs = p ++ rest

namespace Unpadded

/-- The whole input is one value without a padded varint. -/
def accepts {α : Type} {c : Codec α} (u : Unpadded c) (bs : Bytes) : Bool :=
  match u.read bs with
  | .ok (_, []) => true
  | _ => false

theorem accepts_iff {α : Type} {c : Codec α} (u : Unpadded c) {bs : Bytes} :
    u.accepts bs = true ↔ ∃ a, c.enc a = .ok bs := by
  unfold accepts
  constructor
  · intro h
    split at h
    · rename_i a heq
      obtain ⟨p, hp, rfl⟩ := u.enc_read heq
      exact ⟨a, by rw [List.append_nil]; exact hp⟩
    · cases h
  · rintro ⟨a, ha⟩
    have h := u.read_enc ha []
    rw [List.append_nil] at h
    rw [h]

/-- Input that decodes to a value is its encoding exactly when no varint in it is padded. -/
theorem enc_iff_accepts {α : Type} {c : Codec α} (u : Unpadded c) {bs : Bytes} {a : α}
    (h : c.dec bs = .ok (a, [])) : c.enc a = .ok bs ↔ u.accepts bs = true := by
  rw [u.accepts_iff]
  refine ⟨fun ha => ⟨a, ha⟩, ?_⟩
  rintro ⟨b, hb⟩
  have heq := c.dec_enc_nil hb
  rw [h] at heq
  cases heq
  exact hb

/-! ## Varints -/

/-- Like `takeVarint`, but a continuation that adds nothing is refused. -/
def takeMinimal (last : Nat) : Nat → Bytes → Except DecodeError (Nat × Bytes)
  | _, [] => .error .unexpectedEnd
  | 0, b :: bs => if b.toNat < 128 ∧ b.toNat ≤ last then .ok (b.toNat, bs) else .error .badVarint
  | k + 1, b :: bs =>
    if b.toNat < 128 then .ok (b.toNat, bs)
    else do
      let (n, r) ← takeMinimal last k bs
      if n = 0 then .error .badVarint else pure (b.toNat % 128 + 128 * n, r)

theorem takeMinimal_putVarint {last : Nat} (hl : last < 128) :
    ∀ {k n : Nat}, n < 128 ^ k * (last + 1) → ∀ rest, takeMinimal last k (putVarint k n ++ rest) = .ok (n, rest)
  | 0, n, h, rest => by
    have hb : (UInt8.ofNat n).toNat = n := by
      rw [UInt8.toNat_ofNat']
      exact Nat.mod_eq_of_lt (by omega)
    simp only [putVarint, List.cons_append, List.nil_append, takeMinimal, hb]
    rw [if_pos ⟨by omega, by omega⟩]
  | k + 1, n, h, rest => by
    simp only [putVarint]
    by_cases hn : n < 128
    · have hb : (UInt8.ofNat n).toNat = n := by
        rw [UInt8.toNat_ofNat']
        exact Nat.mod_eq_of_lt (by omega)
      simp only [if_pos hn, List.cons_append, List.nil_append, takeMinimal, hb]
    · have hb : (UInt8.ofNat (n % 128 + 128)).toNat = n % 128 + 128 := by
        rw [UInt8.toNat_ofNat']
        exact Nat.mod_eq_of_lt (by omega)
      have hk : n / 128 < 128 ^ k * (last + 1) := by
        apply Nat.div_lt_of_lt_mul
        calc n < 128 ^ (k + 1) * (last + 1) := h
          _ = 128 * (128 ^ k * (last + 1)) := by ring
      -- the number above 128 leaves something for the next byte
      have hpos : n / 128 ≠ 0 := by omega
      simp only [if_neg hn, List.cons_append, takeMinimal, hb]
      rw [if_neg (by omega), takeMinimal_putVarint hl hk rest]
      simp only [bind, Except.bind, if_neg hpos, pure, Except.pure, Except.ok.injEq, Prod.mk.injEq, and_true]
      omega

theorem putVarint_takeMinimal {last : Nat} (hl : last < 128) :
    ∀ {k : Nat} {bs : Bytes} {n : Nat} {rest : Bytes}, takeMinimal last k bs = .ok (n, rest) →
      n < 128 ^ k * (last + 1) ∧ bs = putVarint k n ++ rest
  | _, [], n, rest, h => by simp [takeMinimal] at h
  | 0, b :: bs, n, rest, h => by
    simp only [takeMinimal] at h
    split at h
    · rename_i hb
      cases h
      refine ⟨by omega, ?_⟩
      rw [putVarint, UInt8.ofNat_toNat]
      rfl
    · cases h
  | k + 1, b :: bs, n, rest, h => by
    simp only [takeMinimal] at h
    split at h
    · rename_i hb
      cases h
      refine ⟨?_, ?_⟩
      · calc b.toNat < 128 ^ 1 := hb
          _ ≤ 128 ^ (k + 1) := Nat.pow_le_pow_right (by omega) (by omega)
          _ ≤ 128 ^ (k + 1) * (last + 1) := Nat.le_mul_of_pos_right _ (by omega)
      · rw [putVarint, if_pos hb, UInt8.ofNat_toNat]
        rfl
    · rename_i hb
      obtain ⟨⟨m, r⟩, h1, h⟩ := bind_ok.1 h
      simp only at h
      split at h
      · cases h
      · rename_i hm
        have hs := pure_ok.1 h
        simp only [Prod.mk.injEq] at hs
        obtain ⟨rfl, rfl⟩ := hs
        obtain ⟨hlt, rfl⟩ := putVarint_takeMinimal hl h1
        have hb256 := b.toNat_lt
        have hdiv : (b.toNat % 128 + 128 * m) / 128 = m := by omega
        have hmod : (b.toNat % 128 + 128 * m) % 128 + 128 = b.toNat := by omega
        refine ⟨?_, ?_⟩
        · calc b.toNat % 128 + 128 * m < 128 * (m + 1) := by omega
            _ ≤ 128 * (128 ^ k * (last + 1)) := Nat.mul_le_mul_left _ hlt
            _ = 128 ^ (k + 1) * (last + 1) := by ring
        · rw [putVarint, if_neg (by omega), hdiv, hmod, UInt8.ofNat_toNat]
          rfl

def varint {k last : Nat} (hl : last < 128) : Unpadded (Codec.varint k last hl) where
  read := takeMinimal last k
  read_enc := by
    intro n p h rest
    unfold Codec.varint at h
    simp only at h
    split at h
    · rename_i hn
      cases h
      exact takeMinimal_putVarint hl hn rest
    · cases h
  enc_read := by
    intro bs n rest h
    obtain ⟨hn, rfl⟩ := putVarint_takeMinimal hl h
    exact ⟨_, if_pos hn, rfl⟩

def varint16 : Unpadded Codec.varint16 := varint _

def varint32 : Unpadded Codec.varint32 := varint _

def varint64 : Unpadded Codec.varint64 := varint _

def varint128 : Unpadded Codec.varint128 := varint _

/-! ## Combinators -/

def u8 : Unpadded Codec.u8 where
  read := Codec.u8.dec
  read_enc := Codec.u8.dec_enc
  enc_read := by
    intro bs a rest h
    cases bs with
    | nil => cases h
    | cons x xs => cases h; exact ⟨[a], rfl, rfl⟩

def unit : Unpadded Codec.unit where
  read := Codec.unit.dec
  read_enc := Codec.unit.dec_enc
  enc_read := by
    intro bs a rest h
    cases h
    exact ⟨[], rfl, rfl⟩

def pair {α β : Type} {c : Codec α} {d : Codec β} (u : Unpadded c) (v : Unpadded d) : Unpadded (c.pair d) where
  read bs := do
    let (a, r) ← u.read bs
    let (b, s) ← v.read r
    pure ((a, b), s)
  read_enc := by
    rintro ⟨a, b⟩ p h rest
    obtain ⟨x, y, hx, hy, rfl⟩ := pair_enc_ok.1 h
    rw [List.append_assoc, u.read_enc hx]
    simp only [bind, Except.bind]
    rw [v.read_enc hy]
    rfl
  enc_read := by
    rintro bs ⟨a, b⟩ rest h
    obtain ⟨⟨a', r⟩, h1, h⟩ := bind_ok.1 h
    obtain ⟨⟨b', s⟩, h2, h⟩ := bind_ok.1 h
    have hs := pure_ok.1 h
    simp only [Prod.mk.injEq] at hs
    obtain ⟨⟨rfl, rfl⟩, rfl⟩ := hs
    obtain ⟨x, hx, rfl⟩ := u.enc_read h1
    obtain ⟨y, hy, rfl⟩ := v.enc_read h2
    exact ⟨x ++ y, pair_enc_ok.2 ⟨x, y, hx, hy, rfl⟩, (List.append_assoc ..).symm⟩

/-- A retraction that forgets nothing of what it reads. -/
def retract {α β : Type} {c : Codec α} {f : β → α} {g : α → Option β} {e : DecodeError} {hg : ∀ b, g (f b) = some b}
    (u : Unpadded c) (hf : ∀ a b, g a = some b → f b = a) : Unpadded (c.retract f g e hg) where
  read bs := do
    let (a, r) ← u.read bs
    match g a with
    | some b => pure (b, r)
    | none => throw e
  read_enc := by
    intro b p h rest
    rw [u.read_enc h]
    simp only [bind, Except.bind, hg]
    rfl
  enc_read := by
    intro bs b rest h
    obtain ⟨⟨a, r⟩, h1, h⟩ := bind_ok.1 h
    simp only at h
    split at h
    · rename_i b' hb
      have hs := pure_ok.1 h
      simp only [Prod.mk.injEq] at hs
      obtain ⟨rfl, rfl⟩ := hs
      obtain ⟨p, hp, rfl⟩ := u.enc_read h1
      exact ⟨p, by rw [← hf a b' hb] at hp; exact hp, rfl⟩
    · cases h

def iso {α β : Type} {c : Codec α} {f : β → α} {g : α → β} {hg : ∀ b, g (f b) = b} (u : Unpadded c)
    (hf : ∀ a, f (g a) = a) : Unpadded (c.iso f g hg) :=
  u.retract fun a b h => by
    obtain rfl := Option.some.inj h
    exact hf a

def bool : Unpadded Codec.bool :=
  u8.retract fun n b h => by
    split at h
    · rename_i h0
      cases h
      exact h0.symm
    · split at h
      · rename_i h1
        cases h
        exact h1.symm
      · cases h

def option {α : Type} {c : Codec α} (u : Unpadded c) : Unpadded c.option where
  read
    | [] => .error .unexpectedEnd
    | b :: bs =>
      if b = 0 then .ok (none, bs)
      else if b = 1 then do
        let (a, r) ← u.read bs
        pure (some a, r)
      else .error .badOption
  read_enc := by
    intro a p h rest
    cases a with
    | none => cases h; rfl
    | some a =>
      obtain ⟨x, hx, h⟩ := bind_ok.1 h
      obtain rfl := pure_ok.1 h
      simp only [List.cons_append, u.read_enc hx]
      rfl
  enc_read := by
    intro bs a rest h
    cases bs with
    | nil => cases h
    | cons b bs =>
      simp only at h
      split at h
      · rename_i hb
        cases h
        exact ⟨[b], by rw [hb]; rfl, rfl⟩
      · split at h
        · rename_i hb
          obtain ⟨⟨a', r⟩, h1, h⟩ := bind_ok.1 h
          have hs := pure_ok.1 h
          simp only [Prod.mk.injEq] at hs
          obtain ⟨rfl, rfl⟩ := hs
          obtain ⟨p, hp, rfl⟩ := u.enc_read h1
          exact ⟨b :: p, bind_ok.2 ⟨p, hp, by rw [hb]; rfl⟩, rfl⟩
        · cases h

/-- Read exactly `n` values. -/
def readAll {α : Type} {c : Codec α} (u : Unpadded c) : Nat → Bytes → Except DecodeError (List α × Bytes)
  | 0, bs => .ok ([], bs)
  | n + 1, bs => do
    let (a, r) ← u.read bs
    let (as, s) ← readAll u n r
    pure (a :: as, s)

theorem readAll_encAll {α : Type} {c : Codec α} (u : Unpadded c) :
    ∀ {as : List α} {p : Bytes}, encAll c as = .ok p → ∀ rest, u.readAll as.length (p ++ rest) = .ok (as, rest)
  | [], p, h, rest => by cases h; rfl
  | a :: as, p, h, rest => by
    obtain ⟨x, hx, h⟩ := bind_ok.1 h
    obtain ⟨y, hy, h⟩ := bind_ok.1 h
    obtain rfl := pure_ok.1 h
    simp only [List.length_cons, readAll, List.append_assoc, u.read_enc hx, bind, Except.bind, readAll_encAll u hy]
    rfl

theorem encAll_readAll {α : Type} {c : Codec α} (u : Unpadded c) :
    ∀ {n : Nat} {bs : Bytes} {as : List α} {rest : Bytes}, u.readAll n bs = .ok (as, rest) →
      as.length = n ∧ ∃ p, encAll c as = .ok p ∧ bs = p ++ rest
  | 0, bs, as, rest, h => by cases h; exact ⟨rfl, [], rfl, rfl⟩
  | n + 1, bs, as, rest, h => by
    obtain ⟨⟨a, r⟩, h1, h⟩ := bind_ok.1 h
    obtain ⟨⟨as', s⟩, h2, h⟩ := bind_ok.1 h
    have hs := pure_ok.1 h
    simp only [Prod.mk.injEq] at hs
    obtain ⟨rfl, rfl⟩ := hs
    obtain ⟨x, hx, rfl⟩ := u.enc_read h1
    obtain ⟨hlen, y, hy, rfl⟩ := encAll_readAll u h2
    exact ⟨by rw [List.length_cons, hlen], x ++ y, bind_ok.2 ⟨x, hx, bind_ok.2 ⟨y, hy, rfl⟩⟩,
      (List.append_assoc ..).symm⟩

def vector {α : Type} {c : Codec α} (u : Unpadded c) (n : Nat) : Unpadded (Codec.vector c n) where
  read bs :=
    match h : u.readAll n bs with
    | .ok (as, rest) => .ok (⟨as, (encAll_readAll u h).1⟩, rest)
    | .error e => .error e
  read_enc := by
    rintro ⟨as, rfl⟩ p h rest
    have h1 := readAll_encAll u h rest
    split
    · rename_i as' rest' h2
      rw [h1] at h2
      simp only [Except.ok.injEq, Prod.mk.injEq] at h2
      obtain ⟨rfl, rfl⟩ := h2
      rfl
    · rename_i e h2
      rw [h1] at h2; cases h2
  enc_read := by
    intro bs a rest h
    split at h
    · rename_i as r h1
      cases h
      exact (encAll_readAll u h1).2
    · cases h

def list {α : Type} {len : Codec Nat} {c : Codec α} (l : Unpadded len) (u : Unpadded c) :
    Unpadded (Codec.list len c) where
  read bs := do
    let (n, r) ← l.read bs
    u.readAll n r
  read_enc := by
    intro as p h rest
    obtain ⟨x, hx, h⟩ := bind_ok.1 h
    obtain ⟨y, hy, h⟩ := bind_ok.1 h
    obtain rfl := pure_ok.1 h
    rw [List.append_assoc, l.read_enc hx]
    exact readAll_encAll u hy rest
  enc_read := by
    intro bs as rest h
    obtain ⟨⟨n, r⟩, h1, h2⟩ := bind_ok.1 h
    obtain ⟨x, hx, rfl⟩ := l.enc_read h1
    obtain ⟨rfl, y, hy, rfl⟩ := encAll_readAll u h2
    exact ⟨x ++ y, bind_ok.2 ⟨x, hx, bind_ok.2 ⟨y, hy, rfl⟩⟩, (List.append_assoc ..).symm⟩

/-! ## Tagged sums -/

/-- An arm whose data is recognised in what it builds. -/
def arm {α β : Type} {c : Codec β} {v : Variant α β} (u : Unpadded c) (hv : ∀ b, v.prj (v.inj b) = some b) :
    UnpaddedArm (c.arm v) where
  read bs := do
    let (b, r) ← u.read bs
    pure (v.inj b, r)
  read_enc := by
    intro a p h rest
    obtain ⟨b, hb, h⟩ := Option.map_eq_some_iff.1 h
    rw [u.read_enc h]
    simp only [bind, Except.bind, v.inj_prj hb]
    rfl
  enc_read := by
    intro bs a rest h
    obtain ⟨⟨b, r⟩, h1, h⟩ := bind_ok.1 h
    have hs := pure_ok.1 h
    simp only [Prod.mk.injEq] at hs
    obtain ⟨rfl, rfl⟩ := hs
    obtain ⟨p, hp, rfl⟩ := u.enc_read h1
    exact ⟨p, Option.map_eq_some_iff.2 ⟨b, hv b, hp⟩, rfl⟩

end Unpadded

/-- Readers for the arms of a sum from number `n` on, when a value belongs to the arm of the number
that `tag` gives it. -/
inductive UnpaddedArms {α : Type} (tag : α → Nat) : Nat → List (Arm α) → Type
  | nil {n : Nat} : UnpaddedArms tag n []
  | cons {n : Nat} {x : Arm α} {xs : List (Arm α)} (u : UnpaddedArm x) (h : ∀ a, (x.enc a).isSome → tag a = n)
      (us : UnpaddedArms tag (n + 1) xs) : UnpaddedArms tag n (x :: xs)

/-- An arm whose values all have the number it stands at. -/
def UnpaddedArms.arm {α β : Type} {tag : α → Nat} {n : Nat} {c : Codec β} {v : Variant α β} {xs : List (Arm α)}
    (u : Unpadded c) (hv : ∀ b, v.prj (v.inj b) = some b) (htag : ∀ b, tag (v.inj b) = n)
    (us : UnpaddedArms tag (n + 1) xs) : UnpaddedArms tag n (c.arm v :: xs) :=
  .cons (u.arm hv)
    (by
      intro a ha
      obtain ⟨r, hr⟩ := Option.isSome_iff_exists.1 ha
      obtain ⟨b, hb, -⟩ := Option.map_eq_some_iff.1 hr
      rw [← v.inj_prj hb]
      exact htag b)
    us

/-- An arm of a single value. -/
def UnpaddedArms.const {α : Type} [DecidableEq α] {tag : α → Nat} {n : Nat} {a : α} {xs : List (Arm α)}
    (htag : tag a = n)
    (us : UnpaddedArms tag (n + 1) xs) : UnpaddedArms tag n (Codec.const a :: xs) :=
  .arm Unpadded.unit (fun _ => if_pos rfl) (fun _ => htag) us

namespace Unpadded

/-- Read with the arm of a number. -/
def readArm {α : Type} {tag : α → Nat} : ∀ {n : Nat} {xs : List (Arm α)}, UnpaddedArms tag n xs → Nat → Bytes →
    Except DecodeError (α × Bytes)
  | _, _, .nil, _, _ => throw .badEnum
  | _, _, .cons u _ _, 0, bs => u.read bs
  | _, _, .cons _ _ us, i + 1, bs => readArm us i bs

theorem readArm_pick {α : Type} {tag : α → Nat} {a : α} {p : Bytes} : ∀ {n : Nat} {xs : List (Arm α)}
    (us : UnpaddedArms tag n xs) {m : Nat}, pick a n xs = some (n + m, .ok p) →
      ∀ rest, readArm us m (p ++ rest) = .ok (a, rest)
  | _, _, .nil, m, h, rest => by cases h
  | n, _, .cons (x := x) u hx us, m, h, rest => by
    simp only [pick] at h
    split at h
    · rename_i r hr
      simp only [Option.some.injEq, Prod.mk.injEq] at h
      obtain ⟨hm, rfl⟩ := h
      obtain rfl : m = 0 := by omega
      exact u.read_enc hr rest
    · cases m with
      | zero =>
        obtain ⟨i, y, hi, -⟩ := pick_some h
        omega
      | succ m =>
        rw [show n + (m + 1) = n + 1 + m by omega] at h
        exact readArm_pick us h rest

theorem pick_readArm {α : Type} {tag : α → Nat} {a : α} {rest : Bytes} : ∀ {n : Nat} {xs : List (Arm α)}
    (us : UnpaddedArms tag n xs) {m : Nat} {bs : Bytes}, readArm us m bs = .ok (a, rest) →
      tag a = n + m ∧ ∃ p, pick a n xs = some (n + m, .ok p) ∧ bs = p ++ rest
  | _, _, .nil, m, bs, h => by cases h
  | n, _, .cons (x := x) u hx us, 0, bs, h => by
    obtain ⟨p, hp, rfl⟩ := u.enc_read h
    refine ⟨hx a (by rw [hp]; rfl), p, ?_, rfl⟩
    simp only [pick, hp]
    rfl
  | n, _, .cons (x := x) u hx us, m + 1, bs, h => by
    obtain ⟨htag, p, hp, rfl⟩ := pick_readArm us h
    refine ⟨by omega, p, ?_, rfl⟩
    -- an earlier arm would have given the value its own number
    have hnone : x.enc a = none := by
      cases hxa : x.enc a with
      | none => rfl
      | some r =>
        have := hx a (by rw [hxa]; rfl)
        omega
    rw [show n + (m + 1) = n + 1 + m by omega]
    simp only [pick, hnone]
    exact hp

def choice {α : Type} {tagCodec : Codec Nat} {arms : List (Arm α)} {tag : α → Nat} (t : Unpadded tagCodec)
    (us : UnpaddedArms tag 0 arms) : Unpadded (Codec.choice tagCodec arms) where
  read bs := do
    let (n, r) ← t.read bs
    readArm us n r
  read_enc := by
    intro a p h rest
    unfold Codec.choice at h
    simp only at h
    split at h
    · rename_i n r hp
      obtain ⟨x, hx, h⟩ := bind_ok.1 h
      obtain ⟨y, rfl, h⟩ := bind_ok.1 h
      obtain rfl := pure_ok.1 h
      rw [List.append_assoc, t.read_enc hx]
      exact readArm_pick us (by rw [Nat.zero_add]; exact hp) rest
    · cases h
  enc_read := by
    intro bs a rest h
    obtain ⟨⟨n, r⟩, h1, h2⟩ := bind_ok.1 h
    obtain ⟨x, hx, rfl⟩ := t.enc_read h1
    obtain ⟨-, y, hy, rfl⟩ := pick_readArm us h2
    rw [Nat.zero_add] at hy
    refine ⟨x ++ y, ?_, (List.append_assoc ..).symm⟩
    unfold Codec.choice
    simp only [hy]
    exact bind_ok.2 ⟨x, hx, bind_ok.2 ⟨y, rfl, rfl⟩⟩

/-- The arms of an enumeration, numbered from `n`. -/
def constArms {α : Type} [DecidableEq α] {tag : α → Nat} :
    ∀ (cs : List α) (n : Nat), (∀ i (h : i < cs.length), tag cs[i] = n + i) → UnpaddedArms tag n (cs.map Codec.const)
  | [], _, _ => .nil
  | c :: cs, n, h => .const (h 0 (by simp)) (constArms cs (n + 1) fun i hi => by
      rw [← List.getElem_cons_succ c cs i (by simpa using hi), h (i + 1) (by simpa using hi)]
      omega)

/-! ## Integers and text -/

def u16 : Unpadded Codec.u16 :=
  varint16.retract fun n b h => by
    split at h
    · rename_i hn
      cases h
      rw [UInt16.toNat_ofNat_of_lt' hn]
    · cases h

def u32 : Unpadded Codec.u32 :=
  varint32.retract fun n b h => by
    split at h
    · rename_i hn
      cases h
      rw [UInt32.toNat_ofNat_of_lt' hn]
    · cases h

def u64 : Unpadded Codec.u64 :=
  varint64.retract fun n b h => by
    split at h
    · rename_i hn
      cases h
      rw [UInt64.toNat_ofNat_of_lt' hn]
    · cases h

theorem zigzag_unzigzag (n : Nat) : zigzag (unzigzag n) = n := by
  unfold zigzag unzigzag
  split <;> split <;> omega

def signed {w : Nat} {c : Codec Nat} (u : Unpadded c) : Unpadded (Codec.signed w c) :=
  u.retract fun n a h => by
    rw [SInt.ofInt?_eq_some] at h
    rw [h, zigzag_unzigzag]

def i16 : Unpadded Codec.i16 := varint16.signed

def i128 : Unpadded Codec.i128 := varint128.signed

def i8 : Unpadded Codec.i8 :=
  u8.retract fun b a h => by
    rw [SInt.ofInt?_eq_some] at h
    have hb := b.toNat_lt
    have hval : ((a.val % 256).toNat) = b.toNat := by
      rw [h]
      split <;> omega
    rw [hval, UInt8.ofNat_toNat]

def str : Unpadded Codec.str :=
  (varint64.list u8).retract fun bs s h => by
    unfold String.fromUTF8? at h
    split at h
    · cases h
      rfl
    · cases h

def seq {α : Type} {c : Codec α} (u : Unpadded c) : Unpadded (Codec.seq c) := varint64.list u

/-- A sum by its declaration order. -/
def enum {α : Type} {arms : List (Arm α)} {tag : α → Nat} (us : UnpaddedArms tag 0 arms) : Unpadded (Codec.enum arms) :=
  choice varint32 us

/-- An enumeration by its declaration order. -/
def consts {α : Type} [DecidableEq α] (tag : α → Nat) (cs : List α) (h : ∀ i (h : i < cs.length), tag cs[i] = i) :
    Unpadded (Codec.enum (cs.map const)) :=
  enum (@constArms α _ tag cs 0 fun i hi => by rw [h i hi, Nat.zero_add])

/-! ## Recursive types -/

section Limit

variable {α : Type} {F : Codec α → Codec α}

def bottom : Unpadded (Codec.bottom : Codec α) where
  read _ := .error .unexpectedEnd
  read_enc := by intro a p h; cases h
  enc_read := by intro bs a rest h; cases h

def level (hU : ∀ {c : Codec α}, Unpadded c → Unpadded (F c)) : ∀ n, Unpadded (Codec.level F n)
  | 0 => bottom
  | n + 1 => hU (level hU n)

/-- Levels from `k` on write the values of rank up to `k` alike. -/
theorem level_rank {rank : α → Nat} (hpos : ∀ a, 0 < rank a)
    (hrank : ∀ {k : Nat} {c d : Codec α}, (∀ a, rank a ≤ k → c.enc a = d.enc a) →
      ∀ a, rank a ≤ k + 1 → (F c).enc a = (F d).enc a) :
    ∀ (k n m : Nat), k ≤ n → k ≤ m → ∀ a, rank a ≤ k → (Codec.level F n).enc a = (Codec.level F m).enc a
  | 0, _, _, _, _, a, ha => absurd ha (by have := hpos a; omega)
  | k + 1, n + 1, m + 1, hn, hm, a, ha =>
    hrank (level_rank hpos hrank k n m (by omega) (by omega)) a ha

theorem level_read_enc {rank : α → Nat} (hF : Guarded F) (hU : ∀ {c : Codec α}, Unpadded c → Unpadded (F c)) {a : α}
    {p : Bytes} (h : (Codec.fix F rank hF).enc a = .ok p) (rest : Bytes) :
    (level hU ((p ++ rest).length + 1)).read (p ++ rest) = .ok (a, rest) := by
  have h1 := level_enc hF (p.length + 1) (rank a) ((p ++ rest).length + 1)
    (by rw [List.length_append]; omega) a p h (Nat.lt_succ_self _)
  exact (level hU _).read_enc h1 rest

theorem level_enc_read {rank : α → Nat} (hF : Guarded F) (hU : ∀ {c : Codec α}, Unpadded c → Unpadded (F c))
    (hpos : ∀ a, 0 < rank a)
    (hrank : ∀ {k : Nat} {c d : Codec α}, (∀ a, rank a ≤ k → c.enc a = d.enc a) →
      ∀ a, rank a ≤ k + 1 → (F c).enc a = (F d).enc a) {bs : Bytes} {a : α} {rest : Bytes}
    (h : (level hU (bs.length + 1)).read bs = .ok (a, rest)) :
    ∃ p, (Codec.fix F rank hF).enc a = .ok p ∧ bs = p ++ rest := by
  obtain ⟨p, hp, rfl⟩ := (level hU _).enc_read h
  refine ⟨p, ?_, rfl⟩
  -- the level that read the value, a level above both, and the level of the value's rank
  have h1 := level_enc hF (p.length + 1) _ (max (rank a) (p.length + 1)) (le_max_right _ _) a p hp (Nat.lt_succ_self _)
  rw [level_rank hpos hrank (rank a) _ (rank a) (le_max_left _ _) le_rfl a le_rfl] at h1
  exact h1

def fix {rank : α → Nat} {hF : Guarded F} (hU : ∀ {c : Codec α}, Unpadded c → Unpadded (F c))
    (hpos : ∀ a, 0 < rank a)
    (hrank : ∀ {k : Nat} {c d : Codec α}, (∀ a, rank a ≤ k → c.enc a = d.enc a) →
      ∀ a, rank a ≤ k + 1 → (F c).enc a = (F d).enc a) : Unpadded (Codec.fix F rank hF) where
  read bs := (level hU (bs.length + 1)).read bs
  read_enc := level_read_enc hF hU
  enc_read := level_enc_read hF hU hpos hrank

end Limit

theorem encAll_congr {α : Type} {c d : Codec α} :
    ∀ {as : List α}, (∀ a ∈ as, c.enc a = d.enc a) → encAll c as = encAll d as
  | [], _ => rfl
  | a :: as, h => by
    rw [encAll, encAll, h a (List.mem_cons_self ..), encAll_congr fun b hb => h b (List.mem_cons_of_mem _ hb)]

theorem seq_congr {α : Type} {c d : Codec α} {as : List α} (h : ∀ a ∈ as, c.enc a = d.enc a) :
    (Codec.seq c).enc as = (Codec.seq d).enc as := by
  show (do let x ← Codec.varint64.enc as.length; let y ← encAll c as; pure (x ++ y)) = _
  rw [encAll_congr h]
  rfl

end Unpadded

end Codec

end Wire
