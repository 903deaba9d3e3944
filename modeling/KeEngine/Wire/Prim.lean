/-
The primitive codecs of a compact binary format: variable-length unsigned integers with the width
check of their type, zigzag signed integers, UTF-8 text behind a byte count, and arrays of a fixed
length. The decoder of a varint accepts a longer form than the encoder writes, so only
`dec (enc x) = x` holds here, not its converse.
-/
import KeEngine.Wire.Fix

namespace Wire

/-! ## Signed integers of a width -/

/-- A two's complement integer of `w` bits. -/
structure SInt (w : Nat) where
  val : Int
  lo : -(2 ^ (w - 1) : Int) ≤ val
  hi : val < (2 ^ (w - 1) : Int)
deriving DecidableEq

namespace SInt

variable {w : Nat}

/-- Checked conversion: `none` out of range. -/
def ofInt? (w : Nat) (n : Int) : Option (SInt w) :=
  if h : -(2 ^ (w - 1) : Int) ≤ n ∧ n < (2 ^ (w - 1) : Int) then some ⟨n, h.1, h.2⟩ else none

def fits (w : Nat) (n : Int) : Bool := decide (-(2 ^ (w - 1) : Int) ≤ n ∧ n < (2 ^ (w - 1) : Int))

/-- A literal in range. -/
def lit (w : Nat) (n : Int) (h : fits w n = true := by exact Eq.refl true) : SInt w :=
  ⟨n, (of_decide_eq_true h).1, (of_decide_eq_true h).2⟩

theorem ext {a b : SInt w} (h : a.val = b.val) : a = b := by
  cases a; cases b; simp_all

@[simp] theorem ofInt?_val (a : SInt w) : ofInt? w a.val = some a := dif_pos ⟨a.lo, a.hi⟩

theorem ofInt?_eq_some {n : Int} {a : SInt w} : ofInt? w n = some a ↔ a.val = n := by
  constructor
  · intro h
    unfold ofInt? at h
    split at h
    · cases h; rfl
    · cases h
  · rintro rfl
    exact ofInt?_val a

end SInt

namespace Codec

/-! ## Varints -/

/-- Seven bits a byte, lowest first; every byte but the last has its high bit set. -/
def putVarint : Nat → Nat → Bytes
  | 0, n => [UInt8.ofNat n]
  | k + 1, n => if n < 128 then [UInt8.ofNat n] else UInt8.ofNat (n % 128 + 128) :: putVarint k (n / 128)

/-- Read a varint of at most `k + 1` bytes; a value over `last` in the byte number `k + 1` does not
fit the type. -/
def takeVarint (last : Nat) : Nat → Bytes → Except DecodeError (Nat × Bytes)
  | _, [] => .error .unexpectedEnd
  | 0, b :: bs => if b.toNat < 128 ∧ b.toNat ≤ last then .ok (b.toNat, bs) else .error .badVarint
  | k + 1, b :: bs =>
    if b.toNat < 128 then .ok (b.toNat, bs)
    else do
      let (n, r) ← takeVarint last k bs
      pure (b.toNat % 128 + 128 * n, r)

theorem takeVarint_putVarint {last : Nat} (hl : last < 128) :
    ∀ {k n : Nat}, n < 128 ^ k * (last + 1) → ∀ rest, takeVarint last k (putVarint k n ++ rest) = .ok (n, rest)
  | 0, n, h, rest => by
    have hn : n ≤ last := by omega
    have hb : (UInt8.ofNat n).toNat = n := by
      rw [UInt8.toNat_ofNat']
      exact Nat.mod_eq_of_lt (by omega)
    simp only [putVarint, List.cons_append, List.nil_append, takeVarint, hb]
    rw [if_pos ⟨by omega, hn⟩]
  | k + 1, n, h, rest => by
    simp only [putVarint]
    by_cases hn : n < 128
    · have hb : (UInt8.ofNat n).toNat = n := by
        rw [UInt8.toNat_ofNat']
        exact Nat.mod_eq_of_lt (by omega)
      simp only [if_pos hn, List.cons_append, List.nil_append, takeVarint, hb]
    · have hb : (UInt8.ofNat (n % 128 + 128)).toNat = n % 128 + 128 := by
        rw [UInt8.toNat_ofNat']
        exact Nat.mod_eq_of_lt (by omega)
      have hk : n / 128 < 128 ^ k * (last + 1) := by
        apply Nat.div_lt_of_lt_mul
        calc n < 128 ^ (k + 1) * (last + 1) := h
          _ = 128 * (128 ^ k * (last + 1)) := by ring
      simp only [if_neg hn, List.cons_append, takeVarint, hb]
      rw [if_neg (by omega), takeVarint_putVarint hl hk rest]
      simp only [bind, Except.bind, pure, Except.pure, Except.ok.injEq, Prod.mk.injEq, and_true]
      omega

/-- What is consumed: one byte, and more exactly when its high bit is set. What follows it does not
matter. -/
theorem takeVarint_consumed {last : Nat} :
    ∀ {k : Nat} {bs : Bytes} {n : Nat} {rest : Bytes}, takeVarint last k bs = .ok (n, rest) →
      ∃ b p, bs = b :: (p ++ rest) ∧ (p = [] ↔ b.toNat < 128) ∧
        ∀ r, takeVarint last k (b :: (p ++ r)) = .ok (n, r)
  | _, [], n, rest, h => by simp [takeVarint] at h
  | 0, b :: bs, n, rest, h => by
    simp only [takeVarint] at h
    split at h
    · rename_i hb
      cases h
      exact ⟨b, [], rfl, by simp [hb.1], fun r => if_pos hb⟩
    · cases h
  | k + 1, b :: bs, n, rest, h => by
    simp only [takeVarint] at h
    split at h
    · rename_i hb
      cases h
      exact ⟨b, [], rfl, by simp [hb], fun r => if_pos hb⟩
    · rename_i hb
      obtain ⟨⟨m, r⟩, h1, h⟩ := bind_ok.1 h
      have hs := pure_ok.1 h
      simp only [Prod.mk.injEq] at hs
      obtain ⟨rfl, rfl⟩ := hs
      obtain ⟨c, p, rfl, -, hframe⟩ := takeVarint_consumed h1
      refine ⟨b, c :: p, rfl, by simp [hb], fun r => ?_⟩
      simp only [List.cons_append, takeVarint]
      rw [if_neg hb, hframe]
      rfl

theorem takeVarint_prefix {last k : Nat} {bs : Bytes} {n : Nat} {rest : Bytes}
    (h : takeVarint last k bs = .ok (n, rest)) : ∃ pre, bs = pre ++ rest := by
  obtain ⟨b, p, rfl, -⟩ := takeVarint_consumed h
  exact ⟨b :: p, rfl⟩

/-- What is read fits the type. -/
theorem takeVarint_lt {last : Nat} :
    ∀ {k : Nat} {bs : Bytes} {n : Nat} {rest : Bytes}, takeVarint last k bs = .ok (n, rest) → n < 128 ^ k * (last + 1)
  | _, [], n, rest, h => by simp [takeVarint] at h
  | 0, b :: bs, n, rest, h => by
    simp only [takeVarint] at h
    split at h
    · rename_i hb
      cases h
      omega
    · cases h
  | k + 1, b :: bs, n, rest, h => by
    simp only [takeVarint] at h
    split at h
    · rename_i hb
      cases h
      calc b.toNat < 128 ^ 1 := hb
        _ ≤ 128 ^ (k + 1) := Nat.pow_le_pow_right (by omega) (by omega)
        _ ≤ 128 ^ (k + 1) * (last + 1) := Nat.le_mul_of_pos_right _ (by omega)
    · obtain ⟨⟨m, r⟩, h1, h⟩ := bind_ok.1 h
      have hs := pure_ok.1 h
      simp only [Prod.mk.injEq] at hs
      obtain ⟨rfl, -⟩ := hs
      calc b.toNat % 128 + 128 * m < 128 * (m + 1) := by omega
        _ ≤ 128 * (128 ^ k * (last + 1)) := Nat.mul_le_mul_left _ (takeVarint_lt h1)
        _ = 128 ^ (k + 1) * (last + 1) := by ring

/-- The varint of the numbers below `128 ^ k * (last + 1)`. -/
def varint (k last : Nat) (hl : last < 128) : Codec Nat where
  enc n := if n < 128 ^ k * (last + 1) then .ok (putVarint k n) else .error .overflow
  dec := takeVarint last k
  dec_enc := by
    intro n bs h rest
    split at h
    · rename_i hn
      cases h
      exact takeVarint_putVarint hl hn rest
    · cases h
  dec_rest := takeVarint_prefix

theorem putVarint_ne_nil : ∀ k n, putVarint k n ≠ []
  | 0, _ => by simp [putVarint]
  | k + 1, n => by
    simp only [putVarint]
    split <;> simp

theorem varint_enc_ne_nil {k last : Nat} {hl : last < 128} (n : Nat) : (varint k last hl).enc n ≠ .ok [] := by
  intro h
  simp only [varint] at h
  split at h
  · exact putVarint_ne_nil k n (Except.ok.inj h)
  · cases h

/-- The values of 16, 32, 64 and 128 bits: at most 3, 5, 10 and 19 bytes. -/
def varint16 : Codec Nat := varint 2 3 (by decide)

def varint32 : Codec Nat := varint 4 15 (by decide)

def varint64 : Codec Nat := varint 9 1 (by decide)

def varint128 : Codec Nat := varint 18 3 (by decide)

theorem varint32_enc {n : Nat} (h : n < 2 ^ 32) : varint32.enc n = .ok (putVarint 4 n) := if_pos (by omega)

theorem varint64_enc {n : Nat} (h : n < 2 ^ 64) : varint64.enc n = .ok (putVarint 9 n) := if_pos (by omega)

/-! ## Integers -/

def u16 : Codec UInt16 :=
  varint16.retract UInt16.toNat (fun n => if n < 2 ^ 16 then some (UInt16.ofNat n) else none) .badVarint
    (fun a => by rw [if_pos (UInt16.toNat_lt a), UInt16.ofNat_toNat])

def u32 : Codec UInt32 :=
  varint32.retract UInt32.toNat (fun n => if n < 2 ^ 32 then some (UInt32.ofNat n) else none) .badVarint
    (fun a => by rw [if_pos (UInt32.toNat_lt a), UInt32.ofNat_toNat])

def u64 : Codec UInt64 :=
  varint64.retract UInt64.toNat (fun n => if n < 2 ^ 64 then some (UInt64.ofNat n) else none) .badVarint
    (fun a => by rw [if_pos (UInt64.toNat_lt a), UInt64.ofNat_toNat])

/-- Signed to unsigned, small magnitudes to small numbers: `0, -1, 1, -2, …` to `0, 1, 2, 3, …`. -/
def zigzag (n : Int) : Nat := if 0 ≤ n then (2 * n).toNat else (-2 * n - 1).toNat

def unzigzag (n : Nat) : Int := if n % 2 = 0 then (n / 2 : Nat) else -((n / 2 : Nat) : Int) - 1

theorem unzigzag_zigzag (n : Int) : unzigzag (zigzag n) = n := by
  unfold unzigzag zigzag
  split <;> split <;> omega

/-- A signed integer of `w` bits through a varint of that width. -/
def signed (w : Nat) (c : Codec Nat) : Codec (SInt w) :=
  c.retract (fun a => zigzag a.val) (fun n => SInt.ofInt? w (unzigzag n)) .badVarint
    (fun a => by rw [unzigzag_zigzag, SInt.ofInt?_val])

def i16 : Codec (SInt 16) := signed 16 varint16

def i128 : Codec (SInt 128) := signed 128 varint128

/-- A signed byte is written raw, in two's complement. -/
def i8 : Codec (SInt 8) :=
  u8.retract (fun a => UInt8.ofNat ((a.val % 256).toNat))
    (fun b => SInt.ofInt? 8 (if b.toNat < 128 then b.toNat else (b.toNat : Int) - 256)) .badVarint
    (fun a => by
      have h1 := a.lo
      have h2 := a.hi
      rw [SInt.ofInt?_eq_some, UInt8.toNat_ofNat']
      norm_num at h1 h2 ⊢
      split <;> omega)

/-! ## Text and fixed arrays -/

/-- UTF-8 behind its byte count. -/
def str : Codec String :=
  (Codec.list varint64 u8).retract (fun s => s.toByteArray.data.toList)
    (fun bs => String.fromUTF8? ⟨bs.toArray⟩) .badUtf8
    (fun s => by
      have h : (⟨s.toByteArray.data.toList.toArray⟩ : ByteArray) = s.toByteArray := by simp
      rw [h]
      exact dif_pos s.isValidUTF8)

/-- A text that was read can be written. -/
theorem str_reencodes {bs rest : Bytes} {s : String} (h : str.dec bs = .ok (s, rest)) : ∃ p, str.enc s = .ok p := by
  obtain ⟨⟨as, r⟩, has, h⟩ := bind_ok.1 h
  obtain ⟨⟨n, t⟩, hn, hall⟩ := bind_ok.1 has
  have hlen := decAll_length _ hall
  have hlt : as.length < 2 ^ 64 := by
    rw [hlen]
    exact takeVarint_lt hn
  have hs : s.toByteArray.data.toList = as := by
    simp only at h
    split at h
    · rename_i s' hs'
      have hp := pure_ok.1 h
      simp only [Prod.mk.injEq] at hp
      obtain ⟨rfl, -⟩ := hp
      unfold String.fromUTF8? at hs'
      split at hs'
      · cases hs'
        rfl
      · cases hs'
    · cases h
  rw [← hs] at hlt
  exact ⟨_, bind_ok.2 ⟨_, varint64_enc hlt, bind_ok.2 ⟨_, encAll_u8 _, rfl⟩⟩⟩

/-- A sequence behind its length. -/
def seq {α : Type} (c : Codec α) : Codec (List α) := Codec.list varint64 c

/-- An enumeration or a sum by its declaration order. -/
def enum {α : Type} (arms : List (Arm α)) : Codec α := choice varint32 arms

/-- The arm of a constructor without data. -/
def const {α : Type} [DecidableEq α] (a : α) : Arm α :=
  unit.arm {
    inj := fun _ => a
    prj := fun b => if b = a then some () else none
    inj_prj := by
      intro b u h
      split at h
      · rename_i hb; exact hb.symm
      · cases h }

/-- Of an enumeration only its number is consumed. -/
theorem enum_const_consumed {α : Type} [DecidableEq α] {cs : List α} {bs rest : Bytes} {a : α}
    (h : (enum (cs.map const)).dec bs = .ok (a, rest)) :
    ∃ b p, bs = b :: (p ++ rest) ∧ (p = [] ↔ b.toNat < 128) ∧
      ∀ r, (enum (cs.map const)).dec (b :: (p ++ r)) = .ok (a, r) := by
  obtain ⟨⟨n, s⟩, hn, harm⟩ := bind_ok.1 h
  obtain ⟨b, p, rfl, hp, hframe⟩ := takeVarint_consumed hn
  simp only at harm
  split at harm
  · rename_i x hx
    obtain ⟨c, hc, rfl⟩ := List.mem_map.1 (List.mem_of_getElem? hx)
    cases harm
    refine ⟨b, p, rfl, hp, fun r => bind_ok.2 ⟨(n, r), hframe r, ?_⟩⟩
    simp only [hx]
    rfl
  · cases harm

end Codec

end Wire
