/-
A byte codec as an encoder that may refuse a value, a decoder that reads one value off the front
of its input, and the two laws every layer above relies on: what is encoded is read back whatever
follows it, and a decoder only ever consumes a prefix. Products, options, sequences, tagged sums
and the retraction of a codec along a partial inverse keep the laws, so a format that is a
composition of these inherits them.
-/
import Mathlib

namespace Wire

abbrev Bytes := List UInt8

/-- Why a decoder refuses its input. -/
inductive DecodeError
  | unexpectedEnd
  | badVarint
  | badBool
  | badOption
  | badEnum
  | badUtf8
deriving DecidableEq, Repr

/-- Why an encoder refuses a value: a number its width cannot hold (a sequence too long for its
length prefix), or a value of no arm of a sum. -/
inductive EncodeError
  | overflow
  | noArm
deriving DecidableEq, Repr

/-! ## Codecs -/

/-- A codec: `enc` writes a value, `dec` reads one off the front and returns the rest. -/
structure Codec (α : Type) where
  enc : α → Except EncodeError Bytes
  dec : Bytes → Except DecodeError (α × Bytes)
  dec_enc : ∀ {a : α} {bs : Bytes}, enc a = .ok bs → ∀ rest, dec (bs ++ rest) = .ok (a, rest)
  dec_rest : ∀ {bs : Bytes} {a : α} {rest : Bytes}, dec bs = .ok (a, rest) → ∃ pre, bs = pre ++ rest

/-- A bind of `Except` succeeds exactly when both parts do. -/
theorem bind_ok {ε α β : Type} {x : Except ε α} {f : α → Except ε β} {b : β} :
    x >>= f = .ok b ↔ ∃ a, x = .ok a ∧ f a = .ok b := by
  cases x with
  | error e => simp [bind, Except.bind]
  | ok a => simp [bind, Except.bind]

theorem pure_ok {ε α : Type} {a b : α} : (pure a : Except ε α) = .ok b ↔ a = b := by
  simp [pure, Except.pure]

theorem map_ok {ε α β : Type} {x : Except ε α} {f : α → β} {b : β} :
    x.map f = .ok b ↔ ∃ a, x = .ok a ∧ f a = b := by
  cases x <;> simp [Except.map]

theorem toOption_ok {ε α : Type} {x : Except ε α} {a : α} : x.toOption = some a ↔ x = .ok a := by
  cases x <;> simp [Except.toOption]

/-- A guard of a `do` block: it passes exactly when its condition fails and the rest passes. -/
theorem throw_else {ε β : Type} {c : Prop} [Decidable c] {e : ε} {k : Unit → Except ε β} {b : β} :
    (if c then (throw e : Except ε Unit) >>= k else k ()) = .ok b ↔ ¬ c ∧ k () = .ok b := by
  by_cases hc : c
  · rw [if_pos hc]
    exact ⟨nofun, fun h => absurd hc h.1⟩
  · rw [if_neg hc]
    exact ⟨fun h => ⟨hc, h⟩, fun h => h.2⟩

/-- A missing value is an error. -/
theorem elim_throw {ε α : Type} {o : Option α} {e : ε} {a : α} :
    (o.elim (throw e) pure : Except ε α) = .ok a ↔ o = some a := by
  cases o with
  | none => exact ⟨nofun, nofun⟩
  | some b => exact pure_ok.trans Option.some_inj.symm

theorem exists_ok {ε α : Type} {x : Except ε α} (h : x.isOk = true) : ∃ a, x = .ok a := by
  cases x with
  | error e => cases h
  | ok a => exact ⟨a, rfl⟩

theorem exists_ok_and {ε α : Type} {x : Except ε α} {p : α → Bool} (h : x.toOption.any p = true) :
    ∃ a, x = .ok a ∧ p a = true := by
  cases x with
  | error e => cases h
  | ok a => exact ⟨a, rfl, h⟩

namespace Codec

/-- Reading back a whole encoding leaves nothing. -/
theorem dec_enc_nil {α : Type} (c : Codec α) {a : α} {bs : Bytes} (h : c.enc a = .ok bs) :
    c.dec bs = .ok (a, []) := by
  simpa using c.dec_enc h []

/-- Two values with encodings that agree up to what follows are equal, and so is what follows. -/
theorem enc_inj {α : Type} (c : Codec α) {a b : α} {bs cs r s : Bytes} (ha : c.enc a = .ok bs)
    (hb : c.enc b = .ok cs) (h : bs ++ r = cs ++ s) : a = b ∧ r = s := by
  have h1 := c.dec_enc ha r
  rw [h, c.dec_enc hb s] at h1
  simp only [Except.ok.injEq, Prod.mk.injEq] at h1
  exact ⟨h1.1.symm, h1.2.symm⟩

theorem enc_injective {α : Type} (c : Codec α) {a b : α} {bs : Bytes} (ha : c.enc a = .ok bs)
    (hb : c.enc b = .ok bs) : a = b :=
  (c.enc_inj ha hb (r := []) (s := []) rfl).1

/-! ## One byte -/

/-- A raw byte. -/
def u8 : Codec UInt8 where
  enc b := .ok [b]
  dec
    | [] => .error .unexpectedEnd
    | b :: bs => .ok (b, bs)
  dec_enc := by
    intro a bs h rest
    cases h; rfl
  dec_rest := by
    intro bs a rest h
    cases bs with
    | nil => cases h
    | cons x xs => cases h; exact ⟨[a], rfl⟩

/-! ## Products and retractions -/

/-- Two codecs one after the other. -/
def pair {α β : Type} (c : Codec α) (d : Codec β) : Codec (α × β) where
  enc p := do
    let x ← c.enc p.1
    let y ← d.enc p.2
    pure (x ++ y)
  dec bs := do
    let (a, r) ← c.dec bs
    let (b, s) ← d.dec r
    pure ((a, b), s)
  dec_enc := by
    rintro ⟨a, b⟩ bs h rest
    obtain ⟨x, hx, h⟩ := bind_ok.1 h
    obtain ⟨y, hy, h⟩ := bind_ok.1 h
    obtain rfl := pure_ok.1 h
    rw [List.append_assoc, c.dec_enc hx]
    simp only [bind, Except.bind]
    rw [d.dec_enc hy]
    rfl
  dec_rest := by
    rintro bs ⟨a, b⟩ rest h
    obtain ⟨⟨a', r⟩, h1, h⟩ := bind_ok.1 h
    obtain ⟨⟨b', s⟩, h2, h⟩ := bind_ok.1 h
    have hs := pure_ok.1 h
    simp only [Prod.mk.injEq] at hs
    obtain ⟨-, rfl⟩ := hs
    obtain ⟨p, rfl⟩ := c.dec_rest h1
    obtain ⟨q, rfl⟩ := d.dec_rest h2
    exact ⟨p ++ q, (List.append_assoc ..).symm⟩

theorem pair_enc_ok {α β : Type} {c : Codec α} {d : Codec β} {p : α × β} {bs : Bytes} :
    (pair c d).enc p = .ok bs ↔ ∃ x y, c.enc p.1 = .ok x ∧ d.enc p.2 = .ok y ∧ bs = x ++ y := by
  constructor
  · intro h
    obtain ⟨x, hx, h⟩ := bind_ok.1 h
    obtain ⟨y, hy, h⟩ := bind_ok.1 h
    exact ⟨x, y, hx, hy, (pure_ok.1 h).symm⟩
  · rintro ⟨x, y, hx, hy, rfl⟩
    exact bind_ok.2 ⟨x, hx, bind_ok.2 ⟨y, hy, rfl⟩⟩

theorem pair_dec {α β : Type} {c : Codec α} {d : Codec β} {bs : Bytes} {a : α} {b : β} {rest : Bytes} :
    (pair c d).dec bs = .ok ((a, b), rest) ↔ ∃ r, c.dec bs = .ok (a, r) ∧ d.dec r = .ok (b, rest) := by
  constructor
  · intro h
    obtain ⟨⟨a', r⟩, h1, h⟩ := bind_ok.1 h
    obtain ⟨⟨b', s⟩, h2, h⟩ := bind_ok.1 h
    have hs := pure_ok.1 h
    simp only [Prod.mk.injEq] at hs
    obtain ⟨⟨rfl, rfl⟩, rfl⟩ := hs
    exact ⟨r, h1, h2⟩
  · rintro ⟨r, h1, h2⟩
    exact bind_ok.2 ⟨(a, r), h1, bind_ok.2 ⟨(b, rest), h2, rfl⟩⟩

/-- A codec of `α` read as one of `β`: `g` may refuse a decoded value, with the error `e`. -/
def retract {α β : Type} (c : Codec α) (f : β → α) (g : α → Option β) (e : DecodeError)
    (hg : ∀ b, g (f b) = some b) : Codec β where
  enc b := c.enc (f b)
  dec bs := do
    let (a, r) ← c.dec bs
    match g a with
    | some b => pure (b, r)
    | none => throw e
  dec_enc := by
    intro b bs h rest
    rw [c.dec_enc h]
    simp only [bind, Except.bind, hg]
    rfl
  dec_rest := by
    intro bs b rest h
    obtain ⟨⟨a, r⟩, h1, h⟩ := bind_ok.1 h
    simp only at h
    split at h
    · have hs := pure_ok.1 h
      simp only [Prod.mk.injEq] at hs
      obtain ⟨-, rfl⟩ := hs
      exact c.dec_rest h1
    · cases h

/-- A codec of `α` read as one of the equivalent `β`. -/
def iso {α β : Type} (c : Codec α) (f : β → α) (g : α → β) (hg : ∀ b, g (f b) = b) : Codec β :=
  c.retract f (fun a => some (g a)) .badEnum (fun b => by rw [hg])

theorem iso_dec {α β : Type} {c : Codec α} {f : β → α} {g : α → β} {hg : ∀ b, g (f b) = b} {bs : Bytes}
    {b : β} {rest : Bytes} :
    (iso c f g hg).dec bs = .ok (b, rest) ↔ ∃ a, c.dec bs = .ok (a, rest) ∧ g a = b := by
  constructor
  · intro h
    obtain ⟨⟨a, r⟩, h1, h⟩ := bind_ok.1 h
    have hs := pure_ok.1 h
    simp only [Prod.mk.injEq] at hs
    exact ⟨a, by rw [h1, hs.2], hs.1⟩
  · rintro ⟨a, h1, rfl⟩
    exact bind_ok.2 ⟨(a, rest), h1, rfl⟩

/-- A codec of no bytes. -/
def unit : Codec Unit where
  enc _ := .ok []
  dec bs := .ok ((), bs)
  dec_enc := by
    intro a bs h rest
    cases h; rfl
  dec_rest := by
    intro bs a rest h
    cases h; exact ⟨[], rfl⟩

/-- `true` is the byte one and `false` the byte zero; any other byte is refused. -/
def bool : Codec Bool :=
  u8.retract (fun b => if b then 1 else 0)
    (fun n => if n = 0 then some false else if n = 1 then some true else none) .badBool
    (fun b => by cases b <;> rfl)

/-- A presence byte, then the value when there is one. -/
def option {α : Type} (c : Codec α) : Codec (Option α) where
  enc
    | none => .ok [0]
    | some a => do
      let x ← c.enc a
      pure (1 :: x)
  dec
    | [] => .error .unexpectedEnd
    | b :: bs =>
      if b = 0 then .ok (none, bs)
      else if b = 1 then do
        let (a, r) ← c.dec bs
        pure (some a, r)
      else .error .badOption
  dec_enc := by
    intro a bs h rest
    cases a with
    | none => cases h; rfl
    | some a =>
      obtain ⟨x, hx, h⟩ := bind_ok.1 h
      obtain rfl := pure_ok.1 h
      simp only [List.cons_append, c.dec_enc hx]
      rfl
  dec_rest := by
    intro bs a rest h
    cases bs with
    | nil => cases h
    | cons b bs =>
      simp only at h
      split at h
      · cases h; exact ⟨[b], rfl⟩
      · split at h
        · obtain ⟨⟨a', r⟩, h1, h⟩ := bind_ok.1 h
          have hs := pure_ok.1 h
          simp only [Prod.mk.injEq] at hs
          obtain ⟨-, rfl⟩ := hs
          obtain ⟨p, rfl⟩ := c.dec_rest h1
          exact ⟨b :: p, rfl⟩
        · cases h

/-! ## Repetition -/

/-- The encodings of the elements of a list, one after the other. -/
def encAll {α : Type} (c : Codec α) : List α → Except EncodeError Bytes
  | [] => .ok []
  | a :: as => do
    let x ← c.enc a
    let y ← encAll c as
    pure (x ++ y)

/-- Read exactly `n` values. -/
def decAll {α : Type} (c : Codec α) : Nat → Bytes → Except DecodeError (List α × Bytes)
  | 0, bs => .ok ([], bs)
  | n + 1, bs => do
    let (a, r) ← c.dec bs
    let (as, s) ← decAll c n r
    pure (a :: as, s)

theorem decAll_encAll {α : Type} (c : Codec α) :
    ∀ {as : List α} {bs : Bytes}, encAll c as = .ok bs → ∀ rest, decAll c as.length (bs ++ rest) = .ok (as, rest)
  | [], bs, h, rest => by cases h; rfl
  | a :: as, bs, h, rest => by
    obtain ⟨x, hx, h⟩ := bind_ok.1 h
    obtain ⟨y, hy, h⟩ := bind_ok.1 h
    obtain rfl := pure_ok.1 h
    simp only [List.length_cons, decAll, List.append_assoc, c.dec_enc hx, bind, Except.bind,
      decAll_encAll c hy]
    rfl

theorem decAll_prefix {α : Type} (c : Codec α) :
    ∀ {n : Nat} {bs : Bytes} {as : List α} {rest : Bytes}, decAll c n bs = .ok (as, rest) → ∃ pre, bs = pre ++ rest
  | 0, bs, as, rest, h => by cases h; exact ⟨[], rfl⟩
  | n + 1, bs, as, rest, h => by
    obtain ⟨⟨a, r⟩, h1, h⟩ := bind_ok.1 h
    obtain ⟨⟨as', s⟩, h2, h⟩ := bind_ok.1 h
    have hs := pure_ok.1 h
    simp only [Prod.mk.injEq] at hs
    obtain ⟨-, rfl⟩ := hs
    obtain ⟨p, rfl⟩ := c.dec_rest h1
    obtain ⟨q, rfl⟩ := decAll_prefix c h2
    exact ⟨p ++ q, (List.append_assoc ..).symm⟩

theorem decAll_length {α : Type} (c : Codec α) :
    ∀ {n : Nat} {bs : Bytes} {as : List α} {rest : Bytes}, decAll c n bs = .ok (as, rest) → as.length = n
  | 0, bs, as, rest, h => by cases h; rfl
  | n + 1, bs, as, rest, h => by
    obtain ⟨⟨a, r⟩, h1, h⟩ := bind_ok.1 h
    obtain ⟨⟨as', s⟩, h2, h⟩ := bind_ok.1 h
    have hs := pure_ok.1 h
    simp only [Prod.mk.injEq] at hs
    obtain ⟨rfl, -⟩ := hs
    rw [List.length_cons, decAll_length c h2]

theorem encAll_u8 : ∀ bs : Bytes, encAll u8 bs = .ok bs
  | [] => rfl
  | b :: bs => by
    rw [encAll, encAll_u8 bs]
    rfl

theorem decAll_u8 : ∀ {n : Nat} {bs : Bytes} {as : List UInt8} {rest : Bytes}, decAll u8 n bs = .ok (as, rest) →
    bs = as ++ rest
  | 0, bs, as, rest, h => by
    cases h
    rfl
  | n + 1, [], as, rest, h => by cases h
  | n + 1, b :: bs, as, rest, h => by
    obtain ⟨⟨c, r⟩, h1, h⟩ := bind_ok.1 h
    obtain ⟨⟨cs, s⟩, h2, h⟩ := bind_ok.1 h
    have hs := pure_ok.1 h
    simp only [Prod.mk.injEq] at hs
    obtain ⟨rfl, rfl⟩ := hs
    cases h1
    rw [decAll_u8 h2]
    rfl

/-- A list of exactly `n` values, without a length prefix. -/
def vector {α : Type} (c : Codec α) (n : Nat) : Codec {as : List α // as.length = n} where
  enc v := encAll c v.1
  dec bs :=
    match h : decAll c n bs with
    | .ok (as, rest) => .ok (⟨as, decAll_length c h⟩, rest)
    | .error e => .error e
  dec_enc := by
    rintro ⟨as, rfl⟩ bs h rest
    have h1 := decAll_encAll c h rest
    split
    · rename_i as' rest' h2
      rw [h1] at h2
      simp only [Except.ok.injEq, Prod.mk.injEq] at h2
      obtain ⟨rfl, rfl⟩ := h2
      rfl
    · rename_i e h2
      rw [h1] at h2; cases h2
  dec_rest := by
    intro bs a rest h
    split at h
    · rename_i as r h1
      cases h
      exact decAll_prefix c h1
    · cases h

/-- A length, then that many values. -/
def list {α : Type} (len : Codec Nat) (c : Codec α) : Codec (List α) where
  enc as := do
    let x ← len.enc as.length
    let y ← encAll c as
    pure (x ++ y)
  dec bs := do
    let (n, r) ← len.dec bs
    decAll c n r
  dec_enc := by
    intro as bs h rest
    obtain ⟨x, hx, h⟩ := bind_ok.1 h
    obtain ⟨y, hy, h⟩ := bind_ok.1 h
    obtain rfl := pure_ok.1 h
    rw [List.append_assoc, len.dec_enc hx]
    exact decAll_encAll c hy rest
  dec_rest := by
    intro bs a rest h
    obtain ⟨⟨n, r⟩, h1, h2⟩ := bind_ok.1 h
    obtain ⟨q, rfl⟩ := decAll_prefix c h2
    obtain ⟨p, rfl⟩ := len.dec_rest h1
    exact ⟨p ++ q, (List.append_assoc ..).symm⟩

/-! ## Tagged sums -/

end Codec

/-- One arm of a tagged sum: it writes the values that belong to it, and only those. -/
structure Arm (α : Type) where
  enc : α → Option (Except EncodeError Bytes)
  dec : Bytes → Except DecodeError (α × Bytes)
  dec_enc : ∀ {a : α} {bs : Bytes}, enc a = some (.ok bs) → ∀ rest, dec (bs ++ rest) = .ok (a, rest)
  dec_rest : ∀ {bs : Bytes} {a : α} {rest : Bytes}, dec bs = .ok (a, rest) → ∃ pre, bs = pre ++ rest

/-- One constructor of a sum `α`, with data `β`: how it is built and how it is recognised. -/
structure Variant (α β : Type) where
  inj : β → α
  prj : α → Option β
  inj_prj : ∀ {a b}, prj a = some b → inj b = a

/-- The arm of the values that `v` builds, written as their data. -/
def Codec.arm {α β : Type} (c : Codec β) (v : Variant α β) : Arm α where
  enc a := (v.prj a).map c.enc
  dec bs := do
    let (b, r) ← c.dec bs
    pure (v.inj b, r)
  dec_enc := by
    intro a bs h rest
    obtain ⟨b, hb, h⟩ := Option.map_eq_some_iff.1 h
    rw [c.dec_enc h]
    simp only [bind, Except.bind, v.inj_prj hb]
    rfl
  dec_rest := by
    intro bs a rest h
    obtain ⟨⟨b, r⟩, h1, h⟩ := bind_ok.1 h
    have hs := pure_ok.1 h
    simp only [Prod.mk.injEq] at hs
    obtain ⟨-, rfl⟩ := hs
    exact c.dec_rest h1

namespace Codec

/-- The first arm, counting from `n`, that a value belongs to, and its bytes. -/
def pick {α : Type} (a : α) : Nat → List (Arm α) → Option (Nat × Except EncodeError Bytes)
  | _, [] => none
  | n, x :: xs =>
    match x.enc a with
    | some r => some (n, r)
    | none => pick a (n + 1) xs

theorem pick_some {α : Type} {a : α} :
    ∀ {xs : List (Arm α)} {n m : Nat} {r : Except EncodeError Bytes}, pick a n xs = some (m, r) →
      ∃ i x, m = n + i ∧ xs[i]? = some x ∧ x.enc a = some r
  | [], n, m, r, h => by cases h
  | x :: xs, n, m, r, h => by
    simp only [pick] at h
    split at h
    · rename_i r' hr
      simp only [Option.some.injEq, Prod.mk.injEq] at h
      obtain ⟨rfl, rfl⟩ := h
      exact ⟨0, x, rfl, rfl, hr⟩
    · obtain ⟨i, y, rfl, hy, hr⟩ := pick_some h
      exact ⟨i + 1, y, by omega, by simpa using hy, hr⟩

/-- A tag, then the arm of that number; a tag with no arm is refused. -/
def choice {α : Type} (tag : Codec Nat) (arms : List (Arm α)) : Codec α where
  enc a :=
    match pick a 0 arms with
    | some (n, r) => do
      let x ← tag.enc n
      let y ← r
      pure (x ++ y)
    | none => .error .noArm
  dec bs := do
    let (n, r) ← tag.dec bs
    match arms[n]? with
    | some x => x.dec r
    | none => throw .badEnum
  dec_enc := by
    intro a bs h rest
    split at h
    · rename_i n r hp
      obtain ⟨x, hx, h⟩ := bind_ok.1 h
      obtain ⟨y, hy, h⟩ := bind_ok.1 h
      obtain rfl := pure_ok.1 h
      obtain ⟨i, z, hn, hz, hr⟩ := pick_some hp
      obtain rfl : n = i := by omega
      rw [List.append_assoc, tag.dec_enc hx]
      simp only [bind, Except.bind, hz]
      exact z.dec_enc (by rw [hr, hy]) rest
    · cases h
  dec_rest := by
    intro bs a rest h
    obtain ⟨⟨n, r⟩, h1, h2⟩ := bind_ok.1 h
    simp only at h2
    split at h2
    · rename_i x hx
      obtain ⟨q, rfl⟩ := x.dec_rest h2
      obtain ⟨p, rfl⟩ := tag.dec_rest h1
      exact ⟨p ++ q, (List.append_assoc ..).symm⟩
    · cases h2

end Codec

end Wire
