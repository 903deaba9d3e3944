/-
A canonical profile on a format: values are normalised before they are written, and what was read is
checked against the same profile. When the check accepts exactly what normalisation leaves alone,
writing and reading are one relation, and two values are written alike exactly when they have one
normal form.
-/
import KeEngine.Wire.Unpadded

namespace Wire

/-- Normalisation and the reader's check over one codec, each refining the other. -/
structure Profile (ε ε' α : Type) where
  codec : Codec α
  canonicalize : α → Except ε α
  validate : α → Except ε' Unit
  /-- what is written passes the check -/
  validate_canonicalize : ∀ {a c}, canonicalize a = .ok c → validate c = .ok ()
  /-- what passes the check is in normal form -/
  canonicalize_validate : ∀ {c}, validate c = .ok () → canonicalize c = .ok c

namespace Profile

variable {ε ε' α : Type} (p : Profile ε ε' α)

/-- `a` is written as `bs`. -/
def Writes (a : α) (bs : Bytes) : Prop := ∃ c, p.canonicalize a = .ok c ∧ p.codec.enc c = .ok bs

/-- `bs`, all of it, is read as `a`. -/
def Reads (bs : Bytes) (a : α) : Prop := p.codec.dec bs = .ok (a, []) ∧ p.validate a = .ok ()

variable {p} {a b c : α} {bs bs' : Bytes}

theorem canonicalize_idempotent (h : p.canonicalize a = .ok c) : p.canonicalize c = .ok c :=
  p.canonicalize_validate (p.validate_canonicalize h)

/-- What was written is read as the normal form, which is written alike. -/
theorem Writes.reads (h : p.Writes a bs) :
    ∃ c, p.canonicalize a = .ok c ∧ p.Reads bs c ∧ p.canonicalize c = .ok c ∧ p.Writes c bs := by
  obtain ⟨c, hc, henc⟩ := h
  refine ⟨c, hc, ⟨p.codec.dec_enc_nil henc, p.validate_canonicalize hc⟩, canonicalize_idempotent hc, ?_⟩
  exact ⟨c, canonicalize_idempotent hc, henc⟩

/-- The bytes forget what normalisation forgets, and nothing else. -/
theorem Writes.eq_iff (ha : p.Writes a bs) (hb : p.Writes b bs') :
    bs = bs' ↔ p.canonicalize a = p.canonicalize b := by
  obtain ⟨c, hc, henc⟩ := ha
  obtain ⟨d, hd, henc'⟩ := hb
  rw [hc, hd, Except.ok.injEq]
  constructor
  · rintro rfl
    exact p.codec.enc_injective henc henc'
  · rintro rfl
    rw [henc] at henc'
    exact Except.ok.inj henc'

/-- What is read is written back as the same bytes exactly when no varint in them is padded. -/
theorem Reads.writes_iff (u : Codec.Unpadded p.codec) (h : p.Reads bs a) : p.Writes a bs ↔ u.accepts bs = true := by
  obtain ⟨hdec, hval⟩ := h
  have hself := p.canonicalize_validate hval
  rw [← u.enc_iff_accepts hdec]
  constructor
  · rintro ⟨c, hc, henc⟩
    rw [hself] at hc
    obtain rfl := Except.ok.inj hc
    exact henc
  · intro henc
    exact ⟨a, hself, henc⟩

end Profile

end Wire
