/-
Assembled bytes: they are the encoding of the record they come with, they decode to it, the hash
they claim is the hash of their envelope with the slot zeroed again, and the signature over the
prefix verifies. Decoding inverts encoding for every record that passes the checks.
-/
import KeEngine.Artifact.Artifact

namespace Ke

open Wire

/-! ## The hash slot -/

theorem hash32_enc (h : Hash32) : Postcard.hash32.enc h = .ok h.1 := Codec.encAll_u8 h.1

theorem sig64_enc (s : Sig64) : Postcard.sig64.enc s = .ok s.1 := Codec.encAll_u8 s.1

theorem artifactHashOffset_eq {kind : ArtifactKind} {bs : Bytes} (h : Postcard.artifactKind.enc kind = .ok bs) :
    artifactHashOffset kind = bs.length := by
  rw [artifactHashOffset, h]

/-- The slot of an encoded envelope lies behind the kind, and patching it is changing the hash. -/
theorem envelope_enc_patch {e : Envelope} {bs : Bytes} (h : Postcard.envelope.enc e = .ok bs) :
    ∃ k r, Postcard.artifactKind.enc e.manifest.artifactKind = .ok k ∧ bs = k ++ (e.manifest.artifactHash.1 ++ r) ∧
      ∀ hash : Hash32, Postcard.envelope.enc { e with manifest := { e.manifest with artifactHash := hash } } =
        .ok (k ++ (hash.1 ++ r)) := by
  obtain ⟨m, p, hm, hp, rfl⟩ := Codec.pair_enc_ok.1 h
  obtain ⟨k, m', hk, hm', rfl⟩ := Codec.pair_enc_ok.1 hm
  obtain ⟨s, r, hs, hr, rfl⟩ := Codec.pair_enc_ok.1 hm'
  rw [hash32_enc] at hs
  cases hs
  refine ⟨k, r ++ p, hk, by simp, fun hash => ?_⟩
  refine Codec.pair_enc_ok.2 ⟨k ++ (hash.1 ++ r), p, ?_, hp, by simp⟩
  exact Codec.pair_enc_ok.2 ⟨k, hash.1 ++ r, hk, Codec.pair_enc_ok.2 ⟨hash.1, r, hash32_enc hash, hr, rfl⟩, rfl⟩

theorem patchHash_slot (k : Bytes) (old hash : Hash32) (r : Bytes) :
    patchHash k.length hash (k ++ (old.1 ++ r)) = k ++ (hash.1 ++ r) := by
  rw [patchHash, List.take_left, ← List.drop_drop, List.drop_left, List.append_assoc]
  have h : (old.1 ++ r).drop 32 = r := List.drop_left' old.2
  rw [h]

/-! ## Decoding what was encoded -/

section

variable {X : Externals}

theorem artifact_enc_ok {a : Artifact} {kew : Bytes} (h : Postcard.artifact.enc a = .ok kew) :
    ∃ e s t m, Postcard.envelope.enc a.toEnvelope = .ok e ∧ Postcard.compilerSignature.enc a.compilerSignature = .ok s ∧
      (Codec.seq Postcard.attestation).enc a.attestations = .ok t ∧
      Postcard.registryStateMetadata.enc a.registryStateMetadata = .ok m ∧ kew = e ++ (s ++ (t ++ m)) := by
  obtain ⟨e, r, he, hr, rfl⟩ := Codec.pair_enc_ok.1 h
  obtain ⟨s, r', hs, hr', rfl⟩ := Codec.pair_enc_ok.1 hr
  obtain ⟨t, m, ht, hm, rfl⟩ := Codec.pair_enc_ok.1 hr'
  exact ⟨e, s, t, m, he, hs, ht, hm, rfl⟩

theorem artifact_enc_of {a : Artifact} {e s t m : Bytes} (he : Postcard.envelope.enc a.toEnvelope = .ok e)
    (hs : Postcard.compilerSignature.enc a.compilerSignature = .ok s)
    (ht : (Codec.seq Postcard.attestation).enc a.attestations = .ok t)
    (hm : Postcard.registryStateMetadata.enc a.registryStateMetadata = .ok m) :
    Postcard.artifact.enc a = .ok (e ++ (s ++ (t ++ m))) :=
  Codec.pair_enc_ok.2 ⟨e, _, he, Codec.pair_enc_ok.2 ⟨s, _, hs, Codec.pair_enc_ok.2 ⟨t, m, ht, hm, rfl⟩, rfl⟩, rfl⟩

/-- Decoding an encoded record succeeds exactly when the record passes the checks, and gives it back. -/
theorem decodeArtifact_enc {a : Artifact} {e s t m : Bytes} (he : Postcard.envelope.enc a.toEnvelope = .ok e)
    (hs : Postcard.compilerSignature.enc a.compilerSignature = .ok s)
    (ht : (Codec.seq Postcard.attestation).enc a.attestations = .ok t)
    (hm : Postcard.registryStateMetadata.enc a.registryStateMetadata = .ok m) {d : Artifact × Nat} :
    decodeArtifact X (e ++ (s ++ (t ++ m))) = .ok d ↔
      validateManifest X.isNfc a.manifest = .ok () ∧ validatePayload X a.manifest.artifactKind a.payload = .ok () ∧
        d = (a, e.length) := by
  unfold decodeArtifact
  rw [Postcard.envelope.dec_enc he]
  simp only [Except.mapError, bind, Except.bind, codecDecode]
  rw [Postcard.compilerSignature.dec_enc hs]
  simp only [Except.mapError]
  rw [(Codec.seq Postcard.attestation).dec_enc ht]
  simp only [Except.mapError]
  rw [Postcard.registryStateMetadata.dec_enc_nil hm]
  simp only [ne_eq, not_true_eq_false, if_false, pure, Except.pure]
  cases validateManifest X.isNfc a.manifest with
  | error _ => simp
  | ok _ =>
    cases validatePayload X a.manifest.artifactKind a.payload with
    | error _ => simp
    | ok _ =>
      simp only [Except.ok.injEq, true_and]
      have hlen : (e ++ (s ++ (t ++ m))).length - (s ++ (t ++ m)).length = e.length := by simp
      rw [hlen]
      constructor
      · rintro rfl; rfl
      · rintro rfl; rfl

/-- Whatever the bytes of a record decode to is the record. -/
theorem decodeArtifact_unique {a : Artifact} {kew : Bytes} (h : Postcard.artifact.enc a = .ok kew)
    {d : Artifact × Nat} (hd : decodeArtifact X kew = .ok d) : d.1 = a := by
  obtain ⟨e, s, t, m, he, hs, ht, hm, rfl⟩ := artifact_enc_ok h
  obtain ⟨-, -, rfl⟩ := (decodeArtifact_enc he hs ht hm).1 hd
  rfl

/-- Appending attestations keeps the envelope. -/
theorem withAttestations_ok {a a' : Artifact} {as : List Attestation} {kew : Bytes}
    (h : a.withAttestations as = .ok (a', kew)) :
    a' = { a with attestations := as } ∧ Postcard.artifact.enc a' = .ok kew := by
  obtain ⟨bs, hbs, h⟩ := bind_ok.1 h
  have h := pure_ok.1 h
  simp only [Prod.mk.injEq] at h
  obtain ⟨rfl, rfl⟩ := h
  exact ⟨rfl, mapError_ok.1 hbs⟩

/-! ## Assembly -/

/-- The manifest with the hash slot zeroed is checked like the manifest with any hash. -/
theorem validateManifest_hash {m : Manifest}
    (h : canonicalizeManifest X.isNfc { m with artifactHash := zeroHash } = .ok ())
    (hash : Hash32) : validateManifest X.isNfc { m with artifactHash := hash } = .ok () :=
  (ensure_implies_check X.isNfc).manifest h

theorem canonicalizeRules_validate : ∀ {rules rules' : List RuleIR}, canonicalizeRules X.isNfc rules = .ok rules' →
    validateRules X.isNfc rules' = .ok ()
  | [], rules', h => by
    obtain rfl := pure_ok.1 h
    rfl
  | r :: rs, rules', h => by
    obtain ⟨r', hr, h⟩ := bind_ok.1 h
    obtain ⟨rs', hrs, h⟩ := bind_ok.1 h
    obtain rfl := pure_ok.1 h
    exact then_ok.2 ⟨canonicalizeRule_validate hr, canonicalizeRules_validate hrs⟩

/-- A payload agrees with the kind it is filed under. -/
def ArtifactPayload.Agrees (kind : ArtifactKind) : ArtifactPayload → Prop
  | .rules _ => kind ≠ .intentSpec
  | .intentSpec _ => kind = .intentSpec

theorem canonicalizePayload_validate {kind : ArtifactKind} {payload payload' : ArtifactPayload}
    {index : SourceSpanIndex}
    (h : canonicalizePayload X payload = .ok (payload', index)) (hk : payload.Agrees kind) :
    validatePayload X kind payload' = .ok () := by
  cases payload with
  | rules rules =>
    obtain ⟨rules', hr, h⟩ := bind_ok.1 h
    have h := pure_ok.1 h
    simp only [Prod.mk.injEq] at h
    obtain ⟨rfl, rfl⟩ := h
    have hk : kind ≠ .intentSpec := hk
    simp only [validatePayload, if_neg hk]
    exact mapError_ok.2 (canonicalizeRules_validate hr)
  | intentSpec ir =>
    have h := pure_ok.1 h
    simp only [Prod.mk.injEq] at h
    obtain ⟨rfl, -⟩ := h
    have hk : kind = .intentSpec := hk
    simp only [validatePayload, if_pos hk]

/-- What assembly makes: the canonical payload under the patched hash, the signed prefix, and the
bytes of the four parts. -/
structure Assembled (X : Externals) (manifest : Manifest) (payload : ArtifactPayload) (seed : Hash32) (a : Artifact)
    (kew : Bytes) : Prop where
  manifest_eq : a.manifest = { manifest with artifactHash := a.manifest.artifactHash }
  checked : canonicalizeManifest X.isNfc { manifest with artifactHash := zeroHash } = .ok ()
  payload_eq : ∃ index, canonicalizePayload X payload = .ok (a.payload, index)
  attestations : a.attestations = []
  bytes : ∃ e s t m, Postcard.envelope.enc a.toEnvelope = .ok e ∧
    Postcard.compilerSignature.enc a.compilerSignature = .ok s ∧
    (Codec.seq Postcard.attestation).enc a.attestations = .ok t ∧
    Postcard.registryStateMetadata.enc a.registryStateMetadata = .ok m ∧ kew = e ++ (s ++ (t ++ m)) ∧
    contentHash X e = .ok a.manifest.artifactHash ∧ a.compilerSignature.signature = X.sign seed e

theorem assemblePayload_ok {manifest : Manifest} {payload : ArtifactPayload} {auditVersions : AuditVersions}
    {seed : Hash32}
    {keyId : String} {a : Artifact} {kew : Bytes}
    (h : assemblePayload X manifest payload auditVersions seed keyId = .ok (a, kew)) :
    Assembled X manifest payload seed a kew := by
  obtain ⟨⟨⟩, hm, h⟩ := bind_ok.1 h
  obtain ⟨⟨payload', index⟩, hp, h⟩ := bind_ok.1 h
  obtain ⟨zeroed, hz, h⟩ := bind_ok.1 h
  obtain ⟨s, hs, h⟩ := bind_ok.1 h
  obtain ⟨t, ht, h⟩ := bind_ok.1 h
  obtain ⟨m, hmeta, h⟩ := bind_ok.1 h
  have h := pure_ok.1 h
  simp only [Prod.mk.injEq] at h
  obtain ⟨rfl, rfl⟩ := h
  rw [mapError_ok] at hm hp hz hs ht hmeta
  obtain ⟨k, r, hk, hbs, hpatch⟩ := envelope_enc_patch hz
  have henv : patchHash (artifactHashOffset manifest.artifactKind) (X.blake3 zeroed) zeroed =
      k ++ ((X.blake3 zeroed).1 ++ r) := by
    have h := patchHash_slot k zeroHash (X.blake3 zeroed) r
    rwa [← artifactHashOffset_eq hk, ← hbs] at h
  refine ⟨rfl, hm, ⟨index, hp⟩, rfl, ⟨_, s, t, m, ?_, hs, ht, hmeta, rfl, ?_, rfl⟩⟩
  · exact (hpatch _).trans (congrArg Except.ok henv.symm)
  · unfold contentHash
    rw [henv, Postcard.artifactKind.dec_enc hk]
    simp only [Except.mapError, bind, Except.bind, pure, Except.pure]
    rw [artifactHashOffset_eq hk, if_neg]
    · rw [patchHash_slot k (X.blake3 zeroed) zeroHash r, ← hbs]
    · rw [List.length_append, List.length_append, (X.blake3 zeroed).2]
      omega

theorem Assembled.enc {manifest : Manifest} {payload : ArtifactPayload} {seed : Hash32} {a : Artifact} {kew : Bytes}
    (h : Assembled X manifest payload seed a kew) : Postcard.artifact.enc a = .ok kew := by
  obtain ⟨e, s, t, m, he, hs, ht, hm, rfl, -⟩ := h.bytes
  exact artifact_enc_of he hs ht hm

/-- Assembled bytes of an agreeing payload decode to the record. -/
theorem Assembled.decode {manifest : Manifest} {payload : ArtifactPayload} {seed : Hash32} {a : Artifact} {kew : Bytes}
    (h : Assembled X manifest payload seed a kew) (hk : payload.Agrees manifest.artifactKind) :
    ∃ n, decodeArtifact X kew = .ok (a, n) ∧ contentHash X (kew.take n) = .ok a.manifest.artifactHash ∧
      a.compilerSignature.signature = X.sign seed (kew.take n) := by
  obtain ⟨e, s, t, m, he, hs, ht, hm, rfl, hhash, hsig⟩ := h.bytes
  have htake : (e ++ (s ++ (t ++ m))).take e.length = e := List.take_left
  refine ⟨e.length, (decodeArtifact_enc he hs ht hm).2 ⟨?_, ?_, rfl⟩,
    by rw [htake]; exact hhash, by rw [htake]; exact hsig⟩
  · rw [h.manifest_eq]
    exact validateManifest_hash h.checked _
  · obtain ⟨index, hp⟩ := h.payload_eq
    have hkind : a.manifest.artifactKind = manifest.artifactKind := by rw [h.manifest_eq]
    rw [hkind]
    exact canonicalizePayload_validate hp hk

/-- Assembled bytes pass the content-address check. -/
theorem Assembled.verifyHash {manifest : Manifest} {payload : ArtifactPayload} {seed : Hash32}
    {a : Artifact} {kew : Bytes}
    (h : Assembled X manifest payload seed a kew) (hk : payload.Agrees manifest.artifactKind) :
    verifyHash X kew = .ok a.manifest.artifactHash := by
  obtain ⟨n, hdec, hhash, -⟩ := h.decode hk
  unfold Ke.verifyHash
  rw [hdec]
  simp only [bind, Except.bind]
  rw [hhash]
  simp [pure, Except.pure]

/-- Assembled bytes pass the signature check. -/
theorem Assembled.signatureValid (hX : X.Lawful) {manifest : Manifest} {payload : ArtifactPayload} {seed : Hash32}
    {a : Artifact} {kew : Bytes} (h : Assembled X manifest payload seed a kew)
    (hk : payload.Agrees manifest.artifactKind) : compilerSignatureValid X kew seed = true := by
  obtain ⟨n, hdec, -, hsig⟩ := h.decode hk
  unfold compilerSignatureValid
  rw [hdec]
  simp only
  rw [hsig]
  exact hX.verify_sign _ _

end

end Ke
