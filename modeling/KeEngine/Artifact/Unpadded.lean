/-
The envelope byte for byte. The content address and the append of attestations are stated over what
the encoder would have written; both hold for accepted bytes exactly as far as no varint in the
envelope is padded. For the hash slot only the varint before it matters, the kind.
-/
import KeEngine.Artifact.Assembly
import KeEngine.Core.Unpadded

namespace Ke

open Wire

/-! ## Readers -/

namespace Postcard

open Codec

def payloadUnpadded : Unpadded artifactPayload :=
  @Unpadded.enum _ _ ArtifactPayload.ctorIdx
    (.arm ruleUnpadded.seq (fun _ => rfl) (fun _ => rfl)
    (.arm intentSpecUnpadded (fun _ => rfl) (fun _ => rfl) .nil))

def spanIndexEntryUnpadded : Unpadded spanIndexEntry := (Unpadded.str.pair sourceSpanUnpadded.seq).iso fun _ => rfl

def sourceSpanIndexUnpadded : Unpadded sourceSpanIndex := spanIndexEntryUnpadded.seq.iso fun _ => rfl

def auditVersionsUnpadded : Unpadded auditVersions :=
  (Unpadded.str.option.pair Unpadded.str.option).iso fun _ => rfl

def consistencyBlockUnpadded : Unpadded consistencyBlock :=
  (Unpadded.str.pair (t2T3ModeUnpadded.pair (Unpadded.str.pair (Unpadded.str.pair (Unpadded.str.option.pair
    (Unpadded.str.seq.pair (Unpadded.str.seq.pair (Unpadded.str.option.pair
      (Unpadded.str.pair Unpadded.str))))))))).iso fun _ => rfl

def envelopeUnpadded : Unpadded envelope :=
  (manifestUnpadded.pair (payloadUnpadded.pair (sourceSpanIndexUnpadded.pair (auditVersionsUnpadded.pair
    consistencyBlockUnpadded.option)))).iso fun _ => rfl

end Postcard

/-! ## The parts of accepted bytes -/

section

variable {X : Externals}

/-- Accepted bytes: the envelope, then signature, attestations and marker, each as it was read. -/
structure Accepted (X : Externals) (kew : Bytes) (a : Artifact) (n : Nat) : Prop where
  envelope : ∃ rest, kew = kew.take n ++ rest ∧ Postcard.envelope.dec kew = .ok (a.toEnvelope, rest)
  signature : ∃ bs rest, Postcard.compilerSignature.dec bs = .ok (a.compilerSignature, rest)
  marker : a.registryStateMetadata = .draft
  length : n ≤ kew.length
  manifest : validateManifest X.isNfc a.manifest = .ok ()
  payload : validatePayload X a.manifest.artifactKind a.payload = .ok ()

theorem decodeArtifact_ok {kew : Bytes} {a : Artifact} {n : Nat} (h : decodeArtifact X kew = .ok (a, n)) :
    Accepted X kew a n := by
  obtain ⟨⟨env, rest⟩, henv, h⟩ := bind_ok.1 h
  obtain ⟨⟨sig, rest₁⟩, hsig, h⟩ := bind_ok.1 h
  obtain ⟨⟨atts, rest₂⟩, -, h⟩ := bind_ok.1 h
  obtain ⟨⟨marker, rest₃⟩, -, h⟩ := bind_ok.1 h
  unfold codecDecode at hsig
  rw [mapError_ok] at henv hsig
  simp only at h
  split at h
  · cases h
  · obtain ⟨⟨⟩, hm, h⟩ := bind_ok.1 h
    obtain ⟨⟨⟩, hp, h⟩ := bind_ok.1 h
    have h := pure_ok.1 h
    simp only [Prod.mk.injEq] at h
    obtain ⟨rfl, rfl⟩ := h
    obtain ⟨p, rfl⟩ := Postcard.envelope.dec_rest henv
    have hlen : (p ++ rest).length - rest.length = p.length := by rw [List.length_append]; omega
    refine ⟨⟨rest, ?_, henv⟩, ⟨rest, rest₁, hsig⟩, ?_, Nat.sub_le _ _, mapError_ok.1 hm, hp⟩
    · simp only [hlen, List.take_left]
    · cases marker
      rfl

/-! ## The hash slot -/

theorem hash32_dec {bs rest : Bytes} {h : Hash32} (hd : Postcard.hash32.dec bs = .ok (h, rest)) : bs = h.1 ++ rest := by
  unfold Postcard.hash32 Codec.vector at hd
  simp only at hd
  split at hd
  · rename_i as r has
    cases hd
    exact Codec.decAll_u8 has
  · cases hd

/-- The kind is its number: one byte, and more exactly when that is padded. -/
theorem artifactKind_dec {bs rest : Bytes} {kind : ArtifactKind} (h : Postcard.artifactKind.dec bs = .ok (kind, rest)) :
    ∃ b p, bs = b :: (p ++ rest) ∧ (p = [] ↔ b.toNat < 128) ∧
      ∀ r, Postcard.artifactKind.dec (b :: (p ++ r)) = .ok (kind, r) :=
  @Codec.enum_const_consumed ArtifactKind _
    [.regimePack, .equivalenceMatrix, .testCorpus, .policyBundle, .intentSpec] _ _ _ h

theorem artifactHashOffset_one (kind : ArtifactKind) : artifactHashOffset kind = 1 := by
  cases kind <;> rfl

/-- Accepted bytes begin with the kind as it was read and the hash. -/
theorem Accepted.slot {kew : Bytes} {a : Artifact} {n : Nat} (h : Accepted X kew a n) :
    ∃ b p q, kew.take n = b :: (p ++ (a.manifest.artifactHash.1 ++ q)) ∧ kew.head? = some b ∧
      (p = [] ↔ b.toNat < 128) ∧
      ∀ r, Postcard.artifactKind.dec (b :: (p ++ r)) = .ok (a.manifest.artifactKind, r) := by
  obtain ⟨rest, hkew, henv⟩ := h.envelope
  obtain ⟨⟨m, tail⟩, hdec, heq⟩ := Codec.iso_dec.1 henv
  obtain ⟨r, hm, htail⟩ := Codec.pair_dec.1 hdec
  obtain ⟨⟨kind, hash, fields⟩, hdec, hmeq⟩ := Codec.iso_dec.1 hm
  obtain ⟨s, hkind, hdec⟩ := Codec.pair_dec.1 hdec
  obtain ⟨t, hhash, hfields⟩ := Codec.pair_dec.1 hdec
  obtain ⟨b, p, rfl, hp, hframe⟩ := artifactKind_dec hkind
  obtain rfl := hash32_dec hhash
  obtain ⟨q, rfl⟩ := Codec.dec_rest _ hfields
  obtain ⟨q', rfl⟩ := Codec.dec_rest _ htail
  have hk : kind = a.manifest.artifactKind := by
    rw [← heq, ← hmeq]
  have hh : hash = a.manifest.artifactHash := by
    rw [← heq, ← hmeq]
  subst hk hh
  refine ⟨b, p, q ++ q', ?_, rfl, hp, hframe⟩
  -- what the envelope consumed is what lies before its rest
  have hpre : (b :: (p ++ (a.manifest.artifactHash.1 ++ (q ++ (q' ++ rest))))) =
      (b :: (p ++ (a.manifest.artifactHash.1 ++ (q ++ q')))) ++ rest := by simp
  rw [hpre] at hkew ⊢
  exact (List.append_cancel_right hkew).symm

/-- The slot that `contentHash` zeroes is the hash as the decoder read it, and all else is hashed. -/
def HashSlotExact (X : Externals) (kew : Bytes) (a : Artifact) (n : Nat) : Prop :=
  ∃ k r, kew.take n = k ++ (a.manifest.artifactHash.1 ++ r) ∧
    Postcard.artifactKind.dec (kew.take n) = .ok (a.manifest.artifactKind, a.manifest.artifactHash.1 ++ r) ∧
    k.length = artifactHashOffset a.manifest.artifactKind ∧
    contentHash X (kew.take n) = .ok (X.blake3 (k ++ (zeroHash.1 ++ r)))

/-- The kind, with which accepted bytes begin, takes one byte. -/
def KindUnpadded (kew : Bytes) : Prop := ∀ b ∈ kew.head?, b.toNat < 128

instance (kew : Bytes) : Decidable (KindUnpadded kew) := inferInstanceAs (Decidable (∀ b ∈ kew.head?, b.toNat < 128))

theorem contentHash_slot {b : UInt8} {hash : Hash32} {q : Bytes} {kind : ArtifactKind}
    (hk : Postcard.artifactKind.dec (b :: (hash.1 ++ q)) = .ok (kind, hash.1 ++ q)) :
    contentHash X (b :: (hash.1 ++ q)) = .ok (X.blake3 (b :: (zeroHash.1 ++ q))) := by
  unfold contentHash
  rw [hk]
  simp only [Except.mapError, bind, Except.bind, artifactHashOffset_one]
  rw [if_neg (by rw [List.length_cons, List.length_append, hash.2]; omega)]
  have hpatch := patchHash_slot [b] hash zeroHash q
  simp only [List.length_singleton, List.singleton_append] at hpatch
  rw [hpatch]
  rfl

theorem hashSlotExact_iff {kew : Bytes} {a : Artifact} {n : Nat} (h : Accepted X kew a n) :
    HashSlotExact X kew a n ↔ KindUnpadded kew := by
  obtain ⟨b, p, q, htake, hhead, hp, hframe⟩ := h.slot
  unfold HashSlotExact KindUnpadded
  rw [htake, hhead, artifactHashOffset_one]
  constructor
  · rintro ⟨k, r, hkr, hdec, hlen, -⟩ _ ⟨⟩
    -- the reader stops where the kind ends, however long it was
    have hrest : a.manifest.artifactHash.1 ++ q = a.manifest.artifactHash.1 ++ r := by
      have hboth := (hframe (a.manifest.artifactHash.1 ++ q)).symm.trans hdec
      simpa using hboth
    rw [← hrest, ← List.cons_append] at hkr
    have hk : b :: p = k := List.append_cancel_right hkr
    rw [← hk, List.length_cons] at hlen
    exact hp.1 (List.length_eq_zero_iff.1 (by omega))
  · intro hb
    obtain rfl := hp.2 (hb b rfl)
    exact ⟨[b], q, rfl, hframe _, rfl, contentHash_slot (hframe _)⟩

theorem verifyHash_ok {kew : Bytes} {hash : Hash32} (h : verifyHash X kew = .ok hash) :
    ∃ a n, decodeArtifact X kew = .ok (a, n) ∧ contentHash X (kew.take n) = .ok hash ∧
      a.manifest.artifactHash = hash := by
  obtain ⟨⟨a, n⟩, hdec, h⟩ := bind_ok.1 h
  obtain ⟨got, hgot, h⟩ := bind_ok.1 h
  simp only at h
  split at h
  · cases h
  · rename_i heq
    obtain rfl := pure_ok.1 h
    exact ⟨a, n, hdec, hgot, (not_not.1 heq).symm⟩

/-- The content address binds two accepted byte strings exactly when each writes its kind in one
byte; of the hash it takes that it does not collide on the two. -/
theorem content_address_binds_iff {kew kew' : Bytes} {a a' : Artifact} {n n' : Nat}
    (h : decodeArtifact X kew = .ok (a, n)) (h' : decodeArtifact X kew' = .ok (a', n'))
    (hX : X.blake3 (patchHash (artifactHashOffset a.manifest.artifactKind) zeroHash (kew.take n)) =
        X.blake3 (patchHash (artifactHashOffset a'.manifest.artifactKind) zeroHash (kew'.take n')) →
      patchHash (artifactHashOffset a.manifest.artifactKind) zeroHash (kew.take n) =
        patchHash (artifactHashOffset a'.manifest.artifactKind) zeroHash (kew'.take n')) :
    (HashSlotExact X kew a n ∧ HashSlotExact X kew' a' n' ∧
        ∀ hash, verifyHash X kew = .ok hash → verifyHash X kew' = .ok hash → kew.take n = kew'.take n') ↔
      KindUnpadded kew ∧ KindUnpadded kew' := by
  have hacc := decodeArtifact_ok h
  have hacc' := decodeArtifact_ok h'
  rw [hashSlotExact_iff hacc, hashSlotExact_iff hacc']
  constructor
  · rintro ⟨hk, hk', -⟩
    exact ⟨hk, hk'⟩
  · rintro ⟨hk, hk'⟩
    refine ⟨hk, hk', fun hash hv hv' => ?_⟩
    obtain ⟨b, p, q, htake, hhead, hp, hframe⟩ := hacc.slot
    obtain ⟨b', p', q', htake', hhead', hp', hframe'⟩ := hacc'.slot
    obtain rfl := hp.2 (hk b hhead)
    obtain rfl := hp'.2 (hk' b' hhead')
    obtain ⟨_, _, hd, hc, hhash⟩ := verifyHash_ok hv
    obtain ⟨_, _, hd', hc', hhash'⟩ := verifyHash_ok hv'
    rw [h] at hd
    rw [h'] at hd'
    cases hd
    cases hd'
    -- both hashes are of the bytes with the slot zeroed
    rw [htake, htake', List.nil_append, List.nil_append] at hX ⊢
    rw [htake, List.nil_append, contentHash_slot (hframe _)] at hc
    rw [htake', List.nil_append, contentHash_slot (hframe' _)] at hc'
    have hz := patchHash_slot [b] a.manifest.artifactHash zeroHash q
    have hz' := patchHash_slot [b'] a'.manifest.artifactHash zeroHash q'
    simp only [List.length_singleton, List.singleton_append] at hz hz'
    rw [artifactHashOffset_one, artifactHashOffset_one, hz, hz'] at hX
    have hrest := hX (by rw [Except.ok.inj hc, Except.ok.inj hc'])
    simp only [List.cons.injEq, List.append_cancel_left_eq] at hrest
    rw [hrest.1, hrest.2, hhash, hhash']

/-- A transfer limit, decoded. -/
def decodedTransfer (change : Bytes → Bytes) : Except ArtifactError (Bytes × Artifact × Nat) := do
  let (_, kew) ← transferArtifact
  let d ← decodeArtifact standIn (change kew)
  pure (change kew, d)

theorem decodedTransfer_ok {change : Bytes → Bytes} {r : Bytes × Artifact × Nat}
    (h : decodedTransfer change = .ok r) : decodeArtifact standIn r.1 = .ok r.2 := by
  obtain ⟨p, -, h⟩ := bind_ok.1 h
  obtain ⟨d, hd, h⟩ := bind_ok.1 h
  obtain rfl := pure_ok.1 h
  exact hd

theorem content_address_binds_iff_transfer : ∃ kew a n, decodeArtifact standIn kew = .ok (a, n) ∧
    HashSlotExact standIn kew a n := by
  have hrun : (decodedTransfer id).toOption.any (fun r => decide (KindUnpadded r.1)) = true := by decide +kernel
  obtain ⟨⟨kew, a, n⟩, h, hk⟩ := exists_ok_and hrun
  have hdec := decodedTransfer_ok h
  have hk := of_decide_eq_true hk
  exact ⟨kew, a, n, hdec, ((content_address_binds_iff hdec hdec fun _ => rfl).2 ⟨hk, hk⟩).1⟩

/-- The kind of a transfer limit, 4, in two bytes. -/
def padKind (kew : Bytes) : Bytes := 0x84 :: 0x00 :: kew.drop 1

/-- The bytes are accepted, and the slot that is zeroed starts in the padding. -/
theorem padKind_moves_slot : ∃ kew a n, decodeArtifact standIn kew = .ok (a, n) ∧ ¬ HashSlotExact standIn kew a n := by
  have hrun : (decodedTransfer padKind).toOption.any (fun r => decide (¬ KindUnpadded r.1)) = true := by decide +kernel
  obtain ⟨⟨kew, a, n⟩, h, hk⟩ := exists_ok_and hrun
  have hdec := decodedTransfer_ok h
  refine ⟨kew, a, n, hdec, fun hslot => ?_⟩
  exact of_decide_eq_true hk ((hashSlotExact_iff (decodeArtifact_ok hdec)).1 hslot)

/-! ## Appending attestations -/

theorem compilerSignature_reencodes {bs rest : Bytes} {s : CompilerSignature}
    (h : Postcard.compilerSignature.dec bs = .ok (s, rest)) : ∃ p, Postcard.compilerSignature.enc s = .ok p := by
  obtain ⟨⟨keyId, signature⟩, hdec, rfl⟩ := Codec.iso_dec.1 h
  obtain ⟨r, hkey, -⟩ := Codec.pair_dec.1 hdec
  obtain ⟨x, hx⟩ := Codec.str_reencodes hkey
  exact ⟨x ++ signature.1, Codec.pair_enc_ok.2 ⟨x, signature.1, hx, sig64_enc signature, rfl⟩⟩

/-- The accepted prefix is the encoding of the envelope exactly when no varint in it is padded. -/
theorem Accepted.enc_iff {kew : Bytes} {a : Artifact} {n : Nat} (h : Accepted X kew a n) :
    Postcard.envelope.enc a.toEnvelope = .ok (kew.take n) ↔ Postcard.envelopeUnpadded.accepts (kew.take n) = true := by
  rw [Postcard.envelopeUnpadded.accepts_iff]
  refine ⟨fun henc => ⟨_, henc⟩, ?_⟩
  rintro ⟨e, he⟩
  obtain ⟨rest, hkew, hdec⟩ := h.envelope
  -- the decoder reads an encoding as the value it came from
  have hdec' := Postcard.envelope.dec_enc he rest
  rw [← hkew, hdec] at hdec'
  cases hdec'
  exact he

/-- Attestations were put after the envelope and nothing before them moved: the new bytes decode to
the record with the same prefix, the content address is as it was, and so are the keys under which
the compiler signature verifies. -/
def EnvelopeKept (X : Externals) (kew : Bytes) (a : Artifact) (n : Nat) (attestations : List Attestation) : Prop :=
  ∃ a' kew' n', a.withAttestations attestations = .ok (a', kew') ∧ decodeArtifact X kew' = .ok (a', n') ∧
    kew'.take n' = kew.take n ∧ verifyHash X kew' = verifyHash X kew ∧
    ∀ key, verifySignature X (kew.take n) a.compilerSignature key = .ok () →
      verifySignature X (kew'.take n') a'.compilerSignature key = .ok ()

/-- The append keeps the envelope of bytes that decode and pass the hash check exactly when no varint
of the envelope is padded. -/
theorem withAttestations_envelopeKept_iff {kew : Bytes} {a : Artifact} {n : Nat} {hash : Hash32}
    {attestations : List Attestation} (h : decodeArtifact X kew = .ok (a, n)) (hv : verifyHash X kew = .ok hash)
    (has : ∃ t, (Codec.seq Postcard.attestation).enc attestations = .ok t) :
    EnvelopeKept X kew a n attestations ↔ Postcard.envelopeUnpadded.accepts (kew.take n) = true := by
  have hacc := decodeArtifact_ok h
  rw [← hacc.enc_iff]
  constructor
  · rintro ⟨a', kew', n', hwith, hdec, htake, -, -⟩
    -- what was appended to begins with the encoding of the envelope
    obtain ⟨rfl, henc⟩ := withAttestations_ok hwith
    obtain ⟨e, s, t, m, he, hs, ht, hm, rfl⟩ := artifact_enc_ok henc
    obtain ⟨-, -, heq⟩ := (decodeArtifact_enc he hs ht hm).1 hdec
    obtain rfl := (Prod.mk.inj heq).2
    rw [List.take_left] at htake
    rw [← htake]
    exact he
  · intro he
    obtain ⟨t, ht⟩ := has
    obtain ⟨bs, rest, hsig⟩ := hacc.signature
    obtain ⟨s, hs⟩ := compilerSignature_reencodes hsig
    have hm : Postcard.registryStateMetadata.enc a.registryStateMetadata = .ok [0] := by
      rw [hacc.marker]
      rfl
    have henc := artifact_enc_of (a := { a with attestations }) he hs ht hm
    have hdec := (decodeArtifact_enc (a := { a with attestations }) (X := X) he hs ht hm).2
      ⟨hacc.manifest, hacc.payload, rfl⟩
    have htake : (kew.take n ++ (s ++ (t ++ [0]))).take (kew.take n).length = kew.take n := List.take_left
    refine ⟨_, _, _, bind_ok.2 ⟨_, mapError_ok.2 henc, rfl⟩, hdec, htake, ?_, ?_⟩
    · -- the hash is of the prefix, and the address that it is compared with is in the prefix
      obtain ⟨a₀, n₀, hdec₀, hc, hhash⟩ := verifyHash_ok hv
      rw [h] at hdec₀
      cases hdec₀
      rw [hv]
      refine bind_ok.2 ⟨_, hdec, bind_ok.2 ⟨hash, ?_, ?_⟩⟩
      · rw [htake]
        exact hc
      · simp only [hhash, ne_eq, not_true_eq_false, if_false]
        rfl
    · intro key hkey
      rw [htake]
      exact hkey

theorem withAttestations_envelopeKept_iff_transfer : ∃ kew a n hash, decodeArtifact standIn kew = .ok (a, n) ∧
    verifyHash standIn kew = .ok hash ∧ EnvelopeKept standIn kew a n [] := by
  have hrun : (decodedTransfer id).toOption.any (fun r => (verifyHash standIn r.1).isOk &&
      Postcard.envelopeUnpadded.accepts (r.1.take r.2.2)) = true := by decide +kernel
  obtain ⟨⟨kew, a, n⟩, h, hp⟩ := exists_ok_and hrun
  rw [Bool.and_eq_true] at hp
  obtain ⟨hash, hv⟩ := exists_ok hp.1
  have hdec := decodedTransfer_ok h
  exact ⟨kew, a, n, hash, hdec, hv, (withAttestations_envelopeKept_iff hdec hv ⟨[0], rfl⟩).2 hp.2⟩

/-- The length of the regime, 6, in two bytes, under the address of the bytes so changed. -/
def padRegime (kew : Bytes) : Bytes :=
  let padded := kew.take 33 ++ [0x86, 0x00] ++ kew.drop 34
  match decodeArtifact standIn padded with
  | .ok (_, n) => patchHash 1 (standIn.blake3 (patchHash 1 zeroHash (padded.take n))) padded
  | .error _ => padded

/-- The bytes pass the hash check; an append rewrites their envelope, and the result does not. -/
theorem padRegime_moves_envelope : ∃ kew a n hash a' kew' n', decodeArtifact standIn kew = .ok (a, n) ∧
    verifyHash standIn kew = .ok hash ∧ a.withAttestations [] = .ok (a', kew') ∧
    decodeArtifact standIn kew' = .ok (a', n') ∧ kew'.take n' ≠ kew.take n ∧ verifyHash standIn kew' ≠ .ok hash := by
  have hrun : (decodedTransfer padRegime).toOption.any (fun r => (verifyHash standIn r.1).isOk &&
      (r.2.1.withAttestations []).toOption.any (fun w =>
        (decodeArtifact standIn w.2).toOption.any (fun d =>
          decide (w.2.take d.2 ≠ r.1.take r.2.2) && !(verifyHash standIn w.2).isOk))) = true := by decide +kernel
  obtain ⟨⟨kew, a, n⟩, h, hp⟩ := exists_ok_and hrun
  rw [Bool.and_eq_true] at hp
  obtain ⟨hash, hv⟩ := exists_ok hp.1
  obtain ⟨⟨a', kew'⟩, hwith, hp⟩ := exists_ok_and hp.2
  obtain ⟨⟨d, n'⟩, hdec', hp⟩ := exists_ok_and hp
  rw [Bool.and_eq_true] at hp
  obtain rfl := decodeArtifact_unique (withAttestations_ok hwith).2 hdec'
  refine ⟨kew, a, n, hash, _, kew', n', decodedTransfer_ok h, hv, hwith, hdec', of_decide_eq_true hp.1, fun hv' => ?_⟩
  rw [hv'] at hp
  cases hp.2

end

end Ke
