/-
What the two prefix signatures cover. An attestation and an event are each written by a layout of
their own, and the length of the signed prefix is read off with a second layout that lists every
field but the signature; the prefix is then the encoding without its last 64 bytes, a function of
the other fields only, and different for different fields. So a signature is checked against all of
the record but itself.
-/
import KeEngine.Artifact.Expiry
import KeEngine.Registry.RaceLaws

namespace Ke.Postcard

open Ke Wire Codec Registry

/-! ## The layouts -/

/-- `Attestation`, field by field as it declares them; `attestationPayload` is `AttestationPayloadView`. -/
def attestationFields : Codec Attestation :=
  (hash32.pair (attestationScope.pair (attestationType.pair (str.pair (str.pair (signerRole.pair (str.pair
      (jurisdictionDate.pair (jurisdictionDate.option.pair (hash32.pair (semVer.pair (semVer.pair (str.pair
        (hash32.option.pair (timestampToken.pair (jurisdictionDate.option.pair
          (str.option.pair sig64))))))))))))))))).iso
    (fun a => (a.artifactHash, a.scope, a.attestationType, a.signerIdentity, a.keyId, a.signerRole, a.regimeId,
      a.effectiveFrom, a.effectiveTo, a.legalSourceHash, a.irSchemaVersion, a.compilerVersion,
      a.attestationPolicyVersion, a.testCorpusHash, a.timestamp, a.expiration, a.reviewerComments, a.signature))
    (fun (h, s, t, i, k, r, g, ef, et, l, v, c, p, th, ts, e, rc, sig) =>
      ⟨⟨h, s, t, i, k, r, g, ef, et, l, v, c, p, th, ts, e, rc⟩, sig⟩) (fun _ => rfl)

/-- `LifecycleEvent`, field by field as it declares them; `eventPayload` is `EventPayloadView`. -/
def eventFields : Codec LifecycleEvent :=
  (hash32.pair (u32.pair (lifecycleState.option.pair (lifecycleState.pair (str.pair (str.pair (signerRole.pair
      (timestampToken.pair (hash32.option.pair sig64))))))))).iso
    (fun e => (e.artifactHash, e.seq, e.priorState, e.newState, e.eventKind, e.authorityKeyId, e.authorityRole,
      e.timestamp, e.prevEventHash, e.signature))
    (fun (h, s, p, n, k, a, r, t, l, sig) => ⟨⟨h, s, p, n, k, a, r, t, l⟩, sig⟩) (fun _ => rfl)

/-- The fields in declaration order are the payload's, then the signature. -/
theorem attestationFields_enc (a : Attestation) : attestationFields.enc a = attestation.enc a := by
  simp only [attestationFields, attestation, attestationPayload, iso, retract, pair, bind_assoc, pure_bind,
    List.append_assoc]

theorem eventFields_enc (e : LifecycleEvent) : eventFields.enc e = lifecycleEvent.enc e := by
  simp only [eventFields, lifecycleEvent, eventPayload, iso, retract, pair, bind_assoc, pure_bind, List.append_assoc]

end Ke.Postcard

namespace Ke

open Wire

/-! ## A record that ends in its signature -/

section

variable {ρ π ε ε' : Type} {record : Codec ρ} {view : Codec π} {payload : ρ → π} {signature : ρ → Sig64}
  {signedBytes : ρ → Except ε Bytes}

/-- The record is written as its payload, then its signature. -/
def EndsInSignature (record : Codec ρ) (view : Codec π) (payload : ρ → π) (signature : ρ → Sig64) : Prop :=
  ∀ r, record.enc r = (view.enc (payload r)).map fun p => p ++ (signature r).1

theorem EndsInSignature.of_pair
    (h : ∀ r, record.enc r = (view.pair Postcard.sig64).enc (payload r, signature r)) :
    EndsInSignature record view payload signature := by
  intro r
  rw [h r]
  show (view.enc (payload r) >>= fun p => Postcard.sig64.enc (signature r) >>= fun s => pure (p ++ s)) = _
  rw [sig64_enc]
  cases view.enc (payload r) <;> rfl

/-- Of the record's layout only the bytes matter. -/
theorem signedPrefix_congr {record record' : Codec ρ} (h : ∀ r, record.enc r = record'.enc r) (r : ρ) :
    signedPrefix record view r = signedPrefix record' view r := by
  unfold signedPrefix
  rw [h r]

/-- The signed bytes are the encoding without its last 64 bytes, the signature; they are a function of the
payload alone, and differ for different payloads. -/
structure PrefixLaws (record : Codec ρ) (payload : ρ → π) (signature : ρ → Sig64)
    (signedBytes : ρ → Except ε Bytes) : Prop where
  truncated : ∀ r bytes, record.enc r = .ok bytes → signedBytes r = .ok (bytes.take (bytes.length - 64)) ∧
    bytes.drop (bytes.length - 64) = (signature r).1
  unsigned : ∀ r r', payload r = payload r' → signedBytes r = signedBytes r'
  injective : ∀ r r' p, signedBytes r = .ok p → signedBytes r' = .ok p → payload r = payload r'

/-- The bytes that the view consumes are the encoding of the payload, also when there is none. -/
theorem EndsInSignature.signedPrefix_eq (h : EndsInSignature record view payload signature) (r : ρ) :
    signedPrefix record view r = (view.enc (payload r)).mapError .encode := by
  have hrecord := h r
  cases hpayload : view.enc (payload r) with
  | error e =>
    rw [hpayload] at hrecord
    unfold signedPrefix
    rw [hrecord]
    rfl
  | ok p =>
    rw [hpayload] at hrecord
    exact signedPrefix_ok hrecord hpayload

theorem EndsInSignature.prefixLaws (h : EndsInSignature record view payload signature) (f : EncodeError → ε)
    (hbytes : ∀ r, signedBytes r = (view.enc (payload r)).mapError f) :
    PrefixLaws record payload signature signedBytes where
  truncated r bytes henc := by
    obtain ⟨p, hp, rfl⟩ := map_ok.1 ((h r).symm.trans henc)
    have hlen : (p ++ (signature r).1).length - 64 = p.length := by
      rw [List.length_append, (signature r).2, Nat.add_sub_cancel]
    rw [hlen, List.take_left, List.drop_left, hbytes r, hp]
    exact ⟨rfl, rfl⟩
  unsigned r r' hpayload := by rw [hbytes, hbytes, hpayload]
  injective r r' p hr hr' := by
    rw [hbytes, mapError_ok] at hr hr'
    exact view.enc_injective hr hr'

/-! ## Signing and checking -/

/-- An ideal scheme over some messages: what the seed signs of one of them verifies under the key for no
other of them. -/
def Externals.IdealOn (X : Externals) (seed key : Hash32) (messages : Set Bytes) : Prop :=
  ∀ p ∈ messages, ∀ q ∈ messages, X.verify key q (X.sign seed p) = true → q = p

/-- A scheme is ideal over two messages that it tells apart. -/
theorem idealOn_two {X : Externals} {seed key : Hash32} {x y : Except ε Bytes}
    (h : ∀ p ∈ x.toOption, ∀ q ∈ y.toOption,
      X.verify key q (X.sign seed p) = false ∧ X.verify key p (X.sign seed q) = false) :
    X.IdealOn seed key {m | x = .ok m ∨ y = .ok m} := by
  have hmem : ∀ {x : Except ε Bytes} {m : Bytes}, x = .ok m → m ∈ x.toOption := by
    rintro _ m rfl
    rfl
  rintro p (hp | hp) q (hq | hq) hverify
  · exact Except.ok.inj (hq.symm.trans hp)
  · rw [(h p (hmem hp) q (hmem hq)).1] at hverify
    cases hverify
  · rw [(h q (hmem hq) p (hmem hp)).2] at hverify
    cases hverify
  · exact Except.ok.inj (hq.symm.trans hp)

/-- Signing a record by the seed keeps its payload, and the check by the key then passes if the key is the
seed's. The check fails on every record with that signature and another payload, as long as the scheme is
ideal over messages that both prefixes are among. -/
def Covers (X : Externals) (seed key : Hash32) (payload : ρ → π) (signature : ρ → Sig64)
    (signedBytes : ρ → Except ε Bytes) (sign : ρ → Except ε ρ) (check : ρ → Except ε' Unit) (r : ρ) : Prop :=
  ∃ signed, sign r = .ok signed ∧ payload signed = payload r ∧
    (key = X.verifyingKey seed → check signed = .ok ()) ∧
    ∀ messages, X.IdealOn seed key messages → (∀ p, signedBytes signed = .ok p → p ∈ messages) →
      ∀ changed, signature changed = signature signed → payload changed ≠ payload r →
        (∀ p, signedBytes changed = .ok p → p ∈ messages) → check changed ≠ .ok ()

theorem covers_of_prefixLaws {X : Externals} (hX : X.Lawful) {seed key : Hash32} {sign : ρ → Except ε ρ}
    {check : ρ → Except ε' Unit} (laws : PrefixLaws record payload signature signedBytes)
    (hsign : ∀ r p, signedBytes r = .ok p → ∃ signed, sign r = .ok signed ∧ payload signed = payload r ∧
      signature signed = X.sign seed p)
    (hcheck : ∀ r, check r = .ok () ↔ ∃ p, signedBytes r = .ok p ∧ X.verify key p (signature r) = true)
    {r : ρ} (hr : ∃ p, signedBytes r = .ok p) :
    Covers X seed key payload signature signedBytes sign check r := by
  obtain ⟨p, hp⟩ := hr
  obtain ⟨signed, hsigned, hpayload, hsignature⟩ := hsign r p hp
  have hbytes : signedBytes signed = .ok p := (laws.unsigned signed r hpayload).trans hp
  refine ⟨signed, hsigned, hpayload, ?_, ?_⟩
  · rintro rfl
    refine (hcheck signed).2 ⟨p, hbytes, ?_⟩
    rw [hsignature]
    exact hX.verify_sign seed p
  · intro messages hideal hmem changed hsame hother hmem' hpasses
    -- what passes the check under this signature has the prefix that was signed, hence the payload
    obtain ⟨q, hq, hverify⟩ := (hcheck changed).1 hpasses
    rw [hsame, hsignature] at hverify
    obtain rfl := hideal p (hmem p hbytes) q (hmem' q hq) hverify
    exact hother (laws.injective changed r q hq hp)

end

/-! ## Attestations -/

section

variable {X : Externals}

theorem attestation_endsInSignature : EndsInSignature Postcard.attestationFields Postcard.attestationPayload
    (·.toAttestationPayload) (·.signature) := .of_pair Postcard.attestationFields_enc

/-- The prefix that is signed is the one read off the declared layout. -/
theorem payloadPrefix_fields (a : Attestation) :
    payloadPrefix a = signedPrefix Postcard.attestationFields Postcard.attestationPayload a :=
  signedPrefix_congr (fun a => (Postcard.attestationFields_enc a).symm) a

theorem payloadPrefix_eq (a : Attestation) :
    payloadPrefix a = (Postcard.attestationPayload.enc a.toAttestationPayload).mapError .encode :=
  (payloadPrefix_fields a).trans (attestation_endsInSignature.signedPrefix_eq a)

theorem attestation_prefixLaws : PrefixLaws Postcard.attestationFields (·.toAttestationPayload) (·.signature)
    payloadPrefix := attestation_endsInSignature.prefixLaws .encode payloadPrefix_eq

/-- The signature step of `verifyAttestation`, under the key of the directory entry. -/
def signatureStep (X : Externals) (key : Hash32) (a : Attestation) : Except AttestationRejection Unit := do
  let signed ← (payloadPrefix a).mapError fun _ => .attestationSignatureInvalid
  if !X.verify key signed a.signature then throw .attestationSignatureInvalid

/-- The steps after the signature, from the timestamp on. -/
def verifyStamped (X : Externals) (entry : KeyDirectoryEntry) (a : Attestation) (expectedArtifactHash : Hash32)
    (manifest : Manifest) (context : PolicyContext) : Except AttestationRejection Unit := do
  let derived ← (deriveClass X a.timestamp a.artifactHash).mapError fun
    | .unsupported c => .tsaUnsupported c
    | .classMismatch => .timestampClassMismatch
  if derived ≠ a.timestamp.class_ then throw .timestampClassMismatch
  if derived = .mock ∧ !context.isLocal then throw .mockTsaNonLocal
  verifyKey entry a expectedArtifactHash manifest context

theorem verifyAttestation_signature (a : Attestation) (expectedArtifactHash : Hash32) (manifest : Manifest)
    (keyDirectory : KeyDirectory) (context : PolicyContext) :
    verifyAttestation X a expectedArtifactHash manifest keyDirectory context = (do
      let entry ← (keyDirectory.lookup a.keyId).elim (throw (.keyUnknown a.keyId)) pure
      signatureStep X entry.publicKey a
      verifyStamped X entry a expectedArtifactHash manifest context) := by
  rw [verifyAttestation_eq]
  cases keyDirectory.lookup a.keyId with
  | none => rfl
  | some entry =>
    show _ = signatureStep X entry.publicKey a >>= fun _ =>
      verifyStamped X entry a expectedArtifactHash manifest context
    unfold signatureStep
    cases payloadPrefix a with
    | error e => rfl
    | ok signed =>
      show (if !X.verify entry.publicKey signed a.signature then _ else _) =
        (if !X.verify entry.publicKey signed a.signature then _ else _) >>= _
      cases X.verify entry.publicKey signed a.signature <;> rfl

theorem signatureStep_ok {key : Hash32} {a : Attestation} : signatureStep X key a = .ok () ↔
    ∃ p, payloadPrefix a = .ok p ∧ X.verify key p a.signature = true := by
  constructor
  · intro h
    obtain ⟨p, hp, h⟩ := bind_ok.1 h
    refine ⟨p, mapError_ok.1 hp, ?_⟩
    by_contra hverify
    rw [Bool.not_eq_true] at hverify
    rw [hverify] at h
    cases h
  · rintro ⟨p, hp, hverify⟩
    refine bind_ok.2 ⟨p, mapError_ok.2 hp, ?_⟩
    rw [hverify]
    rfl

theorem signAttestation_ok {a signed : Attestation} {seed : Hash32} : signAttestation X a seed = .ok signed ↔
    ∃ p, payloadPrefix a = .ok p ∧ signed = { a with signature := X.sign seed p } := by
  constructor
  · intro h
    obtain ⟨p, hp, h⟩ := bind_ok.1 h
    exact ⟨p, hp, (pure_ok.1 h).symm⟩
  · rintro ⟨p, hp, rfl⟩
    exact bind_ok.2 ⟨p, hp, rfl⟩

end

/-! ## What a length prefix counts -/

/-- A text whose bytes 64 bits count, as they do for every `String`. -/
def Counted (text : String) : Prop := text.utf8ByteSize < 2 ^ 64

instance (text : String) : Decidable (Counted text) := inferInstanceAs (Decidable (_ < _))

def AttestationScope.ids : AttestationScope → List String
  | .ruleIds ids => ids
  | .wholeArtifact => []

def TimestampAuthorityClass.identity : TimestampAuthorityClass → Option String
  | .rfc3161External tsaIdentity => some tsaIdentity
  | .rfc3161Internal tsaIdentity => some tsaIdentity
  | .mock => none

structure TimestampToken.Counted (t : TimestampToken) : Prop where
  identity : ∀ text ∈ t.class_.identity, Ke.Counted text
  token : t.token.length < 2 ^ 64

/-- Every text and list of the record is counted by 64 bits, as every `String` and `Vec` is. -/
structure AttestationPayload.Counted (a : AttestationPayload) : Prop where
  ids : a.scope.ids.length < 2 ^ 64 ∧ ∀ id ∈ a.scope.ids, Ke.Counted id
  texts : ∀ text ∈ [a.signerIdentity, a.keyId, a.regimeId, a.attestationPolicyVersion], Ke.Counted text
  comments : ∀ text ∈ a.reviewerComments, Ke.Counted text
  timestamp : a.timestamp.Counted

namespace Registry

/-- Every text and list of the record is counted by 64 bits, as every `String` and `Vec` is. -/
structure EventPayload.Counted (e : EventPayload) : Prop where
  texts : ∀ text ∈ [e.eventKind, e.authorityKeyId], Ke.Counted text
  timestamp : e.timestamp.Counted

theorem writes_counted {text : String} (h : Counted text) : Writes Codec.str text := by
  apply writes_str
  rw [Array.length_toList]
  exact h

theorem writes_option {γ : Type} {codec : Codec γ} {o : Option γ} (h : ∀ a ∈ o, Writes codec a) :
    Writes codec.option o := by
  cases o with
  | none => exact ⟨_, rfl⟩
  | some a => exact writes_some (h a rfl)

theorem writes_encAll {γ : Type} {codec : Codec γ} : ∀ {as : List γ}, (∀ a ∈ as, Writes codec a) →
    ∃ bytes, Codec.encAll codec as = .ok bytes
  | [], _ => ⟨[], rfl⟩
  | a :: as, h => by
    obtain ⟨x, hx⟩ := h a List.mem_cons_self
    obtain ⟨y, hy⟩ := writes_encAll fun b hb => h b (List.mem_cons_of_mem a hb)
    exact ⟨x ++ y, bind_ok.2 ⟨x, hx, bind_ok.2 ⟨y, hy, rfl⟩⟩⟩

theorem writes_seq {γ : Type} {codec : Codec γ} {as : List γ} (hlen : as.length < 2 ^ 64)
    (h : ∀ a ∈ as, Writes codec a) : Writes (Codec.seq codec) as := by
  obtain ⟨bytes, hbytes⟩ := writes_encAll h
  exact ⟨_, bind_ok.2 ⟨_, Codec.varint64_enc hlen, bind_ok.2 ⟨bytes, hbytes, rfl⟩⟩⟩

theorem writes_scope {scope : AttestationScope} (h : scope.ids.length < 2 ^ 64 ∧ ∀ id ∈ scope.ids, Counted id) :
    Writes Postcard.attestationScope scope := by
  cases scope with
  | ruleIds ids =>
    obtain ⟨bytes, hbytes⟩ := writes_seq h.1 fun id hid => writes_counted (h.2 id hid)
    exact ⟨0 :: bytes, bind_ok.2 ⟨[0], rfl, bind_ok.2 ⟨bytes, hbytes, rfl⟩⟩⟩
  | wholeArtifact => exact ⟨_, rfl⟩

theorem writes_timestamp {t : TimestampToken} (h : t.Counted) : Writes Postcard.timestampToken t := by
  refine writes_pair ?_ (writes_pair (writes_bytes h.token) ⟨_, Codec.varint64_enc t.claimedTimeUnix.toNat_lt⟩)
  have hidentity := h.identity
  show Writes Postcard.timestampAuthorityClass t.class_
  cases hclass : t.class_ with
  | rfc3161External tsa =>
    obtain ⟨bytes, hbytes⟩ := writes_counted (hidentity tsa (by rw [hclass]; rfl))
    exact ⟨0 :: bytes, bind_ok.2 ⟨[0], rfl, bind_ok.2 ⟨bytes, hbytes, rfl⟩⟩⟩
  | rfc3161Internal tsa =>
    obtain ⟨bytes, hbytes⟩ := writes_counted (hidentity tsa (by rw [hclass]; rfl))
    exact ⟨1 :: bytes, bind_ok.2 ⟨[1], rfl, bind_ok.2 ⟨bytes, hbytes, rfl⟩⟩⟩
  | mock => exact ⟨_, rfl⟩

theorem writes_u16 (n : UInt16) : Writes Codec.u16 n := ⟨_, if_pos n.toNat_lt⟩

theorem writes_semVer (v : SemVer) : Writes Postcard.semVer v :=
  writes_pair (writes_u16 _) (writes_pair (writes_u16 _) (writes_u16 _))

theorem writes_date (date : JurisdictionDate) : Writes Postcard.jurisdictionDate date := by
  have hlo := date.year.lo
  have hhi := date.year.hi
  have hyear : Writes Codec.i16 date.year := by
    refine ⟨_, if_pos ?_⟩
    unfold Codec.zigzag
    norm_num at hlo hhi ⊢
    split <;> omega
  exact writes_pair hyear (writes_pair ⟨_, rfl⟩ ⟨_, rfl⟩)

theorem writes_signerRole (role : SignerRole) : Writes Postcard.signerRole role := by
  cases role <;> exact ⟨_, rfl⟩

theorem writes_attestationType (t : AttestationType) : Writes Postcard.attestationType t := by
  cases t <;> exact ⟨_, rfl⟩

theorem writes_attestationPayload {a : AttestationPayload} (h : a.Counted) : Writes Postcard.attestationPayload a := by
  have htext : ∀ {text}, text ∈ [a.signerIdentity, a.keyId, a.regimeId, a.attestationPolicyVersion] →
      Writes Codec.str text := fun htext => writes_counted (h.texts _ htext)
  refine writes_pair (writes_hash _) (writes_pair (writes_scope h.ids) (writes_pair (writes_attestationType _) ?_))
  refine writes_pair (htext (by simp)) (writes_pair (htext (by simp)) (writes_pair (writes_signerRole _) ?_))
  refine writes_pair (htext (by simp))
    (writes_pair (writes_date _) (writes_pair (writes_option fun _ _ => writes_date _) ?_))
  refine writes_pair (writes_hash _) (writes_pair (writes_semVer _) (writes_pair (writes_semVer _) ?_))
  refine writes_pair (htext (by simp)) (writes_pair (writes_option fun _ _ => writes_hash _) ?_)
  refine writes_pair (writes_timestamp h.timestamp) (writes_pair (writes_option fun _ _ => writes_date _) ?_)
  exact writes_option fun text htext => writes_counted (h.comments text htext)

theorem writes_eventPayload {e : EventPayload} (h : e.Counted) : Writes Postcard.eventPayload e := by
  refine writes_pair (writes_hash _) (writes_pair ⟨_, Codec.varint32_enc (UInt32.toNat_lt _)⟩ ?_)
  refine writes_pair (writes_option fun _ _ => writes_lifecycleState _) (writes_pair (writes_lifecycleState _) ?_)
  refine writes_pair (writes_counted (h.texts _ (by simp))) (writes_pair (writes_counted (h.texts _ (by simp))) ?_)
  refine writes_pair (writes_signerRole _) (writes_pair (writes_timestamp h.timestamp) ?_)
  exact writes_option fun _ _ => writes_hash _

/-! ## Events -/

theorem event_endsInSignature : EndsInSignature Postcard.eventFields Postcard.eventPayload (·.toEventPayload)
    (·.signature) := .of_pair Postcard.eventFields_enc

theorem payloadPrefix_event_eq (e : LifecycleEvent) :
    e.payloadPrefix =
      (Postcard.eventPayload.enc e.toEventPayload).mapError fun error => .eventEncode (.encode error) := by
  unfold LifecycleEvent.payloadPrefix
  rw [signedPrefix_congr fun e => (Postcard.eventFields_enc e).symm, event_endsInSignature.signedPrefix_eq]
  cases Postcard.eventPayload.enc e.toEventPayload <;> rfl

theorem event_prefixLaws : PrefixLaws Postcard.eventFields (·.toEventPayload) (·.signature)
    LifecycleEvent.payloadPrefix := event_endsInSignature.prefixLaws _ payloadPrefix_event_eq

theorem verifySignature_ok {X : Externals} {e : LifecycleEvent} : e.verifySignature X = .ok () ↔
    ∃ p, e.payloadPrefix = .ok p ∧ X.verify (registryRootPublicKey X) p e.signature = true := by
  constructor
  · intro h
    obtain ⟨p, hp, h⟩ := bind_ok.1 h
    refine ⟨p, hp, ?_⟩
    by_contra hverify
    rw [if_neg hverify] at h
    cases h
  · rintro ⟨p, hp, hverify⟩
    exact bind_ok.2 ⟨p, hp, if_pos hverify⟩

/-! ## Both -/

/-- Signing changes the signature only and is then accepted under the key of the signer; no other payload is
accepted with that signature. What is signed is the record's encoding, in the declared order of its fields,
without its last 64 bytes, whatever the signature is, and no two payloads have one. The signature step is the
one that `verifyAttestation` takes after the lookup of the key. -/
theorem prefix_signatures_cover (X : Externals) (hX : X.Lawful) :
    (∀ (seed key : Hash32) (a : Attestation), a.Counted → Covers X seed key (·.toAttestationPayload) (·.signature)
        payloadPrefix (signAttestation X · seed) (signatureStep X key) a) ∧
      (∀ e : LifecycleEvent, e.Counted → Covers X TestKeys.registryRootSeed (registryRootPublicKey X)
        (·.toEventPayload) (·.signature) LifecycleEvent.payloadPrefix (signEvent X) (·.verifySignature X) e) ∧
      PrefixLaws Postcard.attestationFields (·.toAttestationPayload) (·.signature) payloadPrefix ∧
      PrefixLaws Postcard.eventFields (·.toEventPayload) (·.signature) LifecycleEvent.payloadPrefix ∧
      ∀ a hash manifest keyDirectory context, verifyAttestation X a hash manifest keyDirectory context = (do
        let entry ← (keyDirectory.lookup a.keyId).elim (throw (.keyUnknown a.keyId)) pure
        signatureStep X entry.publicKey a
        verifyStamped X entry a hash manifest context) := by
  refine ⟨fun seed key a ha => ?_, fun e he => ?_, attestation_prefixLaws, event_prefixLaws,
    fun a hash manifest keyDirectory context => verifyAttestation_signature a hash manifest keyDirectory context⟩
  · obtain ⟨p, hp⟩ := writes_attestationPayload ha
    apply covers_of_prefixLaws hX attestation_prefixLaws
    · exact fun r p hr => ⟨_, signAttestation_ok.2 ⟨p, hr, rfl⟩, rfl, rfl⟩
    · exact fun r => signatureStep_ok
    · exact ⟨p, (payloadPrefix_eq a).trans (mapError_ok.2 hp)⟩
  · obtain ⟨p, hp⟩ := writes_eventPayload he
    apply covers_of_prefixLaws hX event_prefixLaws
    · exact fun r p hr => ⟨_, signEvent_ok.2 ⟨p, payloadPrefix_event_ok.1 hr, rfl⟩, rfl, rfl⟩
    · exact fun r => verifySignature_ok
    · exact ⟨p, payloadPrefix_event_ok.2 hp⟩

def sampleEvent : LifecycleEvent where
  artifactHash := toHash32 1
  seq := 1
  priorState := some .draft
  newState := .structurallyVerified
  eventKind := "structurally_verified"
  authorityKeyId := TestKeys.registryRootKeyId
  authorityRole := .registry
  timestamp := ⟨.mock, [7], 10⟩
  prevEventHash := some (toHash32 3)
  signature := zeroSig

/-- An attestation moved to another regime and an event moved to another artifact lose their signatures. -/
theorem prefix_signatures_cover_moved :
    (∃ signed, signAttestation standIn sampleAttestation TestKeys.expertFixedSeed = .ok signed ∧
      signatureStep standIn (standIn.verifyingKey TestKeys.expertFixedSeed) signed = .ok () ∧
      signatureStep standIn (standIn.verifyingKey TestKeys.expertFixedSeed) { signed with regimeId := "uk" } ≠ .ok ()) ∧
    ∃ signed, signEvent standIn sampleEvent = .ok signed ∧ signed.verifySignature standIn = .ok () ∧
      LifecycleEvent.verifySignature standIn { signed with artifactHash := toHash32 4 } ≠ .ok () := by
  obtain ⟨hattestation, hevent, hlaws, hlaws', -⟩ := prefix_signatures_cover standIn standIn_lawful
  constructor
  · obtain ⟨signed, hsigned, hpayload, hpasses, hfails⟩ :=
      hattestation TestKeys.expertFixedSeed (standIn.verifyingKey TestKeys.expertFixedSeed) sampleAttestation
        ⟨by decide, by decide, by decide, ⟨by decide, by decide⟩⟩
    have hmoved : ({ signed with regimeId := "uk" } : Attestation).toAttestationPayload =
        { sampleAttestation.toAttestationPayload with regimeId := "uk" } :=
      congrArg (fun a : AttestationPayload => { a with regimeId := "uk" }) hpayload
    refine ⟨signed, hsigned, hpasses rfl, hfails _ (idealOn_two (x := payloadPrefix sampleAttestation)
      (y := payloadPrefix { sampleAttestation with regimeId := "uk" }) (by decide +kernel)) ?_ _ rfl ?_ ?_⟩
    · exact fun p hp => .inl ((hlaws.unsigned _ _ hpayload).symm.trans hp)
    · exact fun heq => absurd (hmoved.symm.trans heq) (by decide)
    · exact fun p hp => .inr ((hlaws.unsigned _ _ hmoved).symm.trans hp)
  · obtain ⟨signed, hsigned, hpayload, hpasses, hfails⟩ := hevent sampleEvent ⟨by decide, ⟨by decide, by decide⟩⟩
    have hmoved : ({ signed with artifactHash := toHash32 4 } : LifecycleEvent).toEventPayload =
        { sampleEvent.toEventPayload with artifactHash := toHash32 4 } :=
      congrArg (fun e : EventPayload => { e with artifactHash := toHash32 4 }) hpayload
    refine ⟨signed, hsigned, hpasses rfl, hfails _ (idealOn_two (x := sampleEvent.payloadPrefix)
      (y := LifecycleEvent.payloadPrefix { sampleEvent with artifactHash := toHash32 4 }) (by decide +kernel))
        ?_ _ rfl ?_ ?_⟩
    · exact fun p hp => .inl ((hlaws'.unsigned _ _ hpayload).symm.trans hp)
    · exact fun heq => absurd (hmoved.symm.trans heq) (by decide)
    · exact fun p hp => .inr ((hlaws'.unsigned _ _ hmoved).symm.trans hp)

end Registry

end Ke
