/-
What the registry holds of one artifact: its bytes, its log, its consistency sidecar. Writing for
one artifact leaves what is held of another alone.
-/
import KeEngine.Artifact.Unpadded
import KeEngine.Artifact.Assembly
import KeEngine.Registry.Commands
import KeEngine.Registry.Log

namespace Ke.Registry

open Ke Wire

/-! ## Names -/

theorem hexDigit_inj {m n : Nat} (hm : m < 16) (hn : n < 16) (h : hexDigit m = hexDigit n) : m = n := by
  have hall : ∀ i : Fin 16, ∀ j : Fin 16, hexDigit i = hexDigit j → i = j := by decide
  exact congrArg Fin.val (hall ⟨m, hm⟩ ⟨n, hn⟩ h)

theorem hexBytes_inj : ∀ {bs cs : Bytes},
    (bs.flatMap fun b => [hexDigit (b.toNat / 16), hexDigit (b.toNat % 16)]) =
      (cs.flatMap fun b => [hexDigit (b.toNat / 16), hexDigit (b.toNat % 16)]) → bs = cs
  | [], [], _ => rfl
  | [], _ :: _, h => by cases h
  | _ :: _, [], h => by cases h
  | b :: bs, c :: cs, h => by
    simp only [List.flatMap_cons, List.cons_append, List.nil_append, List.cons.injEq] at h
    obtain ⟨hhi, hlo, hrest⟩ := h
    have hb := b.toNat_lt
    have hc := c.toNat_lt
    have hhi := hexDigit_inj (by omega) (by omega) hhi
    have hlo := hexDigit_inj (by omega) (by omega) hlo
    have hbc : b = c := UInt8.toNat_inj.1 (by omega)
    rw [hbc, hexBytes_inj hrest]

/-- Different hashes have different names. -/
theorem hex32_inj {h h' : Hash32} (heq : hex32 h = hex32 h') : h = h' :=
  Subtype.ext (hexBytes_inj (String.ofList_inj.1 heq))

theorem hexValue_hexDigit : ∀ n < 16, hexValue (hexDigit n) = some n ∧ hexDigit n ≠ '+' := by decide

theorem parseHexBytes_hexDigits : ∀ bs : Bytes,
    parseHexBytes (bs.flatMap fun b => [hexDigit (b.toNat / 16), hexDigit (b.toNat % 16)]) = some bs
  | [] => rfl
  | b :: bs => by
    have hb := b.toNat_lt
    obtain ⟨hhi, hplus⟩ := hexValue_hexDigit (b.toNat / 16) (by omega)
    obtain ⟨hlo, -⟩ := hexValue_hexDigit (b.toNat % 16) (by omega)
    have hbyte : 16 * (b.toNat / 16) + b.toNat % 16 = b.toNat := by omega
    show parseHexBytes (hexDigit _ :: hexDigit _ :: List.flatMap _ bs) = _
    rw [parseHexBytes, parseHexBytes_hexDigits bs, parseHexByte, if_neg hplus, hhi, hlo]
    show some (UInt8.ofNat (16 * (b.toNat / 16) + b.toNat % 16) :: bs) = _
    rw [hbyte, UInt8.ofNat_toNat]

theorem parseHexBytes_hex32 (hash : Hash32) : parseHexBytes (hex32 hash).toList = some hash.1 := by
  unfold hex32
  rw [String.toList_ofList, parseHexBytes_hexDigits]

/-- The name of a hash is read back. -/
theorem hexToHash_hex32 (hash : Hash32) : hexToHash (hex32 hash) = .ok hash := by
  unfold hexToHash
  rw [parseHexBytes_hex32]
  exact dif_pos hash.2

theorem lookup_cons_if {α : Type} (name other : String) (a : α) (files : List (String × α)) :
    ((name, a) :: files).lookup other = if other = name then some a else files.lookup other := by
  rw [List.lookup_cons]
  by_cases h : other = name
  · rw [if_pos h, beq_iff_eq.2 h]
  · rw [if_neg h, beq_eq_false_iff_ne.2 h]

theorem lookup_putFile {α : Type} (name other : String) (a : α) : ∀ files : List (String × α),
    (putFile name a files).lookup other = if other = name then some a else files.lookup other
  | [] => lookup_cons_if name other a []
  | file :: files => by
    unfold putFile
    by_cases hfile : file.1 = name
    · rw [if_pos hfile, lookup_cons_if, lookup_cons_if]
      by_cases h : other = name
      · rw [if_pos h, if_pos h]
      · rw [if_neg h, if_neg h, if_neg fun h' => h (h'.trans hfile)]
    · rw [if_neg hfile, lookup_cons_if, lookup_cons_if, lookup_putFile name other a files]
      by_cases h : other = name
      · rw [if_pos h, if_pos h, if_neg fun h' => hfile (h'.symm.trans h)]
      · rw [if_neg h, if_neg h]

/-! ## Slots -/

/-- What the registry holds of an artifact. -/
structure Slot where
  kew : Option Bytes
  log : List LifecycleEvent
  sidecar : Option (JsonFile ConsistencyBlock)

def Slot.state (s : Slot) : Option LifecycleState := s.log.getLast?.map (·.newState)

structure Backend.Holds (r : Backend) (hash : Hash32) (s : Slot) : Prop where
  kew : r.artifacts.lookup (hex32 hash) = s.kew
  log : r.events hash = s.log.map eventFile
  sidecar : r.consistency hash = s.sidecar

section

variable {r : Backend} {hash other : Hash32} {s : Slot}

theorem Backend.Holds.putArtifact (h : r.Holds hash s) (kew : Bytes) :
    (r.putArtifact hash kew).Holds hash { s with kew := some kew } :=
  ⟨by rw [Backend.putArtifact, lookup_putFile, if_pos rfl], h.log, h.sidecar⟩

theorem Backend.Holds.putArtifact_other (h : r.Holds hash s) (hne : hash ≠ other) (kew : Bytes) :
    (r.putArtifact other kew).Holds hash s :=
  ⟨by rw [Backend.putArtifact, lookup_putFile, if_neg fun heq => hne (hex32_inj heq), h.kew], h.log, h.sidecar⟩

/-- The registry with another log filed for an artifact. -/
def Backend.fileLog (r : Backend) (hash : Hash32) (log : List LifecycleEvent) : Backend :=
  { r with events := Function.update r.events hash (log.map eventFile) }

theorem Backend.Holds.fileLog (h : r.Holds hash s) (log : List LifecycleEvent) :
    (r.fileLog hash log).Holds hash { s with log } :=
  ⟨h.kew, Function.update_self .., h.sidecar⟩

theorem Backend.Holds.fileLog_other (h : r.Holds hash s) (hne : hash ≠ other) (log : List LifecycleEvent) :
    (r.fileLog other log).Holds hash s :=
  ⟨h.kew, (Function.update_of_ne hne ..).trans h.log, h.sidecar⟩

theorem readArtifactKew_some (h : r.Holds hash s) {kew : Bytes} (hkew : s.kew = some kew) :
    exec (.readArtifactKew hash) r = (.ok kew, r) := by
  show (r.readArtifactKew hash, r) = _
  unfold Backend.readArtifactKew
  rw [h.kew, hkew]

theorem readArtifactKew_none (h : r.Holds hash s) (hkew : s.kew = none) :
    exec (.readArtifactKew hash) r = (.error (.notFound ("by-hash:" ++ hex32 hash)), r) := by
  show (r.readArtifactKew hash, r) = _
  unfold Backend.readArtifactKew
  rw [h.kew, hkew]

theorem putPointer_tags (env tag env' tag' : String) (target : Hash32) (eventRef : String) :
    (r.putPointer env tag target eventRef).tags env' tag' =
      if env' = env ∧ tag' = tag then some (.good ⟨env, tag, hex32 target, eventRef⟩) else r.tags env' tag' := by
  unfold Backend.putPointer
  by_cases henv : env' = env
  · subst henv
    simp only [Function.update_self, true_and]
    exact Function.update_apply ..
  · simp only [Function.update_of_ne henv, henv, false_and, if_false]

theorem Backend.Holds.putPointer (h : r.Holds hash s) (env tag : String) (target : Hash32) (eventRef : String) :
    (r.putPointer env tag target eventRef).Holds hash s := ⟨h.kew, h.log, h.sidecar⟩

theorem Backend.Holds.putRevocation (h : r.Holds hash s) (target : Hash32) (record : RevocationRecord) :
    (r.putRevocation target record).2.Holds hash s := ⟨h.kew, h.log, h.sidecar⟩

/-- A second sidecar is refused. -/
theorem putConsistency_exists (h : r.Holds hash s) {file : JsonFile ConsistencyBlock} (hfile : s.sidecar = some file)
    (block : ConsistencyBlock) : r.putConsistency hash block = (.error (.sidecarExists "consistency"), r) := by
  unfold Backend.putConsistency putSidecar
  rw [h.sidecar, hfile]

/-- The registry with a sidecar for an artifact. -/
def Backend.fileConsistency (r : Backend) (hash : Hash32) (block : ConsistencyBlock) : Backend :=
  { r with consistency := Function.update r.consistency hash (some (.good block)) }

theorem putConsistency_new (h : r.Holds hash s) (hnone : s.sidecar = none) (block : ConsistencyBlock) :
    r.putConsistency hash block = (.ok (), r.fileConsistency hash block) := by
  unfold Backend.putConsistency putSidecar
  rw [h.sidecar, hnone]
  rfl

theorem Backend.Holds.fileConsistency (h : r.Holds hash s) (block : ConsistencyBlock) :
    (r.fileConsistency hash block).Holds hash { s with sidecar := some (.good block) } :=
  ⟨h.kew, h.log, Function.update_self ..⟩

theorem Backend.Holds.fileConsistency_other (h : r.Holds hash s) (hne : hash ≠ other) (block : ConsistencyBlock) :
    (r.fileConsistency other block).Holds hash s :=
  ⟨h.kew, h.log, (Function.update_of_ne hne ..).trans h.sidecar⟩

theorem Backend.Holds.unique {s' : Slot} (h : r.Holds hash s) (h' : r.Holds hash s') : s = s' := by
  have hinj : Function.Injective eventFile := fun e e' he => JsonFile.good.inj (congrArg Prod.snd he)
  have hlog : s.log = s'.log := List.map_injective_iff.2 hinj (h.log.symm.trans h'.log)
  cases s
  cases s'
  simp only [Slot.mk.injEq]
  exact ⟨h.kew.symm.trans h'.kew, hlog, h.sidecar.symm.trans h'.sidecar⟩

end

/-! ## Stored artifacts -/

/-- Bytes that assembly made for an address, with attestations perhaps. -/
structure Stored (X : Externals) (hash : Hash32) (kew : Bytes) (a : Artifact) : Prop where
  address : a.manifest.artifactHash = hash
  manifest : validateManifest X.isNfc a.manifest = .ok ()
  payload : validatePayload X a.manifest.artifactKind a.payload = .ok ()
  enc : Postcard.artifact.enc a = .ok kew
  envelope : ∃ e, Postcard.envelope.enc a.toEnvelope = .ok e ∧ contentHash X e = .ok hash ∧
    a.compilerSignature = signEnvelope X e TestKeys.fixedSeed TestKeys.testKeyId

section

variable {X : Externals} {hash : Hash32} {kew : Bytes} {a : Artifact}

/-- Stored bytes decode to the artifact, at the prefix that was hashed and signed. -/
theorem Stored.decode (h : Stored X hash kew a) : ∃ n, decodeArtifact X kew = .ok (a, n) ∧
    contentHash X (kew.take n) = .ok hash ∧
    a.compilerSignature = signEnvelope X (kew.take n) TestKeys.fixedSeed TestKeys.testKeyId := by
  obtain ⟨e, he, hhash, hsig⟩ := h.envelope
  obtain ⟨e', s, t, m, he', hs, ht, hm, rfl⟩ := artifact_enc_ok h.enc
  rw [he] at he'
  cases he'
  have htake : (e ++ (s ++ (t ++ m))).take e.length = e := List.take_left
  refine ⟨e.length, (decodeArtifact_enc he hs ht hm).2 ⟨h.manifest, h.payload, rfl⟩, ?_, ?_⟩
  · rw [htake]
    exact hhash
  · rw [htake]
    exact hsig

theorem Stored.verifyHash (h : Stored X hash kew a) : verifyHash X kew = .ok hash := by
  obtain ⟨n, hdec, hhash, -⟩ := h.decode
  refine bind_ok.2 ⟨_, hdec, bind_ok.2 ⟨hash, hhash, ?_⟩⟩
  simp only [h.address, ne_eq, not_true_eq_false, if_false]
  rfl

theorem Stored.of_assembled {manifest : Manifest} {payload : ArtifactPayload} {auditVersions : AuditVersions}
    (h : assemblePayload X manifest payload auditVersions TestKeys.fixedSeed TestKeys.testKeyId = .ok (a, kew))
    (hk : payload.Agrees manifest.artifactKind) : Stored X a.manifest.artifactHash kew a ∧ a.attestations = [] := by
  have hasm := assemblePayload_ok h
  obtain ⟨e, s, t, m, he, hs, ht, hm, rfl, hhash, hsig⟩ := hasm.bytes
  obtain ⟨n, hdec, -, -⟩ := hasm.decode hk
  obtain ⟨hmanifest, hpayload, -⟩ := (decodeArtifact_enc he hs ht hm).1 hdec
  refine ⟨⟨rfl, hmanifest, hpayload, hasm.enc, e, he, hhash, ?_⟩, hasm.attestations⟩
  show a.compilerSignature = ⟨TestKeys.testKeyId, X.sign TestKeys.fixedSeed e⟩
  rw [← hsig, ← assemblePayload_keyId h]

/-- Attestations do not touch the envelope. -/
theorem Stored.attested (h : Stored X hash kew a) {types : List AttestationType} {nowUnix : UInt64} {a' : Artifact}
    {kew' : Bytes} (ha : attestArtifact X a types nowUnix = .ok (a', kew')) : Stored X hash kew' a' := by
  obtain ⟨as, -, ha⟩ := bind_ok.1 ha
  obtain ⟨⟨a₁, kew₁⟩, hwith, ha⟩ := bind_ok.1 ha
  obtain ⟨-, ha⟩ := throw_else.1 ha
  obtain ⟨-, ha⟩ := throw_else.1 ha
  have ha := pure_ok.1 ha
  rw [Prod.mk.injEq] at ha
  obtain ⟨rfl, rfl⟩ := ha
  obtain ⟨rfl, henc⟩ := withAttestations_ok (mapError_ok.1 hwith)
  exact ⟨h.address, h.manifest, h.payload, henc, h.envelope⟩

end

end Ke.Registry
