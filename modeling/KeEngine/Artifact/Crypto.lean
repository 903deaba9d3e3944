/-
Keys, signatures and timestamp tokens. The hash, the signature scheme and the normalisation test
come from libraries that are not part of this repository: they are a parameter, and `Lawful` is what
a result assumes of them when it needs more than that they are functions.
-/
import KeEngine.Core.CanonicalLaws

namespace Ke

open Wire

/-- The library functions: BLAKE3, Ed25519 with a key given by its seed, and the NFC test. -/
structure Externals where
  blake3 : Bytes → Hash32
  verifyingKey : Hash32 → Hash32
  sign : Hash32 → Bytes → Sig64
  /-- `false` also when the key bytes are no key -/
  verify : Hash32 → Bytes → Sig64 → Bool
  isNfc : String → Bool

/-- A signature verifies under the key of its seed. -/
structure Externals.Lawful (X : Externals) : Prop where
  verify_sign : ∀ seed msg, X.verify (X.verifyingKey seed) msg (X.sign seed msg) = true

/-- A number as 32 bytes. -/
def toHash32 (n : Nat) : Hash32 := ⟨(List.range 32).map fun i => UInt8.ofNat (n / 256 ^ i), by simp⟩

/-- A checksum of 256 bits. -/
def checksum (start : Nat) (bs : Bytes) : Nat := bs.foldl (fun h b => (h * 257 + b.toNat + 1) % 2 ^ 256) start

/-- Two checksums of the key and the message in place of a signature. -/
def checksumSign (key : Hash32) (msg : Bytes) : Sig64 :=
  ⟨(toHash32 (checksum 1 (key.1 ++ msg))).1 ++ (toHash32 (checksum 2 (key.1 ++ msg))).1, by
    rw [List.length_append, (toHash32 _).2, (toHash32 _).2]⟩

/-- A computable stand-in for the libraries, to run the model with: a checksum for the hash, and a
signature that anyone can recompute. -/
def standIn : Externals where
  blake3 bs := toHash32 (checksum 7 bs)
  verifyingKey seed := seed
  sign := checksumSign
  verify key msg sig := decide (sig = checksumSign key msg)
  isNfc _ := true

theorem standIn_lawful : standIn.Lawful where
  verify_sign seed msg := decide_eq_true rfl

/-! ## Fixed-seed test keys -/

/-- The seed of a text of 32 ASCII characters. -/
def seedOf (text : String) (h : (text.toList.map fun c => UInt8.ofNat c.toNat).length = 32 := by decide) : Hash32 :=
  ⟨text.toList.map fun c => UInt8.ofNat c.toNat, h⟩

namespace TestKeys

def testKeyId : String := "test-fixed-seed-1"

def fixedSeed : Hash32 := seedOf "ke-workbench-test-fixed-seed-1!!"

def testExpertKeyId : String := "test-expert-fixed-seed-1"

def expertFixedSeed : Hash32 := seedOf "ke-workbench-test-expert-seed-1!"

def mockTsaSeed : Hash32 := seedOf "ke-workbench-test-mock-tsa-seed1"

def registryRootKeyId : String := "test-registry-fixed-seed-1"

def registryRootSeed : Hash32 := seedOf "ke-workbench-test-registry-seed1"

end TestKeys

/-! ## Key directory -/

inductive SignerRole
  | domainExpert
  | publicationApprover
  | registry
deriving DecidableEq

inductive KeyStatus
  | active
  | expired
  | revoked
deriving DecidableEq

structure KeyDirectoryEntry where
  keyId : String
  publicKey : Hash32
  signerRoles : List SignerRole
  authorizedAttestationTypes : List AttestationType
  /-- `[from, to)` in unix seconds -/
  validFromUnix : UInt64
  validToUnix : UInt64
  status : KeyStatus

structure KeyDirectory where
  entries : List KeyDirectoryEntry

def KeyDirectory.lookup (d : KeyDirectory) (keyId : String) : Option KeyDirectoryEntry :=
  d.entries.find? (fun entry => decide (entry.keyId = keyId))

/-! ## Timestamp tokens -/

inductive TimestampAuthorityClass
  | rfc3161External (tsaIdentity : String)
  | rfc3161Internal (tsaIdentity : String)
  | mock
deriving DecidableEq

structure TimestampToken where
  class_ : TimestampAuthorityClass
  token : Bytes
  claimedTimeUnix : UInt64
deriving DecidableEq

inductive TsaError
  | unsupported (c : TimestampAuthorityClass)
  | classMismatch
deriving DecidableEq

def classDiscriminant : TimestampAuthorityClass → UInt8
  | .rfc3161External _ => 0
  | .rfc3161Internal _ => 1
  | .mock => 2

/-- `to_le_bytes` of a 64-bit number. -/
def leBytes (n : UInt64) : Bytes := (List.range 8).map fun i => (n >>> (8 * i.toUInt64)).toUInt8

/-- Class, payload hash, claimed time: the message of a mock token. -/
def mockMessage (payloadHash : Hash32) (claimedTimeUnix : UInt64) : Bytes :=
  [classDiscriminant .mock] ++ payloadHash.1 ++ leBytes claimedTimeUnix

section

variable (X : Externals)

/-- The embedded public key, the one of the fixed seed. -/
def mockTsaPublicKey : Hash32 := X.verifyingKey TestKeys.mockTsaSeed

def verifiesAsMock (token : TimestampToken) (payloadHash : Hash32) : Bool :=
  if h : token.token.length = 64 then
    X.verify (mockTsaPublicKey X) (mockMessage payloadHash token.claimedTimeUnix) ⟨token.token, h⟩
  else false

/-- The class a token really has, whatever it claims. -/
def deriveClass (token : TimestampToken) (payloadHash : Hash32) : Except TsaError TimestampAuthorityClass :=
  if verifiesAsMock X token payloadHash then .ok .mock
  else
    match token.class_ with
    | .mock => .error .classMismatch
    | c => .error (.unsupported c)

/-- `MockTsa::stamp` -/
def mockStamp (payloadHash : Hash32) (claimedTimeUnix : UInt64) : TimestampToken where
  class_ := .mock
  token := (X.sign TestKeys.mockTsaSeed (mockMessage payloadHash claimedTimeUnix)).1
  claimedTimeUnix

/-- A stamp of the mock authority derives to its class. -/
theorem deriveClass_mockStamp (hX : X.Lawful) (payloadHash : Hash32) (now : UInt64) :
    deriveClass X (mockStamp X payloadHash now) payloadHash = .ok .mock := by
  have hlen : (mockStamp X payloadHash now).token.length = 64 := (X.sign _ _).2
  have hv : verifiesAsMock X (mockStamp X payloadHash now) payloadHash = true := by
    rw [verifiesAsMock, dif_pos hlen]
    exact hX.verify_sign _ _
  rw [deriveClass, if_pos hv]

end

/-- The signature field of a record that is not signed yet. -/
def zeroSig : Sig64 := ⟨List.replicate 64 0, rfl⟩

/-! ## Compiler signatures -/

structure CompilerSignature where
  keyId : String
  signature : Sig64
deriving DecidableEq

/-- Sign the hash-patched envelope prefix. -/
def signEnvelope (X : Externals) (envelopePrefix : Bytes) (seed : Hash32) (keyId : String) : CompilerSignature :=
  ⟨keyId, X.sign seed envelopePrefix⟩

/-! ## Signed prefixes -/

/-- `postcard::Error`, of an encoder or of a decoder. -/
inductive PostcardError
  | encode (e : EncodeError)
  | decode (e : DecodeError)
deriving DecidableEq

/-- The bytes of a record before its last field, the signature: what is consumed when the payload,
all fields but the last, is read off the record's encoding. -/
def signedPrefix {ρ π : Type} (record : Codec ρ) (payload : Codec π) (r : ρ) : Except PostcardError Bytes := do
  let bytes ← (record.enc r).mapError .encode
  let (_, rest) ← (payload.dec bytes).mapError .decode
  pure (bytes.take (bytes.length - rest.length))

/-- The prefix is the encoding of the payload, whatever follows it. -/
theorem signedPrefix_ok {ρ π : Type} {record : Codec ρ} {payload : Codec π} {r : ρ} {a : π} {p s : Bytes}
    (h : record.enc r = .ok (p ++ s)) (hp : payload.enc a = .ok p) : signedPrefix record payload r = .ok p := by
  refine bind_ok.2 ⟨p ++ s, mapError_ok.2 h, bind_ok.2 ⟨(a, s), mapError_ok.2 (payload.dec_enc hp s), ?_⟩⟩
  simp [pure, Except.pure]

/-! ## Wire format -/

namespace Postcard

open Codec

def signerRole : Codec SignerRole := enum [const .domainExpert, const .publicationApprover, const .registry]

def timestampAuthorityClass : Codec TimestampAuthorityClass :=
  enum [
    str.arm ⟨.rfc3161External, fun | .rfc3161External i => some i | _ => none, by rintro (_ | _ | _) _ ⟨⟩; rfl⟩,
    str.arm ⟨.rfc3161Internal, fun | .rfc3161Internal i => some i | _ => none, by rintro (_ | _ | _) _ ⟨⟩; rfl⟩,
    const .mock]

def timestampToken : Codec TimestampToken :=
  (timestampAuthorityClass.pair ((seq u8).pair u64)).iso (fun t => (t.class_, t.token, t.claimedTimeUnix))
    (fun (c, t, n) => ⟨c, t, n⟩) (fun _ => rfl)

def compilerSignature : Codec CompilerSignature :=
  (str.pair sig64).iso (fun s => (s.keyId, s.signature)) (fun (k, s) => ⟨k, s⟩) (fun _ => rfl)

end Postcard

end Ke
