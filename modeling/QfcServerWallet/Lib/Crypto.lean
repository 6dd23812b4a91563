import QfcServerWallet.Lib.Bytes

/-!
# The cryptographic dependencies

The primitives a program takes from cryptographic libraries, as one record of functions. Nothing
is assumed of them here; a result that needs a documented property takes it as a hypothesis
(`Crypto.Ed25519Correct`, `Crypto.SignaturesCorrect`, or one stated at the result).

* Keys and signatures of `ed25519-dalek` are fixed-width arrays; a public key may fail to decode
  (`ed25519KeyError`, the error text).
* `k256`: a secret scalar and a signature may be out of range (`secpSecretError`,
  `secpSigError`); a public key is its 33-byte compressed point.
* `ml-dsa` comes at three levels, each with its own encoding widths (`MlDsaPrims`).
* `bip32` extended keys are their serialised bytes.
* `vsss-rs` recombines the 33-byte shares of one scalar.
* `ofTables` is a record that evaluates, for inputs whose values are listed.
-/

namespace QfcServerWallet.Lib

/-- One ML-DSA parameter set. -/
structure MlDsaPrims where
  publicKeyLen : Nat
  signatureLen : Nat
  publicKey : FixedBytes 32 → Bytes
  sign : FixedBytes 32 → Bytes → Bytes
  /-- `Signature::decode` -/
  sigDecodes : Bytes → Bool
  verify : Bytes → Bytes → Bytes → Bool

/-- The primitives. -/
structure Crypto where
  sha256 : Bytes → FixedBytes 32
  keccak256 : Bytes → FixedBytes 32
  blake3 : Bytes → FixedBytes 32
  hmacSha512 : Bytes → Bytes → FixedBytes 64
  ed25519PublicKey : FixedBytes 32 → FixedBytes 32
  ed25519Sign : FixedBytes 32 → Bytes → FixedBytes 64
  /-- `VerifyingKey::from_bytes`: why the bytes are no key, if they are none -/
  ed25519KeyError : FixedBytes 32 → Option String
  ed25519Verify : FixedBytes 32 → Bytes → FixedBytes 64 → Bool
  secpSecretError : FixedBytes 32 → Option String
  secpPublicKey : FixedBytes 32 → FixedBytes 33
  /-- `sign_prehash` -/
  secpSign : FixedBytes 32 → FixedBytes 32 → Except String (FixedBytes 64)
  /-- `normalize_s().unwrap_or(sig)` -/
  secpNormalizeS : FixedBytes 64 → FixedBytes 64
  secpSignRecoverable : FixedBytes 32 → FixedBytes 32 → Except String (FixedBytes 64 × UInt8)
  /-- `VerifyingKey::from_sec1_bytes`, as the compressed point -/
  secpKey : Bytes → Option (FixedBytes 33)
  secpSigError : FixedBytes 64 → Option String
  secpVerify : FixedBytes 33 → FixedBytes 32 → FixedBytes 64 → Bool
  /-- `RecoveryId::from_byte` -/
  secpRecoveryIdOk : UInt8 → Bool
  secpRecover : FixedBytes 32 → FixedBytes 64 → UInt8 → Option (FixedBytes 33)
  mlDsa44 : MlDsaPrims
  mlDsa65 : MlDsaPrims
  mlDsa87 : MlDsaPrims
  /-- `XPrv::new` -/
  xprvNew : Bytes → Except String Bytes
  /-- `ChildNumber::new`, then `derive_child` -/
  xprvDeriveChild : Bytes → UInt32 → Bool → Except String Bytes
  xprvSecret : Bytes → FixedBytes 32
  /-- `vsss_rs::combine_shares`: the big-endian bytes of the scalar -/
  vsssCombine : List (FixedBytes 33) → Except String (FixedBytes 32)

namespace Crypto

/-- What RFC 8032 promises of an honest key: its public key decodes, and its own signatures
verify. -/
structure Ed25519Correct (c : Crypto) : Prop where
  key_ok : ∀ seed, c.ed25519KeyError (c.ed25519PublicKey seed) = none
  verify_sign : ∀ seed msg,
    c.ed25519Verify (c.ed25519PublicKey seed) msg (c.ed25519Sign seed msg) = true

/-- What ECDSA promises of a key in range: its public key decodes to itself, and the signatures it
makes decode, verify and, for the recoverable form, lead back to the key. -/
structure SecpCorrect (c : Crypto) : Prop where
  key_ok : ∀ sk, c.secpSecretError sk = none →
    c.secpKey (c.secpPublicKey sk).bytes = some (c.secpPublicKey sk)
  verify_sign : ∀ sk digest sig, c.secpSecretError sk = none → c.secpSign sk digest = .ok sig →
    c.secpSigError (c.secpNormalizeS sig) = none ∧
      c.secpVerify (c.secpPublicKey sk) digest (c.secpNormalizeS sig) = true
  recover_sign : ∀ sk digest sig recId, c.secpSecretError sk = none →
    c.secpSignRecoverable sk digest = .ok (sig, recId) →
    c.secpSigError sig = none ∧ c.secpVerify (c.secpPublicKey sk) digest sig = true ∧
      c.secpRecoveryIdOk recId = true ∧ c.secpRecover digest sig recId = some (c.secpPublicKey sk)

/-- What FIPS 204 promises of one parameter set: encodings have their widths, and the signatures
of a seed verify under its public key. -/
structure MlDsaCorrect (p : MlDsaPrims) : Prop where
  length_publicKey : ∀ seed, (p.publicKey seed).length = p.publicKeyLen
  length_sign : ∀ seed msg, (p.sign seed msg).length = p.signatureLen
  sign_decodes : ∀ seed msg, p.sigDecodes (p.sign seed msg) = true
  verify_sign : ∀ seed msg, p.verify (p.publicKey seed) msg (p.sign seed msg) = true

/-- Every signature scheme is correct. -/
structure SignaturesCorrect (c : Crypto) : Prop where
  ed25519 : c.Ed25519Correct
  secp256k1 : c.SecpCorrect
  mlDsa44 : MlDsaCorrect c.mlDsa44
  mlDsa65 : MlDsaCorrect c.mlDsa65
  mlDsa87 : MlDsaCorrect c.mlDsa87

/-! ## Tables of known values

A `Crypto` that has the listed digests, key pairs, signatures and recombined scalars, for
evaluating a program on inputs whose cryptographic values are known. A signature verifies iff it
is the one `ofTables` would make, so `Ed25519Correct` holds whatever the tables say. -/

/-- Values of the primitives, one by one. -/
structure Tables where
  digests : List (Bytes × FixedBytes 32) := []
  /-- seed and public key -/
  keys : List (FixedBytes 32 × FixedBytes 32) := []
  /-- public key, message and signature -/
  signatures : List ((FixedBytes 32 × Bytes) × FixedBytes 64) := []
  scalars : List (List (FixedBytes 33) × FixedBytes 32) := []

namespace Tables

/-- The listed public key. -/
def publicKey (t : Tables) (seed : FixedBytes 32) : FixedBytes 32 :=
  (t.keys.lookup seed).getD seed

/-- The listed signature. -/
def signature (t : Tables) (pk : FixedBytes 32) (msg : Bytes) : FixedBytes 64 :=
  (t.signatures.lookup (pk, msg)).getD (FixedBytes.zero 64)

end Tables

/-- No ML-DSA. -/
def noMlDsa : MlDsaPrims where
  publicKeyLen := 0
  signatureLen := 0
  publicKey _ := []
  sign _ _ := []
  sigDecodes _ := false
  verify _ _ _ := false

/-- The primitives with the listed values. -/
def ofTables (t : Tables) : Crypto where
  sha256 b := (t.digests.lookup b).getD (FixedBytes.zero 32)
  keccak256 _ := FixedBytes.zero 32
  blake3 _ := FixedBytes.zero 32
  hmacSha512 _ _ := FixedBytes.zero 64
  ed25519PublicKey := t.publicKey
  ed25519Sign seed msg := t.signature (t.publicKey seed) msg
  ed25519KeyError _ := none
  ed25519Verify pk msg sig := sig = t.signature pk msg
  secpSecretError _ := some "unknown key"
  secpPublicKey _ := FixedBytes.zero 33
  secpSign _ _ := .error "unknown key"
  secpNormalizeS sig := sig
  secpSignRecoverable _ _ := .error "unknown key"
  secpKey _ := none
  secpSigError _ := some "unknown signature"
  secpVerify _ _ _ := false
  secpRecoveryIdOk _ := false
  secpRecover _ _ _ := none
  mlDsa44 := noMlDsa
  mlDsa65 := noMlDsa
  mlDsa87 := noMlDsa
  xprvNew _ := .error "unknown seed"
  xprvDeriveChild _ _ _ := .error "unknown key"
  xprvSecret _ := FixedBytes.zero 32
  vsssCombine shares :=
    match t.scalars.lookup shares with
    | some x => .ok x
    | none => .error "unknown shares"

/-- `ofTables`, with only the listed signatures valid: no signature can be forged. -/
def ofTablesOnly (t : Tables) : Crypto :=
  { ofTables t with
    ed25519Verify := fun pk msg sig => t.signatures.lookup (pk, msg) = some sig }

theorem ofTables_ed25519Correct (t : Tables) : (ofTables t).Ed25519Correct where
  key_ok _ := rfl
  verify_sign _ _ := decide_eq_true rfl

end Crypto

end QfcServerWallet.Lib
