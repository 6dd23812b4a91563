import QfcServerWallet.Lib.Crypto
import QfcServerWallet.Types

/-!
# Signers and key derivation

`qfc-enclave`: the curve-agnostic `Signer` interface (`signer.rs`, `signers/`) and the
hierarchical derivation (`derivation.rs`).

* A signer is dispatched by scheme: `publicKey`, `sign` and `verify` take the scheme where the
  source takes `dyn Signer` (`signer_for_scheme`, `dispatch_signer`).
* The three ML-DSA signers share one body (`public_key_inner`, `sign_inner`, `verify_inner`) and
  differ in their parameter set and name.
* Secrets are byte strings (`SecretBytes` adds zeroisation only). Keyed HMAC never fails.
* Order of checks and error texts are the source's.

Result: **`verify_sign`**, for every scheme whose primitives are correct.
-/

namespace QfcServerWallet.Enclave

open Lib

/-- Why a signer fails. -/
inductive SignerError where
  | invalidSecret (scheme reason : String)
  | unsupportedHash (scheme hash : String)
  | crypto (what : String)
  | verificationFailed
  | invalidPublicKey (scheme reason : String)
  deriving DecidableEq

namespace SignerError

/-- `Display` -/
def toString : SignerError → String
  | invalidSecret scheme reason => "invalid secret material for " ++ scheme ++ ": " ++ reason
  | unsupportedHash scheme hash =>
    "scheme " ++ scheme ++ " does not support hash algorithm " ++ hash
  | crypto what => "crypto error: " ++ what
  | verificationFailed => "signature verification failed"
  | invalidPublicKey scheme reason => "invalid public key for " ++ scheme ++ ": " ++ reason

end SignerError

/-- The name an unsupported hash is reported under. -/
def hashName : HashAlg → String
  | .none => "none"
  | .sha256 => "sha256"
  | .keccak256 => "keccak256"
  | .blake3 => "blake3"

/-- Schemes that hash internally take no pre-hash. -/
def requireNoHash (scheme : String) (hash : HashAlg) : Except SignerError Unit :=
  match hash with
  | .none => .ok ()
  | _ => .error (.unsupportedHash scheme (hashName hash))

section Signers

variable (c : Crypto)

/-! ## Ed25519 -/

namespace Ed25519

/-- A secret of 32 bytes. -/
def signingKey (secret : Bytes) : Except SignerError (FixedBytes 32) :=
  match FixedBytes.ofBytes? 32 secret with
  | some seed => .ok seed
  | none => .error (.invalidSecret "ed25519" "secret must be exactly 32 bytes")

/-- `Ed25519Signer::public_key` -/
def publicKey (secret : Bytes) : Except SignerError Bytes := do
  let sk ← signingKey secret
  .ok (c.ed25519PublicKey sk).bytes

/-- `Ed25519Signer::sign` -/
def sign (secret message : Bytes) (hashAlg : HashAlg) : Except SignerError Bytes := do
  requireNoHash "ed25519" hashAlg
  let sk ← signingKey secret
  .ok (c.ed25519Sign sk message).bytes

/-- `Ed25519Signer::verify` -/
def verify (publicKey message signature : Bytes) (hashAlg : HashAlg) :
    Except SignerError Unit := do
  requireNoHash "ed25519" hashAlg
  match FixedBytes.ofBytes? 32 publicKey with
  | none => .error (.invalidPublicKey "ed25519" "expected 32-byte compressed public key")
  | some vk =>
    match c.ed25519KeyError vk with
    | some reason => .error (.invalidPublicKey "ed25519" reason)
    | none =>
      match FixedBytes.ofBytes? 64 signature with
      | none => .error (.invalidPublicKey "ed25519" "signature must be 64 bytes")
      | some sig =>
        if c.ed25519Verify vk message sig then .ok () else .error .verificationFailed

end Ed25519

/-! ## secp256k1 -/

namespace Secp256k1

/-- A secret that is a scalar of the curve. -/
def signingKeyFrom (secret : Bytes) : Except SignerError (FixedBytes 32) :=
  match FixedBytes.ofBytes? 32 secret with
  | none => .error (.invalidSecret "secp256k1" "secret must be exactly 32 bytes")
  | some sk =>
    match c.secpSecretError sk with
    | some e => .error (.crypto e)
    | none => .ok sk

/-- The digest that is signed. -/
def prehash (message : Bytes) : HashAlg → Except SignerError (FixedBytes 32)
  | .sha256 => .ok (c.sha256 message)
  | .keccak256 => .ok (c.keccak256 message)
  | .blake3 => .ok (c.blake3 message)
  | .none => .error (.unsupportedHash "secp256k1" "none")

/-- A compressed point. -/
def verifyingKeyFrom (publicKey : Bytes) : Except SignerError (FixedBytes 33) :=
  match c.secpKey publicKey with
  | some vk => .ok vk
  | none => .error (.invalidPublicKey "secp256k1" "expected 33-byte SEC1 compressed public key")

/-- A signature of 64 bytes. -/
def signatureFrom (bytes : FixedBytes 64) : Except SignerError (FixedBytes 64) :=
  match c.secpSigError bytes with
  | some e => .error (.crypto e)
  | none => .ok bytes

/-- `Secp256k1Signer::public_key` -/
def publicKey (secret : Bytes) : Except SignerError Bytes := do
  let sk ← signingKeyFrom c secret
  .ok (c.secpPublicKey sk).bytes

/-- `Secp256k1Signer::sign` -/
def sign (secret message : Bytes) (hashAlg : HashAlg) : Except SignerError Bytes := do
  let sk ← signingKeyFrom c secret
  let digest ← prehash c message hashAlg
  match c.secpSign sk digest with
  | .error e => .error (.crypto e)
  | .ok sig => .ok (c.secpNormalizeS sig).bytes

/-- `Secp256k1Signer::verify` -/
def verify (publicKey message signature : Bytes) (hashAlg : HashAlg) :
    Except SignerError Unit := do
  let vk ← verifyingKeyFrom c publicKey
  let digest ← prehash c message hashAlg
  match FixedBytes.ofBytes? 64 signature with
  | none => .error (.invalidPublicKey "secp256k1" "signature must be 64 bytes")
  | some bytes => do
    let sig ← signatureFrom c bytes
    if c.secpVerify vk digest sig then .ok () else .error .verificationFailed

/-- The recoverable signer appends the recovery byte. -/
def signRecoverable (secret message : Bytes) (hashAlg : HashAlg) : Except SignerError Bytes := do
  let sk ← signingKeyFrom c secret
  let digest ← prehash c message hashAlg
  match c.secpSignRecoverable sk digest with
  | .error e => .error (.crypto e)
  | .ok (sig, recId) => .ok (sig.bytes ++ [recId])

/-- The recoverable signer also checks that the recovery byte leads back to the key. -/
def verifyRecoverable (publicKey message signature : Bytes) (hashAlg : HashAlg) :
    Except SignerError Unit :=
  match FixedBytes.ofBytes? 64 (signature.take 64), signature.drop 64 with
  | some bytes, [recByte] => do
    let digest ← prehash c message hashAlg
    let vk ← verifyingKeyFrom c publicKey
    let sig ← signatureFrom c bytes
    if c.secpVerify vk digest sig then
      if c.secpRecoveryIdOk recByte then
        match c.secpRecover digest sig recByte with
        | none => .error .verificationFailed
        | some recovered =>
          if recovered.bytes = publicKey then .ok () else .error .verificationFailed
      else .error (.invalidPublicKey "secp256k1_recoverable" "invalid recovery byte")
    else .error .verificationFailed
  | _, _ =>
    .error (.invalidPublicKey "secp256k1_recoverable" "signature must be 65 bytes (r || s || v)")

end Secp256k1

/-! ## ML-DSA -/

namespace MlDsa

/-- A seed of 32 bytes. -/
def seedFrom (scheme : String) (secret : Bytes) : Except SignerError (FixedBytes 32) :=
  match FixedBytes.ofBytes? 32 secret with
  | some seed => .ok seed
  | none => .error (.invalidSecret scheme "ML-DSA seed must be exactly 32 bytes")

/-- `public_key_inner` -/
def publicKey (p : MlDsaPrims) (scheme : String) (secret : Bytes) :
    Except SignerError Bytes := do
  let seed ← seedFrom scheme secret
  .ok (p.publicKey seed)

/-- `sign_inner` -/
def sign (p : MlDsaPrims) (scheme : String) (secret message : Bytes) (hashAlg : HashAlg) :
    Except SignerError Bytes := do
  requireNoHash scheme hashAlg
  let seed ← seedFrom scheme secret
  .ok (p.sign seed message)

/-- `verify_inner` -/
def verify (p : MlDsaPrims) (scheme : String) (publicKey message signature : Bytes)
    (hashAlg : HashAlg) : Except SignerError Unit := do
  requireNoHash scheme hashAlg
  if publicKey.length ≠ p.publicKeyLen then
    .error (.invalidPublicKey scheme "public key has wrong length for ML-DSA parameter set")
  else if signature.length ≠ p.signatureLen then
    .error (.invalidPublicKey scheme "signature has wrong length for ML-DSA parameter set")
  else if ¬ p.sigDecodes signature then .error .verificationFailed
  else if p.verify publicKey message signature then .ok ()
  else .error .verificationFailed

end MlDsa

/-! ## Dispatch -/

/-- `Signer::public_key` of the scheme's signer. -/
def publicKey : SigningScheme → Bytes → Except SignerError Bytes
  | .ed25519 => Ed25519.publicKey c
  | .secp256k1 | .secp256k1Recoverable => Secp256k1.publicKey c
  | .mlDsa44 => MlDsa.publicKey c.mlDsa44 "ml_dsa_44"
  | .mlDsa65 => MlDsa.publicKey c.mlDsa65 "ml_dsa_65"
  | .mlDsa87 => MlDsa.publicKey c.mlDsa87 "ml_dsa_87"

/-- `Signer::sign` of the scheme's signer. -/
def sign : SigningScheme → Bytes → Bytes → HashAlg → Except SignerError Bytes
  | .ed25519 => Ed25519.sign c
  | .secp256k1 => Secp256k1.sign c
  | .secp256k1Recoverable => Secp256k1.signRecoverable c
  | .mlDsa44 => MlDsa.sign c.mlDsa44 "ml_dsa_44"
  | .mlDsa65 => MlDsa.sign c.mlDsa65 "ml_dsa_65"
  | .mlDsa87 => MlDsa.sign c.mlDsa87 "ml_dsa_87"

/-- `Signer::verify` of the scheme's signer: public key, message, signature, pre-hash. -/
def verify : SigningScheme → Bytes → Bytes → Bytes → HashAlg → Except SignerError Unit
  | .ed25519 => Ed25519.verify c
  | .secp256k1 => Secp256k1.verify c
  | .secp256k1Recoverable => Secp256k1.verifyRecoverable c
  | .mlDsa44 => MlDsa.verify c.mlDsa44 "ml_dsa_44"
  | .mlDsa65 => MlDsa.verify c.mlDsa65 "ml_dsa_65"
  | .mlDsa87 => MlDsa.verify c.mlDsa87 "ml_dsa_87"

/-! ## Derivation -/

/-- Why a key cannot be derived. -/
inductive DerivationError where
  | nonHardenedRequired (scheme : String)
  | schemeNotHd (scheme : String)
  | underlying (what : String)
  deriving DecidableEq

/-- One BIP-32 child after another, from the master key. -/
def deriveSecp256k1 (seed : Bytes) (path : HdPath) : Except DerivationError Bytes :=
  let lift {α : Type} : Except String α → Except DerivationError α
    | .ok a => .ok a
    | .error e => .error (.underlying e)
  do
    let master ← lift (c.xprvNew seed)
    let derived ← path.segments.foldlM
      (fun acc seg =>
        let rawIndex := match seg with
          | .normal i => i
          | .hardened i => i
        lift (c.xprvDeriveChild acc rawIndex seg.isHardened)) master
    .ok (c.xprvSecret derived).bytes

/-- Key and chain code: the two halves of an HMAC output. -/
def splitNode (out : FixedBytes 64) : Bytes × Bytes := (out.bytes.take 32, out.bytes.drop 32)

/-- One hardened SLIP-0010 step after another. -/
def slip10Steps : Bytes × Bytes → List HdPathSegment → Except DerivationError (Bytes × Bytes)
  | node, [] => .ok node
  | (key, chain), seg :: segs =>
    if seg.isHardened then
      slip10Steps
        (splitNode (c.hmacSha512 chain (0 :: key ++ toBe 4 seg.childIndex.toNat))) segs
    else .error (.nonHardenedRequired "ed25519")

/-- The key at the end of a path. -/
def deriveEd25519Slip10 (seed : Bytes) (path : HdPath) : Except DerivationError Bytes := do
  let (key, _) ← slip10Steps c (splitNode (c.hmacSha512 (utf8 "ed25519 seed") seed)) path.segments
  .ok key

/-- The derived child secret. -/
def deriveClassical (scheme : SigningScheme) (seed : Bytes) (path : HdPath) :
    Except DerivationError Bytes :=
  match scheme with
  | .secp256k1 | .secp256k1Recoverable => deriveSecp256k1 c seed path
  | .ed25519 => deriveEd25519Slip10 c seed path
  | .mlDsa44 | .mlDsa65 | .mlDsa87 => .error (.schemeNotHd "ml_dsa")

end Signers

/-! ## What a signer signs, it verifies -/

section Correct

variable {c : Crypto} {secret message pubkey signature : Bytes} {hashAlg : HashAlg}

/-- What was signed verifies. -/
theorem Ed25519.verify_sign (hc : c.Ed25519Correct)
    (hkey : Ed25519.publicKey c secret = .ok pubkey)
    (hsign : Ed25519.sign c secret message hashAlg = .ok signature) :
    Ed25519.verify c pubkey message signature hashAlg = .ok () := by
  obtain ⟨sk, hsk, hpubkey⟩ := bind_eq_ok.1 hkey
  obtain ⟨hhash, hsign⟩ := seq_eq_ok.1 hsign
  obtain ⟨sk', hsk', hsignature⟩ := bind_eq_ok.1 hsign
  cases hsk.symm.trans hsk'
  cases hpubkey
  cases hsignature
  refine seq_eq_ok.2 ⟨hhash, ?_⟩
  simp only [FixedBytes.ofBytes?_bytes, hc.key_ok, hc.verify_sign, if_true]

theorem Secp256k1.verifyingKeyFrom_publicKey (hc : c.SecpCorrect)
    (hkey : publicKey c secret = .ok pubkey) :
    ∃ sk, signingKeyFrom c secret = .ok sk ∧ c.secpSecretError sk = none ∧
      pubkey = (c.secpPublicKey sk).bytes ∧
      verifyingKeyFrom c pubkey = .ok (c.secpPublicKey sk) := by
  obtain ⟨sk, hsk, hpubkey⟩ := bind_eq_ok.1 hkey
  cases hpubkey
  have hrange : c.secpSecretError sk = none := by
    unfold signingKeyFrom at hsk
    split at hsk
    · cases hsk
    · split at hsk
      · cases hsk
      · next hnone =>
        cases hsk
        exact hnone
  exact ⟨sk, hsk, hrange, rfl, by simp only [verifyingKeyFrom, hc.key_ok sk hrange]⟩

theorem Secp256k1.verify_sign (hc : c.SecpCorrect) (hkey : publicKey c secret = .ok pubkey)
    (hsign : sign c secret message hashAlg = .ok signature) :
    verify c pubkey message signature hashAlg = .ok () := by
  obtain ⟨sk, hsk, hrange, -, hvk⟩ := verifyingKeyFrom_publicKey hc hkey
  obtain ⟨sk', hsk', hsign⟩ := bind_eq_ok.1 hsign
  cases hsk.symm.trans hsk'
  obtain ⟨digest, hdigest, hsign⟩ := bind_eq_ok.1 hsign
  cases hsig : c.secpSign sk digest with
  | error e =>
    rw [hsig] at hsign
    cases hsign
  | ok sig =>
    rw [hsig] at hsign
    cases hsign
    obtain ⟨hdecodes, hverify⟩ := hc.verify_sign sk digest sig hrange hsig
    refine bind_eq_ok.2 ⟨_, hvk, bind_eq_ok.2 ⟨digest, hdigest, ?_⟩⟩
    simp only [FixedBytes.ofBytes?_bytes, signatureFrom, hdecodes]
    exact if_pos hverify

theorem Secp256k1.verifyRecoverable_signRecoverable (hc : c.SecpCorrect)
    (hkey : publicKey c secret = .ok pubkey)
    (hsign : signRecoverable c secret message hashAlg = .ok signature) :
    verifyRecoverable c pubkey message signature hashAlg = .ok () := by
  obtain ⟨sk, hsk, hrange, rfl, hvk⟩ := verifyingKeyFrom_publicKey hc hkey
  obtain ⟨sk', hsk', hsign⟩ := bind_eq_ok.1 hsign
  cases hsk.symm.trans hsk'
  obtain ⟨digest, hdigest, hsign⟩ := bind_eq_ok.1 hsign
  cases hsig : c.secpSignRecoverable sk digest with
  | error e =>
    rw [hsig] at hsign
    cases hsign
  | ok signed =>
    obtain ⟨sig, recId⟩ := signed
    rw [hsig] at hsign
    cases hsign
    obtain ⟨hdecodes, hverify, hid, hrecover⟩ := hc.recover_sign sk digest sig recId hrange hsig
    have htake : (sig.bytes ++ [recId]).take 64 = sig.bytes := List.take_left' sig.length_bytes
    have hdrop : (sig.bytes ++ [recId]).drop 64 = [recId] := List.drop_left' sig.length_bytes
    simp only [verifyRecoverable, htake, hdrop, FixedBytes.ofBytes?_bytes]
    refine bind_eq_ok.2 ⟨digest, hdigest, bind_eq_ok.2 ⟨_, hvk, ?_⟩⟩
    simp only [signatureFrom, hdecodes]
    refine (if_pos hverify).trans ((if_pos hid).trans ?_)
    simp only [hrecover, if_true]

theorem MlDsa.verify_sign {p : MlDsaPrims} {scheme : String} (hp : Crypto.MlDsaCorrect p)
    (hkey : MlDsa.publicKey p scheme secret = .ok pubkey)
    (hsign : MlDsa.sign p scheme secret message hashAlg = .ok signature) :
    MlDsa.verify p scheme pubkey message signature hashAlg = .ok () := by
  obtain ⟨seed, hseed, hpubkey⟩ := bind_eq_ok.1 hkey
  obtain ⟨hhash, hsign⟩ := seq_eq_ok.1 hsign
  obtain ⟨seed', hseed', hsignature⟩ := bind_eq_ok.1 hsign
  cases hseed.symm.trans hseed'
  cases hpubkey
  cases hsignature
  refine seq_eq_ok.2 ⟨hhash, ?_⟩
  simp only [hp.length_publicKey, hp.length_sign, hp.sign_decodes, hp.verify_sign, ne_eq,
    not_true_eq_false, if_false, if_true]

/-- **What a signer signs verifies under its public key**, for every scheme and pre-hash. -/
theorem verify_sign (hc : c.SignaturesCorrect) {scheme : SigningScheme}
    (hkey : publicKey c scheme secret = .ok pubkey)
    (hsign : sign c scheme secret message hashAlg = .ok signature) :
    verify c scheme pubkey message signature hashAlg = .ok () := by
  cases scheme with
  | ed25519 => exact Ed25519.verify_sign hc.ed25519 hkey hsign
  | secp256k1 => exact Secp256k1.verify_sign hc.secp256k1 hkey hsign
  | secp256k1Recoverable =>
    exact Secp256k1.verifyRecoverable_signRecoverable hc.secp256k1 hkey hsign
  | mlDsa44 => exact MlDsa.verify_sign hc.mlDsa44 hkey hsign
  | mlDsa65 => exact MlDsa.verify_sign hc.mlDsa65 hkey hsign
  | mlDsa87 => exact MlDsa.verify_sign hc.mlDsa87 hkey hsign

end Correct

end QfcServerWallet.Enclave
