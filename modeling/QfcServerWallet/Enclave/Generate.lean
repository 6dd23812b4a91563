import QfcServerWallet.Enclave.Mock
import QfcServerWallet.Sss.ShamirSound

/-!
# Generating a wallet in the enclave

`MockEnclave::generate_wallet` of `qfc-enclave/src/enclaves/mock.rs`: draw a seed, report the public
key of its signing key, split the seed, attest.

* The bytes the random source writes to the seed buffer and the coefficients `split_secret` draws
  are fields of `GenerateEnv`, with the clock and the nonce of the attestation.
* Classical schemes draw 64 bytes and sign with the first 32 of them, the ML-DSA schemes draw 32.
  `sign_in_enclave` cuts the seed it recombines in the same way (`deriveSigningKey`).

Results: `generateWallet_ok` and **`sign_with_generated`**.
-/

namespace QfcServerWallet.Enclave

open Lib Policy Sss

/-! ## Types -/

/-- What a wallet is generated for. -/
structure GenerateWalletRequest where
  walletId : WalletId
  scheme : SigningScheme
  threshold : UInt8
  total : UInt8
  masterHdPath : Option HdPath

/-- The shares and the public key of a new wallet. -/
structure GenerateWalletResponse where
  shares : List ShamirShare
  masterPublicKey : Bytes
  attestation : AttestationDoc
  deriving DecidableEq

/-- What one call reads from the clock and the random source. -/
structure GenerateEnv extends Env where
  /-- `OsRng.fill_bytes` on a buffer of the given length -/
  fillBytes : (n : Nat) → FixedBytes n
  /-- for each block of the seed, the coefficients above the constant one -/
  coefficients : Nat → Nat → Scalar

/-! ## Generation -/

/-- `SigningScheme::is_post_quantum` -/
def isPostQuantum : SigningScheme → Bool
  | .mlDsa44 | .mlDsa65 | .mlDsa87 => true
  | .ed25519 | .secp256k1 | .secp256k1Recoverable => false

/-- The length of the seed of a scheme. -/
def seedLen (scheme : SigningScheme) : Nat := if isPostQuantum scheme then 32 else 64

section Generate

variable (d : MockDeps) (split : VsssSplit)

/-- The bytes the attestation binds: wallet, public key, share indices. -/
def generateUserData (req : GenerateWalletRequest) (pubkey : Bytes)
    (shares : List ShamirShare) : Bytes :=
  req.walletId.textBytes ++ 124 :: (d.crypto.sha256 pubkey).bytes
    ++ 124 :: shares.map ShamirShare.index

/-- The seed, its public key and its shares, attested. -/
def MockEnclave.splitAndAttest (e : MockEnclave) (env : GenerateEnv) (req : GenerateWalletRequest)
    (seed : Bytes) : Except (Fault EnclaveError) GenerateWalletResponse := do
  let signingKey ← orFault (deriveSigningKey d req.scheme seed req.masterHdPath)
  let pubkey ← orFault ((publicKey d.crypto req.scheme signingKey).mapError .signer)
  let shares ← (splitSecret split seed ⟨req.threshold, req.total⟩ env.coefficients).mapError
    (Fault.map .sss)
  let attestation ← orFault (e.signAttestation d env.toEnv (generateUserData d req pubkey shares))
  .ok ⟨shares, pubkey, attestation⟩

/-- `MockEnclave::generate_wallet` -/
def MockEnclave.generateWallet (e : MockEnclave) (env : GenerateEnv)
    (req : GenerateWalletRequest) : Except (Fault EnclaveError) GenerateWalletResponse :=
  if req.threshold < 2 ∨ req.threshold > req.total then
    .error (.err (.invalidRequest "invalid (threshold, total) — need 2 <= threshold <= total"))
  else if isPostQuantum req.scheme ∧ req.masterHdPath.isSome then
    .error (.err (.derivation (.schemeNotHd "ml_dsa")))
  else e.splitAndAttest d split env req (env.fillBytes (seedLen req.scheme)).bytes

end Generate

/-! ## Signing with what was generated -/

section Sound

variable {d : MockDeps} {split : VsssSplit} {e e' : MockEnclave} {env : GenerateEnv}
  {req : GenerateWalletRequest} {gen : GenerateWalletResponse}

/-- What a generated wallet is made of. -/
theorem generateWallet_ok (h : e.generateWallet d split env req = .ok gen) :
    ∃ seed signingKey, deriveSigningKey d req.scheme seed req.masterHdPath = .ok signingKey ∧
      publicKey d.crypto req.scheme signingKey = .ok gen.masterPublicKey ∧
      splitSecret split seed ⟨req.threshold, req.total⟩ env.coefficients = .ok gen.shares := by
  unfold MockEnclave.generateWallet at h
  split at h
  · cases h
  split at h
  · cases h
  simp only [MockEnclave.splitAndAttest, bind_eq_ok, orFault_eq_ok, mapError_eq_ok] at h
  obtain ⟨signingKey, hkey, pubkey, hpubkey, shares, hshares, attestation, -, hgen⟩ := h
  cases hgen
  exact ⟨_, signingKey, hkey, hpubkey, hshares⟩

theorem combineShares_generated (hsplit : split.Evaluates) (hcombine : CombinesAtZero d.crypto)
    {seed : Bytes} {params : ShamirParams} {coefficients : Nat → Nat → Scalar}
    {shares sub : List ShamirShare}
    (hshares : splitSecret split seed params coefficients = .ok shares) (hnodup : sub.Nodup)
    (hmem : ∀ s ∈ sub, s ∈ shares) (henough : params.threshold.toNat ≤ sub.length) :
    combineShares d.crypto sub = .ok seed := by
  have hvalid := orFault_eq_ok.1 (seq_eq_ok.1 hshares).1
  obtain ⟨-, hlength, rfl⟩ := (splitSecret_ok_iff hsplit hvalid).1 hshares
  obtain ⟨positions, hpositions, hlt, rfl⟩ := exists_positions hnodup hmem
  rw [List.length_map] at henough
  exact combineShares_shareOf hpositions hlt hcombine hlength (validate_ok_iff.1 hvalid).1 henough

/-- **A generated wallet signs with the key that was reported for it.** -/
theorem sign_with_generated (hsplit : split.Evaluates) (hcombine : CombinesAtZero d.crypto)
    (hcrypto : d.crypto.SignaturesCorrect) (hgen : e.generateWallet d split env req = .ok gen)
    {env' : Env} {sreq : EnclaveSignRequest} {resp : EnclaveSignResponse}
    (hsign : e'.signInEnclave d env' sreq = .ok resp) (hscheme : sreq.scheme = req.scheme)
    (hpath : sreq.hdPath = req.masterHdPath) (hnodup : sreq.shares.Nodup)
    (hmem : ∀ s ∈ sreq.shares, s ∈ gen.shares)
    (henough : req.threshold.toNat ≤ sreq.shares.length) :
    resp.publicKey = gen.masterPublicKey ∧
      verify d.crypto req.scheme gen.masterPublicKey sreq.message resp.signature sreq.hashAlg
        = .ok () := by
  obtain ⟨seed, signingKey, hkey, hpubkey, hshares⟩ := generateWallet_ok hgen
  obtain ⟨-, -, seed', hseed', hattest⟩ := sign_inv.1 hsign
  -- the shares give the seed back, and the same key is derived from it
  cases hseed'.symm.trans (combineShares_generated hsplit hcombine hshares hnodup hmem henough)
  simp only [MockEnclave.signAndAttest, bind_eq_ok, mapError_eq_ok, hscheme, hpath] at hattest
  obtain ⟨signingKey', hkey', pubkey, hpubkey', signature, hsignature, ctx, -, doc, -, hresp⟩ :=
    hattest
  cases hkey.symm.trans hkey'
  cases hpubkey.symm.trans hpubkey'
  cases hresp
  exact ⟨rfl, verify_sign hcrypto hpubkey hsignature⟩

end Sound

/-! ### A generated wallet

The random source writes the byte `2a` and draws the coefficient seven. The ed25519 values are the
real ones; shares are made and recombined by the functions that evaluate and interpolate. -/

namespace Sample

def publicKeyHash : FixedBytes 32 :=
  .ofNat 32 0xb600306cfa76723fdec395e53a9b3d9fdb78b1e2d7a23c32fcbcd2dc6d0c4092

/-- The attestation payload bytes of the generated wallet. -/
def generateAttested : Bytes :=
  printAttestation {
    backend := "mock"
    timestampUnixMs := 2000
    nonce := FixedBytes.zero 32
    pcrs := []
    attestationPublicKey := attestationKey.bytes
    userData := walletId.textBytes ++ 124 :: publicKeyHash.bytes ++ 124 :: [1, 2, 3] }

/-- The digests and signatures of the sample. -/
def generateTables : Crypto.Tables :=
  { mockTables with
    digests := (walletKey.bytes, publicKeyHash) :: mockTables.digests
    signatures := ((attestationKey, generateAttested),
      .ofNat 64 (0x9e17833a743ef44360b718dbf19ec1b97d537642dfc846fa7e0657bc3fca83f6 * 2 ^ 256 +
        0x5d36108e712164ba5f507bf15d90e0339c44b1641023a4f255f79595b4299b02))
      :: mockTables.signatures }

/-- A parameter set of which every signature verifies; no sample uses it. -/
def unusedMlDsa : MlDsaPrims :=
  { Crypto.noMlDsa with sigDecodes := fun _ => true, verify := fun _ _ _ => true }

/-- Its dependencies. -/
def generateDeps : MockDeps :=
  { mockDeps with
    crypto := { Crypto.ofTables generateTables with
      vsssCombine := vsssCombineReference
      mlDsa44 := unusedMlDsa
      mlDsa65 := unusedMlDsa
      mlDsa87 := unusedMlDsa } }

theorem unusedMlDsa_correct : Crypto.MlDsaCorrect unusedMlDsa where
  length_publicKey _ := rfl
  length_sign _ _ := rfl
  sign_decodes _ _ := rfl
  verify_sign _ _ := rfl

theorem generateDeps_correct : generateDeps.crypto.SignaturesCorrect where
  ed25519 := ⟨fun _ => rfl, fun _ _ => decide_eq_true rfl⟩
  secp256k1 := ⟨fun _ h => (by cases h), fun _ _ _ h => (by cases h), fun _ _ _ _ h => (by cases h)⟩
  mlDsa44 := unusedMlDsa_correct
  mlDsa65 := unusedMlDsa_correct
  mlDsa87 := unusedMlDsa_correct

/-- What the enclave draws. -/
def generateEnv : GenerateEnv :=
  { env with
    fillBytes := fun n => ⟨List.replicate n 0x2a, List.length_replicate⟩
    coefficients := fun _ _ => 7 }

/-- An enclave without a pinned policy key. -/
def unpinned : MockEnclave := ⟨attestationSeed, none, false⟩

end Sample

end QfcServerWallet.Enclave
