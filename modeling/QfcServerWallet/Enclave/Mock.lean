import QfcServerWallet.Enclave.VerifierSound
import QfcServerWallet.Sss.Shamir

/-!
# The in-process enclave

`qfc-enclave/src/enclaves/mock.rs`: `MockEnclave::sign_in_enclave`, the reference implementation
of the signing boundary, with the types of `enclave.rs` and the attestation of `attestation.rs`.

* Clock readings and the nonce are drawn during the call; they are the fields of `Env`.
* `EnclaveError` keeps the variants the signing path can produce.
* The verifier is handed a *projection* of the request: the declared payload (or the message, when
  none is declared), the declared ceilings (or none, for the request's wallet). The message that
  is signed and the wallet id that is attested are other fields of the request.

Results: `sign_inv`, **`sign_message_authorised_iff`** and **`sign_wallet_bound_iff`**.
-/

namespace QfcServerWallet.Enclave

open Lib Policy Sss

/-! ## Types -/

/-- What the caller says about the message. -/
structure SigningContext where
  chainId : Option UInt64
  vmType : Option String
  extra : Json

/-- What is attested. -/
structure AttestationPayload where
  backend : String
  timestampUnixMs : Int64
  nonce : FixedBytes 32
  /-- ascending by register -/
  pcrs : List (UInt8 × Bytes)
  attestationPublicKey : Bytes
  userData : Bytes
  deriving DecidableEq

/-- A signed attestation. -/
structure AttestationDoc where
  rawPayload : Bytes
  payload : AttestationPayload
  signature : Bytes
  deriving DecidableEq

/-- Why the enclave does not sign. -/
inductive EnclaveError where
  | notEnoughShares (threshold : UInt8) (provided : Nat)
  | inconsistentShares (reason : String)
  | sss (e : ShareError)
  | derivation (e : DerivationError)
  | signer (e : SignerError)
  | attestationPayloadParse (what : String)
  | invalidRequest (what : String)
  | hybridVerification (e : HybridVerifyError)
  deriving DecidableEq

/-- A request to sign. -/
structure EnclaveSignRequest where
  requestId : RequestId
  walletId : WalletId
  shares : List ShamirShare
  scheme : SigningScheme
  hdPath : Option HdPath
  message : Bytes
  hashAlg : HashAlg
  context : SigningContext
  policyDecision : Option SignedPolicyDecision
  approvals : List EnclaveApproval
  walletCeilings : Option WalletCeilings
  policySigningPayload : Option SigningPayload

/-- A signature, with its attestation. -/
structure EnclaveSignResponse where
  signature : Bytes
  publicKey : Bytes
  attestation : AttestationDoc
  deriving DecidableEq

/-- What the enclave takes from its dependencies beyond the verifier's. -/
structure MockDeps extends Deps where
  /-- `serde_json::to_vec` of a signing context -/
  jsonContext : SigningContext → Except String Bytes
  /-- `serde_json::to_vec` of an attestation payload -/
  jsonAttestation : AttestationPayload → Except String Bytes

/-- The configuration of the enclave. -/
structure MockEnclave where
  attestationKey : FixedBytes 32
  policyServicePubkey : Option Bytes
  requireSignedDecision : Bool

/-- What one call reads from the clock and the random source. -/
structure Env where
  receivedAt : Int64
  now : Int64
  attestedAt : Int64
  nonce : FixedBytes 32

/-! ## Signing -/

section Sign

variable (d : MockDeps)

/-- The payload the verifier is shown. -/
def EnclaveSignRequest.checkedPayload (req : EnclaveSignRequest) : SigningPayload :=
  req.policySigningPayload.getD (.raw req.message)

/-- The ceilings the verifier is shown. -/
def EnclaveSignRequest.checkedCeilings (req : EnclaveSignRequest) : WalletCeilings :=
  req.walletCeilings.getD (.unconstrained req.walletId)

/-- The request the verifier is shown. -/
def EnclaveSignRequest.verifierRequest (req : EnclaveSignRequest) (env : Env) :
    SigningRequest where
  requestId := req.requestId
  walletId := req.walletId
  requester := .apiKey "mock-enclave"
  payload := req.checkedPayload
  hdPath := req.hdPath
  receivedAtUnixMs := env.receivedAt

/-- Verification, for an enclave with a pinned policy key. -/
def MockEnclave.hybridCheck (e : MockEnclave) (env : Env) (req : EnclaveSignRequest) :
    Except HybridVerifyError Unit :=
  match e.policyServicePubkey with
  | none => .ok ()
  | some pubkey =>
    HybridVerifier.verify d.toDeps ⟨pubkey, e.requireSignedDecision⟩ req.policyDecision
      req.approvals (req.verifierRequest env) req.checkedCeilings env.now

/-- `MockEnclave::check_share_params` -/
def checkShareParams (shares : List ShamirShare) : Except EnclaveError ShamirShare :=
  checkShares .notEnoughShares .inconsistentShares shares

/-- The signing key of a seed: derived along a path, or its first 32 bytes. -/
def deriveSigningKey (scheme : SigningScheme) (seed : Bytes) (hdPath : Option HdPath) :
    Except EnclaveError Bytes :=
  match scheme with
  | .ed25519 | .secp256k1 | .secp256k1Recoverable =>
    match hdPath with
    | none =>
      if seed.length < 32 then .error (.invalidRequest "seed too short for classical scheme")
      else .ok (seed.take 32)
    | some path => (deriveClassical d.crypto scheme seed path).mapError .derivation
  | .mlDsa44 | .mlDsa65 | .mlDsa87 =>
    if hdPath.isSome then .error (.derivation (.schemeNotHd "ml_dsa"))
    else if seed.length < 32 then
      .error (.invalidRequest "seed too short for ML-DSA (need 32 bytes)")
    else .ok (seed.take 32)

/-- `PCR_MOCK_SENTINEL_LEN` bytes of `0xCD`. -/
def pcrMockSentinel : Bytes := List.replicate 48 0xcd

/-- `MockAttestationKey::sign_attestation` -/
def MockEnclave.signAttestation (e : MockEnclave) (env : Env) (userData : Bytes) :
    Except EnclaveError AttestationDoc := do
  let payload : AttestationPayload := {
    backend := "mock"
    timestampUnixMs := env.attestedAt
    nonce := env.nonce
    pcrs := [(0, pcrMockSentinel), (1, pcrMockSentinel), (2, pcrMockSentinel)]
    attestationPublicKey := (d.crypto.ed25519PublicKey e.attestationKey).bytes
    userData }
  let rawPayload ← (d.jsonAttestation payload).mapError .attestationPayloadParse
  .ok ⟨rawPayload, payload, (d.crypto.ed25519Sign e.attestationKey rawPayload).bytes⟩

/-- The bytes the attestation binds. -/
def userData (req : EnclaveSignRequest) (signature ctxBytes : Bytes) : Bytes :=
  req.requestId.textBytes ++ 124 :: req.walletId.textBytes
    ++ 124 :: (d.crypto.sha256 req.message).bytes ++ 124 :: (d.crypto.sha256 signature).bytes
    ++ 124 :: (match req.hdPath with | some p => utf8 p.toString | none => [])
    ++ 124 :: ctxBytes

/-- Sign, and attest the signature. -/
def MockEnclave.signAndAttest (e : MockEnclave) (env : Env) (req : EnclaveSignRequest)
    (seed : Bytes) : Except EnclaveError EnclaveSignResponse := do
  let signingKey ← deriveSigningKey d req.scheme seed req.hdPath
  let pubkey ← (publicKey d.crypto req.scheme signingKey).mapError .signer
  let signature ← (sign d.crypto req.scheme signingKey req.message req.hashAlg).mapError .signer
  let ctxBytes ← (d.jsonContext req.context).mapError .attestationPayloadParse
  let attestation ← e.signAttestation d env (userData d req signature ctxBytes)
  .ok ⟨signature, pubkey, attestation⟩

/-- `?` on the recombination: a panic stays a panic. -/
def liftShareFault : Except (Fault ShareError) Bytes → Except (Fault EnclaveError) Bytes
  | .ok b => .ok b
  | .error (.err e) => .error (.err (.sss e))
  | .error .panic => .error .panic

/-- `MockEnclave::sign_in_enclave` -/
def MockEnclave.signInEnclave (e : MockEnclave) (env : Env) (req : EnclaveSignRequest) :
    Except (Fault EnclaveError) EnclaveSignResponse := do
  orFault ((e.hybridCheck d env req).mapError .hybridVerification)
  let _ ← orFault (checkShareParams req.shares)
  let seed ← liftShareFault (combineShares d.crypto req.shares)
  orFault (e.signAndAttest d env req seed)

end Sign

/-! ## What an issued signature went through -/

section Inversion

variable {d : MockDeps} {e : MockEnclave} {env : Env} {req : EnclaveSignRequest}
variable {resp : EnclaveSignResponse}

theorem liftShareFault_eq_ok {x : Except (Fault ShareError) Bytes} {b : Bytes} :
    liftShareFault x = .ok b ↔ x = .ok b := by
  unfold liftShareFault
  split <;> simp_all

/-- What an issued signature went through. -/
theorem sign_inv :
    e.signInEnclave d env req = .ok resp ↔
      e.hybridCheck d env req = .ok () ∧ (∃ first, checkShareParams req.shares = .ok first) ∧
      ∃ seed, combineShares d.crypto req.shares = .ok seed ∧
        e.signAndAttest d env req seed = .ok resp := by
  simp only [MockEnclave.signInEnclave, bind_eq_ok, orFault_eq_ok, mapError_eq_ok,
    liftShareFault_eq_ok]
  constructor
  · rintro ⟨_, hcheck, first, hshares, seed, hseed, hsign⟩
    exact ⟨hcheck, ⟨first, hshares⟩, seed, hseed, hsign⟩
  · rintro ⟨hcheck, ⟨first, hshares⟩, seed, hseed, hsign⟩
    exact ⟨(), hcheck, first, hshares, seed, hseed, hsign⟩

theorem verified_of_sign {pubkey : Bytes} (hpin : e.policyServicePubkey = some pubkey)
    (hrequired : e.requireSignedDecision = true) (h : e.signInEnclave d env req = .ok resp) :
    ∃ s, req.policyDecision = some s ∧
      verifySigned d.toDeps ⟨pubkey, true⟩ s req.approvals (req.verifierRequest env)
        req.checkedCeilings env.now = .ok () := by
  obtain ⟨hcheck, -⟩ := sign_inv.1 h
  simp only [MockEnclave.hybridCheck, hpin, hrequired] at hcheck
  obtain ⟨s, hs⟩ := presented_of_verify rfl hcheck
  rw [hs] at hcheck
  exact ⟨s, hs, (verify_some_ok_iff.1 hcheck).2⟩

theorem checkShareParams_of_combine {shares : List ShamirShare} {seed : Bytes}
    (h : combineShares d.crypto shares = .ok seed) :
    ∃ first, checkShareParams shares = .ok first := by
  simp only [combineShares, bind_eq_ok, orFault_eq_ok] at h
  obtain ⟨first, hfirst, -⟩ := h
  refine ⟨first, ?_⟩
  unfold checkShareParams
  unfold checkShares at hfirst ⊢
  cases shares with
  | nil => simp at hfirst
  | cons s ss =>
    simp only at hfirst ⊢
    split at hfirst
    · simp at hfirst
    split at hfirst
    · simp at hfirst
    split at hfirst
    · simp at hfirst
    next h1 h2 h3 =>
    rw [if_neg h1, if_neg h2, if_neg h3]
    simpa using hfirst

end Inversion

/-! ## What a host can have signed

The host fills in the whole request. It needs a decision the policy service signed for the request
id and for the wallet it declares in the ceilings, and the shares of some key; message, payload and
the request's own wallet id are its own choice. -/

section Host

variable (d : MockDeps)

/-- The dependencies do what they are documented to do: honest ed25519 signatures verify, and the
printers print. -/
structure MockDeps.Working : Prop where
  ed25519 : d.crypto.Ed25519Correct
  context : ∀ x, ∃ b, d.jsonContext x = .ok b
  attestation : ∀ x, ∃ b, d.jsonAttestation x = .ok b

/-- An enclave pinned to the key of a policy service, that requires decisions. -/
def pinned (policySeed : FixedBytes 32) : MockEnclave where
  attestationKey := FixedBytes.zero 32
  policyServicePubkey := some (d.crypto.ed25519PublicKey policySeed).bytes
  requireSignedDecision := true

/-- The host's readings, which the verifier does not look at. -/
def hostEnv : Env := ⟨0, 0, 0, FixedBytes.zero 32⟩

/-- What the host chooses; `decisionWallet` is the wallet it obtained a decision for. -/
structure HostChoice where
  message : Bytes
  payload : Option SigningPayload
  wallet : WalletId
  ceilings : Option WalletCeilings
  decisionWallet : WalletId

/-- The host's request, with an allow decision that the policy service signed. -/
def hostRequest (policySeed : FixedBytes 32) (shares : List ShamirShare) (h : HostChoice) :
    EnclaveSignRequest where
  requestId := ⟨0⟩
  walletId := h.wallet
  shares := shares
  scheme := .ed25519
  hdPath := none
  message := h.message
  hashAlg := .none
  context := ⟨none, none, .null⟩
  policyDecision := some (signDecision d.jsonDecision d.crypto policySeed 0
    (.allow ⟨0⟩ ⟨0⟩ []) ⟨0⟩ h.decisionWallet 60)
  approvals := []
  walletCeilings := h.ceilings
  policySigningPayload := h.payload

variable {d} {policySeed : FixedBytes 32} {shares : List ShamirShare} {seed : Bytes}
variable {h : HostChoice}

theorem signDecision_accepted (hd : d.Working) (policySeed : FixedBytes 32)
    (decision : PolicyDecision) (requestId : RequestId) (walletId : WalletId) :
    let s := signDecision d.jsonDecision d.crypto policySeed 0 decision requestId walletId 60
    checkPayload d.toDeps s = .ok () ∧
      verifyEd25519 d.toDeps (d.crypto.ed25519PublicKey policySeed).bytes s.rawPayload
        s.policyServiceSignature = .ok () ∧
      checkFresh s 0 = .ok () := by
  have hnow : (0 : Int) ≤ (0 : Int64).toInt - (0 : Int64).toInt := by decide
  have hage : ((0 : Int64).toInt - (0 : Int64).toInt) / 1000
      ≤ (min (60 : UInt32).toNat maxDecisionAgeSecs.toNat : Nat) := by decide
  refine ⟨checkPayload_ok_iff.2 rfl, verifyEd25519_ok_iff.2 ?_, checkFresh_ok_iff.2 ⟨hnow, hage⟩⟩
  exact ⟨_, _, rfl, rfl, hd.ed25519.key_ok policySeed, hd.ed25519.verify_sign policySeed _⟩

theorem hybridCheck_hostRequest (hd : d.Working)
    (hwallet : h.decisionWallet = (hostRequest d policySeed shares h).checkedCeilings.walletId)
    (hceil : checkHardCeilings d.toDeps
      ((hostRequest d policySeed shares h).verifierRequest hostEnv)
      (hostRequest d policySeed shares h).checkedCeilings = .ok ()) :
    (pinned d policySeed).hybridCheck d hostEnv (hostRequest d policySeed shares h) = .ok () := by
  obtain ⟨hpayload, hsig, hfresh⟩ :=
    signDecision_accepted hd policySeed (.allow ⟨0⟩ ⟨0⟩ []) ⟨0⟩ h.decisionWallet
  exact verify_some_ok_iff.2 ⟨Nat.zero_le _, verifySigned_ok_iff.2
    ⟨hpayload, hsig, checkBinding_ok_iff.2 ⟨rfl, hwallet⟩, hfresh, rfl, hceil⟩⟩

theorem exists_sign_ed25519 (c : Crypto) {secret : Bytes} (hlen : secret.length = 32)
    (message : Bytes) :
    (∃ pk, publicKey c .ed25519 secret = .ok pk) ∧
      ∃ sig, sign c .ed25519 secret message .none = .ok sig := by
  have hsk : Ed25519.signingKey secret = .ok ⟨secret, hlen⟩ := by
    have hfix : FixedBytes.ofBytes? 32 secret = some ⟨secret, hlen⟩ :=
      FixedBytes.ofBytes?_eq_some.2 rfl
    rw [Ed25519.signingKey, hfix]
  simp only [publicKey, Ed25519.publicKey, sign, Ed25519.sign, bind_eq_ok]
  exact ⟨⟨_, _, hsk, rfl⟩, _, (), rfl, _, hsk, rfl⟩

theorem exists_signAttestation (hd : d.Working) (e : MockEnclave) (env : Env) (ud : Bytes) :
    ∃ doc, e.signAttestation d env ud = .ok doc := by
  simp only [MockEnclave.signAttestation, bind_eq_ok, mapError_eq_ok]
  obtain ⟨raw, hraw⟩ := hd.attestation _
  exact ⟨_, raw, hraw, rfl⟩

theorem signAndAttest_hostRequest (policySeed : FixedBytes 32) (shares : List ShamirShare)
    (h : HostChoice) (hd : d.Working) (hseed : 32 ≤ seed.length) :
    ∃ resp, (pinned d policySeed).signAndAttest d hostEnv (hostRequest d policySeed shares h) seed
      = .ok resp := by
  have hlen : (seed.take 32).length = 32 := by rw [List.length_take]; omega
  have hkey : deriveSigningKey d .ed25519 seed none = .ok (seed.take 32) :=
    if_neg (Nat.not_lt.2 hseed)
  obtain ⟨⟨pk, hpk⟩, sig, hsig⟩ := exists_sign_ed25519 d.crypto hlen h.message
  obtain ⟨ctx, hctx⟩ := hd.context ⟨none, none, .null⟩
  obtain ⟨doc, hdoc⟩ := exists_signAttestation hd (pinned d policySeed) hostEnv
    (userData d (hostRequest d policySeed shares h) sig ctx)
  simp only [MockEnclave.signAndAttest, bind_eq_ok, mapError_eq_ok]
  exact ⟨_, _, hkey, pk, hpk, sig, hsig, ctx, hctx, doc, hdoc, rfl⟩

theorem sign_hostRequest (hd : d.Working) (hshares : combineShares d.crypto shares = .ok seed)
    (hseed : 32 ≤ seed.length)
    (hcheck : (pinned d policySeed).hybridCheck d hostEnv (hostRequest d policySeed shares h)
      = .ok ()) :
    ∃ resp, (pinned d policySeed).signInEnclave d hostEnv (hostRequest d policySeed shares h)
      = .ok resp := by
  obtain ⟨resp, hresp⟩ := signAndAttest_hostRequest policySeed shares h hd hseed
  exact ⟨resp, sign_inv.2 ⟨hcheck, checkShareParams_of_combine hshares, seed, hshares, hresp⟩⟩

theorem checkHardCeilings_unconstrained {d : Deps} (request : SigningRequest) (w : WalletId) :
    checkHardCeilings d request (.unconstrained w) = .ok () :=
  checkHardCeilings_ok_iff.2 ⟨fun _ _ h => absurd rfl h, fun _ _ _ _ h => absurd rfl h,
    fun _ _ _ _ _ h => absurd h (by simp [WalletCeilings.unconstrained])⟩

theorem checkHardCeilings_raw {d : Deps} {request : SigningRequest} {b : Bytes}
    (hp : request.payload = .raw b) (wallet : WalletCeilings) :
    checkHardCeilings d request wallet = .ok () := by
  rw [checkHardCeilings_ok_iff, hp]
  exact ⟨by simp [SigningPayload.chainId], by simp, by simp⟩

end Host

/-! ### A wallet and its host

A wallet whose seed is thirty-two bytes `2a`, shared two of three; digests, signatures and shares
are the real ones. -/

namespace Sample

def shareBlob1 : Bytes :=
  toBe 4 32 ++ toBe 33 0x0111111111313b3b3b3b3b3b3b3b3b3b3b3b3b3b3b3b3b3b3b3b3b3b3b3b3b3b3b
    ++ toBe 33 0x01224c4c4c4c4c2222222222222222222222222222222222222222222222222222

/-- The second one. -/
def shareBlob2 : Bytes :=
  toBe 4 32 ++ toBe 33 0x0222222222424c4c4c4c4c4c4c4c4c4c4c4c4c4c4c4c4c4c4c4c4c4c4c4c4c4c4c
    ++ toBe 33 0x02446e6e6e6e6e4444444444444444444444444444444444444444444444444444

/-- The two shares. -/
def shares : List ShamirShare := [⟨1, ⟨2, 3⟩, shareBlob1⟩, ⟨2, ⟨2, 3⟩, shareBlob2⟩]

/-- The two blocks' shares and the scalars they recombine to. -/
def scalars : List (List (FixedBytes 33) × FixedBytes 32) :=
  [([.ofNat 33 0x0111111111313b3b3b3b3b3b3b3b3b3b3b3b3b3b3b3b3b3b3b3b3b3b3b3b3b3b3b,
     .ofNat 33 0x0222222222424c4c4c4c4c4c4c4c4c4c4c4c4c4c4c4c4c4c4c4c4c4c4c4c4c4c4c],
    .ofNat 32 0x00000000202a2a2a2a2a2a2a2a2a2a2a2a2a2a2a2a2a2a2a2a2a2a2a2a2a2a2a),
   ([.ofNat 33 0x01224c4c4c4c4c2222222222222222222222222222222222222222222222222222,
     .ofNat 33 0x02446e6e6e6e6e4444444444444444444444444444444444444444444444444444],
    .ofNat 32 0x002a2a2a2a2a0000000000000000000000000000000000000000000000000000)]

/-- The secret. -/
def walletSeed : FixedBytes 32 := ⟨List.replicate 32 0x2a, rfl⟩

/-- Its public key. -/
def walletKey : FixedBytes 32 :=
  .ofNat 32 0x197f6b23e16c8532c6abc838facd5ea789be0c76b2920334039bfa8b3d368d61

def otherMessage : Bytes := utf8 "transfer 9 to eve"

def signature : FixedBytes 64 :=
  .ofNat 64 (0x95f6ce054e762b6348141d810ff98bd889b7ca92e2ed11f268df96f7725cf361 * 2 ^ 256 +
    0x1d93614ad9dd681e0cdb26f0e605429ae975adf1e0219e3a36f8bd11a4549402)

/-- The signature of another message. -/
def otherSignature : FixedBytes 64 :=
  .ofNat 64 (0xd3b4de9d6e3f1aaeca4f07c7d1ba059d52c5aa8f8203484d53d3d22f19f7678d * 2 ^ 256 +
    0x19993d53f050fedc5286c7970e4d7ff02b052a4f8e02dc6921447a898a7cec0c)

/-- The key the enclave attests with. -/
def attestationSeed : FixedBytes 32 := ⟨List.replicate 32 1, rfl⟩

/-- Its public key. -/
def attestationKey : FixedBytes 32 :=
  .ofNat 32 0x8a88e3dd7409f195fd52db2d3cba5d72ca6709bf1d94121bf3748801b40f6f5c

/-- A byte string as a JSON array of numbers. -/
def printBytes (b : Bytes) : Bytes :=
  91 :: ((b.map fun x => (Nat.toDigits 10 x.toNat).flatMap String.utf8EncodeChar).intersperse
    [44]).flatten ++ [93]

/-- The printed form of an attestation payload of the mock with timestamp 2000. -/
def printAttestation (x : AttestationPayload) : Bytes :=
  utf8 "\x7b\"backend\":\"mock\",\"timestamp_unix_ms\":2000,\"nonce\":" ++ printBytes x.nonce.bytes
    ++ utf8 ",\"pcrs\":\x7b\"0\":" ++ printBytes pcrMockSentinel
    ++ utf8 ",\"1\":" ++ printBytes pcrMockSentinel
    ++ utf8 ",\"2\":" ++ printBytes pcrMockSentinel
    ++ utf8 "\x7d,\"attestation_public_key\":" ++ printBytes x.attestationPublicKey
    ++ utf8 ",\"user_data\":" ++ printBytes x.userData ++ utf8 "\x7d"

/-- The printed form of the empty context. -/
def contextJson : Bytes := utf8 "\x7b\"chain_id\":null,\"vm_type\":null,\"extra\":null\x7d"

/-- An enclave that demands a signed decision. -/
def enclave : MockEnclave := ⟨attestationSeed, some policyKey.bytes, true⟩

def env : Env := ⟨1500, 2000, 2000, FixedBytes.zero 32⟩

/-- A sign request for the sample decision. -/
def signRequest (message : Bytes) (payload : SigningPayload) (wallet : WalletId)
    (ceilings : Option WalletCeilings) : EnclaveSignRequest where
  requestId := requestId
  walletId := wallet
  shares := shares
  scheme := .ed25519
  hdPath := none
  message := message
  hashAlg := .none
  context := ⟨none, none, .null⟩
  policyDecision := some signed
  approvals := []
  walletCeilings := ceilings
  policySigningPayload := some payload

/-- The attestation payload bytes of a signed request. -/
def attested (wallet : WalletId) (messageHash signatureHash : FixedBytes 32) : Bytes :=
  printAttestation {
    backend := "mock"
    timestampUnixMs := 2000
    nonce := FixedBytes.zero 32
    pcrs := []
    attestationPublicKey := attestationKey.bytes
    userData := requestId.textBytes ++ 124 :: wallet.textBytes ++ 124 :: messageHash.bytes
      ++ 124 :: signatureHash.bytes ++ 124 :: 124 :: contextJson }

def otherMessageHash : FixedBytes 32 :=
  .ofNat 32 0x07f6cc9d8f97f26e93427c9553b32568621c9ea9da84b37aa1e841129c52b172

def signatureHash : FixedBytes 32 :=
  .ofNat 32 0x91e73858e7ac00216f60b2fdb97a2be16ac3c455f3326206847884166ce834ec

/-- The hash of the other signature. -/
def otherSignatureHash : FixedBytes 32 :=
  .ofNat 32 0xb35c8a9c66e2ae1eaea709848dae5b1a18e1b8eede68914e779f2c5e8286dc3d

/-- A wallet no decision was made for. -/
def otherWalletId : WalletId := ⟨9⟩

/-- The digests, keys and signatures of the sample. -/
def mockTables : Crypto.Tables where
  digests := [(message, messageHash), (otherMessage, otherMessageHash),
    (signature.bytes, signatureHash), (otherSignature.bytes, otherSignatureHash)]
  keys := [(⟨List.replicate 32 7, rfl⟩, policyKey), (walletSeed, walletKey),
    (attestationSeed, attestationKey)]
  signatures :=
    [((policyKey, tuple.preimage jsonDecision), policySignature),
     ((walletKey, message), signature),
     ((walletKey, otherMessage), otherSignature),
     ((attestationKey, attested walletId messageHash signatureHash),
      .ofNat 64 (0xbddd38c7c80e07d4ca9c77cb7b4f73d8f83fc3082a9968195c7997152ccf03ae * 2 ^ 256 +
        0x4d231f17273b2d34eff022c2c9b670f8c2be4775a378db65eb635809b1a1ac00)),
     ((attestationKey, attested walletId otherMessageHash otherSignatureHash),
      .ofNat 64 (0x2bd3f8cd67f9a325b3a92fa2cf0475378a668a137da22311cf39fbbed133b4bb * 2 ^ 256 +
        0xaea6c6a9b5b590d4d925a8eab2bb49bace444fe6af190e38f88c693688c62b0e)),
     ((attestationKey, attested otherWalletId messageHash signatureHash),
      .ofNat 64 (0xffac8c6fd173725d825c24e7e3ce38d646f23afb130db1d9aa3de90f85197eb1 * 2 ^ 256 +
        0x06cbc5c82be194d65af69eefd3b96775f012a5c8a0a7366ff9eba8d4404c9806))]
  scalars := scalars

/-- Its dependencies. -/
def mockDeps : MockDeps where
  crypto := .ofTables mockTables
  rlp := Rlp.reference
  jsonValue _ := none
  jsonDecision := jsonDecision
  jsonContext _ := .ok contextJson
  jsonAttestation x := .ok (printAttestation x)

theorem mockDeps_working : mockDeps.Working where
  ed25519 := Crypto.ofTables_ed25519Correct mockTables
  context _ := ⟨_, rfl⟩
  attestation _ := ⟨_, rfl⟩

theorem combineShares_shares : combineShares mockDeps.crypto shares = .ok walletSeed.bytes := by
  decide +kernel

theorem signs_samples :
    (enclave.signInEnclave mockDeps env
      (signRequest message (.raw message) walletId none)).isOk = true ∧
    (enclave.signInEnclave mockDeps env
      (signRequest otherMessage (.raw message) walletId none)).isOk = true ∧
    (enclave.signInEnclave mockDeps env (signRequest message (.raw message) walletId
      (some (.unconstrained walletId)))).isOk = true ∧
    (enclave.signInEnclave mockDeps env (signRequest message (.raw message) otherWalletId
      (some (.unconstrained walletId)))).isOk = true := by
  decide +kernel

end Sample

open Sample

/-! ## The two bindings -/

section Binding

variable {d : MockDeps}

/-- **The message is bound to the authorised payload iff the request binds it.** Over all
enclaves with a pinned key that require decisions and all requests with this message and declared
payload, every issued signature is over the canonical message of the checked payload exactly when
no payload is declared or the declared one stands for the message. -/
theorem sign_message_authorised_iff (hd : d.Working) (shares : List ShamirShare) (seed : Bytes)
    (hshares : combineShares d.crypto shares = .ok seed) (hseed : 32 ≤ seed.length)
    (message : Bytes) (payload : Option SigningPayload) :
    (∀ (e : MockEnclave) (pubkey : Bytes) (env : Env) (req : EnclaveSignRequest)
        (resp : EnclaveSignResponse),
      e.policyServicePubkey = some pubkey → e.requireSignedDecision = true →
      req.message = message → req.policySigningPayload = payload →
      e.signInEnclave d env req = .ok resp →
        req.message = d.canonicalMessage req.checkedPayload) ↔
    ∀ p, payload = some p → d.canonicalMessage p = message := by
  constructor
  · rintro h p rfl
    let choice : HostChoice := ⟨message, some p, ⟨0⟩, none, ⟨0⟩⟩
    have hcheck : (pinned d (.zero 32)).hybridCheck d hostEnv
        (hostRequest d (.zero 32) shares choice) = .ok () :=
      hybridCheck_hostRequest hd rfl (checkHardCeilings_unconstrained _ _)
    obtain ⟨resp, hresp⟩ := sign_hostRequest hd hshares hseed hcheck
    exact (h _ _ _ _ resp rfl rfl rfl rfl hresp).symm
  · rintro h e pubkey env req resp - - rfl rfl -
    cases hp : req.policySigningPayload with
    | none => simp [EnclaveSignRequest.checkedPayload, hp, canonicalSigningMessage]
    | some p =>
      rw [EnclaveSignRequest.checkedPayload, hp, Option.getD_some]
      exact (h p hp).symm

/-- The message is the payload that was decided on. -/
theorem sign_message_authorised_honest :
    (signRequest message (.raw message) walletId none).message =
      mockDeps.canonicalMessage (signRequest message (.raw message)
        walletId none).checkedPayload := by
  obtain ⟨resp, hsign⟩ := exists_ok_of_isOk signs_samples.1
  exact (sign_message_authorised_iff mockDeps_working shares
      walletSeed.bytes combineShares_shares (by decide) message
      (some (.raw message))).2 (fun p hp => by cases hp; rfl) enclave _ env _
      resp rfl rfl rfl rfl hsign

/-- The service allowed `transfer 5 to bob`; the enclave signs `transfer 9 to eve`. -/
theorem sign_message_unauthorised : ¬ ((enclave.signInEnclave mockDeps env (signRequest
          otherMessage (.raw message) walletId none)).isOk = true →
        otherMessage = mockDeps.canonicalMessage (signRequest
          otherMessage (.raw message) walletId none).checkedPayload) :=
  fun h => absurd (h signs_samples.2.1) (by decide +kernel)

/-- **The decision is bound to the request's wallet iff the request binds it.** Over all enclaves
with a pinned key that require decisions and all requests with this wallet and these declared
ceilings, every issued signature was decided for the request's wallet exactly when no ceilings are
declared or the declared ones name that wallet. -/
theorem sign_wallet_bound_iff (hd : d.Working) (shares : List ShamirShare) (seed : Bytes)
    (hshares : combineShares d.crypto shares = .ok seed) (hseed : 32 ≤ seed.length)
    (wallet : WalletId) (ceilings : Option WalletCeilings) :
    (∀ (e : MockEnclave) (pubkey : Bytes) (env : Env) (req : EnclaveSignRequest)
        (resp : EnclaveSignResponse),
      e.policyServicePubkey = some pubkey → e.requireSignedDecision = true →
      req.walletId = wallet → req.walletCeilings = ceilings →
      e.signInEnclave d env req = .ok resp →
        ∃ s, req.policyDecision = some s ∧ s.walletId = req.walletId) ↔
    ∀ c, ceilings = some c → c.walletId = wallet := by
  constructor
  · rintro h c rfl
    let choice : HostChoice := ⟨[], none, wallet, some c, c.walletId⟩
    have hcheck : (pinned d (.zero 32)).hybridCheck d hostEnv
        (hostRequest d (.zero 32) shares choice) = .ok () :=
      hybridCheck_hostRequest hd rfl (checkHardCeilings_raw rfl _)
    obtain ⟨resp, hresp⟩ := sign_hostRequest hd hshares hseed hcheck
    obtain ⟨s, hs, hw⟩ := h _ _ _ _ resp rfl rfl rfl rfl hresp
    obtain rfl : signDecision d.jsonDecision d.crypto (.zero 32) 0 (.allow ⟨0⟩ ⟨0⟩ []) ⟨0⟩
        c.walletId 60 = s := Option.some.inj hs
    exact hw
  · rintro h e pubkey env req resp hpin hrequired rfl rfl hsign
    obtain ⟨s, hs, hverify⟩ := verified_of_sign hpin hrequired hsign
    obtain ⟨-, -, hbind, -⟩ := verifySigned_ok_iff.1 hverify
    refine ⟨s, hs, (checkBinding_ok_iff.1 hbind).2.trans ?_⟩
    cases hc : req.walletCeilings with
    | none => simp [EnclaveSignRequest.checkedCeilings, hc, WalletCeilings.unconstrained]
    | some c =>
      rw [EnclaveSignRequest.checkedCeilings, hc, Option.getD_some]
      exact h c hc

/-- The ceilings name the wallet that signs. -/
theorem sign_wallet_bound_honest : ∃ s, (signRequest message (.raw message) walletId
        (some (.unconstrained walletId))).policyDecision = some s ∧
      s.walletId = walletId := by
  obtain ⟨resp, hsign⟩ := exists_ok_of_isOk signs_samples.2.2.1
  exact (sign_wallet_bound_iff mockDeps_working shares
      walletSeed.bytes combineShares_shares (by decide) walletId
      (some (.unconstrained walletId))).2 (fun c hc => by cases hc; rfl) enclave _
      env _ resp rfl rfl rfl rfl hsign

/-- With ceilings that name the decided wallet, the enclave signs and attests for another one. -/
theorem sign_wallet_unbound : ¬ ((enclave.signInEnclave mockDeps env (signRequest
          message (.raw message) otherWalletId
          (some (.unconstrained walletId)))).isOk = true →
        ∃ s, (signRequest message (.raw message) otherWalletId
            (some (.unconstrained walletId))).policyDecision = some s ∧
          s.walletId = otherWalletId) := by
  intro h
  obtain ⟨s, hs, hw⟩ := h signs_samples.2.2.2
  obtain rfl : signed = s := Option.some.inj hs
  cases hw

end Binding

end QfcServerWallet.Enclave
