import QfcServerWallet.Enclave.Mock

/-!
# The Nitro path

`qfc-enclave/src/enclaves/nitro.rs` (the host's `NitroEnclave::sign_in_enclave` and the wire types)
and `enclave/src/main.rs` (the boot binary: `dispatch`, `handle_sign`,
`signing_request_for_verifier` and the per-connection body of `serve_vsock`).

* The host copies ten of the twelve fields of an `EnclaveSignRequest` onto the wire
  (`NitroSignRequest`). The wallet ceilings and the structured payload stay behind.
* The boot binary fills the gap with constants: unconstrained ceilings for the request's wallet,
  and the message as a raw payload.
* An error inside the enclave crosses the wire as its text (`anyhow`, so without the wrapper that
  `EnclaveError` puts around it) and comes back as `InvalidRequest`; a panic closes the connection.
* Framing and JSON are `Wire`: a round trip carries both messages unchanged, or fails.

Results: `nitroSign_inv` and **`nitroSign_refines_mock_iff`**. Out of scope: `generate_wallet` over
the wire, and the PCR constraint of `NitroEnclave`, which `sign_in_enclave` does not read.
-/

namespace QfcServerWallet

open Lib Policy Sss

/-! ## Error texts -/

/-- `Display` of `ShareError` -/
def Sss.ShareError.toString : ShareError → String
  | .invalidParameters threshold total reason =>
    "invalid SSS parameters: threshold=" ++ threshold.toNat.repr ++ ", total=" ++ total.toNat.repr
      ++ ": " ++ reason
  | .invalidSecret reason => "invalid secret length: " ++ reason
  | .vsss what => "vsss-rs error: " ++ what
  | .notEnoughShares threshold provided =>
    "not enough shares: need at least " ++ threshold.toNat.repr ++ ", got " ++ provided.repr
  | .inconsistentShares reason => "inconsistent shares: " ++ reason

namespace Enclave

/-- `Display` of `DerivationError` -/
def DerivationError.toString : DerivationError → String
  | .nonHardenedRequired scheme =>
    "scheme " ++ scheme ++ " requires all path segments to be hardened"
  | .schemeNotHd scheme => "scheme " ++ scheme ++ " does not support HD derivation"
  | .underlying what => "derivation error: " ++ what

/-- `Display` of `HybridVerifyError` -/
def HybridVerifyError.toString : HybridVerifyError → String
  | .missingPolicyDecision => "no signed policy decision provided"
  | .invalidPolicyServiceSignature => "policy-service signature invalid"
  | .policyDecisionRawPayloadMismatch =>
    "policy decision raw_payload does not match canonical preimage"
  | .requestIdMismatch expected got =>
    "policy decision request_id mismatch (expected " ++ expected.toString ++ ", got "
      ++ got.toString ++ ")"
  | .walletIdMismatch expected got =>
    "policy decision wallet_id mismatch (expected " ++ expected.toString ++ ", got "
      ++ got.toString ++ ")"
  | .decisionStale ageSecs maxAgeSecs =>
    "policy decision is stale (age " ++ ageSecs.toNat.repr ++ "s > max_age "
      ++ maxAgeSecs.toNat.repr ++ "s)"
  | .decisionFromTheFuture signedAtMs =>
    "policy decision timestamp is in the future (signed_at_ms=" ++ signedAtMs.toInt.repr ++ ")"
  | .policyDeny => "policy decision is Deny"
  | .valueCapExceeded payload cap =>
    "value cap exceeded: payload " ++ payload ++ " > wallet cap " ++ cap.toNat.repr
  | .targetNotAllowed targetHex => "target not on allowlist: target=" ++ targetHex
  | .chainNotAllowed chainId => "chain " ++ chainId.toNat.repr ++ " not on wallet allowlist"
  | .notEnoughApprovals provided threshold =>
    "not enough approvals: " ++ provided.toNat.repr ++ " provided, " ++ threshold.toNat.repr
      ++ " required"
  | .invalidApproval what => "invalid approval: " ++ what
  | .tooManyApprovals count limit =>
    "too many approvals supplied: " ++ count.repr ++ " > " ++ limit.repr
  | .approvalSignerError what => "approval signer error: " ++ what

/-- The text of the error inside an `EnclaveError`: what `anyhow` prints of an error that was
never wrapped. -/
def EnclaveError.cause : EnclaveError → String
  | .notEnoughShares threshold provided =>
    "not enough shares: need " ++ threshold.toNat.repr ++ ", got " ++ provided.repr
  | .inconsistentShares reason => "inconsistent shares: " ++ reason
  | .sss e => e.toString
  | .derivation e => e.toString
  | .signer e => e.toString
  | .attestationPayloadParse what => "attestation payload parse error: " ++ what
  | .invalidRequest what => what
  | .hybridVerification e => e.toString

/-! ## The wire -/

/-- The part of an `EnclaveSignRequest` that is sent. -/
structure NitroSignRequest where
  requestId : RequestId
  walletId : WalletId
  shares : List ShamirShare
  scheme : SigningScheme
  hdPath : Option HdPath
  message : Bytes
  hashAlg : HashAlg
  context : SigningContext
  policyDecision : Option SignedPolicyDecision
  approvals : List EnclaveApproval

/-- The messages to the enclave. -/
inductive NitroWireRequest where
  | attest (nonce : FixedBytes 32)
  | sign (req : NitroSignRequest)

/-- Its answers. -/
inductive NitroWireResponse where
  | attest (attestation : AttestationDoc)
  | sign (signature publicKey : Bytes) (attestation : AttestationDoc)
  | error (message : String)
  deriving DecidableEq

/-- What the transport does with one round trip. -/
inductive Wire where
  /-- both messages arrive as they were sent -/
  | carries
  /-- the host cannot connect, send, receive or parse -/
  | fails (what : String)
  /-- the boot binary cannot parse the request -/
  | garbles (what : String)

/-! ## The boot binary -/

/-- The configuration of the boot binary. -/
structure BootConfig where
  policyServicePubkey : Bytes

/-- The in-process enclave with the same keys, which requires decisions as the boot binary does. -/
def BootConfig.mock (cfg : BootConfig) (attestationKey : FixedBytes 32) : MockEnclave where
  attestationKey := attestationKey
  policyServicePubkey := some cfg.policyServicePubkey
  requireSignedDecision := true

/-- `signing_request_for_verifier` -/
def signingRequestForVerifier (env : Env) (req : NitroSignRequest) : SigningRequest where
  requestId := req.requestId
  walletId := req.walletId
  requester := .apiKey "in-enclave"
  payload := .raw req.message
  hdPath := req.hdPath
  receivedAtUnixMs := env.receivedAt

section Boot

variable (d : MockDeps)

/-- The verifier's answer in the boot binary. -/
def BootConfig.hybridCheck (cfg : BootConfig) (env : Env) (req : NitroSignRequest) :
    Except HybridVerifyError Unit :=
  HybridVerifier.verify d.toDeps ⟨cfg.policyServicePubkey, true⟩ req.policyDecision req.approvals
    (signingRequestForVerifier env req) (.unconstrained req.walletId) env.now

/-- The signing key of a seed, whatever the scheme. -/
def bootSigningKey (scheme : SigningScheme) (seed : Bytes) (hdPath : Option HdPath) :
    Except EnclaveError Bytes :=
  match hdPath with
  | none =>
    if seed.length < 32 then .error (.invalidRequest "seed too short for classical scheme")
    else .ok (seed.take 32)
  | some path => (deriveClassical d.crypto scheme seed path).mapError .derivation

/-- The bytes the attestation binds. -/
def bootUserData (req : NitroSignRequest) (signature : Bytes) : Bytes :=
  req.requestId.textBytes ++ 124 :: req.walletId.textBytes
    ++ 124 :: (d.crypto.sha256 req.message).bytes ++ 124 :: (d.crypto.sha256 signature).bytes

/-- Sign, and attest the signature. -/
def BootConfig.signAndAttest (cfg : BootConfig) (attestationKey : FixedBytes 32) (env : Env)
    (req : NitroSignRequest) (seed : Bytes) : Except EnclaveError NitroWireResponse := do
  let signingKey ← bootSigningKey d req.scheme seed req.hdPath
  let pubkey ← (publicKey d.crypto req.scheme signingKey).mapError .signer
  let signature ← (sign d.crypto req.scheme signingKey req.message req.hashAlg).mapError .signer
  let attestation ← (cfg.mock attestationKey).signAttestation d env (bootUserData d req signature)
  .ok (.sign signature pubkey attestation)

/-- `handle_sign` -/
def handleSign (cfg : BootConfig) (attestationKey : FixedBytes 32) (env : Env)
    (req : NitroSignRequest) : Except (Fault EnclaveError) NitroWireResponse := do
  orFault ((cfg.hybridCheck d env req).mapError .hybridVerification)
  let seed ← liftShareFault (combineShares d.crypto req.shares)
  orFault (cfg.signAndAttest d attestationKey env req seed)

/-- `dispatch`; the nonce of an attestation request is the host's. -/
def dispatch (cfg : BootConfig) (attestationKey : FixedBytes 32) (env : Env) :
    NitroWireRequest → Except (Fault EnclaveError) NitroWireResponse
  | .attest nonce => do
    let doc ← orFault ((cfg.mock attestationKey).signAttestation d { env with nonce := nonce } [])
    .ok (.attest doc)
  | .sign req => handleSign d cfg attestationKey env req

/-! ## The host -/

/-- `round_trip`, with one connection of `serve_vsock` at the other end. -/
def roundTrip (wire : Wire) (cfg : BootConfig) (attestationKey : FixedBytes 32) (env : Env)
    (req : NitroWireRequest) : Except EnclaveError NitroWireResponse :=
  match wire with
  | .fails what => .error (.attestationPayloadParse what)
  | .garbles what => .ok (.error ("parse: " ++ what))
  | .carries =>
    match dispatch d cfg attestationKey env req with
    | .ok resp => .ok resp
    | .error (.err e) => .ok (.error e.cause)
    | .error .panic => .error (.attestationPayloadParse "vsock closed")

/-- The projection onto the wire. -/
def EnclaveSignRequest.wire (req : EnclaveSignRequest) : NitroSignRequest where
  requestId := req.requestId
  walletId := req.walletId
  shares := req.shares
  scheme := req.scheme
  hdPath := req.hdPath
  message := req.message
  hashAlg := req.hashAlg
  context := req.context
  policyDecision := req.policyDecision
  approvals := req.approvals

/-- `NitroEnclave::sign_in_enclave` -/
def NitroEnclave.signInEnclave (wire : Wire) (cfg : BootConfig) (attestationKey : FixedBytes 32)
    (env : Env) (req : EnclaveSignRequest) : Except EnclaveError EnclaveSignResponse := do
  match ← roundTrip d wire cfg attestationKey env (.sign req.wire) with
  | .sign signature publicKey attestation => .ok ⟨signature, publicKey, attestation⟩
  | .error message => .error (.invalidRequest message)
  | _ => .error (.invalidRequest "unexpected nitro response")

end Boot

/-! ## What an issued signature went through -/

section Inversion

variable {d : MockDeps} {cfg : BootConfig} {attestationKey : FixedBytes 32} {env : Env}
  {resp : EnclaveSignResponse} {req : EnclaveSignRequest}

theorem handleSign_ok_iff {req : NitroSignRequest} {resp : NitroWireResponse} :
    handleSign d cfg attestationKey env req = .ok resp ↔
      cfg.hybridCheck d env req = .ok () ∧
      ∃ seed, combineShares d.crypto req.shares = .ok seed ∧
        cfg.signAndAttest d attestationKey env req seed = .ok resp := by
  simp only [handleSign, bind_eq_ok, orFault_eq_ok, mapError_eq_ok, liftShareFault_eq_ok]
  constructor
  · rintro ⟨_, hcheck, seed, hseed, hsign⟩
    exact ⟨hcheck, seed, hseed, hsign⟩
  · rintro ⟨hcheck, seed, hseed, hsign⟩
    exact ⟨(), hcheck, seed, hseed, hsign⟩

theorem signInEnclave_ok_iff {wire : Wire} :
    NitroEnclave.signInEnclave d wire cfg attestationKey env req = .ok resp ↔
      wire = .carries ∧ handleSign d cfg attestationKey env req.wire
        = .ok (.sign resp.signature resp.publicKey resp.attestation) := by
  simp only [NitroEnclave.signInEnclave, bind_eq_ok]
  constructor
  · rintro ⟨answer, hanswer, h⟩
    cases answer with
    | sign signature publicKey attestation =>
      cases h
      unfold roundTrip at hanswer
      split at hanswer
      · cases hanswer
      · cases hanswer
      · refine ⟨rfl, ?_⟩
        split at hanswer
        · next r hr => rwa [Except.ok.inj hanswer] at hr
        · cases hanswer
        · cases hanswer
    | attest doc => cases h
    | error message => cases h
  · rintro ⟨rfl, h⟩
    refine ⟨.sign resp.signature resp.publicKey resp.attestation, ?_, rfl⟩
    simp only [roundTrip, dispatch, h]

/-- What an issued signature went through. -/
theorem nitroSign_inv {wire : Wire} :
    NitroEnclave.signInEnclave d wire cfg attestationKey env req = .ok resp ↔
      wire = .carries ∧ cfg.hybridCheck d env req.wire = .ok () ∧
      ∃ seed, combineShares d.crypto req.shares = .ok seed ∧
        cfg.signAndAttest d attestationKey env req.wire seed
          = .ok (.sign resp.signature resp.publicKey resp.attestation) := by
  rw [signInEnclave_ok_iff, handleSign_ok_iff]
  rfl

end Inversion

/-! ## The mock as the specification -/

/-- What the wire leaves behind says nothing new: the ceilings are the wallet's own and let the
payload pass, and the payload stands for bytes with the digest of the message. -/
structure WireComplete (d : Deps) (wallet : WalletId) (message : Bytes)
    (payload : Option SigningPayload) (ceilings : Option WalletCeilings) : Prop where
  wallet_eq : ∀ c, ceilings = some c → c.walletId = wallet
  within : ∀ c p, ceilings = some c → payload = some p → PayloadWithin d c p
  digest_eq : ∀ p, payload = some p →
    d.crypto.sha256 (d.canonicalMessage p) = d.crypto.sha256 message

theorem verify_of_agree {d : Deps} {V : HybridVerifier} {signed : Option SignedPolicyDecision}
    {approvals : List EnclaveApproval} {request request' : SigningRequest}
    {wallet wallet' : WalletCeilings} {now : Int64}
    (hid : request'.requestId = request.requestId)
    (hdigest : d.crypto.sha256 (d.canonicalMessage request'.payload)
      = d.crypto.sha256 (d.canonicalMessage request.payload))
    (hwallet : wallet'.walletId = wallet.walletId)
    (hceil : checkHardCeilings d request' wallet' = .ok ())
    (hok : V.verify d signed approvals request wallet now = .ok ()) :
    V.verify d signed approvals request' wallet' now = .ok () := by
  cases signed with
  | none =>
    unfold HybridVerifier.verify at hok ⊢
    split_ifs at hok with hlen
    rw [if_neg hlen]
    cases hr : V.requireSignedDecision with
    | true => simp [hr] at hok
    | false => exact hceil
  | some s =>
    obtain ⟨hlen, hsigned⟩ := verify_some_ok_iff.1 hok
    obtain ⟨hpayload, hsig, hbind, hfresh, hdecision, -⟩ := verifySigned_ok_iff.1 hsigned
    have hdecision' : checkDecision d s approvals request' now = .ok () := by
      unfold checkDecision checkApprovals at hdecision ⊢
      rwa [hid, hdigest]
    have hbind' : checkBinding s request' wallet' = .ok () := by
      rw [checkBinding_ok_iff] at hbind ⊢
      rwa [hid, hwallet]
    exact verify_some_ok_iff.2
      ⟨hlen, verifySigned_ok_iff.2 ⟨hpayload, hsig, hbind', hfresh, hdecision', hceil⟩⟩

/-! ### A request with an approval

The host's request of `Enclave/Mock.lean`, for a decision that asks for one approval and with that
approval: it makes every field the verifier reads count. -/

section Quorum

variable (d : MockDeps)

/-- An approval of the message, signed with `approverSeed`. -/
def hostApproval (approverSeed : FixedBytes 32) (message : Bytes) : EnclaveApproval :=
  let unsigned : EnclaveApproval := {
    approvalId := ⟨0⟩
    approverPublicKey := (d.crypto.ed25519PublicKey approverSeed).bytes
    approverScheme := .ed25519
    requestId := ⟨0⟩
    messageHash := d.crypto.sha256 message
    decision := .approve
    timestampUnixMs := 0
    signature := [] }
  { unsigned with
    signature := (d.crypto.ed25519Sign approverSeed (approvalPreimage unsigned)).bytes }

/-- The host's request under a quorum decision for the request's own wallet. -/
def quorumRequest (policySeed : FixedBytes 32) (shares : List ShamirShare) (wallet : WalletId)
    (message : Bytes) (payload : Option SigningPayload) (ceilings : Option WalletCeilings) :
    EnclaveSignRequest :=
  { hostRequest d policySeed shares ⟨message, payload, wallet, ceilings, wallet⟩ with
    policyDecision := some (signDecision d.jsonDecision d.crypto policySeed 0
      (.requireQuorum ⟨0⟩ ⟨0⟩ 1 1 ⟨0⟩ []) ⟨0⟩ wallet 60)
    approvals := [hostApproval d policySeed message] }

/-- A boot binary with the policy service's key pinned. -/
def pinnedBoot (policySeed : FixedBytes 32) : BootConfig :=
  ⟨(d.crypto.ed25519PublicKey policySeed).bytes⟩

variable {d} {policySeed : FixedBytes 32} {shares : List ShamirShare} {seed : Bytes}
variable {wallet : WalletId} {message : Bytes} {payload : Option SigningPayload}
variable {ceilings : Option WalletCeilings}

theorem checkApproval_hostApproval (hd : d.Working) (approverSeed : FixedBytes 32) :
    checkApproval d.toDeps ⟨0⟩ (d.crypto.sha256 message) 0 (hostApproval d approverSeed message)
      = .ok () := by
  have hpast : (0 : Int) ≤ (0 : Int64).toInt - (0 : Int64).toInt := by decide
  have hage : ((0 : Int64).toInt - (0 : Int64).toInt) / 1000 ≤ 3600 := by decide
  refine checkApproval_ok_iff.2 ⟨rfl, rfl, hpast, hage, rfl, ?_⟩
  have hkey := hd.ed25519.key_ok approverSeed
  have hsig := hd.ed25519.verify_sign approverSeed
    (approvalPreimage (hostApproval d approverSeed message))
  simp only [verifyApprovalSignature, hostApproval, verify, approvalHashAlg, Ed25519.verify,
    requireNoHash, seq_eq_ok, FixedBytes.ofBytes?_bytes, hkey, true_and]
  exact if_pos hsig

theorem hybridCheck_quorumRequest (hd : d.Working) :
    (pinnedBoot d policySeed).hybridCheck d hostEnv
      (quorumRequest d policySeed shares wallet message payload ceilings).wire = .ok () := by
  obtain ⟨hpayload, hsig, hfresh⟩ :=
    signDecision_accepted hd policySeed (.requireQuorum ⟨0⟩ ⟨0⟩ 1 1 ⟨0⟩ []) ⟨0⟩ wallet
  have happrovals : checkApprovals d.toDeps [hostApproval d policySeed message]
      (signingRequestForVerifier hostEnv
        (quorumRequest d policySeed shares wallet message payload ceilings).wire) 1 0 = .ok () := by
    refine checkApprovals_ok_iff.2 ⟨fun ap hap => ?_, le_rfl⟩
    obtain rfl : ap = hostApproval d policySeed message := List.mem_singleton.1 hap
    exact checkApproval_hostApproval hd policySeed
  have hone : [hostApproval d policySeed message].length ≤ maxApprovals := by
    simp [maxApprovals]
  exact verify_some_ok_iff.2 ⟨hone, verifySigned_ok_iff.2 ⟨hpayload, hsig,
    checkBinding_ok_iff.2 ⟨rfl, rfl⟩, hfresh, happrovals, checkHardCeilings_unconstrained _ _⟩⟩

theorem nitroSign_quorumRequest (policySeed : FixedBytes 32) (wallet : WalletId)
    (message : Bytes) (payload : Option SigningPayload) (ceilings : Option WalletCeilings)
    (hd : d.Working) (hshares : combineShares d.crypto shares = .ok seed)
    (hseed : 32 ≤ seed.length) :
    ∃ resp, NitroEnclave.signInEnclave d .carries (pinnedBoot d policySeed) (FixedBytes.zero 32)
      hostEnv (quorumRequest d policySeed shares wallet message payload ceilings) = .ok resp := by
  have hlen : (seed.take 32).length = 32 := by rw [List.length_take]; omega
  have hkey : bootSigningKey d .ed25519 seed none = .ok (seed.take 32) :=
    if_neg (Nat.not_lt.2 hseed)
  obtain ⟨⟨pk, hpk⟩, sig, hsig⟩ := exists_sign_ed25519 d.crypto hlen message
  obtain ⟨doc, hdoc⟩ := exists_signAttestation hd
    ((pinnedBoot d policySeed).mock (FixedBytes.zero 32)) hostEnv
    (bootUserData d (quorumRequest d policySeed shares wallet message payload ceilings).wire sig)
  refine ⟨⟨sig, pk, doc⟩, nitroSign_inv.2 ⟨rfl, hybridCheck_quorumRequest hd, seed, hshares, ?_⟩⟩
  simp only [BootConfig.signAndAttest, bind_eq_ok, mapError_eq_ok]
  exact ⟨_, hkey, pk, hpk, sig, hsig, doc, hdoc, rfl⟩

end Quorum

/-! ## Refinement -/

section Refinement

variable {d : MockDeps}

theorem mock_accepts_of_wireComplete {cfg : BootConfig} {attestationKey : FixedBytes 32}
    {env : Env} {req : EnclaveSignRequest}
    (hwire : WireComplete d.toDeps req.walletId req.message req.policySigningPayload
      req.walletCeilings)
    (hok : cfg.hybridCheck d env req.wire = .ok ()) :
    (cfg.mock attestationKey).hybridCheck d env req = .ok () := by
  have hdigest : d.crypto.sha256 (d.canonicalMessage req.checkedPayload)
      = d.crypto.sha256 (d.canonicalMessage (.raw req.message)) := by
    unfold EnclaveSignRequest.checkedPayload
    cases hp : req.policySigningPayload with
    | none => rfl
    | some p => exact hwire.digest_eq p hp
  have hwallet : req.checkedCeilings.walletId = req.walletId := by
    unfold EnclaveSignRequest.checkedCeilings
    cases hc : req.walletCeilings with
    | none => rfl
    | some c => exact hwire.wallet_eq c hc
  have hceil : checkHardCeilings d.toDeps (req.verifierRequest env) req.checkedCeilings
      = .ok () := by
    cases hc : req.walletCeilings with
    | none =>
      rw [EnclaveSignRequest.checkedCeilings, hc]
      exact checkHardCeilings_unconstrained _ _
    | some c =>
      rw [EnclaveSignRequest.checkedCeilings, hc]
      cases hp : req.policySigningPayload with
      | none =>
        refine checkHardCeilings_raw (b := req.message) ?_ c
        simp only [EnclaveSignRequest.verifierRequest, EnclaveSignRequest.checkedPayload, hp]
        rfl
      | some p =>
        rw [checkHardCeilings_ok_iff]
        simp only [EnclaveSignRequest.verifierRequest, EnclaveSignRequest.checkedPayload, hp]
        exact hwire.within c p hc hp
  have hid : (req.verifierRequest env).requestId
      = (signingRequestForVerifier env req.wire).requestId := rfl
  exact verify_of_agree hid hdigest hwallet hceil hok

/-- **The Nitro path enforces what the mock enforces iff the wire loses nothing.** Over all boot
configurations, times and requests with this wallet, message, payload and ceilings, a signature
that comes over the wire implies that the mock's verifier accepts the request, exactly when the
ceilings name the wallet and let the payload pass and the payload has the message's digest. -/
theorem nitroSign_refines_mock_iff (hd : d.Working) (shares : List ShamirShare) (seed : Bytes)
    (hshares : combineShares d.crypto shares = .ok seed) (hseed : 32 ≤ seed.length)
    (wallet : WalletId) (message : Bytes) (payload : Option SigningPayload)
    (ceilings : Option WalletCeilings) :
    (∀ (wire : Wire) (cfg : BootConfig) (attestationKey : FixedBytes 32) (env : Env)
        (req : EnclaveSignRequest) (resp : EnclaveSignResponse),
      req.walletId = wallet → req.message = message → req.policySigningPayload = payload →
      req.walletCeilings = ceilings →
      NitroEnclave.signInEnclave d wire cfg attestationKey env req = .ok resp →
        (cfg.mock attestationKey).hybridCheck d env req = .ok ()) ↔
    WireComplete d.toDeps wallet message payload ceilings := by
  constructor
  · intro h
    obtain ⟨resp, hresp⟩ :=
      nitroSign_quorumRequest (.zero 32) wallet message payload ceilings hd hshares hseed
    have hok := h _ _ _ _ _ resp rfl rfl rfl rfl hresp
    obtain ⟨-, hsigned⟩ := verify_some_ok_iff.1 hok
    obtain ⟨-, -, hbind, -, hdecision, hceil⟩ := verifySigned_ok_iff.1 hsigned
    refine ⟨?_, ?_, ?_⟩
    · rintro c rfl
      exact (checkBinding_ok_iff.1 hbind).2.symm
    · rintro c p rfl rfl
      exact checkHardCeilings_ok_iff.1 hceil
    · rintro p rfl
      -- the approval of the message was checked against the digest of the payload
      have happroval := (checkApprovals_ok_iff.1 hdecision).1 _ (List.mem_singleton.2 rfl)
      exact (checkApproval_ok_iff.1 happroval).2.1.symm
  · rintro hwire wire cfg attestationKey env req resp rfl rfl rfl rfl hsign
    obtain ⟨-, hok, -⟩ := nitroSign_inv.1 hsign
    exact mock_accepts_of_wireComplete hwire hok

end Refinement

/-! ### A capped wallet over the wire

The sample wallet with a cap per transaction, and the sample transaction that sends 5. -/

namespace Sample

/-- The hash of the sample's transaction. -/
def txHash : FixedBytes 32 :=
  .ofNat 32 0x79889aa1b280eff95cb4aefc6433fbd621cafc403c2f3f6b12f070109a36910d

/-- Its signature. -/
def txSignature : FixedBytes 64 :=
  .ofNat 64 (0xacc45219f4050c74616bd8f94630e8d1f5608927d255fbff6374095483887041 * 2 ^ 256 +
    0x15fd3c6ead9ddbf1f1a1ad47bb9b729355445cfe128ce3a5cc3f2adf0bef8702)

/-- The hash of that. -/
def txSignatureHash : FixedBytes 32 :=
  .ofNat 32 0xc73eb6c3d79aa8feb32b17f28643cb4ff4dbebe67e9481feb0b624c7817390c2

/-- The attestation payload bytes of the signed transaction; the boot binary binds neither path
nor context. -/
def bootAttested : Bytes :=
  printAttestation {
    backend := "mock"
    timestampUnixMs := 2000
    nonce := FixedBytes.zero 32
    pcrs := []
    attestationPublicKey := attestationKey.bytes
    userData := requestId.textBytes ++ 124 :: walletId.textBytes ++ 124 :: txHash.bytes
      ++ 124 :: txSignatureHash.bytes }

/-- The digests and signatures of the sample. -/
def nitroTables : Crypto.Tables where
  digests := [(rawTx, txHash), (txSignature.bytes, txSignatureHash)]
  keys := mockTables.keys
  signatures :=
    [((policyKey, tuple.preimage jsonDecision), policySignature),
     ((walletKey, rawTx), txSignature),
     ((attestationKey, bootAttested),
      .ofNat 64 (0x69891f00c1a5045ab3d60cd0b927a453e6776c8c5f5daf5315e8d97e5e17cff6 * 2 ^ 256 +
        0x81155f790a5b0b31e41dbcaade7b226b37fe7cf846989ba9a6fe5c373dc00001))]
  scalars := scalars

/-- Its dependencies. -/
def nitroDeps : MockDeps := { mockDeps with crypto := .ofTables nitroTables }

theorem nitroDeps_working : nitroDeps.Working where
  ed25519 := Crypto.ofTables_ed25519Correct nitroTables
  context _ := ⟨_, rfl⟩
  attestation _ := ⟨_, rfl⟩

def bootConfig : BootConfig := ⟨policyKey.bytes⟩

/-- The transfer of 5 from the wallet, under a cap. -/
def cappedRequest (cap : BitVec 128) : EnclaveSignRequest :=
  signRequest rawTx (.vmTransaction .evm 1 none rawTx) walletId (some ⟨walletId, some cap, [], []⟩)

theorem capped_samples :
    (NitroEnclave.signInEnclave nitroDeps .carries bootConfig attestationSeed env
      (cappedRequest 10)).isOk = true ∧
    (NitroEnclave.signInEnclave nitroDeps .carries bootConfig attestationSeed env
      (cappedRequest 4)).isOk = true ∧
    ¬ (bootConfig.mock attestationSeed).hybridCheck nitroDeps env (cappedRequest 4) = .ok () := by
  decide +kernel

end Sample

open Sample

/-- A transfer within its cap. -/
theorem nitroSign_refines_mock_within : (bootConfig.mock attestationSeed).hybridCheck nitroDeps env
      (cappedRequest 10) = .ok () := by
  obtain ⟨resp, hsign⟩ := exists_ok_of_isOk capped_samples.1
  have hdecode : Evm.decodeEvmTx nitroDeps.rlp rawTx = .ok tx := by
    decide +kernel
  refine (nitroSign_refines_mock_iff nitroDeps_working shares
      walletSeed.bytes (by decide +kernel) (by decide) walletId rawTx
      (some (.vmTransaction .evm 1 none rawTx)) (some ⟨walletId, some 10, [], []⟩)).2
      ⟨?_, ?_, ?_⟩ .carries _ _ _ _ resp rfl rfl rfl rfl hsign
  · rintro c ⟨⟩
    rfl
  · rintro c p ⟨⟩ ⟨⟩
    refine ⟨by simp, by simp, ?_⟩
    rintro chain toAddr raw ⟨⟩ cap ⟨⟩
    exact ⟨tx, hdecode, by decide⟩
  · rintro p ⟨⟩
    rfl

/-- The cap is 4: the boot binary signs the transfer of 5, the mock refuses it. -/
theorem nitroSign_drops_cap : ¬ ((NitroEnclave.signInEnclave nitroDeps .carries bootConfig
          attestationSeed env (cappedRequest 4)).isOk = true →
        (bootConfig.mock attestationSeed).hybridCheck nitroDeps env (cappedRequest 4) = .ok ()) :=
  fun h => capped_samples.2.2 (h capped_samples.2.1)

end Enclave

end QfcServerWallet
