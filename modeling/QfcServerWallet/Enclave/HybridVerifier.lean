import QfcServerWallet.Enclave.Signer
import QfcServerWallet.Policy.Evm
import QfcServerWallet.Policy.SignedDecision

/-!
# The enclave's hybrid verifier

`qfc-enclave/src/hybrid_verifier.rs`: before it signs, the enclave re-checks the policy service's
signed decision, the quorum approvals and the wallet's hard ceilings.

* `verify` runs the gates in the source's order and returns the first failure. Each gate is its
  own definition (`checkPayload`, `verifyEd25519`, `checkBinding`, `checkFresh`, `checkDecision`,
  `checkHardCeilings`), so that `verify_ok_iff` reads off what an accepted request satisfies.
* `Deps` are the functions the verifier takes from dependencies: cryptography, RLP, and the JSON
  printer of a payload value and of a decision.
* `usize`, `u8` and `i64` counters: the approval list is bounded by `maxApprovals`, the counter of
  valid approvals saturates at 255, ages are `i64::saturating_sub`.

Out of scope: `Debug` output and the accessors.
-/

namespace QfcServerWallet.Enclave

open Lib Policy

/-! ## Inputs -/

/-- The wallet's hard ceilings, as the host projects them from the wallet record. -/
structure WalletCeilings where
  walletId : WalletId
  maxValuePerTx : Option (BitVec 128)
  contractAllowlist : List Evm.Address
  chainAllowlist : List UInt64
  deriving DecidableEq

namespace WalletCeilings

/-- `Default`, with the wallet id filled in. -/
def unconstrained (walletId : WalletId) : WalletCeilings := ⟨walletId, none, [], []⟩

end WalletCeilings

/-- `MAX_DECISION_AGE_SECS` -/
def maxDecisionAgeSecs : UInt32 := 24 * 60 * 60

/-- `MAX_APPROVALS` -/
def maxApprovals : Nat := 64

/-- `MAX_APPROVAL_AGE_SECS_VERIFIER` -/
def maxApprovalAgeSecsVerifier : Int64 := 3600

/-- What an approver decided. -/
inductive EnclaveApprovalDecision where
  | approve
  | reject
  deriving DecidableEq, Repr

/-- An approval as the enclave gets it. -/
structure EnclaveApproval where
  approvalId : ApprovalId
  approverPublicKey : Bytes
  approverScheme : SigningScheme
  requestId : RequestId
  messageHash : FixedBytes 32
  decision : EnclaveApprovalDecision
  timestampUnixMs : Int64
  signature : Bytes
  deriving DecidableEq

/-- Why a request is refused. -/
inductive HybridVerifyError where
  | missingPolicyDecision
  | invalidPolicyServiceSignature
  | policyDecisionRawPayloadMismatch
  | requestIdMismatch (expected got : RequestId)
  | walletIdMismatch (expected got : WalletId)
  | decisionStale (ageSecs maxAgeSecs : UInt32)
  | decisionFromTheFuture (signedAtMs : Int64)
  | policyDeny
  | valueCapExceeded (payload : String) (cap : BitVec 128)
  | targetNotAllowed (targetHex : String)
  | chainNotAllowed (chainId : UInt64)
  | notEnoughApprovals (provided threshold : UInt8)
  | invalidApproval (what : String)
  | tooManyApprovals (count limit : Nat)
  | approvalSignerError (what : String)
  deriving DecidableEq

/-- What the verifier takes from its dependencies. -/
structure Deps where
  crypto : Crypto
  rlp : Rlp.Decoder
  /-- `serde_json::to_vec` of a typed-data value -/
  jsonValue : Json → Option Bytes
  /-- `serde_json::to_vec` of a policy decision -/
  jsonDecision : PolicyDecision → Option Bytes

/-- The verifier: the pinned policy-service key, and whether a missing decision is fatal. -/
structure HybridVerifier where
  policyServicePubkey : Bytes
  requireSignedDecision : Bool

section Verify

variable (d : Deps)

/-- The bytes the payload stands for. -/
abbrev Deps.canonicalMessage (d : Deps) (p : SigningPayload) : Bytes :=
  canonicalSigningMessage d.jsonValue p

/-! ## The signed decision -/

/-- The raw payload is the canonical preimage and carries the domain. -/
def checkPayload (s : SignedPolicyDecision) : Except HybridVerifyError Unit :=
  if s.preimage d.jsonDecision ≠ s.rawPayload then .error .policyDecisionRawPayloadMismatch
  else if ¬ (utf8 policyDecisionDomain).isPrefixOf s.rawPayload then
    .error .policyDecisionRawPayloadMismatch
  else .ok ()

/-- The policy service signed the message. -/
def verifyEd25519 (publicKey message signature : Bytes) : Except HybridVerifyError Unit :=
  match FixedBytes.ofBytes? 32 publicKey with
  | none => .error .invalidPolicyServiceSignature
  | some vk =>
    if (d.crypto.ed25519KeyError vk).isSome then .error .invalidPolicyServiceSignature
    else match FixedBytes.ofBytes? 64 signature with
      | none => .error .invalidPolicyServiceSignature
      | some sig =>
        if d.crypto.ed25519Verify vk message sig then .ok ()
        else .error .invalidPolicyServiceSignature

/-- The decision is for this request and this wallet. -/
def checkBinding (s : SignedPolicyDecision) (request : SigningRequest) (wallet : WalletCeilings) :
    Except HybridVerifyError Unit :=
  if s.requestId ≠ request.requestId then
    .error (.requestIdMismatch request.requestId s.requestId)
  else if s.walletId ≠ wallet.walletId then
    .error (.walletIdMismatch wallet.walletId s.walletId)
  else .ok ()

/-- `u32::try_from(age_ms / 1000).unwrap_or(u32::MAX)` -/
def ageSecs (ageMs : Int64) : UInt32 :=
  let secs := (ageMs / 1000).toInt
  if 0 ≤ secs ∧ secs < 2 ^ 32 then UInt32.ofNat secs.toNat else 0xffffffff

/-- `max_age_secs.min(MAX_DECISION_AGE_SECS)` -/
def effectiveMax (s : SignedPolicyDecision) : UInt32 :=
  if s.maxAgeSecs ≤ maxDecisionAgeSecs then s.maxAgeSecs else maxDecisionAgeSecs

/-- The decision is neither from the future nor older than it may be. -/
def checkFresh (s : SignedPolicyDecision) (now : Int64) : Except HybridVerifyError Unit :=
  let ageMs := satSub now s.signedAtUnixMs
  if ageMs < 0 then .error (.decisionFromTheFuture s.signedAtUnixMs)
  else if effectiveMax s < ageSecs ageMs then
    .error (.decisionStale (ageSecs ageMs) (effectiveMax s))
  else .ok ()

/-! ## Approvals -/

/-- `approval_preimage` -/
def approvalPreimage (ap : EnclaveApproval) : Bytes :=
  ap.approvalId.textBytes ++ 124 :: ap.requestId.textBytes ++ 124 :: ap.messageHash.bytes
    ++ 124 :: (match ap.decision with | .approve => 0x01 | .reject => 0x00)
      :: 124 :: int64Be ap.timestampUnixMs

/-- `approval_hash_alg` -/
def approvalHashAlg : SigningScheme → HashAlg
  | .ed25519 | .mlDsa44 | .mlDsa65 | .mlDsa87 => .none
  | .secp256k1 | .secp256k1Recoverable => .sha256

/-- The approver's signature over the approval's own fields. -/
def verifyApprovalSignature (ap : EnclaveApproval) : Except SignerError Unit :=
  verify d.crypto ap.approverScheme ap.approverPublicKey (approvalPreimage ap) ap.signature
    (approvalHashAlg ap.approverScheme)

/-- The checks on one approval. -/
def checkApproval (requestId : RequestId) (expectedHash : FixedBytes 32) (now : Int64)
    (ap : EnclaveApproval) : Except HybridVerifyError Unit :=
  if ap.requestId ≠ requestId then .error (.invalidApproval "wrong request_id")
  else if ap.messageHash ≠ expectedHash then .error (.invalidApproval "wrong message_hash")
  else
    let ageMs := satSub now ap.timestampUnixMs
    if ageMs < 0 then .error (.invalidApproval "approval timestamp is in the future")
    else if maxApprovalAgeSecsVerifier < ageMs / 1000 then
      .error (.invalidApproval "approval is stale")
    else if ap.decision = .reject then .error (.invalidApproval "approver rejected")
    else match verifyApprovalSignature d ap with
      | .ok () => .ok ()
      | .error e => .error (.approvalSignerError e.toString)

/-- `u8::saturating_add(1)` -/
def satSucc (n : UInt8) : UInt8 := if n = 255 then 255 else n + 1

/-- The number of approvals, once every one of them has passed. -/
def countValid (requestId : RequestId) (expectedHash : FixedBytes 32) (now : Int64) :
    UInt8 → List EnclaveApproval → Except HybridVerifyError UInt8
  | valid, [] => .ok valid
  | valid, ap :: rest => do
    checkApproval d requestId expectedHash now ap
    countValid requestId expectedHash now (satSucc valid) rest

/-- Whether enough of the approvals are valid. -/
def checkApprovals (approvals : List EnclaveApproval) (request : SigningRequest)
    (threshold : UInt8) (now : Int64) : Except HybridVerifyError Unit := do
  let expectedHash := d.crypto.sha256 (d.canonicalMessage request.payload)
  let valid ← countValid d request.requestId expectedHash now 0 approvals
  if valid < threshold then .error (.notEnoughApprovals valid threshold) else .ok ()

/-- A deny is refused; a quorum decision needs its approvals. -/
def checkDecision (s : SignedPolicyDecision) (approvals : List EnclaveApproval)
    (request : SigningRequest) (now : Int64) : Except HybridVerifyError Unit :=
  match s.decision with
  | .deny .. => .error .policyDeny
  | .requireQuorum _ _ threshold _ _ _ => checkApprovals d approvals request threshold now
  | .allow .. => .ok ()

/-! ## Hard ceilings -/

/-- The declared chain is on a non-empty chain list. -/
def checkChain (payload : SigningPayload) (wallet : WalletCeilings) :
    Except HybridVerifyError Unit :=
  match payload.chainId with
  | some chainId =>
    if wallet.chainAllowlist ≠ [] ∧ chainId ∉ wallet.chainAllowlist then
      .error (.chainNotAllowed chainId)
    else .ok ()
  | none => .ok ()

/-- The declared recipient of an EVM transaction is on a non-empty contract list. -/
def checkTarget (payload : SigningPayload) (wallet : WalletCeilings) :
    Except HybridVerifyError Unit :=
  match payload with
  | .vmTransaction .evm _ (some toBytes) _ =>
    if wallet.contractAllowlist = [] then .ok ()
    else match FixedBytes.ofBytes? 20 toBytes with
      | none => .error (.targetNotAllowed (hexEncode toBytes))
      | some toArr =>
        if toArr ∈ wallet.contractAllowlist then .ok ()
        else .error (.targetNotAllowed (hexEncode toBytes))
  | _ => .ok ()

/-- The value decoded from an EVM transaction is within the cap. -/
def checkValue (payload : SigningPayload) (wallet : WalletCeilings) :
    Except HybridVerifyError Unit :=
  match wallet.maxValuePerTx, payload with
  | some cap, .vmTransaction .evm _ _ raw =>
    match Evm.decodeEvmTx d.rlp raw with
    | .error _ => .error (.invalidApproval "could not decode EVM tx for ceiling check")
    | .ok decoded =>
      if cap.toNat < decoded.value.toNat then
        .error (.valueCapExceeded decoded.value.toNat.repr cap)
      else .ok ()
  | _, _ => .ok ()

/-- The ceilings of the wallet. -/
def checkHardCeilings (request : SigningRequest) (wallet : WalletCeilings) :
    Except HybridVerifyError Unit := do
  checkChain request.payload wallet
  checkTarget request.payload wallet
  checkValue d request.payload wallet

/-! ## The whole verifier -/

/-- The gates a presented decision passes through. -/
def verifySigned (V : HybridVerifier) (s : SignedPolicyDecision)
    (approvals : List EnclaveApproval) (request : SigningRequest) (wallet : WalletCeilings)
    (now : Int64) : Except HybridVerifyError Unit := do
  checkPayload d s
  verifyEd25519 d V.policyServicePubkey s.rawPayload s.policyServiceSignature
  checkBinding s request wallet
  checkFresh s now
  checkDecision d s approvals request now
  checkHardCeilings d request wallet

/-- `HybridVerifier::verify` -/
def HybridVerifier.verify (V : HybridVerifier) (signedDecision : Option SignedPolicyDecision)
    (approvals : List EnclaveApproval) (request : SigningRequest) (wallet : WalletCeilings)
    (now : Int64) : Except HybridVerifyError Unit :=
  if maxApprovals < approvals.length then
    .error (.tooManyApprovals approvals.length maxApprovals)
  else match signedDecision, V.requireSignedDecision with
    | some s, _ => verifySigned d V s approvals request wallet now
    | none, true => .error .missingPolicyDecision
    | none, false => checkHardCeilings d request wallet

end Verify

/-! ## What each gate accepts -/

section Gates

variable {d : Deps} {V : HybridVerifier} {s : SignedPolicyDecision}
variable {approvals : List EnclaveApproval} {request : SigningRequest} {wallet : WalletCeilings}
variable {now : Int64} {signed : Option SignedPolicyDecision}

theorem checkPayload_ok_iff :
    checkPayload d s = .ok () ↔ s.rawPayload = s.preimage d.jsonDecision := by
  unfold checkPayload
  split
  · next h => simpa using fun e => h e.symm
  · next h =>
    have hraw : s.rawPayload = s.preimage d.jsonDecision := (not_not.1 h).symm
    -- the canonical preimage starts with the domain, so the second test always passes
    have hdom : (utf8 policyDecisionDomain).isPrefixOf s.rawPayload = true := by
      rw [hraw, SignedPolicyDecision.preimage, DecisionTuple.preimage, buildPreimage,
        List.isPrefixOf_iff_prefix]
      simp only [List.append_assoc]
      exact List.prefix_append _ _
    rw [if_neg (not_not.2 hdom)]
    simp [hraw]

theorem verifyEd25519_ok_iff {pk msg sig : Bytes} :
    verifyEd25519 d pk msg sig = .ok () ↔
      ∃ (vk : FixedBytes 32) (sg : FixedBytes 64), vk.bytes = pk ∧ sg.bytes = sig ∧
        d.crypto.ed25519KeyError vk = none ∧ d.crypto.ed25519Verify vk msg sg = true := by
  unfold verifyEd25519
  constructor
  · intro h
    split at h
    · cases h
    next vk hvk =>
    split_ifs at h with hkey
    split at h
    · cases h
    next sg hsg =>
    split_ifs at h with hv
    exact ⟨vk, sg, FixedBytes.ofBytes?_eq_some.1 hvk, FixedBytes.ofBytes?_eq_some.1 hsg,
      by simpa using hkey, hv⟩
  · rintro ⟨vk, sg, rfl, rfl, hkey, hv⟩
    simp [hkey, hv]

theorem checkBinding_ok_iff :
    checkBinding s request wallet = .ok () ↔
      s.requestId = request.requestId ∧ s.walletId = wallet.walletId := by
  unfold checkBinding
  split
  · next h => simp [h]
  · next h =>
    split
    · next h' => simp [h']
    · next h' => simp [not_not.1 h, not_not.1 h']

theorem toInt_div_1000 {t : Int64} (h : 0 ≤ t.toInt) : (t / 1000).toInt = t.toInt / 1000 := by
  have hhi := t.toInt_lt
  rw [Int64.toInt_div, show (1000 : Int64).toInt = 1000 from rfl, Int.tdiv_eq_ediv_of_nonneg h,
    Int.bmod_eq_of_le] <;> omega

theorem toNat_ageSecs {t : Int64} (h : 0 ≤ t.toInt) :
    ((ageSecs t).toNat : Int) = min (t.toInt / 1000) (2 ^ 32 - 1) := by
  unfold ageSecs
  simp only [toInt_div_1000 h]
  split
  · next hs =>
    rw [UInt32.toNat_ofNat', Nat.mod_eq_of_lt (by omega)]
    omega
  · next hs =>
    rw [show (0xffffffff : UInt32).toNat = 2 ^ 32 - 1 from rfl]
    omega

theorem toNat_effectiveMax :
    (effectiveMax s).toNat = min s.maxAgeSecs.toNat maxDecisionAgeSecs.toNat := by
  unfold effectiveMax
  split
  · next h => exact (Nat.min_eq_left (UInt32.le_iff_toNat_le.1 h)).symm
  · next h =>
    have := UInt32.le_iff_toNat_le.not.1 h
    omega

theorem checkFresh_ok_iff :
    checkFresh s now = .ok () ↔
      0 ≤ now.toInt - s.signedAtUnixMs.toInt ∧
      (now.toInt - s.signedAtUnixMs.toInt) / 1000
        ≤ min s.maxAgeSecs.toNat maxDecisionAgeSecs.toNat := by
  have hmax := toNat_effectiveMax (s := s)
  have hday : maxDecisionAgeSecs.toNat = 86400 := rfl
  have hage := toInt_satSub now s.signedAtUnixMs
  unfold checkFresh
  simp only [satSub_lt_zero_iff, UInt32.lt_iff_toNat_lt]
  split
  · next h =>
    simp only [reduceCtorEq, false_iff, not_and]
    omega
  · next h =>
    have hsecs := toNat_ageSecs (t := satSub now s.signedAtUnixMs) (by omega)
    split
    · next hlt =>
      simp only [reduceCtorEq, false_iff, not_and]
      omega
    · next hlt =>
      simp only [true_iff]
      omega

theorem verifySigned_ok_iff :
    verifySigned d V s approvals request wallet now = .ok () ↔
      checkPayload d s = .ok () ∧
      verifyEd25519 d V.policyServicePubkey s.rawPayload s.policyServiceSignature = .ok () ∧
      checkBinding s request wallet = .ok () ∧ checkFresh s now = .ok () ∧
      checkDecision d s approvals request now = .ok () ∧
      checkHardCeilings d request wallet = .ok () := by
  simp only [verifySigned, seq_eq_ok]

theorem verify_some_ok_iff :
    V.verify d (some s) approvals request wallet now = .ok () ↔
      approvals.length ≤ maxApprovals ∧
        verifySigned d V s approvals request wallet now = .ok () := by
  unfold HybridVerifier.verify
  split
  · next h => simp [h]
  · next h => simp [Nat.not_lt.1 h]

theorem presented_of_verify (hrequired : V.requireSignedDecision = true)
    (h : V.verify d signed approvals request wallet now = .ok ()) : ∃ s, signed = some s := by
  cases signed with
  | some s => exact ⟨s, rfl⟩
  | none =>
    unfold HybridVerifier.verify at h
    split at h
    · cases h
    · simp [hrequired] at h

theorem not_isDeny_of_checkDecision (h : checkDecision d s approvals request now = .ok ()) :
    s.decision.isDeny = false := by
  unfold checkDecision at h
  split at h
  · cases h
  · next hd => rw [hd]; rfl
  · next hd => rw [hd]; rfl

theorem checkHardCeilings_of_verify (h : V.verify d signed approvals request wallet now = .ok ()) :
    checkHardCeilings d request wallet = .ok () := by
  cases signed with
  | some s => exact (verifySigned_ok_iff.1 (verify_some_ok_iff.1 h).2).2.2.2.2.2
  | none =>
    unfold HybridVerifier.verify at h
    split at h
    · cases h
    · cases hr : V.requireSignedDecision with
      | true => simp [hr] at h
      | false => simpa [hr] using h

/-! ### Approvals -/

theorem checkApproval_ok_iff {rid : RequestId} {hash : FixedBytes 32} {ap : EnclaveApproval} :
    checkApproval d rid hash now ap = .ok () ↔
      ap.requestId = rid ∧ ap.messageHash = hash ∧
      0 ≤ now.toInt - ap.timestampUnixMs.toInt ∧
      (now.toInt - ap.timestampUnixMs.toInt) / 1000 ≤ 3600 ∧
      ap.decision = .approve ∧ verifyApprovalSignature d ap = .ok () := by
  have hage := toInt_satSub now ap.timestampUnixMs
  have hlimit : maxApprovalAgeSecsVerifier.toInt = 3600 := rfl
  have hzero : (0 : Int64).toInt = 0 := rfl
  unfold checkApproval
  simp only [Int64.lt_iff_toInt_lt]
  split
  · next h => simp [h]
  split
  · next h => simp [h]
  split
  · next h =>
    simp only [reduceCtorEq, false_iff]
    omega
  next hrid hhash hpast =>
  have hdiv := toInt_div_1000 (t := satSub now ap.timestampUnixMs) (by omega)
  split
  · next h =>
    simp only [reduceCtorEq, false_iff]
    omega
  split
  · next h => simp [h]
  next hfresh happrove =>
  have hdec : ap.decision = .approve := by
    cases hd : ap.decision with
    | approve => rfl
    | reject => exact absurd hd happrove
  simp only [not_not.1 hrid, not_not.1 hhash, hdec, true_and]
  split
  · next hv =>
    simp only [hv, and_true, true_iff]
    omega
  · next e hv => simp [hv]

theorem toNat_satSucc (n : UInt8) : (satSucc n).toNat = min 255 (n.toNat + 1) := by
  have hn := n.toNat_lt
  unfold satSucc
  split
  · next h => subst h; rfl
  · next h =>
    have hne : n.toNat ≠ 255 := fun e => h (UInt8.toNat_inj.1 e)
    rw [UInt8.toNat_add, show (1 : UInt8).toNat = 1 from rfl, Nat.mod_eq_of_lt (by omega)]
    omega

theorem countValid_ok_iff {rid : RequestId} {hash : FixedBytes 32} {v n : UInt8} :
    countValid d rid hash now v approvals = .ok n ↔
      (∀ ap ∈ approvals, checkApproval d rid hash now ap = .ok ()) ∧
        n.toNat = min 255 (v.toNat + approvals.length) := by
  induction approvals generalizing v with
  | nil =>
    have hv := v.toNat_lt
    simp only [countValid, Except.ok.injEq, ← UInt8.toNat_inj, List.length_nil, List.not_mem_nil,
      false_imp_iff, implies_true, true_and]
    omega
  | cons ap rest ih =>
    simp only [countValid, seq_eq_ok, ih, toNat_satSucc, List.forall_mem_cons, List.length_cons,
      and_assoc]
    have hmin : min 255 (min 255 (v.toNat + 1) + rest.length)
        = min 255 (v.toNat + (rest.length + 1)) := by omega
    rw [hmin]

theorem checkApprovals_ok_iff {threshold : UInt8} :
    checkApprovals d approvals request threshold now = .ok () ↔
      (∀ ap ∈ approvals, checkApproval d request.requestId
        (d.crypto.sha256 (d.canonicalMessage request.payload)) now ap = .ok ()) ∧
      threshold.toNat ≤ approvals.length := by
  have ht := threshold.toNat_lt
  simp only [checkApprovals, bind_eq_ok, countValid_ok_iff, UInt8.lt_iff_toNat_lt]
  constructor
  · rintro ⟨n, ⟨hall, hn⟩, h⟩
    split_ifs at h with hlt
    refine ⟨hall, ?_⟩
    simp only [UInt8.reduceToNat] at hn
    omega
  · rintro ⟨hall, hle⟩
    refine ⟨UInt8.ofNat (min 255 approvals.length), ⟨hall, ?_⟩, ?_⟩
    · simp only [UInt8.toNat_ofNat', UInt8.reduceToNat]
      omega
    · rw [if_neg]
      simp only [UInt8.toNat_ofNat']
      omega

end Gates

end QfcServerWallet.Enclave
