import QfcServerWallet.Enclave.Signer

/-!
# Signed approvals

`qfc-quorum`: `identity.rs`, `approval.rs` and the errors of `approver.rs`.

* An approval is signed over a preimage of its own id, the request id, the message hash, the
  decision and the time. The approver's identity, and with it the public key, is *not* part of the
  preimage: it says which key the signature is checked against.
* `SignedApproval.verify` takes the request id and the message hash to expect from its caller.
* A `std::time::Duration` is its number of nanoseconds.

Results: `verify_ok_iff`, what an accepted approval satisfies.
-/

namespace QfcServerWallet.Quorum

open Lib Enclave

/-! ## Identities -/

/-- An approver that is a device. -/
structure HardwareApproverHandle where
  handle : String
  publicKey : Bytes
  scheme : SigningScheme
  deriving DecidableEq

/-- Who approves. -/
inductive ApproverIdentity where
  | chain (chainId : UInt64) (address publicKey : Bytes) (scheme : SigningScheme)
  | external (id : String) (publicKey : Bytes) (scheme : SigningScheme)
  | hardware (handle : HardwareApproverHandle)
  | nestedWallet (walletId : WalletId) (publicKey : Bytes) (scheme : SigningScheme)
  deriving DecidableEq

namespace ApproverIdentity

/-- The key of the approver. -/
def publicKey : ApproverIdentity → Bytes
  | chain _ _ publicKey _ | external _ publicKey _ | nestedWallet _ publicKey _ => publicKey
  | hardware h => h.publicKey

/-- The scheme of the key. -/
def scheme : ApproverIdentity → SigningScheme
  | chain _ _ _ scheme | external _ _ scheme | nestedWallet _ _ scheme => scheme
  | hardware h => h.scheme

/-- Stable text identifier. -/
def key : ApproverIdentity → String
  | chain chainId address _ _ => "chain:" ++ chainId.toNat.repr ++ ":" ++ hexEncode address
  | external id _ _ => "external:" ++ id
  | hardware h => "hardware:" ++ h.handle
  | nestedWallet walletId _ _ => "nested:" ++ walletId.toString

end ApproverIdentity

/-! ## Approvals -/

/-- `MAX_APPROVAL_AGE_SECS` -/
def maxApprovalAgeSecs : Int64 := 3600

/-- What an approver decides. -/
inductive ApprovalDecision where
  | approve
  | reject
  deriving DecidableEq

/-- A decision with its signature. -/
structure SignedApproval where
  approvalId : ApprovalId
  approver : ApproverIdentity
  requestId : RequestId
  messageHash : FixedBytes 32
  decision : ApprovalDecision
  timestampUnixMs : Int64
  signature : Bytes
  deriving DecidableEq

/-- `SignedApproval::signing_preimage` -/
def signingPreimage (approvalId : ApprovalId) (requestId : RequestId) (messageHash : FixedBytes 32)
    (decision : ApprovalDecision) (timestampUnixMs : Int64) : Bytes :=
  approvalId.textBytes ++ 124 :: requestId.textBytes ++ 124 :: messageHash.bytes
    ++ 124 :: (match decision with | .approve => 0x01 | .reject => 0x00)
    :: 124 :: int64Be timestampUnixMs

/-- What is signed. -/
def SignedApproval.preimage (a : SignedApproval) : Bytes :=
  signingPreimage a.approvalId a.requestId a.messageHash a.decision a.timestampUnixMs

/-- Why an approval is not accepted. -/
inductive ApprovalVerifyError where
  | wrongRequest
  | wrongMessage
  | stale
  | fromTheFuture
  | signer (e : SignerError)
  deriving DecidableEq

/-- `Display` -/
def ApprovalVerifyError.toString : ApprovalVerifyError → String
  | wrongRequest => "approval is for a different request_id"
  | wrongMessage => "approval is for a different message_hash"
  | stale => "approval is stale"
  | fromTheFuture => "approval timestamp is in the future"
  | signer e => "signer verification failed: " ++ e.toString

/-- The pre-hash an approver's client applies for a scheme. -/
def hashAlgFor : SigningScheme → HashAlg
  | .ed25519 | .mlDsa44 | .mlDsa65 | .mlDsa87 => .none
  | .secp256k1 | .secp256k1Recoverable => .sha256

/-- The signature check of `SignedApproval::verify`. -/
def SignedApproval.verifySignature (c : Crypto) (a : SignedApproval) : Except SignerError Unit :=
  Enclave.verify c a.approver.scheme a.approver.publicKey a.preimage a.signature
    (hashAlgFor a.approver.scheme)

/-- The check of an approval against a request and a clock. -/
def SignedApproval.verify (c : Crypto) (a : SignedApproval) (expectedRequestId : RequestId)
    (expectedMessageHash : FixedBytes 32) (nowUnixMs : Int64) : Except ApprovalVerifyError Unit :=
  if a.requestId ≠ expectedRequestId then .error .wrongRequest
  else if a.messageHash ≠ expectedMessageHash then .error .wrongMessage
  else
    let ageMs := satSub nowUnixMs a.timestampUnixMs
    if ageMs < 0 then .error .fromTheFuture
    else if maxApprovalAgeSecs < ageMs / 1000 then .error .stale
    else (a.verifySignature c).mapError .signer

/-- What an accepted approval satisfies. -/
theorem verify_ok_iff {c : Crypto} {a : SignedApproval} {requestId : RequestId}
    {messageHash : FixedBytes 32} {now : Int64} :
    a.verify c requestId messageHash now = .ok () ↔
      a.requestId = requestId ∧ a.messageHash = messageHash ∧
      ¬ satSub now a.timestampUnixMs < 0 ∧
      ¬ maxApprovalAgeSecs < satSub now a.timestampUnixMs / 1000 ∧
      a.verifySignature c = .ok () := by
  unfold SignedApproval.verify
  by_cases hreq : a.requestId = requestId
  · by_cases hhash : a.messageHash = messageHash
    · by_cases hfuture : satSub now a.timestampUnixMs < 0
      · simp [hreq, hhash, hfuture]
      · by_cases hstale : maxApprovalAgeSecs < satSub now a.timestampUnixMs / 1000
        · simp [hreq, hhash, hfuture, hstale]
        · simp [hreq, hhash, hfuture, hstale, mapError_eq_ok]
    · simp [hreq, hhash]
  · simp [hreq]

/-! ## Requests and errors of the quorum layer -/

/-- A pending signing request as it is shown to approvers. -/
structure ApprovalRequest where
  requestId : RequestId
  messageHash : FixedBytes 32
  approverSet : List ApproverIdentity
  threshold : UInt8
  deriving DecidableEq

/-- The errors of an approver. -/
inductive QuorumError where
  | transport (what : String)
  | timeout (nanos : Nat)
  | invalidApproval (e : ApprovalVerifyError)
  | unknownApprover (what : String)
  deriving DecidableEq

end QfcServerWallet.Quorum
