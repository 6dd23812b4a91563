import QfcServerWallet.Quorum.Approval
import QfcServerWallet.Enclave.HybridVerifier

/-!
# An approval on both sides

The orchestrator verifies an approval when it is submitted and when it is collected
(`SignedApproval::verify`); the enclave verifies it again (`check_approvals`). `qfc-enclave` cannot
depend on `qfc-quorum` or on the service, and has its own copy of the preimage, of the choice of the
hash, of the age limit and of the message of a payload.

* `SignedApproval.toEnclave` is the approval as the enclave sees it. `enclave.rs` says that it
  mirrors `SignedApproval` field for field, with the key and the scheme in place of the identity.
  The conversion it announces is not in the repository yet.
* `canonicalMessageBytes` is the service's copy of `canonicalSigningMessage`.

Results: `checkApprovals_toEnclave_iff` and **`enclave_accepts_iff`**.
-/

namespace QfcServerWallet.Quorum

open Lib Enclave Policy

/-- `canonical_message_bytes` of `service.rs` -/
def canonicalMessageBytes (toVec : Json → Option Bytes) : SigningPayload → Bytes
  | .raw bytes | .personalSign bytes => bytes
  | .typedData json => (toVec json).getD []
  | .vmTransaction _ _ _ raw => raw

/-- The decision in the types of the enclave. -/
def ApprovalDecision.toEnclave : ApprovalDecision → EnclaveApprovalDecision
  | approve => .approve
  | reject => .reject

/-- The approval in the form that is handed to the enclave. -/
def SignedApproval.toEnclave (a : SignedApproval) : EnclaveApproval where
  approvalId := a.approvalId
  approverPublicKey := a.approver.publicKey
  approverScheme := a.approver.scheme
  requestId := a.requestId
  messageHash := a.messageHash
  decision := a.decision.toEnclave
  timestampUnixMs := a.timestampUnixMs
  signature := a.signature

theorem ApprovalDecision.toEnclave_eq_reject {decision : ApprovalDecision} :
    decision.toEnclave = .reject ↔ decision ≠ .approve := by
  cases decision <;> decide

/-! ## The copies -/

theorem canonicalMessageBytes_eq (toVec : Json → Option Bytes) (payload : SigningPayload) :
    canonicalMessageBytes toVec payload = canonicalSigningMessage toVec payload := by
  cases payload <;> rfl

theorem approvalPreimage_toEnclave (a : SignedApproval) :
    approvalPreimage a.toEnclave = a.preimage := by
  unfold approvalPreimage SignedApproval.preimage signingPreimage SignedApproval.toEnclave
  cases a.decision <;> rfl

theorem approvalHashAlg_eq (scheme : SigningScheme) :
    approvalHashAlg scheme = hashAlgFor scheme := by
  cases scheme <;> rfl

theorem maxApprovalAgeSecs_eq : maxApprovalAgeSecsVerifier = maxApprovalAgeSecs := rfl

variable (d : Deps)

theorem verifyApprovalSignature_toEnclave (a : SignedApproval) :
    verifyApprovalSignature d a.toEnclave = a.verifySignature d.crypto := by
  unfold verifyApprovalSignature
  rw [approvalPreimage_toEnclave, approvalHashAlg_eq]
  rfl

/-! ## The checks -/

theorem checkApproval_toEnclave_iff {a : SignedApproval} {requestId : RequestId}
    {messageHash : FixedBytes 32} {now : Int64} :
    checkApproval d requestId messageHash now a.toEnclave = .ok () ↔
      a.decision = .approve ∧ a.verify d.crypto requestId messageHash now = .ok () := by
  rw [verify_ok_iff]
  unfold checkApproval
  rw [verifyApprovalSignature_toEnclave]
  simp only [SignedApproval.toEnclave, ApprovalDecision.toEnclave_eq_reject,
    maxApprovalAgeSecs_eq]
  -- the checks come in the same order, the decision before the signature
  split
  · next hrequest => simp [hrequest]
  split
  · next hmessage => simp [hmessage]
  split
  · next hfuture => simp [hfuture]
  split
  · next hstale => simp [hstale]
  split
  · next hreject => simp [hreject]
  next hrequest hmessage hfuture hstale happrove =>
  rw [not_not] at hrequest hmessage happrove
  cases a.verifySignature d.crypto with
  | ok => simp [hrequest, hmessage, hfuture, hstale, happrove]
  | error e => simp

/-- What the enclave accepts, said of the approvals. -/
theorem checkApprovals_toEnclave_iff {approvals : List SignedApproval} {request : SigningRequest}
    {threshold : UInt8} {now : Int64} :
    checkApprovals d (approvals.map SignedApproval.toEnclave) request threshold now = .ok () ↔
      (∀ a ∈ approvals, a.decision = .approve ∧
        a.verify d.crypto request.requestId
          (d.crypto.sha256 (canonicalMessageBytes d.jsonValue request.payload)) now = .ok ()) ∧
      threshold.toNat ≤ approvals.length := by
  rw [checkApprovals_ok_iff, List.forall_mem_map, List.length_map]
  simp only [checkApproval_toEnclave_iff, canonicalMessageBytes_eq]

/-- **The enclave accepts an approval alone iff it approves and the orchestrator verifies it.** -/
theorem enclave_accepts_iff (a : SignedApproval) (request : SigningRequest) (now : Int64) :
    checkApprovals d [a.toEnclave] request 1 now = .ok () ↔
      a.decision = .approve ∧
      a.verify d.crypto request.requestId
        (d.crypto.sha256 (canonicalMessageBytes d.jsonValue request.payload)) now = .ok () := by
  have hlist := @checkApprovals_toEnclave_iff d [a] request 1 now
  rwa [List.map_singleton, List.forall_mem_singleton, and_iff_left] at hlist
  exact le_rfl

end QfcServerWallet.Quorum
