import QfcServerWallet.Lib.Chain
import QfcServerWallet.Lib.Crypto
import QfcServerWallet.Types

/-!
# Audit events

`qfc-audit/src/event.rs`, `sink.rs` and the signature check of `file.rs` (`verify_event`).

* An event is signed over its `signingPreimage`. The hash the next event links to covers the
  preimage and the signature.
* `serde_json::to_writer` is the parameter `toWriter`: the bytes it leaves in the buffer.

Results: `verifyEvent_stamp` and `signingPreimage_inj`.
-/

namespace QfcServerWallet.Audit

open Lib

/-- Who produced the event. -/
inductive Actor where
  | requester (id : String)
  | approver (id : String)
  | system
  | enclave
  deriving DecidableEq

/-- The kinds of events. -/
inductive AuditKind where
  | walletCreated
  | walletRevoked
  | signingRequested
  | signingEvaluated
  | quorumNotified
  | quorumApprovalReceived
  | quorumApprovalRejected
  | quorumTimedOut
  | quorumThresholdReached
  | policyDecisionSigned
  | signingAttempted
  | signingSucceeded
  | signingFailed
  | policyChanged
  | approverSetChanged
  | systemError
  | enclaveAttested
  deriving DecidableEq, Repr

/-- The tag of a kind in the preimage and in the database. -/
def kindByte : AuditKind → UInt8
  | .walletCreated => 1
  | .walletRevoked => 2
  | .signingRequested => 3
  | .signingEvaluated => 4
  | .quorumNotified => 5
  | .quorumApprovalReceived => 6
  | .quorumApprovalRejected => 7
  | .quorumTimedOut => 8
  | .signingAttempted => 9
  | .signingSucceeded => 10
  | .signingFailed => 11
  | .policyChanged => 12
  | .approverSetChanged => 13
  | .systemError => 14
  | .enclaveAttested => 15
  | .quorumThresholdReached => 16
  | .policyDecisionSigned => 17

/-- An event as it is logged. -/
structure AuditEvent where
  eventId : EventId
  prevEventHash : FixedBytes 32
  timestampUnixMs : Int64
  actor : Actor
  kind : AuditKind
  requestId : Option RequestId
  walletId : Option WalletId
  details : Json
  serverSignature : Bytes

/-- What the caller of a sink supplies. -/
structure AuditEventDraft where
  actor : Actor
  kind : AuditKind
  requestId : Option RequestId
  walletId : Option WalletId
  details : Json

/-- One call of `emit` with the id and the time it draws. -/
structure Emit where
  draft : AuditEventDraft
  eventId : EventId
  timestampUnixMs : Int64

/-- The errors of a sink. -/
inductive AuditError where
  | io (what : String)
  | serde (what : String)
  | crypto (what : String)
  deriving DecidableEq

section

variable (toWriter : Json → Bytes)

/-- The bytes a server signature covers. -/
def signingPreimage (prevEventHash : FixedBytes 32) (eventId : EventId) (kind : AuditKind)
    (details : Json) : Bytes :=
  prevEventHash.bytes ++ eventId.textBytes ++ [124, kindByte kind, 124] ++ toWriter details

/-- The bytes an event is signed over. -/
def AuditEvent.preimage (e : AuditEvent) : Bytes :=
  signingPreimage toWriter e.prevEventHash e.eventId e.kind e.details

variable (c : Crypto)

/-- The hash the next event links to. -/
def AuditEvent.hash (e : AuditEvent) : FixedBytes 32 :=
  c.sha256 (e.preimage toWriter ++ e.serverSignature)

/-- The event a sink makes of a draft, with the id and the time it draws. -/
def stamp (serverKey : FixedBytes 32) (prevEventHash : FixedBytes 32) (eventId : EventId)
    (timestampUnixMs : Int64) (draft : AuditEventDraft) : AuditEvent where
  eventId := eventId
  prevEventHash := prevEventHash
  timestampUnixMs := timestampUnixMs
  actor := draft.actor
  kind := draft.kind
  requestId := draft.requestId
  walletId := draft.walletId
  details := draft.details
  serverSignature := (c.ed25519Sign serverKey
    (signingPreimage toWriter prevEventHash eventId draft.kind draft.details)).bytes

/-- Check the signature of one event. -/
def verifyEvent (event : AuditEvent) (verifyingKey : Bytes) : Except AuditError Bool :=
  match FixedBytes.ofBytes? 32 verifyingKey with
  | none => .error (.crypto "verifying key must be 32 bytes")
  | some pk =>
    match c.ed25519KeyError pk with
    | some _ => .error (.crypto "malformed ed25519 pubkey")
    | none =>
      match FixedBytes.ofBytes? 64 event.serverSignature with
      | none => .error (.crypto "signature must be 64 bytes")
      | some sig => .ok (c.ed25519Verify pk (event.preimage toWriter) sig)

end

variable {toWriter : Json → Bytes} {c : Crypto}

theorem kindByte_inj {k k' : AuditKind} (h : kindByte k = kindByte k') : k = k' := by
  revert h
  cases k <;> cases k' <;> decide

/-- A preimage determines what it covers. -/
theorem signingPreimage_inj {p p' : FixedBytes 32} {i i' : EventId} {k k' : AuditKind}
    {j j' : Json} (h : signingPreimage toWriter p i k j = signingPreimage toWriter p' i' k' j') :
    p = p' ∧ i = i' ∧ k = k' ∧ toWriter j = toWriter j' := by
  simp only [signingPreimage, List.append_assoc] at h
  obtain ⟨hp, h⟩ := List.append_inj h (by rw [p.length_bytes, p'.length_bytes])
  obtain ⟨hi, h⟩ := List.append_inj h (by simp)
  obtain ⟨hk, hj⟩ := List.append_inj h rfl
  exact ⟨FixedBytes.ext hp, Ident.textBytes_inj hi, kindByte_inj (by simpa using hk), hj⟩

theorem length_of_verifyEvent {e : AuditEvent} {key : Bytes} {b : Bool}
    (h : verifyEvent toWriter c e key = .ok b) : e.serverSignature.length = 64 := by
  unfold verifyEvent at h
  split at h
  · cases h
  · split at h
    · cases h
    · split at h
      · cases h
      · next sig hsig =>
        rw [← FixedBytes.ofBytes?_eq_some.1 hsig, sig.length_bytes]

/-- **A stamped event verifies under its server's key.** -/
theorem verifyEvent_stamp (hc : c.Ed25519Correct) (serverKey prevEventHash : FixedBytes 32)
    (eventId : EventId) (timestampUnixMs : Int64) (draft : AuditEventDraft) :
    verifyEvent toWriter c (stamp toWriter c serverKey prevEventHash eventId timestampUnixMs draft)
      (c.ed25519PublicKey serverKey).bytes = .ok true := by
  simp only [verifyEvent, FixedBytes.ofBytes?_bytes, hc.key_ok, stamp]
  exact congrArg Except.ok (hc.verify_sign _ _)

end QfcServerWallet.Audit
