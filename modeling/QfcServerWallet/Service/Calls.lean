import QfcServerWallet.Service.Sign
import Mathlib.Data.List.Infix

/-!
# The calls of the service

The HTTP handler `submit_approval` (`api/handlers.rs`, with `SubmitApprovalRequest::into_signed`
and `ApproverIdentityDto::into_domain` of `api/schemas.rs`), and the calls a running service
receives: registrations, revocations, new approver sets, approvals and signing requests.

* The handler takes the message hash to expect from the body it is checking.
* `From<ServiceError> for ApiError` is the parameter `intoApiError`; the handler uses it only for
  errors that `record_approval` does not raise.
* A call may come with the approver that answers it. With `QuorumApprover.answering`, calls with
  arbitrary approvers are calls whose approver returns arbitrary results.

Results: `trace_storeLog`, `after_onStore` and `signs_eq_some`.
-/

namespace QfcServerWallet.Service

open Lib Audit Enclave Policy Quorum Sss

variable {S : ApprovalStore}

/-! ## The handler -/

/-- The errors of the HTTP layer. -/
inductive ApiError where
  | badRequest (what : String)
  | unauthorized (what : String)
  | forbidden (what : String)
  | notFound (what : String)
  | conflict (what : String)
  | unprocessableEntity (what : String)
  | internal (what : String)
  deriving DecidableEq

/-- An identity in a request body. -/
inductive ApproverIdentityDto where
  | chain (chainId : UInt64) (addressHex publicKeyHex : String) (scheme : SigningScheme)
  | external (id publicKeyHex : String) (scheme : SigningScheme)
  | hardware (handle publicKeyHex : String) (scheme : SigningScheme)
  | nestedWallet (walletId publicKeyHex : String) (scheme : SigningScheme)
  deriving DecidableEq

/-- The body of a submission. -/
structure SubmitApprovalRequest where
  approverId : String
  approvalId : String
  decision : ApprovalDecision
  signatureHex : String
  timestampUnixMs : Int64
  messageHashHex : String
  identity : ApproverIdentityDto
  deriving DecidableEq

/-- The response to a submission. -/
structure SubmitApprovalResponse where
  recorded : Bool
  approvalId : String
  deriving DecidableEq

namespace WalletService

variable (svc : WalletService)

/-- A hex field of a body. -/
def hexField (name text : String) : Except ApiError Bytes :=
  match hexDecode text with
  | some b => .ok b
  | none => .error (.badRequest ("invalid " ++ name ++ ": " ++ svc.hexError text))

/-- An id in a path or a body. -/
def idField {k : IdKind} (name text : String) : Except ApiError (Ident k) :=
  (Ident.fromStr svc.parseUlid text).mapError fun e => .badRequest ("invalid " ++ name ++ ": " ++ e)

/-- The 32 bytes of a message hash. -/
def hashField (text : String) : Except ApiError (FixedBytes 32) := do
  let bytes ← svc.hexField "message_hash_hex" text
  match FixedBytes.ofBytes? 32 bytes with
  | some hash => .ok hash
  | none => .error (.badRequest "message_hash_hex must be 32 bytes")

/-- `ApproverIdentityDto::into_domain` -/
def identityIntoDomain : ApproverIdentityDto → Except ApiError ApproverIdentity
  | .chain chainId addressHex publicKeyHex scheme => do
    let address ← svc.hexField "address_hex" addressHex
    let publicKey ← svc.hexField "public_key_hex" publicKeyHex
    .ok (.chain chainId address publicKey scheme)
  | .external id publicKeyHex scheme => do
    let publicKey ← svc.hexField "public_key_hex" publicKeyHex
    .ok (.external id publicKey scheme)
  | .hardware handle publicKeyHex scheme => do
    let publicKey ← svc.hexField "public_key_hex" publicKeyHex
    .ok (.hardware ⟨handle, publicKey, scheme⟩)
  | .nestedWallet walletId publicKeyHex scheme => do
    let walletId ← svc.idField "wallet_id" walletId
    let publicKey ← svc.hexField "public_key_hex" publicKeyHex
    .ok (.nestedWallet walletId publicKey scheme)

/-- `SubmitApprovalRequest::into_signed` -/
def intoSigned (body : SubmitApprovalRequest) (requestId : RequestId) :
    Except ApiError (SignedApproval × ApproverId) := do
  let approverId ← svc.idField "approver_id" body.approverId
  let approvalId ← svc.idField "approval_id" body.approvalId
  let signature ← svc.hexField "signature_hex" body.signatureHex
  let messageHash ← svc.hashField body.messageHashHex
  let identity ← svc.identityIntoDomain body.identity
  .ok (⟨approvalId, identity, requestId, messageHash, body.decision, body.timestampUnixMs,
    signature⟩, approverId)

/-- What the handler passes to `record_approval`: the approval, the approver id and the message
hash to expect. -/
def readSubmission (requestId : String) (body : SubmitApprovalRequest) :
    Except ApiError (SignedApproval × ApproverId × FixedBytes 32) := do
  let requestId ← svc.idField "request_id" requestId
  let (a, approverId) ← svc.intoSigned body requestId
  let expectedHash ← svc.hashField body.messageHashHex
  .ok (a, approverId, expectedHash)

/-- `map_submit_err` -/
def mapSubmitErr (intoApiError : ServiceError → ApiError) : ServiceError → ApiError
  | .quorum (.invalidApproval e) =>
    .unprocessableEntity ("approval verification failed: " ++ e.toString)
  | .quorum (.unknownApprover what) => .notFound what
  | .quorum (.transport what) =>
    if "duplicate approval".toList <:+: what.toList then .conflict what else .internal what
  | other => intoApiError other

/-- The handler. -/
def submitApproval (intoApiError : ServiceError → ApiError) (requestId : String)
    (body : SubmitApprovalRequest) : Act S (Except ApiError SubmitApprovalResponse) :=
  match svc.readSubmission requestId body with
  | .error e => .ret (.error e)
  | .ok (a, approverId, expectedHash) =>
    (svc.recordApproval a approverId expectedHash : ServiceM S RecordOutcome).run >>= fun r =>
      .ret (match r with
        | .ok outcome => .ok ⟨decide (outcome = .inserted), body.approvalId⟩
        | .error e => .error (mapSubmitErr intoApiError e))

end WalletService

/-! ## Calls -/

/-- The calls of a running service. -/
inductive Call where
  | addApprover (create : ApproverCreate)
  | revokeApprover (id : ApproverId)
  | createApproverSet (create : ApproverSetCreate)
  | submitApproval (requestId : String) (body : SubmitApprovalRequest)
  | recordApproval (a : SignedApproval) (approverId : ApproverId)
      (expectedMessageHash : FixedBytes 32)
  | sign (args : WalletService.SignArgs) (rounds : Nat)

/-- What a call returns. -/
inductive Outcome where
  | added (r : Except RegistryError ApproverRecord)
  | revoked (r : Except RegistryError Unit)
  | setCreated (r : Except RegistryError ApproverSet)
  | submitted (r : Except ApiError SubmitApprovalResponse)
  | recorded (r : Except ServiceError RecordOutcome)
  | signed (r : Except ServiceError EnclaveSignResponse)

section Wired

variable (svc : WalletService) (intoApiError : ServiceError → ApiError)
  {body : SubmitApprovalRequest}

/-- The program of a call. -/
def Call.prog : Call → Act S Outcome
  | addApprover create =>
    onRegistry (MemoryApproverRegistry.addApprover create) >>= fun r => .ret (.added r)
  | revokeApprover id =>
    onRegistry (MemoryApproverRegistry.revokeApprover id) >>= fun r => .ret (.revoked r)
  | createApproverSet create =>
    onRegistry (MemoryApproverRegistry.createApproverSet create) >>= fun r => .ret (.setCreated r)
  | submitApproval requestId body =>
    svc.submitApproval intoApiError requestId body >>= fun r => .ret (.submitted r)
  | recordApproval a approverId expectedHash =>
    (svc.recordApproval a approverId expectedHash : ServiceM S RecordOutcome).run >>= fun r =>
      .ret (.recorded r)
  | sign args rounds =>
    (svc.sign args rounds : ServiceM S EnclaveSignResponse).run >>= fun r => .ret (.signed r)

/-- The approval a call tries to record, with the approver id it is submitted under. -/
def Call.submission : Call → Option (SignedApproval × ApproverId)
  | submitApproval requestId body =>
    match svc.readSubmission requestId body with
    | .ok (a, approverId, _) => some (a, approverId)
    | .error _ => none
  | recordApproval a approverId _ => some (a, approverId)
  | _ => none

theorem submission_of_read {svc : WalletService} {requestId : String} {a : SignedApproval}
    {approverId : ApproverId} {expectedHash : FixedBytes 32}
    (h : svc.readSubmission requestId body = .ok (a, approverId, expectedHash)) :
    (Call.submitApproval requestId body).submission svc = some (a, approverId) := by
  simp only [Call.submission, h]

theorem submission_of_unread {svc : WalletService} {requestId : String} {e : ApiError}
    (h : svc.readSubmission requestId body = .error e) :
    (Call.submitApproval requestId body).submission svc = none := by
  simp only [Call.submission, h]

/-- The log of a running service. -/
abbrev Log (S : ApprovalStore) := List (Nat × ServiceEvent S)

/-! ## The store operations of a call -/

section Store

/-- An event at the approval store. -/
def storeEvent : ServiceEvent S → Option (Prog.Event S.Op S.Res)
  | ⟨.store op, r⟩ => some ⟨op, r⟩
  | _ => none

/-- What the calls did at the store. -/
def storeLog (log : Log S) : S.Log :=
  log.filterMap fun x => (storeEvent x.2).map fun y => (x.1, y)

/-- A task's part of it. -/
theorem trace_storeLog (log : Log S) (i : Nat) :
    Pool.trace (storeLog log) i = (Pool.trace log i).filterMap storeEvent := by
  induction log with
  | nil => rfl
  | cons x log ih =>
    simp only [Pool.trace, storeLog] at ih ⊢
    cases hx : storeEvent x.2 with
    | none =>
      by_cases hi : x.1 = i
      · simpa [hx, hi] using ih
      · simpa [hx, hi] using ih
    | some y =>
      by_cases hi : x.1 = i
      · simpa [hx, hi] using ih
      · simpa [hx, hi] using ih

/-- No operation at the approval store. -/
def NoStore : Effect S → Prop
  | .store _ => False
  | _ => True

/-- At the approval store, only listings. -/
def ListsOnly : Effect S → Prop
  | .store op => ∃ requestId, op = S.listOp requestId
  | _ => True

theorem storeEvent_eq_none {x : ServiceEvent S} (h : NoStore x.1) : storeEvent x = none := by
  obtain ⟨e, r⟩ := x
  cases e with
  | store op => exact h.elim
  | _ => rfl

variable {tr : List (ServiceEvent S)}

theorem filterMap_storeEvent_eq_nil (h : ∀ x ∈ tr, NoStore x.1) : tr.filterMap storeEvent = [] :=
  List.filterMap_eq_nil_iff.2 fun x hx => storeEvent_eq_none (h x hx)

variable {α : Type} {p : Prog S.Op S.Res α}

/-- A program over the store does at the store what it does. -/
theorem after_onStore {q : Act S α} (h : (onStore p).After tr q) :
    ∃ p', p.After (tr.filterMap storeEvent) p' ∧ q = onStore p' := by
  have hproj (op : S.Op) (r : Reply (Effect.store op : Effect S)) :
      storeEvent ⟨.store op, r⟩ = some ⟨op, r⟩ := rfl
  exact Prog.After.of_embed hproj h

variable {allowed : Effect S → Prop}

theorem uses_onRegistry {p : Prog MemoryApproverRegistry.Op MemoryApproverRegistry.Res α}
    (h : ∀ op, allowed (.registry op)) : (onRegistry p).Uses allowed :=
  .embed (.of_forall h)

theorem uses_onStore (h : ∀ op, allowed (.store op)) : (onStore p).Uses allowed :=
  .embed (.of_forall h)

end Store

/-- The request ids that were drawn, each with the task that drew it. -/
def drawnIds (log : Log S) : List (Nat × RequestId) :=
  log.filterMap fun
    | (i, ⟨.newRequestId, id⟩) => some (i, id)
    | _ => none

/-- A running service. -/
abbrev System (S : ApprovalStore) := Pool (Effect S) Reply (State S) Call Outcome

/-- The service as it starts: no approvers, no sets, no approvals. -/
def initial (S : ApprovalStore) : System S := Pool.start ⟨MemoryApproverRegistry.empty, S.empty⟩

/-- The service after some moves: calls that come in, and operations of the running ones. -/
def run (moves : List (Move Call (Ans S))) : Option (System S) :=
  Pool.run perform (Call.prog svc intoApiError) (initial S) moves

/-! ## Calls with an approver of their own -/

/-- A call of the service, or a signing call with an approver of its own. -/
inductive ServiceCall (S : ApprovalStore) where
  | call (call : Call)
  | signWith (quorum : QuorumApprover S) (args : WalletService.SignArgs)

/-- The program of a call. -/
def ServiceCall.prog : ServiceCall S → Act S Outcome
  | call c => c.prog svc intoApiError
  | signWith quorum args =>
    (svc.signWith quorum args : ServiceM S EnclaveSignResponse).run >>= fun r => .ret (.signed r)

/-- The approver and the arguments of a signing call. -/
def ServiceCall.signs : ServiceCall S → Option (QuorumApprover S × WalletService.SignArgs)
  | call (.sign args rounds) => some (svc.orchestrating rounds, args)
  | call _ => none
  | signWith quorum args => some (quorum, args)

variable {svc intoApiError}

/-- A signing call, and no other, is `signWith` with some approver. -/
theorem signs_eq_some {c : ServiceCall S} {quorum : QuorumApprover S}
    {args : WalletService.SignArgs} (h : c.signs svc = some (quorum, args)) :
    c.prog svc intoApiError
      = (svc.signWith quorum args).run >>= fun r =>
          .ret (.signed r) := by
  cases c with
  | call c =>
    cases c with
    | sign args rounds =>
      cases h
      rfl
    | _ => cases h
  | signWith quorum args =>
    cases h
    rfl

end Wired

/-! ### A sample wiring

The values the runs on fixed inputs share. -/

namespace Sample

open Enclave.Sample

/-- The effect of a rule in a rule hit. -/
def ruleEffectValue : RuleEffect → Json
  | .allow => .string "allow"
  | .deny => .string "deny"
  | .requireQuorum => .string "require_quorum"

/-- A rule hit of a rationale. -/
def ruleHitValue (hit : RuleHit) : Json :=
  .object [("effect", ruleEffectValue hit.effect), ("reason", jsonOption hit.reason),
    ("rule_id", .string hit.ruleId)]

/-- The reason of a denial. -/
def denyReasonValue : DenyReason → Json
  | .chainNotAllowed => .string "chain_not_allowed"
  | .chainDenied => .string "chain_denied"
  | .requesterNotAllowed => .string "requester_not_allowed"
  | .walletInactive => .string "wallet_inactive"
  | .other reason => .object [("other", .string reason)]

/-- `serde_json::to_value` of a policy decision. The keys of an object are sorted. -/
def decisionValue : PolicyDecision → Json
  | .allow decisionId policyId rationale => .object [("allow", .object
      [("decision_id", .string decisionId.toString), ("policy_id", .string policyId.toString),
       ("rationale", .array (rationale.map ruleHitValue))])]
  | .deny decisionId policyId reason rationale => .object [("deny", .object
      [("decision_id", .string decisionId.toString), ("policy_id", .string policyId.toString),
       ("rationale", .array (rationale.map ruleHitValue)), ("reason", denyReasonValue reason)])]
  | .requireQuorum decisionId policyId threshold total approverSet rationale =>
    .object [("require_quorum", .object
      [("approver_set", .string approverSet.toString),
       ("decision_id", .string decisionId.toString), ("policy_id", .string policyId.toString),
       ("rationale", .array (rationale.map ruleHitValue)),
       ("threshold", jsonNat threshold.toUInt64), ("total", jsonNat total.toUInt64)])]

/-- A service without a policy signer and without notifiers. -/
def serviceWith (crypto : Crypto) : WalletService where
  crypto := crypto
  jsonValue _ := none
  decisionValue := decisionValue
  debugReason _ := ""
  showEnclaveError _ := ""
  parseUlid := ulidReference
  hexError _ := ""
  policyServiceSigner := none
  quorumTimeout := 1800 * 10 ^ 9
  notifiers := 0
  pollBackoff := 250 * 10 ^ 6

/-- The handler's errors are not looked at. -/
def intoApiError (_ : ServiceError) : ApiError := .internal "internal error"

/-- A request to sign the sample message. -/
def signArgs : WalletService.SignArgs where
  walletId := walletId
  payload := .raw message
  requester := .apiKey "app"
  hdPath := none
  context := ⟨none, none, .null⟩
  hashAlg := .none

end Sample

end QfcServerWallet.Service
