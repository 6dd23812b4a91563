import QfcServerWallet.Audit.Event
import QfcServerWallet.Enclave.Mock
import QfcServerWallet.Policy.RateLimit
import QfcServerWallet.Quorum.Registry
import QfcServerWallet.Quorum.Store

/-!
# The wallet service

`qfc-server-wallet/src/service.rs` (`sign`, `fetch_shares`, `record_approval`) and the collector of
`qfc-quorum/src/approvers/orchestrating.rs`.

* A call is a program whose operations are its awaits on a subsystem. The approver registry and the
  approval store keep their state in the model. Policy, audit log, policy signer, share store,
  enclave, notifiers, wallet map, clocks and the id generator are `dyn` or outside the service: each
  answers as the outside world decides, success or failure.
* `collect_approvals` polls in a loop. Its program is given a number of rounds, and asks for an
  operation that never answers when they run out, so a run with some number of rounds is a finite
  part of the loop, and every finite part is a run with enough rounds.
* A clock reading of `Instant` is in nanoseconds since an arbitrary origin.
* `request_approval` awaits the notifiers in the order it started them.
* The service holds a `dyn QuorumApprover` (`qfc-quorum/src/approver.rs`), here a parameter of
  `signWith`: two programs that may read the registry and the approval store, notify and wait. Audit
  log, policy, id generator and enclave belong to the service. `sign` is wired with the
  `OrchestratingApprover`.

Out of scope: metrics and tracing; the API-key layer. `create_wallet` is in `Service.Wallets`.
-/

namespace QfcServerWallet.Service

open Lib Audit Enclave Policy Quorum Sss

/-! ## Types -/

/-- The fields of a wallet's configuration that signing reads. -/
structure WalletConfig where
  scheme : SigningScheme
  threshold : UInt8
  maxValuePerTx : Option (BitVec 128)
  contractAllowlist : List Evm.Address
  chainAllowlist : List UInt64

/-- The state of a wallet. -/
inductive WalletStatus where
  | active
  | frozen
  | revoked
  deriving DecidableEq

/-- What signing reads of a wallet. -/
structure WalletRecord where
  walletId : WalletId
  config : WalletConfig
  status : WalletStatus

/-- `qfc_sss::store::StoreError` -/
inductive ShareStoreError where
  | notFound (id : ShareId)
  | serde (what : String)
  | io (what : String)
  | crypto (what : String)
  | config (what : String)
  deriving DecidableEq

/-- A share as it is stored. -/
structure StoredShare where
  shareId : ShareId
  createdAtUnixMs : Int64
  share : ShamirShare

/-- The errors of the service. -/
inductive ServiceError where
  | walletNotFound (id : WalletId)
  | policyDenied (reason : String)
  | quorum (e : QuorumError)
  | policy (e : PolicyError)
  | enclave (e : EnclaveError)
  | store (e : ShareStoreError)
  | audit (e : AuditError)
  | insufficientShares (what : String)
  | internal (what : String)
  deriving DecidableEq

/-- `PolicyServiceSignerError` -/
inductive PolicySignerError where
  | clock (what : String)
  | backend (what : String)
  deriving DecidableEq

/-- `Display` -/
def PolicySignerError.toString : PolicySignerError → String
  | clock what => "could not read system time: " ++ what
  | backend what => "policy-service signer backend failed: " ++ what

/-- The service: what it is wired with, and the printers it takes from its dependencies. -/
structure WalletService where
  crypto : Crypto
  /-- `serde_json::to_vec` of a typed-data value -/
  jsonValue : Json → Option Bytes
  /-- `serde_json::to_value` of a policy decision -/
  decisionValue : PolicyDecision → Json
  /-- the derived `Debug` of a deny reason -/
  debugReason : DenyReason → String
  /-- `Display` of an enclave error -/
  showEnclaveError : EnclaveError → String
  /-- `ulid::Ulid::from_string` -/
  parseUlid : UlidParser
  /-- `Display` of the error of `hex::decode` on a text it rejects -/
  hexError : String → String
  /-- the public key of the policy-service signer, where one is wired -/
  policyServiceSigner : Option Bytes
  quorumTimeout : Nat
  notifiers : Nat
  pollBackoff : Nat

/-! ## Operations -/

/-- The awaits of a call. -/
inductive Effect (S : ApprovalStore) where
  | registry (op : MemoryApproverRegistry.Op)
  | store (op : S.Op)
  /-- `RequestId::new` -/
  | newRequestId
  /-- `current_unix_ms` -/
  | now
  /-- `Instant::now` -/
  | instant
  /-- the `select!` between the sleep and an arrival -/
  | wait (nanos : Nat)
  | getWallet (id : WalletId)
  | emit (draft : AuditEventDraft)
  | evaluate (request : SigningRequest)
  | notify (notifier : Nat) (request : ApprovalRequest)
  | signDecision (decision : PolicyDecision) (requestId : RequestId) (walletId : WalletId)
      (maxAgeSecs : UInt32)
  | listShares (walletId : WalletId)
  | getShare (id : ShareId)
  | signInEnclave (request : EnclaveSignRequest)
  /-- the rounds of a loop ran out -/
  | never

variable {S : ApprovalStore}

/-- What each of them returns. -/
def Reply : Effect S → Type
  | .registry op => MemoryApproverRegistry.Res op
  | .store op => S.Res op
  | .newRequestId => RequestId
  | .now => Int64
  | .instant => Nat
  | .wait _ => Unit
  | .getWallet _ => Option WalletRecord
  | .emit _ => Except AuditError Unit
  | .evaluate _ => Except PolicyError PolicyDecision
  | .notify _ _ => Except QuorumError Unit
  | .signDecision _ _ _ _ => Except PolicySignerError SignedPolicyDecision
  | .listShares _ => Except ShareStoreError (List ShareId)
  | .getShare _ => Except ShareStoreError StoredShare
  | .signInEnclave _ => Except EnclaveError EnclaveSignResponse
  | .never => Empty

/-- The state the service owns. -/
structure State (S : ApprovalStore) where
  registry : MemoryApproverRegistry.State
  approvals : S.State

/-- What the outside world decides about one operation. -/
inductive Ans (S : ApprovalStore) where
  | registry (a : MemoryApproverRegistry.Ans)
  | store (a : S.Ans)
  | requestId (id : RequestId)
  | now (unixMs : Int64)
  | instant (nanos : Nat)
  | woken
  | wallet (record : Option WalletRecord)
  | emitted (r : Except AuditError Unit)
  | evaluated (r : Except PolicyError PolicyDecision)
  | notified (r : Except QuorumError Unit)
  | decisionSigned (r : Except PolicySignerError SignedPolicyDecision)
  | sharesListed (r : Except ShareStoreError (List ShareId))
  | shareRead (r : Except ShareStoreError StoredShare)
  | signed (r : Except EnclaveError EnclaveSignResponse)

/-- Answers an operation. -/
def perform (s : State S) : (e : Effect S) → Ans S → Option (Reply e × State S)
  | .registry op, .registry a =>
    match MemoryApproverRegistry.perform s.registry op a with
    | some (r, registry) => some (r, { s with registry })
    | none => none
  | .store op, .store a =>
    match S.perform s.approvals op a with
    | some (r, approvals) => some (r, { s with approvals })
    | none => none
  | .newRequestId, .requestId id => some (id, s)
  | .now, .now t => some (t, s)
  | .instant, .instant t => some (t, s)
  | .wait _, .woken => some ((), s)
  | .getWallet _, .wallet r => some (r, s)
  | .emit _, .emitted r => some (r, s)
  | .evaluate _, .evaluated r => some (r, s)
  | .notify _ _, .notified r => some (r, s)
  | .signDecision _ _ _ _, .decisionSigned r => some (r, s)
  | .listShares _, .sharesListed r => some (r, s)
  | .getShare _, .shareRead r => some (r, s)
  | .signInEnclave _, .signed r => some (r, s)
  | _, _ => none

/-- A program of the service. -/
abbrev Act (S : ApprovalStore) (α : Type) := Prog (Effect S) Reply α

/-- A program that may raise a service error. -/
abbrev ServiceM (S : ApprovalStore) (α : Type) := ExceptT ServiceError (Prog (Effect S) Reply) α

/-- An effect with its reply. -/
abbrev ServiceEvent (S : ApprovalStore) := Prog.Event (Effect S) Reply

/-- A method of the registry. -/
def onRegistry {α : Type} (p : Prog MemoryApproverRegistry.Op MemoryApproverRegistry.Res α) :
    Act S α :=
  p.embed .registry fun _ r => r

/-- A method of the approval store. -/
def onStore {α : Type} (p : Prog S.Op S.Res α) : Act S α := p.embed .store fun _ r => r

/-! ## JSON of the audit details

Objects list their keys in the order of `serde_json`'s map, which is sorted. -/

/-- A number in JSON. -/
def jsonNat (n : UInt64) : Json := .number (.posInt n)

/-- A signed number: `serde_json` keeps the non-negative ones as unsigned. -/
def jsonInt64 (n : Int64) : Json :=
  .number (if n < 0 then .negInt n else .posInt n.toUInt64)

/-- An optional text in JSON. -/
def jsonOption : Option String → Json
  | some s => .string s
  | none => .null

/-! ## Collecting approvals -/

namespace WalletService

variable (svc : WalletService)

/-- The notifiers are awaited one after the other; the first error is kept. -/
def awaitNotifiers (request : ApprovalRequest) :
    List Nat → Except QuorumError Unit → Act S (Except QuorumError Unit)
  | [], first => .ret first
  | n :: ns, first => .act (.notify n request) fun
    | .ok () => awaitNotifiers request ns first
    | .error e => awaitNotifiers request ns (match first with | .ok () => .error e | _ => first)

/-- `OrchestratingApprover::request_approval` -/
def requestApproval (request : ApprovalRequest) : Act S (Except QuorumError Unit) :=
  awaitNotifiers request (List.range svc.notifiers) (.ok ())

/-- What one poll of the store leads to: an end of the collection, or another round. -/
def pollOutcome (threshold : UInt8) :
    Except StoreError (List SignedApproval) → Option (Except QuorumError (List SignedApproval))
  | .error e => some (.error (.transport ("approval store: " ++ e.toString)))
  | .ok approvals =>
    match approvals.find? fun a => a.decision = .reject with
    | some reject => some (.ok [reject])
    | none =>
      let approves := approvals.filter fun a => a.decision = .approve
      if threshold.toNat ≤ approves.length then some (.ok approves) else none

/-- After a poll: the end, or a wait until the deadline at most and then `again`. -/
def afterPoll (timeout started : Nat) (again : Act S (Except QuorumError (List SignedApproval))) :
    Option (Except QuorumError (List SignedApproval)) →
      Act S (Except QuorumError (List SignedApproval))
  | some outcome => .ret outcome
  | none => .act .instant fun (now : Nat) =>
    let remaining := timeout - (now - started)
    if remaining = 0 then .ret (.error (.timeout timeout))
    else .act (.wait (min remaining svc.pollBackoff)) fun _ => again

/-- The loop of `OrchestratingApprover::collect_approvals`, for some number of rounds. -/
def collectRounds (requestId : RequestId) (threshold : UInt8) (timeout started : Nat) :
    Nat → Act S (Except QuorumError (List SignedApproval))
  | 0 => .act .never fun e => e.elim
  | rounds + 1 => onStore (S.listForRequest requestId) >>= fun listed =>
    svc.afterPoll timeout started (collectRounds requestId threshold timeout started rounds)
      (pollOutcome threshold listed)

/-- Polls the store until it has seen enough, a reject, or the deadline. -/
def collectApprovals (requestId : RequestId) (threshold : UInt8) (timeout rounds : Nat) :
    Act S (Except QuorumError (List SignedApproval)) :=
  .act .instant fun started => svc.collectRounds requestId threshold timeout started rounds

end WalletService

/-! ## Approvers -/

/-- A lookup in the registry. -/
def Lookup : MemoryApproverRegistry.Op → Prop
  | .getApprover _ | .getApproverSet _ => True
  | _ => False

/-- Neither an audit event, a drawn request id, a policy evaluation or a request to the enclave, nor
a change of the registry or the approval store. -/
def Silent : Effect S → Prop
  | .store op => ∃ requestId, op = S.listOp requestId
  | .registry op => Lookup op
  | .emit _ | .newRequestId | .evaluate _ | .signInEnclave _ => False
  | _ => True

/-- `dyn QuorumApprover`, as `sign` uses it. -/
structure QuorumApprover (S : ApprovalStore) where
  requestApproval : ApprovalRequest → Act S (Except QuorumError Unit)
  /-- for a request, a threshold and a timeout in nanoseconds -/
  collectApprovals : RequestId → UInt8 → Nat → Act S (Except QuorumError (List SignedApproval))
  silent_requestApproval : ∀ request, (requestApproval request).Uses Silent
  silent_collectApprovals : ∀ requestId threshold timeout,
    (collectApprovals requestId threshold timeout).Uses Silent

/-- An approver with the given results. -/
def QuorumApprover.answering (requested : Except QuorumError Unit)
    (collected : Except QuorumError (List SignedApproval)) : QuorumApprover S where
  requestApproval _ := .ret requested
  collectApprovals _ _ _ := .ret collected
  silent_requestApproval _ := trivial
  silent_collectApprovals _ _ _ := trivial

namespace WalletService

variable {svc : WalletService}

theorem silent_requestApproval {request : ApprovalRequest} :
    (svc.requestApproval request).Uses (@Silent S) := by
  unfold requestApproval
  generalize List.range svc.notifiers = ns
  generalize (Except.ok () : Except QuorumError Unit) = first
  induction ns generalizing first with
  | nil => trivial
  | cons n ns ih =>
    refine ⟨trivial, fun r => ?_⟩
    match r with
    | .ok () => exact ih first
    | .error e => exact ih _

theorem silent_collectApprovals {requestId : RequestId} {threshold : UInt8} {timeout rounds : Nat} :
    (svc.collectApprovals requestId threshold timeout rounds).Uses (@Silent S) := by
  refine ⟨trivial, fun started => ?_⟩
  induction rounds with
  | zero => exact ⟨trivial, fun e => e.elim⟩
  | succ rounds ih =>
    refine .bind (.embed ⟨⟨requestId, rfl⟩, fun _ => trivial⟩) fun listed => ?_
    unfold afterPoll
    split
    · trivial
    · refine ⟨trivial, fun now => ?_⟩
      simp only
      split
      · trivial
      · exact ⟨trivial, fun _ => ih⟩

variable (svc)

/-- `OrchestratingApprover`, for some number of rounds of its loop. -/
def orchestrating (rounds : Nat) : QuorumApprover S where
  requestApproval := svc.requestApproval
  collectApprovals requestId threshold timeout :=
    svc.collectApprovals requestId threshold timeout rounds
  silent_requestApproval _ := silent_requestApproval
  silent_collectApprovals _ _ _ := silent_collectApprovals

/-! ## Signing -/

/-- `MAX_DECISION_AGE_SECS_DEFAULT` -/
def maxDecisionAgeSecsDefault : UInt32 := 60

/-- Emit one event of a request. -/
def emitFor (requestId : RequestId) (walletId : WalletId) (actor : Actor) (kind : AuditKind)
    (details : List (String × Json)) : ServiceM S Unit :=
  Prog.orThrow .audit (Prog.perform (Effect.emit
    ⟨actor, kind, some requestId, some walletId, .object details⟩))

/-- The arguments of `sign`. -/
structure SignArgs where
  walletId : WalletId
  payload : SigningPayload
  requester : Requester
  hdPath : Option HdPath
  context : SigningContext
  hashAlg : HashAlg

/-- The bytes that will be signed. -/
def message (args : SignArgs) : Bytes := canonicalSigningMessage svc.jsonValue args.payload

/-- `get_wallet`, and the check for a revoked wallet. -/
def activeWallet (id : WalletId) : ServiceM S WalletRecord := do
  match ← (Prog.perform (Effect.getWallet id) : Act S (Option WalletRecord)) with
  | none => throw (.walletNotFound id)
  | some wallet => if wallet.status = .revoked then throw (.walletNotFound id) else pure wallet

/-- Steps 1 and 2: audit the request, evaluate the policy, audit the decision. -/
def evaluateRequest (args : SignArgs) (requestId : RequestId) : ServiceM S PolicyDecision := do
  emitFor requestId args.walletId (.requester (requesterKey args.requester)) .signingRequested
    [("hd_path", jsonOption (args.hdPath.map HdPath.toString)),
     ("message_hash_hex", .string (hexEncode (svc.crypto.sha256 (svc.message args)).bytes))]
  let receivedAt ← (Prog.perform Effect.now : Act S Int64)
  let decision ← Prog.orThrow .policy (Prog.perform (Effect.evaluate
    ⟨requestId, args.walletId, args.requester, args.payload, args.hdPath, receivedAt⟩))
  emitFor requestId args.walletId .system .signingEvaluated
    [("decision", svc.decisionValue decision)]
  pure decision

/-- A registry failure as the service reports it. -/
def registryError (e : RegistryError) : ServiceError :=
  .quorum (.transport ("registry: " ++ e.toString))

/-- The identities of the members of a set. -/
def resolveIdentities : List ApproverId → ServiceM S (List ApproverIdentity)
  | [] => pure []
  | m :: ms => do
    let record ← Prog.orThrow registryError (onRegistry (MemoryApproverRegistry.getApprover m))
    let rest ← resolveIdentities ms
    pure (record.identity :: rest)

/-- One audit event for each collected approval. -/
def emitApprovals (requestId : RequestId) (walletId : WalletId) :
    List SignedApproval → ServiceM S Unit
  | [] => pure ()
  | a :: as => do
    emitFor requestId walletId (.approver a.approver.key)
      (if a.decision = .approve then .quorumApprovalReceived else .quorumApprovalRejected)
      [("approval_id", .string a.approvalId.toString)]
    emitApprovals requestId walletId as

/-- A timeout is audited before it is returned. Its milliseconds print as a 64-bit number; beyond
that the printer panics. -/
def reportTimeout (requestId : RequestId) (walletId : WalletId) (nanos : Nat) :
    ServiceM S (List SignedApproval) := do
  let millis := nanos / 1000000
  if millis < 2 ^ 64 then
    emitFor requestId walletId .system .quorumTimedOut
      [("timeout_ms", jsonNat (UInt64.ofNat millis))]
    throw (.quorum (.timeout nanos))
  else ExceptT.mk (.act .never fun e => e.elim)

/-- The identities to notify: those of the members, or none for a set that was not found. -/
def identitiesOf : Except RegistryError ApproverSet → ServiceM S (List ApproverIdentity)
  | .ok set => resolveIdentities set.members
  | .error _ => pure []

/-- The set's own timeout, where it was found and has one; else the service's. -/
def collectTimeout : Except RegistryError ApproverSet → Nat
  | .ok set => (set.quorumTimeoutSecs.map fun secs => secs.toNat * 1000000000).getD
      svc.quorumTimeout
  | .error _ => svc.quorumTimeout

/-- The collected approvals; a timeout is reported. -/
def approvalsOf (requestId : RequestId) (walletId : WalletId) :
    Except QuorumError (List SignedApproval) → ServiceM S (List SignedApproval)
  | .ok approvals => pure approvals
  | .error (.timeout nanos) => reportTimeout requestId walletId nanos
  | .error e => throw (.quorum e)

/-- Any reject blocks the signature; else the threshold was reached. -/
def concludeQuorum (requestId : RequestId) (walletId : WalletId) (threshold : UInt8)
    (approvals : List SignedApproval) : ServiceM S Unit :=
  match approvals.find? fun a => a.decision = .reject with
  | some reject => throw (.policyDenied ("quorum rejected by " ++ reject.approver.key))
  | none =>
    emitFor requestId walletId .system .quorumThresholdReached
      [("collected", jsonNat (UInt64.ofNat approvals.length)),
       ("threshold", jsonNat threshold.toUInt64)]

/-- The `RequireQuorum` branch. An approver set that is not registered is not an error: it has no
members to notify, and the collection goes on with the service's own timeout. -/
def collectQuorum (quorum : QuorumApprover S) (args : SignArgs) (requestId : RequestId)
    (threshold : UInt8) (approverSet : ApproverSetId) : ServiceM S Unit := do
  let found ← (onRegistry (MemoryApproverRegistry.getApproverSet approverSet) :
    Act S (Except RegistryError ApproverSet))
  let identities ← identitiesOf found
  Prog.orThrow .quorum (quorum.requestApproval
    ⟨requestId, svc.crypto.sha256 (svc.message args), identities, threshold⟩)
  emitFor requestId args.walletId .system .quorumNotified
    [("approver_set", .string approverSet.toString), ("threshold", jsonNat threshold.toUInt64)]
  let collected ← (quorum.collectApprovals requestId threshold (svc.collectTimeout found) :
    Act S (Except QuorumError (List SignedApproval)))
  let approvals ← approvalsOf requestId args.walletId collected
  emitApprovals requestId args.walletId approvals
  concludeQuorum requestId args.walletId threshold approvals

/-- What the decision asks for before anything is signed. -/
def clearDecision (quorum : QuorumApprover S) (args : SignArgs) (requestId : RequestId) :
    PolicyDecision → ServiceM S Unit
  | .deny _ _ reason _ => throw (.policyDenied (svc.debugReason reason))
  | .requireQuorum _ _ threshold _ approverSet _ =>
    svc.collectQuorum quorum args requestId threshold approverSet
  | .allow _ _ _ => pure ()

/-- Step 2a: the signed decision for the enclave, where a signer is wired. -/
def signedPolicyDecision (args : SignArgs) (requestId : RequestId) (decision : PolicyDecision) :
    ServiceM S (Option SignedPolicyDecision) :=
  match svc.policyServiceSigner with
  | none => pure none
  | some publicKey => do
    let bundle ← Prog.orThrow (fun e => .internal ("policy signer: " ++ e.toString))
      (Prog.perform (Effect.signDecision decision requestId args.walletId
        maxDecisionAgeSecsDefault))
    emitFor requestId args.walletId .system .policyDecisionSigned
      [("decision_id", .string decision.decisionId.toString),
       ("max_age_secs", jsonNat bundle.maxAgeSecs.toUInt64),
       ("signed_at_unix_ms", jsonInt64 bundle.signedAtUnixMs),
       ("signer_pubkey_fingerprint_hex",
         .string (hexEncode ((svc.crypto.sha256 publicKey).bytes.take 16)))]
    pure (some bundle)

/-- The loop that reads the listed shares. -/
def readShares : List ShareId → ServiceM S (List ShamirShare)
  | [] => pure []
  | id :: ids => do
    let stored ← Prog.orThrow .store (Prog.perform (Effect.getShare id))
    let rest ← readShares ids
    pure (stored.share :: rest)

/-- Reads as many shares as are needed. -/
def fetchShares (wallet : WalletRecord) : ServiceM S (List ShamirShare) := do
  let ids ← Prog.orThrow .store (Prog.perform (Effect.listShares wallet.walletId))
  let threshold := wallet.config.threshold.toNat
  if ids.length < threshold then
    throw (.insufficientShares
      ("have " ++ ids.length.repr ++ " shares, need " ++ threshold.repr))
  else readShares (ids.take threshold)

/-- The request the enclave is sent. It carries no approvals. -/
def enclaveRequest (args : SignArgs) (requestId : RequestId) (wallet : WalletRecord)
    (shares : List ShamirShare) (decision : Option SignedPolicyDecision) :
    EnclaveSignRequest where
  requestId := requestId
  walletId := args.walletId
  shares := shares
  scheme := wallet.config.scheme
  hdPath := args.hdPath
  message := svc.message args
  hashAlg := args.hashAlg
  context := args.context
  policyDecision := decision
  approvals := []
  walletCeilings := some ⟨args.walletId, wallet.config.maxValuePerTx,
    wallet.config.contractAllowlist, wallet.config.chainAllowlist⟩
  policySigningPayload := some args.payload

/-- Step 4: audit the attempt, sign, audit the result. -/
def signAndAudit (request : EnclaveSignRequest) : ServiceM S EnclaveSignResponse := do
  emitFor request.requestId request.walletId .system .signingAttempted []
  let result ← (Prog.perform (Effect.signInEnclave request) :
    Act S (Except EnclaveError EnclaveSignResponse))
  match result with
  | .ok response =>
    emitFor request.requestId request.walletId .enclave .signingSucceeded
      [("signature_hash_hex", .string (hexEncode (svc.crypto.sha256 response.signature).bytes))]
    pure response
  | .error e =>
    emitFor request.requestId request.walletId .enclave .signingFailed
      [("error", .string (svc.showEnclaveError e))]
    throw (.enclave e)

/-- `WalletService::sign`, with the given approver. -/
def signWith (quorum : QuorumApprover S) (args : SignArgs) : ServiceM S EnclaveSignResponse := do
  let wallet ← activeWallet args.walletId
  let requestId ← (Prog.perform Effect.newRequestId : Act S RequestId)
  let decision ← svc.evaluateRequest args requestId
  svc.clearDecision quorum args requestId decision
  let signed ← svc.signedPolicyDecision args requestId decision
  let shares ← fetchShares wallet
  svc.signAndAudit (svc.enclaveRequest args requestId wallet shares signed)

/-- `WalletService::sign`, with the `OrchestratingApprover`. -/
def sign (args : SignArgs) (rounds : Nat) : ServiceM S EnclaveSignResponse :=
  svc.signWith (svc.orchestrating rounds) args

/-! ## Submitting approvals -/

/-- A store failure as the service reports it. -/
def storeError : StoreError → ServiceError
  | .duplicateApproval approverId requestId =>
    .quorum (.transport ("duplicate approval: "
      ++ (StoreError.duplicateApproval approverId requestId).toString))
  | .io what => .quorum (.transport what)

/-- The checks of `record_approval` on the registered approver. -/
def checkApprover (a : SignedApproval) (approverId : ApproverId) (record : ApproverRecord) :
    Except ServiceError Unit :=
  if record.identity ≠ a.approver then .error (.quorum (.unknownApprover a.approver.key))
  else if record.status = .revoked then
    .error (.quorum (.unknownApprover ("approver " ++ approverId.toString ++ " is revoked")))
  else .ok ()

/-- `WalletService::record_approval`. The request id to expect is the approval's own, and the
message hash to expect is an argument. -/
def recordApproval (a : SignedApproval) (approverId : ApproverId)
    (expectedMessageHash : FixedBytes 32) : ServiceM S RecordOutcome := do
  let record ← Prog.orThrow registryError
    (onRegistry (MemoryApproverRegistry.getApprover approverId))
  ExceptT.mk (.ret (checkApprover a approverId record))
  let now ← (Prog.perform Effect.now : Act S Int64)
  ExceptT.mk (.ret ((a.verify svc.crypto a.requestId expectedMessageHash now).mapError
    fun e => .quorum (.invalidApproval e)))
  Prog.orThrow storeError (onStore (S.recordApproval a approverId))

end WalletService

end QfcServerWallet.Service
