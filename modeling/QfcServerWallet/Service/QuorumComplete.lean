import QfcServerWallet.Service.QuorumSound

/-!
# A quorum decision behind a pinned enclave

The service wired with a policy-service signer, in front of a mock enclave that is pinned to the
signer's key. Both halves of the quorum check are at work here: the service collects the approvals
and goes on once there are enough of them, and the verifier in the enclave asks for the approvals
again. The service sends none (`WalletService.enclaveRequest`), so the second half refuses whatever
the first half collected.

* `Favourable`: everything a signing call under a quorum decision can hope for. Enough fresh and
  valid approvals were listed, every subsystem answered, the shares recombine.
* `QuorumComplete`: such a call, once it has ended, has returned a signature.

Results: `verify_quorum_unapproved`, **`quorum_never_signed`** and `quorum_complete_fails`.
-/

namespace QfcServerWallet.Service

open Lib Audit Enclave Policy Quorum Sss

variable {S : ApprovalStore}

/-! ## Favourable circumstances -/

/-- What stands behind the service during one signing call. -/
structure Backing where
  deps : MockDeps
  enclave : MockEnclave
  policySeed : FixedBytes 32
  /-- when the policy service signs the decision -/
  signedAt : Int64
  env : Env

/-- The subsystem did what it is there for: the signer signed the decision it was given, the mock
enclave worked on shares that recombine, everything else answered. -/
def Backing.answers (b : Backing) : ServiceEvent S → Bool
  | ⟨.signDecision decision requestId walletId maxAgeSecs, r⟩ =>
    decide (Except.toOption r = some (signDecision b.deps.jsonDecision b.deps.crypto b.policySeed
      b.signedAt decision requestId walletId maxAgeSecs))
  | ⟨.signInEnclave request, r⟩ =>
    decide (b.enclave.signInEnclave b.deps b.env request = Except.mapError Fault.err r) &&
      (combineShares b.deps.crypto request.shares).isOk
  | ⟨.getWallet _, r⟩ => Option.any (fun wallet => wallet.status = .active) r
  | ⟨.emit _, r⟩ | ⟨.notify _ _, r⟩ | ⟨.evaluate _, r⟩ | ⟨.listShares _, r⟩ | ⟨.getShare _, r⟩
  | ⟨.registry (.getApproverSet _), r⟩ | ⟨.registry (.getApprover _), r⟩ => Except.isOk r
  | _ => true

/-- The circumstances of a signing call under a quorum decision that should end with a
signature. -/
structure Favourable (svc : WalletService) (b : Backing) (p : System S)
    (decision : QuorumDecision) : Prop where
  crypto : b.deps.crypto = svc.crypto
  signer : svc.policyServiceSigner = some (svc.crypto.ed25519PublicKey b.policySeed).bytes
  pinned : b.enclave.policyServicePubkey = svc.policyServiceSigner
  decided : decision ∈ quorumDecisions p.log
  threshold : 1 ≤ decision.threshold
  answered : ∀ x ∈ Pool.trace p.log decision.task, b.answers x = true
  /-- the collector read enough approvals of this request and message, still fresh when the enclave
  looks at its clock, and no reject -/
  collected : ∃ (r : S.Res (S.listOp decision.request.requestId))
    (approvals : List SignedApproval),
    ⟨.store (S.listOp decision.request.requestId), r⟩ ∈ Pool.trace p.log decision.task ∧
    S.readList decision.request.requestId r = .ok approvals ∧
    decision.threshold.toNat ≤ approvals.length ∧
    ∀ a ∈ approvals, a.decision = .approve ∧
      a.verify svc.crypto decision.request.requestId (svc.crypto.sha256
        (canonicalSigningMessage svc.jsonValue decision.request.payload)) b.env.now = .ok ()

/-- Under favourable circumstances a call that has ended has returned a signature. -/
def QuorumComplete (svc : WalletService) (b : Backing) (p : System S) : Prop :=
  ∀ decision, Favourable svc b p decision → Ended p decision.task →
    ReturnedSignature p decision.task

/-! ## The verifier asks again -/

/-- The verifier refuses a quorum decision without approvals. -/
theorem verify_quorum_unapproved {d : Deps} {V : HybridVerifier} {s : SignedPolicyDecision}
    {request : SigningRequest} {wallet : WalletCeilings} {now : Int64} {decisionId : DecisionId}
    {policyId : PolicyId} {threshold total : UInt8} {approverSet : ApproverSetId}
    {rationale : List RuleHit} (hthreshold : 1 ≤ threshold)
    (hdecision : s.decision
      = .requireQuorum decisionId policyId threshold total approverSet rationale) :
    V.verify d (some s) [] request wallet now ≠ .ok () := by
  intro hok
  obtain ⟨-, -, -, -, hquorum, -⟩ := verifySigned_ok_iff.1 (verify_some_ok_iff.1 hok).2
  rw [checkDecision, hdecision] at hquorum
  have hle := (checkApprovals_ok_iff.1 hquorum).2
  have hpos : 1 ≤ threshold.toNat := UInt8.le_iff_toNat_le.1 hthreshold
  rw [List.length_nil] at hle
  omega

/-- **No call under favourable circumstances returns a signature.** -/
theorem quorum_never_signed (svc : WalletService) (intoApiError : ServiceError → ApiError)
    (moves : List (Move Call (Ans S))) (p : System S) (hrun : run svc intoApiError moves = some p)
    (b : Backing) (decision : QuorumDecision) (h : Favourable svc b p decision) :
    ¬ ReturnedSignature p decision.task := by
  rintro ⟨args, rounds, response, hsigned⟩
  obtain ⟨decisionId, policyId, total, rationale, hdecided⟩ := mem_quorumDecisions h.decided
  obtain ⟨wallet, shares, bundle, hbundle, henclave⟩ :=
    WalletService.sign_bundled h.signer (after_of_returned hrun hsigned) (Pool.mem_trace hdecided)
  -- the bundle holds the quorum decision, and the request holds no approvals
  have hsigner := h.answered _ hbundle
  simp only [Backing.answers, decide_eq_true_eq, Except.toOption, Option.some.injEq] at hsigner
  have hmock := h.answered _ henclave
  simp only [Backing.answers, Bool.and_eq_true, decide_eq_true_eq] at hmock
  obtain ⟨hcheck, -⟩ := sign_inv.1 hmock.1
  simp only [MockEnclave.hybridCheck, h.pinned, h.signer] at hcheck
  exact verify_quorum_unapproved h.threshold (by rw [hsigner]; rfl) hcheck

/-! ### A call with everything in place

The only member of a set approves, with the policy service's signer wired and the sample enclave
behind it. -/

namespace Sample

open Enclave.Sample

def policySeed : FixedBytes 32 := .replicate 32 7

/-- The printed form of `decision 1`. -/
def quorumJson : String :=
  "\x7b\"require_quorum\":\x7b\"decision_id\":\"00000000000000000000000003\",\"policy_id\":" ++
    "\"00000000000000000000000004\",\"threshold\":1,\"total\":1,\"approver_set\":" ++
    "\"00000000000000000000000008\",\"rationale\":[]\x7d\x7d"

def jsonQuorum (x : PolicyDecision) : Option Bytes :=
  if x = decision 1 then some (utf8 quorumJson) else none

def quorumTuple : DecisionTuple := ⟨decision 1, requestId, walletId, 1600, 60⟩

/-- The tables, with that signature. -/
def quorumCrypto : Crypto := .ofTablesOnly { mockTables with
  digests := (policyKey.bytes,
      .ofNat 32 0xfe812c12f3ab4ce6ac5db69ac352f906cb1b11ef43fb33e252ef7ff552263889)
    :: mockTables.digests
  signatures :=
    [((approverKey, approvalPreimage approval), approvalSignature),
     ((policyKey, quorumTuple.preimage jsonQuorum),
      .ofNat 64 (0x566d7ff14fc8f01bcab5feeb9d9ee20da25a84de3ac310d9d18807a80b59208c * 2 ^ 256 +
        0xf1eb56d3a34a55385c9cff50be0c167c4b3f3dc7c8016dca4486cc4018665602))] }

/-- The service with a policy signer. -/
def pinnedService : WalletService :=
  { service with crypto := quorumCrypto, policyServiceSigner := some policyKey.bytes }

/-- An enclave that is pinned to it. -/
def backing : Backing where
  deps := { mockDeps with crypto := quorumCrypto, jsonDecision := jsonQuorum }
  enclave := enclave
  policySeed := policySeed
  signedAt := 1600
  env := env

/-- The signed decision. -/
def bundle : SignedPolicyDecision :=
  signDecision jsonQuorum quorumCrypto policySeed 1600 (decision 1) requestId walletId 60

/-- What the enclave makes of the request, as the service sees it. -/
def pinnedAnswer : Moves :=
  match backing.enclave.signInEnclave backing.deps env
      (pinnedService.enclaveRequest signArgs requestId wallet shares (some bundle)) with
  | .ok response => [.act 3 (.signed (.ok response))]
  | .error (.err e) => [.act 3 (.signed (.error e))]
  | .error .panic => []

/-- The run of `moves`, with the decision signed before the shares are fetched. -/
def pinnedMoves : Moves :=
  approved [approverId] [handedByAlice] ++ signingPoll 1 ++ signingRest.take 1
    ++ [.act 3 (.decisionSigned (.ok bundle)), .act 3 (.emitted (.ok ()))] ++ signingRest.drop 1
    ++ pinnedAnswer ++ [.act 3 (.emitted (.ok ()))]

/-- A listing of the sample request that holds nothing but a valid approval. -/
def goodListing : Prog.Event (Effect Backend.memory.store) Reply → Bool
  | ⟨.store (.list id), (approvals : List SignedApproval)⟩ =>
    id = requestId ∧ 1 ≤ approvals.length ∧ ∀ a ∈ approvals, a.decision = .approve ∧
      a.verify quorumCrypto requestId messageHash env.now = .ok ()
  | _ => false

/-- A signing call that ended with the verifier's refusal: none of one approval was provided. -/
def refusedCall : Call × Act S Outcome → Bool
  | (.sign _ _, .ret (.signed (.error (.enclave
      (.hybridVerification (.notEnoughApprovals 0 1)))))) => true
  | _ => false

/-- The run ends with the refusal, and up to there nothing went wrong. -/
def refused (p : System Backend.memory.store) : Bool :=
  (p.tasks[3]?).any refusedCall &&
  (quorumDecisions p.log).any (fun x => x.task = 3 ∧ x.threshold = 1 ∧
    x.request.requestId = requestId ∧
    quorumCrypto.sha256 (canonicalSigningMessage pinnedService.jsonValue x.request.payload)
      = messageHash) &&
  (Pool.trace p.log 3).all backing.answers && (Pool.trace p.log 3).any goodListing

theorem refused_pinnedMoves :
    (run pinnedService intoApiError pinnedMoves).any refused = true := by
  decide +kernel

theorem favourable_of_refused {p : System Backend.memory.store} (h : refused p = true) :
    ∃ x, x.task = 3 ∧ Favourable pinnedService backing p x := by
  simp only [refused, Bool.and_eq_true, List.any_eq_true, List.all_eq_true,
    decide_eq_true_eq] at h
  obtain ⟨⟨⟨-, x, hx, htask, hthreshold, hid, hhash⟩, hanswers⟩, y, hy, hgood⟩ := h
  refine ⟨x, htask, ⟨rfl, by decide +kernel, rfl, hx, by rw [hthreshold]; decide, ?_, ?_⟩⟩
  · rw [htask]
    exact hanswers
  · unfold goodListing at hgood
    split at hgood
    · next id approvals =>
      obtain ⟨rfl, hlen, hall⟩ := of_decide_eq_true hgood
      rw [htask, hid, hthreshold]
      refine ⟨approvals, approvals, hy, rfl, hlen, fun a ha => ?_⟩
      obtain ⟨happrove, hverify⟩ := hall a ha
      exact ⟨happrove, by rw [← hverify]; congr⟩
    · cases hgood

theorem ended_of_refused {p : System Backend.memory.store} (h : refused p = true) :
    Ended p 3 ∧ ¬ ReturnedSignature p 3 := by
  simp only [refused, Bool.and_eq_true, Option.any_eq_true] at h
  obtain ⟨⟨⟨⟨task, htask, hrefused⟩, -⟩, -⟩, -⟩ := h
  unfold refusedCall at hrefused
  split at hrefused
  · refine ⟨⟨_, _, htask⟩, ?_⟩
    rintro ⟨args, rounds, response, hsigned⟩
    cases htask.symm.trans hsigned
  · cases hrefused

end Sample

open Sample

/-- The one member approves, and nothing is signed. -/
theorem quorum_never_signed_pinned :
    ∃ p x, run pinnedService intoApiError pinnedMoves = some p ∧
      Favourable pinnedService backing p x ∧ ¬ ReturnedSignature p x.task := by
  obtain ⟨p, hrun, hp⟩ := (Option.any_eq_true _ _).1 refused_pinnedMoves
  obtain ⟨x, -, hx⟩ := favourable_of_refused hp
  exact ⟨p, x, hrun, hx, quorum_never_signed pinnedService intoApiError
    pinnedMoves p hrun backing x hx⟩

/-- One member of one approves, and the call ends with `NotEnoughApprovals`. -/
theorem quorum_complete_fails :
    ∃ p, run pinnedService intoApiError pinnedMoves = some p ∧
      ¬ QuorumComplete pinnedService backing p := by
  obtain ⟨p, hrun, hp⟩ := (Option.any_eq_true _ _).1 refused_pinnedMoves
  obtain ⟨x, htask, hx⟩ := favourable_of_refused hp
  obtain ⟨hended, hnot⟩ := ended_of_refused hp
  rw [← htask] at hended hnot
  exact ⟨p, hrun, fun hcomplete => hnot (hcomplete x hx hended)⟩

end QfcServerWallet.Service
