import QfcServerWallet.Quorum.PostgresStore
import QfcServerWallet.Service.Traces
import Mathlib.Data.Fintype.Defs

/-!
# What a signature under a quorum decision stands for

The state of a running service against the log of what its calls did, and from it, for every
interleaving of registrations, revocations, new sets, submissions and signing calls, what stands
behind a signature that was returned under a `RequireQuorum` decision.

Nothing in the service checks that a submitting approver is a member of the decision's set, that
the hash it approves is the hash of the message in flight, that the set exists, or that two members
have different keys. `Honest` is what submitters, operators and policy have to ensure instead.

Results: `Inv.perform`, `listed_approvals`, **`quorumSound_of_sound`**, **`quorumSound_of_honest`**
and `quorumSound_fails_for_outsider`. Out of scope: who holds a private key. A valid signature of a
member's key is what stands for the member's own consent.
-/

namespace QfcServerWallet.Service

open Lib Audit Enclave Policy Quorum Sss

variable {S : ApprovalStore}

/-! ## The state against the log -/

/-- The approvers that were registered. -/
def addedApprovers (log : Log S) : List ApproverRecord :=
  log.filterMap fun
    | (_, ⟨.registry (.insertApprover record), _⟩) => some record
    | _ => none

/-- The approver sets that were registered. -/
def registeredSets (log : Log S) : List ApproverSet :=
  log.filterMap fun
    | (_, ⟨.registry (.insertSet set), _⟩) => some set
    | _ => none

/-- The registry and the store hold what the log accounts for. -/
structure Inv (log : Log S) (s : State S) : Prop where
  registry : MemoryApproverRegistry.Inv (· ∈ addedApprovers log) s.registry
  approvals : S.Replays (storeLog log) s.approvals

section Perform

variable {s s' : State S} {e : Effect S} {a : Ans S} {r : Reply e}

theorem perform_cases (h : perform s e a = some (r, s')) :
    (∃ op a', ∃ r' : MemoryApproverRegistry.Res op,
      (⟨e, r⟩ : ServiceEvent S) = ⟨.registry op, r'⟩ ∧
      MemoryApproverRegistry.perform s.registry op a' = some (r', s'.registry) ∧
      s'.approvals = s.approvals) ∨
    (∃ op a', ∃ r' : S.Res op, (⟨e, r⟩ : ServiceEvent S) = ⟨.store op, r'⟩ ∧
      S.perform s.approvals op a' = some (r', s'.approvals) ∧ s'.registry = s.registry) ∨
    (NoStore e ∧ s' = s) := by
  unfold perform at h
  split at h
  case h_1 op a' =>
    split at h
    · next hperform =>
      cases h
      exact .inl ⟨op, a', _, rfl, hperform, rfl⟩
    · cases h
  case h_2 op a' =>
    split at h
    · next hperform =>
      cases h
      exact .inr (.inl ⟨op, a', _, rfl, hperform, rfl⟩)
    · cases h
  all_goals
    cases h
    try exact .inr (.inr ⟨trivial, rfl⟩)

end Perform

theorem storeLog_concat (log : Log S) (i : Nat) (x : ServiceEvent S) :
    storeLog (log ++ [(i, x)]) = storeLog log ++ ((storeEvent x).map fun y => (i, y)).toList := by
  cases hx : storeEvent x <;> simp [storeLog, hx]

theorem Inv.initial : Inv [] (⟨MemoryApproverRegistry.empty, S.empty⟩ : State S) :=
  ⟨.empty, .nil⟩

/-- The registry and the store hold what the log accounts for. -/
theorem Inv.perform (log : Log S) (s : State S) (i : Nat) (e : Effect S) (a : Ans S) (r : Reply e)
    (s' : State S) (h : Inv log s) (hperform : perform s e a = some (r, s')) :
    Inv (log ++ [(i, ⟨e, r⟩)]) s' := by
  have hregistry :
      MemoryApproverRegistry.Inv (· ∈ addedApprovers (log ++ [(i, ⟨e, r⟩)])) s.registry :=
    h.registry.mono fun _ hrec => by
      rw [addedApprovers, List.filterMap_append]
      exact List.mem_append_left _ hrec
  obtain ⟨op, a', r', heq, hop, hsame⟩ | ⟨op, a', r', heq, hop, hsame⟩ | ⟨hno, rfl⟩ :=
    perform_cases hperform
  · cases heq
    refine ⟨hregistry.perform hop ?_, ?_⟩
    · rintro record rfl
      simp [addedApprovers]
    · rw [storeLog_concat, hsame]
      simpa [storeEvent] using h.approvals
  · cases heq
    refine ⟨hsame ▸ hregistry, ?_⟩
    rw [storeLog_concat]
    exact h.approvals.concat i hop
  · refine ⟨hregistry, ?_⟩
    rw [storeLog_concat, storeEvent_eq_none hno]
    simpa using h.approvals

/-! ## Ends of calls -/

/-- The call has ended. -/
def Ended (p : System S) (task : Nat) : Prop := ∃ call o, p.tasks[task]? = some (call, .ret o)

/-- The call has returned a signature. -/
def ReturnedSignature (p : System S) (task : Nat) : Prop :=
  ∃ args rounds response,
    p.tasks[task]? = some (.sign args rounds, .ret (.signed (.ok response)))

/-! ## Honest runs -/

section Honest

variable (svc : WalletService)

/-- The approvals that calls submitted, with the approver ids they were submitted under. -/
def submitted (p : System S) : List (SignedApproval × ApproverId) :=
  p.tasks.filterMap fun task => task.1.submission svc

/-- A quorum decision: the signing call it was given to, the request, threshold and set. -/
structure QuorumDecision where
  task : Nat
  request : SigningRequest
  threshold : UInt8
  approverSet : ApproverSetId

/-- The quorum decisions that were made. -/
def quorumDecisions (log : Log S) : List QuorumDecision :=
  log.filterMap fun
    | (i, ⟨.evaluate request, .ok (.requireQuorum _ _ threshold _ approverSet _)⟩) =>
      some ⟨i, request, threshold, approverSet⟩
    | _ => none

/-- The lookups of approver sets, each with its position in the log. -/
def setLookups (log : Log S) : List (Nat × ApproverSetId) :=
  log.zipIdx.filterMap fun
    | ((_, ⟨.registry (.getApproverSet approverSet), _⟩), n) => some (n, approverSet)
    | _ => none

/-- When a signing call looks up a set, the set is registered. -/
def SetsKnown (p : System S) : Prop :=
  ∀ x ∈ setLookups p.log, ∃ set ∈ registeredSets (p.log.take x.1), set.id = x.2

/-- Approvers registered under different member ids of one set have different public keys. -/
def KeysDistinct (p : System S) : Prop :=
  ∀ set ∈ registeredSets p.log, ∀ record ∈ addedApprovers p.log,
    ∀ record' ∈ addedApprovers p.log, record.approverId ∈ set.members →
    record'.approverId ∈ set.members → record.approverId ≠ record'.approverId →
    record.identity.publicKey ≠ record'.identity.publicKey

/-- An approval of a request under a quorum decision is submitted under a member of the set, for the
hash of the request's message. -/
def MembersSubmit (p : System S) : Prop :=
  ∀ decision ∈ quorumDecisions p.log, ∀ set ∈ registeredSets p.log,
    set.id = decision.approverSet → ∀ x ∈ submitted svc p,
    x.1.requestId = decision.request.requestId → x.1.decision = .approve → x.2 ∈ set.members ∧
      x.1.messageHash =
        svc.crypto.sha256 (canonicalSigningMessage svc.jsonValue decision.request.payload)

/-- What the service relies on and does not check. -/
structure Honest (p : System S) : Prop where
  sets_known : SetsKnown p
  keys_distinct : KeysDistinct p
  members_submit : MembersSubmit svc p

instance (p : System S) : Decidable (SetsKnown p) := List.decidableBAll _ _

instance (p : System S) : Decidable (KeysDistinct p) := List.decidableBAll _ _

instance (p : System S) : Decidable (MembersSubmit svc p) := List.decidableBAll _ _

instance (p : System S) : Decidable (Honest svc p) :=
  decidable_of_iff (SetsKnown p ∧ KeysDistinct p ∧ MembersSubmit svc p)
    ⟨fun ⟨hsets, hkeys, hsubmit⟩ => ⟨hsets, hkeys, hsubmit⟩,
      fun h => ⟨h.sets_known, h.keys_distinct, h.members_submit⟩⟩

/-- Enough members of the set, with distinct keys, approved the request and the message: each
submitted an approval whose signature verifies under the key it is registered with. -/
def QuorumBacked (p : System S) (requestId : RequestId) (message : Bytes) (threshold : UInt8)
    (approverSet : ApproverSetId) : Prop :=
  ∃ set ∈ registeredSets p.log, set.id = approverSet ∧
  ∃ backing : List (ApproverId × SignedApproval), threshold.toNat ≤ backing.length ∧
    (backing.map Prod.fst).Nodup ∧ (backing.map fun x => x.2.approver.publicKey).Nodup ∧
    ∀ x ∈ backing, x.1 ∈ set.members ∧ (x.2, x.1) ∈ submitted svc p ∧
      (∃ record ∈ addedApprovers p.log, record.approverId = x.1 ∧
        record.identity = x.2.approver) ∧
      x.2.decision = .approve ∧ x.2.requestId = requestId ∧
      x.2.messageHash = svc.crypto.sha256 message ∧ x.2.verifySignature svc.crypto = .ok ()

/-- Every signature returned under a quorum decision is backed by a quorum for the signed bytes. -/
def QuorumSound (p : System S) : Prop :=
  ∀ i args rounds response,
    p.tasks[i]? = some (.sign args rounds, .ret (.signed (.ok response))) →
  ∀ decision ∈ quorumDecisions p.log, decision.task = i →
  ∃ enclaveRequest : EnclaveSignRequest,
    (i, ⟨.signInEnclave enclaveRequest, Except.ok response⟩) ∈ p.log ∧
    enclaveRequest.requestId = decision.request.requestId ∧
    QuorumBacked svc p decision.request.requestId enclaveRequest.message decision.threshold
      decision.approverSet

end Honest

/-! ## Soundness -/

section Sound

variable {svc : WalletService} {intoApiError : ServiceError → ApiError}
variable {moves : List (Move Call (Ans S))} {p : System S} {i : Nat} {log : Log S}
  {approvals : List SignedApproval} {requestId : RequestId}

theorem Inv.of_run (hrun : run svc intoApiError moves = some p) : Inv p.log p.shared := by
  refine Pool.run_induction (P := fun p => Inv p.log p.shared) ?_ hrun Inv.initial
  intro p m p' hinv hm
  obtain ⟨call, -, rfl⟩ | ⟨i, a, call, e, k, r, s, -, -, hperform, rfl⟩ := Pool.step_cases hm
  · exact hinv
  · exact Inv.perform _ _ i e a r s hinv hperform

theorem registered_of_getApprover (hrun : run svc intoApiError moves = some p)
    {approverId : ApproverId} {record : ApproverRecord}
    (h : (i, ⟨.registry (.getApprover approverId), Except.ok record⟩) ∈ p.log) :
    ∃ record' ∈ addedApprovers p.log, record'.approverId = approverId ∧
      record'.identity = record.identity := by
  obtain ⟨log, s, a, s', hlog, hinv, hperform⟩ := Pool.log_explained Inv.initial Inv.perform hrun h
  cases a with
  | registry a =>
    simp only [perform] at hperform
    split at hperform
    · next hlookup =>
      cases hperform
      obtain ⟨record', hrecord, hid, hidentity⟩ :=
        hinv.registry _ _ (MemoryApproverRegistry.lookup_of_getApprover hlookup)
      exact ⟨record', (((List.prefix_append _ _).trans hlog).filterMap _).subset hrecord, hid,
        hidentity⟩
    · cases hperform
  | _ => cases hperform

/-- The role of a task at the approval store. -/
def roleOf (svc : WalletService) (p : System S) (i : Nat) : ApprovalStore.Role :=
  (p.tasks[i]?).bind fun task => task.1.submission svc

theorem roleOf_fits (hrun : run svc intoApiError moves = some p) (hlog : log <+: p.log) (i : Nat) :
    S.Fits (roleOf svc p i) (Pool.trace (storeLog log) i) := by
  rw [trace_storeLog]
  obtain ⟨rest, hrest⟩ := Pool.trace_mono hlog i
  cases hi : p.tasks[i]? with
  | none =>
    rw [Pool.trace_eq_nil hrun hi] at hrest
    rw [(List.append_eq_nil_iff.1 hrest).1, roleOf, hi]
    exact fun y hy => absurd hy List.not_mem_nil
  | some task =>
    have hafter := Pool.run_after hrun hi
    rw [← hrest] at hafter
    obtain ⟨q, hq⟩ := hafter.of_append
    rw [roleOf, hi]
    exact role_fits hq

theorem listed_submissions (hS : S.Sound) (hrun : run svc intoApiError moves = some p)
    {s s' : State S} (hlog : log <+: p.log) (hinv : Inv log s) {a : Ans S}
    {r : S.Res (S.listOp requestId)}
    (hperform : perform s (.store (S.listOp requestId)) a = some (r, s'))
    (hread : S.readList requestId r = .ok approvals) :
    ∃ l : List (ApproverId × SignedApproval), approvals = l.map Prod.snd ∧
      (l.map Prod.fst).Nodup ∧ ∀ x ∈ l, x.2.requestId = requestId ∧
        ∃ j call q, p.tasks[j]? = some (call, q) ∧ call.submission svc = some (x.2, x.1) ∧
          (Pool.trace log j).filterMap storeEvent ≠ [] := by
  obtain ⟨op, a', r', heq, -⟩ | ⟨op, a', r', heq, hlist, -⟩ | ⟨hno, -⟩ := perform_cases hperform
  · cases heq
  · cases heq
    obtain ⟨l, rfl, hnodup, hl⟩ := hS _ _ _ _ _ _ _ _ hinv.approvals (roleOf_fits hrun hlog) hlist
      hread
    refine ⟨l, rfl, hnodup, fun x hx => ?_⟩
    obtain ⟨hreq, j, hrole, htrace⟩ := hl x hx
    obtain ⟨⟨call, q⟩, hj, hsub⟩ := Option.bind_eq_some_iff.1 hrole
    rw [trace_storeLog] at htrace
    exact ⟨hreq, j, call, q, hj, hsub, htrace⟩
  · exact hno.elim

/-- What a listing of a sound store returns was submitted, one approval for each approver id, by
approvers with registered identities and with signatures that verify. -/
theorem listed_approvals (hS : S.Sound) (hrun : run svc intoApiError moves = some p)
    {r : S.Res (S.listOp requestId)} (h : (i, ⟨.store (S.listOp requestId), r⟩) ∈ p.log)
    (hread : S.readList requestId r = .ok approvals) :
    ∃ l : List (ApproverId × SignedApproval), approvals = l.map Prod.snd ∧
      (l.map Prod.fst).Nodup ∧ ∀ x ∈ l, x.2.requestId = requestId ∧
        (x.2, x.1) ∈ submitted svc p ∧ (∃ record ∈ addedApprovers p.log,
          record.approverId = x.1 ∧ record.identity = x.2.approver) ∧
        x.2.verifySignature svc.crypto = .ok () := by
  obtain ⟨log, s, a, s', hlog, hinv, hperform⟩ := Pool.log_explained Inv.initial Inv.perform hrun h
  replace hlog : log <+: p.log := (List.prefix_append _ _).trans hlog
  obtain ⟨l, rfl, hnodup, hl⟩ := listed_submissions hS hrun hlog hinv hperform hread
  refine ⟨l, rfl, hnodup, fun x hx => ?_⟩
  obtain ⟨hreq, j, call, q, hj, hsub, hstored⟩ := hl x hx
  -- what the recording did before it reached the store
  have hreached : (Pool.trace p.log j).filterMap storeEvent ≠ [] := by
    obtain ⟨rest, hrest⟩ := Pool.trace_mono hlog j
    rw [← hrest, List.filterMap_append]
    exact List.append_ne_nil_of_left_ne_nil hstored _
  obtain ⟨⟨record, hrecord, hidentity, -⟩, hsignature⟩ :=
    submission_reached (Pool.run_after hrun hj) hsub hreached
  obtain ⟨record', hreg, hid, hsame⟩ :=
    registered_of_getApprover hrun (Pool.mem_of_mem_trace hrecord)
  exact ⟨hreq, List.mem_filterMap.2 ⟨_, List.mem_of_getElem? hj, hsub⟩,
    ⟨record', hreg, hid, hsame.trans hidentity⟩, hsignature⟩

theorem Honest.setRegistered (hhonest : Honest svc p) {approverSet : ApproverSetId}
    {found : Except RegistryError ApproverSet}
    (h : (i, ⟨.registry (.getApproverSet approverSet), found⟩) ∈ p.log) :
    ∃ set ∈ registeredSets p.log, set.id = approverSet := by
  obtain ⟨n, hn⟩ := List.mem_iff_getElem?.1 h
  obtain ⟨set, hset, hid⟩ := hhonest.sets_known (n, approverSet)
    (List.mem_filterMap.2 ⟨_, List.mk_mem_zipIdx_iff_getElem?.2 hn, rfl⟩)
  exact ⟨set, ((List.take_prefix n p.log).filterMap _).subset hset, hid⟩

theorem mem_quorumDecisions {x : QuorumDecision} (h : x ∈ quorumDecisions log) :
    ∃ decisionId policyId total rationale, (x.task, ⟨.evaluate x.request, Except.ok
      (.requireQuorum decisionId policyId x.threshold total x.approverSet rationale)⟩) ∈ log := by
  obtain ⟨y, hy, hx⟩ := List.mem_filterMap.1 h
  split at hx
  · cases hx
    exact ⟨_, _, _, _, hy⟩
  · cases hx

theorem after_of_returned (hrun : run svc intoApiError moves = some p)
    {args : WalletService.SignArgs} {rounds : Nat} {response : EnclaveSignResponse}
    (h : p.tasks[i]? = some (.sign args rounds, .ret (.signed (.ok response)))) :
    (svc.sign args rounds).run.After (Pool.trace p.log i)
      (.ret (.ok response)) := by
  obtain ⟨result, hresult, hsign⟩ := (Pool.run_after hrun h).ret_of_map
  cases hresult
  exact hsign

/-- **Over a sound store, in an honest run, every signature returned under a quorum decision is
backed by a quorum.** -/
theorem quorumSound_of_sound (hS : S.Sound) (hrun : run svc intoApiError moves = some p)
    (hhonest : Honest svc p) : QuorumSound svc p := by
  rintro i args rounds response hsigned decision hdecision rfl
  obtain ⟨decisionId, policyId, total, rationale, hdecided⟩ := mem_quorumDecisions hdecision
  obtain ⟨hpayload, ⟨found, hfound⟩, ⟨r, approvals, hr, hread, hall, hle⟩,
    enclaveRequest, hrequest, hmessage, henclave⟩ :=
    WalletService.sign_succeeded (after_of_returned hrun hsigned) (Pool.mem_trace hdecided)
  refine ⟨enclaveRequest, Pool.mem_of_mem_trace henclave, hrequest, ?_⟩
  obtain ⟨set, hset, hid⟩ := hhonest.setRegistered (Pool.mem_of_mem_trace hfound)
  obtain ⟨l, rfl, hnodup, hl⟩ := listed_approvals hS hrun (Pool.mem_of_mem_trace hr) hread
  have hmember : ∀ x ∈ l, x.1 ∈ set.members ∧ x.2.decision = .approve ∧
      x.2.messageHash = svc.crypto.sha256 enclaveRequest.message := by
    intro x hx
    obtain ⟨hreq, hsub, -, -⟩ := hl x hx
    have happrove := hall x.2 (List.mem_map_of_mem hx)
    obtain ⟨hmem, hhash⟩ := hhonest.members_submit decision hdecision set hset hid _ hsub hreq
      happrove
    refine ⟨hmem, happrove, ?_⟩
    rw [hhash, hmessage, WalletService.message, hpayload]
  refine ⟨set, hset, hid, l, by simpa using hle, hnodup, ?_, fun x hx => ?_⟩
  · -- equal keys would be two members registered with one key
    refine List.Nodup.map_on (fun x hx y hy hkey => ?_) (List.Nodup.of_map _ hnodup)
    obtain ⟨-, -, ⟨record, hrec, hrid, hident⟩, -⟩ := hl x hx
    obtain ⟨-, -, ⟨record', hrec', hrid', hident'⟩, -⟩ := hl y hy
    by_contra hne
    have hids : x.1 ≠ y.1 := fun heq => hne (List.inj_on_of_nodup_map hnodup hx hy heq)
    refine hhonest.keys_distinct set hset record hrec record' hrec' (hrid ▸ (hmember x hx).1)
      (hrid' ▸ (hmember y hy).1) (by rw [hrid, hrid']; exact hids) ?_
    rw [hident, hident', hkey]
  · obtain ⟨hreq, hsub, hreg, hsignature⟩ := hl x hx
    obtain ⟨hmem, happrove, hhash⟩ := hmember x hx
    exact ⟨hmem, hsub, hreg, happrove, hreq, hhash, hsignature⟩

end Sound

/-! ## The two backends -/

/-- **Every signature returned under a quorum decision is backed by a quorum, in every honest run
over either approval store.** -/
theorem quorumSound_of_honest (b : Backend) (svc : WalletService)
    (intoApiError : ServiceError → ApiError) (moves : List (Move Call (Ans b.store)))
    (p : System b.store) (hrun : run svc intoApiError moves = some p) (hhonest : Honest svc p) :
    QuorumSound svc p :=
  quorumSound_of_sound b.sound hrun hhonest

/-! ### Two runs

Two approvers are registered, and a set with both or one of them as its members. A signing call is
told to collect an approval from each member of that set. Both submit a valid one to the service,
or the first one submits one to the handler. The mock enclave without a pinned key signs; all values
are real. -/

namespace Sample

open Enclave.Sample

/-- An approver. -/
def approverId : ApproverId := ⟨6⟩

/-- Another one. -/
def otherApproverId : ApproverId := ⟨7⟩

/-- Their set. -/
def approverSetId : ApproverSetId := ⟨8⟩

/-- The policy asks for as many approvals as the set has members. -/
def decision (members : UInt8) : PolicyDecision :=
  .requireQuorum ⟨3⟩ ⟨4⟩ members members approverSetId []

/-- No signature verifies but the listed ones. -/
def crypto : Crypto := .ofTablesOnly { mockTables with
  signatures := ((approverKey, approvalPreimage approval), approvalSignature)
    :: ((otherApproverKey, approvalPreimage otherApproval), otherApprovalSignature)
    :: mockTables.signatures }

/-- The service of the runs. -/
def service : WalletService := serviceWith crypto

/-- An approver with the key. -/
def external (name : String) (key : FixedBytes 32) : ApproverCreate where
  identity := .external name key.bytes .ed25519
  label := name
  ownerId := ⟨"ops"⟩
  webhookUrl := none

/-- A set that asks for an approval of each of its members. -/
def setOf (members : List ApproverId) : ApproverSetCreate where
  name := "treasury"
  ownerId := ⟨"ops"⟩
  members := members
  threshold := UInt8.ofNat members.length
  total := UInt8.ofNat members.length
  quorumTimeoutSecs := none

/-- The wallet. -/
def wallet : WalletRecord := ⟨walletId, ⟨.ed25519, 2, none, [], []⟩, .active⟩

/-- The approval of the first approver, as it is posted. -/
def posted : Call :=
  .submitApproval requestId.toString {
    approverId := approverId.toString
    approvalId := approval.approvalId.toString
    decision := .approve
    signatureHex := hexEncode approvalSignature.bytes
    timestampUnixMs := 1000
    messageHashHex := hexEncode messageHash.bytes
    identity := .external "alice" (hexEncode approverKey.bytes) .ed25519 }

/-- An approval as the service keeps it. -/
def signedApproval (name : String) (a : EnclaveApproval) : SignedApproval where
  approvalId := a.approvalId
  approver := .external name a.approverPublicKey .ed25519
  requestId := a.requestId
  messageHash := a.messageHash
  decision := .approve
  timestampUnixMs := a.timestampUnixMs
  signature := a.signature

/-- The approval of the first approver, handed to the service. -/
def handedByAlice : Call := .recordApproval (signedApproval "alice" approval) approverId messageHash

/-- The approval of the second approver. -/
def handedByBob : Call :=
  .recordApproval (signedApproval "bob" otherApproval) otherApproverId messageHash

/-- What the enclave makes of the request of the signing call. -/
def enclaveResult : Except (Fault EnclaveError) EnclaveSignResponse :=
  (⟨attestationSeed, none, false⟩ : MockEnclave).signInEnclave { mockDeps with crypto } env
    (service.enclaveRequest signArgs requestId wallet shares none)

/-- What happens in a run. -/
abbrev Moves := List (Move Call (Ans Backend.memory.store))

/-- An approver registers. -/
def registration (task : Nat) (create : ApproverCreate) (id : ApproverId) : Moves :=
  [.spawn (.addApprover create), .act task (.registry (.approverId id)),
   .act task (.registry (.time 100)), .act task (.registry .unit)]

/-- A panic of the enclave is no answer. -/
def enclaveAnswer : Moves :=
  match enclaveResult with
  | .ok response => [.act 3 (.signed (.ok response))]
  | .error (.err e) => [.act 3 (.signed (.error e))]
  | .error .panic => []

/-- The set is stored. -/
def setCreation (members : List ApproverId) : Moves :=
  [.spawn (.createApproverSet (setOf members)), .act 2 (.registry .unit),
   .act 2 (.registry (.order [])), .act 2 (.registry (.approverSetId approverSetId)),
   .act 2 (.registry (.time 200)), .act 2 (.registry .unit)]

/-- The signing call until it starts to collect, from a set of this many members. -/
def signingStart (members : Nat) : Moves :=
  [.spawn (.sign signArgs 1), .act 3 (.wallet (some wallet)), .act 3 (.requestId requestId),
   .act 3 (.emitted (.ok ())), .act 3 (.now 900),
   .act 3 (.evaluated (.ok (decision (UInt8.ofNat members)))), .act 3 (.emitted (.ok ())),
   .act 3 (.registry .unit)] ++ List.replicate members (.act 3 (.registry .unit))
  ++ [.act 3 (.emitted (.ok ())), .act 3 (.instant 0)]

/-- The submission is the call `task`. -/
def recording (task : Nat) (submission : Call) : Moves :=
  [.spawn submission, .act task (.registry .unit), .act task (.now 1500), .act task (.store ()),
   .act task (.store ())]

/-- The signing call polls the store, and reports each approval. -/
def signingPoll (members : Nat) : Moves :=
  .act 3 (.store ()) :: List.replicate members (.act 3 (.emitted (.ok ())))

/-- The signing call from there until it asks the enclave. -/
def signingRest : Moves :=
  [.act 3 (.emitted (.ok ())),
   .act 3 (.sharesListed (.ok [⟨walletId, 1⟩, ⟨walletId, 2⟩, ⟨walletId, 3⟩])),
   .act 3 (.shareRead (.ok ⟨⟨walletId, 1⟩, 0, ⟨1, ⟨2, 3⟩, shareBlob1⟩⟩)),
   .act 3 (.shareRead (.ok ⟨⟨walletId, 2⟩, 0, ⟨2, ⟨2, 3⟩, shareBlob2⟩⟩)),
   .act 3 (.emitted (.ok ()))]

/-- The run until the signing call polls. -/
def approved (members : List ApproverId) (submissions : List Call) : Moves :=
  registration 0 (external "alice" approverKey) approverId
    ++ registration 1 (external "bob" otherApproverKey) otherApproverId ++ setCreation members
    ++ signingStart members.length
    ++ (submissions.zipIdx 4).flatMap fun x => recording x.2 x.1

/-- The rest of the run. -/
def signing (members : Nat) : Moves :=
  signingPoll members ++ signingRest ++ enclaveAnswer ++ [.act 3 (.emitted (.ok ()))]

/-- The whole run. -/
def moves (members : List ApproverId) (submissions : List Call) : Moves :=
  approved members submissions ++ signing members.length

/-- A signing call that returned a signature. -/
def returnedSignature : Call × Act S Outcome → Bool
  | (.sign _ _, .ret (.signed (.ok _))) => true
  | _ => false

/-- The signing call of the run returned a signature under a decision that asked for this many
approvals. -/
def signed (threshold : UInt8) (p : System S) : Bool :=
  (p.tasks[3]?).any returnedSignature &&
    (quorumDecisions p.log).any fun x => x.task = 3 ∧ x.threshold = threshold

theorem exists_of_signed {threshold : UInt8} {p : System S} (h : signed threshold p = true) :
    ∃ args rounds response, p.tasks[3]? = some (.sign args rounds, .ret (.signed (.ok response))) ∧
      ∃ x ∈ quorumDecisions p.log, x.task = 3 ∧ x.threshold = threshold := by
  rw [signed, Bool.and_eq_true, Option.any_eq_true, List.any_eq_true] at h
  obtain ⟨⟨task, htask, hreturned⟩, x, hx, hx'⟩ := h
  unfold returnedSignature at hreturned
  split at hreturned
  · exact ⟨_, _, _, htask, x, hx, by simpa using hx'⟩
  · cases hreturned

/-- Both approvers are members, and approve. -/
def honestMoves : Moves := moves [approverId, otherApproverId] [handedByAlice, handedByBob]

/-- The second approver is the only member, and the first one approves. -/
def outsiderMoves : Moves := moves [otherApproverId] [posted]

end Sample

open Sample

/-- The two members of the set approve: the run is honest and ends with a signature. -/
theorem quorumSound_of_honest_members :
    ∃ p, run service intoApiError honestMoves = some p ∧
      signed 2 p = true ∧ QuorumSound service p := by
  have hfinal : (run service intoApiError honestMoves).any
      (fun p => signed 2 p && decide (Honest service p)) = true := by
    decide +kernel
  obtain ⟨p, hrun, hp⟩ := (Option.any_eq_true _ _).1 hfinal
  obtain ⟨hsigned, hhonest⟩ := Bool.and_eq_true_iff.1 hp
  exact ⟨p, hrun, hsigned, quorumSound_of_honest .memory service intoApiError
    honestMoves p hrun (of_decide_eq_true hhonest)⟩

/-- An approver outside the set approves, and the service signs. -/
theorem quorumSound_fails_for_outsider :
    ∃ p, run service intoApiError outsiderMoves = some p ∧
      ¬ QuorumSound service p := by
  have hfinal : (run service intoApiError outsiderMoves).any
      (fun p => signed 1 p && decide (∀ set ∈ registeredSets p.log,
        ∀ x ∈ submitted service p, x.2 ∉ set.members)) = true := by
    decide +kernel
  obtain ⟨p, hrun, hp⟩ := (Option.any_eq_true _ _).1 hfinal
  obtain ⟨hsigned, houtside⟩ := Bool.and_eq_true_iff.1 hp
  obtain ⟨args, rounds, response, htask, x, hx, hi, hthreshold⟩ := exists_of_signed hsigned
  refine ⟨p, hrun, fun hsound => ?_⟩
  obtain ⟨_, -, -, set, hset, -, backing, hle, -, -, hbacking⟩ :=
    hsound 3 args rounds response htask x hx hi
  -- one approval is needed, and nobody in the set submitted one
  rw [hthreshold] at hle
  obtain ⟨y, hy⟩ := List.exists_mem_of_length_pos (Nat.lt_of_lt_of_le Nat.zero_lt_one hle)
  obtain ⟨hmember, hsubmitted, -⟩ := hbacking y hy
  exact of_decide_eq_true houtside set hset _ hsubmitted hmember

end QfcServerWallet.Service
