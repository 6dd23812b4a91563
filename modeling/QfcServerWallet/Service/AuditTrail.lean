import QfcServerWallet.Service.QuorumSound

/-!
# The audit trail of a signature

Runs of the service in which every subsystem answers as it likes, success or failure: `perform` is
any function from a state, an operation and what the outside world decides to an answer. Signing
calls come with any approver (`ServiceCall`), and any other calls may run between them.

* `auditTrail log requestId`: the events of a request that were emitted, in order. An event whose
  emission failed is not in it.
* `attemptKinds`: the events of a request that may be signed, up to `SigningAttempted`.
* Request ids are drawn once. Without that, two calls would share one trail.

Results: `signWith_cleared` and **`signature_audited`**.
-/

namespace QfcServerWallet.Service

open Lib Audit Enclave Policy Quorum Sss

variable {S : ApprovalStore} {x : ServiceEvent S} {approvals : List SignedApproval}
  {tr : List (ServiceEvent S)}

/-! ## Emitted events -/

/-- The audit event that was emitted. -/
def emitted : ServiceEvent S → Option AuditEventDraft
  | ⟨.emit draft, .ok ()⟩ => some draft
  | _ => none

/-- The kinds of the audit events that were emitted. -/
def emittedKinds (tr : List (ServiceEvent S)) : List AuditKind :=
  (tr.filterMap emitted).map AuditEventDraft.kind

/-- The audit events of a request. -/
def auditTrail (log : Log S) (requestId : RequestId) : List AuditEventDraft :=
  (log.filterMap fun x => emitted x.2).filter fun draft => draft.requestId = some requestId

theorem emitted_eq_some {draft : AuditEventDraft} (h : emitted x = some draft) :
    x = ⟨.emit draft, Except.ok ()⟩ := by
  unfold emitted at h
  split at h
  · cases h
    rfl
  · cases h

@[simp] theorem emittedKinds_append (tr tr' : List (ServiceEvent S)) :
    emittedKinds (tr ++ tr') = emittedKinds tr ++ emittedKinds tr' := by
  simp [emittedKinds]

theorem emittedKinds_cons (hx : emitted x = none) : emittedKinds (x :: tr) = emittedKinds tr := by
  rw [emittedKinds, List.filterMap_cons_none hx, emittedKinds]

theorem filterMap_emitted_eq_nil (h : ∀ x ∈ tr, Silent x.1) : tr.filterMap emitted = [] := by
  refine List.filterMap_eq_nil_iff.2 fun x hx => ?_
  cases hdraft : emitted x with
  | none => rfl
  | some draft =>
    cases emitted_eq_some hdraft
    exact (h _ hx).elim

theorem emittedKinds_of_silent {α : Type} {p q : Act S α} (hp : p.Uses Silent) (h : p.After tr q) :
    emittedKinds tr = [] := by
  rw [emittedKinds, filterMap_emitted_eq_nil fun x hx => hp.allowed_of_mem h hx, List.map_nil]

/-! ## The events of a request that may be signed -/

/-- How an approval is reported. -/
def approvalKind (approval : SignedApproval) : AuditKind :=
  if approval.decision = .approve then .quorumApprovalReceived else .quorumApprovalRejected

/-- The events a quorum decision adds. -/
def quorumKinds : PolicyDecision → List SignedApproval → List AuditKind
  | .requireQuorum _ _ _ _ _ _, approvals =>
    .quorumNotified :: approvals.map (fun _ => .quorumApprovalReceived)
      ++ [.quorumThresholdReached]
  | _, _ => []

/-- The events of a request, from `SigningRequested` to `SigningAttempted`. -/
def attemptKinds (svc : WalletService) (decision : PolicyDecision)
    (approvals : List SignedApproval) : List AuditKind :=
  [.signingRequested, .signingEvaluated] ++ quorumKinds decision approvals
    ++ (if svc.policyServiceSigner.isSome then [.policyDecisionSigned] else [])
    ++ [.signingAttempted]

/-- The `SigningEvaluated` event of a decision. -/
def evaluatedDraft (svc : WalletService) (requestId : RequestId) (walletId : WalletId)
    (decision : PolicyDecision) : AuditEventDraft :=
  ⟨.system, .signingEvaluated, some requestId, some walletId,
    .object [("decision", svc.decisionValue decision)]⟩

/-- Under a quorum decision, the approver returned these approvals. -/
def Collected (quorum : QuorumApprover S) (requestId : RequestId)
    (tr : List (ServiceEvent S)) : PolicyDecision → List SignedApproval → Prop
  | .requireQuorum _ _ threshold _ _ _, approvals => ∃ timeout part, part <:+: tr ∧
    (quorum.collectApprovals requestId threshold timeout).After part (.ret (.ok approvals))
  | _, _ => True

/-- A call that did this may ask the enclave. -/
structure Cleared (svc : WalletService) (quorum : QuorumApprover S) (requestId : RequestId)
    (decision : PolicyDecision) (approvals : List SignedApproval)
    (tr : List (ServiceEvent S)) : Prop where
  not_denied : decision.isDeny = false
  evaluated : ∃ request : SigningRequest, request.requestId = requestId ∧
    (⟨.evaluate request, Except.ok decision⟩ : ServiceEvent S) ∈ tr
  collected : Collected quorum requestId tr decision approvals
  /-- the decision was audited -/
  reported : ∃ walletId, evaluatedDraft svc requestId walletId decision ∈ tr.filterMap emitted
  kinds : emittedKinds tr = attemptKinds svc decision approvals

theorem Collected.mono {quorum : QuorumApprover S} {requestId : RequestId}
    {tr' : List (ServiceEvent S)} {decision : PolicyDecision}
    (h : Collected quorum requestId tr decision approvals) (htr : tr <:+: tr') :
    Collected quorum requestId tr' decision approvals := by
  cases decision with
  | allow | deny => trivial
  | requireQuorum =>
    obtain ⟨timeout, part, hpart, hafter⟩ := h
    exact ⟨timeout, part, hpart.trans htr, hafter⟩

namespace WalletService

variable {svc : WalletService} {quorum : QuorumApprover S} {args : SignArgs}
variable {requestId : RequestId} {walletId : WalletId} {tr : List (ServiceEvent S)}
  {q : Act S (Except ServiceError EnclaveSignResponse)} {details : List (String × Json)}
  {decision : PolicyDecision} {front back : List (ServiceEvent S)} {response : EnclaveSignResponse}

/-! ## What each phase emits -/

theorem emitFor_ok {actor : Actor} {kind : AuditKind}
    (h : Prog.Yields (emitFor requestId walletId actor kind details) tr ()) :
    tr = [⟨.emit ⟨actor, kind, some requestId, some walletId, .object details⟩, Except.ok ()⟩] :=
  h.ok_of_orThrow.of_perform

theorem emittedKinds_emitFor {actor : Actor} {kind : AuditKind}
    (h : Prog.Yields (emitFor requestId walletId actor kind details) tr ()) :
    emittedKinds tr = [kind] := by
  rw [emitFor_ok h]
  rfl

theorem evaluateRequest_emitted (h : Prog.Yields (svc.evaluateRequest args requestId) tr decision) :
    (∃ request : SigningRequest, request.requestId = requestId ∧
      ⟨.evaluate request, Except.ok decision⟩ ∈ tr) ∧
    evaluatedDraft svc requestId args.walletId decision ∈ tr.filterMap emitted ∧
    emittedKinds tr = [.signingRequested, .signingEvaluated] := by
  obtain ⟨tr₁, rest, _, rfl, hrequested, h₁⟩ := h.ok_of_bind
  obtain ⟨receivedAt, rest, rfl, h₂⟩ := h₁.result_of_perform
  obtain ⟨tr₃, rest, decided, rfl, hevaluate, h₃⟩ := h₂.ok_of_bind
  obtain ⟨tr₄, rest, _, rfl, hevaluated, h₄⟩ := h₃.ok_of_bind
  obtain ⟨rfl, ⟨⟩⟩ := h₄.of_ret
  obtain rfl := emitFor_ok hrequested
  obtain rfl := hevaluate.ok_of_orThrow.of_perform
  obtain rfl := emitFor_ok hevaluated
  exact ⟨⟨⟨requestId, args.walletId, args.requester, args.payload, args.hdPath, receivedAt⟩, rfl,
    by simp⟩, by simp [emitted, evaluatedDraft], rfl⟩

theorem emittedKinds_emitApprovals
    (h : Prog.Yields (emitApprovals requestId walletId approvals) tr ()) :
    emittedKinds tr = approvals.map approvalKind := by
  induction approvals generalizing tr with
  | nil =>
    obtain ⟨rfl, -⟩ := h.of_ret
    rfl
  | cons a as ih =>
    obtain ⟨tr₁, tr₂, _, rfl, hemit, hrest⟩ := h.ok_of_bind
    rw [emittedKinds_append, emittedKinds_emitFor hemit, ih hrest]
    rfl

theorem received_of_no_reject (h : approvals.find? (fun a => a.decision = .reject) = none) :
    approvals.map approvalKind = approvals.map fun _ => .quorumApprovalReceived := by
  refine List.map_congr_left fun a ha => ?_
  have hne : a.decision ≠ .reject := by simpa using List.find?_eq_none.1 h a ha
  cases hd : a.decision with
  | approve => rw [approvalKind, if_pos hd]
  | reject => exact absurd hd hne

theorem emittedKinds_concludeQuorum {threshold : UInt8}
    (h : Prog.Yields (concludeQuorum requestId walletId threshold approvals) tr ()) :
    emittedKinds tr = [.quorumThresholdReached] := by
  unfold concludeQuorum at h
  split at h
  · exact h.false_of_error.elim
  · exact emittedKinds_emitFor h

theorem clearDecision_emitted
    (h : Prog.Yields (svc.clearDecision quorum args requestId decision) tr ()) :
    decision.isDeny = false ∧ ∃ approvals, Collected quorum requestId tr decision approvals ∧
      emittedKinds tr = quorumKinds decision approvals := by
  cases decision with
  | deny => exact h.false_of_error.elim
  | allow =>
    obtain ⟨rfl, -⟩ := h.of_ret
    exact ⟨rfl, [], trivial, rfl⟩
  | requireQuorum decisionId policyId threshold total approverSet rationale =>
    obtain ⟨found, identities, approvals, tr₁, tr₂, tr₃, tr₄, tr₅, tr₆, rfl, hidentities, hrequest,
      hnotified, hcollected, hreceived, hconclude⟩ := collectQuorum_ok h
    refine ⟨rfl, approvals, ⟨_, tr₄, ?_, hcollected⟩, ?_⟩
    · exact ⟨⟨.registry (.getApproverSet approverSet), found⟩ :: (tr₁ ++ (tr₂ ++ tr₃)), tr₅ ++ tr₆,
        by simp⟩
    · have hfound : emittedKinds [(⟨.registry (.getApproverSet approverSet), found⟩ :
          ServiceEvent S)] = [] := rfl
      rw [← List.singleton_append]
      simp only [emittedKinds_append, hfound,
        emittedKinds_of_silent (silent_identitiesOf found) hidentities,
        emittedKinds_of_silent (quorum.silent_requestApproval _) hrequest,
        emittedKinds_emitFor hnotified,
        emittedKinds_of_silent (quorum.silent_collectApprovals _ _ _) hcollected,
        emittedKinds_emitApprovals hreceived, emittedKinds_concludeQuorum hconclude,
        received_of_no_reject (concludeQuorum_ok hconclude), quorumKinds]
      rfl

theorem emittedKinds_signedPolicyDecision {signed : Option SignedPolicyDecision}
    (h : Prog.Yields (svc.signedPolicyDecision args requestId decision) tr signed) :
    emittedKinds tr = if svc.policyServiceSigner.isSome then [.policyDecisionSigned] else [] := by
  unfold signedPolicyDecision at h
  split at h
  · next hnone =>
    obtain ⟨rfl, -⟩ := h.of_ret
    simp [hnone, emittedKinds]
  · next publicKey hsome =>
    obtain ⟨tr₁, rest, bundle, rfl, hbundle, h₁⟩ := h.ok_of_bind
    obtain ⟨tr₂, rest, _, rfl, hemit, h₂⟩ := h₁.ok_of_bind
    obtain ⟨rfl, -⟩ := h₂.of_ret
    obtain rfl := hbundle.ok_of_orThrow.of_perform
    rw [List.append_nil, emittedKinds_append, emittedKinds_emitFor hemit, hsome]
    rfl

theorem signAndAudit_asked {request request' : EnclaveSignRequest}
    {r : Except EnclaveError EnclaveSignResponse}
    (h : (svc.signAndAudit request).run.After (front ++ ⟨.signInEnclave request', r⟩ :: back) q) :
    request' = request ∧ emittedKinds front = [.signingAttempted] := by
  have hemits : (emitFor request.requestId request.walletId .system .signingAttempted [] :
      ServiceM S Unit).run.Uses fun e => ¬ AsksEnclave e := uses_emitFor fun _ _ => id
  obtain ⟨front₁, front₂, _, rfl, hattempted, hrest⟩ := h.split_run_bind hemits (not_not.2 trivial)
  rw [emittedKinds_append, emittedKinds_emitFor hattempted]
  cases front₂ with
  | nil =>
    cases hrest with
    | cons => exact ⟨rfl, rfl⟩
  | cons y front₂ =>
    -- the enclave was asked before this request to it, and is asked once
    have hy : AsksEnclave y.1 := by
      cases hrest with
      | cons => trivial
    rw [List.append_assoc, List.cons_append] at h
    have hlate : WalletService.Audits (.signInEnclave request' : Effect S) :=
      signAndAudit_settles.allowed_of_after h hy (List.mem_append_right _ List.mem_cons_self)
    exact hlate.elim

theorem drawn_unique (h : (svc.signWith quorum args).run.After tr q) {id id' : RequestId}
    (hid : ⟨.newRequestId, id⟩ ∈ tr) (hid' : ⟨.newRequestId, id'⟩ ∈ tr) : id = id' := by
  obtain hsilent | ⟨front, requestId, back, rfl, hsilent, howned⟩ := signWith_draws h
  · exact (hsilent _ hid).elim
  · have hdrawn {id : RequestId} (hid : ⟨.newRequestId, id⟩ ∈
        front ++ ⟨.newRequestId, requestId⟩ :: back) : id = requestId := by
      rcases List.mem_append.1 hid with hid | hid
      · exact (hsilent _ hid).elim
      · rcases List.mem_cons.1 hid with hid | hid
        · cases hid
          rfl
        · exact (howned _ hid).elim
    rw [hdrawn hid, hdrawn hid']

/-- What a call emitted before it asked the enclave. -/
theorem signWith_cleared {request : EnclaveSignRequest}
    {r : Except EnclaveError EnclaveSignResponse}
    (h : (svc.signWith quorum args).run.After (front ++ ⟨.signInEnclave request, r⟩ :: back) q) :
    ∃ decision approvals, Cleared svc quorum request.requestId decision approvals front := by
  have hsilent : ∀ e : Effect S, Silent e → ¬ AsksEnclave e := fun _ => Silent.not_asksEnclave
  have hasks : ¬ ¬ AsksEnclave (.signInEnclave request : Effect S) := not_not.2 trivial
  obtain ⟨tr₁, rest, wallet, rfl, hwallet, h₁⟩ :=
    h.split_run_bind (silent_activeWallet.mono hsilent) hasks
  have hdraws : (liftM (Prog.perform Effect.newRequestId : Act S RequestId) :
      ServiceM S RequestId).run.Uses fun e => ¬ AsksEnclave e :=
    .lift ⟨id, fun _ => trivial⟩
  obtain ⟨tr₂, rest, requestId, rfl, hid, h₂⟩ := h₁.split_run_bind hdraws hasks
  obtain ⟨tr₃, rest, decision, rfl, hevaluate, h₃⟩ :=
    h₂.split_run_bind (uses_evaluateRequest hsilent (fun _ _ => id) fun _ _ => id) hasks
  obtain ⟨tr₄, rest, _, rfl, hclear, h₄⟩ :=
    h₃.split_run_bind (uses_clearDecision hsilent (fun _ _ => id) decision) hasks
  obtain ⟨tr₅, rest, signed, rfl, hsigned, h₅⟩ :=
    h₄.split_run_bind (uses_signedPolicyDecision hsilent fun _ _ => id) hasks
  obtain ⟨tr₆, tr₇, shares, rfl, hshares, h₆⟩ :=
    h₅.split_run_bind (silent_fetchShares.mono hsilent) hasks
  obtain ⟨rfl, hattempted⟩ := signAndAudit_asked h₆
  obtain ⟨⟨evaluated, hrequest, hmem⟩, hreported, hkinds⟩ := evaluateRequest_emitted hevaluate
  obtain ⟨hnot, approvals, hcollected, hquorum⟩ := clearDecision_emitted hclear
  obtain rfl : tr₂ = [⟨.newRequestId, requestId⟩] := hid.ok_of_lift.of_perform
  have hdrawn : emittedKinds ([⟨.newRequestId, requestId⟩] :
      List (ServiceEvent S)) = [] := rfl
  refine ⟨decision, approvals, hnot, ⟨evaluated, hrequest, by simp [hmem]⟩, hcollected.mono ?_,
    ⟨args.walletId, ?_⟩, ?_⟩
  · exact ⟨tr₁ ++ ([⟨.newRequestId, requestId⟩] ++ tr₃), tr₅ ++ (tr₆ ++ tr₇), by simp⟩
  · simp only [List.filterMap_append, List.mem_append]
    exact .inr (.inr (.inl hreported))
  · simp only [emittedKinds_append, emittedKinds_of_silent silent_activeWallet hwallet, hdrawn,
      hkinds, hquorum, emittedKinds_signedPolicyDecision hsigned,
      emittedKinds_of_silent silent_fetchShares hshares, hattempted, attemptKinds,
      List.nil_append, List.append_assoc]

theorem signAndAudit_succeeded {request : EnclaveSignRequest}
    (h : Prog.Yields (svc.signAndAudit request) tr response) :
    ∃ front back, tr = front ++ ⟨.signInEnclave request, Except.ok response⟩ :: back ∧
      emittedKinds back = [.signingSucceeded] := by
  obtain ⟨tr₁, rest, _, rfl, -, h₁⟩ := h.ok_of_bind
  obtain ⟨result, tr₃, rfl, hreport⟩ := h₁.result_of_perform
  match result, hreport with
  | .ok response', hreport =>
    obtain ⟨tr₄, _, _, rfl, hsucceeded, hdone⟩ := hreport.ok_of_bind
    obtain ⟨rfl, ⟨⟩⟩ := hdone.of_ret
    exact ⟨tr₁, tr₄, by simp, emittedKinds_emitFor hsucceeded⟩
  | .error e, hreport =>
    obtain ⟨_, _, _, rfl, -, hdone⟩ := hreport.ok_of_bind
    exact hdone.false_of_error.elim

theorem signWith_succeeded (h : Prog.Yields (svc.signWith quorum args) tr response) :
    ∃ front request back, tr = front ++ ⟨.signInEnclave request, Except.ok response⟩ :: back ∧
      emittedKinds back = [.signingSucceeded] := by
  obtain ⟨wallet, requestId, -, signed, shares, tr₁, tr₂, tr₃, tr₄, tr₅, tr₆, rfl, -, -, -, -, -,
    hsign⟩ := signWith_ok h
  obtain ⟨front, back, rfl, hkinds⟩ := signAndAudit_succeeded hsign
  exact ⟨tr₁ ++ ⟨.newRequestId, requestId⟩ :: (tr₂ ++ (tr₃ ++ (tr₄ ++ (tr₅ ++ front)))),
    svc.enclaveRequest args requestId wallet shares signed, back, by simp, hkinds⟩

end WalletService

/-! ## Runs -/

section Run

variable {svc : WalletService} {intoApiError : ServiceError → ApiError} {σ Ans : Type}
variable {perform : σ → (e : Effect S) → Ans → Option (Reply e × σ)} {s : σ}
variable {moves : List (Move (ServiceCall S) Ans)}
variable {p : Pool (Effect S) Reply σ (ServiceCall S) Outcome} {i j : Nat}
variable (hrun : Pool.run perform (ServiceCall.prog svc intoApiError) (Pool.start s) moves = some p)

include hrun

theorem signing_of_log (hx : (i, x) ∈ p.log) (hnot : ¬ Approving x.1) :
    ∃ call q quorum args, p.tasks[i]? = some (call, q) ∧
      ServiceCall.signs svc call = some (quorum, args) := by
  obtain ⟨hlt, hafter⟩ := Pool.run_tasks hrun
  obtain ⟨⟨call, q⟩, htask⟩ : ∃ task, p.tasks[i]? = some task :=
    ⟨_, List.getElem?_eq_getElem (hlt _ hx)⟩
  refine ⟨call, q, ?_⟩
  cases call with
  | call c =>
    obtain ⟨args, rounds, rfl⟩ :=
      sign_of_not_approving (hafter i _ q htask) (Pool.mem_trace hx) hnot
    exact ⟨svc.orchestrating rounds, args, htask, rfl⟩
  | signWith quorum args => exact ⟨quorum, args, htask, rfl⟩

theorem signs_of_log (hx : (i, x) ∈ p.log) (hnot : ¬ Approving x.1) :
    ∃ quorum args q, (svc.signWith quorum args).run.After (Pool.trace p.log i) q := by
  obtain ⟨call, q, quorum, args, htask, hsigns⟩ := signing_of_log hrun hx hnot
  have htrace := (Pool.run_tasks hrun).2 i call q htask
  rw [signs_eq_some hsigns] at htrace
  obtain ⟨q', hq'⟩ := htrace.of_map
  exact ⟨quorum, args, q', hq'⟩

theorem drawn_of_log (hx : (i, x) ∈ p.log) (hnot : ¬ Approving x.1) (hloud : ¬ Silent x.1)
    (hdraw : x.1 ≠ .newRequestId) :
    ∃ requestId : RequestId, (i, ⟨.newRequestId, requestId⟩) ∈ p.log ∧ Owned requestId x.1 := by
  obtain ⟨quorum, args, q, hafter⟩ := signs_of_log hrun hx hnot
  obtain ⟨requestId, hdrawn, howned⟩ :=
    WalletService.drawn_of_owned hafter (Pool.mem_trace hx) hloud hdraw
  exact ⟨requestId, Pool.mem_of_mem_trace hdrawn, howned⟩

variable (hids : ((drawnIds p.log).map Prod.snd).Nodup)

omit hrun in
include hids in
theorem task_of_drawn {requestId : RequestId} (hi : (i, ⟨.newRequestId, requestId⟩) ∈ p.log)
    (hj : (j, ⟨.newRequestId, requestId⟩) ∈ p.log) : i = j := by
  have hmem {k : Nat} (hk : (k, ⟨.newRequestId, requestId⟩) ∈ p.log) :
      (k, requestId) ∈ drawnIds p.log := List.mem_filterMap.2 ⟨_, hk, rfl⟩
  exact congrArg Prod.fst (List.inj_on_of_nodup_map hids (hmem hi) (hmem hj) rfl)

include hids

theorem auditTrail_eq {requestId : RequestId} (hi : (i, ⟨.newRequestId, requestId⟩) ∈ p.log)
    {log : Log S} (hlog : log ⊆ p.log) :
    auditTrail log requestId = (Pool.trace log i).filterMap emitted := by
  -- an emitted event is of the request whose id its call drew
  have hdrawn {k : Nat} {x : ServiceEvent S} {draft : AuditEventDraft}
      (hx : (k, x) ∈ log) (hdraft : emitted x = some draft) :
      ∃ id : RequestId, (k, ⟨.newRequestId, id⟩) ∈ p.log ∧ draft.requestId = some id := by
    cases emitted_eq_some hdraft
    exact drawn_of_log hrun (hlog hx) id id (by simp)
  let own (x : ServiceEvent S) : Option AuditEventDraft :=
    (emitted x).filter fun draft => draft.requestId = some requestId
  have hothers : ∀ x ∈ log, x.1 ≠ i → own x.2 = none := by
    intro x hx hne
    simp only [own]
    cases hdraft : emitted x.2 with
    | none => rfl
    | some draft =>
      obtain ⟨id, hid, howner⟩ := hdrawn hx hdraft
      have hother : id ≠ requestId := fun heq => hne (task_of_drawn hids (heq ▸ hid) hi)
      simp [Option.filter, howner, hother]
  have hown : ∀ x ∈ Pool.trace log i, own x = emitted x := by
    intro x hx
    simp only [own]
    cases hdraft : emitted x with
    | none => rfl
    | some draft =>
      obtain ⟨id', hid, howner⟩ := hdrawn (Pool.mem_of_mem_trace hx) hdraft
      obtain ⟨quorum, args, q, hafter⟩ := signs_of_log hrun hi id
      obtain rfl := WalletService.drawn_unique hafter (Pool.mem_trace hid) (Pool.mem_trace hi)
      simp [Option.filter, howner]
  rw [auditTrail, List.filter_filterMap]
  exact (Pool.filterMap_trace hothers).trans (List.filterMap_congr hown)

omit hids in
theorem drawn_of_asked {request : EnclaveSignRequest} {r : Except EnclaveError EnclaveSignResponse}
    (hi : (i, ⟨.signInEnclave request, r⟩) ∈ p.log) :
    (i, ⟨.newRequestId, request.requestId⟩) ∈ p.log := by
  obtain ⟨requestId, hmem, rfl⟩ := drawn_of_log hrun hi id id (by simp)
  exact hmem

section Asked

variable {before after : Log S} {request : EnclaveSignRequest}
variable {r : Except EnclaveError EnclaveSignResponse}
variable (hlog : p.log = before ++ (i, ⟨.signInEnclave request, r⟩) :: after)

include hlog

omit hids in
theorem signs_around : ∃ quorum args q, (svc.signWith quorum args).run.After
      (Pool.trace before i ++ ⟨.signInEnclave request, r⟩ :: Pool.trace after i) q := by
  have htrace : Pool.trace p.log i =
      Pool.trace before i ++ ⟨.signInEnclave request, r⟩ :: Pool.trace after i := by
    rw [hlog, Pool.trace_append]
    simp [Pool.trace]
  have hasked : (i, ⟨.signInEnclave request, r⟩) ∈ p.log := by simp [hlog]
  rw [← htrace]
  exact signs_of_log hrun hasked id

theorem asked_once {request' : EnclaveSignRequest} {r' : Except EnclaveError EnclaveSignResponse}
    (hj : (j, ⟨.signInEnclave request', r'⟩) ∈ after) : request'.requestId ≠ request.requestId := by
  intro heq
  have hasked : (i, ⟨.signInEnclave request, r⟩) ∈ p.log := by simp [hlog]
  have hasked' : (j, ⟨.signInEnclave request', r'⟩) ∈ p.log := by simp [hlog, hj]
  -- both are by the call that drew the id, and after the first one it only audits
  obtain rfl := task_of_drawn hids (drawn_of_asked hrun hasked)
    (heq ▸ drawn_of_asked hrun hasked')
  obtain ⟨quorum, args, q, hafter⟩ := signs_around hrun hlog
  have hlate : WalletService.Audits (.signInEnclave request' : Effect S) :=
    WalletService.signWith_settles.allowed_of_after hafter trivial (Pool.mem_trace hj)
  exact hlate.elim

theorem trail_of_asked : ∃ quorum decision approvals,
    Cleared svc quorum request.requestId decision approvals (Pool.trace before i) ∧
    auditTrail before request.requestId = (Pool.trace before i).filterMap emitted := by
  obtain ⟨quorum, args, q, hafter⟩ := signs_around hrun hlog
  obtain ⟨decision, approvals, hcleared⟩ := WalletService.signWith_cleared hafter
  have hasked : (i, ⟨.signInEnclave request, r⟩) ∈ p.log := by simp [hlog]
  exact ⟨quorum, decision, approvals, hcleared,
    auditTrail_eq hrun hids (drawn_of_asked hrun hasked) (by simp [hlog])⟩

end Asked

/-- **No signature without an audit trail.** The enclave is asked at most once for a request id, and
only when the events of that request are those of a request that may be signed; and a call that
returns a signature has these events and `SigningSucceeded` under its request id, and no others. -/
theorem signature_audited :
    (∀ (before : Log S) i request (r : Except EnclaveError EnclaveSignResponse) (after : Log S),
      p.log = before ++ (i, ⟨.signInEnclave request, r⟩) :: after →
      (∀ j request' (r' : Except EnclaveError EnclaveSignResponse),
        (j, ⟨.signInEnclave request', r'⟩) ∈ after → request'.requestId ≠ request.requestId) ∧
      ∃ decision approvals, decision.isDeny = false ∧
        (∃ evaluated, (i, ⟨.evaluate evaluated, Except.ok decision⟩) ∈ before) ∧
        (∃ walletId, evaluatedDraft svc request.requestId walletId decision ∈
          auditTrail before request.requestId) ∧
        (auditTrail before request.requestId).map AuditEventDraft.kind
          = attemptKinds svc decision approvals) ∧
    ∀ i call quorum args response,
      p.tasks[i]? = some (call, .ret (.signed (.ok response))) →
      call.signs svc = some (quorum, args) →
      ∃ (requestId : RequestId) (decision : PolicyDecision) (approvals : List SignedApproval),
        (i, ⟨.newRequestId, requestId⟩) ∈ p.log ∧
        (∃ evaluated, (i, ⟨.evaluate evaluated, Except.ok decision⟩) ∈ p.log) ∧
        Collected quorum requestId (Pool.trace p.log i) decision approvals ∧
        (auditTrail p.log requestId).map AuditEventDraft.kind
          = attemptKinds svc decision approvals ++ [.signingSucceeded] := by
  constructor
  · intro before i request r after hlog
    refine ⟨fun j request' r' hj => asked_once hrun hids hlog hj, ?_⟩
    obtain ⟨quorum, decision, approvals, hcleared, htrail⟩ := trail_of_asked hrun hids hlog
    obtain ⟨evaluated, -, hevaluated⟩ := hcleared.evaluated
    rw [htrail]
    exact ⟨decision, approvals, hcleared.not_denied,
      ⟨evaluated, Pool.mem_of_mem_trace hevaluated⟩, hcleared.reported, hcleared.kinds⟩
  · intro i call quorum args response htask hsigns
    have hafter := Pool.run_after hrun htask
    rw [signs_eq_some hsigns] at hafter
    obtain ⟨result, hresult, hsign⟩ := hafter.ret_of_map
    cases hresult
    obtain ⟨front, request, closing, htrace, hclosing⟩ := WalletService.signWith_succeeded hsign
    rw [htrace] at hsign
    obtain ⟨decision, approvals, hcleared⟩ := WalletService.signWith_cleared hsign
    obtain ⟨evaluated, -, hevaluated⟩ := hcleared.evaluated
    have hasked : (i, ⟨.signInEnclave request, Except.ok response⟩) ∈ p.log :=
      Pool.mem_of_mem_trace (by simp [htrace])
    have hdrawn := drawn_of_asked hrun hasked
    refine ⟨request.requestId, decision, approvals, hdrawn,
      ⟨evaluated, Pool.mem_of_mem_trace (by simp [htrace, hevaluated])⟩, ?_, ?_⟩
    · rw [htrace]
      exact hcleared.collected.mono (List.prefix_append _ _).isInfix
    · rw [auditTrail_eq hrun hids hdrawn (List.Subset.refl _), htrace]
      change emittedKinds _ = _
      rw [emittedKinds_append, hcleared.kinds, ← hclosing]
      rfl

end Run

/-! ### Two signing calls

The first one signs with one collected approval. The second one starts before the first has ended,
and its own `SigningEvaluated` event cannot be written. -/

namespace Interleaved

open Sample Enclave.Sample

/-- What happens in a run. -/
abbrev Moves := List (Move (ServiceCall memoryStore) (Ans memoryStore))

/-- The answer of the mock enclave. -/
def enclaveAnswer : Moves :=
  match enclaveResult with
  | .ok response => [.act 0 (.signed (.ok response))]
  | .error (.err e) => [.act 0 (.signed (.error e))]
  | .error .panic => []

/-- A call that is signed, and one that is not. -/
def moves : Moves :=
  [.spawn (.signWith (.answering (.ok ()) (.ok [signedApproval "alice" approval])) signArgs),
   .act 0 (.wallet (some wallet)), .act 0 (.requestId requestId), .act 0 (.emitted (.ok ())),
   .spawn (.call (.sign signArgs 1)), .act 1 (.wallet (some wallet)), .act 0 (.now 900),
   .act 1 (.requestId ⟨12⟩), .act 0 (.evaluated (.ok (decision 1))), .act 1 (.emitted (.ok ())),
   .act 0 (.emitted (.ok ())), .act 1 (.now 950), .act 0 (.registry .unit),
   .act 1 (.evaluated (.ok (decision 1))), .act 0 (.emitted (.ok ())),
   .act 1 (.emitted (.error (.io "connection closed"))), .act 0 (.emitted (.ok ())),
   .act 0 (.emitted (.ok ())),
   .act 0 (.sharesListed (.ok [⟨walletId, 1⟩, ⟨walletId, 2⟩, ⟨walletId, 3⟩])),
   .act 0 (.shareRead (.ok ⟨⟨walletId, 1⟩, 0, ⟨1, ⟨2, 3⟩, shareBlob1⟩⟩)),
   .act 0 (.shareRead (.ok ⟨⟨walletId, 2⟩, 0, ⟨2, ⟨2, 3⟩, shareBlob2⟩⟩)),
   .act 0 (.emitted (.ok ()))]
  ++ enclaveAnswer ++ [.act 0 (.emitted (.ok ()))]

/-- Where the moves lead. -/
def outcome : Option (Pool (Effect memoryStore) Reply (State memoryStore) (ServiceCall memoryStore)
    Outcome) :=
  Pool.run perform (ServiceCall.prog service intoApiError)
    (Pool.start ⟨MemoryApproverRegistry.empty, memoryStore.empty⟩) moves

/-- A call with an approver of its own that returned a signature. -/
def signedWith : ServiceCall S × Act S Outcome → Bool
  | (.signWith _ _, .ret (.signed (.ok _))) => true
  | _ => false

end Interleaved

/-- The first call leaves a complete trail. -/
theorem signature_audited_beside_failure :
    ∃ p requestId decision approvals, Interleaved.outcome = some p ∧
      (p.tasks[0]?).any Interleaved.signedWith = true ∧
      (auditTrail p.log requestId).map AuditEventDraft.kind
        = attemptKinds Sample.service decision approvals ++ [.signingSucceeded] := by
  have hfinal : Interleaved.outcome.any (fun p => (p.tasks[0]?).any Interleaved.signedWith &&
      decide ((drawnIds p.log).map Prod.snd).Nodup) = true := by
    decide +kernel
  obtain ⟨p, hrun, hp⟩ := (Option.any_eq_true _ _).1 hfinal
  obtain ⟨hsigned, hids⟩ := Bool.and_eq_true_iff.1 hp
  obtain ⟨task, htask, hreturned⟩ := (Option.any_eq_true _ _).1 hsigned
  unfold Interleaved.signedWith at hreturned
  split at hreturned
  · next quorum args response =>
    obtain ⟨requestId, decision, approvals, -, -, -, htrail⟩ :=
      (signature_audited hrun (of_decide_eq_true hids)).2 0 _ quorum args response htask rfl
    exact ⟨p, requestId, decision, approvals, hrun, hsigned, htrail⟩
  · cases hreturned

end QfcServerWallet.Service
