import QfcServerWallet.Service.Collector

/-!
# What the calls do

Traces of `sign`, `record_approval` and `submit_approval`, read back from their programs.

Results: **`sign_succeeded`**, `recordApproval_reached`, `role_fits`, `signWith_draws` and
`signWith_settles`.
-/

namespace QfcServerWallet.Service

open Lib Audit Enclave Policy Quorum Sss

variable {S : ApprovalStore} {requestId : RequestId} {e : Effect S}

/-! ## Operations of the phases of `sign` -/

/-- Neither a drawn request id, a policy evaluation or a request to the enclave, nor a change of the
registry or the approval store. -/
def Quiet : Effect S → Prop
  | .store op => ∃ requestId, op = S.listOp requestId
  | .registry op => Lookup op
  | .newRequestId | .evaluate _ | .signInEnclave _ => False
  | _ => True

/-- A request to the enclave, or an audit event. -/
def Closing : Effect S → Prop
  | .emit _ | .signInEnclave _ => True
  | _ => False

/-- What is done for one request once its id is drawn. -/
def Owned (requestId : RequestId) : Effect S → Prop
  | .emit draft => draft.requestId = some requestId
  | .evaluate request => request.requestId = requestId
  | .signInEnclave request => request.requestId = requestId
  | .newRequestId => False
  | _ => True

theorem Silent.quiet (h : Silent e) : Quiet e := by
  cases e with
  | emit => exact h.elim
  | _ => exact h

theorem Silent.owned (h : Silent e) : Owned requestId e := by
  cases e with
  | emit | newRequestId | evaluate | signInEnclave => exact h.elim
  | _ => trivial

theorem Quiet.listsOnly (h : Quiet e) : ListsOnly e := by
  cases e with
  | store op => exact h
  | _ => trivial

theorem Closing.listsOnly (h : Closing e) : ListsOnly e := by
  cases e with
  | store op => exact h.elim
  | _ => trivial

namespace WalletService

variable {svc : WalletService} {approverSet : ApproverSetId} {wallet : WalletRecord}

/-! ### Phases without audit events -/

theorem silent_activeWallet {id : WalletId} : (activeWallet id).run.Uses (@Silent S) := by
  refine .run_bind (.lift ⟨trivial, fun _ => trivial⟩) fun found => ?_
  cases found with
  | none => trivial
  | some wallet =>
    simp only
    split
    · trivial
    · trivial

theorem silent_resolveIdentities (members : List ApproverId) :
    (resolveIdentities members).run.Uses (@Silent S) := by
  induction members with
  | nil => trivial
  | cons m ms ih =>
    exact .run_bind (.orThrow (.embed ⟨trivial, fun _ => trivial⟩))
      fun _ => .run_bind ih fun _ => trivial

theorem silent_identitiesOf (found : Except RegistryError ApproverSet) :
    (identitiesOf found).run.Uses (@Silent S) := by
  cases found with
  | ok set => exact silent_resolveIdentities _
  | error e => trivial

theorem silent_fetchShares : (fetchShares wallet).run.Uses (@Silent S) := by
  refine .run_bind (.orThrow ⟨trivial, fun _ => trivial⟩) fun ids => ?_
  simp only
  split
  · trivial
  · generalize ids.take wallet.config.threshold.toNat = ids
    induction ids with
    | nil => trivial
    | cons id ids ih =>
      exact .run_bind (.orThrow ⟨trivial, fun _ => trivial⟩) fun _ =>
        .run_bind ih fun _ => trivial

/-! ### Phases that audit the request -/

section Audited

variable {allowed : Effect S → Prop} {requestId : RequestId} {walletId : WalletId}

theorem uses_emitFor
    (hemit : ∀ draft : AuditEventDraft, draft.requestId = some requestId → allowed (.emit draft))
    {actor : Actor} {kind : AuditKind} {details : List (String × Json)} :
    (emitFor requestId walletId actor kind details).run.Uses allowed :=
  .orThrow ⟨hemit _ rfl, fun _ => trivial⟩

variable (hsilent : ∀ e, Silent e → allowed e)
variable (hemit : ∀ draft : AuditEventDraft, draft.requestId = some requestId →
  allowed (.emit draft))

include hemit in
theorem uses_emitApprovals (approvals : List SignedApproval) :
    (emitApprovals requestId walletId approvals).run.Uses allowed := by
  induction approvals with
  | nil => trivial
  | cons a as ih => exact .run_bind (uses_emitFor hemit) fun _ => ih

include hsilent hemit

theorem uses_approvalsOf (collected : Except QuorumError (List SignedApproval)) :
    (approvalsOf requestId walletId collected).run.Uses allowed := by
  unfold approvalsOf
  split
  · trivial
  · unfold reportTimeout
    simp only
    split
    · exact .run_bind (uses_emitFor hemit) fun _ => trivial
    · exact ⟨hsilent _ trivial, fun e => e.elim⟩
  · trivial

theorem uses_clearDecision {quorum : QuorumApprover S} {args : SignArgs}
    (decision : PolicyDecision) :
    (svc.clearDecision quorum args requestId decision).run.Uses allowed := by
  cases decision with
  | allow | deny => trivial
  | requireQuorum decisionId policyId threshold total approverSet rationale =>
    refine .run_bind (.lift (.embed ⟨hsilent _ trivial, fun _ => trivial⟩)) fun found => ?_
    refine .run_bind ((silent_identitiesOf found).mono hsilent) fun identities => ?_
    refine .run_bind
      (.orThrow ((quorum.silent_requestApproval _).mono hsilent)) fun _ => ?_
    refine .run_bind (uses_emitFor hemit) fun _ => ?_
    refine .run_bind
      (.lift ((quorum.silent_collectApprovals _ _ _).mono hsilent)) fun collected => ?_
    refine .run_bind (uses_approvalsOf hsilent hemit collected) fun approvals => ?_
    refine .run_bind (uses_emitApprovals hemit approvals) fun _ => ?_
    unfold concludeQuorum
    split
    · trivial
    · exact uses_emitFor hemit

theorem uses_signedPolicyDecision {args : SignArgs} {decision : PolicyDecision} :
    (svc.signedPolicyDecision args requestId decision).run.Uses allowed := by
  unfold signedPolicyDecision
  split
  · trivial
  · refine .run_bind (.orThrow ⟨hsilent _ trivial, fun _ => trivial⟩)
      fun bundle => ?_
    exact .run_bind (uses_emitFor hemit) fun _ => trivial

theorem uses_evaluateRequest {args : SignArgs}
    (hevaluate : ∀ request, request.requestId = requestId → allowed (.evaluate request)) :
    (svc.evaluateRequest args requestId).run.Uses allowed := by
  refine .run_bind (uses_emitFor hemit) fun _ => ?_
  refine .run_bind (.lift ⟨hsilent _ trivial, fun _ => trivial⟩) fun _ => ?_
  refine .run_bind (.orThrow ⟨hevaluate _ rfl, fun _ => trivial⟩) fun _ => ?_
  exact .run_bind (uses_emitFor hemit) fun _ => trivial

end Audited

variable {tr : List (ServiceEvent S)} {args : SignArgs} {response : EnclaveSignResponse}
  {decision : PolicyDecision} {approvals : List SignedApproval} {rounds : Nat}
  {request : SigningRequest} {threshold : UInt8} {allowed : Effect S → Prop} {walletId : WalletId}
  {listed : Except StoreError (List SignedApproval)} {r : Except PolicyError PolicyDecision}
  {shares : List ShamirShare}

theorem quiet_emitFor {actor : Actor} {kind : AuditKind} {details : List (String × Json)} :
    (emitFor requestId walletId actor kind details).run.Uses (@Quiet S) :=
  uses_emitFor fun _ _ => trivial

theorem quiet_clearDecision {quorum : QuorumApprover S} (decision : PolicyDecision) :
    (svc.clearDecision quorum args requestId decision).run.Uses (@Quiet S) :=
  uses_clearDecision (fun _ => Silent.quiet) (fun _ _ => trivial) decision

theorem quiet_signedPolicyDecision :
    (svc.signedPolicyDecision args requestId decision).run.Uses (@Quiet S) :=
  uses_signedPolicyDecision (fun _ => Silent.quiet) fun _ _ => trivial

/-! ### The request to the enclave -/

theorem uses_signAndAudit {request : EnclaveSignRequest}
    (hemit : ∀ draft : AuditEventDraft, draft.requestId = some request.requestId →
      allowed (.emit draft)) (hask : allowed (.signInEnclave request)) :
    (svc.signAndAudit request).run.Uses allowed := by
  refine .run_bind (uses_emitFor hemit) fun _ => ?_
  refine .run_bind (.lift ⟨hask, fun _ => trivial⟩) fun result => ?_
  match result with
  | .ok response => exact .run_bind (uses_emitFor hemit) fun _ => trivial
  | .error e => exact .run_bind (uses_emitFor hemit) fun _ => trivial

theorem closing_signAndAudit {request : EnclaveSignRequest} :
    (svc.signAndAudit request).run.Uses (@Closing S) :=
  uses_signAndAudit (fun _ _ => trivial) trivial

/-! ## A signing call that returned a signature -/

theorem pollOutcome_ok (h : pollOutcome threshold listed = some (.ok approvals))
    (hreject : approvals.find? (fun a => a.decision = .reject) = none) :
    listed = .ok approvals ∧ (∀ a ∈ approvals, a.decision = .approve) ∧
      threshold.toNat ≤ approvals.length := by
  obtain ⟨s, rfl, ⟨front, reject, back, rfl, -, hrejected, rfl⟩ | ⟨hno, hle, rfl⟩⟩ :=
    concludes_of_pollOutcome h
  · simp [hrejected] at hreject
  · rw [approves_eq hno] at hle
    refine ⟨rfl, fun a ha => ?_, hle⟩
    cases hd : a.decision with
    | approve => rfl
    | reject => exact absurd hd (hno a ha)

theorem sublist_of_pollOutcome (h : pollOutcome threshold listed = some (.ok approvals)) :
    ∃ all, listed = .ok all ∧ approvals.Sublist all := by
  obtain ⟨s, rfl, ⟨front, reject, back, rfl, -, -, rfl⟩ | ⟨-, -, rfl⟩⟩ :=
    concludes_of_pollOutcome h
  · exact ⟨_, rfl, List.singleton_sublist.2 (by simp)⟩
  · exact ⟨_, rfl, List.Sublist.refl _⟩

theorem collectApprovals_ok {timeout : Nat}
    (h : (svc.collectApprovals requestId threshold timeout rounds).After tr (.ret (.ok approvals)))
    :
    ∃ r : S.Res (S.listOp requestId), ⟨.store (S.listOp requestId), r⟩ ∈ tr ∧
      pollOutcome threshold (S.readList requestId r) = some (.ok approvals) := by
  obtain ⟨started, tr, rfl, hrounds⟩ := h.ret_of_act
  obtain ⟨polls, hpolls⟩ := collection_of_after hrounds
  obtain ⟨r, hr, hpoll⟩ := hpolls.exists_poll
  exact ⟨r, List.mem_cons_of_mem _ hr, hpoll⟩

theorem approvalsOf_ok {collected : Except QuorumError (List SignedApproval)}
    (h : Prog.Yields (approvalsOf requestId walletId collected) tr approvals) :
    tr = [] ∧ collected = .ok approvals := by
  unfold approvalsOf at h
  split at h
  · obtain ⟨rfl, ⟨⟩⟩ := h.of_ret
    exact ⟨rfl, rfl⟩
  · unfold reportTimeout at h
    simp only at h
    split at h
    · obtain ⟨_, _, _, rfl, -, hthrow⟩ := h.ok_of_bind
      exact hthrow.false_of_error.elim
    · obtain ⟨r, -⟩ := h.ret_of_act
      exact r.elim
  · exact h.false_of_error.elim

theorem concludeQuorum_ok
    (h : Prog.Yields (concludeQuorum requestId walletId threshold approvals) tr ()) :
    approvals.find? (fun a => a.decision = .reject) = none := by
  unfold concludeQuorum at h
  split at h
  · exact h.false_of_error.elim
  · assumption

theorem collectQuorum_ok {quorum : QuorumApprover S}
    (h : Prog.Yields (svc.collectQuorum quorum args requestId threshold approverSet) tr ()) :
    ∃ found identities approvals tr₁ tr₂ tr₃ tr₄ tr₅ tr₆,
      tr = ⟨.registry (.getApproverSet approverSet), found⟩ ::
        (tr₁ ++ (tr₂ ++ (tr₃ ++ (tr₄ ++ (tr₅ ++ tr₆))))) ∧
      Prog.Yields (identitiesOf found) tr₁ identities ∧
      (quorum.requestApproval ⟨requestId, svc.crypto.sha256 (svc.message args), identities,
        threshold⟩).After tr₂ (.ret (.ok ())) ∧
      Prog.Yields (emitFor requestId args.walletId .system .quorumNotified
        [("approver_set", .string approverSet.toString),
         ("threshold", jsonNat threshold.toUInt64)]) tr₃ () ∧
      (quorum.collectApprovals requestId threshold (svc.collectTimeout found)).After tr₄
        (.ret (.ok approvals)) ∧
      Prog.Yields (emitApprovals requestId args.walletId approvals) tr₅ () ∧
      Prog.Yields (concludeQuorum requestId args.walletId threshold approvals) tr₆ () := by
  obtain ⟨looked, rest, found, rfl, hfound, h₁⟩ := h.ok_of_bind
  obtain ⟨tr₁, rest, identities, rfl, hidentities, h₂⟩ := h₁.ok_of_bind
  obtain ⟨tr₂, rest, _, rfl, hrequest, h₃⟩ := h₂.ok_of_bind
  obtain ⟨tr₃, rest, _, rfl, hnotified, h₄⟩ := h₃.ok_of_bind
  obtain ⟨tr₄, rest, collected, rfl, hcollected, h₅⟩ := h₄.ok_of_bind
  obtain ⟨read, rest, approvals, rfl, happrovals, h₆⟩ := h₅.ok_of_bind
  obtain ⟨tr₅, tr₆, _, rfl, hreceived, hconclude⟩ := h₆.ok_of_bind
  obtain ⟨rfl, rfl⟩ := approvalsOf_ok happrovals
  obtain rfl : looked = [⟨.registry (.getApproverSet approverSet), found⟩] :=
    hfound.ok_of_lift.of_perform
  exact ⟨found, identities, approvals, tr₁, tr₂, tr₃, tr₄, tr₅, tr₆, rfl, hidentities,
    hrequest.ok_of_orThrow, hnotified, hcollected.ok_of_lift, hreceived, hconclude⟩

theorem collectQuorum_polled
    (h : Prog.Yields (svc.collectQuorum (svc.orchestrating rounds) args requestId threshold
      approverSet) tr ()) :
    (∃ found, ⟨.registry (.getApproverSet approverSet), found⟩ ∈ tr) ∧
    ∃ (r : S.Res (S.listOp requestId)) (approvals : List SignedApproval),
      ⟨.store (S.listOp requestId), r⟩ ∈ tr ∧ S.readList requestId r = .ok approvals ∧
      (∀ a ∈ approvals, a.decision = .approve) ∧ threshold.toNat ≤ approvals.length := by
  obtain ⟨found, identities, approvals, tr₁, tr₂, tr₃, tr₄, tr₅, tr₆, rfl, -, -, -, hcollected, -,
    hconclude⟩ := collectQuorum_ok h
  obtain ⟨r, hr, hpoll⟩ := collectApprovals_ok hcollected
  obtain ⟨hread, hall, hle⟩ := pollOutcome_ok hpoll (concludeQuorum_ok hconclude)
  exact ⟨⟨found, by simp⟩, r, approvals, by simp [hr], hread, hall, hle⟩

theorem evaluateRequest_ok (h : Prog.Yields (svc.evaluateRequest args requestId) tr decision)
    (hmem : ⟨.evaluate request, r⟩ ∈ tr) :
    request.requestId = requestId ∧ request.payload = args.payload ∧ r = .ok decision := by
  obtain ⟨tr₁, rest, _, rfl, hemit, h⟩ := h.ok_of_bind
  obtain ⟨tr₂, rest, receivedAt, rfl, hnow, h⟩ := h.ok_of_bind
  obtain ⟨tr₃, rest, decided, rfl, hevaluate, h⟩ := h.ok_of_bind
  obtain ⟨tr₄, rest, _, rfl, hemit', h⟩ := h.ok_of_bind
  obtain ⟨rfl, ⟨⟩⟩ := h.of_ret
  obtain rfl := hevaluate.ok_of_orThrow.of_perform
  obtain rfl : tr₂ = [⟨.now, receivedAt⟩] := hnow.ok_of_lift.of_perform
  -- the events before and after the evaluation are audit events and a clock reading
  have hquiet {tr : List (ServiceEvent S)} {p q : Act S (Except ServiceError Unit)}
      (hp : p.Uses Quiet) (htr : p.After tr q) :
      ⟨.evaluate request, r⟩ ∉ tr :=
    fun hin => hp.allowed_of_mem htr hin
  simp only [List.mem_append, List.mem_singleton, hquiet quiet_emitFor hemit,
    hquiet quiet_emitFor hemit', List.not_mem_nil, or_false, false_or] at hmem
  rcases hmem with hmem | hmem
  · cases hmem
  · cases hmem
    exact ⟨rfl, rfl, rfl⟩

theorem signAndAudit_ok {request : EnclaveSignRequest}
    (h : Prog.Yields (svc.signAndAudit request) tr response) :
    ⟨.signInEnclave request, Except.ok response⟩ ∈ tr := by
  obtain ⟨tr₁, rest, -, rfl, -, h⟩ := h.ok_of_bind
  obtain ⟨result, tr₃, rfl, hreport⟩ := h.result_of_perform
  match result, hreport with
  | .ok response', hreport =>
    obtain ⟨_, _, _, rfl, -, hdone⟩ := hreport.ok_of_bind
    obtain ⟨-, ⟨⟩⟩ := hdone.of_ret
    exact List.mem_append_right _ List.mem_cons_self
  | .error e, hreport =>
    obtain ⟨_, _, _, rfl, -, hdone⟩ := hreport.ok_of_bind
    exact hdone.false_of_error.elim

theorem activeWallet_ok {id : WalletId} (h : Prog.Yields (activeWallet id) tr wallet) :
    tr = [⟨.getWallet id, some wallet⟩] := by
  obtain ⟨found, tr₂, rfl, hrest⟩ := h.result_of_perform
  match found, hrest with
  | none, hrest => exact hrest.false_of_error.elim
  | some wallet', hrest =>
    simp only at hrest
    split at hrest
    · exact hrest.false_of_error.elim
    · obtain ⟨rfl, ⟨⟩⟩ := hrest.of_ret
      rfl

theorem readShares_ok {ids : List ShareId} (h : Prog.Yields (readShares ids) tr shares) :
    ∃ stored : List StoredShare, shares = stored.map StoredShare.share ∧
      List.Forall₂ (fun id s => ⟨.getShare id, Except.ok s⟩ ∈ tr)
        ids stored := by
  induction ids generalizing tr shares with
  | nil =>
    cases h.of_ret.2
    exact ⟨[], rfl, .nil⟩
  | cons id ids ih =>
    obtain ⟨tr₁, rest, s, rfl, hget, h⟩ := h.ok_of_bind
    obtain ⟨tr₂, tr₃, shares', rfl, hread, h⟩ := h.ok_of_bind
    cases h.of_ret.2
    obtain rfl := hget.ok_of_orThrow.of_perform
    obtain ⟨stored, rfl, hstored⟩ := ih hread
    refine ⟨s :: stored, rfl, .cons (by simp) (hstored.imp fun id s hs => by simp [hs])⟩

theorem fetchShares_ok (h : Prog.Yields (fetchShares wallet) tr shares) :
    ∃ (ids : List ShareId) (stored : List StoredShare),
      ⟨.listShares wallet.walletId, Except.ok ids⟩ ∈ tr ∧
      wallet.config.threshold.toNat ≤ ids.length ∧ shares = stored.map StoredShare.share ∧
      List.Forall₂ (fun id s => ⟨.getShare id, Except.ok s⟩ ∈ tr)
        (ids.take wallet.config.threshold.toNat) stored := by
  obtain ⟨tr₁, tr₂, ids, rfl, hlist, hrest⟩ := h.ok_of_bind
  obtain rfl := hlist.ok_of_orThrow.of_perform
  simp only at hrest
  split at hrest
  · exact hrest.false_of_error.elim
  · next henough =>
    obtain ⟨stored, rfl, hstored⟩ := readShares_ok hrest
    exact ⟨ids, stored, by simp, Nat.not_lt.1 henough, rfl,
      hstored.imp fun id s hs => by simp [hs]⟩

theorem signedPolicyDecision_ok {signed : Option SignedPolicyDecision} {key : Bytes}
    (hsigner : svc.policyServiceSigner = some key)
    (h : Prog.Yields (svc.signedPolicyDecision args requestId decision) tr signed) :
    ∃ bundle, signed = some bundle ∧
      ⟨.signDecision decision requestId args.walletId maxDecisionAgeSecsDefault,
        Except.ok bundle⟩ ∈ tr := by
  simp only [signedPolicyDecision, hsigner] at h
  obtain ⟨tr₁, rest, bundle, rfl, hbundle, h⟩ := h.ok_of_bind
  obtain ⟨tr₂, rest, -, rfl, -, h⟩ := h.ok_of_bind
  obtain ⟨-, ⟨⟩⟩ := h.of_ret
  obtain rfl := hbundle.ok_of_orThrow.of_perform
  exact ⟨bundle, rfl, by simp⟩

theorem signWith_ok {quorum : QuorumApprover S}
    (h : Prog.Yields (svc.signWith quorum args) tr response) :
    ∃ wallet requestId decision signed shares tr₁ tr₂ tr₃ tr₄ tr₅ tr₆,
      tr = tr₁ ++ ⟨.newRequestId, requestId⟩ :: (tr₂ ++ (tr₃ ++ (tr₄ ++ (tr₅ ++ tr₆)))) ∧
      Prog.Yields (activeWallet args.walletId) tr₁ wallet ∧
      Prog.Yields (svc.evaluateRequest args requestId) tr₂ decision ∧
      Prog.Yields (svc.clearDecision quorum args requestId decision) tr₃ () ∧
      Prog.Yields (svc.signedPolicyDecision args requestId decision) tr₄ signed ∧
      Prog.Yields (fetchShares wallet) tr₅ shares ∧
      Prog.Yields (svc.signAndAudit (svc.enclaveRequest args requestId wallet shares signed)) tr₆
        response := by
  obtain ⟨tr₁, rest, wallet, rfl, hwallet, h₁⟩ := h.ok_of_bind
  obtain ⟨drawn, rest, requestId, rfl, hid, h₂⟩ := h₁.ok_of_bind
  obtain ⟨tr₂, rest, decision, rfl, hevaluate, h₃⟩ := h₂.ok_of_bind
  obtain ⟨tr₃, rest, _, rfl, hclear, h₄⟩ := h₃.ok_of_bind
  obtain ⟨tr₄, rest, signed, rfl, hsigned, h₅⟩ := h₄.ok_of_bind
  obtain ⟨tr₅, tr₆, shares, rfl, hshares, hsign⟩ := h₅.ok_of_bind
  obtain rfl : drawn = [⟨.newRequestId, requestId⟩] := hid.ok_of_lift.of_perform
  exact ⟨wallet, requestId, decision, signed, shares, tr₁, tr₂, tr₃, tr₄, tr₅, tr₆, rfl, hwallet,
    hevaluate, hclear, hsigned, hshares, hsign⟩

theorem sign_phases (h : Prog.Yields (svc.sign args rounds) tr response)
    (hmem : ⟨.evaluate request, Except.ok decision⟩ ∈ tr) :
    request.payload = args.payload ∧ ∃ wallet shares signed clear packing asking,
      clear ⊆ tr ∧ packing ⊆ tr ∧ asking ⊆ tr ∧
      Prog.Yields (svc.clearDecision (svc.orchestrating rounds) args request.requestId decision)
        clear () ∧
      Prog.Yields (svc.signedPolicyDecision args request.requestId decision) packing signed ∧
      Prog.Yields (svc.signAndAudit
        (svc.enclaveRequest args request.requestId wallet shares signed)) asking response := by
  obtain ⟨wallet, requestId, decided, signed, shares, tr₁, tr₂, tr₃, tr₄, tr₅, tr₆, rfl, hwallet,
    hevaluate, hclear, hsigned, hshares, hsign⟩ := signWith_ok h
  have hquiet {α : Type} {tr : List (ServiceEvent S)} {p q : Act S α}
      (hp : p.Uses Quiet) (htr : p.After tr q) (r : Except PolicyError PolicyDecision) :
      ⟨.evaluate request, r⟩ ∉ tr :=
    fun hin => hp.allowed_of_mem htr hin
  have hclosing (r : Except PolicyError PolicyDecision) :
      ⟨.evaluate request, r⟩ ∉ tr₆ :=
    fun hin => closing_signAndAudit.allowed_of_mem hsign hin
  -- the evaluation is made in its own phase
  have hin : ⟨.evaluate request, Except.ok decision⟩ ∈ tr₂ := by
    simp only [List.mem_append, List.mem_cons,
      hquiet (silent_activeWallet.mono fun _ => Silent.quiet) hwallet,
      hquiet (quiet_clearDecision decided) hclear, hquiet quiet_signedPolicyDecision hsigned,
      hquiet (silent_fetchShares.mono fun _ => Silent.quiet) hshares, hclosing, or_false,
      false_or] at hmem
    rcases hmem with hmem | hmem
    · cases hmem
    · exact hmem
  obtain ⟨rfl, hpayload, hdecision⟩ := evaluateRequest_ok hevaluate hin
  cases hdecision
  exact ⟨hpayload, wallet, shares, signed, tr₃, tr₄, tr₆, fun x hx => by simp [hx],
    fun x hx => by simp [hx], fun x hx => by simp [hx], hclear, hsigned, hsign⟩

/-- **A signing call under a quorum decision that returned a signature** looked the approver set
up, read a listing without rejects and with at least `threshold` approvals of its request, and had
its message signed. -/
theorem sign_succeeded (h : Prog.Yields (svc.sign args rounds) tr response)
    {decisionId : DecisionId} {policyId : PolicyId} {total : UInt8} {rationale : List RuleHit}
    (hmem : ⟨.evaluate request, Except.ok (.requireQuorum decisionId policyId threshold total
      approverSet rationale)⟩ ∈ tr) :
    request.payload = args.payload ∧
    (∃ found, ⟨.registry (.getApproverSet approverSet), found⟩ ∈ tr) ∧
    (∃ (r : S.Res (S.listOp request.requestId)) (approvals : List SignedApproval),
      ⟨.store (S.listOp request.requestId), r⟩ ∈ tr ∧
      S.readList request.requestId r = .ok approvals ∧
      (∀ a ∈ approvals, a.decision = .approve) ∧ threshold.toNat ≤ approvals.length) ∧
    ∃ enclaveRequest : EnclaveSignRequest, enclaveRequest.requestId = request.requestId ∧
      enclaveRequest.message = svc.message args ∧
      ⟨.signInEnclave enclaveRequest, Except.ok response⟩ ∈ tr := by
  obtain ⟨hpayload, wallet, shares, signed, clear, -, asking, hclear, -, hasking, hcleared, -,
    hsign⟩ := sign_phases h hmem
  obtain ⟨⟨found, hfound⟩, r, approvals, hr, hread, hall, hle⟩ := collectQuorum_polled hcleared
  exact ⟨hpayload, ⟨found, hclear hfound⟩, ⟨r, approvals, hclear hr, hread, hall, hle⟩,
    _, rfl, rfl, hasking (signAndAudit_ok hsign)⟩

theorem sign_bundled {key : Bytes} (hsigner : svc.policyServiceSigner = some key)
    (h : Prog.Yields (svc.sign args rounds) tr response)
    (hmem : ⟨.evaluate request, Except.ok decision⟩ ∈ tr) :
    ∃ wallet shares bundle,
      ⟨.signDecision decision request.requestId args.walletId maxDecisionAgeSecsDefault,
        Except.ok bundle⟩ ∈ tr ∧
      ⟨.signInEnclave (svc.enclaveRequest args request.requestId wallet shares (some bundle)),
        Except.ok response⟩ ∈ tr := by
  obtain ⟨-, wallet, shares, signed, -, packing, asking, -, hpacking, hasking, -, hpacked, hsign⟩ :=
    sign_phases h hmem
  obtain ⟨bundle, rfl, hbundle⟩ := signedPolicyDecision_ok hsigner hpacked
  exact ⟨wallet, shares, bundle, hpacking hbundle, hasking (signAndAudit_ok hsign)⟩

theorem sign_read (h : Prog.Yields (svc.sign args rounds) tr response) :
    ∃ (wallet : WalletRecord) (requestId : RequestId) (signed : Option SignedPolicyDecision)
      (ids : List ShareId) (stored : List StoredShare),
      ⟨.getWallet args.walletId, some wallet⟩ ∈ tr ∧
      ⟨.listShares wallet.walletId, Except.ok ids⟩ ∈ tr ∧
      wallet.config.threshold.toNat ≤ ids.length ∧
      List.Forall₂ (fun id s => ⟨.getShare id, Except.ok s⟩ ∈ tr)
        (ids.take wallet.config.threshold.toNat) stored ∧
      ⟨.signInEnclave (svc.enclaveRequest args requestId wallet
        (stored.map StoredShare.share) signed), Except.ok response⟩ ∈ tr := by
  obtain ⟨wallet, requestId, -, signed, shares, tr₁, tr₂, tr₃, tr₄, tr₅, tr₆, rfl, hwallet, -, -, -,
    hshares, hsign⟩ := signWith_ok h
  obtain ⟨ids, stored, hlist, henough, rfl, hstored⟩ := fetchShares_ok hshares
  exact ⟨wallet, requestId, signed, ids, stored, by simp [activeWallet_ok hwallet],
    by simp [hlist], henough, hstored.imp fun id s hs => by simp [hs],
    by simp [signAndAudit_ok hsign]⟩

/-! ## The order of a signing call -/

theorem uses_sign (hquiet : ∀ e, Quiet e → allowed e) (hclosing : ∀ e, Closing e → allowed e)
    (hdraw : allowed .newRequestId) (hevaluate : ∀ request, allowed (.evaluate request)) :
    (svc.sign args rounds).run.Uses allowed := by
  have hsilent : ∀ e, Silent e → allowed e := fun e he => hquiet e he.quiet
  refine .run_bind (silent_activeWallet.mono hsilent) fun wallet => ?_
  refine .run_bind (.lift ⟨hdraw, fun _ => trivial⟩) fun requestId => ?_
  refine .run_bind (uses_evaluateRequest hsilent (fun _ _ => hquiet _ trivial)
    fun _ _ => hevaluate _) fun decision => ?_
  refine .run_bind ((quiet_clearDecision decision).mono hquiet) fun _ => ?_
  refine .run_bind (quiet_signedPolicyDecision.mono hquiet) fun _ => ?_
  refine .run_bind (silent_fetchShares.mono hsilent) fun _ => ?_
  exact closing_signAndAudit.mono hclosing

/-- A request to the enclave. -/
def AsksEnclave : Effect S → Prop
  | .signInEnclave _ => True
  | _ => False

/-- An audit event. -/
def Audits : Effect S → Prop
  | .emit _ => True
  | _ => False

theorem Silent.not_asksEnclave (h : Silent e) : ¬ AsksEnclave e := by
  cases e with
  | signInEnclave => exact h.elim
  | _ => exact id

theorem Audits.not_asksEnclave (h : Audits e) : ¬ AsksEnclave e := by
  cases e with
  | signInEnclave => exact h.elim
  | _ => exact id

theorem signAndAudit_settles {request : EnclaveSignRequest} :
    (svc.signAndAudit request).run.Settles (@AsksEnclave S) Audits := by
  refine .run_bind (uses_emitFor fun _ _ => id) fun _ => ?_
  refine .perform_run_bind (fun result => ?_) fun _ => Audits.not_asksEnclave
  match result with
  | .ok response => exact .run_bind (uses_emitFor fun _ _ => trivial) fun _ => trivial
  | .error e => exact .run_bind (uses_emitFor fun _ _ => trivial) fun _ => trivial

section Order

variable {quorum : QuorumApprover S} {args : SignArgs}

/-- After it has asked the enclave, a signing call only audits. -/
theorem signWith_settles : (svc.signWith quorum args).run.Settles (@AsksEnclave S) Audits := by
  have hsilent : ∀ e : Effect S, Silent e → ¬ AsksEnclave e := fun _ => Silent.not_asksEnclave
  refine .run_bind (silent_activeWallet.mono hsilent) fun wallet => ?_
  refine .run_bind (.lift ⟨id, fun _ => trivial⟩) fun requestId => ?_
  refine .run_bind (uses_evaluateRequest hsilent (fun _ _ => id) fun _ _ => id)
    fun decision => ?_
  refine .run_bind (uses_clearDecision hsilent (fun _ _ => id) decision)
    fun _ => ?_
  refine .run_bind (uses_signedPolicyDecision hsilent fun _ _ => id) fun _ => ?_
  exact .run_bind (silent_fetchShares.mono hsilent) fun _ => signAndAudit_settles

/-- A signing call draws one request id and works under it. -/
theorem signWith_draws {q : Act S (Except ServiceError EnclaveSignResponse)}
    (h : (svc.signWith quorum args).run.After tr q) :
    (∀ x ∈ tr, Silent x.1) ∨
      ∃ front requestId back, tr = front ++ ⟨.newRequestId, requestId⟩ :: back ∧
        (∀ x ∈ front, Silent x.1) ∧ ∀ x ∈ back, Owned requestId x.1 := by
  rw [signWith, Prog.run_bind_eq] at h
  obtain ⟨p, hp, -⟩ | ⟨front, back, found, rfl, hfront, hback⟩ := h.of_bind
  · exact .inl fun x hx => silent_activeWallet.allowed_of_mem hp hx
  have hsilent : ∀ x ∈ front, Silent x.1 := fun x hx =>
    silent_activeWallet.allowed_of_mem hfront hx
  match found, hback with
  | .error e, hback =>
    obtain ⟨rfl, -⟩ := hback.of_ret
    exact .inl (by simpa using hsilent)
  | .ok wallet, hback =>
    obtain ⟨rfl, -⟩ | ⟨requestId, rest, rfl, hrest⟩ := Prog.after_act_iff.1 hback
    · exact .inl (by simpa using hsilent)
    refine .inr ⟨front, requestId, rest, rfl, hsilent, fun x hx => ?_⟩
    have howned : ∀ e : Effect S, Silent e → Owned requestId e := fun _ => Silent.owned
    suffices huses : Prog.Uses (Owned requestId) _ from huses.allowed_of_mem hrest hx
    refine .run_bind (uses_evaluateRequest howned (fun _ => id) fun _ => id)
      fun decision => ?_
    refine .run_bind (uses_clearDecision howned (fun _ => id) decision) fun _ => ?_
    refine .run_bind (uses_signedPolicyDecision howned fun _ => id) fun _ => ?_
    refine .run_bind (silent_fetchShares.mono howned) fun _ => ?_
    exact uses_signAndAudit (fun _ => id) rfl

theorem drawn_of_owned {q : Act S (Except ServiceError EnclaveSignResponse)}
    (h : (svc.signWith quorum args).run.After tr q) {x : ServiceEvent S} (hx : x ∈ tr)
    (hloud : ¬ Silent x.1) (hdraw : x.1 ≠ .newRequestId) :
    ∃ requestId, ⟨.newRequestId, requestId⟩ ∈ tr ∧
      Owned requestId x.1 := by
  obtain hsilent | ⟨front, requestId, back, rfl, hsilent, howned⟩ := signWith_draws h
  · exact absurd (hsilent x hx) hloud
  · refine ⟨requestId, by simp, ?_⟩
    rcases List.mem_append.1 hx with hx | hx
    · exact absurd (hsilent x hx) hloud
    · rcases List.mem_cons.1 hx with rfl | hx
      · exact absurd rfl hdraw
      · exact howned x hx

end Order

variable {approverId : ApproverId} {expectedHash : FixedBytes 32} {a : SignedApproval}
  {body : SubmitApprovalRequest}

theorem drawn_of_evaluate {q : Act S (Except ServiceError EnclaveSignResponse)}
    (h : (svc.sign args rounds).run.After tr q) (hmem : ⟨.evaluate request, r⟩ ∈ tr) :
    ⟨.newRequestId, request.requestId⟩ ∈ tr := by
  obtain ⟨requestId, hdrawn, rfl⟩ := drawn_of_owned h hmem id (by simp)
  exact hdrawn

/-! ## Recordings -/

/-- Before a recording reaches the store, the registry returned an active approver with the
approval's identity, and the signature verified. -/
theorem recordApproval_reached {q : Act S (Except ServiceError RecordOutcome)}
    (h : (svc.recordApproval a approverId expectedHash).run.After tr q) {x : ServiceEvent S}
    (hx : x ∈ tr) (hstore : ¬ NoStore x.1) :
    (∃ record, ⟨.registry (.getApprover approverId), Except.ok record⟩ ∈ tr ∧
      record.identity = a.approver ∧ record.status ≠ .revoked) ∧
    a.messageHash = expectedHash ∧ a.verifySignature svc.crypto = .ok () ∧
    ∃ q', (S.recordApproval a approverId).After (tr.filterMap storeEvent) q' := by
  have hregistry : (Prog.orThrow registryError
      (onRegistry (MemoryApproverRegistry.getApprover approverId))).run.Uses (@NoStore S) :=
    .orThrow (uses_onRegistry fun _ => trivial)
  obtain ⟨tr₁, rest, record, rfl, hrecord, h₁, hx₁⟩ := h.past_run_bind hregistry hx hstore
  obtain ⟨tr₂, rest, _, rfl, hcheck, h₂, hx₂⟩ :=
    h₁.past_run_bind trivial hx₁ hstore
  obtain ⟨tr₃, rest, now, rfl, hnow, h₃, hx₃⟩ :=
    h₂.past_run_bind (⟨trivial, fun _ => trivial⟩) hx₂ hstore
  obtain ⟨tr₄, tr₅, _, rfl, hverify, h₄, -⟩ :=
    h₃.past_run_bind trivial hx₃ hstore
  obtain rfl : tr₁ = [⟨.registry (.getApprover approverId), Except.ok record⟩] :=
    hrecord.ok_of_orThrow.of_perform
  obtain rfl : tr₃ = [⟨.now, now⟩] := hnow.ok_of_lift.of_perform
  obtain ⟨rfl, hchecked⟩ := hcheck.of_ret
  obtain ⟨rfl, hverified⟩ := hverify.of_ret
  have hregistered : record.identity = a.approver ∧ record.status ≠ .revoked := by
    have hok : checkApprover a approverId record = .ok () := (Prog.ret.inj hchecked).symm
    unfold checkApprover at hok
    split_ifs at hok with hne hactive
    exact ⟨not_not.1 hne, hactive⟩
  have hvalid : a.verify svc.crypto a.requestId expectedHash now = .ok () :=
    mapError_eq_ok.1 (Prog.ret.inj hverified).symm
  obtain ⟨-, hhash, -, -, hsignature⟩ := verify_ok_iff.1 hvalid
  obtain ⟨p, hp⟩ := Prog.After.of_map h₄
  obtain ⟨q', hq', -⟩ := after_onStore hp
  exact ⟨⟨record, by simp, hregistered⟩, hhash, hsignature, q', hq'⟩

theorem uses_recordApproval (hlookup : ∀ id, allowed (.registry (.getApprover id)))
    (hnow : allowed .now) (hstore : ∀ op, allowed (.store op)) :
    (svc.recordApproval a approverId expectedHash).run.Uses allowed := by
  refine .run_bind (.orThrow (.embed ⟨hlookup _, fun _ => trivial⟩))
    fun record => ?_
  refine .run_bind trivial fun _ => ?_
  refine .run_bind (.lift ⟨hnow, fun _ => trivial⟩) fun now => ?_
  exact .run_bind trivial fun _ => .orThrow (uses_onStore hstore)

theorem uses_submitApproval {intoApiError : ServiceError → ApiError} {requestId : String}
    (hlookup : ∀ id, allowed (.registry (.getApprover id))) (hnow : allowed .now)
    (hstore : ∀ op, allowed (.store op)) :
    (svc.submitApproval intoApiError requestId body).Uses allowed := by
  unfold submitApproval
  split
  · trivial
  · exact .bind (uses_recordApproval hlookup hnow hstore) fun _ => trivial

theorem submitApproval_after {intoApiError : ServiceError → ApiError} {requestId : String}
    {q : Act S (Except ApiError SubmitApprovalResponse)}
    (hread : svc.readSubmission requestId body = .ok (a, approverId, expectedHash))
    (h : (svc.submitApproval intoApiError requestId body).After tr q) :
    ∃ q', (svc.recordApproval a approverId expectedHash).run.After tr q' := by
  unfold submitApproval at h
  rw [hread] at h
  exact h.of_map

end WalletService

/-! ## What a call does at the store -/

variable {svc : WalletService} {intoApiError : ServiceError → ApiError}
  {tr : List (ServiceEvent S)} {q : Act S Outcome} {call : Call}

theorem fits_none {α : Type} {p q : Act S α} (hp : p.Uses ListsOnly) (h : p.After tr q) :
    S.Fits none (tr.filterMap storeEvent) := by
  intro y hy
  obtain ⟨x, hx, hxy⟩ := List.mem_filterMap.1 hy
  have hallowed := hp.allowed_of_mem h hx
  obtain ⟨e, r⟩ := x
  cases e with
  | store op =>
    obtain ⟨requestId, rfl⟩ := hallowed
    cases hxy
    exact ⟨requestId, rfl⟩
  | _ => cases hxy

theorem fits_recordApproval {a : SignedApproval} {approverId : ApproverId}
    {expectedHash : FixedBytes 32} {q : Act S (Except ServiceError RecordOutcome)}
    (h : (svc.recordApproval a approverId expectedHash).run.After tr q) :
    S.Fits (some (a, approverId)) (tr.filterMap storeEvent) := by
  by_cases hstore : ∃ x ∈ tr, ¬ NoStore x.1
  · obtain ⟨x, hx, hx'⟩ := hstore
    exact (WalletService.recordApproval_reached h hx hx').2.2.2
  · push Not at hstore
    rw [filterMap_storeEvent_eq_nil hstore]
    exact ⟨_, .nil _⟩

theorem listsOnly_sign {args : WalletService.SignArgs} {rounds : Nat} :
    (svc.sign args rounds).run.Uses (@ListsOnly S) :=
  WalletService.uses_sign (fun _ => Quiet.listsOnly) (fun _ => Closing.listsOnly) trivial
    fun _ => trivial

/-- At the store, a call records the one approval it submits, or only lists. -/
theorem role_fits (h : (call.prog svc intoApiError).After tr q) :
    S.Fits (call.submission svc) (tr.filterMap storeEvent) := by
  cases call with
  | addApprover | revokeApprover | createApproverSet =>
    obtain ⟨q', hq'⟩ := h.of_map
    exact fits_none (uses_onRegistry fun _ => trivial) hq'
  | sign args rounds =>
    obtain ⟨q', hq'⟩ := h.of_map
    exact fits_none listsOnly_sign hq'
  | recordApproval a approverId expectedHash =>
    obtain ⟨q', hq'⟩ := h.of_map
    exact fits_recordApproval hq'
  | submitApproval requestId body =>
    obtain ⟨q', hq'⟩ := h.of_map
    cases hread : svc.readSubmission requestId body with
    | ok submission =>
      obtain ⟨a, approverId, expectedHash⟩ := submission
      obtain ⟨q'', hq''⟩ := WalletService.submitApproval_after hread hq'
      rw [submission_of_read hread]
      exact fits_recordApproval hq''
    | error e =>
      unfold WalletService.submitApproval at hq'
      rw [hread] at hq'
      obtain ⟨rfl, -⟩ := hq'.of_ret
      rw [submission_of_unread hread]
      exact fun y hy => absurd hy List.not_mem_nil

theorem submission_reached (h : (call.prog svc intoApiError).After tr q) {a : SignedApproval}
    {approverId : ApproverId} (hsub : call.submission svc = some (a, approverId))
    (hreached : tr.filterMap storeEvent ≠ []) :
    (∃ record, ⟨.registry (.getApprover approverId), Except.ok record⟩ ∈ tr ∧
      record.identity = a.approver ∧ record.status ≠ .revoked) ∧
    a.verifySignature svc.crypto = .ok () := by
  obtain ⟨x, hx, hstore⟩ : ∃ x ∈ tr, ¬ NoStore x.1 := by
    by_contra hnone
    push Not at hnone
    exact hreached (filterMap_storeEvent_eq_nil hnone)
  suffices hrecord : ∃ hash q', (svc.recordApproval a approverId hash).run.After tr q' by
    obtain ⟨_, _, hq'⟩ := hrecord
    obtain ⟨hrecord, -, hsignature, -⟩ := WalletService.recordApproval_reached hq' hx hstore
    exact ⟨hrecord, hsignature⟩
  cases call with
  | addApprover | revokeApprover | createApproverSet | sign => cases hsub
  | recordApproval b approverId' expectedHash =>
    cases hsub
    obtain ⟨q', hq'⟩ := h.of_map
    exact ⟨expectedHash, q', hq'⟩
  | submitApproval requestId body =>
    obtain ⟨q', hq'⟩ := h.of_map
    cases hread : svc.readSubmission requestId body with
    | ok submission =>
      obtain ⟨b, approverId', expectedHash⟩ := submission
      cases (submission_of_read hread).symm.trans hsub
      exact ⟨expectedHash, WalletService.submitApproval_after hread hq'⟩
    | error e => cases (submission_of_unread hread).symm.trans hsub

/-! ## What the calls ask for -/

/-- An operation of a call that does not sign. -/
def Approving : Effect S → Prop
  | .registry _ | .store _ | .now => True
  | _ => False

theorem sign_of_not_approving (h : (call.prog svc intoApiError).After tr q) {x : ServiceEvent S}
    (hx : x ∈ tr) (hnot : ¬ Approving x.1) : ∃ args rounds, call = .sign args rounds := by
  by_contra hcall
  refine hnot (Prog.Uses.allowed_of_mem ?_ h hx)
  cases call with
  | sign args rounds => exact absurd ⟨args, rounds, rfl⟩ hcall
  | addApprover | revokeApprover | createApproverSet =>
    exact .map (uses_onRegistry fun _ => trivial)
  | submitApproval =>
    exact .map (WalletService.uses_submitApproval (fun _ => trivial) trivial fun _ => trivial)
  | recordApproval =>
    exact .map (WalletService.uses_recordApproval (fun _ => trivial) trivial fun _ => trivial)

/-- Whoever is registered is registered as active. -/
def AddsActive : Effect S → Prop
  | .registry (.insertApprover record) => record.status = .active
  | _ => True

theorem addsActive_createApproverSet {create : ApproverSetCreate} :
    (onRegistry (MemoryApproverRegistry.createApproverSet create)).Uses (@AddsActive S) := by
  refine .embed ?_
  unfold MemoryApproverRegistry.createApproverSet
  split
  · trivial
  · refine ⟨trivial, fun resolved => ?_⟩
    match resolved with
    | .error e => trivial
    | .ok wallets =>
      refine ⟨trivial, fun verdict => ?_⟩
      match verdict with
      | .error e => trivial
      | .ok () =>
        exact ⟨trivial, fun _ => ⟨trivial, fun _ => ⟨trivial, fun _ => trivial⟩⟩⟩

theorem addsActive_of_after (h : (call.prog svc intoApiError).After tr q) {x : ServiceEvent S}
    (hx : x ∈ tr) : AddsActive x.1 := by
  refine Prog.Uses.allowed_of_mem ?_ h hx
  cases call with
  | addApprover =>
    exact .map (.embed ⟨trivial, fun _ => ⟨trivial, fun _ => ⟨rfl, fun _ => trivial⟩⟩⟩)
  | revokeApprover => exact .map (.embed ⟨trivial, fun _ => trivial⟩)
  | createApproverSet => exact .map addsActive_createApproverSet
  | submitApproval =>
    exact .map (WalletService.uses_submitApproval (fun _ => trivial) trivial fun _ => trivial)
  | recordApproval =>
    exact .map (WalletService.uses_recordApproval (fun _ => trivial) trivial fun _ => trivial)
  | sign =>
    refine .map (WalletService.uses_sign (fun e he => ?_) (fun e he => ?_) trivial fun _ => trivial)
    · cases e with
      | registry op => cases op <;> trivial
      | _ => trivial
    · cases e <;> trivial

end QfcServerWallet.Service
