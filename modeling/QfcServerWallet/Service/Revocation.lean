import QfcServerWallet.Service.QuorumSound

/-!
# Revocation and approver sets

`ApproverStatus::Revoked` is documented as making every set that references the approver unusable
until it is rebuilt. Of the steps a quorum goes through, two look at the status of an approver:
`create_approver_set`, when it resolves the members, and `record_approval`. The set lookup of
`sign`, the lookups of its members and the collection do not, so a revocation that comes after a
submission, or after the set was created, changes nothing for a signing call.

* `RevocationRespected`: what the documentation asks of a run. When the enclave signs under a quorum
  decision, the decision's set has no revoked member; and when a poll counts approvals, none of
  their submitters is revoked.
* `revocationSafe`: what operators and policy have to ensure at each step instead. An approver is
  revoked only once the signing calls are over that wait for a set with this member, or for a
  request it approved; sets with a revoked member are neither stored nor named by the policy;
  request ids are drawn once.

Results: `Watched.step`, **`revocationRespected_of_safe`** and
`revocationRespected_fails_while_waiting`.
-/

namespace QfcServerWallet.Service

open Lib Audit Enclave Policy Quorum Sss

variable {S : ApprovalStore}

/-! ## Steps of a run -/

/-- One step of a run of the service: in `q`, task `i` performs `x`. -/
abbrev Step (svc : WalletService) (intoApiError : ServiceError → ApiError)
    (moves : List (Move Call (Ans S))) (q : System S) (i : Nat) (x : ServiceEvent S)
    (q' : System S) : Prop :=
  Pool.StepOf perform (Call.prog svc intoApiError) (initial S) moves q i x q'

/-- A request to the enclave. -/
def isEnclaveCall : ServiceEvent S → Bool
  | ⟨.signInEnclave _, _⟩ => true
  | _ => false

/-- The call has ended. -/
def hasEnded : Call × Act S Outcome → Bool
  | (_, .ret _) => true
  | _ => false

/-- The task has asked the enclave, or has ended: it reads no more approvals. -/
def isOver (p : System S) (i : Nat) : Bool :=
  (Pool.trace p.log i).any isEnclaveCall || (p.tasks[i]?).any hasEnded

/-- No member of the set is revoked. -/
def setUsable (s : State S) (id : ApproverSetId) : Bool :=
  (s.registry.getSet id).all fun set => set.members.all fun x => !s.registry.revoked x

/-! ## What the documentation asks for -/

/-- Revocation disables approver sets and approvals. -/
structure RevocationRespected (svc : WalletService) (intoApiError : ServiceError → ApiError)
    (moves : List (Move Call (Ans S))) (p : System S) : Prop where
  /-- a signature that is returned under a quorum decision was made while the set was usable -/
  signed : ∀ i args rounds response,
    p.tasks[i]? = some (.sign args rounds, .ret (.signed (.ok response))) →
    ∀ decision ∈ quorumDecisions p.log, decision.task = i → ∀ q q' request,
      Step svc intoApiError moves q i ⟨.signInEnclave request, Except.ok response⟩ q' →
      setUsable q.shared decision.approverSet = true
  /-- the approvals that end a collection were submitted, one under each of some approver ids, by
  approvers who are not revoked when they are read -/
  counted : ∀ decision ∈ quorumDecisions p.log, ∀ q q'
    (r : S.Res (S.listOp decision.request.requestId)) approvals,
    Step svc intoApiError moves q decision.task
      ⟨.store (S.listOp decision.request.requestId), r⟩ q' →
    WalletService.pollOutcome decision.threshold (S.readList decision.request.requestId r)
      = some (.ok approvals) →
    ∃ l : List (ApproverId × SignedApproval), approvals = l.map Prod.snd ∧
      (l.map Prod.fst).Nodup ∧ ∀ x ∈ l, (x.2, x.1) ∈ submitted svc q ∧
        q.shared.registry.revoked x.1 = false

/-- What keeps revocation effective although the service does not check it. -/
def revocationSafe (svc : WalletService) (q : System S) : ServiceEvent S → Bool
  | ⟨.newRequestId, (id : RequestId)⟩ => (drawnIds q.log).all fun y => decide (y.2 ≠ id)
  | ⟨.evaluate _, .ok (.requireQuorum _ _ _ _ approverSet _)⟩ => setUsable q.shared approverSet
  | ⟨.registry (.insertSet set), _⟩ => set.members.all fun x => !q.shared.registry.revoked x
  | ⟨.registry (.revoke x), _⟩ =>
    -- the calls that wait for a set with this member
    ((quorumDecisions q.log).all fun decision =>
      (q.shared.registry.getSet decision.approverSet).all fun set =>
        !decide (x ∈ set.members) || isOver q decision.task) &&
    -- the calls that wait for a request this approver has decided on
    (submitted svc q).all fun submission => !decide (submission.2 = x) ||
      (drawnIds q.log).any fun y => decide (y.2 = submission.1.requestId) && isOver q y.1
  | _ => true

/-! ## Calls that are over -/

section Over

variable {svc : WalletService} {intoApiError : ServiceError → ApiError}
variable {moves : List (Move Call (Ans S))} {p q q' : System S} {i j : Nat}
variable {x : ServiceEvent S}

theorem run_of_step (h : Step svc intoApiError moves q i x q') :
    (∃ before, run svc intoApiError before = some q) ∧
      ∃ before, run svc intoApiError before = some q' := by
  obtain ⟨before, m, after, -, hq, hstep, -⟩ := h
  exact ⟨⟨before, hq⟩, before ++ [m], Pool.run_concat_iff.2 ⟨q, hq, hstep⟩⟩

theorem not_hasEnded_of_step (h : Step svc intoApiError moves q i x q') :
    (q.tasks[i]?).any hasEnded = false := by
  obtain ⟨call, k, a, s, htask, -⟩ := h.performs
  simp [htask, hasEnded]

theorem isOver_step (h : Step svc intoApiError moves q i x q') (hj : isOver q j = true) :
    isOver q' j = true := by
  have hended := not_hasEnded_of_step h
  obtain ⟨call, k, a, s, htask, -, rfl⟩ := h.performs
  unfold isOver at hj ⊢
  rw [Bool.or_eq_true] at hj ⊢
  rcases hj with hasked | hj
  · left
    rw [Pool.trace_concat]
    split
    · rw [List.any_append, hasked, Bool.true_or]
    · exact hasked
  · right
    by_cases hij : i = j
    · rw [← hij, hended] at hj
      cases hj
    · rwa [List.getElem?_set_ne hij]

theorem isOver_spawn (call : Call × Act S Outcome) (hj : isOver q j = true) :
    isOver { q with tasks := q.tasks ++ [call] } j = true := by
  unfold isOver at hj ⊢
  rw [Bool.or_eq_true] at hj ⊢
  refine hj.imp_right fun hended => ?_
  obtain ⟨task, htask, hret⟩ := (Option.any_eq_true _ _).1 hended
  have hlt := (List.getElem?_eq_some_iff.1 htask).1
  simp [List.getElem?_append_left hlt, htask, hret]

theorem audits_of_asked {call : Call} {r : Act S Outcome}
    {front back : List (ServiceEvent S)} {y z : ServiceEvent S}
    (h : (call.prog svc intoApiError).After (front ++ y :: back) r)
    (hy : isEnclaveCall y = true) (hz : z ∈ back) : WalletService.Audits z.1 := by
  have hasks : WalletService.AsksEnclave y.1 ∧ ¬ Approving y.1 := by
    unfold isEnclaveCall at hy
    split at hy
    · exact ⟨trivial, id⟩
    · cases hy
  obtain ⟨args, rounds, rfl⟩ := sign_of_not_approving h (by simp) hasks.2
  obtain ⟨r', hr'⟩ := h.of_map
  exact WalletService.signWith_settles.allowed_of_after hr' hasks.1 hz

theorem not_isOver_of_step (h : Step svc intoApiError moves q i x q')
    (hx : ¬ WalletService.Audits x.1) : isOver q i = false := by
  obtain ⟨-, before, hrun⟩ := run_of_step h
  have hended := not_hasEnded_of_step h
  obtain ⟨call, k, a, s, htask, -, rfl⟩ := h.performs
  unfold isOver
  rw [hended, Bool.or_false, Bool.eq_false_iff]
  intro hasked
  obtain ⟨y, hy, hcall⟩ := List.any_eq_true.1 hasked
  obtain ⟨front, back, htrace⟩ := List.append_of_mem hy
  have hlt := (List.getElem?_eq_some_iff.1 htask).1
  have hafter := Pool.run_after hrun (List.getElem?_set_self hlt)
  rw [Pool.trace_concat, if_pos rfl, htrace, List.append_assoc, List.cons_append] at hafter
  exact hx (audits_of_asked hafter hcall (by simp))

end Over

/-! ## What safe steps keep -/

section Watched

variable {svc : WalletService} {intoApiError : ServiceError → ApiError}
variable {moves : List (Move Call (Ans S))} {p q q' : System S} {i j : Nat}
variable {x : ServiceEvent S} {y : ApproverId} {record : ApproverRecord}

theorem revoked_of_step (h : Step svc intoApiError moves q i x q')
    (hy : q'.shared.registry.revoked y = true) :
    q.shared.registry.revoked y = true ∨ x.1 = .registry (.revoke y) := by
  obtain ⟨-, before, hrun⟩ := run_of_step h
  obtain ⟨call, k, a, s, htask, hperform, rfl⟩ := h.performs
  have hlt := (List.getElem?_eq_some_iff.1 htask).1
  have hactive : AddsActive x.1 := by
    refine addsActive_of_after (Pool.run_after hrun (List.getElem?_set_self hlt)) ?_
    simp [Pool.trace_concat]
  obtain ⟨e, r⟩ := x
  obtain ⟨op, a', r', heq, hop, -⟩ | ⟨op, a', r', -, -, hsame⟩ | ⟨-, rfl⟩ := perform_cases hperform
  · cases heq
    refine (MemoryApproverRegistry.revoked_of_perform hop ?_ hy).imp_right (congrArg _)
    rintro record rfl
    exact hactive
  · rw [hsame] at hy
    exact .inl hy
  · exact .inl hy

theorem getSet_of_step (h : Step svc intoApiError moves q i x q') {id : ApproverSetId}
    {set : ApproverSet} (hset : q'.shared.registry.getSet id = some set) :
    q.shared.registry.getSet id = some set ∨ x.1 = .registry (.insertSet set) := by
  obtain ⟨call, k, a, s, -, hperform, rfl⟩ := h.performs
  obtain ⟨e, r⟩ := x
  obtain ⟨op, a', r', heq, hop, -⟩ | ⟨op, a', r', -, -, hsame⟩ | ⟨-, rfl⟩ := perform_cases hperform
  · cases heq
    exact (MemoryApproverRegistry.getSet_of_perform hop hset).imp_right (congrArg _)
  · rw [hsame] at hset
    exact .inl hset
  · exact .inl hset

theorem setUsable_iff {s : State S} {id : ApproverSetId} :
    setUsable s id = true ↔ ∀ set, s.registry.getSet id = some set → ∀ y ∈ set.members,
      s.registry.revoked y = false := by
  simp [setUsable, Option.all_eq_true]

/-- What holds in a run whose steps are safe. -/
structure Watched (svc : WalletService) (p : System S) : Prop where
  tasks : ∀ y ∈ p.log, y.1 < p.tasks.length
  ids : ∀ y ∈ drawnIds p.log, ∀ z ∈ drawnIds p.log, y.2 = z.2 → y.1 = z.1
  /-- the set a call waits for is usable -/
  sets : ∀ decision ∈ quorumDecisions p.log, isOver p decision.task = false →
    setUsable p.shared decision.approverSet = true
  /-- a submitter who passed the registry and is revoked now submitted for a call that is over -/
  submitters : ∀ j call r a y record, p.tasks[j]? = some (call, r) →
    call.submission svc = some (a, y) →
    (⟨.registry (.getApprover y), Except.ok record⟩ : ServiceEvent S)
      ∈ Pool.trace p.log j → record.status ≠ .revoked →
    p.shared.registry.revoked y = true →
    ∃ z ∈ drawnIds p.log, z.2 = a.requestId ∧ isOver p z.1 = true

theorem Watched.initial : Watched svc (initial S) :=
  ⟨by simp [Service.initial, Pool.start], by simp [drawnIds, Service.initial, Pool.start],
    by simp [quorumDecisions, Service.initial, Pool.start], by simp [Service.initial, Pool.start]⟩

theorem Watched.spawn (h : Watched svc q) (call : Call) (r : Act S Outcome) :
    Watched svc { q with tasks := q.tasks ++ [(call, r)] } := by
  refine ⟨fun y hy => ?_, h.ids, fun decision hd hover => ?_, ?_⟩
  · have := h.tasks y hy
    simp only [List.length_append, List.length_singleton]
    omega
  · refine h.sets decision hd ?_
    rw [Bool.eq_false_iff] at hover ⊢
    exact fun hq => hover (isOver_spawn _ hq)
  · intro j call' r' a y record hj hsub hlook hactive hrevoked
    -- the new task has no events
    have hlt : j < q.tasks.length := h.tasks _ (Pool.mem_of_mem_trace hlook)
    rw [List.getElem?_append_left hlt] at hj
    obtain ⟨z, hz, hreq, hover⟩ := h.submitters j call' r' a y record hj hsub hlook hactive hrevoked
    exact ⟨z, hz, hreq, isOver_spawn _ hover⟩

theorem quorumDecisions_of_step (h : Step svc intoApiError moves q i x q') {d : QuorumDecision}
    (hd : d ∈ quorumDecisions q'.log) :
    d ∈ quorumDecisions q.log ∨ ∃ decisionId policyId total rationale,
      x = ⟨.evaluate d.request, Except.ok
        (.requireQuorum decisionId policyId d.threshold total d.approverSet rationale)⟩ := by
  obtain ⟨call, k, a, s, -, -, rfl⟩ := h.performs
  rw [quorumDecisions, List.filterMap_append, List.mem_append] at hd
  refine hd.imp_right fun hnew => ?_
  obtain ⟨decisionId, policyId, total, rationale, hmem⟩ := mem_quorumDecisions hnew
  exact ⟨decisionId, policyId, total, rationale,
    (congrArg Prod.snd (List.mem_singleton.1 hmem)).symm⟩

theorem Watched.ids_step (hq : Watched svc q) (h : Step svc intoApiError moves q i x q')
    (hsafe : revocationSafe svc q x = true) :
    ∀ y ∈ drawnIds q'.log, ∀ z ∈ drawnIds q'.log, y.2 = z.2 → y.1 = z.1 := by
  obtain ⟨call, k, a, s, -, -, rfl⟩ := h.performs
  obtain ⟨e, r⟩ := x
  cases e with
  | newRequestId =>
    have hnew : ∀ y ∈ drawnIds q.log, y.2 ≠ r := by
      simpa [revocationSafe] using hsafe
    have hdrawn : drawnIds (q.log ++ [(i, ⟨.newRequestId, r⟩)])
        = drawnIds q.log ++ [((i, r) : Nat × RequestId)] := by
      simp [drawnIds]
    simp only [hdrawn, List.mem_append, List.mem_singleton]
    rintro y (hy | rfl) z (hz | rfl) heq
    · exact hq.ids y hy z hz heq
    · exact absurd heq (hnew y hy)
    · exact absurd heq.symm (hnew z hz)
    · rfl
  | _ =>
    simp only [drawnIds, List.filterMap_append, List.filterMap_cons, List.filterMap_nil,
      List.append_nil]
    exact hq.ids

theorem Watched.sets_step (hq : Watched svc q) (h : Step svc intoApiError moves q i x q')
    (hsafe : revocationSafe svc q x = true) :
    ∀ decision ∈ quorumDecisions q'.log, isOver q' decision.task = false →
      setUsable q'.shared decision.approverSet = true := by
  intro decision hdecision hover
  have hwaits : isOver q decision.task = false := by
    rw [Bool.eq_false_iff] at hover ⊢
    exact fun hover' => hover (isOver_step h hover')
  have husable : setUsable q.shared decision.approverSet = true := by
    rcases quorumDecisions_of_step h hdecision with hold | ⟨_, _, _, _, rfl⟩
    · exact hq.sets decision hold hwaits
    · -- the policy has just named a usable set
      exact hsafe
  rw [setUsable_iff] at husable ⊢
  intro set hset y hy
  rw [Bool.eq_false_iff]
  intro hrevoked
  obtain ⟨e, r⟩ := x
  rcases getSet_of_step h hset with hset | hinsert
  · rcases revoked_of_step h hrevoked with hold | hrevoke
    · exact absurd hold (by simp [husable set hset y hy])
    · -- revoked only once the call is over
      obtain rfl : e = .registry (.revoke y) := hrevoke
      simp only [revocationSafe, Bool.and_eq_true, List.all_eq_true] at hsafe
      rcases quorumDecisions_of_step h hdecision with hold | ⟨_, _, _, _, heq⟩
      · have hover := hsafe.1 decision hold
        simp [hset, hy, hwaits] at hover
      · cases heq
  · obtain rfl : e = .registry (.insertSet set) := hinsert
    have hmembers : ∀ m ∈ set.members, q.shared.registry.revoked m = false := by
      simpa [revocationSafe] using hsafe
    rcases revoked_of_step h hrevoked with hold | hrevoke
    · exact absurd hold (by simp [hmembers y hy])
    · cases hrevoke

theorem drawnIds_of_step (h : Step svc intoApiError moves q i x q') {y : Nat × RequestId}
    (hy : y ∈ drawnIds q.log) : y ∈ drawnIds q'.log := by
  obtain ⟨call, k, a, s, -, -, rfl⟩ := h.performs
  rw [drawnIds, List.filterMap_append]
  exact List.mem_append_left _ hy

theorem revoked_of_lookup {s s' : State S} {a : Ans S}
    (h : perform s (.registry (.getApprover y)) a = some (Except.ok record, s'))
    (hy : s.registry.revoked y = true) : record.status = .revoked := by
  cases a with
  | registry a =>
    simp only [perform] at h
    split at h
    · next hop =>
      cases h
      have hrecord := MemoryApproverRegistry.lookup_of_getApprover hop
      simpa [MemoryApproverRegistry.State.revoked, hrecord] using hy
    · cases h
  | _ => cases h

theorem Watched.submitters_step (hq : Watched svc q) (h : Step svc intoApiError moves q i x q')
    (hsafe : revocationSafe svc q x = true) {call : Call} {r : Act S Outcome} {a : SignedApproval}
    (hj : q'.tasks[j]? = some (call, r)) (hsub : call.submission svc = some (a, y))
    (hlook : ⟨.registry (.getApprover y), Except.ok record⟩ ∈ Pool.trace q'.log j)
    (hactive : record.status ≠ .revoked) (hrevoked : q'.shared.registry.revoked y = true) :
    ∃ z ∈ drawnIds q'.log, z.2 = a.requestId ∧ isOver q' z.1 = true := by
  have keep : (∃ z ∈ drawnIds q.log, z.2 = a.requestId ∧ isOver q z.1 = true) →
      ∃ z ∈ drawnIds q'.log, z.2 = a.requestId ∧ isOver q' z.1 = true := by
    rintro ⟨z, hz, hreq, hover⟩
    exact ⟨z, drawnIds_of_step h hz, hreq, isOver_step h hover⟩
  have hbefore := revoked_of_step h hrevoked
  obtain ⟨call', k, a', s, htask, hperform, rfl⟩ := h.performs
  -- the call was there before the step
  obtain ⟨r', hj'⟩ : ∃ r', q.tasks[j]? = some (call, r') := by
    by_cases hij : i = j
    · subst hij
      rw [List.getElem?_set_self (List.getElem?_eq_some_iff.1 htask).1] at hj
      cases hj
      exact ⟨_, htask⟩
    · rw [List.getElem?_set_ne hij] at hj
      exact ⟨r, hj⟩
  rcases hbefore with hold | hrevoke
  · by_cases hlooked : ⟨.registry (.getApprover y), Except.ok record⟩ ∈ Pool.trace q.log j
    · exact keep (hq.submitters j call r' a y record hj' hsub hlooked hactive hold)
    · -- a lookup in this step would have shown the revocation
      rw [Pool.trace_concat] at hlook
      split at hlook
      · rcases mem_concat_iff.1 hlook with hlook | hlook
        · exact absurd hlook hlooked
        · obtain rfl := hlook
          exact absurd (revoked_of_lookup hperform hold) hactive
      · exact absurd hlook hlooked
  · obtain ⟨e, r⟩ := x
    obtain rfl : e = .registry (.revoke y) := hrevoke
    simp only [revocationSafe, Bool.and_eq_true, List.all_eq_true] at hsafe
    have hsubmitted : (a, y) ∈ submitted svc q :=
      List.mem_filterMap.2 ⟨_, List.mem_of_getElem? hj', hsub⟩
    have hover := hsafe.2 _ hsubmitted
    simp only [decide_true, Bool.not_true, Bool.false_or, List.any_eq_true, Bool.and_eq_true,
      decide_eq_true_eq] at hover
    exact keep hover

/-- What one safe step keeps. -/
theorem Watched.step (hq : Watched svc q) (h : Step svc intoApiError moves q i x q')
    (hsafe : revocationSafe svc q x = true) : Watched svc q' := by
  refine ⟨?_, hq.ids_step h hsafe, hq.sets_step h hsafe,
    fun j call r a y record => hq.submitters_step h hsafe⟩
  obtain ⟨call, k, a, s, htask, -, rfl⟩ := h.performs
  intro y hy
  rw [List.length_set]
  rcases List.mem_append.1 hy with hy | hy
  · exact hq.tasks y hy
  · rw [List.mem_singleton.1 hy]
    exact (List.getElem?_eq_some_iff.1 htask).1

theorem Watched.of_run
    (hsafe : ∀ q i x q', Step svc intoApiError moves q i x q' → revocationSafe svc q x = true)
    (hrun : run svc intoApiError moves = some p) : Watched svc p :=
  Pool.run_induction_steps Watched.initial (fun _ call h => h.spawn call _)
    (fun q i x q' hstep h => h.step hstep (hsafe q i x q' hstep)) hrun

end Watched

/-! ## Revocation in safe runs -/

section Safe

variable {svc : WalletService} {intoApiError : ServiceError → ApiError}
variable {moves : List (Move Call (Ans S))} {p q q' : System S} {i : Nat}
variable {x : ServiceEvent S}

theorem Watched.of_step
    (hsafe : ∀ q i x q', Step svc intoApiError moves q i x q' → revocationSafe svc q x = true)
    (h : Step svc intoApiError moves q i x q') : Watched svc q := by
  obtain ⟨before, m, after, rfl, hq, -, -⟩ := h
  exact Watched.of_run (fun q i x q' hstep => hsafe q i x q' (hstep.append _)) hq

theorem evaluated_before_asking (hrun : run svc intoApiError moves = some p)
    (h : Step svc intoApiError moves q i x q') (hx : isEnclaveCall x = true)
    {request : SigningRequest} {r : Except PolicyError PolicyDecision}
    (hmem : (i, ⟨.evaluate request, r⟩) ∈ p.log) : (i, ⟨.evaluate request, r⟩) ∈ q.log := by
  obtain ⟨rest, hrest⟩ := h.log_prefix hrun
  obtain ⟨call, k, a, s, -, -, rfl⟩ := h.performs
  have htrace : Pool.trace p.log i = Pool.trace q.log i ++ x :: Pool.trace rest i := by
    rw [← hrest]
    simp [Pool.trace]
  have hin := Pool.mem_trace hmem
  rw [htrace] at hin
  rcases List.mem_append.1 hin with hin | hin
  · exact Pool.mem_of_mem_trace hin
  · rcases List.mem_cons.1 hin with rfl | hin
    · cases hx
    · cases hi : p.tasks[i]? with
      | none =>
        rw [Pool.trace_eq_nil hrun hi] at htrace
        exact absurd htrace (by simp)
      | some task =>
        have hafter := Pool.run_after hrun hi
        rw [htrace] at hafter
        exact (audits_of_asked hafter hx hin).elim

theorem drawn_of_decided (hrun : run svc intoApiError moves = some p) {d : QuorumDecision}
    (hd : d ∈ quorumDecisions p.log) : (d.task, d.request.requestId) ∈ drawnIds p.log := by
  obtain ⟨decisionId, policyId, total, rationale, hmem⟩ := mem_quorumDecisions hd
  have hin := Pool.mem_trace hmem
  cases hi : p.tasks[d.task]? with
  | none =>
    rw [Pool.trace_eq_nil hrun hi] at hin
    cases hin
  | some task =>
    have hafter := Pool.run_after hrun hi
    obtain ⟨args, rounds, hcall⟩ := sign_of_not_approving hafter hin id
    rw [hcall] at hafter
    obtain ⟨r, hr⟩ := hafter.of_map
    have hdrawn := Pool.mem_of_mem_trace (WalletService.drawn_of_evaluate hr hin)
    exact List.mem_filterMap.2 ⟨_, hdrawn, rfl⟩

/-- **Over a sound store, in a run whose steps are safe, revocation is respected.** -/
theorem revocationRespected_of_sound (hS : S.Sound) (hrun : run svc intoApiError moves = some p)
    (hsafe : ∀ q i x q', Step svc intoApiError moves q i x q' → revocationSafe svc q x = true) :
    RevocationRespected svc intoApiError moves p := by
  refine ⟨?_, ?_⟩
  · rintro i args rounds response - decision hdecision rfl q q' request hstep
    obtain ⟨decisionId, policyId, total, rationale, hdecided⟩ := mem_quorumDecisions hdecision
    refine (Watched.of_step hsafe hstep).sets decision ?_ (not_isOver_of_step hstep id)
    exact List.mem_filterMap.2 ⟨_, evaluated_before_asking hrun hstep rfl hdecided, rfl⟩
  · rintro decision hdecision q q' r approvals hstep hpoll
    obtain ⟨all, hread, hsub⟩ := WalletService.sublist_of_pollOutcome hpoll
    obtain ⟨⟨before, hq⟩, -⟩ := run_of_step hstep
    obtain ⟨call, k, a, s, htask, hperform, -⟩ := hstep.performs
    obtain ⟨l, rfl, hnodup, hl⟩ :=
      listed_submissions hS hq List.prefix_rfl (Inv.of_run hq) hperform hread
    obtain ⟨l', hl', rfl⟩ := List.sublist_map_iff.1 hsub
    refine ⟨l', rfl, (hl'.map _).nodup hnodup, fun y hy => ?_⟩
    obtain ⟨hreq, j, call', r', hj, hsubmission, hstored⟩ := hl y (hl'.subset hy)
    refine ⟨List.mem_filterMap.2 ⟨_, List.mem_of_getElem? hj, hsubmission⟩, ?_⟩
    rw [Bool.eq_false_iff]
    intro hrevoked
    -- the submitter passed the registry, so the call it submitted for would be over
    obtain ⟨⟨record, hrecord, -, hactive⟩, -⟩ :=
      submission_reached (Pool.run_after hq hj) hsubmission hstored
    obtain ⟨z, hz, hid, hover⟩ := (Watched.of_step hsafe hstep).submitters j call' r' _ _ record hj
      hsubmission hrecord hactive hrevoked
    have hz' : z ∈ drawnIds p.log :=
      ((hstep.log_prefix hrun).filterMap _).subset (drawnIds_of_step hstep hz)
    have hself : z.1 = decision.task :=
      (Watched.of_run hsafe hrun).ids z hz' _ (drawn_of_decided hrun hdecision) (hid.trans hreq)
    rw [hself, not_isOver_of_step hstep id] at hover
    cases hover

end Safe

/-- **Revocation is respected in every run over either approval store whose steps are safe.** -/
theorem revocationRespected_of_safe (b : Backend) (svc : WalletService)
    (intoApiError : ServiceError → ApiError) (moves : List (Move Call (Ans b.store)))
    (p : System b.store) (hrun : run svc intoApiError moves = some p)
    (hsafe : ∀ q i x q', Step svc intoApiError moves q i x q' → revocationSafe svc q x = true) :
    RevocationRespected svc intoApiError moves p :=
  revocationRespected_of_sound b.sound hrun hsafe

/-! ### Two runs

The only member of the set approves, and is revoked: before the signing call reads the approval, or
after it has returned. -/

namespace Sample

open Enclave.Sample

def revocation : Moves := [.spawn (.revokeApprover approverId), .act 5 (.registry .unit)]

/-- Before the signing call reads the approval. -/
def revokedWaiting : Moves := approved [approverId] [handedByAlice] ++ revocation ++ signing 1

/-- After the signing call has returned. -/
def revokedAfter : Moves := approved [approverId] [handedByAlice] ++ signing 1 ++ revocation

/-- The steps of the run. -/
abbrev stepsOf (moves : Moves) :=
  Pool.steps perform (Call.prog service intoApiError) (initial Backend.memory.store) moves

/-- What the enclave answered the signing call with, in a state in which its set was not usable. -/
def signedUnusable :
    System S × Nat × ServiceEvent S × System S → Option EnclaveSignResponse
  | (q, 3, ⟨.signInEnclave _, .ok response⟩, _) =>
    if setUsable q.shared approverSetId then none else some response
  | _ => none

def returned : Call × Act S Outcome → Option EnclaveSignResponse
  | (.sign _ _, .ret (.signed (.ok response))) => some response
  | _ => none

end Sample

open Sample

/-- The approver is revoked once the signing call is over: every step of the run is safe. -/
theorem revocationRespected_when_over :
    ∃ p, run service intoApiError revokedAfter = some p ∧
      signed 1 p = true ∧ p.shared.registry.revoked approverId = true ∧
      RevocationRespected service intoApiError revokedAfter p := by
  obtain ⟨hfinal, hsteps⟩ : (run service intoApiError revokedAfter).any
        (fun p => signed 1 p && p.shared.registry.revoked approverId) = true ∧
      (stepsOf revokedAfter).all (fun y => revocationSafe service y.1 y.2.2.1) = true := by
    decide +kernel
  obtain ⟨p, hrun, hp⟩ := (Option.any_eq_true _ _).1 hfinal
  obtain ⟨hsigned, hrevoked⟩ := Bool.and_eq_true_iff.1 hp
  refine ⟨p, hrun, hsigned, hrevoked, revocationRespected_of_safe .memory service
    intoApiError revokedAfter p hrun fun q i x q' hstep => ?_⟩
  exact List.all_eq_true.1 hsteps (q, i, x, q') (Pool.mem_steps_iff.2 hstep)

/-- The approver is revoked before its approval is read, and the service signs. -/
theorem revocationRespected_fails_while_waiting :
    ∃ p, run service intoApiError revokedWaiting = some p ∧
      ¬ RevocationRespected service intoApiError revokedWaiting p := by
  have hfinal : (run service intoApiError revokedWaiting).any (fun p =>
      ((quorumDecisions p.log).any fun x => x.task = 3 ∧ x.approverSet = approverSetId) &&
      (stepsOf revokedWaiting).any fun y =>
        (signedUnusable y).any fun response =>
          (p.tasks[3]?).any fun task => returned task = some response) = true := by
    decide +kernel
  obtain ⟨p, hrun, hp⟩ := (Option.any_eq_true _ _).1 hfinal
  obtain ⟨hdecision, hstep⟩ := Bool.and_eq_true_iff.1 hp
  obtain ⟨x, hx, hx'⟩ := List.any_eq_true.1 hdecision
  obtain ⟨htask, hset⟩ : x.task = 3 ∧ x.approverSet = approverSetId := by simpa using hx'
  obtain ⟨y, hy, hsigned⟩ := List.any_eq_true.1 hstep
  obtain ⟨response, hresponse, hreturned⟩ := (Option.any_eq_true _ _).1 hsigned
  obtain ⟨task, hi, htask'⟩ := (Option.any_eq_true _ _).1 hreturned
  refine ⟨p, hrun, fun hrespected => ?_⟩
  unfold signedUnusable at hresponse
  split at hresponse
  · next q request response' q' =>
    split_ifs at hresponse with hunusable
    cases hresponse
    rw [decide_eq_true_eq] at htask'
    unfold returned at htask'
    split at htask'
    · cases htask'
      refine hunusable ?_
      rw [← hset]
      exact hrespected.signed 3 _ _ _ hi x hx htask q q' request (Pool.mem_steps_iff.1 hy)
    · cases htask'
  · cases hresponse

end QfcServerWallet.Service
