import QfcServerWallet.Service.Wallets

/-!
# What a failed creation leaves behind

`create_wallet` writes to three places: each share to the share store, the record to the map of
wallets, an event to the audit log. Nothing is undone when a later step fails.

* The call runs alone, from any state of the service: it is spawned, and only its operations follow.
  Each of them is answered as the outside world decides.
* `failedStep` names the step a call failed at by its last operation: the key generation, one of the
  share writes (numbered from zero), or the audit event.

Results: `createWallet_failed` and **`createWallet_unchanged_iff`**.
-/

namespace QfcServerWallet.Service

open Lib Audit Enclave Policy Quorum Sss

variable {S : ApprovalStore}

/-- An event of the service with its wallets. -/
abbrev WalletEvent (S : ApprovalStore) := Prog.Event (WalletEffect S) WalletReply

/-! ## The operations of a creation -/

/-- A share that was written. -/
def written (walletId : WalletId) (now : Int64) (s : ShamirShare) : WalletEvent S :=
  ⟨.putShare (stored walletId now s), Except.ok ()⟩

/-- The operations of a creation before the first share is written. -/
def generated (config : FullWalletConfig) (walletId : WalletId) (gen : GenerateWalletResponse)
    (now : Int64) : List (WalletEvent S) :=
  [⟨.newWalletId, walletId⟩,
   ⟨.generateWallet ⟨walletId, config.scheme, config.threshold, config.total, none⟩,
    Except.ok gen⟩,
   ⟨.base .now, now⟩]

section Create

variable {config : FullWalletConfig} {ownerActor : Actor} {walletId : WalletId} {now : Int64}
  {tr : List (WalletEvent S)} {e : ServiceError} {ss : List ShamirShare}

theorem putShares_ok (h : Prog.Yields (putShares walletId now ss) tr ()) :
    tr = ss.map (written walletId now) := by
  induction ss generalizing tr with
  | nil => exact h.of_ret.1
  | cons s ss ih =>
    obtain ⟨front, back, ⟨⟩, rfl, hput, hrest⟩ := h.ok_of_bind
    obtain rfl : front = [written walletId now s] := hput.ok_of_orThrow.of_perform
    rw [ih hrest]
    rfl

theorem putShares_failed (h : Prog.Fails (putShares walletId now ss : WalletM S Unit) tr e) :
    ∃ front s rest e', ss = front ++ s :: rest ∧
      tr = front.map (written walletId now) ++
        [⟨.putShare (stored walletId now s), Except.error e'⟩] := by
  induction ss generalizing tr with
  | nil => cases h.of_ret.2
  | cons s ss ih =>
    obtain hput | ⟨front, back, ⟨⟩, rfl, hput, hrest⟩ := h.error_of_bind
    · obtain ⟨e', -, hput⟩ := hput.error_of_orThrow
      exact ⟨[], s, ss, e', rfl, hput.of_perform⟩
    · obtain rfl : front = [written walletId now s] := hput.ok_of_orThrow.of_perform
      obtain ⟨front, s', rest, e', rfl, rfl⟩ := ih hrest
      exact ⟨s :: front, s', rest, e', rfl, rfl⟩

theorem publish_failed {record : FullWalletRecord} {indices : List UInt8}
    (h : Prog.Fails (publish ownerActor record indices : WalletM S FullWalletRecord) tr e) :
    ∃ draft e', tr = [⟨.insertWallet record, ()⟩, ⟨.base (.emit draft), Except.error e'⟩] := by
  obtain ⟨⟨⟩, back, rfl, hrest⟩ := h.result_of_perform
  obtain hemit | ⟨front, back, ⟨⟩, rfl, -, hret⟩ := hrest.error_of_bind
  · obtain ⟨e', -, hemit⟩ := hemit.error_of_orThrow
    obtain rfl := hemit.of_perform
    exact ⟨_, e', rfl⟩
  · cases hret.of_ret.2

/-- The three ways in which the call fails, with the operations before. -/
theorem createWallet_failed
    (h : Prog.Fails (createWallet config ownerActor : WalletM S FullWalletRecord) tr e) :
    ∃ walletId : WalletId, (∃ request e', tr = [⟨.newWalletId, walletId⟩,
        ⟨.generateWallet request, Except.error e'⟩]) ∨
      ∃ gen, ∃ now : Int64, (∃ front s rest e', gen.shares = front ++ s :: rest ∧
        tr = generated config walletId gen now ++ (front.map (written walletId now) ++
          [⟨.putShare (stored walletId now s), Except.error e'⟩])) ∨
      ∃ record draft e', record.walletId = walletId ∧
        tr = generated config walletId gen now ++ (gen.shares.map (written walletId now) ++
          [⟨.insertWallet record, ()⟩, ⟨.base (.emit draft), Except.error e'⟩]) := by
  obtain ⟨walletId, rest, rfl, h₁⟩ := h.result_of_perform
  refine ⟨walletId, ?_⟩
  obtain hgen | ⟨tr₂, rest, gen, rfl, hgen, h₂⟩ := h₁.error_of_bind
  · obtain ⟨e', -, hgen⟩ := hgen.error_of_orThrow
    obtain rfl := hgen.of_perform
    exact .inl ⟨_, e', rfl⟩
  obtain rfl := hgen.ok_of_orThrow.of_perform
  obtain ⟨now, rest, rfl, h₃⟩ := h₂.result_of_perform
  refine .inr ⟨gen, now, ?_⟩
  obtain hput | ⟨tr₄, rest, ⟨⟩, rfl, hput, h₄⟩ := h₃.error_of_bind
  · obtain ⟨front, s, rest, e', hshares, rfl⟩ := putShares_failed hput
    exact .inl ⟨front, s, rest, e', hshares, rfl⟩
  · obtain rfl := putShares_ok hput
    obtain ⟨draft, e', rfl⟩ := publish_failed h₄
    exact .inr ⟨_, draft, e', rfl, rfl⟩

/-! ## What they write -/

/-- The map and the store after some events. -/
def Holdings.afterAll (h : Holdings) (tr : List (WalletEvent S)) : Holdings :=
  tr.foldl Holdings.after h

theorem Holdings.afterAll_generated (h : Holdings) (gen : GenerateWalletResponse) :
    h.afterAll (generated config walletId gen now : List (WalletEvent S)) = h := rfl

theorem Holdings.afterAll_append (h : Holdings) (front back : List (WalletEvent S)) :
    h.afterAll (front ++ back) = (h.afterAll front).afterAll back :=
  List.foldl_append

theorem Holdings.isSome_afterAll_written (h : Holdings) {s : ShamirShare}
    (hs : s ∈ ss ∨ (h.shares ⟨walletId, s.index⟩).isSome) :
    ((h.afterAll (ss.map (written walletId now : ShamirShare → WalletEvent S))).shares
      ⟨walletId, s.index⟩).isSome := by
  induction ss generalizing h with
  | nil => exact hs.resolve_left List.not_mem_nil
  | cons s' ss ih =>
    refine ih (h.after (written walletId now s')) ?_
    rw [List.mem_cons] at hs
    obtain (rfl | hs) | hs := hs
    · exact .inr (by simp [after, written, ShareMap.put_apply, stored])
    · exact .inl hs
    · refine .inr ?_
      simp only [after, written, ShareMap.put_apply]
      split
      · rfl
      · exact hs

/-- The steps at which a creation can fail. -/
inductive CreateStep where
  | keyGeneration
  | shareWrite (n : Nat)
  | auditEmit
  deriving DecidableEq

/-- A write to the share store. -/
def isShareWrite : WalletEvent S → Bool
  | ⟨.putShare _, _⟩ => true
  | _ => false

/-- The step a creation failed at. -/
def failedStep (tr : List (WalletEvent S)) : Option CreateStep :=
  match tr.getLast? with
  | some ⟨.generateWallet _, .error _⟩ => some .keyGeneration
  | some ⟨.putShare _, .error _⟩ => some (.shareWrite (tr.countP isShareWrite - 1))
  | some ⟨.base (.emit _), .error _⟩ => some .auditEmit
  | _ => none

/-- The failure came before anything was written. -/
def FailedEarly (tr : List (WalletEvent S)) : Prop :=
  failedStep tr = some .keyGeneration ∨ failedStep tr = some (.shareWrite 0)

instance (tr : List (WalletEvent S)) : Decidable (FailedEarly tr) :=
  inferInstanceAs (Decidable (_ ∨ _))

/-- No wallet and no share is known under the id. -/
def Holdings.IsNew (h : Holdings) (walletId : WalletId) : Prop :=
  h.wallets walletId = none ∧ ∀ index, h.shares ⟨walletId, index⟩ = none

theorem countP_written (ss : List ShamirShare) :
    (ss.map (written walletId now : ShamirShare → WalletEvent S)).countP isShareWrite
      = ss.length := by
  rw [List.countP_map, List.countP_eq_length]
  exact fun _ _ => rfl

theorem failedStep_shareWrite (gen : GenerateWalletResponse) (front : List ShamirShare)
    (s : ShamirShare) (e : ShareStoreError) :
    failedStep (generated config walletId gen now ++ (front.map (written walletId now) ++
      [(⟨.putShare (stored walletId now s), Except.error e⟩ : WalletEvent S)]))
        = some (.shareWrite front.length) := by
  rw [failedStep, ← List.append_assoc, List.getLast?_concat]
  simp only [List.countP_append, countP_written]
  simp [generated, isShareWrite]

theorem failedStep_auditEmit (tr : List (WalletEvent S)) (x : WalletEvent S)
    (draft : AuditEventDraft) (e : AuditError) :
    failedStep (tr ++ [x, ⟨.base (.emit draft), Except.error e⟩]) = some .auditEmit := by
  rw [failedStep, List.append_cons, List.getLast?_concat]

theorem afterAll_failed (h : Holdings)
    (hfailed : (createWallet config ownerActor :
      WalletM S FullWalletRecord).run.After tr (.ret (.error e))) :
    (FailedEarly tr → h.afterAll tr = h) ∧
    ((∀ walletId, ⟨.newWalletId, walletId⟩ ∈ tr → h.IsNew walletId) →
      h.afterAll tr = h → FailedEarly tr) := by
  obtain ⟨walletId, ⟨request, e', rfl⟩ | ⟨gen, now, ⟨front, s, rest, e', -, rfl⟩ |
    ⟨record, draft, e', hrecord, rfl⟩⟩⟩ := createWallet_failed hfailed
  · exact ⟨fun _ => rfl, fun _ _ => .inl rfl⟩
  · -- the shares before the one that failed were written
    rw [FailedEarly, failedStep_shareWrite, Holdings.afterAll_append, Holdings.afterAll_generated,
      Holdings.afterAll_append]
    refine ⟨fun hearly => ?_, fun hnew hsame => ?_⟩
    · obtain rfl : front = [] := by simpa using hearly
      rfl
    · obtain rfl | hne := eq_or_ne front []
      · exact .inr rfl
      obtain ⟨s', hs'⟩ := List.exists_mem_of_ne_nil front hne
      have hthere : ((h.afterAll (front.map (written walletId now :
          ShamirShare → WalletEvent S))).shares ⟨walletId, s'.index⟩).isSome :=
        h.isSome_afterAll_written (.inl hs')
      have hnone := (hnew walletId (by simp [generated])).2 s'.index
      -- the failed write itself changes nothing
      have hsame' : h.afterAll (front.map (written walletId now : ShamirShare → WalletEvent S))
          = h := hsame
      rw [hsame', hnone] at hthere
      cases hthere
  · -- the record was published
    rw [FailedEarly, ← List.append_assoc, failedStep_auditEmit]
    refine ⟨fun hearly => by simp at hearly, fun hnew hsame => ?_⟩
    have hnone := (hnew walletId (by simp [generated])).1
    have hthere := congrArg (fun h => h.wallets record.walletId) hsame
    rw [Holdings.afterAll_append] at hthere
    simp only [Holdings.afterAll, List.foldl_cons, List.foldl_nil, Holdings.after,
      Function.update_self, hrecord, hnone] at hthere
    cases hthere

/-! ## A call that runs alone -/

variable {svc : WalletService} {intoApiError : ServiceError → ApiError} {backend : EnclaveBackend}
  {p p' : WalletSystem S}

/-- What happened since an earlier state. -/
def eventsSince (p p' : WalletSystem S) : List (WalletEvent S) :=
  (p'.log.drop p.log.length).map Prod.snd

theorem holdings_runWallets {moves : List (Move WalletCall (WalletAns S backend.Draw))}
    (hrun : runWallets svc intoApiError backend p moves = some p') :
    ∃ new, p'.log = p.log ++ new ∧
      p'.shared.toHoldings = p.shared.toHoldings.afterAll (new.map Prod.snd) := by
  have hview (s : World S) (e : WalletEffect S) (a : WalletAns S backend.Draw) (r : WalletReply e)
      (s' : World S) (h : performWallet backend s e a = some (r, s')) :
      s'.toHoldings = s.toHoldings.after ⟨e, r⟩ := holdings_perform h
  obtain ⟨new, hlog, hholdings⟩ := Pool.run_view hview hrun
  exact ⟨new, hlog, by rw [hholdings, Holdings.afterAll, List.foldl_map]⟩

theorem alone_after {call : WalletCall} {q : WalletAct S WalletOutcome}
    {answers : List (WalletAns S backend.Draw)}
    (hrun : runWallets svc intoApiError backend p
      (.spawn call :: answers.map (Move.act p.tasks.length)) = some p')
    (htask : p'.tasks[p.tasks.length]? = some (call, q)) :
    (call.prog svc intoApiError).After (eventsSince p p') q ∧
      p'.shared.toHoldings = p.shared.toHoldings.afterAll (eventsSince p p') := by
  have hspawned : Pool.run (performWallet backend) (WalletCall.prog svc intoApiError)
      { p with tasks := p.tasks ++ [(call, call.prog svc intoApiError)] }
      (answers.map (Move.act p.tasks.length)) = some p' := hrun
  obtain ⟨tr, q', hlog, htask', hafter⟩ :=
    Pool.run_alone hspawned List.getElem?_concat_length
  obtain ⟨new, hnew, hholdings⟩ := holdings_runWallets hrun
  have hq : q' = q := by simpa [htask'] using htask
  have hevents : eventsSince p p' = tr := by
    rw [eventsSince, hlog, List.drop_left, List.map_map]
    exact List.map_id tr
  have htr : new = tr.map fun x => (p.tasks.length, x) :=
    List.append_cancel_left (hnew.symm.trans hlog)
  rw [hevents]
  refine ⟨hq ▸ hafter, ?_⟩
  rw [hholdings, htr, List.map_map]
  exact congrArg p.shared.toHoldings.afterAll (List.map_id tr)

/-- **A failed creation leaves wallets and shares as they were iff it failed at the key generation
or at the first share write.** -/
theorem createWallet_unchanged_iff {e : ServiceError} {answers : List (WalletAns S backend.Draw)}
    (hrun : runWallets svc intoApiError backend p
      (.spawn (.createWallet config ownerActor) :: answers.map (Move.act p.tasks.length)) = some p')
    (hfailed : p'.tasks[p.tasks.length]? =
      some (.createWallet config ownerActor, .ret (.created (.error e)))) :
    (FailedEarly (eventsSince p p') → p'.shared.toHoldings = p.shared.toHoldings) ∧
    ((∀ walletId : WalletId, ⟨.newWalletId, walletId⟩ ∈ eventsSince p p' →
        p.shared.toHoldings.IsNew walletId) →
      p'.shared.toHoldings = p.shared.toHoldings → FailedEarly (eventsSince p p')) := by
  obtain ⟨hafter, hholdings⟩ := alone_after hrun hfailed
  obtain ⟨r, hr, hcreate⟩ := Prog.After.ret_of_map hafter
  cases hr
  rw [hholdings]
  exact afterAll_failed p.shared.toHoldings hcreate

end Create

/-! ### A wallet shared two of three -/

namespace Creation

open Enclave.Sample

/-- The service of the runs. -/
def service : WalletService := Sample.serviceWith generateDeps.crypto

/-- The mock enclave. -/
def sampleBackend : EnclaveBackend := mockBackend generateDeps vsssSplitReference unpinned

/-- A configuration. -/
def treasury : FullWalletConfig where
  scheme := .ed25519
  threshold := 2
  maxValuePerTx := none
  contractAllowlist := []
  chainAllowlist := []
  displayName := "treasury"
  ownerId := ⟨"ops"⟩
  total := 3
  policyId := ⟨4⟩

/-- A call with it. -/
def creation : WalletCall := .createWallet treasury (.requester "ops")

/-- The service as it starts, with an empty share store. -/
def start : WalletSystem memoryStore :=
  Pool.start ⟨⟨fun _ => none, .empty⟩, ⟨MemoryApproverRegistry.empty, memoryStore.empty⟩⟩

/-- The creation runs alone: the wallet is generated, and the rest is answered as given. -/
def outcome (rest : List (WalletAns memoryStore GenerateEnv)) :
    Option (WalletSystem memoryStore) :=
  runWallets service Sample.intoApiError sampleBackend start (.spawn creation ::
    (.walletId walletId :: .enclave generateEnv :: .base (.now 1000) :: rest).map (Move.act 0))

/-- The store has no room for the share at a position. -/
def diskFull (n : Nat) : List (WalletAns memoryStore GenerateEnv) :=
  List.replicate n .done ++ [.storeFailed (.io "No space left on device (os error 28)")]

/-- The shares and the record are written, the audit event is not. -/
def auditDown : List (WalletAns memoryStore GenerateEnv) :=
  [.done, .done, .done, .done, .base (.emitted (.error (.io "connection closed")))]

/-- The creation returned an error. -/
def creationFailed (p : WalletSystem memoryStore) : Bool :=
  (p.tasks[0]?).any fun
    | (_, .ret (.created (.error _))) => true
    | _ => false

theorem exists_error {rest : List (WalletAns memoryStore GenerateEnv)}
    {p : WalletSystem memoryStore} (hrun : outcome rest = some p) (h : creationFailed p = true) :
    ∃ e, p.tasks[0]? = some (creation, .ret (.created (.error e))) := by
  have hspawned : Pool.run (performWallet sampleBackend)
      (WalletCall.prog service Sample.intoApiError)
      { start with tasks := [(creation, creation.prog service Sample.intoApiError)] }
      ((.walletId walletId :: .enclave generateEnv :: .base (.now 1000) :: rest).map (Move.act 0))
      = some p := hrun
  obtain ⟨tr, q, -, htask, -⟩ := Pool.run_alone hspawned rfl
  obtain ⟨task, htask', hfailed⟩ := (Option.any_eq_true _ _).1 h
  obtain rfl : (creation, q) = task := by simpa [htask] using htask'
  split at hfailed
  · next e heq =>
    cases heq
    exact ⟨e, htask⟩
  · cases hfailed

end Creation

open Creation

/-- The first share cannot be written, and nothing changes. -/
theorem createWallet_unchanged_first_write :
    ∃ p, outcome (diskFull 0) = some p ∧ p.shared.toHoldings = start.shared.toHoldings := by
  have hfinal : (outcome (diskFull 0)).any (fun p =>
      creationFailed p && decide (FailedEarly (eventsSince start p))) = true := by
    decide +kernel
  obtain ⟨p, hrun, hp⟩ := (Option.any_eq_true _ _).1 hfinal
  obtain ⟨hfailed, hearly⟩ := Bool.and_eq_true_iff.1 hp
  obtain ⟨e, htask⟩ := exists_error hrun hfailed
  exact ⟨p, hrun, (createWallet_unchanged_iff hrun htask).1 (of_decide_eq_true hearly)⟩

/-- The second share cannot be written and the first stays; or the event cannot be written, and the
record and the shares stay. -/
theorem createWallet_changed_late :
    (∃ p e, outcome (diskFull 1) = some p ∧
      p.tasks[0]? = some (creation, .ret (.created (.error e))) ∧
      p.shared.toHoldings ≠ start.shared.toHoldings) ∧
    ∃ p e, outcome auditDown = some p ∧ p.tasks[0]? = some (creation, .ret (.created (.error e))) ∧
      p.shared.toHoldings ≠ start.shared.toHoldings := by
  have hshare : (outcome (diskFull 1)).any (fun p =>
      creationFailed p && (p.shared.shares ⟨Enclave.Sample.walletId, 1⟩).isSome) = true := by
    decide +kernel
  have hwallet : (outcome auditDown).any (fun p =>
      creationFailed p && (p.shared.wallets Enclave.Sample.walletId).isSome) = true := by
    decide +kernel
  obtain ⟨p, hrun, hp⟩ := (Option.any_eq_true _ _).1 hshare
  obtain ⟨q, hrun', hq⟩ := (Option.any_eq_true _ _).1 hwallet
  obtain ⟨hfailed, hsome⟩ := Bool.and_eq_true_iff.1 hp
  obtain ⟨hfailed', hsome'⟩ := Bool.and_eq_true_iff.1 hq
  obtain ⟨e, htask⟩ := exists_error hrun hfailed
  obtain ⟨e', htask'⟩ := exists_error hrun' hfailed'
  refine ⟨⟨p, e, hrun, htask, fun hsame => ?_⟩, q, e', hrun', htask', fun hsame => ?_⟩
  · rw [hsame] at hsome
    cases hsome
  · rw [hsame] at hsome'
    cases hsome'

end QfcServerWallet.Service
