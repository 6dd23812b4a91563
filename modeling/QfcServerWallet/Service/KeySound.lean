import QfcServerWallet.Service.CreateSound
import QfcServerWallet.Service.Traces

/-!
# A wallet signs with the key it was created with

Runs of the whole service: creations, signing calls, the other calls and deletions of shares, in any
interleaving, over the mock enclave.

* The service starts without wallets; the share store and the approvers have what they have.
* A record and a share come from the creation that drew their wallet id (`Created`). Ids are drawn
  once, and nothing is stored under an id before it is drawn (`FreshWallets`), so there is one such
  creation, and one seed behind the record and the shares.
* Any number of shares may be deleted at any time. A signing call that finds too few of them fails.

Results: `created_of_write`, `Created.unique` and **`sign_with_master_key`**.
-/

namespace QfcServerWallet.Service

open Lib Audit Enclave Policy Quorum Sss

variable {S : ApprovalStore}

/-! ## Where writes come from -/

/-- A write of a share or of a record. -/
def Writes : WalletEffect S → Prop
  | .putShare _ | .insertWallet _ => True
  | _ => False

/-- What the creation of one wallet writes. -/
def WrittenBy (config : FullWalletConfig) (walletId : WalletId) (gen : GenerateWalletResponse)
    (now : Int64) : WalletEffect S → Prop
  | .putShare s => ∃ share ∈ gen.shares, s = stored walletId now share
  | .insertWallet record => record = recordOf config walletId gen now
  | _ => True

section Creation

variable {config : FullWalletConfig} {ownerActor : Actor} {walletId : WalletId} {now : Int64}
  {gen : GenerateWalletResponse} {tr : List (WalletEvent S)}

theorem writtenBy_putShares {ss : List ShamirShare} (hss : ss ⊆ gen.shares) :
    (putShares walletId now ss : WalletM S Unit).run.Uses
      (WrittenBy config walletId gen now) := by
  induction ss with
  | nil => trivial
  | cons s ss ih =>
    obtain ⟨hs, hss⟩ := List.cons_subset.1 hss
    exact .run_bind (.orThrow ⟨⟨s, hs, rfl⟩, fun _ => trivial⟩) fun _ => ih hss

theorem writtenBy_publish {indices : List UInt8} :
    (publish ownerActor (recordOf config walletId gen now) indices :
      WalletM S FullWalletRecord).run.Uses (WrittenBy config walletId gen now) :=
  .run_bind (.lift ⟨rfl, fun _ => trivial⟩) fun _ =>
    .run_bind (.orThrow ⟨trivial, fun _ => trivial⟩) fun _ => trivial

theorem createWallet_wrote {q : WalletAct S (Except ServiceError FullWalletRecord)}
    (h : (createWallet config ownerActor : WalletM S FullWalletRecord).run.After tr q)
    {x : WalletEvent S} (hx : x ∈ tr) (hwrites : Writes x.1) :
    ∃ walletId gen now, generated config walletId gen now <+: tr ∧
      WrittenBy config walletId gen now x.1 := by
  have hread {e : WalletEffect S} {α : Type} {f : WalletReply e → α} (he : ¬ Writes e) :
      (Prog.act e fun r => .ret (f r) : WalletAct S α).Uses fun e => ¬ Writes e :=
    ⟨he, fun _ => trivial⟩
  obtain ⟨tr₁, rest, walletId, rfl, hid, h₁, hx₁⟩ :=
    h.past_run_bind (hread id) hx (not_not.2 hwrites)
  obtain ⟨tr₂, rest, gen, rfl, hgen, h₂, hx₂⟩ :=
    h₁.past_run_bind (hread id) hx₁ (not_not.2 hwrites)
  obtain ⟨tr₃, rest, now, rfl, hnow, h₃, hx₃⟩ :=
    h₂.past_run_bind (hread id) hx₂ (not_not.2 hwrites)
  obtain rfl : tr₁ = [⟨.newWalletId, walletId⟩] := hid.ok_of_lift.of_perform
  obtain rfl := hgen.ok_of_orThrow.of_perform
  obtain rfl : tr₃ = [⟨.base .now, now⟩] := hnow.ok_of_lift.of_perform
  refine ⟨walletId, gen, now, ⟨rest, rfl⟩, ?_⟩
  exact (Prog.Uses.run_bind (writtenBy_putShares (List.Subset.refl _))
    fun _ => writtenBy_publish).allowed_of_mem h₃ hx₃

end Creation

/-! ## What the map and the store hold -/

namespace Holdings

variable {h : Holdings} {tr : List (WalletEvent S)} {record : FullWalletRecord}

theorem after_cases (h : Holdings) (x : WalletEvent S) :
    (∃ s, x = ⟨.putShare s, Except.ok ()⟩ ∧ h.after x = { h with shares := h.shares.put s }) ∨
    (∃ record, x = ⟨.insertWallet record, ()⟩ ∧ h.after x =
      { h with wallets := Function.update h.wallets record.walletId (some record) }) ∨
    (∃ id, h.after x = { h with shares := h.shares.delete id }) ∨ h.after x = h := by
  unfold after
  split
  · exact .inl ⟨_, rfl, rfl⟩
  · exact .inr (.inl ⟨_, rfl, rfl⟩)
  · exact .inr (.inr (.inl ⟨_, rfl⟩))
  · exact .inr (.inr (.inr rfl))

theorem afterAll_concat (h : Holdings) (tr : List (WalletEvent S)) (x : WalletEvent S) :
    h.afterAll (tr ++ [x]) = (h.afterAll tr).after x :=
  h.afterAll_append tr [x]

theorem shares_afterAll {id : ShareId} {s : StoredShare}
    (hs : (h.afterAll tr).shares id = some (.ok s)) :
    h.shares id = some (.ok s) ∨ ⟨.putShare s, Except.ok ()⟩ ∈ tr ∧ s.shareId = id := by
  induction tr using List.reverseRecOn with
  | nil => exact .inl hs
  | append_singleton tr x ih =>
    have hearlier (hs : (h.afterAll tr).shares id = some (.ok s)) :
        h.shares id = some (.ok s) ∨ ⟨.putShare s, Except.ok ()⟩ ∈ tr ++ [x] ∧ s.shareId = id :=
      (ih hs).imp_right fun hput => ⟨List.mem_append_left _ hput.1, hput.2⟩
    rw [afterAll_concat] at hs
    obtain ⟨s', rfl, hafter⟩ | ⟨record, rfl, hafter⟩ | ⟨gone, hafter⟩ | hafter :=
      (h.afterAll tr).after_cases x
    · simp only [hafter, ShareMap.put_apply] at hs
      split at hs
      · next hid =>
        cases hs
        exact .inr ⟨by simp, hid.symm⟩
      · exact hearlier hs
    · rw [hafter] at hs
      exact hearlier hs
    · simp only [hafter, ShareMap.delete_apply] at hs
      split at hs
      · cases hs
      · exact hearlier hs
    · rw [hafter] at hs
      exact hearlier hs

theorem wallets_afterAll {walletId : WalletId}
    (hrecord : (h.afterAll tr).wallets walletId = some record) :
    h.wallets walletId = some record ∨
      ⟨.insertWallet record, ()⟩ ∈ tr ∧ record.walletId = walletId := by
  induction tr using List.reverseRecOn with
  | nil => exact .inl hrecord
  | append_singleton tr x ih =>
    have hearlier (hrecord : (h.afterAll tr).wallets walletId = some record) :
        h.wallets walletId = some record ∨
          ⟨.insertWallet record, ()⟩ ∈ tr ++ [x] ∧ record.walletId = walletId :=
      (ih hrecord).imp_right fun hin => ⟨List.mem_append_left _ hin.1, hin.2⟩
    rw [afterAll_concat] at hrecord
    obtain ⟨s, rfl, hafter⟩ | ⟨record', rfl, hafter⟩ | ⟨gone, hafter⟩ | hafter :=
      (h.afterAll tr).after_cases x
    · rw [hafter] at hrecord
      exact hearlier hrecord
    · simp only [hafter, Function.update_apply] at hrecord
      split at hrecord
      · next hid =>
        cases hrecord
        exact .inr ⟨by simp, hid.symm⟩
      · exact hearlier hrecord
    · rw [hafter] at hrecord
      exact hearlier hrecord
    · rw [hafter] at hrecord
      exact hearlier hrecord

theorem isSome_wallets_afterAll {walletId : WalletId} (hknown : (h.wallets walletId).isSome) :
    ((h.afterAll tr).wallets walletId).isSome := by
  induction tr generalizing h with
  | nil => exact hknown
  | cons x tr ih =>
    refine ih ?_
    obtain ⟨s, rfl, hafter⟩ | ⟨record, rfl, hafter⟩ | ⟨gone, hafter⟩ | hafter := h.after_cases x
    · rwa [hafter]
    · simp only [hafter, Function.update_apply]
      split
      · rfl
      · exact hknown
    · rwa [hafter]
    · rwa [hafter]

theorem isSome_wallets_of_insert (hin : ⟨.insertWallet record, ()⟩ ∈ tr) :
    ((h.afterAll tr).wallets record.walletId).isSome := by
  obtain ⟨front, back, rfl⟩ := List.append_of_mem hin
  rw [afterAll_append]
  refine isSome_wallets_afterAll (h := (h.afterAll front).after _) ?_
  simp [after]

end Holdings

/-! ## Runs -/

/-- The service as it starts: it knows no wallet. -/
def startService (shares : ShareMap) (base : State S) : WalletSystem S :=
  Pool.start ⟨⟨fun _ => none, shares⟩, base⟩

/-- The wallet ids that were drawn, each with the task that drew it. -/
def drawnWallets (log : List (Nat × WalletEvent S)) : List (Nat × WalletId) :=
  log.filterMap fun
    | (i, ⟨.newWalletId, id⟩) => some (i, id)
    | _ => none

/-- Wallet ids are drawn once, and nothing was stored under them before. -/
structure FreshWallets (shares : ShareMap) (p : WalletSystem S) : Prop where
  once : ((drawnWallets p.log).map Prod.snd).Nodup
  unstored : ∀ y ∈ drawnWallets p.log, ∀ index, shares ⟨y.2, index⟩ = none

/-- Task `i` is the creation of the wallet: it drew the id, and the enclave generated the wallet. -/
structure Created (p : WalletSystem S) (i : Nat) (config : FullWalletConfig) (walletId : WalletId)
    (gen : GenerateWalletResponse) (now : Int64) : Prop where
  call : ∃ ownerActor q, p.tasks[i]? = some (.createWallet config ownerActor, q)
  generated : generated config walletId gen now <+: Pool.trace p.log i

section Runs

variable {svc : WalletService} {intoApiError : ServiceError → ApiError} {backend : EnclaveBackend}
  {shares : ShareMap} {base : State S} {p : WalletSystem S}
  {moves : List (Move WalletCall (WalletAns S backend.Draw))}

theorem uses_onBase {α : Type} {allowed : WalletEffect S → Prop} {q : Act S α}
    (h : ∀ e, allowed (.base e)) : (onBase q).Uses allowed :=
  .embed (.of_forall h)

/-- Records and shares are written by creations. -/
theorem created_of_write
    (hrun : runWallets svc intoApiError backend (startService shares base) moves = some p)
    {i : Nat} {x : WalletEvent S} (hx : (i, x) ∈ p.log) (hwrites : Writes x.1) :
    ∃ config walletId gen now, Created p i config walletId gen now ∧
      WrittenBy config walletId gen now x.1 := by
  have hlt := (Pool.run_tasks hrun).1 _ hx
  obtain ⟨⟨call, q⟩, htask⟩ : ∃ task, p.tasks[i]? = some task :=
    ⟨_, List.getElem?_eq_getElem hlt⟩
  have hafter := Pool.run_after hrun htask
  have hmem := Pool.mem_trace hx
  cases call with
  | service call =>
    obtain ⟨q', hq'⟩ := hafter.of_map
    have huses : (onBase (call.prog svc intoApiError) : WalletAct S Outcome).Uses
        fun e => ¬ Writes e := uses_onBase fun _ => id
    exact absurd hwrites (huses.allowed_of_mem hq' hmem)
  | createWallet config ownerActor =>
    obtain ⟨q', hq'⟩ := hafter.of_map
    obtain ⟨walletId, gen, now, hgenerated, hwritten⟩ := createWallet_wrote hq' hmem hwrites
    exact ⟨config, walletId, gen, now, ⟨⟨ownerActor, q, htask⟩, hgenerated⟩, hwritten⟩
  | deleteShare id =>
    have huses : (WalletCall.prog svc intoApiError (.deleteShare id) :
        WalletAct S WalletOutcome).Uses fun e => ¬ Writes e := ⟨fun h => h, fun _ => trivial⟩
    exact absurd hwrites (huses.allowed_of_mem hafter hmem)

variable {i j : Nat} {config config' : FullWalletConfig} {walletId : WalletId}
  {gen gen' : GenerateWalletResponse} {now now' : Int64} {record : FullWalletRecord}

theorem Created.mem_log (h : Created p i config walletId gen now) {x : WalletEvent S}
    (hx : x ∈ Service.generated config walletId gen now) : (i, x) ∈ p.log :=
  Pool.mem_of_mem_trace (h.generated.subset hx)

theorem Created.drawn (h : Created p i config walletId gen now) :
    (i, walletId) ∈ drawnWallets p.log :=
  List.mem_filterMap.2 ⟨_, h.mem_log List.mem_cons_self, rfl⟩

/-- One creation for an id. -/
theorem Created.unique (hfresh : FreshWallets shares p) (h : Created p i config walletId gen now)
    (h' : Created p j config' walletId gen' now') : config = config' ∧ gen = gen' ∧ now = now' := by
  obtain rfl : i = j :=
    congrArg Prod.fst (List.inj_on_of_nodup_map hfresh.once h.drawn h'.drawn rfl)
  obtain ⟨ownerActor, q, htask⟩ := h.call
  obtain ⟨ownerActor', q', htask'⟩ := h'.call
  have hsame : Service.generated config walletId gen now
      = Service.generated config' walletId gen' now' :=
    (List.prefix_of_prefix_length_le h.generated h'.generated (Nat.le_refl 3)).eq_of_length rfl
  cases htask.symm.trans htask'
  cases hsame
  exact ⟨rfl, rfl, rfl⟩

theorem answer_explained
    (hrun : runWallets svc intoApiError backend (startService shares base) moves = some p)
    {e : WalletEffect S} {r : WalletReply e} (hx : (i, ⟨e, r⟩) ∈ p.log) :
    ∃ (tr : List (WalletEvent S)) (s s' : World S) (a : WalletAns S backend.Draw),
      (∀ x ∈ tr, ∃ j, (j, x) ∈ p.log) ∧
      s.toHoldings = Holdings.afterAll ⟨fun _ => none, shares⟩ tr ∧
      performWallet backend s e a = some (r, s') := by
  obtain ⟨log, s, a, s', hlog, hholdings, hperform⟩ := Pool.log_explained
    (I := fun log s => s.toHoldings = Holdings.afterAll ⟨fun _ => none, shares⟩
      (log.map Prod.snd)) rfl
    (fun log s i e a r s' hs hperform => by
      rw [holdings_perform hperform, hs, List.map_append]
      exact (Holdings.afterAll_concat _ _ _).symm) hrun hx
  refine ⟨log.map Prod.snd, s, s', a, fun x hx => ?_, hholdings, hperform⟩
  obtain ⟨⟨j, y⟩, hy, rfl⟩ := List.mem_map.1 hx
  exact ⟨j, hlog.subset (List.mem_append_left _ hy)⟩

theorem created_of_insert
    (hrun : runWallets svc intoApiError backend (startService shares base) moves = some p)
    (hx : (i, ⟨.insertWallet record, ()⟩) ∈ p.log) :
    ∃ config gen now, Created p i config record.walletId gen now ∧
      record = recordOf config record.walletId gen now := by
  obtain ⟨config, walletId, gen, now, hcreated, rfl⟩ := created_of_write hrun hx trivial
  exact ⟨config, gen, now, hcreated, rfl⟩

theorem wallets_of_insert (hfresh : FreshWallets shares p)
    (hrun : runWallets svc intoApiError backend (startService shares base) moves = some p)
    (hj : (j, ⟨.insertWallet record, ()⟩) ∈ p.log) :
    p.shared.wallets record.walletId = some record := by
  obtain ⟨new, hlog, hholdings⟩ := holdings_runWallets hrun
  obtain rfl : p.log = new := hlog
  rw [hholdings]
  have hknown : ((Holdings.afterAll (startService shares base).shared.toHoldings
      (p.log.map Prod.snd)).wallets record.walletId).isSome :=
    Holdings.isSome_wallets_of_insert (List.mem_map_of_mem hj)
  obtain ⟨last, hlast⟩ := Option.isSome_iff_exists.1 hknown
  obtain habs | ⟨hinsert, hid⟩ := Holdings.wallets_afterAll hlast
  · cases habs
  obtain ⟨⟨j', x⟩, hj', rfl⟩ := List.mem_map.1 hinsert
  -- both were inserted by the one creation of the id
  obtain ⟨config, gen, now, hcreated, hrecord⟩ := created_of_insert hrun hj
  obtain ⟨config', gen', now', hcreated', hrecord'⟩ := created_of_insert hrun hj'
  rw [hid] at hcreated' hrecord'
  obtain ⟨rfl, rfl, rfl⟩ := hcreated.unique hfresh hcreated'
  rw [hlast, hrecord', ← hrecord]

theorem created_of_getWallet (hfresh : FreshWallets shares p)
    (hrun : runWallets svc intoApiError backend (startService shares base) moves = some p)
    {wallet : WalletRecord} (hx : (i, ⟨.base (.getWallet walletId), some wallet⟩) ∈ p.log) :
    ∃ j config gen now, Created p j config walletId gen now ∧
      wallet = (recordOf config walletId gen now).signing ∧
      p.shared.wallets walletId = some (recordOf config walletId gen now) := by
  obtain ⟨tr, s, s', a, htr, hholdings, hperform⟩ := answer_explained hrun hx
  obtain ⟨record, hrecord, rfl⟩ : ∃ record, s.wallets walletId = some record ∧
      record.signing = wallet := by
    cases a with
    | done => exact Option.map_eq_some_iff.1 (congrArg Prod.fst (Option.some.inj hperform))
    | _ => cases hperform
  rw [hholdings] at hrecord
  obtain habs | ⟨hinsert, rfl⟩ := Holdings.wallets_afterAll hrecord
  · cases habs
  obtain ⟨j, hj⟩ := htr _ hinsert
  obtain ⟨config, gen, now, hcreated, hrecord'⟩ := created_of_insert hrun hj
  exact ⟨j, config, gen, now, hcreated, by rw [← hrecord'],
    by rw [← hrecord', wallets_of_insert hfresh hrun hj]⟩

theorem generated_of_getShare (hfresh : FreshWallets shares p)
    (hrun : runWallets svc intoApiError backend (startService shares base) moves = some p)
    {id : ShareId} {s : StoredShare} (hx : (i, ⟨.base (.getShare id), Except.ok s⟩) ∈ p.log)
    (hcreated : Created p j config id.walletId gen now) :
    s.share ∈ gen.shares ∧ id.index = s.share.index := by
  obtain ⟨tr, w, w', a, htr, hholdings, hperform⟩ := answer_explained hrun hx
  have hget : w.shares.get id = .ok s := by
    cases a with
    | done => exact congrArg Prod.fst (Option.some.inj hperform)
    | _ => cases hperform
  have hstored : w.shares id = some (.ok s) := by
    unfold ShareMap.get at hget
    cases hw : w.shares id with
    | none => simp [hw] at hget
    | some r =>
      rw [hw] at hget
      exact congrArg some hget
  rw [hholdings] at hstored
  obtain habs | ⟨hput, hid⟩ := Holdings.shares_afterAll hstored
  · cases (hfresh.unstored _ hcreated.drawn id.index).symm.trans habs
  obtain ⟨j', hj'⟩ := htr _ hput
  obtain ⟨config', walletId', gen', now', hcreated', share, hshare, rfl⟩ :=
    created_of_write hrun hj' trivial
  cases hid
  obtain ⟨-, rfl, -⟩ := hcreated.unique hfresh hcreated'
  exact ⟨hshare, rfl⟩

theorem listed_of_listShares
    (hrun : runWallets svc intoApiError backend (startService shares base) moves = some p)
    {ids : List ShareId} (hx : (i, ⟨.base (.listShares walletId), Except.ok ids⟩) ∈ p.log) :
    ∃ m : ShareMap, ids = m.list walletId := by
  obtain ⟨tr, s, s', a, -, -, hperform⟩ := answer_explained hrun hx
  cases a with
  | done =>
    cases hperform
    exact ⟨s.shares, rfl⟩
  | _ => cases hperform

/-- An event of the other calls. -/
def baseEvent : WalletEvent S → Option (ServiceEvent S)
  | ⟨.base e, r⟩ => some ⟨e, r⟩
  | _ => none

theorem sign_after
    (hrun : runWallets svc intoApiError backend (startService shares base) moves = some p)
    {args : WalletService.SignArgs} {rounds : Nat} {response : EnclaveSignResponse}
    (htask : p.tasks[i]? =
      some (.service (.sign args rounds), .ret (.service (.signed (.ok response))))) :
    ∃ tr, (∀ x ∈ tr, (i, ⟨.base x.1, x.2⟩) ∈ p.log) ∧
      Prog.Yields (svc.sign args rounds) tr response := by
  have hproj (e : Effect S) (r : WalletReply (.base e : WalletEffect S)) :
      baseEvent ⟨.base e, r⟩ = some ⟨e, r⟩ := rfl
  obtain ⟨outcome, houtcome, hbase⟩ := Prog.After.ret_of_map (Pool.run_after hrun htask)
  cases houtcome
  obtain ⟨q, hq, hret⟩ := Prog.After.of_embed hproj hbase
  obtain rfl : q = .ret (.signed (.ok response)) := by
    cases q with
    | ret a =>
      cases hret
      rfl
    | act e k => cases hret
  obtain ⟨r, hr, hsign⟩ := Prog.After.ret_of_map hq
  cases hr
  refine ⟨_, fun x hx => Pool.mem_of_mem_trace ?_, hsign⟩
  obtain ⟨y, hy, hyx⟩ := List.mem_filterMap.1 hx
  obtain rfl : y = ⟨.base x.1, x.2⟩ := by
    unfold baseEvent at hyx
    split at hyx
    · cases hyx
      rfl
    · cases hyx
  exact hy

end Runs

section Mock

variable {d : MockDeps} {split : VsssSplit} {enclave : MockEnclave} {svc : WalletService}
  {intoApiError : ServiceError → ApiError} {shares : ShareMap} {base : State S}
  {moves : List (Move WalletCall (WalletAns S GenerateEnv))} {p : WalletSystem S} {i : Nat}

theorem generateWallet_of_mem_log
    (hrun : runWallets svc intoApiError (mockBackend d split enclave) (startService shares base)
      moves = some p) {request : GenerateWalletRequest} {gen : GenerateWalletResponse}
    (hx : (i, ⟨.generateWallet request, Except.ok gen⟩) ∈ p.log) :
    ∃ env, enclave.generateWallet d split env request = .ok gen := by
  obtain ⟨tr, s, s', a, -, -, hperform⟩ := answer_explained hrun hx
  cases a with
  | enclave env =>
    obtain ⟨r, hr, hret⟩ := Option.map_eq_some_iff.1 hperform
    cases hret
    exact ⟨env, returned_eq_ok.1 hr⟩
  | _ => cases hperform

theorem signInEnclave_of_mem_log
    (hrun : runWallets svc intoApiError (mockBackend d split enclave) (startService shares base)
      moves = some p) {request : EnclaveSignRequest} {response : EnclaveSignResponse}
    (hx : (i, ⟨.base (.signInEnclave request), Except.ok response⟩) ∈ p.log) :
    ∃ env, enclave.signInEnclave d env request = .ok response := by
  obtain ⟨tr, s, s', a, -, -, hperform⟩ := answer_explained hrun hx
  cases a with
  | enclave env =>
    simp only [performWallet, performBase] at hperform
    split at hperform
    · next r hr =>
      cases hperform
      exact ⟨env.toEnv, returned_eq_ok.1 hr⟩
    · cases hperform
  | _ => cases hperform

/-- **`sign` without a path signs with the key in the wallet's record.** -/
theorem sign_with_master_key (hsplit : split.Evaluates) (hcombine : CombinesAtZero d.crypto)
    (hcrypto : d.crypto.SignaturesCorrect)
    (hrun : runWallets svc intoApiError (mockBackend d split enclave) (startService shares base)
      moves = some p)
    (hfresh : FreshWallets shares p) {args : WalletService.SignArgs} {rounds : Nat}
    {response : EnclaveSignResponse}
    (htask : p.tasks[i]? =
      some (.service (.sign args rounds), .ret (.service (.signed (.ok response)))))
    (hpath : args.hdPath = none) :
    ∃ record, p.shared.wallets args.walletId = some record ∧
      response.publicKey = record.masterPublicKey ∧
      verify d.crypto record.config.scheme record.masterPublicKey (svc.message args)
        response.signature args.hashAlg = .ok () := by
  obtain ⟨tr, hlog, hsign⟩ := sign_after hrun htask
  obtain ⟨wallet, requestId, signed, ids, stored, hwallet, hlist, henough, hread, henclave⟩ :=
    WalletService.sign_read hsign
  obtain ⟨j, config, gen, now, hcreated, rfl, hrecord⟩ :=
    created_of_getWallet hfresh hrun (hlog _ hwallet)
  obtain ⟨m, rfl⟩ := listed_of_listShares hrun (hlog _ hlist)
  obtain ⟨env, hgen⟩ := generateWallet_of_mem_log hrun (hcreated.mem_log
    (List.mem_cons_of_mem _ List.mem_cons_self))
  obtain ⟨env', hresponse⟩ := signInEnclave_of_mem_log hrun (hlog _ henclave)
  -- the shares that were read are of this generated wallet, one for each id
  have hids : ∀ id ∈ (m.list args.walletId).take config.threshold.toNat,
      id.walletId = args.walletId := fun id hid =>
    (ShareMap.mem_list.1 (List.mem_of_mem_take hid)).1
  have hpairs : List.Forall₂ (fun id s => s.share ∈ gen.shares ∧ id.index = s.share.index)
      ((m.list args.walletId).take config.threshold.toNat) stored :=
    ((List.forall₂_and_left _ _).2 ⟨hids, hread⟩).imp fun id s h =>
      generated_of_getShare hfresh hrun (hlog _ h.2) (h.1 ▸ hcreated)
  have hindices : ((m.list args.walletId).take config.threshold.toNat).map ShareId.index
      = (stored.map StoredShare.share).map ShamirShare.index := by
    rw [List.map_map]
    exact map_eq_map_of_forall₂ (hpairs.imp fun _ _ h => h.2)
  have hnodup : (stored.map StoredShare.share).Nodup := by
    refine List.Nodup.of_map ShamirShare.index ?_
    rw [← hindices, List.map_take]
    exact (m.nodup_index_list args.walletId).sublist (List.take_sublist _ _)
  have hmem : ∀ s ∈ stored.map StoredShare.share, s ∈ gen.shares := by
    intro share hshare
    obtain ⟨s, hs, rfl⟩ := List.mem_map.1 hshare
    obtain ⟨id, -, hin, -⟩ := exists_left_of_forall₂ hpairs hs
    exact hin
  have hlength : config.threshold.toNat ≤ (stored.map StoredShare.share).length := by
    rw [List.length_map, ← hread.length_eq, List.length_take]
    exact le_min le_rfl henough
  exact ⟨_, hrecord, sign_with_generated hsplit hcombine hcrypto hgen hresponse rfl hpath hnodup
    hmem hlength⟩

end Mock

/-! ### A wallet that lost a share

It is created two of three, the first share is deleted, and a message is signed. -/

namespace Creation

open Enclave.Sample

/-- What happens in a run. -/
abbrev Moves := List (Move WalletCall (WalletAns memoryStore GenerateEnv))

/-- One call, whose operations are answered as given. -/
def answered (task : Nat) (call : WalletCall) (answers : List (WalletAns memoryStore GenerateEnv)) :
    Moves :=
  .spawn call :: answers.map (Move.act task)

/-- A wallet is created, a share is deleted, and the wallet signs. -/
def moves : Moves :=
  answered 0 creation [.walletId walletId, .enclave generateEnv, .base (.now 1000), .done, .done,
    .done, .done, .base (.emitted (.ok ()))]
  ++ answered 1 (.deleteShare ⟨walletId, 1⟩) [.done]
  ++ answered 2 (.service (.sign Sample.signArgs 1)) [.done, .base (.requestId requestId),
    .base (.emitted (.ok ())), .base (.now 1500), .base (.evaluated (.ok (.allow ⟨3⟩ ⟨4⟩ []))),
    .base (.emitted (.ok ())), .done, .done, .done, .base (.emitted (.ok ())),
    .enclave generateEnv, .base (.emitted (.ok ()))]

/-- A signing call without a path that returned a signature. -/
def signedWithoutPath : WalletCall × WalletAct S WalletOutcome → Bool
  | (.service (.sign args _), .ret (.service (.signed (.ok _)))) => args.hdPath.isNone
  | _ => false

end Creation

open Creation in
/-- The other two shares sign with the key of the wallet. -/
theorem signs_without_first_share :
    ∃ p args rounds response record,
      runWallets service Sample.intoApiError sampleBackend
        (startService .empty ⟨MemoryApproverRegistry.empty, memoryStore.empty⟩) moves
          = some p ∧
      p.tasks[2]? =
        some (.service (.sign args rounds), .ret (.service (.signed (.ok response)))) ∧
      p.shared.wallets args.walletId = some record ∧
      response.publicKey = record.masterPublicKey ∧
      verify Enclave.Sample.generateDeps.crypto record.config.scheme record.masterPublicKey
        (service.message args) response.signature args.hashAlg = .ok () := by
  have hfinal : (runWallets service Sample.intoApiError sampleBackend
      (startService .empty ⟨MemoryApproverRegistry.empty, memoryStore.empty⟩) moves).any
      (fun p => (p.tasks[2]?).any signedWithoutPath &&
        decide ((drawnWallets p.log).map Prod.snd).Nodup) = true := by
    decide +kernel
  obtain ⟨p, hrun, hp⟩ := (Option.any_eq_true _ _).1 hfinal
  obtain ⟨htask, honce⟩ := Bool.and_eq_true_iff.1 hp
  obtain ⟨task, htask, hsigned⟩ := (Option.any_eq_true _ _).1 htask
  unfold signedWithoutPath at hsigned
  split at hsigned
  · next args rounds response =>
    obtain ⟨record, hrecord, hkey, hverify⟩ := sign_with_master_key
      vsssSplitReference_evaluates (vsssCombineReference_combines rfl)
      Enclave.Sample.generateDeps_correct hrun ⟨of_decide_eq_true honce, fun _ _ _ => rfl⟩ htask
      (Option.isNone_iff_eq_none.1 hsigned)
    exact ⟨p, args, rounds, response, record, hrun, htask, hrecord, hkey, hverify⟩
  · cases hsigned

end QfcServerWallet.Service
