import QfcServerWallet.Enclave.Generate
import QfcServerWallet.Service.Calls
import QfcServerWallet.Service.Shares

/-!
# Wallets

`create_wallet` of `qfc-server-wallet/src/service.rs`, and the service with what it holds: the map
of wallets, the share store and the enclave.

* `FullWalletConfig` and `FullWalletRecord` have all fields of `WalletConfig` and `WalletRecord` of
  `wallet.rs`; `signing` is the part of a record that signing reads.
* The operations of `create_wallet` are added to those of the other calls. `getWallet`, `listShares`
  and `getShare` are now answered from the state, and the enclave's operations by a backend
  (`dyn Enclave`). Everything else is answered as in `Service.perform`.
* An operation of the share store may fail for a reason of its own (`storeFailed`), and then leaves
  the store as it was. `delete` is called by operators, not by the service.
* The map of wallets has no operation that removes an entry or changes a status.

Results: `holdings_perform` and `performBase_refines`.
-/

namespace QfcServerWallet.Service

open Lib Audit Enclave Policy Quorum Sss

/-! ## Types -/

/-- The configuration of a wallet. -/
structure FullWalletConfig extends WalletConfig where
  displayName : String
  ownerId : OwnerId
  total : UInt8
  policyId : PolicyId

/-- A wallet. -/
structure FullWalletRecord where
  walletId : WalletId
  config : FullWalletConfig
  masterPublicKey : Bytes
  status : WalletStatus
  createdAtUnixMs : Int64

/-- What signing reads of a record. -/
def FullWalletRecord.signing (r : FullWalletRecord) : WalletRecord :=
  ⟨r.walletId, r.config.toWalletConfig, r.status⟩

/-- `dyn Enclave`. A call takes what it draws from outside, and may panic. -/
structure EnclaveBackend where
  Draw : Type
  generateWallet : Draw → GenerateWalletRequest →
    Option (Except EnclaveError GenerateWalletResponse)
  signInEnclave : Draw → EnclaveSignRequest → Option (Except EnclaveError EnclaveSignResponse)

/-- What a call returns, if it does not panic. -/
def returned {ε α : Type} : Except (Fault ε) α → Option (Except ε α)
  | .ok a => some (.ok a)
  | .error (.err e) => some (.error e)
  | .error .panic => none

theorem returned_eq_ok {ε α : Type} {x : Except (Fault ε) α} {a : α} :
    returned x = some (.ok a) ↔ x = .ok a := by
  unfold returned
  split <;> simp

/-- `MockEnclave` -/
def mockBackend (d : MockDeps) (split : VsssSplit) (e : MockEnclave) : EnclaveBackend where
  Draw := GenerateEnv
  generateWallet env req := returned (e.generateWallet d split env req)
  signInEnclave env req := returned (e.signInEnclave d env.toEnv req)

/-! ## Operations -/

variable {S : ApprovalStore}

/-- The awaits of a call. -/
inductive WalletEffect (S : ApprovalStore) where
  /-- an operation of the other calls -/
  | base (e : Effect S)
  /-- `WalletId::new` -/
  | newWalletId
  | generateWallet (request : GenerateWalletRequest)
  | putShare (stored : StoredShare)
  /-- `wallets.write().await.insert` -/
  | insertWallet (record : FullWalletRecord)
  | deleteShare (id : ShareId)

/-- What each of them returns. -/
def WalletReply : WalletEffect S → Type
  | .base e => Reply e
  | .newWalletId => WalletId
  | .generateWallet _ => Except EnclaveError GenerateWalletResponse
  | .putShare _ => Except ShareStoreError Unit
  | .insertWallet _ => Unit
  | .deleteShare _ => Except ShareStoreError Unit

/-- The wallets and the shares. -/
@[ext]
structure Holdings where
  wallets : WalletId → Option FullWalletRecord
  shares : ShareMap

/-- What a running service holds. -/
structure World (S : ApprovalStore) extends Holdings where
  base : State S

/-- What the outside world decides about one operation. -/
inductive WalletAns (S : ApprovalStore) (Draw : Type) where
  | base (a : Ans S)
  | walletId (id : WalletId)
  /-- the enclave answers, with what it draws -/
  | enclave (draw : Draw)
  /-- the map or the store does what it is asked to -/
  | done
  | storeFailed (e : ShareStoreError)

namespace Holdings

/-- What one event writes. -/
def after (h : Holdings) : Prog.Event (WalletEffect S) WalletReply → Holdings
  | ⟨.putShare stored, .ok ()⟩ => { h with shares := h.shares.put stored }
  | ⟨.insertWallet record, ()⟩ =>
    { h with wallets := Function.update h.wallets record.walletId (some record) }
  | ⟨.deleteShare id, .ok ()⟩ => { h with shares := h.shares.delete id }
  | _ => h

end Holdings

/-- An operation of the other calls. -/
def performBase (backend : EnclaveBackend) (s : World S) :
    (e : Effect S) → WalletAns S backend.Draw → Option (Reply e × World S)
  | .getWallet id, .done => some ((s.wallets id).map FullWalletRecord.signing, s)
  | .listShares walletId, .done => some (.ok (s.shares.list walletId), s)
  | .listShares _, .storeFailed e => some (.error e, s)
  | .getShare id, .done => some (s.shares.get id, s)
  | .getShare _, .storeFailed e => some (.error e, s)
  | .signInEnclave request, .enclave draw =>
    match backend.signInEnclave draw request with
    | some r => some (r, s)
    | none => none
  | .getWallet _, _ | .listShares _, _ | .getShare _, _ | .signInEnclave _, _ => none
  | e, .base a =>
    match perform s.base e a with
    | some (r, base) => some (r, { s with base })
    | none => none
  | _, _ => none

/-- A write to the share store: it is made, or fails and changes nothing. -/
def performWrite {Draw : Type} (s : World S) (write : ShareMap → ShareMap) :
    WalletAns S Draw → Option (Except ShareStoreError Unit × World S)
  | .done => some (.ok (), { s with shares := write s.shares })
  | .storeFailed e => some (.error e, s)
  | _ => none

/-- Answers an operation. -/
def performWallet (backend : EnclaveBackend) (s : World S) (e : WalletEffect S)
    (a : WalletAns S backend.Draw) : Option (WalletReply e × World S) :=
  match e with
  | .base e => performBase backend s e a
  | .newWalletId =>
    match a with
    | .walletId id => some (id, s)
    | _ => none
  | .generateWallet request =>
    match a with
    | .enclave draw => (backend.generateWallet draw request).map fun r => (r, s)
    | _ => none
  | .putShare stored => performWrite s (fun shares => shares.put stored) a
  | .insertWallet record =>
    match a with
    | .done =>
      some ((), { s with wallets := Function.update s.wallets record.walletId (some record) })
    | _ => none
  | .deleteShare id => performWrite s (fun shares => shares.delete id) a

section Perform

variable {backend : EnclaveBackend} {s s' : World S} {a : WalletAns S backend.Draw}

/-- An operation of the other calls happens as it may in the service alone. -/
theorem performBase_refines {e : Effect S} {r : Reply e}
    (h : performBase backend s e a = some (r, s')) :
    s'.toHoldings = s.toHoldings ∧ ∃ a', perform s.base e a' = some (r, s'.base) := by
  unfold performBase at h
  split at h
  · cases h
    exact ⟨rfl, .wallet _, rfl⟩
  · cases h
    exact ⟨rfl, .sharesListed _, rfl⟩
  · cases h
    exact ⟨rfl, .sharesListed _, rfl⟩
  · cases h
    exact ⟨rfl, .shareRead _, rfl⟩
  · cases h
    exact ⟨rfl, .shareRead _, rfl⟩
  · split at h
    · cases h
      exact ⟨rfl, .signed _, rfl⟩
    · cases h
  · cases h
  · cases h
  · cases h
  · cases h
  · split at h
    · next hperform =>
      cases h
      exact ⟨rfl, _, hperform⟩
    · cases h
  · cases h

theorem performWrite_eq_some {write : ShareMap → ShareMap} {r : Except ShareStoreError Unit}
    (h : performWrite s write a = some (r, s')) :
    (r = .ok () ∧ s' = { s with shares := write s.shares }) ∨ ((∃ e, r = .error e) ∧ s' = s) := by
  unfold performWrite at h
  split at h
  · cases h
    exact .inl ⟨rfl, rfl⟩
  · cases h
    exact .inr ⟨⟨_, rfl⟩, rfl⟩
  · cases h

/-- **The map and the store change by what is written to them**, and by nothing else. -/
theorem holdings_perform {e : WalletEffect S} {r : WalletReply e}
    (h : performWallet backend s e a = some (r, s')) :
    s'.toHoldings = s.toHoldings.after ⟨e, r⟩ := by
  cases e with
  | base e => exact (performBase_refines h).1
  | newWalletId =>
    simp only [performWallet] at h
    split at h
    · cases h
      rfl
    · cases h
  | generateWallet request =>
    simp only [performWallet] at h
    split at h
    · obtain ⟨r', -, hr'⟩ := Option.map_eq_some_iff.1 h
      cases hr'
      rfl
    · cases h
  | putShare stored =>
    have hwrite : performWrite s (fun shares => shares.put stored) a = some (r, s') := h
    obtain ⟨rfl, rfl⟩ | ⟨⟨e, rfl⟩, rfl⟩ := performWrite_eq_some hwrite
    · rfl
    · rfl
  | insertWallet record =>
    simp only [performWallet] at h
    split at h
    · cases h
      rfl
    · cases h
  | deleteShare id =>
    have hwrite : performWrite s (fun shares => shares.delete id) a = some (r, s') := h
    obtain ⟨rfl, rfl⟩ | ⟨⟨e, rfl⟩, rfl⟩ := performWrite_eq_some hwrite
    · rfl
    · rfl

end Perform

/-! ## Creating a wallet -/

/-- A program of the service with its wallets. -/
abbrev WalletAct (S : ApprovalStore) (α : Type) := Prog (WalletEffect S) WalletReply α

/-- A call that may fail. -/
abbrev WalletM (S : ApprovalStore) (α : Type) :=
  ExceptT ServiceError (Prog (WalletEffect S) WalletReply) α

/-- `serde_json::to_value` of a scheme -/
def schemeValue : SigningScheme → Json
  | .ed25519 => .string "ed25519"
  | .secp256k1 => .string "secp256k1"
  | .secp256k1Recoverable => .string "secp256k1_recoverable"
  | .mlDsa44 => .string "ml_dsa44"
  | .mlDsa65 => .string "ml_dsa65"
  | .mlDsa87 => .string "ml_dsa87"

/-- The audit event of a created wallet. -/
def walletCreated (ownerActor : Actor) (record : FullWalletRecord) (shareIndices : List UInt8) :
    AuditEventDraft where
  actor := ownerActor
  kind := .walletCreated
  requestId := none
  walletId := some record.walletId
  details := .object
    [("master_public_key_hex", .string (hexEncode record.masterPublicKey)),
     ("policy_id", .string record.config.policyId.toString),
     ("scheme", schemeValue record.config.scheme),
     ("share_indices", .array (shareIndices.map fun i => jsonNat i.toUInt64)),
     ("threshold", jsonNat record.config.threshold.toUInt64),
     ("total", jsonNat record.config.total.toUInt64)]

/-- A share as it is stored. -/
def stored (walletId : WalletId) (now : Int64) (s : ShamirShare) : StoredShare :=
  ⟨⟨walletId, s.index⟩, now, s⟩

/-- The loop that persists the shares. -/
def putShares (walletId : WalletId) (now : Int64) : List ShamirShare → WalletM S Unit
  | [] => pure ()
  | s :: ss => do
    Prog.orThrow .store (Prog.perform (WalletEffect.putShare (stored walletId now s)))
    putShares walletId now ss

/-- The record enters the map, and the creation is audited. -/
def publish (ownerActor : Actor) (record : FullWalletRecord) (shareIndices : List UInt8) :
    WalletM S FullWalletRecord := do
  (Prog.perform (WalletEffect.insertWallet record) : WalletAct S Unit)
  Prog.orThrow .audit (Prog.perform (WalletEffect.base
    (.emit (walletCreated ownerActor record shareIndices))))
  pure record

/-- The record a creation publishes. -/
def recordOf (config : FullWalletConfig) (walletId : WalletId) (gen : GenerateWalletResponse)
    (now : Int64) : FullWalletRecord :=
  ⟨walletId, config, gen.masterPublicKey, .active, now⟩

/-- `WalletService::create_wallet` -/
def createWallet (config : FullWalletConfig) (ownerActor : Actor) :
    WalletM S FullWalletRecord := do
  let walletId ← (Prog.perform WalletEffect.newWalletId : WalletAct S WalletId)
  let gen ← Prog.orThrow .enclave (Prog.perform (WalletEffect.generateWallet
    ⟨walletId, config.scheme, config.threshold, config.total, none⟩))
  let now ← (Prog.perform (WalletEffect.base .now) : WalletAct S Int64)
  putShares walletId now gen.shares
  publish ownerActor (recordOf config walletId gen now) (gen.shares.map ShamirShare.index)

/-! ## Calls -/

/-- The calls. -/
inductive WalletCall where
  | service (call : Call)
  | createWallet (config : FullWalletConfig) (ownerActor : Actor)
  /-- an operator removes a share from the store -/
  | deleteShare (id : ShareId)

/-- What they return. -/
inductive WalletOutcome where
  | service (outcome : Outcome)
  | created (r : Except ServiceError FullWalletRecord)
  | deleted (r : Except ShareStoreError Unit)

/-- A program of the other calls. -/
def onBase {α : Type} (p : Act S α) : WalletAct S α := p.embed .base fun _ r => r

variable (svc : WalletService) (intoApiError : ServiceError → ApiError)

/-- Their programs. -/
def WalletCall.prog : WalletCall → WalletAct S WalletOutcome
  | service call => onBase (call.prog svc intoApiError) >>= fun r => .ret (.service r)
  | createWallet config ownerActor =>
    (Service.createWallet config ownerActor : WalletM S FullWalletRecord).run >>= fun r =>
      .ret (.created r)
  | deleteShare id => .act (.deleteShare id) fun r => .ret (.deleted r)

/-- A running service with its wallets. -/
abbrev WalletSystem (S : ApprovalStore) :=
  Pool (WalletEffect S) WalletReply (World S) WalletCall WalletOutcome

/-- The service after some moves. -/
def runWallets (backend : EnclaveBackend) (p : WalletSystem S)
    (moves : List (Move WalletCall (WalletAns S backend.Draw))) : Option (WalletSystem S) :=
  Pool.run (performWallet backend) (WalletCall.prog svc intoApiError) p moves

end QfcServerWallet.Service
