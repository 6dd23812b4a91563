import QfcServerWallet.Service.Sign

/-!
# The share store behind the service

`qfc-sss/src/store.rs` (the trait `ShareStore`) as a map, and `fetch_shares` of
`qfc-server-wallet/src/service.rs` over it.

* Under an id the map has nothing, a share, or content no share can be read from, with the error
  `get` returns for it (`LocalFsShareStore::get`: the file does not decrypt or does not parse). Such
  an id is listed like any other: `list` reads file names only.
* `list` is ascending by index, as the trait asks. An index is a byte, so the ids of a wallet are
  finitely many.
* `put` overwrites, and `delete` of an absent id succeeds.

Results: `eval_fetchShares` and **`fetchShares_delivers_iff`**.
-/

namespace QfcServerWallet.Service

open Lib Sss

/-! ## The store -/

/-- What a share store holds. -/
def ShareMap : Type := ShareId → Option (Except ShareStoreError StoredShare)

namespace ShareMap

/-- The empty store. -/
def empty : ShareMap := fun _ => none

/-- The ids of a wallet, by ascending index. -/
def ids (walletId : WalletId) : List ShareId :=
  (List.range 256).map fun i => ⟨walletId, UInt8.ofNat i⟩

/-- The ids of a wallet. -/
def list (m : ShareMap) (walletId : WalletId) : List ShareId :=
  (ids walletId).filter fun id => (m id).isSome

/-- Reads a share. -/
def get (m : ShareMap) (id : ShareId) : Except ShareStoreError StoredShare :=
  (m id).getD (.error (.notFound id))

/-- Writes a share. -/
def put (m : ShareMap) (stored : StoredShare) : ShareMap :=
  Function.update m stored.shareId (some (.ok stored))

/-- Removes a share. -/
def delete (m : ShareMap) (id : ShareId) : ShareMap := Function.update m id none

variable {m : ShareMap} {walletId : WalletId} {id : ShareId}

theorem put_apply (m : ShareMap) (stored : StoredShare) (id : ShareId) :
    m.put stored id = if id = stored.shareId then some (.ok stored) else m id :=
  Function.update_apply ..

theorem delete_apply (m : ShareMap) (gone id : ShareId) :
    m.delete gone id = if id = gone then none else m id :=
  Function.update_apply ..

theorem mem_ids : id ∈ ids walletId ↔ id.walletId = walletId := by
  simp only [ids, List.mem_map, List.mem_range]
  constructor
  · rintro ⟨i, -, rfl⟩
    rfl
  · rintro rfl
    exact ⟨id.index.toNat, id.index.toNat_lt, by rw [UInt8.ofNat_toNat]⟩

theorem mem_list : id ∈ m.list walletId ↔ id.walletId = walletId ∧ (m id).isSome := by
  rw [list, List.mem_filter, mem_ids]

theorem nodup_ids (walletId : WalletId) : (ids walletId).Nodup := by
  refine (List.nodup_map_iff_inj_on List.nodup_range).2 fun i hi j hj hij => ?_
  have hindex : (UInt8.ofNat i).toNat = (UInt8.ofNat j).toNat :=
    congrArg (fun id => id.index.toNat) hij
  rwa [UInt8.toNat_ofNat_of_lt' (List.mem_range.1 hi),
    UInt8.toNat_ofNat_of_lt' (List.mem_range.1 hj)] at hindex

theorem nodup_list (m : ShareMap) (walletId : WalletId) : (m.list walletId).Nodup :=
  (nodup_ids walletId).filter _

theorem nodup_index_list (m : ShareMap) (walletId : WalletId) :
    ((m.list walletId).map ShareId.index).Nodup := by
  refine (List.nodup_map_iff_inj_on (nodup_list m walletId)).2 fun id hid id' hid' hindex => ?_
  obtain ⟨w, i⟩ := id
  obtain ⟨w', i'⟩ := id'
  obtain rfl : w = walletId := (mem_list.1 hid).1
  obtain rfl : w' = w := (mem_list.1 hid').1
  exact congrArg (ShareId.mk w') hindex

/-- The store's answers to the operations of `fetch_shares`. -/
def answer {S : Quorum.ApprovalStore} (m : ShareMap) : (e : Effect S) → Option (Reply e)
  | .listShares walletId => some (.ok (m.list walletId))
  | .getShare id => some (m.get id)
  | _ => none

end ShareMap

/-! ## Fetching the shares of a wallet -/

namespace WalletService

variable {S : Quorum.ApprovalStore} {m : ShareMap}

theorem eval_readShares (ids : List ShareId) :
    (readShares ids : ServiceM S (List ShamirShare)).run.eval m.answer =
      some (((ids.mapM m.get).map fun stored => stored.map StoredShare.share).mapError .store) := by
  induction ids with
  | nil => rfl
  | cons id ids ih =>
    have hget : (Prog.orThrow .store (Prog.perform (Effect.getShare id)) :
        ServiceM S StoredShare).run.eval m.answer = some ((m.get id).mapError .store) := rfl
    rw [readShares, Prog.eval_run_bind, hget, Option.bind_some, List.mapM_cons]
    cases m.get id with
    | error e => rfl
    | ok stored =>
      change (readShares ids >>= _).run.eval m.answer = _
      rw [Prog.eval_run_bind, ih, Option.bind_some]
      cases ids.mapM m.get <;> rfl

/-- `fetch_shares` reads the `threshold` lowest listed ids, in order. -/
theorem eval_fetchShares (wallet : WalletRecord) :
    (fetchShares wallet : ServiceM S (List ShamirShare)).run.eval m.answer =
      some (if (m.list wallet.walletId).length < wallet.config.threshold.toNat then
        .error (.insufficientShares ("have " ++ (m.list wallet.walletId).length.repr ++
          " shares, need " ++ wallet.config.threshold.toNat.repr))
      else ((((m.list wallet.walletId).take wallet.config.threshold.toNat).mapM m.get).map
        fun stored => stored.map StoredShare.share).mapError .store) := by
  have hlist : (Prog.orThrow .store (Prog.perform (Effect.listShares wallet.walletId)) :
      ServiceM S (List ShareId)).run.eval m.answer = some (.ok (m.list wallet.walletId)) := rfl
  rw [fetchShares, Prog.eval_run_bind, hlist, Option.bind_some]
  simp only
  split
  · rfl
  · exact eval_readShares _

end WalletService

/-! ## Availability -/

namespace ShareMap

variable (m : ShareMap)

/-- Reading the id gives the share that was stored under it. -/
def Readable (id : ShareId) : Prop :=
  match m.get id with
  | .ok stored => stored.shareId = id ∧ stored.share.index = id.index
  | .error _ => False

instance : DecidablePred m.Readable := fun id => by
  unfold Readable
  split <;> infer_instance

/-- Every listed share is readable, or fails to read. -/
def ReadsOrFails (walletId : WalletId) : Prop :=
  ∀ id ∈ m.list walletId, m.Readable id ∨ (m.get id).isOk = false

instance (walletId : WalletId) : Decidable (m.ReadsOrFails walletId) := List.decidableBAll _ _

/-- `fetch_shares` succeeds with `threshold` readable shares that have distinct indices. -/
def Delivers (S : Quorum.ApprovalStore) (wallet : WalletRecord) : Prop :=
  ∃ shares : List ShamirShare,
    (WalletService.fetchShares wallet : ServiceM S (List ShamirShare)).run.eval m.answer =
      some (.ok shares) ∧
    shares.length = wallet.config.threshold.toNat ∧ (shares.map ShamirShare.index).Nodup ∧
    ∀ s ∈ shares, ∃ id ∈ m.list wallet.walletId, m.Readable id ∧
      ∃ stored, m.get id = .ok stored ∧ stored.share = s

end ShareMap

namespace WalletService

variable {S : Quorum.ApprovalStore} {m : ShareMap} {wallet : WalletRecord}

theorem exists_get_of_readable {id : ShareId} (h : m.Readable id) :
    ∃ stored, m.get id = .ok stored := by
  unfold ShareMap.Readable at h
  split at h
  · next stored hget => exact ⟨stored, hget⟩
  · exact h.elim

theorem index_of_readable {id : ShareId} (h : m.Readable id) {stored : StoredShare}
    (hget : m.get id = .ok stored) : id.index = stored.share.index := by
  simp only [ShareMap.Readable, hget] at h
  exact h.2.symm

theorem eval_fetchShares_ok_iff {shares : List ShamirShare} :
    (fetchShares wallet : ServiceM S (List ShamirShare)).run.eval m.answer = some (.ok shares) ↔
      wallet.config.threshold.toNat ≤ (m.list wallet.walletId).length ∧
      ∃ stored : List StoredShare, shares = stored.map StoredShare.share ∧
        List.Forall₂ (fun id s => m.get id = .ok s)
          ((m.list wallet.walletId).take wallet.config.threshold.toNat) stored := by
  rw [eval_fetchShares, Option.some.injEq]
  split
  · next hfew =>
    constructor
    · intro h
      cases h
    · rintro ⟨henough, -⟩
      omega
  · next henough =>
    rw [mapError_eq_ok]
    constructor
    · intro h
      cases hread : ((m.list wallet.walletId).take wallet.config.threshold.toNat).mapM m.get with
      | error e =>
        rw [hread] at h
        cases h
      | ok stored =>
        rw [hread] at h
        exact ⟨Nat.not_lt.1 henough, stored, (Except.ok.inj h).symm, mapM_eq_ok_iff.1 hread⟩
    · rintro ⟨-, stored, rfl, hread⟩
      rw [mapM_eq_ok_iff.2 hread]
      rfl

/-- **`fetch_shares` delivers iff the `threshold` lowest listed shares can be read**, whatever else
can. -/
theorem fetchShares_delivers_iff (hstore : m.ReadsOrFails wallet.walletId)
    (henough : wallet.config.threshold.toNat ≤
      ((m.list wallet.walletId).filter fun id => m.Readable id).length) :
    m.Delivers S wallet ↔
      ∀ id ∈ (m.list wallet.walletId).take wallet.config.threshold.toNat, m.Readable id := by
  constructor
  · rintro ⟨shares, heval, -⟩ id hid
    obtain ⟨-, stored, -, hread⟩ := eval_fetchShares_ok_iff.1 heval
    obtain ⟨s, -, hs⟩ := exists_right_of_forall₂ hread hid
    refine (hstore id (List.mem_of_mem_take hid)).resolve_right fun hfails => ?_
    rw [hs] at hfails
    cases hfails
  · intro hreadable
    obtain ⟨stored, hstored⟩ := exists_mapM_eq_ok fun id hid =>
      exists_get_of_readable (hreadable id hid)
    have hread := (List.forall₂_and_left _ _).2 ⟨hreadable, mapM_eq_ok_iff.1 hstored⟩
    have hlength : wallet.config.threshold.toNat ≤ (m.list wallet.walletId).length :=
      henough.trans (List.length_filter_le _ _)
    have hindices : ((m.list wallet.walletId).take wallet.config.threshold.toNat).map ShareId.index
        = (stored.map StoredShare.share).map ShamirShare.index := by
      rw [List.map_map]
      exact map_eq_map_of_forall₂ (hread.imp fun id s h => index_of_readable h.1 h.2)
    refine ⟨_, eval_fetchShares_ok_iff.2 ⟨hlength, stored, rfl, mapM_eq_ok_iff.1 hstored⟩,
      ?_, ?_, ?_⟩
    · rw [List.length_map, ← hread.length_eq, List.length_take, Nat.min_eq_left hlength]
    · rw [← hindices, List.map_take]
      exact (m.nodup_index_list wallet.walletId).sublist (List.take_sublist _ _)
    · intro share hshare
      obtain ⟨s, hs, rfl⟩ := List.mem_map.1 hshare
      obtain ⟨id, hid, hreadable, hget⟩ := exists_left_of_forall₂ hread hs
      exact ⟨id, List.mem_of_mem_take hid, hreadable, s, hget, rfl⟩

/-! ### A wallet with a damaged share

The sample wallet, shared two of three. The file of one share was truncated. -/

namespace Damaged

open Enclave.Sample

def shareBlob3 : Bytes :=
  toBe 4 32 ++ toBe 33 0x0333333333535d5d5d5d5d5d5d5d5d5d5d5d5d5d5d5d5d5d5d5d5d5d5d5d5d5d5d
    ++ toBe 33 0x036690909090906666666666666666666666666666666666666666666666666666

/-- The three shares. -/
def sharesOf : UInt8 → Option ShamirShare
  | 1 => some ⟨1, ⟨2, 3⟩, shareBlob1⟩
  | 2 => some ⟨2, ⟨2, 3⟩, shareBlob2⟩
  | 3 => some ⟨3, ⟨2, 3⟩, shareBlob3⟩
  | _ => none

/-- The store of the wallet after the share at one index was damaged. -/
def store (damaged : UInt8) : ShareMap := fun id =>
  if id.walletId = walletId then (sharesOf id.index).map fun share =>
    if id.index = damaged then .error (.crypto "share file truncated") else .ok ⟨id, 1500, share⟩
  else none

/-- The wallet. -/
def record : WalletRecord := ⟨walletId, ⟨.ed25519, 2, none, [], []⟩, .active⟩

end Damaged

open Damaged

/-- The third share is damaged; the first two are fetched. -/
theorem delivers_without_third :
    (store 3).Delivers Quorum.memoryStore record :=
  (fetchShares_delivers_iff (by decide +kernel) (by decide +kernel)).2 (by decide +kernel)

/-- The first share is damaged; the other two could be read, but the call fails on the first. -/
theorem not_delivers_without_first :
    (store 1).ReadsOrFails record.walletId ∧
    record.config.threshold.toNat ≤ (((store 1).list record.walletId).filter
      fun id => (store 1).Readable id).length ∧
    (fetchShares record : ServiceM Quorum.memoryStore (List ShamirShare)).run.eval
      (store 1).answer = some (.error (.store (.crypto "share file truncated"))) ∧
    ¬ (store 1).Delivers Quorum.memoryStore record := by
  have heval : (fetchShares record :
      ServiceM Quorum.memoryStore (List ShamirShare)).run.eval (store 1).answer
        = some (.error (.store (.crypto "share file truncated"))) := by
    decide +kernel
  refine ⟨by decide +kernel, by decide +kernel, heval, ?_⟩
  rintro ⟨shares, hshares, -⟩
  rw [heval] at hshares
  cases hshares

end WalletService

end QfcServerWallet.Service
