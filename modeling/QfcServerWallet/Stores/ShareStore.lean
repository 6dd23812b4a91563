import QfcServerWallet.Lib.Session
import QfcServerWallet.Service.Shares
import Mathlib.Data.List.AList
import Mathlib.Data.List.Sort

/-!
# Share stores

The trait `ShareStore` of `qfc-sss/src/store.rs`, and `MockShareStore` of `stores/mock.rs`.

* A store is given by its operations (lock sections, file operations, requests to services), by how
  they are answered when no I/O fails, and by the programs of its four methods.
* `ShareMap.call` is what a store is for: a map from share ids to the last share put.
* Errors are compared by kind.

Results: **`Refines.behaves`**, `sort_eq_list` and `mockStore_refines`.
-/

namespace QfcServerWallet.Stores

open Lib Service

/-! ## The map -/

/-- The variants of `StoreError`. -/
inductive ErrorKind where
  | notFound
  | serde
  | io
  | crypto
  | config
  deriving DecidableEq

/-- The kind of an error. -/
def errorKind : ShareStoreError → ErrorKind
  | .notFound _ => .notFound
  | .serde _ => .serde
  | .io _ => .io
  | .crypto _ => .crypto
  | .config _ => .config

deriving instance DecidableEq for StoredShare

/-- The calls of a store. -/
inductive Call where
  | put (share : StoredShare)
  | get (id : ShareId)
  | delete (id : ShareId)
  | list (walletId : WalletId)

/-- What they return. -/
inductive Reply (ε : Type) where
  | done (r : Except ε Unit)
  | share (r : Except ε StoredShare)
  | ids (r : Except ε (List ShareId))
  deriving DecidableEq

/-- The reply with another error. -/
def Reply.mapError {ε ε' : Type} (f : ε → ε') : Reply ε → Reply ε'
  | done r => done (r.mapError f)
  | share r => share (r.mapError f)
  | ids r => ids (r.mapError f)

/-- What a call does to the map. -/
def callMap (m : ShareMap) : Call → Reply ErrorKind × ShareMap
  | .put share => (.done (.ok ()), m.put share)
  | .get id => (.share ((m.get id).mapError errorKind), m)
  | .delete id => (.done (.ok ()), m.delete id)
  | .list walletId => (.ids (.ok (m.list walletId)), m)

section List

variable {m : ShareMap} {walletId : WalletId}

theorem pairwise_list (m : ShareMap) (walletId : WalletId) :
    (m.list walletId).Pairwise fun a b => a.index < b.index := by
  refine List.Pairwise.filter _ (List.pairwise_map.2 ?_)
  refine List.pairwise_lt_range.imp_of_mem fun {i j} hi hj hij => ?_
  rw [UInt8.lt_iff_toNat_lt, UInt8.toNat_ofNat_of_lt' (List.mem_range.1 hi),
    UInt8.toNat_ofNat_of_lt' (List.mem_range.1 hj)]
  exact hij

/-- `sort_by_key(|id| id.index)` -/
def sortByIndex (l : List ShareId) : List ShareId := l.insertionSort fun a b => a.index ≤ b.index

instance : Std.Total fun a b : ShareId => a.index ≤ b.index :=
  ⟨fun a b => UInt8.le_total a.index b.index⟩

instance : IsTrans ShareId fun a b => a.index ≤ b.index := ⟨fun _ _ _ => UInt8.le_trans⟩

/-- Sorted by index, the ids a store finds are those the map lists. -/
theorem sort_eq_list {l : List ShareId} (hnodup : l.Nodup)
    (hmem : ∀ id, id ∈ l ↔ id.walletId = walletId ∧ (m id).isSome) :
    sortByIndex l = m.list walletId := by
  have hperm : (sortByIndex l).Perm (m.list walletId) := by
    refine (List.perm_insertionSort _ l).trans ?_
    refine (List.perm_ext_iff_of_nodup hnodup (m.nodup_list walletId)).2 fun id => ?_
    rw [hmem, ShareMap.mem_list]
  have hsorted : (sortByIndex l).Pairwise fun a b => a.index ≤ b.index :=
    List.pairwise_insertionSort _ l
  have hlisted : (m.list walletId).Pairwise fun a b => a.index ≤ b.index :=
    (pairwise_list m walletId).imp UInt8.le_of_lt
  refine List.Perm.eq_of_pairwise ?_ hsorted hlisted hperm
  -- two ids of the wallet with one index are one id
  intro a b ha hb hab hba
  have ha' := (ShareMap.mem_list.1 (hperm.subset ha)).1
  have hb' := (ShareMap.mem_list.1 hb).1
  obtain ⟨w, i⟩ := a
  obtain ⟨w', j⟩ := b
  obtain rfl : w = w' := ha'.trans hb'.symm
  exact congrArg (ShareId.mk w) (UInt8.le_antisymm hab hba)

end List

/-! ## Stores -/

/-- A backend. -/
structure ShareStore where
  Op : Type
  Res : Op → Type
  State : Type
  /-- an operation is answered, and no I/O fails -/
  quiet : State → (op : Op) → Res op → State → Prop
  /-- the store holds nothing -/
  Fresh : State → Prop
  put : StoredShare → Prog Op Res (Except ShareStoreError Unit)
  get : ShareId → Prog Op Res (Except ShareStoreError StoredShare)
  delete : ShareId → Prog Op Res (Except ShareStoreError Unit)
  list : WalletId → Prog Op Res (Except ShareStoreError (List ShareId))

namespace ShareStore

variable (S : ShareStore)

/-- The program of a call. -/
def call : Call → Prog S.Op S.Res (Reply ShareStoreError)
  | .put share => S.put share >>= fun r => .ret (.done r)
  | .get id => S.get id >>= fun r => .ret (.share r)
  | .delete id => S.delete id >>= fun r => .ret (.done r)
  | .list walletId => S.list walletId >>= fun r => .ret (.ids r)

/-- Every sequence of calls returns, with the replies of the map. -/
def Behaves : Prop :=
  ∀ s, S.Fresh s → ∀ calls, (∃ replies s', Session S.quiet S.call s calls replies s') ∧
    ∀ replies s', Session S.quiet S.call s calls replies s' →
      replies.map (Reply.mapError errorKind) = replay callMap .empty calls

/-- The methods keep a correspondence of the store with the map. -/
structure Refines (Rel : S.State → ShareMap → Prop) : Prop where
  fresh : ∀ {s}, S.Fresh s → Rel s .empty
  put : ∀ {s m}, Rel s m → ∀ share, (S.put share).Ensures S.quiet s fun r s' =>
    r = .ok () ∧ Rel s' (m.put share)
  get : ∀ {s m}, Rel s m → ∀ id, (S.get id).Ensures S.quiet s fun r s' =>
    r.mapError errorKind = (m.get id).mapError errorKind ∧ Rel s' m
  delete : ∀ {s m}, Rel s m → ∀ id, (S.delete id).Ensures S.quiet s fun r s' =>
    r = .ok () ∧ Rel s' (m.delete id)
  list : ∀ {s m}, Rel s m → ∀ walletId, (S.list walletId).Ensures S.quiet s fun r s' =>
    r = .ok (m.list walletId) ∧ Rel s' m

variable {S} {Rel : S.State → ShareMap → Prop}

/-- A call answers as the map does, and keeps the correspondence. -/
theorem Refines.call (h : S.Refines Rel) {s : S.State} {m : ShareMap} (hrel : Rel s m)
    (call : Call) : (S.call call).Ensures S.quiet s fun o s' =>
      o.mapError errorKind = (callMap m call).1 ∧ Rel s' (callMap m call).2 := by
  cases call with
  | put share =>
    refine (h.put hrel share).map ?_
    rintro r s' ⟨rfl, hrel'⟩
    exact ⟨rfl, hrel'⟩
  | get id =>
    refine (h.get hrel id).map ?_
    rintro r s' ⟨hr, hrel'⟩
    exact ⟨congrArg Reply.share hr, hrel'⟩
  | delete id =>
    refine (h.delete hrel id).map ?_
    rintro r s' ⟨rfl, hrel'⟩
    exact ⟨rfl, hrel'⟩
  | list walletId =>
    refine (h.list hrel walletId).map ?_
    rintro r s' ⟨rfl, hrel'⟩
    exact ⟨rfl, hrel'⟩

/-- **A store whose methods correspond to the map's behaves as the map.** -/
theorem Refines.behaves (h : S.Refines Rel) : S.Behaves := by
  intro s hs calls
  exact ⟨Session.total h.call calls (h.fresh hs), fun replies s' hsession =>
    hsession.simulates h.call (h.fresh hs)⟩

end ShareStore

/-! ## The in-memory store -/

namespace MockShareStore

/-- `inner` -/
abbrev State := AList fun _ : ShareId => StoredShare

/-- The sections under the lock. -/
inductive Op where
  | insert (share : StoredShare)
  | get (id : ShareId)
  | remove (id : ShareId)
  | keys

/-- What each lock section returns. -/
def Res : Op → Type
  | .insert _ => Unit
  | .get _ => Option StoredShare
  | .remove _ => Unit
  | .keys => List ShareId

/-- The keys come in an order the map chooses. -/
def perform (s : State) : (op : Op) → (order : List ShareId) → Option (Res op × State)
  | .insert share, _ => some ((), s.insert share.shareId share)
  | .get id, _ => some (s.lookup id, s)
  | .remove id, _ => some ((), s.erase id)
  | .keys, order => if order.isPerm s.keys then some (order, s) else none

/-- Writes a share. -/
def put (share : StoredShare) : Prog Op Res (Except ShareStoreError Unit) :=
  .act (.insert share) fun _ => .ret (.ok ())

/-- Reads a share. -/
def get (id : ShareId) : Prog Op Res (Except ShareStoreError StoredShare) :=
  .act (.get id) fun
    | some share => .ret (.ok share)
    | none => .ret (.error (.notFound id))

/-- Removes a share. -/
def delete (id : ShareId) : Prog Op Res (Except ShareStoreError Unit) :=
  .act (.remove id) fun _ => .ret (.ok ())

/-- Lists a wallet's shares. -/
def list (walletId : WalletId) : Prog Op Res (Except ShareStoreError (List ShareId)) :=
  .act .keys fun keys => .ret (.ok (sortByIndex (keys.filter fun id => id.walletId = walletId)))

end MockShareStore

/-- `MockShareStore` -/
def mockStore : ShareStore where
  Op := MockShareStore.Op
  Res := MockShareStore.Res
  State := MockShareStore.State
  quiet s op r s' := ∃ order, MockShareStore.perform s op order = some (r, s')
  Fresh s := s = ∅
  put := MockShareStore.put
  get := MockShareStore.get
  delete := MockShareStore.delete
  list := MockShareStore.list

namespace MockShareStore

/-- The map has what is stored. -/
def Holds (s : State) (m : ShareMap) : Prop := ∀ id, m id = (s.lookup id).map .ok

variable {s s' : State} {m : ShareMap}

theorem perform_keys_iff {order r : List ShareId} :
    perform s .keys order = some (r, s') ↔ order.Perm s.keys ∧ r = order ∧ s' = s := by
  rw [perform]
  split
  · next hperm =>
    rw [List.isPerm_iff] at hperm
    constructor
    · rintro ⟨⟩
      exact ⟨hperm, rfl, rfl⟩
    · rintro ⟨-, rfl, rfl⟩
      rfl
  · next hperm =>
    rw [List.isPerm_iff] at hperm
    constructor
    · rintro ⟨⟩
    · rintro ⟨h, -⟩
      exact absurd h hperm

theorem Holds.isSome (h : Holds s m) (id : ShareId) : (m id).isSome ↔ id ∈ s.keys := by
  rw [h id, Option.isSome_map, AList.lookup_isSome, AList.mem_keys]

theorem Holds.put (h : Holds s m) (share : StoredShare) :
    Holds (s.insert share.shareId share) (m.put share) := by
  intro id
  rw [ShareMap.put_apply]
  by_cases hid : id = share.shareId
  · subst hid
    simp
  · simp [hid, AList.lookup_insert_ne hid, h id]

theorem Holds.delete (h : Holds s m) (gone : ShareId) : Holds (s.erase gone) (m.delete gone) := by
  intro id
  rw [ShareMap.delete_apply]
  by_cases hid : id = gone
  · subst hid
    simp
  · simp [hid, AList.lookup_erase_ne hid, h id]

theorem Holds.list (h : Holds s m) {keys : List ShareId} (hperm : keys.Perm s.keys)
    (walletId : WalletId) :
    sortByIndex (keys.filter fun id => id.walletId = walletId) = m.list walletId := by
  refine sort_eq_list ((hperm.nodup_iff.2 s.keys_nodup).filter _) fun id => ?_
  rw [List.mem_filter, hperm.mem_iff, h.isSome, decide_eq_true_eq, and_comm]

end MockShareStore

open MockShareStore in
/-- **The in-memory store is the map.** -/
theorem mockStore_refines : mockStore.Refines Holds where
  fresh := by
    rintro s rfl id
    rfl
  put h share := by
    refine .act ⟨(), _, [], rfl⟩ ?_
    rintro r s₁ ⟨order, ⟨⟩⟩
    exact .ret ⟨rfl, h.put share⟩
  get {s m} h id := by
    refine .act ⟨s.lookup id, s, [], rfl⟩ ?_
    rintro r s₁ ⟨order, ⟨⟩⟩
    have hget : m.get id = (s.lookup id).elim (.error (.notFound id)) .ok := by
      rw [ShareMap.get, h id]
      cases s.lookup id <;> rfl
    rw [hget]
    cases s.lookup id with
    | none => exact .ret ⟨rfl, h⟩
    | some share => exact .ret ⟨rfl, h⟩
  delete h id := by
    refine .act ⟨(), _, [], rfl⟩ ?_
    rintro r s₁ ⟨order, ⟨⟩⟩
    exact .ret ⟨rfl, h.delete id⟩
  list {s m} h walletId := by
    refine .act ⟨s.keys, s, s.keys, perform_keys_iff.2 ⟨.refl _, rfl, rfl⟩⟩ ?_
    rintro keys s₁ ⟨order, hkeys⟩
    obtain ⟨hperm, rfl, rfl⟩ := perform_keys_iff.1 hkeys
    exact .ret ⟨congrArg Except.ok (h.list hperm walletId), h⟩

end QfcServerWallet.Stores
