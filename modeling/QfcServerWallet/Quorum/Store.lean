import QfcServerWallet.Lib.Prog
import QfcServerWallet.Quorum.Approval
import Mathlib.Data.List.Nodup
import Mathlib.Logic.Function.Basic

/-!
# The approval store

`qfc-quorum/src/store/mod.rs` (the trait) and `store/memory.rs` (the in-memory backend).

* A store is given by its atomic operations (lock sections, SQL statements), the program of
  `record_approval` over them, and the one operation behind `list_for_request`.
* `MemoryApprovalStore::record_approval` takes two locks one after the other: it inserts under
  `inner` and, after releasing it, appends to the index under `by_request`. These are two
  operations, and a task may be cancelled between them.
* `list_for_request` holds the read lock of the index while it waits for the one of the map, so the
  index it reads is the one at the time it reads the map: one operation.

Results: `ApprovalStore.Sound`, what a listing can contain however recordings and listings are
interleaved, and **`memoryStore_sound`**.
-/

namespace QfcServerWallet.Quorum

open Lib

/-- The errors of a store. -/
inductive StoreError where
  | io (what : String)
  | duplicateApproval (approverId : ApproverId) (requestId : RequestId)
  deriving DecidableEq

/-- `Display` -/
def StoreError.toString : StoreError → String
  | io what => "approval store I/O: " ++ what
  | duplicateApproval approverId requestId =>
    "duplicate approval: " ++ approverId.toString ++ " already recorded a decision for request "
      ++ requestId.toString

/-- What a recording answers. -/
inductive RecordOutcome where
  | inserted
  | alreadyRecorded
  deriving DecidableEq

/-! ## Stores -/

/-- A backend: its operations with their answers, and the two methods over them. -/
structure ApprovalStore where
  Op : Type
  Res : Op → Type
  State : Type
  /-- what the outside world decides about one operation -/
  Ans : Type
  empty : State
  perform : State → (op : Op) → Ans → Option (Res op × State)
  recordApproval : SignedApproval → ApproverId → Prog Op Res (Except StoreError RecordOutcome)
  listOp : RequestId → Op
  readList : (requestId : RequestId) → Res (listOp requestId) →
    Except StoreError (List SignedApproval)

namespace ApprovalStore

variable (S : ApprovalStore)

/-- Lists the approvals of a request. -/
def listForRequest (requestId : RequestId) :
    Prog S.Op S.Res (Except StoreError (List SignedApproval)) :=
  .act (S.listOp requestId) fun r => .ret (S.readList requestId r)

/-- Operations on the store with their answers. -/
abbrev Log : Type := Pool.Log S.Op S.Res

/-- The state is the one the logged operations lead to. -/
inductive Replays : S.Log → S.State → Prop
  | nil : Replays [] S.empty
  | concat {log : S.Log} {s s' : S.State} {op : S.Op} {a : S.Ans}
      {r : S.Res op} (i : Nat) : Replays log s → S.perform s op a = some (r, s') →
      Replays (log ++ [(i, ⟨op, r⟩)]) s'

/-- What a task does at the store: it records one approval, or it only lists. -/
abbrev Role := Option (SignedApproval × ApproverId)

/-- What the task did fits its role. -/
def Fits (role : Role) (tr : List (Prog.Event S.Op S.Res)) : Prop :=
  match role with
  | some (a, approverId) => ∃ q, (S.recordApproval a approverId).After tr q
  | none => ∀ x ∈ tr, ∃ requestId, x.1 = S.listOp requestId

/-- The contract of a store, over every interleaving: a listing for a request holds approvals of
that request which some task was recording, at most one for each approver id. -/
def Sound : Prop :=
  ∀ (log : S.Log) (s s' : S.State) (role : Nat → Role)
    (requestId : RequestId) (a : S.Ans) (r : S.Res (S.listOp requestId))
    (approvals : List SignedApproval),
    S.Replays log s → (∀ i, S.Fits (role i) (Pool.trace log i)) →
    S.perform s (S.listOp requestId) a = some (r, s') → S.readList requestId r = .ok approvals →
    ∃ l : List (ApproverId × SignedApproval), approvals = l.map Prod.snd ∧
      (l.map Prod.fst).Nodup ∧ ∀ x ∈ l, x.2.requestId = requestId ∧
        ∃ i, role i = some (x.2, x.1) ∧ Pool.trace log i ≠ []

variable {S} {x : Prog.Event S.Op S.Res}

theorem Fits.of_concat {role : Role} {tr : List (Prog.Event S.Op S.Res)}
    (h : S.Fits role (tr ++ [x])) : S.Fits role tr := by
  match role, h with
  | some (a, approverId), ⟨q, hq⟩ => exact hq.of_append
  | none, h => exact fun y hy => h y (List.mem_append_left _ hy)

/-- A task that did anything else than listing is recording an approval. -/
theorem Fits.recording {role : Role} {tr : List (Prog.Event S.Op S.Res)} (h : S.Fits role tr)
    (hx : x ∈ tr) (hop : ∀ requestId, x.1 ≠ S.listOp requestId) :
    ∃ a approverId q, role = some (a, approverId) ∧
      (S.recordApproval a approverId).After tr q := by
  match role, h with
  | some (a, approverId), ⟨q, hq⟩ => exact ⟨a, approverId, q, rfl, hq⟩
  | none, h =>
    obtain ⟨requestId, hlist⟩ := h x hx
    exact absurd hlist (hop requestId)

theorem fits_of_concat {role : Nat → Role} {log : S.Log} {x : Nat × Prog.Event S.Op S.Res}
    (h : ∀ i, S.Fits (role i) (Pool.trace (log ++ [x]) i)) (i : Nat) :
    S.Fits (role i) (Pool.trace log i) := by
  have hi := h i
  rw [Pool.trace_concat] at hi
  split at hi
  · exact hi.of_concat
  · exact hi

end ApprovalStore

/-! ## The in-memory store -/

namespace MemoryApprovalStore

/-- `inner` and `by_request` -/
structure State where
  inner : RequestId × ApproverId → Option (ApprovalId × SignedApproval)
  byRequest : RequestId → List (ApproverId × ApprovalId)

/-- The lock sections. -/
inductive Op where
  /-- under the write lock of `inner`: insert unless the key is taken -/
  | insert (approval : SignedApproval) (approverId : ApproverId)
  /-- under the write lock of `by_request`: append -/
  | index (requestId : RequestId) (approverId : ApproverId) (approvalId : ApprovalId)
  /-- under the read locks of both -/
  | list (requestId : RequestId)

/-- An insertion is answered by the approval id that holds the key already, if there is one. -/
def Res : Op → Type
  | .insert _ _ => Option ApprovalId
  | .index _ _ _ => Unit
  | .list _ => List SignedApproval

/-- The approvals of a request, as the index has them. -/
def listed (s : State) (requestId : RequestId) : List SignedApproval :=
  (s.byRequest requestId).filterMap fun x => (s.inner (requestId, x.1)).map Prod.snd

/-- Executes a lock section. -/
def perform (s : State) : (op : Op) → Unit → Option (Res op × State)
  | .insert a approverId, _ =>
    match s.inner (a.requestId, approverId) with
    | some (prevId, _) => some (some prevId, s)
    | none =>
      some (none, { s with
        inner := Function.update s.inner (a.requestId, approverId) (some (a.approvalId, a)) })
  | .index requestId approverId approvalId, _ =>
    some ((), { s with
      byRequest := Function.update s.byRequest requestId
        (s.byRequest requestId ++ [(approverId, approvalId)]) })
  | .list requestId, _ => some (listed s requestId, s)

/-- Inserts, and then appends to the index. -/
def recordApproval (a : SignedApproval) (approverId : ApproverId) :
    Prog Op Res (Except StoreError RecordOutcome) :=
  .act (.insert a approverId) fun
    | some prevId =>
      .ret (if prevId = a.approvalId then .ok .alreadyRecorded
        else .error (.duplicateApproval approverId a.requestId))
    | none => .act (.index a.requestId approverId a.approvalId) fun _ => .ret (.ok .inserted)

end MemoryApprovalStore

/-- `MemoryApprovalStore` -/
def memoryStore : ApprovalStore where
  Op := MemoryApprovalStore.Op
  Res := MemoryApprovalStore.Res
  State := MemoryApprovalStore.State
  Ans := Unit
  empty := ⟨fun _ => none, fun _ => []⟩
  perform := MemoryApprovalStore.perform
  recordApproval := MemoryApprovalStore.recordApproval
  listOp := .list
  readList _ r := .ok r

namespace MemoryApprovalStore

/-! ### Soundness

The index is only ever extended by a task whose own insertion took the key, and a key is taken
once. So an approver id enters the index of a request at most once. -/

section Sound

variable {log : Pool.Log Op Res} {s s' : State} {approverId : ApproverId}
  {tr : List (Prog.Event Op Res)} {a : SignedApproval} {role : ApprovalStore.Role}
  {approvalId : ApprovalId} {requestId : RequestId}

theorem after_recordApproval {q : Prog Op Res (Except StoreError RecordOutcome)}
    (h : (recordApproval a approverId).After tr q) :
    tr = [] ∨ (∃ r, tr = [⟨.insert a approverId, r⟩]) ∨
      tr = [⟨.insert a approverId, none⟩, ⟨.index a.requestId approverId a.approvalId, ()⟩] := by
  rw [recordApproval, Prog.after_act_iff] at h
  obtain ⟨rfl, -⟩ | ⟨r, tr', rfl, h⟩ := h
  · exact .inl rfl
  · match r, h with
    | some prevId, h =>
      obtain ⟨rfl, -⟩ := h.of_ret
      exact .inr (.inl ⟨_, rfl⟩)
    | none, h =>
      obtain ⟨rfl, -⟩ | ⟨r, tr'', rfl, hdone⟩ := Prog.after_act_iff.1 h
      · exact .inr (.inl ⟨_, rfl⟩)
      · obtain ⟨rfl, -⟩ := hdone.of_ret
        exact .inr (.inr rfl)

theorem insert_of_index (hfits : memoryStore.Fits role tr)
    (hmem : ⟨.index requestId approverId approvalId, ()⟩ ∈ tr) :
    ∃ a : SignedApproval, a.requestId = requestId ∧
      tr = [⟨.insert a approverId, none⟩, ⟨.index requestId approverId approvalId, ()⟩] := by
  obtain ⟨a, approverId', q, -, hq⟩ := hfits.recording hmem fun _ h => by cases h
  obtain rfl | ⟨r, rfl⟩ | rfl := after_recordApproval hq
  · cases hmem
  · cases List.mem_singleton.1 hmem
  · rcases List.mem_pair.1 hmem with h | h
    · cases h
    · cases h
      exact ⟨a, rfl, rfl⟩

theorem role_of_insert {r : Option ApprovalId} (hfits : memoryStore.Fits role tr)
    (hmem : ⟨.insert a approverId, r⟩ ∈ tr) :
    role = some (a, approverId) := by
  obtain ⟨b, approverId', q, rfl, hq⟩ := hfits.recording hmem fun _ h => by cases h
  obtain rfl | ⟨r, rfl⟩ | rfl := after_recordApproval hq
  · cases hmem
  · cases List.mem_singleton.1 hmem
    rfl
  · rcases List.mem_pair.1 hmem with h | h
    · cases h
      rfl
    · cases h

/-- How the two maps relate to what was done. -/
structure Inv (log : Pool.Log Op Res) (s : State) : Prop where
  /-- what is on record was inserted, under its own request -/
  inserted : ∀ {requestId approverId approvalId a},
    s.inner (requestId, approverId) = some (approvalId, a) →
      a.requestId = requestId ∧ ∃ i, (i, ⟨.insert a approverId, none⟩) ∈ log
  /-- a key that was taken stays taken -/
  taken : ∀ {i a approverId}, (i, ⟨.insert a approverId, none⟩) ∈ log →
    s.inner (a.requestId, approverId) ≠ none
  /-- a key is taken by one task -/
  once : ∀ {i j a b approverId}, (i, ⟨.insert a approverId, none⟩) ∈ log →
    (j, ⟨.insert b approverId, none⟩) ∈ log → a.requestId = b.requestId → i = j
  /-- what is indexed was appended -/
  indexed : ∀ {requestId approverId}, approverId ∈ (s.byRequest requestId).map Prod.fst →
    ∃ i approvalId, (i, ⟨.index requestId approverId approvalId, ()⟩) ∈ log
  /-- an approver is indexed once -/
  nodup : ∀ requestId, ((s.byRequest requestId).map Prod.fst).Nodup

theorem Inv.empty : Inv [] memoryStore.empty where
  inserted h := by simp [memoryStore] at h
  taken h := by simp at h
  once h := by simp at h
  indexed h := by simp [memoryStore] at h
  nodup _ := by simp [memoryStore]

theorem Inv.insert (h : Inv log s) {i : Nat} (hfree : s.inner (a.requestId, approverId) = none) :
    Inv (log ++ [(i, ⟨.insert a approverId, none⟩)]) { s with
      inner := Function.update s.inner (a.requestId, approverId) (some (a.approvalId, a)) } where
  inserted {requestId approverId' approvalId b} hb := by
    by_cases hkey : (requestId, approverId') = (a.requestId, approverId)
    · obtain ⟨rfl, rfl⟩ := Prod.mk.injEq _ _ _ _ ▸ hkey
      simp only [Function.update_self] at hb
      cases hb
      exact ⟨rfl, i, by simp⟩
    · simp only [Function.update_of_ne hkey] at hb
      obtain ⟨hreq, j, hj⟩ := h.inserted hb
      exact ⟨hreq, j, List.mem_append_left _ hj⟩
  taken {j b approverId'} hb := by
    rcases mem_concat_iff.1 hb with hb | hb
    · by_cases hkey : (b.requestId, approverId') = (a.requestId, approverId)
      · simp [hkey]
      · simp only [Function.update_of_ne hkey]
        exact h.taken hb
    · cases hb
      simp
  once {j k b c approverId'} hb hc hreq := by
    -- the key was free, so no earlier insertion took it
    have hearlier {n : Nat} {d : SignedApproval} (hd : (n, ⟨.insert d approverId, none⟩) ∈ log)
        (hd' : d.requestId = a.requestId) : False := h.taken hd (hd' ▸ hfree)
    rcases mem_concat_iff.1 hb with hb | hb <;> rcases mem_concat_iff.1 hc with hc | hc
    · exact h.once hb hc hreq
    · cases hc
      exact (hearlier hb hreq).elim
    · cases hb
      exact (hearlier hc hreq.symm).elim
    · cases hb
      cases hc
      rfl
  indexed hid := by
    obtain ⟨j, approvalId, hj⟩ := h.indexed hid
    exact ⟨j, approvalId, List.mem_append_left _ hj⟩
  nodup := h.nodup

theorem Inv.unchanged (h : Inv log s) {x : Nat × Prog.Event Op Res}
    (hx : ∀ i a approverId, x ≠ (i, ⟨.insert a approverId, none⟩)) : Inv (log ++ [x]) s where
  inserted hb := by
    obtain ⟨hreq, j, hj⟩ := h.inserted hb
    exact ⟨hreq, j, List.mem_append_left _ hj⟩
  taken hb := by
    rcases List.mem_append.1 hb with hb | hb
    · exact h.taken hb
    · exact absurd (List.mem_singleton.1 hb).symm (hx _ _ _)
  once hb hc := by
    rcases List.mem_append.1 hb with hb | hb
    · rcases List.mem_append.1 hc with hc | hc
      · exact h.once hb hc
      · exact absurd (List.mem_singleton.1 hc).symm (hx _ _ _)
    · exact absurd (List.mem_singleton.1 hb).symm (hx _ _ _)
  indexed hid := by
    obtain ⟨j, approvalId, hj⟩ := h.indexed hid
    exact ⟨j, approvalId, List.mem_append_left _ hj⟩
  nodup := h.nodup

theorem Inv.index (h : Inv log s) {i : Nat}
    (hnew : approverId ∉ (s.byRequest requestId).map Prod.fst) :
    Inv (log ++ [(i, ⟨.index requestId approverId approvalId, ()⟩)]) { s with
      byRequest := Function.update s.byRequest requestId
        (s.byRequest requestId ++ [(approverId, approvalId)]) } := by
  have hsame := h.unchanged (x := (i, ⟨.index requestId approverId approvalId, ()⟩))
    (fun _ _ _ heq => by cases heq)
  refine ⟨hsame.inserted, hsame.taken, hsame.once, fun {q id} hid => ?_, fun q => ?_⟩
  · by_cases hq : q = requestId
    · subst hq
      simp only [Function.update_self, List.map_append, List.mem_append] at hid
      rcases hid with hid | hid
      · exact hsame.indexed hid
      · obtain rfl : id = approverId := by simpa using hid
        exact ⟨i, approvalId, by simp⟩
    · simp only [Function.update_of_ne hq] at hid
      exact hsame.indexed hid
  · by_cases hq : q = requestId
    · subst hq
      simp only [Function.update_self, List.map_append]
      refine List.nodup_append.2 ⟨h.nodup q, by simp, ?_⟩
      rintro id hid _ hid' rfl
      obtain rfl : id = approverId := by simpa using hid'
      exact hnew hid
    · simp only [Function.update_of_ne hq]
      exact h.nodup q

theorem Inv.of_replays {log : memoryStore.Log}
    {s : memoryStore.State} {role : Nat → ApprovalStore.Role} (h : memoryStore.Replays log s)
    (hfits : ∀ i, memoryStore.Fits (role i) (Pool.trace log i)) : Inv log s := by
  induction h with
  | nil => exact .empty
  | @concat log s s' op a r i hlog hperform ih =>
    have hinv := ih (ApprovalStore.fits_of_concat hfits)
    match op, r, hperform with
    | .insert b approverId, r, hperform =>
      simp only [memoryStore, perform] at hperform
      split at hperform
      · next prevId _ hkey =>
        cases hperform
        exact hinv.unchanged (fun _ _ _ heq => by cases heq)
      · next hkey =>
        cases hperform
        exact hinv.insert hkey
    | .index requestId approverId approvalId, r, hperform =>
      cases hperform
      refine hinv.index fun hmem => ?_
      -- the task that indexed the approver before took the key, and so did this one
      obtain ⟨j, approvalId', hj⟩ := hinv.indexed hmem
      have hi := hfits i
      rw [Pool.trace_concat, if_pos rfl] at hi
      obtain ⟨b, hb, htrace⟩ :=
        insert_of_index hi (List.mem_append_right _ (List.mem_singleton_self _))
      obtain ⟨c, hc, htrace'⟩ :=
        insert_of_index (ApprovalStore.fits_of_concat hfits j) (Pool.mem_trace hj)
      have hfront : Pool.trace log i = [⟨.insert b approverId, none⟩] :=
        List.append_inj_left' htrace rfl
      have hij : i = j := hinv.once
        (Pool.mem_of_mem_trace (hfront ▸ List.mem_singleton_self _))
        (Pool.mem_of_mem_trace (htrace' ▸ List.mem_cons_self)) (hb.trans hc.symm)
      subst hij
      exact absurd (congrArg List.length (hfront.symm.trans htrace')) (Nat.ne_of_lt Nat.one_lt_two)
    | .list requestId, r, hperform =>
      cases hperform
      exact hinv.unchanged (fun _ _ _ heq => by cases heq)

end Sound

end MemoryApprovalStore

/-- **However recordings and listings interleave, the in-memory store lists for a request one
approval for each approver id, and only what a task was recording for that request.** -/
theorem memoryStore_sound : memoryStore.Sound := by
  intro log s s' role requestId a r approvals hlog hfits hperform hread
  have hinv := MemoryApprovalStore.Inv.of_replays hlog hfits
  cases hperform
  cases hread
  let entry (approverId : ApproverId) : Option (ApproverId × SignedApproval) :=
    (s.inner (requestId, approverId)).map fun y => (approverId, y.2)
  refine ⟨((s.byRequest requestId).map Prod.fst).filterMap entry, ?_, ?_, fun x hx => ?_⟩
  · rw [List.map_filterMap, List.filterMap_map]
    refine List.filterMap_congr fun x _ => ?_
    simp [entry, Function.comp_def]
  · rw [List.map_filterMap]
    refine (hinv.nodup requestId).filterMap fun id id' key hkey hkey' => ?_
    obtain ⟨-, -, rfl⟩ : ∃ y, s.inner (requestId, id) = some y ∧ id = key := by
      simpa [entry, Prod.exists] using hkey
    obtain ⟨-, -, rfl⟩ : ∃ y, s.inner (requestId, id') = some y ∧ id' = id := by
      simpa [entry, Prod.exists] using hkey'
    rfl
  · obtain ⟨y, hy, hentry⟩ := List.mem_filterMap.1 hx
    obtain ⟨⟨approvalId, b⟩, hinner, rfl⟩ := Option.map_eq_some_iff.1 hentry
    obtain ⟨hreq, i, hi⟩ := hinv.inserted hinner
    have htrace := Pool.mem_trace hi
    exact ⟨hreq, i, MemoryApprovalStore.role_of_insert (hfits i) htrace,
      List.ne_nil_of_mem htrace⟩

end QfcServerWallet.Quorum
