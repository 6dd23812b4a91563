import QfcServerWallet.Quorum.Outcomes
import QfcServerWallet.Service.Sign

/-!
# When an acknowledged approval is listed

`MemoryApprovalStore` (`qfc-quorum/src/store/memory.rs`) and the poll of `collect_approvals`
(`approvers/orchestrating.rs`), in every interleaving of lock sections. A recording may be cancelled
at its second `await`, after it has taken its key and before it has extended the index.

* A listing runs over the index, an acknowledgement is read off the map. While the call that took
  the key has not appended to the index, and for ever if it was cancelled, another submission of the
  approval is answered `AlreadyRecorded` and the listings do not have it.
* `Indexed log requestId approverId`: the call that took the key has appended to the index.

Results: **`acknowledged_listed_iff`** and `acknowledged_reject_not_listed`.
-/

namespace QfcServerWallet.Quorum.MemoryApprovalStore

open Lib

/-! ## The listing and the index -/

variable {log : memoryStore.Log} {s : memoryStore.State} {requestId : RequestId}
  {approverId : ApproverId} {role : Nat → ApprovalStore.Role}

/-- The call that took the key has made its second lock section. -/
def Indexed (log : Pool.Log Op Res) (requestId : RequestId)
    (approverId : ApproverId) : Prop :=
  ∃ i approvalId, (i, ⟨.index requestId approverId approvalId, ()⟩) ∈ log

/-- What a listing runs over: the indexed approvers with what is on record for them. -/
def listedBy (s : State) (requestId : RequestId) : List (ApproverId × SignedApproval) :=
  (s.byRequest requestId).filterMap fun x =>
    (recorded s (requestId, x.1)).map fun a => (x.1, a)

theorem map_snd_listedBy (s : State) (requestId : RequestId) :
    (listedBy s requestId).map Prod.snd = listed s requestId := by
  rw [listedBy, List.map_filterMap]
  refine List.filterMap_congr fun x _ => ?_
  rw [Option.map_map, recorded, Option.map_map]
  rfl

theorem mem_listedBy {a : SignedApproval} : (approverId, a) ∈ listedBy s requestId ↔
    approverId ∈ (s.byRequest requestId).map Prod.fst ∧
      recorded s (requestId, approverId) = some a := by
  simp only [listedBy, List.mem_filterMap, Option.map_eq_some_iff, List.mem_map]
  constructor
  · rintro ⟨x, hx, b, hb, heq⟩
    cases heq
    exact ⟨⟨x, hx, rfl⟩, hb⟩
  · rintro ⟨⟨x, hx, rfl⟩, ha⟩
    exact ⟨x, hx, a, ha, rfl⟩

theorem map_fst_listedBy_sublist (s : State) (requestId : RequestId) :
    ((listedBy s requestId).map Prod.fst).Sublist ((s.byRequest requestId).map Prod.fst) := by
  unfold listedBy
  induction s.byRequest requestId with
  | nil => exact List.Sublist.slnil
  | cons x l ih =>
    rw [List.map_cons]
    cases hx : recorded s (requestId, x.1) with
    | none =>
      rw [List.filterMap_cons_none (by rw [hx]; rfl)]
      exact ih.cons _
    | some a =>
      rw [List.filterMap_cons_some (by rw [hx]; rfl)]
      exact ih.cons_cons _

theorem Indexed.mem (h : memoryStore.Replays log s) (hindexed : Indexed log requestId approverId) :
    approverId ∈ (s.byRequest requestId).map Prod.fst := by
  obtain ⟨i, approvalId, hi⟩ := hindexed
  induction h with
  | nil => cases hi
  | @concat log s s' op a r j _ hperform ih =>
    match op, r, hperform with
    | .insert b x, r, hperform =>
      have hsame : s'.byRequest = s.byRequest := by
        simp only [memoryStore, perform] at hperform
        split at hperform <;> cases hperform <;> rfl
      rcases mem_concat_iff.1 hi with hi | hi
      · rw [hsame]
        exact ih hi
      · cases hi
    | .index q x id, r, hperform =>
      cases hperform
      rcases mem_concat_iff.1 hi with hi' | hi'
      · by_cases hq : requestId = q
        · subst hq
          simp only [Function.update_self, List.map_append]
          exact List.mem_append_left _ (ih hi')
        · simp only [Function.update_of_ne hq]
          exact ih hi'
      · cases hi'
        simp
    | .list q, r, hperform =>
      cases hperform
      rcases mem_concat_iff.1 hi with hi' | hi'
      · exact ih hi'
      · cases hi'

theorem count_listedBy (hlog : memoryStore.Replays log s)
    (hfits : ∀ i, memoryStore.Fits (role i) (Pool.trace log i)) {b : SignedApproval}
    (hrecord : recorded s (requestId, approverId) = some b) :
    ((listedBy s requestId).map Prod.fst).count approverId = 1 ↔
      Indexed log requestId approverId := by
  have hinv := Inv.of_replays hlog hfits
  have hnodup : ((listedBy s requestId).map Prod.fst).Nodup :=
    (hinv.nodup requestId).sublist (map_fst_listedBy_sublist s requestId)
  constructor
  · intro hcount
    obtain ⟨⟨x, a⟩, hx, rfl⟩ := List.mem_map.1 (List.count_pos_iff.1 (hcount ▸ Nat.one_pos))
    exact hinv.indexed (mem_listedBy.1 hx).1
  · intro hindexed
    refine List.count_eq_one_of_mem hnodup (List.mem_map.2 ⟨(approverId, b), ?_, rfl⟩)
    exact mem_listedBy.2 ⟨hindexed.mem hlog, hrecord⟩

theorem recorded_of_answered (hlog : memoryStore.Replays log s) {i : Nat} {a : SignedApproval}
    {o : RecordOutcome} (h : memoryStore.Answered role log i a approverId (.ok o)) :
    (∃ b, recorded s (a.requestId, approverId) = some b) ∧
      (o = .inserted → recorded s (a.requestId, approverId) = some a ∧
        Indexed log a.requestId approverId) := by
  have hshows := Shows.of_replays hlog
  obtain ⟨prevId, htrace, ho⟩ | ⟨htrace, ho⟩ := ret_of_recordApproval h.2
  · obtain ⟨b, hb⟩ := hshows.found (Pool.mem_of_mem_trace (htrace ▸ List.mem_singleton_self _))
    refine ⟨⟨b, by simp only [recorded, hb, Option.map_some]⟩, ?_⟩
    rintro rfl
    split at ho <;> cases ho
  · have hinsert := Pool.mem_of_mem_trace (htrace ▸ List.mem_cons_self)
    have hindex := Pool.mem_of_mem_trace
      (htrace ▸ List.mem_cons_of_mem _ (List.mem_singleton_self _))
    have hrecord : recorded s (a.requestId, approverId) = some a := by
      simp only [recorded, hshows.took hinsert, Option.map_some]
    exact ⟨⟨a, hrecord⟩, fun _ => ⟨hrecord, i, _, hindex⟩⟩

end QfcServerWallet.Quorum.MemoryApprovalStore

namespace QfcServerWallet.Service

open Lib Quorum WalletService

/-! ## The collector -/

theorem pollOutcome_reject (threshold : UInt8) {approvals : List SignedApproval}
    {a : SignedApproval} (ha : a ∈ approvals) (hreject : a.decision = .reject) :
    ∃ b ∈ approvals, b.decision = .reject ∧
      pollOutcome threshold (.ok approvals) = some (.ok [b]) := by
  have hsome : (approvals.find? fun a => a.decision = .reject).isSome :=
    List.find?_isSome.2 ⟨a, ha, decide_eq_true hreject⟩
  obtain ⟨b, hb⟩ := Option.isSome_iff_exists.1 hsome
  refine ⟨b, List.mem_of_find?_eq_some hb, by simpa using List.find?_some hb, ?_⟩
  simp only [pollOutcome, hb]

open MemoryApprovalStore in
/-- **In every interleaving of lock sections, an approval that was acknowledged is in the listings
from then on, and once, iff the call that took its key has extended the index. `Inserted` says that
it has. An acknowledged reject then ends the collection, where an approval id names one
approval.** -/
theorem acknowledged_listed_iff
    {log : List (Nat × Prog.Event memoryStore.Op memoryStore.Res)} {s s' : memoryStore.State}
    {role : Nat → ApprovalStore.Role} (hlog : memoryStore.Replays log s)
    (hfits : ∀ i, memoryStore.Fits (role i) (Pool.trace log i)) {i : Nat} {a : SignedApproval}
    {approverId : ApproverId} {o : RecordOutcome}
    (hanswer : memoryStore.Answered role log i a approverId (.ok o))
    {r : memoryStore.Res (memoryStore.listOp a.requestId)}
    (hperform : memoryStore.perform s (memoryStore.listOp a.requestId) () = some (r, s')) :
    memoryStore.readList a.requestId r = .ok ((listedBy s a.requestId).map Prod.snd) ∧
    (((listedBy s a.requestId).map Prod.fst).count approverId = 1 ↔
      Indexed log a.requestId approverId) ∧
    (o = .inserted → Indexed log a.requestId approverId) ∧
    (Indexed log a.requestId approverId → NamesOne role → a.decision = .reject →
      ∀ threshold, ∃ b, b.decision = .reject ∧
        pollOutcome threshold (memoryStore.readList a.requestId r) = some (.ok [b])) := by
  cases hperform
  have hread : memoryStore.readList a.requestId (listed s a.requestId) =
      .ok ((listedBy s a.requestId).map Prod.snd) :=
    congrArg Except.ok (map_snd_listedBy s a.requestId).symm
  obtain ⟨⟨b, hb⟩, hinserted⟩ := recorded_of_answered hlog hanswer
  refine ⟨hread, count_listedBy hlog hfits hb, fun ho => (hinserted ho).2,
    fun hindexed hnames hreject threshold => ?_⟩
  -- the approval on record is the acknowledged one
  have hself : recorded s (a.requestId, approverId) = some a := by
    cases o with
    | inserted => exact (hinserted rfl).1
    | alreadyRecorded => exact (explained hlog hfits hnames hanswer).alreadyRecorded rfl
  have hlisted : a ∈ (listedBy s a.requestId).map Prod.snd :=
    List.mem_map.2 ⟨(approverId, a), mem_listedBy.2 ⟨hindexed.mem hlog, hself⟩, rfl⟩
  obtain ⟨c, -, hc, hpoll⟩ := pollOutcome_reject threshold hlisted hreject
  exact ⟨c, hc, hread ▸ hpoll⟩

/-! ## Runs -/

namespace SampleStore

open Quorum.SampleStore

/-- The first task is cancelled between its lock sections. -/
def cancelledLog : memoryStore.Log :=
  [(0, ⟨.insert (again .reject) approverId, none⟩),
    (1, ⟨.insert (again .reject) approverId, some approval.approvalId⟩)]

theorem cancelledLog_replays : ∃ s, memoryStore.Replays cancelledLog s ∧
    MemoryApprovalStore.listed s approval.requestId = [] :=
  ⟨_, .concat (a := ()) 1 (.concat (a := ()) 0 .nil rfl) rfl, rfl⟩

theorem cancelledLog_fits :
    (i : Nat) → memoryStore.Fits (roles .reject .reject i) (Pool.trace cancelledLog i)
  | 0 => ⟨_, .cons _ _ _ (.nil _)⟩
  | 1 => ⟨_, .cons _ _ _ (.nil _)⟩
  | _ + 2 => fun _ hx => absurd hx List.not_mem_nil

end SampleStore

open Quorum.SampleStore in
/-- A reject is submitted twice and polled for. -/
theorem acknowledged_reject_listed :
    ∃ s, memoryStore.Replays (memoryLog .reject .reject) s ∧
      ((MemoryApprovalStore.listedBy s approval.requestId).map Prod.fst).count approverId = 1 ∧
      ∃ b, b.decision = .reject ∧
        pollOutcome 1 (.ok (MemoryApprovalStore.listed s approval.requestId)) =
          some (.ok [b]) := by
  obtain ⟨s, hs, -⟩ := memoryLog_replays .reject .reject
  have hindexed : MemoryApprovalStore.Indexed (memoryLog .reject .reject) approval.requestId
      approverId := ⟨0, _, List.mem_cons_of_mem _ List.mem_cons_self⟩
  obtain ⟨-, hcount, -, hpoll⟩ := acknowledged_listed_iff hs (memoryLog_fits .reject .reject)
    (memoryLog_answered .reject .reject) rfl
  exact ⟨s, hs, hcount.2 hindexed, hpoll hindexed (namesOne_roles .reject) rfl 1⟩

open Quorum.SampleStore SampleStore in
/-- A task that submits a reject is cancelled. The reject is submitted again and acknowledged, and
no listing has it. -/
theorem acknowledged_reject_not_listed :
    ∃ s, memoryStore.Replays cancelledLog s ∧
      (∀ i, memoryStore.Fits (roles .reject .reject i) (Pool.trace cancelledLog i)) ∧
      memoryStore.Answered (roles .reject .reject) cancelledLog 1 (again .reject) approverId
        (.ok .alreadyRecorded) ∧
      memoryStore.perform s (memoryStore.listOp approval.requestId) () = some ([], s) ∧
      pollOutcome 1 (.ok []) = none := by
  obtain ⟨s, hs, hlisted⟩ := cancelledLog_replays
  refine ⟨s, hs, cancelledLog_fits, ⟨rfl, .cons _ _ _ (.nil _)⟩, ?_, by decide⟩
  exact congrArg (fun l => some (l, s)) hlisted

end QfcServerWallet.Service
