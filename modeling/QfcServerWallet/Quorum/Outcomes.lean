import QfcServerWallet.Quorum.Ledger
import Mathlib.Data.List.Pairwise

/-!
# What an answer of the approval store says about the record

`record_approval` of both backends (`qfc-quorum/src/store`), in every interleaving of lock sections
or statements: whether `AlreadyRecorded` means that the very same approval is on record, and
`DuplicateApproval` that another one is.

* Both backends compare approval ids only. An id that is submitted again with another decision is
  answered `AlreadyRecorded`.
* Under READ COMMITTED two calls with one approval may both find nothing in their `SELECT`. The
  `INSERT` of the second then violates a unique constraint, and this reads as `DuplicateApproval`,
  though the approval on record is its own.
* `DuplicateApproval` is read off the error text. A text that merely looks like a violated
  constraint would be taken for one.
* `NamesOne role`: an approver uses an approval id for one approval of a request. `Clean`: an
  `INSERT` is not made while its approval id is on record, and none of its other failures reads as a
  duplicate.

Results: **`outcomes_explained`**, and without its conditions `changed_decision_acknowledged` and
`racing_resubmission_refused`.
-/

namespace QfcServerWallet.Quorum

open Lib

/-! ## Answers and records -/

/-- The answer is right about the approval on record. -/
structure Explained (onRecord : Option SignedApproval) (a : SignedApproval)
    (o : Except StoreError RecordOutcome) : Prop where
  alreadyRecorded : o = .ok .alreadyRecorded → onRecord = some a
  duplicateApproval : ∀ approverId requestId,
    o = .error (.duplicateApproval approverId requestId) → ∃ b, onRecord = some b ∧ b ≠ a

/-- An approver uses an approval id for one approval of a request. -/
def NamesOne (role : Nat → ApprovalStore.Role) : Prop :=
  ∀ {i j a b approverId}, role i = some (a, approverId) → role j = some (b, approverId) →
    a.requestId = b.requestId → a.approvalId = b.approvalId → a = b

namespace ApprovalStore

variable (S : ApprovalStore)

/-- The state is the one the logged operations lead to, and every operation met the guard. -/
inductive ReplaysUnder (guard : S.State → S.Op → S.Ans → Prop) :
    S.Log → S.State → Prop
  | nil : ReplaysUnder guard [] S.empty
  | concat {log : S.Log} {s s' : S.State} {op : S.Op} {a : S.Ans}
      {r : S.Res op} (i : Nat) : ReplaysUnder guard log s → S.perform s op a = some (r, s') →
      guard s op a → ReplaysUnder guard (log ++ [(i, ⟨op, r⟩)]) s'

variable {S}

theorem ReplaysUnder.replays {guard : S.State → S.Op → S.Ans → Prop} {log : S.Log} {s : S.State}
    (h : S.ReplaysUnder guard log s) : S.Replays log s := by
  induction h with
  | nil => exact .nil
  | concat i _ hperform _ ih => exact .concat i ih hperform

theorem fits_last {role : Nat → Role} {log : S.Log} {i : Nat}
    {x : Prog.Event S.Op S.Res} (h : ∀ j, S.Fits (role j) (Pool.trace (log ++ [(i, x)]) j)) :
    S.Fits (role i) (Pool.trace log i ++ [x]) := by
  have hi := h i
  rwa [Pool.trace_concat, if_pos rfl] at hi

/-- The task has made its call and got the answer. -/
def Answered (role : Nat → Role) (log : S.Log) (i : Nat)
    (a : SignedApproval) (approverId : ApproverId) (o : Except StoreError RecordOutcome) : Prop :=
  role i = some (a, approverId) ∧
    (S.recordApproval a approverId).After (Pool.trace log i) (.ret o)

end ApprovalStore

/-! ## The map -/

namespace MemoryApprovalStore

variable {log : Pool.Log Op Res} {s s' : State} {approverId : ApproverId} {a : SignedApproval}
  {o : Except StoreError RecordOutcome}

/-- The approval under the key. -/
def recorded (s : State) (key : RequestId × ApproverId) : Option SignedApproval :=
  (s.inner key).map Prod.snd

/-- What the answers to insertions say about the map. -/
structure Shows (log : Pool.Log Op Res) (s : State) : Prop where
  /-- an entry has the id of its approval -/
  entry : ∀ {key approvalId a}, s.inner key = some (approvalId, a) → a.approvalId = approvalId
  /-- the key was free -/
  took : ∀ {i a approverId}, (i, ⟨.insert a approverId, none⟩) ∈ log →
    s.inner (a.requestId, approverId) = some (a.approvalId, a)
  /-- the key was taken -/
  found : ∀ {i a approverId prevId}, (i, ⟨.insert a approverId, some prevId⟩) ∈ log →
    ∃ b, s.inner (a.requestId, approverId) = some (prevId, b)

theorem ret_of_recordApproval {tr : List (Prog.Event Op Res)}
    (h : (recordApproval a approverId).After tr (.ret o)) :
    (∃ prevId, tr = [⟨.insert a approverId, some prevId⟩] ∧
      o = if prevId = a.approvalId then .ok .alreadyRecorded
        else .error (.duplicateApproval approverId a.requestId)) ∨
    (tr = [⟨.insert a approverId, none⟩, ⟨.index a.requestId approverId a.approvalId, ()⟩] ∧
      o = .ok .inserted) := by
  obtain ⟨r, tr', rfl, hrest⟩ := h.ret_of_act
  match r, hrest with
  | some prevId, hrest =>
    obtain ⟨rfl, ⟨⟩⟩ := hrest.of_ret
    exact .inl ⟨prevId, rfl, rfl⟩
  | none, hrest =>
    obtain ⟨r, tr'', rfl, hdone⟩ := hrest.ret_of_act
    obtain ⟨rfl, ⟨⟩⟩ := hdone.of_ret
    exact .inr ⟨rfl, rfl⟩

theorem Shows.empty : Shows [] memoryStore.empty where
  entry h := by cases h
  took h := absurd h List.not_mem_nil
  found h := absurd h List.not_mem_nil

theorem Shows.insert (h : Shows log s) {i : Nat}
    (hfree : s.inner (a.requestId, approverId) = none) :
    Shows (log ++ [(i, ⟨.insert a approverId, none⟩)]) { s with
      inner := Function.update s.inner (a.requestId, approverId) (some (a.approvalId, a)) } := by
  -- keys that are taken are other keys
  have hother {key : RequestId × ApproverId} {x : ApprovalId × SignedApproval}
      (hkey : s.inner key = some x) :
      Function.update s.inner (a.requestId, approverId) (some (a.approvalId, a)) key = some x := by
    rw [Function.update_of_ne _, hkey]
    rintro rfl
    rw [hfree] at hkey
    cases hkey
  refine ⟨fun {key approvalId b} hb => ?_, fun {j b x} hb => ?_, fun {j b x prevId} hb => ?_⟩
  · dsimp only at hb
    by_cases hkey : key = (a.requestId, approverId)
    · subst hkey
      rw [Function.update_self] at hb
      cases hb
      rfl
    · rw [Function.update_of_ne hkey] at hb
      exact h.entry hb
  · rcases mem_concat_iff.1 hb with hb | hb
    · exact hother (h.took hb)
    · cases hb
      exact Function.update_self ..
  · rcases mem_concat_iff.1 hb with hb | hb
    · obtain ⟨c, hc⟩ := h.found hb
      exact ⟨c, hother hc⟩
    · cases hb

theorem Shows.concat (h : Shows log s) {x : Nat × Prog.Event Op Res} (hinner : s'.inner = s.inner)
    (htook : ∀ {i a approverId}, x ≠ (i, ⟨.insert a approverId, none⟩))
    (hfound : ∀ {i a approverId prevId}, x = (i, ⟨.insert a approverId, some prevId⟩) →
      ∃ b, s.inner (a.requestId, approverId) = some (prevId, b)) : Shows (log ++ [x]) s' where
  entry hb := h.entry (hinner ▸ hb)
  took hb := by
    rcases List.mem_append.1 hb with hb | hb
    · rw [hinner]
      exact h.took hb
    · exact absurd (List.mem_singleton.1 hb).symm htook
  found hb := by
    rw [hinner]
    rcases List.mem_append.1 hb with hb | hb
    · exact h.found hb
    · exact hfound (List.mem_singleton.1 hb).symm

theorem Shows.of_replays {log : memoryStore.Log}
    {s : memoryStore.State} (h : memoryStore.Replays log s) : Shows log s := by
  induction h with
  | nil => exact .empty
  | @concat log s s' op a r i _ hperform ih =>
    match op, r, hperform with
    | .insert b approverId, r, hperform =>
      simp only [memoryStore, perform] at hperform
      split at hperform
      · next prevId c hkey =>
        cases hperform
        refine ih.concat rfl (fun heq => by cases heq) fun heq => ?_
        cases heq
        exact ⟨c, hkey⟩
      · next hkey =>
        cases hperform
        exact ih.insert hkey
    | .index requestId approverId approvalId, r, hperform =>
      cases hperform
      exact ih.concat rfl (fun heq => by cases heq) fun heq => by cases heq
    | .list requestId, r, hperform =>
      cases hperform
      exact ih.concat rfl (fun heq => by cases heq) fun heq => by cases heq

theorem explained {log : memoryStore.Log} {s : memoryStore.State} {role : Nat → ApprovalStore.Role}
    (hlog : memoryStore.Replays log s) (hfits : ∀ i, memoryStore.Fits (role i) (Pool.trace log i))
    (hnames : NamesOne role) {i : Nat} (h : memoryStore.Answered role log i a approverId o) :
    Explained (recorded s (a.requestId, approverId)) a o := by
  obtain ⟨hrole, hafter⟩ := h
  have hshows := Shows.of_replays hlog
  obtain ⟨prevId, htrace, rfl⟩ | ⟨-, rfl⟩ := ret_of_recordApproval hafter
  · obtain ⟨b, hb⟩ := hshows.found
      (Pool.mem_of_mem_trace (htrace ▸ List.mem_singleton_self _))
    have hid := hshows.entry hb
    have hrecord : recorded s (a.requestId, approverId) = some b := by
      simp only [recorded, hb, Option.map_some]
    by_cases hprev : prevId = a.approvalId
    · rw [if_pos hprev, hrecord]
      refine ⟨fun _ => ?_, nofun⟩
      -- the approval on record was submitted by some task, under the same id
      obtain ⟨hreq, j, hj⟩ := (Inv.of_replays hlog hfits).inserted hb
      have hrole' := role_of_insert (hfits j) (Pool.mem_trace hj)
      exact congrArg some (hnames hrole' hrole hreq (hid.trans hprev))
    · rw [if_neg hprev, hrecord]
      refine ⟨nofun, fun _ _ _ => ⟨b, rfl, ?_⟩⟩
      rintro rfl
      exact hprev hid.symm
  · exact ⟨nofun, nofun⟩

end MemoryApprovalStore

/-! ## The table -/

namespace PostgresApprovalStore

variable {d : Deps} {log : Pool.Log Op Res} {t t' : Table Row} {role : Nat → ApprovalStore.Role}
  {approverId : ApproverId} {tr : List (Prog.Event Op Res)} {a : SignedApproval} {row : Row}
  {tx : Nat} {r : Except String Unit} {x : Prog.Event Op Res} {requestId : RequestId}

/-- The committed row under the key, read back. -/
def recorded (d : Deps) (t : Table Row) (key : RequestId × ApproverId) : Option SignedApproval :=
  (t.rows.find? fun row => row.requestId = key.1.toString ∧ row.approverId = key.2.toString).bind
    fun row => (decodeRow d key.1 row).toOption

/-- The error of an `INSERT` is taken for a violated constraint. -/
def ReadsDuplicate (text : String) : Prop :=
  ∃ approverId requestId,
    insertError approverId requestId text = .duplicateApproval approverId requestId

/-- An `INSERT` is not made while its approval id is on record, and only the violation of a
constraint reads as one. -/
def Clean (t : Table Row) : Op → Ans → Prop
  | .insert _ row, a =>
    (∀ row' ∈ t.rows, row'.approvalId ≠ row.approvalId) ∧
      ∀ text, a.fault = some text → ¬ ReadsDuplicate text
  | _, _ => True

/-! ### What one statement does -/

/-- Everything the answer to a statement says about the table before and after it. -/
structure Effect (t : Table Row) (a : Ans) (x : Prog.Event Op Res) (t' : Table Row) : Prop where
  rows : t.rows ⊆ t'.rows
  next : t.next ≤ t'.next
  pending : ∀ {tx row}, (tx, row) ∈ t'.pending →
    (tx, row) ∈ t.pending ∨ ∃ r, x = ⟨.insert tx row, r⟩
  begun : ∀ {tx}, x = ⟨.begin, .ok tx⟩ → tx = t.next ∧ tx < t'.next
  found : ∀ {tx requestId approverId prevId},
    x = ⟨.selectExisting tx requestId approverId, .ok (some prevId)⟩ →
      ∃ row ∈ t.rows, row.requestId = requestId ∧ row.approverId = approverId ∧
        row.approvalId = prevId
  refused : ∀ {tx row text}, x = ⟨.insert tx row, .error text⟩ → a.fault = some text ∨
    ∃ row' ∈ t.rows ++ t.own tx, clash row row' ≠ none

theorem rows_of_execute {op : Op} {a : Ans} {r : Res op} (h : execute t op a = some (r, t')) :
    t.rows ⊆ t'.rows ∧ t.next ≤ t'.next ∧ ∀ {tx row}, (tx, row) ∈ t'.pending →
      (tx, row) ∈ t.pending ∨ ∃ r', (⟨op, r⟩ : Prog.Event Op Res) = ⟨.insert tx row, r'⟩ := by
  obtain rfl | rfl | ⟨gone, rfl⟩ | ⟨tx, rfl⟩ | ⟨tx, row, rfl, hinsert⟩ := execute_cases h
  · exact ⟨fun _ h => h, le_rfl, .inl⟩
  · exact ⟨fun _ h => h, Nat.le_succ _, .inl⟩
  · exact ⟨fun _ h => h, le_rfl, fun h => .inl (List.mem_of_mem_filter h)⟩
  · exact ⟨List.subset_append_left _ _, le_rfl, fun h => .inl (List.mem_of_mem_filter h)⟩
  · obtain rfl := Table.eq_of_insert hinsert
    refine ⟨fun _ h => h, le_rfl, fun {tx' row'} hmem => ?_⟩
    rcases mem_concat_iff.1 hmem with hmem | hmem
    · exact .inl hmem
    · cases hmem
      exact .inr ⟨r, rfl⟩

theorem found_of_execute {a : Ans} {requestId approverId prevId : String}
    (h : execute t (.selectExisting tx requestId approverId) a = some (.ok (some prevId), t')) :
    ∃ row ∈ t.rows, row.requestId = requestId ∧ row.approverId = approverId ∧
      row.approvalId = prevId := by
  obtain ⟨r, hr⟩ : ∃ r, r = t.rows.find? fun row =>
    row.requestId = requestId ∧ row.approverId = approverId := ⟨_, rfl⟩
  simp only [execute, within, ← hr] at h
  split at h
  · cases h
  · split at h
    · cases r with
      | none => cases h
      | some row =>
        cases h
        have hkey := List.find?_some hr.symm
        simp only [decide_eq_true_eq] at hkey
        exact ⟨row, List.mem_of_find?_eq_some hr.symm, hkey.1, hkey.2, rfl⟩
    · cases h

theorem refused_of_execute {a : Ans} {text : String}
    (h : execute t (.insert tx row) a = some (.error text, t')) :
    a.fault = some text ∨ ∃ row' ∈ t.rows ++ t.own tx, clash row row' ≠ none := by
  simp only [execute, within] at h
  split at h
  · next hfault =>
    cases h
    exact .inl hfault
  · split at h
    · split at h
      · cases h
      · next hrefused =>
        exact .inr (Table.clash_of_refused hrefused)
      · cases h
    · cases h

theorem Effect.of_execute {op : Op} {a : Ans} {r : Res op} (h : execute t op a = some (r, t')) :
    Effect t a ⟨op, r⟩ t' := by
  obtain ⟨hrows, hnext, hpending⟩ := rows_of_execute h
  refine ⟨hrows, hnext, hpending, fun hx => ?_, fun hx => ?_, fun hx => ?_⟩
  · cases hx
    simp only [execute] at h
    split at h
    · cases h
    · cases h
      exact ⟨rfl, Nat.lt_succ_self _⟩
  · cases hx
    exact found_of_execute h
  · cases hx
    exact refused_of_execute h

/-! ### What a recording did before -/

/-- The operation is an `INSERT`. -/
def IsInsert : Op → Prop
  | .insert _ _ => True
  | _ => False

theorem uses_onRecord (d : Deps) (a : SignedApproval) (approverId : ApproverId) (tx : Nat)
    (prevId : String) : (onRecord d a approverId tx prevId).run.Uses fun op => ¬ IsInsert op := by
  unfold onRecord
  split
  · trivial
  · refine .run_bind (.lift ⟨not_false, fun _ => trivial⟩) fun _ => ?_
    split <;> trivial

theorem settles_recordApproval (d : Deps) (a : SignedApproval) (approverId : ApproverId) :
    (recordApproval d a approverId).Settles IsInsert fun op => ¬ IsInsert op := by
  refine .run_bind (.orThrow ⟨not_false, fun _ => trivial⟩) fun tx => ?_
  refine .run_bind (.orThrow ⟨not_false, fun _ => trivial⟩) fun existing => ?_
  cases existing with
  | some prevId => exact .of_uses (uses_onRecord d a approverId tx prevId) fun _ h => h
  | none =>
    refine .run_bind (.lift ⟨not_false, fun _ => trivial⟩) fun now => fun r => ?_
    cases r with
    | error text => exact ⟨fun _ => trivial, trivial⟩
    | ok _ =>
      -- all that is left is to commit
      have hcommit := (.orThrow ⟨not_false, fun _ => trivial⟩ :
        (Prog.orThrow (fun e => StoreError.io ("commit approval: " ++ e))
          (commit tx)).run.Uses fun op => ¬ IsInsert op)
      have hrest := hcommit.run_bind (f := fun _ => pure RecordOutcome.inserted) fun _ => trivial
      exact ⟨fun _ => hrest, .of_uses hrest fun _ h => h⟩

theorem begun_of_insert {role : ApprovalStore.Role} (hfits : (postgresStore d).Fits role tr)
    (hmem : ⟨.insert tx row, r⟩ ∈ tr) : ⟨.begin, .ok tx⟩ ∈ tr := by
  obtain ⟨a, approverId, q, -, hq⟩ := hfits.recording hmem fun _ h => by cases h
  have hbegins : begin.Uses fun op => ¬ IsInsert op := ⟨not_false, fun _ => trivial⟩
  obtain ⟨tr₁, rest, tx', rfl, hbegin, hrest, hmem⟩ :=
    hq.past_run_bind hbegins.orThrow hmem (not_not.2 trivial)
  have hselects : (selectExisting tx' a.requestId.toString approverId.toString).Uses
    fun op => ¬ IsInsert op := ⟨not_false, fun _ => trivial⟩
  obtain ⟨tr₂, rest', existing, rfl, -, hafter, hmem⟩ :=
    hrest.past_run_bind hselects.orThrow hmem (not_not.2 trivial)
  suffices htx : tx = tx' by
    rw [hbegin.ok_of_orThrow.of_perform, htx]
    exact List.mem_cons_self
  have huses : (recordAfter d a approverId tx' existing).run.Uses fun
      | .insert tx _ => tx = tx'
      | _ => True := by
    cases existing with
    | some prevId =>
      refine (uses_onRecord d a approverId tx' prevId).mono fun op hop => ?_
      cases op with
      | insert => exact absurd trivial hop
      | _ => trivial
    | none =>
      refine .run_bind (.lift ⟨trivial, fun _ => trivial⟩) fun now => ?_
      refine .run_bind (.orThrow ⟨rfl, fun _ => trivial⟩) fun _ => ?_
      exact .run_bind (.orThrow ⟨trivial, fun _ => trivial⟩) fun _ => trivial
  exact huses.allowed_of_mem hafter hmem

theorem not_isInsert_of_mem {role : ApprovalStore.Role} {y : Prog.Event Op Res}
    (hfits : (postgresStore d).Fits role (tr ++ [x])) (hx : IsInsert x.1) (hy : y ∈ tr) :
    ¬ IsInsert y.1 := by
  intro hinsert
  obtain ⟨a, approverId, q, -, hq⟩ := hfits.recording (mem_concat_iff.2 (.inr rfl)) fun _ h => by
    rw [h] at hx
    exact hx
  obtain ⟨front, back, rfl⟩ := List.append_of_mem hy
  rw [List.append_assoc, List.cons_append] at hq
  exact (settles_recordApproval d a approverId).allowed_of_after hq hinsert
    (mem_concat_iff.2 (.inr rfl)) hx

/-! ### What the answers say about the table -/

/-- What the table shows of the log. -/
structure Shows (log : Pool.Log Op Res) (t : Table Row) : Prop where
  /-- transactions are numbered -/
  begun : ∀ {i tx}, (i, ⟨.begin, .ok tx⟩) ∈ log → tx < t.next
  once : ∀ {i j tx}, (i, ⟨.begin, .ok tx⟩) ∈ log → (j, ⟨.begin, .ok tx⟩) ∈ log → i = j
  pending : ∀ {tx row}, (tx, row) ∈ t.pending → ∃ i r, (i, ⟨.insert tx row, r⟩) ∈ log
  /-- the key was taken -/
  found : ∀ {i tx requestId approverId prevId},
    (i, ⟨.selectExisting tx requestId approverId, .ok (some prevId)⟩) ∈ log →
      ∃ row ∈ t.rows, row.requestId = requestId ∧ row.approverId = approverId ∧
        row.approvalId = prevId
  /-- the key was taken by another approval -/
  refused : ∀ {i tx row text}, (i, ⟨.insert tx row, .error text⟩) ∈ log → ReadsDuplicate text →
    ∃ row' ∈ t.rows, row'.requestId = row.requestId ∧ row'.approverId = row.approverId ∧
      row'.approvalId ≠ row.approvalId

theorem Shows.empty : Shows [] Table.empty where
  begun h := absurd h List.not_mem_nil
  once h := absurd h List.not_mem_nil
  pending h := absurd h List.not_mem_nil
  found h := absurd h List.not_mem_nil
  refused h := absurd h List.not_mem_nil

theorem Shows.abort (h : Shows log t) (gone : List Nat) : Shows log (t.abort gone) where
  begun := h.begun
  once := h.once
  pending hmem := h.pending (List.mem_of_mem_filter hmem)
  found := h.found
  refused := h.refused

theorem Shows.own_eq_nil (h : Shows log t) {i : Nat}
    (hfits : ∀ j, (postgresStore d).Fits (role j)
      (Pool.trace (log ++ [(i, ⟨.insert tx row, r⟩)]) j)) : t.own tx = [] := by
  refine List.eq_nil_iff_forall_not_mem.2 fun row' hrow' => ?_
  obtain ⟨⟨tx', _⟩, hown, rfl⟩ := List.mem_map.1 hrow'
  obtain ⟨hpending, htx⟩ := List.mem_filter.1 hown
  obtain rfl : tx' = tx := of_decide_eq_true htx
  obtain ⟨j, r', hj⟩ := h.pending hpending
  -- only the task that began a transaction inserts in it
  have hother := begun_of_insert (ApprovalStore.fits_of_concat hfits j) (Pool.mem_trace hj)
  have hi := ApprovalStore.fits_last hfits
  have hself := begun_of_insert hi (List.mem_append_right _ (List.mem_singleton_self _))
  have hself : ⟨.begin, .ok tx'⟩ ∈ Pool.trace log i := by
    rcases mem_concat_iff.1 hself with hself | hself
    · exact hself
    · cases hself
  obtain rfl := h.once (Pool.mem_of_mem_trace hother) (Pool.mem_of_mem_trace hself)
  exact not_isInsert_of_mem hi trivial (Pool.mem_trace hj) trivial

theorem Shows.concat (h : Shows log t) {a : Ans} {i : Nat} (heffect : Effect t a x t')
    (hclean : Clean t x.1 a)
    (hfits : ∀ j, (postgresStore d).Fits (role j) (Pool.trace (log ++ [(i, x)]) j)) :
    Shows (log ++ [(i, x)]) t' := by
  refine ⟨fun {j tx} hj => ?_, fun {j k tx} hj hk => ?_, fun {tx row} hrow => ?_,
    fun {j tx requestId approverId prevId} hj => ?_, fun {j tx row text} hj htext => ?_⟩
  · rcases mem_concat_iff.1 hj with hj | hj
    · exact (h.begun hj).trans_le heffect.next
    · cases hj
      exact (heffect.begun rfl).2
  · rcases mem_concat_iff.1 hj with hj' | hj' <;> rcases mem_concat_iff.1 hk with hk' | hk'
    · exact h.once hj' hk'
    · cases hk'
      exact absurd (heffect.begun rfl).1 (h.begun hj').ne
    · cases hj'
      exact absurd (heffect.begun rfl).1 (h.begun hk').ne
    · cases hj'
      cases hk'
      rfl
  · rcases heffect.pending hrow with hrow | ⟨r, rfl⟩
    · obtain ⟨j, r, hj⟩ := h.pending hrow
      exact ⟨j, r, List.mem_append_left _ hj⟩
    · exact ⟨i, r, List.mem_append_right _ (List.mem_singleton_self _)⟩
  · rcases mem_concat_iff.1 hj with hj | hj
    · obtain ⟨row, hrow, hkey⟩ := h.found hj
      exact ⟨row, heffect.rows hrow, hkey⟩
    · cases hj
      obtain ⟨row, hrow, hkey⟩ := heffect.found rfl
      exact ⟨row, heffect.rows hrow, hkey⟩
  · rcases mem_concat_iff.1 hj with hj | hj
    · obtain ⟨row', hrow', hkey⟩ := h.refused hj htext
      exact ⟨row', heffect.rows hrow', hkey⟩
    · cases hj
      rcases heffect.refused rfl with hfault | ⟨row', hrow', hclash⟩
      · exact absurd htext (hclean.2 text hfault)
      · rw [h.own_eq_nil hfits, List.append_nil] at hrow'
        have hid := hclean.1 row' hrow'
        -- the ids differ, so the constraint is the one on the key
        have hkey : row.requestId = row'.requestId ∧ row.approverId = row'.approverId := by
          by_contra hkey
          exact hclash (clash_eq_none_iff.2 ⟨hid.symm, hkey⟩)
        exact ⟨row', heffect.rows hrow', hkey.1.symm, hkey.2.symm, hid⟩

theorem Shows.of_replaysUnder {log : (postgresStore d).Log} {t : (postgresStore d).State}
    (h : (postgresStore d).ReplaysUnder Clean log t)
    (hfits : ∀ i, (postgresStore d).Fits (role i) (Pool.trace log i)) : Shows log t := by
  induction h with
  | nil => exact .empty
  | @concat log t t' op a r i _ hperform hclean ih =>
    have hshows := (ih (ApprovalStore.fits_of_concat hfits)).abort a.gone
    refine hshows.concat (.of_execute hperform) ?_ hfits
    cases op with
    | insert => exact hclean
    | _ => trivial

/-! ### Answers -/

theorem found_of_alreadyRecorded
    (h : (recordApproval d a approverId).After tr (.ret (.ok .alreadyRecorded))) :
    ∃ tx prevId, ⟨.selectExisting tx a.requestId.toString approverId.toString,
        .ok (some prevId)⟩ ∈ tr ∧
      (Ident.fromStr d.parseUlid prevId : Except String ApprovalId) = .ok a.approvalId := by
  obtain ⟨tr₁, rest, tx, rfl, -, h₁⟩ := h.ok_of_bind
  obtain ⟨tr₂, rest', existing, rfl, hselect, h₂⟩ := h₁.ok_of_bind
  obtain rfl := hselect.ok_of_orThrow.of_perform
  match existing, h₂ with
  | some prevId, h₂ =>
    refine ⟨tx, prevId, by simp, ?_⟩
    rw [recordAfter, onRecord] at h₂
    split at h₂
    · exact (h₂.false_of_error).elim
    · next prev hprev =>
      obtain ⟨_, _, _, -, -, h₃⟩ := h₂.ok_of_bind
      split at h₃
      · next heq => rw [hprev, heq]
      · exact (h₃.false_of_error).elim
  | none, h₂ =>
    obtain ⟨_, _, now, -, -, h₃⟩ := h₂.ok_of_bind
    obtain ⟨_, _, _, -, -, h₄⟩ := h₃.ok_of_bind
    obtain ⟨_, _, _, -, -, h₅⟩ := h₄.ok_of_bind
    cases h₅.of_ret.2

theorem refused_of_duplicateApproval {x : ApproverId}
    (h : (recordApproval d a approverId).After tr (.ret (.error (.duplicateApproval x requestId))))
    :
    (∃ tx prevId prev, ⟨.selectExisting tx a.requestId.toString approverId.toString,
        .ok (some prevId)⟩ ∈ tr ∧
      (Ident.fromStr d.parseUlid prevId : Except String ApprovalId) = .ok prev ∧
      prev ≠ a.approvalId) ∨
    ∃ tx now text, ⟨.insert tx (approvalRow d a approverId now), .error text⟩ ∈ tr ∧
      ReadsDuplicate text := by
  rcases h.error_of_bind with hbegin | ⟨tr₁, rest, tx, rfl, -, h₁⟩
  · obtain ⟨e, he, -⟩ := hbegin.error_of_orThrow
    cases he
  rcases h₁.error_of_bind with hselect | ⟨tr₂, rest', existing, rfl, hselect, h₂⟩
  · obtain ⟨e, he, -⟩ := hselect.error_of_orThrow
    cases he
  obtain rfl := hselect.ok_of_orThrow.of_perform
  match existing, h₂ with
  | some prevId, h₂ =>
    rw [recordAfter, onRecord] at h₂
    split at h₂
    · cases h₂.of_ret.2
    · next prev hprev =>
      obtain ⟨_, _, -, h₃⟩ := h₂.result_of_perform
      split at h₃
      · cases h₃.of_ret.2
      · next hne => exact .inl ⟨tx, prevId, prev, by simp, hprev, hne⟩
  | none, h₂ =>
    obtain ⟨now, rest', rfl, h₃⟩ := h₂.result_of_perform
    rcases h₃.error_of_bind with hinsert | ⟨_, _, _, -, -, h₄⟩
    · obtain ⟨text, htext, hinsert⟩ := hinsert.error_of_orThrow
      obtain rfl := hinsert.of_perform
      refine .inr ⟨tx, now, text, by simp, approverId, a.requestId, ?_⟩
      unfold insertError at htext ⊢
      split_ifs at htext with hreads
      rw [if_pos hreads]
    rcases h₄.error_of_bind with hcommit | ⟨_, _, _, -, -, h₅⟩
    · obtain ⟨e, he, -⟩ := hcommit.error_of_orThrow
      cases he
    · cases h₅.of_ret.2

theorem recorded_of_mem {log : (postgresStore d).Log} (hinv : Inv log t)
    (hfits : ∀ i, (postgresStore d).Fits (role i) (Pool.trace log i)) (hrow : row ∈ t.rows)
    (hreq : row.requestId = requestId.toString) (happ : row.approverId = approverId.toString) :
    ∃ j b, role j = some (b, approverId) ∧ b.requestId = requestId ∧
      row.approvalId = b.approvalId.toString ∧
      recorded d t (requestId, approverId) = some b := by
  obtain ⟨j, tx, r, hj⟩ := hinv.inserted (Table.mem_all_of_mem_rows hrow)
  obtain ⟨b, x, now, hrole, rfl⟩ := role_of_insert (hfits j) (Pool.mem_trace hj)
  have hsome : (t.rows.find? fun row =>
      row.requestId = requestId.toString ∧ row.approverId = approverId.toString).isSome :=
    List.find?_isSome.2 ⟨_, hrow, decide_eq_true ⟨hreq, happ⟩⟩
  obtain ⟨row', hfind⟩ := Option.isSome_iff_exists.1 hsome
  obtain rfl := Ident.toString_inj hreq
  obtain rfl := Ident.toString_inj happ
  refine ⟨j, b, hrole, rfl, rfl, ?_⟩
  have hkey := List.find?_some hfind
  simp only [decide_eq_true_eq] at hkey
  -- no two committed rows have one key
  obtain rfl : approvalRow d b x now = row' := by
    have hsymm : Std.Symm fun x y => clash x y = none := ⟨fun _ _ => clash_symm⟩
    by_contra hne
    have hclash := (List.pairwise_append.1 hinv.unique).1.forall hrow
      (List.mem_of_find?_eq_some hfind) hne
    exact (clash_eq_none_iff.1 hclash).2 ⟨hkey.1.symm, hkey.2.symm⟩
  rw [recorded, hfind, Option.bind_some, decodeRow_approvalRow]
  rfl

theorem explained {log : (postgresStore d).Log}
    {t : (postgresStore d).State} (hlog : (postgresStore d).ReplaysUnder Clean log t)
    (hfits : ∀ i, (postgresStore d).Fits (role i) (Pool.trace log i)) (hnames : NamesOne role)
    {i : Nat} {o : Except StoreError RecordOutcome}
    (h : (postgresStore d).Answered role log i a approverId o) :
    Explained (recorded d t (a.requestId, approverId)) a o := by
  obtain ⟨hrole, hafter⟩ := h
  have hshows := Shows.of_replaysUnder hlog hfits
  have hinv := Inv.of_replays hlog.replays
  refine ⟨?_, fun x requestId ho => ?_⟩
  · rintro rfl
    obtain ⟨tx, prevId, hselect, hparse⟩ := found_of_alreadyRecorded hafter
    obtain ⟨row, hrow, hreq, happ, rfl⟩ := hshows.found (Pool.mem_of_mem_trace hselect)
    obtain ⟨j, b, hrole', hrequest, hid, hrecorded⟩ := recorded_of_mem hinv hfits hrow hreq happ
    rw [hid, Ident.fromStr_toString d.parse_text] at hparse
    rw [hrecorded, hnames hrole' hrole hrequest (Except.ok.inj hparse)]
  · subst ho
    rcases refused_of_duplicateApproval hafter with
      ⟨tx, prevId, prev, hselect, hparse, hne⟩ | ⟨tx, now, text, hinsert, htext⟩
    · obtain ⟨row, hrow, hreq, happ, rfl⟩ := hshows.found (Pool.mem_of_mem_trace hselect)
      obtain ⟨j, b, -, -, hid, hrecorded⟩ := recorded_of_mem hinv hfits hrow hreq happ
      rw [hid, Ident.fromStr_toString d.parse_text] at hparse
      refine ⟨b, hrecorded, ?_⟩
      rintro rfl
      exact hne (Except.ok.inj hparse).symm
    · obtain ⟨row, hrow, hreq, happ, hne⟩ :=
        hshows.refused (Pool.mem_of_mem_trace hinsert) htext
      obtain ⟨j, b, -, -, hid, hrecorded⟩ := recorded_of_mem hinv hfits hrow hreq happ
      refine ⟨b, hrecorded, ?_⟩
      rintro rfl
      exact hne hid

end PostgresApprovalStore

/-- **Where an approver uses an approval id for one approval of a request, and in the table every
statement is clean, every answer means what it says about the record, from the moment it is given
on, however the lock sections or the statements of the calls interleave.** -/
theorem outcomes_explained (d : PostgresApprovalStore.Deps) (role : Nat → ApprovalStore.Role)
    (hnames : NamesOne role) :
    (∀ log s, memoryStore.Replays log s →
      (∀ i, memoryStore.Fits (role i) (Pool.trace log i)) →
      ∀ i a approverId o, memoryStore.Answered role log i a approverId o →
        Explained (MemoryApprovalStore.recorded s (a.requestId, approverId)) a o) ∧
    (∀ log t, (postgresStore d).ReplaysUnder PostgresApprovalStore.Clean log t →
      (∀ i, (postgresStore d).Fits (role i) (Pool.trace log i)) →
      ∀ i a approverId o, (postgresStore d).Answered role log i a approverId o →
        Explained (PostgresApprovalStore.recorded d t (a.requestId, approverId)) a o) :=
  ⟨fun _ _ hlog hfits _ _ _ _ h => MemoryApprovalStore.explained hlog hfits hnames h,
    fun _ _ hlog hfits _ _ _ _ h => PostgresApprovalStore.explained hlog hfits hnames h⟩

/-! ## Runs -/

namespace SampleStore

open PostgresApprovalStore

def again (decision : ApprovalDecision) : SignedApproval := { approval with decision }

/-- Two tasks record, with a decision each. -/
def roles (first second : ApprovalDecision) : Nat → ApprovalStore.Role
  | 0 => some (again first, approverId)
  | 1 => some (again second, approverId)
  | _ => none

theorem namesOne_roles (decision : ApprovalDecision) : NamesOne (roles decision decision) := by
  have hrole {i : Nat} {a : SignedApproval} {x : ApproverId}
      (h : roles decision decision i = some (a, x)) : a = again decision := by
    unfold roles at h
    split at h
    · cases h
      rfl
    · cases h
      rfl
    · cases h
  intro i j a b x hi hj _ _
  exact (hrole hi).trans (hrole hj).symm

/-- The first task takes the key, the second one finds it taken. -/
def memoryLog (first second : ApprovalDecision) :
    memoryStore.Log :=
  [(0, ⟨.insert (again first) approverId, none⟩),
    (0, ⟨.index approval.requestId approverId approval.approvalId, ()⟩),
    (1, ⟨.insert (again second) approverId, some approval.approvalId⟩)]

section

variable (first second : ApprovalDecision)

theorem memoryLog_replays : ∃ s, memoryStore.Replays (memoryLog first second) s ∧
    MemoryApprovalStore.recorded s (approval.requestId, approverId) = some (again first) :=
  ⟨_, .concat (a := ()) 1 (.concat (a := ()) 0 (.concat (a := ()) 0 .nil rfl) rfl) rfl, rfl⟩

theorem memoryLog_fits :
    (i : Nat) → memoryStore.Fits (roles first second i) (Pool.trace (memoryLog first second) i)
  | 0 => ⟨_, .cons _ _ _ (.cons _ _ _ (.nil _))⟩
  | 1 => ⟨_, .cons _ _ _ (.nil _)⟩
  | _ + 2 => fun _ hx => absurd hx List.not_mem_nil

theorem memoryLog_answered : memoryStore.Answered (roles first second) (memoryLog first second) 1
    (again second) approverId (.ok .alreadyRecorded) :=
  ⟨rfl, .cons _ _ _ (.nil _)⟩

end

/-- Nothing goes wrong. -/
def answer : Ans := ⟨[], none, false, 0⟩

/-- The approval as a row. -/
def row : Row := approvalRow deps approval approverId 0

/-- One task records, and the other one finds its row. -/
def tableLog : Pool.Log Op Res :=
  [(0, ⟨.begin, .ok 0⟩),
    (0, ⟨.selectExisting 0 approval.requestId.toString approverId.toString, .ok none⟩),
    (0, ⟨.now, answer.now⟩), (0, ⟨.insert 0 row, .ok ()⟩), (0, ⟨.commit 0, .ok ()⟩),
    (1, ⟨.begin, .ok 1⟩),
    (1, ⟨.selectExisting 1 approval.requestId.toString approverId.toString,
      .ok (some approval.approvalId.toString)⟩),
    (1, ⟨.rollback 1, ()⟩)]

/-- Both tasks look before one of them commits. -/
def raceLog : Pool.Log Op Res :=
  [(0, ⟨.begin, .ok 0⟩),
    (0, ⟨.selectExisting 0 approval.requestId.toString approverId.toString, .ok none⟩),
    (1, ⟨.begin, .ok 1⟩),
    (1, ⟨.selectExisting 1 approval.requestId.toString approverId.toString, .ok none⟩),
    (0, ⟨.now, answer.now⟩), (0, ⟨.insert 0 row, .ok ()⟩), (0, ⟨.commit 0, .ok ()⟩),
    (1, ⟨.now, answer.now⟩), (1, ⟨.insert 1 row, .error (duplicateKeyText "approvals_pkey")⟩)]

theorem find_row : ([row].find? fun r => r.requestId = approval.requestId.toString ∧
    r.approverId = approverId.toString) = some row :=
  List.find?_cons_of_pos (decide_eq_true ⟨rfl, rfl⟩)

theorem perform_selectExisting : (postgresStore deps).perform ⟨[row], [], [1], 2⟩
    (.selectExisting 1 approval.requestId.toString approverId.toString) answer =
      some (.ok (some approval.approvalId.toString), ⟨[row], [], [1], 2⟩) := by
  have habort : (⟨[row], [], [1], 2⟩ : Table Row).abort [] = ⟨[row], [], [1], 2⟩ := rfl
  simp only [postgresStore, perform, execute, within, answer, habort, find_row, List.mem_singleton,
    if_true, Option.map_some]
  rfl

theorem perform_insert : (postgresStore deps).perform ⟨[row], [], [1], 2⟩ (.insert 1 row) answer =
    some (.error (duplicateKeyText "approvals_pkey"), ⟨[row], [], [], 2⟩) := by
  have hrefused : (⟨[row], [], [1], 2⟩ : Table Row).insert clash 1 row =
      .refused "approvals_pkey" := by
    simp [Table.insert, Table.own, clash]
  have habort : (⟨[row], [], [1], 2⟩ : Table Row).abort [] = ⟨[row], [], [1], 2⟩ := rfl
  simp only [postgresStore, perform, execute, within, answer, habort, hrefused,
    List.mem_singleton, if_true]
  rfl

theorem tableLog_replays : (postgresStore deps).ReplaysUnder Clean tableLog ⟨[row], [], [], 2⟩ := by
  have hinsert : (postgresStore deps).ReplaysUnder Clean (tableLog.take 4)
      ⟨[], [(0, row)], [0], 1⟩ :=
    .concat (a := answer) 0 (.concat 0 (.concat (a := answer) 0
      (.concat (a := answer) 0 .nil rfl trivial) rfl trivial) rfl trivial) rfl
      ⟨fun _ h => absurd h List.not_mem_nil, nofun⟩
  have hcommit : (postgresStore deps).ReplaysUnder Clean (tableLog.take 5) ⟨[row], [], [], 1⟩ :=
    .concat (a := answer) 0 hinsert rfl trivial
  have hbegin : (postgresStore deps).ReplaysUnder Clean (tableLog.take 6) ⟨[row], [], [1], 2⟩ :=
    .concat (a := answer) 1 hcommit rfl trivial
  have hfound : (postgresStore deps).ReplaysUnder Clean (tableLog.take 7) ⟨[row], [], [1], 2⟩ :=
    .concat 1 hbegin perform_selectExisting trivial
  exact .concat (a := answer) 1 hfound rfl trivial

theorem tableLog_fits :
    (i : Nat) → (postgresStore deps).Fits (roles .approve .approve i) (Pool.trace tableLog i)
  | 0 => ⟨_, .cons _ _ _ (.cons _ _ _ (.cons _ _ _ (.cons _ _ _ (.cons _ _ _ (.nil _)))))⟩
  | 1 => ⟨_, .cons _ _ _ (.cons _ _ _ (.cons _ _ _ (.nil _)))⟩
  | _ + 2 => fun _ hx => absurd hx List.not_mem_nil

theorem raceLog_replays : (postgresStore deps).Replays raceLog ⟨[row], [], [], 2⟩ := by
  have hlooked : (postgresStore deps).Replays (raceLog.take 4) ⟨[], [], [1, 0], 2⟩ :=
    .concat (a := answer) 1 (.concat (a := answer) 1 (.concat (a := answer) 0
      (.concat (a := answer) 0 .nil rfl) rfl) rfl) rfl
  have hcommit : (postgresStore deps).Replays (raceLog.take 8) ⟨[row], [], [1], 2⟩ :=
    .concat 1 (.concat (a := answer) 0 (.concat (a := answer) 0
      (.concat 0 hlooked rfl) rfl) rfl) rfl
  exact .concat 1 hcommit perform_insert

theorem raceLog_fits :
    (i : Nat) → (postgresStore deps).Fits (roles .approve .approve i) (Pool.trace raceLog i)
  | 0 => ⟨_, .cons _ _ _ (.cons _ _ _ (.cons _ _ _ (.cons _ _ _ (.cons _ _ _ (.nil _)))))⟩
  | 1 => ⟨_, .cons _ _ _ (.cons _ _ _ (.cons _ _ _ (.cons _ _ _ (.nil _))))⟩
  | _ + 2 => fun _ hx => absurd hx List.not_mem_nil

theorem tableLog_answered : (postgresStore deps).Answered (roles .approve .approve) tableLog 1
    approval approverId (.ok .alreadyRecorded) :=
  ⟨rfl, .cons _ _ _ (.cons _ _ _ (.cons _ _ _ (.nil _)))⟩

theorem raceLog_answered : (postgresStore deps).Answered (roles .approve .approve) raceLog 1
    approval approverId (.error (.duplicateApproval approverId approval.requestId)) := by
  have hafter : ((postgresStore deps).recordApproval approval approverId).After
      (Pool.trace raceLog 1) (.ret (.error (insertError approverId approval.requestId
        (duplicateKeyText "approvals_pkey")))) :=
    .cons _ _ _ (.cons _ _ _ (.cons _ _ _ (.cons _ _ _ (.nil _))))
  rw [insertError_duplicateKeyText] at hafter
  exact ⟨rfl, hafter⟩

end SampleStore

open SampleStore in
/-- An approval is submitted twice, one submission after the other. -/
theorem resubmission_explained :
    (∃ s, memoryStore.Replays (memoryLog .approve .approve) s ∧
      MemoryApprovalStore.recorded s (approval.requestId, approverId) = some approval) ∧
    PostgresApprovalStore.recorded deps ⟨[row], [], [], 2⟩ (approval.requestId, approverId) =
      some approval := by
  obtain ⟨hmemory, hpostgres⟩ :=
    outcomes_explained deps (roles .approve .approve) (namesOne_roles .approve)
  obtain ⟨s, hs, -⟩ := memoryLog_replays .approve .approve
  refine ⟨⟨s, hs, ?_⟩, ?_⟩
  · exact (hmemory _ s hs (memoryLog_fits .approve .approve) 1 _ _ _
      (memoryLog_answered .approve .approve)).alreadyRecorded rfl
  · exact (hpostgres _ _ tableLog_replays tableLog_fits 1 _ _ _ tableLog_answered).alreadyRecorded
      rfl

open SampleStore in
/-- An approval id is submitted again with the opposite decision, and the map acknowledges the
rejection though the approval is on record. -/
theorem changed_decision_acknowledged :
    ∃ s, memoryStore.Replays (memoryLog .approve .reject) s ∧
      (∀ i, memoryStore.Fits (roles .approve .reject i)
        (Pool.trace (memoryLog .approve .reject) i)) ∧
      memoryStore.Answered (roles .approve .reject) (memoryLog .approve .reject) 1 (again .reject)
        approverId (.ok .alreadyRecorded) ∧
      MemoryApprovalStore.recorded s (approval.requestId, approverId) = some approval ∧
      again .reject ≠ approval := by
  obtain ⟨s, hs, hrecorded⟩ := memoryLog_replays .approve .reject
  exact ⟨s, hs, memoryLog_fits .approve .reject, memoryLog_answered .approve .reject, hrecorded,
    fun heq => nomatch congrArg SignedApproval.decision heq⟩

open SampleStore in
/-- The same approval twice, at the same time. -/
theorem racing_resubmission_refused :
    (postgresStore deps).Replays raceLog ⟨[row], [], [], 2⟩ ∧
      (∀ i, (postgresStore deps).Fits (roles .approve .approve i) (Pool.trace raceLog i)) ∧
      (postgresStore deps).Answered (roles .approve .approve) raceLog 1 approval approverId
        (.error (.duplicateApproval approverId approval.requestId)) ∧
      PostgresApprovalStore.recorded deps ⟨[row], [], [], 2⟩ (approval.requestId, approverId) =
        some approval := by
  refine ⟨raceLog_replays, raceLog_fits, raceLog_answered, ?_⟩
  rw [PostgresApprovalStore.recorded, find_row, Option.bind_some, row,
    PostgresApprovalStore.decodeRow_approvalRow]
  rfl

end QfcServerWallet.Quorum
