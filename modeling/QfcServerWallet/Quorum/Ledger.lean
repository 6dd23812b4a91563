import QfcServerWallet.Lib.Session
import QfcServerWallet.Quorum.PostgresStore
import QfcServerWallet.Quorum.Wire
import Mathlib.Data.Multiset.Basic

/-!
# The approval stores as a ledger

What `MemoryApprovalStore` and `PostgresApprovalStore` (`qfc-quorum/src/store`) answer when their
calls are made one after another and no statement fails.

* A `Ledger` holds the approvals on record in the order of their recording, one for each request and
  approver.
* `Ledger.call primaryKey` answers a call. The two backends differ in one point: the table has a
  primary key on `approval_id`, so it also refuses an approval id that is on record for another
  request or approver. The map has no such constraint.
* A listing is compared as a multiset: the map lists in the order of recording, the table in the
  order of its clock.

Results: `memoryStore_sessions`, `postgresStore_sessions` and **`backends_agree_iff`**.
-/

namespace QfcServerWallet.Quorum

open Lib

/-! ## Ledgers -/

/-- The request and the approver of a record. -/
abbrev recordKey (x : ApproverId × SignedApproval) : RequestId × ApproverId := (x.2.requestId, x.1)

/-- What is on record. -/
structure Ledger where
  records : List (ApproverId × SignedApproval)
  /-- an approver has one record for a request -/
  once : (records.map recordKey).Nodup

namespace Ledger

/-- Nothing is on record. -/
def empty : Ledger := ⟨[], .nil⟩

/-- The approval on record under the key. -/
def find? (l : Ledger) (key : RequestId × ApproverId) : Option SignedApproval :=
  (l.records.find? fun x => recordKey x = key).map Prod.snd

/-- The approval id is on record. -/
def HasId (l : Ledger) (id : ApprovalId) : Prop := ∃ x ∈ l.records, x.2.approvalId = id

instance (l : Ledger) (id : ApprovalId) : Decidable (l.HasId id) :=
  inferInstanceAs (Decidable (∃ x ∈ l.records, x.2.approvalId = id))

theorem find?_eq_none_iff {l : Ledger} {key : RequestId × ApproverId} :
    l.find? key = none ↔ key ∉ l.records.map recordKey := by
  simp [find?]

/-- A record under a free key. -/
def add (l : Ledger) (x : ApproverId × SignedApproval) (h : l.find? (recordKey x) = none) :
    Ledger where
  records := l.records ++ [x]
  once := by
    rw [List.map_append, List.map_singleton, ← List.concat_eq_append]
    exact l.once.concat (find?_eq_none_iff.1 h)

theorem find?_eq_some_iff {l : Ledger} {key : RequestId × ApproverId} {a : SignedApproval} :
    l.find? key = some a ↔ (key.2, a) ∈ l.records ∧ a.requestId = key.1 := by
  constructor
  · intro h
    obtain ⟨⟨approverId, b⟩, hx, rfl⟩ := Option.map_eq_some_iff.1 h
    have hkey : recordKey (approverId, b) = key := by simpa using List.find?_some hx
    subst hkey
    exact ⟨List.mem_of_find?_eq_some hx, rfl⟩
  · rintro ⟨hmem, hreq⟩
    have hkey : recordKey (key.2, a) = key := Prod.ext hreq rfl
    obtain ⟨y, hy⟩ := Option.isSome_iff_exists.1
      (List.find?_isSome (p := fun x => decide (recordKey x = key)) |>.2 ⟨_, hmem, by simpa⟩)
    have hykey : recordKey y = key := by simpa using List.find?_some hy
    have hsame := List.inj_on_of_nodup_map l.once (List.mem_of_find?_eq_some hy) hmem
      (hykey.trans hkey.symm)
    rw [find?, hy, hsame]
    rfl

end Ledger

/-! ## Calls -/

/-- A call of a store. -/
inductive StoreCall where
  | record (a : SignedApproval) (approverId : ApproverId)
  | list (requestId : RequestId)

/-- What a call returns. -/
inductive StoreReply (L : Type) where
  | recorded (r : Except StoreError RecordOutcome)
  | listed (r : Except StoreError L)

/-- The reply with another listing. -/
def StoreReply.map {L L' : Type} (f : L → L') : StoreReply L → StoreReply L'
  | recorded r => .recorded r
  | listed r => .listed (r.map f)

/-- The approvals of a listing, without their order. -/
def StoreReply.unordered (r : StoreReply (List SignedApproval)) :
    StoreReply (Multiset SignedApproval) :=
  r.map Multiset.ofList

namespace Ledger

/-- `record_approval`, with or without a primary key on the approval id. -/
def record (primaryKey : Bool) (l : Ledger) (a : SignedApproval) (approverId : ApproverId) :
    Except StoreError RecordOutcome × Ledger :=
  if h : l.find? (a.requestId, approverId) = none then
    if primaryKey ∧ l.HasId a.approvalId then
      (.error (.duplicateApproval approverId a.requestId), l)
    else (.ok .inserted, l.add (approverId, a) h)
  else if (l.find? (a.requestId, approverId)).any (·.approvalId = a.approvalId) then
    (.ok .alreadyRecorded, l)
  else (.error (.duplicateApproval approverId a.requestId), l)

/-- What is on record for the request. -/
def list (l : Ledger) (requestId : RequestId) : List SignedApproval :=
  (l.records.filter fun x => x.2.requestId = requestId).map Prod.snd

/-- The answer to a call. -/
def call (primaryKey : Bool) (l : Ledger) :
    StoreCall → StoreReply (Multiset SignedApproval) × Ledger
  | .record a approverId =>
    (.recorded (l.record primaryKey a approverId).1, (l.record primaryKey a approverId).2)
  | .list requestId => (.listed (.ok (l.list requestId)), l)

section Record

variable {primaryKey : Bool} {l : Ledger} {a b : SignedApproval} {approverId : ApproverId}

theorem record_of_none (h : l.find? (a.requestId, approverId) = none) :
    l.record primaryKey a approverId =
      if primaryKey ∧ l.HasId a.approvalId then
        (.error (.duplicateApproval approverId a.requestId), l)
      else (.ok .inserted, l.add (approverId, a) h) := by
  rw [record, dif_pos h]

theorem record_of_some (h : l.find? (a.requestId, approverId) = some b) :
    l.record primaryKey a approverId =
      (if b.approvalId = a.approvalId then .ok .alreadyRecorded
        else .error (.duplicateApproval approverId a.requestId), l) := by
  have hne : l.find? (a.requestId, approverId) ≠ none := by simp [h]
  by_cases hid : b.approvalId = a.approvalId
  · simp [record, h, hid]
  · simp [record, h, hid]

end Record

theorem find?_add {l : Ledger} {x : ApproverId × SignedApproval}
    (h : l.find? (recordKey x) = none) (key : RequestId × ApproverId) :
    (l.add x h).find? key = if key = recordKey x then some x.2 else l.find? key := by
  rw [find?, add, List.find?_append, Option.map_or]
  change (l.find? key).or _ = _
  by_cases hkey : key = recordKey x
  · subst hkey
    simp [h]
  · have hne : ¬ recordKey x = key := fun heq => hkey heq.symm
    simp [hkey, hne]

end Ledger

namespace ApprovalStore

/-- A call as a program. -/
def call (S : ApprovalStore) : StoreCall → Prog S.Op S.Res (StoreReply (List SignedApproval))
  | .record a approverId => S.recordApproval a approverId >>= fun r => .ret (.recorded r)
  | .list requestId => S.listForRequest requestId >>= fun r => .ret (.listed r)

end ApprovalStore

/-! ## The map -/

namespace MemoryApprovalStore

/-- One lock section. -/
def step (s : State) (op : Op) (r : Res op) (s' : State) : Prop := perform s op () = some (r, s')

/-- Map and index hold the ledger. -/
structure Holds (s : State) (l : Ledger) : Prop where
  inner : ∀ key, s.inner key = (l.find? key).map fun a => (a.approvalId, a)
  byRequest : ∀ requestId, s.byRequest requestId =
    (l.records.filter fun x => x.2.requestId = requestId).map fun x => (x.1, x.2.approvalId)

variable {s s' : State} {l : Ledger}

theorem Holds.listed (h : Holds s l) (requestId : RequestId) :
    listed s requestId = l.list requestId := by
  have hlookup : ∀ x ∈ l.records.filter (fun x => x.2.requestId = requestId),
      (s.inner (requestId, x.1)).map Prod.snd = some x.2 := by
    intro x hx
    obtain ⟨hmem, hreq⟩ := List.mem_filter.1 hx
    have hfind : l.find? (requestId, x.1) = some x.2 :=
      Ledger.find?_eq_some_iff.2 ⟨hmem, by simpa using hreq⟩
    rw [h.inner, hfind]
    rfl
  rw [MemoryApprovalStore.listed, h.byRequest, List.filterMap_map, Ledger.list,
    ← List.filterMap_eq_map]
  exact List.filterMap_congr hlookup

theorem Holds.add (h : Holds s l) {a : SignedApproval} {approverId : ApproverId}
    (hfree : l.find? (a.requestId, approverId) = none) :
    Holds
      { inner := Function.update s.inner (a.requestId, approverId) (some (a.approvalId, a))
        byRequest := Function.update s.byRequest a.requestId
          (s.byRequest a.requestId ++ [(approverId, a.approvalId)]) }
      (l.add (approverId, a) hfree) where
  inner key := by
    rw [Ledger.find?_add]
    by_cases hkey : key = (a.requestId, approverId)
    · subst hkey
      simp [recordKey]
    · dsimp only
      rw [Function.update_of_ne hkey, if_neg hkey, h.inner]
  byRequest requestId := by
    rw [Ledger.add, List.filter_append, List.map_append, ← h.byRequest]
    by_cases hreq : requestId = a.requestId
    · subst hreq
      simp
    · have hne : ¬ a.requestId = requestId := fun heq => hreq heq.symm
      dsimp only
      rw [Function.update_of_ne hreq]
      simp [hne]

theorem Holds.ensures_record (h : Holds s l) (a : SignedApproval) (approverId : ApproverId) :
    (recordApproval a approverId).Ensures step s fun r s' =>
      r = (l.record false a approverId).1 ∧ Holds s' (l.record false a approverId).2 := by
  have hinner := h.inner (a.requestId, approverId)
  cases hfind : l.find? (a.requestId, approverId) with
  | some b =>
    rw [hfind] at hinner
    have hinsert (r : Option ApprovalId) (s₁ : State) :
        step s (.insert a approverId) r s₁ ↔ r = some b.approvalId ∧ s₁ = s := by
      simp only [step, perform, hinner, Option.map_some]
      constructor
      · intro hr
        cases hr
        exact ⟨rfl, rfl⟩
      · rintro ⟨rfl, rfl⟩
        rfl
    refine .act ⟨_, _, (hinsert _ _).2 ⟨rfl, rfl⟩⟩ fun r s₁ hr => ?_
    obtain ⟨rfl, rfl⟩ := (hinsert r s₁).1 hr
    rw [Ledger.record_of_some hfind]
    exact .ret ⟨rfl, h⟩
  | none =>
    rw [hfind] at hinner
    have hinsert (r : Option ApprovalId) (s₁ : State) :
        step s (.insert a approverId) r s₁ ↔ r = none ∧ s₁ =
          ⟨Function.update s.inner (a.requestId, approverId) (some (a.approvalId, a)),
            s.byRequest⟩ := by
      simp only [step, perform, hinner, Option.map_none]
      constructor
      · intro hr
        cases hr
        exact ⟨rfl, rfl⟩
      · rintro ⟨rfl, rfl⟩
        rfl
    refine .act ⟨_, _, (hinsert _ _).2 ⟨rfl, rfl⟩⟩ fun r s₁ hr => ?_
    obtain ⟨rfl, rfl⟩ := (hinsert r s₁).1 hr
    refine .act ⟨(), _, rfl⟩ fun _ s₂ hs₂ => ?_
    cases hs₂
    rw [Ledger.record_of_none hfind]
    exact .ret ⟨rfl, h.add hfind⟩

theorem Holds.ensures_call (h : Holds s l) (call : StoreCall) :
    (memoryStore.call call).Ensures step s fun o s' =>
      o.unordered = (l.call false call).1 ∧ Holds s' (l.call false call).2 := by
  cases call with
  | record a approverId =>
    refine (h.ensures_record a approverId).map ?_
    rintro r s' ⟨rfl, hs'⟩
    exact ⟨rfl, hs'⟩
  | list requestId =>
    refine .act ⟨MemoryApprovalStore.listed s requestId, s, rfl⟩ fun r s' hr => ?_
    cases hr
    exact .ret ⟨by rw [h.listed]; rfl, h⟩

end MemoryApprovalStore

/-! ## The table -/

namespace PostgresApprovalStore

/-- One statement that does not fail, while no transaction is lost. -/
def step (t : Table Row) (op : Op) (r : Res op) (t' : Table Row) : Prop :=
  ∃ applied now, perform t op ⟨[], none, applied, now⟩ = some (r, t')

section

variable {d : Deps} {t t' : Table Row} {l : Ledger} {tx : Nat} {approverId : ApproverId}
  {a : SignedApproval}

theorem step_iff {op : Op} {r : Res op} :
    step t op r t' ↔ ∃ applied now, execute t op ⟨[], none, applied, now⟩ = some (r, t') := by
  have habort : t.abort [] = t := by simp [Table.abort]
  simp only [step, perform, habort]

theorem ensures_perform {op : Op} {r₁ : Res op} {t₁ : Table Row}
    (h : ∀ applied now, execute t op ⟨[], none, applied, now⟩ = some (r₁, t₁)) :
    (Prog.perform op).Ensures step t fun r t' => r = r₁ ∧ t' = t₁ := by
  refine .act ⟨r₁, t₁, step_iff.2 ⟨false, 0, h _ _⟩⟩ fun r t' hstep => ?_
  obtain ⟨applied, now, hexec⟩ := step_iff.1 hstep
  cases (h applied now).symm.trans hexec
  exact .ret ⟨rfl, rfl⟩

theorem ensures_begin :
    begin.Ensures step t fun r t' => r = .ok t.next ∧ t' = t.begin.2 :=
  ensures_perform fun _ _ => rfl

theorem ensures_selectExisting (htx : tx ∈ t.active) (requestId approverId : String) :
    (selectExisting tx requestId approverId).Ensures step t fun r t' =>
      r = .ok ((t.rows.find? fun row =>
        row.requestId = requestId ∧ row.approverId = approverId).map Row.approvalId) ∧ t' = t :=
  ensures_perform fun _ _ => if_pos htx

theorem ensures_nowUnixMs : nowUnixMs.Ensures step t fun _ t' => t' = t := by
  refine .act ⟨(0 : Int64), t, step_iff.2 ⟨false, 0, rfl⟩⟩ fun r t' h => ?_
  obtain ⟨applied, now, h⟩ := step_iff.1 h
  cases h
  exact .ret rfl

theorem ensures_insert_done (htx : tx ∈ t.active) {row : Row} {t₁ : Table Row}
    (hinsert : t.insert clash tx row = .done t₁) :
    (insert tx row).Ensures step t fun r t' => r = .ok () ∧ t' = t₁ := by
  refine ensures_perform fun applied now => ?_
  simp only [execute, within, if_pos htx, hinsert]
  rfl

theorem ensures_insert_refused (htx : tx ∈ t.active) {row : Row} {constraint : String}
    (hinsert : t.insert clash tx row = .refused constraint) :
    (insert tx row).Ensures step t fun r t' =>
      r = .error (duplicateKeyText constraint) ∧ t' = t.abort [tx] := by
  refine ensures_perform fun applied now => ?_
  simp only [execute, within, if_pos htx, hinsert]
  rfl

theorem ensures_commit (htx : tx ∈ t.active) :
    (commit tx).Ensures step t fun r t' => r = .ok () ∧ t' = t.commit tx :=
  ensures_perform fun _ _ => if_pos htx

theorem ensures_rollback : (rollback tx).Ensures step t fun _ t' => t' = t.abort [tx] := by
  have h : (rollback tx).Ensures step t fun r t' => r = () ∧ t' = t.abort [tx] :=
    ensures_perform fun _ _ => rfl
  exact h.mono fun _ _ hr => hr.2

theorem toList_duplicateKeyText :
    "error returned from database: duplicate key value violates unique constraint \"".toList =
      "error returned from database: ".toList ++ "duplicate key".toList ++
        " value violates unique constraint \"".toList := by
  rw [← String.toList_append, ← String.toList_append]
  rfl

theorem insertError_duplicateKeyText (approverId : ApproverId) (requestId : RequestId)
    (constraint : String) :
    insertError approverId requestId (duplicateKeyText constraint) =
      .duplicateApproval approverId requestId := by
  have htext : "duplicate key".toList <:+: (duplicateKeyText constraint).toList := by
    unfold duplicateKeyText
    rw [String.toList_append, String.toList_append, toList_duplicateKeyText]
    exact (List.infix_append _ _ _).trans
      ((List.prefix_append _ _).trans (List.prefix_append _ _)).isInfix
  unfold insertError
  exact if_pos (.inr htext)

theorem toString_eq_iff {k : IdKind} {i j : Ident k} : i.toString = j.toString ↔ i = j :=
  ⟨Ident.toString_inj, congrArg Ident.toString⟩

theorem clash_approvalRow {a b : SignedApproval} {x y : ApproverId} {now now' : Int64} :
    clash (approvalRow d a x now) (approvalRow d b y now') = none ↔
      a.approvalId ≠ b.approvalId ∧ recordKey (x, a) ≠ recordKey (y, b) := by
  rw [clash_eq_none_iff]
  simp only [approvalRow, toString_eq_iff, recordKey, ne_eq, Prod.mk.injEq]

/-- The row of a record, with the time it was received. -/
def stampedRow (d : Deps) (x : (ApproverId × SignedApproval) × Int64) : Row :=
  approvalRow d x.1.2 x.1.1 x.2

/-- The committed rows are those of the ledger, and no transaction is open. -/
structure Holds (d : Deps) (t : Table Row) (l : Ledger) : Prop where
  rows : ∃ stamped : List ((ApproverId × SignedApproval) × Int64),
    t.rows = stamped.map (stampedRow d) ∧ l.records = stamped.map Prod.fst
  pending : t.pending = []
  active : t.active = []

theorem Holds.find? (h : Holds d t l) (requestId : RequestId) (approverId : ApproverId) :
    (t.rows.find? fun row => row.requestId = requestId.toString ∧
      row.approverId = approverId.toString).map Row.approvalId =
    (l.find? (requestId, approverId)).map fun a => a.approvalId.toString := by
  obtain ⟨stamped, hrows, hrecords⟩ := h.rows
  have hkey : (fun x : (ApproverId × SignedApproval) × Int64 =>
      decide ((stampedRow d x).requestId = requestId.toString ∧
        (stampedRow d x).approverId = approverId.toString)) =
      fun x => decide (recordKey x.1 = (requestId, approverId)) := by
    funext x
    simp only [stampedRow, approvalRow, toString_eq_iff, recordKey, Prod.mk.injEq]
  rw [hrows, Ledger.find?, hrecords, List.find?_map, List.find?_map, Option.map_map,
    Option.map_map, Option.map_map]
  simp only [Function.comp_def, hkey]
  rfl

theorem Holds.clash_iff (h : Holds d t l) (hfree : l.find? (a.requestId, approverId) = none)
    (now : Int64) :
    (∃ row ∈ t.rows, clash (approvalRow d a approverId now) row ≠ none) ↔
      l.HasId a.approvalId := by
  obtain ⟨stamped, hrows, hrecords⟩ := h.rows
  have hkeys := Ledger.find?_eq_none_iff.1 hfree
  rw [hrecords, List.map_map] at hkeys
  have hclash : ∀ x ∈ stamped, clash (approvalRow d a approverId now) (stampedRow d x) ≠ none ↔
      x.1.2.approvalId = a.approvalId := by
    intro x hx
    have hkey : recordKey (approverId, a) ≠ recordKey x.1 := fun heq =>
      hkeys (List.mem_map.2 ⟨x, hx, heq.symm⟩)
    rw [stampedRow, ne_eq, clash_approvalRow]
    simp only [hkey, ne_eq, not_false_eq_true, and_true, not_not, eq_comm]
  rw [hrows, Ledger.HasId, hrecords]
  constructor
  · rintro ⟨row, hrow, hne⟩
    obtain ⟨x, hx, rfl⟩ := List.mem_map.1 hrow
    exact ⟨x.1, List.mem_map_of_mem hx, (hclash x hx).1 hne⟩
  · rintro ⟨y, hy, hid⟩
    obtain ⟨x, hx, rfl⟩ := List.mem_map.1 hy
    exact ⟨stampedRow d x, List.mem_map_of_mem hx, (hclash x hx).2 hid⟩

theorem next_mem_active (t : Table Row) : t.next ∈ t.begin.2.active := by
  simp [Table.begin]

theorem Holds.abort (h : Holds d t l) : Holds d (t.begin.2.abort [t.next]) l where
  rows := h.rows
  pending := by simp [Table.begin, Table.abort, h.pending]
  active := by simp [Table.begin, Table.abort, h.active]

theorem Holds.commit (h : Holds d t l) (hfree : l.find? (a.requestId, approverId) = none)
    (now : Int64) :
    Holds d (({ t.begin.2 with pending := [(t.next, approvalRow d a approverId now)] } :
      Table Row).commit t.next) (l.add (approverId, a) hfree) where
  rows := by
    obtain ⟨stamped, hrows, hrecords⟩ := h.rows
    refine ⟨stamped ++ [((approverId, a), now)], ?_, ?_⟩
    · simp [Table.commit, Table.own, Table.begin, hrows, stampedRow]
    · simp [Ledger.add, hrecords]
  pending := by simp [Table.commit]
  active := by simp [Table.begin, Table.commit, h.active]

theorem Holds.insert_done (h : Holds d t l) (hfree : l.find? (a.requestId, approverId) = none)
    (hid : ¬ l.HasId a.approvalId) (now : Int64) :
    t.begin.2.insert clash t.next (approvalRow d a approverId now) =
      .done { t.begin.2 with pending := [(t.next, approvalRow d a approverId now)] } := by
  have hnone : t.rows.findSome? (clash (approvalRow d a approverId now)) = none :=
    List.findSome?_eq_none_iff.2 fun row hrow => by_contra fun hne =>
      hid ((h.clash_iff hfree now).1 ⟨row, hrow, hne⟩)
  simp [Table.insert, Table.begin, Table.own, h.pending, hnone]

theorem Holds.insert_refused (h : Holds d t l) (hfree : l.find? (a.requestId, approverId) = none)
    (hid : l.HasId a.approvalId) (now : Int64) :
    ∃ constraint, t.begin.2.insert clash t.next (approvalRow d a approverId now) =
      .refused constraint := by
  obtain ⟨row, hrow, hne⟩ := (h.clash_iff hfree now).2 hid
  have hsome : t.rows.findSome? (clash (approvalRow d a approverId now)) ≠ none := fun hnone =>
    hne (List.findSome?_eq_none_iff.1 hnone row hrow)
  obtain ⟨constraint, hc⟩ := Option.ne_none_iff_exists'.1 hsome
  exact ⟨constraint, by simp [Table.insert, Table.begin, Table.own, h.pending, hc]⟩

theorem Holds.ensures_onRecord (h : Holds d t l) {a b : SignedApproval}
    (hfind : l.find? (a.requestId, approverId) = some b) :
    (onRecord d a approverId t.next b.approvalId.toString).run.Ensures step t.begin.2 fun r t' =>
      r = (l.record true a approverId).1 ∧ Holds d t' (l.record true a approverId).2 := by
  rw [onRecord, Ident.fromStr_toString d.parse_text, Ledger.record_of_some hfind]
  refine .run_bind (.lift ensures_rollback) fun _ t₁ ht₁ => ?_
  subst ht₁
  by_cases hid : b.approvalId = a.approvalId
  · rw [if_pos hid, if_pos hid]
    exact .ret ⟨rfl, h.abort⟩
  · rw [if_neg hid, if_neg hid]
    exact .ret ⟨rfl, h.abort⟩

theorem Holds.ensures_insertApproval (h : Holds d t l)
    (hfree : l.find? (a.requestId, approverId) = none) :
    (insertApproval d a approverId t.next).run.Ensures step t.begin.2 fun r t' =>
      r = (l.record true a approverId).1 ∧ Holds d t' (l.record true a approverId).2 := by
  rw [Ledger.record_of_none hfree]
  refine .run_bind (.lift ensures_nowUnixMs) fun now t₁ ht₁ => ?_
  subst ht₁
  by_cases hid : l.HasId a.approvalId
  · obtain ⟨constraint, hrefused⟩ := h.insert_refused hfree hid now
    rw [if_pos ⟨rfl, hid⟩]
    refine .run_bind_error (.orThrow_error (ensures_insert_refused (next_mem_active t) hrefused)) ?_
    rw [insertError_duplicateKeyText]
    exact ⟨rfl, h.abort⟩
  · rw [if_neg fun hpk => hid hpk.2]
    have hdone := ensures_insert_done (next_mem_active t) (h.insert_done hfree hid now)
    refine .run_bind (.orThrow_ok hdone) fun _ t₁ ht₁ => ?_
    obtain ⟨-, rfl⟩ := ht₁
    refine .run_bind (.orThrow_ok (ensures_commit (next_mem_active t))) fun _ t₂ ht₂ => ?_
    obtain ⟨-, rfl⟩ := ht₂
    exact .ret ⟨rfl, h.commit hfree now⟩

theorem Holds.ensures_record (h : Holds d t l) (a : SignedApproval) (approverId : ApproverId) :
    (recordApproval d a approverId).Ensures step t fun r t' =>
      r = (l.record true a approverId).1 ∧ Holds d t' (l.record true a approverId).2 := by
  refine .run_bind (.orThrow_ok ensures_begin) fun tx t₁ ht₁ => ?_
  obtain ⟨rfl, rfl⟩ := ht₁
  refine .run_bind (.orThrow_ok (ensures_selectExisting (next_mem_active t) _ _))
    fun existing t₁ ht₁ => ?_
  obtain ⟨rfl, rfl⟩ := ht₁
  rw [show t.begin.2.rows = t.rows from rfl, h.find?]
  cases hfind : l.find? (a.requestId, approverId) with
  | some b => exact h.ensures_onRecord hfind
  | none => exact h.ensures_insertApproval hfind

theorem Holds.readList (h : Holds d t l) (requestId : RequestId) :
    ∃ approvals, readList d requestId (.ok (listed t.rows requestId.toString)) = .ok approvals ∧
      approvals.Perm (l.list requestId) := by
  obtain ⟨stamped, hrows, hrecords⟩ := h.rows
  have hfilter : t.rows.filter (fun row => row.requestId = requestId.toString) =
      (stamped.filter fun x => x.1.2.requestId = requestId).map (stampedRow d) := by
    rw [hrows, List.filter_map]
    refine congrArg _ (List.filter_congr fun x _ => ?_)
    simp only [Function.comp, stampedRow, approvalRow, toString_eq_iff]
  have hlist : l.list requestId =
      (stamped.filter fun x => x.1.2.requestId = requestId).map fun x => x.1.2 := by
    rw [Ledger.list, hrecords, List.filter_map, List.map_map]
    rfl
  have hread : List.Forall₂ (fun row a => decodeRow d requestId row = .ok a)
      (t.rows.filter fun row => row.requestId = requestId.toString) (l.list requestId) := by
    rw [hfilter, hlist, List.forall₂_map_left_iff, List.forall₂_map_right_iff]
    refine List.forall₂_same.2 fun x hx => ?_
    obtain rfl : x.1.2.requestId = requestId := by simpa using (List.mem_filter.1 hx).2
    exact decodeRow_approvalRow _ _ _
  obtain ⟨approvals, hall, hperm⟩ :=
    List.perm_comp_forall₂ (List.perm_insertionSort (fun r s : Row => r.key ≤ s.key) _) hread
  exact ⟨approvals, mapM_eq_ok_iff.2 hall, hperm⟩

theorem Holds.ensures_call (h : Holds d t l) (call : StoreCall) :
    ((postgresStore d).call call).Ensures step t fun o t' =>
      o.unordered = (l.call true call).1 ∧ Holds d t' (l.call true call).2 := by
  cases call with
  | record a approverId =>
    refine (h.ensures_record a approverId).map ?_
    rintro r t' ⟨rfl, ht'⟩
    exact ⟨rfl, ht'⟩
  | list requestId =>
    obtain ⟨approvals, hread, hperm⟩ := h.readList requestId
    refine .act ⟨.ok (listed t.rows requestId.toString), t, step_iff.2 ⟨false, 0, rfl⟩⟩
      fun r t' hr => ?_
    obtain ⟨applied, now, hexec⟩ := step_iff.1 hr
    cases hexec
    refine .ret ⟨?_, h⟩
    refine (congrArg (fun r => StoreReply.unordered (.listed r)) hread).trans ?_
    exact congrArg (fun m => StoreReply.listed (.ok m)) (Multiset.coe_eq_coe.2 hperm)

theorem Holds.empty (d : Deps) : Holds d .empty .empty := ⟨⟨[], rfl, rfl⟩, rfl, rfl⟩

end

end PostgresApprovalStore

theorem MemoryApprovalStore.Holds.empty : Holds memoryStore.empty .empty :=
  ⟨fun _ => rfl, fun _ => rfl⟩

/-! ## Where the backends agree -/

namespace Ledger

/-- The call does not record an approval id anew that is on record under another key. -/
def KeepsIds (l : Ledger) : StoreCall → Prop
  | .record a approverId =>
    l.find? (a.requestId, approverId) = none → ¬ l.HasId a.approvalId
  | .list _ => True

theorem call_eq_of_keepsIds {l : Ledger} {call : StoreCall} (h : l.KeepsIds call) :
    l.call true call = l.call false call := by
  cases call with
  | list requestId => rfl
  | record a approverId =>
    have hrecord : l.record true a approverId = l.record false a approverId := by
      cases hfind : l.find? (a.requestId, approverId) with
      | some b => rw [record_of_some hfind, record_of_some hfind]
      | none => simp [record_of_none hfind, h hfind]
    rw [call, call, hrecord]

theorem keepsIds_of_call_eq {l : Ledger} {call : StoreCall}
    (h : (l.call true call).1 = (l.call false call).1) : l.KeepsIds call := by
  cases call with
  | list requestId => trivial
  | record a approverId =>
    intro hfind hid
    rw [call, call, record_of_none hfind, record_of_none hfind, if_pos ⟨rfl, hid⟩,
      if_neg (by simp)] at h
    cases h

theorem replay_eq_iff {l : Ledger} {calls : List StoreCall} :
    replay (call true) l calls = replay (call false) l calls ↔
      Admits (call false) KeepsIds l calls := by
  induction calls generalizing l with
  | nil => exact iff_of_true rfl trivial
  | cons c calls ih =>
    rw [replay, replay, Admits, List.cons.injEq]
    constructor
    · rintro ⟨hc, hrest⟩
      have hkeeps := keepsIds_of_call_eq hc
      rw [call_eq_of_keepsIds hkeeps] at hrest
      exact ⟨hkeeps, ih.1 hrest⟩
    · rintro ⟨hkeeps, hrest⟩
      rw [call_eq_of_keepsIds hkeeps]
      exact ⟨rfl, ih.2 hrest⟩

end Ledger

/-- The map answers as the ledger. -/
theorem memoryStore_sessions (calls : List StoreCall) :
    (∃ os s, Session MemoryApprovalStore.step memoryStore.call memoryStore.empty calls os s) ∧
      ∀ os s, Session MemoryApprovalStore.step memoryStore.call memoryStore.empty calls os s →
        os.map StoreReply.unordered = replay (Ledger.call false) .empty calls := by
  have hcall {s : MemoryApprovalStore.State} {l : Ledger} (h : MemoryApprovalStore.Holds s l)
      (call : StoreCall) := h.ensures_call call
  exact ⟨Session.total hcall calls MemoryApprovalStore.Holds.empty,
    fun os s h => h.simulates hcall MemoryApprovalStore.Holds.empty⟩

/-- The table answers as the ledger with a primary key. -/
theorem postgresStore_sessions (d : PostgresApprovalStore.Deps) (calls : List StoreCall) :
    (∃ os t, Session PostgresApprovalStore.step (postgresStore d).call .empty calls os t) ∧
      ∀ os t, Session PostgresApprovalStore.step (postgresStore d).call .empty calls os t →
        os.map StoreReply.unordered = replay (Ledger.call true) .empty calls := by
  have hcall {t : Table PostgresApprovalStore.Row} {l : Ledger}
      (h : PostgresApprovalStore.Holds d t l) (call : StoreCall) := h.ensures_call call
  exact ⟨Session.total hcall calls (PostgresApprovalStore.Holds.empty d),
    fun os t h => h.simulates hcall (PostgresApprovalStore.Holds.empty d)⟩

/-- **A history of calls, made one after another on empty stores, is answered alike by both backends
exactly if it never records, under a free request and approver, an approval id that is on record
already. (Listings are compared without their order.)** -/
theorem backends_agree_iff (d : PostgresApprovalStore.Deps) (calls : List StoreCall) :
    (∃ os s, Session MemoryApprovalStore.step memoryStore.call memoryStore.empty calls os s) ∧
    (∃ os t, Session PostgresApprovalStore.step (postgresStore d).call .empty calls os t) ∧
    ∀ os s os' t, Session MemoryApprovalStore.step memoryStore.call memoryStore.empty calls os s →
      Session PostgresApprovalStore.step (postgresStore d).call .empty calls os' t →
      (os.map StoreReply.unordered = os'.map StoreReply.unordered ↔
        Admits (Ledger.call false) Ledger.KeepsIds .empty calls) := by
  obtain ⟨hreturns, hmemory⟩ := memoryStore_sessions calls
  obtain ⟨hreturns', hpostgres⟩ := postgresStore_sessions d calls
  refine ⟨hreturns, hreturns', fun os s os' t h h' => ?_⟩
  rw [hmemory os s h, hpostgres os' t h', eq_comm]
  exact Ledger.replay_eq_iff

namespace SampleStore

/-- The dependencies, up to the order of an object's fields. -/
def deps : PostgresApprovalStore.Deps where
  parseUlid := ulidReference
  parse_text := ulidReference_roundTrips
  identityToValue := ApproverIdentity.serialize
  identityFromValue v := (ApproverIdentity.deserialize ulidReference v).mapError fun _ => "invalid"
  jsonb := id
  identity_column x := by
    rw [id, ApproverIdentity.deserialize_serialize ulidReference_roundTrips]
    rfl

/-- The approver. -/
def approverId : ApproverId := ⟨7⟩

/-- Their approval. -/
def approval : SignedApproval where
  approvalId := ⟨1⟩
  approver := .external "ops" [1, 2, 3] .ed25519
  requestId := ⟨2⟩
  messageHash := .ofNat 32 9
  decision := .approve
  timestampUnixMs := 1500
  signature := [4, 5]

/-- The same approval id, for another request. -/
def elsewhere : SignedApproval := { approval with requestId := ⟨3⟩ }

end SampleStore

open SampleStore in
/-- An approval is recorded, submitted again and listed. -/
theorem backends_agree_resubmitted :
    ∃ os s os' t,
      Session MemoryApprovalStore.step memoryStore.call memoryStore.empty
        [.record approval approverId, .record approval approverId, .list approval.requestId] os s ∧
      Session PostgresApprovalStore.step (postgresStore deps).call .empty
        [.record approval approverId, .record approval approverId, .list approval.requestId] os' t ∧
      os.map StoreReply.unordered = os'.map StoreReply.unordered := by
  obtain ⟨⟨os, s, hmemory⟩, ⟨os', t, hpostgres⟩, hiff⟩ := backends_agree_iff deps
    [.record approval approverId, .record approval approverId, .list approval.requestId]
  refine ⟨os, s, os', t, hmemory, hpostgres, (hiff os s os' t hmemory hpostgres).2 ?_⟩
  exact ⟨fun _ => by decide, fun hfree => absurd hfree (by decide +kernel), trivial, trivial⟩

open SampleStore in
/-- An approval id is submitted for a second request: the map records it, the table refuses it. -/
theorem reused_id_tells_apart :
    ∃ os s os' t,
      Session MemoryApprovalStore.step memoryStore.call memoryStore.empty
        [.record approval approverId, .record elsewhere approverId] os s ∧
      Session PostgresApprovalStore.step (postgresStore deps).call .empty
        [.record approval approverId, .record elsewhere approverId] os' t ∧
      os.map StoreReply.unordered = [.recorded (.ok .inserted), .recorded (.ok .inserted)] ∧
      os'.map StoreReply.unordered = [.recorded (.ok .inserted),
        .recorded (.error (.duplicateApproval approverId elsewhere.requestId))] := by
  obtain ⟨⟨os, s, hs⟩, hmemory⟩ :=
    memoryStore_sessions [.record approval approverId, .record elsewhere approverId]
  obtain ⟨⟨os', t, ht⟩, hpostgres⟩ :=
    postgresStore_sessions deps [.record approval approverId, .record elsewhere approverId]
  exact ⟨os, s, os', t, hs, ht, hmemory os s hs, hpostgres os' t ht⟩

end QfcServerWallet.Quorum
