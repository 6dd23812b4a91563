import QfcServerWallet.Lib.Table
import QfcServerWallet.Quorum.Store
import Mathlib.Data.List.Infix
import Mathlib.Data.List.Sort
import Mathlib.Data.Prod.Lex

/-!
# The Postgres approval store

`qfc-quorum/src/store/postgres.rs` and the table `approvals` of `migrations/0002_approvers.sql`.

* Each SQL statement is one operation, under READ COMMITTED: recordings of several tasks interleave
  between their `SELECT` and their `INSERT`, and only the unique constraints stop the second one.
* Every statement may fail, with any text. A transaction whose task is dropped or whose connection
  is lost is rolled back at some later point, and a commit that reports an error may have been
  applied. All of this the outside world decides.
* `approval_id` is the primary key: an approval id that is on record for another approver or another
  request is refused too, with a text that reads as a duplicate.
* What `serde` writes for an identity and reads back from a `JSONB` column, and the `ulid` parser,
  are parameters with their round trips.

Results: `decodeRow_approvalRow` and **`postgresStore_sound`**.
-/

namespace QfcServerWallet.Quorum

open Lib

namespace PostgresApprovalStore

/-- What the store takes from its dependencies. -/
structure Deps where
  parseUlid : UlidParser
  /-- an id's text parses to the id -/
  parse_text : parseUlid.RoundTrips
  identityToValue : ApproverIdentity → Json
  identityFromValue : Json → Except String ApproverIdentity
  /-- what a `JSONB` column returns for the value bound to it -/
  jsonb : Json → Json
  /-- an identity reads back from its column -/
  identity_column : ∀ x, identityFromValue (jsonb (identityToValue x)) = .ok x

/-! ## Rows -/

/-- A row of `approvals`; `created_at` is not read. -/
structure Row where
  approvalId : String
  requestId : String
  approverId : String
  approverKey : String
  approverIdentity : Json
  messageHash : Bytes
  decision : Int16
  signature : Bytes
  timestampUnixMs : Int64
  receivedAtUnixMs : Int64

/-- The unique constraint that two rows violate. -/
def clash (x y : Row) : Option String :=
  if x.approvalId = y.approvalId then some "approvals_pkey"
  else if x.requestId = y.requestId ∧ x.approverId = y.approverId then
    some "approvals_request_id_approver_id_key"
  else none

theorem clash_eq_none_iff {x y : Row} : clash x y = none ↔
    x.approvalId ≠ y.approvalId ∧ ¬ (x.requestId = y.requestId ∧ x.approverId = y.approverId) := by
  unfold clash
  by_cases hid : x.approvalId = y.approvalId
  · simp [hid]
  · by_cases hkey : x.requestId = y.requestId ∧ x.approverId = y.approverId
    · simp [hid, hkey]
    · simp only [hid, hkey, if_false, ne_eq, not_false_eq_true, and_self]

theorem clash_symm {x y : Row} (h : clash x y = none) : clash y x = none := by
  rw [clash_eq_none_iff] at h ⊢
  exact ⟨h.1.symm, fun hkey => h.2 ⟨hkey.1.symm, hkey.2.symm⟩⟩

/-- The column of a decision. -/
def decisionByte : ApprovalDecision → UInt8
  | .approve => 1
  | .reject => 0

/-- The decision of a column. -/
def decisionFromByte (b : UInt8) : Except StoreError ApprovalDecision :=
  if b = 1 then .ok .approve
  else if b = 0 then .ok .reject
  else .error (.io ("unknown decision byte: " ++ toString b.toNat))

/-- `u8::try_from(decision_i)` -/
def decisionColumn (i : Int16) : Except StoreError UInt8 :=
  if 0 ≤ i.toInt ∧ i.toInt ≤ 255 then .ok (UInt8.ofNat i.toInt.toNat)
  else .error (.io ("decision out of u8: " ++ toString i.toInt))

/-- The column `message_hash`. -/
def hashColumn (b : Bytes) : Except StoreError (FixedBytes 32) :=
  match FixedBytes.ofBytes? 32 b with
  | some h => .ok h
  | none => .error (.io ("message_hash must be 32 bytes, got " ++ toString b.length))

section

variable (d : Deps)

/-- The row an approval is stored as. -/
def approvalRow (a : SignedApproval) (approverId : ApproverId) (now : Int64) : Row where
  approvalId := a.approvalId.toString
  requestId := a.requestId.toString
  approverId := approverId.toString
  approverKey := a.approver.key
  approverIdentity := d.jsonb (d.identityToValue a.approver)
  messageHash := a.messageHash.bytes
  decision := Int16.ofNat (decisionByte a.decision).toNat
  signature := a.signature
  timestampUnixMs := a.timestampUnixMs
  receivedAtUnixMs := now

/-- One round of the loop of `list_for_request`. -/
def decodeRow (requestId : RequestId) (row : Row) : Except StoreError SignedApproval := do
  let approver ← (d.identityFromValue row.approverIdentity).mapError
    fun e => .io ("identity decode: " ++ e)
  let messageHash ← hashColumn row.messageHash
  let approvalId ← (Ident.fromStr d.parseUlid row.approvalId).mapError
    fun e => .io ("approval_id parse: " ++ e)
  let b ← decisionColumn row.decision
  let decision ← decisionFromByte b
  .ok { approvalId, approver, requestId, messageHash, decision,
        timestampUnixMs := row.timestampUnixMs, signature := row.signature }

/-! ## Statements -/

/-- The statements, and the clock. -/
inductive Op where
  | begin
  /-- `SELECT approval_id … WHERE request_id = $1 AND approver_id = $2` -/
  | selectExisting (tx : Nat) (requestId approverId : String)
  /-- `now_unix_ms()` -/
  | now
  | insert (tx : Nat) (row : Row)
  | commit (tx : Nat)
  | rollback (tx : Nat)
  /-- `SELECT … WHERE request_id = $1 ORDER BY received_at_unix_ms, approval_id` -/
  | list (requestId : String)

/-- An error is the text of `sqlx`. -/
def Res : Op → Type
  | .begin => Except String Nat
  | .selectExisting _ _ _ => Except String (Option String)
  | .now => Int64
  | .insert _ _ => Except String Unit
  | .commit _ => Except String Unit
  | .rollback _ => Unit
  | .list _ => Except String (List Row)

/-- What the outside world decides about one statement. -/
structure Ans where
  /-- transactions that were rolled back before it -/
  gone : List Nat
  /-- the text it fails with -/
  fault : Option String
  /-- a commit that reports a failure was applied -/
  applied : Bool
  now : Int64

/-- The columns of `ORDER BY received_at_unix_ms ASC, approval_id ASC`. -/
def Row.key (r : Row) : Int ×ₗ String := toLex (r.receivedAtUnixMs.toInt, r.approvalId)

/-- The rows of a request, as they are ordered. -/
def listed (rows : List Row) (requestId : String) : List Row :=
  (rows.filter fun row => row.requestId = requestId).insertionSort fun r s => r.key ≤ s.key

/-- What sqlx says of a unique constraint. -/
def duplicateKeyText (constraint : String) : String :=
  "error returned from database: duplicate key value violates unique constraint \""
    ++ constraint ++ "\""

/-- A statement of an open transaction, which fails together with its transaction. -/
def within {β : Type} (t : Table Row) (tx : Nat) (fault : Option String)
    (answer : Option (Except String β × Table Row)) : Option (Except String β × Table Row) :=
  match fault with
  | some text => some (.error text, t.abort [tx])
  | none => if tx ∈ t.active then answer else none

/-- One statement, once the lost transactions are rolled back. -/
def execute (t : Table Row) : (op : Op) → Ans → Option (Res op × Table Row)
  | .begin, a =>
    match a.fault with
    | some text => some (.error text, t)
    | none => some (.ok t.begin.1, t.begin.2)
  | .selectExisting tx requestId approverId, a =>
    within t tx a.fault (some (.ok ((t.rows.find? fun row =>
      row.requestId = requestId ∧ row.approverId = approverId).map Row.approvalId), t))
  | .now, a => some (a.now, t)
  | .insert tx row, a =>
    within t tx a.fault <|
      match t.insert clash tx row with
      | .done t' => some (.ok (), t')
      | .refused constraint => some (.error (duplicateKeyText constraint), t.abort [tx])
      | .waits => none
  | .commit tx, a =>
    match a.fault with
    | some text => some (.error text, if a.applied then t.commit tx else t.abort [tx])
    | none => if tx ∈ t.active then some (.ok (), t.commit tx) else none
  | .rollback tx, _ => some ((), t.abort [tx])
  | .list requestId, a =>
    match a.fault with
    | some text => some (.error text, t)
    | none => some (.ok (listed t.rows requestId), t)

/-- Executes a statement. -/
def perform (t : Table Row) (op : Op) (a : Ans) : Option (Res op × Table Row) :=
  execute (t.abort a.gone) op a

/-! ## Methods -/

/-- `BEGIN`. -/
def begin : Prog Op Res (Except String Nat) := Prog.perform Op.begin

/-- The approval on record. -/
def selectExisting (tx : Nat) (requestId approverId : String) :
    Prog Op Res (Except String (Option String)) :=
  Prog.perform (Op.selectExisting tx requestId approverId)

/-- The clock. -/
def nowUnixMs : Prog Op Res Int64 := Prog.perform Op.now

/-- `INSERT INTO approvals`. -/
def insert (tx : Nat) (row : Row) : Prog Op Res (Except String Unit) :=
  Prog.perform (Op.insert tx row)

/-- `COMMIT`. -/
def commit (tx : Nat) : Prog Op Res (Except String Unit) := Prog.perform (Op.commit tx)

/-- `ROLLBACK`. -/
def rollback (tx : Nat) : Prog Op Res Unit := Prog.perform (Op.rollback tx)

/-- How a failed `INSERT` is read. -/
def insertError (approverId : ApproverId) (requestId : RequestId) (text : String) : StoreError :=
  if "approvals_request_id_approver_id_key".toList <:+: text.toList ∨
      "duplicate key".toList <:+: text.toList then .duplicateApproval approverId requestId
  else .io ("insert approval: " ++ text)

/-- The approver has a row for the request. -/
def onRecord (a : SignedApproval) (approverId : ApproverId) (tx : Nat) (prevId : String) :
    ExceptT StoreError (Prog Op Res) RecordOutcome :=
  match (Ident.fromStr d.parseUlid prevId : Except String ApprovalId) with
  | .error e => throw (.io ("approval_id parse: " ++ e))
  | .ok prev => do
    liftM (rollback tx)
    if prev = a.approvalId then pure .alreadyRecorded
    else throw (.duplicateApproval approverId a.requestId)

/-- Inserts and commits. -/
def insertApproval (a : SignedApproval) (approverId : ApproverId) (tx : Nat) :
    ExceptT StoreError (Prog Op Res) RecordOutcome := do
  let now ← liftM nowUnixMs
  Prog.orThrow (insertError approverId a.requestId) (insert tx (approvalRow d a approverId now))
  Prog.orThrow (fun e => .io ("commit approval: " ++ e)) (commit tx)
  pure .inserted

/-- What follows the `SELECT`. -/
def recordAfter (a : SignedApproval) (approverId : ApproverId) (tx : Nat) :
    Option String → ExceptT StoreError (Prog Op Res) RecordOutcome
  | some prevId => onRecord d a approverId tx prevId
  | none => insertApproval d a approverId tx

/-- Looks for an approval on record first. -/
def recordApproval (a : SignedApproval) (approverId : ApproverId) :
    Prog Op Res (Except StoreError RecordOutcome) := ExceptT.run do
  let tx ← Prog.orThrow (fun e => .io ("begin tx: " ++ e)) begin
  let existing ← Prog.orThrow (fun e => .io ("check duplicate: " ++ e))
    (selectExisting tx a.requestId.toString approverId.toString)
  recordAfter d a approverId tx existing

/-- Reads the rows of a listing. -/
def readList (requestId : RequestId) :
    Except String (List Row) → Except StoreError (List SignedApproval)
  | .error e => .error (.io ("list approvals: " ++ e))
  | .ok rows => rows.mapM (decodeRow d requestId)

end

end PostgresApprovalStore

/-- `PostgresApprovalStore` -/
def postgresStore (d : PostgresApprovalStore.Deps) : ApprovalStore where
  Op := PostgresApprovalStore.Op
  Res := PostgresApprovalStore.Res
  State := Table PostgresApprovalStore.Row
  Ans := PostgresApprovalStore.Ans
  empty := .empty
  perform := PostgresApprovalStore.perform
  recordApproval := PostgresApprovalStore.recordApproval d
  listOp requestId := .list requestId.toString
  readList := PostgresApprovalStore.readList d

namespace PostgresApprovalStore

/-! ## Soundness -/

section Sound

variable {d : Deps} {log : Pool.Log Op Res} {t t' : Table Row}

theorem decisionColumn_decisionByte (x : ApprovalDecision) :
    (decisionColumn (Int16.ofNat (decisionByte x).toNat) >>= decisionFromByte) = .ok x := by
  cases x <;> rfl

/-- A stored approval reads back as it was. -/
theorem decodeRow_approvalRow (a : SignedApproval) (approverId : ApproverId) (now : Int64) :
    decodeRow d a.requestId (approvalRow d a approverId now) = .ok a := by
  have hdecision := decisionColumn_decisionByte a.decision
  simp only [decodeRow, approvalRow, d.identity_column, hashColumn, FixedBytes.ofBytes?_bytes,
    Ident.fromStr_toString d.parse_text, Except.mapError]
  obtain ⟨b, hb, hfrom⟩ := bind_eq_ok.1 hdecision
  simp only [hb, hfrom, bind, Except.bind]

/-- The statements of a recording insert no other approval. -/
def Records (d : Deps) (a : SignedApproval) (approverId : ApproverId) : Op → Prop
  | .insert _ row => ∃ now, row = approvalRow d a approverId now
  | _ => True

theorem uses_recordApproval (d : Deps) (a : SignedApproval) (approverId : ApproverId) :
    (recordApproval d a approverId).Uses (Records d a approverId) := by
  refine .run_bind (.orThrow ⟨trivial, fun _ => trivial⟩) fun tx => ?_
  refine .run_bind (.orThrow ⟨trivial, fun _ => trivial⟩) fun existing => ?_
  cases existing with
  | some prevId =>
    rw [recordAfter, onRecord]
    split
    · trivial
    · refine .run_bind (.lift ⟨trivial, fun _ => trivial⟩) fun _ => ?_
      split <;> trivial
  | none =>
    refine .run_bind (.lift ⟨trivial, fun _ => trivial⟩) fun now => ?_
    refine .run_bind (.orThrow ⟨⟨now, rfl⟩, fun _ => trivial⟩) fun _ => ?_
    exact .run_bind (.orThrow ⟨trivial, fun _ => trivial⟩) fun _ => trivial

theorem role_of_insert {role : ApprovalStore.Role} {tr : List (Prog.Event Op Res)} {tx : Nat}
    {row : Row} {r : Except String Unit} (hfits : (postgresStore d).Fits role tr)
    (hmem : ⟨.insert tx row, r⟩ ∈ tr) :
    ∃ a approverId now, role = some (a, approverId) ∧ row = approvalRow d a approverId now := by
  obtain ⟨a, approverId, q, rfl, hq⟩ := hfits.recording hmem fun _ h => by cases h
  obtain ⟨now, hrow⟩ := (uses_recordApproval d a approverId).allowed_of_mem hq hmem
  exact ⟨a, approverId, now, rfl, hrow⟩

theorem within_eq_some {β : Type} {tx : Nat} {fault : Option String}
    {answer : Option (Except String β × Table Row)} {x : Except String β × Table Row}
    (h : within t tx fault answer = some x) : x.2 = t.abort [tx] ∨ answer = some x := by
  unfold within at h
  split at h
  · cases h
    exact .inl rfl
  · split at h
    · exact .inr h
    · cases h

theorem execute_cases {op : Op} {a : Ans} {r : Res op} (h : execute t op a = some (r, t')) :
    t' = t ∨ t' = t.begin.2 ∨ (∃ gone, t' = t.abort gone) ∨ (∃ tx, t' = t.commit tx) ∨
      ∃ tx row, op = .insert tx row ∧ t.insert clash tx row = .done t' := by
  cases op with
  | begin =>
    simp only [execute] at h
    split at h
    · cases h
      exact .inl rfl
    · cases h
      exact .inr (.inl rfl)
  | selectExisting tx requestId approverId =>
    rcases within_eq_some h with h | h
    · exact .inr (.inr (.inl ⟨_, h⟩))
    · cases h
      exact .inl rfl
  | now =>
    cases h
    exact .inl rfl
  | insert tx row =>
    rcases within_eq_some h with h | h
    · exact .inr (.inr (.inl ⟨_, h⟩))
    · split at h
      · next hinsert =>
        cases h
        exact .inr (.inr (.inr (.inr ⟨tx, row, rfl, hinsert⟩)))
      · cases h
        exact .inr (.inr (.inl ⟨_, rfl⟩))
      · cases h
  | commit tx =>
    simp only [execute] at h
    split at h
    · cases h
      split
      · exact .inr (.inr (.inr (.inl ⟨tx, rfl⟩)))
      · exact .inr (.inr (.inl ⟨_, rfl⟩))
    · split at h
      · cases h
        exact .inr (.inr (.inr (.inl ⟨tx, rfl⟩)))
      · cases h
  | rollback tx =>
    cases h
    exact .inr (.inr (.inl ⟨_, rfl⟩))
  | list requestId =>
    simp only [execute] at h
    split at h
    · cases h
      exact .inl rfl
    · cases h
      exact .inl rfl

/-- No two rows clash, and every row was inserted. -/
structure Inv (log : Pool.Log Op Res) (t : Table Row) : Prop where
  unique : t.Unique clash
  inserted : ∀ {row}, row ∈ t.all → ∃ i tx r, (i, ⟨.insert tx row, r⟩) ∈ log

theorem Inv.empty : Inv [] Table.empty := ⟨.empty, fun h => absurd h List.not_mem_nil⟩

theorem Inv.of_subset (h : Inv log t) (hunique : t'.Unique clash) (hsubset : t'.all ⊆ t.all) :
    Inv log t' :=
  ⟨hunique, fun hrow => h.inserted (hsubset hrow)⟩

theorem Inv.abort (h : Inv log t) (gone : List Nat) : Inv log (t.abort gone) :=
  h.of_subset (h.unique.abort gone) (t.all_abort_sublist gone).subset

theorem Inv.mono (h : Inv log t) (x : Nat × Prog.Event Op Res) : Inv (log ++ [x]) t where
  unique := h.unique
  inserted hrow := by
    obtain ⟨i, tx, r, hi⟩ := h.inserted hrow
    exact ⟨i, tx, r, List.mem_append_left _ hi⟩

theorem Inv.execute (h : Inv log t) (i : Nat) {op : Op} {a : Ans} {r : Res op}
    (hexec : execute t op a = some (r, t')) : Inv (log ++ [(i, ⟨op, r⟩)]) t' := by
  obtain rfl | rfl | ⟨gone, rfl⟩ | ⟨tx, rfl⟩ | ⟨tx, row, rfl, hinsert⟩ := execute_cases hexec
  · exact h.mono _
  · exact ⟨h.unique, (h.mono _).inserted⟩
  · exact (h.mono _).abort gone
  · exact (h.mono _).of_subset (h.unique.commit clash_symm tx) (t.all_commit_perm tx).subset
  · refine ⟨h.unique.insert clash_symm hinsert, fun {row'} hrow => ?_⟩
    rw [(Table.all_insert hinsert).1, List.mem_append, List.mem_singleton] at hrow
    rcases hrow with hrow | rfl
    · exact (h.mono _).inserted hrow
    · exact ⟨i, tx, r, by simp⟩

theorem Inv.of_replays {log : (postgresStore d).Log}
    {t : (postgresStore d).State} (h : (postgresStore d).Replays log t) : Inv log t := by
  induction h with
  | nil => exact .empty
  | concat i _ hperform ih => exact (ih.abort _).execute i hperform

theorem mapM_decodeRow {requestId : RequestId} {rows : List Row}
    {P : ApproverId → SignedApproval → Prop}
    (h : ∀ row ∈ rows, row.requestId = requestId.toString ∧
      ∃ a approverId now, row = approvalRow d a approverId now ∧ P approverId a) :
    ∃ l : List (ApproverId × SignedApproval),
      rows.mapM (decodeRow d requestId) = .ok (l.map Prod.snd) ∧
      l.map (fun x => x.1.toString) = rows.map Row.approverId ∧
      ∀ x ∈ l, x.2.requestId = requestId ∧ P x.1 x.2 := by
  induction rows with
  | nil => exact ⟨[], rfl, rfl, by simp⟩
  | cons row rows ih =>
    obtain ⟨hreq, a, approverId, now, rfl, hP⟩ := h row List.mem_cons_self
    obtain ⟨l, hl, hids, hall⟩ := ih fun row' hrow' => h row' (List.mem_cons_of_mem _ hrow')
    obtain rfl := Ident.toString_inj hreq
    refine ⟨(approverId, a) :: l, ?_, by simp [hids, approvalRow], fun x hx => ?_⟩
    · rw [List.mapM_cons, decodeRow_approvalRow, hl]
      rfl
    · rcases List.mem_cons.1 hx with rfl | hx
      · exact ⟨rfl, hP⟩
      · exact hall x hx

end Sound

end PostgresApprovalStore

open PostgresApprovalStore in
/-- **However the statements of recordings and listings interleave, and whichever of them fail, the
Postgres store lists for a request one approval for each approver id, and only what a task was
recording for that request.** -/
theorem postgresStore_sound (d : PostgresApprovalStore.Deps) : (postgresStore d).Sound := by
  intro log t t' role requestId a r approvals hlog hfits hperform hread
  have hinv := (PostgresApprovalStore.Inv.of_replays hlog).abort a.gone
  obtain ⟨rows, rfl, hrows⟩ : ∃ rows : List Row, r = .ok rows ∧
      rows = listed (t.abort a.gone).rows requestId.toString := by
    simp only [postgresStore, perform, execute] at hperform
    split at hperform
    · cases hperform
      cases hread
    · cases hperform
      exact ⟨_, rfl, rfl⟩
  have hperm : rows.Perm ((t.abort a.gone).rows.filter
      fun row => row.requestId = requestId.toString) := by
    rw [hrows, listed]
    exact List.perm_insertionSort _ _
  have hmem : ∀ row ∈ rows, row ∈ (t.abort a.gone).rows ∧ row.requestId = requestId.toString := by
    intro row hrow
    simpa using hperm.subset hrow
  have hrecorded : ∀ row ∈ rows, row.requestId = requestId.toString ∧ ∃ a approverId now,
      row = approvalRow d a approverId now ∧
        ∃ i, role i = some (a, approverId) ∧ Pool.trace log i ≠ [] := by
    intro row hrow
    obtain ⟨hrow, hreq⟩ := hmem row hrow
    obtain ⟨i, tx, r, hi⟩ := hinv.inserted (Table.mem_all_of_mem_rows hrow)
    have htrace := Pool.mem_trace hi
    obtain ⟨b, approverId, now, hrole, rfl⟩ := role_of_insert (hfits i) htrace
    exact ⟨hreq, b, approverId, now, rfl, i, hrole, List.ne_nil_of_mem htrace⟩
  obtain ⟨l, hl, hids, hall⟩ := mapM_decodeRow
    hrecorded
  cases hl.symm.trans hread
  refine ⟨l, rfl, ?_, hall⟩
  -- rows of one request clash when their approver ids agree
  have hunique : (rows.map Row.approverId).Nodup := by
    have hpair : ((t.abort a.gone).rows.filter
        fun row => row.requestId = requestId.toString).Pairwise fun x y => clash x y = none :=
      (List.pairwise_append.1 hinv.unique).1.sublist List.filter_sublist
    rw [List.Nodup, List.pairwise_map]
    refine ((hperm.pairwise_iff clash_symm).2 hpair).imp_of_mem fun {x y} hx hy hclash heq => ?_
    exact (clash_eq_none_iff.1 hclash).2 ⟨(hmem x hx).2.trans (hmem y hy).2.symm, heq⟩
  rw [← hids] at hunique
  exact List.Nodup.of_map Ident.toString (by rwa [List.map_map])

/-! ## The backends -/

/-- The approval stores a service can be wired with. -/
inductive Backend where
  | memory
  | postgres (d : PostgresApprovalStore.Deps)

/-- The store of a backend. -/
def Backend.store : Backend → ApprovalStore
  | memory => memoryStore
  | postgres d => postgresStore d

theorem Backend.sound : (b : Backend) → b.store.Sound
  | memory => memoryStore_sound
  | postgres d => postgresStore_sound d

end QfcServerWallet.Quorum
