import QfcServerWallet.Audit.Event
import Mathlib.Data.List.Sort
import Mathlib.Data.Prod.Lex

/-!
# The Postgres audit sink and its anchor

`qfc-audit/src/postgres.rs` (`PostgresAuditSink::emit`, `fetch_chain_head`, `insert_event`,
`row_to_event`, `replay_verify_postgres`), `anchor.rs` (`anchor_payload`) and the table of
`migrations/0001_init.sql`.

* The table is the list of its rows in the order of their insertion. `ORDER BY timestamp_unix_ms,
  event_id` sorts by `Row.key`; a `TEXT` column compares by characters. `DESC … LIMIT 1` is the
  last row of the ascending order.
* The advisory lock serialises emits, so that an emit is one step. Its transaction leaves the table
  unchanged when it fails.
* `event_id` is the primary key: a second row with the same id is refused. No other statement
  fails, and every column returns what was bound, except that a `JSONB` column returns
  `jsonb details`.
* The id and the time an emit draws are arguments. `signature.len() != 64` cannot hold, since
  `ed25519Sign` has 64 bytes.
* The decoder of the kind byte is written twice in the source, here `kindFromByte` and
  `kindFromByteLocal`. Neither knows every byte `kind_byte` writes.

Results: which kinds each decoder reads back, what a stored row decodes to, and `emit_ok_iff`.
-/

namespace QfcServerWallet.Audit

open Lib

/-- A row of `audit_events`; `created_at` is not read. -/
structure Row where
  eventId : String
  prevEventHash : Bytes
  timestampUnixMs : Int64
  actorKind : Int16
  actorId : Option String
  kind : Int16
  requestId : Option String
  walletId : Option String
  details : Json
  serverSignature : Bytes

/-- The columns of `ORDER BY timestamp_unix_ms, event_id`. -/
def Row.key (r : Row) : Int ×ₗ String := toLex (r.timestampUnixMs.toInt, r.eventId)

/-- The rows in ascending order. -/
def orderedRows (rows : List Row) : List Row := rows.insertionSort fun r s => r.key ≤ s.key

/-- `ORDER BY … DESC LIMIT 1` -/
def headRow (rows : List Row) : Option Row := (orderedRows rows).getLast?

/-- What the sink takes from its dependencies. -/
structure PgDeps where
  crypto : Crypto
  toWriter : Json → Bytes
  /-- what a `JSONB` column returns for the value bound to it -/
  jsonb : Json → Json
  parseUlid : UlidParser

/-! ## Columns -/

/-- `Actor` as `(actor_kind, actor_id)`. -/
def actorColumns : Actor → Int16 × Option String
  | .requester id => (1, some id)
  | .approver id => (2, some id)
  | .system => (3, none)
  | .enclave => (4, none)

/-- The actor of a row. -/
def actorFromColumns (actorKind : Int16) (actorId : Option String) : Except AuditError Actor :=
  if actorKind = 1 then
    match actorId with
    | some id => .ok (.requester id)
    | none => .error (.serde "Requester row missing actor_id")
  else if actorKind = 2 then
    match actorId with
    | some id => .ok (.approver id)
    | none => .error (.serde "Approver row missing actor_id")
  else if actorKind = 3 then .ok .system
  else if actorKind = 4 then .ok .enclave
  else .error (.serde ("unknown actor_kind: " ++ toString actorKind.toInt))

/-- The arms the two decoders share. -/
def commonKind : Nat → Option AuditKind
  | 1 => some .walletCreated
  | 2 => some .walletRevoked
  | 3 => some .signingRequested
  | 4 => some .signingEvaluated
  | 5 => some .quorumNotified
  | 6 => some .quorumApprovalReceived
  | 7 => some .quorumApprovalRejected
  | 8 => some .quorumTimedOut
  | 9 => some .signingAttempted
  | 10 => some .signingSucceeded
  | 11 => some .signingFailed
  | 12 => some .policyChanged
  | 13 => some .approverSetChanged
  | 14 => some .systemError
  | 15 => some .enclaveAttested
  | _ => none

/-- `postgres.rs: kind_from_byte` -/
def kindFromByte (b : UInt8) : Except AuditError AuditKind :=
  if b = 16 then .ok .quorumThresholdReached
  else match commonKind b.toNat with
    | some k => .ok k
    | none => .error (.serde ("unknown audit kind byte: " ++ toString b.toNat))

/-- `anchor.rs: kind_from_byte_local` -/
def kindFromByteLocal (b : UInt8) : Except AuditError AuditKind :=
  match commonKind b.toNat with
  | some k => .ok k
  | none => .error (.serde ("anchor: unknown audit kind byte: " ++ toString b.toNat))

/-- `u8::try_from(kind)` -/
def kindColumn (what : String) (kind : Int16) : Except AuditError UInt8 :=
  if 0 ≤ kind.toInt ∧ kind.toInt ≤ 255 then .ok (UInt8.ofNat kind.toInt.toNat)
  else .error (.serde (what ++ toString kind.toInt))

/-- A `BYTEA` column that has to hold a hash. -/
def hashColumn (what : String) (b : Bytes) : Except AuditError (FixedBytes 32) :=
  match FixedBytes.ofBytes? 32 b with
  | some h => .ok h
  | none => .error (.serde what)

section

variable (d : PgDeps)

/-- An id column. -/
def idColumn {k : IdKind} (what : String) (s : String) : Except AuditError (Ident k) :=
  (Ident.fromStr d.parseUlid s).mapError fun e => .serde (what ++ e)

/-- A nullable id column. -/
def optionalIdColumn {k : IdKind} (what : String) : Option String →
    Except AuditError (Option (Ident k))
  | none => .ok none
  | some s => some <$> idColumn d what s

/-- The row `insert_event` writes, as a query returns it. -/
def eventRow (event : AuditEvent) : Row where
  eventId := event.eventId.toString
  prevEventHash := event.prevEventHash.bytes
  timestampUnixMs := event.timestampUnixMs
  actorKind := (actorColumns event.actor).1
  actorId := (actorColumns event.actor).2
  kind := Int16.ofNat (kindByte event.kind).toNat
  requestId := event.requestId.map Ident.toString
  walletId := event.walletId.map Ident.toString
  details := d.jsonb event.details
  serverSignature := event.serverSignature

/-- The event of a row. -/
def rowToEvent (row : Row) : Except AuditError AuditEvent := do
  let eventId ← idColumn d "event_id parse: " row.eventId
  let prevEventHash ← hashColumn
    ("prev_event_hash must be 32 bytes, got " ++ toString row.prevEventHash.length)
    row.prevEventHash
  let b ← kindColumn "kind byte out of range: " row.kind
  let kind ← kindFromByte b
  let actor ← actorFromColumns row.actorKind row.actorId
  let requestId ← optionalIdColumn d "request_id parse: " row.requestId
  let walletId ← optionalIdColumn d "wallet_id parse: " row.walletId
  .ok { eventId, prevEventHash, timestampUnixMs := row.timestampUnixMs, actor, kind, requestId,
        walletId, details := row.details, serverSignature := row.serverSignature }

/-! ## Emit -/

/-- The hash of the row the chain continues from; zero for an empty table. -/
def fetchChainHead (rows : List Row) : Except AuditError (FixedBytes 32) :=
  match headRow rows with
  | none => .ok (FixedBytes.zero 32)
  | some row => do
    let headEventId : EventId ← idColumn d "head event_id ulid parse: " row.eventId
    let b ← kindColumn "head kind byte out of range: " row.kind
    let headKind ← kindFromByte b
    let headPrev ← hashColumn
      ("head prev_event_hash must be 32 bytes, got " ++ toString row.prevEventHash.length)
      row.prevEventHash
    .ok (d.crypto.sha256 (signingPreimage d.toWriter headPrev headEventId headKind row.details
      ++ row.serverSignature))

/-- `insert_event`, in a table whose primary key is `event_id`. -/
def insertEvent (rows : List Row) (event : AuditEvent) : Except AuditError (List Row) :=
  if event.eventId.toString ∈ rows.map Row.eventId then
    .error (.io "insert audit_events: duplicate key value violates unique constraint")
  else .ok (rows ++ [eventRow d event])

/-- The kind of the event. -/
def Emit.kind (x : Emit) : AuditKind := x.draft.kind

/-- The event an emit makes when the chain head is `prev`. -/
def Emit.event (x : Emit) (serverKey prev : FixedBytes 32) : AuditEvent :=
  stamp d.toWriter d.crypto serverKey prev x.eventId x.timestampUnixMs x.draft

/-- `PostgresAuditSink::emit`: the event, and the table after the commit. -/
def emit (serverKey : FixedBytes 32) (rows : List Row) (x : Emit) :
    Except AuditError (AuditEvent × List Row) := do
  let prevEventHash ← fetchChainHead d rows
  let event := x.event d serverKey prevEventHash
  let rows ← insertEvent d rows event
  .ok (event, rows)

/-- A sequence of emits. One that fails leaves the table as it was. -/
def emitAll (serverKey : FixedBytes 32) (rows : List Row) :
    List Emit → List (Except AuditError AuditEvent) × List Row
  | [] => ([], rows)
  | x :: xs =>
    match emit d serverKey rows x with
    | .ok (event, rows) =>
      let (results, rows) := emitAll serverKey rows xs
      (.ok event :: results, rows)
    | .error e =>
      let (results, rows) := emitAll serverKey rows xs
      (.error e :: results, rows)

/-! ## Replay and anchor -/

/-- The loop of the replay: the previous hash, and the events counted so far. -/
def replayRows (verifyingKey : Bytes) : FixedBytes 32 → Nat → List Row → Except AuditError Nat
  | _, n, [] => .ok n
  | prev, n, row :: rows => do
    let event ← rowToEvent d row
    if event.prevEventHash ≠ prev then .error (.crypto "hash chain broken")
    else
      let ok ← verifyEvent d.toWriter d.crypto event verifyingKey
      if ok then replayRows verifyingKey (event.hash d.toWriter d.crypto) (n + 1) rows
      else .error (.crypto "signature mismatch")

/-- The number of rows, where their chain verifies. -/
def replayVerifyPostgres (verifyingKey : Bytes) (rows : List Row) : Except AuditError Nat :=
  replayRows d verifyingKey (FixedBytes.zero 32) 0 (orderedRows rows)

/-- What an anchor commits to. -/
structure AnchorPayload where
  dateUtc : String
  chainHeadHex : String
  headEventId : Option EventId
  eventCount : Nat
  deriving DecidableEq

/-- The payload made from the count and the head row. -/
def anchorOf (dateUtc : String) (eventCount : Nat) : Option Row → Except AuditError AnchorPayload
  | none => .ok ⟨dateUtc, hexEncode (FixedBytes.zero 32).bytes, none, eventCount⟩
  | some row => do
    let eventId : EventId ← idColumn d "anchor head event_id parse: " row.eventId
    let b ← kindColumn "anchor head kind byte: " row.kind
    let kind ← kindFromByteLocal b
    let prev ← hashColumn "anchor head prev_event_hash not 32 bytes" row.prevEventHash
    let digest := d.crypto.sha256 (signingPreimage d.toWriter prev eventId kind row.details
      ++ row.serverSignature)
    .ok ⟨dateUtc, hexEncode digest.bytes, some eventId, eventCount⟩

/-- `anchor_payload`: one query counts the rows, a later one reads the head. -/
def anchorPayload (dateUtc : String) (countedRows rows : List Row) :
    Except AuditError AnchorPayload :=
  anchorOf d dateUtc countedRows.length (headRow rows)

end

/-! ## What a stored row decodes to -/

theorem kindColumn_kindByte (what : String) (k : AuditKind) :
    kindColumn what (Int16.ofNat (kindByte k).toNat) = .ok (kindByte k) := by
  cases k <;> rfl

/-- One kind is written with a byte that the decoder does not know. -/
theorem kindFromByte_kindByte_iff {k k' : AuditKind} :
    kindFromByte (kindByte k) = .ok k' ↔ k ≠ .policyDecisionSigned ∧ k' = k := by
  cases k <;> cases k' <;> decide

/-- The decoder of the anchor lacks one more. -/
theorem kindFromByteLocal_kindByte_iff {k k' : AuditKind} :
    kindFromByteLocal (kindByte k) = .ok k' ↔
      (k ≠ .policyDecisionSigned ∧ k ≠ .quorumThresholdReached) ∧ k' = k := by
  cases k <;> cases k' <;> decide

theorem actorFromColumns_actorColumns (a : Actor) :
    actorFromColumns (actorColumns a).1 (actorColumns a).2 = .ok a := by
  cases a <;> rfl

theorem hashColumn_bytes (what : String) (h : FixedBytes 32) : hashColumn what h.bytes = .ok h := by
  rw [hashColumn, FixedBytes.ofBytes?_bytes]

section Stored

variable {d : PgDeps} (hparse : d.parseUlid.RoundTrips)
include hparse

theorem idColumn_toString {k : IdKind} (what : String) (id : Ident k) :
    idColumn d what id.toString = .ok id := by
  rw [idColumn, Ident.fromStr_toString hparse]
  rfl

theorem optionalIdColumn_toString {k : IdKind} (what : String) (id : Option (Ident k)) :
    optionalIdColumn d what (id.map Ident.toString) = .ok id := by
  cases id with
  | none => rfl
  | some id => simp [optionalIdColumn, idColumn_toString hparse, Functor.map, Except.map]

/-- What a stored event is read back as. -/
theorem rowToEvent_eventRow {e e' : AuditEvent} :
    rowToEvent d (eventRow d e) = .ok e' ↔
      e.kind ≠ .policyDecisionSigned ∧ e' = { e with details := d.jsonb e.details } := by
  simp only [rowToEvent, eventRow, idColumn_toString hparse, hashColumn_bytes,
    kindColumn_kindByte, actorFromColumns_actorColumns, optionalIdColumn_toString hparse,
    bind_eq_ok, Except.ok.injEq, exists_eq_left', kindFromByte_kindByte_iff]
  constructor
  · rintro ⟨_, ⟨hk, rfl⟩, rfl⟩
    exact ⟨hk, rfl⟩
  · rintro ⟨hk, rfl⟩
    exact ⟨_, ⟨hk, rfl⟩, rfl⟩

theorem fetchChainHead_of_headRow {rows : List Row} {e : AuditEvent} {h : FixedBytes 32}
    (hhead : headRow rows = some (eventRow d e)) :
    fetchChainHead d rows = .ok h ↔ e.kind ≠ .policyDecisionSigned ∧
      h = AuditEvent.hash d.toWriter d.crypto { e with details := d.jsonb e.details } := by
  simp only [fetchChainHead, hhead, eventRow, idColumn_toString hparse, hashColumn_bytes,
    kindColumn_kindByte, bind_eq_ok, Except.ok.injEq, exists_eq_left', kindFromByte_kindByte_iff]
  constructor
  · rintro ⟨_, ⟨hk, rfl⟩, rfl⟩
    exact ⟨hk, rfl⟩
  · rintro ⟨hk, rfl⟩
    exact ⟨_, ⟨hk, rfl⟩, rfl⟩

theorem anchorPayload_of_headRow {dateUtc : String} {counted rows : List Row} {e : AuditEvent}
    (hhead : headRow rows = some (eventRow d e)) :
    (∃ p, anchorPayload d dateUtc counted rows = .ok p) ↔
      e.kind ≠ .policyDecisionSigned ∧ e.kind ≠ .quorumThresholdReached := by
  simp only [anchorPayload, anchorOf, hhead, eventRow, idColumn_toString hparse, hashColumn_bytes,
    kindColumn_kindByte, bind_eq_ok, Except.ok.injEq, exists_eq_left',
    kindFromByteLocal_kindByte_iff]
  constructor
  · rintro ⟨_, _, ⟨hk, -⟩, -⟩
    exact hk
  · intro hk
    exact ⟨_, _, ⟨hk, rfl⟩, rfl⟩

end Stored

variable {rows : List Row}

/-! ## The head row -/

instance : Std.Total fun r s : Row => r.key ≤ s.key := ⟨fun r s => le_total r.key s.key⟩

instance : IsTrans Row fun r s => r.key ≤ s.key := ⟨fun _ _ _ => le_trans⟩

theorem headRow_eq_none_iff : headRow rows = none ↔ rows = [] := by
  rw [headRow, List.getLast?_eq_none_iff, orderedRows, ← List.length_eq_zero_iff,
    List.length_insertionSort, List.length_eq_zero_iff]

/-- The head is the row with the greatest time and id. -/
theorem headRow_spec {r : Row} (h : headRow rows = some r) :
    r ∈ rows ∧ ∀ s ∈ rows, s.key ≤ r.key := by
  obtain ⟨init, hinit⟩ := List.getLast?_eq_some_iff.1 h
  have hsorted := List.pairwise_insertionSort (fun r s : Row => r.key ≤ s.key) rows
  have hmem (s : Row) : s ∈ rows ↔ s ∈ init ++ [r] := by
    rw [← hinit, orderedRows, List.mem_insertionSort]
  rw [← orderedRows, hinit, List.pairwise_append] at hsorted
  refine ⟨(hmem r).2 (by simp), fun s hs => ?_⟩
  rcases List.mem_append.1 ((hmem s).1 hs) with hs | hs
  · exact hsorted.2.2 s hs r (by simp)
  · rw [List.mem_singleton.1 hs]

theorem orderedRows_of_pairwise (h : rows.Pairwise fun r s => r.key < s.key) :
    orderedRows rows = rows :=
  (h.imp le_of_lt).insertionSort_eq

/-! ## One emit -/

section Emit

variable {d : PgDeps} {serverKey : FixedBytes 32} {rows rows' : List Row} {x : Emit}
variable {e : AuditEvent}

/-- **An emit succeeds iff the head can be read and the id is new**; it then appends the row of the
event it returns. -/
theorem emit_ok_iff :
    emit d serverKey rows x = .ok (e, rows') ↔
      ∃ prev, fetchChainHead d rows = .ok prev ∧ e = x.event d serverKey prev ∧
        x.eventId.toString ∉ rows.map Row.eventId ∧ rows' = rows ++ [eventRow d e] := by
  simp only [emit, bind_eq_ok, Except.ok.injEq, Prod.mk.injEq]
  constructor
  · rintro ⟨prev, hprev, rows₁, hins, rfl, rfl⟩
    unfold insertEvent at hins
    split_ifs at hins with hnew
    exact ⟨prev, hprev, rfl, hnew, (Except.ok.inj hins).symm⟩
  · rintro ⟨prev, hprev, rfl, hnew, rfl⟩
    exact ⟨prev, hprev, _, if_neg hnew, rfl, rfl⟩

end Emit

end QfcServerWallet.Audit
