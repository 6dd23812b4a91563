import QfcServerWallet.Quorum.Nesting
import QfcServerWallet.Quorum.PostgresStore
import Mathlib.Data.List.Dedup

/-!
# The Postgres approver registry

`create_approver_set` of `qfc-quorum/src/registry/postgres.rs`, over the tables `approvers`,
`approver_sets` and `approver_set_members` of `migrations/0002_approvers.sql`.

* Each SQL statement is one operation, under READ COMMITTED. A `SELECT` of a transaction sees what
  is committed when it is executed, and the rows of its own transaction.
* The rows of both tables of sets are rows of one `Table`, since a transaction commits them
  together. Foreign keys are checked when a member is inserted.
* Creations only read `approvers`. Their `FOR SHARE` locks exclude writers and not each other, so no
  `SELECT` waits.
* Faults, lost transactions and commits that report an error are as for the approval store. An error
  return drops the transaction, which is then rolled back at some later point.
* Rows come back from the unordered `SELECT` in any order, and `HashMap` and `HashSet` iterate in
  any order. The outside world supplies it.
* A column that is missing, `NULL` or of another type cannot occur here, so the errors and defaults
  of `try_get` are left out.

Results: `rowToApprover_approverRow`, `Holds.readSets`, **`runs_createApproverSet`** and
**`created_of_runs`**. `get_approver_set` is in `Quorum.SetPersistence`; the other methods of the
registry are out of scope.
-/

namespace QfcServerWallet.Quorum

open Lib

namespace PostgresApproverRegistry

open MemoryApproverRegistry (newSet WellFormed wellFormed_newSet)

/-- The registry takes the same from its dependencies as the approval store. -/
abbrev Deps := PostgresApprovalStore.Deps

/-! ## Rows -/

/-- A row of `approvers`; `public_key` and `created_at` are not read. -/
structure ApproverRow where
  approverId : String
  identity : Json
  scheme : Int16
  label : String
  ownerId : String
  webhookUrl : Option String
  status : Int16
  addedAtUnixMs : Int64

/-- A row of `approver_sets`; `created_at` is not read. -/
structure SetRow where
  approverSetId : String
  name : String
  ownerId : String
  threshold : Int16
  total : Int16
  quorumTimeoutSecs : Option Int32
  createdAtUnixMs : Int64
  deriving DecidableEq

/-- A row of `approver_set_members`. -/
structure MemberRow where
  approverSetId : String
  approverId : String
  position : Int16
  deriving DecidableEq

/-- A row of either table. -/
inductive Row where
  | set (row : SetRow)
  | member (row : MemberRow)

/-- The row, if it is one of `approver_sets`. -/
def Row.set? : Row → Option SetRow
  | set row => some row
  | member _ => none

/-- The row, if it is one of `approver_set_members`. -/
def Row.member? : Row → Option MemberRow
  | set _ => none
  | member row => some row

/-- The unique constraint that two rows violate. -/
def clash : Row → Row → Option String
  | .set x, .set y => if x.approverSetId = y.approverSetId then some "approver_sets_pkey" else none
  | .member x, .member y =>
    if x.approverSetId = y.approverSetId ∧ x.approverId = y.approverId then
      some "approver_set_members_pkey"
    else if x.approverSetId = y.approverSetId ∧ x.position = y.position then
      some "approver_set_members_approver_set_id_position_key"
    else none
  | _, _ => none

/-- The column of a scheme. -/
def schemeByte : SigningScheme → Int16
  | .ed25519 => 1
  | .secp256k1 => 2
  | .secp256k1Recoverable => 3
  | .mlDsa44 => 4
  | .mlDsa65 => 5
  | .mlDsa87 => 6

/-- The scheme of a column. -/
def schemeFromByte (b : UInt8) : Except RegistryError SigningScheme :=
  if b = 1 then .ok .ed25519
  else if b = 2 then .ok .secp256k1
  else if b = 3 then .ok .secp256k1Recoverable
  else if b = 4 then .ok .mlDsa44
  else if b = 5 then .ok .mlDsa65
  else if b = 6 then .ok .mlDsa87
  else .error (.io ("unknown scheme byte: " ++ toString b.toNat))

/-- The column of a status. -/
def statusByte : ApproverStatus → UInt8
  | .active => 1
  | .revoked => 2

/-- The status of a column. -/
def statusFromByte (b : UInt8) : Except RegistryError ApproverStatus :=
  if b = 1 then .ok .active
  else if b = 2 then .ok .revoked
  else .error (.io ("unknown status byte: " ++ toString b.toNat))

/-- `u8::try_from`. -/
def u8FromSmallint (i : Int16) : Except RegistryError UInt8 :=
  if 0 ≤ i.toInt ∧ i.toInt ≤ 255 then .ok (UInt8.ofNat i.toInt.toNat)
  else .error (.io ("smallint out of u8 range: " ++ toString i.toInt))

/-- `i16::from` -/
def smallint (b : UInt8) : Int16 := Int16.ofNat b.toNat

/-- `i32::try_from(v).ok()` -/
def timeoutColumn (secs : UInt32) : Option Int32 :=
  if secs.toNat ≤ 2147483647 then some (Int32.ofNat secs.toNat) else none

/-- `u32::try_from(v).ok()` -/
def timeoutFromColumn (secs : Int32) : Option UInt32 :=
  if 0 ≤ secs.toInt then some (UInt32.ofNat secs.toInt.toNat) else none

/-- `i16::try_from(pos)` -/
def positionColumn (pos : Nat) : Except RegistryError Int16 :=
  if pos ≤ 32767 then .ok (Int16.ofNat pos)
  else .error (.io "position overflow (more than 32k members?)")

/-- The row a set is stored as: a timeout above `i32::MAX` is dropped. -/
def setRow (set : ApproverSet) : SetRow where
  approverSetId := set.id.toString
  name := set.name
  ownerId := set.ownerId.value
  threshold := smallint set.threshold
  total := smallint set.total
  quorumTimeoutSecs := set.quorumTimeoutSecs.bind timeoutColumn
  createdAtUnixMs := set.createdAtUnixMs

section

variable (d : Deps)

/-- The row an approver is stored as. -/
def approverRow (rec : ApproverRecord) : ApproverRow where
  approverId := rec.approverId.toString
  identity := d.jsonb (d.identityToValue rec.identity)
  scheme := schemeByte rec.scheme
  label := rec.label
  ownerId := rec.ownerId.value
  webhookUrl := rec.webhookUrl
  status := smallint (statusByte rec.status)
  addedAtUnixMs := rec.addedAtUnixMs

/-- Reads an approver. -/
def rowToApprover (row : ApproverRow) : Except RegistryError ApproverRecord := do
  let identity ← (d.identityFromValue row.identity).mapError
    fun e => .io ("identity decode: " ++ e)
  let approverId ← (Ident.fromStr d.parseUlid row.approverId).mapError
    fun e => .io ("approver id parse: " ++ e)
  let scheme ← u8FromSmallint row.scheme >>= schemeFromByte
  let status ← u8FromSmallint row.status >>= statusFromByte
  .ok { approverId, identity, scheme, label := row.label, ownerId := ⟨row.ownerId⟩,
        webhookUrl := row.webhookUrl, status, addedAtUnixMs := row.addedAtUnixMs }

/-- Reads the id of a set. -/
def parseSetId (row : SetRow) : Except RegistryError ApproverSetId :=
  (Ident.fromStr d.parseUlid row.approverSetId).mapError fun e => .io ("set id parse: " ++ e)

/-- Reads a member. -/
def parseMember (row : MemberRow) : Except RegistryError ApproverId :=
  (Ident.fromStr d.parseUlid row.approverId).mapError fun e => .io ("set member parse: " ++ e)

end

/-- The record stub that `create_approver_set` builds. -/
def readSet (row : SetRow) (id : ApproverSetId) (members : List ApproverId) :
    Except RegistryError ApproverSet := do
  let threshold ← u8FromSmallint row.threshold
  let total ← u8FromSmallint row.total
  .ok { id, name := row.name, ownerId := ⟨row.ownerId⟩, members, threshold, total,
        quorumTimeoutSecs := row.quorumTimeoutSecs.bind timeoutFromColumn,
        createdAtUnixMs := row.createdAtUnixMs }

/-! ## Statements -/

/-- The tables. -/
structure Db where
  /-- `approvers`, by its primary key -/
  approvers : String → Option ApproverRow
  /-- `approver_sets` and `approver_set_members` -/
  sets : Table Row

/-- The statements, and what is drawn outside. -/
inductive Op where
  | begin
  /-- `SELECT … FROM approvers WHERE approver_id = $1`, also with `FOR SHARE` -/
  | selectApprover (tx : Nat) (approverId : String)
  /-- `SELECT … FROM approver_sets` -/
  | scanSets (tx : Nat)
  /-- `SELECT … FROM approver_set_members WHERE approver_set_id = $1 ORDER BY position ASC` -/
  | selectSetMembers (tx : Nat) (setId : String)
  /-- the order in which `needed` is iterated -/
  | neededOrder (needed : List ApproverId)
  /-- the order in which `sets_map` is iterated -/
  | setsOrder (sets : List ApproverSet)
  /-- `ApproverSetId::new` -/
  | newApproverSetId
  /-- `now_unix_ms()` -/
  | now
  | insertSet (tx : Nat) (row : SetRow)
  | insertMember (tx : Nat) (row : MemberRow)
  | commit (tx : Nat)

/-- An error is the text of `sqlx`. -/
def Res : Op → Type
  | .begin => Except String Nat
  | .selectApprover _ _ => Except String (Option ApproverRow)
  | .scanSets _ => Except String (List SetRow)
  | .selectSetMembers _ _ => Except String (List MemberRow)
  | .neededOrder _ => List ApproverId
  | .setsOrder _ => List ApproverSet
  | .newApproverSetId => ApproverSetId
  | .now => Int64
  | .insertSet _ _ => Except String Unit
  | .insertMember _ _ => Except String Unit
  | .commit _ => Except String Unit

/-- What the outside world decides about one operation. -/
structure Ans where
  /-- transactions that were rolled back before it -/
  gone : List Nat := []
  /-- the text it fails with -/
  fault : Option String := none
  /-- a commit that reports a failure was applied -/
  applied : Bool := false
  /-- the order of the rows of a scan -/
  scan : List SetRow := []
  needed : List ApproverId := []
  sets : List ApproverSet := []
  id : ApproverSetId := ⟨0⟩
  now : Int64 := 0

/-- The rows that a statement of the transaction sees. -/
def Db.visible (db : Db) (tx : Nat) : List Row := db.sets.rows ++ db.sets.own tx

/-- Transactions that are gone. -/
def Db.abort (db : Db) (gone : List Nat) : Db := { db with sets := db.sets.abort gone }

/-- The rows of `approver_sets`. -/
def setRowsIn (rows : List Row) : List SetRow := rows.filterMap Row.set?

/-- The members of a set, `ORDER BY position ASC`. -/
def membersIn (rows : List Row) (setId : String) : List MemberRow :=
  ((rows.filterMap Row.member?).filter fun row => row.approverSetId = setId).insertionSort
    fun r s => r.position.toInt ≤ s.position.toInt

/-- The foreign key that a new member violates. -/
def foreignKey (db : Db) (tx : Nat) (row : MemberRow) : Option String :=
  if row.approverSetId ∉ (setRowsIn (db.visible tx)).map SetRow.approverSetId then
    some "approver_set_members_approver_set_id_fkey"
  else if (db.approvers row.approverId).isNone then some "approver_set_members_approver_id_fkey"
  else none

/-- What sqlx says of a foreign key. -/
def foreignKeyText (constraint : String) : String :=
  "error returned from database: insert or update on table \"approver_set_members\" violates "
    ++ "foreign key constraint \"" ++ constraint ++ "\""

/-- A statement of an open transaction, which fails together with its transaction. -/
def within {β : Type} (db : Db) (tx : Nat) (fault : Option String)
    (answer : Option (Except String β × Db)) : Option (Except String β × Db) :=
  match fault with
  | some text => some (.error text, db.abort [tx])
  | none => if tx ∈ db.sets.active then answer else none

/-- An `INSERT` of a transaction. -/
def insertRow (db : Db) (tx : Nat) (row : Row) : Option (Except String Unit × Db) :=
  match db.sets.insert clash tx row with
  | .done sets => some (.ok (), { db with sets })
  | .refused constraint =>
    some (.error (PostgresApprovalStore.duplicateKeyText constraint), db.abort [tx])
  | .waits => none

/-- One operation, once the lost transactions are rolled back. -/
def execute (db : Db) : (op : Op) → Ans → Option (Res op × Db)
  | .begin, a =>
    match a.fault with
    | some text => some (.error text, db)
    | none => some (.ok db.sets.begin.1, { db with sets := db.sets.begin.2 })
  | .selectApprover tx approverId, a =>
    within db tx a.fault (some (.ok (db.approvers approverId), db))
  | .scanSets tx, a =>
    within db tx a.fault <|
      if a.scan.isPerm (setRowsIn (db.visible tx)) then some (.ok a.scan, db) else none
  | .selectSetMembers tx setId, a =>
    within db tx a.fault (some (.ok (membersIn (db.visible tx) setId), db))
  | .neededOrder needed, a => if a.needed.isPerm needed then some (a.needed, db) else none
  | .setsOrder sets, a => if a.sets.isPerm sets then some (a.sets, db) else none
  | .newApproverSetId, a => some (a.id, db)
  | .now, a => some (a.now, db)
  | .insertSet tx row, a => within db tx a.fault (insertRow db tx (.set row))
  | .insertMember tx row, a =>
    within db tx a.fault <|
      match foreignKey db tx row with
      | some constraint => some (.error (foreignKeyText constraint), db.abort [tx])
      | none => insertRow db tx (.member row)
  | .commit tx, a =>
    match a.fault with
    | some text =>
      some (.error text, if a.applied then { db with sets := db.sets.commit tx }
        else db.abort [tx])
    | none => if tx ∈ db.sets.active then some (.ok (), { db with sets := db.sets.commit tx })
      else none

/-- Executes a statement. -/
def perform (db : Db) (op : Op) (a : Ans) : Option (Res op × Db) := execute (db.abort a.gone) op a

/-! ## The method -/

/-- `BEGIN`. -/
def begin : Prog Op Res (Except String Nat) := Prog.perform Op.begin

/-- The row of an approver. -/
def selectApprover (tx : Nat) (approverId : ApproverId) :
    Prog Op Res (Except String (Option ApproverRow)) :=
  Prog.perform (Op.selectApprover tx approverId.toString)

/-- All sets. -/
def scanSets (tx : Nat) : Prog Op Res (Except String (List SetRow)) :=
  Prog.perform (Op.scanSets tx)

/-- The members of a set. -/
def selectSetMembers (tx : Nat) (setId : ApproverSetId) :
    Prog Op Res (Except String (List MemberRow)) :=
  Prog.perform (Op.selectSetMembers tx setId.toString)

/-- The order of a `HashSet`. -/
def neededOrder (needed : List ApproverId) : Prog Op Res (List ApproverId) :=
  Prog.perform (Op.neededOrder needed)

/-- The order of a `HashMap`. -/
def setsOrder (sets : List ApproverSet) : Prog Op Res (List ApproverSet) :=
  Prog.perform (Op.setsOrder sets)

/-- `ApproverSetId::new`. -/
def newApproverSetId : Prog Op Res ApproverSetId := Prog.perform Op.newApproverSetId

/-- The clock. -/
def nowUnixMs : Prog Op Res Int64 := Prog.perform Op.now

/-- `INSERT INTO approver_sets`. -/
def insertSet (tx : Nat) (row : SetRow) : Prog Op Res (Except String Unit) :=
  Prog.perform (Op.insertSet tx row)

/-- `INSERT INTO approver_set_members`. -/
def insertMember (tx : Nat) (row : MemberRow) : Prog Op Res (Except String Unit) :=
  Prog.perform (Op.insertMember tx row)

/-- `COMMIT`. -/
def commit (tx : Nat) : Prog Op Res (Except String Unit) := Prog.perform (Op.commit tx)

/-- `approvers_map.insert` -/
def putApprover (approvers : Approvers) (rec : ApproverRecord) : Approvers :=
  Function.update approvers rec.approverId (some rec)

/-- `sets_map.insert` -/
def putSet (sets : List ApproverSet) (set : ApproverSet) : List ApproverSet :=
  set :: sets.filter fun other => other.id ≠ set.id

section

variable (d : Deps)

/-- What the row of a member is read as. -/
def readMember (m : ApproverId) : Option ApproverRow → Except RegistryError ApproverRecord
  | none => .error (.unknownMember m)
  | some row => do
    let rec ← rowToApprover d row
    if rec.status ≠ .active then .error (.revokedMember m) else .ok rec

/-- The loop over the new members. -/
def loadMembers (tx : Nat) :
    List ApproverId → Approvers → ExceptT RegistryError (Prog Op Res) Approvers
  | [], approvers => pure approvers
  | m :: ms, approvers => do
    let row ← Prog.orThrow (fun e => .io ("select member: " ++ e)) (selectApprover tx m)
    let rec ← Prog.ofExcept (readMember d m row)
    loadMembers tx ms (putApprover approvers rec)

/-- Reads the members of a set. -/
def fetchSetMembers (tx : Nat) (setId : ApproverSetId) :
    ExceptT RegistryError (Prog Op Res) (List ApproverId) := do
  let rows ← Prog.orThrow (fun e => .io ("set members: " ++ e)) (selectSetMembers tx setId)
  Prog.ofExcept (rows.mapM (parseMember d))

/-- The loop over the rows of `approver_sets`. -/
def loadSets (tx : Nat) :
    List SetRow → List ApproverSet → ExceptT RegistryError (Prog Op Res) (List ApproverSet)
  | [], sets => pure sets
  | row :: rows, sets => do
    let id ← Prog.ofExcept (parseSetId d row)
    let members ← fetchSetMembers d tx id
    let set ← Prog.ofExcept (readSet row id members)
    loadSets tx rows (putSet sets set)

/-- The members of the stored sets that are not loaded yet. -/
def neededApprovers (approvers : Approvers) (sets : List ApproverSet) : List ApproverId :=
  ((sets.flatMap ApproverSet.members).filter fun m => (approvers m).isNone).dedup

/-- The row of an approver that the walk needs; one that does not exist is skipped. -/
def readNeeded (approvers : Approvers) : Option ApproverRow → Except RegistryError Approvers
  | none => .ok approvers
  | some row => do
    let rec ← rowToApprover d row
    .ok (putApprover approvers rec)

/-- The loop over `needed`. -/
def loadNeeded (tx : Nat) :
    List ApproverId → Approvers → ExceptT RegistryError (Prog Op Res) Approvers
  | [], approvers => pure approvers
  | n :: ns, approvers => do
    let row ← Prog.orThrow (fun e => .io ("select walk approver: " ++ e)) (selectApprover tx n)
    let approvers ← Prog.ofExcept (readNeeded d approvers row)
    loadNeeded tx ns approvers

/-- The loop over `nested_starts`. -/
def walkAll (approvers : Approvers) (sets : List ApproverSet) (wallets : List WalletId) :
    Except RegistryError Unit :=
  (checkNesting approvers sets wallets).get (checkNesting_isSome wallets)

/-- All that is read, and the check. -/
def checkSet (create : ApproverSetCreate) (tx : Nat) :
    ExceptT RegistryError (Prog Op Res) Unit := do
  let approvers ← loadMembers d tx create.members fun _ => none
  let rows ← Prog.orThrow (fun e => .io ("scan sets: " ++ e)) (scanSets tx)
  let sets ← loadSets d tx rows []
  let needed ← liftM (neededOrder (neededApprovers approvers sets))
  let approvers ← loadNeeded d tx needed approvers
  let sets ← liftM (setsOrder sets)
  Prog.ofExcept (walkAll approvers sets (nestedWallets approvers create.members))

/-- The loop that stores the members. -/
def insertMembers (tx : Nat) (setId : ApproverSetId) :
    Nat → List ApproverId → ExceptT RegistryError (Prog Op Res) Unit
  | _, [] => pure ()
  | pos, m :: ms => do
    let position ← Prog.ofExcept (positionColumn pos)
    Prog.orThrow (fun e => .io ("insert set member: " ++ e))
      (insertMember tx ⟨setId.toString, m.toString, position⟩)
    insertMembers tx setId (pos + 1) ms

/-- All that is written. -/
def storeSet (set : ApproverSet) (tx : Nat) : ExceptT RegistryError (Prog Op Res) ApproverSet := do
  Prog.orThrow (fun e => .io ("insert set: " ++ e)) (insertSet tx (setRow set))
  insertMembers tx set.id 0 set.members
  Prog.orThrow (fun e => .io ("commit set: " ++ e)) (commit tx)
  pure set

/-- Checks a set and stores it, in one transaction. -/
def createApproverSet (create : ApproverSetCreate) :
    Prog Op Res (Except RegistryError ApproverSet) := ExceptT.run do
  Prog.ofExcept (validateSetShape create)
  let tx ← Prog.orThrow (fun e => .io ("begin tx: " ++ e)) begin
  checkSet d create tx
  let id ← liftM newApproverSetId
  let now ← liftM nowUnixMs
  storeSet (newSet create id now) tx

end

/-! ## What is stored reads back -/

theorem u8FromSmallint_smallint (b : UInt8) : u8FromSmallint (smallint b) = .ok b := by
  have hlt : b.toNat < 256 := b.toNat_lt
  have hint : (smallint b).toInt = b.toNat :=
    Int16.toInt_ofNat_of_lt (hlt.trans (by norm_num))
  rw [u8FromSmallint, hint, if_pos (by omega), Int.toNat_natCast, UInt8.ofNat_toNat]

theorem u8FromSmallint_schemeByte (x : SigningScheme) :
    (u8FromSmallint (schemeByte x) >>= schemeFromByte) = .ok x := by
  cases x <;> rfl

theorem statusFromByte_statusByte (x : ApproverStatus) :
    statusFromByte (statusByte x) = .ok x := by
  cases x <;> rfl

/-- A stored approver reads back. -/
theorem rowToApprover_approverRow (d : Deps) (rec : ApproverRecord) :
    rowToApprover d (approverRow d rec) = .ok rec := by
  obtain ⟨b, hb, hscheme⟩ := bind_eq_ok.1 (u8FromSmallint_schemeByte rec.scheme)
  simp only [rowToApprover, approverRow, d.identity_column, u8FromSmallint_smallint,
    Ident.fromStr_toString d.parse_text, Except.mapError, statusFromByte_statusByte, hb, hscheme,
    bind, Except.bind]

/-- The rows of the members, from a position on. -/
def memberRows (setId : ApproverSetId) : Nat → List ApproverId → List MemberRow
  | _, [] => []
  | pos, m :: ms =>
    ⟨setId.toString, m.toString, Int16.ofNat pos⟩ :: memberRows setId (pos + 1) ms

/-- The rows of a set. -/
def setRows (set : ApproverSet) : List Row :=
  .set (setRow set) :: (memberRows set.id 0 set.members).map .member

/-- The set as it reads back. -/
def stored (set : ApproverSet) : ApproverSet :=
  { set with quorumTimeoutSecs :=
      (set.quorumTimeoutSecs.bind timeoutColumn).bind timeoutFromColumn }

theorem readSet_setRow (set : ApproverSet) :
    readSet (setRow set) set.id set.members = .ok (stored set) := by
  simp only [readSet, setRow, u8FromSmallint_smallint, bind, Except.bind, stored]

theorem id_of_setRow {set other : ApproverSet} (h : setRow set = setRow other) :
    set.id = other.id := by
  have htext : (setRow set).approverSetId = (setRow other).approverSetId := by rw [h]
  rw [setRow, setRow] at htext
  exact Ident.toString_inj htext

theorem parseSetId_setRow (d : Deps) (set : ApproverSet) :
    parseSetId d (setRow set) = .ok set.id := by
  simp only [parseSetId, setRow, Ident.fromStr_toString d.parse_text, Except.mapError]

theorem mapM_parseMember (d : Deps) (setId : ApproverSetId) (pos : Nat) (ms : List ApproverId) :
    (memberRows setId pos ms).mapM (parseMember d) = .ok ms := by
  induction ms generalizing pos with
  | nil => rfl
  | cons m ms ih =>
    simp only [memberRows, List.mapM_cons, parseMember, Ident.fromStr_toString d.parse_text,
      Except.mapError, ih, bind, Except.bind, pure, Except.pure]

section Rows

variable {sets : List ApproverSet} {set : ApproverSet} {setId : ApproverSetId} {rows : List Row}

theorem position_of_mem {pos : Nat} {ms : List ApproverId} {row : MemberRow}
    (h : row ∈ memberRows setId pos ms) :
    row.approverSetId = setId.toString ∧ ∃ m ∈ ms, row.approverId = m.toString ∧
      ∃ p, pos ≤ p ∧ p < pos + ms.length ∧ row.position = Int16.ofNat p := by
  induction ms generalizing pos with
  | nil => cases h
  | cons m ms ih =>
    rw [List.length_cons]
    rcases List.mem_cons.1 h with rfl | h
    · exact ⟨rfl, m, List.mem_cons_self, rfl, pos, le_rfl, by omega, rfl⟩
    · obtain ⟨hset, o, ho, hid, p, hle, hlt, hp⟩ := ih h
      exact ⟨hset, o, List.mem_cons_of_mem _ ho, hid, p, by omega, by omega, hp⟩

theorem pairwise_position {pos : Nat} {ms : List ApproverId} (h : pos + ms.length ≤ 32768) :
    (memberRows setId pos ms).Pairwise fun r s => r.position.toInt < s.position.toInt := by
  induction ms generalizing pos with
  | nil => exact .nil
  | cons m ms ih =>
    rw [List.length_cons] at h
    refine List.pairwise_cons.2 ⟨fun row hrow => ?_, ih (by omega)⟩
    obtain ⟨-, -, -, -, p, hle, hlt, hp⟩ := position_of_mem hrow
    rw [hp, Int16.toInt_ofNat_of_lt (by omega), Int16.toInt_ofNat_of_lt (by omega)]
    omega

theorem filterMap_set_setRows : (setRows set).filterMap Row.set? = [setRow set] := by
  have hnone : (memberRows set.id 0 set.members).filterMap (Row.set? ∘ Row.member) = [] :=
    List.filterMap_eq_nil_iff.2 fun _ _ => rfl
  rw [setRows, List.filterMap_cons, List.filterMap_map, hnone]
  rfl

theorem filterMap_member_setRows :
    (setRows set).filterMap Row.member? = memberRows set.id 0 set.members := by
  rw [setRows, List.filterMap_cons_none rfl, List.filterMap_map]
  exact List.filterMap_some

theorem setRowsIn_flatMap : setRowsIn (sets.flatMap setRows) = sets.map setRow := by
  rw [setRowsIn, List.filterMap_flatMap]
  simp only [filterMap_set_setRows]
  exact List.map_eq_flatMap.symm

theorem filter_memberRows {other : ApproverSet} :
    (memberRows other.id 0 other.members).filter
        (fun row => row.approverSetId = set.id.toString) =
      if other.id = set.id then memberRows other.id 0 other.members else [] := by
  split
  · next heq =>
    refine List.filter_eq_self.2 fun row hrow => decide_eq_true ?_
    rw [(position_of_mem hrow).1, heq]
  · next hne =>
    refine List.filter_eq_nil_iff.2 fun row hrow heq => hne ?_
    exact Ident.toString_inj ((position_of_mem hrow).1.symm.trans (of_decide_eq_true heq))

theorem filter_members_flatMap (hdistinct : (sets.map ApproverSet.id).Nodup) (hset : set ∈ sets) :
    ((sets.flatMap setRows).filterMap Row.member?).filter
        (fun row => row.approverSetId = set.id.toString) = memberRows set.id 0 set.members := by
  rw [List.filterMap_flatMap, List.filter_flatMap]
  simp only [filterMap_member_setRows, filter_memberRows]
  induction sets with
  | nil => cases hset
  | cons other sets ih =>
    obtain ⟨hnew, hrest⟩ := List.nodup_cons.1 hdistinct
    rw [List.flatMap_cons]
    rcases List.mem_cons.1 hset with rfl | hset
    · -- no other set has the id
      rw [if_pos rfl, List.flatMap_eq_nil_iff.2 fun x hx => if_neg ?_, List.append_nil]
      exact fun heq => hnew (List.mem_map.2 ⟨x, hx, heq⟩)
    · rw [if_neg fun heq => hnew (List.mem_map.2 ⟨set, hset, heq.symm⟩), List.nil_append]
      exact ih hrest hset

/-- The tables hold the sets, and nothing else. -/
structure Holds (sets : List ApproverSet) (rows : List Row) : Prop where
  rows : rows = sets.flatMap setRows
  distinct : (sets.map ApproverSet.id).Nodup
  wellFormed : ∀ set ∈ sets, WellFormed set

theorem length_members_le (h : WellFormed set) : set.members.length ≤ 255 := by
  have hlt := set.total.toNat_lt
  rw [h.count]
  omega

theorem Holds.membersIn (h : Holds sets rows) (hset : set ∈ sets) :
    membersIn rows set.id.toString = memberRows set.id 0 set.members := by
  have hlen := length_members_le (h.wellFormed set hset)
  rw [PostgresApproverRegistry.membersIn, h.rows, filter_members_flatMap h.distinct hset]
  refine List.Pairwise.insertionSort_eq ?_
  exact (pairwise_position (by omega)).imp fun hlt => le_of_lt hlt

theorem Holds.concat (h : Holds sets rows) (hwell : WellFormed set)
    (hnew : set.id ∉ sets.map ApproverSet.id) : Holds (sets ++ [set]) (rows ++ setRows set) where
  rows := by rw [h.rows, List.flatMap_append, List.flatMap_singleton]
  distinct := by
    rw [List.map_append, List.nodup_append]
    refine ⟨h.distinct, List.nodup_singleton _, fun id hid other hother heq => hnew ?_⟩
    rwa [← List.mem_singleton.1 hother, ← heq]
  wellFormed x hx := by
    rcases List.mem_append.1 hx with hx | hx
    · exact h.wellFormed x hx
    · rw [List.mem_singleton.1 hx]
      exact hwell

/-- The sets that the rows are read as; a row that does not decode is left out. -/
def readSets (d : Deps) (rows : List Row) : List ApproverSet :=
  (setRowsIn rows).filterMap fun row => Except.toOption do
    let id ← parseSetId d row
    let members ← (PostgresApproverRegistry.membersIn rows id.toString).mapM (parseMember d)
    readSet row id members

/-- Stored sets read back, as far as the columns keep them. -/
theorem Holds.readSets (h : Holds sets rows) (d : Deps) : readSets d rows = sets.map stored := by
  rw [PostgresApproverRegistry.readSets, h.rows, setRowsIn_flatMap, List.filterMap_map, ← h.rows,
    ← List.filterMap_eq_map]
  refine List.filterMap_congr fun set hset => ?_
  simp only [Function.comp_apply, parseSetId_setRow, h.membersIn hset, mapM_parseMember,
    readSet_setRow, bind, Except.bind, Except.toOption]

end Rows

variable {ms : List ApproverId} {x : Row}

/-! ## Rows that do not clash -/

/-- The set that a row belongs to. -/
def Row.setId : Row → String
  | set row => row.approverSetId
  | member row => row.approverSetId

theorem clash_of_ne {y : Row} (h : x.setId ≠ y.setId) : clash x y = none := by
  cases x <;> cases y <;> simp_all [clash, Row.setId]

theorem clash_ne_none {set other : ApproverSet} (h : set.id = other.id) :
    clash (.set (setRow set)) (.set (setRow other)) ≠ none := by
  have hsame : (setRow set).approverSetId = (setRow other).approverSetId :=
    congrArg Ident.toString h
  rw [clash, if_pos hsame]
  exact Option.some_ne_none _

theorem clash_member_iff {x y : MemberRow} : clash (.member x) (.member y) = none ↔
    ¬ (x.approverSetId = y.approverSetId ∧ x.approverId = y.approverId) ∧
      ¬ (x.approverSetId = y.approverSetId ∧ x.position = y.position) := by
  simp only [clash]
  split
  · next hkey => simp [hkey]
  · next hkey =>
    split
    · next hposition => simp [hposition]
    · next hposition => simp only [hkey, hposition, not_false_eq_true, and_self]

theorem clash_symm {y : Row} (h : clash x y = none) : clash y x = none := by
  cases x with
  | set x =>
    cases y with
    | member y => rfl
    | set y =>
      simp only [clash, ite_eq_right_iff, reduceCtorEq, imp_false] at h ⊢
      exact fun heq => h heq.symm
  | member x =>
    cases y with
    | set y => rfl
    | member y =>
      rw [clash_member_iff] at h ⊢
      exact ⟨fun hsame => h.1 ⟨hsame.1.symm, hsame.2.symm⟩,
        fun hsame => h.2 ⟨hsame.1.symm, hsame.2.symm⟩⟩

theorem setId_of_mem {set : ApproverSet} (h : x ∈ setRows set) :
    x.setId = set.id.toString := by
  rcases List.mem_cons.1 h with rfl | h
  · rfl
  · obtain ⟨row, hrow, rfl⟩ := List.mem_map.1 h
    exact (position_of_mem hrow).1

theorem pairwise_memberRows (setId : ApproverSetId) {pos : Nat} (hdistinct : ms.Nodup)
    (hpos : pos + ms.length ≤ 32768) :
    ((memberRows setId pos ms).map Row.member).Pairwise fun x y => clash x y = none := by
  induction ms generalizing pos with
  | nil => exact .nil
  | cons m ms ih =>
    obtain ⟨hnew, hdistinct⟩ := List.nodup_cons.1 hdistinct
    rw [List.length_cons] at hpos
    refine List.pairwise_cons.2 ⟨fun x hx => ?_, ih hdistinct (by omega)⟩
    obtain ⟨row, hrow, rfl⟩ := List.mem_map.1 hx
    obtain ⟨-, o, ho, hid, p, hle, hlt, hp⟩ := position_of_mem hrow
    have hmember : m.toString ≠ row.approverId := fun heq =>
      hnew (Ident.toString_inj (heq.trans hid) ▸ ho)
    have hposition : Int16.ofNat pos ≠ row.position := fun heq => by
      have hint := congrArg Int16.toInt (heq.trans hp)
      rw [Int16.toInt_ofNat_of_lt (by omega), Int16.toInt_ofNat_of_lt (by omega)] at hint
      omega
    exact clash_member_iff.2 ⟨fun hsame => hmember hsame.2, fun hsame => hposition hsame.2⟩

theorem pairwise_setRows {set : ApproverSet} (h : WellFormed set) :
    (setRows set).Pairwise fun x y => clash x y = none := by
  have hlen := length_members_le h
  refine List.pairwise_cons.2 ⟨fun x hx => ?_, pairwise_memberRows _ h.distinct (by omega)⟩
  obtain ⟨row, -, rfl⟩ := List.mem_map.1 hx
  rfl

theorem Holds.clash_eq_none {sets : List ApproverSet} {rows : List Row} (h : Holds sets rows)
    {set : ApproverSet} (hnew : set.id ∉ sets.map ApproverSet.id) {y : Row} (hx : x ∈ setRows set)
    (hy : y ∈ rows) : clash x y = none := by
  rw [h.rows] at hy
  obtain ⟨other, hother, hy⟩ := List.mem_flatMap.1 hy
  refine clash_of_ne fun heq => hnew (List.mem_map.2 ⟨other, hother, ?_⟩)
  exact Ident.toString_inj ((setId_of_mem hy).symm.trans (heq.symm.trans (setId_of_mem hx)))

/-! ## A creation run alone -/

/-- One operation; the outside world decides its answer. -/
def step (db : Db) (op : Op) (r : Res op) (db' : Db) : Prop := ∃ a, perform db op a = some (r, db')

/-- The table `approvers` has the rows of the registered approvers. -/
structure Registered (d : Deps) (approvers : Approvers) (db : Db) : Prop where
  row : ∀ id : ApproverId, db.approvers id.toString = (approvers id).map (approverRow d)
  key : ∀ {id rec}, approvers id = some rec → rec.approverId = id

/-- The map once the given approvers are loaded. -/
def loaded (approvers acc : Approvers) (ms : List ApproverId) : Approvers :=
  fun id => if id ∈ ms then approvers id else acc id

section Alone

variable {d : Deps} {approvers acc : Approvers} {sets : List ApproverSet} {db db' : Db} {tx : Nat}
  {m : ApproverId}

theorem runs_of_execute {op : Op} {r : Res op} (a : Ans) (ha : a.gone = [])
    (h : execute db op a = some (r, db')) :
    (Prog.perform op : Prog Op Res (Res op)).Runs step db r db' := by
  refine Prog.runs_perform_iff.2 ⟨a, ?_⟩
  rw [perform, ha, Db.abort, Table.abort_nil]
  exact h

theorem loaded_cons (n : ApproverId) (ns : List ApproverId) :
    loaded approvers (loaded approvers acc [n]) ns = loaded approvers acc (n :: ns) := by
  funext id
  simp only [loaded, List.mem_cons, List.not_mem_nil, or_false]
  by_cases hns : id ∈ ns
  · rw [if_pos hns, if_pos (.inr hns)]
  · simp only [hns, if_false, or_false]

theorem loaded_perm {ns ns' : List ApproverId} (h : ns.Perm ns') :
    loaded approvers acc ns = loaded approvers acc ns' := by
  funext id
  simp only [loaded, h.mem_iff]

theorem loaded_or (hacc : ∀ id, acc id = none ∨ acc id = approvers id) (ns : List ApproverId)
    (id : ApproverId) :
    loaded approvers acc ns id = none ∨ loaded approvers acc ns id = approvers id := by
  unfold loaded
  split
  · exact .inr rfl
  · exact hacc id

theorem putApprover_eq {rec : ApproverRecord} (hrec : approvers m = some rec)
    (hkey : rec.approverId = m) : putApprover acc rec = loaded approvers acc [m] := by
  funext id
  rw [putApprover, hkey, loaded]
  by_cases hm : id = m
  · rw [hm, Function.update_self, if_pos List.mem_cons_self, hrec]
  · rw [Function.update_of_ne hm, if_neg fun h => hm (List.mem_singleton.1 h)]

theorem readNeeded_eq (hreg : Registered d approvers db) {n : ApproverId}
    (hacc : acc n = none ∨ acc n = approvers n) :
    readNeeded d acc (db.approvers n.toString) = .ok (loaded approvers acc [n]) := by
  rw [hreg.row]
  cases hrec : approvers n with
  | some rec =>
    rw [Option.map_some, readNeeded, rowToApprover_approverRow, ← putApprover_eq hrec
      (hreg.key hrec)]
    rfl
  | none =>
    have hnone : acc n = none := hacc.elim id fun heq => heq.trans hrec
    refine congrArg Except.ok (funext fun id => ?_)
    rw [loaded]
    split
    · next hid => rw [List.mem_singleton.1 hid, hnone, hrec]
    · rfl

theorem runs_selectApprover (htx : tx ∈ db.sets.active) (m : ApproverId) :
    (selectApprover tx m).Runs step db (.ok (db.approvers m.toString)) db := by
  exact runs_of_execute {} rfl (if_pos htx)

theorem runs_neededOrder (needed : List ApproverId) :
    (neededOrder needed).Runs step db needed db :=
  runs_of_execute { needed } rfl (if_pos (List.isPerm_iff.2 (.refl _)))

theorem runs_setsOrder (sets : List ApproverSet) : (setsOrder sets).Runs step db sets db :=
  runs_of_execute { sets } rfl (if_pos (List.isPerm_iff.2 (.refl _)))

theorem runs_scanSets (hheld : Holds sets (db.visible tx)) (htx : tx ∈ db.sets.active) :
    (scanSets tx).Runs step db (.ok (sets.map setRow)) db := by
  refine runs_of_execute { scan := sets.map setRow } rfl ?_
  rw [execute, hheld.rows, setRowsIn_flatMap, within, if_pos (List.isPerm_iff.2 (.refl _))]
  exact if_pos htx

section Load

variable (hreg : Registered d approvers db) (htx : tx ∈ db.sets.active)
include hreg htx

theorem runs_loadMembers (acc : Approvers) {wallets : List WalletId}
    (h : resolveMembers approvers ms = .ok wallets) :
    (loadMembers d tx ms acc).run.Runs step db (.ok (loaded approvers acc ms)) db := by
  induction ms generalizing acc wallets with
  | nil => exact .ret _ _
  | cons m ms ih =>
    rw [resolveMembers] at h
    split at h
    · cases h
    next rec hrec =>
    split_ifs at h with hactive
    obtain ⟨rest, hrest, -⟩ := bind_eq_ok.1 h
    have hread : readMember d m (db.approvers m.toString) = .ok rec := by
      rw [hreg.row, hrec, Option.map_some, readMember, rowToApprover_approverRow]
      exact if_neg hactive
    rw [← loaded_cons, ← putApprover_eq hrec (hreg.key hrec)]
    exact .run_bind (.orThrow (runs_selectApprover htx m))
      (.run_bind (.ofExcept hread) (ih _ hrest))

theorem runs_loadNeeded {ns : List ApproverId}
    (hacc : ∀ id, acc id = none ∨ acc id = approvers id) :
    (loadNeeded d tx ns acc).run.Runs step db (.ok (loaded approvers acc ns)) db := by
  induction ns generalizing acc with
  | nil => exact .ret _ _
  | cons n ns ih =>
    rw [← loaded_cons]
    exact .run_bind (.orThrow (runs_selectApprover htx n))
      (.run_bind (.ofExcept (readNeeded_eq hreg (hacc n))) (ih (loaded_or hacc [n])))

end Load

variable {create : ApproverSetCreate} {wallets : List WalletId} {setId : ApproverSetId}
  {found : List ApproverSet} {row : Row} {fault : Option String}

theorem runs_loadSets (hheld : Holds sets (db.visible tx)) (htx : tx ∈ db.sets.active)
    {rest : List ApproverSet} (hrest : rest ⊆ sets) (acc : List ApproverSet) :
    ∃ result, (loadSets d tx (rest.map setRow) acc).run.Runs step db (.ok result) db ∧
      ∀ x ∈ result, x ∈ acc ∨ x ∈ rest.map stored := by
  induction rest generalizing acc with
  | nil => exact ⟨acc, .ret _ _, fun x hx => .inl hx⟩
  | cons set rest ih =>
    obtain ⟨hset, hrest⟩ := List.cons_subset.1 hrest
    obtain ⟨result, hrun, hmem⟩ := ih hrest (putSet acc (stored set))
    have hfetch : (fetchSetMembers d tx set.id).run.Runs step db (.ok set.members) db := by
      refine .run_bind (.orThrow (runs_of_execute {} rfl (if_pos htx))) (.ofExcept ?_)
      rw [hheld.membersIn hset, mapM_parseMember]
    refine ⟨result, ?_, fun x hx => ?_⟩
    · exact .run_bind (.ofExcept (parseSetId_setRow d set))
        (.run_bind hfetch (.run_bind (.ofExcept (readSet_setRow set)) hrun))
    · rw [List.map_cons]
      rcases hmem x hx with hx | hx
      · rcases List.mem_cons.1 hx with rfl | hx
        · exact .inr List.mem_cons_self
        · exact .inl (List.mem_of_mem_filter hx)
      · exact .inr (List.mem_cons_of_mem _ hx)

theorem loaded_needed {members : List ApproverId}
    (hm : m ∈ members ∨ m ∈ found.flatMap ApproverSet.members) :
    loaded approvers (loaded approvers (fun _ => none) members)
      (neededApprovers (loaded approvers (fun _ => none) members) found) m = approvers m := by
  by_cases hmember : m ∈ members
  · simp [loaded, hmember]
  · have hneeded : m ∈ neededApprovers (loaded approvers (fun _ => none) members) found := by
      refine List.mem_dedup.2 (List.mem_filter.2 ⟨hm.resolve_left hmember, ?_⟩)
      rw [loaded, if_neg hmember]
      rfl
    rw [loaded, if_pos hneeded]

theorem alone_of_loaded {w : WalletId}
    (hacc : ∀ m ∈ found.flatMap ApproverSet.members, acc m = approvers m)
    (hfound : found ⊆ sets.map stored) (h : Quorum.Alone approvers sets w) :
    Quorum.Alone acc found w := by
  intro x hx
  obtain ⟨set, hset, rfl⟩ := List.mem_map.1 (hfound hx)
  have hnested : ∀ v, NestedIn acc (stored set) v → NestedIn approvers set v := by
    rintro v ⟨m, hm, hv⟩
    refine ⟨m, hm, ?_⟩
    rwa [nestedMember, hacc m (List.mem_flatMap.2 ⟨_, hx, hm⟩)] at hv
  exact fun hw v hv => h set hset (hnested w hw) v (hnested v hv)

/-- **The check passes if the nested wallets are alone.** -/
theorem runs_checkSet (hreg : Registered d approvers db) (hheld : Holds sets (db.visible tx))
    (htx : tx ∈ db.sets.active) (hmembers : resolveMembers approvers create.members = .ok wallets)
    (halone : ∀ w ∈ wallets, Quorum.Alone approvers sets w) :
    (checkSet d create tx).run.Runs step db (.ok ()) db := by
  obtain ⟨found, hload, hfound⟩ := runs_loadSets hheld htx (List.Subset.refl sets) []
  obtain ⟨acc, hacc⟩ : ∃ acc, acc = loaded approvers (fun _ => none) create.members := ⟨_, rfl⟩
  have hmap : ∀ id, acc id = none ∨ acc id = approvers id :=
    hacc ▸ loaded_or (fun _ => .inl rfl) _
  have hagree : ∀ m, m ∈ create.members ∨ m ∈ found.flatMap ApproverSet.members →
      loaded approvers acc (neededApprovers acc found) m = approvers m := by
    rw [hacc]
    exact fun m => loaded_needed
  have hwalk : walkAll (loaded approvers acc (neededApprovers acc found)) found
      (nestedWallets (loaded approvers acc (neededApprovers acc found)) create.members) =
        .ok () := by
    refine Option.get_of_eq_some _ (checkNesting_ok_iff.2 fun w hw => ?_)
    refine alone_of_loaded (fun m hm => hagree m (.inr hm))
      (fun x hx => (hfound x hx).resolve_left List.not_mem_nil) (halone w ?_)
    obtain ⟨m, hm, hnested⟩ := List.mem_filterMap.1 hw
    rw [nestedWallets_of_resolveMembers hmembers]
    refine List.mem_filterMap.2 ⟨m, hm, ?_⟩
    rwa [nestedMember, hagree m (.inl hm)] at hnested
  have hmembers := runs_loadMembers hreg htx (fun _ => none) hmembers
  rw [← hacc] at hmembers
  exact .run_bind hmembers (.run_bind (.orThrow (runs_scanSets hheld htx)) (.run_bind hload
    (.run_bind (.lift (runs_neededOrder _)) (.run_bind (runs_loadNeeded hreg htx hmap)
      (.run_bind (.lift (runs_setsOrder _)) (.ofExcept hwalk))))))

/-! ### Storing -/

/-- Rows that a transaction has inserted. -/
def Db.add (db : Db) (tx : Nat) (rows : List Row) : Db :=
  { db with sets := { db.sets with pending := db.sets.pending ++ rows.map (tx, ·) } }

theorem Db.add_cons (row : Row) (rows : List Row) :
    db.add tx (row :: rows) = (db.add tx [row]).add tx rows := by
  simp [Db.add]

theorem Db.all_add (rows : List Row) : (db.add tx rows).sets.all = db.sets.all ++ rows := by
  simp [Db.add, Table.all, Function.comp_def]

theorem Db.own_add (rows : List Row) : (db.add tx rows).sets.own tx = db.sets.own tx ++ rows := by
  simp [Db.add, Table.own, Function.comp_def, List.filter_map]

theorem insertRow_of_free (h : ∀ x ∈ db.sets.all, clash row x = none) :
    insertRow db tx row = some (.ok (), db.add tx [row]) := by
  rw [insertRow, Table.insert_of_free h]
  rfl

theorem runs_insertMembers {pos : Nat} (htx : tx ∈ db.sets.active) (hpos : pos + ms.length ≤ 32768)
    (hset : setId.toString ∈ (setRowsIn (db.visible tx)).map SetRow.approverSetId)
    (happrovers : ∀ m ∈ ms, db.approvers m.toString ≠ none) (hdistinct : ms.Nodup)
    (hfree : ∀ row ∈ memberRows setId pos ms, ∀ x ∈ db.sets.all, clash (.member row) x = none) :
    (insertMembers tx setId pos ms).run.Runs step db (.ok ())
      (db.add tx ((memberRows setId pos ms).map .member)) := by
  induction ms generalizing pos db with
  | nil =>
    have hnil : db.add tx [] = db := by simp [Db.add]
    rw [memberRows, List.map_nil, hnil]
    exact .ret _ _
  | cons m ms ih =>
    have hpairwise := List.pairwise_cons.1 (pairwise_memberRows setId hdistinct hpos)
    rw [List.length_cons] at hpos
    have hposition : positionColumn pos = .ok (Int16.ofNat pos) := if_pos (by omega)
    have hkey : foreignKey db tx ⟨setId.toString, m.toString, Int16.ofNat pos⟩ = none := by
      rw [foreignKey, if_neg (not_not.2 hset), if_neg]
      rw [Option.isNone_iff_eq_none]
      exact happrovers m List.mem_cons_self
    have hinsert : (insertMember tx ⟨setId.toString, m.toString, Int16.ofNat pos⟩).Runs step db
        (.ok ()) (db.add tx [.member ⟨setId.toString, m.toString, Int16.ofNat pos⟩]) := by
      refine runs_of_execute {} rfl ?_
      rw [execute, hkey, insertRow_of_free (hfree _ List.mem_cons_self)]
      exact if_pos htx
    have hrest : (insertMembers tx setId (pos + 1) ms).run.Runs step
        (db.add tx [.member ⟨setId.toString, m.toString, Int16.ofNat pos⟩]) (.ok ())
        (db.add tx ((memberRows setId pos (m :: ms)).map .member)) := by
      rw [memberRows, List.map_cons, Db.add_cons _ (List.map _ _)]
      refine ih htx ?_ ?_
        (fun o ho => happrovers o (List.mem_cons_of_mem _ ho)) (List.nodup_cons.1 hdistinct).2
        fun row hrow x hx => ?_
      · omega
      · rw [Db.visible, Db.own_add, ← List.append_assoc, setRowsIn, List.filterMap_append,
          List.map_append]
        exact List.mem_append_left _ hset
      · rw [Db.all_add] at hx
        rcases mem_concat_iff.1 hx with hx | hx
        · exact hfree row (List.mem_cons_of_mem _ hrow) x hx
        · obtain rfl := hx
          exact clash_symm (hpairwise.1 _ (List.mem_map_of_mem hrow))
    exact .run_bind (.ofExcept hposition) (.run_bind (.orThrow hinsert) hrest)

/-- What a creation leaves behind: the rows of its set are committed. -/
structure Stored (set : ApproverSet) (db db' : Db) : Prop where
  approvers : db'.approvers = db.approvers
  rows : db'.sets.rows = db.sets.rows ++ setRows set
  pending : db'.sets.pending = []

theorem runs_storeSet {set : ApproverSet} (hheld : Holds sets db.sets.rows)
    (hpending : db.sets.pending = []) (htx : tx ∈ db.sets.active)
    (hwell : WellFormed set) (hnew : set.id ∉ sets.map ApproverSet.id)
    (happrovers : ∀ m ∈ set.members, db.approvers m.toString ≠ none) :
    ∃ db', (storeSet set tx).run.Runs step db (.ok set) db' ∧ Stored set db db' := by
  have hall : db.sets.all = db.sets.rows := by rw [Table.all, hpending, List.map_nil,
    List.append_nil]
  have hown : db.sets.own tx = [] := by rw [Table.own, hpending, List.filter_nil, List.map_nil]
  have hlen := length_members_le hwell
  have hinsert : (insertSet tx (setRow set)).Runs step db (.ok ())
      (db.add tx [.set (setRow set)]) := by
    refine runs_of_execute {} rfl ?_
    rw [execute, insertRow_of_free fun x hx => ?_]
    · exact if_pos htx
    · rw [hall] at hx
      exact hheld.clash_eq_none hnew List.mem_cons_self hx
  have hmembers : (insertMembers tx set.id 0 set.members).run.Runs step
      (db.add tx [.set (setRow set)]) (.ok ()) (db.add tx (setRows set)) := by
    rw [setRows, Db.add_cons _ (List.map _ _)]
    refine runs_insertMembers htx ?_ ?_ happrovers
      hwell.distinct fun row hrow x hx => ?_
    · omega
    · rw [Db.visible, Db.own_add, hown, List.nil_append, setRowsIn, List.filterMap_append,
        List.map_append]
      exact List.mem_append_right _ List.mem_cons_self
    · rw [Db.all_add, hall] at hx
      rcases mem_concat_iff.1 hx with hx | hx
      · exact hheld.clash_eq_none hnew (List.mem_cons_of_mem _ (List.mem_map_of_mem hrow)) hx
      · obtain rfl := hx
        rfl
  have hcommit : (commit tx).Runs step (db.add tx (setRows set)) (.ok ())
      { db with sets := (db.add tx (setRows set)).sets.commit tx } :=
    runs_of_execute {} rfl (if_pos htx)
  refine ⟨_, .run_bind (.orThrow hinsert) (.run_bind hmembers (.run_bind (.orThrow hcommit)
    (.ret _ _))), rfl, ?_, ?_⟩
  · change db.sets.rows ++ (db.add tx (setRows set)).sets.own tx = _
    rw [Db.own_add, hown, List.nil_append]
  · simp [Table.commit, Db.add, hpending]

/-- **A creation that is made alone succeeds, and stores its set, if its shape and its members are
valid, its nested wallets are alone and the id it draws is new.** -/
theorem runs_createApproverSet (hreg : Registered d approvers db) (hheld : Holds sets db.sets.rows)
    (hpending : db.sets.pending = []) (hshape : validateSetShape create = .ok ())
    (hmembers : resolveMembers approvers create.members = .ok wallets)
    (halone : ∀ w ∈ wallets, Quorum.Alone approvers sets w) {id : ApproverSetId}
    (hnew : id ∉ sets.map ApproverSet.id) (now : Int64) :
    ∃ db', (createApproverSet d create).Runs step db (.ok (newSet create id now)) db' ∧
      Stored (newSet create id now) db db' := by
  obtain ⟨opened, hopened⟩ : ∃ opened : Db, opened = { db with sets := db.sets.begin.2 } := ⟨_, rfl⟩
  have htx : db.sets.next ∈ opened.sets.active := hopened ▸ List.mem_cons_self
  have hreg' : Registered d approvers opened := by
    subst hopened
    exact ⟨hreg.row, hreg.key⟩
  have hrows : opened.sets.rows = db.sets.rows := hopened ▸ rfl
  have hpending' : opened.sets.pending = [] := by rw [← hpending, hopened]; rfl
  have hvisible : opened.visible db.sets.next = db.sets.rows := by
    rw [Db.visible, Table.own, hpending', List.filter_nil, List.map_nil, List.append_nil, hrows]
  have hbegin : begin.Runs step db (.ok db.sets.next) opened :=
    runs_of_execute {} rfl (hopened ▸ rfl)
  have hregistered : ∀ m ∈ create.members, opened.approvers m.toString ≠ none := by
    intro m hm
    obtain ⟨rec, hrec, -⟩ :=
      MemoryApproverRegistry.active_of_resolveMembers (s := ⟨approvers, sets⟩) hmembers m hm
    rw [hreg'.row, show approvers m = some rec from hrec]
    exact Option.some_ne_none _
  have hcheck := runs_checkSet hreg' (hvisible ▸ hheld) htx hmembers halone
  obtain ⟨db', hstore, hstored⟩ := runs_storeSet (hrows ▸ hheld) hpending' htx
    (wellFormed_newSet hshape id now) hnew hregistered
  refine ⟨db', ?_, hstored.approvers.trans (hopened ▸ rfl), hrows ▸ hstored.rows,
    hstored.pending⟩
  have hid : newApproverSetId.Runs step opened id opened := runs_of_execute { id } rfl rfl
  have hnow : nowUnixMs.Runs step opened now opened := runs_of_execute { now } rfl rfl
  exact .run_bind (.ofExcept hshape) (.run_bind (.orThrow hbegin) (.run_bind hcheck
    (.run_bind (.lift hid) (.run_bind (.lift hnow) hstore))))

/-! ### What a creation that succeeded did -/

theorem within_eq_some {β : Type} {answer : Option (Except String β × Db)} {r : Except String β}
    (h : within db tx fault answer = some (r, db')) :
    (∃ text, r = .error text ∧ db' = db.abort [tx]) ∨
      tx ∈ db.sets.active ∧ answer = some (r, db') := by
  unfold within at h
  split at h
  · cases h
    exact .inl ⟨_, rfl, rfl⟩
  · exact .inr (Option.ite_none_right_eq_some.1 h)

theorem answer_of_within {β : Type} {answer : Option (Except String β × Db)} {b : β}
    (h : within db tx fault answer = some (.ok b, db')) :
    tx ∈ db.sets.active ∧ answer = some (.ok b, db') := by
  obtain ⟨text, hr, -⟩ | h := within_eq_some h
  · cases hr
  · exact h

theorem insertRow_cases {r : Except String Unit} (h : insertRow db tx row = some (r, db')) :
    (∃ text, r = .error text ∧ db' = db.abort [tx]) ∨
      r = .ok () ∧ ∃ sets, db.sets.insert clash tx row = .done sets ∧ db' = { db with sets } := by
  unfold insertRow at h
  split at h
  · next sets hinsert =>
    cases h
    exact .inr ⟨rfl, sets, hinsert, rfl⟩
  · cases h
    exact .inl ⟨_, rfl, rfl⟩
  · cases h

/-- The database while a creation that is made alone runs: as long as its transaction is open, its
rows are all that is pending. -/
structure Writing (db₀ : Db) (tx : Nat) (new : List Row) (db : Db) : Prop where
  approvers : db.approvers = db₀.approvers
  rows : db.sets.rows = db₀.sets.rows
  pending : tx ∈ db.sets.active → db.sets.pending = new.map (tx, ·)

variable {db₀ : Db} {new : List Row}

theorem Writing.abort (h : Writing db₀ tx new db) (gone : List Nat) :
    Writing db₀ tx new (db.abort gone) := by
  refine ⟨h.approvers, h.rows, fun hactive => ?_⟩
  obtain ⟨hactive, hkept⟩ := List.mem_filter.1 hactive
  rw [← h.pending hactive]
  refine List.filter_eq_self.2 fun x hx => ?_
  rw [h.pending hactive] at hx
  obtain ⟨row, -, rfl⟩ := List.mem_map.1 hx
  exact hkept

theorem Writing.visible (h : Writing db₀ tx [] db) (htx : tx ∈ db.sets.active) :
    db.visible tx = db₀.sets.rows := by
  rw [Db.visible, Table.own_of_pending (h.pending htx), List.append_nil, h.rows]

section Reads

variable (h : Writing db₀ tx [] db)
include h

theorem Writing.selectApprover {row : Option ApproverRow}
    (hrun : (selectApprover tx m).Runs step db (.ok row) db') :
    Writing db₀ tx [] db' ∧ row = db₀.approvers m.toString := by
  obtain ⟨a, hrun⟩ := Prog.runs_perform_iff.1 hrun
  cases (answer_of_within hrun).2
  exact ⟨h.abort a.gone, congrFun h.approvers _⟩

theorem Writing.scanSets {rows : List SetRow}
    (hrun : (scanSets tx).Runs step db (.ok rows) db') :
    Writing db₀ tx [] db' ∧ rows.Perm (setRowsIn db₀.sets.rows) := by
  obtain ⟨a, hrun⟩ := Prog.runs_perform_iff.1 hrun
  obtain ⟨htx, hanswer⟩ := answer_of_within hrun
  obtain ⟨hperm, hanswer⟩ := Option.ite_none_right_eq_some.1 hanswer
  cases hanswer
  rw [(h.abort a.gone).visible htx] at hperm
  exact ⟨h.abort a.gone, List.isPerm_iff.1 hperm⟩

theorem Writing.selectSetMembers {rows : List MemberRow}
    (hrun : (selectSetMembers tx setId).Runs step db (.ok rows) db') :
    Writing db₀ tx [] db' ∧ rows = membersIn db₀.sets.rows setId.toString := by
  obtain ⟨a, hrun⟩ := Prog.runs_perform_iff.1 hrun
  obtain ⟨htx, hanswer⟩ := answer_of_within hrun
  cases hanswer
  rw [(h.abort a.gone).visible htx]
  exact ⟨h.abort a.gone, rfl⟩

theorem Writing.neededOrder {needed order : List ApproverId}
    (hrun : (neededOrder needed).Runs step db order db') :
    Writing db₀ tx [] db' ∧ order.Perm needed := by
  obtain ⟨a, hrun⟩ := Prog.runs_perform_iff.1 hrun
  obtain ⟨hperm, hanswer⟩ := Option.ite_none_right_eq_some.1 hrun
  cases hanswer
  exact ⟨h.abort a.gone, List.isPerm_iff.1 hperm⟩

theorem Writing.setsOrder {found order : List ApproverSet}
    (hrun : (setsOrder found).Runs step db order db') :
    Writing db₀ tx [] db' ∧ order.Perm found := by
  obtain ⟨a, hrun⟩ := Prog.runs_perform_iff.1 hrun
  obtain ⟨hperm, hanswer⟩ := Option.ite_none_right_eq_some.1 hrun
  cases hanswer
  exact ⟨h.abort a.gone, List.isPerm_iff.1 hperm⟩

end Reads

theorem active_of_readMember (hreg : Registered d approvers db₀) {rec : ApproverRecord}
    (h : readMember d m (db₀.approvers m.toString) = .ok rec) :
    approvers m = some rec ∧ rec.status = .active := by
  rw [hreg.row] at h
  cases hrec : approvers m with
  | none =>
    rw [hrec] at h
    cases h
  | some other =>
    rw [hrec, Option.map_some, readMember, rowToApprover_approverRow] at h
    change (if other.status ≠ .active then .error (.revokedMember m) else .ok other :
      Except RegistryError ApproverRecord) = _ at h
    split_ifs at h with hactive
    cases h
    exact ⟨rfl, not_not.1 hactive⟩

theorem resolveMembers_of_read (hreg : Registered d approvers db₀)
    (h : ∀ m ∈ ms, ∃ rec, readMember d m (db₀.approvers m.toString) = .ok rec) :
    resolveMembers approvers ms = .ok (nestedWallets approvers ms) := by
  suffices hok : ∃ wallets, resolveMembers approvers ms = .ok wallets by
    obtain ⟨wallets, hok⟩ := hok
    rw [hok, nestedWallets_of_resolveMembers hok]
  induction ms with
  | nil => exact ⟨[], rfl⟩
  | cons m ms ih =>
    obtain ⟨wallets, hrest⟩ := ih fun o ho => h o (List.mem_cons_of_mem _ ho)
    obtain ⟨rec, hread⟩ := h m List.mem_cons_self
    obtain ⟨hrec, hactive⟩ := active_of_readMember hreg hread
    refine ⟨rec.identity.nested?.toList ++ wallets, ?_⟩
    simp only [resolveMembers, hrec, hactive, hrest, ne_eq, not_true_eq_false, if_false, bind,
      Except.bind]

section Succeeds

variable (hreg : Registered d approvers db₀) (hwriting : Writing db₀ tx [] db)
include hreg hwriting

theorem loaded_of_loadMembers {acc' : Approvers}
    (h : (loadMembers d tx ms acc).run.Runs step db (.ok acc') db') :
    Writing db₀ tx [] db' ∧ acc' = loaded approvers acc ms ∧
      ∀ m ∈ ms, ∃ rec, readMember d m (db₀.approvers m.toString) = .ok rec := by
  induction ms generalizing acc db with
  | nil =>
    obtain ⟨hacc, rfl⟩ := Prog.runs_run_pure_iff.1 h
    cases hacc
    exact ⟨hwriting, rfl, nofun⟩
  | cons m ms ih =>
    obtain ⟨row, db₁, hselect, h₁⟩ := h.ok_of_bind
    obtain ⟨hwriting₁, rfl⟩ := hwriting.selectApprover hselect.ok_of_orThrow
    obtain ⟨rec, hok, h₂⟩ := h₁.ok_of_ofExcept_bind
    obtain ⟨hwriting', hacc, hrest⟩ := ih hwriting₁ h₂
    obtain ⟨hrec, -⟩ := active_of_readMember hreg hok
    rw [putApprover_eq hrec (hreg.key hrec), loaded_cons] at hacc
    refine ⟨hwriting', hacc, fun o ho => ?_⟩
    rcases List.mem_cons.1 ho with rfl | ho
    · exact ⟨rec, hok⟩
    · exact hrest o ho

theorem loaded_of_loadNeeded {ns : List ApproverId} {acc' : Approvers}
    (hacc : ∀ id, acc id = none ∨ acc id = approvers id)
    (h : (loadNeeded d tx ns acc).run.Runs step db (.ok acc') db') :
    Writing db₀ tx [] db' ∧ acc' = loaded approvers acc ns := by
  induction ns generalizing acc db with
  | nil =>
    obtain ⟨hok, rfl⟩ := Prog.runs_run_pure_iff.1 h
    cases hok
    exact ⟨hwriting, rfl⟩
  | cons n ns ih =>
    obtain ⟨row, db₁, hselect, h₁⟩ := h.ok_of_bind
    obtain ⟨hwriting₁, rfl⟩ := hwriting.selectApprover hselect.ok_of_orThrow
    obtain ⟨acc₁, hok, h₂⟩ := h₁.ok_of_ofExcept_bind
    rw [readNeeded_eq hreg (hacc n)] at hok
    cases hok
    obtain ⟨hwriting', heq⟩ := ih hwriting₁ (loaded_or hacc [n]) h₂
    exact ⟨hwriting', heq.trans (loaded_cons n ns)⟩

end Succeeds

theorem found_of_loadSets (hwriting : Writing db₀ tx [] db) (hheld : Holds sets db₀.sets.rows)
    {rows : List SetRow} {result : List ApproverSet}
    (hrows : ∀ row ∈ rows, ∃ set ∈ sets, row = setRow set)
    (hdistinct : (rows.map SetRow.approverSetId).Nodup)
    (h : (loadSets d tx rows found).run.Runs step db (.ok result) db') :
    Writing db₀ tx [] db' ∧
      (∀ x ∈ found, x.id.toString ∉ rows.map SetRow.approverSetId → x ∈ result) ∧
      ∀ set ∈ sets, setRow set ∈ rows → stored set ∈ result := by
  induction rows generalizing found db with
  | nil =>
    obtain ⟨hok, rfl⟩ := Prog.runs_run_pure_iff.1 h
    cases hok
    exact ⟨hwriting, fun x hx _ => hx, fun set _ hmem => absurd hmem List.not_mem_nil⟩
  | cons row rows ih =>
    obtain ⟨set, hset, rfl⟩ := hrows _ List.mem_cons_self
    obtain ⟨hnew, hdistinct⟩ := List.nodup_cons.1 hdistinct
    obtain ⟨id, hok, h₁⟩ := h.ok_of_ofExcept_bind
    rw [parseSetId_setRow] at hok
    cases hok
    obtain ⟨members, db₂, hfetch, h₂⟩ := h₁.ok_of_bind
    obtain ⟨other, hread, h₃⟩ := h₂.ok_of_ofExcept_bind
    obtain ⟨memberRows, db₄, hselect, h₄⟩ := hfetch.ok_of_bind
    obtain ⟨hwriting₁, rfl⟩ := hwriting.selectSetMembers hselect.ok_of_orThrow
    obtain ⟨hok, rfl⟩ := Prog.runs_run_ofExcept_iff.1 h₄
    rw [hheld.membersIn hset, mapM_parseMember] at hok
    cases hok
    rw [readSet_setRow] at hread
    cases hread
    obtain ⟨hwriting', hkept, hfound⟩ := ih hwriting₁
      (fun row hrow => hrows row (List.mem_cons_of_mem _ hrow)) hdistinct h₃
    refine ⟨hwriting', fun x hx hid => ?_, fun other hother hrow => ?_⟩
    · obtain ⟨hne, hrest⟩ := not_or.1 (fun hmem => hid (List.mem_cons.2 hmem))
      refine hkept x (List.mem_cons_of_mem _ (List.mem_filter.2 ⟨hx, decide_eq_true ?_⟩)) hrest
      exact fun heq => hne (congrArg Ident.toString heq)
    · rcases List.mem_cons.1 hrow with heq | hrow
      · rw [List.inj_on_of_nodup_map hheld.distinct hother hset (id_of_setRow heq)]
        exact hkept _ List.mem_cons_self hnew
      · exact hfound other hother hrow

/-- **A check that passed found the nested wallets alone.** -/
theorem alone_of_checkSet (hreg : Registered d approvers db₀) (hwriting : Writing db₀ tx [] db)
    (hheld : Holds sets db₀.sets.rows) (h : (checkSet d create tx).run.Runs step db (.ok ()) db') :
    Writing db₀ tx [] db' ∧
      resolveMembers approvers create.members = .ok (nestedWallets approvers create.members) ∧
      ∀ w ∈ nestedWallets approvers create.members, Quorum.Alone approvers sets w := by
  obtain ⟨acc, db₁, hmembers, h₁⟩ := h.ok_of_bind
  obtain ⟨rows, db₂, hscan, h₂⟩ := h₁.ok_of_bind
  obtain ⟨found, db₃, hload, h₃⟩ := h₂.ok_of_bind
  obtain ⟨needed, db₄, hneeded, h₄⟩ := h₃.ok_of_bind
  obtain ⟨acc', db₅, hneed, h₅⟩ := h₄.ok_of_bind
  obtain ⟨order, db₆, horder, h₆⟩ := h₅.ok_of_bind
  obtain ⟨hwriting₁, hacc, hread⟩ := loaded_of_loadMembers hreg hwriting hmembers
  obtain ⟨hwriting₂, hperm⟩ := hwriting₁.scanSets hscan.ok_of_orThrow
  rw [hheld.rows, setRowsIn_flatMap] at hperm
  have hrows : ∀ row ∈ rows, ∃ set ∈ sets, row = setRow set := fun row hrow => by
    obtain ⟨set, hset, rfl⟩ := List.mem_map.1 (hperm.subset hrow)
    exact ⟨set, hset, rfl⟩
  have hdistinct : (rows.map SetRow.approverSetId).Nodup := by
    refine (hperm.map SetRow.approverSetId).nodup_iff.2 ?_
    rw [List.map_map]
    have htexts : ((sets.map ApproverSet.id).map Ident.toString).Nodup :=
      hheld.distinct.map fun _ _ => Ident.toString_inj
    rwa [List.map_map] at htexts
  obtain ⟨hwriting₃, -, hfound⟩ := found_of_loadSets hwriting₂ hheld hrows hdistinct hload
  obtain ⟨hwriting₄, hneeded⟩ := hwriting₃.neededOrder hneeded.of_lift
  obtain ⟨hwriting₅, hacc'⟩ := loaded_of_loadNeeded hreg hwriting₄
    (hacc ▸ loaded_or (fun _ => .inl rfl) _) hneed
  obtain ⟨hwriting₆, hperm'⟩ := hwriting₅.setsOrder horder.of_lift
  obtain ⟨hwalk, rfl⟩ := Prog.runs_run_ofExcept_iff.1 h₆
  refine ⟨hwriting₆, resolveMembers_of_read hreg hread, ?_⟩
  have hagree : ∀ m, m ∈ create.members ∨ m ∈ found.flatMap ApproverSet.members →
      acc' m = approvers m := by
    rw [hacc', loaded_perm hneeded, hacc]
    exact fun m => loaded_needed
  have hpassed : checkNesting acc' order (nestedWallets acc' create.members) = some (.ok ()) := by
    rw [hwalk]
    exact (Option.some_get _).symm
  intro w hw set hset hnested v hv
  obtain ⟨m, hm, hwallet⟩ := List.mem_filterMap.1 hw
  have hmem := hfound set hset (hperm.symm.subset (List.mem_map_of_mem hset))
  have hnested' : ∀ v, NestedIn approvers set v → NestedIn acc' (stored set) v := by
    rintro v ⟨o, ho, hov⟩
    refine ⟨o, ho, ?_⟩
    rwa [nestedMember, hagree o (.inr (List.mem_flatMap.2 ⟨_, hmem, ho⟩))]
  refine checkNesting_ok_iff.1 hpassed w (List.mem_filterMap.2 ⟨m, hm, ?_⟩) _
    (hperm'.symm.subset hmem) (hnested' w hnested) v (hnested' v hv)
  rwa [nestedMember, hagree m (.inl hm)]

theorem Writing.insertRow (h : Writing db₀ tx new db) (htx : tx ∈ db.sets.active)
    (hinsert : insertRow db tx row = some (.ok (), db')) :
    Writing db₀ tx (new ++ [row]) db' ∧ ∀ x ∈ db₀.sets.rows, clash row x = none := by
  obtain ⟨text, hr, -⟩ | ⟨-, table, hdone, rfl⟩ := insertRow_cases hinsert
  · cases hr
  · refine ⟨⟨h.approvers, ?_, fun _ => ?_⟩, fun x hx => ?_⟩
    · rw [Table.eq_of_insert hdone]
      exact h.rows
    · rw [Table.eq_of_insert hdone, List.map_append, ← h.pending htx]
      rfl
    · exact (Table.all_insert hdone).2 x (List.mem_append_left _ (h.rows ▸ hx))

theorem Writing.insertSet {row : SetRow} (h : Writing db₀ tx new db)
    (hrun : (insertSet tx row).Runs step db (.ok ()) db') :
    Writing db₀ tx (new ++ [.set row]) db' ∧ ∀ x ∈ db₀.sets.rows, clash (.set row) x = none := by
  obtain ⟨a, hrun⟩ := Prog.runs_perform_iff.1 hrun
  obtain ⟨htx, hinsert⟩ := answer_of_within hrun
  exact (h.abort a.gone).insertRow htx hinsert

theorem Writing.insertMember {row : MemberRow} (h : Writing db₀ tx new db)
    (hrun : (insertMember tx row).Runs step db (.ok ()) db') :
    Writing db₀ tx (new ++ [.member row]) db' := by
  obtain ⟨a, hrun⟩ := Prog.runs_perform_iff.1 hrun
  obtain ⟨htx, hinsert⟩ := answer_of_within hrun
  split at hinsert
  · cases hinsert
  · exact ((h.abort a.gone).insertRow htx hinsert).1

theorem Writing.insertMembers {pos : Nat} (h : Writing db₀ tx new db)
    (hrun : (insertMembers tx setId pos ms).run.Runs step db (.ok ()) db') :
    Writing db₀ tx (new ++ (memberRows setId pos ms).map .member) db' := by
  induction ms generalizing new pos db with
  | nil =>
    obtain ⟨-, rfl⟩ := Prog.runs_run_pure_iff.1 hrun
    rwa [memberRows, List.map_nil, List.append_nil]
  | cons m ms ih =>
    obtain ⟨position, hok, h₁⟩ := hrun.ok_of_ofExcept_bind
    obtain ⟨u, db₂, hinsert, h₂⟩ := h₁.ok_of_bind
    rw [positionColumn] at hok
    split at hok
    · cases hok
      rw [memberRows, List.map_cons, List.append_cons]
      exact ih (h.insertMember hinsert.ok_of_orThrow) h₂
    · cases hok

theorem Writing.commit (h : Writing db₀ tx new db)
    (hrun : (commit tx).Runs step db (.ok ()) db') :
    db'.approvers = db₀.approvers ∧ db'.sets.rows = db₀.sets.rows ++ new ∧
      db'.sets.pending = [] := by
  obtain ⟨a, hrun⟩ := Prog.runs_perform_iff.1 hrun
  simp only [perform, execute] at hrun
  split at hrun
  · cases hrun
  · split_ifs at hrun with htx
    cases hrun
    have hpending := (h.abort a.gone).pending htx
    refine ⟨h.approvers, ?_, ?_⟩
    · change db.sets.rows ++ (db.abort a.gone).sets.own tx = _
      rw [Table.own_of_pending hpending, h.rows]
    · exact Table.pending_commit hpending

theorem stored_of_storeSet (hwriting : Writing db₀ tx [] db) (hheld : Holds sets db₀.sets.rows)
    {set set' : ApproverSet} (h : (storeSet set tx).run.Runs step db (.ok set') db') :
    set' = set ∧ set.id ∉ sets.map ApproverSet.id ∧ Stored set db₀ db' := by
  obtain ⟨u₁, db₁, hset, h₁⟩ := h.ok_of_bind
  obtain ⟨u₂, db₂, hmembers, h₂⟩ := h₁.ok_of_bind
  obtain ⟨u₃, db₃, hcommit, h₃⟩ := h₂.ok_of_bind
  obtain ⟨hok, rfl⟩ := Prog.runs_run_pure_iff.1 h₃
  cases hok
  obtain ⟨hwriting₁, hfree⟩ := hwriting.insertSet hset.ok_of_orThrow
  obtain ⟨happrovers, hrows, hpending⟩ :=
    (hwriting₁.insertMembers hmembers).commit hcommit.ok_of_orThrow
  refine ⟨rfl, fun hmem => ?_, happrovers, hrows, hpending⟩
  obtain ⟨other, hother, hid⟩ := List.mem_map.1 hmem
  have hrow : Row.set (setRow other) ∈ db₀.sets.rows := by
    rw [hheld.rows]
    exact List.mem_flatMap.2 ⟨other, hother, List.mem_cons_self⟩
  exact clash_ne_none hid.symm (hfree _ hrow)

/-- **A creation that is made alone succeeds only if its shape and its members are valid, its nested
wallets are alone and the id it draws is new.** -/
theorem created_of_runs (hreg : Registered d approvers db) (hheld : Holds sets db.sets.rows)
    (hpending : db.sets.pending = []) {set : ApproverSet}
    (h : (createApproverSet d create).Runs step db (.ok set) db') :
    validateSetShape create = .ok () ∧
      resolveMembers approvers create.members = .ok (nestedWallets approvers create.members) ∧
      (∀ w ∈ nestedWallets approvers create.members, Quorum.Alone approvers sets w) ∧
      ∃ id now, set = newSet create id now ∧ id ∉ sets.map ApproverSet.id ∧
        Stored set db db' := by
  obtain ⟨u₁, hshape, h₁⟩ := Prog.Runs.ok_of_ofExcept_bind h
  obtain ⟨tx, db₂, hbegin, h₂⟩ := h₁.ok_of_bind
  obtain ⟨u₂, db₃, hcheck, h₃⟩ := h₂.ok_of_bind
  obtain ⟨id, db₄, hid, h₄⟩ := h₃.ok_of_bind
  obtain ⟨now, db₅, hnow, h₅⟩ := h₄.ok_of_bind
  have hwriting₂ : Writing db tx [] db₂ := by
    obtain ⟨a, ha⟩ := Prog.runs_perform_iff.1 hbegin.ok_of_orThrow
    simp only [perform, execute] at ha
    split at ha
    · cases ha
    · cases ha
      exact ⟨rfl, rfl, fun _ => List.filter_eq_nil_iff.2 (by simp [hpending])⟩
  obtain ⟨hwriting₃, hmembers, halone⟩ := alone_of_checkSet hreg hwriting₂ hheld hcheck
  obtain ⟨a, ha⟩ := Prog.runs_perform_iff.1 hid.of_lift
  cases ha
  obtain ⟨a', ha'⟩ := Prog.runs_perform_iff.1 hnow.of_lift
  cases ha'
  obtain ⟨hset, hnew, hstored⟩ :=
    stored_of_storeSet ((hwriting₃.abort a.gone).abort a'.gone) hheld h₅
  exact ⟨hshape, hmembers, halone, _, _, hset, hnew, hset ▸ hstored⟩

end Alone

end PostgresApproverRegistry

end QfcServerWallet.Quorum
