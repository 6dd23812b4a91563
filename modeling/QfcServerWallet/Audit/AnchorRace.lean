import QfcServerWallet.Audit.PostgresSound
import QfcServerWallet.Lib.Prog

/-!
# The count and the head of an anchor

`qfc-audit/src/anchor.rs`: `anchor_payload` next to emits on the same table. It counts the rows with
one statement and reads the head with a second one, outside of a transaction.

* The pool has anchors and emits as its tasks, over the rows of the table. A statement sees what was
  committed before it, so that each of the two queries is one step; an emit is one step under its
  advisory lock.
* A statement may fail (`refused`), and the reply to a commit may get lost (`lost`): the emit then
  fails for its caller, and its row is there.

The comment at the first query says that the count may be one ahead of the head. It is never ahead:
the head is read later, so that the count is behind by the number of rows inserted in between.

Results: `returned_anchor`, `RowChain.head_eq` and **`countMatches_iff`**.
-/

namespace QfcServerWallet.Audit

open Lib

/-- A statement on the table. -/
inductive TableOp where
  | emit (x : Emit)
  /-- `SELECT COUNT(*)` -/
  | count
  /-- `ORDER BY timestamp_unix_ms DESC, event_id DESC LIMIT 1` -/
  | head

/-- The answer to an operation. -/
abbrev TableOp.Res : TableOp → Type
  | .emit _ => Except AuditError AuditEvent
  | .count => Except String Int
  | .head => Except String (Option Row)

/-- What becomes of a statement. -/
inductive Reply where
  | served
  | refused (what : String)
  /-- the transaction commits, and its reply does not arrive -/
  | lost (what : String)

/-- The calls on the table. -/
inductive AnchorCall where
  | anchorPayload (dateUtc : String)
  | emit (x : Emit)

/-- What a call returns. -/
inductive Returned where
  | anchor (r : Except AuditError AnchorPayload)
  | emitted (r : Except AuditError AuditEvent)

section

variable (d : PgDeps) (serverKey : FixedBytes 32)

/-- `anchor_payload`, statement by statement. -/
def anchorCall (dateUtc : String) : Prog TableOp TableOp.Res Returned :=
  .act .count fun
    | .error what => .ret (.anchor (.error (.io ("anchor count: " ++ what))))
    | .ok n =>
      if n < 0 then .ret (.anchor (.error (.io "negative count from postgres")))
      else .act .head fun
        | .error what => .ret (.anchor (.error (.io ("anchor head select: " ++ what))))
        | .ok row => .ret (.anchor (anchorOf d dateUtc n.toNat row))

/-- The operations of a call. -/
def AnchorCall.prog : AnchorCall → Prog TableOp TableOp.Res Returned
  | .anchorPayload dateUtc => anchorCall d dateUtc
  | .emit x => .act (.emit x) fun r => .ret (.emitted r)

/-- One operation on the rows. -/
def performTable (rows : List Row) : (e : TableOp) → Reply → Option (e.Res × List Row)
  | .emit _, .refused what => some (.error (.io what), rows)
  | .emit x, .served =>
    match Audit.emit d serverKey rows x with
    | .ok (event, rows) => some (.ok event, rows)
    | .error err => some (.error err, rows)
  | .emit x, .lost what =>
    match Audit.emit d serverKey rows x with
    | .ok (_, rows) => some (.error (.io what), rows)
    | .error err => some (.error err, rows)
  | .count, .served => some (.ok rows.length, rows)
  | .count, .refused what | .count, .lost what => some (.error what, rows)
  | .head, .served => some (.ok (headRow rows), rows)
  | .head, .refused what | .head, .lost what => some (.error what, rows)

/-- Anchors and emits on one table. -/
abbrev TablePool := Pool TableOp TableOp.Res (List Row) AnchorCall Returned

/-- From a table, the moves lead to the pool. -/
def Runs (rows : List Row) (moves : List (Move AnchorCall Reply)) (q : TablePool) : Prop :=
  Pool.run (performTable d serverKey) (AnchorCall.prog d) (Pool.start rows) moves = some q

/-- During the run, task `i` gets `x.2` from the statement `x.1` on the table of `q`. -/
abbrev QueryOf (rows : List Row) (moves : List (Move AnchorCall Reply)) (q : TablePool) (i : Nat)
    (x : Prog.Event TableOp TableOp.Res) (q' : TablePool) : Prop :=
  Pool.StepOf (performTable d serverKey) (AnchorCall.prog d) (Pool.start rows) moves q i x q'

end

variable {d : PgDeps} {serverKey : FixedBytes 32} {rows : List Row} {q : TablePool}
  {moves : List (Move AnchorCall Reply)} {rows' : List Row}

/-! ## What a statement does -/

theorem rows_grow_of_performTable {e : TableOp} {a : Reply} {r : e.Res}
    (h : performTable d serverKey rows e a = some (r, rows')) : rows <+: rows' := by
  have hgrows {x : Emit} {event : AuditEvent} {rows' : List Row}
      (h : emit d serverKey rows x = .ok (event, rows')) : rows <+: rows' := by
    obtain ⟨-, -, -, -, rfl⟩ := emit_ok_iff.1 h
    exact List.prefix_append _ _
  cases e with
  | emit x =>
    cases hemit : emit d serverKey rows x with
    | error err =>
      cases a <;> simp only [performTable, hemit] at h <;> cases h <;> exact List.prefix_rfl
    | ok out =>
      cases a <;> simp only [performTable, hemit] at h <;> cases h
      · exact hgrows hemit
      · exact List.prefix_rfl
      · exact hgrows hemit
  | count =>
    cases a <;> cases h <;> exact List.prefix_rfl
  | head =>
    cases a <;> cases h <;> exact List.prefix_rfl

theorem performTable_count {a : Reply} {n : Int}
    (h : performTable d serverKey rows .count a = some (.ok n, rows')) : n = rows.length := by
  cases a <;> cases h
  rfl

theorem performTable_head {a : Reply} {row : Option Row}
    (h : performTable d serverKey rows .head a = some (.ok row, rows')) : row = headRow rows := by
  cases a <;> cases h
  rfl

theorem rows_grow_of_run {q' : TablePool}
    (h : Pool.run (performTable d serverKey) (AnchorCall.prog d) q moves = some q') :
    q.shared <+: q'.shared := by
  refine Pool.run_induction (P := fun r => q.shared <+: r.shared) ?_ h List.prefix_rfl
  intro r m r' hr hm
  obtain ⟨call, -, rfl⟩ | ⟨i, a, call, e, k, x, s, -, -, hperform, rfl⟩ := Pool.step_cases hm
  · exact hr
  · exact hr.trans (rows_grow_of_performTable hperform)

/-! ## The two queries of an anchor -/

section Anchor

variable {dateUtc : String} {tr : List (Prog.Event TableOp TableOp.Res)}

theorem anchorCall_returned {payload : AnchorPayload}
    (h : Prog.After (anchorCall d dateUtc) tr (.ret (.anchor (.ok payload)))) :
    ∃ n row, tr = [⟨.count, .ok n⟩, ⟨.head, .ok row⟩] ∧
      anchorOf d dateUtc n.toNat row = .ok payload := by
  obtain ⟨r, tr', rfl, hcounted⟩ := h.ret_of_act
  cases r with
  | error what => cases hcounted.of_ret.2
  | ok n =>
    simp only at hcounted
    split_ifs at hcounted with hn
    · cases hcounted.of_ret.2
    · obtain ⟨r, tr', rfl, hread⟩ := hcounted.ret_of_act
      cases r with
      | error what => cases hread.of_ret.2
      | ok row =>
        obtain ⟨rfl, hret⟩ := hread.of_ret
        exact ⟨n, row, rfl, by simpa using hret.symm⟩

end Anchor

variable {events : List AuditEvent} {n : Nat}

/-- **The count and the head of an anchor are those of the tables its two queries saw**, the first
of which is a beginning of the second. -/
theorem returned_anchor (hrun : Runs d serverKey rows moves q) {i : Nat} {dateUtc : String}
    {payload : AnchorPayload}
    (hi : q.tasks[i]? = some (.anchorPayload dateUtc, .ret (.anchor (.ok payload)))) :
    ∃ counted counted' read read' n row,
      QueryOf d serverKey rows moves counted i ⟨.count, .ok n⟩ counted' ∧
      QueryOf d serverKey rows moves read i ⟨.head, .ok row⟩ read' ∧
      counted.shared <+: read.shared ∧ read.shared <+: q.shared ∧
      anchorOf d dateUtc counted.shared.length (headRow read.shared) = .ok payload := by
  obtain ⟨n, row, htrace, hpayload⟩ := anchorCall_returned (Pool.run_after hrun hi)
  obtain ⟨counted, counted', hcount⟩ := Pool.exists_stepOf_of_mem_log hrun
    (Pool.mem_of_mem_trace (show ⟨.count, .ok n⟩ ∈ Pool.trace q.log i by rw [htrace]; simp))
  obtain ⟨read, read', hhead⟩ := Pool.exists_stepOf_of_mem_log hrun
    (Pool.mem_of_mem_trace (show ⟨.head, .ok row⟩ ∈ Pool.trace q.log i by rw [htrace]; simp))
  refine ⟨counted, counted', read, read', n, row, hcount, hhead, ?_, ?_, ?_⟩
  · rcases hcount.run_between hhead with ⟨rest, hrest⟩ | ⟨rest, hrest⟩
    · exact rows_grow_of_run hrest
    · -- the head was not read first: nothing the task did comes before its count
      have hfirst := hcount.trace_prefix hrun
      have hsecond := hhead.trace_prefix hrun
      have hbefore := Pool.trace_mono (Pool.run_log_prefix hrest) i
      rw [htrace] at hfirst hsecond
      rcases hcounted : Pool.trace counted.log i with _ | ⟨x, _ | ⟨y, more⟩⟩
      · rw [hcounted, List.prefix_nil] at hbefore
        simp [hbefore] at hsecond
      · simp [hcounted] at hfirst
      · simp [hcounted] at hfirst
  · obtain ⟨rest, hrest⟩ := hhead.run_rest hrun
    exact rows_grow_of_run hrest
  · obtain ⟨call, k, a, s, -, hperform, -⟩ := hcount.performs
    obtain ⟨call', k', a', s', -, hperform', -⟩ := hhead.performs
    rw [← performTable_head hperform', ← hpayload, performTable_count hperform, Int.toNat_natCast]

/-! ## The events a head names -/

/-- The rows were inserted in the order in which they sort, and decode to linked events. -/
structure RowChain (d : PgDeps) (rows : List Row) (events : List AuditEvent) : Prop where
  decoded : List.Forall₂ (fun row e => rowToEvent d row = .ok e) rows events
  sorted : rows.Pairwise fun r s => r.key < s.key
  linked : LinkedEvents d events

/-- The head names the first `k` events. -/
def NamesPrefix (d : PgDeps) (events : List AuditEvent) (payload : AnchorPayload) (k : Nat) :
    Prop :=
  payload.chainHeadHex = hexEncode (chainHead (AuditEvent.hash d.toWriter d.crypto)
    (FixedBytes.zero 32) (events.take k)).bytes

/-- The count is the number of events the head names, or one more. -/
def CountMatches (d : PgDeps) (events : List AuditEvent) (payload : AnchorPayload) : Prop :=
  ∃ k ≤ events.length, NamesPrefix d events payload k ∧
    (payload.eventCount = k ∨ payload.eventCount = k + 1)

theorem kindFromByte_of_local {b : UInt8} {k : AuditKind} (h : kindFromByteLocal b = .ok k) :
    kindFromByte b = .ok k := by
  unfold kindFromByteLocal at h
  unfold kindFromByte
  split_ifs with hb
  · subst hb
    cases h
  · cases hk : commonKind b.toNat with
    | none => rw [hk] at h; cases h
    | some k' => rw [hk] at h; exact h

theorem kindColumn_ok_of {what what' : String} {kind : Int16} {b : UInt8}
    (h : kindColumn what kind = .ok b) : kindColumn what' kind = .ok b := by
  unfold kindColumn at h ⊢
  split_ifs at h ⊢
  exact h

theorem hashColumn_ok_of {what what' : String} {bytes : Bytes} {hash : FixedBytes 32}
    (h : hashColumn what bytes = .ok hash) : hashColumn what' bytes = .ok hash := by
  unfold hashColumn at h ⊢
  cases hbytes : FixedBytes.ofBytes? 32 bytes with
  | none => rw [hbytes] at h; cases h
  | some b => rw [hbytes] at h; exact h

theorem anchorOf_some {dateUtc : String} {row : Row} {e : AuditEvent} {payload : AnchorPayload}
    (hrow : rowToEvent d row = .ok e) (h : anchorOf d dateUtc n (some row) = .ok payload) :
    payload.eventCount = n ∧
      payload.chainHeadHex = hexEncode (e.hash d.toWriter d.crypto).bytes := by
  simp only [rowToEvent, bind_eq_ok] at hrow
  obtain ⟨id, hid, prev, hprev, b, hb, kind, hkind, actor, -, request, -, wallet, -, he⟩ := hrow
  simp only [anchorOf, bind_eq_ok] at h
  obtain ⟨id', hid', b', hb', kind', hkind', prev', hprev', hpayload⟩ := h
  cases hid'.symm.trans (mapError_eq_ok.2 (mapError_eq_ok.1 hid))
  cases (kindColumn_ok_of hb).symm.trans hb'
  cases (kindFromByte_of_local hkind').symm.trans hkind
  cases (hashColumn_ok_of hprev).symm.trans hprev'
  cases he
  cases hpayload
  exact ⟨rfl, rfl⟩

theorem anchorOf_headRow
    (hdecoded : List.Forall₂ (fun row e => rowToEvent d row = .ok e) rows events)
    (hsorted : rows.Pairwise fun r s => r.key < s.key) {dateUtc : String} {payload : AnchorPayload}
    (h : anchorOf d dateUtc n (headRow rows) = .ok payload) :
    payload.eventCount = n ∧ payload.chainHeadHex = hexEncode
      (chainHead (AuditEvent.hash d.toWriter d.crypto) (FixedBytes.zero 32) events).bytes := by
  have hlength := hdecoded.length_eq
  rw [headRow, orderedRows_of_pairwise hsorted] at h
  rcases List.eq_nil_or_concat rows with rfl | ⟨init, row, rfl⟩
  · cases hdecoded
    cases h
    exact ⟨rfl, rfl⟩
  · rcases List.eq_nil_or_concat events with rfl | ⟨es, e, rfl⟩
    · simp at hlength
    · simp only [List.concat_eq_append, List.length_append, List.length_singleton,
        Nat.add_right_cancel_iff, List.getLast?_concat] at hdecoded hlength h ⊢
      have hlast := List.forall₂_drop_append _ es [e] hdecoded
      rw [← hlength, List.drop_left, List.forall₂_cons] at hlast
      rw [chainHead_concat]
      exact anchorOf_some hlast.1 h

/-- **The head names the events up to the last row the query saw.** -/
theorem RowChain.namesPrefix {read : List Row} (h : RowChain d rows events) (hread : read <+: rows)
    {dateUtc : String} {payload : AnchorPayload}
    (hpayload : anchorOf d dateUtc n (headRow read) = .ok payload) :
    payload.eventCount = n ∧ NamesPrefix d events payload read.length := by
  have htake : read = rows.take read.length := List.prefix_iff_eq_take.1 hread
  refine anchorOf_headRow ?_ (h.sorted.sublist hread.sublist) hpayload
  have hdecoded := List.forall₂_take read.length h.decoded
  rwa [← htake] at hdecoded

theorem namesPrefix_inj (hlinked : LinkedEvents d events)
    (hcollision : ∀ a ∈ events, ∀ b ∈ events,
      a.hash d.toWriter d.crypto = b.hash d.toWriter d.crypto → a = b)
    (hgenesis : ∀ e ∈ events, e.hash d.toWriter d.crypto ≠ FixedBytes.zero 32)
    {payload : AnchorPayload} {k l : Nat} (hk : k ≤ events.length) (hl : l ≤ events.length)
    (hpk : NamesPrefix d events payload k) (hpl : NamesPrefix d events payload l) : k = l := by
  have hhead : chainHead (AuditEvent.hash d.toWriter d.crypto) (FixedBytes.zero 32)
        (events.take k) =
      chainHead (AuditEvent.hash d.toWriter d.crypto) (FixedBytes.zero 32) (events.take l) := by
    have htext := congrArg hexDecode (hpk.symm.trans hpl)
    rw [hexDecode_hexEncode, hexDecode_hexEncode] at htext
    exact FixedBytes.ext (Option.some.inj htext)
  have hlogs : List.Forall₂ (fun _ _ => True) (events.take k) (events.take l) := by
    refine forall₂_of_chainHead_eq (hlinked.take k) (hlinked.take l) ?_ ?_ hhead
    · intro e he
      rcases List.mem_append.1 he with he | he
      · exact hgenesis e (List.mem_of_mem_take he)
      · exact hgenesis e (List.mem_of_mem_take he)
    · intro a ha b hb hab
      rw [hcollision a (List.mem_of_mem_take ha) b (List.mem_of_mem_take hb) hab]
      exact ⟨rfl, trivial⟩
  have hlength := hlogs.length_eq
  rwa [List.length_take_of_le hk, List.length_take_of_le hl] at hlength

/-- **The count of an anchor is that of the events its head names, or one more, iff no row was
inserted between its two queries.** -/
theorem countMatches_iff (d : PgDeps) (serverKey : FixedBytes 32) (rows : List Row)
    (moves : List (Move AnchorCall Reply)) (q : TablePool) (hrun : Runs d serverKey rows moves q)
    (events : List AuditEvent) (hchain : RowChain d q.shared events)
    (hcollision : ∀ a ∈ events, ∀ b ∈ events,
      a.hash d.toWriter d.crypto = b.hash d.toWriter d.crypto → a = b)
    (hgenesis : ∀ e ∈ events, e.hash d.toWriter d.crypto ≠ FixedBytes.zero 32)
    (i : Nat) (dateUtc : String) (payload : AnchorPayload)
    (hi : q.tasks[i]? = some (.anchorPayload dateUtc, .ret (.anchor (.ok payload)))) :
    ∃ counted counted' read read' n row,
      QueryOf d serverKey rows moves counted i ⟨.count, .ok n⟩ counted' ∧
      QueryOf d serverKey rows moves read i ⟨.head, .ok row⟩ read' ∧
      payload.eventCount = counted.shared.length ∧
      NamesPrefix d events payload read.shared.length ∧
      counted.shared <+: read.shared ∧ read.shared <+: q.shared ∧
      (CountMatches d events payload ↔ read.shared = counted.shared) := by
  obtain ⟨counted, counted', read, read', n, row, hcount, hhead, hgrown, hread, hpayload⟩ :=
    returned_anchor hrun hi
  obtain ⟨heq, hnames⟩ := hchain.namesPrefix hread hpayload
  refine ⟨counted, counted', read, read', n, row, hcount, hhead, heq, hnames, hgrown, hread, ?_⟩
  have hbound : read.shared.length ≤ events.length := by
    rw [← hchain.decoded.length_eq]
    exact hread.length_le
  constructor
  · rintro ⟨k, hk, hnames', hmatch⟩
    obtain rfl := namesPrefix_inj hchain.linked hcollision hgenesis hk hbound hnames' hnames
    have hle := hgrown.length_le
    exact (hgrown.eq_of_length (by omega)).symm
  · intro hsame
    exact ⟨read.shared.length, hbound, hnames, .inl (by rw [heq, hsame])⟩

/-! ### One emit and one anchor -/

section Two

variable {d : PgDeps} {serverKey : FixedBytes 32} {x : Emit} {event : AuditEvent} {row : Row}
  {dateUtc : String} {payload : AnchorPayload}

theorem runs_two {payload' : AnchorPayload} (hemit : emit d serverKey [] x = .ok (event, [row]))
    (hquiet : anchorOf d dateUtc 1 (headRow [row]) = .ok payload)
    (hraced : anchorOf d dateUtc 0 (headRow [row]) = .ok payload') :
    (∃ log, Runs d serverKey [] [.spawn (.anchorPayload dateUtc), .spawn (.emit x), .act 1 .served,
        .act 0 .served, .act 0 .served]
      ⟨[row], [(.anchorPayload dateUtc, .ret (.anchor (.ok payload))),
        (.emit x, .ret (.emitted (.ok event)))], log⟩) ∧
    ∃ log, Runs d serverKey [] [.spawn (.anchorPayload dateUtc), .spawn (.emit x), .act 0 .served,
        .act 1 .served, .act 0 .served]
      ⟨[row], [(.anchorPayload dateUtc, .ret (.anchor (.ok payload'))),
        (.emit x, .ret (.emitted (.ok event)))], log⟩ := by
  refine ⟨⟨[(1, ⟨.emit x, .ok event⟩), (0, ⟨.count, .ok 1⟩),
    (0, ⟨.head, .ok (headRow [row])⟩)], ?_⟩, [(0, ⟨.count, .ok 0⟩), (1, ⟨.emit x, .ok event⟩),
    (0, ⟨.head, .ok (headRow [row])⟩)], ?_⟩
  all_goals
    unfold Runs Pool.run
    simp only [List.foldlM_cons, List.foldlM_nil, Pool.step, Pool.start, AnchorCall.prog,
      anchorCall, performTable, hemit, Option.bind_eq_bind, Option.bind_some,
      List.getElem?_cons_zero, List.getElem?_cons_succ, List.nil_append, List.cons_append,
      List.set_cons_zero, List.set_cons_succ]
  · rw [← hquiet]
    rfl
  · rw [← hraced]
    rfl

end Two

namespace SampleRace

open SampleLog

/-- The event of the sample. -/
def call : Emit := SampleLog.call .signingRequested ⟨16⟩ 1000

/-- The event of the emit on the empty table. -/
def event : AuditEvent := call.event deps seed (FixedBytes.zero 32)

/-- Its row. -/
def row : Row := eventRow deps event

/-- The day of the anchor. -/
def dateUtc : String := "2026-11-16"

/-- The payload of the anchor that counted `n` rows. -/
def payload (n : Nat) : AnchorPayload :=
  ⟨dateUtc, hexEncode hash0.bytes, some ⟨16⟩, n⟩

/-- The anchor comes after the emit. -/
def quiet : List (Move AnchorCall Reply) :=
  [.spawn (.anchorPayload dateUtc), .spawn (.emit call), .act 1 .served, .act 0 .served,
    .act 0 .served]

/-- The emit comes between the queries of the anchor. -/
def raced : List (Move AnchorCall Reply) :=
  [.spawn (.anchorPayload dateUtc), .spawn (.emit call), .act 0 .served, .act 1 .served,
    .act 0 .served]

theorem emitted : emit deps seed [] call = .ok (event, [row]) :=
  emit_ok_iff.2 ⟨FixedBytes.zero 32, rfl, rfl, by simp, rfl⟩

theorem evaluated :
    ((anchorOf deps dateUtc 0 (headRow [row])).toOption = some (payload 0) ∧
      (anchorOf deps dateUtc 1 (headRow [row])).toOption = some (payload 1)) ∧
    event.hash deps.toWriter deps.crypto = hash0 ∧
    hash0 ≠ FixedBytes.zero 32 ∧
    (payload 0).chainHeadHex ≠ hexEncode (FixedBytes.zero 32).bytes := by
  decide +kernel

theorem rowChain : RowChain deps [row] [event] where
  decoded := .cons ((rowToEvent_eventRow deps_roundTrips).2 ⟨by decide, rfl⟩) .nil
  sorted := List.pairwise_singleton _ _
  linked := ⟨rfl, trivial⟩

theorem anchorOf_eq (h : (anchorOf deps dateUtc n (headRow [row])).toOption = some (payload n)) :
    anchorOf deps dateUtc n (headRow [row]) = .ok (payload n) := by
  cases hanchor : anchorOf deps dateUtc n (headRow [row]) with
  | error err => rw [hanchor] at h; cases h
  | ok p => rw [hanchor] at h; exact congrArg _ (Option.some.inj h)

/-- Both calls have returned, and the anchor counted `n` rows. -/
def ended (n : Nat) (log : Pool.Log TableOp TableOp.Res) : TablePool :=
  ⟨[row], [(.anchorPayload dateUtc, .ret (.anchor (.ok (payload n)))),
    (.emit call, .ret (.emitted (.ok event)))], log⟩

theorem two_runs :
    (∃ log, Runs deps seed [] quiet (ended 1 log)) ∧
    ∃ log, Runs deps seed [] raced (ended 0 log) :=
  runs_two emitted (anchorOf_eq evaluated.1.2) (anchorOf_eq evaluated.1.1)

end SampleRace

open SampleLog SampleRace

/-- An anchor after the emit has the count of the events its head names. -/
theorem countMatches_quiet :
    ∃ log, Runs deps seed [] quiet (ended 1 log) ∧
      CountMatches deps [event] (payload 1) := by
  obtain ⟨log, hrun⟩ := two_runs.1
  obtain ⟨counted, counted', read, read', n, row, -, -, hcount, -, hgrown, hread, hiff⟩ :=
    countMatches_iff deps seed [] quiet (ended 1 log) hrun [event] rowChain (by simp)
      (by simpa [evaluated.2.1] using evaluated.2.2.1)
      0 dateUtc (payload 1) rfl
  refine ⟨log, hrun, hiff.2 (hgrown.eq_of_length ?_).symm⟩
  have hle : read.shared.length ≤ 1 := hread.length_le
  have hge := hgrown.length_le
  have hone : 1 = counted.shared.length := hcount
  omega

/-- **With one emit between the queries, the count is less than the number of events the head
names.** -/
theorem not_countMatches_raced :
    ∃ log, Runs deps seed [] raced (ended 0 log) ∧
      RowChain deps (ended 0 log).shared [event] ∧
      NamesPrefix deps [event] (payload 0) 1 ∧
      ¬ CountMatches deps [event] (payload 0) := by
  obtain ⟨log, hrun⟩ := two_runs.2
  refine ⟨log, hrun, rowChain, ?_, ?_⟩
  · rw [NamesPrefix, List.take_of_length_le (by simp), chainHead, chainHead, evaluated.2.1]
    rfl
  · rintro ⟨k, hk, hnames, hmatch⟩
    have hzero : k = 0 := by
      change 0 = k ∨ 0 = k + 1 at hmatch
      omega
    subst hzero
    exact evaluated.2.2.2 hnames

end QfcServerWallet.Audit
