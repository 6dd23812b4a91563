import QfcServerWallet.Audit.Event
import QfcServerWallet.Lib.Lines

/-!
# The file audit sink

`qfc-audit/src/file.rs`: `FileAuditSink::open`, `emit`, `recover_chain_head` and `replay_verify`.

* The log is the content of one path, `none` while there is no such file. `readFile` is what reading
  it gives; other read errors are values of `ReadOutcome`.
* An emit holds the mutex of the sink from its first to its last line, so that it is one step. It
  opens the file, writes the line, flushes and syncs; `WriteOutcome` says how far it comes. Until
  the flush has succeeded, any number of the first bytes of the line may have reached the file.
* `serde_json` is a parameter: `toVec` and `fromSlice` on events, `toWriter` on their details. The
  id and the time an emit draws are arguments (`Emit`).
* `lines.last().expect(…)` panics on a file of line breaks alone.

Results: `replayVerify_content_iff`, `Accepts.recoverChainHead` and `FileAuditSink.emit_cases`.
-/

namespace QfcServerWallet.Audit

open Lib

/-- What the sink takes from its dependencies. -/
structure FileDeps where
  crypto : Crypto
  toWriter : Json → Bytes
  /-- `serde_json::to_vec` of an event -/
  toVec : AuditEvent → Except String Bytes
  /-- `serde_json::from_slice` -/
  fromSlice : Bytes → Except String AuditEvent

/-- The cursor of the chain. -/
structure ChainState where
  prevEventHash : FixedBytes 32
  written : Nat
  deriving DecidableEq

/-- The sink, without its path. -/
structure FileAuditSink where
  serverKey : FixedBytes 32
  state : ChainState

/-- What reading a file gives. -/
inductive ReadOutcome where
  /-- `ErrorKind::NotFound` -/
  | notFound (what : String)
  | failed (what : String)
  | content (bytes : Bytes)

/-- The log is read without a failure. -/
def readFile : Option Bytes → ReadOutcome
  | none => .notFound "No such file or directory (os error 2)"
  | some content => .content content

/-- How far an emit comes with its line. -/
inductive WriteOutcome where
  | synced
  | openFails (what : String)
  /-- `write_all` fails when the first `n` bytes are in the file -/
  | writeFails (n : Nat) (what : String)
  /-- `flush` fails when the first `n` bytes are in the file -/
  | flushFails (n : Nat) (what : String)
  | syncFails (what : String)
  deriving DecidableEq

namespace WriteOutcome

/-- Why the emit fails, if it does. -/
def error? : WriteOutcome → Option String
  | .synced => none
  | .openFails what | .writeFails _ what | .flushFails _ what | .syncFails what => some what

/-- The file after the attempt to append the line. -/
def appended (line : Bytes) (file : Option Bytes) : WriteOutcome → Option Bytes
  | .synced | .syncFails _ => some (file.getD [] ++ line)
  | .openFails _ => file
  | .writeFails n _ | .flushFails n _ => some (file.getD [] ++ line.take n)

end WriteOutcome

/-- `content.split(|b| *b == b'\n').filter(|l| !l.is_empty())` -/
def logLines (content : Bytes) : List Bytes := records 10 content

section

variable (d : FileDeps)

/-- The cursor that a file is opened with. -/
def recoverChainHead : ReadOutcome → Except (Fault AuditError) ChainState
  | .notFound _ => .ok ⟨FixedBytes.zero 32, 0⟩
  | .failed what => .error (.err (.io what))
  | .content content =>
    if content.isEmpty then .ok ⟨FixedBytes.zero 32, 0⟩
    else
      match (logLines content).getLast? with
      | none => .error .panic
      | some last => do
        let event ← orFault ((d.fromSlice last).mapError .serde)
        .ok ⟨event.hash d.toWriter d.crypto, (logLines content).length⟩

/-- `FileAuditSink::open` -/
def FileAuditSink.openPath (serverKey : FixedBytes 32) (r : ReadOutcome) :
    Except (Fault AuditError) FileAuditSink := do
  let state ← recoverChainHead d r
  .ok ⟨serverKey, state⟩

/-- The event an emit stamps when the chain head is `prev`. -/
def stampEmit (serverKey prev : FixedBytes 32) (x : Emit) : AuditEvent :=
  stamp d.toWriter d.crypto serverKey prev x.eventId x.timestampUnixMs x.draft

/-- `FileAuditSink::emit`: its result, and the sink and the file after it. -/
def FileAuditSink.emit (sink : FileAuditSink) (file : Option Bytes) (x : Emit) (w : WriteOutcome) :
    Except AuditError AuditEvent × FileAuditSink × Option Bytes :=
  let event := stampEmit d sink.serverKey sink.state.prevEventHash x
  match d.toVec event with
  | .error e => (.error (.serde e), sink, file)
  | .ok json =>
    let file := w.appended (json ++ [10]) file
    match w.error? with
    | some what => (.error (.io what), sink, file)
    | none =>
      let state := ⟨event.hash d.toWriter d.crypto, sink.state.written + 1⟩
      (.ok event, { sink with state }, file)

/-- The loop of the replay: the previous hash, and the events counted so far. -/
def replayLines (verifyingKey : Bytes) : FixedBytes 32 → Nat → List Bytes → Except AuditError Nat
  | _, n, [] => .ok n
  | prev, n, line :: lines => do
    let event ← (d.fromSlice line).mapError .serde
    if event.prevEventHash ≠ prev then .error (.crypto "hash chain broken")
    else
      let ok ← verifyEvent d.toWriter d.crypto event verifyingKey
      if ok then replayLines verifyingKey (event.hash d.toWriter d.crypto) (n + 1) lines
      else .error (.crypto "signature mismatch")

/-- The loop of the replay with the previous hash it ends with, besides the count. -/
def replayChain (verifyingKey : Bytes) : ChainState → List Bytes → Except AuditError ChainState
  | s, [] => .ok s
  | s, line :: lines => do
    let event ← (d.fromSlice line).mapError .serde
    if event.prevEventHash ≠ s.prevEventHash then .error (.crypto "hash chain broken")
    else
      let ok ← verifyEvent d.toWriter d.crypto event verifyingKey
      if ok then
        replayChain verifyingKey ⟨event.hash d.toWriter d.crypto, s.written + 1⟩ lines
      else .error (.crypto "signature mismatch")

/-- The number of events of a file whose chain verifies. -/
def replayVerify (verifyingKey : Bytes) : ReadOutcome → Except AuditError Nat
  | .notFound what | .failed what => .error (.io what)
  | .content content =>
    if content.isEmpty then .ok 0
    else replayLines d verifyingKey (FixedBytes.zero 32) 0 (logLines content)

end

/-- The events on the lines of a log. -/
def LogEvents (d : FileDeps) (content : Bytes) (events : List AuditEvent) : Prop :=
  List.Forall₂ (fun line e => d.fromSlice line = .ok e) (logLines content) events

variable {d : FileDeps} {verifyingKey : Bytes} {prev : FixedBytes 32} {lines : List Bytes}
  {events : List AuditEvent}

/-! ## What the replay accepts -/

/-- The events, one on each line, are linked from the previous hash and verify. -/
structure Accepts (d : FileDeps) (verifyingKey : Bytes) (prev : FixedBytes 32)
    (lines : List Bytes) (events : List AuditEvent) : Prop where
  parsed : List.Forall₂ (fun line e => d.fromSlice line = .ok e) lines events
  linked : Linked AuditEvent.prevEventHash (AuditEvent.hash d.toWriter d.crypto) prev events
  verified : ∀ e ∈ events, verifyEvent d.toWriter d.crypto e verifyingKey = .ok true

theorem accepts_nil : Accepts d verifyingKey prev [] [] := ⟨.nil, trivial, by simp⟩

theorem accepts_cons {line : Bytes} {e : AuditEvent} :
    Accepts d verifyingKey prev (line :: lines) (e :: events) ↔
      d.fromSlice line = .ok e ∧ e.prevEventHash = prev ∧
        verifyEvent d.toWriter d.crypto e verifyingKey = .ok true ∧
        Accepts d verifyingKey (e.hash d.toWriter d.crypto) lines events := by
  constructor
  · rintro ⟨hparsed, ⟨hprev, hlinked⟩, hverified⟩
    obtain ⟨hline, hparsed⟩ := List.forall₂_cons.1 hparsed
    obtain ⟨he, hverified⟩ := List.forall_mem_cons.1 hverified
    exact ⟨hline, hprev, he, hparsed, hlinked, hverified⟩
  · rintro ⟨hline, hprev, he, hparsed, hlinked, hverified⟩
    exact ⟨.cons hline hparsed, ⟨hprev, hlinked⟩, List.forall_mem_cons.2 ⟨he, hverified⟩⟩

theorem accepts_append {lines lines' : List Bytes} :
    Accepts d verifyingKey prev (lines ++ lines') events ↔
      ∃ es fs, events = es ++ fs ∧ Accepts d verifyingKey prev lines es ∧
        Accepts d verifyingKey (chainHead (AuditEvent.hash d.toWriter d.crypto) prev es)
          lines' fs := by
  induction lines generalizing prev events with
  | nil =>
    constructor
    · exact fun h => ⟨[], events, rfl, accepts_nil, h⟩
    · rintro ⟨es, fs, rfl, hes, hfs⟩
      cases hes.parsed
      exact hfs
  | cons line lines ih =>
    constructor
    · intro h
      cases events with
      | nil => cases h.parsed
      | cons e events =>
        obtain ⟨he, hprev, hok, h⟩ := accepts_cons.1 h
        obtain ⟨es, fs, rfl, hes, hfs⟩ := ih.1 h
        exact ⟨e :: es, fs, rfl, accepts_cons.2 ⟨he, hprev, hok, hes⟩, hfs⟩
    · rintro ⟨es, fs, rfl, hes, hfs⟩
      cases es with
      | nil => cases hes.parsed
      | cons e es =>
        obtain ⟨he, hprev, hok, hes⟩ := accepts_cons.1 hes
        exact accepts_cons.2 ⟨he, hprev, hok, ih.2 ⟨es, fs, rfl, hes, hfs⟩⟩

theorem replayLines_eq_map (lines : List Bytes) (n : Nat) :
    replayLines d verifyingKey prev n lines =
      (replayChain d verifyingKey ⟨prev, n⟩ lines).map ChainState.written := by
  induction lines generalizing prev n with
  | nil => rfl
  | cons line lines ih =>
    unfold replayLines replayChain
    cases d.fromSlice line with
    | error err => rfl
    | ok event =>
      by_cases hprev : event.prevEventHash ≠ prev
      · simp [Except.mapError, Except.map, hprev, bind, Except.bind]
      · cases hok : verifyEvent d.toWriter d.crypto event verifyingKey with
        | error err => simp [Except.mapError, Except.map, hprev, hok, bind, Except.bind]
        | ok ok =>
          cases ok <;> simp [Except.mapError, Except.map, hprev, hok, ih, bind, Except.bind]

theorem replayChain_cons_ok {line : Bytes} {s s' : ChainState} :
    replayChain d verifyingKey s (line :: lines) = .ok s' ↔
      ∃ e, d.fromSlice line = .ok e ∧ e.prevEventHash = s.prevEventHash ∧
        verifyEvent d.toWriter d.crypto e verifyingKey = .ok true ∧
        replayChain d verifyingKey ⟨e.hash d.toWriter d.crypto, s.written + 1⟩ lines
          = .ok s' := by
  simp only [replayChain, bind_eq_ok, mapError_eq_ok]
  constructor
  · rintro ⟨e, he, h⟩
    split_ifs at h with hprev
    obtain ⟨ok, hok, h⟩ := bind_eq_ok.1 h
    cases ok with
    | false => cases h
    | true => exact ⟨e, he, not_not.1 hprev, hok, h⟩
  · rintro ⟨e, he, hprev, hok, h⟩
    refine ⟨e, he, ?_⟩
    rw [if_neg (not_not.2 hprev), hok]
    exact h

/-- The state after linked events, from a state. -/
def ChainState.after (d : FileDeps) (s : ChainState) (events : List AuditEvent) : ChainState :=
  ⟨chainHead (AuditEvent.hash d.toWriter d.crypto) s.prevEventHash events,
    s.written + events.length⟩

@[simp] theorem ChainState.after_nil (s : ChainState) : s.after d [] = s := rfl

theorem ChainState.after_cons (s : ChainState) (e : AuditEvent) (events : List AuditEvent) :
    s.after d (e :: events) =
      ChainState.after d ⟨e.hash d.toWriter d.crypto, s.written + 1⟩ events := by
  simp only [ChainState.after, chainHead, List.length_cons, ChainState.mk.injEq, true_and]
  omega

theorem replayChain_ok_iff {s s' : ChainState} :
    replayChain d verifyingKey s lines = .ok s' ↔
      ∃ events, Accepts d verifyingKey s.prevEventHash lines events ∧ s' = s.after d events := by
  induction lines generalizing s with
  | nil =>
    constructor
    · intro h
      cases h
      exact ⟨[], accepts_nil, rfl⟩
    · rintro ⟨events, ⟨hparsed, -, -⟩, rfl⟩
      cases hparsed
      rfl
  | cons line lines ih =>
    rw [replayChain_cons_ok]
    constructor
    · rintro ⟨e, he, hprev, hok, h⟩
      obtain ⟨events, hevents, rfl⟩ := ih.1 h
      exact ⟨e :: events, accepts_cons.2 ⟨he, hprev, hok, hevents⟩, (s.after_cons e events).symm⟩
    · rintro ⟨events, hevents, rfl⟩
      cases events with
      | nil => cases hevents.parsed
      | cons e events =>
        obtain ⟨he, hprev, hok, hevents⟩ := accepts_cons.1 hevents
        exact ⟨e, he, hprev, hok, ih.2 ⟨events, hevents, s.after_cons e events⟩⟩

theorem replayLines_ok_iff {n m : Nat} :
    replayLines d verifyingKey prev n lines = .ok m ↔
      ∃ events, Accepts d verifyingKey prev lines events ∧ m = n + events.length := by
  rw [replayLines_eq_map]
  constructor
  · intro h
    cases hs : replayChain d verifyingKey ⟨prev, n⟩ lines with
    | error err => rw [hs] at h; cases h
    | ok s =>
      rw [hs] at h
      obtain ⟨events, hevents, rfl⟩ := replayChain_ok_iff.1 hs
      exact ⟨events, hevents, (Except.ok.inj h).symm⟩
  · rintro ⟨events, hevents, rfl⟩
    rw [replayChain_ok_iff.2 ⟨events, hevents, rfl⟩]
    rfl

/-- **The replay accepts a file iff its lines are linked events that verify**, and counts them. -/
theorem replayVerify_content_iff {content : Bytes} {n : Nat} :
    replayVerify d verifyingKey (.content content) = .ok n ↔
      ∃ events, Accepts d verifyingKey (FixedBytes.zero 32) (logLines content) events ∧
        n = events.length := by
  have hlines : replayLines d verifyingKey (FixedBytes.zero 32) 0 (logLines content) = .ok n ↔
      ∃ events, Accepts d verifyingKey (FixedBytes.zero 32) (logLines content) events ∧
        n = events.length :=
    replayLines_ok_iff.trans (by simp only [Nat.zero_add])
  rw [← hlines, replayVerify]
  split
  · next hempty =>
    obtain rfl : content = [] := by simpa using hempty
    rw [logLines, records_nil, replayLines]
  · rfl

/-- Where the replay accepts the lines, their head and their count are recovered. -/
theorem Accepts.recoverChainHead {content : Bytes}
    (h : Accepts d verifyingKey (FixedBytes.zero 32) (logLines content) events)
    (hlines : content = [] ∨ events ≠ []) :
    recoverChainHead d (.content content) =
      .ok ⟨chainHead (AuditEvent.hash d.toWriter d.crypto) (FixedBytes.zero 32) events,
        events.length⟩ := by
  rcases List.eq_nil_or_concat (logLines content) with hnil | ⟨lines, last, hsplit⟩
  · rw [hnil] at h
    cases h.parsed
    obtain rfl : content = [] := hlines.resolve_right (by simp)
    rfl
  · rw [List.concat_eq_append] at hsplit
    rw [hsplit] at h
    obtain ⟨es, fs, rfl, hes, hfs⟩ := accepts_append.1 h
    obtain ⟨e, rfl, hlast⟩ : ∃ e, fs = [e] ∧ d.fromSlice last = .ok e := by
      cases hfs.parsed with
      | cons hlast hrest =>
        cases hrest
        exact ⟨_, rfl, hlast⟩
    have hcontent : content.isEmpty = false := by
      rw [Bool.eq_false_iff]
      intro hempty
      obtain rfl : content = [] := by simpa using hempty
      exact absurd hsplit (by simp [logLines])
    have hlength : (logLines content).length = (es ++ [e]).length := by
      rw [hsplit, h.parsed.length_eq]
    simp only [Audit.recoverChainHead, hcontent, Bool.false_eq_true, if_false, hsplit,
      List.getLast?_concat, hlast]
    rw [← hsplit, hlength, chainHead_concat]
    rfl

/-! ## One emit -/

/-- **An emit returns its event and advances the head iff the event is encoded and its line synced;
otherwise the sink stays as it was.** -/
theorem FileAuditSink.emit_cases (sink : FileAuditSink) (file : Option Bytes) (x : Emit)
    (w : WriteOutcome) {event : AuditEvent}
    (hevent : stampEmit d sink.serverKey sink.state.prevEventHash x = event) :
    (∃ json, d.toVec event = .ok json ∧ w = .synced ∧
      sink.emit d file x w = (.ok event,
        ⟨sink.serverKey, event.hash d.toWriter d.crypto, sink.state.written + 1⟩,
        some (file.getD [] ++ (json ++ [10])))) ∨
    (∃ e, d.toVec event = .error e ∧ sink.emit d file x w = (.error (.serde e), sink, file)) ∨
    ∃ json what, w.error? = some what ∧ d.toVec event = .ok json ∧
      sink.emit d file x w = (.error (.io what), sink, w.appended (json ++ [10]) file) := by
  cases hjson : d.toVec event with
  | error e => exact .inr (.inl ⟨e, rfl, by simp only [FileAuditSink.emit, hevent, hjson]⟩)
  | ok json =>
    cases hw : w.error? with
    | some what =>
      exact .inr (.inr ⟨json, what, rfl, rfl, by simp only [FileAuditSink.emit, hevent, hjson, hw]⟩)
    | none =>
      obtain rfl : w = .synced := by
        cases w with
        | synced => rfl
        | _ => cases hw
      refine .inl ⟨json, rfl, rfl, ?_⟩
      simp only [FileAuditSink.emit, hevent, hjson, hw]
      rfl

end QfcServerWallet.Audit
