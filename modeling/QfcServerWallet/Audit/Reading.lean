import QfcServerWallet.Audit.FileSound

/-!
# Reading the audit log

`read_audit_events` of the server, with one text in `api/handlers.rs` and in `grpc/wallet.rs`.

* `read_line` fails on what is not UTF-8 (`isUtf8`); JSON text is.
* Reads that fail once the file is open are left out.

Results: **`readAuditEvents_of_run`**.
-/

namespace QfcServerWallet.Audit

open Lib

/-- Whether an event passes the filter. -/
def ofWallet (filter : Option WalletId) (e : AuditEvent) : Bool :=
  filter.all fun w => e.walletId = some w

/-- The most recent events. -/
def mostRecent (limit : Nat) (events : List AuditEvent) : List AuditEvent :=
  events.drop (events.length - limit)

variable (d : FileDeps) (isUtf8 : Bytes → Bool) (filter : Option WalletId)

/-- The loop over the lines, with the events kept so far. -/
def readLoop : List AuditEvent → List Bytes → Except String (List AuditEvent)
  | events, [] => .ok events
  | events, line :: lines =>
    if !isUtf8 line then .error "audit read: stream did not contain valid UTF-8"
    else do
      let event ← (d.fromSlice line).mapError ("audit parse: " ++ ·)
      readLoop (if ofWallet filter event then events ++ [event] else events) lines

/-- The latest events that pass the filter. -/
def readAuditEvents (limit : Nat) : ReadOutcome → Except String (List AuditEvent)
  | .notFound _ => .ok []
  | .failed what => .error ("audit open: " ++ what)
  | .content content => mostRecent limit <$> readLoop d isUtf8 filter [] (logLines content)

variable {d} {isUtf8}

theorem readLoop_of_parsed (hutf8 : ∀ line e, d.fromSlice line = .ok e → isUtf8 line = true)
    {lines : List Bytes} {events : List AuditEvent}
    (h : List.Forall₂ (fun line e => d.fromSlice line = .ok e) lines events)
    (kept : List AuditEvent) :
    readLoop d isUtf8 filter kept lines = .ok (kept ++ events.filter (ofWallet filter)) := by
  induction h generalizing kept with
  | nil => rw [readLoop, List.filter_nil, List.append_nil]
  | @cons line e lines events hline _ ih =>
    rw [readLoop, hutf8 line e hline, hline]
    refine (ih _).trans ?_
    by_cases hkept : ofWallet filter e
    · simp [hkept]
    · simp [hkept]

/-- **After every run of the file sink whose failing emits leave nothing behind, a read gives the
last `limit` of the events that the emits returned for the wallet, in their order.** -/
theorem readAuditEvents_of_run (hutf8 : ∀ line e, d.fromSlice line = .ok e → isUtf8 line = true)
    (hc : d.crypto.Ed25519Correct) {serverKey : FixedBytes 32} {file : Option Bytes}
    (hfile : file = none ∨ file = some []) {steps : List FileStep} {r : FileRun}
    (hclean : ∀ x w, FileStep.emit x w ∈ steps → w.isClean = true)
    (hrun : fileRun d serverKey file steps = .ok r)
    (hjson : ∀ e ∈ r.results.filterMap Except.toOption, JsonFaithful d e) (limit : Nat) :
    readAuditEvents d isUtf8 filter limit (readFile r.file) =
      .ok (mostRecent limit
        ((r.results.filterMap Except.toOption).filter (ofWallet filter))) := by
  have hsynced := synced_of_clean hc hfile hclean hrun hjson
  have hloop := readLoop_of_parsed filter hutf8 (hsynced.accepts hjson).parsed []
  cases hcontent : r.file with
  | some content =>
    rw [hcontent] at hloop
    exact congrArg (mostRecent limit <$> ·) hloop
  | none =>
    -- the loop ran over no lines
    rw [hcontent] at hloop
    have hnil : [] = (r.results.filterMap Except.toOption).filter (ofWallet filter) :=
      Except.ok.inj hloop
    rw [← hnil, mostRecent, List.drop_nil]
    rfl

open SampleFile

/-- Two emits fail and are made again. -/
theorem readAuditEvents_retried :
    ∃ r, fileRun deps SampleLog.seed none retried = .ok r ∧
      readAuditEvents deps (fun _ => true) none 1 (readFile r.file) = .ok [second] := by
  obtain ⟨r, hrun, hresults⟩ := retried_run
  have hreturned : r.results.filterMap Except.toOption = [first, second] := by
    rw [hresults]
    rfl
  refine ⟨r, hrun, (readAuditEvents_of_run none (fun _ _ _ => rfl) SampleLog.deps_ed25519Correct
    (.inl rfl) ?_ hrun ?_ 1).trans (by rw [hreturned]; rfl)⟩
  · simp +contextual [retried, or_imp, WriteOutcome.isClean]
  · rw [hreturned]
    exact List.forall_mem_cons.2 ⟨jsonFaithful (i := 0) rfl,
      List.forall_mem_singleton.2 (jsonFaithful (i := 1) rfl)⟩

end QfcServerWallet.Audit
