import QfcServerWallet.Audit.Tamper

/-!
# Runs of the file audit sink

Runs of one sink on one path: emits in the order in which they get the mutex, with any outcome of
their writes, and restarts (`reopen`), which recover the head from the file.

Results: `Synced.emit`, `Synced.reopen`, **`fileRun_correct`**, **`survivesFailures_of_clean`** and
`survivesFailures_fails_after_sync`.
-/

namespace QfcServerWallet.Audit

open Lib

/-! ## Runs -/

/-- A step of a run; an emit comes with the outcome of its writes. -/
inductive FileStep where
  | emit (x : Emit) (w : WriteOutcome)
  | reopen

/-- The file, the open sink, and what the emits have returned. -/
structure FileRun where
  file : Option Bytes
  sink : FileAuditSink
  results : List (Except AuditError AuditEvent)

section

variable (d : FileDeps)

/-- One emit or restart. -/
def FileRun.step (r : FileRun) : FileStep → Except (Fault AuditError) FileRun
  | .emit x w =>
    let (result, sink, file) := r.sink.emit d r.file x w
    .ok ⟨file, sink, r.results ++ [result]⟩
  | .reopen => do
    let sink ← FileAuditSink.openPath d r.sink.serverKey (readFile r.file)
    .ok { r with sink }

/-- A sink is opened on the path and the steps are taken. -/
def fileRun (serverKey : FixedBytes 32) (file : Option Bytes) (steps : List FileStep) :
    Except (Fault AuditError) FileRun := do
  let sink ← FileAuditSink.openPath d serverKey (readFile file)
  steps.foldlM (FileRun.step d) ⟨file, sink, []⟩

end

/-- The emits of a run. -/
def emitsOf (steps : List FileStep) : List Emit :=
  steps.filterMap fun
    | .emit x _ => some x
    | .reopen => none

/-- The events of the emits, each linked to the one before it. -/
def chained (d : FileDeps) (serverKey : FixedBytes 32) : FixedBytes 32 → List Emit → List AuditEvent
  | _, [] => []
  | prev, x :: xs =>
    let event := stampEmit d serverKey prev x
    event :: chained d serverKey (event.hash d.toWriter d.crypto) xs

variable {d : FileDeps} {serverKey : FixedBytes 32} {r r' : FileRun} {events : List AuditEvent}
  {file : Option Bytes} {steps : List FileStep} {w : WriteOutcome} {x : Emit}

theorem fileRun_concat {s : FileStep} :
    fileRun d serverKey file (steps ++ [s])
      = fileRun d serverKey file steps >>= (FileRun.step d · s) := by
  simp only [fileRun, List.foldlM_append, List.foldlM_cons, List.foldlM_nil, bind_assoc, bind_pure]

theorem emitsOf_concat_reopen (steps : List FileStep) :
    emitsOf (steps ++ [.reopen]) = emitsOf steps := by
  rw [emitsOf, List.filterMap_append]
  exact List.append_nil _

theorem emitsOf_concat_emit (steps : List FileStep) (x : Emit) (w : WriteOutcome) :
    emitsOf (steps ++ [.emit x w]) = emitsOf steps ++ [x] := List.filterMap_append ..

theorem chained_concat {prev : FixedBytes 32} (xs : List Emit) (x : Emit) :
    chained d serverKey prev (xs ++ [x]) = chained d serverKey prev xs ++
      [stampEmit d serverKey (chainHead (AuditEvent.hash d.toWriter d.crypto) prev
        (chained d serverKey prev xs)) x] := by
  induction xs generalizing prev with
  | nil => rfl
  | cons y xs ih => simp only [List.cons_append, chained, ih, chainHead]

theorem length_chained (d : FileDeps) (serverKey prev : FixedBytes 32) (xs : List Emit) :
    (chained d serverKey prev xs).length = xs.length := by
  induction xs generalizing prev with
  | nil => rfl
  | cons x xs ih => simp only [chained, List.length_cons, ih]

/-! ## The file, the cursor and the results -/

/-- What JSON promises of an event that could be encoded: its text parses back, is not empty and has
no line break. -/
def JsonFaithful (d : FileDeps) (e : AuditEvent) : Prop :=
  ∀ json, d.toVec e = .ok json → d.fromSlice json = .ok e ∧ 10 ∉ json ∧ json ≠ []

/-- The events are those of the file, and the cursor is behind the last of them. -/
structure Synced (d : FileDeps) (serverKey : FixedBytes 32) (r : FileRun)
    (events : List AuditEvent) : Prop where
  key : r.sink.serverKey = serverKey
  state : r.sink.state =
    ⟨chainHead (AuditEvent.hash d.toWriter d.crypto) (FixedBytes.zero 32) events, events.length⟩
  /-- each event is on a line of its own -/
  lines : ∃ jsons, List.Forall₂ (fun json e => d.toVec e = .ok json) jsons events ∧
    r.file.getD [] = terminate 10 jsons
  linked : Linked AuditEvent.prevEventHash (AuditEvent.hash d.toWriter d.crypto)
    (FixedBytes.zero 32) events
  verified : ∀ e ∈ events, verifyEvent d.toWriter d.crypto e
    (d.crypto.ed25519PublicKey serverKey).bytes = .ok true
  returned : events = r.results.filterMap Except.toOption

theorem Synced.opened (d : FileDeps) (serverKey : FixedBytes 32)
    (hfile : file = none ∨ file = some []) :
    ∃ r, fileRun d serverKey file [] = .ok r ∧ Synced d serverKey r [] ∧ r.file = file ∧
      r.results = [] := by
  refine ⟨⟨file, ⟨serverKey, FixedBytes.zero 32, 0⟩, []⟩, ?_, ?_, rfl, rfl⟩
  · rcases hfile with rfl | rfl <;> rfl
  · refine ⟨rfl, rfl, ⟨[], .nil, ?_⟩, trivial, by simp, rfl⟩
    rcases hfile with rfl | rfl <;> rfl

theorem parsed_of_encoded {jsons : List Bytes}
    (h : List.Forall₂ (fun json e => d.toVec e = .ok json) jsons events)
    (hjson : ∀ e ∈ events, JsonFaithful d e) :
    List.Forall₂ (fun line e => d.fromSlice line = .ok e) jsons events := by
  induction h with
  | nil => exact .nil
  | cons hvec _ ih =>
    obtain ⟨he, hrest⟩ := List.forall_mem_cons.1 hjson
    exact .cons (he _ hvec).1 (ih hrest)

theorem Synced.accepts (h : Synced d serverKey r events)
    (hjson : ∀ e ∈ events, JsonFaithful d e) :
    Accepts d (d.crypto.ed25519PublicKey serverKey).bytes (FixedBytes.zero 32)
      (logLines (r.file.getD [])) events := by
  obtain ⟨jsons, hjsons, hfile⟩ := h.lines
  have hrecords : logLines (r.file.getD []) = jsons := by
    rw [logLines, hfile]
    refine records_terminate fun json hmem => ?_
    obtain ⟨e, he, hvec⟩ := exists_left_of_forall₂ hjsons.flip hmem
    exact (hjson e he json hvec).2
  refine ⟨?_, h.linked, h.verified⟩
  rw [hrecords]
  exact parsed_of_encoded hjsons hjson

theorem Synced.file_of_nil (h : Synced d serverKey r []) : r.file.getD [] = [] := by
  obtain ⟨jsons, hjsons, hfile⟩ := h.lines
  cases hjsons
  exact hfile

theorem Synced.recoverChainHead (h : Synced d serverKey r events)
    (hjson : ∀ e ∈ events, JsonFaithful d e) :
    recoverChainHead d (readFile r.file) = .ok r.sink.state := by
  have hempty : r.file.getD [] = [] ∨ events ≠ [] := by
    rcases eq_or_ne events [] with rfl | hne
    · exact .inl h.file_of_nil
    · exact .inr hne
  have hcontent := (h.accepts hjson).recoverChainHead hempty
  rw [← h.state] at hcontent
  cases hfile : r.file with
  | some content =>
    rw [hfile] at hcontent
    exact hcontent
  | none =>
    -- no file is recovered like an empty one
    rw [hfile] at hcontent
    exact hcontent

theorem Synced.replayVerify (h : Synced d serverKey r events)
    (hjson : ∀ e ∈ events, JsonFaithful d e) {content : Bytes} (hfile : r.file = some content) :
    replayVerify d (d.crypto.ed25519PublicKey serverKey).bytes (.content content)
      = .ok events.length := by
  have haccepts := h.accepts hjson
  rw [hfile] at haccepts
  exact replayVerify_content_iff.2 ⟨events, haccepts, rfl⟩

/-- A restart changes nothing. -/
theorem Synced.reopen (h : Synced d serverKey r events)
    (hjson : ∀ e ∈ events, JsonFaithful d e) : r.step d .reopen = .ok r := by
  simp only [FileRun.step, FileAuditSink.openPath, h.recoverChainHead hjson]
  rfl

/-! ## One emit -/

/-- The emit succeeds, or leaves no byte of its line. -/
def WriteOutcome.isClean : WriteOutcome → Bool
  | .synced | .openFails _ | .writeFails 0 _ | .flushFails 0 _ => true
  | .writeFails (_ + 1) _ | .flushFails (_ + 1) _ | .syncFails _ => false

theorem WriteOutcome.appended_of_isClean (hw : w.isClean = true) {what : String}
    (herror : w.error? = some what) (line : Bytes) (file : Option Bytes) :
    (w.appended line file).getD [] = file.getD [] := by
  cases w with
  | openFails what => rfl
  | writeFails n what | flushFails n what =>
    cases n with
    | zero => simp [WriteOutcome.appended]
    | succ n => cases hw
  | synced => cases herror
  | syncFails what => cases hw

/-- The event a run stamps next. -/
def nextEvent (d : FileDeps) (r : FileRun) (x : Emit) : AuditEvent :=
  stampEmit d r.sink.serverKey r.sink.state.prevEventHash x

theorem Synced.nextEvent_eq (h : Synced d serverKey r events) :
    nextEvent d r x = stampEmit d serverKey
      (chainHead (AuditEvent.hash d.toWriter d.crypto) (FixedBytes.zero 32) events) x := by
  rw [nextEvent, h.key, h.state]

theorem Synced.emit_ok (hc : d.crypto.Ed25519Correct) (h : Synced d serverKey r events)
    {json : Bytes} (hjson : d.toVec (nextEvent d r x) = .ok json) :
    ∃ r', r.step d (.emit x .synced) = .ok r' ∧
      Synced d serverKey r' (events ++ [nextEvent d r x]) ∧
      r'.results = r.results ++ [.ok (nextEvent d r x)] ∧ r'.file.isSome = true := by
  obtain ⟨json', hjson', -, hemit⟩ | ⟨e, he, -⟩ | ⟨_, _, hw, -⟩ :=
    r.sink.emit_cases r.file x .synced rfl
  · obtain rfl : json = json' := Except.ok.inj (hjson.symm.trans hjson')
    have hstate : r.sink.state = _ := h.state
    refine ⟨⟨some (r.file.getD [] ++ (json ++ [10])), ⟨r.sink.serverKey,
      (nextEvent d r x).hash d.toWriter d.crypto, r.sink.state.written + 1⟩,
      r.results ++ [.ok (nextEvent d r x)]⟩, ?_, ⟨h.key, ?_, ?_, ?_, ?_, ?_⟩, rfl, rfl⟩
    · simp only [FileRun.step, hemit, nextEvent]
    · simp only [chainHead_concat, List.length_append, List.length_singleton, hstate]
    · obtain ⟨jsons, hjsons, hfile⟩ := h.lines
      refine ⟨jsons ++ [json], List.rel_append hjsons (.cons hjson .nil), ?_⟩
      rw [terminate_concat, ← hfile]
      rfl
    · refine linked_concat.2 ⟨h.linked, ?_⟩
      change r.sink.state.prevEventHash = _
      rw [hstate]
    · intro e he
      rcases List.mem_append.1 he with he | he
      · exact h.verified e he
      · rw [List.mem_singleton.1 he, ← h.key]
        exact verifyEvent_stamp hc _ _ _ _ _
    · rw [List.filterMap_append, ← h.returned]
      rfl
  · cases hjson.symm.trans he
  · cases hw

theorem Synced.emit_error (h : Synced d serverKey r events) {sink : FileAuditSink} {e : AuditError}
    (hemit : r.sink.emit d r.file x w = (.error e, sink, file)) (hsink : sink = r.sink)
    (hfile : file.getD [] = r.file.getD []) :
    ∃ r', r.step d (.emit x w) = .ok r' ∧ Synced d serverKey r' events := by
  subst hsink
  refine ⟨⟨file, r.sink, r.results ++ [.error e]⟩, by simp only [FileRun.step, hemit],
    ⟨h.key, h.state, ?_, h.linked, h.verified, ?_⟩⟩
  · obtain ⟨jsons, hjsons, hlines⟩ := h.lines
    exact ⟨jsons, hjsons, hfile.trans hlines⟩
  · rw [List.filterMap_append, ← h.returned]
    simp [Except.toOption]

/-! ## Runs without failures -/

theorem fileRun_synced (hc : d.crypto.Ed25519Correct) (hfile : file = none ∨ file = some [])
    (hio : ∀ x w, FileStep.emit x w ∈ steps → w = .synced)
    (hjson : ∀ e ∈ chained d serverKey (FixedBytes.zero 32) (emitsOf steps),
      (∃ json, d.toVec e = .ok json) ∧ JsonFaithful d e) :
    ∃ r, fileRun d serverKey file steps = .ok r ∧
      Synced d serverKey r (chained d serverKey (FixedBytes.zero 32) (emitsOf steps)) ∧
      r.results = (chained d serverKey (FixedBytes.zero 32) (emitsOf steps)).map .ok ∧
      (r.file = none → file = none ∧ emitsOf steps = []) := by
  induction steps using List.reverseRecOn with
  | nil =>
    obtain ⟨r, hr, hsynced, hrfile, hresults⟩ := Synced.opened d serverKey hfile
    exact ⟨r, hr, hsynced, hresults, fun hnone => ⟨hrfile ▸ hnone, rfl⟩⟩
  | append_singleton steps s ih =>
    have hio' : ∀ x w, FileStep.emit x w ∈ steps → w = .synced :=
      fun x w hmem => hio x w (List.mem_append_left _ hmem)
    rw [fileRun_concat]
    cases s with
    | reopen =>
      rw [emitsOf_concat_reopen] at hjson ⊢
      obtain ⟨r, hr, hsynced, hresults, hnone⟩ := ih hio' hjson
      refine ⟨r, ?_, hsynced, hresults, hnone⟩
      rw [hr]
      exact hsynced.reopen fun e he => (hjson e he).2
    | emit x w =>
      obtain rfl := hio x w (by simp)
      rw [emitsOf_concat_emit, chained_concat] at hjson ⊢
      obtain ⟨r, hr, hsynced, hresults, -⟩ := ih hio' fun e he =>
        hjson e (List.mem_append_left _ he)
      rw [← hsynced.nextEvent_eq] at hjson ⊢
      obtain ⟨⟨json, hvec⟩, -⟩ := hjson (nextEvent d r x) (by simp)
      obtain ⟨r', hstep, hsynced', hresults', hsome⟩ := hsynced.emit_ok hc hvec
      refine ⟨r', by rw [hr]; exact hstep, hsynced', ?_, fun hnone => ?_⟩
      · rw [hresults', hresults, List.map_append]
        rfl
      · rw [hnone] at hsome
        cases hsome

/-- **Without failures, the file holds the events that the emits returned, in order, the replay
accepts it and counts the emits, and a restart recovers the cursor.** Before the first emit on a
path without a file there is no file yet. -/
theorem fileRun_correct (d : FileDeps) (hc : d.crypto.Ed25519Correct) (serverKey : FixedBytes 32)
    (file : Option Bytes) (hfile : file = none ∨ file = some []) (steps : List FileStep)
    (hio : ∀ x w, FileStep.emit x w ∈ steps → w = .synced)
    (hjson : ∀ e ∈ chained d serverKey (FixedBytes.zero 32) (emitsOf steps),
      (∃ json, d.toVec e = .ok json) ∧ JsonFaithful d e) :
    ∃ r events, fileRun d serverKey file steps = .ok r ∧
      r.results = events.map .ok ∧ events.length = (emitsOf steps).length ∧
      recoverChainHead d (readFile r.file) = .ok r.sink.state ∧
      (∀ content, r.file = some content →
        replayVerify d (d.crypto.ed25519PublicKey serverKey).bytes (.content content)
          = .ok (emitsOf steps).length ∧ LogEvents d content events) ∧
      (r.file = none → file = none ∧ emitsOf steps = []) := by
  obtain ⟨r, hr, hsynced, hresults, hnone⟩ := fileRun_synced hc hfile hio hjson
  have hfaithful := fun e he => (hjson e he).2
  refine ⟨r, _, hr, hresults, length_chained _ _ _ _, hsynced.recoverChainHead hfaithful, ?_, hnone⟩
  intro content hcontent
  refine ⟨?_, ?_⟩
  · rw [← length_chained d serverKey (FixedBytes.zero 32)]
    exact hsynced.replayVerify hfaithful hcontent
  · have hparsed := (hsynced.accepts hfaithful).parsed
    rwa [hcontent] at hparsed

/-! ### Three runs

The emits of `SampleLog.ordered` on a path without a file: with a restart between them; with an
error before anything is written; and with a line that was written but not synced. -/

namespace SampleFile

def firstCall : Emit := SampleLog.call .signingRequested ⟨16⟩ 1000

/-- The second one. -/
def secondCall : Emit := SampleLog.call .signingSucceeded ⟨17⟩ 1000

def restarted : List FileStep :=
  [.emit firstCall .synced, .reopen, .emit secondCall .synced]

theorem jsonFaithful {i : Nat} {e : AuditEvent} (he : known[i]? = some e) :
    JsonFaithful deps e := by
  intro json hjson
  obtain rfl : eventJson e = json := Except.ok.inj hjson
  exact ⟨fromSlice_known he, evaluated.2.2.2.1 e (List.mem_of_getElem? he)⟩

theorem second_eq :
    stampEmit deps SampleLog.seed (first.hash deps.toWriter deps.crypto) secondCall = second := by
  rw [evaluated.2.2.2.2.1]
  rfl

end SampleFile

open SampleFile in
/-- Two emits with a restart in between. -/
theorem fileRun_correct_restarted :
    ∃ r, ∃ events : List AuditEvent,
      fileRun deps SampleLog.seed none restarted = .ok r ∧
      r.results = events.map .ok ∧ events.length = 2 ∧
      recoverChainHead deps (readFile r.file) = .ok r.sink.state := by
  have hlog : chained deps SampleLog.seed (FixedBytes.zero 32)
      (emitsOf restarted) = [first, second] := by
    rw [← second_eq]
    rfl
  have hio : ∀ x w, FileStep.emit x w ∈ restarted → w = .synced := by
    intro x w hmem
    simp only [restarted, List.mem_cons, FileStep.emit.injEq, reduceCtorEq,
      List.not_mem_nil, or_false, false_or] at hmem
    rcases hmem with ⟨-, rfl⟩ | ⟨-, rfl⟩ <;> rfl
  have hjson : ∀ e ∈ chained deps SampleLog.seed (FixedBytes.zero 32)
      (emitsOf restarted),
      (∃ json, deps.toVec e = .ok json) ∧ JsonFaithful deps e := by
    rw [hlog]
    intro e he
    simp only [List.mem_cons, List.not_mem_nil, or_false] at he
    rcases he with rfl | rfl
    · exact ⟨⟨_, rfl⟩, jsonFaithful (i := 0) rfl⟩
    · exact ⟨⟨_, rfl⟩, jsonFaithful (i := 1) rfl⟩
  obtain ⟨r, events, hr, hresults, hlength, hrecover, -⟩ := fileRun_correct deps
    SampleLog.deps_ed25519Correct SampleLog.seed none (.inl rfl) restarted hio hjson
  exact ⟨r, events, hr, hresults, hlength, hrecover⟩

/-! ## Runs with failures -/

/-- When an emit has just returned an event, the replay accepts the file. -/
def SurvivesFailures (d : FileDeps) (serverKey : FixedBytes 32) (r : FileRun) : Prop :=
  (∃ e, r.results.getLast? = some (.ok e)) →
    ∃ n, replayVerify d (d.crypto.ed25519PublicKey serverKey).bytes (readFile r.file) = .ok n

/-- An emit that fails keeps file and cursor together, if it leaves no byte of its line. -/
theorem Synced.emit (hc : d.crypto.Ed25519Correct) (h : Synced d serverKey r events)
    (hw : w.isClean = true) (hstep : r.step d (.emit x w) = .ok r') :
    Synced d serverKey r' (r'.results.filterMap Except.toOption) := by
  obtain ⟨json, hjson, rfl, -⟩ | ⟨e, -, hemit⟩ | ⟨json, what, herror, -, hemit⟩ :=
    r.sink.emit_cases (d := d) r.file x w rfl
  · obtain ⟨r'', hr'', hsynced, -⟩ := h.emit_ok hc hjson
    obtain rfl : r' = r'' := Except.ok.inj (hstep.symm.trans hr'')
    rwa [← hsynced.returned]
  · obtain ⟨r'', hr'', hsynced⟩ := h.emit_error hemit rfl rfl
    obtain rfl : r' = r'' := Except.ok.inj (hstep.symm.trans hr'')
    rwa [← hsynced.returned]
  · obtain ⟨r'', hr'', hsynced⟩ :=
      h.emit_error hemit rfl (WriteOutcome.appended_of_isClean hw herror _ _)
    obtain rfl : r' = r'' := Except.ok.inj (hstep.symm.trans hr'')
    rwa [← hsynced.returned]

theorem synced_of_clean (hc : d.crypto.Ed25519Correct) (hfile : file = none ∨ file = some [])
    (hclean : ∀ x w, FileStep.emit x w ∈ steps → w.isClean = true)
    (hrun : fileRun d serverKey file steps = .ok r)
    (hjson : ∀ e ∈ r.results.filterMap Except.toOption, JsonFaithful d e) :
    Synced d serverKey r (r.results.filterMap Except.toOption) := by
  induction steps using List.reverseRecOn generalizing r with
  | nil =>
    obtain ⟨r₀, hr₀, hsynced, -, hresults⟩ := Synced.opened d serverKey hfile
    obtain rfl : r = r₀ := Except.ok.inj (hrun.symm.trans hr₀)
    rwa [hresults]
  | append_singleton steps s ih =>
    rw [fileRun_concat, bind_eq_ok] at hrun
    obtain ⟨r₀, hr₀, hstep⟩ := hrun
    have ih := ih (fun x w hmem => hclean x w (List.mem_append_left _ hmem)) hr₀
    cases s with
    | reopen =>
      have hresults : r.results = r₀.results := by
        obtain ⟨sink, -, hsink⟩ := bind_eq_ok.1 hstep
        cases hsink
        rfl
      rw [hresults] at hjson ⊢
      obtain rfl : r = r₀ := Except.ok.inj (hstep.symm.trans ((ih hjson).reopen hjson))
      exact ih hjson
    | emit x w =>
      have hw := hclean x w (by simp)
      obtain ⟨result, hresults⟩ : ∃ result, r.results = r₀.results ++ [result] := by
        cases hstep
        exact ⟨_, rfl⟩
      have hjson₀ : ∀ e ∈ r₀.results.filterMap Except.toOption, JsonFaithful d e := by
        intro e he
        refine hjson e ?_
        rw [hresults, List.filterMap_append]
        exact List.mem_append_left _ he
      exact (ih hjson₀).emit hc hw hstep

/-- **In every run whose failing emits leave no byte of their lines, the replay accepts the file
after every emit that succeeds.** -/
theorem survivesFailures_of_clean (d : FileDeps) (hc : d.crypto.Ed25519Correct)
    (serverKey : FixedBytes 32) (file : Option Bytes) (hfile : file = none ∨ file = some [])
    (steps : List FileStep) (r : FileRun) (hrun : fileRun d serverKey file steps = .ok r)
    (hclean : ∀ x w, FileStep.emit x w ∈ steps → w.isClean = true)
    (hjson : ∀ e, .ok e ∈ r.results → JsonFaithful d e) : SurvivesFailures d serverKey r := by
  have hfaithful : ∀ e ∈ r.results.filterMap Except.toOption, JsonFaithful d e := by
    intro e he
    obtain ⟨result, hresult, htoOption⟩ := List.mem_filterMap.1 he
    cases result with
    | error _ => cases htoOption
    | ok _ =>
      cases htoOption
      exact hjson e hresult
  have hsynced := synced_of_clean hc hfile hclean hrun hfaithful
  rintro ⟨e, hlast⟩
  cases hcontent : r.file with
  | some content => exact ⟨_, hsynced.replayVerify hfaithful hcontent⟩
  | none =>
    -- an emit that succeeded has left a line
    obtain ⟨jsons, hjsons, hlines⟩ := hsynced.lines
    have he : e ∈ r.results.filterMap Except.toOption :=
      List.mem_filterMap.2 ⟨_, List.mem_of_getLast? hlast, rfl⟩
    rw [hcontent] at hlines
    cases jsons with
    | nil =>
      rw [List.forall₂_nil_left_iff] at hjsons
      rw [hjsons] at he
      cases he
    | cons json jsons => exact absurd hlines.symm (by simp [terminate])

namespace SampleFile

/-- The text of a full disk. -/
def noSpace : String := "No space left on device (os error 28)"

/-- Two emits fail before the first byte, and are made again. -/
def retried : List FileStep :=
  [.emit firstCall (.openFails noSpace), .emit firstCall .synced,
   .emit secondCall (.writeFails 0 noSpace), .emit secondCall .synced]

/-- The line of the first emit is in the file when its sync fails. -/
def unsynced : List FileStep :=
  [.emit firstCall (.syncFails "Input/output error (os error 5)"),
   .emit (SampleLog.call .signingRequested ⟨17⟩ 1000) .synced]

theorem retried_run :
    ∃ r, fileRun deps SampleLog.seed none retried = .ok r ∧
      r.results = [.error (.io noSpace), .ok first, .error (.io noSpace), .ok second] := by
  rw [← second_eq]
  exact ⟨_, rfl, rfl⟩

theorem unsynced_run :
    ∃ r, fileRun deps SampleLog.seed none unsynced = .ok r ∧
      r.results.getLast? = some (.ok unlinked) ∧ r.file = some (content [first, unlinked]) := by
  refine ⟨_, rfl, rfl, ?_⟩
  simp only [content, terminate, List.map_cons, List.map_nil, List.flatMap_cons, List.flatMap_nil,
    List.append_nil]
  rfl

end SampleFile

open SampleFile

/-- Failed emits that are retried leave the log intact. -/
theorem survivesFailures_retried :
    ∃ r, fileRun deps SampleLog.seed none retried = .ok r ∧
      SurvivesFailures deps SampleLog.seed r := by
  obtain ⟨r, hrun, hresults⟩ := retried_run
  refine ⟨r, hrun, survivesFailures_of_clean deps SampleLog.deps_ed25519Correct
    SampleLog.seed none (.inl rfl) retried r hrun ?_ ?_⟩
  · intro x w hmem
    simp only [retried, List.mem_cons, FileStep.emit.injEq, List.not_mem_nil, or_false] at hmem
    rcases hmem with ⟨-, rfl⟩ | ⟨-, rfl⟩ | ⟨-, rfl⟩ | ⟨-, rfl⟩ <;> rfl
  · intro e he
    simp only [hresults, List.mem_cons, reduceCtorEq, Except.ok.injEq, List.not_mem_nil, or_false,
      false_or] at he
    rcases he with rfl | rfl
    · exact jsonFaithful (i := 0) rfl
    · exact jsonFaithful (i := 1) rfl

/-- A line stays in the file although its emit failed, and the next event does not link to it. -/
theorem survivesFailures_fails_after_sync :
    ∃ r, fileRun deps SampleLog.seed none unsynced = .ok r ∧
      ¬ SurvivesFailures deps SampleLog.seed r := by
  obtain ⟨r, hrun, hlast, hfile⟩ := unsynced_run
  refine ⟨r, hrun, fun hsurvives => ?_⟩
  obtain ⟨n, hn⟩ := hsurvives ⟨unlinked, hlast⟩
  have hrejected := evaluated.2.2.2.2.2.2.2
  have hkey : deps.crypto.ed25519PublicKey SampleLog.seed = SampleLog.publicKey := by
    decide +kernel
  rw [hfile, hkey] at hn
  rw [show readFile (some _) = .content _ from rfl] at hn
  rw [hn] at hrejected
  cases hrejected

end QfcServerWallet.Audit
