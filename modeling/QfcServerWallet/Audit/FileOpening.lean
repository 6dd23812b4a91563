import QfcServerWallet.Audit.Tamper

/-!
# Opening the log against replaying it

`FileAuditSink::open` on a file of any bytes, and what it recovers when `replay_verify` accepts the
file.

* Both split the content at line breaks and drop empty lines, in loops of their own. `open` reads
  the last line only; the replay carries the hash from line to line.
* `open` takes the last line with `expect`, "non-empty by earlier check". The check is on the
  content and not on the lines.

Results: `openPath_panic_iff`, `openPath_of_replayState` and **`opens_like_replay_iff`**.
-/

namespace QfcServerWallet.Audit

open Lib

/-- `replay_verify`, with the hash its loop ends with besides the count it returns. -/
def replayState (d : FileDeps) (verifyingKey : Bytes) : ReadOutcome → Except AuditError ChainState
  | .notFound what | .failed what => .error (.io what)
  | .content content =>
    if content.isEmpty then .ok ⟨FixedBytes.zero 32, 0⟩
    else replayChain d verifyingKey ⟨FixedBytes.zero 32, 0⟩ (logLines content)

/-- The content is line breaks, and there is one. -/
def BlankLines (content : Bytes) : Prop := content ≠ [] ∧ ∀ b ∈ content, b = 10

variable {d : FileDeps} {verifyingKey content : Bytes} {serverKey : FixedBytes 32}

theorem replayVerify_eq_map (r : ReadOutcome) :
    replayVerify d verifyingKey r = (replayState d verifyingKey r).map ChainState.written := by
  cases r with
  | notFound what => rfl
  | failed what => rfl
  | content content =>
    simp only [replayVerify, replayState]
    split_ifs with hempty
    · rfl
    · exact replayLines_eq_map (logLines content) 0

theorem replayState_content_iff {s : ChainState} :
    replayState d verifyingKey (.content content) = .ok s ↔
      ∃ events, Accepts d verifyingKey (FixedBytes.zero 32) (logLines content) events ∧
        s = ChainState.after d ⟨FixedBytes.zero 32, 0⟩ events := by
  rw [← replayChain_ok_iff (s := ⟨FixedBytes.zero 32, 0⟩), replayState]
  split_ifs with hempty
  · obtain rfl : content = [] := by simpa using hempty
    rw [logLines, records_nil, replayChain]
  · rfl

/-- **`open` panics iff the file has line breaks and nothing else.** -/
theorem openPath_panic_iff :
    FileAuditSink.openPath d serverKey (.content content) = .error .panic ↔ BlankLines content := by
  unfold FileAuditSink.openPath recoverChainHead BlankLines
  by_cases hcontent : content = []
  · subst hcontent
    simp [bind, Except.bind]
  · have hempty : content.isEmpty = false := by simpa using hcontent
    have hlines : logLines content = [] ↔ ∀ b ∈ content, b = 10 := records_eq_nil_iff
    rw [← hlines]
    cases hlast : (logLines content).getLast? with
    | none =>
      have hnil : logLines content = [] := List.getLast?_eq_none_iff.1 hlast
      simp [hempty, hcontent, hnil, bind, Except.bind]
    | some last =>
      have hne : logLines content ≠ [] := by
        intro hnil
        rw [hnil] at hlast
        cases hlast
      cases hparsed : d.fromSlice last <;>
        simp [hempty, hlast, hne, hparsed, orFault, Except.mapError, bind, Except.bind]

/-- On a file that the replay accepts and that has more than line breaks, `open` succeeds with the
hash and the count the replay ends with. -/
theorem openPath_of_replayState {s : ChainState}
    (hs : replayState d verifyingKey (.content content) = .ok s) (hblank : ¬ BlankLines content) :
    FileAuditSink.openPath d serverKey (.content content) = .ok ⟨serverKey, s⟩ := by
  obtain ⟨events, haccepts, rfl⟩ := replayState_content_iff.1 hs
  have hlines : content = [] ∨ events ≠ [] := by
    by_cases hcontent : content = []
    · exact .inl hcontent
    · refine .inr fun hnil => hblank ⟨hcontent, records_eq_nil_iff.1 ?_⟩
      rw [hnil] at haccepts
      exact List.forall₂_nil_right_iff.1 haccepts.parsed
  rw [FileAuditSink.openPath, haccepts.recoverChainHead hlines]
  simp [ChainState.after, bind, Except.bind]

/-- **`open` returns without a panic, and with the head and the count of the replay where the replay
accepts, iff the file is empty or has a byte that is not a line break.** -/
theorem opens_like_replay_iff (d : FileDeps) (serverKey : FixedBytes 32) (content : Bytes) :
    (FileAuditSink.openPath d serverKey (.content content) ≠ .error .panic ∧
      ∀ verifyingKey n sink, replayVerify d verifyingKey (.content content) = .ok n →
        FileAuditSink.openPath d serverKey (.content content) = .ok sink →
        sink.state.written = n ∧
          replayState d verifyingKey (.content content) = .ok sink.state) ↔
      content = [] ∨ ∃ b ∈ content, b ≠ 10 := by
  have hblank : ¬ BlankLines content ↔ content = [] ∨ ∃ b ∈ content, b ≠ 10 := by
    rw [BlankLines, not_and_or, not_not]
    push Not
    rfl
  rw [← hblank, Ne, openPath_panic_iff]
  constructor
  · exact fun h => h.1
  · intro h
    refine ⟨h, fun verifyingKey n sink hn hsink => ?_⟩
    rw [replayVerify_eq_map] at hn
    cases hs : replayState d verifyingKey (.content content) with
    | error err => rw [hs] at hn; cases hn
    | ok s =>
      rw [hs] at hn
      rw [openPath_of_replayState hs h] at hsink
      cases hsink
      exact ⟨Except.ok.inj hn, rfl⟩

/-- A file of one line break: the replay accepts it as an empty log, and `open` panics. -/
theorem openPath_panics_on_blank_line :
    replayVerify SampleFile.deps SampleLog.publicKey.bytes (.content [10]) = .ok 0 ∧
      FileAuditSink.openPath SampleFile.deps SampleLog.seed (.content [10]) = .error .panic := by
  constructor
  · exact replayVerify_content_iff.2 ⟨[], accepts_nil, rfl⟩
  · exact openPath_panic_iff.2 ⟨by simp, by simp⟩

end QfcServerWallet.Audit
