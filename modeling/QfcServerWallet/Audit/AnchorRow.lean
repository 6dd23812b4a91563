import QfcServerWallet.Audit.Postgres
import QfcServerWallet.Lib.Lines

/-!
# What a signed anchor row fixes

`qfc-audit/src/anchor.rs`: `LocalFileAnchor::anchor_preimage`, the bytes that the operator's
signature on a row of the anchor file covers.

* The date and the head are `String`s that are read back from a JSONL row as they are. The source
  writes `YYYY-MM-DD` and hex digits, but nothing checks it.
* The count is a `u64`, so that a payload of the source is a `SizedPayload`.

Results: `anchorPreimage_eq_iff` and **`anchorPreimage_fixes_iff`**.
-/

namespace QfcServerWallet.Audit

open Lib

/-- The fields one after the other, with a NUL between them; nothing for no event id. -/
def anchorPreimage (payload : AnchorPayload) : Bytes :=
  utf8 "qfc-audit-anchor-v1\x00" ++ utf8 payload.dateUtc ++ 0x00 :: utf8 payload.chainHeadHex
    ++ 0x00 :: (match payload.headEventId with | some eid => eid.textBytes | none => [])
    ++ 0x00 :: toBe 8 payload.eventCount

/-- A payload whose count is a `u64`. -/
abbrev SizedPayload := { p : AnchorPayload // p.eventCount < 2 ^ 64 }

/-! ## The fields of a preimage -/

/-- The part of the preimage between the tag and the id. -/
def dayBytes (p : AnchorPayload) : Bytes := utf8 p.dateUtc ++ 0x00 :: utf8 p.chainHeadHex

/-- The text of the head's id, if there is one. -/
def headIdBytes : Option EventId → Bytes
  | some eid => eid.textBytes
  | none => []

theorem anchorPreimage_eq (p : AnchorPayload) :
    anchorPreimage p = utf8 "qfc-audit-anchor-v1\x00" ++ dayBytes p ++ 0x00 ::
      headIdBytes p.headEventId ++ 0x00 :: toBe 8 p.eventCount := by
  rw [anchorPreimage, dayBytes, ← List.append_assoc]
  rfl

theorem zero_notMem_textBytes {k : IdKind} (id : Ident k) : 0 ∉ id.textBytes := by
  have hdigit : ∀ n < 32, crockfordByte n ≠ 0 := by decide
  rw [Ident.textBytes_eq]
  intro hmem
  obtain ⟨n, hn, hzero⟩ := exists_of_mem_digits (by decide) hmem
  exact hdigit n hn hzero

theorem zero_notMem_headIdBytes (id : Option EventId) : 0 ∉ headIdBytes id := by
  cases id with
  | none => exact List.not_mem_nil
  | some eid => exact zero_notMem_textBytes eid

theorem headIdBytes_inj {a b : Option EventId} (h : headIdBytes a = headIdBytes b) : a = b := by
  have hlength := congrArg List.length h
  cases a with
  | none =>
    cases b with
    | none => rfl
    | some b => exact absurd hlength (by simp [headIdBytes])
  | some a =>
    cases b with
    | none => exact absurd hlength (by simp [headIdBytes])
    | some b => rw [Ident.textBytes_inj h]

/-- **The id and the count are fixed by the preimage, and so are the date and the head as one
string of bytes.** -/
theorem anchorPreimage_eq_iff (p q : SizedPayload) :
    anchorPreimage p = anchorPreimage q ↔ p.1.headEventId = q.1.headEventId ∧
      p.1.eventCount = q.1.eventCount ∧ dayBytes p = dayBytes q := by
  rw [anchorPreimage_eq, anchorPreimage_eq]
  constructor
  · intro h
    -- the count has a fixed width, and the id has no NUL
    obtain ⟨h, hcount⟩ := List.append_inj' h (by simp)
    obtain ⟨h, hid⟩ := append_cons_right_inj (zero_notMem_headIdBytes _)
      (zero_notMem_headIdBytes _) h
    exact ⟨headIdBytes_inj hid, toBe_inj p.2 q.2 (List.cons.inj hcount).2,
      List.append_cancel_left h⟩
  · rintro ⟨hid, hcount, hday⟩
    rw [hid, hcount, hday]

/-! ## Dates and heads with a NUL -/

/-- The payload with another date and head. -/
def SizedPayload.withDay (p : SizedPayload) (date head : List Char) : SizedPayload :=
  ⟨{ p.1 with dateUtc := String.ofList date, chainHeadHex := String.ofList head }, p.2⟩

theorem SizedPayload.dayBytes_withDay (p : SizedPayload) (date head : List Char) :
    dayBytes (p.withDay date head) = (date ++ '\x00' :: head).flatMap String.utf8EncodeChar := by
  simp [dayBytes, withDay, utf8]
  rfl

theorem dayBytes_eq_flatMap (p : AnchorPayload) :
    dayBytes p =
      (p.dateUtc.toList ++ '\x00' :: p.chainHeadHex.toList).flatMap String.utf8EncodeChar := by
  simp [dayBytes, utf8]
  rfl

theorem exists_other_of_split {p : SizedPayload} {front back : List Char}
    (hsplit : p.1.dateUtc.toList ++ '\x00' :: p.1.chainHeadHex.toList = front ++ '\x00' :: back)
    (hfront : front ≠ p.1.dateUtc.toList) :
    ∃ q : SizedPayload, anchorPreimage q = anchorPreimage p ∧ q ≠ p := by
  refine ⟨p.withDay front back, ?_, fun heq => hfront ?_⟩
  · refine (anchorPreimage_eq_iff _ _).2 ⟨rfl, rfl, ?_⟩
    rw [SizedPayload.dayBytes_withDay, dayBytes_eq_flatMap, hsplit]
  · have hdate := congrArg (fun q : SizedPayload => q.1.dateUtc.toList) heq
    simpa [SizedPayload.withDay] using hdate

/-- **The preimage of a payload fixes every field of it iff its date and its head have no NUL.** -/
theorem anchorPreimage_fixes_iff (p : SizedPayload) :
    (∀ q : SizedPayload, anchorPreimage q = anchorPreimage p → q = p) ↔
      '\x00' ∉ p.1.dateUtc.toList ∧ '\x00' ∉ p.1.chainHeadHex.toList := by
  constructor
  · intro hfixes
    constructor
    · intro hdate
      obtain ⟨front, back, hsplit⟩ := List.append_of_mem hdate
      obtain ⟨q, hq, hne⟩ := exists_other_of_split
        (show _ = front ++ '\x00' :: (back ++ '\x00' :: p.1.chainHeadHex.toList) by
          rw [hsplit]; simp)
        (by rw [hsplit]; simp)
      exact hne (hfixes q hq)
    · intro hhead
      obtain ⟨front, back, hsplit⟩ := List.append_of_mem hhead
      obtain ⟨q, hq, hne⟩ := exists_other_of_split
        (show _ = (p.1.dateUtc.toList ++ '\x00' :: front) ++ '\x00' :: back by rw [hsplit]; simp)
        (by simp)
      exact hne (hfixes q hq)
  · rintro ⟨hdate, hhead⟩ q hq
    obtain ⟨hid, hcount, hday⟩ := (anchorPreimage_eq_iff q p).1 hq
    -- one NUL on the side of `p`, so that both sides are split at it
    obtain ⟨hdate, -, hhead⟩ := (List.append_cons_inj_of_notMem
      (mt (mem_utf8_iff (by decide)).1 hdate)
      (mt (mem_utf8_iff (by decide)).1 hhead)).1 hday.symm
    refine Subtype.ext ?_
    obtain ⟨⟨date, head, id, count⟩, hp⟩ := p
    obtain ⟨⟨date', head', id', count'⟩, hq'⟩ := q
    simp only at hid hcount hdate hhead ⊢
    rw [hid, hcount, utf8_inj hdate, utf8_inj hhead]

/-- Two payloads of one row: the first bytes of the head may be read as the end of the date. -/
theorem anchorPreimage_shifted :
    anchorPreimage ⟨"2026-11-16\x002026-11-17", "00", none, 3⟩ =
        anchorPreimage ⟨"2026-11-16", "2026-11-17\x0000", none, 3⟩ ∧
      (⟨"2026-11-16\x002026-11-17", "00", none, 3⟩ : AnchorPayload) ≠
        ⟨"2026-11-16", "2026-11-17\x0000", none, 3⟩ := by
  decide

end QfcServerWallet.Audit
