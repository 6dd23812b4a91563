import QfcServerWallet.Audit.Postgres

/-!
# Runs of the Postgres audit sink

Every finite sequence of emits on an empty table, over all clock readings and all distinct event
ids. One kind is written with a byte that no decoder knows, another with one that the anchor does
not know.

Results: **`emitAll_readable_iff`**, **`emitAll_linear`** and its converse `sorted_of_linear`.
-/

namespace QfcServerWallet.Audit

open Lib

/-- The row of the first emit sorts before the row of the second. -/
def Emit.Before (x y : Emit) : Prop :=
  x.timestampUnixMs.toInt < y.timestampUnixMs.toInt ∨
    (x.timestampUnixMs.toInt = y.timestampUnixMs.toInt ∧ x.eventId.ulid < y.eventId.ulid)

instance (x y : Emit) : Decidable (x.Before y) := inferInstanceAs (Decidable (_ ∨ _))

/-- The events are what the emits made, each with some previous hash. -/
def Stamped (d : PgDeps) (serverKey : FixedBytes 32) : List Emit → List AuditEvent → Prop :=
  List.Forall₂ fun x e => ∃ prev, e = x.event d serverKey prev

variable {d : PgDeps} {serverKey : FixedBytes 32} {xs : List Emit} {events : List AuditEvent}
  {rows : List Row}

theorem key_eventRow_event (x : Emit) (prev : FixedBytes 32) :
    (eventRow d (x.event d serverKey prev)).key
      = toLex (x.timestampUnixMs.toInt, x.eventId.toString) := rfl

theorem before_iff_key {x y : Emit} {p q : FixedBytes 32} :
    x.Before y ↔ (eventRow d (x.event d serverKey p)).key
      < (eventRow d (y.event d serverKey q)).key := by
  rw [key_eventRow_event, key_eventRow_event, Prod.Lex.toLex_lt_toLex, Ident.toString_lt_iff]
  rfl

/-! ## What a run leaves -/

theorem emitAll_all_ok (h : ∀ r ∈ (emitAll d serverKey rows xs).1, r.isOk = true) :
    ∃ events, Stamped d serverKey xs events ∧
      emitAll d serverKey rows xs = (events.map .ok, rows ++ events.map (eventRow d)) := by
  induction xs generalizing rows with
  | nil => exact ⟨[], .nil, by simp [emitAll]⟩
  | cons x xs ih =>
    cases hx : emit d serverKey rows x with
    | error e =>
      simp only [emitAll, hx, List.mem_cons, forall_eq_or_imp] at h
      cases h.1
    | ok out =>
      obtain ⟨e, rows'⟩ := out
      obtain ⟨prev, -, he, -, rfl⟩ := emit_ok_iff.1 hx
      simp only [emitAll, hx, List.mem_cons, forall_eq_or_imp] at h
      obtain ⟨events, hev, hrun⟩ := ih h.2
      refine ⟨e :: events, .cons ⟨prev, he⟩ hev, ?_⟩
      simp only [emitAll, hx, hrun, List.map_cons, List.append_assoc, List.cons_append,
        List.nil_append]

theorem Stamped.exists_emit (h : Stamped d serverKey xs events) {e : AuditEvent}
    (he : e ∈ events) : ∃ x ∈ xs, ∃ prev, e = x.event d serverKey prev :=
  exists_left_of_forall₂ h he

theorem Stamped.exists_event (h : Stamped d serverKey xs events) {x : Emit} (hx : x ∈ xs) :
    ∃ e ∈ events, ∃ prev, e = x.event d serverKey prev :=
  exists_left_of_forall₂ h.flip hx

/-! ## Wedging -/

section Readable

variable (hparse : d.parseUlid.RoundTrips)
include hparse

theorem emit_of_readable (serverKey : FixedBytes 32) {x : Emit}
    (hkinds : ∀ e ∈ events, e.kind ≠ .policyDecisionSigned)
    (hnew : ∀ e ∈ events, e.eventId ≠ x.eventId) :
    ∃ prev, emit d serverKey (events.map (eventRow d)) x =
      .ok (x.event d serverKey prev,
        (events ++ [x.event d serverKey prev]).map (eventRow d)) := by
  have hid : x.eventId.toString ∉ (events.map (eventRow d)).map Row.eventId := by
    simp only [List.map_map, List.mem_map, not_exists, not_and]
    intro e he heq
    exact hnew e he (Ident.toString_inj heq)
  have hhead : ∃ prev, fetchChainHead d (events.map (eventRow d)) = .ok prev := by
    cases hrow : headRow (events.map (eventRow d)) with
    | none => exact ⟨_, by rw [fetchChainHead, hrow]⟩
    | some r =>
      obtain ⟨e, he, rfl⟩ := List.mem_map.1 (headRow_spec hrow).1
      exact ⟨_, (fetchChainHead_of_headRow hparse hrow).2 ⟨hkinds e he, rfl⟩⟩
  obtain ⟨prev, hprev⟩ := hhead
  exact ⟨prev, emit_ok_iff.2 ⟨prev, hprev, rfl, hid, by simp⟩⟩

theorem emitAll_of_readable (serverKey : FixedBytes 32) (events : List AuditEvent)
    (hkinds : ∀ e ∈ events, e.kind ≠ .policyDecisionSigned)
    (hxs : ∀ x ∈ xs, x.kind ≠ .policyDecisionSigned)
    (hnew : ∀ x ∈ xs, ∀ e ∈ events, e.eventId ≠ x.eventId)
    (hids : (xs.map Emit.eventId).Nodup) :
    ∀ r ∈ (emitAll d serverKey (events.map (eventRow d)) xs).1, r.isOk = true := by
  induction xs generalizing events with
  | nil => simp [emitAll]
  | cons x xs ih =>
    obtain ⟨hx, hxs⟩ := List.forall_mem_cons.1 hxs
    obtain ⟨hnewx, hnew⟩ := List.forall_mem_cons.1 hnew
    obtain ⟨hfresh, hids⟩ := List.nodup_cons.1 hids
    obtain ⟨prev, hemit⟩ := emit_of_readable hparse serverKey hkinds hnewx
    simp only [emitAll, hemit, List.mem_cons, forall_eq_or_imp]
    refine ⟨rfl, ih _ ?_ hxs ?_ hids⟩
    · simpa [or_imp, forall_and] using ⟨hkinds, hx⟩
    · intro y hy e he
      rcases List.mem_append.1 he with he | he
      · exact hnew y hy e he
      · rw [List.mem_singleton.1 he]
        intro (heq : x.eventId = y.eventId)
        exact hfresh (heq ▸ List.mem_map_of_mem hy)

end Readable

theorem isOk_iff {ε α : Type} {x : Except ε α} : x.isOk = true ↔ ∃ a, x = .ok a :=
  ⟨exists_ok_of_isOk, fun ⟨_, h⟩ => h ▸ rfl⟩

theorem Stamped.head_emit (h : Stamped d serverKey xs events) {r : Row}
    (hhead : headRow (events.map (eventRow d)) = some r) :
    ∃ x ∈ xs, (∃ prev, r = eventRow d (x.event d serverKey prev)) ∧ ∀ y ∈ xs, ¬ x.Before y := by
  obtain ⟨hr, hle⟩ := headRow_spec hhead
  obtain ⟨e, he, rfl⟩ := List.mem_map.1 hr
  obtain ⟨x, hx, prev, rfl⟩ := h.exists_emit he
  refine ⟨x, hx, ⟨prev, rfl⟩, fun y hy hbefore => ?_⟩
  obtain ⟨e', he', prev', rfl⟩ := h.exists_event hy
  exact absurd (before_iff_key.1 hbefore) (not_lt.2 (hle _ (List.mem_map_of_mem he')))

theorem eq_of_not_before (hids : (xs.map Emit.eventId).Nodup) {x y : Emit} (hx : x ∈ xs)
    (hy : y ∈ xs) (hxy : ¬ x.Before y) (hyx : ¬ y.Before x) : x = y := by
  have hkey : toLex (x.timestampUnixMs.toInt, x.eventId.toString)
      = toLex (y.timestampUnixMs.toInt, y.eventId.toString) := by
    refine le_antisymm (not_lt.1 fun h => hyx ?_) (not_lt.1 fun h => hxy ?_)
    · rwa [Prod.Lex.toLex_lt_toLex, Ident.toString_lt_iff] at h
    · rwa [Prod.Lex.toLex_lt_toLex, Ident.toString_lt_iff] at h
  rw [toLex_inj, Prod.mk.injEq] at hkey
  exact List.inj_on_of_nodup_map hids hx hy (Ident.toString_inj hkey.2)

/-- **What the sink stores can be read back iff no event is a signed policy decision and the last
row is not a reached quorum.** "Last" is by timestamp and id, as every query has it. -/
theorem emitAll_readable_iff (d : PgDeps) (hparse : d.parseUlid.RoundTrips)
    (serverKey : FixedBytes 32) (xs : List Emit) (hids : (xs.map Emit.eventId).Nodup)
    (dateUtc : String) :
    ((∀ r ∈ (emitAll d serverKey [] xs).1, r.isOk = true) ∧
      (∀ row ∈ (emitAll d serverKey [] xs).2, (rowToEvent d row).isOk = true) ∧
      (anchorPayload d dateUtc (emitAll d serverKey [] xs).2
        (emitAll d serverKey [] xs).2).isOk = true) ↔
    (∀ x ∈ xs, x.kind ≠ .policyDecisionSigned) ∧
      (∀ x ∈ xs, (∀ y ∈ xs, ¬ x.Before y) → x.kind ≠ .quorumThresholdReached) := by
  constructor
  · rintro ⟨hok, hrows, hanchor⟩
    obtain ⟨events, hev, hrun⟩ := emitAll_all_ok hok
    simp only [hrun, List.nil_append] at hrows hanchor
    refine ⟨fun x hx => ?_, fun x hx hmax => ?_⟩
    · obtain ⟨e, he, prev, rfl⟩ := hev.exists_event hx
      obtain ⟨e', hdec⟩ := isOk_iff.1 (hrows _ (List.mem_map_of_mem he))
      exact ((rowToEvent_eventRow hparse).1 hdec).1
    · cases hhead : headRow (events.map (eventRow d)) with
      | none =>
        obtain ⟨e, he, -⟩ := hev.exists_event hx
        rw [headRow_eq_none_iff, List.map_eq_nil_iff] at hhead
        exact absurd he (by simp [hhead])
      | some r =>
        -- `x` sorts last as well, so that it is the emit of the head
        obtain ⟨y, hy, ⟨prev, rfl⟩, hlast⟩ := hev.head_emit hhead
        obtain rfl := eq_of_not_before hids hx hy (hmax y hy) (hlast x hx)
        exact ((anchorPayload_of_headRow hparse hhead).1 (isOk_iff.1 hanchor)).2
  · rintro ⟨hkinds, hmax⟩
    have hok := emitAll_of_readable hparse serverKey [] (by simp) hkinds (by simp) hids
    obtain ⟨events, hev, hrun⟩ := emitAll_all_ok hok
    simp only [List.map_nil] at hok hrun
    refine ⟨hok, ?_⟩
    simp only [hrun, List.nil_append]
    refine ⟨?_, ?_⟩
    · intro row hrow
      obtain ⟨e, he, rfl⟩ := List.mem_map.1 hrow
      obtain ⟨x, hx, prev, rfl⟩ := hev.exists_emit he
      exact isOk_iff.2 ⟨_, (rowToEvent_eventRow hparse).2 ⟨hkinds x hx, rfl⟩⟩
    · cases hhead : headRow (events.map (eventRow d)) with
      | none => simp only [anchorPayload, hhead]; rfl
      | some r =>
        obtain ⟨x, hx, ⟨prev, rfl⟩, hlast⟩ := hev.head_emit hhead
        exact isOk_iff.2
          ((anchorPayload_of_headRow hparse hhead).2 ⟨hkinds x hx, hmax x hx hlast⟩)

/-! ### Two emits

The real signatures of the key made from thirty-two bytes `05`, and the real digests. -/

namespace SampleLog

/-- The key of the server. -/
def seed : FixedBytes 32 := ⟨List.replicate 32 5, rfl⟩

/-- Its public key. -/
def publicKey : FixedBytes 32 :=
  .ofNat 32 0x6e7a1cdd29b0b78fd13af4c5598feff4ef2a97166e3ca6f2e4fbfccd80505bf1

/-- The printed form of `null`, the only details used here. -/
def toWriter (_ : Json) : Bytes := utf8 "null"

/-- A preimage with its signature and the hash of both. -/
structure Entry where
  preimage : Bytes
  signature : FixedBytes 64
  hash : FixedBytes 32

def hash0 : FixedBytes 32 :=
  .ofNat 32 0xe1d75719ab0594f4f37cef904750019956457df4f07606871ebca9454511efce

def hash1 : FixedBytes 32 :=
  .ofNat 32 0x1a28eae593710d935262d1a719ab9cdd6e2c6f50f5b9bf25804879d5e72b3965

/-- The two events that are signed. -/
def entries : List Entry :=
  [⟨signingPreimage toWriter (FixedBytes.zero 32) ⟨16⟩ .signingRequested .null,
      .ofNat 64 (0xad8fda4616f0fe2f6a452e4f5669d4caac1f427dd9a8f6c1291df5b8ac60f3f0 * 2 ^ 256 +
        0x01d503f522cd8bdf2efa7596e7123ccac5680aab7cbfebfe13bf9de01f9aab05),
      .ofNat 32 0xe1d75719ab0594f4f37cef904750019956457df4f07606871ebca9454511efce⟩,
    ⟨signingPreimage toWriter hash0 ⟨17⟩ .signingSucceeded .null,
      .ofNat 64 (0x8599a12306f8e59c7b91292a6f0c831205d5842e3f2900bf92c31b29b1cf9e3a * 2 ^ 256 +
        0x729ded996c8d6be0c90042efaa367c5ad599010be767bf160133a9264869e80e),
      .ofNat 32 0x2907896e936cc3cfebab9d3d6240e49ffa8bab61dc38b8129114e74075c8c1de⟩,
    ⟨signingPreimage toWriter (FixedBytes.zero 32) ⟨17⟩ .signingRequested .null,
      .ofNat 64 (0x32919a486562894f39289f217609999896c3c845ce3fca3c203500b02845516e * 2 ^ 256 +
        0x17caefb95dfeeb7bcc4521ada33e98848d826c65712574911c1c72022348670c),
      .ofNat 32 0x1a28eae593710d935262d1a719ab9cdd6e2c6f50f5b9bf25804879d5e72b3965⟩,
    ⟨signingPreimage toWriter hash1 ⟨16⟩ .signingSucceeded .null,
      .ofNat 64 (0xb9eaab34c9f5f553eb748834e9a1d4c678b950d5c1533dd6b0adcfa7cdacae76 * 2 ^ 256 +
        0xa72b359ac50926b7b2a03faa5a937099bbf761f20bae4371d13ba8844119ff0c),
      .ofNat 32 0xcea424cbc3ff0c0b71081bee7995bab8aa03a4f7527e6c5c14281efde3b31bc8⟩,
    ⟨signingPreimage toWriter (FixedBytes.zero 32) ⟨16⟩ .policyDecisionSigned .null,
      .ofNat 64 (0x8ff646ad528f70649470c82757cea1e80d604aebbf9b2eda3a06b318c03d0bef * 2 ^ 256 +
        0x8b378d78132066ce08ce0190e800ab71bf25643bfbe04ed95c82f6f1259f7107),
      .ofNat 32 0x2290f0cf27971fe4d826656e9daf49ca62bec862d5281d0c56bf04ee15aa0246⟩]

/-- The digests and signatures of the sample. -/
def tables : Crypto.Tables where
  digests := entries.map fun e => (e.preimage ++ e.signature.bytes, e.hash)
  keys := [(seed, publicKey)]
  signatures := entries.map fun e => ((publicKey, e.preimage), e.signature)

/-- The dependencies of the sample. -/
def deps : PgDeps where
  crypto := .ofTables tables
  toWriter := toWriter
  jsonb := id
  parseUlid := ulidReference

theorem deps_roundTrips : deps.parseUlid.RoundTrips := @ulidReference_roundTrips

theorem deps_ed25519Correct : deps.crypto.Ed25519Correct := Crypto.ofTables_ed25519Correct tables

/-- An emit of the system without details. -/
def call (kind : AuditKind) (eventId : EventId) (timestampUnixMs : Int64) : Emit :=
  ⟨⟨.system, kind, none, none, .null⟩, eventId, timestampUnixMs⟩

/-- Two events, in the order in which they sort. -/
def ordered : List Emit := [call .signingRequested ⟨16⟩ 1000, call .signingSucceeded ⟨17⟩ 1000]

/-- The same millisecond, but the second id is the smaller one. -/
def reversed : List Emit := [call .signingRequested ⟨17⟩ 1000, call .signingSucceeded ⟨16⟩ 1000]

/-- A signed policy decision, then the attempt the service emits next. -/
def wedged : List Emit :=
  [call .policyDecisionSigned ⟨16⟩ 1000, call .signingAttempted ⟨17⟩ 1001]

end SampleLog

open SampleLog

/-- Two emits that can be read back. -/
theorem emitAll_readable_ordered :
    (∀ r ∈ (emitAll deps seed [] ordered).1, r.isOk = true) ∧
      (∀ row ∈ (emitAll deps seed [] ordered).2, (rowToEvent deps row).isOk = true) ∧
      (anchorPayload deps "2026-01-01" (emitAll deps seed [] ordered).2
        (emitAll deps seed [] ordered).2).isOk = true :=
  (emitAll_readable_iff deps deps_roundTrips seed
    ordered (by decide +kernel) "2026-01-01").2 ⟨by decide +kernel, by decide +kernel⟩

/-- After a signed policy decision, the next emit fails. -/
theorem emitAll_wedged : ¬ ∀ r ∈ (emitAll deps seed [] wedged).1, r.isOk = true := by
  decide +kernel

/-! ## One linear chain -/

/-- The log is linked in the order of the list. -/
def LinkedEvents (d : PgDeps) : List AuditEvent → Prop :=
  Linked AuditEvent.prevEventHash (AuditEvent.hash d.toWriter d.crypto) (FixedBytes.zero 32)

/-- A log the replay accepts: every event can be read back and verifies, the rows sort in the order
of the list, and the list is linked. -/
structure SoundLog (d : PgDeps) (serverKey : FixedBytes 32) (events : List AuditEvent) : Prop where
  readable : ∀ e ∈ events, e.kind ≠ .policyDecisionSigned
  json : ∀ e ∈ events, d.jsonb e.details = e.details
  verifies : ∀ e ∈ events,
    verifyEvent d.toWriter d.crypto e (d.crypto.ed25519PublicKey serverKey).bytes = .ok true
  sorted : (events.map (eventRow d)).Pairwise fun r s => r.key < s.key
  linked : LinkedEvents d events

section Linear

variable (hparse : d.parseUlid.RoundTrips)
include hparse

theorem SoundLog.fetchChainHead (h : SoundLog d serverKey events) :
    fetchChainHead d (events.map (eventRow d)) =
      .ok (chainHead (AuditEvent.hash d.toWriter d.crypto) (FixedBytes.zero 32) events) := by
  have hordered := orderedRows_of_pairwise h.sorted
  rcases List.eq_nil_or_concat events with rfl | ⟨init, e, rfl⟩
  · rfl
  · have hhead : headRow ((init.concat e).map (eventRow d)) = some (eventRow d e) := by
      rw [headRow, hordered]
      simp
    have he : e ∈ init.concat e := by simp
    rw [(fetchChainHead_of_headRow hparse hhead).2 ⟨h.readable e he, rfl⟩, h.json e he,
      List.concat_eq_append, chainHead_concat]

theorem SoundLog.emit (hc : d.crypto.Ed25519Correct) (h : SoundLog d serverKey events) {x : Emit}
    (hkind : x.kind ≠ .policyDecisionSigned) (hjson : d.jsonb x.draft.details = x.draft.details)
    (hnew : ∀ e ∈ events, e.eventId ≠ x.eventId)
    (hlast : ∀ r ∈ events.map (eventRow d),
      r.key < toLex (x.timestampUnixMs.toInt, x.eventId.toString)) :
    ∃ prev, SoundLog d serverKey (events ++ [x.event d serverKey prev]) ∧
      emit d serverKey (events.map (eventRow d)) x = .ok (x.event d serverKey prev,
        (events ++ [x.event d serverKey prev]).map (eventRow d)) := by
  have hid : x.eventId.toString ∉ (events.map (eventRow d)).map Row.eventId := by
    simp only [List.map_map, List.mem_map, not_exists, not_and]
    intro e he heq
    exact hnew e he (Ident.toString_inj heq)
  refine ⟨_, ⟨?_, ?_, ?_, ?_, ?_⟩, emit_ok_iff.2 ⟨_, h.fetchChainHead hparse, rfl, hid, by simp⟩⟩
  · simpa [or_imp, forall_and] using ⟨h.readable, hkind⟩
  · simpa [or_imp, forall_and] using ⟨h.json, hjson⟩
  · intro e he
    rcases List.mem_append.1 he with he | he
    · exact h.verifies e he
    · rw [List.mem_singleton.1 he]
      exact verifyEvent_stamp hc _ _ _ _ _
  · rw [List.map_append, List.pairwise_append]
    refine ⟨h.sorted, by simp, fun r hr s hs => ?_⟩
    rw [List.map_singleton, List.mem_singleton] at hs
    exact hs ▸ hlast r hr
  · exact linked_concat.2 ⟨h.linked, rfl⟩

theorem SoundLog.emitAll (hc : d.crypto.Ed25519Correct) (h : SoundLog d serverKey events)
    (hkinds : ∀ x ∈ xs, x.kind ≠ .policyDecisionSigned)
    (hjson : ∀ x ∈ xs, d.jsonb x.draft.details = x.draft.details)
    (hids : (xs.map Emit.eventId).Nodup) (hsorted : xs.Pairwise Emit.Before)
    (hnew : ∀ x ∈ xs, ∀ e ∈ events, e.eventId ≠ x.eventId)
    (hlast : ∀ x ∈ xs, ∀ r ∈ events.map (eventRow d),
      r.key < toLex (x.timestampUnixMs.toInt, x.eventId.toString)) :
    ∃ new, new.length = xs.length ∧ SoundLog d serverKey (events ++ new) ∧
      emitAll d serverKey (events.map (eventRow d)) xs =
        (new.map .ok, (events ++ new).map (eventRow d)) := by
  induction xs generalizing events with
  | nil => exact ⟨[], rfl, by simpa using h, by simp [Audit.emitAll]⟩
  | cons x xs ih =>
    obtain ⟨hkind, hkinds⟩ := List.forall_mem_cons.1 hkinds
    obtain ⟨hjsonx, hjson⟩ := List.forall_mem_cons.1 hjson
    obtain ⟨hfresh, hids⟩ := List.nodup_cons.1 hids
    obtain ⟨hbefore, hsorted⟩ := List.pairwise_cons.1 hsorted
    obtain ⟨hnewx, hnew⟩ := List.forall_mem_cons.1 hnew
    obtain ⟨hlastx, hlast⟩ := List.forall_mem_cons.1 hlast
    obtain ⟨prev, hlog, hemit⟩ := h.emit hparse hc hkind hjsonx hnewx hlastx
    have hnew' : ∀ y ∈ xs, ∀ e ∈ events ++ [x.event d serverKey prev], e.eventId ≠ y.eventId := by
      intro y hy e he
      rcases List.mem_append.1 he with he | he
      · exact hnew y hy e he
      · rw [List.mem_singleton.1 he]
        intro (heq : x.eventId = y.eventId)
        exact hfresh (heq ▸ List.mem_map_of_mem hy)
    have hlast' : ∀ y ∈ xs, ∀ r ∈ (events ++ [x.event d serverKey prev]).map (eventRow d),
        r.key < toLex (y.timestampUnixMs.toInt, y.eventId.toString) := by
      intro y hy r hr
      rw [List.map_append, List.mem_append] at hr
      rcases hr with hr | hr
      · exact hlast y hy r hr
      · rw [List.mem_singleton.1 hr]
        exact (before_iff_key (q := prev)).1 (hbefore y hy)
    obtain ⟨new, hlen, hsound, hrun⟩ := ih hlog hkinds hjson hids hsorted hnew' hlast'
    refine ⟨x.event d serverKey prev :: new, by simp [hlen], by simpa using hsound, ?_⟩
    simp only [Audit.emitAll, hemit, hrun, List.map_cons, List.append_assoc, List.cons_append,
      List.nil_append]

omit hparse in
theorem replayRows_of_linked {verifyingKey : Bytes} {prev : FixedBytes 32} (n : Nat)
    (hdecode : ∀ e ∈ events, rowToEvent d (eventRow d e) = .ok e)
    (hverify : ∀ e ∈ events, verifyEvent d.toWriter d.crypto e verifyingKey = .ok true)
    (hlinked : Linked AuditEvent.prevEventHash (AuditEvent.hash d.toWriter d.crypto) prev events) :
    replayRows d verifyingKey prev n (events.map (eventRow d)) = .ok (n + events.length) := by
  induction events generalizing prev n with
  | nil => rfl
  | cons e events ih =>
    obtain ⟨hd, hdecode⟩ := List.forall_mem_cons.1 hdecode
    obtain ⟨hv, hverify⟩ := List.forall_mem_cons.1 hverify
    obtain ⟨hprev, hlinked⟩ := hlinked
    simp only [List.map_cons, replayRows, hd, hv, hprev, bind, Except.bind, ne_eq,
      not_true_eq_false, if_false, if_true]
    rw [ih (n + 1) hdecode hverify hlinked, List.length_cons, Nat.add_right_comm, Nat.add_assoc]

end Linear

/-- **Emits in the order in which their rows sort make one linear chain**: every emit succeeds and
links to the one before it, and the replay verifies them all. -/
theorem emitAll_linear (d : PgDeps) (hparse : d.parseUlid.RoundTrips)
    (hc : d.crypto.Ed25519Correct) (serverKey : FixedBytes 32) (xs : List Emit)
    (hkinds : ∀ x ∈ xs, ∃ k, kindFromByte (kindByte x.kind) = .ok k)
    (hjson : ∀ x ∈ xs, d.jsonb x.draft.details = x.draft.details)
    (hids : (xs.map Emit.eventId).Nodup) (hsorted : xs.Pairwise Emit.Before) :
    ∃ events, emitAll d serverKey [] xs = (events.map .ok, events.map (eventRow d)) ∧
      LinkedEvents d events ∧
      replayVerifyPostgres d (d.crypto.ed25519PublicKey serverKey).bytes
        (emitAll d serverKey [] xs).2 = .ok xs.length := by
  have hempty : SoundLog d serverKey [] :=
    ⟨by simp, by simp, by simp, by simp, trivial⟩
  have hreadable : ∀ x ∈ xs, x.kind ≠ .policyDecisionSigned := by
    intro x hx
    obtain ⟨k, hk⟩ := hkinds x hx
    exact (kindFromByte_kindByte_iff.1 hk).1
  obtain ⟨events, hlen, hsound, hrun⟩ :=
    hempty.emitAll hparse hc hreadable hjson hids hsorted (by simp) (by simp)
  simp only [List.map_nil, List.nil_append] at hsound hrun
  refine ⟨events, hrun, hsound.linked, ?_⟩
  rw [hrun, replayVerifyPostgres, orderedRows_of_pairwise hsound.sorted,
    replayRows_of_linked 0 (fun e he => (rowToEvent_eventRow hparse).2
      ⟨hsound.readable e he, by rw [hsound.json e he]⟩) hsound.verifies hsound.linked,
    Nat.zero_add, hlen]

/-- Two emits with ascending ids replay. -/
theorem emitAll_linear_ordered :
    replayVerifyPostgres deps publicKey.bytes (emitAll deps seed [] ordered).2 = .ok 2 := by
  obtain ⟨-, -, -, h⟩ := emitAll_linear deps deps_roundTrips deps_ed25519Correct seed ordered
    (by simpa [ordered] using ⟨⟨_, rfl⟩, ⟨_, rfl⟩⟩) (fun _ _ => rfl)
    (by decide +kernel) (by decide +kernel)
  exact h

/-- Two emits in one millisecond with descending ids: both succeed, the replay fails. -/
theorem emitAll_not_linear : ¬ ((∀ r ∈ (emitAll deps seed [] reversed).1, r.isOk = true) →
        replayVerifyPostgres deps publicKey.bytes (emitAll deps seed [] reversed).2 = .ok 2) := by
  decide +kernel

theorem linked_of_replayRows {verifyingKey : Bytes} {prev : FixedBytes 32} {n m : Nat}
    (hdecode : ∀ e ∈ events, rowToEvent d (eventRow d e) = .ok e)
    (h : replayRows d verifyingKey prev n (events.map (eventRow d)) = .ok m) :
    Linked AuditEvent.prevEventHash (AuditEvent.hash d.toWriter d.crypto) prev events := by
  induction events generalizing prev n with
  | nil => trivial
  | cons e events ih =>
    obtain ⟨hd, hdecode⟩ := List.forall_mem_cons.1 hdecode
    simp only [List.map_cons, replayRows, hd, bind_eq_ok, Except.ok.injEq, exists_eq_left'] at h
    split_ifs at h with hprev
    obtain ⟨ok, -, h⟩ := bind_eq_ok.1 h
    split at h
    · exact ⟨not_not.1 hprev, ih hdecode h⟩
    · cases h

theorem Stamped.pairwise_before (h : Stamped d serverKey xs events)
    (hids : (xs.map Emit.eventId).Nodup)
    (hsorted : events.Pairwise fun a b => (eventRow d a).key ≤ (eventRow d b).key) :
    xs.Pairwise Emit.Before := by
  induction h with
  | nil => exact .nil
  | @cons x e xs events hx htail ih =>
    obtain ⟨p, rfl⟩ := hx
    obtain ⟨hfresh, hids⟩ := List.nodup_cons.1 hids
    obtain ⟨hle, hsorted⟩ := List.pairwise_cons.1 hsorted
    refine List.pairwise_cons.2 ⟨fun y hy => ?_, ih hids hsorted⟩
    obtain ⟨e', he', q, rfl⟩ := Stamped.exists_event htail hy
    refine before_iff_key.2 (lt_of_le_of_ne (hle _ he') fun hkey => ?_)
    rw [key_eventRow_event, key_eventRow_event, toLex_inj, Prod.mk.injEq] at hkey
    exact hfresh (Ident.toString_inj hkey.2 ▸ List.mem_map_of_mem hy)

/-- **Barring collisions, a verified linear chain was emitted in the order of its rows.** -/
theorem sorted_of_linear (hparse : d.parseUlid.RoundTrips) {verifyingKey : Bytes} {n : Nat}
    (hkinds : ∀ x ∈ xs, x.kind ≠ .policyDecisionSigned)
    (hjson : ∀ x ∈ xs, d.jsonb x.draft.details = x.draft.details)
    (hids : (xs.map Emit.eventId).Nodup)
    (hrun : emitAll d serverKey [] xs = (events.map .ok, events.map (eventRow d)))
    (hlinked : LinkedEvents d events)
    (hreplay : replayVerifyPostgres d verifyingKey (events.map (eventRow d)) = .ok n)
    (hcollision : ∀ a ∈ events, ∀ b ∈ events, a.prevEventHash = b.prevEventHash → a = b) :
    xs.Pairwise Emit.Before := by
  have hev : Stamped d serverKey xs events := by
    obtain ⟨events', hev, hrun'⟩ := emitAll_all_ok (fun r hr => by
      rw [hrun] at hr
      obtain ⟨e, -, rfl⟩ := List.mem_map.1 hr
      rfl)
    have hmap := (Prod.mk.inj (hrun.symm.trans hrun')).1
    rwa [List.map_injective_iff.2 (fun _ _ => Except.ok.inj) hmap]
  -- the replay goes through the same events, in the order of their rows
  let fs := events.insertionSort fun a b => (eventRow d a).key ≤ (eventRow d b).key
  have hfs : orderedRows (events.map (eventRow d)) = fs.map (eventRow d) :=
    (List.map_insertionSort _ _ (eventRow d) events fun _ _ _ _ => Iff.rfl).symm
  have hperm : fs.Perm events := List.perm_insertionSort _ _
  have hdecode : ∀ e ∈ fs, rowToEvent d (eventRow d e) = .ok e := by
    intro e he
    obtain ⟨x, hx, prev, rfl⟩ := hev.exists_emit (hperm.mem_iff.1 he)
    refine (rowToEvent_eventRow hparse).2 ⟨hkinds x hx, ?_⟩
    rw [show (x.event d serverKey prev).details = x.draft.details from rfl, hjson x hx]
    rfl
  rw [replayVerifyPostgres, hfs] at hreplay
  have heq : events = fs :=
    eq_of_linked_of_perm hperm.symm hcollision hlinked (linked_of_replayRows hdecode hreplay)
  have hsorted := List.pairwise_insertionSort (fun r s : Row => r.key ≤ s.key)
    (events.map (eventRow d))
  rw [← orderedRows, hfs, ← heq, List.pairwise_map] at hsorted
  exact hev.pairwise_before hids hsorted

end QfcServerWallet.Audit
