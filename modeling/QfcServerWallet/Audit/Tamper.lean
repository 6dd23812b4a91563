import QfcServerWallet.Audit.File
import QfcServerWallet.Audit.PostgresSound

/-!
# What the file log protects

A log that the replay accepts is linked and signed, event by event. Here, what an attacker can still
change in it, and what its chain head commits to.

The signature and the hash of an event cover its id, the previous hash, the kind and the details.
The time, the actor, the request and the wallet are recorded beside them and nothing covers these.

Results: **`replayVerify_changed_iff`** and **`sameSigned_of_chainHead_eq`**.
-/

namespace QfcServerWallet.Audit

open Lib

/-! ## Changing one field -/

/-- The fields of an audit event. -/
inductive EventField where
  | eventId
  | prevEventHash
  | timestampUnixMs
  | actor
  | kind
  | requestId
  | walletId
  | details
  | serverSignature
  deriving DecidableEq

/-- The field is the signature, or in what it covers. -/
def EventField.isSigned : EventField → Bool
  | .eventId | .prevEventHash | .kind | .details | .serverSignature => true
  | .timestampUnixMs | .actor | .requestId | .walletId => false

/-- The second event has another value in the field, and the same values in all others. -/
def AuditEvent.ChangedIn (e e' : AuditEvent) : EventField → Prop
  | .eventId => e'.eventId ≠ e.eventId ∧ e' = { e with eventId := e'.eventId }
  | .prevEventHash =>
    e'.prevEventHash ≠ e.prevEventHash ∧ e' = { e with prevEventHash := e'.prevEventHash }
  | .timestampUnixMs =>
    e'.timestampUnixMs ≠ e.timestampUnixMs ∧ e' = { e with timestampUnixMs := e'.timestampUnixMs }
  | .actor => e'.actor ≠ e.actor ∧ e' = { e with actor := e'.actor }
  | .kind => e'.kind ≠ e.kind ∧ e' = { e with kind := e'.kind }
  | .requestId => e'.requestId ≠ e.requestId ∧ e' = { e with requestId := e'.requestId }
  | .walletId => e'.walletId ≠ e.walletId ∧ e' = { e with walletId := e'.walletId }
  | .details => e'.details ≠ e.details ∧ e' = { e with details := e'.details }
  | .serverSignature =>
    e'.serverSignature ≠ e.serverSignature ∧ e' = { e with serverSignature := e'.serverSignature }

/-- The second log has another value in one field of one event, and is the same otherwise. -/
structure ChangedLog (d : FileDeps) (f : EventField) (e e' : AuditEvent)
    (content content' : Bytes) : Prop where
  lines : ∃ before line line' after, logLines content = before ++ line :: after ∧
    logLines content' = before ++ line' :: after ∧
    d.fromSlice line = .ok e ∧ d.fromSlice line' = .ok e'
  changed : e.ChangedIn e' f

/-- No signature is forged: if the key accepts both events, they have the same signature iff it is
over the same bytes. -/
def NoForgery (d : FileDeps) (verifyingKey : Bytes) (e e' : AuditEvent) : Prop :=
  verifyEvent d.toWriter d.crypto e verifyingKey = .ok true →
  verifyEvent d.toWriter d.crypto e' verifyingKey = .ok true →
  (e.preimage d.toWriter = e'.preimage d.toWriter ↔ e.serverSignature = e'.serverSignature)

variable {d : FileDeps} {verifyingKey : Bytes} {e e' : AuditEvent} {f : EventField}

theorem AuditEvent.ChangedIn.same (h : e.ChangedIn e' f) (hf : f.isSigned = false) :
    e'.prevEventHash = e.prevEventHash ∧ e'.preimage d.toWriter = e.preimage d.toWriter ∧
      e'.serverSignature = e.serverSignature := by
  cases f with
  | timestampUnixMs | actor | requestId | walletId =>
    obtain ⟨-, h⟩ := h
    rw [h]
    exact ⟨rfl, rfl, rfl⟩
  | _ => cases hf

theorem AuditEvent.ChangedIn.noticed (h : e.ChangedIn e' f) (hf : f.isSigned = true)
    (hforge : NoForgery d verifyingKey e e')
    (hjson : d.toWriter e.details = d.toWriter e'.details → e.details = e'.details)
    (he : verifyEvent d.toWriter d.crypto e verifyingKey = .ok true)
    (hprev : e'.prevEventHash = e.prevEventHash) :
    verifyEvent d.toWriter d.crypto e' verifyingKey ≠ .ok true := by
  intro he'
  have hiff := hforge he he'
  -- the signature over other bytes would be the same one
  have hsame (hsig : e'.serverSignature = e.serverSignature) :
      e'.eventId = e.eventId ∧ e'.kind = e.kind ∧ e'.details = e.details := by
    obtain ⟨-, hid, hkind, hdetails⟩ := signingPreimage_inj (hiff.2 hsig.symm)
    exact ⟨hid.symm, hkind.symm, (hjson hdetails).symm⟩
  cases f with
  | eventId => exact h.1 (hsame (by rw [h.2])).1
  | prevEventHash => exact h.1 hprev
  | kind => exact h.1 (hsame (by rw [h.2])).2.1
  | details => exact h.1 (hsame (by rw [h.2])).2.2
  | serverSignature =>
    refine h.1 (hiff.1 ?_).symm
    rw [h.2]
    rfl
  | _ => cases hf

theorem parsed_unique {lines : List Bytes} {es fs : List AuditEvent}
    (hes : List.Forall₂ (fun line e => d.fromSlice line = .ok e) lines es)
    (hfs : List.Forall₂ (fun line e => d.fromSlice line = .ok e) lines fs) : es = fs := by
  refine List.right_unique_forall₂' ?_ hes hfs
  intro line a b ha hb
  exact Except.ok.inj (ha.symm.trans hb)

/-- **The replay rejects a log with one changed field iff the field is signed.** -/
theorem replayVerify_changed_iff (d : FileDeps) (verifyingKey content content' : Bytes) (n : Nat)
    (f : EventField) (e e' : AuditEvent)
    (haccepted : replayVerify d verifyingKey (.content content) = .ok n)
    (hchanged : ChangedLog d f e e' content content') (hforge : NoForgery d verifyingKey e e')
    (hjson : d.toWriter e.details = d.toWriter e'.details → e.details = e'.details) :
    (∃ err, replayVerify d verifyingKey (.content content') = .error err) ↔ f.isSigned = true := by
  obtain ⟨⟨before, line, line', after, hlines, hlines', hline, hline'⟩, hchanged⟩ := hchanged
  obtain ⟨events, hevents, -⟩ := replayVerify_content_iff.1 haccepted
  rw [hlines] at hevents
  obtain ⟨es, rest, rfl, hes, hrest⟩ := accepts_append.1 hevents
  obtain ⟨fs, rfl⟩ : ∃ fs, rest = e :: fs := by
    cases hrest.parsed with
    | cons ha _ =>
      cases ha.symm.trans hline
      exact ⟨_, rfl⟩
  obtain ⟨-, hprev, he, hfs⟩ := accepts_cons.1 hrest
  constructor
  · rintro ⟨err, herr⟩
    rw [← Bool.not_eq_false]
    intro hf
    -- the changed event takes the place of the old one
    obtain ⟨hprev', hpreimage, hsig⟩ := hchanged.same hf
    have hhash : e'.hash d.toWriter d.crypto = e.hash d.toWriter d.crypto := by
      rw [AuditEvent.hash, AuditEvent.hash, hpreimage, hsig]
    have hverify : verifyEvent d.toWriter d.crypto e' verifyingKey = .ok true := by
      rw [← he, verifyEvent, verifyEvent, hpreimage, hsig]
    have hok : replayVerify d verifyingKey (.content content') = .ok (es ++ e' :: fs).length := by
      refine replayVerify_content_iff.2 ⟨_, ?_, rfl⟩
      rw [hlines']
      refine accepts_append.2 ⟨es, e' :: fs, rfl, hes, accepts_cons.2 ⟨hline', ?_, hverify, ?_⟩⟩
      · rw [hprev', hprev]
      · rwa [hhash]
    cases hok.symm.trans herr
  · intro hf
    cases hreplay : replayVerify d verifyingKey (.content content') with
    | error err => exact ⟨err, rfl⟩
    | ok m =>
      obtain ⟨events', hevents', -⟩ := replayVerify_content_iff.1 hreplay
      rw [hlines'] at hevents'
      obtain ⟨es', rest', rfl, hes', hrest'⟩ := accepts_append.1 hevents'
      obtain rfl := parsed_unique hes'.parsed hes.parsed
      cases rest' with
      | nil => cases hrest'.parsed
      | cons a fs' =>
        obtain ⟨ha, hprev', he', -⟩ := accepts_cons.1 hrest'
        cases ha.symm.trans hline'
        exact absurd he' (hchanged.noticed hf hforge hjson he (by rw [hprev', hprev]))

/-! ### A log of two events

The two emits of `SampleLog.ordered`, as the file sink writes them. -/

namespace SampleFile

/-- The ASCII hex digits of the bytes. -/
def hexBytes (b : Bytes) : Bytes := (hexChars b).map fun c => UInt8.ofNat c.toNat

/-- The name of a kind; literal text is written as the number its bytes denote. -/
def kindName : AuditKind → Bytes
  | .signingRequested => toBe 17 0x7369676e696e675f726571756573746564 -- signing_requested
  | .signingSucceeded => toBe 17 0x7369676e696e675f737563636565646564 -- signing_succeeded
  | _ => toBe 14 0x7369676e696e675f6661696c6564 -- signing_failed

/-- The JSON text of an event of the system, without references and details, at a time of four
digits. -/
def eventJson (e : AuditEvent) : Bytes :=
  -- {"event_id":"
  toBe 13 0x7b226576656e745f6964223a22 ++
  e.eventId.textBytes ++
  -- ","prev_event_hash":"
  toBe 21 0x222c22707265765f6576656e745f68617368223a22 ++
  hexBytes e.prevEventHash.bytes ++
  -- ","timestamp_unix_ms":
  toBe 22 0x222c2274696d657374616d705f756e69785f6d73223a ++
  digits 10 (fun n => UInt8.ofNat (48 + n)) 4 e.timestampUnixMs.toInt.toNat ++
  -- ,"actor":"system","kind":"
  toBe 26 0x2c226163746f72223a2273797374656d222c226b696e64223a22 ++
  kindName e.kind ++
  -- ","request_id":null,"wallet_id
  toBe 30 0x222c22726571756573745f6964223a6e756c6c2c2277616c6c65745f6964 ++
  -- ":null,"details":null,"server_
  toBe 30 0x223a6e756c6c2c2264657461696c73223a6e756c6c2c227365727665725f ++
  -- signature":"
  toBe 12 0x7369676e6174757265223a22 ++
  hexBytes e.serverSignature ++
  -- "}
  toBe 2 0x227d

def event (prev : FixedBytes 32) (x : Emit) : AuditEvent :=
  x.event SampleLog.deps SampleLog.seed prev

/-- The first one. -/
def first : AuditEvent :=
  event (FixedBytes.zero 32) (SampleLog.call .signingRequested ⟨16⟩ 1000)

def second : AuditEvent := event SampleLog.hash0 (SampleLog.call .signingSucceeded ⟨17⟩ 1000)

/-- The first event a second later. -/
def backdated : AuditEvent := { first with timestampUnixMs := 2000 }

/-- The second event with another outcome. -/
def relabelled : AuditEvent := { second with kind := .signingFailed }

/-- An event that starts a chain of its own. -/
def unlinked : AuditEvent :=
  event (FixedBytes.zero 32) (SampleLog.call .signingRequested ⟨17⟩ 1000)

/-- The events whose text `from_slice` is known on. -/
def known : List AuditEvent := [first, second, backdated, relabelled, unlinked]

/-- The log of the sample, written as JSON. -/
def deps : FileDeps where
  crypto := SampleLog.deps.crypto
  toWriter := SampleLog.toWriter
  toVec e := .ok (eventJson e)
  fromSlice line :=
    match (known.findIdx? fun e => eventJson e = line).bind (known[·]?) with
    | some e => .ok e
    | none => .error "expected value at line 1 column 1"

/-- The file of the events. -/
def content (events : List AuditEvent) : Bytes := terminate 10 (events.map eventJson)

/-- The log as it was written. -/
def log : Bytes := content [first, second]

/-- The first event with another time. -/
def backdatedLog : Bytes := content [backdated, second]

/-- The second event with another kind. -/
def relabelledLog : Bytes := content [first, relabelled]

theorem evaluated :
    (replayVerify deps SampleLog.publicKey.bytes (.content log) = .ok 2 ∧
      replayVerify deps SampleLog.publicKey.bytes (.content backdatedLog) = .ok 2) ∧
    (logLines log = [eventJson first, eventJson second] ∧
      logLines backdatedLog = [eventJson backdated, eventJson second] ∧
      logLines relabelledLog = [eventJson first, eventJson relabelled]) ∧
    (∀ i < 5, (known.findIdx? fun e => (known[i]?).any fun e' => eventJson e = eventJson e')
      = some i) ∧
    (∀ e ∈ known, 10 ∉ eventJson e ∧ eventJson e ≠ []) ∧
    first.hash deps.toWriter deps.crypto = SampleLog.hash0 ∧
    second.hash deps.toWriter deps.crypto ≠ SampleLog.hash0 ∧
    second.hash deps.toWriter deps.crypto ≠ FixedBytes.zero 32 ∧
    (replayVerify deps SampleLog.publicKey.bytes (.content (content [first, unlinked]))).isOk
      = false := by
  decide +kernel

theorem fromSlice_known {i : Nat} {e : AuditEvent} (he : known[i]? = some e) :
    deps.fromSlice (eventJson e) = .ok e := by
  have hlt : i < 5 := (List.getElem?_eq_some_iff.1 he).1
  have hfound := evaluated.2.2.1 i hlt
  simp only [he, Option.any_some] at hfound
  simp only [deps, hfound, Option.bind_some, he]

end SampleFile

open SampleFile

/-- An event of another kind is rejected. -/
theorem replayVerify_rejects_relabelled : ∃ err, replayVerify deps SampleLog.publicKey.bytes
      (.content relabelledLog) = .error err := by
  obtain ⟨⟨hlog, -⟩, ⟨hlines, -, hlines'⟩, -⟩ := evaluated
  refine (replayVerify_changed_iff deps SampleLog.publicKey.bytes log
    relabelledLog 2 .kind second relabelled hlog
    ⟨⟨[_], _, _, [], hlines, hlines', ?_, ?_⟩, ?_⟩ ?_ (fun _ => rfl)).2 rfl
  · exact fromSlice_known (i := 1) rfl
  · exact fromSlice_known (i := 3) rfl
  · exact ⟨by decide, rfl⟩
  · intro _ hrelabelled
    have hrejected : (verifyEvent deps.toWriter deps.crypto
        relabelled SampleLog.publicKey.bytes).toOption = some false := by
      decide +kernel
    rw [hrelabelled] at hrejected
    cases hrejected

/-- The time of the first event is changed, and the replay accepts the log. -/
theorem replayVerify_accepts_backdated :
    replayVerify deps SampleLog.publicKey.bytes (.content log) = .ok 2 ∧
      ChangedLog deps .timestampUnixMs first backdated log backdatedLog ∧
      NoForgery deps SampleLog.publicKey.bytes first backdated ∧
      ¬ ∃ err, replayVerify deps SampleLog.publicKey.bytes
        (.content backdatedLog) = .error err := by
  obtain ⟨⟨hlog, haccepted⟩, ⟨hlines, hlines', -⟩, -⟩ := evaluated
  refine ⟨hlog, ⟨⟨[], _, _, [_], hlines, hlines', ?_, ?_⟩, ?_⟩, ?_, ?_⟩
  · exact fromSlice_known (i := 0) rfl
  · exact fromSlice_known (i := 2) rfl
  · exact ⟨by decide, rfl⟩
  · exact fun _ _ => ⟨fun _ => rfl, fun _ => rfl⟩
  · rw [haccepted]
    simp

/-! ## What the chain head commits to -/

/-- The events agree on everything that is signed. -/
structure SameSigned (a b : AuditEvent) : Prop where
  eventId : a.eventId = b.eventId
  prevEventHash : a.prevEventHash = b.prevEventHash
  kind : a.kind = b.kind
  details : a.details = b.details
  serverSignature : a.serverSignature = b.serverSignature

theorem sameSigned_of_hashInput {a b : AuditEvent}
    (hinput : a.preimage d.toWriter ++ a.serverSignature
      = b.preimage d.toWriter ++ b.serverSignature)
    (hlength : a.serverSignature.length = b.serverSignature.length)
    (hjson : d.toWriter a.details = d.toWriter b.details → a.details = b.details) :
    SameSigned a b := by
  -- the printed details have no fixed length, so the signature is split off first
  obtain ⟨hpreimage, hsig⟩ := List.append_inj' hinput hlength
  obtain ⟨hprev, hid, hkind, hdetails⟩ := signingPreimage_inj hpreimage
  exact ⟨hid, hprev, hkind, hjson hdetails, hsig⟩

/-- **Two accepted logs with the same chain head have equally many events, and agree event by event
on everything that is signed.** -/
theorem sameSigned_of_chainHead_eq (d : FileDeps) (verifyingKey content content' : Bytes)
    (n n' : Nat) (es fs : List AuditEvent)
    (haccepted : replayVerify d verifyingKey (.content content) = .ok n)
    (haccepted' : replayVerify d verifyingKey (.content content') = .ok n')
    (hes : LogEvents d content es) (hfs : LogEvents d content' fs)
    (hhead : chainHead (AuditEvent.hash d.toWriter d.crypto) (FixedBytes.zero 32) es
      = chainHead (AuditEvent.hash d.toWriter d.crypto) (FixedBytes.zero 32) fs)
    (hsha : ∀ a ∈ es ++ fs, ∀ b ∈ es ++ fs,
      a.hash d.toWriter d.crypto = b.hash d.toWriter d.crypto →
      a.preimage d.toWriter ++ a.serverSignature = b.preimage d.toWriter ++ b.serverSignature)
    (hgenesis : ∀ e ∈ es ++ fs, e.hash d.toWriter d.crypto ≠ FixedBytes.zero 32)
    (hjson : ∀ a ∈ es ++ fs, ∀ b ∈ es ++ fs,
      d.toWriter a.details = d.toWriter b.details → a.details = b.details) :
    n = n' ∧ List.Forall₂ SameSigned es fs := by
  obtain ⟨es', hes', rfl⟩ := replayVerify_content_iff.1 haccepted
  obtain ⟨fs', hfs', rfl⟩ := replayVerify_content_iff.1 haccepted'
  obtain rfl := parsed_unique hes hes'.parsed
  obtain rfl := parsed_unique hfs hfs'.parsed
  have hagree : List.Forall₂ SameSigned es fs := by
    refine forall₂_of_chainHead_eq hes'.linked hfs'.linked hgenesis ?_ hhead
    intro a ha b hb hab
    have ha' := List.mem_append_left fs ha
    have hb' := List.mem_append_right es hb
    have hlength : a.serverSignature.length = b.serverSignature.length := by
      rw [length_of_verifyEvent (hes'.verified a ha), length_of_verifyEvent (hfs'.verified b hb)]
    have hsame := sameSigned_of_hashInput (hsha a ha' b hb' hab) hlength (hjson a ha' b hb')
    exact ⟨hsame.prevEventHash, hsame⟩
  exact ⟨hagree.length_eq, hagree⟩

/-- The log and the backdated one have the same chain head. -/
theorem sameSigned_backdated :
    List.Forall₂ SameSigned [first, second] [backdated, second] := by
  obtain ⟨⟨hlog, hlog'⟩, ⟨hlines, hlines', -⟩, -, -, hfirst, hsecond, hzero, -⟩ := evaluated
  -- the first events have the same signed bytes
  have hmem : ∀ e ∈ [first, second] ++ [backdated, second], e.details = .null ∧
        (e.preimage deps.toWriter ++ e.serverSignature = first.preimage deps.toWriter
              ++ first.serverSignature ∧
          e.hash deps.toWriter deps.crypto = SampleLog.hash0 ∨
        e = second) := by
    intro e he
    simp only [List.cons_append, List.nil_append, List.mem_cons, List.not_mem_nil, or_false] at he
    rcases he with rfl | rfl | rfl | rfl
    · exact ⟨rfl, .inl ⟨rfl, hfirst⟩⟩
    · exact ⟨rfl, .inr rfl⟩
    · exact ⟨rfl, .inl ⟨rfl, hfirst⟩⟩
    · exact ⟨rfl, .inr rfl⟩
  refine (sameSigned_of_chainHead_eq deps SampleLog.publicKey.bytes log
    backdatedLog 2 2 [first, second]
    [backdated, second] hlog hlog' ?_ ?_ rfl ?_ ?_ ?_).2
  · rw [LogEvents, hlines]
    exact .cons (fromSlice_known (i := 0) rfl) (.cons (fromSlice_known (i := 1) rfl) .nil)
  · rw [LogEvents, hlines']
    exact .cons (fromSlice_known (i := 2) rfl) (.cons (fromSlice_known (i := 1) rfl) .nil)
  · intro a ha b hb hab
    rcases (hmem a ha).2 with ha | rfl <;> rcases (hmem b hb).2 with hb | rfl
    · rw [ha.1, hb.1]
    · exact absurd (hab.symm.trans ha.2) hsecond
    · exact absurd (hab.trans hb.2) hsecond
    · rfl
  · intro e he
    rcases (hmem e he).2 with he | rfl
    · rw [he.2]
      decide +kernel
    · exact hzero
  · exact fun a ha b hb _ => (hmem a ha).1.trans (hmem b hb).1.symm

end QfcServerWallet.Audit
