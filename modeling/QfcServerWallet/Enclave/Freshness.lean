import QfcServerWallet.Enclave.AttestationSound

/-!
# How old a verified attestation is

Step 3 of `verify_attestation_inner` compares in `i64`: `ts > now_ms + 60_000` and
`now_ms - ts > max_age_ms`, and both operations wrap in a release build.

* The sum can only wrap to something smaller, so that a verified timestamp is never in the future.
* The difference of a timestamp that lies `2^63` milliseconds back, or further, is a negative
  number, which no maximal age is below. `as_i64` reads such timestamps.

Results: **`fresh_iff`** and `verifyAttestation_ancient`.
-/

namespace QfcServerWallet.Enclave

open Lib Cose

/-! ## Wrapping -/

/-- A sum with a nonnegative number wraps to something smaller, if it does. -/
theorem toInt_add_le {a b : Int64} (hb : 0 ≤ b.toInt) : (a + b).toInt ≤ a.toInt + b.toInt := by
  have hmax := a.toInt_lt
  have hmin := a.le_toInt
  have hmax' := b.toInt_lt
  rw [Int64.toInt_add, Int.bmod_def]
  split_ifs <;> omega

/-- A difference that is not too small wraps at `2 ^ 63`. -/
theorem toInt_sub_of_le {a b : Int64} (h : -2 ^ 63 ≤ a.toInt - b.toInt) :
    (a - b).toInt =
      if a.toInt - b.toInt < 2 ^ 63 then a.toInt - b.toInt else a.toInt - b.toInt - 2 ^ 64 := by
  have hmax := a.toInt_lt
  have hmin := b.le_toInt
  rw [Int64.toInt_sub, Int.bmod_def]
  split_ifs <;> omega

/-! ## The window -/

variable {ts nowMs maxAgeMs : Int64}

/-- A timestamp that passes is not from the future. -/
theorem checkFreshness_ok (h : checkFreshness ts nowMs maxAgeMs = .ok ()) :
    ts.toInt ≤ nowMs.toInt + 60000 ∧ (nowMs - ts).toInt ≤ maxAgeMs.toInt := by
  unfold checkFreshness at h
  split_ifs at h with hfuture hstale
  rw [gt_iff_lt, Int64.lt_iff_toInt_lt, not_lt] at hfuture hstale
  have hskew : (60000 : Int64).toInt = 60000 := rfl
  have hsum := toInt_add_le (a := nowMs) (by rw [hskew]; decide)
  rw [hskew] at hsum
  exact ⟨hfuture.trans hsum, hstale⟩

/-- It is as recent as asked for iff the difference did not wrap. -/
theorem recent_iff_of_checkFreshness (hage : 0 ≤ maxAgeMs.toInt)
    (h : checkFreshness ts nowMs maxAgeMs = .ok ()) :
    nowMs.toInt - maxAgeMs.toInt ≤ ts.toInt ↔ nowMs.toInt - ts.toInt < 2 ^ 63 := by
  obtain ⟨hfuture, hstale⟩ := checkFreshness_ok h
  have hmax := maxAgeMs.toInt_lt
  rw [toInt_sub_of_le (by omega)] at hstale
  split at hstale <;> omega

/-- **A verified document is not from the future, and it is as recent as asked for iff it is less
than `2^63` milliseconds old.** -/
theorem fresh_iff (d : AttestDeps) (doc : NitroAttestationDoc) (expectedPcrs : PcrConstraint)
    (rootAnchor : RootAnchor) (nowMs maxAgeMs : Int64) (hage : 0 ≤ maxAgeMs.toInt)
    (v : VerifiedAttestation)
    (hok : verifyAttestationInner d doc expectedPcrs rootAnchor nowMs maxAgeMs = .ok v) :
    doc.parsedPayload.timestampUnixMs.toInt ≤ nowMs.toInt + 60000 ∧
      (nowMs.toInt - maxAgeMs.toInt ≤ doc.parsedPayload.timestampUnixMs.toInt ↔
        nowMs.toInt - doc.parsedPayload.timestampUnixMs.toInt < 2 ^ 63) := by
  obtain ⟨-, -, hfresh, -⟩ := verifyAttestationInner_ok hok
  exact ⟨(checkFreshness_ok hfresh).1, recent_iff_of_checkFreshness hage hfresh⟩

/-- The sample document is from the instant at which it is verified. -/
theorem fresh_attested :
    Attested.now.toInt - 60000 ≤
      (Attested.doc Attested.signedNonce).parsedPayload.timestampUnixMs.toInt :=
  (fresh_iff Attested.deps (Attested.doc Attested.signedNonce) Attested.constraint
    (.custom Attested.rootDer) Attested.now 60000 (by decide) _ Attested.samples.2.2.1).2.2
    (by decide)

/-! ### A document from the lowest `i64`

The key of the sample's leaf has signed it, and it is verified under the sample's root. -/

namespace Ancient

/-- The payload of the sample, with another time. -/
def payload : Cose.AttestationPayload := { Attested.payload with timestamp := Int64.minValue }

/-- Its signature. -/
def envelopeSignature : Bytes := toBe 48
  0x7aa39c91b36a3756f2c489740cc4bb8a15cf39b8106989b83f90d512e5a299adffeff86d390e3043639522429b2ce21c
  ++ toBe 48
  0xf02d05a312f94b111d0c652d0ccb3cce62420f1a9d1ed376aa302281099f25c9a559dd139908ae4fb8b12c06989d5cee

/-- Its envelope, as it is parsed. -/
def envelope : CoseSign1 :=
  { Attested.envelope with
    payload := some (Attested.cbor (payloadMap payload))
    signature := envelopeSignature }

/-- The bytes of the envelope. -/
def bytes : Bytes :=
  0xd2 :: Attested.cbor (.array [.bytes envelope.protectedData, .map [],
    .bytes (Attested.cbor (payloadMap payload)), .bytes envelope.signature])

/-- The libraries of the sample, asked about this document. -/
def deps : AttestDeps :=
  { Attested.deps with
    fromTaggedSlice := fun b => if b = bytes then .ok envelope else .error "not an envelope"
    fromReader := fun b =>
      if b = Attested.cbor (payloadMap payload) then .ok (payloadMap payload)
      else .error "not CBOR"
    p384Signature := fun b => if b = envelope.signature then some b else none
    p384Verify := fun vk msg sig =>
      ((Attested.leafKey, Attested.sigStructure envelope, envelope.signature) ::
        Attested.signatures).contains (vk, msg, sig) }

/-- The document that is read from them. -/
def doc : NitroAttestationDoc where
  coseSign1 := bytes
  parsedPayload := ⟨payload.moduleId, payload.timestamp, payload.pcrs, payload.publicKey,
    payload.userData, Attested.signedNonce⟩
  leafCertificate := Attested.leafDer
  cabundle := [Attested.rootDer]
  signature := envelope.signature
  signatureKind := .coseSign1Es384

end Ancient

/-- It counts as at most a minute old. -/
theorem verifyAttestation_ancient :
    NitroAttestationDoc.fromCoseSign1 Ancient.deps Ancient.bytes = .ok Ancient.doc ∧
    verifyAttestationWithRoot Ancient.deps Ancient.doc Attested.constraint
        (.custom Attested.rootDer) Attested.now 60000 = .ok ⟨Ancient.doc.parsedPayload⟩ ∧
    Ancient.doc.parsedPayload.timestampUnixMs.toInt < Attested.now.toInt - 60000 := by
  decide +kernel

end QfcServerWallet.Enclave
