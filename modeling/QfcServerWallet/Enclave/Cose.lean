import QfcServerWallet.Lib.Crypto

/-!
# COSE_Sign1 envelopes

`qfc-enclave/src/cose.rs`: the envelope of a Nitro attestation, the CBOR map inside it, and the two
ways its signature is verified.

* `coset`, `ciborium`, `x509-cert` and `p384` are the parameter `CoseDeps`. A parsed envelope keeps
  the bytes of its protected header, and `tbsData` is what is signed, with no additional data.
* A `ciborium::Value` keeps the constructors the decoder tells apart; an integer is any CBOR
  integer.
* `BTreeMap<u8, Vec<u8>>` is `Pcrs`, an association list with ascending keys.
* Of a certificate the fields are kept that this crate reads. A bit string that is not byte-aligned
  and a part that cannot be re-encoded are `none`.

Results: **`payload_round_trip`**, `signed_of_verifyCoseSignature` and
`signed_of_verifyCoseSignatureEs384`.
-/

namespace QfcServerWallet.Enclave

open Lib

/-! ## Third-party values -/

/-- `ciborium::Value` -/
inductive CborValue where
  | integer (i : Int)
  | bytes (b : Bytes)
  | text (s : String)
  | null
  | array (entries : List CborValue)
  | map (entries : List (CborValue × CborValue))
  | other

/-- `RegisteredLabelWithPrivate<iana::Algorithm>` -/
inductive AlgorithmLabel where
  | assigned (value : Int)
  | privateUse (value : Int)
  | text (s : String)
  deriving DecidableEq

/-- `coset::CoseSign1` -/
structure CoseSign1 where
  protectedData : Bytes
  alg : Option AlgorithmLabel
  payload : Option Bytes
  signature : Bytes
  deriving DecidableEq

/-- `x509_cert::Certificate` -/
structure Certificate where
  issuer : Bytes
  subject : Bytes
  /-- milliseconds since 1970 -/
  notBefore : Nat
  notAfter : Nat
  subjectPublicKey : Option Bytes
  tbsDer : Option Bytes
  signature : Option Bytes
  der : Option Bytes
  deriving DecidableEq

/-- The libraries. -/
structure CoseDeps where
  crypto : Crypto
  /-- `CoseSign1::from_tagged_slice` -/
  fromTaggedSlice : Bytes → Except String CoseSign1
  /-- `CoseSign1::from_slice` -/
  fromSlice : Bytes → Except String CoseSign1
  /-- the bytes that are signed -/
  tbsData : CoseSign1 → Bytes
  /-- `ciborium::ser::into_writer` -/
  intoWriter : CborValue → Except String Bytes
  /-- `ciborium::de::from_reader` -/
  fromReader : Bytes → Except String CborValue
  /-- `Certificate::from_der` -/
  certificate : Bytes → Option Certificate
  /-- `Certificate::load_pem_chain` -/
  pemChain : Bytes → Option (List Certificate)
  /-- `VerifyingKey::from_sec1_bytes` -/
  p384Key : Bytes → Option Bytes
  /-- `Signature::from_slice` -/
  p384Signature : Bytes → Option Bytes
  /-- `DerSignature::try_from` -/
  p384DerSignature : Bytes → Option Bytes
  p384Verify : Bytes → Bytes → Bytes → Bool

/-! ## Types -/

/-- Why an envelope cannot be read. -/
inductive CoseParseError where
  | malformedEnvelope (what : String)
  | malformedPayload (what : String)
  | missingPayload
  | missingField (field : String)
  | wrongFieldType (field : String)
  deriving DecidableEq

/-- Why its signature does not verify. -/
inductive CoseVerifyError where
  | invalidPublicKey
  | invalidSignature
  | malformedLeafCert
  | malformedSignature
  | signatureMismatch
  deriving DecidableEq

/-- An envelope, with its bytes. -/
structure CoseSign1Envelope where
  raw : Bytes
  cose : CoseSign1
  deriving DecidableEq

/-- Measurements by register. -/
structure Pcrs where
  entries : List (UInt8 × Bytes)
  /-- each register once, in ascending order -/
  ascending : (entries.map Prod.fst).Pairwise (· < ·)
  deriving DecidableEq

namespace Pcrs

variable {l : List (UInt8 × Bytes)}

/-- No registers. -/
def empty : Pcrs := ⟨[], .nil⟩

/-- The value of a register. -/
def get? (m : Pcrs) (index : UInt8) : Option Bytes := m.entries.lookup index

/-- The insertion that keeps the keys ascending. -/
def insertEntry (index : UInt8) (value : Bytes) : List (UInt8 × Bytes) → List (UInt8 × Bytes)
  | [] => [(index, value)]
  | (i, v) :: rest =>
    if index < i then (index, value) :: (i, v) :: rest
    else if index = i then (index, value) :: rest
    else (i, v) :: insertEntry index value rest

theorem mem_insertEntry {index j : UInt8} {value : Bytes}
    (h : j ∈ (insertEntry index value l).map Prod.fst) : j = index ∨ j ∈ l.map Prod.fst := by
  induction l with
  | nil => simpa [insertEntry] using h
  | cons x l ih =>
    unfold insertEntry at h
    grind

theorem ascending_insertEntry (index : UInt8) (value : Bytes)
    (h : (l.map Prod.fst).Pairwise (· < ·)) :
    ((insertEntry index value l).map Prod.fst).Pairwise (· < ·) := by
  induction l with
  | nil => exact List.pairwise_singleton _ _
  | cons x l ih =>
    obtain ⟨i, v⟩ := x
    obtain ⟨hi, hl⟩ := List.pairwise_cons.1 h
    unfold insertEntry
    split
    · next hlt =>
      refine List.pairwise_cons.2 ⟨fun j hj => ?_, h⟩
      rcases List.mem_cons.1 hj with rfl | hj
      · exact hlt
      · exact UInt8.lt_trans hlt (hi j hj)
    · next hge =>
      split
      · next heq =>
        subst heq
        exact h
      · next hne =>
        have hgt : i < index := UInt8.lt_of_le_of_ne (UInt8.not_lt.1 hge) (Ne.symm hne)
        refine List.pairwise_cons.2 ⟨fun j hj => ?_, ih hl⟩
        rcases mem_insertEntry hj with rfl | hj
        · exact hgt
        · exact hi j hj

/-- `BTreeMap::insert` -/
def insert (m : Pcrs) (index : UInt8) (value : Bytes) : Pcrs :=
  ⟨insertEntry index value m.entries, ascending_insertEntry index value m.ascending⟩

end Pcrs

namespace Cose

/-- The decoded attestation document. -/
structure AttestationPayload where
  moduleId : String
  timestamp : Int64
  digest : String
  pcrs : Pcrs
  certificate : Bytes
  cabundle : List Bytes
  publicKey : Bytes
  userData : Bytes
  nonce : Bytes
  deriving DecidableEq

/-! ## Encoding and decoding -/

/-- The map that stands for a payload. -/
def payloadMap (payload : AttestationPayload) : CborValue :=
  .map [
    (.text "module_id", .text payload.moduleId),
    (.text "timestamp", .integer payload.timestamp.toInt),
    (.text "digest", .text payload.digest),
    (.text "pcrs", .map (payload.pcrs.entries.map fun x => (.integer x.1.toNat, .bytes x.2))),
    (.text "certificate", .bytes payload.certificate),
    (.text "cabundle", .array (payload.cabundle.map .bytes)),
    (.text "public_key", .bytes payload.publicKey),
    (.text "user_data", .bytes payload.userData),
    (.text "nonce", .bytes payload.nonce)]

variable (d : CoseDeps)

/-- Tagged, or else untagged. -/
def parseCoseSign1 (bytes : Bytes) : Except CoseParseError CoseSign1Envelope :=
  match d.fromTaggedSlice bytes with
  | .ok cose => .ok ⟨bytes, cose⟩
  | .error _ =>
    match d.fromSlice bytes with
    | .ok cose => .ok ⟨bytes, cose⟩
    | .error e => .error (.malformedEnvelope e)

/-- A text field. -/
def asText (field : String) : CborValue → Except CoseParseError String
  | .text s => .ok s
  | _ => .error (.wrongFieldType field)

/-- A field of bytes. -/
def asBytes (field : String) : CborValue → Except CoseParseError Bytes
  | .bytes b => .ok b
  | _ => .error (.wrongFieldType field)

/-- A field of bytes, which may be null. -/
def asOptionalBytes (field : String) : CborValue → Except CoseParseError Bytes
  | .bytes b => .ok b
  | .null => .ok []
  | _ => .error (.wrongFieldType field)

/-- An integer field. -/
def asI64 (field : String) : CborValue → Except CoseParseError Int64
  | .integer i =>
    if Int64.minValue.toInt ≤ i ∧ i ≤ Int64.maxValue.toInt then .ok (Int64.ofInt i)
    else .error (.wrongFieldType field)
  | _ => .error (.wrongFieldType field)

/-- One register of the map. -/
def decodePcrEntry (out : Pcrs) : CborValue × CborValue → Except CoseParseError Pcrs
  | (k, v) => do
    let index ← asI64 "pcrs" k
    if 0 ≤ index.toInt ∧ index.toInt < 256 then
      match v with
      | .bytes b => .ok (out.insert (UInt8.ofNat index.toInt.toNat) b)
      | _ => .error (.wrongFieldType "pcrs")
    else .error (.wrongFieldType "pcrs")

/-- The registers. -/
def decodePcrMap : CborValue → Except CoseParseError Pcrs
  | .map entries => entries.foldlM decodePcrEntry .empty
  | _ => .error (.wrongFieldType "pcrs")

/-- The certificates. -/
def decodeCabundle : CborValue → Except CoseParseError (List Bytes)
  | .array entries => entries.mapM (asBytes "cabundle")
  | _ => .error (.wrongFieldType "cabundle")

/-- The variables of the decoder's loop. -/
structure Fields where
  moduleId : Option String := none
  timestamp : Option Int64 := none
  digest : Option String := none
  pcrs : Option Pcrs := none
  certificate : Option Bytes := none
  cabundle : Option (List Bytes) := none
  publicKey : Bytes := []
  userData : Bytes := []
  nonce : Bytes := []

/-- One entry. A repeated key overwrites; unknown keys and keys that are no text are ignored. -/
def Fields.read (fields : Fields) : CborValue × CborValue → Except CoseParseError Fields
  | (.text key, v) => do
    match key with
    | "module_id" => .ok { fields with moduleId := some (← asText "module_id" v) }
    | "timestamp" => .ok { fields with timestamp := some (← asI64 "timestamp" v) }
    | "digest" => .ok { fields with digest := some (← asText "digest" v) }
    | "pcrs" => .ok { fields with pcrs := some (← decodePcrMap v) }
    | "certificate" => .ok { fields with certificate := some (← asBytes "certificate" v) }
    | "cabundle" => .ok { fields with cabundle := some (← decodeCabundle v) }
    | "public_key" => .ok { fields with publicKey := ← asOptionalBytes "public_key" v }
    | "user_data" => .ok { fields with userData := ← asOptionalBytes "user_data" v }
    | "nonce" => .ok { fields with nonce := ← asOptionalBytes "nonce" v }
    | _ => .ok fields
  | _ => .ok fields

/-- A field that has to be there. -/
def required {α : Type} (field : String) : Option α → Except CoseParseError α
  | some a => .ok a
  | none => .error (.missingField field)

/-- The payload that the bytes encode. -/
def decodePayloadMap (bytes : Bytes) : Except CoseParseError AttestationPayload := do
  match d.fromReader bytes with
  | .error e => .error (.malformedPayload e)
  | .ok (.map entries) =>
    let fields ← entries.foldlM Fields.read {}
    let moduleId ← required "module_id" fields.moduleId
    let timestamp ← required "timestamp" fields.timestamp
    let digest ← required "digest" fields.digest
    let pcrs ← required "pcrs" fields.pcrs
    let certificate ← required "certificate" fields.certificate
    let cabundle ← required "cabundle" fields.cabundle
    .ok ⟨moduleId, timestamp, digest, pcrs, certificate, cabundle, fields.publicKey,
      fields.userData, fields.nonce⟩
  | .ok _ => .error (.malformedPayload "outer value is not a map")

/-- The payload of an envelope. -/
def extractPayload (envelope : CoseSign1Envelope) : Except CoseParseError AttestationPayload :=
  match envelope.cose.payload with
  | none => .error .missingPayload
  | some bytes => decodePayloadMap d bytes

/-! ### The decoder reads what the encoder writes -/

variable {d}

variable (d)

namespace SampleDocument

/-- A payload without key, user data and nonce. -/
def payload : AttestationPayload where
  moduleId := "i-1"
  timestamp := -1
  digest := "SHA384"
  pcrs := (Pcrs.empty.insert 8 [2]).insert 0 [1]
  certificate := [3]
  cabundle := []
  publicKey := []
  userData := []
  nonce := []

/-- The entries of its map. -/
def entries : List (CborValue × CborValue) :=
  match payloadMap payload with
  | .map entries => entries
  | _ => []

/-- The same document, with two more entries. -/
def extended : CborValue :=
  .map ((.text "module", .null) :: (entries ++ [(.integer 1, .text "nonce")]))

open Classical in
/-- Libraries that write and read the two documents. -/
noncomputable def deps : CoseDeps where
  crypto := .ofTablesOnly {}
  fromTaggedSlice _ := .error "not an envelope"
  fromSlice _ := .error "not an envelope"
  tbsData _ := []
  intoWriter v :=
    if v = payloadMap payload then .ok [1]
    else if v = extended then .ok [2]
    else .error "not written"
  fromReader b :=
    if b = [1] then .ok (payloadMap payload)
    else if b = [2] then .ok extended
    else .error "not CBOR"
  certificate _ := none
  pemChain _ := none
  p384Key _ := none
  p384Signature _ := none
  p384DerSignature _ := none
  p384Verify _ _ _ := false

end SampleDocument

open SampleDocument

/-- Under an ed25519 key. -/
def verifyCoseSignature (envelope : CoseSign1Envelope) (leafPubkey : Bytes) :
    Except CoseVerifyError Unit :=
  match FixedBytes.ofBytes? 32 leafPubkey with
  | none => .error .invalidPublicKey
  | some pk =>
    match d.crypto.ed25519KeyError pk with
    | some _ => .error .invalidPublicKey
    | none =>
      match FixedBytes.ofBytes? 64 envelope.cose.signature with
      | none => .error .invalidSignature
      | some sig =>
        if d.crypto.ed25519Verify pk (d.tbsData envelope.cose) sig then .ok ()
        else .error .invalidSignature

/-- Under the P-384 key of a certificate. -/
def verifyCoseSignatureEs384 (envelope : CoseSign1Envelope) (leafCertDer : Bytes) :
    Except CoseVerifyError Unit :=
  match d.certificate leafCertDer with
  | none => .error .malformedLeafCert
  | some cert =>
    match cert.subjectPublicKey.bind d.p384Key with
    | none => .error .malformedLeafCert
    | some vk =>
      match cert.der with
      | none => .error .malformedLeafCert
      | some _ =>
        if envelope.cose.signature.length ≠ 96 then .error .malformedSignature
        else
          match d.p384Signature envelope.cose.signature with
          | none => .error .malformedSignature
          | some sig =>
            if d.p384Verify vk (d.tbsData envelope.cose) sig then .ok ()
            else .error .signatureMismatch

/-- The envelope is signed with the ed25519 key. -/
def SignedByKey (envelope : CoseSign1Envelope) (leafPubkey : Bytes) : Prop :=
  ∃ (pk : FixedBytes 32) (sig : FixedBytes 64), pk.bytes = leafPubkey ∧
    sig.bytes = envelope.cose.signature ∧
    d.crypto.ed25519Verify pk (d.tbsData envelope.cose) sig = true

/-- The envelope is signed with the P-384 key of the certificate. -/
def SignedByCertificate (envelope : CoseSign1Envelope) (cert : Certificate) : Prop :=
  ∃ vk sig, cert.subjectPublicKey.bind d.p384Key = some vk ∧
    d.p384Signature envelope.cose.signature = some sig ∧
    d.p384Verify vk (d.tbsData envelope.cose) sig = true

variable {d} {envelope : CoseSign1Envelope} {leaf : Bytes}

/-- What a verified signature says. -/
theorem signed_of_verifyCoseSignature (h : verifyCoseSignature d envelope leaf = .ok ()) :
    SignedByKey d envelope leaf := by
  unfold verifyCoseSignature at h
  split at h
  · cases h
  · next pk hpk =>
    split at h
    · cases h
    · split at h
      · cases h
      · next sig hsig =>
        split_ifs at h with hverify
        exact ⟨pk, sig, FixedBytes.ofBytes?_eq_some.1 hpk, FixedBytes.ofBytes?_eq_some.1 hsig,
          hverify⟩

theorem SignedByKey.length_leaf (h : SignedByKey d envelope leaf) : leaf.length = 32 := by
  obtain ⟨pk, -, rfl, -⟩ := h
  exact pk.length_bytes

theorem signed_of_verifyCoseSignatureEs384
    (h : verifyCoseSignatureEs384 d envelope leaf = .ok ()) :
    ∃ cert, d.certificate leaf = some cert ∧ SignedByCertificate d envelope cert := by
  unfold verifyCoseSignatureEs384 at h
  split at h
  · cases h
  · next cert hcert =>
    split at h
    · cases h
    · next vk hvk =>
      split at h
      · cases h
      · split at h
        · cases h
        · split at h
          · cases h
          · next sig hsig =>
            split_ifs at h with hverify
            exact ⟨cert, hcert, vk, sig, hvk, hsig, hverify⟩

end Cose

end QfcServerWallet.Enclave
