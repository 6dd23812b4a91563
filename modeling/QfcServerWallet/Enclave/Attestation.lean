import QfcServerWallet.Enclave.Cose

/-!
# Verifying an attestation

`qfc-enclave/src/verify_attestation.rs`: `verify_attestation_inner` with its parsers, the PCR
constraint and the walk of the certificate chain. `verify_attestation_with_root` is the production
entry.

* A document carries a *mirror* of what its bytes say, and names the kind of its own signature. The
  verifier compares the mirror with the bytes and returns the mirror. The comparison for a COSE
  document leaves out the nonce.
* `now_ms + 60_000` and `now_ms - ts` wrap as in a release build.
* The walk numbers the certificates `leaf, cabundle…, root` from 0, and an error names the child.
* `verify_attestation`, which walks no chain, and `verify_mock_attestation`, which is for documents
  of `attestation.rs`, are left out.
-/

namespace QfcServerWallet.Enclave

open Lib Cose

/-! ## Types -/

/-- The mirror of a payload. -/
structure NitroAttestationPayload where
  moduleId : String
  timestampUnixMs : Int64
  pcrs : Pcrs
  publicKey : Bytes
  userData : Bytes
  nonce : FixedBytes 32
  deriving DecidableEq

/-- How a document says it is signed. -/
inductive SignatureKind where
  | mock
  | coseSign1Ed25519
  | coseSign1Es384
  deriving DecidableEq

/-- A document: its bytes, and the mirror of them. -/
structure NitroAttestationDoc where
  coseSign1 : Bytes
  parsedPayload : NitroAttestationPayload
  leafCertificate : Bytes
  cabundle : List Bytes
  signature : Bytes
  signatureKind : SignatureKind
  deriving DecidableEq

/-- What a verified document says. -/
structure VerifiedAttestation where
  payload : NitroAttestationPayload
  deriving DecidableEq

/-- Why a document is refused. -/
inductive AttestationVerifyError where
  | malformedCose (what : String)
  | payloadMismatch
  | pcrMismatch (index : UInt8)
  | staleAttestation (timestampMs nowMs maxAgeMs : Int64)
  | fromTheFuture
  | invalidSignature
  | certChain
  | malformedLeafCert
  | malformedIntermediate (index : Nat)
  | malformedRoot
  | certChainBroken (index : Nat) (reason : String)
  deriving DecidableEq

/-- The parsers, with the one for mock payloads. -/
structure AttestDeps extends CoseDeps where
  /-- `serde_json::from_slice` of a payload -/
  jsonPayload : Bytes → Option NitroAttestationPayload

/-! ## Parsing -/

/-- An envelope that cannot be read. -/
def mapParseErr : CoseParseError → AttestationVerifyError
  | .malformedEnvelope _ | .malformedPayload _ | .missingPayload => .malformedCose "CBOR parse"
  | .missingField _ | .wrongFieldType _ => .malformedCose "missing or mistyped payload field"

/-- A signature that does not verify. -/
def mapVerifyErr : CoseVerifyError → AttestationVerifyError
  | .invalidPublicKey | .invalidSignature | .malformedSignature | .signatureMismatch =>
    .invalidSignature
  | .malformedLeafCert => .malformedCose "leaf certificate is malformed"

/-- ES384 is number -35; every other algorithm goes to the ed25519 path. -/
def signatureKindFromEnvelope (envelope : CoseSign1Envelope) : SignatureKind :=
  if envelope.cose.alg = some (.assigned (-35)) then .coseSign1Es384 else .coseSign1Ed25519

/-- The nonce as an array: zeros, if there is none. -/
def narrowNonce (nonce : Bytes) : Except AttestationVerifyError (FixedBytes 32) :=
  match FixedBytes.ofBytes? 32 nonce with
  | some a => .ok a
  | none =>
    if nonce = [] then .ok (FixedBytes.zero 32)
    else .error (.malformedCose "nonce length is not 32")

variable (d : AttestDeps)

/-- The envelope of the bytes, and what it says. -/
def decode (bytes : Bytes) :
    Except AttestationVerifyError (CoseSign1Envelope × Cose.AttestationPayload) := do
  let envelope ← (parseCoseSign1 d.toCoseDeps bytes).mapError mapParseErr
  let inner ← (extractPayload d.toCoseDeps envelope).mapError mapParseErr
  .ok (envelope, inner)

namespace NitroAttestationDoc

/-- The document of an envelope. -/
def fromCoseSign1 (bytes : Bytes) : Except AttestationVerifyError NitroAttestationDoc := do
  let (envelope, inner) ← decode d bytes
  let nonce ← narrowNonce inner.nonce
  .ok {
    coseSign1 := envelope.raw
    parsedPayload :=
      ⟨inner.moduleId, inner.timestamp, inner.pcrs, inner.publicKey, inner.userData, nonce⟩
    leafCertificate := inner.certificate
    cabundle := inner.cabundle
    signature := envelope.cose.signature
    signatureKind := signatureKindFromEnvelope envelope }

end NitroAttestationDoc

/-! ## The PCR constraint -/

/-- The expected registers. -/
structure PcrConstraint where
  pcr0 : Option Bytes := none
  pcr1 : Option Bytes := none
  pcr2 : Option Bytes := none
  pcr3 : Option Bytes := none
  pcr4 : Option Bytes := none

namespace PcrConstraint

/-- Them, with their numbers. -/
def registers (c : PcrConstraint) : List (UInt8 × Option Bytes) :=
  [(0, c.pcr0), (1, c.pcr1), (2, c.pcr2), (3, c.pcr3), (4, c.pcr4)]

/-- One register, where it is constrained. -/
def checkRegister (observed : Pcrs) : UInt8 × Option Bytes → Except AttestationVerifyError Unit
  | (_, none) => .ok ()
  | (index, some expected) =>
    match observed.get? index with
    | none => .error (.pcrMismatch index)
    | some bytes => if bytes = expected then .ok () else .error (.pcrMismatch index)

/-- All of them. -/
def check (c : PcrConstraint) (observed : Pcrs) : Except AttestationVerifyError Unit :=
  c.registers.forM (checkRegister observed)

/-- Each register that is constrained has the expected value. -/
def Holds (c : PcrConstraint) (observed : Pcrs) : Prop :=
  ∀ index expected, (index, some expected) ∈ c.registers → observed.get? index = some expected

/-- What a passed constraint says of the registers. -/
theorem check_ok_iff {c : PcrConstraint} {observed : Pcrs} :
    c.check observed = .ok () ↔ c.Holds observed := by
  rw [check, forM_eq_ok]
  constructor
  · intro h index expected hmem
    have hregister := h _ hmem
    simp only [checkRegister] at hregister
    split at hregister
    · cases hregister
    · next bytes hget =>
      split_ifs at hregister with heq
      rw [hget, heq]
  · rintro h ⟨index, expected⟩ hmem
    cases expected with
    | none => rfl
    | some expected => simp [checkRegister, h index expected hmem]

end PcrConstraint

/-! ## The certificate chain -/

/-- The embedded AWS Nitro G1 root certificate. -/
def awsNitroRootG1Pem : Bytes := utf8 (
  "-----BEGIN CERTIFICATE-----\n" ++
  "MIICETCCAZagAwIBAgIRAPkxdWgbkK/hHUbMtOTn+FYwCgYIKoZIzj0EAwMwSTEL\n" ++
  "MAkGA1UEBhMCVVMxDzANBgNVBAoMBkFtYXpvbjEMMAoGA1UECwwDQVdTMRswGQYD\n" ++
  "VQQDDBJhd3Mubml0cm8tZW5jbGF2ZXMwHhcNMTkxMDI4MTMyODA1WhcNNDkxMDI4\n" ++
  "MTQyODA1WjBJMQswCQYDVQQGEwJVUzEPMA0GA1UECgwGQW1hem9uMQwwCgYDVQQL\n" ++
  "DANBV1MxGzAZBgNVBAMMEmF3cy5uaXRyby1lbmNsYXZlczB2MBAGByqGSM49AgEG\n" ++
  "BSuBBAAiA2IABPwCVOumCMHzaHDimtqQvkY4MpJzbolL//Zy2YlES1BR5TSksfbb\n" ++
  "48C8WBoyt7F2Bw7eEtaaP+ohG2bnUs990d0JX28TcPQXCEPZ3BABIeTPYwEoCWZE\n" ++
  "h8l5YoQwTcU/9KNCMEAwDwYDVR0TAQH/BAUwAwEB/zAdBgNVHQ4EFgQUkCW1DdkF\n" ++
  "R+eWw5b6cp3PmanfS5YwDgYDVR0PAQH/BAQDAgGGMAoGCCqGSM49BAMDA2kAMGYC\n" ++
  "MQCjfy+Rocm9Xue4YnwWmNJVA44fA0P5W2OpYow9OYCVRaEevL8uO1XYru5xtMPW\n" ++
  "rfMCMQCi85sWBbJwKKXdS6BptQFuZbT73o/gBh1qUxl/nNr12UO8Yfwr6wPLb+6N\n" ++
  "IwLz3/Y=\n" ++
  "-----END CERTIFICATE-----\n")

/-- The root that is trusted. -/
inductive RootAnchor where
  | awsNitroG1
  | custom (bytes : Bytes)
  | none
  deriving DecidableEq

/-- Its certificate. -/
def RootAnchor.rootBytes : RootAnchor → Option Bytes
  | awsNitroG1 => some awsNitroRootG1Pem
  | custom bytes => some bytes
  | none => Option.none

/-- `i64::try_from` of a time -/
def timeMs (ms index : Nat) (reason : String) : Except AttestationVerifyError Int :=
  if ms ≤ Int64.maxValue.toInt.toNat then .ok ms else .error (.certChainBroken index reason)

/-- The window of a certificate. -/
def checkValidity (cert : Certificate) (index : Nat) (nowMs : Int64) :
    Except AttestationVerifyError Unit := do
  let notBeforeMs ← timeMs cert.notBefore index "not_before exceeds i64 millis range"
  let notAfterMs ← timeMs cert.notAfter index "not_after exceeds i64 millis range"
  if nowMs.toInt < notBeforeMs then
    .error (.certChainBroken index "not yet valid (now < not_before)")
  else if nowMs.toInt > notAfterMs then
    .error (.certChainBroken index "expired (now > not_after)")
  else .ok ()

/-- A part that has to be there for the link to hold. -/
def orBroken {α : Type} (index : Nat) (reason : String) :
    Option α → Except AttestationVerifyError α
  | some a => .ok a
  | none => .error (.certChainBroken index reason)

/-- The signature of `child` under the key of `parent`. -/
def verifyP384Signature (child parent : Certificate) (index : Nat) (mismatchReason : String) :
    Except AttestationVerifyError Unit := do
  let sec1Bytes ← orBroken index "parent SubjectPublicKeyInfo bit string is not byte-aligned"
    parent.subjectPublicKey
  let vk ← orBroken index "parent SubjectPublicKeyInfo is not a P-384 public key"
    (d.p384Key sec1Bytes)
  let tbsDer ← orBroken index "could not re-encode child TBS to DER" child.tbsDer
  let sigBytes ← orBroken index "child signature bit string is not byte-aligned" child.signature
  let sig ← orBroken index "child signature is not a valid DER ECDSA signature"
    (d.p384DerSignature sigBytes)
  if d.p384Verify vk tbsDer sig then .ok () else .error (.certChainBroken index mismatchReason)

/-- One link of the chain. -/
def checkPair (child parent : Certificate) (index : Nat) (nowMs : Int64) :
    Except AttestationVerifyError Unit := do
  if child.issuer ≠ parent.subject then
    .error (.certChainBroken index "issuer DN does not match parent subject DN")
  else
    checkValidity child index nowMs
    verifyP384Signature d child parent index "signature did not verify"

/-- The adjacent pairs of the chain, the first of them at `index`. -/
def walk (nowMs : Int64) : Nat → List Certificate → Except AttestationVerifyError Unit
  | index, child :: parent :: rest => do
    checkPair d child parent index nowMs
    walk nowMs (index + 1) (parent :: rest)
  | _, _ => .ok ()

/-- The entries of `cabundle`, the first of them at `index`. -/
def parseCabundle : Nat → List Bytes → Except AttestationVerifyError (List Certificate)
  | _, [] => .ok []
  | index, der :: rest =>
    match d.certificate der with
    | none => .error (.malformedIntermediate index)
    | some cert => do
      let certs ← parseCabundle (index + 1) rest
      .ok (cert :: certs)

/-- The last certificate of a PEM text, or a DER certificate. -/
def parseRoot (root : Bytes) : Except AttestationVerifyError Certificate :=
  match d.pemChain root with
  | some chain =>
    match chain.getLast? with
    | some cert => .ok cert
    | none => .error .malformedRoot
  | none =>
    match d.certificate root with
    | some cert => .ok cert
    | none => .error .malformedRoot

/-- The checks of the parsed chain. -/
def verifyChain (leaf : Certificate) (intermediates : List Certificate) (root : Certificate)
    (nowMs : Int64) : Except AttestationVerifyError Unit := do
  let chain := leaf :: intermediates ++ [root]
  walk d nowMs 0 chain
  if root.issuer ≠ root.subject then
    .error (.certChainBroken (chain.length - 1)
      "root certificate is not self-signed (issuer != subject)")
  else
    checkValidity root (chain.length - 1) nowMs
    verifyP384Signature d root root (chain.length - 1) "root self-signature did not verify"
    if leaf.der = none then .error .malformedLeafCert
    else if root.der = none then .error .malformedRoot
    else .ok ()

/-- The whole chain, up to the root. -/
def verifyRootChain (leafCert : Bytes) (cabundle : List Bytes) (root : Bytes) (nowMs : Int64) :
    Except AttestationVerifyError Unit :=
  match d.certificate leafCert with
  | none => .error .malformedLeafCert
  | some leaf => do
    let intermediates ← parseCabundle d 0 cabundle
    let rootCert ← parseRoot d root
    verifyChain d leaf intermediates rootCert nowMs

/-! ## The whole verification -/

/-- Step 1: the mirror is what the bytes say. -/
def checkMirror (doc : NitroAttestationDoc) : Except AttestationVerifyError Unit := do
  match doc.signatureKind with
  | .mock =>
    match d.jsonPayload doc.coseSign1 with
    | none => .error (.malformedCose "payload not JSON")
    | some reparsed =>
      if reparsed ≠ doc.parsedPayload then .error .payloadMismatch else .ok ()
  | .coseSign1Ed25519 | .coseSign1Es384 =>
    let (_, inner) ← decode d doc.coseSign1
    if inner.moduleId ≠ doc.parsedPayload.moduleId ∨
        inner.timestamp ≠ doc.parsedPayload.timestampUnixMs ∨
        inner.pcrs ≠ doc.parsedPayload.pcrs ∨
        inner.publicKey ≠ doc.parsedPayload.publicKey ∨
        inner.userData ≠ doc.parsedPayload.userData then .error .payloadMismatch
    else .ok ()

/-- Step 3. -/
def checkFreshness (ts nowMs maxAgeMs : Int64) : Except AttestationVerifyError Unit :=
  if ts > nowMs + 60000 then .error .fromTheFuture
  else if nowMs - ts > maxAgeMs then .error (.staleAttestation ts nowMs maxAgeMs)
  else .ok ()

/-- The signature of the ed25519 kinds. -/
def verifyEd25519Signature (publicKey message signature : Bytes) :
    Except AttestationVerifyError Unit :=
  match FixedBytes.ofBytes? 32 publicKey with
  | none => .error .invalidSignature
  | some pk =>
    match d.crypto.ed25519KeyError pk, FixedBytes.ofBytes? 64 signature with
    | none, some sig =>
      if d.crypto.ed25519Verify pk message sig then .ok () else .error .invalidSignature
    | _, _ => .error .invalidSignature

/-- Step 4. -/
def checkSignature (doc : NitroAttestationDoc) : Except AttestationVerifyError Unit := do
  match doc.signatureKind with
  | .mock => verifyEd25519Signature d doc.leafCertificate doc.coseSign1 doc.signature
  | .coseSign1Ed25519 =>
    let envelope ← (parseCoseSign1 d.toCoseDeps doc.coseSign1).mapError mapParseErr
    (verifyCoseSignature d.toCoseDeps envelope doc.leafCertificate).mapError mapVerifyErr
  | .coseSign1Es384 =>
    let envelope ← (parseCoseSign1 d.toCoseDeps doc.coseSign1).mapError mapParseErr
    (verifyCoseSignatureEs384 d.toCoseDeps envelope doc.leafCertificate).mapError mapVerifyErr

/-- Step 5. -/
def checkCertChain (doc : NitroAttestationDoc) (rootAnchor : RootAnchor) (nowMs : Int64) :
    Except AttestationVerifyError Unit :=
  if doc.cabundle = [] then .error .certChain
  else
    match rootAnchor.rootBytes with
    | some root => verifyRootChain d doc.leafCertificate doc.cabundle root nowMs
    | none => .ok ()

/-- All checks, in the source's order. -/
def verifyAttestationInner (doc : NitroAttestationDoc) (expectedPcrs : PcrConstraint)
    (rootAnchor : RootAnchor) (nowMs maxAgeMs : Int64) :
    Except AttestationVerifyError VerifiedAttestation := do
  checkMirror d doc
  expectedPcrs.check doc.parsedPayload.pcrs
  checkFreshness doc.parsedPayload.timestampUnixMs nowMs maxAgeMs
  checkSignature d doc
  checkCertChain d doc rootAnchor nowMs
  .ok ⟨doc.parsedPayload⟩

/-- The entry with a root anchor. -/
def verifyAttestationWithRoot (doc : NitroAttestationDoc) (expectedPcrs : PcrConstraint)
    (rootAnchor : RootAnchor) (nowMs maxAgeMs : Int64) :
    Except AttestationVerifyError VerifiedAttestation :=
  verifyAttestationInner d doc expectedPcrs rootAnchor nowMs maxAgeMs

end QfcServerWallet.Enclave
