import QfcServerWallet.Quorum.Approval
import QfcServerWallet.Serde

/-!
# Identities and requests as JSON

What `serde` derives for `SigningScheme` (`qfc-wallet-types/src/scheme.rs`), `ApproverIdentity`
(`qfc-quorum/src/identity.rs`) and `ApprovalRequest` (`qfc-quorum/src/approval.rs`).

* An identity is internally tagged by `kind`. Its byte fields are plain `Vec<u8>`, so they are
  written as arrays of numbers.
* The message hash of a request is written in hex (`hex_array_32`); an id is the text of its ULID.

Results: `ApproverIdentity.deserialize_serialize` and `ApprovalRequest.deserialize_serialize`.
-/

namespace QfcServerWallet.Quorum

open Lib Serde

variable {parse : UlidParser}

/-! ## Schemes and ids -/

/-- The names of the schemes. -/
def schemeNames : List (String × SigningScheme) :=
  [("ed25519", .ed25519), ("secp256k1", .secp256k1),
    ("secp256k1_recoverable", .secp256k1Recoverable), ("ml_dsa44", .mlDsa44),
    ("ml_dsa65", .mlDsa65), ("ml_dsa87", .mlDsa87)]

/-- Writes a scheme. -/
def serializeScheme : SigningScheme → Json
  | .ed25519 => .string "ed25519"
  | .secp256k1 => .string "secp256k1"
  | .secp256k1Recoverable => .string "secp256k1_recoverable"
  | .mlDsa44 => .string "ml_dsa44"
  | .mlDsa65 => .string "ml_dsa65"
  | .mlDsa87 => .string "ml_dsa87"

@[simp] theorem readVariant_serializeScheme (s : SigningScheme) :
    readVariant schemeNames (serializeScheme s) = .ok s := by
  cases s <;> rfl

/-- Writes an id. -/
def serializeId {k : IdKind} (id : Ident k) : Json := .string id.toString

/-- Reads an id. -/
def deserializeId {k : IdKind} (parse : UlidParser) (v : Json) : Except DeError (Ident k) := do
  let text ← readString v
  (Ident.fromStr parse text).mapError .custom

@[simp] theorem deserializeId_serializeId {k : IdKind} (hparse : parse.RoundTrips) (id : Ident k) :
    deserializeId parse (serializeId id) = .ok id := by
  rw [deserializeId, serializeId, readString]
  exact congrArg (Except.mapError _) (Ident.fromStr_toString hparse id)

/-! ## Identities -/

namespace ApproverIdentity

/-- Writes an identity. -/
def serialize : ApproverIdentity → Json
  | chain chainId address publicKey scheme =>
    .object [("kind", .string "chain"), ("chain_id", u64Json chainId),
      ("address", bytesJson address), ("public_key", bytesJson publicKey),
      ("scheme", serializeScheme scheme)]
  | external id publicKey scheme =>
    .object [("kind", .string "external"), ("id", .string id), ("public_key", bytesJson publicKey),
      ("scheme", serializeScheme scheme)]
  | hardware h =>
    .object [("kind", .string "hardware"), ("handle", .string h.handle),
      ("public_key", bytesJson h.publicKey), ("scheme", serializeScheme h.scheme)]
  | nestedWallet walletId publicKey scheme =>
    .object [("kind", .string "nested_wallet"), ("wallet_id", serializeId walletId),
      ("public_key", bytesJson publicKey), ("scheme", serializeScheme scheme)]

/-- Reads an identity. -/
def deserialize (parse : UlidParser) (v : Json) : Except DeError ApproverIdentity := do
  let (kind, content) ← readTag "kind" "internally tagged enum ApproverIdentity" v
  match kind with
  | "chain" =>
    let fields ← structFields "struct variant ApproverIdentity::Chain"
      ["chain_id", "address", "public_key", "scheme"] content
    let chainId ← readField "chain_id" readU64 fields
    let address ← readField "address" readBytes fields
    let publicKey ← readField "public_key" readBytes fields
    let scheme ← readField "scheme" (readVariant schemeNames) fields
    .ok (chain chainId address publicKey scheme)
  | "external" =>
    let fields ← structFields "struct variant ApproverIdentity::External"
      ["id", "public_key", "scheme"] content
    let id ← readField "id" readString fields
    let publicKey ← readField "public_key" readBytes fields
    let scheme ← readField "scheme" (readVariant schemeNames) fields
    .ok (external id publicKey scheme)
  | "hardware" =>
    let fields ← structFields "struct HardwareApproverHandle"
      ["handle", "public_key", "scheme"] content
    let handle ← readField "handle" readString fields
    let publicKey ← readField "public_key" readBytes fields
    let scheme ← readField "scheme" (readVariant schemeNames) fields
    .ok (hardware ⟨handle, publicKey, scheme⟩)
  | "nested_wallet" =>
    let fields ← structFields "struct variant ApproverIdentity::NestedWallet"
      ["wallet_id", "public_key", "scheme"] content
    let walletId ← readField "wallet_id" (deserializeId parse) fields
    let publicKey ← readField "public_key" readBytes fields
    let scheme ← readField "scheme" (readVariant schemeNames) fields
    .ok (nestedWallet walletId publicKey scheme)
  | name => .error (.unknownVariant name)

/-- An identity reads back. -/
theorem deserialize_serialize (hparse : parse.RoundTrips) (x : ApproverIdentity) :
    deserialize parse x.serialize = .ok x := by
  cases x with
  | chain chainId address publicKey scheme =>
    simp [deserialize, serialize, readTag, readField, structFields, bind, Except.bind]
  | external id publicKey scheme =>
    simp [deserialize, serialize, readTag, readField, structFields, bind, Except.bind]
  | hardware h =>
    simp [deserialize, serialize, readTag, readField, structFields, bind, Except.bind]
  | nestedWallet walletId publicKey scheme =>
    simp [deserialize, serialize, readTag, readField, structFields, bind, Except.bind, hparse]

end ApproverIdentity

/-! ## Requests -/

/-- `hex_array_32::deserialize` -/
def deserializeHash (v : Json) : Except DeError (FixedBytes 32) := do
  let text ← readString v
  match hexDecode text with
  | none => .error (.custom "invalid hex")
  | some bytes =>
    match FixedBytes.ofBytes? 32 bytes with
    | none => .error (.custom "expected 32 bytes")
    | some hash => .ok hash

namespace ApprovalRequest

/-- Writes a request. -/
def serialize (req : ApprovalRequest) : Json :=
  .object [("request_id", serializeId req.requestId),
    ("message_hash", .string (hexEncode req.messageHash.bytes)),
    ("approver_set", .array (req.approverSet.map ApproverIdentity.serialize)),
    ("threshold", u8Json req.threshold)]

/-- Reads a request. -/
def deserialize (parse : UlidParser) (v : Json) : Except DeError ApprovalRequest := do
  let fields ← structFields "struct ApprovalRequest"
    ["request_id", "message_hash", "approver_set", "threshold"] v
  let requestId ← readField "request_id" (deserializeId parse) fields
  let messageHash ← readField "message_hash" deserializeHash fields
  let approverSet ← readField "approver_set" (readSeq (ApproverIdentity.deserialize parse)) fields
  let threshold ← readField "threshold" readU8 fields
  .ok { requestId, messageHash, approverSet, threshold }

/-- A request reads back. -/
theorem deserialize_serialize (hparse : parse.RoundTrips) (req : ApprovalRequest) :
    deserialize parse req.serialize = .ok req := by
  have hhash : deserializeHash (.string (hexEncode req.messageHash.bytes)) =
      .ok req.messageHash := by
    simp [deserializeHash, bind, Except.bind]
  have hset := readSeq_map (ApproverIdentity.deserialize_serialize hparse) req.approverSet
  simp [deserialize, serialize, structFields, readField, bind, Except.bind, hparse, hhash, hset]

end ApprovalRequest

end QfcServerWallet.Quorum
