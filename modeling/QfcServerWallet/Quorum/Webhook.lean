import QfcServerWallet.Lib.Codec
import QfcServerWallet.Quorum.Wire

/-!
# Webhooks from the server to the reference client

`qfc-quorum/src/approvers/webhook.rs` (`notify`) posts a request;
`clients/approver-rs/src/webhook_handler.rs` (`handle_webhook` up to the processor) and
`clients/approver-rs/src/wire.rs` receive it.

* The client declares the wire types anew. Its identities have `address_hex` and `public_key_hex`,
  hex texts, where the server writes `address` and `public_key`, arrays of numbers; neither side
  knows the other's fields.
* HMAC-SHA256 and the JSON text of a tree are parameters; `serde_json` reads back what it wrote for
  a request.
* How the response is handled is left out.

Results: `deserialize_serialize_identity`, **`webhook_parsed_iff`** and
`external_approver_not_parsed`.
-/

namespace QfcServerWallet.Quorum

open Lib Serde

/-! ## The server's side -/

/-- The secret of the webhook. -/
structure WebhookApproverConfig where
  hmacSecret : Bytes

/-- The header `x-qfc-signature` and the body of the request that is sent. -/
structure WebhookPost where
  signature : String
  body : Bytes
  deriving DecidableEq

/-- The dependencies of both sides. -/
structure WebhookDeps where
  /-- secret and payload -/
  hmacSha256 : Bytes → Bytes → FixedBytes 32
  /-- `serde_json` -/
  json : Codec Json

/-- Every request can be written, and its tree reads back. -/
def WebhookDeps.RoundTrips (d : WebhookDeps) : Prop :=
  ∀ req : ApprovalRequest, ∃ body, d.json.encode req.serialize = .ok body ∧
    d.json.decode body = .ok req.serialize

/-- The signature header. -/
def hmacSha256Hex (d : WebhookDeps) (secret payload : Bytes) : String :=
  hexEncode (d.hmacSha256 secret payload).bytes

/-- What `notify` sends. -/
def notifyPost (d : WebhookDeps) (config : WebhookApproverConfig) (req : ApprovalRequest) :
    Except QuorumError WebhookPost := do
  let body ← (d.json.encode req.serialize).mapError fun e => .transport ("encode request: " ++ e)
  .ok ⟨hmacSha256Hex d config.hmacSecret body, body⟩

/-! ## The client's types -/

/-- The client's schemes. -/
inductive SigningSchemeWire where
  | ed25519
  | secp256k1
  | secp256k1Recoverable
  | mlDsa44
  | mlDsa65
  | mlDsa87
  deriving DecidableEq

/-- `impl From<SigningSchemeWire> for SigningScheme` -/
def SigningSchemeWire.toScheme : SigningSchemeWire → SigningScheme
  | ed25519 => .ed25519
  | secp256k1 => .secp256k1
  | secp256k1Recoverable => .secp256k1Recoverable
  | mlDsa44 => .mlDsa44
  | mlDsa65 => .mlDsa65
  | mlDsa87 => .mlDsa87

/-- Their names. -/
def schemeWireNames : List (String × SigningSchemeWire) :=
  [("ed25519", .ed25519), ("secp256k1", .secp256k1),
    ("secp256k1_recoverable", .secp256k1Recoverable), ("ml_dsa44", .mlDsa44),
    ("ml_dsa65", .mlDsa65), ("ml_dsa87", .mlDsa87)]

/-- The client's identities. -/
inductive ApproverIdentityWire where
  | chain (chainId : UInt64) (addressHex publicKeyHex : String) (scheme : SigningSchemeWire)
  | external (id publicKeyHex : String) (scheme : SigningSchemeWire)
  | hardware (handle publicKeyHex : String) (scheme : SigningSchemeWire)
  | nestedWallet (walletId publicKeyHex : String) (scheme : SigningSchemeWire)
  deriving DecidableEq

/-- The client's request. -/
structure ApprovalRequestWire where
  requestId : String
  messageHash : String
  approverSet : List ApproverIdentityWire
  threshold : UInt8
  deriving DecidableEq

namespace ApproverIdentityWire

/-- Reads an identity. -/
def deserialize (v : Json) : Except DeError ApproverIdentityWire := do
  let (kind, content) ← readTag "kind" "internally tagged enum ApproverIdentityWire" v
  match kind with
  | "chain" =>
    let fields ← structFields "struct variant ApproverIdentityWire::Chain"
      ["chain_id", "address_hex", "public_key_hex", "scheme"] content
    let chainId ← readField "chain_id" readU64 fields
    let addressHex ← readField "address_hex" readString fields
    let publicKeyHex ← readField "public_key_hex" readString fields
    let scheme ← readField "scheme" (readVariant schemeWireNames) fields
    .ok (chain chainId addressHex publicKeyHex scheme)
  | "external" =>
    let fields ← structFields "struct variant ApproverIdentityWire::External"
      ["id", "public_key_hex", "scheme"] content
    let id ← readField "id" readString fields
    let publicKeyHex ← readField "public_key_hex" readString fields
    let scheme ← readField "scheme" (readVariant schemeWireNames) fields
    .ok (external id publicKeyHex scheme)
  | "hardware" =>
    let fields ← structFields "struct variant ApproverIdentityWire::Hardware"
      ["handle", "public_key_hex", "scheme"] content
    let handle ← readField "handle" readString fields
    let publicKeyHex ← readField "public_key_hex" readString fields
    let scheme ← readField "scheme" (readVariant schemeWireNames) fields
    .ok (hardware handle publicKeyHex scheme)
  | "nested_wallet" =>
    let fields ← structFields "struct variant ApproverIdentityWire::NestedWallet"
      ["wallet_id", "public_key_hex", "scheme"] content
    let walletId ← readField "wallet_id" readString fields
    let publicKeyHex ← readField "public_key_hex" readString fields
    let scheme ← readField "scheme" (readVariant schemeWireNames) fields
    .ok (nestedWallet walletId publicKeyHex scheme)
  | name => .error (.unknownVariant name)

/-- The identity is the server's. -/
def Denotes : ApproverIdentityWire → ApproverIdentity → Prop
  | chain chainId addressHex publicKeyHex scheme, .chain chainId' address publicKey scheme' =>
    chainId = chainId' ∧ hexDecode addressHex = some address ∧
      hexDecode publicKeyHex = some publicKey ∧ scheme.toScheme = scheme'
  | external id publicKeyHex scheme, .external id' publicKey scheme' =>
    id = id' ∧ hexDecode publicKeyHex = some publicKey ∧ scheme.toScheme = scheme'
  | hardware handle publicKeyHex scheme, .hardware h =>
    handle = h.handle ∧ hexDecode publicKeyHex = some h.publicKey ∧ scheme.toScheme = h.scheme
  | nestedWallet walletId publicKeyHex scheme, .nestedWallet walletId' publicKey scheme' =>
    walletId = walletId'.toString ∧ hexDecode publicKeyHex = some publicKey ∧
      scheme.toScheme = scheme'
  | _, _ => False

end ApproverIdentityWire

namespace ApprovalRequestWire

/-- Reads a request. -/
def deserialize (v : Json) : Except DeError ApprovalRequestWire := do
  let fields ← structFields "struct ApprovalRequestWire"
    ["request_id", "message_hash", "approver_set", "threshold"] v
  let requestId ← readField "request_id" readString fields
  let messageHash ← readField "message_hash" readString fields
  let approverSet ← readField "approver_set" (readSeq ApproverIdentityWire.deserialize) fields
  let threshold ← readField "threshold" readU8 fields
  .ok { requestId, messageHash, approverSet, threshold }

/-- The request is the server's. -/
structure Denotes (wire : ApprovalRequestWire) (req : ApprovalRequest) : Prop where
  requestId : wire.requestId = req.requestId.toString
  messageHash : hexDecode wire.messageHash = some req.messageHash.bytes
  approverSet : List.Forall₂ ApproverIdentityWire.Denotes wire.approverSet req.approverSet
  threshold : wire.threshold = req.threshold

end ApprovalRequestWire

/-! ## The client's handler -/

/-- Why a webhook is turned away. -/
inductive WebhookError where
  | missingSignature
  | malformedSignature (what : String)
  | badSignature
  | badBody (e : DeError)
  deriving DecidableEq

/-- What `HeaderValue::to_str` accepts. -/
def visibleAscii (c : Char) : Bool := (32 ≤ c.toNat && c.toNat < 127) || c = '\t'

/-- The check of the header. -/
def verifyHmac (d : WebhookDeps) (header : Option String) (secret body : Bytes) :
    Except WebhookError Unit :=
  match header with
  | none => .error .missingSignature
  | some text =>
    if !text.toList.all visibleAscii then
      .error (.malformedSignature "failed to convert header to a str")
    else
      match hexDecode text with
      | none => .error (.malformedSignature "hex")
      | some provided =>
        if provided.length ≠ 32 then
          .error (.malformedSignature ("expected 32 raw bytes, got " ++ provided.length.repr))
        else if (d.hmacSha256 secret body).bytes = provided then .ok ()
        else .error .badSignature

/-- `handle_webhook`, up to the processor. -/
def handleWebhook (d : WebhookDeps) (secret : Bytes) (header : Option String) (body : Bytes) :
    Except WebhookError ApprovalRequestWire := do
  verifyHmac d header secret body
  let tree ← (d.json.decode body).mapError fun e => .badBody (.custom e)
  (ApprovalRequestWire.deserialize tree).mapError .badBody

/-! ## What arrives -/

theorem visibleAscii_hexDigit : ∀ n < 16, visibleAscii (hexDigit n) = true := by decide

theorem all_visibleAscii_hexChars (b : Bytes) : (hexChars b).all visibleAscii = true := by
  induction b with
  | nil => rfl
  | cons x b ih =>
    have hx : x.toNat < 256 := x.toNat_lt
    rw [hexChars, List.all_cons, List.all_cons, ih, visibleAscii_hexDigit _ (by omega),
      visibleAscii_hexDigit _ (by omega)]
    rfl

theorem verifyHmac_hmacSha256Hex (d : WebhookDeps) (secret body : Bytes) :
    verifyHmac d (some (hmacSha256Hex d secret body)) secret body = .ok () := by
  have hvisible : (hmacSha256Hex d secret body).toList.all visibleAscii = true := by
    rw [hmacSha256Hex, hexEncode, String.toList_ofList]
    exact all_visibleAscii_hexChars _
  simp only [verifyHmac, hvisible, Bool.not_true, Bool.false_eq_true, if_false]
  simp [hmacSha256Hex, (d.hmacSha256 secret body).length_bytes]

/-- The field of the client's identity that the server's lacks. -/
def missingHexField : ApproverIdentity → String
  | .chain .. => "address_hex"
  | .external .. | .hardware _ | .nestedWallet .. => "public_key_hex"

/-- No identity of the server is one for the client. -/
theorem deserialize_serialize_identity (x : ApproverIdentity) :
    ApproverIdentityWire.deserialize x.serialize = .error (.missingField (missingHexField x)) := by
  cases x with
  | chain | external | hardware | nestedWallet =>
    simp [ApproverIdentityWire.deserialize, ApproverIdentity.serialize, readTag, readField,
      structFields, bind, Except.bind, missingHexField, serializeId]

theorem deserialize_serialize_request (req : ApprovalRequest) :
    ApprovalRequestWire.deserialize req.serialize =
      match req.approverSet with
      | [] => .ok ⟨req.requestId.toString, hexEncode req.messageHash.bytes, [], req.threshold⟩
      | identity :: _ => .error (.missingField (missingHexField identity)) := by
  cases hreq : req.approverSet with
  | nil =>
    have hset : readSeq ApproverIdentityWire.deserialize (.array []) = .ok [] := rfl
    simp [ApprovalRequestWire.deserialize, ApprovalRequest.serialize, structFields, readField, bind,
      Except.bind, serializeId, hreq, hset]
  | cons identity rest =>
    have hset : readSeq ApproverIdentityWire.deserialize
        (.array (identity.serialize :: rest.map ApproverIdentity.serialize)) =
          .error (.missingField (missingHexField identity)) := by
      rw [readSeq, List.mapM_cons, deserialize_serialize_identity]
      rfl
    simp [ApprovalRequestWire.deserialize, ApprovalRequest.serialize, structFields, readField, bind,
      Except.bind, serializeId, hreq, hset]

/-- **With the same secret on both sides, the client reads a posted request as the one that was sent
exactly if it has no approvers. Otherwise it rejects the body, since the first approver lacks a
field.** -/
theorem webhook_parsed_iff {d : WebhookDeps} (hd : d.RoundTrips) (config : WebhookApproverConfig)
    (req : ApprovalRequest) :
    ∃ post, notifyPost d config req = .ok post ∧
      ((∃ wire, handleWebhook d config.hmacSecret (some post.signature) post.body = .ok wire ∧
        wire.Denotes req) ↔ req.approverSet = []) ∧
      ∀ identity rest, req.approverSet = identity :: rest →
        handleWebhook d config.hmacSecret (some post.signature) post.body =
          .error (.badBody (.missingField (missingHexField identity))) := by
  obtain ⟨body, hencode, hdecode⟩ := hd req
  have hpost : notifyPost d config req = .ok ⟨hmacSha256Hex d config.hmacSecret body, body⟩ := by
    rw [notifyPost, hencode]
    rfl
  have hhandle : handleWebhook d config.hmacSecret (some (hmacSha256Hex d config.hmacSecret body))
      body = (ApprovalRequestWire.deserialize req.serialize).mapError .badBody := by
    rw [handleWebhook, verifyHmac_hmacSha256Hex, hdecode]
    rfl
  refine ⟨_, hpost, ?_, ?_⟩
  · rw [hhandle, deserialize_serialize_request]
    cases hreq : req.approverSet with
    | nil =>
      refine iff_of_true ⟨_, rfl, rfl, hexDecode_hexEncode _, ?_, rfl⟩ rfl
      rw [hreq]
      exact .nil
    | cons identity rest => simp [Except.mapError]
  · intro identity rest hreq
    rw [hhandle, deserialize_serialize_request, hreq]
    rfl

/-! ## On the wire -/

namespace SampleWebhook

/-- A secret. -/
def config : WebhookApproverConfig := ⟨[1, 2, 3]⟩

def askNobody : ApprovalRequest := ⟨⟨1⟩, .ofNat 32 9, [], 1⟩

/-- A request that asks one approver. -/
def askExternal : ApprovalRequest := { askNobody with
  approverSet := [.external "ops" [1, 2, 3] .ed25519] }

def text (approverSet : String) : Bytes :=
  utf8 ("\x7b\"request_id\":\"00000000000000000000000001\",\"message_hash\":" ++
    "\"0000000000000000000000000000000000000000000000000000000000000009\"," ++
    "\"approver_set\":[" ++ approverSet ++ "],\"threshold\":1\x7d")

/-- The first one's. -/
def textNobody : Bytes := text ""

/-- The second one's. -/
def textExternal : Bytes :=
  text "\x7b\"kind\":\"external\",\"id\":\"ops\",\"public_key\":[1,2,3],\"scheme\":\"ed25519\"\x7d"

def hmacSha256 (secret body : Bytes) : FixedBytes 32 :=
  if (secret, body) = (config.hmacSecret, textNobody) then
    .ofNat 32 0x984a5c0e016d848ba672993598752a6d7e1080bfb93fb3c2ff2fec6c98443a9c
  else if (secret, body) = (config.hmacSecret, textExternal) then
    .ofNat 32 0xcf59545c0476d0ac631c9dc9a5770e13d2c6da5e527851ade7aa0c7b07585ad9
  else .ofNat 32 0

/-- A scheme as a number. -/
def schemeNumber : SigningScheme → Nat
  | .ed25519 => 0
  | .secp256k1 => 1
  | .secp256k1Recoverable => 2
  | .mlDsa44 => 3
  | .mlDsa65 => 4
  | .mlDsa87 => 5

/-- And back. -/
def schemeOfNumber : Nat → SigningScheme
  | 0 => .ed25519
  | 1 => .secp256k1
  | 2 => .secp256k1Recoverable
  | 3 => .mlDsa44
  | 4 => .mlDsa65
  | _ => .mlDsa87

/-- An identity as numbers: its variant, a number, two texts, its key and its scheme. -/
def identityNumbers : ApproverIdentity → Nat × Nat × List Nat × List Nat × Nat
  | .chain chainId address publicKey scheme =>
    (0, chainId.toNat, address.map UInt8.toNat, publicKey.map UInt8.toNat, schemeNumber scheme)
  | .external id publicKey scheme =>
    (1, 0, id.toList.map Char.toNat, publicKey.map UInt8.toNat, schemeNumber scheme)
  | .hardware h =>
    (2, 0, h.handle.toList.map Char.toNat, h.publicKey.map UInt8.toNat, schemeNumber h.scheme)
  | .nestedWallet walletId publicKey scheme =>
    (3, walletId.ulid.toNat, [], publicKey.map UInt8.toNat, schemeNumber scheme)

/-- An identity from numbers. -/
def identityOfNumbers : Nat × Nat × List Nat × List Nat × Nat → ApproverIdentity
  | (0, n, name, key, scheme) =>
    .chain (UInt64.ofNat n) (name.map UInt8.ofNat) (key.map UInt8.ofNat) (schemeOfNumber scheme)
  | (1, _, name, key, scheme) =>
    .external (String.ofList (name.map Char.ofNat)) (key.map UInt8.ofNat) (schemeOfNumber scheme)
  | (2, _, name, key, scheme) =>
    .hardware ⟨String.ofList (name.map Char.ofNat), key.map UInt8.ofNat, schemeOfNumber scheme⟩
  | (_, n, _, key, scheme) =>
    .nestedWallet ⟨BitVec.ofNat 128 n⟩ (key.map UInt8.ofNat) (schemeOfNumber scheme)

theorem schemeOfNumber_schemeNumber (s : SigningScheme) : schemeOfNumber (schemeNumber s) = s := by
  cases s <;> rfl

theorem identityOfNumbers_identityNumbers (x : ApproverIdentity) :
    identityOfNumbers (identityNumbers x) = x := by
  cases x <;> simp [identityOfNumbers, identityNumbers, schemeOfNumber_schemeNumber,
    Function.comp_def]

/-- A request as numbers. -/
def requestNumbers (req : ApprovalRequest) :
    Nat × List Nat × List (Nat × Nat × List Nat × List Nat × Nat) × Nat :=
  (req.requestId.ulid.toNat, req.messageHash.bytes.map UInt8.toNat,
    req.approverSet.map identityNumbers, req.threshold.toNat)

/-- And back. -/
def requestOfNumbers :
    Nat × List Nat × List (Nat × Nat × List Nat × List Nat × Nat) × Nat → Option ApprovalRequest
  | (requestId, messageHash, approverSet, threshold) =>
    (FixedBytes.ofBytes? 32 (messageHash.map UInt8.ofNat)).map fun messageHash =>
      ⟨⟨BitVec.ofNat 128 requestId⟩, messageHash, approverSet.map identityOfNumbers,
        UInt8.ofNat threshold⟩

theorem requestOfNumbers_requestNumbers (req : ApprovalRequest) :
    requestOfNumbers (requestNumbers req) = some req := by
  simp [requestOfNumbers, requestNumbers, Function.comp_def, identityOfNumbers_identityNumbers]

/-- The text of one request is known. -/
def requests (req : ApprovalRequest) (bytes : Bytes) : Codec ApprovalRequest :=
  (Codec.tally requestNumbers requestOfNumbers).known req bytes

def json (req : ApprovalRequest) (bytes : Bytes) : Codec Json where
  encode v :=
    match ApprovalRequest.deserialize ulidReference v with
    | .ok r => (requests req bytes).encode r
    | .error _ => .error "not a request"
  decode b := ((requests req bytes).decode b).map ApprovalRequest.serialize

def deps (req : ApprovalRequest) (bytes : Bytes) : WebhookDeps := ⟨hmacSha256, json req bytes⟩

theorem deps_roundTrips {req : ApprovalRequest} {bytes : Bytes} (h : ∃ x ∈ bytes, x ≠ 0) :
    (deps req bytes).RoundTrips := by
  intro r
  obtain ⟨body, hencode, hdecode⟩ :=
    (Codec.tally_roundTrips requestOfNumbers_requestNumbers).known (Codec.encode_tally_ne h)
      r
  refine ⟨body, ?_, congrArg (Except.map ApprovalRequest.serialize) hdecode⟩
  simp only [deps, json, ApprovalRequest.deserialize_serialize ulidReference_roundTrips]
  exact hencode

end SampleWebhook

open SampleWebhook in
/-- A request without approvers arrives. -/
theorem empty_request_parsed :
    ∃ post, notifyPost (deps askNobody textNobody) config askNobody = .ok post ∧
      ∃ wire, handleWebhook (deps askNobody textNobody) config.hmacSecret (some post.signature)
        post.body = .ok wire ∧ wire.Denotes askNobody := by
  have hd : (deps askNobody textNobody).RoundTrips := deps_roundTrips (by decide +kernel)
  obtain ⟨post, hpost, hiff, -⟩ := webhook_parsed_iff hd config askNobody
  exact ⟨post, hpost, hiff.2 rfl⟩

open SampleWebhook in
/-- A request to one external approver is posted, and the client rejects its body. -/
theorem external_approver_not_parsed :
    ∃ post, notifyPost (deps askExternal textExternal) config askExternal = .ok post ∧
      post.body = textExternal ∧
      handleWebhook (deps askExternal textExternal) config.hmacSecret (some post.signature)
        post.body = .error (.badBody (.missingField "public_key_hex")) := by
  refine ⟨⟨"cf59545c0476d0ac631c9dc9a5770e13d2c6da5e527851ade7aa0c7b07585ad9", textExternal⟩, ?_⟩
  decide +kernel

end QfcServerWallet.Quorum
