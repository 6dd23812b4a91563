import QfcServerWallet.Stores.LocalFs
import QfcServerWallet.Stores.S3Kms

/-!
# The share stores are interchangeable

`qfc-sss`: `MockShareStore`, `LocalFsShareStore` and `S3KmsShareStore` behind the trait
`ShareStore`, started empty and as long as no I/O fails. `Sample` has dependencies that satisfy what
is documented of the cipher, of the JSON codecs and of KMS, and that know the JSON text, the
encryption and the envelope of one share.

Result: **`shareStores_interchangeable`**.
-/

namespace QfcServerWallet.Stores

open Lib Service

/-! ## Dependencies that keep their promises -/

namespace Sample

open Enclave.Sample (printBytes)

/-- A wallet. -/
def walletId : WalletId := ⟨2⟩

/-- A share of it. -/
def share : StoredShare := ⟨⟨walletId, 1⟩, 1500, 1, ⟨2, 3⟩, [1, 2, 3]⟩

/-- Its JSON text. -/
def shareText : Bytes :=
  utf8 ("\x7b\"share_id\":\x7b\"wallet_id\":\"00000000000000000000000002\",\"index\":1\x7d," ++
    "\"created_at_unix_ms\":1500,\"share\":\x7b\"index\":1," ++
    "\"params\":\x7b\"threshold\":2,\"total\":3\x7d,\"blob\":[1,2,3]\x7d\x7d")

def key : FixedBytes 32 := .ofNat 32 7

/-- The nonce. -/
def nonce : FixedBytes 24 := .ofNat 24 5

/-- `shareText`, encrypted by `XChaCha20Poly1305`. -/
def ciphertext : Bytes :=
  toBe 40 0xe8b67137bc5f4d177c3b4eff111f52cbd39660ca1b8331ba8cbf3c36d766abbe9f80e8fa23b4644a
    ++ toBe 40 0x48e10f10c8afc96e21738b59bb6846370737e6f8b44484b0217ea59e5e4ed1c489c3e1bae6a963b1
    ++ toBe 40 0x3c28a4d4e8a1320b06c99d8a838aedcecf4be25c3b974805245e06a15a3c0cfa0b7db0c1301ef2d8
    ++ toBe 40 0xa543d58cffdf3a9d37fae092ff0f076c6f76d6a723108382174069d7e34b0bcc8d6031429efdd473
    ++ toBe 17 0x86e4eeef15f2ab6cf11e6ec95d2b80db73

/-- Key management as a cloud service does it: the wrapped key carries the key. -/
def kms : KmsClient where
  State := Unit
  Draw := FixedBytes 32
  generateDataKey _ drawn := some (⟨drawn, 1 :: drawn.bytes⟩, ())
  decryptDataKey _ wrapped attestation :=
    match attestation, wrapped with
    | _ :: _, 1 :: dek => .ok dek
    | _, _ => .error (.crypto "KMS decrypt refused")

/-- A store on S3. -/
def onS3 : S3KmsShareStore := ⟨"qfc".toList, [97, 116, 116], "pcr0"⟩

/-- A store on disk. -/
def onDisk : LocalFsShareStore := ⟨["/".toList, "shares".toList], key, by decide⟩

/-- The envelope of the share. -/
def envelope : S3Envelope := ⟨1 :: key.bytes, nonce, ciphertext, "pcr0"⟩

/-- Its JSON text. -/
def envelopeText : Bytes :=
  utf8 "\x7b\"wrapped_dek\":" ++ printBytes (1 :: key.bytes) ++ utf8 ",\"nonce\":" ++
    printBytes nonce.bytes ++ utf8 ",\"ciphertext\":" ++ printBytes ciphertext ++
    utf8 ",\"pcr_label\":\"pcr0\"\x7d"

/-- A cipher that knows the ciphertext. -/
def aead : Aead := Aead.tagged.known key nonce shareText ciphertext

/-- A share as numbers. -/
def shareNumbers (s : StoredShare) : List Nat :=
  s.shareId.walletId.ulid.toNat :: s.shareId.index.toNat :: s.createdAtUnixMs.toUInt64.toNat ::
    s.share.index.toNat :: s.share.params.threshold.toNat :: s.share.params.total.toNat ::
    s.share.blob.map UInt8.toNat

/-- And back. -/
def shareOfNumbers : List Nat → Option StoredShare
  | walletId :: index :: createdAt :: index' :: threshold :: total :: blob =>
    some ⟨⟨⟨BitVec.ofNat 128 walletId⟩, UInt8.ofNat index⟩, (UInt64.ofNat createdAt).toInt64,
      UInt8.ofNat index', ⟨UInt8.ofNat threshold, UInt8.ofNat total⟩, blob.map UInt8.ofNat⟩
  | _ => none

theorem shareOfNumbers_shareNumbers (s : StoredShare) :
    shareOfNumbers (shareNumbers s) = some s := by
  simp [shareOfNumbers, shareNumbers, Function.comp_def]

def shares : Codec StoredShare := (Codec.tally shareNumbers shareOfNumbers).known share shareText

/-- An envelope as lists of numbers. -/
def envelopeNumbers (e : S3Envelope) : List Nat × List Nat × List Nat × List Nat :=
  (e.wrappedDek.map UInt8.toNat, e.nonce.bytes.map UInt8.toNat, e.ciphertext.map UInt8.toNat,
    e.pcrLabel.toList.map Char.toNat)

/-- And back. -/
def envelopeOfNumbers : List Nat × List Nat × List Nat × List Nat → Option S3Envelope
  | (wrapped, nonce, ciphertext, label) =>
    (FixedBytes.ofBytes? 24 (nonce.map UInt8.ofNat)).map fun nonce =>
      ⟨wrapped.map UInt8.ofNat, nonce, ciphertext.map UInt8.ofNat,
        String.ofList (label.map Char.ofNat)⟩

theorem envelopeOfNumbers_envelopeNumbers (e : S3Envelope) :
    envelopeOfNumbers (envelopeNumbers e) = some e := by
  simp [envelopeOfNumbers, envelopeNumbers, Function.comp_def]

/-- A codec that knows the envelope's text. -/
def envelopes : Codec S3Envelope :=
  (Codec.tally envelopeNumbers envelopeOfNumbers).known envelope envelopeText

theorem aead_inverts : aead.Inverts :=
  Aead.tagged_inverts.known (Aead.encrypt_tagged_ne (by decide +kernel))

theorem shares_roundTrip : shares.RoundTrips :=
  (Codec.tally_roundTrips shareOfNumbers_shareNumbers).known
    (Codec.encode_tally_ne (by decide +kernel))

theorem envelopes_roundTrip : envelopes.RoundTrips :=
  (Codec.tally_roundTrips envelopeOfNumbers_envelopeNumbers).known
    (Codec.encode_tally_ne (by decide +kernel))

theorem kms_returnsKeys : kms.ReturnsKeys onS3.attestation where
  available _ := ⟨key, _, (), rfl⟩
  returns h := by
    cases h
    rfl
  keeps _ hdecrypt := hdecrypt

/-- Some calls. -/
def calls : List Call :=
  [.put share, .get ⟨walletId, 1⟩, .get ⟨walletId, 2⟩, .list walletId, .delete ⟨walletId, 1⟩,
    .list walletId]

/-- What each of the three answers. -/
def replies : List (Reply ErrorKind) :=
  [.done (.ok ()), .share (.ok share), .share (.error .notFound), .ids (.ok [⟨walletId, 1⟩]),
    .done (.ok ()), .ids (.ok [])]

theorem replay_calls : replay callMap .empty calls = replies := by
  decide +kernel

/-- There is an empty store, and from every empty store the calls return, with these replies. -/
def RepliesFresh (S : ShareStore) : Prop :=
  (∃ s, S.Fresh s) ∧ ∀ s, S.Fresh s → (∃ os s', Session S.quiet S.call s calls os s') ∧
    ∀ os s', Session S.quiet S.call s calls os s' → os.map (Reply.mapError errorKind) = replies

theorem RepliesFresh.of_behaves {S : ShareStore} (hfresh : ∃ s, S.Fresh s) (h : S.Behaves) :
    RepliesFresh S := by
  refine ⟨hfresh, fun s hs => ?_⟩
  obtain ⟨hreturns, hreplies⟩ := h s hs calls
  exact ⟨hreturns, fun os s' hsession => (hreplies os s' hsession).trans replay_calls⟩

end Sample

/-! ## The replies are those of a map -/

/-- **Whatever is put, read, deleted and listed, the three backends reply as one map does, which
lists the live indices in strictly ascending order.** -/
theorem shareStores_interchangeable {aead : Aead} {shares : Codec StoredShare}
    {envelopes : Codec S3Envelope} {kms : KmsClient} (onDisk : LocalFsShareStore)
    {onS3 : S3KmsShareStore} (haead : aead.Inverts) (hshares : shares.RoundTrips)
    (henvelopes : envelopes.RoundTrips) (hkms : kms.ReturnsKeys onS3.attestation) :
    mockStore.Behaves ∧ (localFsStore ⟨aead, shares⟩ onDisk).Behaves ∧
      (s3KmsStore kms ⟨aead, shares, envelopes⟩ onS3).Behaves ∧
      ∀ (m : ShareMap) (walletId : WalletId),
        (m.list walletId).Pairwise (fun a b => a.index < b.index) ∧
        ∀ id, id ∈ m.list walletId ↔ id.walletId = walletId ∧ (m id).isSome :=
  ⟨mockStore_refines.behaves, (localFsStore_refines haead hshares onDisk).behaves,
    (s3KmsStore_refines haead hshares henvelopes hkms).behaves,
    fun m walletId => ⟨pairwise_list m walletId, fun _ => ShareMap.mem_list⟩⟩

open Sample in
/-- From an empty store, a share is put, read, listed and deleted. -/
theorem backends_reply : RepliesFresh mockStore ∧
    RepliesFresh (localFsStore ⟨aead, shares⟩ onDisk) ∧
    RepliesFresh (s3KmsStore kms ⟨aead, shares, envelopes⟩ onS3) := by
  obtain ⟨hmock, hdisk, hs3, -⟩ := shareStores_interchangeable onDisk aead_inverts
    shares_roundTrip envelopes_roundTrip kms_returnsKeys
  refine ⟨.of_behaves ?_ hmock, .of_behaves ?_ hdisk, .of_behaves ?_ hs3⟩
  · exact ⟨(∅ : MockShareStore.State), rfl⟩
  · exact ⟨.empty, LocalFsShareStore.fresh_empty _⟩
  · exact ⟨⟨∅, ()⟩, fun key hkey => absurd hkey List.not_mem_nil⟩

end QfcServerWallet.Stores
