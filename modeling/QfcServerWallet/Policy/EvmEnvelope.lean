import QfcServerWallet.Policy.Evm

/-!
# Envelopes of EVM transactions

The transactions a wallet can be asked to sign, in the forms in which they are written down, and
what `decode_evm_tx` makes of each form.

* A transaction is legacy or typed (EIP-2930, EIP-1559, EIP-4844). Its *signed* form ends in the
  three items of the signature; the *unsigned* form is the one that is hashed for signing. An
  unsigned transaction leaves the three items out, or has `chain_id, 0, 0` in their place if it is
  an EIP-155 legacy one.
* Transactions of other types (`OtherTx`; EIP-7702 has type 4) are a type byte and a payload that
  the decoder does not look at.
* Chain ids are natural numbers here. The decoder reads 64 bits.

Results, for a decoder of canonical RLP: `decodeLegacy_iff`, `decodeEip2930_iff`,
`decodeEip1559_iff`, `decodeEip4844_iff`, `WireTx.decode_of_readable` and
`WireTx.readable_of_decode`.
-/

namespace QfcServerWallet.Policy.Evm

open Lib Rlp

/-! ## Lists of encoded items -/

/-- A canonical encoding of any length. -/
def Encoded (i : Bytes) : Prop := ∃ k p, i = encode k p

@[simp] theorem encoded_encode (k : Kind) (p : Bytes) : Encoded (encode k p) := ⟨k, p, rfl⟩

@[simp] theorem encoded_uint (n : Nat) : Encoded (encodeUint n) := ⟨_, _, rfl⟩

@[simp] theorem encoded_address (a : Option Address) : Encoded (encodeAddress a) := by
  cases a with
  | none => exact ⟨_, _, rfl⟩
  | some a => exact ⟨_, _, rfl⟩

@[simp] theorem encoded_hashList (hs : List Hash) : Encoded (encodeHashList hs) := ⟨_, _, rfl⟩

@[simp] theorem encoded_accessList (l : List AccessListItem) : Encoded (encodeAccessList l) :=
  ⟨_, _, rfl⟩

/-- RLP can represent a list of these items. -/
def Fits (items : List Bytes) : Prop := items.flatten.length < 2 ^ 64

instance (items : List Bytes) : Decidable (Fits items) :=
  inferInstanceAs (Decidable (items.flatten.length < 2 ^ 64))

variable {D : Rlp.Decoder} {xs ys : List Bytes} {raw : Bytes}

theorem Fits.isItem (h : Fits xs) (hxs : ∀ i ∈ xs, Encoded i) : ∀ i ∈ xs, IsItem i := by
  intro i hi
  obtain ⟨k, p, rfl⟩ := hxs i hi
  exact isItem_of_mem_flatten hi h

theorem Fits.payload_lt (k : Kind) {p : Bytes} (h : Fits xs) (hi : encode k p ∈ xs) :
    p.length < 2 ^ 64 := by
  have hle := (List.sublist_flatten_of_mem hi).length_le
  have := length_le_encode k p
  unfold Fits at h
  omega

theorem items_eq_map_getD {n : Nat} (h : xs.length = n) :
    xs = (List.range n).map fun i => xs.getD i [] := by
  apply List.ext_getElem
  · simp [h]
  · intro i hi _
    simp [List.getElem?_eq_getElem hi]

/-! ## The items of each signed envelope -/

/-- Fields of a legacy transaction. -/
structure LegacyTx where
  nonce : UInt64
  gasPrice : U256
  gasLimit : UInt64
  toAddr : Option Address
  value : U256
  data : Bytes

/-- The items before the signature. -/
def LegacyTx.items (t : LegacyTx) : List Bytes :=
  [encodeUint t.nonce.toNat, encodeUint t.gasPrice.toNat, encodeUint t.gasLimit.toNat,
    encodeAddress t.toAddr, encodeUint t.value.toNat, encode .string t.data]

/-- Fields of a typed transaction. -/
inductive TypedTx where
  | eip2930 (chainId : Nat) (nonce : UInt64) (gasPrice : U256) (gasLimit : UInt64)
      (toAddr : Option Address) (value : U256) (data : Bytes) (accessList : List AccessListItem)
  | eip1559 (chainId : Nat) (nonce : UInt64) (maxPriorityFeePerGas maxFeePerGas : U256)
      (gasLimit : UInt64) (toAddr : Option Address) (value : U256) (data : Bytes)
      (accessList : List AccessListItem)
  | eip4844 (chainId : Nat) (nonce : UInt64) (maxPriorityFeePerGas maxFeePerGas : U256)
      (gasLimit : UInt64) (toAddr : Option Address) (value : U256) (data : Bytes)
      (accessList : List AccessListItem) (maxFeePerBlobGas : U256)
      (blobVersionedHashes : List Hash)

namespace TypedTx

/-- The EIP-2718 type. -/
def typeByte : TypedTx → UInt8
  | eip2930 .. => 1
  | eip1559 .. => 2
  | eip4844 .. => 3

/-- The chain the transaction is for. -/
def chainId : TypedTx → Nat
  | eip2930 c .. => c
  | eip1559 c .. => c
  | eip4844 c .. => c

/-- The amount transferred. -/
def value : TypedTx → U256
  | eip2930 _ _ _ _ _ v _ _ => v
  | eip1559 _ _ _ _ _ _ v _ _ => v
  | eip4844 _ _ _ _ _ _ v _ _ _ _ => v

/-- The items before the signature. -/
def items : TypedTx → List Bytes
  | eip2930 chainId nonce gasPrice gasLimit toAddr value data accessList =>
    [encodeUint chainId, encodeUint nonce.toNat, encodeUint gasPrice.toNat,
      encodeUint gasLimit.toNat, encodeAddress toAddr, encodeUint value.toNat,
      encode .string data, encodeAccessList accessList]
  | eip1559 chainId nonce maxPriorityFeePerGas maxFeePerGas gasLimit toAddr value data
      accessList =>
    [encodeUint chainId, encodeUint nonce.toNat, encodeUint maxPriorityFeePerGas.toNat,
      encodeUint maxFeePerGas.toNat, encodeUint gasLimit.toNat, encodeAddress toAddr,
      encodeUint value.toNat, encode .string data, encodeAccessList accessList]
  | eip4844 chainId nonce maxPriorityFeePerGas maxFeePerGas gasLimit toAddr value data accessList
      maxFeePerBlobGas blobVersionedHashes =>
    [encodeUint chainId, encodeUint nonce.toNat, encodeUint maxPriorityFeePerGas.toNat,
      encodeUint maxFeePerGas.toNat, encodeUint gasLimit.toNat, encodeAddress toAddr,
      encodeUint value.toNat, encode .string data, encodeAccessList accessList,
      encodeUint maxFeePerBlobGas.toNat, encodeHashList blobVersionedHashes]

/-- The view the decoder returns. -/
def decoded : TypedTx → DecodedEvmTx
  | eip2930 chainId nonce gasPrice gasLimit toAddr value data accessList =>
    { txType := .eip2930
      chainId := some (UInt64.ofNat chainId)
      nonce, toAddr, value, gasLimit
      maxFeePerGas := none
      maxPriorityFeePerGas := none
      gasPrice := some gasPrice
      data
      methodSelector := firstFour data
      accessList
      blobVersionedHashes := [] }
  | eip1559 chainId nonce maxPriorityFeePerGas maxFeePerGas gasLimit toAddr value data
      accessList =>
    { txType := .eip1559
      chainId := some (UInt64.ofNat chainId)
      nonce, toAddr, value, gasLimit
      maxFeePerGas := some maxFeePerGas
      maxPriorityFeePerGas := some maxPriorityFeePerGas
      gasPrice := none
      data
      methodSelector := firstFour data
      accessList
      blobVersionedHashes := [] }
  | eip4844 chainId nonce maxPriorityFeePerGas maxFeePerGas gasLimit toAddr value data accessList
      _ blobVersionedHashes =>
    { txType := .eip4844
      chainId := some (UInt64.ofNat chainId)
      nonce, toAddr, value, gasLimit
      maxFeePerGas := some maxFeePerGas
      maxPriorityFeePerGas := some maxPriorityFeePerGas
      gasPrice := none
      data
      methodSelector := firstFour data
      accessList
      blobVersionedHashes }

end TypedTx

/-- The view of a legacy transaction with the number `v` in its signature. -/
def LegacyTx.decoded (t : LegacyTx) (v : UInt64) : DecodedEvmTx where
  txType := .legacy
  chainId := if v ≥ 35 then some ((v - 35) / 2) else none
  nonce := t.nonce
  toAddr := t.toAddr
  value := t.value
  gasLimit := t.gasLimit
  maxFeePerGas := none
  maxPriorityFeePerGas := none
  gasPrice := some t.gasPrice
  data := t.data
  methodSelector := firstFour t.data
  accessList := []
  blobVersionedHashes := []

/-- The three items of a signature. -/
def signatureItems (v : Nat) (r s : Bytes) : List Bytes :=
  [encodeUint v, encode .string r, encode .string s]

/-- The bytes are the signed form of a typed transaction, and `tx` is the view of it. -/
def SignedReading (raw : Bytes) (tx : DecodedEvmTx) (t : TypedTx) (y : UInt64) (r s : Bytes) :
    Prop :=
  t.chainId < 2 ^ 64 ∧ Fits (t.items ++ signatureItems y.toNat r s) ∧
    raw = encode .list (t.items ++ signatureItems y.toNat r s).flatten ∧ tx = t.decoded

section Canonical

variable (hD : D.Canonical)
include hD

theorem items_unique (hfit : Fits xs) (hxs : ∀ i ∈ xs, Encoded i)
    (hfit' : Fits ys) (hys : ∀ i ∈ ys, Encoded i)
    (h : encode .list xs.flatten = encode .list ys.flatten) : xs = ys := by
  have h1 := (hD.raw_list_iff (encode .list xs.flatten) xs []).2
    ⟨hfit, hfit.isItem hxs, by rw [List.append_nil]⟩
  have h2 := (hD.raw_list_iff (encode .list xs.flatten) ys []).2
    ⟨hfit', hfit'.isItem hys, by rw [List.append_nil, h]⟩
  rw [h1] at h2
  simpa using h2

theorem encodeUint_inj {m n : Nat} (hm : (minBe m).length < 2 ^ 64)
    (hn : (minBe n).length < 2 ^ 64) (h : encodeUint m = encodeUint n) : m = n := by
  have h1 := (decodeBytes_iff hD).2 ⟨hm, show encodeUint m = _ from rfl⟩
  have h2 := (decodeBytes_iff hD).2 ⟨hn, show encodeUint n = _ from rfl⟩
  rw [h, h2] at h1
  rw [← ofBe_minBe m, ← ofBe_minBe n, Except.ok.inj h1]

/-! ## What each parser accepts -/

/-- The parser accepts exactly the canonical encodings of the values it returns. -/
theorem decodeLegacy_iff {tx : DecodedEvmTx} :
    decodeLegacy D raw = .ok tx ↔
      ∃ (t : LegacyTx) (v : UInt64) (r s : Bytes),
        Fits (t.items ++ signatureItems v.toNat r s) ∧
        raw = encode .list (t.items ++ signatureItems v.toNat r s).flatten ∧
        tx = t.decoded v := by
  simp only [decodeLegacy, bind_eq_ok, decodeList_iff hD, decodeU64_iff hD, decodeU256_iff hD,
    decodeOptionalAddress_iff hD, decodeBytes_iff hD, Except.ok.injEq]
  constructor
  · rintro ⟨items, ⟨hlen, hfit, -, rfl⟩, nonce, h0, gasPrice, h1, gasLimit, h2, toAddr, h3, value,
      h4, data, ⟨-, h5⟩, v, h6, r, ⟨-, h7⟩, s, ⟨-, h8⟩, rfl⟩
    have hitems := items_eq_map_getD hlen
    simp only [List.range_succ, List.range_zero, List.map_cons, List.map_nil,
      List.nil_append, List.cons_append, h0, h1, h2, h3, h4, h5, h6, h7, h8] at hitems
    subst hitems
    exact ⟨⟨nonce, gasPrice, gasLimit, toAddr, value, data⟩, v, r, s, hfit, rfl, rfl⟩
  · rintro ⟨t, v, r, s, hfit, rfl, rfl⟩
    refine ⟨_, ⟨rfl, hfit, hfit.isItem (by simp [LegacyTx.items, signatureItems]), rfl⟩,
      _, rfl, _, rfl, _, rfl, _, rfl, _, rfl, _, ⟨hfit.payload_lt .string ?_, rfl⟩, _, rfl,
      _, ⟨hfit.payload_lt .string ?_, rfl⟩, _, ⟨hfit.payload_lt .string ?_, rfl⟩, rfl⟩
    all_goals simp [LegacyTx.items, signatureItems]

theorem decodeEip2930_iff {tx : DecodedEvmTx} :
    decodeEip2930 D raw = .ok tx ↔
      ∃ (t : TypedTx) (y : UInt64) (r s : Bytes), t.typeByte = 1 ∧
        SignedReading raw tx t y r s := by
  simp only [decodeEip2930, bind_eq_ok, decodeList_iff hD, decodeU64_iff hD, decodeU256_iff hD,
    decodeOptionalAddress_iff hD, decodeBytes_iff hD, decodeAccessList_iff hD, Except.ok.injEq]
  constructor
  · rintro ⟨xs, ⟨hlen, hfit, -, rfl⟩, chainId, h0, nonce, h1, gasPrice, h2, gasLimit, h3,
      toAddr, h4, value, h5, data, ⟨-, h6⟩, accessList, ⟨-, h7⟩, y, h8, r, ⟨-, h9⟩, s, ⟨-, h10⟩,
      rfl⟩
    have hitems := items_eq_map_getD hlen
    simp only [List.range_succ, List.range_zero, List.map_cons, List.map_nil, List.nil_append,
      List.cons_append, h0, h1, h2, h3, h4, h5, h6, h7, h8, h9, h10] at hitems
    subst hitems
    exact ⟨.eip2930 chainId.toNat nonce gasPrice gasLimit toAddr value data accessList, y, r, s,
      rfl, chainId.toNat_lt, hfit, rfl, by simp [TypedTx.decoded]⟩
  · rintro ⟨t, y, r, s, htype, hchain, hfit, rfl, rfl⟩
    cases t with
    | eip2930 chainId =>
      have hc : (UInt64.ofNat chainId).toNat = chainId := UInt64.toNat_ofNat_of_lt' hchain
      refine ⟨_, ⟨rfl, hfit, hfit.isItem (by simp [TypedTx.items, signatureItems]), rfl⟩,
        UInt64.ofNat chainId, by rw [hc]; rfl, _, rfl, _, rfl, _, rfl, _, rfl, _, rfl,
        _, ⟨hfit.payload_lt .string ?_, rfl⟩, _, ⟨hfit.payload_lt .list ?_, rfl⟩, _, rfl,
        _, ⟨hfit.payload_lt .string ?_, rfl⟩, _, ⟨hfit.payload_lt .string ?_, rfl⟩, rfl⟩
      all_goals simp [TypedTx.items, signatureItems, encodeAccessList]
    | _ => cases htype

theorem decodeEip1559_iff {tx : DecodedEvmTx} :
    decodeEip1559 D raw = .ok tx ↔
      ∃ (t : TypedTx) (y : UInt64) (r s : Bytes), t.typeByte = 2 ∧
        SignedReading raw tx t y r s := by
  simp only [decodeEip1559, bind_eq_ok, decodeList_iff hD, decodeU64_iff hD, decodeU256_iff hD,
    decodeOptionalAddress_iff hD, decodeBytes_iff hD, decodeAccessList_iff hD, Except.ok.injEq]
  constructor
  · rintro ⟨xs, ⟨hlen, hfit, -, rfl⟩, chainId, h0, nonce, h1, maxPriorityFeePerGas, h2,
      maxFeePerGas, h3, gasLimit, h4, toAddr, h5, value, h6, data, ⟨-, h7⟩, accessList, ⟨-, h8⟩,
      y, h9, r, ⟨-, h10⟩, s, ⟨-, h11⟩, rfl⟩
    have hitems := items_eq_map_getD hlen
    simp only [List.range_succ, List.range_zero, List.map_cons, List.map_nil, List.nil_append,
      List.cons_append, h0, h1, h2, h3, h4, h5, h6, h7, h8, h9, h10, h11] at hitems
    subst hitems
    exact ⟨.eip1559 chainId.toNat nonce maxPriorityFeePerGas maxFeePerGas gasLimit toAddr value
      data accessList, y, r, s, rfl, chainId.toNat_lt, hfit, rfl, by simp [TypedTx.decoded]⟩
  · rintro ⟨t, y, r, s, htype, hchain, hfit, rfl, rfl⟩
    cases t with
    | eip1559 chainId =>
      have hc : (UInt64.ofNat chainId).toNat = chainId := UInt64.toNat_ofNat_of_lt' hchain
      refine ⟨_, ⟨rfl, hfit, hfit.isItem (by simp [TypedTx.items, signatureItems]), rfl⟩,
        UInt64.ofNat chainId, by rw [hc]; rfl, _, rfl, _, rfl, _, rfl, _, rfl, _, rfl, _, rfl,
        _, ⟨hfit.payload_lt .string ?_, rfl⟩, _, ⟨hfit.payload_lt .list ?_, rfl⟩, _, rfl,
        _, ⟨hfit.payload_lt .string ?_, rfl⟩, _, ⟨hfit.payload_lt .string ?_, rfl⟩, rfl⟩
      all_goals simp [TypedTx.items, signatureItems, encodeAccessList]
    | _ => cases htype

theorem decodeEip4844_iff {tx : DecodedEvmTx} :
    decodeEip4844 D raw = .ok tx ↔
      ∃ (t : TypedTx) (y : UInt64) (r s : Bytes), t.typeByte = 3 ∧
        SignedReading raw tx t y r s := by
  simp only [decodeEip4844, bind_eq_ok, decodeList_iff hD, decodeU64_iff hD, decodeU256_iff hD,
    decodeOptionalAddress_iff hD, decodeBytes_iff hD, decodeAccessList_iff hD,
    decodeHashList_iff hD, Except.ok.injEq]
  constructor
  · rintro ⟨xs, ⟨hlen, hfit, -, rfl⟩, chainId, h0, nonce, h1, maxPriorityFeePerGas, h2,
      maxFeePerGas, h3, gasLimit, h4, toAddr, h5, value, h6, data, ⟨-, h7⟩, accessList, ⟨-, h8⟩,
      maxFeePerBlobGas, h9, blobVersionedHashes, ⟨-, h10⟩, y, h11, r, ⟨-, h12⟩, s, ⟨-, h13⟩,
      rfl⟩
    have hitems := items_eq_map_getD hlen
    simp only [List.range_succ, List.range_zero, List.map_cons, List.map_nil, List.nil_append,
      List.cons_append, h0, h1, h2, h3, h4, h5, h6, h7, h8, h9, h10, h11, h12, h13] at hitems
    subst hitems
    exact ⟨.eip4844 chainId.toNat nonce maxPriorityFeePerGas maxFeePerGas gasLimit toAddr value
      data accessList maxFeePerBlobGas blobVersionedHashes, y, r, s, rfl, chainId.toNat_lt, hfit,
      rfl, by simp [TypedTx.decoded]⟩
  · rintro ⟨t, y, r, s, htype, hchain, hfit, rfl, rfl⟩
    cases t with
    | eip4844 chainId =>
      have hc : (UInt64.ofNat chainId).toNat = chainId := UInt64.toNat_ofNat_of_lt' hchain
      refine ⟨_, ⟨rfl, hfit, hfit.isItem (by simp [TypedTx.items, signatureItems]), rfl⟩,
        UInt64.ofNat chainId, by rw [hc]; rfl, _, rfl, _, rfl, _, rfl, _, rfl, _, rfl, _, rfl,
        _, ⟨hfit.payload_lt .string ?_, rfl⟩, _, ⟨hfit.payload_lt .list ?_, rfl⟩, _, rfl,
        _, ⟨hfit.payload_lt .list ?_, rfl⟩, _, rfl, _, ⟨hfit.payload_lt .string ?_, rfl⟩,
        _, ⟨hfit.payload_lt .string ?_, rfl⟩, rfl⟩
      all_goals simp [TypedTx.items, signatureItems, encodeAccessList, encodeHashList]
    | _ => cases htype

theorem decodeEvmTx_typed_iff {t : TypedTx} {tx : DecodedEvmTx} :
    decodeEvmTx D (t.typeByte :: raw) = .ok tx ↔
      ∃ (t' : TypedTx) (y : UInt64) (r s : Bytes), t'.typeByte = t.typeByte ∧
        SignedReading raw tx t' y r s := by
  cases t with
  | eip2930 => exact decodeEip2930_iff hD
  | eip1559 => exact decodeEip1559_iff hD
  | eip4844 => exact decodeEip4844_iff hD

omit hD in
theorem decodeEvmTx_list {p : Bytes} (hp : p.length < 2 ^ 64) :
    decodeEvmTx D (encode .list p) = decodeLegacy D (encode .list p) := by
  obtain ⟨b, bs, hb⟩ := List.exists_cons_of_ne_nil (encode_ne_nil : encode .list p ≠ [])
  have hbig : 0xc0 ≤ b.toNat := by
    have hcases := (encode_cons_iff hp).1 (show b :: bs = encode .list p ++ [] by simp [hb])
    rcases hcases with ⟨hbare, -⟩ | ⟨-, -, hb, -⟩ | ⟨-, hb, -⟩
    · obtain ⟨hk, -⟩ := isBare_iff.1 hbare
      cases hk
    · rw [hb, Kind.base]
      omega
    · rw [hb, Kind.base]
      omega
  have hne (n : Nat) (hn : n < 0xc0) : b.toNat ≠ n := by omega
  rw [hb, decodeEvmTx, if_neg, if_neg, if_neg, if_neg]
  · intro h
    have hle : b.toNat ≤ 0x7f := UInt8.le_iff_toNat_le.1 h
    omega
  · rintro rfl
    exact hne 3 (by decide) rfl
  · rintro rfl
    exact hne 2 (by decide) rfl
  · rintro rfl
    exact hne 1 (by decide) rfl

end Canonical

/-! ## Envelopes -/

/-- A signature over a transaction. -/
structure Signature where
  parity : Bool
  r : U256
  s : U256

/-- A transaction of a type the decoder does not have, and the amount it transfers. -/
structure OtherTx where
  typeByte : UInt8
  isTyped : typeByte ≤ 0x7f
  isOther : typeByte ≠ 0x01 ∧ typeByte ≠ 0x02 ∧ typeByte ≠ 0x03
  payload : Bytes
  value : U256

/-- A transaction written down: signed, or in the form that is hashed for signing. A legacy one has
EIP-155 replay protection when a chain is given. -/
inductive Envelope where
  | legacySigned (t : LegacyTx) (chain : Option Nat) (sig : Signature)
  | legacyUnsigned (t : LegacyTx) (chain : Option Nat)
  | typedSigned (t : TypedTx) (sig : Signature)
  | typedUnsigned (t : TypedTx)
  | other (t : OtherTx)

/-- The number `v` of a legacy signature. -/
def legacyV : Option Nat → Bool → Nat
  | none, parity => 27 + parity.toNat
  | some chain, parity => 35 + 2 * chain + parity.toNat

/-- The signature in an envelope. -/
def Signature.items (sig : Signature) (v : Nat) : List Bytes :=
  signatureItems v (minBe sig.r.toNat) (minBe sig.s.toNat)

namespace Envelope

/-- The items of the list. -/
def items : Envelope → List Bytes
  | legacySigned t chain sig => t.items ++ sig.items (legacyV chain sig.parity)
  | legacyUnsigned t (some chain) => t.items ++ signatureItems chain [] []
  | legacyUnsigned t none => t.items
  | typedSigned t sig => t.items ++ sig.items sig.parity.toNat
  | typedUnsigned t => t.items
  | other _ => []

/-- The raw transaction. -/
def bytes : Envelope → Bytes
  | e@(legacySigned ..) | e@(legacyUnsigned ..) => encode .list e.items.flatten
  | e@(typedSigned t _) | e@(typedUnsigned t) => t.typeByte :: encode .list e.items.flatten
  | other t => t.typeByte :: t.payload

/-- The amount transferred. -/
def value : Envelope → U256
  | legacySigned t _ _ | legacyUnsigned t _ => t.value
  | typedSigned t _ | typedUnsigned t => t.value
  | other t => t.value

/-- The form is one the decoder has, and its chain number is one the decoder can hold. -/
def Readable : Envelope → Prop
  | legacySigned _ chain sig => legacyV chain sig.parity < 2 ^ 64
  | legacyUnsigned _ (some chain) => chain < 2 ^ 64
  | typedSigned t _ => t.chainId < 2 ^ 64
  | legacyUnsigned _ none | typedUnsigned _ | other _ => False

end Envelope

/-- An envelope that RLP can represent. -/
structure WireTx where
  envelope : Envelope
  fits : Fits envelope.items

theorem encoded_items_legacy (t : LegacyTx) (v : Nat) (r s : Bytes) :
    ∀ i ∈ t.items ++ signatureItems v r s, Encoded i := by
  simp [LegacyTx.items, signatureItems]

theorem encoded_items_typed (t : TypedTx) : ∀ i ∈ t.items, Encoded i := by
  cases t <;> simp [TypedTx.items]

theorem encoded_items_signed (t : TypedTx) (v : Nat) (r s : Bytes) :
    ∀ i ∈ t.items ++ signatureItems v r s, Encoded i := by
  have hsig : ∀ i ∈ signatureItems v r s, Encoded i := by simp [signatureItems]
  intro i hi
  exact (List.mem_append.1 hi).elim (encoded_items_typed t i) (hsig i)

theorem TypedTx.items_eq_cons (t : TypedTx) :
    ∃ rest, t.items = encodeUint t.chainId :: rest := by
  cases t <;> exact ⟨_, rfl⟩

theorem TypedTx.length_items_eq {t t' : TypedTx} (h : t.typeByte = t'.typeByte) :
    t.items.length = t'.items.length := by
  cases t <;> cases t' <;> first | rfl | cases h

@[simp] theorem TypedTx.value_decoded (t : TypedTx) : t.decoded.value = t.value := by
  cases t <;> rfl

namespace WireTx

variable (hD : D.Canonical) {tx : DecodedEvmTx}
include hD

/-- A readable envelope is decoded, and the value read is the value carried. -/
theorem decode_of_readable (w : WireTx) (h : w.envelope.Readable) :
    ∃ tx, decodeEvmTx D w.envelope.bytes = .ok tx ∧ tx.value = w.envelope.value := by
  obtain ⟨e, hfit⟩ := w
  have legacy (t : LegacyTx) (v : Nat) (r s : Bytes) (hv : v < 2 ^ 64)
      (hf : Fits (t.items ++ signatureItems v r s)) :
      ∃ tx, decodeEvmTx D (encode .list (t.items ++ signatureItems v r s).flatten) = .ok tx ∧
        tx.value = t.value := by
    have hnat : (UInt64.ofNat v).toNat = v := UInt64.toNat_ofNat_of_lt' hv
    rw [decodeEvmTx_list hf]
    rw [← hnat] at hf ⊢
    exact ⟨_, (decodeLegacy_iff hD).2 ⟨t, _, r, s, hf, rfl, rfl⟩, rfl⟩
  cases e with
  | legacySigned t chain sig => exact legacy t _ _ _ h hfit
  | legacyUnsigned t chain =>
    cases chain with
    | none => exact h.elim
    | some chain => exact legacy t chain [] [] h hfit
  | typedSigned t sig =>
    have hnat : (UInt64.ofNat sig.parity.toNat).toNat = sig.parity.toNat :=
      UInt64.toNat_ofNat_of_lt' (lt_of_le_of_lt (Bool.toNat_le _) (by decide))
    refine ⟨t.decoded, (decodeEvmTx_typed_iff hD).2 ⟨t, UInt64.ofNat sig.parity.toNat,
      minBe sig.r.toNat, minBe sig.s.toNat, rfl, h, ?_, ?_, rfl⟩, t.value_decoded⟩
    · rw [hnat]
      exact hfit
    · rw [hnat]
      rfl
  | typedUnsigned t => exact h.elim
  | other t => exact h.elim

/-- No other envelope is decoded. -/
theorem readable_of_decode (w : WireTx) (h : decodeEvmTx D w.envelope.bytes = .ok tx) :
    w.envelope.Readable := by
  obtain ⟨e, hfit⟩ := w
  have legacy (t : LegacyTx) (v : Nat) (r s : Bytes) (hf : Fits (t.items ++ signatureItems v r s))
      (h : decodeEvmTx D (encode .list (t.items ++ signatureItems v r s).flatten) = .ok tx) :
      v < 2 ^ 64 := by
    rw [decodeEvmTx_list hf] at h
    obtain ⟨t', v', r', s', hf', heq, -⟩ := (decodeLegacy_iff hD).1 h
    have hitems := items_unique hD hf (encoded_items_legacy t v r s) hf'
      (encoded_items_legacy t' v'.toNat r' s') heq
    have hv : encodeUint v = encodeUint v'.toNat := by
      simp only [LegacyTx.items, signatureItems, List.cons_append, List.nil_append,
        List.cons.injEq] at hitems
      exact hitems.2.2.2.2.2.2.1
    have := encodeUint_inj hD (hf.payload_lt _ (show encodeUint v ∈ _ by simp [signatureItems]))
      (hf'.payload_lt _ (show encodeUint v'.toNat ∈ _ by simp [signatureItems])) hv
    rw [this]
    exact v'.toNat_lt
  cases e with
  | legacySigned t chain sig => exact legacy t _ _ _ hfit h
  | legacyUnsigned t chain =>
    cases chain with
    | none =>
      -- three items less than a signed envelope has
      replace hfit : Fits t.items := hfit
      replace h := (decodeEvmTx_list hfit).symm.trans h
      obtain ⟨t', v, r, s, hf', heq, -⟩ := (decodeLegacy_iff hD).1 h
      have hitems := items_unique hD hfit (by simp [LegacyTx.items]) hf'
        (encoded_items_legacy t' v.toNat r s) heq
      cases congrArg List.length hitems
    | some chain => exact legacy t chain [] [] hfit h
  | typedSigned t sig =>
    obtain ⟨t', y, r, s, -, hchain, hf', heq, -⟩ := (decodeEvmTx_typed_iff hD).1 h
    have hitems := items_unique hD hfit (encoded_items_signed t _ _ _) hf'
      (encoded_items_signed t' y.toNat r s) heq
    obtain ⟨rest, hrest⟩ := t.items_eq_cons
    obtain ⟨rest', hrest'⟩ := t'.items_eq_cons
    have hc : encodeUint t.chainId = encodeUint t'.chainId := by
      simp only [Envelope.items, hrest, hrest', List.cons_append, List.cons.injEq] at hitems
      exact hitems.1
    have := encodeUint_inj hD
      (hfit.payload_lt _ (show encodeUint t.chainId ∈ _ by simp [Envelope.items, hrest]))
      (hf'.payload_lt _ (show encodeUint t'.chainId ∈ _ by simp [hrest'])) hc
    show t.chainId < 2 ^ 64
    rw [this]
    exact hchain
  | typedUnsigned t =>
    -- a signed envelope of the same type has three items more
    obtain ⟨t', y, r, s, htype, -, hf', heq, -⟩ := (decodeEvmTx_typed_iff hD).1 h
    have hitems := items_unique hD hfit (encoded_items_typed t) hf'
      (encoded_items_signed t' y.toNat r s) heq
    have hlen := congrArg List.length hitems
    rw [Envelope.items, List.length_append, TypedTx.length_items_eq htype.symm] at hlen
    simp [signatureItems] at hlen
  | other t =>
    obtain ⟨h1, h2, h3⟩ := t.isOther
    replace h : decodeEvmTx D (t.typeByte :: t.payload) = .ok tx := h
    rw [decodeEvmTx, if_neg h1, if_neg h2, if_neg h3, if_pos t.isTyped] at h
    cases h

end WireTx

end QfcServerWallet.Policy.Evm
