import QfcServerWallet.Lib.Rlp
import QfcServerWallet.Policy.Request
import Mathlib.Data.List.Basic

/-!
# The EVM envelope decoder

`qfc-policy/src/decoders/evm.rs`: `decode_evm_tx`, its four envelope parsers and the field
helpers, in the order the source reads the fields and with the source's error texts.

* The RLP layer is `alloy-rlp`, a dependency: `Header::decode_raw` and
  `Header::decode_bytes(_, false)` are the two functions of an `Rlp.Decoder`, and results that
  depend on what it accepts assume `Rlp.Decoder.Canonical`.
* `items[i]` after `decode_list(raw, n)` is in range because the list has `n` items; here it is
  `item i`, with the empty slice out of range.

Results: `decodeBytes_iff` to `decodeAccessList_iff` (each field helper accepts exactly the
canonical encodings of its values) and `decodeList_iff`.
-/

namespace QfcServerWallet.Policy.Evm

open Lib Rlp

/-- The types of transactions. -/
inductive EvmTxType where
  | legacy
  | eip2930
  | eip1559
  | eip4844
  deriving DecidableEq, Repr

/-- An address. -/
abbrev Address := FixedBytes 20

/-- A hash. -/
abbrev Hash := FixedBytes 32

/-- An entry of an access list. -/
structure AccessListItem where
  address : Address
  storageKeys : List Hash
  deriving DecidableEq

/-- A decoded envelope. Fields a transaction type does not have are `none` or empty. -/
structure DecodedEvmTx where
  txType : EvmTxType
  /-- `none` for a legacy transaction without EIP-155 replay protection -/
  chainId : Option UInt64
  nonce : UInt64
  /-- `none` for a contract creation -/
  toAddr : Option Address
  value : U256
  gasLimit : UInt64
  maxFeePerGas : Option U256
  maxPriorityFeePerGas : Option U256
  gasPrice : Option U256
  data : Bytes
  methodSelector : Option (FixedBytes 4)
  accessList : List AccessListItem
  blobVersionedHashes : List Hash
  deriving DecidableEq

/-- Why bytes are not decoded. -/
inductive EvmDecodeError where
  | empty
  | unknownType (b : UInt8)
  | rlp (what : String)
  | invalidLength (field : String) (expected got : Nat)
  deriving DecidableEq

/-- `From<alloy_rlp::Error>` -/
def liftRlp {α : Type} : Except String α → Except EvmDecodeError α
  | .ok a => .ok a
  | .error e => .error (.rlp e)

section Decoder

variable (D : Rlp.Decoder)

/-! ## Field helpers -/

/-- The items of a list that fills the whole input. -/
def decodeWholeList (trailing notList : String) (raw : Bytes) :
    Except EvmDecodeError (List Bytes) := do
  let (view, rest) ← liftRlp (D.decodeRaw raw)
  if rest ≠ [] then .error (.rlp trailing)
  else match view with
    | .list items => .ok items
    | .string _ => .error (.rlp notList)

/-- An envelope of exactly `expected` items, each still encoded. -/
def decodeList (raw : Bytes) (expected : Nat) : Except EvmDecodeError (List Bytes) := do
  let items ← decodeWholeList D "trailing bytes after envelope" "expected list at top level" raw
  if items.length ≠ expected then .error (.invalidLength "envelope" expected items.length)
  else .ok items

/-- The bytes of an item that is a string. -/
def decodeBytes (item : Bytes) : Except EvmDecodeError Bytes := do
  let (bytes, rest) ← liftRlp (D.decodeBytes item)
  if rest ≠ [] then .error (.rlp "trailing bytes after string item") else .ok bytes

/-- The number of an item of at most `width` bytes without a leading zero. -/
def decodeUint (width : Nat) (item : Bytes) (field : String) : Except EvmDecodeError Nat := do
  let bytes ← decodeBytes D item
  if width < bytes.length then .error (.invalidLength field width bytes.length)
  else if bytes.head? = some 0 then .error (.rlp ("non-canonical leading zero in " ++ field))
  else .ok (ofBe bytes)

/-- A field of 64 bits. -/
def decodeU64 (item : Bytes) (field : String) : Except EvmDecodeError UInt64 :=
  UInt64.ofNat <$> decodeUint D 8 item field

/-- A field of 256 bits. -/
def decodeU256 (item : Bytes) (field : String) : Except EvmDecodeError U256 :=
  BitVec.ofNat 256 <$> decodeUint D 32 item field

/-- An array of exactly `n` bytes. -/
def decodeFixed (n : Nat) (field : String) (bytes : Bytes) :
    Except EvmDecodeError (FixedBytes n) :=
  match FixedBytes.ofBytes? n bytes with
  | some a => .ok a
  | none => .error (.invalidLength field n bytes.length)

/-- A recipient: 20 bytes, or nothing for a contract creation. -/
def decodeOptionalAddress (item : Bytes) : Except EvmDecodeError (Option Address) := do
  let bytes ← decodeBytes D item
  if bytes = [] then .ok none else some <$> decodeFixed 20 "to" bytes

/-- Hashes, one after another. -/
def decodeHashes : List Bytes → Except EvmDecodeError (List Hash)
  | [] => .ok []
  | entry :: entries => do
    let bytes ← decodeBytes D entry
    let h ← decodeFixed 32 "hash" bytes
    let rest ← decodeHashes entries
    .ok (h :: rest)

/-- A list of 32-byte hashes: storage keys or blob hashes. -/
def decodeHashList (item : Bytes) : Except EvmDecodeError (List Hash) := do
  let entries ← decodeWholeList D "trailing bytes after hash list"
    "expected hash list to be a list" item
  decodeHashes D entries

/-- One `[address, storage_keys]` pair of an access list. -/
def decodeAccessListEntry (entry : Bytes) : Except EvmDecodeError AccessListItem := do
  let items ← decodeWholeList D "trailing bytes inside access_list entry"
    "access_list entry must be a list" entry
  if items.length ≠ 2 then .error (.invalidLength "access_list_entry" 2 items.length)
  else do
    let addrBytes ← decodeBytes D (items.getD 0 [])
    let address ← decodeFixed 20 "access_list_address" addrBytes
    let storageKeys ← decodeHashList D (items.getD 1 [])
    .ok ⟨address, storageKeys⟩

/-- Entries, one after another. -/
def decodeAccessListEntries : List Bytes → Except EvmDecodeError (List AccessListItem)
  | [] => .ok []
  | entry :: entries => do
    let e ← decodeAccessListEntry D entry
    let rest ← decodeAccessListEntries entries
    .ok (e :: rest)

/-- The access list. -/
def decodeAccessList (item : Bytes) : Except EvmDecodeError (List AccessListItem) := do
  let entries ← decodeWholeList D "trailing bytes after access_list"
    "expected access_list to be a list" item
  decodeAccessListEntries D entries

/-- The first four bytes of the calldata. -/
def firstFour (data : Bytes) : Option (FixedBytes 4) :=
  if data.length < 4 then none else FixedBytes.ofBytes? 4 (data.take 4)

/-! ## The four envelopes -/

/-- A signed legacy transaction. -/
def decodeLegacy (raw : Bytes) : Except EvmDecodeError DecodedEvmTx := do
  let items ← decodeList D raw 9
  let nonce ← decodeU64 D (items.getD 0 []) "nonce"
  let gasPrice ← decodeU256 D (items.getD 1 []) "gas_price"
  let gasLimit ← decodeU64 D (items.getD 2 []) "gas_limit"
  let toAddr ← decodeOptionalAddress D (items.getD 3 [])
  let value ← decodeU256 D (items.getD 4 []) "value"
  let data ← decodeBytes D (items.getD 5 [])
  let v ← decodeU64 D (items.getD 6 []) "v"
  -- r and s are read for their shape only
  let _ ← decodeBytes D (items.getD 7 [])
  let _ ← decodeBytes D (items.getD 8 [])
  .ok { txType := .legacy
        chainId := if v ≥ 35 then some ((v - 35) / 2) else none
        nonce, toAddr, value, gasLimit
        maxFeePerGas := none
        maxPriorityFeePerGas := none
        gasPrice := some gasPrice
        data
        methodSelector := firstFour data
        accessList := []
        blobVersionedHashes := [] }

/-- A signed transaction of type 1. -/
def decodeEip2930 (raw : Bytes) : Except EvmDecodeError DecodedEvmTx := do
  let items ← decodeList D raw 11
  let chainId ← decodeU64 D (items.getD 0 []) "chain_id"
  let nonce ← decodeU64 D (items.getD 1 []) "nonce"
  let gasPrice ← decodeU256 D (items.getD 2 []) "gas_price"
  let gasLimit ← decodeU64 D (items.getD 3 []) "gas_limit"
  let toAddr ← decodeOptionalAddress D (items.getD 4 [])
  let value ← decodeU256 D (items.getD 5 []) "value"
  let data ← decodeBytes D (items.getD 6 [])
  let accessList ← decodeAccessList D (items.getD 7 [])
  let _ ← decodeU64 D (items.getD 8 []) "y_parity"
  let _ ← decodeBytes D (items.getD 9 [])
  let _ ← decodeBytes D (items.getD 10 [])
  .ok { txType := .eip2930
        chainId := some chainId
        nonce, toAddr, value, gasLimit
        maxFeePerGas := none
        maxPriorityFeePerGas := none
        gasPrice := some gasPrice
        data
        methodSelector := firstFour data
        accessList
        blobVersionedHashes := [] }

/-- A signed transaction of type 2. -/
def decodeEip1559 (raw : Bytes) : Except EvmDecodeError DecodedEvmTx := do
  let items ← decodeList D raw 12
  let chainId ← decodeU64 D (items.getD 0 []) "chain_id"
  let nonce ← decodeU64 D (items.getD 1 []) "nonce"
  let maxPriorityFeePerGas ← decodeU256 D (items.getD 2 []) "max_priority_fee_per_gas"
  let maxFeePerGas ← decodeU256 D (items.getD 3 []) "max_fee_per_gas"
  let gasLimit ← decodeU64 D (items.getD 4 []) "gas_limit"
  let toAddr ← decodeOptionalAddress D (items.getD 5 [])
  let value ← decodeU256 D (items.getD 6 []) "value"
  let data ← decodeBytes D (items.getD 7 [])
  let accessList ← decodeAccessList D (items.getD 8 [])
  let _ ← decodeU64 D (items.getD 9 []) "y_parity"
  let _ ← decodeBytes D (items.getD 10 [])
  let _ ← decodeBytes D (items.getD 11 [])
  .ok { txType := .eip1559
        chainId := some chainId
        nonce, toAddr, value, gasLimit
        maxFeePerGas := some maxFeePerGas
        maxPriorityFeePerGas := some maxPriorityFeePerGas
        gasPrice := none
        data
        methodSelector := firstFour data
        accessList
        blobVersionedHashes := [] }

/-- A signed transaction of type 3. -/
def decodeEip4844 (raw : Bytes) : Except EvmDecodeError DecodedEvmTx := do
  let items ← decodeList D raw 14
  let chainId ← decodeU64 D (items.getD 0 []) "chain_id"
  let nonce ← decodeU64 D (items.getD 1 []) "nonce"
  let maxPriorityFeePerGas ← decodeU256 D (items.getD 2 []) "max_priority_fee_per_gas"
  let maxFeePerGas ← decodeU256 D (items.getD 3 []) "max_fee_per_gas"
  let gasLimit ← decodeU64 D (items.getD 4 []) "gas_limit"
  -- an empty recipient is accepted here too, though a blob transaction cannot create a contract
  let toAddr ← decodeOptionalAddress D (items.getD 5 [])
  let value ← decodeU256 D (items.getD 6 []) "value"
  let data ← decodeBytes D (items.getD 7 [])
  let accessList ← decodeAccessList D (items.getD 8 [])
  let _ ← decodeU256 D (items.getD 9 []) "max_fee_per_blob_gas"
  let blobVersionedHashes ← decodeHashList D (items.getD 10 [])
  let _ ← decodeU64 D (items.getD 11 []) "y_parity"
  let _ ← decodeBytes D (items.getD 12 [])
  let _ ← decodeBytes D (items.getD 13 [])
  .ok { txType := .eip4844
        chainId := some chainId
        nonce, toAddr, value, gasLimit
        maxFeePerGas := some maxFeePerGas
        maxPriorityFeePerGas := some maxPriorityFeePerGas
        gasPrice := none
        data
        methodSelector := firstFour data
        accessList
        blobVersionedHashes }

/-- The first byte selects the envelope; `0x00..=0x7f` is reserved for typed transactions. -/
def decodeEvmTx : Bytes → Except EvmDecodeError DecodedEvmTx
  | [] => .error .empty
  | first :: rest =>
    if first = 0x01 then decodeEip2930 D rest
    else if first = 0x02 then decodeEip1559 D rest
    else if first = 0x03 then decodeEip4844 D rest
    else if first ≤ 0x7f then .error (.unknownType first)
    else decodeLegacy D (first :: rest)

/-- `From<DecodedEvmTx> for DecodedTx`; an unknown chain becomes `0`. -/
def DecodedEvmTx.toDecodedTx (tx : DecodedEvmTx) : DecodedTx where
  chainId := tx.chainId.getD 0
  toAddr := tx.toAddr.map FixedBytes.bytes
  value := some tx.value
  gasLimit := some tx.gasLimit
  methodSelector := tx.methodSelector
  rawArgs := if 4 < tx.data.length then some (tx.data.drop 4) else none

/-- `EvmDecoder::decode` -/
def evmDecoder : VmDecoder := fun vm raw =>
  if vm ≠ .evm then none
  else match decodeEvmTx D raw with
    | .ok tx => some tx.toDecodedTx
    | .error _ => none

end Decoder

/-! ## What each helper accepts -/

/-- A number, in the fewest bytes. -/
def encodeUint (n : Nat) : Bytes := encode .string (minBe n)

/-- A recipient; a contract creation has the empty string. -/
def encodeAddress : Option Address → Bytes
  | none => encode .string []
  | some a => encode .string a.bytes

/-- A list of hashes in RLP. -/
def encodeHashList (hs : List Hash) : Bytes :=
  encode .list (hs.map fun h => encode .string h.bytes).flatten

/-- An entry in RLP. -/
def encodeAccessListEntry (e : AccessListItem) : Bytes :=
  encode .list (encode .string e.address.bytes ++ encodeHashList e.storageKeys)

/-- The access list in RLP. -/
def encodeAccessList (l : List AccessListItem) : Bytes :=
  encode .list (l.map encodeAccessListEntry).flatten

section Canonical

variable {D : Rlp.Decoder} (hD : D.Canonical)
variable {raw item b : Bytes} {items : List Bytes} {field trailing notList : String}

theorem liftRlp_eq_ok {α : Type} {x : Except String α} {a : α} :
    liftRlp x = .ok a ↔ x = .ok a := by
  cases x <;> simp [liftRlp]

include hD

theorem decodeWholeList_iff :
    decodeWholeList D trailing notList raw = .ok items ↔
      items.flatten.length < 2 ^ 64 ∧ (∀ i ∈ items, IsItem i) ∧
        raw = encode .list items.flatten := by
  simp only [decodeWholeList, bind_eq_ok, liftRlp_eq_ok, Prod.exists]
  constructor
  · rintro ⟨view, rest, hraw, h⟩
    split_ifs at h with hrest
    obtain rfl := not_not.1 hrest
    cases view with
    | string p => cases h
    | list xs =>
      obtain rfl : xs = items := by simpa using h
      simpa using (hD.raw_list_iff _ _ _).1 hraw
  · rintro ⟨hlen, hi, rfl⟩
    exact ⟨.list items, [], (hD.raw_list_iff _ _ _).2 ⟨hlen, hi, by simp⟩, by simp⟩

/-- An envelope splits into `n` items iff it is the list of those items. -/
theorem decodeList_iff {n : Nat} :
    decodeList D raw n = .ok items ↔
      items.length = n ∧ items.flatten.length < 2 ^ 64 ∧ (∀ i ∈ items, IsItem i) ∧
        raw = encode .list items.flatten := by
  simp only [decodeList, bind_eq_ok, decodeWholeList_iff hD]
  constructor
  · rintro ⟨xs, hxs, h⟩
    split_ifs at h with hn
    obtain rfl : xs = items := by simpa using h
    exact ⟨not_not.1 hn, hxs⟩
  · rintro ⟨hn, h⟩
    exact ⟨items, h, by simp [hn]⟩

theorem decodeBytes_iff :
    decodeBytes D item = .ok b ↔ b.length < 2 ^ 64 ∧ item = encode .string b := by
  simp only [decodeBytes, bind_eq_ok, liftRlp_eq_ok, Prod.exists]
  constructor
  · rintro ⟨p, rest, hitem, h⟩
    split_ifs at h with hrest
    obtain rfl := not_not.1 hrest
    obtain rfl : p = b := by simpa using h
    simpa using (hD.bytes_iff _ _ _).1 hitem
  · rintro ⟨hlen, rfl⟩
    exact ⟨b, [], (hD.bytes_iff _ _ _).2 ⟨hlen, by simp⟩, by simp⟩

theorem decodeUint_iff {w n : Nat} (hw : w < 2 ^ 64) :
    decodeUint D w item field = .ok n ↔ n < 256 ^ w ∧ item = encodeUint n := by
  simp only [decodeUint, bind_eq_ok, decodeBytes_iff hD]
  constructor
  · rintro ⟨p, ⟨hlen, rfl⟩, h⟩
    split_ifs at h with hwidth hzero
    obtain rfl : ofBe p = n := by simpa using h
    rw [encodeUint, minBe_ofBe hzero]
    exact ⟨byteLen_le_iff.1 (by rw [byteLen_ofBe hzero]; omega), rfl⟩
  · rintro ⟨hn, rfl⟩
    have hle := byteLen_le_iff.2 hn
    refine ⟨minBe n, ⟨by rw [length_minBe]; omega, rfl⟩, ?_⟩
    rw [if_neg (by rw [length_minBe]; omega), if_neg (head?_minBe n), ofBe_minBe]

theorem decodeU64_iff {n : UInt64} :
    decodeU64 D item field = .ok n ↔ item = encodeUint n.toNat := by
  have hmap : decodeU64 D item field = .ok n ↔
      ∃ m, decodeUint D 8 item field = .ok m ∧ UInt64.ofNat m = n := by
    unfold decodeU64
    cases decodeUint D 8 item field <;> simp [Functor.map, Except.map]
  simp only [hmap, decodeUint_iff hD (show 8 < 2 ^ 64 by norm_num)]
  constructor
  · rintro ⟨m, ⟨hm, rfl⟩, rfl⟩
    rw [UInt64.toNat_ofNat', Nat.mod_eq_of_lt (show m < 2 ^ 64 from hm)]
  · rintro rfl
    exact ⟨n.toNat, ⟨n.toNat_lt, rfl⟩, UInt64.ofNat_toNat⟩

theorem decodeU256_iff {n : U256} :
    decodeU256 D item field = .ok n ↔ item = encodeUint n.toNat := by
  have hmap : decodeU256 D item field = .ok n ↔
      ∃ m, decodeUint D 32 item field = .ok m ∧ BitVec.ofNat 256 m = n := by
    unfold decodeU256
    cases decodeUint D 32 item field <;> simp [Functor.map, Except.map]
  simp only [hmap, decodeUint_iff hD (show 32 < 2 ^ 64 by norm_num)]
  constructor
  · rintro ⟨m, ⟨hm, rfl⟩, rfl⟩
    rw [BitVec.toNat_ofNat, Nat.mod_eq_of_lt (show m < 2 ^ 256 from hm)]
  · rintro rfl
    exact ⟨n.toNat, ⟨n.isLt, rfl⟩, BitVec.ofNat_toNat ..⟩

omit hD in
theorem decodeFixed_iff {n : Nat} {a : FixedBytes n} :
    decodeFixed n field b = .ok a ↔ a.bytes = b := by
  rw [← FixedBytes.ofBytes?_eq_some]
  unfold decodeFixed
  split <;> simp_all

theorem decodeOptionalAddress_iff {a : Option Address} :
    decodeOptionalAddress D item = .ok a ↔ item = encodeAddress a := by
  simp only [decodeOptionalAddress, bind_eq_ok, decodeBytes_iff hD]
  constructor
  · rintro ⟨p, ⟨-, rfl⟩, h⟩
    split at h
    · next hp =>
      obtain rfl : none = a := by simpa using h
      rw [hp, encodeAddress]
    · cases hf : decodeFixed 20 "to" p with
      | error e => simp [hf, Functor.map, Except.map] at h
      | ok x =>
        obtain rfl : some x = a := by simpa [hf, Functor.map, Except.map] using h
        rw [encodeAddress, decodeFixed_iff.1 hf]
  · rintro rfl
    cases a with
    | none => exact ⟨[], ⟨by simp, rfl⟩, by simp⟩
    | some x =>
      have hlen : x.bytes.length = 20 := x.length_bytes
      refine ⟨x.bytes, ⟨by omega, rfl⟩, ?_⟩
      rw [if_neg (by intro h; simp [h] at hlen), decodeFixed_iff.2 rfl]
      rfl

theorem decodeHashes_iff {hs : List Hash} :
    decodeHashes D items = .ok hs ↔ items = hs.map fun h => encode .string h.bytes := by
  induction items generalizing hs with
  | nil => cases hs <;> simp [decodeHashes]
  | cons entry entries ih =>
    simp only [decodeHashes, bind_eq_ok, decodeBytes_iff hD, decodeFixed_iff, ih]
    constructor
    · rintro ⟨_, ⟨-, rfl⟩, h, rfl, rest, rfl, hok⟩
      obtain rfl : h :: rest = hs := by simpa using hok
      rfl
    · intro heq
      cases hs with
      | nil => simp at heq
      | cons h rest =>
        obtain ⟨rfl, rfl⟩ : entry = encode .string h.bytes ∧ _ := by simpa using heq
        exact ⟨h.bytes, ⟨by rw [h.length_bytes]; norm_num, rfl⟩, h, rfl, rest, rfl, rfl⟩

theorem decodeHashList_iff {hs : List Hash} :
    decodeHashList D item = .ok hs ↔
      (hs.map fun h => encode .string h.bytes).flatten.length < 2 ^ 64 ∧
        item = encodeHashList hs := by
  simp only [decodeHashList, bind_eq_ok, decodeWholeList_iff hD, decodeHashes_iff hD]
  constructor
  · rintro ⟨_, ⟨hlen, -, rfl⟩, rfl⟩
    exact ⟨hlen, rfl⟩
  · rintro ⟨hlen, rfl⟩
    refine ⟨_, ⟨hlen, ?_, rfl⟩, rfl⟩
    intro i hi
    obtain ⟨h, -, rfl⟩ := List.mem_map.1 hi
    exact isItem_of_mem_flatten hi hlen

theorem decodeAccessListEntry_iff {e : AccessListItem} :
    decodeAccessListEntry D item = .ok e ↔
      (encode .string e.address.bytes ++ encodeHashList e.storageKeys).length < 2 ^ 64 ∧
        item = encodeAccessListEntry e := by
  simp only [decodeAccessListEntry, bind_eq_ok, decodeWholeList_iff hD]
  constructor
  · rintro ⟨xs, ⟨hlen, -, rfl⟩, h⟩
    split_ifs at h with h2
    obtain ⟨x, y, rfl⟩ := List.length_eq_two.1 (not_not.1 h2)
    simp only [bind_eq_ok, decodeBytes_iff hD, decodeFixed_iff, decodeHashList_iff hD] at h
    obtain ⟨_, ⟨-, hx⟩, a, rfl, ks, ⟨-, hy⟩, hok⟩ := h
    obtain rfl : AccessListItem.mk a ks = e := by simpa using hok
    simp only [List.getD_cons_zero, List.getD_cons_succ] at hx hy
    subst hx hy
    exact ⟨by simpa using hlen, by simp [encodeAccessListEntry]⟩
  · rintro ⟨hlen, rfl⟩
    have hkeys : (e.storageKeys.map fun h => encode .string h.bytes).flatten.length < 2 ^ 64 := by
      have hle := length_le_encode .list
        (e.storageKeys.map fun h => encode .string h.bytes).flatten
      rw [List.length_append, encodeHashList] at hlen
      omega
    have hflat : [encode .string e.address.bytes, encodeHashList e.storageKeys].flatten
        = encode .string e.address.bytes ++ encodeHashList e.storageKeys := by simp
    rw [← hflat] at hlen
    refine ⟨_, ⟨hlen, ?_, by rw [hflat, encodeAccessListEntry]⟩, ?_⟩
    · intro i hi
      rcases List.mem_pair.1 hi with rfl | rfl
      · exact isItem_of_mem_flatten hi hlen
      · exact isItem_of_mem_flatten hi hlen
    · rw [if_neg (by simp)]
      simp only [bind_eq_ok, decodeBytes_iff hD, decodeFixed_iff, decodeHashList_iff hD]
      exact ⟨_, ⟨by rw [e.address.length_bytes]; norm_num, rfl⟩, _, rfl, _, ⟨hkeys, rfl⟩, rfl⟩

theorem decodeAccessListEntries_iff {l : List AccessListItem}
    (hlen : items.flatten.length < 2 ^ 64) :
    decodeAccessListEntries D items = .ok l ↔ items = l.map encodeAccessListEntry := by
  induction items generalizing l with
  | nil => cases l <;> simp [decodeAccessListEntries]
  | cons entry entries ih =>
    have hrest : entries.flatten.length < 2 ^ 64 := by
      rw [List.flatten_cons, List.length_append] at hlen
      omega
    simp only [decodeAccessListEntries, bind_eq_ok, decodeAccessListEntry_iff hD, ih hrest]
    constructor
    · rintro ⟨e, ⟨-, rfl⟩, rest, rfl, hok⟩
      obtain rfl : e :: rest = l := by simpa using hok
      rfl
    · intro heq
      cases l with
      | nil => simp at heq
      | cons e rest =>
        obtain ⟨rfl, rfl⟩ : entry = encodeAccessListEntry e ∧ _ := by simpa using heq
        have hle := length_le_encode .list
          (encode .string e.address.bytes ++ encodeHashList e.storageKeys)
        rw [List.flatten_cons, List.length_append, encodeAccessListEntry] at hlen
        exact ⟨e, ⟨by omega, rfl⟩, rest, rfl, rfl⟩

theorem decodeAccessList_iff {l : List AccessListItem} :
    decodeAccessList D item = .ok l ↔
      (l.map encodeAccessListEntry).flatten.length < 2 ^ 64 ∧ item = encodeAccessList l := by
  simp only [decodeAccessList, bind_eq_ok, decodeWholeList_iff hD]
  constructor
  · rintro ⟨xs, ⟨hlen, -, rfl⟩, h⟩
    obtain rfl := (decodeAccessListEntries_iff hD hlen).1 h
    exact ⟨hlen, rfl⟩
  · rintro ⟨hlen, rfl⟩
    refine ⟨_, ⟨hlen, ?_, rfl⟩, (decodeAccessListEntries_iff hD hlen).2 rfl⟩
    intro i hi
    obtain ⟨e, -, rfl⟩ := List.mem_map.1 hi
    exact isItem_of_mem_flatten hi hlen

end Canonical

end QfcServerWallet.Policy.Evm
