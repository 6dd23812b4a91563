import QfcServerWallet.Audit.AnchorRow
import QfcServerWallet.Lib.Session
import QfcServerWallet.Policy.EvmCanonical

/-!
# The anchor transaction

`qfc-audit/src/chain_anchor.rs`: an anchor is committed on-chain as the data of a legacy EIP-155
transaction, which is encoded by hand, signed with the operator's key and sent to a node.

* The `rlp_*` functions append to a buffer; here they return it. A length is a `usize` of eight
  bytes, and no slice is longer than `2 ^ 63 - 1` bytes.
* `signLegacyTx` makes two lists of one beginning (`prefix` in the source, `commonFields` here): one
  is hashed for signing, the other is sent. The number `v` is computed in `u64`, and wraps.
* `submit` asks a node for what is not configured. Each call of the node is an operation; its answer
  is the parsed one.

Results: `decodeEvmTx_signedTx`, **`decodeEvmTx_signLegacyTx`**, `submit_uses` and
`anchorCalldata_eq_iff`.
-/

namespace QfcServerWallet.Audit

open Lib Rlp Policy

variable {tx : LegacyFields}

/-- `u128` -/
abbrev U128 := BitVec 128

/-! ## The encoder -/

/-- The prefix of an item of the given length. -/
def rlpLenPrefix (len : Nat) (shortBase : UInt8) (out : Bytes) : Bytes :=
  if len ≤ 55 then out ++ [shortBase + UInt8.ofNat len]
  else
    let be := toBe 8 len
    let first := (be.findIdx? (· != 0)).getD (be.length - 1)
    let lb := be.drop first
    out ++ (shortBase + 55 + UInt8.ofNat lb.length) :: lb

/-- An item that is a string. -/
def rlpString (bytes out : Bytes) : Bytes :=
  if bytes.length = 1 ∧ bytes.headD 0 < 0x80 then out ++ [bytes.headD 0]
  else rlpLenPrefix bytes.length 0x80 out ++ bytes

/-- A number, without leading zeros. -/
def rlpScalar (bytesBe out : Bytes) : Bytes :=
  let start := (bytesBe.findIdx? (· != 0)).getD bytesBe.length
  rlpString (bytesBe.drop start) out

/-- A 64-bit number. -/
def rlpU64 (v : UInt64) (out : Bytes) : Bytes := rlpScalar (toBe 8 v.toNat) out

/-- A 128-bit number. -/
def rlpU128 (v : U128) (out : Bytes) : Bytes := rlpScalar (toBe 16 v.toNat) out

/-- An item that is a list. -/
def rlpList (payload out : Bytes) : Bytes := rlpLenPrefix payload.length 0xc0 out ++ payload

/-! ## The transaction -/

/-- What is broadcast, and its hash. -/
structure SignedLegacyTx where
  rawHex : String
  txHashHex : String
  deriving DecidableEq

/-- What a transaction is made from. -/
structure LegacyFields where
  nonce : UInt64
  gasPrice : U128
  gasLimit : UInt64
  toAddr : FixedBytes 20
  value : U128
  data : Bytes

/-- The beginning of both lists. -/
def commonFields (tx : LegacyFields) : Bytes :=
  let fields := rlpU64 tx.nonce []
  let fields := rlpU128 tx.gasPrice fields
  let fields := rlpU64 tx.gasLimit fields
  let fields := rlpString tx.toAddr.bytes fields
  let fields := rlpU128 tx.value fields
  rlpString tx.data fields

/-- The list that is hashed for signing. -/
def unsignedTx (tx : LegacyFields) (chainId : UInt64) : Bytes :=
  let signFields := rlpU64 chainId (commonFields tx)
  let signFields := rlpU64 0 signFields
  let signFields := rlpU64 0 signFields
  rlpList signFields []

/-- The number `v` of EIP-155. -/
def eip155V (recid : UInt8) (chainId : UInt64) : UInt64 := recid.toUInt64 + 35 + chainId * 2

/-- The list that is sent. -/
def signedTx (tx : LegacyFields) (chainId : UInt64) (sig : FixedBytes 64) (recid : UInt8) : Bytes :=
  let r := sig.bytes.take 32
  let s := sig.bytes.drop 32
  let signedFields := rlpU64 (eip155V recid chainId) (commonFields tx)
  let signedFields := rlpScalar r signedFields
  let signedFields := rlpScalar s signedFields
  rlpList signedFields []

/-- Signs the hash of the unsigned list and encodes the signed one. -/
def signLegacyTx (c : Crypto) (signingKey : FixedBytes 32) (tx : LegacyFields) (chainId : UInt64) :
    Except AuditError SignedLegacyTx := do
  let sighash := c.keccak256 (unsignedTx tx chainId)
  let (sig, recid) ← (c.secpSignRecoverable signingKey sighash).mapError
    fun _ => .crypto "anchor tx signing failed"
  let signed := signedTx tx chainId sig recid
  return ⟨"0x" ++ hexEncode signed, "0x" ++ hexEncode (c.keccak256 signed).bytes⟩

/-! ## What is appended -/

theorem drop_findIdx? (b : Bytes) :
    b.drop ((b.findIdx? (· != 0)).getD b.length) = minBe (ofBe b) := by
  have hnot : (fun x : UInt8 => !(x == 0)) = (· != 0) := rfl
  rw [minBe_ofBe_eq_dropWhile, List.dropWhile_eq_drop_findIdx_not, hnot,
    List.findIdx_eq_getD_findIdx?]

theorem rlpLenPrefix_eq (k : Kind) {len : Nat} (hlen : len < 2 ^ 64) (out : Bytes) :
    rlpLenPrefix len (UInt8.ofNat k.base) out = out ++ header k len := by
  unfold rlpLenPrefix header
  by_cases hshort : len ≤ 55
  · rw [if_pos hshort, if_pos (by omega), UInt8.ofNat_add]
  · have hstripped := drop_findIdx? (toBe 8 len)
    rw [ofBe_toBe_of_lt hlen] at hstripped
    -- the length is not zero, so one of its bytes is not, and the default does not matter
    have hlb : (toBe 8 len).drop (((toBe 8 len).findIdx? (· != 0)).getD ((toBe 8 len).length - 1)) =
        minBe len := by
      cases hfirst : (toBe 8 len).findIdx? (· != 0) with
      | some i =>
        rw [hfirst] at hstripped
        exact hstripped
      | none =>
        rw [hfirst, Option.getD_none, List.drop_length] at hstripped
        have hpos := byteLen_pos (n := len) (by omega)
        rw [← length_minBe, ← hstripped] at hpos
        cases hpos
    rw [if_neg hshort, if_neg (by omega)]
    dsimp only
    rw [hlb, length_minBe, UInt8.ofNat_add, UInt8.ofNat_add]
    rfl

/-- What is appended is canonical RLP. -/
theorem rlpString_eq {bytes : Bytes} (hlen : bytes.length < 2 ^ 64) (out : Bytes) :
    rlpString bytes out = out ++ encode .string bytes := by
  have hbare : bytes.length = 1 ∧ bytes.headD 0 < 0x80 ↔ isBare .string bytes = true := by
    rw [isBare_iff]
    constructor
    · rintro ⟨hone, hlow⟩
      obtain ⟨x, rfl⟩ := List.length_eq_one_iff.1 hone
      exact ⟨rfl, x, rfl, hlow⟩
    · rintro ⟨-, x, rfl, hlow⟩
      exact ⟨rfl, hlow⟩
  unfold rlpString encode
  by_cases h : isBare .string bytes = true
  · obtain ⟨-, x, rfl, -⟩ := isBare_iff.1 h
    rw [if_pos (hbare.2 h), if_pos h]
    rfl
  · rw [if_neg (mt hbare.1 h), if_neg h, ← List.append_assoc]
    exact congrArg (· ++ bytes) (rlpLenPrefix_eq .string hlen out)

theorem rlpScalar_eq {b : Bytes} (hlen : b.length < 2 ^ 64) (out : Bytes) :
    rlpScalar b out = out ++ Evm.encodeUint (ofBe b) := by
  unfold rlpScalar
  dsimp only
  rw [drop_findIdx?, rlpString_eq ?_, Evm.encodeUint]
  rw [length_minBe]
  exact lt_of_le_of_lt (byteLen_le_iff.2 (ofBe_lt b)) hlen

theorem rlpU64_eq (v : UInt64) (out : Bytes) : rlpU64 v out = out ++ Evm.encodeUint v.toNat := by
  rw [rlpU64, rlpScalar_eq (by rw [length_toBe]; decide), ofBe_toBe_of_lt v.toNat_lt]

theorem rlpU128_eq (v : U128) (out : Bytes) : rlpU128 v out = out ++ Evm.encodeUint v.toNat := by
  rw [rlpU128, rlpScalar_eq (by rw [length_toBe]; decide), ofBe_toBe_of_lt v.isLt]

theorem rlpList_eq {payload : Bytes} (hlen : payload.length < 2 ^ 64) (out : Bytes) :
    rlpList payload out = out ++ encode .list payload := by
  rw [rlpList, encode, if_neg (by simp [isBare]), ← List.append_assoc]
  exact congrArg (· ++ payload) (rlpLenPrefix_eq .list hlen out)

/-! ## What is sent -/

/-- The transaction as the policy engine knows it. -/
def LegacyFields.toLegacyTx (tx : LegacyFields) : Evm.LegacyTx :=
  ⟨tx.nonce, tx.gasPrice.setWidth 256, tx.gasLimit, some tx.toAddr, tx.value.setWidth 256, tx.data⟩

/-- No slice is longer. -/
def LegacyFields.Addressable (tx : LegacyFields) : Prop := tx.data.length < 2 ^ 63

theorem toNat_setWidth_u128 (v : U128) : (v.setWidth 256).toNat = v.toNat := by
  rw [BitVec.toNat_setWidth, Nat.mod_eq_of_lt (by have := v.isLt; omega)]

theorem commonFields_eq (h : tx.Addressable) : commonFields tx = tx.toLegacyTx.items.flatten := by
  have hdata : tx.data.length < 2 ^ 64 := by unfold LegacyFields.Addressable at h; omega
  have hto : tx.toAddr.bytes.length < 2 ^ 64 := by rw [tx.toAddr.length_bytes]; decide
  unfold commonFields
  simp only [rlpU64_eq, rlpU128_eq, rlpString_eq hdata, rlpString_eq hto]
  simp only [LegacyFields.toLegacyTx, Evm.LegacyTx.items, Evm.encodeAddress, toNat_setWidth_u128,
    List.flatten_cons, List.flatten_nil, List.append_assoc, List.nil_append, List.append_nil]

theorem length_encodeUint_le {w n : Nat} (hw : w < 2 ^ 64) (hn : n < 256 ^ w) :
    (Evm.encodeUint n).length ≤ w + 9 := by
  have hlen : (minBe n).length ≤ w := by
    rw [length_minBe]
    exact byteLen_le_iff.2 hn
  have hitem := length_encode_le (k := .string) (lt_of_le_of_lt hlen hw)
  unfold Evm.encodeUint
  omega

theorem fits_items (h : tx.Addressable) {v r s : Nat} (hv : v < 256 ^ 8) (hr : r < 256 ^ 32)
    (hs : s < 256 ^ 32) :
    Evm.Fits (tx.toLegacyTx.items ++ Evm.signatureItems v (minBe r) (minBe s)) := by
  unfold LegacyFields.Addressable at h
  have hnonce := length_encodeUint_le (w := 8) (by decide) tx.nonce.toNat_lt
  have hgasPrice := length_encodeUint_le (w := 16) (by decide) tx.gasPrice.isLt
  have hgasLimit := length_encodeUint_le (w := 8) (by decide) tx.gasLimit.toNat_lt
  have hto := length_encode_le (k := .string)
    (by rw [tx.toAddr.length_bytes]; decide)
  have hvalue := length_encodeUint_le (w := 16) (by decide) tx.value.isLt
  have hdata := length_encode_le (k := .string) (p := tx.data) (by omega)
  have hvlen := length_encodeUint_le (by decide) hv
  have hrlen : (encode .string (minBe r)).length ≤ 41 := length_encodeUint_le (by decide) hr
  have hslen : (encode .string (minBe s)).length ≤ 41 := length_encodeUint_le (by decide) hs
  rw [tx.toAddr.length_bytes] at hto
  simp only [Evm.Fits, LegacyFields.toLegacyTx, Evm.LegacyTx.items, Evm.encodeAddress,
    toNat_setWidth_u128, Evm.signatureItems, List.cons_append, List.nil_append,
    List.flatten_cons, List.flatten_nil, List.length_append, List.length_nil]
  omega

theorem rlpList_fields (h : tx.Addressable) {v r s : Nat} (hv : v < 256 ^ 8) (hr : r < 256 ^ 32)
    (hs : s < 256 ^ 32) :
    rlpList (commonFields tx ++ Evm.encodeUint v ++ Evm.encodeUint r ++ Evm.encodeUint s) [] =
      encode .list
        (tx.toLegacyTx.items ++ Evm.signatureItems v (minBe r) (minBe s)).flatten := by
  have hflat : commonFields tx ++ Evm.encodeUint v ++ Evm.encodeUint r ++ Evm.encodeUint s =
      (tx.toLegacyTx.items ++ Evm.signatureItems v (minBe r) (minBe s)).flatten := by
    rw [commonFields_eq h, List.flatten_append, List.append_assoc, List.append_assoc]
    simp only [Evm.signatureItems, List.flatten_cons, List.flatten_nil, List.append_nil]
    rfl
  rw [hflat, rlpList_eq (fits_items h hv hr hs), List.nil_append]

theorem length_halves (sig : FixedBytes 64) :
    (sig.bytes.take 32).length = 32 ∧ (sig.bytes.drop 32).length = 32 := by
  rw [List.length_take, List.length_drop, sig.length_bytes]
  exact ⟨rfl, rfl⟩

theorem ofBe_halves_lt (sig : FixedBytes 64) :
    ofBe (sig.bytes.take 32) < 256 ^ 32 ∧ ofBe (sig.bytes.drop 32) < 256 ^ 32 := by
  obtain ⟨hr, hs⟩ := length_halves sig
  have hrlt := ofBe_lt (sig.bytes.take 32)
  have hslt := ofBe_lt (sig.bytes.drop 32)
  rw [hr] at hrlt
  rw [hs] at hslt
  exact ⟨hrlt, hslt⟩

theorem signedTx_eq (h : tx.Addressable) (chainId : UInt64) (sig : FixedBytes 64) (recid : UInt8) :
    signedTx tx chainId sig recid =
      encode .list (tx.toLegacyTx.items ++ Evm.signatureItems (eip155V recid chainId).toNat
        (minBe (ofBe (sig.bytes.take 32))) (minBe (ofBe (sig.bytes.drop 32)))).flatten := by
  obtain ⟨hr, hs⟩ := length_halves sig
  obtain ⟨hrlt, hslt⟩ := ofBe_halves_lt sig
  unfold signedTx
  dsimp only
  rw [rlpScalar_eq (by rw [hs]; decide), rlpScalar_eq (by rw [hr]; decide), rlpU64_eq]
  exact rlpList_fields h (UInt64.toNat_lt _) hrlt hslt

/-- **The policy decoder reads the fields back from the signed form**, with what it makes of `v`. -/
theorem decodeEvmTx_signedTx {D : Rlp.Decoder} (hD : D.Canonical) (h : tx.Addressable)
    (chainId : UInt64) (sig : FixedBytes 64) (recid : UInt8) :
    Evm.decodeEvmTx D (signedTx tx chainId sig recid) =
      .ok (tx.toLegacyTx.decoded (eip155V recid chainId)) := by
  obtain ⟨hrlt, hslt⟩ := ofBe_halves_lt sig
  have hfits := fits_items h (UInt64.toNat_lt (eip155V recid chainId)) hrlt hslt
  exact Evm.SignedTx.Encodes.decode hD (e := .legacy tx.toLegacyTx (eip155V recid chainId) _ _)
    ⟨hfits, signedTx_eq h chainId sig recid⟩

theorem eip155V_chainId {recid : UInt8} {chainId : UInt64} (hrecid : recid = 0 ∨ recid = 1)
    (hchain : 2 * chainId.toNat + 36 < 2 ^ 64) :
    eip155V recid chainId ≥ 35 ∧ (eip155V recid chainId - 35) / 2 = chainId := by
  have hbit : recid.toUInt64.toNat ≤ 1 := by
    rcases hrecid with rfl | rfl
    · decide
    · decide
  have hv : (eip155V recid chainId).toNat = recid.toUInt64.toNat + 35 + chainId.toNat * 2 := by
    simp only [eip155V, UInt64.toNat_add, UInt64.toNat_mul, UInt64.reduceToNat]
    omega
  have hge : eip155V recid chainId ≥ 35 := by
    rw [ge_iff_le, UInt64.le_iff_toNat_le, hv]
    change 35 ≤ _
    omega
  refine ⟨hge, ?_⟩
  rw [← UInt64.toNat_inj, UInt64.toNat_div, UInt64.toNat_sub_of_le _ _ hge, hv]
  simp only [UInt64.reduceToNat]
  omega

theorem signLegacyTx_eq_ok {c : Crypto} {signingKey : FixedBytes 32} {chainId : UInt64}
    {signed : SignedLegacyTx} :
    signLegacyTx c signingKey tx chainId = .ok signed ↔
      ∃ sig recid, c.secpSignRecoverable signingKey (c.keccak256 (unsignedTx tx chainId))
          = .ok (sig, recid) ∧
        signed = ⟨"0x" ++ hexEncode (signedTx tx chainId sig recid),
          "0x" ++ hexEncode (c.keccak256 (signedTx tx chainId sig recid)).bytes⟩ := by
  unfold signLegacyTx
  dsimp only
  rw [bind_eq_ok]
  constructor
  · rintro ⟨⟨sig, recid⟩, hsig, h⟩
    exact ⟨sig, recid, mapError_eq_ok.1 hsig, (Except.ok.inj h).symm⟩
  · rintro ⟨sig, recid, hsig, rfl⟩
    exact ⟨(sig, recid), mapError_eq_ok.2 hsig, rfl⟩

/-- **The policy decoder reads back what the anchor encoder writes**: nonce, gas price and limit,
recipient, value, data and chain id, for every signature whose recovery id is 0 or 1. -/
theorem decodeEvmTx_signLegacyTx (D : Rlp.Decoder) (hD : D.Canonical) (c : Crypto)
    (signingKey : FixedBytes 32) (tx : LegacyFields) (chainId : UInt64) (sig : FixedBytes 64)
    (recid : UInt8) (hdata : tx.data.length < 2 ^ 63)
    (hsig : c.secpSignRecoverable signingKey (c.keccak256 (unsignedTx tx chainId))
      = .ok (sig, recid))
    (hrecid : recid = 0 ∨ recid = 1) (hchain : 2 * chainId.toNat + 36 < 2 ^ 64) :
    ∃ signed raw, signLegacyTx c signingKey tx chainId = .ok signed ∧
      signed.rawHex = "0x" ++ hexEncode raw ∧
      Evm.decodeEvmTx D raw = .ok
        { txType := .legacy
          chainId := some chainId
          nonce := tx.nonce
          toAddr := some tx.toAddr
          value := tx.value.setWidth 256
          gasLimit := tx.gasLimit
          maxFeePerGas := none
          maxPriorityFeePerGas := none
          gasPrice := some (tx.gasPrice.setWidth 256)
          data := tx.data
          methodSelector := Evm.firstFour tx.data
          accessList := []
          blobVersionedHashes := [] } := by
  obtain ⟨hge, hhalf⟩ := eip155V_chainId hrecid hchain
  refine ⟨_, signedTx tx chainId sig recid, signLegacyTx_eq_ok.2 ⟨sig, recid, hsig, rfl⟩, rfl, ?_⟩
  rw [decodeEvmTx_signedTx hD hdata, Evm.LegacyTx.decoded, if_pos hge, hhalf]
  rfl

/-! ### The example of EIP-155 -/

namespace SampleAnchorTx

/-- The transaction of the EIP's example. -/
def fields : LegacyFields where
  nonce := 9
  gasPrice := 20000000000
  gasLimit := 21000
  toAddr := Evm.Eip155.toAddr
  value := 1000000000000000000
  data := []

/-- Its signature. -/
def signature : FixedBytes 64 :=
  .ofNat 64 (0x28ef61340bd939bc2195fe537567866003e1a15d3c71ff63e1590620aa636276 * 2 ^ 256 +
    0x67cbe9d8997f761aecb703304b3800ccf555c9f3dc64214b297fb1966a3b6d83)

def crypto : Crypto :=
  { Crypto.ofTables {} with secpSignRecoverable := fun _ _ => .ok (signature, 0) }

end SampleAnchorTx

open SampleAnchorTx in
/-- The example is read back, with chain 1. -/
theorem decodeEvmTx_signLegacyTx_eip155 :
    ∃ signed raw tx, signLegacyTx crypto (.replicate 32 0x46) fields 1
        = .ok signed ∧
      signed.rawHex = "0x" ++ hexEncode raw ∧ Evm.decodeEvmTx Rlp.reference raw = .ok tx ∧
      tx.chainId = some 1 ∧ tx.nonce = 9 ∧ tx.value = 1000000000000000000 := by
  obtain ⟨signed, raw, hsigned, hraw, hdecode⟩ :=
    decodeEvmTx_signLegacyTx Rlp.reference reference_canonical crypto
      (.replicate 32 0x46) fields 1 signature 0 (by decide) rfl
      (.inl rfl) (by decide)
  exact ⟨signed, raw, _, hsigned, hraw, hdecode, rfl, rfl, by decide⟩

example : hexEncode (signedTx SampleAnchorTx.fields 1 SampleAnchorTx.signature 0) =
    "f86c098504a817c800825208943535353535353535353535353535353535353535880de0b6b3a764000080" ++
    "25a028ef61340bd939bc2195fe537567866003e1a15d3c71ff63e1590620aa636276" ++
    "a067cbe9d8997f761aecb703304b3800ccf555c9f3dc64214b297fb1966a3b6d83" := by
  decide +kernel

/-! ## Committing an anchor -/

/-- The data of the transaction. -/
def anchorCalldata (hexError : String → String) (payload : AnchorPayload) :
    Except AuditError Bytes :=
  match hexDecode payload.chainHeadHex with
  | none => .error (.serde ("anchor chain_head_hex not hex: " ++ hexError payload.chainHeadHex))
  | some head =>
    if head.length ≠ 32 then
      .error (.serde ("anchor chain_head_hex must be 32 bytes, got " ++ head.length.repr))
    else
      .ok (utf8 "qfc-audit-anchor-v1\x00" ++ head ++ toBe 8 payload.eventCount
        ++ utf8 payload.dateUtc)

/-- The configuration of the submitter. -/
structure ChainAnchor where
  signingKey : FixedBytes 32
  operatorAddress : FixedBytes 20
  toAddr : FixedBytes 20
  chainId : Option UInt64
  gasLimit : UInt64
  gasPrice : Option U128

/-- A call of the node. -/
inductive RpcOp where
  | chainId
  | transactionCount (address : FixedBytes 20)
  | gasPrice
  | sendRawTransaction (rawHex : String)

/-- The parsed answer. -/
abbrev RpcOp.Res : RpcOp → Type
  | .chainId => Except AuditError UInt64
  | .transactionCount _ => Except AuditError UInt64
  | .gasPrice => Except AuditError U128
  | .sendRawTransaction _ => Except AuditError String

/-- What is configured, or what the node says. -/
def configuredOr {α : Type} (value : Option α)
    (ask : ExceptT AuditError (Prog RpcOp RpcOp.Res) α) :
    ExceptT AuditError (Prog RpcOp RpcOp.Res) α :=
  match value with
  | some a => pure a
  | none => ask

/-- Commits an anchor in a transaction. -/
def ChainAnchor.submit (c : Crypto) (hexError : String → String) (anchor : ChainAnchor)
    (payload : AnchorPayload) : ExceptT AuditError (Prog RpcOp RpcOp.Res) String := do
  let chainId ← configuredOr anchor.chainId (Prog.orThrow id (Prog.perform RpcOp.chainId))
  let nonce ← Prog.orThrow id (Prog.perform (RpcOp.transactionCount anchor.operatorAddress))
  let gasPrice ← configuredOr anchor.gasPrice (Prog.orThrow id (Prog.perform RpcOp.gasPrice))
  let data ← Prog.ofExcept (anchorCalldata hexError payload)
  let tx ← Prog.ofExcept (signLegacyTx c anchor.signingKey
    ⟨nonce, gasPrice, anchor.gasLimit, anchor.toAddr, 0, data⟩ chainId)
  Prog.orThrow id (Prog.perform (RpcOp.sendRawTransaction tx.rawHex))

section Commitment

variable {hexError : String → String}

theorem anchorCalldata_eq_ok {payload : AnchorPayload} {data : Bytes} :
    anchorCalldata hexError payload = .ok data ↔
      ∃ head : FixedBytes 32, hexDecode payload.chainHeadHex = some head.bytes ∧
        data = utf8 "qfc-audit-anchor-v1\x00" ++ head.bytes ++ toBe 8 payload.eventCount
          ++ utf8 payload.dateUtc := by
  unfold anchorCalldata
  cases hhead : hexDecode payload.chainHeadHex with
  | none => simp
  | some head =>
    dsimp only
    constructor
    · intro h
      split_ifs at h with hlen
      exact ⟨⟨head, not_not.1 hlen⟩, rfl, (Except.ok.inj h).symm⟩
    · rintro ⟨fixed, hfixed, rfl⟩
      cases hfixed
      rw [if_neg (not_not.2 fixed.length_bytes)]

/-- **The commitment is one to the head, the count and the date**: it determines them, and nothing
else of the payload enters it. -/
theorem anchorCalldata_eq_iff {p q : SizedPayload} {data : Bytes}
    (hp : anchorCalldata hexError p = .ok data) :
    anchorCalldata hexError q = .ok data ↔
      hexDecode p.1.chainHeadHex = hexDecode q.1.chainHeadHex ∧
        p.1.eventCount = q.1.eventCount ∧ p.1.dateUtc = q.1.dateUtc := by
  obtain ⟨head, hhead, rfl⟩ := anchorCalldata_eq_ok.1 hp
  constructor
  · intro hq
    obtain ⟨head', hhead', hdata⟩ := anchorCalldata_eq_ok.1 hq
    -- all fields before the date have fixed widths
    obtain ⟨hfront, hdate⟩ := List.append_inj hdata
      (by simp only [List.length_append, length_toBe, head.length_bytes, head'.length_bytes])
    obtain ⟨hfront, hcount⟩ := List.append_inj hfront
      (by simp only [List.length_append, head.length_bytes, head'.length_bytes])
    have hheads := List.append_cancel_left hfront
    exact ⟨by rw [hhead, hhead', hheads], toBe_inj p.2 q.2 hcount, utf8_inj hdate⟩
  · rintro ⟨hheads, hcount, hdate⟩
    exact anchorCalldata_eq_ok.2 ⟨head, hheads.symm.trans hhead, by rw [hcount, hdate]⟩

namespace SampleAnchorTx

/-- Three events, with this id for the last one. -/
def payload (id : Option EventId) : SizedPayload :=
  ⟨⟨"2026-01-01", hexEncode (FixedBytes.zero 32).bytes, id, 3⟩, show 3 < 2 ^ 64 by decide⟩

/-- Its commitment. -/
def calldata : Bytes :=
  utf8 "qfc-audit-anchor-v1\x00" ++ (FixedBytes.zero 32).bytes ++ toBe 8 3 ++ utf8 "2026-01-01"

theorem calldata_payload (id : Option EventId) :
    anchorCalldata (fun _ => "") (payload id) = .ok calldata :=
  anchorCalldata_eq_ok.2 ⟨_, hexDecode_hexEncode _, rfl⟩

end SampleAnchorTx

open SampleAnchorTx in
/-- Two ids of the head event under one commitment. -/
theorem anchorCalldata_two_ids :
    ∃ (p q : SizedPayload) (data : Bytes), p.1.headEventId ≠ q.1.headEventId ∧
      anchorCalldata (fun _ => "") p = .ok data ∧ anchorCalldata (fun _ => "") q = .ok data :=
  have hnone := calldata_payload none
  ⟨payload none, payload (some ⟨1⟩), _, nofun, hnone,
    (anchorCalldata_eq_iff hnone).2 ⟨rfl, rfl, rfl⟩⟩

/-- A transaction that is sent has the commitment as its data, goes to the configured address and
moves nothing. -/
def Commits (D : Rlp.Decoder) (hexError : String → String) (anchor : ChainAnchor)
    (payload : AnchorPayload) : RpcOp → Prop
  | .sendRawTransaction rawHex =>
    ∃ raw tx, rawHex = "0x" ++ hexEncode raw ∧ Evm.decodeEvmTx D raw = .ok tx ∧
      anchorCalldata hexError payload = .ok tx.data ∧ tx.toAddr = some anchor.toAddr ∧
      tx.value = 0 ∧ tx.gasLimit = anchor.gasLimit
  | _ => True

theorem configuredOr_uses {α : Type} {value : Option α}
    {ask : ExceptT AuditError (Prog RpcOp RpcOp.Res) α} {allowed : RpcOp → Prop}
    (hask : ask.run.Uses allowed) : (configuredOr value ask).run.Uses allowed := by
  cases value with
  | some a => trivial
  | none => exact hask

/-- **Whatever the node answers, the transaction it is sent carries the commitment**, as the policy
decoder reads it. -/
theorem submit_uses {D : Rlp.Decoder} (hD : D.Canonical) (c : Crypto) (anchor : ChainAnchor)
    {payload : AnchorPayload} (hdate : (utf8 payload.dateUtc).length < 2 ^ 62) :
    (anchor.submit c hexError payload).run.Uses (Commits D hexError anchor payload) := by
  unfold ChainAnchor.submit
  -- what is asked before is no transaction
  refine .run_bind (configuredOr_uses (.orThrow ⟨trivial, fun _ => trivial⟩))
    fun chainId => ?_
  refine .run_bind (.orThrow ⟨trivial, fun _ => trivial⟩) fun nonce => ?_
  refine .run_bind (configuredOr_uses (.orThrow ⟨trivial, fun _ => trivial⟩))
    fun gasPrice => ?_
  refine .ofExcept_bind fun data hdata => .ofExcept_bind fun signed hsigned => ?_
  obtain ⟨head, -, hlayout⟩ := anchorCalldata_eq_ok.1 hdata
  have hlen : LegacyFields.Addressable
      ⟨nonce, gasPrice, anchor.gasLimit, anchor.toAddr, 0, data⟩ := by
    have htag : (utf8 "qfc-audit-anchor-v1\x00").length = 20 := by decide
    simp only [LegacyFields.Addressable, hlayout, List.length_append, length_toBe,
      head.length_bytes, htag]
    omega
  obtain ⟨sig, recid, -, rfl⟩ := signLegacyTx_eq_ok.1 hsigned
  refine .orThrow ⟨?_, fun _ => trivial⟩
  exact ⟨_, _, rfl, decodeEvmTx_signedTx hD hlen chainId sig recid, hdata, rfl, rfl, rfl⟩

namespace SampleAnchorTx

/-- An operator who asks the node for everything. -/
def anchor : ChainAnchor := ⟨.replicate 32 0x46, .zero 20, .zero 20, none, 100000, none⟩

/-- What it sends when the node says chain 1, nonce 9 and a gas price of 7. -/
def rawHex : String :=
  "0x" ++ hexEncode (signedTx ⟨9, 7, 100000, .zero 20, 0, calldata⟩ 1 signature 0)

def exchange : List (Prog.Event RpcOp RpcOp.Res) :=
  [⟨.chainId, .ok 1⟩, ⟨.transactionCount (.zero 20), .ok 9⟩, ⟨.gasPrice, .ok 7⟩,
    ⟨.sendRawTransaction rawHex, .ok "0x01"⟩]

theorem submit_sends :
    (anchor.submit crypto (fun _ => "") (payload none)).run.After exchange (.ret (.ok "0x01")) := by
  unfold ChainAnchor.submit
  rw [calldata_payload]
  exact .cons _ _ _ (.cons _ _ _ (.cons _ _ _ (.cons _ _ _ (.nil _))))

end SampleAnchorTx

open SampleAnchorTx

/-- The transaction is sent, and carries the commitment. -/
theorem submit_uses_sends :
    (anchor.submit crypto (fun _ => "") (payload none)).run.After exchange (.ret (.ok "0x01")) ∧
      Commits Rlp.reference (fun _ => "") anchor (payload none) (.sendRawTransaction rawHex) :=
  ⟨submit_sends, (submit_uses reference_canonical _ _ (by decide)).allowed_of_mem submit_sends
      (x := ⟨.sendRawTransaction rawHex, .ok "0x01"⟩)
      (by simp [exchange])⟩

end Commitment

end QfcServerWallet.Audit
