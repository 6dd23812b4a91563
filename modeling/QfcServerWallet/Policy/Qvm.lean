import QfcServerWallet.Lib.Borsh
import QfcServerWallet.Policy.RuleSet

/-!
# The QVM envelope decoder

`qfc-policy/src/decoders/qvm.rs`: `decode_qvm_tx` reads five fields off the front of a borsh-encoded
transaction and drops the rest, whatever it is.

* The formats of `borsh` are a parameter. The reads of `from_slice` are those of the formats of the
  fields, one after another (`fromSlice_eq`).
* A `Transaction` of `qfc-core` has an opaque `data` after them; `toVec` is its encoding.
* The amount is a little-endian number of any width. More than thirty-two bytes are not read: the
  value is then the largest `U256`.

Results: `decodeQvmTx_eq_ok`, **`decodeQvmTx_reports`** and `amount_le_of_allows`.
-/

namespace QfcServerWallet.Policy.Qvm

open Lib

variable (borsh : Borsh.Primitives) {env : QvmTxEnvelope}

/-! ## The decoder -/

/-- The types of transactions. -/
inductive QvmTxType where
  | transfer
  | contractCreate
  | contractCall
  | other (discriminant : UInt8)
  deriving DecidableEq, Repr

/-- The type of a byte. -/
def QvmTxType.fromDiscriminant (d : UInt8) : QvmTxType :=
  if d = 0 then .transfer
  else if d = 1 then .contractCreate
  else if d = 2 then .contractCall
  else .other d

/-- What the policy sees of a transaction. -/
structure DecodedQvmTx where
  txType : QvmTxType
  chainId : UInt64
  toAddr : Bytes
  value : U256
  gasLimit : UInt64
  deriving DecidableEq

/-- The fields the decoder reads. -/
structure QvmTxEnvelope where
  txTypeDisc : UInt8
  chainId : UInt64
  toAddr : Bytes
  value : Bytes
  gasLimit : UInt64
  deriving DecidableEq

/-- Why bytes are not decoded. -/
inductive QvmDecodeError where
  | empty
  | borsh (text : String)
  deriving DecidableEq, Repr

/-- Reads the five fields. -/
def QvmTxEnvelope.fromSlice (buf : Bytes) : Except QvmDecodeError QvmTxEnvelope := do
  let (txTypeDisc, buf) ← (borsh.u8.read buf).mapError .borsh
  let (chainId, buf) ← (borsh.u64.read buf).mapError .borsh
  let (toAddr, buf) ← (borsh.bytes.read buf).mapError .borsh
  let (value, buf) ← (borsh.bytes.read buf).mapError .borsh
  let (gasLimit, buf) ← (borsh.u64.read buf).mapError .borsh
  -- `data` is parsed and dropped, and so is the error if it does not parse
  let _data := if buf.isEmpty then none else (borsh.bytes.read buf).toOption
  return ⟨txTypeDisc, chainId, toAddr, value, gasLimit⟩

/-- The amount, which saturates. -/
def valueBytesToU256 (bytes : Bytes) : U256 :=
  if bytes.isEmpty then 0
  else if 32 < bytes.length then BitVec.allOnes 256
  else BitVec.ofNat 256 (ofLe (bytes ++ List.replicate (32 - bytes.length) 0))

/-- The decoder. -/
def decodeQvmTx (raw : Bytes) : Except QvmDecodeError DecodedQvmTx :=
  if raw.isEmpty then .error .empty
  else do
    let env ← QvmTxEnvelope.fromSlice borsh raw
    let value := valueBytesToU256 env.value
    return ⟨.fromDiscriminant env.txTypeDisc, env.chainId, env.toAddr, value, env.gasLimit⟩

/-- `From<DecodedQvmTx> for DecodedTx` -/
def DecodedQvmTx.toDecodedTx (tx : DecodedQvmTx) : DecodedTx where
  chainId := tx.chainId
  toAddr := if tx.toAddr.isEmpty then none else some tx.toAddr
  value := some tx.value
  gasLimit := some tx.gasLimit
  methodSelector := none
  rawArgs := none

/-- `QvmDecoder::decode` -/
def qvmDecoder : VmDecoder := fun vm raw =>
  if vm ≠ .qvm then none
  else match decodeQvmTx borsh raw with
    | .ok tx => some tx.toDecodedTx
    | .error _ => none

/-! ## The format -/

/-- The fields in the order of the wire. -/
def QvmTxEnvelope.fields :
    UInt8 × UInt64 × Bytes × Bytes × UInt64 ≃ QvmTxEnvelope where
  toFun x := ⟨x.1, x.2.1, x.2.2.1, x.2.2.2.1, x.2.2.2.2⟩
  invFun env := (env.txTypeDisc, env.chainId, env.toAddr, env.value, env.gasLimit)
  left_inv _ := rfl
  right_inv _ := rfl

/-- The format of the five fields. -/
def QvmTxEnvelope.layout : Borsh.Format QvmTxEnvelope :=
  (borsh.u8.pair (borsh.u64.pair (borsh.bytes.pair (borsh.bytes.pair borsh.u64)))).iso fields

/-- A transaction of `qfc-core`. -/
structure Transaction extends QvmTxEnvelope where
  data : Bytes

/-- `borsh::to_vec` -/
def Transaction.toVec (t : Transaction) : Option Bytes :=
  ((QvmTxEnvelope.layout borsh).pair borsh.bytes).toVec (t.toQvmTxEnvelope, t.data)

variable {borsh}

theorem mapError_bind {ε δ α β : Type} (x : Except ε α) (f : α → Except ε β) (g : ε → δ) :
    (x >>= f).mapError g = x.mapError g >>= fun a => (f a).mapError g := by
  cases x with
  | error e => rfl
  | ok a => rfl

open QvmTxEnvelope

theorem fromSlice_eq (buf : Bytes) :
    fromSlice borsh buf = ((layout borsh).read buf >>= fun x => pure x.1).mapError .borsh := by
  simp only [fromSlice, layout, Borsh.Format.iso, Borsh.Format.pair,
    bind_assoc, pure_bind, mapError_bind]
  rfl

theorem fromSlice_eq_ok {buf : Bytes} :
    fromSlice borsh buf = .ok env ↔
      ∃ front rest, (layout borsh).toVec env = some front ∧ buf = front ++ rest := by
  rw [fromSlice_eq, mapError_eq_ok, bind_eq_ok]
  constructor
  · rintro ⟨⟨env', rest⟩, hread, h⟩
    cases h
    obtain ⟨front, hfront, rfl⟩ := (layout borsh).read_iff.1 hread
    exact ⟨front, rest, hfront, rfl⟩
  · rintro ⟨front, rest, h⟩
    exact ⟨(env, rest), (layout borsh).read_iff.2 ⟨front, h⟩, rfl⟩

theorem layout_toVec_ne_nil : (layout borsh).toVec env ≠ some [] := by
  intro h
  simp only [layout, Borsh.Format.iso, Borsh.Format.pair, Option.bind_eq_bind,
    Option.bind_eq_some_iff] at h
  obtain ⟨front, hfront, back, -, hnil⟩ := h
  obtain ⟨rfl, -⟩ := List.append_eq_nil_iff.1 (Option.some.inj hnil)
  exact borsh.u8_ne_nil _ hfront

/-- What the decoder makes of the fields. -/
def QvmTxEnvelope.decoded (env : QvmTxEnvelope) : DecodedQvmTx :=
  ⟨.fromDiscriminant env.txTypeDisc, env.chainId, env.toAddr, valueBytesToU256 env.value,
    env.gasLimit⟩

/-- **The decoder accepts exactly the encodings of the five fields, followed by anything.** -/
theorem decodeQvmTx_eq_ok {raw : Bytes} {tx : DecodedQvmTx} :
    decodeQvmTx borsh raw = .ok tx ↔
      ∃ env front rest, (layout borsh).toVec env = some front ∧ raw = front ++ rest ∧
        tx = env.decoded := by
  unfold decodeQvmTx
  constructor
  · intro h
    split_ifs at h with hraw
    obtain ⟨env, henv, htx⟩ := bind_eq_ok.1 h
    obtain ⟨front, rest, hfront, rfl⟩ := fromSlice_eq_ok.1 henv
    exact ⟨env, front, rest, hfront, rfl, (Except.ok.inj htx).symm⟩
  · rintro ⟨env, front, rest, hfront, hsplit, rfl⟩
    have henv := fromSlice_eq_ok.2 ⟨front, rest, hfront, hsplit⟩
    -- the test for an empty payload is no loss: the first read fails on one
    have hraw : ¬ raw.isEmpty = true := by
      rw [List.isEmpty_iff]
      rintro rfl
      obtain ⟨rfl, -⟩ := List.append_eq_nil_iff.1 hsplit.symm
      exact layout_toVec_ne_nil hfront
    rw [if_neg hraw]
    exact bind_eq_ok.2 ⟨env, henv, rfl⟩

/-! ## What is reported -/

theorem toNat_valueBytesToU256 {b : Bytes} (hb : b.length ≤ 32) :
    (valueBytesToU256 b).toNat = ofLe b := by
  unfold valueBytesToU256
  split_ifs with hempty hlong
  · rw [List.isEmpty_iff.1 hempty]
    rfl
  · omega
  · have hlt : ofLe b < 2 ^ 256 :=
      calc ofLe b < 256 ^ b.length := ofLe_lt b
        _ ≤ 256 ^ 32 := Nat.pow_le_pow_right (by decide) hb
    rw [ofLe_append_replicate_zero, BitVec.toNat_ofNat, Nat.mod_eq_of_lt hlt]

theorem toNat_valueBytesToU256_of_long {b : Bytes} (hb : 32 < b.length) :
    (valueBytesToU256 b).toNat = 2 ^ 256 - 1 := by
  have hempty : ¬ b.isEmpty = true := by
    rw [List.isEmpty_iff]
    rintro rfl
    cases hb
  rw [valueBytesToU256, if_neg hempty, if_pos hb, BitVec.toNat_allOnes]

/-- The decoded transaction has the fields of the envelope, with no smaller value as far as a
`U256` can be that large. -/
structure DecodedQvmTx.Reports (tx : DecodedQvmTx) (env : QvmTxEnvelope) : Prop where
  txType : tx.txType = .fromDiscriminant env.txTypeDisc
  chainId : tx.chainId = env.chainId
  toAddr : tx.toAddr = env.toAddr
  gasLimit : tx.gasLimit = env.gasLimit
  value : env.value.length ≤ 32 → tx.value.toNat = ofLe env.value
  value_of_long : 32 < env.value.length → min (ofLe env.value) (2 ^ 256 - 1) ≤ tx.value.toNat

theorem QvmTxEnvelope.decoded_reports (env : QvmTxEnvelope) : env.decoded.Reports env where
  txType := rfl
  chainId := rfl
  toAddr := rfl
  gasLimit := rfl
  value h := toNat_valueBytesToU256 h
  value_of_long h := by
    rw [decoded, toNat_valueBytesToU256_of_long h]
    exact Nat.min_le_right _ _

theorem Transaction.toVec_eq_some {t : Transaction} {bytes : Bytes}
    (h : t.toVec borsh = some bytes) :
    ∃ front back, (layout borsh).toVec t.toQvmTxEnvelope = some front ∧ bytes = front ++ back := by
  simp only [Transaction.toVec, Borsh.Format.pair, Option.bind_eq_bind,
    Option.bind_eq_some_iff] at h
  obtain ⟨front, hfront, back, -, hbytes⟩ := h
  exact ⟨front, back, hfront, (Option.some.inj hbytes).symm⟩

/-- **What is decoded from a transaction depends neither on its data nor on the bytes after it and
does not understate the amount, and everything that is accepted starts with fields that are reported
like this.** -/
theorem decodeQvmTx_reports (borsh : Borsh.Primitives) :
    (∀ env : QvmTxEnvelope, ∃ tx : DecodedQvmTx, tx.Reports env ∧
      ∀ data trailing bytes : Bytes, (Transaction.mk env data).toVec borsh = some bytes →
        decodeQvmTx borsh (bytes ++ trailing) = .ok tx) ∧
    (∀ (raw : Bytes) (tx : DecodedQvmTx), decodeQvmTx borsh raw = .ok tx →
      ∃ env front rest, (layout borsh).toVec env = some front ∧ raw = front ++ rest ∧
        tx.Reports env) := by
  constructor
  · intro env
    refine ⟨env.decoded, env.decoded_reports, ?_⟩
    intro data trailing bytes hbytes
    obtain ⟨front, back, hfront, rfl⟩ := Transaction.toVec_eq_some hbytes
    exact decodeQvmTx_eq_ok.2 ⟨env, front, back ++ trailing, hfront, List.append_assoc .., rfl⟩
  · intro raw tx h
    obtain ⟨env, front, rest, hfront, hraw, rfl⟩ := decodeQvmTx_eq_ok.1 h
    exact ⟨env, front, rest, hfront, hraw, env.decoded_reports⟩

/-! ### Two transactions

A transfer of 256, and a transaction of an unknown type whose amount has thirty-three bytes. -/

namespace SampleQvm

/-- A transfer of 256. -/
def transfer : Transaction where
  txTypeDisc := 0
  chainId := 9
  toAddr := [0xab, 0xcd]
  value := [0, 1]
  gasLimit := 21000
  data := [1, 2, 3]

/-- An amount of 33 bytes. -/
def wide : Transaction :=
  { transfer with txTypeDisc := 7, value := 1 :: List.replicate 32 0, data := [] }

def transferBytes : Bytes :=
  [0, 9, 0, 0, 0, 0, 0, 0, 0, 2, 0, 0, 0, 0xab, 0xcd, 2, 0, 0, 0, 0, 1,
    8, 0x52, 0, 0, 0, 0, 0, 0, 3, 0, 0, 0, 1, 2, 3]

theorem toVec_transfer : transfer.toVec Borsh.reference = some transferBytes := by decide +kernel

end SampleQvm

/-- The transfer is reported as such with bytes after it that are no encoding of anything. -/
theorem decodeQvmTx_reports_transfer :
    ∃ tx : DecodedQvmTx, decodeQvmTx Borsh.reference (SampleQvm.transferBytes ++ [0xff]) = .ok tx ∧
      tx.txType = .transfer ∧ tx.value.toNat = 256 := by
  obtain ⟨tx, hreports, hdecode⟩ :=
    (decodeQvmTx_reports Borsh.reference).1 SampleQvm.transfer.toQvmTxEnvelope
  refine ⟨tx, hdecode _ [0xff] _ SampleQvm.toVec_transfer, hreports.txType, ?_⟩
  rw [hreports.value (by decide)]
  decide

/-- The amount 1 in thirty-three bytes is reported as the largest value. -/
example : ((SampleQvm.wide.toVec Borsh.reference).map (decodeQvmTx Borsh.reference)) =
    some (.ok ⟨.other 7, 9, [0xab, 0xcd], BitVec.allOnes 256, 21000⟩) := by decide +kernel

/-! ## Under a rule set -/

theorem qvmDecoder_eq_some {raw front rest : Bytes}
    (hfront : (layout borsh).toVec env = some front) (hraw : raw = front ++ rest) :
    qvmDecoder borsh .qvm raw = some env.decoded.toDecodedTx := by
  have hdecode := decodeQvmTx_eq_ok.2 ⟨env, front, rest, hfront, hraw, rfl⟩
  rw [qvmDecoder, if_neg (by simp), hdecode]

/-- **A transaction whose amount is above a cap for the declared chain is not allowed**, unless the
cap is the largest value there is. -/
theorem amount_le_of_allows {rules : RuleSet} {request : SigningRequest} {chain : UInt64}
    {toAddr : Option Bytes} {raw front rest : Bytes} {mx : String} {m : U256}
    {decisionId : DecisionId} {limiter : TokenBucketLimiter}
    (hp : request.payload = .vmTransaction .qvm chain toAddr raw)
    (hfront : (layout borsh).toVec env = some front) (hraw : raw = front ++ rest)
    (hrule : Rule.valueCap chain mx ∈ rules.rules) (hm : parseU256 mx = some m)
    (hmax : m.toNat < 2 ^ 256 - 1)
    (h : allows ((RuleSetPolicy.mk rules (some (qvmDecoder borsh))).evaluate decisionId limiter
      request).1 = true) : ofLe env.value ≤ m.toNat := by
  have hchain : ((RuleSetPolicy.mk rules (some (qvmDecoder borsh))).start request).chain
      = some chain := by
    rw [RuleSetPolicy.start, hp, SigningPayload.chainId]
  have hvalue : ((RuleSetPolicy.mk rules (some (qvmDecoder borsh))).start request).decoded.bind
      DecodedTx.value = some env.decoded.value := by
    simp only [RuleSetPolicy.start, RuleSetPolicy.decode, hp, SigningPayload.vm,
      SigningPayload.rawBytes, qvmDecoder_eq_some hfront hraw]
    rfl
  have hle : env.decoded.value.toNat ≤ m.toNat :=
    BitVec.le_def.1 (value_le_of_allows hchain hvalue hm hrule h)
  by_cases hlong : 32 < env.value.length
  · -- a saturated value is above the cap
    rw [decoded, toNat_valueBytesToU256_of_long hlong] at hle
    omega
  · rwa [env.decoded_reports.value (by omega)] at hle

open SampleQvm in
/-- The transfer of 256, under a cap of 256. -/
theorem amount_le_of_allows_transfer : ofLe transfer.value ≤ 256 :=
  @amount_le_of_allows Borsh.reference transfer.toQvmTxEnvelope
    ⟨1, ⟨1⟩, [.valueCap 9 "256"], .allow⟩
    ⟨⟨2⟩, ⟨3⟩, .apiKey "ops", .vmTransaction .qvm 9 none transferBytes, none, 0⟩ 9 none _
    (transferBytes.take 29) _ "256" 256 ⟨4⟩ ⟨fun _ => none, Stream'.const 0⟩ rfl (by decide +kernel)
    (List.take_append_drop 29 _).symm (List.mem_singleton_self _) (by decide +kernel) (by decide)
    (by decide +kernel)

end QfcServerWallet.Policy.Qvm
