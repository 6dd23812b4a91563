import QfcServerWallet.Lib.Js
import QfcServerWallet.Quorum.Approval

/-!
# The preimage of an approval, in TypeScript

`buildSigningPreimage` of `clients/approver-ts/src/preimage.ts`, which an approver signs, against
`signing_preimage`, which the server and the enclave verify.

* The ids are JavaScript strings and the time is a `bigint`: the function is defined for more than
  the server's ids and `i64` times.
* `off` is written out as the program counts it.

Results: `writeTimestamp_eq`, `signingPreimage_inj` and **`preimage_implemented_twice`**.
-/

namespace QfcServerWallet.Quorum

open Lib

namespace Ts

/-- The decision of an approver. -/
inductive Decision where
  | approve
  | reject
  deriving DecidableEq

/-- What the preimage is about. -/
structure PreimageInputs where
  approvalId : List UInt16
  requestId : List UInt16
  messageHash : Bytes
  decision : Decision
  timestampUnixMs : Int

/-- `PREIMAGE_LEN` -/
def preimageLen : Nat := 97

/-- The loop over `i = 7, …, 0`, here from the number of bytes that are left. -/
def writeTimestamp (off : Nat) : Nat → Bytes → Int → Bytes
  | 0, out, _ => out
  | i + 1, out, ts =>
    let out := out.set (off + i) (UInt8.ofNat (Int.land ts 0xff).toNat)
    writeTimestamp off i out (ts >>> (8 : Nat))

/-- The bytes that are signed. -/
def buildSigningPreimage (inputs : PreimageInputs) : Except Js.Error Bytes := do
  if inputs.approvalId.length ≠ 26 then
    throw (.rangeError ("approvalId must be 26 chars, got " ++ toString inputs.approvalId.length))
  if inputs.requestId.length ≠ 26 then
    throw (.rangeError ("requestId must be 26 chars, got " ++ toString inputs.requestId.length))
  if inputs.messageHash.length ≠ 32 then
    throw (.rangeError
      ("messageHash must be 32 bytes, got " ++ toString inputs.messageHash.length))
  let out : Bytes := List.replicate preimageLen 0
  let off := 0
  let out ← Js.setBlock out (Js.encode inputs.approvalId) off
  let off := off + 26
  let out := out.set off 0x7c
  let off := off + 1
  let out ← Js.setBlock out (Js.encode inputs.requestId) off
  let off := off + 26
  let out := out.set off 0x7c
  let off := off + 1
  let out ← Js.setBlock out inputs.messageHash off
  let off := off + 32
  let out := out.set off 0x7c
  let off := off + 1
  let out := out.set off (if inputs.decision = .approve then 0x01 else 0x00)
  let off := off + 1
  let out := out.set off 0x7c
  let off := off + 1
  let out := writeTimestamp off 8 out inputs.timestampUnixMs
  let off := off + 8
  if off ≠ preimageLen then
    throw (.error ("preimage length sanity check failed: " ++ toString off ++ " != "
      ++ toString preimageLen))
  return out

end Ts

/-! ## The time -/

theorem toBe_emod_succ (w : Nat) (ts : Int) :
    toBe (w + 1) (ts % 256 ^ (w + 1)).toNat =
      toBe w (ts / 256 % 256 ^ w).toNat ++ [UInt8.ofNat (ts % 256).toNat] := by
  have hpow : (0 : Int) < 256 ^ w := by positivity
  have hnonneg := Int.emod_nonneg (ts / 256) hpow.ne'
  have hlt := Int.emod_lt_of_pos (ts / 256) hpow
  have hsplit : ts % 256 ^ (w + 1) = 256 * (ts / 256 % 256 ^ w) + ts % 256 := by
    have hts : ts = 256 * (ts / 256 % 256 ^ w) + ts % 256
        + 256 ^ (w + 1) * (ts / 256 / 256 ^ w) := by
      have hquot := Int.mul_ediv_add_emod (ts / 256) (256 ^ w)
      rw [pow_succ, mul_comm (256 ^ w) 256, mul_assoc]
      omega
    conv_lhs => rw [hts]
    rw [Int.add_mul_emod_self_left]
    refine Int.emod_eq_of_lt (by omega) ?_
    rw [pow_succ]
    omega
  have hdiv : (256 * (ts / 256 % 256 ^ w) + ts % 256).toNat / 256
      = (ts / 256 % 256 ^ w).toNat := by omega
  have hmod : (256 * (ts / 256 % 256 ^ w) + ts % 256).toNat % 256 = (ts % 256).toNat := by omega
  rw [hsplit, toBe_succ, hdiv, hmod]

theorem int64Be_eq (t : Int64) : int64Be t = toBe 8 (t.toInt % 256 ^ 8).toNat := by
  have hmod : t.toInt % 256 ^ 8 = (t.toUInt64.toNat : Int) := by
    have hlt := t.toUInt64.toNat_lt
    rw [← Int64.toInt_toBitVec, BitVec.toInt_eq_toNat_bmod, show (256 : Int) ^ 8 = (2 ^ 64 : Nat)
      from rfl, Int.bmod_emod]
    exact Int.emod_eq_of_lt (by omega) (by exact_mod_cast hlt)
  rw [int64Be, hmod, Int.toNat_natCast]

/-- The loop writes the big-endian two's complement. -/
theorem writeTimestamp_eq {off : Nat} {written : Bytes} (hoff : written.length = off)
    (i : Nat) (rest : Bytes) (ts : Int) :
    Ts.writeTimestamp off i (written ++ List.replicate i 0 ++ rest) ts =
      written ++ toBe i (ts % 256 ^ i).toNat ++ rest := by
  -- the bytes come from the right: `rest` grows and the number is shifted
  induction i generalizing rest ts with
  | zero => rfl
  | succ i ih =>
    have hset : (written ++ List.replicate (i + 1) 0 ++ rest).set (off + i)
          (UInt8.ofNat (Int.land ts 0xff).toNat)
        = written ++ List.replicate i 0 ++ ([UInt8.ofNat (ts % 256).toNat] ++ rest) := by
      rw [Js.land_255, List.replicate_succ', ← List.append_assoc, List.append_assoc _ [0],
        List.singleton_append, Js.set_append_cons (by simp [hoff]), List.append_assoc _ _ rest]
    have hshift : ts >>> (8 : Nat) = ts / 256 := Int.shiftRight_eq_div_pow ts 8
    simp only [Ts.writeTimestamp]
    rw [hset, ih, hshift, toBe_emod_succ]
    simp only [List.append_assoc]

example : Ts.writeTimestamp 0 8 (List.replicate 8 0) (-2) =
    [0xff, 0xff, 0xff, 0xff, 0xff, 0xff, 0xff, 0xfe] := by decide +kernel

/-! ## Both implementations -/

/-- The decision in the client's types. -/
def ApprovalDecision.toTs : ApprovalDecision → Ts.Decision
  | approve => .approve
  | reject => .reject

/-- The canonical text of an id, as a JavaScript string. -/
def jsText {k : IdKind} (id : Ident k) : List UInt16 := Js.ofString id.toString

theorem length_jsText {k : IdKind} (id : Ident k) : (jsText id).length = 26 := by
  have hascii : ∀ w n, ∀ c ∈ digits 32 crockford w n, c.toNat < 0x10000 := by
    have hdigit : ∀ i < 32, (crockford i).toNat < 0x10000 := by decide
    intro w
    induction w with
    | zero => exact fun n c hc => absurd hc List.not_mem_nil
    | succ w ih =>
      intro n c hc
      rcases List.mem_append.1 hc with hc | hc
      · exact ih (n / 32) c hc
      · rw [List.mem_singleton.1 hc]
        exact hdigit (n % 32) (Nat.mod_lt n (by decide))
  have hchars : id.toString.toList = digits 32 crockford 26 id.ulid.toNat :=
    String.toList_ofList
  rw [jsText, Js.length_ofString (hchars ▸ hascii 26 _), hchars, length_digits]

theorem encode_jsText {k : IdKind} (id : Ident k) : Js.encode (jsText id) = id.textBytes :=
  Js.encode_ofString _

/-- What an approver passes for a server's ids and an `i64` time. -/
def tsInputs (approvalId : ApprovalId) (requestId : RequestId) (messageHash : FixedBytes 32)
    (decision : ApprovalDecision) (timestampUnixMs : Int64) : Ts.PreimageInputs :=
  ⟨jsText approvalId, jsText requestId, messageHash.bytes, decision.toTs, timestampUnixMs.toInt⟩

variable (approvalId : ApprovalId) (requestId : RequestId) (messageHash : FixedBytes 32)
  (decision : ApprovalDecision) (timestampUnixMs : Int64)

theorem write_tail {written : Bytes} (hwritten : written.length = 86) (decisionByte : UInt8) :
    Ts.writeTimestamp 89 8 ((((written ++ List.replicate 11 0).set 86 0x7c).set 87
        decisionByte).set 88 0x7c) timestampUnixMs.toInt =
      written ++ [0x7c] ++ [decisionByte] ++ [0x7c] ++ int64Be timestampUnixMs := by
  have h87 : (written ++ [0x7c]).length = 87 := by rw [List.length_append, hwritten]; rfl
  have h88 : (written ++ [0x7c] ++ [decisionByte]).length = 88 := by
    rw [List.length_append, h87]
    rfl
  have h89 : (written ++ [0x7c] ++ [decisionByte] ++ [0x7c]).length = 89 := by
    rw [List.length_append, h88]
    rfl
  have htime := writeTimestamp_eq h89 8 [] timestampUnixMs.toInt
  rw [List.append_nil, List.append_nil] at htime
  rw [Js.set_fill hwritten, Js.set_fill h87, Js.set_fill h88, htime, int64Be_eq]

theorem buildSigningPreimage_eq :
    Ts.buildSigningPreimage
        (tsInputs approvalId requestId messageHash decision timestampUnixMs) =
      .ok (signingPreimage approvalId requestId messageHash decision timestampUnixMs) := by
  have hid := approvalId.length_textBytes
  have hrequest := requestId.length_textBytes
  have hhash := messageHash.length_bytes
  have h27 : (approvalId.textBytes ++ [0x7c]).length = 27 := by rw [List.length_append, hid]; rfl
  have h53 : (approvalId.textBytes ++ [0x7c] ++ requestId.textBytes).length = 53 := by
    rw [List.length_append, h27, hrequest]
  have h54 : (approvalId.textBytes ++ [0x7c] ++ requestId.textBytes ++ [0x7c]).length = 54 := by
    rw [List.length_append, h53]
    rfl
  have h86 : (approvalId.textBytes ++ [0x7c] ++ requestId.textBytes ++ [0x7c]
      ++ messageHash.bytes).length = 86 := by
    rw [List.length_append, h54, hhash]
  have hfirst := @Js.setBlock_fill [] approvalId.textBytes 0 26 71 rfl hid
  rw [List.nil_append, List.nil_append] at hfirst
  unfold Ts.buildSigningPreimage tsInputs
  simp only [length_jsText, hhash, encode_jsText, ne_eq, not_true_eq_false, if_false,
    Ts.preimageLen, Nat.reduceAdd]
  rw [hfirst]
  simp only [bind, Except.bind]
  rw [Js.set_fill hid, Js.setBlock_fill h27 hrequest]
  dsimp only
  rw [Js.set_fill h53, Js.setBlock_fill h54 hhash]
  dsimp only
  rw [write_tail _ h86]
  cases decision <;> simp [signingPreimage, ApprovalDecision.toTs, pure, Except.pure]

theorem length_signingPreimage :
    (signingPreimage approvalId requestId messageHash decision timestampUnixMs).length = 97 := by
  simp [signingPreimage, messageHash.length_bytes]

variable {approvalId requestId messageHash decision timestampUnixMs}

/-- The preimage determines what it is about. -/
theorem signingPreimage_inj {approvalId' : ApprovalId} {requestId' : RequestId}
    {messageHash' : FixedBytes 32} {decision' : ApprovalDecision} {timestampUnixMs' : Int64}
    (h : signingPreimage approvalId requestId messageHash decision timestampUnixMs =
      signingPreimage approvalId' requestId' messageHash' decision' timestampUnixMs') :
    approvalId = approvalId' ∧ requestId = requestId' ∧ messageHash = messageHash' ∧
      decision = decision' ∧ timestampUnixMs = timestampUnixMs' := by
  unfold signingPreimage at h
  obtain ⟨hfront, htail⟩ := List.append_inj h (by simp [FixedBytes.length_bytes])
  obtain ⟨hids, hhash⟩ := List.append_inj hfront (by simp)
  obtain ⟨hid, hrequest⟩ := List.append_inj hids (by simp)
  simp only [List.cons.injEq, true_and] at hrequest hhash htail
  refine ⟨Ident.textBytes_inj hid, Ident.textBytes_inj hrequest, FixedBytes.ext hhash, ?_,
    int64Be_inj htail.2⟩
  cases decision <;> cases decision' <;> first | rfl | cases htail.1

variable (approvalId requestId messageHash decision timestampUnixMs)

/-- **The approver's client and the server build the same 97 bytes, and these determine what was
approved.** -/
theorem preimage_implemented_twice :
    Ts.buildSigningPreimage
        (tsInputs approvalId requestId messageHash decision timestampUnixMs) =
      .ok (signingPreimage approvalId requestId messageHash decision timestampUnixMs) ∧
    (signingPreimage approvalId requestId messageHash decision timestampUnixMs).length = 97 ∧
    ∀ approvalId' requestId' messageHash' decision' timestampUnixMs',
      signingPreimage approvalId requestId messageHash decision timestampUnixMs =
        signingPreimage approvalId' requestId' messageHash' decision' timestampUnixMs' →
      approvalId = approvalId' ∧ requestId = requestId' ∧ messageHash = messageHash' ∧
        decision = decision' ∧ timestampUnixMs = timestampUnixMs' :=
  ⟨buildSigningPreimage_eq .., length_signingPreimage .., fun _ _ _ _ _ => signingPreimage_inj⟩

end QfcServerWallet.Quorum
