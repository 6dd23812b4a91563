import QfcServerWallet.Quorum.TsPreimage

/-!
# Hex text in the TypeScript approver

`bytesToHex` and `hexToBytes` of `clients/approver-ts/src/preimage.ts`, and the part of
`Processor.process` (`processor.ts`) that turns a request into the approval it submits.

* `hexToBytes` means to reject what is not hex (`invalid hex byte at offset …`), but it asks
  `parseInt` about each pair, and `parseInt` reads a number from `1g`, from ` 1` and from `+1`; an
  element of a `Uint8Array` then takes `-1` as 255.
* The approver signs the bytes that were read and sends back the text it was shown.

Results: `exists_hexToBytes_iff`, `bytesToHex_hexToBytes_iff` and **`hex_faithful_iff`**.
-/

namespace QfcServerWallet.Quorum

open Lib

namespace Ts

/-- The hex text of bytes. -/
def bytesToHex (buf : Bytes) : List UInt16 :=
  buf.flatMap fun b => Js.padStart 2 0x30 (Js.toStringHex b.toNat)

/-- `hex.startsWith("0x") ? hex.slice(2) : hex` -/
def without0x (hex : List UInt16) : List UInt16 :=
  if hex.take 2 = [0x30, 0x78] then hex.drop 2 else hex

/-- The body of the loop. -/
def hexByte (s : List UInt16) (i : Nat) : Except Js.Error UInt8 :=
  match Js.parseIntHex (piece 2 s i) with
  | none => throw (.rangeError ("invalid hex byte at offset " ++ toString (i * 2)))
  | some byte => return Js.toUint8 byte

/-- The bytes of a hex text. -/
def hexToBytes (hex : List UInt16) : Except Js.Error Bytes := do
  let s := without0x hex
  if s.length % 2 ≠ 0 then
    throw (.rangeError ("hex string has odd length: " ++ toString s.length))
  (List.range (s.length / 2)).mapM (hexByte s)

/-- The schemes of a signer. -/
inductive Scheme where
  | ed25519
  | secp256k1
  deriving DecidableEq

/-- The schemes on the wire. -/
inductive SchemeWire where
  | ed25519
  | secp256k1
  | secp256k1Recoverable
  | mlDsa44
  | mlDsa65
  | mlDsa87
  deriving DecidableEq

/-- The scheme as it is written. -/
def schemeToWire : Scheme → SchemeWire
  | .ed25519 => .ed25519
  | .secp256k1 => .secp256k1

/-- An identity on the wire. -/
inductive ApproverIdentityWire where
  | chain (chainId : Nat) (addressHex publicKeyHex : List UInt16) (scheme : SchemeWire)
  | external (id publicKeyHex : List UInt16) (scheme : SchemeWire)
  | hardware (handle publicKeyHex : List UInt16) (scheme : SchemeWire)
  | nestedWallet (walletId publicKeyHex : List UInt16) (scheme : SchemeWire)
  deriving DecidableEq

/-- What `process` reads of the configuration once it was decided. -/
structure ProcessorConfig where
  approverId : List UInt16
  scheme : Scheme
  secret : Bytes
  identity : Option ApproverIdentityWire

/-- A submission on the wire. -/
structure SubmitApprovalWire where
  approverId : List UInt16
  approvalId : List UInt16
  decision : Decision
  signatureHex : List UInt16
  timestampUnixMs : Int
  messageHashHex : List UInt16
  identity : ApproverIdentityWire
  deriving DecidableEq

/-- `signer.ts` -/
structure Signer where
  signApproval : Scheme → Bytes → Bytes → Except Js.Error Bytes
  publicKeyFor : Scheme → Bytes → Except Js.Error Bytes

/-- Who is said to approve. -/
def identityForWire (signer : Signer) (cfg : ProcessorConfig) :
    Except Js.Error ApproverIdentityWire :=
  match cfg.identity with
  | some identity => return identity
  | none => do
    let publicKey ← signer.publicKeyFor cfg.scheme cfg.secret
    return .external cfg.approverId (bytesToHex publicKey) (schemeToWire cfg.scheme)

/-- The body that `process` posts for a decision, with the fresh id and the time it takes. -/
def submission (signer : Signer) (cfg : ProcessorConfig) (requestId messageHashText : List UInt16)
    (decision : Decision) (approvalId : List UInt16) (timestampUnixMs : Int) :
    Except Js.Error SubmitApprovalWire := do
  let messageHash ← hexToBytes messageHashText
  if messageHash.length ≠ 32 then
    throw (.rangeError
      ("message_hash must decode to 32 bytes, got " ++ toString messageHash.length))
  let preimage ← buildSigningPreimage
    ⟨approvalId, requestId, messageHash, decision, timestampUnixMs⟩
  let signature ← signer.signApproval cfg.scheme cfg.secret preimage
  let identity ← identityForWire signer cfg
  return ⟨cfg.approverId, approvalId, decision, bytesToHex signature, timestampUnixMs,
    messageHashText, identity⟩

end Ts

open Ts

variable {s : List UInt16} {b : Bytes}

/-! ## One pair -/

theorem piece_eq_pair {i : Nat} (heven : s.length % 2 = 0) (hi : i < s.length / 2) :
    ∃ x y, piece 2 s i = [x, y] :=
  List.length_eq_two.1 (length_piece (by omega) hi)

theorem exists_hexByte_iff {i : Nat} (heven : s.length % 2 = 0) (hi : i < s.length / 2) :
    (∃ byte, hexByte s i = .ok byte) ↔ Js.isNumeric (piece 2 s i) = true := by
  obtain ⟨x, y, hpair⟩ := piece_eq_pair heven hi
  have hnone := Js.parseIntHex_eq_none_iff x y
  unfold hexByte
  rw [hpair]
  cases hread : Js.parseIntHex [x, y] with
  | none => simp [hnone.1 hread, throw, throwThe, MonadExceptOf.throw]
  | some n =>
    have hnumeric : Js.isNumeric [x, y] ≠ false := fun h => by simp [hnone.2 h] at hread
    simp [Bool.ne_false_iff.1 hnumeric, pure, Except.pure]

theorem hexByte_of_isHexUnit {i : Nat} (heven : s.length % 2 = 0) (hi : i < s.length / 2)
    (hhex : ∀ u ∈ s, Js.isHexUnit u = true) :
    ∃ byte, hexByte s i = .ok byte ∧
      Js.padStart 2 0x30 (Js.toStringHex byte.toNat) = (piece 2 s i).map Js.toLower := by
  obtain ⟨x, y, hpair⟩ := piece_eq_pair heven hi
  have hmem : ∀ u ∈ [x, y], (Js.hexUnit? u).isSome = true := fun u hu =>
    hhex u (List.mem_of_mem_drop (List.mem_of_mem_take (hpair ▸ hu)))
  obtain ⟨m, hm⟩ := Option.isSome_iff_exists.1 (hmem x (by simp))
  obtain ⟨n, hn⟩ := Option.isSome_iff_exists.1 (hmem y (by simp))
  obtain ⟨hm16, hxlower⟩ := Js.hexUnit?_eq_some hm
  obtain ⟨hn16, hylower⟩ := Js.hexUnit?_eq_some hn
  have hbyte : (Js.toUint8 (m * 16 + n : Nat)).toNat = m * 16 + n := by
    rw [Js.toUint8, UInt8.toNat_ofNat']
    omega
  refine ⟨Js.toUint8 (m * 16 + n : Nat), by rw [hexByte, hpair, Js.parseIntHex_pair hm hn]; rfl, ?_⟩
  rw [hpair, hbyte, Js.padStart_toStringHex _ (by omega), show (m * 16 + n) / 16 = m by omega,
    show (m * 16 + n) % 16 = n by omega, List.map_cons, List.map_cons, List.map_nil, hxlower,
    hylower]

/-! ## A text -/

theorem hexToBytes_eq_ok :
    hexToBytes s = .ok b ↔ (without0x s).length % 2 = 0 ∧
      (List.range ((without0x s).length / 2)).mapM (hexByte (without0x s)) = .ok b := by
  unfold hexToBytes
  by_cases heven : (without0x s).length % 2 = 0
  · simp [heven]
  · simp [heven, bind, Except.bind, throw, throwThe, MonadExceptOf.throw]

/-- **A text is decoded iff `parseInt` reads a number from each of its pairs.** -/
theorem exists_hexToBytes_iff :
    (∃ b, hexToBytes s = .ok b) ↔ (without0x s).length % 2 = 0 ∧
      ∀ i < (without0x s).length / 2, Js.isNumeric (piece 2 (without0x s) i) = true := by
  simp only [hexToBytes_eq_ok, exists_and_left]
  refine and_congr_right fun heven => ⟨fun ⟨b, hb⟩ i hi => ?_, fun h => ?_⟩
  · obtain ⟨byte, -, hbyte⟩ :=
      exists_right_of_forall₂ (mapM_eq_ok_iff.1 hb) (List.mem_range.2 hi)
    exact (exists_hexByte_iff heven hi).1 ⟨byte, hbyte⟩
  · refine exists_mapM_eq_ok fun i hi => ?_
    have hi := List.mem_range.1 hi
    exact (exists_hexByte_iff heven hi).2 (h i hi)

theorem isHexUnit_of_mem_bytesToHex {u : UInt16} (hu : u ∈ bytesToHex b) :
    Js.isHexUnit u = true := by
  obtain ⟨byte, -, hu⟩ := List.mem_flatMap.1 hu
  have hlt := byte.toNat_lt
  rw [Js.padStart_toStringHex _ hlt] at hu
  rcases List.mem_cons.1 hu with rfl | hu
  · exact Js.isHexUnit_hexUnit _ (by omega)
  · rw [List.mem_singleton.1 hu]
    exact Js.isHexUnit_hexUnit _ (by omega)

/-- **A decoded text is the hex form of the bytes iff it is made of hex digits.** -/
theorem bytesToHex_hexToBytes_iff (h : hexToBytes s = .ok b) :
    bytesToHex b = (without0x s).map Js.toLower ↔ ∀ u ∈ without0x s, Js.isHexUnit u = true := by
  obtain ⟨heven, hread⟩ := hexToBytes_eq_ok.1 h
  constructor
  · intro heq u hu
    rw [← Js.isHexUnit_toLower]
    exact isHexUnit_of_mem_bytesToHex (heq ▸ List.mem_map_of_mem hu)
  · intro hhex
    choose! byte hbyte using fun i (hi : i ∈ List.range ((without0x s).length / 2)) =>
      hexByte_of_isHexUnit heven (List.mem_range.1 hi) hhex
    cases hread.symm.trans (mapM_eq_ok_map fun i hi => (hbyte i hi).1)
    have hpieces := flatMap_piece (l := without0x s) (w := 2)
      (n := (without0x s).length / 2) (by omega)
    conv_rhs => rw [← hpieces, List.map_flatMap]
    rw [bytesToHex, List.flatMap_map]
    exact List.flatMap_congr fun i hi => (hbyte i hi).2

/-! ## What is signed and what is sent back -/

/-- The signature of a submission is over this hash, for the request. -/
def SignsHash (signer : Signer) (cfg : ProcessorConfig) (requestId : List UInt16)
    (messageHash : Bytes) (body : SubmitApprovalWire) : Prop :=
  ∃ preimage signature,
    buildSigningPreimage ⟨body.approvalId, requestId, messageHash, body.decision,
      body.timestampUnixMs⟩ = .ok preimage ∧
    signer.signApproval cfg.scheme cfg.secret preimage = .ok signature ∧
    body.signatureHex = bytesToHex signature

theorem signsHash_of_submission {signer : Signer} {cfg : ProcessorConfig}
    {requestId approvalId : List UInt16} {decision : Decision} {now : Int}
    {body : SubmitApprovalWire}
    (h : submission signer cfg requestId s decision approvalId now = .ok body) :
    body.messageHashHex = s ∧
      ∃ messageHash, hexToBytes s = .ok messageHash ∧
        SignsHash signer cfg requestId messageHash body := by
  obtain ⟨messageHash, hdecode, h⟩ := bind_eq_ok.1 h
  split at h
  · cases h
  · obtain ⟨preimage, hpreimage, h⟩ := bind_eq_ok.1 h
    obtain ⟨signature, hsignature, h⟩ := bind_eq_ok.1 h
    obtain ⟨identity, -, h⟩ := bind_eq_ok.1 h
    cases h
    exact ⟨rfl, messageHash, hdecode, preimage, signature, hpreimage, hsignature, rfl⟩

/-- `parseInt` reads a number from every pair, and some unit is no hex digit. -/
def Misread (s : List UInt16) : Prop :=
  (without0x s).length % 2 = 0 ∧
    (∀ i < (without0x s).length / 2, Js.isNumeric (piece 2 (without0x s) i) = true) ∧
    ∃ u ∈ without0x s, Js.isHexUnit u = false

theorem misread_iff :
    Misread s ↔ ∃ b, hexToBytes s = .ok b ∧ bytesToHex b ≠ (without0x s).map Js.toLower := by
  have hunit : (∃ u ∈ without0x s, Js.isHexUnit u = false) ↔
      ¬ ∀ u ∈ without0x s, Js.isHexUnit u = true := by
    simp
  rw [Misread, ← and_assoc, ← exists_hexToBytes_iff, hunit, ← exists_and_right]
  exact exists_congr fun b => and_congr_right fun hb =>
    not_congr (bytesToHex_hexToBytes_iff hb).symm

/-- **The approver decodes hex faithfully, and signs the hash whose text it sends back, exactly for
the texts that `parseInt` does not misread.** -/
theorem hex_faithful_iff (s : List UInt16) :
    (((∃ e, hexToBytes s = .error e) ∨
        ∃ b, hexToBytes s = .ok b ∧ bytesToHex b = (without0x s).map Js.toLower) ∧
      ∀ signer cfg requestId decision approvalId now body,
        submission signer cfg requestId s decision approvalId now = .ok body →
        ∃ messageHash, hexToBytes s = .ok messageHash ∧
          SignsHash signer cfg requestId messageHash body ∧
          bytesToHex messageHash = (without0x body.messageHashHex).map Js.toLower) ↔
      ¬ Misread s := by
  rw [misread_iff]
  constructor
  · rintro ⟨⟨e, he⟩ | ⟨b, hb, heq⟩, -⟩ ⟨b', hb', hne⟩
    · cases he.symm.trans hb'
    · cases hb.symm.trans hb'
      exact hne heq
  · intro h
    have hfaithful : ∀ b, hexToBytes s = .ok b → bytesToHex b = (without0x s).map Js.toLower :=
      fun b hb => by_contra fun hne => h ⟨b, hb, hne⟩
    refine ⟨?_, fun signer cfg requestId decision approvalId now body hbody => ?_⟩
    · cases hdecode : hexToBytes s with
      | error e => exact .inl ⟨e, rfl⟩
      | ok b => exact .inr ⟨b, rfl, hfaithful b hdecode⟩
    · obtain ⟨htext, messageHash, hdecode, hsigns⟩ := signsHash_of_submission hbody
      exact ⟨messageHash, hdecode, hsigns, htext.symm ▸ hfaithful messageHash hdecode⟩

namespace SampleHex

/-- A signer whose signatures are the preimages. -/
def signer : Signer := ⟨fun _ _ preimage => .ok preimage, fun _ _ => .ok []⟩

def cfg : ProcessorConfig := ⟨[], .ed25519, [], none⟩

/-- An id of 26 characters. -/
def id : List UInt16 := List.replicate 26 0x30

/-- `1g` for each of the 32 bytes of a hash. -/
def text : List UInt16 := (List.replicate 32 [0x31, 0x67]).flatten

end SampleHex

open SampleHex in
/-- The text is decoded, and what is signed is another hash than the one that is sent back. -/
theorem misread_hash_signed :
    hexToBytes text = .ok (List.replicate 32 1) ∧
      bytesToHex (List.replicate 32 1) ≠ (without0x text).map Js.toLower ∧
      ∃ body, submission signer cfg SampleHex.id text .approve SampleHex.id 0 = .ok body ∧
        body.messageHashHex = text ∧
        SignsHash signer cfg SampleHex.id (List.replicate 32 1) body := by
  have hdecode : hexToBytes text = .ok (List.replicate 32 1) := by decide +kernel
  have hbody : (submission signer cfg SampleHex.id text .approve SampleHex.id 0).isOk = true := by
    decide +kernel
  obtain ⟨body, hbody⟩ := exists_ok_of_isOk hbody
  obtain ⟨htext, messageHash, hdecode', hsigns⟩ := signsHash_of_submission hbody
  cases hdecode.symm.trans hdecode'
  exact ⟨hdecode, by decide +kernel, body, hbody, htext, hsigns⟩

end QfcServerWallet.Quorum
