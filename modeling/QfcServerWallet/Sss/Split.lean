import QfcServerWallet.Lib.Primality
import QfcServerWallet.Lib.Sharing
import QfcServerWallet.Sss.Shamir
import Mathlib.Data.ZMod.Basic
import Mathlib.Tactic.NormNum.Prime

/-!
# Splitting a secret

`qfc-sss/src/shamir.rs`: `ShamirParams::validate`, `split_secret`, `scalar_from_bytes` and
`scalar_to_bytes`.

* A secret is written after its length, padded with zeros to blocks of 31 bytes, and each block is
  split on its own, as the scalar with a zero byte before it. The blob of a share is the length and
  its share of every block.
* `k256::Scalar` is the field of integers modulo the order of secp256k1 (`Scalar`).
* `vsss_rs::shamir::split_secret` is a parameter (`VsssSplit`). The coefficients it draws for a
  block are an argument, so that a run of `split_secret` is a function of one choice of coefficients
  per block. What it and `combine_shares` are documented to compute are `VsssSplit.Evaluates` and
  `CombinesAtZero`; `vsssSplitReference` and `vsssCombineReference` compute it.
* `chunk_shares[share_idx]` would panic on a list that is too short. `u8::try_from(share_idx + 1)`
  cannot fail, since `total` is a `u8`.

Results: `secp256k1Order_prime`, `validate_ok_iff`, `length_prefixedSecret` and
`splitSecret_ok_iff`.
-/

namespace QfcServerWallet.Sss

open Lib

variable {params : ShamirParams} {secret : Bytes} {split : VsssSplit} {k : Nat}

/-! ## Scalars -/

/-- The order of secp256k1. -/
def secp256k1Order : Nat := 0xFFFFFFFFFFFFFFFFFFFFFFFFFFFFFFFEBAAEDCE6AF48A03BBFD25E8CD0364141

theorem secp256k1Order_prime : secp256k1Order.Prime := by
  have h₁ : Nat.Prime 44706919 :=
    prime_of_lucas 32 6 [(2, 1), (3, 1), (797, 1), (9349, 1)]
      ⟨by norm_num, by norm_num, by norm_num, by norm_num⟩ (by decide +kernel)
  have h₂ : Nat.Prime 545358713 :=
    prime_of_lucas 32 5 [(2, 3), (41, 1), (59, 1), (28181, 1)]
      ⟨by norm_num, by norm_num, by norm_num, by norm_num⟩ (by decide +kernel)
  have h₃ : Nat.Prime 297159362677 :=
    prime_of_lucas 64 2 [(2, 2), (3, 2), (11, 1), (461, 1), (1627771, 1)]
      ⟨by norm_num, by norm_num, by norm_num, by norm_num, by norm_num⟩ (by decide +kernel)
  have h₄ : Nat.Prime 107361793816595537 :=
    prime_of_lucas 64 3 [(2, 4), (16699, 1), (85831, 1), (4681609, 1)]
      ⟨by norm_num, by norm_num, by norm_num, by norm_num⟩ (by decide +kernel)
  have h₅ : Nat.Prime 174723607534414371449 :=
    prime_of_lucas 128 3 [(2, 3), (17, 1), (59, 1), (4051, 1), (120233, 1), (44706919, 1)]
      ⟨by norm_num, by norm_num, by norm_num, by norm_num, by norm_num, h₁⟩ (by decide +kernel)
  have h₆ : Nat.Prime 29047611873442575647497758179 :=
    prime_of_lucas 128 2 [(2, 1), (293, 1), (305873, 1), (545358713, 1), (297159362677, 1)]
      ⟨by norm_num, by norm_num, by norm_num, h₂, h₃⟩ (by decide +kernel)
  have h₇ : Nat.Prime 341948486974166000522343609283189 :=
    prime_of_lucas 128 2 [(2, 2), (3, 3), (109, 1), (29047611873442575647497758179, 1)]
      ⟨by norm_num, by norm_num, by norm_num, h₆⟩ (by decide +kernel)
  exact prime_of_lucas 256 7 [(2, 6), (3, 1), (149, 1), (631, 1), (107361793816595537, 1),
    (174723607534414371449, 1), (341948486974166000522343609283189, 1)]
    ⟨by norm_num, by norm_num, by norm_num, by norm_num, h₄, h₅, h₇⟩ (by decide +kernel)

instance : Fact secp256k1Order.Prime := ⟨secp256k1Order_prime⟩

/-- `k256::Scalar` -/
abbrev Scalar := ZMod secp256k1Order

/-- `scalar_from_bytes`. -/
def scalarFromBytes (bytes : FixedBytes 32) : Except ShareError Scalar :=
  if ofBe bytes.bytes < secp256k1Order then .ok (ofBe bytes.bytes : Scalar)
  else .error (.vsss "chunk exceeds secp256k1 scalar order")

/-- `scalar_to_bytes`. -/
def scalarToBytes (s : Scalar) : FixedBytes 32 := .ofNat 32 s.val

theorem ofBe_scalarToBytes (s : Scalar) : ofBe (scalarToBytes s).bytes = s.val := by
  have horder : secp256k1Order < 256 ^ 32 := by decide +kernel
  exact ofBe_toBe_of_lt ((ZMod.val_lt s).trans horder)

/-! ## The dependency -/

/-- `[u8; 33]`: the share of one scalar with its identifier. -/
def chunkShare (identifier : Nat) (value : Scalar) : FixedBytes 33 :=
  ⟨UInt8.ofNat identifier :: (scalarToBytes value).bytes, by
    rw [List.length_cons, (scalarToBytes value).length_bytes]⟩

/-- `shamir::split_secret` of one scalar, with threshold, total and the coefficients it draws. -/
abbrev VsssSplit :=
  (threshold total : Nat) → Scalar → (Nat → Scalar) → Except String (List (FixedBytes 33))

/-- The shares are the values at `1, …, total` of a polynomial of degree below the threshold, with
the scalar at zero and the drawn coefficients. -/
def VsssSplit.Evaluates (split : VsssSplit) : Prop :=
  ∀ (threshold total : Nat) (s : Scalar) (coefficients : Nat → Scalar),
    2 ≤ threshold → threshold ≤ total → total ≤ 255 →
    split threshold total s coefficients = .ok ((List.range total).map fun i =>
      chunkShare (i + 1)
        (shareAt s (fun j : Fin (threshold - 1) => coefficients j) ((i + 1 : Nat) : Scalar)))

/-- `combine_shares` is Lagrange interpolation at zero. -/
def CombinesAtZero (c : Crypto) : Prop :=
  ∀ points : List (Nat × Scalar), 2 ≤ points.length → (∀ p ∈ points, 1 ≤ p.1 ∧ p.1 ≤ 255) →
    (points.map Prod.fst).Nodup →
    c.vsssCombine (points.map fun p => chunkShare p.1 p.2) =
      .ok (scalarToBytes (interpolateAtZero (points.map fun p => ((p.1 : Scalar), p.2))))

/-- A function that evaluates the polynomial. -/
def vsssSplitReference : VsssSplit := fun threshold total s coefficients =>
  if threshold < 2 then .error "SharingMinThreshold"
  else if total < threshold then .error "SharingLimitLessThanThreshold"
  else if 255 < total then .error "SharingMaxRequest"
  else .ok ((List.range total).map fun i =>
    chunkShare (i + 1)
      (shareAt s (fun j : Fin (threshold - 1) => coefficients j) ((i + 1 : Nat) : Scalar)))

theorem vsssSplitReference_evaluates : vsssSplitReference.Evaluates := by
  intro threshold total s coefficients htwo hle htotal
  unfold vsssSplitReference
  rw [if_neg (Nat.not_lt.2 htwo), if_neg (Nat.not_lt.2 hle), if_neg (Nat.not_lt.2 htotal)]

/-- The identifier and the value of a share. -/
def sharePoint (share : FixedBytes 33) : Nat × Scalar :=
  (ofBe (share.bytes.take 1), (ofBe (share.bytes.drop 1) : Scalar))

theorem sharePoint_chunkShare {identifier : Nat} (h : identifier ≤ 255) (value : Scalar) :
    sharePoint (chunkShare identifier value) = (identifier, value) := by
  have hid : ofBe [UInt8.ofNat identifier] = identifier := by
    simp only [ofBe, List.foldl_cons, List.foldl_nil, UInt8.toNat_ofNat']
    omega
  have hvalue : (ofBe (scalarToBytes value).bytes : Scalar) = value := by
    rw [ofBe_scalarToBytes, ZMod.natCast_zmod_val]
  exact Prod.ext hid hvalue

/-- A function that interpolates. -/
def vsssCombineReference (shares : List (FixedBytes 33)) : Except String (FixedBytes 32) :=
  let points := shares.map sharePoint
  if points.length < 2 then .error "SharingMinThreshold"
  else if points.any fun p => p.1 = 0 then .error "SharingInvalidIdentifier"
  else if ¬ (points.map Prod.fst).Nodup then .error "SharingDuplicateIdentifier"
  else .ok (scalarToBytes (interpolateAtZero (points.map fun p => ((p.1 : Scalar), p.2))))

theorem vsssCombineReference_combines {c : Crypto} (hc : c.vsssCombine = vsssCombineReference) :
    CombinesAtZero c := by
  intro points hlength hids hnodup
  have hpoints : (points.map fun p => chunkShare p.1 p.2).map sharePoint = points := by
    rw [List.map_map]
    refine (List.map_congr_left fun p hp => ?_).trans (List.map_id points)
    exact sharePoint_chunkShare (hids p hp).2 p.2
  have hnonzero : (points.any fun p => p.1 = 0) = false := by
    rw [List.any_eq_false]
    intro p hp
    have := (hids p hp).1
    simp only [decide_eq_true_eq]
    omega
  rw [hc, vsssCombineReference, hpoints]
  simp only [Nat.not_lt.2 hlength, hnonzero, hnodup, not_true_eq_false, Bool.false_eq_true,
    if_false]

/-! ## Splitting -/

/-- `CHUNK_DATA_BYTES`: bytes of the secret in one block. -/
def chunkDataBytes : Nat := 31

/-- The check of the parameters. -/
def ShamirParams.validate (p : ShamirParams) : Except ShareError Unit :=
  if p.threshold < 2 then
    .error (.invalidParameters p.threshold p.total
      "threshold must be >= 2 (a 1-of-N scheme is not secret sharing)")
  else if p.threshold > p.total then
    .error (.invalidParameters p.threshold p.total "threshold must be <= total")
  else .ok ()

/-- `while prefixed.len() % CHUNK_DATA_BYTES != 0`, for a number of iterations. -/
def pad : Nat → Bytes → Bytes
  | 0, b => b
  | n + 1, b => if b.length % chunkDataBytes ≠ 0 then pad n (b ++ [0]) else b

/-- The length, the secret and the padding. The loop ends after at most thirty zeros. -/
def prefixedSecret (secret : Bytes) : Bytes :=
  pad chunkDataBytes (uint32Be (UInt32.ofNat secret.length) ++ secret)

/-- The shares of one block. -/
def splitChunk (split : VsssSplit) (params : ShamirParams) (coefficients : Nat → Scalar)
    (chunk : Bytes) : Except (Fault ShareError) (List (FixedBytes 33)) :=
  match FixedBytes.ofBytes? 32 (0 :: chunk) with
  | none => .error .panic
  | some fieldBytes => do
    let scalar ← orFault (scalarFromBytes fieldBytes)
    match split params.threshold.toNat params.total.toNat scalar coefficients with
    | .ok shares => .ok shares
    | .error e => .error (.err (.vsss e))

/-- `chunk_shares[share_idx]` -/
def shareOfChunk (shareIdx : Nat) (chunkShares : List (FixedBytes 33)) :
    Except (Fault ShareError) Bytes :=
  match chunkShares[shareIdx]? with
  | some share => .ok share.bytes
  | none => .error .panic

/-- `split_secret`, with the coefficients drawn for each block. -/
def splitSecret (split : VsssSplit) (secret : Bytes) (params : ShamirParams)
    (coefficients : Nat → Nat → Scalar) : Except (Fault ShareError) (List ShamirShare) := do
  orFault params.validate
  if secret.isEmpty then .error (.err (.invalidSecret "secret must not be empty"))
  else if 2 ^ 32 ≤ secret.length then
    .error (.err (.invalidSecret "secret length exceeds 2^32"))
  else
    let secretLen := UInt32.ofNat secret.length
    let prefixed := prefixedSecret secret
    let chunkCount := prefixed.length / chunkDataBytes
    let perChunkShares ← (List.range chunkCount).mapM fun k =>
      splitChunk split params (coefficients k) (piece chunkDataBytes prefixed k)
    (List.range params.total.toNat).mapM fun shareIdx => do
      let chunks ← perChunkShares.mapM (shareOfChunk shareIdx)
      .ok ⟨UInt8.ofNat (shareIdx + 1), params, uint32Be secretLen ++ chunks.flatten⟩

/-! ## What is shared -/

/-- Which parameters are valid. -/
theorem validate_ok_iff :
    params.validate = .ok () ↔
      2 ≤ params.threshold.toNat ∧ params.threshold.toNat ≤ params.total.toNat := by
  unfold ShamirParams.validate
  split
  · next h =>
    rw [UInt8.lt_iff_toNat_lt] at h
    have : params.threshold.toNat < 2 := h
    constructor
    · intro h'
      cases h'
    · omega
  · next h =>
    rw [UInt8.not_lt, UInt8.le_iff_toNat_le] at h
    have hthreshold : 2 ≤ params.threshold.toNat := h
    split
    · next hgt =>
      rw [gt_iff_lt, UInt8.lt_iff_toNat_lt] at hgt
      constructor
      · intro h'
        cases h'
      · omega
    · next hle =>
      rw [gt_iff_lt, UInt8.not_lt, UInt8.le_iff_toNat_le] at hle
      exact ⟨fun _ => ⟨hthreshold, hle⟩, fun _ => rfl⟩

theorem pad_spec (n : Nat) (b : Bytes) :
    (∃ zeros, pad n b = b ++ zeros) ∧
      ((chunkDataBytes - b.length % chunkDataBytes) % chunkDataBytes ≤ n →
        (pad n b).length % chunkDataBytes = 0) := by
  induction n generalizing b with
  | zero =>
    refine ⟨⟨[], by simp [pad]⟩, fun h => ?_⟩
    simp only [pad, chunkDataBytes] at h ⊢
    omega
  | succ n ih =>
    by_cases hfull : b.length % chunkDataBytes = 0
    · have hpad : pad (n + 1) b = b := by simp [pad, hfull]
      rw [hpad]
      exact ⟨⟨[], by simp⟩, fun _ => hfull⟩
    · have hpad : pad (n + 1) b = pad n (b ++ [0]) := by simp [pad, hfull]
      obtain ⟨⟨zeros, hzeros⟩, hlength⟩ := ih (b ++ [0])
      rw [hpad]
      refine ⟨⟨0 :: zeros, by simp [hzeros]⟩, fun h => hlength ?_⟩
      rw [List.length_append, List.length_singleton]
      simp only [chunkDataBytes] at h hfull ⊢
      omega

theorem exists_zeros (secret : Bytes) : ∃ zeros, prefixedSecret secret
    = uint32Be (UInt32.ofNat secret.length) ++ (secret ++ zeros) := by
  obtain ⟨zeros, hzeros⟩ :=
    (pad_spec chunkDataBytes (uint32Be (UInt32.ofNat secret.length) ++ secret)).1
  exact ⟨zeros, hzeros.trans (List.append_assoc _ _ _)⟩

/-- The number of blocks of a secret. -/
def chunkCount (secret : Bytes) : Nat := (prefixedSecret secret).length / chunkDataBytes

/-- The padding fills the last block. -/
theorem length_prefixedSecret (secret : Bytes) :
    (prefixedSecret secret).length = chunkCount secret * chunkDataBytes := by
  have hmod := (pad_spec chunkDataBytes (uint32Be (UInt32.ofNat secret.length) ++ secret)).2 (by
    simp only [chunkDataBytes]
    omega)
  exact (Nat.div_mul_cancel (Nat.dvd_of_mod_eq_zero hmod)).symm

theorem length_pad_congr (n : Nat) {b b' : Bytes} (h : b.length = b'.length) :
    (pad n b).length = (pad n b').length := by
  induction n generalizing b b' with
  | zero => exact h
  | succ n ih =>
    have hnext : (b ++ [0]).length = (b' ++ [0]).length := by
      rw [List.length_append, List.length_append, h]
    simp only [pad, h]
    split
    · exact ih hnext
    · exact h

theorem chunkCount_congr {secret secret' : Bytes} (h : secret.length = secret'.length) :
    chunkCount secret = chunkCount secret' := by
  unfold chunkCount prefixedSecret
  rw [length_pad_congr]
  rw [List.length_append, List.length_append, length_uint32Be, length_uint32Be, h]

/-- The `k`-th block. -/
def chunk (secret : Bytes) (k : Nat) : Bytes := piece chunkDataBytes (prefixedSecret secret) k

/-- The scalar that is shared for the `k`-th block. -/
def chunkScalar (secret : Bytes) (k : Nat) : Scalar := (ofBe (chunk secret k) : Scalar)

theorem length_chunk (hk : k < chunkCount secret) : (chunk secret k).length = chunkDataBytes :=
  length_piece (length_prefixedSecret secret) hk

theorem ofBe_chunk_lt (hk : k < chunkCount secret) : ofBe (chunk secret k) < secp256k1Order := by
  have hlt := ofBe_lt (chunk secret k)
  rw [length_chunk hk] at hlt
  exact hlt.trans (by decide +kernel)

theorem bytes_chunkScalar (hk : k < chunkCount secret) :
    (scalarToBytes (chunkScalar secret k)).bytes = 0 :: chunk secret k := by
  have hlength : (0 :: chunk secret k).length = 32 := by
    rw [List.length_cons, length_chunk hk]
    rfl
  have hzero : ofBe (0 :: chunk secret k) = ofBe (chunk secret k) := by simp [ofBe]
  have hval : (chunkScalar secret k).val = ofBe (0 :: chunk secret k) := by
    rw [hzero, chunkScalar, ZMod.val_natCast, Nat.mod_eq_of_lt (ofBe_chunk_lt hk)]
  unfold scalarToBytes FixedBytes.ofNat
  rw [hval]
  exact hlength ▸ toBe_ofBe (0 :: chunk secret k)

/-- The share at one position of the `k`-th block. -/
def chunkShareAt (secret : Bytes) (params : ShamirParams) (coefficients : Nat → Scalar)
    (k shareIdx : Nat) : FixedBytes 33 :=
  chunkShare (shareIdx + 1) (shareAt (chunkScalar secret k)
    (fun j : Fin (params.threshold.toNat - 1) => coefficients j) ((shareIdx + 1 : Nat) : Scalar))

/-- The share at one position. -/
def shareOf (secret : Bytes) (params : ShamirParams) (coefficients : Nat → Nat → Scalar)
    (shareIdx : Nat) : ShamirShare where
  index := UInt8.ofNat (shareIdx + 1)
  params := params
  blob := uint32Be (UInt32.ofNat secret.length) ++ (List.range (chunkCount secret)).flatMap fun k =>
    (chunkShareAt secret params (coefficients k) k shareIdx).bytes

theorem splitChunk_eq (hsplit : split.Evaluates) (hparams : params.validate = .ok ())
    (hk : k < chunkCount secret) (coefficients : Nat → Scalar) :
    splitChunk split params coefficients (chunk secret k) =
      .ok ((List.range params.total.toNat).map (chunkShareAt secret params coefficients k)) := by
  obtain ⟨htwo, hle⟩ := validate_ok_iff.1 hparams
  have hfield : FixedBytes.ofBytes? 32 (0 :: chunk secret k)
      = some (scalarToBytes (chunkScalar secret k)) :=
    FixedBytes.ofBytes?_eq_some.2 (bytes_chunkScalar hk)
  have hscalar : scalarFromBytes (scalarToBytes (chunkScalar secret k))
      = .ok (chunkScalar secret k) := by
    unfold scalarFromBytes
    rw [ofBe_scalarToBytes, if_pos (ZMod.val_lt _), ZMod.natCast_zmod_val]
  have htotal : params.total.toNat ≤ 255 := Nat.le_of_lt_succ params.total.toNat_lt
  simp only [splitChunk, hfield, hscalar,
    hsplit params.threshold.toNat params.total.toNat _ coefficients htwo hle htotal]
  rfl

theorem shareOfChunk_eq {shareIdx : Nat} (hidx : shareIdx < params.total.toNat)
    (share : Nat → FixedBytes 33) :
    shareOfChunk shareIdx ((List.range params.total.toNat).map share)
      = .ok (share shareIdx).bytes := by
  simp only [shareOfChunk, List.getElem?_map, List.getElem?_range hidx, Option.map_some]

theorem splitSecret_eq (hsplit : split.Evaluates) (hparams : params.validate = .ok ())
    (hne : secret ≠ []) (hlength : secret.length < 2 ^ 32) (coefficients : Nat → Nat → Scalar) :
    splitSecret split secret params coefficients =
      .ok ((List.range params.total.toNat).map (shareOf secret params coefficients)) := by
  have hchunks : (List.range (chunkCount secret)).mapM (fun k =>
      splitChunk split params (coefficients k) (chunk secret k)) = .ok _ :=
    mapM_eq_ok_map fun k hk => splitChunk_eq hsplit hparams (List.mem_range.1 hk) (coefficients k)
  have hempty : secret.isEmpty = false := by simpa using hne
  unfold splitSecret
  rw [hparams]
  simp only [orFault, hempty, Bool.false_eq_true, if_false, Nat.not_le.2 hlength]
  change ((List.range (chunkCount secret)).mapM (fun k =>
      splitChunk split params (coefficients k) (chunk secret k)) >>= _) = _
  rw [hchunks]
  refine mapM_eq_ok_map fun shareIdx hidx => ?_
  -- the blocks' shares at this position, one after the other
  have hblocks : (List.range (chunkCount secret)).mapM (shareOfChunk shareIdx ∘ fun k =>
      (List.range params.total.toNat).map (chunkShareAt secret params (coefficients k) k))
      = .ok _ :=
    mapM_eq_ok_map fun k _ => shareOfChunk_eq (List.mem_range.1 hidx) _
  rw [List.mapM_map, hblocks]
  rfl

/-- **With valid parameters `split_secret` succeeds on the secrets of a length it accepts.** -/
theorem splitSecret_ok_iff (hsplit : split.Evaluates) (hparams : params.validate = .ok ())
    {coefficients : Nat → Nat → Scalar} {shares : List ShamirShare} :
    splitSecret split secret params coefficients = .ok shares ↔
      secret ≠ [] ∧ secret.length < 2 ^ 32 ∧
        shares = (List.range params.total.toNat).map (shareOf secret params coefficients) := by
  constructor
  · intro h
    obtain ⟨-, hbody⟩ := seq_eq_ok.1 h
    have hne : secret ≠ [] := by
      rintro rfl
      cases hbody
    have hlength : secret.length < 2 ^ 32 := by
      by_contra hlong
      rw [if_neg (by simpa using hne), if_pos (Nat.not_lt.1 hlong)] at hbody
      cases hbody
    rw [splitSecret_eq hsplit hparams hne hlength] at h
    exact ⟨hne, hlength, (Except.ok.inj h).symm⟩
  · rintro ⟨hne, hlength, rfl⟩
    exact splitSecret_eq hsplit hparams hne hlength coefficients

end QfcServerWallet.Sss
