import QfcServerWallet.Sss.Combine

/-!
# What `combine_shares` accepts against what `split_secret` writes

`split_secret` writes a secret as blocks of 31 bytes: the length, the secret, zeros up to the end of
the last block. The scalar of a block is the big-endian integer of its bytes, so that it is below
`2 ^ 248`. `combine_shares` reads a scalar of 32 bytes for each block and drops the high byte.

* `blockScalar` is the scalar that the shares of a block interpolate to at zero, for a dependency
  that interpolates (`InterpolatesAtZero`).
* `EncodesAsSplit`: the blocks are those `split_secret` writes for the secret, and no more.

Three things are redundant in that encoding, and `combine_shares` looks at none of them: the high
bytes, the padding, and the number of blocks.

Results: `chunkCount_eq_iff` and **`encodesAsSplit_iff`**.
-/

namespace QfcServerWallet.Sss

open Lib

/-- Where `combine_shares` of the dependency succeeds, it has interpolated at zero. -/
def InterpolatesAtZero (c : Crypto) : Prop :=
  ∀ (l : List (FixedBytes 33)) (out : FixedBytes 32), c.vsssCombine l = .ok out →
    out = scalarToBytes (interpolateAtZero (l.map fun b => (((sharePoint b).1 : Scalar),
      (sharePoint b).2)))

theorem vsssCombineReference_interpolates {c : Crypto}
    (hc : c.vsssCombine = vsssCombineReference) : InterpolatesAtZero c := by
  intro l out h
  rw [hc, vsssCombineReference] at h
  simp only [List.map_map] at h
  split_ifs at h
  exact (Except.ok.inj h).symm

/-- `chunk_count`, from the first share. -/
def blockCount (shares : List ShamirShare) : Nat :=
  match shares with
  | [] => 0
  | first :: _ => (first.blob.length - headerBytes) / perChunkShareBytes

/-- The scalar that the shares of the `k`-th block interpolate to at zero. -/
def blockScalar (shares : List ShamirShare) (k : Nat) : Scalar :=
  interpolateAtZero (shares.map fun s =>
    (((sharePoint (blockShare k s)).1 : Scalar), (sharePoint (blockShare k s)).2))

/-- The bytes that the blocks stand for. -/
def blockBytes (shares : List ShamirShare) : Bytes :=
  (List.range (blockCount shares)).flatMap fun k =>
    (scalarToBytes (blockScalar shares k)).bytes.drop 1

/-- The length in the header of these bytes. -/
def headerLength (shares : List ShamirShare) : Nat := ofBe ((blockBytes shares).take headerBytes)

/-- The scalars of the blocks are those `split_secret` shares for the secret. -/
def EncodesAsSplit (shares : List ShamirShare) (secret : Bytes) : Prop :=
  blockCount shares = chunkCount secret ∧
    ∀ k < blockCount shares, blockScalar shares k = chunkScalar secret k

/-! ## The padding -/

theorem exists_replicate_pad (n : Nat) (b : Bytes) :
    ∃ m, pad n b = b ++ List.replicate m 0 := by
  induction n generalizing b with
  | zero => exact ⟨0, by simp [pad]⟩
  | succ n ih =>
    by_cases hfull : b.length % chunkDataBytes = 0
    · exact ⟨0, by simp [pad, hfull]⟩
    · obtain ⟨m, hm⟩ := ih (b ++ [0])
      refine ⟨m + 1, ?_⟩
      rw [pad, if_pos hfull, hm, List.append_assoc, List.replicate_succ]
      rfl

theorem length_pad_le (n : Nat) (b : Bytes) :
    (pad n b).length ≤
      b.length + (chunkDataBytes - b.length % chunkDataBytes) % chunkDataBytes := by
  induction n generalizing b with
  | zero => exact Nat.le_add_right _ _
  | succ n ih =>
    by_cases hfull : b.length % chunkDataBytes = 0
    · simp [pad, hfull]
    · rw [pad, if_pos hfull]
      refine (ih (b ++ [0])).trans ?_
      rw [List.length_append, List.length_singleton]
      simp only [chunkDataBytes] at hfull ⊢
      omega

theorem prefixedSecret_eq (secret : Bytes) :
    ∃ m, prefixedSecret secret =
      uint32Be (UInt32.ofNat secret.length) ++ (secret ++ List.replicate m 0) := by
  obtain ⟨m, hm⟩ := exists_replicate_pad chunkDataBytes
    (uint32Be (UInt32.ofNat secret.length) ++ secret)
  exact ⟨m, hm.trans (List.append_assoc _ _ _)⟩

/-- **The number of blocks is the least one that holds the length and the secret.** -/
theorem chunkCount_eq_iff {secret : Bytes} {n : Nat} :
    n = chunkCount secret ↔ headerBytes + secret.length ≤ n * chunkDataBytes ∧
      (n - 1) * chunkDataBytes < headerBytes + secret.length := by
  have hlength := length_prefixedSecret secret
  have hle := length_pad_le chunkDataBytes (uint32Be (UInt32.ofNat secret.length) ++ secret)
  rw [← prefixedSecret, hlength, List.length_append, length_uint32Be] at hle
  obtain ⟨m, hm⟩ := prefixedSecret_eq secret
  rw [hm, List.length_append, List.length_append, length_uint32Be, List.length_replicate] at hlength
  simp only [chunkDataBytes, headerBytes] at *
  constructor
  · rintro rfl
    omega
  · rintro ⟨hholds, hleast⟩
    omega

/-! ## Scalars below `2 ^ 248` -/

theorem scalarToBytes_inj {s t : Scalar} (h : scalarToBytes s = scalarToBytes t) : s = t := by
  refine ZMod.val_injective _ ?_
  rw [← ofBe_scalarToBytes, ← ofBe_scalarToBytes, h]

theorem bytes_of_val_lt {s : Scalar} (h : s.val < 2 ^ 248) :
    (scalarToBytes s).bytes = 0 :: (scalarToBytes s).bytes.drop 1 := by
  have hbound : s.val < 256 ^ 31 := h.trans_eq (by norm_num)
  have hvalue : ofBe (0 :: toBe 31 s.val) = s.val := by
    have hzero : ofBe (0 :: toBe 31 s.val) = ofBe (toBe 31 s.val) := by simp [ofBe]
    rw [hzero, ofBe_toBe_of_lt hbound]
  have hbytes : (scalarToBytes s).bytes = 0 :: toBe 31 s.val := by
    have hround := toBe_ofBe (0 :: toBe 31 s.val)
    rwa [hvalue, List.length_cons, length_toBe] at hround
  rw [hbytes]
  rfl

theorem val_chunkScalar_lt {secret : Bytes} {k : Nat} (hk : k < chunkCount secret) :
    (chunkScalar secret k).val < 2 ^ 248 := by
  have hlt := ofBe_lt (chunk secret k)
  rw [length_chunk hk] at hlt
  rw [chunkScalar, ZMod.val_natCast, Nat.mod_eq_of_lt (ofBe_chunk_lt hk)]
  exact hlt.trans_eq (by norm_num [chunkDataBytes])

/-! ## Accepted shares -/

section Accepted

variable {c : Crypto} {shares : List ShamirShare} {secret : Bytes}

theorem Uniform.blockCount_eq {n : Nat} (h : Uniform shares n) : blockCount shares = n := by
  cases shares with
  | nil => exact absurd rfl h.ne_nil
  | cons first rest =>
    rw [blockCount, h.blobs first List.mem_cons_self, Nat.add_sub_cancel_left]
    exact Nat.mul_div_cancel n (by decide)

theorem length_blockBytes (shares : List ShamirShare) :
    (blockBytes shares).length = blockCount shares * chunkDataBytes :=
  length_flatMap_range fun k _ => by
    rw [List.length_drop, FixedBytes.length_bytes]
    rfl

theorem buffer_eq_blockBytes (hc : InterpolatesAtZero c) {scalars : List (FixedBytes 32)}
    (h : blockScalars c shares (List.range (blockCount shares)) = .ok scalars) :
    buffer scalars = blockBytes shares := by
  have hscalars : scalars =
      (List.range (blockCount shares)).map fun k => scalarToBytes (blockScalar shares k) := by
    have hall : List.Forall₂ (fun k b => scalarToBytes (blockScalar shares k) = id b)
        (List.range (blockCount shares)) scalars := by
      refine (mapM_eq_ok_iff.1 h).imp fun k b hb => ?_
      rw [id, hc _ b hb, blockScalar, List.map_map]
      rfl
    rw [map_eq_map_of_forall₂ hall, List.map_id]
  rw [hscalars, buffer, blockBytes, List.flatMap_map]

/-- **Accepted shares stand for the length, the secret and whatever is left of the blocks.** -/
theorem blockBytes_of_accepted (hc : InterpolatesAtZero c)
    (h : combineShares c shares = .ok secret) :
    secret.length = headerLength shares ∧
      ∃ rest, blockBytes shares = uint32Be (UInt32.ofNat secret.length) ++ (secret ++ rest) := by
  obtain ⟨n, first, scalars, huniform, hfirst, hscalars, hfinish⟩ := combineShares_ok_iff.1 h
  obtain ⟨hend, hlen, hsecret⟩ := finish_ok_iff.1 hfinish
  obtain rfl := huniform.blockCount_eq
  rw [buffer_eq_blockBytes hc hscalars] at hend hlen hsecret
  have htake : ((blockBytes shares).take headerBytes).length = headerBytes :=
    List.length_take_of_le (by omega)
  have hlength : secret.length = headerLength shares := by
    rw [headerLength, hsecret, ← hlen, List.length_take_of_le (by rw [List.length_drop]; omega)]
  have hheader : uint32Be (UInt32.ofNat secret.length) = (blockBytes shares).take headerBytes := by
    have hlt := ofBe_lt ((blockBytes shares).take headerBytes)
    rw [htake] at hlt
    rw [hlength, headerLength, uint32Be, UInt32.toNat_ofNat_of_lt' hlt]
    have hround := toBe_ofBe ((blockBytes shares).take headerBytes)
    rwa [htake] at hround
  refine ⟨hlength, ((blockBytes shares).drop headerBytes).drop secret.length, ?_⟩
  have hsplit : secret ++ ((blockBytes shares).drop headerBytes).drop secret.length =
      (blockBytes shares).drop headerBytes := by
    have hfront : secret = ((blockBytes shares).drop headerBytes).take secret.length := by
      rw [hlength, headerLength, hlen]
      exact hsecret
    nth_rewrite 1 [hfront]
    exact List.take_append_drop _ _
  rw [hheader, hsplit, List.take_append_drop]

theorem EncodesAsSplit.blockBytes_eq (h : EncodesAsSplit shares secret) :
    blockBytes shares = prefixedSecret secret := by
  obtain ⟨hcount, hscalars⟩ := h
  have hpieces := flatMap_piece (length_prefixedSecret secret)
  rw [← hcount] at hpieces
  rw [← hpieces, blockBytes, List.flatMap_def, List.flatMap_def]
  refine congrArg List.flatten (List.map_congr_left fun k hk => ?_)
  have hk := List.mem_range.1 hk
  rw [hscalars k hk, bytes_chunkScalar (hcount ▸ hk)]
  rfl

theorem encodesAsSplit_of_blockBytes (hcount : blockCount shares = chunkCount secret)
    (hhigh : ∀ k < blockCount shares, (blockScalar shares k).val < 2 ^ 248)
    (hblocks : blockBytes shares = prefixedSecret secret) : EncodesAsSplit shares secret := by
  refine ⟨hcount, fun k hk => ?_⟩
  have hpiece : (scalarToBytes (blockScalar shares k)).bytes.drop 1 = chunk secret k := by
    have hpieces := piece_flatMap (w := chunkDataBytes)
      (f := fun k => (scalarToBytes (blockScalar shares k)).bytes.drop 1)
      (fun k _ => by rw [List.length_drop, FixedBytes.length_bytes]; rfl) hk
    rw [← hpieces, chunk, ← hblocks]
    rfl
  refine scalarToBytes_inj (FixedBytes.ext ?_)
  rw [bytes_of_val_lt (hhigh k hk), hpiece, bytes_chunkScalar (hcount ▸ hk)]

/-- **Accepted shares are an encoding of `split_secret` iff every scalar is below `2 ^ 248`, the
padding is zero and no block is superfluous.** -/
theorem encodesAsSplit_iff (c : Crypto) (hc : InterpolatesAtZero c) (shares : List ShamirShare)
    (secret : Bytes) (h : combineShares c shares = .ok secret) :
    EncodesAsSplit shares secret ↔
      (∀ k < blockCount shares, (blockScalar shares k).val < 2 ^ 248) ∧
      (∀ b ∈ (blockBytes shares).drop (headerBytes + headerLength shares), b = 0) ∧
      (blockCount shares - 1) * chunkDataBytes < headerBytes + headerLength shares := by
  obtain ⟨hsecret, rest, hrest⟩ := blockBytes_of_accepted hc h
  rw [← hsecret]
  have hlength := length_blockBytes shares
  have hdrop : (blockBytes shares).drop (headerBytes + secret.length) = rest := by
    rw [hrest, ← List.append_assoc]
    exact List.drop_left' (by rw [List.length_append, length_uint32Be]; rfl)
  have hholds : headerBytes + secret.length ≤ blockCount shares * chunkDataBytes := by
    rw [← hlength, hrest, List.length_append, List.length_append, length_uint32Be]
    simp only [headerBytes]
    omega
  obtain ⟨m, hm⟩ := prefixedSecret_eq secret
  rw [hdrop]
  constructor
  · rintro ⟨hcount, hscalars⟩
    refine ⟨fun k hk => ?_, ?_, (chunkCount_eq_iff.1 hcount).2⟩
    · rw [hscalars k hk]
      exact val_chunkScalar_lt (hcount ▸ hk)
    · -- the blocks are those of the secret, and so is what is left of them
      have hblocks := EncodesAsSplit.blockBytes_eq ⟨hcount, hscalars⟩
      rw [hrest, hm] at hblocks
      have hzeros := List.append_cancel_left (List.append_cancel_left hblocks)
      intro b hb
      rw [hzeros] at hb
      exact List.eq_of_mem_replicate hb
  · rintro ⟨hhigh, hzeros, hleast⟩
    have hcount : blockCount shares = chunkCount secret := chunkCount_eq_iff.2 ⟨hholds, hleast⟩
    refine encodesAsSplit_of_blockBytes hcount hhigh ?_
    have hlength' := length_prefixedSecret secret
    rw [← hcount, ← hlength, hm, hrest] at hlength'
    simp only [List.length_append, List.length_replicate] at hlength'
    rw [hrest, hm, List.eq_replicate_of_mem hzeros, show rest.length = m by omega]

end Accepted

open SampleShares

/-- Two shares of one byte. -/
theorem encodesAsSplit_two_shares :
    EncodesAsSplit [share 1 0 1, share 1 0 2] [0x41] :=
  (encodesAsSplit_iff crypto (vsssCombineReference_interpolates rfl) _ [0x41]
    (by decide +kernel)).2 (by decide +kernel)

/-- **A scalar with a high byte is accepted**, although no split shares it. -/
theorem not_encodesAsSplit_high_byte : combineShares crypto [share 1 1 1, share 1 1 2]
        = .ok [0x41] ∧
      ¬ EncodesAsSplit [share 1 1 1, share 1 1 2] [0x41] := by
  constructor
  · decide +kernel
  · rintro ⟨-, hscalars⟩
    exact absurd (hscalars 0 (by decide)) (by decide +kernel)

/-- The empty secret, which `split_secret` refuses, comes out of blocks of zeros. -/
example :
    combineShares crypto
      ([1, 2].map fun i => ⟨i, ⟨2, 3⟩, [0, 0, 0, 0] ++ i :: List.replicate 32 0⟩) = .ok [] := by
  decide +kernel

end QfcServerWallet.Sss
