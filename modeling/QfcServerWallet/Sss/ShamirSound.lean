import QfcServerWallet.Sss.Split

/-!
# What Shamir sharing guarantees

`split_secret` and `combine_shares` of `qfc-sss/src/shamir.rs` together, for every dependency that
evaluates and interpolates as documented (`VsssSplit.Evaluates`, `CombinesAtZero`).

* Reconstruction: a list of shares of one split is a list of positions (`exists_positions`), and
  each loop of `combine_shares` undoes the matching loop of `split_secret`: `chunkShares_shareOf`,
  `vsssCombine_chunkShareAt` and `recoverChunks_shareOf`.
* Secrecy: a choice of coefficients is one scalar per block and degree (`Choices`), and `reshareAll`
  turns each choice for one secret into one for the other that gives the same blobs at fewer than
  `threshold` indices. It is a bijection, so it preserves the number of choices.

Results: `combineShares_splitSecret` and `choicesProducing_eq_of_length_eq`.
-/

namespace QfcServerWallet.Sss

open Lib

variable {c : Crypto} {split : VsssSplit} {params : ShamirParams} {secret : Bytes}
  {coefficients : Nat → Nat → Scalar}

/-! ## One share -/

theorem toNat_index_shareOf {i : Nat} (hi : i < params.total.toNat) :
    (shareOf secret params coefficients i).index.toNat = i + 1 := by
  have htotal : params.total.toNat < 256 := params.total.toNat_lt
  simp only [shareOf, UInt8.toNat_ofNat']
  omega

theorem index_shareOf_inj {i j : Nat} (hi : i < params.total.toNat) (hj : j < params.total.toNat)
    (h : (shareOf secret params coefficients i).index
      = (shareOf secret params coefficients j).index) : i = j := by
  have hsucc := congrArg UInt8.toNat h
  rw [toNat_index_shareOf hi, toNat_index_shareOf hj] at hsucc
  omega

theorem length_header (n : UInt32) : (uint32Be n).length = headerBytes := length_uint32Be n

theorem length_chunkBytes (i k : Nat) :
    (chunkShareAt secret params (coefficients k) k i).bytes.length = perChunkShareBytes :=
  FixedBytes.length_bytes _

theorem length_blob_shareOf (i : Nat) :
    (shareOf secret params coefficients i).blob.length
      = headerBytes + chunkCount secret * perChunkShareBytes := by
  simp only [shareOf]
  rw [List.length_append, length_header, length_flatMap_range fun k _ => length_chunkBytes i k]

theorem slice_blob_shareOf (i : Nat) {k : Nat} (hk : k < chunkCount secret) :
    ((shareOf secret params coefficients i).blob.drop
        (headerBytes + k * perChunkShareBytes)).take perChunkShareBytes
      = (chunkShareAt secret params (coefficients k) k i).bytes := by
  simp only [shareOf]
  rw [← List.drop_drop, List.drop_left' (length_header _)]
  exact piece_flatMap (fun k _ => length_chunkBytes i k) hk

theorem ofBe_take_header (hlength : secret.length < 2 ^ 32) (rest : Bytes) :
    ofBe ((uint32Be (UInt32.ofNat secret.length) ++ rest).take headerBytes) = secret.length := by
  rw [List.take_left' (length_header _), uint32Be, UInt32.toNat_ofNat_of_lt' hlength,
    ofBe_toBe_of_lt hlength]

/-- Shares of a split are those at some positions. -/
theorem exists_positions {sub : List ShamirShare} (hnodup : sub.Nodup)
    (hmem : ∀ s ∈ sub,
      s ∈ (List.range params.total.toNat).map (shareOf secret params coefficients)) :
    ∃ positions : List Nat, positions.Nodup ∧ (∀ i ∈ positions, i < params.total.toNat) ∧
      sub = positions.map (shareOf secret params coefficients) := by
  -- the position is one below the index
  let position (s : ShamirShare) : Nat := s.index.toNat - 1
  have hposition : ∀ s ∈ sub, position s < params.total.toNat ∧
      shareOf secret params coefficients (position s) = s := by
    intro s hs
    obtain ⟨i, hi, rfl⟩ := List.mem_map.1 (hmem s hs)
    have hi := List.mem_range.1 hi
    have hpos : position (shareOf secret params coefficients i) = i := by
      simp only [position, toNat_index_shareOf hi]
      omega
    rw [hpos]
    exact ⟨hi, rfl⟩
  have hsub : sub = (sub.map position).map (shareOf secret params coefficients) := by
    rw [List.map_map]
    exact ((List.map_congr_left fun s hs => (hposition s hs).2).trans (List.map_id sub)).symm
  refine ⟨sub.map position, ?_, ?_, hsub⟩
  · rw [hsub] at hnodup
    exact hnodup.of_map _
  · intro i hi
    obtain ⟨s, hs, rfl⟩ := List.mem_map.1 hi
    exact (hposition s hs).1

theorem natCast_scalar_inj {m n : Nat} (hm : m ≤ 255) (hn : n ≤ 255) (h : (m : Scalar) = n) :
    m = n := by
  have horder : 255 < secp256k1Order := by decide +kernel
  have hval := congrArg ZMod.val h
  rwa [ZMod.val_natCast_of_lt (hm.trans_lt horder), ZMod.val_natCast_of_lt (hn.trans_lt horder)]
    at hval

/-! ## Reconstruction -/

section Reconstruction

variable {positions : List Nat} (hnodup : positions.Nodup)
  (hlt : ∀ i ∈ positions, i < params.total.toNat)

include hnodup hlt

theorem checkShares_shareOf {ε : Type} (notEnoughShares : UInt8 → Nat → ε)
    (inconsistentShares : String → ε) (hne : positions ≠ [])
    (henough : params.threshold.toNat ≤ positions.length) :
    ∃ i, checkShares notEnoughShares inconsistentShares
      (positions.map (shareOf secret params coefficients))
        = .ok (shareOf secret params coefficients i) := by
  obtain ⟨i, rest, rfl⟩ := List.exists_cons_of_ne_nil hne
  have hindices : (((i :: rest).map (shareOf secret params coefficients)).map
      ShamirShare.index).Nodup := by
    rw [List.map_map]
    exact (List.nodup_map_iff_inj_on hnodup).2 fun j hj l hl =>
      index_shareOf_inj (hlt j hj) (hlt l hl)
  have hparams : (((i :: rest).map (shareOf secret params coefficients)).any fun s =>
      s.params ≠ params) = false := by
    simp [shareOf]
  refine ⟨i, ?_⟩
  rw [List.map_cons, checkShares]
  rw [List.map_cons] at hindices hparams
  rw [if_neg, if_neg, if_neg (not_not.2 hindices)]
  · simp only [Bool.not_eq_true]
    exact hparams
  · rw [List.length_cons, List.length_map]
    exact Nat.not_lt.2 henough

omit hnodup hlt in
/-- The re-shaping is undone, -/
theorem chunkShares_shareOf (positions : List Nat) {k : Nat} (hk : k < chunkCount secret) :
    chunkShares (positions.map (shareOf secret params coefficients)) k =
      .ok (positions.map (chunkShareAt secret params (coefficients k) k)) := by
  rw [chunkShares, List.mapM_map]
  refine mapM_eq_ok_map fun i _ => ?_
  simp only [Function.comp_apply, slice_blob_shareOf i hk, FixedBytes.ofBytes?_bytes]

/-- the sharing of one block is undone, -/
theorem vsssCombine_chunkShareAt (hcombine : CombinesAtZero c) (htwo : 2 ≤ params.threshold.toNat)
    (henough : params.threshold.toNat ≤ positions.length) (k : Nat) :
    c.vsssCombine (positions.map (chunkShareAt secret params (coefficients k) k)) =
      .ok (scalarToBytes (chunkScalar secret k)) := by
  have htotal : params.total.toNat < 256 := params.total.toNat_lt
  let share (x : Scalar) : Scalar :=
    shareAt (chunkScalar secret k) (fun j : Fin (params.threshold.toNat - 1) => coefficients k j) x
  let points := positions.map fun i => (i + 1, share ((i + 1 : Nat) : Scalar))
  have hids : ∀ p ∈ points, 1 ≤ p.1 ∧ p.1 ≤ 255 := by
    intro p hp
    obtain ⟨i, hi, rfl⟩ := List.mem_map.1 hp
    have := hlt i hi
    exact ⟨Nat.le_add_left 1 i, by dsimp only; omega⟩
  have hdistinct : (points.map Prod.fst).Nodup := by
    rw [List.map_map]
    exact hnodup.map fun i j hij => Nat.succ_injective hij
  have hscalars : (positions.map fun i => ((i + 1 : Nat) : Scalar)).Nodup := by
    refine (List.nodup_map_iff_inj_on hnodup).2 fun i hi j hj hij => ?_
    have hi := hlt i hi
    have hj := hlt j hj
    exact Nat.succ_injective (natCast_scalar_inj (by omega) (by omega) hij)
  have hinterpolate := interpolateAtZero_shares hscalars
    (show params.threshold.toNat - 1 < _ by rw [List.length_map]; omega)
    (chunkScalar secret k) fun j => coefficients k j
  have hcombined := hcombine points (by rw [List.length_map]; omega) hids hdistinct
  -- the points of the dependency are the identifiers as scalars
  have hpoints : points.map (fun p => ((p.1 : Scalar), p.2))
      = (positions.map fun i => ((i + 1 : Nat) : Scalar)).map fun x => (x, share x) := by
    rw [List.map_map, List.map_map]
    rfl
  rw [hpoints, hinterpolate, List.map_map] at hcombined
  exact hcombined

/-- and the cut into blocks. -/
theorem recoverChunks_shareOf (hcombine : CombinesAtZero c) (htwo : 2 ≤ params.threshold.toNat)
    (henough : params.threshold.toNat ≤ positions.length) :
    ∀ ks : List Nat, (∀ k ∈ ks, k < chunkCount secret) →
      recoverChunks c (positions.map (shareOf secret params coefficients)) ks =
        .ok (ks.flatMap (chunk secret))
  | [], _ => rfl
  | k :: ks, h => by
    obtain ⟨hk, hks⟩ := List.forall_mem_cons.1 h
    rw [recoverChunks, chunkShares_shareOf positions hk]
    simp only [bind, Except.bind,
      vsssCombine_chunkShareAt hnodup hlt hcombine htwo henough k,
      recoverChunks_shareOf hcombine htwo henough ks hks, bytes_chunkScalar hk, List.drop_one,
      List.tail_cons, List.flatMap_cons]

theorem combineShares_shareOf (hcombine : CombinesAtZero c) (hlength : secret.length < 2 ^ 32)
    (htwo : 2 ≤ params.threshold.toNat) (henough : params.threshold.toNat ≤ positions.length) :
    combineShares c (positions.map (shareOf secret params coefficients)) = .ok secret := by
  obtain ⟨i, hfirst⟩ : ∃ i, checkShares ShareError.notEnoughShares .inconsistentShares
      (positions.map (shareOf secret params coefficients)) = .ok (shareOf _ _ _ i) :=
    checkShares_shareOf hnodup hlt _ _ (List.ne_nil_of_length_pos (by omega)) henough
  have hlengths : ((positions.map (shareOf secret params coefficients)).any fun s =>
      s.blob.length ≠ (shareOf secret params coefficients i).blob.length) = false := by
    simp [length_blob_shareOf]
  have hbody : (shareOf secret params coefficients i).blob.length - headerBytes
      = chunkCount secret * perChunkShareBytes := by
    rw [length_blob_shareOf, Nat.add_sub_cancel_left]
  have hsecretLen : ofBe ((shareOf secret params coefficients i).blob.take headerBytes)
      = secret.length := ofBe_take_header hlength _
  obtain ⟨zeros, hprefixed⟩ := exists_zeros secret
  have hrecovered : recoverChunks c (positions.map (shareOf secret params coefficients))
      (List.range (chunkCount secret))
      = .ok (uint32Be (UInt32.ofNat secret.length) ++ (secret ++ zeros)) := by
    rw [recoverChunks_shareOf hnodup hlt hcombine htwo henough _ fun k => List.mem_range.1,
      ← hprefixed]
    exact congrArg Except.ok (flatMap_piece (length_prefixedSecret secret))
  have hbuffer : (uint32Be (UInt32.ofNat secret.length) ++ (secret ++ zeros)).length
      = headerBytes + (secret.length + zeros.length) := by
    rw [List.length_append, List.length_append, length_header]
  simp only [combineShares, hfirst, orFault, bind, Except.bind, hbody, hsecretLen,
    Nat.mul_mod_left, hlengths, Nat.mul_div_cancel _ (show 0 < perChunkShareBytes by decide),
    hrecovered, hbuffer, ofBe_take_header hlength]
  rw [if_neg (by rw [length_blob_shareOf]; omega), if_neg (not_not.2 rfl),
    if_neg Bool.false_ne_true, if_neg (by omega), if_neg (by omega), if_neg (not_not.2 rfl),
    if_neg (by omega), List.drop_left' (length_header _), List.take_left]

end Reconstruction

variable {indices : Finset UInt8} {blobs : UInt8 → Bytes}

/-- **Any `threshold` or more distinct shares, in any order, give the secret back.** -/
theorem combineShares_splitSecret (hsplit : split.Evaluates) (hcombine : CombinesAtZero c)
    (hne : secret ≠ []) (hlength : secret.length < 2 ^ 32) (htwo : 2 ≤ params.threshold.toNat)
    (hle : params.threshold.toNat ≤ params.total.toNat) (coefficients : Nat → Nat → Scalar) :
    ∃ shares, splitSecret split secret params coefficients = .ok shares ∧
      shares.length = params.total.toNat ∧ shares.Nodup ∧
      ∀ sub : List ShamirShare, sub.Nodup → (∀ s ∈ sub, s ∈ shares) →
        params.threshold.toNat ≤ sub.length → combineShares c sub = .ok secret := by
  refine ⟨_, splitSecret_eq hsplit (validate_ok_iff.2 ⟨htwo, hle⟩) hne hlength coefficients,
    by rw [List.length_map, List.length_range], ?_, ?_⟩
  · exact (List.nodup_map_iff_inj_on List.nodup_range).2 fun i hi j hj hij =>
      index_shareOf_inj (List.mem_range.1 hi) (List.mem_range.1 hj) (congrArg ShamirShare.index hij)
  · intro sub hnodup hmem henough
    obtain ⟨positions, hpositions, hlt, rfl⟩ := exists_positions hnodup hmem
    rw [List.length_map] at henough
    exact combineShares_shareOf hpositions hlt hcombine hlength htwo henough

/-- Two of three shares, with the functions that evaluate and interpolate. -/
theorem combineShares_two_of_three :
    ∃ shares, splitSecret vsssSplitReference [1, 2, 3] ⟨2, 3⟩ (fun _ _ => 7) = .ok shares ∧
      shares.length = 3 ∧ shares.Nodup ∧
      ∀ sub : List ShamirShare, sub.Nodup → (∀ s ∈ sub, s ∈ shares) → 2 ≤ sub.length →
        combineShares { Crypto.ofTables {} with vsssCombine := vsssCombineReference } sub =
          .ok [1, 2, 3] :=
  combineShares_splitSecret vsssSplitReference_evaluates (vsssCombineReference_combines rfl)
    (by decide) (by decide) (by decide) (by decide) fun _ _ => 7

/-! ## Secrecy -/

/-- What is drawn in one run: for each block, the coefficients above the constant one. -/
abbrev Choices (blocks : Nat) (params : ShamirParams) : Type :=
  Fin blocks → Fin (params.threshold.toNat - 1) → Scalar

/-- The drawn coefficients by block and degree; no others are read. -/
def drawn {blocks : Nat} (choices : Choices blocks params) (k j : Nat) : Scalar :=
  if h : k < blocks ∧ j < params.threshold.toNat - 1 then choices ⟨k, h.1⟩ ⟨j, h.2⟩ else 0

theorem drawn_eq {blocks : Nat} (choices : Choices blocks params) {k : Nat}
    (hk : k < blocks) :
    (fun j : Fin (params.threshold.toNat - 1) => drawn choices k j) = choices ⟨k, hk⟩ := by
  funext j
  exact dif_pos ⟨hk, j.isLt⟩

/-- The choice makes `split_secret` give these blobs at these indices. -/
def Produces (split : VsssSplit) (secret : Bytes) (params : ShamirParams)
    (indices : Finset UInt8) (blobs : UInt8 → Bytes)
    (choices : Choices (chunkCount secret) params) : Prop :=
  ∃ shares, splitSecret split secret params (drawn choices) = .ok shares ∧
    ∀ i ∈ indices, ∃ s ∈ shares, s.index = i ∧ s.blob = blobs i

open Classical in
/-- The number of choices that make `split_secret` give these blobs at these indices. -/
noncomputable def choicesProducing (split : VsssSplit) (secret : Bytes) (params : ShamirParams)
    (indices : Finset UInt8) (blobs : UInt8 → Bytes) : Nat :=
  (Finset.univ.filter (Produces split secret params indices blobs)).card

variable {choices : Choices (chunkCount secret) params}

theorem choicesProducing_pos (h : Produces split secret params indices blobs choices) :
    0 < choicesProducing split secret params indices blobs := by
  classical
  exact Finset.card_pos.2 ⟨choices, Finset.mem_filter.2 ⟨Finset.mem_univ choices, h⟩⟩

theorem produces_iff (hsplit : split.Evaluates) (hparams : params.validate = .ok ()) :
    Produces split secret params indices blobs choices ↔
      secret ≠ [] ∧ secret.length < 2 ^ 32 ∧
        ∀ i ∈ indices, ∃ p < params.total.toNat, i.toNat = p + 1 ∧
          (shareOf secret params (drawn choices) p).blob = blobs i := by
  have hindex (i : UInt8) {p : Nat} (hp : p < params.total.toNat) :
      (shareOf secret params (drawn choices) p).index = i ↔ i.toNat = p + 1 := by
    rw [← UInt8.toNat_inj, toNat_index_shareOf hp, eq_comm]
  simp only [Produces, splitSecret_ok_iff hsplit hparams, and_assoc, exists_and_left,
    exists_eq_left, List.mem_map, List.mem_range, exists_exists_and_eq_and]
  refine and_congr_right fun _ => and_congr_right fun _ => forall₂_congr fun i _ => ?_
  exact exists_congr fun p => and_congr_right fun hp => and_congr_left fun _ => hindex i hp

/-- The points at which the shares of these indices are taken. No share has index zero. -/
def indexPoints (indices : Finset UInt8) : Finset Scalar :=
  (indices.erase 0).image fun i => (i.toNat : Scalar)

theorem zero_notMem_indexPoints (indices : Finset UInt8) : 0 ∉ indexPoints indices := by
  intro h
  obtain ⟨i, hi, hzero⟩ := Finset.mem_image.1 h
  have hnat : i.toNat = 0 :=
    natCast_scalar_inj (Nat.le_of_lt_succ i.toNat_lt) (Nat.zero_le 255)
      (hzero.trans Nat.cast_zero.symm)
  exact Finset.ne_of_mem_erase hi (UInt8.toNat_inj.1 hnat)

theorem card_indexPoints_le (indices : Finset UInt8) :
    (indexPoints indices).card ≤ indices.card :=
  Finset.card_image_le.trans Finset.card_erase_le

/-- The choice for the second secret that goes with a choice for the first, block by block. -/
noncomputable def reshareAll {secret secret' : Bytes}
    (hcount : chunkCount secret = chunkCount secret') (params : ShamirParams)
    (indices : Finset UInt8) :
    Choices (chunkCount secret) params ≃ Choices (chunkCount secret') params :=
  Equiv.piCongr (finCongr hcount) fun k =>
    reshare (indexPoints indices) (chunkScalar secret' k - chunkScalar secret k)

theorem blob_reshareAll {secret' : Bytes} (hlength : secret.length = secret'.length)
    (hfew : indices.card < params.threshold.toNat) {i : UInt8} (hi : i ∈ indices) {p : Nat}
    (hp : i.toNat = p + 1) (choices : Choices (chunkCount secret) params) :
    (shareOf secret' params
        (drawn (reshareAll (chunkCount_congr hlength) params indices choices)) p).blob
      = (shareOf secret params (drawn choices) p).blob := by
  have hcount := chunkCount_congr hlength
  have hpoint : ((p + 1 : Nat) : Scalar) ∈ indexPoints indices := by
    refine Finset.mem_image.2 ⟨i, Finset.mem_erase.2 ⟨?_, hi⟩, by rw [hp]⟩
    rintro rfl
    cases hp
  have hcard : (indexPoints indices).card ≤ params.threshold.toNat - 1 :=
    (card_indexPoints_le indices).trans (Nat.le_sub_one_of_lt hfew)
  have hblock : ∀ k ∈ List.range (chunkCount secret'),
      (chunkShareAt secret' params (drawn (reshareAll hcount params indices choices) k) k p).bytes
        = (chunkShareAt secret params (drawn choices k) k p).bytes := by
    intro k hk
    have hk' := List.mem_range.1 hk
    have hk : k < chunkCount secret := hcount ▸ hk'
    have hchoice : reshareAll hcount params indices choices ⟨k, hk'⟩
        = reshare (indexPoints indices) (chunkScalar secret' k - chunkScalar secret k)
            (choices ⟨k, hk⟩) :=
      Equiv.piCongr_apply_apply (finCongr hcount) _ choices ⟨k, hk⟩
    have hshare := shareAt_reshare (zero_notMem_indexPoints indices) hcard (chunkScalar secret k)
      (chunkScalar secret' k - chunkScalar secret k) (choices ⟨k, hk⟩) hpoint
    rw [add_sub_cancel] at hshare
    simp only [chunkShareAt]
    rw [drawn_eq _ hk, drawn_eq _ hk', hchoice, hshare]
  simp only [shareOf, List.flatMap_def]
  rw [← hlength, List.map_congr_left hblock, ← hcount]

/-- **Below the threshold, blobs fit every secret of one length equally often.** -/
theorem choicesProducing_eq_of_length_eq (hsplit : split.Evaluates)
    (hparams : params.validate = .ok ()) {secret secret' : Bytes}
    (hlength : secret.length = secret'.length) (indices : Finset UInt8)
    (hfew : indices.card < params.threshold.toNat) (blobs : UInt8 → Bytes) :
    choicesProducing split secret params indices blobs
      = choicesProducing split secret' params indices blobs := by
  have hempty : secret ≠ [] ↔ secret' ≠ [] := by
    rw [← List.length_pos_iff, ← List.length_pos_iff, hlength]
  refine Finset.card_equiv (reshareAll (chunkCount_congr hlength) params indices) fun choices => ?_
  simp only [Finset.mem_filter, Finset.mem_univ, true_and, produces_iff hsplit hparams]
  rw [hempty, hlength]
  refine and_congr_right fun _ => and_congr_right fun _ => forall₂_congr fun i hi => ?_
  refine exists_congr fun p => and_congr_right fun _ => and_congr_right fun hp => ?_
  rw [blob_reshareAll hlength hfew hi hp]

/-- One share of a two-of-three split: it fits both secrets, equally often. -/
theorem choicesProducing_one_of_three : ∃ blob : Bytes,
    0 < choicesProducing vsssSplitReference [1] ⟨2, 3⟩ {1} (fun _ => blob) ∧
      choicesProducing vsssSplitReference [1] ⟨2, 3⟩ {1} (fun _ => blob)
        = choicesProducing vsssSplitReference [2] ⟨2, 3⟩ {1} (fun _ => blob) := by
  have hparams : ShamirParams.validate ⟨2, 3⟩ = .ok () := rfl
  have hlength : List.length ([1] : Bytes) = List.length ([2] : Bytes) := rfl
  let choices : Choices (chunkCount [1]) ⟨2, 3⟩ := fun _ _ => 7
  let blob := (shareOf [1] ⟨2, 3⟩ (drawn choices) 0).blob
  have hproduces : Produces vsssSplitReference [1] ⟨2, 3⟩ {1} (fun _ => blob) choices := by
    rw [produces_iff vsssSplitReference_evaluates hparams]
    refine ⟨by decide, by decide, fun i hi => ⟨0, by decide, ?_, rfl⟩⟩
    rw [Finset.mem_singleton.1 hi]
    rfl
  refine ⟨blob, choicesProducing_pos hproduces, ?_⟩
  exact choicesProducing_eq_of_length_eq vsssSplitReference_evaluates hparams hlength {1}
    (by decide) fun _ => blob

end QfcServerWallet.Sss
