import QfcServerWallet.Sss.Split
import Mathlib.Data.List.Perm.Basic

/-!
# `combine_shares` on arbitrary shares

`qfc-sss/src/shamir.rs`: `combine_shares` on shares as they come from the wire or from storage, with
any indices, parameters and blobs.

* `combineSliced` is the function with each of its slices written out: `b[i..j]` panics out of
  range, and so does the `unwrap` of a conversion to an array. `combineSliced_eq` says that one
  slice can fail, the one `combineShares` has as a panic.
* `Uniform shares n`: what the checks before recombination ask for. It does not say which share is
  the first. For uniform shares, `combineShares_eq` gives the result from the scalars of the blocks
  and from the header of the first share, the only thing that is read from one share alone.

Results: **`combineSliced_returns_iff`** and **`orderFree_iff`**.
-/

namespace QfcServerWallet.Sss

open Lib

/-! ## Slices -/

/-- `b[i..j]` -/
def slice (b : Bytes) (i j : Nat) : Except (Fault ShareError) Bytes :=
  if i ≤ j ∧ j ≤ b.length then .ok ((b.drop i).take (j - i)) else .error .panic

/-- `b.try_into().unwrap()` -/
def unwrapArray (n : Nat) (b : Bytes) : Except (Fault ShareError) (FixedBytes n) :=
  match FixedBytes.ofBytes? n b with
  | some a => .ok a
  | none => .error .panic

section

variable (c : Crypto)

/-- The `k`-th block's share in a blob. -/
def chunkSliced (k : Nat) (s : ShamirShare) : Except (Fault ShareError) (FixedBytes 33) := do
  let offset := headerBytes + k * perChunkShareBytes
  let bytes ← slice s.blob offset (offset + perChunkShareBytes)
  match FixedBytes.ofBytes? 33 bytes with
  | some b => .ok b
  | none => .error (.err (.inconsistentShares "share slice"))

/-- The loop over the blocks. -/
def recoverSliced (shares : List ShamirShare) : List Nat → Except (Fault ShareError) Bytes
  | [] => .ok []
  | k :: ks => do
    let cs ← shares.mapM (chunkSliced k)
    match c.vsssCombine cs with
    | .error e => .error (.err (.vsss e))
    | .ok scalar => do
      let low ← slice scalar.bytes 1 32
      let rest ← recoverSliced shares ks
      .ok (low ++ rest)

/-- The checks of the recovered buffer. -/
def finishSliced (secretLen : Nat) (recovered : Bytes) : Except (Fault ShareError) Bytes :=
  if recovered.length < secretLen then
    .error (.err (.inconsistentShares "recovered shorter than declared"))
  else do
    let header ← slice recovered 0 headerBytes
    let header ← unwrapArray 4 header
    if ofBe header.bytes ≠ secretLen then
      .error (.err (.inconsistentShares "header mismatch on reconstruction"))
    else if recovered.length < headerBytes + secretLen then
      .error (.err (.inconsistentShares "recovered buffer too small for declared length"))
    else slice recovered headerBytes (headerBytes + secretLen)

/-- `combine_shares` with its slices. -/
def combineSliced (shares : List ShamirShare) : Except (Fault ShareError) Bytes := do
  let first ← orFault (checkShares .notEnoughShares .inconsistentShares shares)
  if first.blob.length < headerBytes then
    .error (.err (.inconsistentShares "share blob too short"))
  else do
    let header ← slice first.blob 0 headerBytes
    let header ← unwrapArray 4 header
    let secretLen := ofBe header.bytes
    let bodyLen := first.blob.length - headerBytes
    if bodyLen % perChunkShareBytes ≠ 0 then
      .error (.err (.inconsistentShares "share blob size invariant"))
    else if shares.any fun s => s.blob.length ≠ first.blob.length then
      .error (.err (.inconsistentShares "share blob length mismatch"))
    else do
      let recovered ← recoverSliced c shares (List.range (bodyLen / perChunkShareBytes))
      finishSliced secretLen recovered

end

variable {c : Crypto} {shares : List ShamirShare} {first : ShamirShare} {n : Nat} {ε : Type}
  {notEnoughShares : UInt8 → Nat → ε} {inconsistentShares : String → ε}
  {scalars : List (FixedBytes 32)}

theorem slice_eq {b : Bytes} {i j : Nat} (hij : i ≤ j) (hj : j ≤ b.length) :
    slice b i j = .ok ((b.drop i).take (j - i)) := if_pos ⟨hij, hj⟩

theorem unwrapArray_take {b : Bytes} (h : headerBytes ≤ b.length) :
    ∃ a, unwrapArray 4 (b.take headerBytes) = .ok a ∧ a.bytes = b.take headerBytes := by
  have hlength : (b.take headerBytes).length = 4 := List.length_take_of_le h
  have harray : FixedBytes.ofBytes? 4 (b.take headerBytes) = some ⟨b.take headerBytes, hlength⟩ :=
    FixedBytes.ofBytes?_eq_some.2 rfl
  exact ⟨⟨b.take headerBytes, hlength⟩, by rw [unwrapArray, harray], rfl⟩

/-! ## The checks -/

/-- The checks before recombination: enough shares with one set of parameters, distinct indices and
blobs of a header and `n` blocks. -/
structure Uniform (shares : List ShamirShare) (n : Nat) : Prop where
  ne_nil : shares ≠ []
  params : ∀ s ∈ shares, ∀ t ∈ shares, s.params = t.params
  enough : ∀ s ∈ shares, s.params.threshold.toNat ≤ shares.length
  indices : (shares.map ShamirShare.index).Nodup
  blobs : ∀ s ∈ shares, s.blob.length = headerBytes + n * perChunkShareBytes

theorem Uniform.perm {shares' : List ShamirShare} (h : Uniform shares n)
    (hperm : shares'.Perm shares) : Uniform shares' n where
  ne_nil := fun hnil => h.ne_nil (List.nil_perm.1 (hnil ▸ hperm))
  params := fun s hs t ht => h.params s (hperm.mem_iff.1 hs) t (hperm.mem_iff.1 ht)
  enough := fun s hs => hperm.length_eq ▸ h.enough s (hperm.mem_iff.1 hs)
  indices := (hperm.map ShamirShare.index).nodup_iff.2 h.indices
  blobs := fun s hs => h.blobs s (hperm.mem_iff.1 hs)

theorem Uniform.exists_head (h : Uniform shares n) : ∃ first, shares.head? = some first :=
  Option.ne_none_iff_exists'.1 (mt List.head?_eq_none_iff.1 h.ne_nil)

theorem checkShares_ok_iff :
    checkShares notEnoughShares inconsistentShares shares = .ok first ↔
      shares.head? = some first ∧ first.params.threshold.toNat ≤ shares.length ∧
        (∀ s ∈ shares, s.params = first.params) ∧ (shares.map ShamirShare.index).Nodup := by
  cases shares with
  | nil => simp [checkShares]
  | cons s rest =>
    have hany : ((s :: rest).any fun t => t.params ≠ s.params) = true ↔
        ¬ ∀ t ∈ s :: rest, t.params = s.params := by
      simp only [List.any_eq_true, decide_eq_true_eq, not_forall, exists_prop]
    rw [List.head?_cons, Option.some.injEq, checkShares]
    by_cases hfew : (s :: rest).length < s.params.threshold.toNat
    · rw [if_pos hfew]
      constructor
      · intro h
        cases h
      · rintro ⟨rfl, henough, -⟩
        exact absurd henough (Nat.not_le.2 hfew)
    rw [if_neg hfew]
    by_cases hparams : ∀ t ∈ s :: rest, t.params = s.params
    · rw [if_neg (mt hany.1 (not_not.2 hparams))]
      by_cases hindices : ((s :: rest).map ShamirShare.index).Nodup
      · rw [if_neg (not_not.2 hindices)]
        constructor
        · intro h
          cases h
          exact ⟨rfl, Nat.not_lt.1 hfew, hparams, hindices⟩
        · rintro ⟨rfl, -⟩
          rfl
      · rw [if_pos hindices]
        constructor
        · intro h
          cases h
        · rintro ⟨-, -, -, hnodup⟩
          exact absurd hnodup hindices
    · rw [if_pos (hany.2 hparams)]
      constructor
      · intro h
        cases h
      · rintro ⟨rfl, -, hsame, -⟩
        exact absurd hsame hparams

theorem Uniform.checkShares (h : Uniform shares n) (hfirst : shares.head? = some first) :
    checkShares notEnoughShares inconsistentShares shares = .ok first := by
  have hmem : first ∈ shares := List.mem_of_mem_head? hfirst
  exact checkShares_ok_iff.2
    ⟨hfirst, h.enough first hmem, fun s hs => h.params s hs first hmem, h.indices⟩

/-! ## Recombination -/

/-- The share of the `k`-th block in a blob that has it. -/
def blockShare (k : Nat) (s : ShamirShare) : FixedBytes 33 :=
  (FixedBytes.ofBytes? 33 ((s.blob.drop (headerBytes + k * perChunkShareBytes)).take
    perChunkShareBytes)).getD (FixedBytes.zero 33)

/-- What the dependency makes of the blocks. -/
def blockScalars (c : Crypto) (shares : List ShamirShare) (ks : List Nat) :
    Except String (List (FixedBytes 32)) :=
  ks.mapM fun k => c.vsssCombine (shares.map (blockShare k))

/-- The blocks without their high bytes. -/
def buffer (scalars : List (FixedBytes 32)) : Bytes := scalars.flatMap fun b => b.bytes.drop 1

/-- The checks after recombination. -/
def finish (secretLen : Nat) (recovered : Bytes) : Except (Fault ShareError) Bytes :=
  if recovered.length < secretLen then
    .error (.err (.inconsistentShares "recovered shorter than declared"))
  else if recovered.length < headerBytes then .error .panic
  else if ofBe (recovered.take headerBytes) ≠ secretLen then
    .error (.err (.inconsistentShares "header mismatch on reconstruction"))
  else if recovered.length < headerBytes + secretLen then
    .error (.err (.inconsistentShares "recovered buffer too small for declared length"))
  else .ok ((recovered.drop headerBytes).take secretLen)

theorem Uniform.ofBytes?_blockShare (h : Uniform shares n) {k : Nat} (hk : k < n)
    {s : ShamirShare} (hs : s ∈ shares) :
    FixedBytes.ofBytes? 33 ((s.blob.drop (headerBytes + k * perChunkShareBytes)).take
      perChunkShareBytes) = some (blockShare k s) := by
  have hlength : ((s.blob.drop (headerBytes + k * perChunkShareBytes)).take
      perChunkShareBytes).length = 33 := by
    have hblob := h.blobs s hs
    have hmul : (k + 1) * perChunkShareBytes ≤ n * perChunkShareBytes :=
      Nat.mul_le_mul_right _ hk
    rw [Nat.add_mul] at hmul
    rw [List.length_take, List.length_drop, hblob]
    simp only [perChunkShareBytes] at hmul ⊢
    omega
  rw [blockShare, FixedBytes.ofBytes?_eq_some (a := ⟨_, hlength⟩) |>.2 rfl, Option.getD_some]

theorem Uniform.chunkShares (h : Uniform shares n) {k : Nat} (hk : k < n) :
    chunkShares shares k = .ok (shares.map (blockShare k)) := by
  refine mapM_eq_ok_map fun s hs => ?_
  simp only [h.ofBytes?_blockShare hk hs]

theorem Uniform.chunkSliced (h : Uniform shares n) {k : Nat} (hk : k < n) :
    shares.mapM (chunkSliced k) = .ok (shares.map (blockShare k)) := by
  refine mapM_eq_ok_map fun s hs => ?_
  have hblob := h.blobs s hs
  have hmul : (k + 1) * perChunkShareBytes ≤ n * perChunkShareBytes := Nat.mul_le_mul_right _ hk
  rw [Nat.add_mul, Nat.one_mul] at hmul
  unfold Sss.chunkSliced
  simp only
  rw [slice_eq (Nat.le_add_right _ _) (by omega), Nat.add_sub_cancel_left]
  simp only [bind, Except.bind, h.ofBytes?_blockShare hk hs]

theorem Uniform.recoverChunks (h : Uniform shares n) :
    ∀ {ks : List Nat}, (∀ k ∈ ks, k < n) →
      recoverChunks c shares ks =
        ((blockScalars c shares ks).map buffer).mapError ShareError.vsss
  | [], _ => rfl
  | k :: ks, hks => by
    obtain ⟨hk, hks⟩ := List.forall_mem_cons.1 hks
    have ih := Uniform.recoverChunks h hks
    unfold blockScalars at ih
    rw [Sss.recoverChunks, h.chunkShares hk, blockScalars, List.mapM_cons]
    simp only [bind, Except.bind]
    cases c.vsssCombine (shares.map (blockShare k)) with
    | error e => rfl
    | ok scalar =>
      rw [ih]
      cases (ks.mapM fun k => c.vsssCombine (shares.map (blockShare k))) with
      | error e => rfl
      | ok scalars => rfl

theorem Uniform.recoverSliced (h : Uniform shares n) :
    ∀ {ks : List Nat}, (∀ k ∈ ks, k < n) →
      recoverSliced c shares ks = orFault (Sss.recoverChunks c shares ks)
  | [], _ => rfl
  | k :: ks, hks => by
    obtain ⟨hk, hks⟩ := List.forall_mem_cons.1 hks
    rw [Sss.recoverSliced, h.chunkSliced hk, Sss.recoverChunks, h.chunkShares hk]
    simp only [bind, Except.bind]
    cases c.vsssCombine (shares.map (blockShare k)) with
    | error e => rfl
    | ok scalar =>
      have hlow : slice scalar.bytes 1 32 = .ok (scalar.bytes.drop 1) := by
        rw [slice_eq (by decide) (Nat.le_of_eq scalar.length_bytes.symm),
          List.take_of_length_le (by rw [List.length_drop, scalar.length_bytes])]
      simp only [hlow, h.recoverSliced hks]
      cases Sss.recoverChunks c shares ks with
      | error e => rfl
      | ok rest => rfl

theorem finishSliced_eq (secretLen : Nat) (recovered : Bytes) :
    finishSliced secretLen recovered = finish secretLen recovered := by
  unfold finishSliced finish
  by_cases hdeclared : recovered.length < secretLen
  · rw [if_pos hdeclared, if_pos hdeclared]
  rw [if_neg hdeclared, if_neg hdeclared]
  by_cases hshort : recovered.length < headerBytes
  · rw [if_pos hshort, slice, if_neg (fun h => absurd h.2 (Nat.not_le.2 hshort))]
    rfl
  rw [if_neg hshort, slice_eq (Nat.zero_le _) (Nat.not_lt.1 hshort), List.drop_zero, Nat.sub_zero]
  obtain ⟨header, hheader, hbytes⟩ := unwrapArray_take (Nat.not_lt.1 hshort)
  simp only [bind, Except.bind, hheader, hbytes]
  by_cases hlen : ofBe (recovered.take headerBytes) = secretLen
  · rw [if_neg (not_not.2 hlen), if_neg (not_not.2 hlen)]
    by_cases hend : recovered.length < headerBytes + secretLen
    · rw [if_pos hend, if_pos hend]
    · rw [if_neg hend, if_neg hend, slice_eq (Nat.le_add_right _ _) (Nat.not_lt.1 hend),
        Nat.add_sub_cancel_left]
  · rw [if_pos hlen, if_pos hlen]

theorem uniform_of_checks
    (hcheck : checkShares notEnoughShares inconsistentShares shares = .ok first)
    (hshort : ¬ first.blob.length < headerBytes)
    (hbody : (first.blob.length - headerBytes) % perChunkShareBytes = 0)
    (hlengths : ¬ (shares.any fun s => s.blob.length ≠ first.blob.length) = true) :
    Uniform shares ((first.blob.length - headerBytes) / perChunkShareBytes) := by
  obtain ⟨hfirst, henough, hparams, hindices⟩ := checkShares_ok_iff.1 hcheck
  refine ⟨?_, fun s hs t ht => (hparams s hs).trans (hparams t ht).symm, ?_, hindices, ?_⟩
  · rintro rfl
    cases hfirst
  · intro s hs
    rw [hparams s hs]
    exact henough
  · intro s hs
    have hsame : s.blob.length = first.blob.length := by
      by_contra hne
      exact hlengths (List.any_eq_true.2 ⟨s, hs, decide_eq_true hne⟩)
    rw [Nat.div_mul_cancel (Nat.dvd_of_mod_eq_zero hbody)]
    omega

theorem exists_uniform (h : ∀ e, combineShares c shares ≠ .error (.err e)) :
    ∃ n, Uniform shares n := by
  cases hcheck : checkShares ShareError.notEnoughShares .inconsistentShares shares with
  | error e => exact absurd (by simp only [combineShares, hcheck]; rfl) (h e)
  | ok first =>
    simp only [combineShares, hcheck, orFault, bind, Except.bind] at h
    by_cases hshort : first.blob.length < headerBytes
    · exact absurd (if_pos hshort) (h _)
    rw [if_neg hshort] at h
    by_cases hbody : (first.blob.length - headerBytes) % perChunkShareBytes = 0
    · rw [if_neg (not_not.2 hbody)] at h
      by_cases hlengths : (shares.any fun s => s.blob.length ≠ first.blob.length) = true
      · exact absurd (if_pos hlengths) (h _)
      · exact ⟨_, uniform_of_checks hcheck hshort hbody hlengths⟩
    · exact absurd (if_pos hbody) (h _)

/-- **Every slice is in range but the one that has its own panic in `combineShares`.** -/
theorem combineSliced_eq (c : Crypto) (shares : List ShamirShare) :
    combineSliced c shares = combineShares c shares := by
  unfold combineSliced combineShares
  cases hcheck : checkShares ShareError.notEnoughShares .inconsistentShares shares with
  | error e => rfl
  | ok first =>
    simp only [orFault, bind, Except.bind]
    by_cases hshort : first.blob.length < headerBytes
    · rw [if_pos hshort, if_pos hshort]
    rw [if_neg hshort, if_neg hshort]
    obtain ⟨header, hheader, hbytes⟩ := unwrapArray_take (Nat.not_lt.1 hshort)
    rw [slice_eq (Nat.zero_le _) (Nat.not_lt.1 hshort), List.drop_zero, Nat.sub_zero]
    simp only [hheader, hbytes]
    by_cases hbody : (first.blob.length - headerBytes) % perChunkShareBytes = 0
    · rw [if_neg (not_not.2 hbody), if_neg (not_not.2 hbody)]
      by_cases hlengths : (shares.any fun s => s.blob.length ≠ first.blob.length) = true
      · rw [if_pos hlengths, if_pos hlengths]
      rw [if_neg hlengths, if_neg hlengths,
        (uniform_of_checks hcheck hshort hbody hlengths).recoverSliced fun k => List.mem_range.1]
      cases recoverChunks c shares
          (List.range ((first.blob.length - headerBytes) / perChunkShareBytes)) with
      | error e => rfl
      | ok recovered => exact finishSliced_eq _ recovered
    · rw [if_pos hbody, if_pos hbody]

/-- **For uniform shares, the header of the first share and the scalars decide.** -/
theorem combineShares_eq (h : Uniform shares n) (hfirst : shares.head? = some first) :
    combineShares c shares =
      match blockScalars c shares (List.range n) with
      | .error e => .error (.err (.vsss e))
      | .ok scalars => finish (ofBe (first.blob.take headerBytes)) (buffer scalars) := by
  have hblob := h.blobs first (List.mem_of_mem_head? hfirst)
  have hbody : first.blob.length - headerBytes = n * perChunkShareBytes := by omega
  have hlengths : (shares.any fun s => s.blob.length ≠ first.blob.length) = false := by
    rw [List.any_eq_false]
    intro s hs
    rw [h.blobs s hs, hblob]
    simp
  simp only [combineShares, h.checkShares hfirst, orFault, bind, Except.bind, hbody,
    Nat.mul_mod_left, hlengths, Nat.mul_div_cancel _ (show 0 < perChunkShareBytes by decide),
    h.recoverChunks (fun k => List.mem_range.1)]
  rw [if_neg (by omega), if_neg (not_not.2 rfl), if_neg Bool.false_ne_true]
  cases blockScalars c shares (List.range n) with
  | error e => rfl
  | ok scalars => rfl

theorem exists_finish (h : ∀ e, combineShares c shares ≠ .error (.err e)) :
    ∃ n first scalars, Uniform shares n ∧ shares.head? = some first ∧
      blockScalars c shares (List.range n) = .ok scalars ∧
      combineShares c shares = finish (ofBe (first.blob.take headerBytes)) (buffer scalars) := by
  obtain ⟨n, huniform⟩ := exists_uniform h
  obtain ⟨first, hfirst⟩ := huniform.exists_head
  have heq := combineShares_eq (c := c) huniform hfirst
  cases hscalars : blockScalars c shares (List.range n) with
  | error e =>
    rw [hscalars] at heq
    exact absurd heq (h _)
  | ok scalars =>
    rw [hscalars] at heq
    exact ⟨n, first, scalars, huniform, hfirst, hscalars, heq⟩

/-! ## Whether the call returns -/

theorem length_buffer (scalars : List (FixedBytes 32)) :
    (buffer scalars).length = scalars.length * 31 := by
  induction scalars with
  | nil => rfl
  | cons b scalars ih =>
    have hlow : (b.bytes.drop 1).length = 31 := by rw [List.length_drop, b.length_bytes]
    rw [buffer, List.flatMap_cons, ← buffer, List.length_append, ih, hlow, List.length_cons]
    omega

theorem length_blockScalars {ks : List Nat} (h : blockScalars c shares ks = .ok scalars) :
    scalars.length = ks.length :=
  (mapM_eq_ok_iff.1 h).length_eq.symm

theorem finish_panic_iff {secretLen : Nat} {recovered : Bytes} :
    finish secretLen recovered = .error .panic ↔
      secretLen ≤ recovered.length ∧ recovered.length < headerBytes := by
  unfold finish
  split_ifs with hdeclared hshort hlen hend <;> simp <;> omega

theorem take_header_eq_zero {b : Bytes} (hlength : b.length = headerBytes)
    (hzero : ofBe (b.take headerBytes) = 0) : b = [0, 0, 0, 0] := by
  rw [List.take_of_length_le hlength.le] at hzero
  rw [← toBe_ofBe b, hlength, hzero]
  rfl

/-- **The call panics iff the blobs are headers without blocks, the first of which is zero.** -/
theorem combineShares_panic_iff :
    combineShares c shares = .error .panic ↔
      Uniform shares 0 ∧ ∃ first, shares.head? = some first ∧ first.blob = [0, 0, 0, 0] := by
  constructor
  · intro h
    obtain ⟨n, first, scalars, huniform, hfirst, hscalars, hfinish⟩ :=
      exists_finish fun e he => by
        rw [h] at he
        cases he
    obtain ⟨hdeclared, hshort⟩ := finish_panic_iff.1 (hfinish.symm.trans h)
    have hlength := length_blockScalars hscalars
    rw [List.length_range] at hlength
    rw [length_buffer, hlength] at hdeclared hshort
    -- a block has more bytes than the header
    obtain rfl : n = 0 := by
      simp only [headerBytes] at hshort
      omega
    have hblob := huniform.blobs first (List.mem_of_mem_head? hfirst)
    exact ⟨huniform, first, hfirst, take_header_eq_zero (by simpa using hblob) (by omega)⟩
  · rintro ⟨huniform, first, hfirst, hblob⟩
    have hnone : blockScalars c shares (List.range 0) = .ok [] := rfl
    rw [combineShares_eq huniform hfirst, hblob, hnone]
    exact finish_panic_iff.2 ⟨by decide, by decide⟩

/-- **`combine_shares` returns, with a secret or with an error, unless the blobs are four bytes each
and those of the first share are zero.** -/
theorem combineSliced_returns_iff (c : Crypto) (shares : List ShamirShare) :
    ((∃ secret, combineSliced c shares = .ok secret) ∨
      ∃ e, combineSliced c shares = .error (.err e)) ↔
      ¬ (Uniform shares 0 ∧ ∃ first, shares.head? = some first ∧ first.blob = [0, 0, 0, 0]) := by
  rw [combineSliced_eq, ← combineShares_panic_iff]
  cases combineShares c shares with
  | ok secret => simp
  | error fault =>
    cases fault with
    | err e => simp
    | panic => simp

namespace SampleShares

/-- A blob that is the header of an empty secret. -/
def bare (index : UInt8) : ShamirShare := ⟨index, ⟨2, 3⟩, [0, 0, 0, 0]⟩

/-- The bytes of a scalar whose blocks begin with the length one and the secret `41`. -/
def scalar (high : UInt8) : Bytes := [high, 0, 0, 0, 1, 0x41] ++ List.replicate 26 0

/-- A share at `index` of the polynomial that is constant at the scalar, under a header. -/
def share (header : UInt8) (high : UInt8) (index : UInt8) : ShamirShare :=
  ⟨index, ⟨2, 3⟩, [0, 0, 0, header] ++ index :: scalar high⟩

/-- The dependency that interpolates. -/
def crypto : Crypto := { Crypto.ofTables {} with vsssCombine := vsssCombineReference }

end SampleShares

open SampleShares

/-- Two shares of blobs of four zeros: the slice of the header is out of range. -/
theorem combineSliced_panics : combineSliced crypto [bare 1, bare 2] = .error .panic := by
  rfl

/-! ## The order of the shares -/

/-- What `vsss_rs` recombines does not depend on the order. -/
def VsssOrderFree (c : Crypto) : Prop :=
  ∀ l l' : List (FixedBytes 33), l.Perm l' →
    ∀ scalar, c.vsssCombine l = .ok scalar → c.vsssCombine l' = .ok scalar

/-- Both calls return the same secret, or both return an error. -/
def Agree (a b : Except (Fault ShareError) Bytes) : Prop :=
  (∃ secret, a = .ok secret ∧ b = .ok secret) ∨
    ∃ e e', a = .error (.err e) ∧ b = .error (.err e')

/-- The length in the header of a share. -/
def declared (s : ShamirShare) : Nat := ofBe (s.blob.take headerBytes)

/-- The length at the start of the recombined buffer. -/
def bufferLength (scalars : List (FixedBytes 32)) : Nat := ofBe ((buffer scalars).take headerBytes)

/-- Where shares that pass the checks recombine to a buffer that holds as many bytes as it says, all
of them declare that length or none does. -/
def HeadersAgree (c : Crypto) (shares : List ShamirShare) : Prop :=
  ∀ n scalars, Uniform shares n → blockScalars c shares (List.range n) = .ok scalars →
    headerBytes + bufferLength scalars ≤ (buffer scalars).length →
    (∃ s ∈ shares, declared s = bufferLength scalars) →
    ∀ s ∈ shares, declared s = bufferLength scalars

variable {shares' : List ShamirShare} {secret : Bytes} {a b : Except (Fault ShareError) Bytes}

theorem Agree.ok_iff (h : Agree a b) : (∃ secret, a = .ok secret) ↔ ∃ secret, b = .ok secret := by
  obtain ⟨secret, rfl, rfl⟩ | ⟨e, e', rfl, rfl⟩ := h
  · rfl
  · simp

theorem Agree.ne_panic (h : Agree a b) : b ≠ .error .panic := by
  obtain ⟨secret, rfl, rfl⟩ | ⟨e, e', rfl, rfl⟩ := h
  · nofun
  · nofun

theorem agree_of_ok_iff (hok : ∀ secret, a = .ok secret ↔ b = .ok secret)
    (ha : a ≠ .error .panic) (hb : b ≠ .error .panic) : Agree a b := by
  cases a with
  | ok secret => exact .inl ⟨secret, rfl, (hok secret).1 rfl⟩
  | error fault =>
    cases b with
    | ok secret => cases (hok secret).2 rfl
    | error fault' =>
      cases fault with
      | panic => exact absurd rfl ha
      | err e =>
        cases fault' with
        | panic => exact absurd rfl hb
        | err e' => exact .inr ⟨e, e', rfl, rfl⟩

theorem finish_ok_iff {secretLen : Nat} {recovered : Bytes} :
    finish secretLen recovered = .ok secret ↔
      headerBytes + secretLen ≤ recovered.length ∧ ofBe (recovered.take headerBytes) = secretLen ∧
        secret = (recovered.drop headerBytes).take secretLen := by
  unfold finish
  by_cases hdeclared : recovered.length < secretLen
  · rw [if_pos hdeclared]
    simp only [reduceCtorEq, false_iff]
    omega
  rw [if_neg hdeclared]
  by_cases hshort : recovered.length < headerBytes
  · rw [if_pos hshort]
    simp only [reduceCtorEq, false_iff]
    omega
  rw [if_neg hshort]
  by_cases hlen : ofBe (recovered.take headerBytes) = secretLen
  · rw [if_neg (not_not.2 hlen)]
    by_cases hend : recovered.length < headerBytes + secretLen
    · rw [if_pos hend]
      simp only [reduceCtorEq, false_iff]
      omega
    · rw [if_neg hend, Except.ok.injEq]
      exact ⟨fun h => ⟨Nat.not_lt.1 hend, hlen, h.symm⟩, fun h => h.2.2.symm⟩
  · rw [if_pos hlen]
    simp [hlen]

/-- **Which shares are accepted, and with which secret.** -/
theorem combineShares_ok_iff :
    combineShares c shares = .ok secret ↔
      ∃ n first scalars, Uniform shares n ∧ shares.head? = some first ∧
        blockScalars c shares (List.range n) = .ok scalars ∧
        finish (ofBe (first.blob.take headerBytes)) (buffer scalars) = .ok secret := by
  constructor
  · intro h
    obtain ⟨n, first, scalars, huniform, hfirst, hscalars, hfinish⟩ :=
      exists_finish fun e he => by
        rw [h] at he
        cases he
    exact ⟨n, first, scalars, huniform, hfirst, hscalars, hfinish.symm.trans h⟩
  · rintro ⟨n, first, scalars, huniform, hfirst, hscalars, h⟩
    rw [combineShares_eq huniform hfirst, hscalars]
    exact h

theorem blockScalars_perm (hc : VsssOrderFree c) (hperm : shares.Perm shares') {ks : List Nat}
    (h : blockScalars c shares ks = .ok scalars) :
    blockScalars c shares' ks = .ok scalars :=
  mapM_eq_ok_iff.2 ((mapM_eq_ok_iff.1 h).imp fun k scalar hscalar =>
    hc _ _ (hperm.map (blockShare k)) scalar hscalar)

theorem HeadersAgree.perm (hc : VsssOrderFree c) (hperm : shares'.Perm shares)
    (h : HeadersAgree c shares) : HeadersAgree c shares' := by
  rintro n scalars huniform hscalars hfits ⟨s, hs, hdeclared⟩ t ht
  exact h n scalars (huniform.perm hperm.symm) (blockScalars_perm hc hperm hscalars) hfits
    ⟨s, hperm.mem_iff.1 hs, hdeclared⟩ t (hperm.mem_iff.1 ht)

/-- A share that declares the length of the buffer is accepted in the first place. -/
theorem accepted_of_declared (huniform : Uniform shares n)
    (hscalars : blockScalars c shares (List.range n) = .ok scalars)
    (hfits : headerBytes + bufferLength scalars ≤ (buffer scalars).length)
    (hfirst : shares.head? = some first) (hdeclared : declared first = bufferLength scalars) :
    combineShares c shares
      = .ok (((buffer scalars).drop headerBytes).take (bufferLength scalars)) := by
  refine combineShares_ok_iff.2 ⟨n, first, scalars, huniform, hfirst, hscalars, ?_⟩
  rw [← declared, hdeclared]
  exact finish_ok_iff.2 ⟨hfits, rfl, rfl⟩

theorem declared_of_accepted (h : combineShares c shares = .ok secret) :
    ∃ n scalars first, Uniform shares n ∧ blockScalars c shares (List.range n) = .ok scalars ∧
      headerBytes + bufferLength scalars ≤ (buffer scalars).length ∧ shares.head? = some first ∧
      declared first = bufferLength scalars ∧
      secret = ((buffer scalars).drop headerBytes).take (bufferLength scalars) := by
  obtain ⟨n, first, scalars, huniform, hfirst, hscalars, hfinish⟩ := combineShares_ok_iff.1 h
  obtain ⟨hfits, hlength, hsecret⟩ := finish_ok_iff.1 hfinish
  rw [← hlength] at hfits hsecret
  exact ⟨n, scalars, first, huniform, hscalars, hfits, hfirst, hlength.symm, hsecret⟩

theorem combineShares_perm (hc : VsssOrderFree c) (hperm : shares.Perm shares')
    (hsame : HeadersAgree c shares) (h : combineShares c shares = .ok secret) :
    combineShares c shares' = .ok secret := by
  obtain ⟨n, scalars, first, huniform, hscalars, hfits, hfirst, hdeclared, rfl⟩ :=
    declared_of_accepted h
  have huniform' := huniform.perm hperm.symm
  obtain ⟨first', hfirst'⟩ := huniform'.exists_head
  have hmem : first' ∈ shares := hperm.mem_iff.2 (List.mem_of_mem_head? hfirst')
  exact accepted_of_declared huniform' (blockScalars_perm hc hperm hscalars) hfits hfirst'
    (hsame n scalars huniform hscalars hfits ⟨first, List.mem_of_mem_head? hfirst, hdeclared⟩ _
      hmem)

theorem exists_perm_head {s : ShamirShare} (hs : s ∈ shares) :
    ∃ shares' : List ShamirShare, shares'.Perm shares ∧ shares'.head? = some s :=
  ⟨s :: shares.erase s, (List.perm_cons_erase hs).symm, rfl⟩

theorem combineShares_ne_panic
    (hbare : ¬ (Uniform shares 0 ∧ ∃ s ∈ shares, s.blob = [0, 0, 0, 0]))
    (hperm : shares'.Perm shares) : combineShares c shares' ≠ .error .panic := by
  intro hpanic
  obtain ⟨huniform, first, hfirst, hblob⟩ := combineShares_panic_iff.1 hpanic
  exact hbare ⟨huniform.perm hperm.symm, first,
    hperm.mem_iff.1 (List.mem_of_mem_head? hfirst), hblob⟩

/-- **The order of the shares does not matter iff no order panics and the headers agree with the
recombined buffer, or none does.** -/
theorem orderFree_iff (c : Crypto) (hc : VsssOrderFree c) (shares : List ShamirShare) :
    (∀ shares' : List ShamirShare, shares'.Perm shares →
      Agree (combineShares c shares) (combineShares c shares')) ↔
      ¬ (Uniform shares 0 ∧ ∃ s ∈ shares, s.blob = [0, 0, 0, 0]) ∧ HeadersAgree c shares := by
  constructor
  · intro hagree
    constructor
    · rintro ⟨huniform, s, hs, hblob⟩
      obtain ⟨shares', hperm, hhead⟩ := exists_perm_head hs
      have hpanic : combineShares c shares' = .error .panic :=
        combineShares_panic_iff.2 ⟨huniform.perm hperm, s, hhead, hblob⟩
      exact (hagree shares' hperm).ne_panic hpanic
    · rintro n scalars huniform hscalars hfits ⟨s, hs, hdeclared⟩ t ht
      obtain ⟨front, hfront, hshead⟩ := exists_perm_head hs
      obtain ⟨back, hback, hthead⟩ := exists_perm_head ht
      -- with `s` at the head the shares are accepted, so they are with `t` at the head
      have hfrontOk := accepted_of_declared (huniform.perm hfront)
        (blockScalars_perm hc hfront.symm hscalars) hfits hshead hdeclared
      obtain ⟨secret, hbackOk⟩ := (hagree back hback).ok_iff.1 ((hagree front hfront).ok_iff.2
        ⟨_, hfrontOk⟩)
      obtain ⟨n', scalars', first, huniform', hscalars', -, hfirst, hlength, -⟩ :=
        declared_of_accepted hbackOk
      cases hthead.symm.trans hfirst
      have hblob := huniform.blobs t ht
      have hblob' := huniform'.blobs t (hback.mem_iff.2 ht)
      obtain rfl : n = n' := by
        simp only [perChunkShareBytes] at hblob hblob'
        omega
      cases (blockScalars_perm hc hback hscalars').symm.trans hscalars
      exact hlength
  · rintro ⟨hbare, hsame⟩ shares' hperm
    refine agree_of_ok_iff (fun secret => ⟨fun h => ?_, fun h => ?_⟩)
      (combineShares_ne_panic hbare (.refl shares)) (combineShares_ne_panic hbare hperm)
    · exact combineShares_perm hc hperm.symm hsame h
    · exact combineShares_perm hc hperm (hsame.perm hc hperm) h

theorem vsssCombineReference_orderFree (hc : c.vsssCombine = vsssCombineReference) :
    VsssOrderFree c := by
  intro l l' hperm scalar h
  have hpoints : (l.map sharePoint).Perm (l'.map sharePoint) := hperm.map sharePoint
  rw [hc] at h ⊢
  unfold vsssCombineReference at h ⊢
  simp only at h ⊢
  rw [← hpoints.length_eq, ← interpolateAtZero_perm (hpoints.map _), ← hpoints.any_eq]
  simp only [← (hpoints.map Prod.fst).nodup_iff]
  exact h

/-- Two shares with one header. -/
theorem orderFree_two_shares : Agree (combineShares crypto [share 1 0 1, share 1 0 2])
      (combineShares crypto [share 1 0 2, share 1 0 1]) := by
  refine (orderFree_iff crypto (vsssCombineReference_orderFree rfl) _).2 ⟨?_, ?_⟩ _ (.swap _ _ _)
  · rintro ⟨huniform, -⟩
    have hlength := huniform.blobs _ List.mem_cons_self
    cases hlength
  · have hone : ∀ s ∈ [share 1 0 1, share 1 0 2], declared s = 1 := by
      decide
    rintro n scalars - - - ⟨s, hs, hdeclared⟩ t ht
    rw [hone t ht, ← hone s hs, hdeclared]

/-- **The header of the second share is not looked at, that of the first is**: in one order the
secret comes back, in the other the call fails. -/
theorem combineShares_reordered :
    combineShares crypto [share 1 0 1, share 2 0 2] = .ok [0x41] ∧
      combineShares crypto [share 2 0 2, share 1 0 1]
        = .error (.err (.inconsistentShares "header mismatch on reconstruction")) := by
  decide +kernel

end QfcServerWallet.Sss
