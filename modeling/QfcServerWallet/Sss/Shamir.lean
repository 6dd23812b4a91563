import QfcServerWallet.Lib.Crypto

/-!
# Recombining Shamir shares

`qfc-sss/src/shamir.rs`: the share type and `combine_shares`. A secret is length-prefixed, padded
to 31-byte blocks, and each block is shared as one scalar; a share's blob is the length header and
its 33-byte share of every block.

* `vsss_rs::combine_shares` on one block is `Crypto.vsssCombine`.
* `recovered_prefixed[..4]` panics when no block was recovered, which happens for a blob that is
  only a header of length zero; the other slices are in range after the checks. The panic is
  `Fault.panic`.
-/

namespace QfcServerWallet.Sss

open Lib

/-- How many shares there are, and how many are needed. -/
structure ShamirParams where
  threshold : UInt8
  total : UInt8
  deriving DecidableEq

/-- A share. -/
structure ShamirShare where
  index : UInt8
  params : ShamirParams
  blob : Bytes
  deriving DecidableEq

/-- The errors of the crate. -/
inductive ShareError where
  | invalidParameters (threshold total : UInt8) (reason : String)
  | invalidSecret (reason : String)
  | vsss (what : String)
  | notEnoughShares (threshold : UInt8) (provided : Nat)
  | inconsistentShares (reason : String)
  deriving DecidableEq

/-- `PER_CHUNK_SHARE_BYTES`: identifier and value of one block's share. -/
def perChunkShareBytes : Nat := 33

/-- `HEADER_BYTES`: the length prefix. -/
def headerBytes : Nat := 4

/-- The `k`-th block's share in every blob. -/
def chunkShares (shares : List ShamirShare) (k : Nat) :
    Except ShareError (List (FixedBytes 33)) :=
  shares.mapM fun s =>
    let offset := headerBytes + k * perChunkShareBytes
    match FixedBytes.ofBytes? 33 ((s.blob.drop offset).take perChunkShareBytes) with
    | some b => .ok b
    | none => .error (.inconsistentShares "share slice")

/-- The recombined blocks, each without its zero high byte. -/
def recoverChunks (c : Crypto) (shares : List ShamirShare) :
    List Nat → Except ShareError Bytes
  | [] => .ok []
  | k :: ks => do
    let cs ← chunkShares shares k
    match c.vsssCombine cs with
    | .error e => .error (.vsss e)
    | .ok scalar => do
      let rest ← recoverChunks c shares ks
      .ok (scalar.bytes.drop 1 ++ rest)

/-- Shares of one split: enough of them, with one set of parameters and distinct indices. The
first share is returned. `combine_shares` and the mock enclave each make this check, with their
own error types. -/
def checkShares {ε : Type} (notEnoughShares : UInt8 → Nat → ε) (inconsistentShares : String → ε)
    (shares : List ShamirShare) : Except ε ShamirShare :=
  match shares with
  | [] => .error (notEnoughShares 1 0)
  | first :: _ =>
    if shares.length < first.params.threshold.toNat then
      .error (notEnoughShares first.params.threshold shares.length)
    else if shares.any fun s => s.params ≠ first.params then
      .error (inconsistentShares "parameters mismatch")
    else if ¬ (shares.map ShamirShare.index).Nodup then
      .error (inconsistentShares "duplicate share indices")
    else .ok first

/-- Reconstruct the secret. -/
def combineShares (c : Crypto) (shares : List ShamirShare) : Except (Fault ShareError) Bytes := do
  let first ← orFault (checkShares .notEnoughShares .inconsistentShares shares)
  if first.blob.length < headerBytes then
    .error (.err (.inconsistentShares "share blob too short"))
  else
    let secretLen := ofBe (first.blob.take headerBytes)
    let bodyLen := first.blob.length - headerBytes
    if bodyLen % perChunkShareBytes ≠ 0 then
      .error (.err (.inconsistentShares "share blob size invariant"))
    else if shares.any fun s => s.blob.length ≠ first.blob.length then
      .error (.err (.inconsistentShares "share blob length mismatch"))
    else do
      let recovered ← orFault (recoverChunks c shares (List.range (bodyLen / perChunkShareBytes)))
      if recovered.length < secretLen then
        .error (.err (.inconsistentShares "recovered shorter than declared"))
      else if recovered.length < headerBytes then .error .panic
      else if ofBe (recovered.take headerBytes) ≠ secretLen then
        .error (.err (.inconsistentShares "header mismatch on reconstruction"))
      else if recovered.length < headerBytes + secretLen then
        .error (.err (.inconsistentShares "recovered buffer too small for declared length"))
      else .ok ((recovered.drop headerBytes).take secretLen)

end QfcServerWallet.Sss
