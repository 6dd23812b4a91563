import QfcServerWallet.Enclave.Mock
import QfcServerWallet.HdPath
import QfcServerWallet.Lib.Lines

/-!
# What an attestation binds

`user_data` of `MockEnclave::sign_in_enclave`: request id, wallet id, the digests of message and
signature, the path and the context, with a bar between any two.

* The first four have a fixed width, so that it does not matter which bytes the digests have.
* The text of a path has no bar, so that the first one after the digests is the one written there.
  A request without a path has no text there; the master path is `m`.
* The JSON text of a context is a dependency, which is assumed to tell contexts apart.

Results: `userData_inj`, **`userData_binds`**, and `attestation_binds`, the same for two responses.
-/

namespace QfcServerWallet.Enclave

open Lib

/-- The JSON texts of two contexts differ. -/
def ContextsPrintApart (d : MockDeps) : Prop :=
  ∀ x y b, d.jsonContext x = .ok b → d.jsonContext y = .ok b → x = y

/-- What stands for the path. -/
def pathBytes : Option HdPath → Bytes
  | some p => utf8 p.toString
  | none => []

theorem bar_notMem_pathBytes (path : Option HdPath) : 124 ∉ pathBytes path := by
  cases path with
  | none => exact List.not_mem_nil
  | some p =>
    intro hbar
    have hmem : '|' ∈ p.toString.toList := (mem_utf8_iff (by decide)).1 hbar
    rw [p.toList_toString] at hmem
    rcases List.mem_cons.1 hmem with hmem | hmem
    · cases hmem
    · obtain ⟨chars, hchars, hmem⟩ := List.mem_flatMap.1 hmem
      obtain ⟨seg, -, rfl⟩ := List.mem_map.1 hchars
      rcases List.mem_cons.1 hmem with hmem | hmem
      · cases hmem
      · exact seg.not_mem_chars rfl (by decide) hmem

theorem pathBytes_inj {path path' : Option HdPath} (h : pathBytes path = pathBytes path') :
    path = path' := by
  have hne (p : HdPath) : pathBytes (some p) ≠ [] := by
    rw [pathBytes, utf8, p.toList_toString]
    exact List.cons_ne_nil _ _
  cases path with
  | none =>
    cases path' with
    | none => rfl
    | some p => exact absurd h.symm (hne p)
  | some p =>
    cases path' with
    | none => exact absurd h (hne p)
    | some q => rw [HdPath.toString_inj (utf8_inj h)]

section

variable {d : MockDeps} {req req' : EnclaveSignRequest} {signature signature' ctx ctx' : Bytes}

theorem userData_eq :
    userData d req signature ctx =
      (req.requestId.textBytes ++ 124 :: req.walletId.textBytes
        ++ 124 :: (d.crypto.sha256 req.message).bytes ++ 124 :: (d.crypto.sha256 signature).bytes)
        ++ 124 :: (pathBytes req.hdPath ++ 124 :: ctx) :=
  List.append_assoc _ _ _

/-- The user data determines all six parts. -/
theorem userData_inj (h : userData d req signature ctx = userData d req' signature' ctx') :
    req.requestId = req'.requestId ∧ req.walletId = req'.walletId ∧
      d.crypto.sha256 req.message = d.crypto.sha256 req'.message ∧
      d.crypto.sha256 signature = d.crypto.sha256 signature' ∧ req.hdPath = req'.hdPath ∧
      ctx = ctx' := by
  rw [userData_eq, userData_eq] at h
  obtain ⟨hfront, hback⟩ := List.append_inj h (by simp [FixedBytes.length_bytes])
  obtain ⟨hpath, hctx⟩ := append_cons_left_inj (bar_notMem_pathBytes _) (bar_notMem_pathBytes _)
    (List.cons.inj hback).2
  obtain ⟨hfront, hsignature⟩ := List.append_inj hfront (by simp [FixedBytes.length_bytes])
  obtain ⟨hids, hmessage⟩ := List.append_inj hfront (by simp)
  obtain ⟨hrequest, hwallet⟩ := List.append_inj hids (by simp)
  exact ⟨Ident.textBytes_inj hrequest, Ident.textBytes_inj (List.cons.inj hwallet).2,
    FixedBytes.ext (List.cons.inj hmessage).2, FixedBytes.ext (List.cons.inj hsignature).2,
    pathBytes_inj hpath, hctx⟩

theorem userData_of_sign {e : MockEnclave} {env : Env} {resp : EnclaveSignResponse}
    (h : e.signInEnclave d env req = .ok resp) :
    ∃ ctx, d.jsonContext req.context = .ok ctx ∧
      resp.attestation.payload.userData = userData d req resp.signature ctx := by
  obtain ⟨-, -, seed, -, hsign⟩ := sign_inv.1 h
  simp only [MockEnclave.signAndAttest, MockEnclave.signAttestation, bind_eq_ok,
    mapError_eq_ok] at hsign
  obtain ⟨key, -, pubkey, -, signature, -, ctx, hctx, doc, ⟨raw, -, hdoc⟩, hresp⟩ := hsign
  cases hdoc
  cases hresp
  exact ⟨ctx, hctx, rfl⟩

/-- The same for two responses. -/
theorem attestation_binds (hjson : ContextsPrintApart d) {e e' : MockEnclave} {env env' : Env}
    {resp resp' : EnclaveSignResponse} (h : e.signInEnclave d env req = .ok resp)
    (h' : e'.signInEnclave d env' req' = .ok resp')
    (hdata : resp.attestation.payload.userData = resp'.attestation.payload.userData) :
    req.requestId = req'.requestId ∧ req.walletId = req'.walletId ∧ req.hdPath = req'.hdPath ∧
      req.context = req'.context := by
  obtain ⟨ctx, hctx, hbytes⟩ := userData_of_sign h
  obtain ⟨ctx', hctx', hbytes'⟩ := userData_of_sign h'
  rw [hbytes, hbytes'] at hdata
  obtain ⟨hrequest, hwallet, -, -, hpath, rfl⟩ := userData_inj hdata
  exact ⟨hrequest, hwallet, hpath, hjson _ _ _ hctx hctx'⟩

end

/-- **The bytes that are attested determine request, wallet, both digests, path and context.** -/
theorem userData_binds (d : MockDeps) (hjson : ContextsPrintApart d)
    (req req' : EnclaveSignRequest) (signature signature' ctx ctx' : Bytes)
    (hctx : d.jsonContext req.context = .ok ctx) (hctx' : d.jsonContext req'.context = .ok ctx')
    (h : userData d req signature ctx = userData d req' signature' ctx') :
    req.requestId = req'.requestId ∧ req.walletId = req'.walletId ∧
      d.crypto.sha256 req.message = d.crypto.sha256 req'.message ∧
      d.crypto.sha256 signature = d.crypto.sha256 signature' ∧ req.hdPath = req'.hdPath ∧
      req.context = req'.context := by
  obtain ⟨hrequest, hwallet, hmessage, hsignature, hpath, rfl⟩ := userData_inj h
  exact ⟨hrequest, hwallet, hmessage, hsignature, hpath, hjson _ _ _ hctx hctx'⟩

namespace SampleUserData

/-- The JSON text of a context that has only a chain id. -/
def jsonContext : SigningContext → Except String Bytes
  | ⟨some chainId, none, .null⟩ =>
    .ok (utf8 ("\x7b\"chain_id\":" ++ chainId.toNat.repr ++
      ",\"vm_type\":null,\"extra\":null\x7d"))
  | _ => .error "not printed"

/-- The dependencies of the sample. -/
def deps : MockDeps := { Sample.mockDeps with jsonContext }

theorem eq_of_jsonContext {x : SigningContext} {b : Bytes} (h : jsonContext x = .ok b) :
    ∃ chainId : UInt64, x = ⟨some chainId, none, .null⟩ ∧
      b = utf8 ("\x7b\"chain_id\":" ++ chainId.toNat.repr ++
        ",\"vm_type\":null,\"extra\":null\x7d") := by
  unfold jsonContext at h
  split at h
  · next chainId => exact ⟨chainId, rfl, (Except.ok.inj h).symm⟩
  · cases h

theorem contextsPrintApart : ContextsPrintApart deps := by
  intro x y b hx hy
  obtain ⟨m, rfl, rfl⟩ := eq_of_jsonContext hx
  obtain ⟨n, rfl, hb⟩ := eq_of_jsonContext hy
  have htext := congrArg String.toList (utf8_inj hb)
  simp only [String.toList_append, Nat.toList_repr, List.append_cancel_left_eq,
    List.append_cancel_right_eq] at htext
  rw [UInt64.toNat_inj.1 (decimal_inj htext)]

/-- A request with a path and a chain id. -/
def request (scheme : SigningScheme) : EnclaveSignRequest :=
  { Sample.signRequest Sample.message (.raw Sample.message) Sample.walletId none with
    scheme
    hdPath := some ⟨[.hardened 44, .normal 0]⟩
    context := ⟨some 1, none, .null⟩ }

end SampleUserData

open SampleUserData

/-- The scheme is not among what is bound. -/
theorem userData_binds_two_schemes :
    (request .ed25519).hdPath = (request .secp256k1).hdPath ∧
      (request .ed25519).context = (request .secp256k1).context := by
  obtain ⟨-, -, -, -, hpath, hcontext⟩ := userData_binds deps contextsPrintApart (request .ed25519)
    (request .secp256k1) Sample.signature.bytes Sample.signature.bytes _ _
    rfl rfl rfl
  exact ⟨hpath, hcontext⟩

end QfcServerWallet.Enclave
