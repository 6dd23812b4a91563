import QfcServerWallet.Policy.EvmEnvelope

/-!
# The decoder accepts the canonical envelopes

`decode_evm_tx` (`qfc-policy/src/decoders/evm.rs`) against the signed envelopes it can return. The
decoder reads `r` and `s` as byte strings, so here they are byte strings.

Result: **`decodeEvmTx_canonical`**.
-/

namespace QfcServerWallet.Policy.Evm

open Lib Rlp

/-! ## Signed envelopes -/

/-- A value for every item of a signed envelope, those included that the decoder drops. -/
inductive SignedTx where
  | legacy (t : LegacyTx) (v : UInt64) (r s : Bytes)
  | typed (t : TypedTx) (chainId_lt : t.chainId < 2 ^ 64) (yParity : UInt64) (r s : Bytes)

namespace SignedTx

/-- The items, in their order. -/
def items : SignedTx → List Bytes
  | legacy t v r s => t.items ++ signatureItems v.toNat r s
  | typed t _ y r s => t.items ++ signatureItems y.toNat r s

/-- The canonical encoding, behind the type byte of a typed transaction. -/
def bytes : SignedTx → Bytes
  | e@(legacy ..) => encode .list e.items.flatten
  | e@(typed t ..) => t.typeByte :: encode .list e.items.flatten

/-- The fields the decoder keeps. -/
def decoded : SignedTx → DecodedEvmTx
  | legacy t v _ _ => t.decoded v
  | typed t .. => t.decoded

/-- The bytes are the encoding of the envelope. -/
def Encodes (e : SignedTx) (raw : Bytes) : Prop := Fits e.items ∧ raw = e.bytes

end SignedTx

/-! ## What is accepted -/

section Canonical

variable {D : Rlp.Decoder} (hD : D.Canonical) {raw : Bytes}
include hD

theorem SignedTx.Encodes.decode {e : SignedTx} (h : e.Encodes raw) :
    decodeEvmTx D raw = .ok e.decoded := by
  obtain ⟨hfit, rfl⟩ := h
  cases e with
  | legacy t v r s =>
    rw [SignedTx.bytes, decodeEvmTx_list hfit]
    exact (decodeLegacy_iff hD).2 ⟨t, v, r, s, hfit, rfl, rfl⟩
  | typed t hchain y r s =>
    exact (decodeEvmTx_typed_iff hD).2 ⟨t, y, r, s, rfl, hchain, hfit, rfl, rfl⟩

omit hD in
theorem SignedReading.exists_encodes {t : TypedTx} {tx : DecodedEvmTx} {y : UInt64} {r s : Bytes}
    (h : SignedReading raw tx t y r s) :
    ∃ e : SignedTx, e.Encodes (t.typeByte :: raw) ∧ e.decoded = tx := by
  obtain ⟨hchain, hfit, rfl, rfl⟩ := h
  exact ⟨.typed t hchain y r s, ⟨hfit, rfl⟩, rfl⟩

theorem exists_encodes_of_decode {tx : DecodedEvmTx} (h : decodeEvmTx D raw = .ok tx) :
    ∃ e : SignedTx, e.Encodes raw ∧ e.decoded = tx := by
  cases raw with
  | nil => cases h
  | cons first rest =>
    rw [decodeEvmTx] at h
    split at h
    · next hfirst =>
      obtain ⟨t, y, r, s, htype, hread⟩ := (decodeEip2930_iff hD).1 h
      rw [hfirst, ← htype]
      exact hread.exists_encodes
    split at h
    · next hfirst =>
      obtain ⟨t, y, r, s, htype, hread⟩ := (decodeEip1559_iff hD).1 h
      rw [hfirst, ← htype]
      exact hread.exists_encodes
    split at h
    · next hfirst =>
      obtain ⟨t, y, r, s, htype, hread⟩ := (decodeEip4844_iff hD).1 h
      rw [hfirst, ← htype]
      exact hread.exists_encodes
    split at h
    · cases h
    · obtain ⟨t, v, r, s, hfit, hraw, htx⟩ := (decodeLegacy_iff hD).1 h
      exact ⟨.legacy t v r s, ⟨hfit, hraw⟩, htx.symm⟩

/-! ## Each envelope has its own encoding -/

theorem encodeUint_inj_u64 {m n : UInt64} (h : encodeUint m.toNat = encodeUint n.toNat) :
    m = n := by
  have hm : decodeU64 D (encodeUint m.toNat) "" = .ok m := (decodeU64_iff hD).2 rfl
  have hn : decodeU64 D (encodeUint m.toNat) "" = .ok n := (decodeU64_iff hD).2 h
  exact Except.ok.inj (hm.symm.trans hn)

theorem encodeUint_inj_u256 {m n : U256} (h : encodeUint m.toNat = encodeUint n.toNat) :
    m = n := by
  have hm : decodeU256 D (encodeUint m.toNat) "" = .ok m := (decodeU256_iff hD).2 rfl
  have hn : decodeU256 D (encodeUint m.toNat) "" = .ok n := (decodeU256_iff hD).2 h
  exact Except.ok.inj (hm.symm.trans hn)

theorem encode_string_inj {p q : Bytes} (hp : p.length < 2 ^ 64) (hq : q.length < 2 ^ 64)
    (h : encode .string p = encode .string q) : p = q :=
  Except.ok.inj (((decodeBytes_iff hD).2 ⟨hp, rfl⟩).symm.trans ((decodeBytes_iff hD).2 ⟨hq, h⟩))

theorem signatureItems_inj {xs ys : List Bytes} {v v' : UInt64} {r s r' s' : Bytes}
    (hfit : Fits (xs ++ signatureItems v.toNat r s))
    (hfit' : Fits (ys ++ signatureItems v'.toNat r' s'))
    (h : xs ++ signatureItems v.toNat r s = ys ++ signatureItems v'.toNat r' s') :
    xs = ys ∧ v = v' ∧ r = r' ∧ s = s' := by
  obtain ⟨hxs, hsig⟩ := List.append_inj' h rfl
  simp only [signatureItems, List.cons.injEq, and_true] at hsig
  obtain ⟨hv, hr, hs⟩ := hsig
  have hlt {p : Bytes} (hp : encode .string p ∈ signatureItems v.toNat r s) :=
    hfit.payload_lt _ (List.mem_append_right xs hp)
  have hlt' {p : Bytes} (hp : encode .string p ∈ signatureItems v'.toNat r' s') :=
    hfit'.payload_lt _ (List.mem_append_right ys hp)
  exact ⟨hxs, encodeUint_inj_u64 hD hv,
    encode_string_inj hD (hlt (by simp [signatureItems])) (hlt' (by simp [signatureItems])) hr,
    encode_string_inj hD (hlt (by simp [signatureItems])) (hlt' (by simp [signatureItems])) hs⟩

omit hD in
theorem LegacyTx.eq_of_decoded {t t' : LegacyTx} {v v' : UInt64}
    (h : t.decoded v = t'.decoded v') : t = t' := by
  simp only [LegacyTx.decoded, DecodedEvmTx.mk.injEq, Option.some.injEq] at h
  obtain ⟨-, -, hnonce, hto, hvalue, hgas, -, -, hprice, hdata, -⟩ := h
  cases t
  cases t'
  cases hnonce
  cases hto
  cases hvalue
  cases hgas
  cases hprice
  cases hdata
  rfl

omit hD in
theorem chainId_eq {c c' : Nat} (hc : c < 2 ^ 64) (hc' : c' < 2 ^ 64)
    (h : UInt64.ofNat c = UInt64.ofNat c') : c = c' := by
  rw [← UInt64.toNat_ofNat_of_lt' hc, h, UInt64.toNat_ofNat_of_lt' hc']

theorem TypedTx.eq_of_decoded {t t' : TypedTx} (hc : t.chainId < 2 ^ 64) (hc' : t'.chainId < 2 ^ 64)
    (h : t.decoded = t'.decoded) (hitems : t.items = t'.items) : t = t' := by
  cases t with
  | eip2930 =>
    cases t' with
    | eip2930 =>
      simp only [TypedTx.decoded, DecodedEvmTx.mk.injEq, Option.some.injEq] at h
      obtain ⟨-, hchain, rfl, rfl, rfl, rfl, -, -, rfl, rfl, -, rfl, -⟩ := h
      obtain rfl := chainId_eq hc hc' hchain
      rfl
    | _ => cases h
  | eip1559 =>
    cases t' with
    | eip1559 =>
      simp only [TypedTx.decoded, DecodedEvmTx.mk.injEq, Option.some.injEq] at h
      obtain ⟨-, hchain, rfl, rfl, rfl, rfl, rfl, rfl, -, rfl, -, rfl, -⟩ := h
      obtain rfl := chainId_eq hc hc' hchain
      rfl
    | _ => cases h
  | eip4844 =>
    cases t' with
    | eip4844 =>
      simp only [TypedTx.decoded, DecodedEvmTx.mk.injEq, Option.some.injEq] at h
      obtain ⟨-, hchain, rfl, rfl, rfl, rfl, rfl, rfl, -, rfl, -, rfl, rfl⟩ := h
      obtain rfl := chainId_eq hc hc' hchain
      simp only [TypedTx.items, List.cons.injEq, true_and, and_true] at hitems
      obtain rfl := encodeUint_inj_u256 hD hitems.2
      rfl
    | _ => cases h

theorem SignedTx.Encodes.unique {e e' : SignedTx} (h : e.Encodes raw) (h' : e'.Encodes raw) :
    e = e' := by
  have hdecoded : e.decoded = e'.decoded :=
    Except.ok.inj ((h.decode hD).symm.trans (h'.decode hD))
  obtain ⟨hfit, rfl⟩ := h
  obtain ⟨hfit', hbytes⟩ := h'
  cases e with
  | legacy t v r s =>
    cases e' with
    | legacy t' v' r' s' =>
      obtain rfl := LegacyTx.eq_of_decoded hdecoded
      have hitems := items_unique hD hfit (encoded_items_legacy t v.toNat r s) hfit'
        (encoded_items_legacy t v'.toNat r' s') hbytes
      obtain ⟨-, rfl, rfl, rfl⟩ := signatureItems_inj hD hfit hfit' hitems
      rfl
    | typed t' => cases t' <;> cases hdecoded
  | typed t hchain y r s =>
    cases e' with
    | legacy t' v' r' s' => cases t <;> cases hdecoded
    | typed t' hchain' y' r' s' =>
      have hitems := items_unique hD hfit (encoded_items_signed t y.toNat r s) hfit'
        (encoded_items_signed t' y'.toNat r' s') (List.cons.inj hbytes).2
      obtain ⟨hbody, rfl, rfl, rfl⟩ := signatureItems_inj hD hfit hfit' hitems
      obtain rfl := TypedTx.eq_of_decoded hD hchain hchain' hdecoded hbody
      rfl

/-- **Accepted with a view are exactly the canonical encodings of the signed envelopes with this
view. Two of them are the same bytes exactly if all fields of their envelopes agree, those that the
decoder drops included.** -/
theorem decodeEvmTx_canonical :
    (∀ raw tx, decodeEvmTx D raw = .ok tx ↔ ∃ e : SignedTx, e.Encodes raw ∧ e.decoded = tx) ∧
      ∀ (e e' : SignedTx) (raw raw' : Bytes), e.Encodes raw → e'.Encodes raw' →
        (raw = raw' ↔ e = e') := by
  refine ⟨fun raw tx => ⟨exists_encodes_of_decode hD, ?_⟩, fun e e' raw raw' h h' => ⟨?_, ?_⟩⟩
  · rintro ⟨e, henc, rfl⟩
    exact henc.decode hD
  · rintro rfl
    exact h.unique hD h'
  · rintro rfl
    exact h.2.trans h'.2.symm

end Canonical

/-! ## The example of EIP-155 -/

namespace Eip155

/-- The recipient of the EIP-155 example. -/
def toAddr : Address := .ofNat 20 0x3535353535353535353535353535353535353535

/-- The example, signed. -/
def raw : Bytes :=
  toBe 22 0xf86c098504a817c80082520894353535353535353535 ++ toBe 11 0x3535353535353535353535 ++
    toBe 12 0x880de0b6b3a76400008025a0 ++
    toBe 32 0x28ef61340bd939bc2195fe537567866003e1a15d3c71ff63e1590620aa636276 ++
    0xa0 :: toBe 32 0x67cbe9d8997f761aecb703304b3800ccf555c9f3dc64214b297fb1966a3b6d83

/-- What it is decoded to. -/
def view : DecodedEvmTx :=
  LegacyTx.decoded ⟨9, 20000000000, 21000, some toAddr, 1000000000000000000, []⟩ 37

end Eip155

/-- The example of EIP-155 is accepted, so it is canonical. -/
theorem eip155_canonical :
    decodeEvmTx Rlp.reference Eip155.raw = .ok Eip155.view ∧ Eip155.view.chainId = some 1 ∧
      ∃ e : SignedTx, e.Encodes Eip155.raw ∧ e.decoded = Eip155.view := by
  have h : decodeEvmTx Rlp.reference Eip155.raw = .ok Eip155.view := by decide +kernel
  exact ⟨h, by decide, ((decodeEvmTx_canonical reference_canonical).1 _ _).1 h⟩

end QfcServerWallet.Policy.Evm
