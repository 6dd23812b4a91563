import QfcServerWallet.Lib.Bytes
import Mathlib.Logic.Encodable.Basic
import Mathlib.Logic.Equiv.List

/-!
# Byte codecs and authenticated encryption

Interfaces of third-party code that turns values into bytes and back. `RoundTrips` and `Inverts` say
what is documented of them.

`Codec.tally` and `Aead.tagged` satisfy these for every type of values that can be numbered and
every key. `Codec.known` and `Aead.known` change them on one value whose bytes are known, so that a
program can be evaluated on it.
-/

namespace QfcServerWallet.Lib

/-! ## Codecs -/

/-- A serialiser with its parser, as `serde_json::to_vec` and `serde_json::from_slice`. -/
structure Codec (α : Type) where
  encode : α → Except String Bytes
  decode : Bytes → Except String α

namespace Codec

variable {α : Type}

/-- Every value can be written, and reads back. -/
def RoundTrips (c : Codec α) : Prop := ∀ a, ∃ b, c.encode a = .ok b ∧ c.decode b = .ok a

/-- A value is written as a row of zeros, as many as the number of its image. -/
def tally {β : Type} [Encodable β] (f : α → β) (back : β → Option α) : Codec α where
  encode a := .ok (List.replicate (Encodable.encode (f a)) 0)
  decode b :=
    match (Encodable.decode b.length).bind back with
    | some a => .ok a
    | none => .error "unknown bytes"

theorem tally_roundTrips {β : Type} [Encodable β] {f : α → β} {back : β → Option α}
    (h : ∀ a, back (f a) = some a) : (tally f back).RoundTrips := by
  intro a
  refine ⟨_, rfl, ?_⟩
  simp [tally, h]

/-- The codec with the known bytes of one value. -/
def known [DecidableEq α] (a : α) (bytes : Bytes) (c : Codec α) : Codec α where
  encode x := if x = a then .ok bytes else c.encode x
  decode b := if b = bytes then .ok a else c.decode b

/-- One more value, whose bytes were no encoding. -/
theorem RoundTrips.known [DecidableEq α] {c : Codec α} (h : c.RoundTrips) {a : α} {bytes : Bytes}
    (hbytes : ∀ x, c.encode x ≠ .ok bytes) : (c.known a bytes).RoundTrips := by
  intro x
  by_cases hx : x = a
  · exact ⟨bytes, by simp [Codec.known, hx], by simp [Codec.known, hx]⟩
  · obtain ⟨b, hb, hback⟩ := h x
    have hne : b ≠ bytes := by
      rintro rfl
      exact hbytes x hb
    exact ⟨b, by simp [Codec.known, hx, hb], by simp [Codec.known, hne, hback]⟩

theorem encode_tally_ne {β : Type} [Encodable β] {f : α → β} {back : β → Option α} {bytes : Bytes}
    (h : ∃ x ∈ bytes, x ≠ 0) (a : α) : (tally f back).encode a ≠ .ok bytes := by
  intro heq
  obtain rfl : List.replicate (Encodable.encode (f a)) 0 = bytes := Except.ok.inj heq
  obtain ⟨x, hx, hne⟩ := h
  exact hne (List.eq_of_mem_replicate hx)

end Codec

/-! ## Authenticated encryption -/

/-- A cipher with keys of 32 and nonces of 24 bytes. -/
structure Aead where
  encrypt : FixedBytes 32 → FixedBytes 24 → Bytes → Option Bytes
  decrypt : FixedBytes 32 → FixedBytes 24 → Bytes → Option Bytes

namespace Aead

/-- Every message can be encrypted, and decrypts with the same key and nonce. -/
def Inverts (c : Aead) : Prop :=
  ∀ key nonce message, ∃ box, c.encrypt key nonce message = some box ∧
    c.decrypt key nonce box = some message

/-- The message in the clear, with key and nonce as its tag. -/
def tagged : Aead where
  encrypt key nonce message := some (message ++ (key.bytes ++ nonce.bytes))
  decrypt key nonce box := (key.bytes ++ nonce.bytes).isSuffixOf? box

theorem tagged_inverts : tagged.Inverts := fun _ _ _ =>
  ⟨_, rfl, List.isSuffixOf?_eq_some_iff_append_eq.2 rfl⟩

/-- The cipher with the known encryption of one message. -/
def known (key : FixedBytes 32) (nonce : FixedBytes 24) (message box : Bytes) (c : Aead) :
    Aead where
  encrypt k n m := if (k, n, m) = (key, nonce, message) then some box else c.encrypt k n m
  decrypt k n b := if (k, n, b) = (key, nonce, box) then some message else c.decrypt k n b

/-- One more message, whose box was no encryption. -/
theorem Inverts.known {c : Aead} (h : c.Inverts) {key : FixedBytes 32} {nonce : FixedBytes 24}
    {message box : Bytes} (hbox : ∀ m, c.encrypt key nonce m ≠ some box) :
    (c.known key nonce message box).Inverts := by
  intro k n m
  by_cases hm : (k, n, m) = (key, nonce, message)
  · cases hm
    exact ⟨box, by simp [Aead.known], by simp [Aead.known]⟩
  · obtain ⟨b, hb, hback⟩ := h k n m
    have hne : (k, n, b) ≠ (key, nonce, box) := by
      intro heq
      cases heq
      exact hbox m hb
    exact ⟨b, (if_neg hm).trans hb, (if_neg hne).trans hback⟩

theorem encrypt_tagged_ne {key : FixedBytes 32} {nonce : FixedBytes 24} {box : Bytes}
    (hbox : ¬ nonce.bytes <:+ box) (m : Bytes) : tagged.encrypt key nonce m ≠ some box := by
  intro h
  refine hbox ⟨m ++ key.bytes, ?_⟩
  rw [List.append_assoc]
  exact Option.some.inj h

end Aead

end QfcServerWallet.Lib
