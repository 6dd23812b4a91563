import QfcServerWallet.Lib.Bytes
import Mathlib.Data.String.Basic

/-!
# Wallet types: identifiers, schemes, derivation paths

The leaf types of `qfc-wallet-types` (`ids.rs`, `scheme.rs`, `hd_path.rs`).

* Every identifier the source declares with `ulid_newtype!` is one type `Ident` indexed by what it
  identifies, so mixing two kinds up does not type-check, as in the source. An id is its 128-bit
  ULID; `toString` is the 26-digit Crockford base-32 text, `textBytes` the bytes of that text.
* `Ulid::new()` is random: a function that draws an id takes the drawn value as an argument.
* `HdPath` keeps the segments as declared (an index may be any `u32`: only the text parser
  bounds it).
* `Json` is `serde_json::Value`. How a value prints is a parameter wherever bytes depend on it.

Results: `Ident.length_textBytes` and `Ident.textBytes_inj`, on which every signed preimage that
embeds an id relies, and `Ident.toString_lt_iff`, on which every query that orders by an id relies.
-/

namespace QfcServerWallet

open Lib

/-! ## Identifiers -/

/-- What an identifier names: one constructor per `ulid_newtype!`. -/
inductive IdKind where
  | wallet
  | request
  | decision
  | approval
  | event
  | policy
  | approverSet
  | approver
  deriving DecidableEq, Repr

/-- A ULID newtype. -/
@[ext]
structure Ident (k : IdKind) where
  ulid : BitVec 128
  deriving DecidableEq

instance {k : IdKind} : LawfulBEq (Ident k) := inferInstance

/-- The id of a wallet. -/
abbrev WalletId := Ident .wallet

/-- The id of a request. -/
abbrev RequestId := Ident .request

/-- The id of a decision. -/
abbrev DecisionId := Ident .decision

/-- The id of an approval. -/
abbrev ApprovalId := Ident .approval

/-- The id of an audit event. -/
abbrev EventId := Ident .event

/-- The id of a policy. -/
abbrev PolicyId := Ident .policy

/-- The id of an approver set. -/
abbrev ApproverSetId := Ident .approverSet

/-- The id of an approver. -/
abbrev ApproverId := Ident .approver

/-- The Crockford base-32 alphabet: the digits and the capitals without I, L, O and U. -/
def crockford (n : Nat) : Char :=
  "0123456789ABCDEFGHJKMNPQRSTVWXYZ".toList.getD n '0'

/-- The ASCII code of a base-32 digit. -/
def crockfordByte (n : Nat) : UInt8 := UInt8.ofNat (crockford n).toNat

theorem utf8EncodeChar_crockford :
    ∀ n < 32, String.utf8EncodeChar (crockford n) = [crockfordByte n] := by decide

theorem crockfordByte_inj :
    ∀ i < 32, ∀ j < 32, crockfordByte i = crockfordByte j → i = j := by decide

namespace Ident

variable {k : IdKind} {a b : Ident k}

/-- The 26 base-32 digits of the ULID; the first one carries three bits. -/
def chars (id : Ident k) : List Char := digits 32 crockford 26 id.ulid.toNat

/-- `Display` -/
def toString (id : Ident k) : String := String.ofList id.chars

instance : ToString (Ident k) := ⟨toString⟩

/-- `to_string().as_bytes()` -/
def textBytes (id : Ident k) : Bytes := utf8 id.toString

theorem flatMap_crockford (w n : Nat) :
    (digits 32 crockford w n).flatMap String.utf8EncodeChar = digits 32 crockfordByte w n := by
  induction w generalizing n with
  | zero => rfl
  | succ w ih =>
    have hd := utf8EncodeChar_crockford (n % 32) (Nat.mod_lt _ (by decide))
    simp only [digits, List.flatMap_append, ih, List.flatMap_singleton, hd]

theorem textBytes_eq (id : Ident k) : id.textBytes = digits 32 crockfordByte 26 id.ulid.toNat := by
  rw [textBytes, utf8, toString, String.toList_ofList, chars, flatMap_crockford]

/-- The text of an id has a fixed width. -/
@[simp] theorem length_textBytes (id : Ident k) : id.textBytes.length = 26 := by
  rw [textBytes_eq, length_digits]

/-- It determines the id. -/
theorem textBytes_inj (h : a.textBytes = b.textBytes) : a = b := by
  have bound (id : Ident k) : id.ulid.toNat < 32 ^ 26 :=
    Nat.lt_of_lt_of_le id.ulid.isLt (by norm_num)
  rw [textBytes_eq, textBytes_eq] at h
  have := digits_inj (by decide) crockfordByte_inj (bound a) (bound b) h
  exact Ident.ext (BitVec.eq_of_toNat_eq this)

theorem toString_inj (h : a.toString = b.toString) : a = b :=
  textBytes_inj (by rw [textBytes, textBytes, h])

theorem crockford_lt : ∀ i < 32, ∀ j < 32, i < j → crockford i < crockford j := by decide

/-- Texts sort as the ids do. -/
theorem toString_lt_iff : a.toString < b.toString ↔ a.ulid < b.ulid := by
  have bound (id : Ident k) : id.ulid.toNat < 32 ^ 26 :=
    Nat.lt_of_lt_of_le id.ulid.isLt (by norm_num)
  have mono (a b : Ident k) (h : a.ulid < b.ulid) : a.toString < b.toString := by
    rw [String.lt_iff_toList_lt, toString, toString, String.toList_ofList, String.toList_ofList]
    exact digits_lt (by decide) crockford_lt (bound b) (BitVec.lt_def.1 h)
  refine ⟨fun h => ?_, mono a b⟩
  by_contra hnot
  rcases Nat.lt_or_eq_of_le (BitVec.le_def.1 (BitVec.not_lt.1 hnot)) with hlt | heq
  · exact lt_asymm h (mono b a (BitVec.lt_def.2 hlt))
  · rw [Ident.ext (BitVec.eq_of_toNat_eq heq)] at h
    exact lt_irrefl _ h

end Ident

/-! ### Reading an identifier back -/

/-- `Ulid::from_str`, a dependency; the error is its text. -/
abbrev UlidParser := String → Except String (BitVec 128)

/-- The parser reads back what `Display` prints. -/
def UlidParser.RoundTrips (p : UlidParser) : Prop :=
  ∀ {k : IdKind} (id : Ident k), p id.toString = .ok id.ulid

/-- `FromStr`; the text is that of `ParseError::InvalidUlid`. -/
def Ident.fromStr {k : IdKind} (p : UlidParser) (s : String) : Except String (Ident k) :=
  match p s with
  | .ok u => .ok ⟨u⟩
  | .error e => .error ("invalid ULID: " ++ e)

theorem Ident.fromStr_toString {k : IdKind} {p : UlidParser} (hp : p.RoundTrips) (id : Ident k) :
    Ident.fromStr p id.toString = .ok id := by
  rw [Ident.fromStr, hp id]

/-- The value of a base-32 digit. -/
def crockfordValue (c : Char) : Nat := "0123456789ABCDEFGHJKMNPQRSTVWXYZ".toList.idxOf c

/-- A parser of exactly the printed form. -/
def ulidReference : UlidParser := fun s =>
  if s.toList.length = 26 then .ok (BitVec.ofNat 128 (ofDigits 32 crockfordValue s.toList))
  else .error "invalid length"

theorem crockfordValue_crockford : ∀ n < 32, crockfordValue (crockford n) = n := by decide

theorem ulidReference_roundTrips : ulidReference.RoundTrips := by
  intro k id
  have hbound : id.ulid.toNat < 32 ^ 26 := Nat.lt_of_lt_of_le id.ulid.isLt (by norm_num)
  have hlist : id.toString.toList = digits 32 crockford 26 id.ulid.toNat := by
    rw [Ident.toString, String.toList_ofList, Ident.chars]
  rw [ulidReference, hlist, length_digits, if_pos rfl,
    ofDigits_digits (by decide) crockfordValue_crockford hbound, BitVec.ofNat_toNat,
    BitVec.setWidth_eq]

/-- A share of a wallet: its 1-based Shamir index. -/
structure ShareId where
  walletId : WalletId
  index : UInt8
  deriving DecidableEq

/-- The tenant that owns a wallet, an approver or an approver set. -/
structure OwnerId where
  value : String
  deriving DecidableEq

/-! ## Signing schemes -/

/-- The schemes a wallet can sign with. -/
inductive SigningScheme where
  | ed25519
  | secp256k1
  | secp256k1Recoverable
  | mlDsa44
  | mlDsa65
  | mlDsa87
  deriving DecidableEq, Repr

/-- The hash applied to a message before signing. -/
inductive HashAlg where
  | none
  | sha256
  | keccak256
  | blake3
  deriving DecidableEq, Repr

/-! ## Derivation paths -/

/-- A segment of a path. -/
inductive HdPathSegment where
  | normal (index : UInt32)
  | hardened (index : UInt32)
  deriving DecidableEq

namespace HdPathSegment

/-- The 32-bit child index of the derivation step. -/
def childIndex : HdPathSegment → UInt32
  | normal i => i
  | hardened i => i ||| 0x80000000

/-- The segment is hardened. -/
def isHardened : HdPathSegment → Bool
  | normal _ => false
  | hardened _ => true

/-- `Display` -/
def toString : HdPathSegment → String
  | normal i => i.toNat.repr
  | hardened i => i.toNat.repr ++ "'"

end HdPathSegment

/-- A derivation path. -/
structure HdPath where
  segments : List HdPathSegment
  deriving DecidableEq

namespace HdPath

/-- `Display`: `m`, then each segment after a slash. -/
def toString (p : HdPath) : String :=
  p.segments.foldl (fun s seg => s ++ "/" ++ seg.toString) "m"

end HdPath

/-! ## JSON values -/

/-- A JSON number: the three representations `serde_json` keeps apart. -/
inductive JsonNumber where
  | posInt (n : UInt64)
  | negInt (n : Int64)
  | float (bits : UInt64)
  deriving DecidableEq

/-- `serde_json::Value` -/
inductive Json where
  | null
  | bool (b : Bool)
  | number (n : JsonNumber)
  | string (s : String)
  | array (items : List Json)
  | object (fields : List (String × Json))

end QfcServerWallet
