import QfcServerWallet.Types

/-!
# What `serde` derives

The shapes that `#[derive(Serialize, Deserialize)]` gives a type, over the tree of a JSON text.

* An object keeps the fields of the text in their order. A struct is written with its fields in the
  order of their declaration and read by their names; fields it does not know are skipped.
* A struct may also be read from an array of its fields, and a variant without fields from an object
  whose one field is its name: `serde` accepts both.
* Where several fields are wrong, the error here is that of the first one declared. The place in the
  text that `serde_json` adds to an error is left out.

Results: what was written reads back (`readU8_u8Json`, `readBytes_bytesJson`, `readSeq_map`).
-/

namespace QfcServerWallet.Serde

open Lib

/-- `serde::de::Error` -/
inductive DeError where
  | missingField (name : String)
  | duplicateField (name : String)
  | unknownVariant (name : String)
  | invalidType (expected : String)
  | invalidValue (expected : String)
  | invalidLength (len : Nat)
  | custom (what : String)
  deriving DecidableEq

/-! ## Values -/

/-- A string. -/
def readString : Json → Except DeError String
  | .string s => .ok s
  | _ => .error (.invalidType "a string")

/-- A `u64`. -/
def readU64 : Json → Except DeError UInt64
  | .number (.posInt n) => .ok n
  | .number _ => .error (.invalidValue "u64")
  | _ => .error (.invalidType "u64")

/-- A `u8`. -/
def readU8 : Json → Except DeError UInt8
  | .number (.posInt n) => if n.toNat ≤ 255 then .ok n.toUInt8 else .error (.invalidValue "u8")
  | .number _ => .error (.invalidValue "u8")
  | _ => .error (.invalidType "u8")

/-- `Vec<T>` -/
def readSeq {α : Type} (read : Json → Except DeError α) : Json → Except DeError (List α)
  | .array items => items.mapM read
  | _ => .error (.invalidType "a sequence")

/-- A variant without fields. -/
def readVariant {α : Type} (variants : List (String × α)) : Json → Except DeError α
  | .string name | .object [(name, .null)] =>
    match variants.lookup name with
    | some a => .ok a
    | none => .error (.unknownVariant name)
  | _ => .error (.invalidType "variant identifier")

/-- How a `u64` is written. -/
def u64Json (n : UInt64) : Json := .number (.posInt n)

/-- How a `u8` is written. -/
def u8Json (n : UInt8) : Json := .number (.posInt n.toUInt64)

/-- `Vec<u8>`, which is written as an array of numbers. -/
def bytesJson (b : Bytes) : Json := .array (b.map u8Json)

/-- A `Vec<u8>`. -/
def readBytes : Json → Except DeError Bytes := readSeq readU8

@[simp] theorem readString_string (s : String) : readString (.string s) = .ok s := rfl

@[simp] theorem readU64_u64Json (n : UInt64) : readU64 (u64Json n) = .ok n := rfl

@[simp] theorem readU8_u8Json (n : UInt8) : readU8 (u8Json n) = .ok n := by
  have h : n.toUInt64.toNat ≤ 255 := by
    have := n.toNat_lt
    simp only [UInt8.toNat_toUInt64]
    omega
  rw [u8Json, readU8, if_pos h, UInt8.toUInt8_toUInt64]

/-- What was written reads back. -/
theorem readSeq_map {α : Type} {read : Json → Except DeError α} {write : α → Json}
    (h : ∀ a, read (write a) = .ok a) (l : List α) :
    readSeq read (.array (l.map write)) = .ok l := by
  rw [readSeq, mapM_eq_ok_iff, List.forall₂_map_left_iff]
  exact List.forall₂_same.2 fun a _ => h a

@[simp] theorem readBytes_bytesJson (b : Bytes) : readBytes (bytesJson b) = .ok b :=
  readSeq_map readU8_u8Json b

/-! ## Structs and tagged enums -/

/-- The fields of an object. -/
abbrev Fields := List (String × Json)

/-- The fields of a struct, by name. -/
def structFields (expected : String) (names : List String) : Json → Except DeError Fields
  | .object fields => .ok fields
  | .array items =>
    if items.length = names.length then .ok (names.zip items)
    else .error (.invalidLength items.length)
  | _ => .error (.invalidType expected)

/-- A field that is there once. -/
def readField {α : Type} (name : String) (read : Json → Except DeError α) (fields : Fields) :
    Except DeError α :=
  match fields.filter fun field => field.1 = name with
  | [] => .error (.missingField name)
  | [field] => read field.2
  | _ => .error (.duplicateField name)

/-- The tag of an internally tagged enum, and its content. -/
def readTag (tag expected : String) : Json → Except DeError (String × Json)
  | .object fields => do
    let variant ← readField tag readString fields
    .ok (variant, .object (fields.filter fun field => field.1 ≠ tag))
  | .array (item :: items) => do
    let variant ← readString item
    .ok (variant, .array items)
  | .array [] => .error (.missingField tag)
  | _ => .error (.invalidType expected)

end QfcServerWallet.Serde
