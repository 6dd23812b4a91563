import QfcServerWallet.Lib.Bytes

/-!
# Borsh

The serialisation format `borsh`, for the types a program reads off the front of a slice.

* A `Format` is a writer, which may fail, and a reader, which returns the value with the rest of the
  slice. They fit: the reader accepts what the writer wrote, followed by anything, and no other
  slice (`read_iff`).
* `Format.pair` writes one value after another and `Format.iso` renames the values, so that the
  format of a record is put together from those of its fields.
* The formats of the primitive types are a parameter, `Primitives`. In `reference` a number is
  written with its least significant byte first, in the width of its type, and a byte vector after
  its length, which is a `u32`: a longer one cannot be written.
-/

namespace QfcServerWallet.Lib.Borsh

/-- Writer and reader of the values of a type. -/
structure Format (α : Type) where
  /-- `borsh::to_vec` -/
  toVec : α → Option Bytes
  /-- `deserialize_reader`, on a slice -/
  read : Bytes → Except String (α × Bytes)
  read_iff : ∀ {buf : Bytes} {a : α} {rest : Bytes},
    read buf = .ok (a, rest) ↔ ∃ front, toVec a = some front ∧ buf = front ++ rest

/-! ## Records -/

namespace Format

variable {α β : Type}

/-- One value after another. -/
def pair (f : Format α) (g : Format β) : Format (α × β) where
  toVec x := do
    let front ← f.toVec x.1
    let back ← g.toVec x.2
    return front ++ back
  read buf := do
    let (a, rest) ← f.read buf
    let (b, rest) ← g.read rest
    return ((a, b), rest)
  read_iff := by
    rintro buf ⟨a, b⟩ rest
    simp only [bind_eq_ok, Option.bind_eq_bind, Option.bind_eq_some_iff]
    constructor
    · rintro ⟨⟨a', mid⟩, ha, ⟨b', rest'⟩, hb, h⟩
      cases h
      obtain ⟨front, hfront, rfl⟩ := f.read_iff.1 ha
      obtain ⟨back, hback, rfl⟩ := g.read_iff.1 hb
      exact ⟨front ++ back, ⟨front, hfront, back, hback, rfl⟩, (List.append_assoc ..).symm⟩
    · rintro ⟨_, ⟨front, hfront, back, hback, h⟩, rfl⟩
      cases h
      refine ⟨(a, back ++ rest), f.read_iff.2 ⟨front, hfront, List.append_assoc ..⟩, (b, rest),
        g.read_iff.2 ⟨back, hback, rfl⟩, rfl⟩

/-- The values under other names. -/
def iso (f : Format α) (e : α ≃ β) : Format β where
  toVec b := f.toVec (e.symm b)
  read buf := do
    let (a, rest) ← f.read buf
    return (e a, rest)
  read_iff := by
    intro buf b rest
    rw [bind_eq_ok]
    constructor
    · rintro ⟨⟨a, rest'⟩, ha, h⟩
      cases h
      rw [e.symm_apply_apply]
      exact f.read_iff.1 ha
    · intro h
      refine ⟨(e.symm b, rest), f.read_iff.2 h, ?_⟩
      exact congrArg (fun b => Except.ok (b, rest)) (e.apply_symm_apply b)

end Format

/-! ## Primitive types -/

/-- The formats of the types a record is made of. -/
structure Primitives where
  u8 : Format UInt8
  u64 : Format UInt64
  bytes : Format Bytes
  u8_ne_nil : ∀ a, u8.toVec a ≠ some []

/-! ## A reference -/

/-- `Read::read_exact` of `n` bytes -/
def readExact (n : Nat) (buf : Bytes) : Except String (Bytes × Bytes) :=
  if n ≤ buf.length then .ok (buf.take n, buf.drop n) else .error "Unexpected length of input"

theorem readExact_eq_ok {n : Nat} {buf b rest : Bytes} :
    readExact n buf = .ok (b, rest) ↔ b.length = n ∧ buf = b ++ rest := by
  unfold readExact
  constructor
  · intro h
    split_ifs at h with hn
    cases h
    exact ⟨List.length_take_of_le hn, (List.take_append_drop n buf).symm⟩
  · rintro ⟨rfl, rfl⟩
    rw [if_pos (by simp), List.take_left, List.drop_left]

/-- A type of numbers that fill `w` bytes. -/
structure Width (α : Type) (w : Nat) where
  toNat : α → Nat
  ofNat : Nat → α
  toNat_lt : ∀ a, toNat a < 256 ^ w
  ofNat_toNat : ∀ a, ofNat (toNat a) = a
  toNat_ofNat : ∀ n < 256 ^ w, toNat (ofNat n) = n

/-- Little-endian. -/
def number {α : Type} {w : Nat} (t : Width α w) : Format α where
  toVec a := some (toLe w (t.toNat a))
  read buf := do
    let (b, rest) ← readExact w buf
    return (t.ofNat (ofLe b), rest)
  read_iff := by
    intro buf a rest
    rw [bind_eq_ok]
    constructor
    · rintro ⟨⟨b, rest'⟩, hb, h⟩
      cases h
      obtain ⟨rfl, rfl⟩ := readExact_eq_ok.1 hb
      refine ⟨b, ?_, rfl⟩
      rw [t.toNat_ofNat _ (ofLe_lt b), toLe_ofLe]
    · rintro ⟨front, hfront, rfl⟩
      obtain rfl := Option.some.inj hfront
      refine ⟨(toLe w (t.toNat a), rest), readExact_eq_ok.2 ⟨length_toLe _ _, rfl⟩, ?_⟩
      have ha : t.ofNat (ofLe (toLe w (t.toNat a))) = a := by
        rw [ofLe_toLe_of_lt (t.toNat_lt a), t.ofNat_toNat]
      exact congrArg (fun a => Except.ok (a, rest)) ha

/-- The length of a vector. -/
def u32 : Format UInt32 :=
  number (w := 4) ⟨UInt32.toNat, UInt32.ofNat, UInt32.toNat_lt, fun _ => UInt32.ofNat_toNat,
    fun _ h => UInt32.toNat_ofNat_of_lt h⟩

/-- `Vec<u8>`: the length as a `u32`, and the bytes -/
def bytes : Format Bytes where
  toVec b := if b.length < 2 ^ 32 then some (toLe 4 b.length ++ b) else none
  read buf := do
    let (len, rest) ← u32.read buf
    readExact len.toNat rest
  read_iff := by
    intro buf b rest
    rw [bind_eq_ok]
    constructor
    · rintro ⟨⟨len, rest'⟩, hlen, h⟩
      obtain ⟨front, hfront, rfl⟩ := u32.read_iff.1 hlen
      obtain ⟨hb, rfl⟩ := readExact_eq_ok.1 h
      obtain rfl := Option.some.inj hfront
      refine ⟨toLe 4 b.length ++ b, if_pos (hb ▸ len.toNat_lt), ?_⟩
      rw [hb, List.append_assoc]
    · rintro ⟨front, hfront, rfl⟩
      split_ifs at hfront with hb
      obtain rfl := Option.some.inj hfront
      have hlen : (UInt32.ofNat b.length).toNat = b.length := UInt32.toNat_ofNat_of_lt hb
      refine ⟨(UInt32.ofNat b.length, b ++ rest), u32.read_iff.2 ⟨toLe 4 b.length, ?_, ?_⟩,
        readExact_eq_ok.2 ⟨hlen.symm, rfl⟩⟩
      · exact congrArg (fun n => some (toLe 4 n)) hlen
      · rw [List.append_assoc]

/-- The formats as `borsh` has them. -/
def reference : Primitives where
  u8 := number (w := 1) ⟨UInt8.toNat, UInt8.ofNat, UInt8.toNat_lt, fun _ => UInt8.ofNat_toNat,
    fun _ h => UInt8.toNat_ofNat_of_lt h⟩
  u64 := number (w := 8) ⟨UInt64.toNat, UInt64.ofNat, UInt64.toNat_lt, fun _ => UInt64.ofNat_toNat,
    fun _ h => UInt64.toNat_ofNat_of_lt h⟩
  bytes := bytes
  u8_ne_nil _ := nofun

end QfcServerWallet.Lib.Borsh
