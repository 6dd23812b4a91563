import Mathlib.Data.List.Forall2
import Mathlib.Data.List.Induction
import Mathlib.Tactic.Linarith

/-!
# Bytes, numbers as bytes, hex text and saturating time

The byte-level vocabulary the rest of the development is written in. Nothing here knows about
wallets.

* `Bytes` is a byte string (`Vec<u8>`, `&[u8]`); `FixedBytes n` is an array `[u8; n]`, a byte
  string that carries its length.
* `digits` writes a number in a base at a fixed width, `ofDigits` reads one; `toBe w n` / `ofBe`
  are `to_be_bytes` at a width of `w` bytes and `from_be_bytes` (also `U256::from_big_endian`,
  which takes any length). `toLe` and `ofLe` are the same with the least significant byte first.
* `hexEncode` / `hexDecode` are `hex::encode` and `hex::decode`, `utf8` is `str::as_bytes`.
* `Fault ε` keeps a returned error and a panic apart.
* `piece` cuts a list into pieces of one width, `chunks_exact` without its remainder.
* `Int64.satSub` is `i64::saturating_sub`.
-/

namespace QfcServerWallet.Lib

/-- A byte string. -/
abbrev Bytes := List UInt8

/-- A byte array of a fixed length. -/
@[ext]
structure FixedBytes (n : Nat) where
  bytes : Bytes
  /-- the array has its declared length -/
  length_bytes : bytes.length = n
  deriving DecidableEq

namespace FixedBytes

variable {n : Nat}

/-- `<[u8; n]>::try_from`: the bytes, if there are exactly `n` of them. -/
def ofBytes? (n : Nat) (b : Bytes) : Option (FixedBytes n) :=
  if h : b.length = n then some ⟨b, h⟩ else none

/-- `[0u8; n]` -/
def zero (n : Nat) : FixedBytes n := ⟨List.replicate n 0, List.length_replicate⟩

/-- `[b; n]` -/
def replicate (n : Nat) (b : UInt8) : FixedBytes n := ⟨List.replicate n b, List.length_replicate⟩

theorem ofBytes?_eq_some {b : Bytes} {a : FixedBytes n} :
    ofBytes? n b = some a ↔ a.bytes = b := by
  unfold ofBytes?
  split
  · next h => exact ⟨fun e => by cases e; rfl, fun e => by cases e; rfl⟩
  · next h =>
    constructor
    · exact fun e => absurd e (by simp)
    · rintro rfl
      exact absurd a.length_bytes h

@[simp] theorem ofBytes?_bytes (a : FixedBytes n) : ofBytes? n a.bytes = some a :=
  ofBytes?_eq_some.2 rfl

end FixedBytes

/-! ## Fallible steps -/

/-- How a call ends that returns no value: with an error value, or by a panic. -/
inductive Fault (ε : Type) where
  | err (e : ε)
  | panic
  deriving DecidableEq

variable {α β ε : Type} {l : List α} {f : α → Except ε β} {x : Except ε α} {base : Nat} {w n : Nat}
  {R : α → β → Prop} {m : List β}

/-- `?` on a call that cannot panic, inside one that can. -/
def orFault : Except ε α → Except (Fault ε) α
  | .ok a => .ok a
  | .error e => .error (.err e)

/-- An error value in the terms of a caller; a panic stays a panic. -/
def Fault.map {δ : Type} (f : ε → δ) : Fault ε → Fault δ
  | .err e => .err (f e)
  | .panic => .panic

@[simp] theorem orFault_eq_ok {a : α} : orFault x = .ok a ↔ x = .ok a := by
  cases x <;> simp [orFault]

@[simp] theorem mapError_eq_ok {δ : Type} {f : ε → δ} {a : α} :
    x.mapError f = .ok a ↔ x = .ok a := by
  cases x <;> simp [Except.mapError]

theorem exists_ok_of_isOk (h : x.isOk = true) : ∃ a, x = .ok a := by
  cases x with
  | error e => cases h
  | ok a => exact ⟨a, rfl⟩

/-- A fallible sequence, taken apart. -/
theorem bind_eq_ok {b : β} : (x >>= f) = .ok b ↔ ∃ a, x = .ok a ∧ f a = .ok b := by
  cases x with
  | error e => simp [bind, Except.bind]
  | ok a => simp [bind, Except.bind]

theorem seq_eq_ok {x : Except ε Unit} {f : Unit → Except ε β} {b : β} :
    (x >>= f) = .ok b ↔ x = .ok () ∧ f () = .ok b := by
  rw [bind_eq_ok]
  exact ⟨fun ⟨_, hx, hf⟩ => ⟨hx, hf⟩, fun ⟨hx, hf⟩ => ⟨(), hx, hf⟩⟩

theorem bind_eq_error {e : ε} :
    (x >>= f) = .error e ↔ x = .error e ∨ ∃ a, x = .ok a ∧ f a = .error e := by
  cases x with
  | error e' => simp [bind, Except.bind]
  | ok a => simp [bind, Except.bind]

theorem forM_eq_ok {f : α → Except ε Unit} : l.forM f = .ok () ↔ ∀ a ∈ l, f a = .ok () := by
  induction l with
  | nil => simp [List.forM_nil, pure, Except.pure]
  | cons a l ih => rw [List.forM, seq_eq_ok, ih, List.forall_mem_cons]

theorem mapM_eq_ok_map {g : α → β} (h : ∀ a ∈ l, f a = .ok (g a)) : l.mapM f = .ok (l.map g) := by
  induction l with
  | nil => rfl
  | cons a l ih =>
    obtain ⟨ha, hl⟩ := List.forall_mem_cons.1 h
    rw [List.mapM_cons, ha, ih hl]
    rfl

theorem mapM_eq_ok_iff {bs : List β} :
    l.mapM f = .ok bs ↔ List.Forall₂ (fun a b => f a = .ok b) l bs := by
  induction l generalizing bs with
  | nil =>
    rw [List.forall₂_nil_left_iff]
    exact ⟨fun h => (Except.ok.inj h).symm, fun h => h ▸ rfl⟩
  | cons a l ih =>
    rw [List.mapM_cons, bind_eq_ok, List.forall₂_cons_left_iff]
    simp only [bind_eq_ok, ih]
    constructor
    · rintro ⟨b, hb, bs', hbs', hret⟩
      exact ⟨b, bs', hb, hbs', (Except.ok.inj hret).symm⟩
    · rintro ⟨b, bs', hb, hbs', rfl⟩
      exact ⟨b, hb, bs', hbs', rfl⟩

theorem exists_mapM_eq_ok (h : ∀ a ∈ l, ∃ b, f a = .ok b) : ∃ bs, l.mapM f = .ok bs := by
  simp only [mapM_eq_ok_iff]
  induction l with
  | nil => exact ⟨[], .nil⟩
  | cons a l ih =>
    obtain ⟨⟨b, hb⟩, hl⟩ := List.forall_mem_cons.1 h
    obtain ⟨bs, hbs⟩ := ih hl
    exact ⟨b :: bs, .cons hb hbs⟩

/-! ## Lists in step -/

theorem exists_left_of_forall₂ (h : List.Forall₂ R l m) {b : β} (hb : b ∈ m) : ∃ a ∈ l, R a b := by
  induction h with
  | nil => cases hb
  | cons hab _ ih =>
    rcases List.mem_cons.1 hb with rfl | hb
    · exact ⟨_, List.mem_cons_self, hab⟩
    · obtain ⟨a, ha, hr⟩ := ih hb
      exact ⟨a, List.mem_cons_of_mem _ ha, hr⟩

theorem exists_right_of_forall₂ (h : List.Forall₂ R l m) {a : α} (ha : a ∈ l) : ∃ b ∈ m, R a b :=
  exists_left_of_forall₂ (List.Forall₂.flip h) ha

theorem map_eq_map_of_forall₂ {γ : Type} {f : α → γ} {g : β → γ}
    (h : List.Forall₂ (fun a b => f a = g b) l m) : l.map f = m.map g := by
  induction h with
  | nil => rfl
  | cons hab _ ih => rw [List.map_cons, List.map_cons, hab, ih]

/-! ## Pieces of one width -/

/-- The `k`-th piece of width `w`. -/
def piece (w : Nat) (l : List α) (k : Nat) : List α := (l.drop (k * w)).take w

theorem length_piece {k : Nat} (hl : l.length = n * w) (hk : k < n) :
    (piece w l k).length = w := by
  have hle : (k + 1) * w ≤ n * w := Nat.mul_le_mul_right w hk
  rw [Nat.succ_mul] at hle
  rw [piece, List.length_take, List.length_drop, hl]
  omega

theorem length_flatMap_range {f : Nat → List α} (hf : ∀ k < n, (f k).length = w) :
    ((List.range n).flatMap f).length = n * w := by
  induction n with
  | zero => simp
  | succ n ih =>
    rw [List.range_succ, List.flatMap_append, List.length_append,
      ih fun k hk => hf k (Nat.lt_succ_of_lt hk), List.flatMap_singleton, hf n (Nat.lt_succ_self n),
      Nat.succ_mul]

theorem piece_flatMap {k : Nat} {f : Nat → List α} (hf : ∀ k < n, (f k).length = w) (hk : k < n) :
    piece w ((List.range n).flatMap f) k = f k := by
  induction n with
  | zero => omega
  | succ n ih =>
    have hf' : ∀ k < n, (f k).length = w := fun k hk => hf k (Nat.lt_succ_of_lt hk)
    have hlength := length_flatMap_range hf'
    rw [List.range_succ, List.flatMap_append, List.flatMap_singleton, piece]
    rcases Nat.lt_or_eq_of_le (Nat.le_of_lt_succ hk) with hlt | rfl
    · have hle : (k + 1) * w ≤ n * w := Nat.mul_le_mul_right w hlt
      rw [Nat.succ_mul] at hle
      rw [List.drop_append_of_le_length (by omega), List.take_append_of_le_length]
      · exact ih hf' hlt
      · rw [List.length_drop]
        omega
    · rw [List.drop_left' hlength, List.take_of_length_le (hf k hk).le]

theorem flatMap_piece (hl : l.length = n * w) : (List.range n).flatMap (piece w l) = l := by
  induction n generalizing l with
  | zero =>
    obtain rfl : l = [] := by simpa using hl
    rfl
  | succ n ih =>
    rw [Nat.succ_mul] at hl
    have hfront : (List.range n).flatMap (piece w l) = l.take (n * w) := by
      rw [← ih (l := l.take (n * w)) (by rw [List.length_take]; omega)]
      rw [List.flatMap_def, List.flatMap_def]
      refine congrArg List.flatten (List.map_congr_left fun k hk => ?_)
      have hle : (k + 1) * w ≤ n * w := Nat.mul_le_mul_right w (List.mem_range.1 hk)
      rw [Nat.succ_mul] at hle
      rw [piece, piece, List.drop_take, List.take_take, Nat.min_eq_left (by omega)]
    have hlast : piece w l n = l.drop (n * w) := by
      rw [piece, List.take_of_length_le]
      rw [List.length_drop]
      omega
    rw [List.range_succ, List.flatMap_append, List.flatMap_singleton, hfront, hlast,
      List.take_append_drop]

/-! ## Positional digits -/

/-- The low `w` digits of `n` in a base, most significant first, each written with `f`. -/
def digits (base : Nat) (f : Nat → α) : Nat → Nat → List α
  | 0, _ => []
  | w + 1, n => digits base f w (n / base) ++ [f (n % base)]

@[simp] theorem length_digits (base : Nat) (f : Nat → α) (w n : Nat) :
    (digits base f w n).length = w := by
  induction w generalizing n with
  | zero => rfl
  | succ w ih => simp [digits, ih]

theorem exists_of_mem_digits {f : Nat → α} {x : α} (hb : 0 < base) :
    ∀ {w n : Nat}, x ∈ digits base f w n → ∃ i < base, f i = x
  | 0, _, h => absurd h List.not_mem_nil
  | w + 1, n, h => by
    rcases List.mem_append.1 h with h | h
    · exact exists_of_mem_digits hb h
    · exact ⟨n % base, Nat.mod_lt _ hb, (List.mem_singleton.1 h).symm⟩

/-- Digits of one width determine the number. -/
theorem digits_inj {f : Nat → α} (hb : 0 < base) (hf : ∀ i < base, ∀ j < base, f i = f j → i = j) :
    ∀ {w m n : Nat}, m < base ^ w → n < base ^ w → digits base f w m = digits base f w n → m = n
  | 0, m, n, hm, hn, _ => by
    simp only [Nat.pow_zero] at hm hn
    omega
  | w + 1, m, n, hm, hn, h => by
    rw [Nat.pow_succ, Nat.mul_comm] at hm hn
    obtain ⟨hhi, hlo⟩ := List.append_inj' h rfl
    have hdiv : m / base = n / base :=
      digits_inj hb hf (Nat.div_lt_of_lt_mul hm) (Nat.div_lt_of_lt_mul hn) hhi
    have hmod : m % base = n % base :=
      hf _ (Nat.mod_lt _ hb) _ (Nat.mod_lt _ hb) (by simpa using hlo)
    rw [← Nat.div_add_mod m base, ← Nat.div_add_mod n base, hdiv, hmod]

/-- The number a list of digits denotes, with `g` the value of a digit. -/
def ofDigits (base : Nat) (g : α → Nat) (l : List α) : Nat :=
  l.foldl (fun acc x => acc * base + g x) 0

/-- They are read back as the number. -/
theorem ofDigits_digits {f : Nat → α} {g : α → Nat} (hb : 0 < base) (hg : ∀ i < base, g (f i) = i) :
    ∀ {w n : Nat}, n < base ^ w → ofDigits base g (digits base f w n) = n
  | 0, n, hn => by
    simp only [Nat.pow_zero] at hn
    simp only [digits, ofDigits, List.foldl_nil]
    omega
  | w + 1, n, hn => by
    rw [Nat.pow_succ, Nat.mul_comm] at hn
    have ih : ofDigits base g (digits base f w (n / base)) = n / base :=
      ofDigits_digits hb hg (Nat.div_lt_of_lt_mul hn)
    rw [digits, ofDigits, List.foldl_append, ← ofDigits, ih, List.foldl_cons, List.foldl_nil,
      hg _ (Nat.mod_lt _ hb)]
    exact Nat.div_add_mod' n base

theorem append_lt_append [LT α] :
    ∀ {l m : List α} (a b : List α), l.length = m.length → l < m → l ++ a < m ++ b
  | [], [], _, _, _, h => absurd h (by simp)
  | x :: l, y :: m, a, b, hlen, h => by
    rw [List.cons_append, List.cons_append, List.cons_lt_cons_iff]
    rcases List.cons_lt_cons_iff.1 h with hxy | ⟨rfl, hlm⟩
    · exact .inl hxy
    · exact .inr ⟨rfl, append_lt_append a b (by simpa using hlen) hlm⟩

/-- They are ordered as the numbers are. -/
theorem digits_lt [LT α] {f : Nat → α} (hb : 0 < base)
    (hf : ∀ i < base, ∀ j < base, i < j → f i < f j) :
    ∀ {w m n : Nat}, n < base ^ w → m < n → digits base f w m < digits base f w n
  | 0, m, n, hn, hmn => by
    simp only [Nat.pow_zero] at hn
    omega
  | w + 1, m, n, hn, hmn => by
    rw [Nat.pow_succ, Nat.mul_comm] at hn
    rcases Nat.lt_or_eq_of_le (Nat.div_le_div_right hmn.le) with hdiv | hdiv
    · exact append_lt_append _ _ (by simp) (digits_lt hb hf (Nat.div_lt_of_lt_mul hn) hdiv)
    · rw [digits, digits, hdiv]
      refine List.append_left_lt (List.cons_lt_cons_iff.2 (.inl ?_))
      refine hf _ (Nat.mod_lt _ hb) _ (Nat.mod_lt _ hb) ?_
      have hm := Nat.div_add_mod m base
      have hn := Nat.div_add_mod n base
      rw [hdiv] at hm
      omega

/-! ## Big-endian numbers -/

/-- The low `w` bytes of `n`, most significant first. -/
def toBe (w n : Nat) : Bytes := digits 256 UInt8.ofNat w n

/-- The number a byte string denotes, most significant byte first. -/
def ofBe (b : Bytes) : Nat := b.foldl (fun acc x => acc * 256 + x.toNat) 0

@[simp] theorem length_toBe (w n : Nat) : (toBe w n).length = w := length_digits _ _ _ _

theorem toBe_succ (w n : Nat) :
    toBe (w + 1) n = toBe w (n / 256) ++ [UInt8.ofNat (n % 256)] := rfl

@[simp] theorem ofBe_nil : ofBe [] = 0 := rfl

theorem ofBe_concat (b : Bytes) (x : UInt8) : ofBe (b ++ [x]) = ofBe b * 256 + x.toNat := by
  simp [ofBe]

theorem ofBe_lt (b : Bytes) : ofBe b < 256 ^ b.length := by
  induction b using List.reverseRecOn with
  | nil => simp
  | append_singleton b x ih =>
    have hx : x.toNat < 256 := x.toNat_lt
    rw [ofBe_concat, List.length_append, List.length_singleton, Nat.pow_succ]
    omega

/-- A number is read back up to the width. -/
theorem ofBe_toBe (w n : Nat) : ofBe (toBe w n) = n % 256 ^ w := by
  induction w generalizing n with
  | zero => simp [toBe, digits, Nat.mod_one]
  | succ w ih =>
    have hb : (UInt8.ofNat (n % 256)).toNat = n % 256 := by simp [UInt8.toNat_ofNat']
    rw [toBe_succ, ofBe_concat, ih, hb, Nat.pow_succ, Nat.mul_comm (256 ^ w) 256, Nat.mod_mul]
    omega

theorem ofBe_toBe_of_lt (h : n < 256 ^ w) : ofBe (toBe w n) = n := by
  rw [ofBe_toBe, Nat.mod_eq_of_lt h]

/-- Bytes are written back. -/
theorem toBe_ofBe (b : Bytes) : toBe b.length (ofBe b) = b := by
  induction b using List.reverseRecOn with
  | nil => rfl
  | append_singleton b x ih =>
    have hx : x.toNat < 256 := x.toNat_lt
    have hdiv : (ofBe b * 256 + x.toNat) / 256 = ofBe b := by omega
    have hmod : (ofBe b * 256 + x.toNat) % 256 = x.toNat := by omega
    rw [ofBe_concat, List.length_append, List.length_singleton, toBe_succ, hdiv, hmod, ih]
    simp

theorem toBe_inj {m : Nat} (hm : m < 256 ^ w) (hn : n < 256 ^ w) (h : toBe w m = toBe w n) :
    m = n := by
  rw [← ofBe_toBe_of_lt hm, ← ofBe_toBe_of_lt hn, h]

/-- The array of the low `n` bytes of a number. -/
def FixedBytes.ofNat (n v : Nat) : FixedBytes n := ⟨toBe n v, length_toBe n v⟩

/-! ## Little-endian numbers -/

/-- The low `w` bytes of `n`, least significant first. -/
def toLe (w n : Nat) : Bytes := (toBe w n).reverse

/-- The number a byte string denotes, least significant byte first. -/
def ofLe (b : Bytes) : Nat := ofBe b.reverse

@[simp] theorem length_toLe (w n : Nat) : (toLe w n).length = w := by
  rw [toLe, List.length_reverse, length_toBe]

theorem ofLe_lt (b : Bytes) : ofLe b < 256 ^ b.length := by
  have h := ofBe_lt b.reverse
  rwa [List.length_reverse] at h

/-- So is a little-endian number. -/
theorem ofLe_toLe_of_lt (h : n < 256 ^ w) : ofLe (toLe w n) = n := by
  rw [ofLe, toLe, List.reverse_reverse, ofBe_toBe_of_lt h]

theorem toLe_ofLe (b : Bytes) : toLe b.length (ofLe b) = b := by
  have h := toBe_ofBe b.reverse
  rw [List.length_reverse] at h
  rw [toLe, ofLe, h, List.reverse_reverse]

theorem ofLe_append_replicate_zero (b : Bytes) (k : Nat) :
    ofLe (b ++ List.replicate k 0) = ofLe b := by
  have hzeros : (List.replicate k (0 : UInt8)).foldl (fun acc x => acc * 256 + x.toNat) 0 = 0 := by
    induction k with
    | zero => rfl
    | succ k ih => exact ih
  rw [ofLe, List.reverse_append, List.reverse_replicate, ofBe, List.foldl_append, hzeros]
  rfl

/-! ## Numbers of fixed width -/

/-- `i64::to_be_bytes` -/
def int64Be (t : Int64) : Bytes := toBe 8 t.toUInt64.toNat

@[simp] theorem length_int64Be (t : Int64) : (int64Be t).length = 8 := length_toBe _ _

theorem int64Be_inj {s t : Int64} (h : int64Be s = int64Be t) : s = t := by
  have hn := toBe_inj s.toUInt64.toNat_lt t.toUInt64.toNat_lt h
  have hu : s.toUInt64 = t.toUInt64 := UInt64.toNat_inj.1 hn
  exact congrArg Int64.ofUInt64 hu

/-- `u32::to_be_bytes` -/
def uint32Be (n : UInt32) : Bytes := toBe 4 n.toNat

@[simp] theorem length_uint32Be (n : UInt32) : (uint32Be n).length = 4 := length_toBe _ _

theorem uint32Be_inj {m n : UInt32} (h : uint32Be m = uint32Be n) : m = n :=
  UInt32.toNat_inj.1 (toBe_inj m.toNat_lt n.toNat_lt h)

/-! ## Hex text -/

/-- The lower-case hex digit of a number below sixteen. -/
def hexDigit (n : Nat) : Char :=
  if n < 10 then Char.ofNat (48 + n) else Char.ofNat (87 + n)

/-- The value of a hex digit of either case. -/
def hexValue? (c : Char) : Option Nat :=
  let v := c.toNat
  if 48 ≤ v ∧ v ≤ 57 then some (v - 48)
  else if 97 ≤ v ∧ v ≤ 102 then some (v - 87)
  else if 65 ≤ v ∧ v ≤ 70 then some (v - 55)
  else none

/-- The two hex digits of each byte. -/
def hexChars : Bytes → List Char
  | [] => []
  | b :: bs => hexDigit (b.toNat / 16) :: hexDigit (b.toNat % 16) :: hexChars bs

/-- The bytes a list of hex digits denotes, two digits a byte. -/
def ofHexChars? : List Char → Option Bytes
  | [] => some []
  | [_] => none
  | hi :: lo :: cs => do
    let h ← hexValue? hi
    let l ← hexValue? lo
    let rest ← ofHexChars? cs
    pure (UInt8.ofNat (16 * h + l) :: rest)

/-- `hex::encode` -/
def hexEncode (b : Bytes) : String := String.ofList (hexChars b)

/-- `hex::decode`; its error value is dropped. -/
def hexDecode (s : String) : Option Bytes := ofHexChars? s.toList

theorem hexValue?_hexDigit : ∀ n < 16, hexValue? (hexDigit n) = some n := by decide

theorem ofHexChars?_hexChars (b : Bytes) : ofHexChars? (hexChars b) = some b := by
  induction b with
  | nil => rfl
  | cons x b ih =>
    have hx : x.toNat < 256 := x.toNat_lt
    have hjoin : 16 * (x.toNat / 16) + x.toNat % 16 = x.toNat := by omega
    simp only [hexChars, ofHexChars?, hexValue?_hexDigit _ (show x.toNat / 16 < 16 by omega),
      hexValue?_hexDigit _ (show x.toNat % 16 < 16 by omega), ih, Option.bind_eq_bind,
      Option.bind_some, Option.pure_def]
    rw [hjoin, UInt8.ofNat_toNat]

/-- Hex text reads back. -/
@[simp] theorem hexDecode_hexEncode (b : Bytes) : hexDecode (hexEncode b) = some b := by
  rw [hexDecode, hexEncode, String.toList_ofList, ofHexChars?_hexChars]

@[simp] theorem length_hexChars (b : Bytes) : (hexChars b).length = 2 * b.length := by
  induction b with
  | nil => rfl
  | cons x b ih => simp [hexChars, ih]; omega

/-! ## Text as bytes -/

/-- `str::as_bytes` -/
def utf8 (s : String) : Bytes := s.toList.flatMap String.utf8EncodeChar

theorem utf8_inj {s t : String} (h : utf8 s = utf8 t) : s = t := by
  have hbytes : s.toByteArray = t.toByteArray := by
    rw [← String.ofList_toList (s := s), ← String.ofList_toList (s := t),
      String.toByteArray_ofList, String.toByteArray_ofList]
    exact congrArg List.toByteArray h
  exact String.toByteArray_inj.1 hbytes

theorem mem_utf8EncodeChar_iff {a c : Char} (ha : a.toNat < 128) :
    UInt8.ofNat a.toNat ∈ String.utf8EncodeChar c ↔ c = a := by
  have hval : c = a ↔ c.val.toNat = a.toNat := by
    rw [Char.ext_iff, ← UInt32.toNat_inj]
    rfl
  rw [hval, String.utf8EncodeChar]
  generalize c.val.toNat = v
  generalize a.toNat = n at ha
  split_ifs <;> simp [← UInt8.toNat_inj] <;> omega

theorem mem_utf8_iff {a : Char} (ha : a.toNat < 128) {s : String} :
    UInt8.ofNat a.toNat ∈ utf8 s ↔ a ∈ s.toList := by
  simp only [utf8, List.mem_flatMap, mem_utf8EncodeChar_iff ha, exists_eq_right]

/-! ## Saturating 64-bit time -/

/-- `i64::saturating_sub`: the exact difference, clamped to the range of `i64`. -/
def satSub (a b : Int64) : Int64 :=
  Int64.ofInt (max (-(2 ^ 63)) (min (2 ^ 63 - 1) (a.toInt - b.toInt)))

theorem toInt_satSub (a b : Int64) :
    (satSub a b).toInt = max (-(2 ^ 63)) (min (2 ^ 63 - 1) (a.toInt - b.toInt)) := by
  rw [satSub, Int64.toInt_ofInt, Int.bmod_eq_of_le] <;> simp only [Int64.size] <;> omega

/-- A saturating difference has the sign of the exact one. -/
theorem satSub_lt_zero_iff {a b : Int64} : satSub a b < 0 ↔ a.toInt < b.toInt := by
  rw [Int64.lt_iff_toInt_lt, toInt_satSub, show (0 : Int64).toInt = 0 from rfl]
  omega

end QfcServerWallet.Lib
