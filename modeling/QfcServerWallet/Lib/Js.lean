import QfcServerWallet.Lib.Bytes
import Mathlib.Data.Int.Bitwise

/-!
# Values of a JavaScript program

* A string is a list of UTF-16 code units; its `length` counts them.
* A `Uint8Array` is a list of bytes whose length does not change. An assignment to an index outside
  of it does nothing (`List.set`); `set` of a block that does not fit throws.
* A `bigint` is an integer. `&` and `>>` act on its two's complement without a width: `Int.land`
  and the arithmetic shift.
* `parseIntHex` is `parseInt` with radix 16: it skips blanks, takes a sign and `0x`, and stops at
  the first unit that is no digit.
-/

namespace QfcServerWallet.Lib.Js

/-- What is thrown. -/
inductive Error where
  | error (message : String)
  | rangeError (message : String)
  deriving DecidableEq, Repr

/-! ## Strings -/

/-- The code units of a scalar value. -/
def units (c : Char) : List UInt16 :=
  if c.toNat < 0x10000 then [UInt16.ofNat c.toNat]
  else
    [UInt16.ofNat (0xd800 + (c.toNat - 0x10000) / 0x400),
      UInt16.ofNat (0xdc00 + (c.toNat - 0x10000) % 0x400)]

/-- The string value of a text. -/
def ofString (s : String) : List UInt16 := s.toList.flatMap units

/-- The first unit of a pair. -/
def isHighSurrogate (u : UInt16) : Bool := 0xd800 ≤ u.toNat && u.toNat < 0xdc00

/-- The second one. -/
def isLowSurrogate (u : UInt16) : Bool := 0xdc00 ≤ u.toNat && u.toNat < 0xe000

/-- The scalar value of a code unit alone; a surrogate has none. -/
def single (u : UInt16) : Char :=
  if isHighSurrogate u || isLowSurrogate u then Char.ofNat 0xfffd else Char.ofNat u.toNat

/-- The scalar values of a string, with a replacement character for every lone surrogate. -/
def scalarValues : List UInt16 → List Char
  | [] => []
  | [u] => [single u]
  | hi :: lo :: rest =>
    if isHighSurrogate hi && isLowSurrogate lo then
      Char.ofNat (0x10000 + (hi.toNat - 0xd800) * 0x400 + (lo.toNat - 0xdc00)) :: scalarValues rest
    else single hi :: scalarValues (lo :: rest)

/-- `TextEncoder.prototype.encode` -/
def encode (s : List UInt16) : Bytes := (scalarValues s).flatMap String.utf8EncodeChar

theorem scalarValues_cons {u : UInt16} (hu : isHighSurrogate u = false) (rest : List UInt16) :
    scalarValues (u :: rest) = single u :: scalarValues rest := by
  cases rest with
  | nil => rfl
  | cons lo rest => simp [scalarValues, hu]

theorem scalarValues_units (c : Char) (rest : List UInt16) :
    scalarValues (units c ++ rest) = c :: scalarValues rest := by
  have hvalid : c.toNat < 0xd800 ∨ 0xdfff < c.toNat ∧ c.toNat < 0x110000 := c.valid
  unfold units
  split
  · next hc =>
    have hu : (UInt16.ofNat c.toNat).toNat = c.toNat := by
      rw [UInt16.toNat_ofNat']
      omega
    have hhigh : isHighSurrogate (UInt16.ofNat c.toNat) = false := by
      simp only [isHighSurrogate, hu, Bool.and_eq_false_iff, decide_eq_false_iff_not]
      omega
    have hlow : isLowSurrogate (UInt16.ofNat c.toNat) = false := by
      simp only [isLowSurrogate, hu, Bool.and_eq_false_iff, decide_eq_false_iff_not]
      omega
    rw [List.singleton_append, scalarValues_cons hhigh, single, hhigh, hlow, hu, Char.ofNat_toNat]
    rfl
  · next hc =>
    have hhi : (UInt16.ofNat (0xd800 + (c.toNat - 0x10000) / 0x400)).toNat
        = 0xd800 + (c.toNat - 0x10000) / 0x400 := by
      rw [UInt16.toNat_ofNat']
      omega
    have hlo : (UInt16.ofNat (0xdc00 + (c.toNat - 0x10000) % 0x400)).toNat
        = 0xdc00 + (c.toNat - 0x10000) % 0x400 := by
      rw [UInt16.toNat_ofNat']
      omega
    have hpair : (isHighSurrogate (UInt16.ofNat (0xd800 + (c.toNat - 0x10000) / 0x400))
        && isLowSurrogate (UInt16.ofNat (0xdc00 + (c.toNat - 0x10000) % 0x400))) = true := by
      simp only [isHighSurrogate, isLowSurrogate, hhi, hlo, Bool.and_eq_true, decide_eq_true_eq]
      omega
    have hvalue : 0x10000 + (0xd800 + (c.toNat - 0x10000) / 0x400 - 0xd800) * 0x400
        + (0xdc00 + (c.toNat - 0x10000) % 0x400 - 0xdc00) = c.toNat := by omega
    rw [List.cons_append, List.singleton_append, scalarValues, if_pos hpair, hhi, hlo, hvalue,
      Char.ofNat_toNat]

theorem scalarValues_flatMap (cs : List Char) : scalarValues (cs.flatMap units) = cs := by
  induction cs with
  | nil => rfl
  | cons c cs ih => rw [List.flatMap_cons, scalarValues_units, ih]

/-- `TextEncoder` gives the UTF-8 form of every string of scalar values. -/
@[simp] theorem encode_ofString (s : String) : encode (ofString s) = utf8 s := by
  rw [encode, ofString, scalarValues_flatMap, utf8]

theorem length_ofString {s : String} (h : ∀ c ∈ s.toList, c.toNat < 0x10000) :
    (ofString s).length = s.toList.length := by
  unfold ofString
  generalize s.toList = cs at h
  induction cs with
  | nil => rfl
  | cons c cs ih =>
    obtain ⟨hc, hcs⟩ := List.forall_mem_cons.1 h
    rw [List.flatMap_cons, List.length_append, ih hcs, units, if_pos hc, List.length_singleton,
      List.length_cons, Nat.add_comm]

/-! ## Arrays of bytes -/

/-- `Uint8Array.prototype.set` -/
def setBlock (out src : Bytes) (off : Nat) : Except Error Bytes :=
  if out.length < off + src.length then .error (.rangeError "offset is out of bounds")
  else .ok (out.take off ++ src ++ out.drop (off + src.length))

/-- Filling an array from the left, block by block. -/
theorem setBlock_fill {written src : Bytes} {off n k : Nat} (hoff : written.length = off)
    (hsrc : src.length = n) :
    setBlock (written ++ List.replicate (k + n) 0) src off =
      .ok ((written ++ src) ++ List.replicate k 0) := by
  have hfits : ¬ (written ++ List.replicate (k + n) (0 : UInt8)).length < off + src.length := by
    rw [List.length_append, List.length_replicate]
    omega
  have hdrop : (written ++ List.replicate (k + n) (0 : UInt8)).drop (off + src.length)
      = List.replicate k 0 := by
    rw [← hoff, List.drop_length_add_append, hsrc, List.drop_replicate, Nat.add_sub_cancel]
  rw [setBlock, if_neg hfits, hdrop, List.take_left' hoff]

theorem set_append_cons {written rest : Bytes} {i : Nat} (hi : written.length = i) (a b : UInt8) :
    (written ++ a :: rest).set i b = (written ++ [b]) ++ rest := by
  rw [List.set_append_right _ _ hi.le, hi, Nat.sub_self, List.set_cons_zero, List.append_assoc,
    List.singleton_append]

theorem set_fill {written : Bytes} {off k : Nat} (hoff : written.length = off) (b : UInt8) :
    (written ++ List.replicate (k + 1) 0).set off b = (written ++ [b]) ++ List.replicate k 0 :=
  set_append_cons hoff 0 b

/-! ## Numbers in text -/

/-- `StrWhiteSpaceChar`: white space and line terminators. -/
def isStrWhiteSpace (u : UInt16) : Bool :=
  (9 ≤ u.toNat ∧ u.toNat ≤ 13) ∨ (0x2000 ≤ u.toNat ∧ u.toNat ≤ 0x200a) ∨
    u.toNat ∈ [0x20, 0xa0, 0x1680, 0x2028, 0x2029, 0x202f, 0x205f, 0x3000, 0xfeff]

/-- The value of a hex digit of either case. -/
def hexUnit? (u : UInt16) : Option Nat :=
  if 48 ≤ u.toNat ∧ u.toNat ≤ 57 then some (u.toNat - 48)
  else if 97 ≤ u.toNat ∧ u.toNat ≤ 102 then some (u.toNat - 87)
  else if 65 ≤ u.toNat ∧ u.toNat ≤ 70 then some (u.toNat - 55)
  else none

/-- A hex digit. -/
def isHexUnit (u : UInt16) : Bool := (hexUnit? u).isSome

/-- The digits that a text begins with, after `0x`. -/
def hexDigits (s : List UInt16) : List UInt16 :=
  let s := if s.take 2 = [0x30, 0x78] ∨ s.take 2 = [0x30, 0x58] then s.drop 2 else s
  s.takeWhile isHexUnit

/-- `parseInt(s, 16)`, for as many digits as a number holds exactly; `none` is `NaN`. -/
def parseIntHex (s : List UInt16) : Option Int :=
  let s := s.dropWhile isStrWhiteSpace
  let sign : Int := if s.head? = some 0x2d then -1 else 1
  let s := if s.head? = some 0x2b ∨ s.head? = some 0x2d then s.tail else s
  if hexDigits s = [] then none
  else some (sign * (ofDigits 16 (fun u => (hexUnit? u).getD 0) (hexDigits s) : Nat))

/-- `ToUint8`, what an element of a `Uint8Array` is set to. -/
def toUint8 (n : Int) : UInt8 := UInt8.ofNat (n % 256).toNat

/-- `Number.prototype.toString(16)` of a natural number. -/
def toStringHex (n : Nat) : List UInt16 := (Nat.toDigits 16 n).map fun c => UInt16.ofNat c.toNat

/-- `String.prototype.padStart` with one unit. -/
def padStart (n : Nat) (fill : UInt16) (s : List UInt16) : List UInt16 :=
  List.replicate (n - s.length) fill ++ s

/-- The lower case of ASCII letters. -/
def toLower (u : UInt16) : UInt16 := if 65 ≤ u.toNat ∧ u.toNat ≤ 90 then u + 32 else u

/-- The digit of a number. -/
def hexUnit (n : Nat) : UInt16 := UInt16.ofNat (if n < 10 then 48 + n else 87 + n)

theorem padStart_toStringHex :
    ∀ n < 256, padStart 2 0x30 (toStringHex n) = [hexUnit (n / 16), hexUnit (n % 16)] := by
  decide +kernel

theorem isHexUnit_hexUnit : ∀ n < 16, isHexUnit (hexUnit n) = true := by decide

theorem isHexUnit_iff (u : UInt16) : isHexUnit u = true ↔
    (48 ≤ u.toNat ∧ u.toNat ≤ 57) ∨ (97 ≤ u.toNat ∧ u.toNat ≤ 102) ∨
      (65 ≤ u.toNat ∧ u.toNat ≤ 70) := by
  unfold isHexUnit hexUnit?
  split_ifs <;> simp_all

theorem hexUnit?_eq_some {u : UInt16} {n : Nat} (h : hexUnit? u = some n) :
    n < 16 ∧ toLower u = hexUnit n := by
  simp only [hexUnit?] at h
  rw [toLower, hexUnit, ← UInt16.toNat_inj, UInt16.toNat_ofNat']
  split_ifs at h ⊢ <;> simp only [Option.some.injEq, UInt16.toNat_add, UInt16.reduceToNat] at h ⊢
    <;> omega

theorem isHexUnit_toLower (u : UInt16) : isHexUnit (toLower u) = isHexUnit u := by
  rw [Bool.eq_iff_iff, isHexUnit_iff, isHexUnit_iff, toLower]
  split
  · simp only [UInt16.toNat_add, UInt16.reduceToNat]
    omega
  · rfl

theorem isHexUnit_ne {u : UInt16} (h : isHexUnit u = true) :
    isStrWhiteSpace u = false ∧ u ≠ 0x2b ∧ u ≠ 0x2d ∧ u ≠ 0x78 ∧ u ≠ 0x58 := by
  rw [isHexUnit_iff] at h
  simp only [isStrWhiteSpace, ne_eq, ← UInt16.toNat_inj, UInt16.reduceToNat, List.mem_cons,
    List.not_mem_nil, or_false, decide_eq_false_iff_not]
  omega

/-- A pair that `parseInt` reads a number from: a hex digit first, but for `0x`, or a hex digit
after a blank or a sign. -/
def isNumeric : List UInt16 → Bool
  | [x, y] =>
    (isHexUnit x && !(x == 0x30 && (y == 0x78 || y == 0x58))) ||
      ((isStrWhiteSpace x || x == 0x2b || x == 0x2d) && isHexUnit y)
  | _ => false

/-- Two digits are read as their number. -/
theorem parseIntHex_pair {x y : UInt16} {m n : Nat} (hx : hexUnit? x = some m)
    (hy : hexUnit? y = some n) : parseIntHex [x, y] = some (m * 16 + n : Nat) := by
  have hx' : isHexUnit x = true := by rw [isHexUnit, hx]; rfl
  have hy' : isHexUnit y = true := by rw [isHexUnit, hy]; rfl
  obtain ⟨hblank, hplus, hminus, -⟩ := isHexUnit_ne hx'
  obtain ⟨-, -, -, hlower, hupper⟩ := isHexUnit_ne hy'
  simp [parseIntHex, hexDigits, ofDigits, hx, hy, hx', hy', hblank, hplus, hminus, hlower, hupper]

theorem hexDigits_single (y : UInt16) : hexDigits [y] = [] ↔ isHexUnit y = false := by
  simp [hexDigits, List.takeWhile_cons]

theorem hexDigits_pair (x y : UInt16) :
    hexDigits [x, y] = [] ↔
      isHexUnit x = false ∨ (x = 0x30 ∧ (y = 0x78 ∨ y = 0x58)) := by
  by_cases hzero : x = 0x30 ∧ y = 0x78 ∨ x = 0x30 ∧ y = 0x58
  · simp [hexDigits, hzero, and_or_left]
  · simp [hexDigits, hzero, and_or_left, List.takeWhile_cons]

/-- What two units are not read as a number. -/
theorem parseIntHex_eq_none_iff (x y : UInt16) :
    parseIntHex [x, y] = none ↔ isNumeric [x, y] = false := by
  by_cases hblank : isStrWhiteSpace x = true
  · -- the second unit is read alone
    have hx : isHexUnit x = false := by
      by_contra h
      simp [(isHexUnit_ne (Bool.not_eq_false _ ▸ h)).1] at hblank
    by_cases hy : isHexUnit y = true
    · obtain ⟨hblank', hplus, hminus, -⟩ := isHexUnit_ne hy
      simp [parseIntHex, isNumeric, hx, hblank, hy, hblank', hplus, hminus, hexDigits_single]
    · by_cases hblank' : isStrWhiteSpace y = true
      · simp [parseIntHex, isNumeric, hx, hblank, hy, hblank', hexDigits]
      · by_cases hsign : y = 0x2b ∨ y = 0x2d
        · simp [parseIntHex, isNumeric, hx, hblank, hy, hblank', hsign, hexDigits]
        · simp [parseIntHex, isNumeric, hx, hblank, hy, hblank', hsign, hexDigits_single]
  · by_cases hsign : x = 0x2b ∨ x = 0x2d
    · have hx : isHexUnit x = false := by rcases hsign with rfl | rfl <;> decide
      have hsign' : (x == 0x2b || x == 0x2d) = true := by simpa using hsign
      simp [parseIntHex, isNumeric, hx, hblank, hsign, hsign', hexDigits_single]
    · have hsign' : (x == 0x2b || x == 0x2d) = false := by simpa using hsign
      simp [parseIntHex, isNumeric, hblank, hsign, hsign', hexDigits_pair, or_iff_not_imp_left]

/-! ## Integers of any size -/

theorem land_255 (a : Int) : Int.land a 255 = a % 256 := by
  cases a with
  | ofNat m =>
    have hm : m &&& 255 = m % 256 := Nat.and_two_pow_sub_one_eq_mod m 8
    exact congrArg Int.ofNat hm
  | negSucc m =>
    have hm : Nat.ldiff 255 m = 2 ^ 8 - (m % 256 + 1) := by
      refine Nat.eq_of_testBit_eq fun i => ?_
      rw [Nat.testBit_ldiff, Nat.testBit_two_pow_sub_succ (Nat.mod_lt m (by decide)),
        show 255 = 2 ^ 8 - 1 from rfl, Nat.testBit_two_pow_sub_one, Nat.testBit_mod_two_pow]
      cases decide (i < 8) <;> simp
    have hland : Int.land (Int.negSucc m) 255 = ((Nat.ldiff 255 m : Nat) : Int) := rfl
    rw [hland, hm]
    omega

end QfcServerWallet.Lib.Js
