import Mathlib.Data.List.DropRight
import Mathlib.Data.Nat.Digits.Defs

/-!
# Decimal numbers and segments of text

Text as the character lists that Rust's `str` methods see. `split(c)` is `List.splitOn`.

Results: **`parseUnsigned_eq_some_iff`**, `parseUnsigned_decimal`, `lastSegment_append`,
`splitOn_flatMap` and `eq_of_splitOn`.
-/

namespace QfcServerWallet.Lib

variable {c : Char}

/-! ## Decimal numbers -/

/-- What `Display` writes for a number. -/
def decimal (n : Nat) : List Char := Nat.toDigits 10 n

/-- The value of a decimal digit. -/
def decimalValue? (c : Char) : Option Nat := if c.isDigit then some (c.toNat - 48) else none

/-- The loop of `from_str_radix`. -/
def parseDigits (max : Nat) : Nat → List Char → Option Nat
  | acc, [] => some acc
  | acc, c :: cs =>
    match decimalValue? c with
    | none => none
    | some d => if acc * 10 + d ≤ max then parseDigits max (acc * 10 + d) cs else none

/-- `str::parse` for an unsigned type with largest value `max`: a plus sign is allowed, and every
intermediate value must fit. -/
def parseUnsigned (max : Nat) : List Char → Option Nat
  | [] => none
  | ['+'] => none
  | '+' :: cs => parseDigits max 0 cs
  | cs => parseDigits max 0 cs

/-- The text is one or more digits, of the number. -/
def Numeral (s : List Char) (n : Nat) : Prop :=
  s ≠ [] ∧ (∀ c ∈ s, c.isDigit = true) ∧ Nat.ofDigitChars 10 s 0 = n

theorem parseDigits_eq_some_iff {max acc n : Nat} {l : List Char} (hacc : acc ≤ max) :
    parseDigits max acc l = some n ↔
      (∀ c ∈ l, c.isDigit = true) ∧ Nat.ofDigitChars 10 l acc = n ∧ n ≤ max := by
  induction l generalizing acc with
  | nil =>
    rw [parseDigits, Option.some.injEq, Nat.ofDigitChars_nil]
    constructor
    · rintro rfl
      exact ⟨fun _ h => absurd h List.not_mem_nil, rfl, hacc⟩
    · exact fun h => h.2.1
  | cons c l ih =>
    rw [parseDigits, decimalValue?, List.forall_mem_cons, Nat.ofDigitChars_cons,
      Nat.mul_comm 10 acc, show '0'.toNat = 48 from rfl]
    by_cases hc : c.isDigit = true
    · simp only [hc, if_true, true_and]
      by_cases hfits : acc * 10 + (c.toNat - 48) ≤ max
      · rw [if_pos hfits, ih hfits]
      · rw [if_neg hfits]
        constructor
        · intro h
          cases h
        · rintro ⟨-, hvalue, hmax⟩
          -- the value only grows
          rw [Nat.ofDigitChars_eq_ofDigitChars_zero] at hvalue
          have hgrows := Nat.le_mul_of_pos_left (acc * 10 + (c.toNat - 48))
            (Nat.pow_pos (n := l.length) (show 0 < 10 by decide))
          omega
    · simp [hc]

theorem isDigit_of_mem_decimal {n : Nat} (h : c ∈ decimal n) : c.isDigit = true :=
  Nat.isDigit_of_mem_toDigits (by decide) (by decide) h

theorem not_mem_decimal (hc : c.isDigit = false) (n : Nat) : c ∉ decimal n := by
  intro h
  rw [isDigit_of_mem_decimal h] at hc
  cases hc

theorem numeral_decimal (n : Nat) : Numeral (decimal n) n :=
  ⟨Nat.toDigits_ne_nil, fun _ => isDigit_of_mem_decimal,
    Nat.ofDigitChars_toDigits (by decide) (by decide)⟩

/-- **What `str::parse` accepts: the digits of a number that fits, after a plus sign or not.** -/
theorem parseUnsigned_eq_some_iff {max n : Nat} {s : List Char} :
    parseUnsigned max s = some n ↔
      ∃ digits, (s = digits ∨ s = '+' :: digits) ∧ Numeral digits n ∧ n ≤ max := by
  have hloop (l : List Char) : parseDigits max 0 l = some n ↔ _ :=
    parseDigits_eq_some_iff max.zero_le
  constructor
  · intro h
    unfold parseUnsigned at h
    split at h
    · cases h
    · cases h
    · next cs hne =>
      obtain ⟨hdigits, hvalue, hle⟩ := (hloop cs).1 h
      exact ⟨cs, .inr rfl, ⟨fun hnil => hne hnil, hdigits, hvalue⟩, hle⟩
    · next hne _ _ =>
      obtain ⟨hdigits, hvalue, hle⟩ := (hloop s).1 h
      exact ⟨s, .inl rfl, ⟨fun hnil => hne hnil, hdigits, hvalue⟩, hle⟩
  · rintro ⟨digits, hs, ⟨hne, hdigits, hvalue⟩, hle⟩
    have hparse := (hloop digits).2 ⟨hdigits, hvalue, hle⟩
    obtain ⟨c, cs, rfl⟩ := List.exists_cons_of_ne_nil hne
    rcases hs with rfl | rfl
    · -- a digit is no sign
      have hc : c ≠ '+' := by
        rintro rfl
        cases hdigits _ List.mem_cons_self
      unfold parseUnsigned
      split
      · next hnil => cases hnil
      · next hplus => exact absurd (List.cons.inj hplus).1 hc
      · next hplus => exact absurd (List.cons.inj hplus).1 hc
      · exact hparse
    · exact hparse

/-- A number that fits reads back. -/
theorem parseUnsigned_decimal {max n : Nat} (h : n ≤ max) :
    parseUnsigned max (decimal n) = some n :=
  parseUnsigned_eq_some_iff.2 ⟨decimal n, .inl rfl, numeral_decimal n, h⟩

theorem decimal_inj {m n : Nat} (h : decimal m = decimal n) : m = n := by
  obtain ⟨-, -, hm⟩ := numeral_decimal m
  obtain ⟨-, -, hn⟩ := numeral_decimal n
  rw [← hm, h, hn]

/-! ## Segments -/

/-- `rsplit(c).next()` -/
def lastSegment (c : Char) (s : List Char) : List Char := s.rtakeWhile (· ≠ c)

/-- `trim_end_matches(c)` -/
def trimEnd (c : Char) (s : List Char) : List Char := s.rdropWhile (· = c)

/-- `strip_suffix(c)` -/
def stripSuffix (c : Char) (s : List Char) : Option (List Char) :=
  if s.getLast? = some c then some s.dropLast else none

/-- What follows a separator and has none is the last segment. -/
theorem lastSegment_append {back : List Char} (hback : c ∉ back) (front : List Char) :
    lastSegment c (front ++ c :: back) = back := by
  have hall : ∀ x ∈ back.reverse, decide (x ≠ c) = true := by
    intro x hx
    refine decide_eq_true ?_
    rintro rfl
    exact hback (List.mem_reverse.1 hx)
  rw [lastSegment, List.rtakeWhile, List.reverse_append, List.reverse_cons, List.append_assoc,
    List.takeWhile_append_of_pos hall]
  simp

theorem stripSuffix_eq_some {s rest : List Char} :
    stripSuffix c s = some rest ↔ s = rest ++ [c] := by
  rw [stripSuffix]
  constructor
  · intro h
    split_ifs at h with hlast
    obtain ⟨front, rfl⟩ := List.getLast?_eq_some_iff.1 hlast
    rw [List.dropLast_concat, Option.some.injEq] at h
    rw [h]
  · rintro rfl
    rw [if_pos List.getLast?_concat, List.dropLast_concat]

/-- What was joined is split again. -/
theorem splitOn_flatMap {x : List Char} {l : List (List Char)} (hx : c ∉ x) (hl : ∀ y ∈ l, c ∉ y) :
    (x ++ l.flatMap (c :: ·)).splitOn c = x :: l := by
  induction l generalizing x with
  | nil => rw [List.flatMap_nil, List.append_nil, List.splitOn_eq_singleton hx]
  | cons y l ih =>
    obtain ⟨hy, hl⟩ := List.forall_mem_cons.1 hl
    rw [List.flatMap_cons, List.cons_append, List.splitOn_append_cons_self_of_not_mem hx, ih hy hl]

theorem eq_of_splitOn {s x : List Char} {l : List (List Char)} (h : s.splitOn c = x :: l) :
    s = x ++ l.flatMap (c :: ·) := by
  have hjoin : ∀ x, [c].intercalate (x :: l) = x ++ l.flatMap (c :: ·) := by
    clear h
    induction l with
    | nil => exact fun x => by simp
    | cons y l ih =>
      intro x
      rw [List.intercalate_cons_cons, ih y, List.flatMap_cons, List.append_assoc]
      rfl
  rw [← hjoin, ← h, List.intercalate_splitOn]

end QfcServerWallet.Lib
