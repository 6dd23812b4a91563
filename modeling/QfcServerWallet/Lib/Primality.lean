import Mathlib.Algebra.BigOperators.Group.List.Basic
import Mathlib.Data.List.Prime
import Mathlib.NumberTheory.LucasPrimality

/-!
# Primality by Lucas's test

`lucas_primality` proves `p` prime from a witness `a` whose order modulo `p` is `p - 1`. Given the
factorisation of `p - 1` into primes, that is a handful of modular powers, which `powMod` computes
by repeated squaring, so that the kernel can check it for primes of some hundred bits.

Results: `powMod_eq` (repeated squaring computes the power) and `prime_of_lucas`.
-/

namespace QfcServerWallet.Lib

/-- `a ^ n % m`, for an exponent of at most `bits` bits. -/
def powMod (m : Nat) : Nat → Nat → Nat → Nat
  | 0, _, _ => 1 % m
  | bits + 1, a, n =>
    let r := powMod m bits (a * a % m) (n / 2)
    if n % 2 = 1 then r * a % m else r

/-- Repeated squaring computes the power. -/
theorem powMod_eq (m : Nat) {bits a n : Nat} (h : n < 2 ^ bits) :
    powMod m bits a n = a ^ n % m := by
  induction bits generalizing a n with
  | zero =>
    obtain rfl : n = 0 := by simpa using h
    rw [powMod, pow_zero]
  | succ bits ih =>
    have hhalf : n / 2 < 2 ^ bits := by
      rw [pow_succ] at h
      omega
    have hsquare : (a * a % m) ^ (n / 2) % m = a ^ (2 * (n / 2)) % m := by
      rw [← Nat.pow_mod, pow_mul, sq]
    rw [powMod, ih hhalf, hsquare]
    by_cases hodd : n % 2 = 1
    · rw [if_pos hodd, Nat.mod_mul_mod, ← pow_succ]
      congr 2
      omega
    · rw [if_neg hodd]
      congr 2
      omega

/-- The factors, each a prime with its exponent, multiply to `p - 1`, and the order of `a` modulo
`p` divides `p - 1` but none of its quotients by one of the primes. -/
def lucasCheck (bits p a : Nat) (factors : List (Nat × Nat)) : Bool :=
  2 ≤ p && p ≤ 2 ^ bits && (factors.map fun f => f.1 ^ f.2).prod == p - 1 &&
    powMod p bits a (p - 1) == 1 && factors.all fun f => powMod p bits a ((p - 1) / f.1) != 1

theorem natCast_pow_eq_one_iff {p : Nat} (hp : 2 ≤ p) (a n : Nat) :
    (a : ZMod p) ^ n = 1 ↔ a ^ n % p = 1 := by
  rw [← Nat.cast_pow, ← Nat.cast_one, ZMod.natCast_eq_natCast_iff', Nat.one_mod_eq_one.2 (by omega)]

/-- **A number that passes Lucas's test is prime.** -/
theorem prime_of_lucas (bits a : Nat) {p : Nat} (factors : List (Nat × Nat))
    (hprimes : factors.Forall fun f => f.1.Prime) (hcheck : lucasCheck bits p a factors = true) :
    p.Prime := by
  simp only [lucasCheck, Bool.and_eq_true, decide_eq_true_eq, beq_iff_eq, List.all_eq_true,
    bne_iff_ne] at hcheck
  obtain ⟨⟨⟨⟨htwo, hbits⟩, hprod⟩, hone⟩, hquotients⟩ := hcheck
  have hlt (n : Nat) (hn : n ≤ p - 1) : n < 2 ^ bits := by omega
  refine lucas_primality p (a : ZMod p) ?_ fun q hq hdvd => ?_
  · rw [natCast_pow_eq_one_iff htwo, ← powMod_eq p (hlt _ le_rfl)]
    exact hone
  · -- a prime that divides the product is one of the factors
    rw [← hprod, Prime.dvd_prod_iff hq.prime] at hdvd
    obtain ⟨x, hx, hqx⟩ := hdvd
    obtain ⟨f, hf, rfl⟩ := List.mem_map.1 hx
    obtain rfl : q = f.1 :=
      (Nat.prime_dvd_prime_iff_eq hq (List.forall_iff_forall_mem.1 hprimes f hf)).1
        (hq.dvd_of_dvd_pow hqx)
    rw [ne_eq, natCast_pow_eq_one_iff htwo, ← powMod_eq p (hlt _ (Nat.div_le_self _ _))]
    exact hquotients f hf

end QfcServerWallet.Lib
