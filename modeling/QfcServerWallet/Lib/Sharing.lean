import Mathlib.LinearAlgebra.Lagrange

/-!
# Polynomial secret sharing over a field

A secret is the value at zero of a polynomial whose other coefficients are chosen at random; a share
is its value at another point. Adding the coefficients of a `mask` (`reshare`) changes the secret
and keeps the shares at a set of points.

Results: `interpolateAtZero_shares` and `shareAt_reshare`.
-/

namespace QfcServerWallet.Lib

open Polynomial

variable {K : Type} [Field K] {k : Nat}

/-! ## Shares -/

/-- The share at `x`: the secret, plus the chosen coefficients times the powers of `x`. -/
def shareAt (secret : K) (c : Fin k → K) (x : K) : K := secret + ∑ j, c j * x ^ (j.val + 1)

/-- The polynomial of which the shares are values. -/
noncomputable def sharePoly (secret : K) (c : Fin k → K) : K[X] :=
  C secret + ∑ j, C (c j) * X ^ (j.val + 1)

theorem eval_sharePoly (secret : K) (c : Fin k → K) (x : K) :
    (sharePoly secret c).eval x = shareAt secret c x := by
  unfold sharePoly shareAt
  rw [eval_add, eval_C, eval_finsetSum]
  simp only [eval_mul, eval_C, eval_pow, eval_X]

theorem eval_zero_sharePoly (secret : K) (c : Fin k → K) :
    (sharePoly secret c).eval 0 = secret := by
  rw [eval_sharePoly, shareAt, Finset.sum_eq_zero, add_zero]
  intro j _
  rw [zero_pow (Nat.succ_ne_zero _), mul_zero]

theorem degree_sharePoly_lt (secret : K) (c : Fin k → K) :
    (sharePoly secret c).degree < (k + 1 : Nat) := by
  rw [degree_lt_iff_coeff_zero]
  intro m hm
  have hterm (j : Fin k) : (C (c j) * X ^ (j.val + 1)).coeff m = 0 := by
    have hne : m ≠ j.val + 1 := by
      have := j.isLt
      omega
    rw [coeff_C_mul, coeff_X_pow, if_neg hne, mul_zero]
  rw [sharePoly, coeff_add, coeff_C_of_ne_zero (by omega), finsetSum_coeff, zero_add]
  exact Finset.sum_eq_zero fun j _ => hterm j

/-! ## Reconstruction -/

/-- Lagrange interpolation at zero. -/
def interpolateAtZero [DecidableEq K] (points : List (K × K)) : K :=
  (points.map fun p =>
    p.2 * (((points.map Prod.fst).filter fun x => x ≠ p.1).map fun x => x / (x - p.1)).prod).sum

variable [DecidableEq K]

theorem interpolateAtZero_perm {points points' : List (K × K)} (h : points.Perm points') :
    interpolateAtZero points = interpolateAtZero points' := by
  have hbasis (x : K) :
      (((points.map Prod.fst).filter fun y => y ≠ x).map fun y => y / (y - x)).prod =
        (((points'.map Prod.fst).filter fun y => y ≠ x).map fun y => y / (y - x)).prod :=
    (((h.map Prod.fst).filter _).map _).prod_eq
  unfold interpolateAtZero
  simp only [hbasis]
  exact (h.map _).sum_eq

theorem eval_zero_basis {xs : List K} (hxs : xs.Nodup) (x : K) :
    (Lagrange.basis xs.toFinset id x).eval 0
      = ((xs.filter fun y => y ≠ x).map fun y => y / (y - x)).prod := by
  have hset : xs.toFinset.erase x = (xs.filter fun y => y ≠ x).toFinset := by
    ext y
    simp [and_comm]
  rw [Lagrange.basis, eval_prod, hset, List.prod_toFinset _ (hxs.filter _)]
  congr 1
  refine List.map_congr_left fun y _ => ?_
  rw [Lagrange.basisDivisor, eval_mul, eval_C, eval_sub, eval_X, eval_C, zero_sub, id, id,
    ← neg_sub y x, inv_neg, neg_mul_neg, div_eq_inv_mul]

theorem interpolateAtZero_eq {points : List (K × K)} {f : K[X]}
    (hnodup : (points.map Prod.fst).Nodup) (hdegree : f.degree < points.length)
    (hvalues : ∀ p ∈ points, p.2 = f.eval p.1) : interpolateAtZero points = f.eval 0 := by
  have hcard : (points.map Prod.fst).toFinset.card = points.length := by
    rw [List.toFinset_card_of_nodup hnodup, List.length_map]
  have hf := Lagrange.eq_interpolate
    (Function.injective_id.injOn) (by rwa [hcard])
  calc interpolateAtZero points
      = ((points.map Prod.fst).map fun x =>
          f.eval x * (Lagrange.basis (points.map Prod.fst).toFinset id x).eval 0).sum := by
        unfold interpolateAtZero
        rw [List.map_map]
        congr 1
        refine List.map_congr_left fun p hp => ?_
        rw [Function.comp_apply, eval_zero_basis hnodup, hvalues p hp]
    _ = ∑ x ∈ (points.map Prod.fst).toFinset,
          f.eval x * (Lagrange.basis (points.map Prod.fst).toFinset id x).eval 0 :=
        (List.sum_toFinset _ hnodup).symm
    _ = f.eval 0 := by
        conv_rhs => rw [hf, Lagrange.interpolate_apply, eval_finsetSum]
        simp only [eval_mul, eval_C, id]

/-- **More than `k` shares at different points give the secret.** -/
theorem interpolateAtZero_shares {xs : List K} (hnodup : xs.Nodup) (hlength : k < xs.length)
    (secret : K) (c : Fin k → K) :
    interpolateAtZero (xs.map fun x => (x, shareAt secret c x)) = secret := by
  have hpoints : (xs.map fun x => (x, shareAt secret c x)).map Prod.fst = xs := by
    rw [List.map_map]
    exact List.map_id xs
  have hdegree :
      (sharePoly secret c).degree < (xs.map fun x => (x, shareAt secret c x)).length := by
    rw [List.length_map]
    exact (degree_sharePoly_lt secret c).trans_le (by exact_mod_cast hlength)
  rw [interpolateAtZero_eq (hpoints.symm ▸ hnodup) hdegree, eval_zero_sharePoly]
  intro p hp
  obtain ⟨x, -, rfl⟩ := List.mem_map.1 hp
  exact (eval_sharePoly secret c x).symm

/-! ## Secrecy -/

omit [DecidableEq K]

/-- A polynomial with value `δ` at zero that vanishes on the points. -/
noncomputable def mask (xs : Finset K) (δ : K) : K[X] := C δ * ∏ x ∈ xs, (1 - C x⁻¹ * X)

theorem eval_zero_mask (xs : Finset K) (δ : K) : (mask xs δ).eval 0 = δ := by
  simp [mask, eval_prod]

theorem eval_mask {xs : Finset K} (hzero : 0 ∉ xs) (δ : K) {x : K} (hx : x ∈ xs) :
    (mask xs δ).eval x = 0 := by
  have hne : x ≠ 0 := fun h => hzero (h ▸ hx)
  rw [mask, eval_mul, eval_prod, Finset.prod_eq_zero hx, mul_zero]
  rw [eval_sub, eval_one, eval_mul, eval_C, eval_X, inv_mul_cancel₀ hne, sub_self]

theorem natDegree_mask_le (xs : Finset K) (δ : K) : (mask xs δ).natDegree ≤ xs.card := by
  refine (natDegree_C_mul_le _ _).trans ((natDegree_prod_le _ _).trans ?_)
  calc ∑ x ∈ xs, (1 - C x⁻¹ * X).natDegree ≤ ∑ _x ∈ xs, 1 := by
        refine Finset.sum_le_sum fun x _ => ?_
        refine (natDegree_sub_le _ _).trans ?_
        rw [natDegree_one, Nat.zero_max]
        exact (natDegree_C_mul_le _ _).trans natDegree_X_le
    _ = xs.card := by simp

/-- Other coefficients, for a secret that differs by `δ`. -/
noncomputable def reshare (xs : Finset K) (δ : K) : (Fin k → K) ≃ (Fin k → K) :=
  Equiv.addRight fun j => (mask xs δ).coeff (j.val + 1)

/-- **The shares at no more than `k` points fit any other secret as well.** -/
theorem shareAt_reshare {xs : Finset K} (hzero : 0 ∉ xs) (hcard : xs.card ≤ k) (secret δ : K)
    (c : Fin k → K) {x : K} (hx : x ∈ xs) :
    shareAt (secret + δ) (reshare xs δ c) x = shareAt secret c x := by
  -- the mask vanishes at `x`, so its coefficients cancel `δ`
  have hmask : δ + ∑ j : Fin k, (mask xs δ).coeff (j.val + 1) * x ^ (j.val + 1) = 0 := by
    have hdegree : (mask xs δ).natDegree < k + 1 :=
      Nat.lt_succ_of_le ((natDegree_mask_le xs δ).trans hcard)
    have heval := eval_mask hzero δ hx
    rw [eval_eq_sum_range' hdegree, Finset.sum_range_succ', pow_zero, mul_one,
      coeff_zero_eq_eval_zero, eval_zero_mask, add_comm] at heval
    rw [Fin.sum_univ_eq_sum_range fun j => (mask xs δ).coeff (j + 1) * x ^ (j + 1)]
    exact heval
  calc shareAt (secret + δ) (reshare xs δ c) x
      = secret + δ + ∑ j, (c j + (mask xs δ).coeff (j.val + 1)) * x ^ (j.val + 1) := rfl
    _ = shareAt secret c x
          + (δ + ∑ j : Fin k, (mask xs δ).coeff (j.val + 1) * x ^ (j.val + 1)) := by
        simp only [shareAt, add_mul, Finset.sum_add_distrib]
        ring
    _ = shareAt secret c x := by rw [hmask, add_zero]

end QfcServerWallet.Lib
