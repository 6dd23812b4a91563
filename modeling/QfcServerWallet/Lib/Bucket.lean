import Mathlib.Algebra.Order.Ring.Cast
import Mathlib.Tactic.Linarith
import Mathlib.Tactic.Ring

/-!
# Token buckets

A bucket holds at most `cap` tokens and gains `rate` of them per unit of time. `Drains cap rate log
last tokens` says that a bucket with `tokens` left, last touched at `last`, answered the requests
for a token in `log`: for each one when it came, and whether it got its token. Only upper bounds are
asked of a refill, so a bucket that gains less than it may is one too.

Result: **`Drains.taken_le`**. In any interval a bucket gives out at most its capacity and what it
gained in that time.
-/

namespace QfcServerWallet.Lib

variable {K : Type*} [CommRing K] [LinearOrder K] {cap rate : K}

/-- The bucket answered the requests of the log, and was left like this. -/
inductive Drains (cap rate : K) : List (Int × Bool) → Int → K → Prop
  | fresh (now : Int) : Drains cap rate [] now cap
  | miss {log : List (Int × Bool)} {last now : Int} {tokens refilled : K}
      (h : Drains cap rate log last tokens) (hnow : last ≤ now) (hcap : refilled ≤ cap)
      (hrefill : refilled ≤ tokens + rate * ((now : K) - last)) :
      Drains cap rate (log ++ [(now, false)]) now refilled
  | take {log : List (Int × Bool)} {last now : Int} {tokens refilled : K}
      (h : Drains cap rate log last tokens) (hnow : last ≤ now) (hcap : refilled ≤ cap)
      (hrefill : refilled ≤ tokens + rate * ((now : K) - last)) (hone : 1 ≤ refilled) :
      Drains cap rate (log ++ [(now, true)]) now (refilled - 1)

/-- How many requests got a token from `t0` to `t1`. -/
def taken (t0 t1 : K) (log : List (Int × Bool)) : Nat :=
  log.countP fun x => x.2 && decide (t0 ≤ (x.1 : K)) && decide ((x.1 : K) ≤ t1)

variable {t0 t1 : K} {log : List (Int × Bool)}

@[simp] theorem taken_nil : taken t0 t1 [] = 0 := rfl

theorem taken_append (log' : List (Int × Bool)) :
    taken t0 t1 (log ++ log') = taken t0 t1 log + taken t0 t1 log' := List.countP_append

theorem taken_miss (now : Int) : taken t0 t1 [(now, false)] = 0 := by
  simp [taken]

theorem taken_take (now : Int) :
    taken t0 t1 [(now, true)] = if t0 ≤ (now : K) ∧ (now : K) ≤ t1 then 1 else 0 := by
  simp [taken, List.countP_cons]

theorem taken_pos {now : Int} (h : (now, true) ∈ log) (h0 : t0 ≤ (now : K)) (h1 : (now : K) ≤ t1) :
    0 < taken t0 t1 log :=
  List.countP_pos_iff.2 ⟨_, h, by simp [h0, h1]⟩

variable [IsStrictOrderedRing K]

theorem Drains.tokens_le {last : Int} {tokens : K} (h : Drains cap rate log last tokens) :
    tokens ≤ cap := by
  cases h with
  | fresh => exact le_refl cap
  | miss _ _ hcap _ => exact hcap
  | take _ _ hcap _ _ => linarith

/-- What holds of the tokens given out from `t0` to `t1`, when the bucket was last touched at `last`
and has `tokens` left. -/
structure WithinBudget (cap rate t0 t1 : K) (given : Nat) (last : Int) (tokens : K) : Prop where
  /-- Nothing is given out before the interval. -/
  early : (last : K) < t0 → given = 0
  /-- Within it, what was given out and what is left is no more than what there was. -/
  during : t0 ≤ (last : K) → (last : K) ≤ t1 → tokens + given ≤ cap + rate * (last - t0)
  overall : (given : K) ≤ cap + rate * (t1 - t0)

namespace WithinBudget

variable {given : Nat} {last now : Int} {tokens refilled : K}

theorem refill (h : WithinBudget cap rate t0 t1 given last tokens) (hrate : 0 ≤ rate)
    (hnow : last ≤ now) (hcap : refilled ≤ cap)
    (hrefill : refilled ≤ tokens + rate * ((now : K) - last))
    (h0 : t0 ≤ (now : K)) (h1 : (now : K) ≤ t1) : refilled + given ≤ cap + rate * (now - t0) := by
  have hlast : (last : K) ≤ now := Int.cast_le.2 hnow
  rcases lt_or_ge (last : K) t0 with hearly | hlate
  · have hgain : 0 ≤ rate * ((now : K) - t0) := mul_nonneg hrate (sub_nonneg.2 h0)
    rw [h.early hearly, Nat.cast_zero]
    linarith
  · have hbefore := h.during hlate (hlast.trans h1)
    have hsplit : rate * ((now : K) - t0) = rate * (now - last) + rate * (last - t0) := by ring
    linarith

theorem miss (h : WithinBudget cap rate t0 t1 given last tokens) (hrate : 0 ≤ rate)
    (hnow : last ≤ now) (hcap : refilled ≤ cap)
    (hrefill : refilled ≤ tokens + rate * ((now : K) - last)) :
    WithinBudget cap rate t0 t1 given now refilled where
  early hearly := h.early (lt_of_le_of_lt (Int.cast_le.2 hnow) hearly)
  during h0 h1 := h.refill hrate hnow hcap hrefill h0 h1
  overall := h.overall

theorem take (h : WithinBudget cap rate t0 t1 given last tokens) (hrate : 0 ≤ rate)
    (hnow : last ≤ now) (hcap : refilled ≤ cap)
    (hrefill : refilled ≤ tokens + rate * ((now : K) - last)) (hone : 1 ≤ refilled) :
    WithinBudget cap rate t0 t1
      (given + if t0 ≤ (now : K) ∧ (now : K) ≤ t1 then 1 else 0) now (refilled - 1) := by
  split
  · next hin =>
    have hsum := h.refill hrate hnow hcap hrefill hin.1 hin.2
    have hgain : rate * ((now : K) - t0) ≤ rate * (t1 - t0) :=
      mul_le_mul_of_nonneg_left (sub_le_sub_right hin.2 t0) hrate
    refine ⟨fun hearly => absurd hin.1 (not_le.2 hearly), fun _ _ => ?_, ?_⟩
    · push_cast
      linarith
    · push_cast
      linarith
  · next hout =>
    rw [Nat.add_zero]
    exact ⟨fun hearly => h.early (lt_of_le_of_lt (Int.cast_le.2 hnow) hearly),
      fun h0 h1 => absurd ⟨h0, h1⟩ hout, h.overall⟩

end WithinBudget

theorem Drains.withinBudget {last : Int} {tokens : K} (h : Drains cap rate log last tokens)
    (hcap : 0 ≤ cap) (hrate : 0 ≤ rate) (ht : t0 ≤ t1) :
    WithinBudget cap rate t0 t1 (taken t0 t1 log) last tokens := by
  induction h with
  | fresh now =>
    refine ⟨fun _ => rfl, fun h0 _ => ?_, ?_⟩
    · have hgain : 0 ≤ rate * ((now : K) - t0) := mul_nonneg hrate (sub_nonneg.2 h0)
      simpa using hgain
    · have hgain : 0 ≤ rate * (t1 - t0) := mul_nonneg hrate (sub_nonneg.2 ht)
      simpa using add_nonneg hcap hgain
  | miss _ hnow hcap hrefill ih =>
    rw [taken_append, taken_miss]
    exact ih.miss hrate hnow hcap hrefill
  | take _ hnow hcap hrefill hone ih =>
    rw [taken_append, taken_take]
    exact ih.take hrate hnow hcap hrefill hone

/-- **In any interval a bucket gives out at most its capacity and what it gained in that time.** -/
theorem Drains.taken_le {last : Int} {tokens : K} (h : Drains cap rate log last tokens)
    (hcap : 0 ≤ cap) (hrate : 0 ≤ rate) (ht : t0 ≤ t1) :
    (taken t0 t1 log : K) ≤ cap + rate * (t1 - t0) :=
  (h.withinBudget hcap hrate ht).overall

end QfcServerWallet.Lib
