import QfcServerWallet.Lib.Bucket
import QfcServerWallet.Lib.Prog
import QfcServerWallet.Policy.Precedence
import Mathlib.Algebra.Order.Field.Basic
import Mathlib.Tactic.Positivity

/-!
# What the rate limits bound

`RateLimit` of `rule_set_policy.rs` over `try_acquire` of `rate_limit.rs`: how many requests get
through in an interval of time, in a sequence of evaluations and among concurrent calls.

* Time is the reading of the clock a rule's own check made; an evaluation makes one reading for each
  rate limit. In a concurrent run it is the clock at the step that holds the lock.
* A rule's bucket belongs to its scope and to what the scope is about: a wallet, a requester or the
  two. The capacity and the refill are not part of the key.

Results: `Drained.locked`, **`everyLimitEnforced_of_agree`** and **`grants_le_of_fresh`**.
-/

namespace QfcServerWallet.Policy

open Lib

/-! ## The locked section is a step of a token bucket -/

/-- Tokens per millisecond. -/
def refillRate (refillPerSecs : UInt32) : Rat :=
  if refillPerSecs = 0 then 0 else 1 / (1000 * refillPerSecs.toNat)

theorem refillRate_nonneg (refillPerSecs : UInt32) : 0 ≤ refillRate refillPerSecs := by
  unfold refillRate
  split
  · exact le_refl 0
  · positivity

/-- What a rate limit lets through in `d` milliseconds. -/
def allowance (tokens refillPerSecs : UInt32) (d : Rat) : Rat :=
  tokens.toNat + if refillPerSecs = 0 then 0 else d / (1000 * refillPerSecs.toNat)

theorem allowance_eq (tokens refillPerSecs : UInt32) (d : Rat) :
    allowance tokens refillPerSecs d = tokens.toNat + refillRate refillPerSecs * d := by
  unfold allowance refillRate
  split
  · rw [zero_mul]
  · rw [one_div, inv_mul_eq_div]

/-- The bucket, if there is one, answered the requests of the log, the last of them at `last`. -/
def Drained (capacity refillPerSecs : UInt32) (log : List (Int × Bool)) (last : Int) :
    Option BucketState → Prop
  | none => log = []
  | some entry =>
    Drains (capacity.toNat : Rat) (refillRate refillPerSecs) log last entry.tokens ∧
      (refillPerSecs ≠ 0 → entry.lastRefillUnixMs.toInt = last)

variable {capacity refillPerSecs : UInt32} {log : List (Int × Bool)} {last : Int}

theorem Drained.taken_le {entry : Option BucketState}
    (h : Drained capacity refillPerSecs log last entry) {t0 t1 : Rat} (ht : t0 ≤ t1) :
    (taken t0 t1 log : Rat) ≤ allowance capacity refillPerSecs (t1 - t0) := by
  rw [allowance_eq]
  cases entry with
  | none =>
    obtain rfl : log = [] := h
    have hgain := mul_nonneg (refillRate_nonneg refillPerSecs) (sub_nonneg.2 ht)
    simp only [taken_nil, Nat.cast_zero]
    positivity
  | some entry => exact h.1.taken_le (by positivity) (refillRate_nonneg refillPerSecs) ht

theorem elapsed_le {now last : Int64} (h : last.toInt ≤ now.toInt) :
    max (now - last).toInt 0 ≤ now.toInt - last.toInt := by
  rw [Int64.toInt_sub, Int.bmod_def]
  have hnow := now.toInt_lt
  have hlast := last.le_toInt
  split <;> omega

theorem refilled_le {entry : BucketState} {now : Int64}
    (hentry : Drains (capacity.toNat : Rat) (refillRate refillPerSecs) log last entry.tokens)
    (hlast : refillPerSecs ≠ 0 → entry.lastRefillUnixMs.toInt = last) (hnow : last ≤ now.toInt) :
    (entry.refilled capacity refillPerSecs now).tokens ≤ capacity.toNat ∧
      (entry.refilled capacity refillPerSecs now).tokens
        ≤ entry.tokens + refillRate refillPerSecs * ((now.toInt : Rat) - last) := by
  unfold BucketState.refilled refillRate
  by_cases hzero : refillPerSecs = 0
  · subst hzero
    simpa using hentry.tokens_le
  · have hpos : refillPerSecs > 0 := UInt32.pos_iff_ne_zero.2 hzero
    have hsecs : (0 : Rat) < refillPerSecs.toNat := by exact_mod_cast UInt32.lt_iff_toNat_lt.1 hpos
    rw [if_pos hpos, if_neg hzero]
    refine ⟨min_le_right _ _, (min_le_left _ _).trans ?_⟩
    have hdt : ((max (now - entry.lastRefillUnixMs).toInt 0 : Int) : Rat) ≤ now.toInt - last := by
      rw [← hlast hzero] at hnow ⊢
      exact_mod_cast elapsed_le hnow
    rw [div_div, add_le_add_iff_left, one_div, inv_mul_eq_div]
    gcongr

/-- The locked section is a step of a token bucket, when its reading is not older than the one
before. -/
theorem Drained.locked {entry : Option BucketState} {now : Int64}
    (h : Drained capacity refillPerSecs log last entry) (hnow : last ≤ now.toInt) :
    Drained capacity refillPerSecs
      (log ++ [(now.toInt, (Policy.locked entry capacity refillPerSecs now).1)]) now.toInt
      (some (Policy.locked entry capacity refillPerSecs now).2) := by
  -- a new bucket is full
  obtain ⟨last', hentry, hlast, hnow⟩ : ∃ last',
      Drains (capacity.toNat : Rat) (refillRate refillPerSecs) log last'
        (entry.getD ⟨capacity.toNat, now⟩).tokens ∧
      (refillPerSecs ≠ 0 →
        (entry.getD ⟨capacity.toNat, now⟩).lastRefillUnixMs.toInt = last') ∧
      last' ≤ now.toInt := by
    cases entry with
    | none =>
      obtain rfl : log = [] := h
      exact ⟨now.toInt, .fresh _, fun _ => rfl, le_refl _⟩
    | some entry => exact ⟨last, h.1, h.2, hnow⟩
  obtain ⟨hcap, hrefill⟩ := refilled_le hentry hlast hnow
  have hstamp (hzero : refillPerSecs ≠ 0) (entry : BucketState) :
      (entry.refilled capacity refillPerSecs now).lastRefillUnixMs = now := by
    rw [BucketState.refilled, if_pos (UInt32.pos_iff_ne_zero.2 hzero)]
  simp only [Policy.locked]
  generalize entry.getD ⟨capacity.toNat, now⟩ = entry at hentry hlast hcap hrefill ⊢
  by_cases hone : 1 ≤ (entry.refilled capacity refillPerSecs now).tokens
  · simp only [hone, decide_true, if_true]
    exact ⟨.take hentry hnow hcap hrefill hone, fun hzero => by rw [hstamp hzero]⟩
  · simp only [hone, decide_false, Bool.false_eq_true, if_false]
    exact ⟨.miss hentry hnow hcap hrefill, fun hzero => by rw [hstamp hzero]⟩

/-! ## A sequence of evaluations -/

/-- The request gets to the rate limits and past them. -/
def RuleSetPolicy.passesLimits (p : RuleSetPolicy) (limiter : TokenBucketLimiter)
    (request : SigningRequest) : Bool :=
  match (p.start request).beforeLimit with
  | .error _ => false
  | .ok rationale => ((p.start request).rateLimit rationale p.rules.rules limiter).1.isOk

/-- The limiter that each evaluation of a sequence finds, with its request. -/
def RuleSetPolicy.found (p : RuleSetPolicy) :
    TokenBucketLimiter → List (DecisionId × SigningRequest) →
      List (TokenBucketLimiter × SigningRequest)
  | _, [] => []
  | limiter, (decisionId, request) :: calls =>
    (limiter, request) :: p.found (p.evaluate decisionId limiter request).2 calls

/-- What the clock says when a request that passes comes to the rate limit after the rules
`before`. -/
def reading (before : List Rule) (limiter : TokenBucketLimiter) : Int :=
  (limiter.clock.get (limits before).length).toInt

/-- The request is about `identity`, and passes the rate limits from `t0` to `t1`. -/
def RuleSetPolicy.counts (p : RuleSetPolicy) (before : List Rule) (scope : RateLimitScope)
    (identity : Option WalletId × Option Requester) (t0 t1 : Rat)
    (x : TokenBucketLimiter × SigningRequest) : Bool :=
  p.passesLimits x.1 x.2 && decide (scope.identity x.2 = identity) &&
    decide (t0 ≤ (reading before x.1 : Rat)) && decide ((reading before x.1 : Rat) ≤ t1)

/-- Each rate limit bounds the requests that pass in any interval of time, over every sequence of
evaluations that starts without buckets. -/
def EveryLimitEnforced (p : RuleSetPolicy) : Prop :=
  ∀ clock : Stream' Int64, (∀ n, clock.get n ≤ clock.get (n + 1)) →
    ∀ calls before tokens refillPerSecs scope after,
      p.rules.rules = before ++ .rateLimit tokens refillPerSecs scope :: after →
      ∀ identity t0 d, 0 ≤ d →
        ((p.found ⟨fun _ => none, clock⟩ calls).countP
          (p.counts before scope identity t0 (t0 + d)) : Rat) ≤ allowance tokens refillPerSecs d

/-- Rate limits of one scope are the same. -/
def LimitsAgree (rules : List Rule) : Prop :=
  ∀ tokens refillPerSecs tokens' refillPerSecs' scope,
    .rateLimit tokens refillPerSecs scope ∈ rules →
    .rateLimit tokens' refillPerSecs' scope ∈ rules →
      tokens = tokens' ∧ refillPerSecs = refillPerSecs'

/-- The bucket `key` of the limiter answered the requests of the log, and the clock goes on from
there. -/
structure Tracks (key : String) (capacity refillPerSecs : UInt32) (log : List (Int × Bool))
    (limiter : TokenBucketLimiter) : Prop where
  drained : ∃ last ≤ limiter.clock.head.toInt,
    Drained capacity refillPerSecs log last (limiter.inner key)
  forward : ∀ n, limiter.clock.get n ≤ limiter.clock.get (n + 1)

namespace Tracks

variable {key : String} {limiter : TokenBucketLimiter}

theorem tryAcquire (h : Tracks key capacity refillPerSecs log limiter) {key' : String}
    {capacity' refillPerSecs' : UInt32} (hcap : capacity' ≠ 0)
    (hown : key' = key → capacity' = capacity ∧ refillPerSecs' = refillPerSecs) :
    ∃ log', Tracks key capacity refillPerSecs (log ++ log')
        (limiter.tryAcquire key' capacity' refillPerSecs').2 ∧
      (key' = key → (limiter.tryAcquire key' capacity' refillPerSecs').1 = true →
        (limiter.clock.head.toInt, true) ∈ log') := by
  obtain ⟨last, hlast, hdrained⟩ := h.drained
  have hnext := Int64.le_iff_toInt_le.1 (h.forward 0)
  have hforward (n : Nat) := h.forward (n + 1)
  by_cases hkey : key' = key
  · obtain ⟨rfl, rfl⟩ := hown hkey
    subst hkey
    rw [tryAcquire_eq hcap]
    let ok := (locked (limiter.inner key') capacity' refillPerSecs' limiter.clock.head).1
    refine ⟨[(limiter.clock.head.toInt, ok)], ⟨⟨limiter.clock.head.toInt, hnext, ?_⟩, hforward⟩, ?_⟩
    · dsimp only
      rw [if_pos rfl]
      exact hdrained.locked hlast
    · exact fun _ htoken => List.mem_singleton.2 (Prod.ext rfl htoken.symm)
  · refine ⟨[], ⟨⟨last, ?_, ?_⟩, ?_⟩, fun h => absurd h hkey⟩
    · rw [clock_tryAcquire hcap]
      exact hlast.trans hnext
    · rw [tryAcquire_other (Ne.symm hkey), List.append_nil]
      exact hdrained
    · rw [clock_tryAcquire hcap]
      exact hforward

theorem rateLimit (ev : Evaluation) (rationale : List RuleHit) {rules : List Rule}
    (hvalid : ∀ r ∈ rules, validateRule r = .ok ())
    (hown : ∀ tokens refillPerSecs' scope, .rateLimit tokens refillPerSecs' scope ∈ rules →
      rateLimitKey scope ev.request = key → tokens = capacity ∧ refillPerSecs' = refillPerSecs)
    (h : Tracks key capacity refillPerSecs log limiter) :
    ∃ log', Tracks key capacity refillPerSecs (log ++ log')
        (ev.rateLimit rationale rules limiter).2 ∧
      ((ev.rateLimit rationale rules limiter).1 = .ok () →
        ∀ before scope after, rules = before ++ .rateLimit capacity refillPerSecs scope :: after →
          rateLimitKey scope ev.request = key → (reading before limiter, true) ∈ log') := by
  induction rules generalizing limiter log with
  | nil => exact ⟨[], by simpa [Evaluation.rateLimit] using h, by simp⟩
  | cons r rules ih =>
    obtain ⟨hr, hrules⟩ := List.forall_mem_cons.1 hvalid
    have hown' : ∀ tokens refillPerSecs' scope, .rateLimit tokens refillPerSecs' scope ∈ rules →
        rateLimitKey scope ev.request = key →
          tokens = capacity ∧ refillPerSecs' = refillPerSecs :=
      fun tokens refillPerSecs' scope hmem => hown _ _ _ (List.mem_cons_of_mem _ hmem)
    cases r with
    | rateLimit tokens refillPerSecs' scope =>
      have hcap : tokens ≠ 0 := requireConfig_eq_ok.1 hr
      obtain ⟨log₁, htracks₁, htook₁⟩ := h.tryAcquire hcap (hown _ _ scope List.mem_cons_self)
      simp only [Evaluation.rateLimit]
      split
      · next limiter' hacquire =>
        rw [hacquire] at htracks₁ htook₁
        obtain ⟨log₂, htracks₂, htook₂⟩ := ih hrules hown' htracks₁
        refine ⟨log₁ ++ log₂, by rwa [← List.append_assoc], ?_⟩
        intro hok before scope' after hsplit hkey
        cases before with
        | nil =>
          cases hsplit
          exact List.mem_append_left _ (htook₁ hkey rfl)
        | cons r' before =>
          obtain ⟨rfl, hrest⟩ := List.cons.inj hsplit
          -- the clock of the limiter that the later rules find is one reading further on
          have hclock : limiter'.clock = limiter.clock.tail := by
            rw [← clock_tryAcquire hcap, hacquire]
          have hreading : reading (.rateLimit tokens refillPerSecs' scope :: before) limiter
              = reading before limiter' := by
            simp only [reading, hclock]
            rfl
          rw [hreading]
          exact List.mem_append_right _ (htook₂ hok before scope' after hrest hkey)
      · next limiter' hacquire =>
        rw [hacquire] at htracks₁
        exact ⟨log₁, htracks₁, fun hok => by simp [stop] at hok⟩
    | _ =>
      obtain ⟨log', htracks, htook⟩ := ih hrules hown' h
      refine ⟨log', htracks, fun hok before scope after hsplit hkey => ?_⟩
      cases before with
      | nil => cases hsplit
      | cons r' before =>
        obtain ⟨rfl, hrest⟩ := List.cons.inj hsplit
        exact htook hok before scope after hrest hkey

end Tracks

theorem limiter_evaluate (p : RuleSetPolicy) (decisionId : DecisionId)
    (limiter : TokenBucketLimiter) (request : SigningRequest) :
    (p.evaluate decisionId limiter request).2 = match (p.start request).beforeLimit with
      | .error _ => limiter
      | .ok rationale => ((p.start request).rateLimit rationale p.rules.rules limiter).2 := by
  have hrules : (p.start request).rules = p.rules.rules := rfl
  simp only [RuleSetPolicy.evaluate, hrules]
  cases (p.start request).beforeLimit with
  | error _ => rfl
  | ok rationale =>
    dsimp only
    split
    · next hlimit => rw [hlimit]
    · next hlimit =>
      rw [hlimit]
      cases (p.start request).afterLimit rationale with
      | error _ => rfl
      | ok _ => rfl

section Sequence

variable {p : RuleSetPolicy} {before after : List Rule} {scope : RateLimitScope}
  {request₀ : SigningRequest}

theorem Tracks.evaluate (hvalid : validate p.rules = .ok ()) (hagree : LimitsAgree p.rules.rules)
    (hsplit : p.rules.rules = before ++ .rateLimit capacity refillPerSecs scope :: after)
    {limiter : TokenBucketLimiter}
    (h : Tracks (rateLimitKey scope request₀) capacity refillPerSecs log limiter)
    (decisionId : DecisionId) (request : SigningRequest) (t0 t1 : Rat) :
    ∃ log', Tracks (rateLimitKey scope request₀) capacity refillPerSecs (log ++ log')
        (p.evaluate decisionId limiter request).2 ∧
      (p.counts before scope (scope.identity request₀) t0 t1 (limiter, request) = true →
        0 < taken t0 t1 log') := by
  have hmem : .rateLimit capacity refillPerSecs scope ∈ p.rules.rules := by simp [hsplit]
  rw [limiter_evaluate]
  unfold RuleSetPolicy.counts RuleSetPolicy.passesLimits
  cases (p.start request).beforeLimit with
  | error _ => exact ⟨[], by simpa using h, by simp⟩
  | ok rationale =>
    have hown (tokens refillPerSecs' : UInt32) (scope' : RateLimitScope)
        (hmem' : .rateLimit tokens refillPerSecs' scope' ∈ p.rules.rules)
        (hkey : rateLimitKey scope' request = rateLimitKey scope request₀) :
        tokens = capacity ∧ refillPerSecs' = refillPerSecs := by
      obtain rfl : scope' = scope := scope_of_rateLimitKey hkey
      exact hagree _ _ _ _ _ hmem' hmem
    obtain ⟨log', htracks, htook⟩ :=
      h.rateLimit (p.start request) rationale (validate_ok_iff.1 hvalid).2 hown
    refine ⟨log', htracks, fun hcounts => ?_⟩
    simp only [Bool.and_eq_true, decide_eq_true_eq] at hcounts
    obtain ⟨⟨⟨hok, hidentity⟩, h0⟩, h1⟩ := hcounts
    refine taken_pos (htook ?_ before scope after hsplit (rateLimitKey_congr hidentity)) h0 h1
    generalize ((p.start request).rateLimit rationale p.rules.rules limiter).1 = result at hok ⊢
    cases result with
    | error _ => cases hok
    | ok _ => rfl

theorem countP_found_le (hvalid : validate p.rules = .ok ()) (hagree : LimitsAgree p.rules.rules)
    (hsplit : p.rules.rules = before ++ .rateLimit capacity refillPerSecs scope :: after)
    (t0 t1 : Rat) (calls : List (DecisionId × SigningRequest)) {limiter : TokenBucketLimiter}
    (h : Tracks (rateLimitKey scope request₀) capacity refillPerSecs log limiter) :
    ∃ log' limiter',
      Tracks (rateLimitKey scope request₀) capacity refillPerSecs (log ++ log') limiter' ∧
      (p.found limiter calls).countP (p.counts before scope (scope.identity request₀) t0 t1)
        ≤ taken t0 t1 log' := by
  induction calls generalizing limiter log with
  | nil => exact ⟨[], limiter, by simpa using h, Nat.le_refl 0⟩
  | cons call calls ih =>
    obtain ⟨decisionId, request⟩ := call
    obtain ⟨log₁, htracks₁, hcount₁⟩ :=
      h.evaluate hvalid hagree hsplit decisionId request t0 t1
    obtain ⟨log₂, limiter₂, htracks₂, hcount₂⟩ := ih htracks₁
    refine ⟨log₁ ++ log₂, limiter₂, by rwa [← List.append_assoc], ?_⟩
    rw [RuleSetPolicy.found, List.countP_cons, taken_append]
    split
    · next hcounts =>
      have := hcount₁ hcounts
      omega
    · omega

end Sequence

/-- **Rate limits that agree where they share a bucket are each enforced.** -/
theorem everyLimitEnforced_of_agree (p : RuleSetPolicy) (hvalid : validate p.rules = .ok ())
    (hagree : LimitsAgree p.rules.rules) : EveryLimitEnforced p := by
  intro clock hclock calls before tokens refillPerSecs scope after hsplit identity t0 d hd
  have hwindow : t0 ≤ t0 + d := le_add_of_nonneg_right hd
  by_cases hsome : ∃ request₀, scope.identity request₀ = identity
  · obtain ⟨request₀, rfl⟩ := hsome
    have hstart : Tracks (rateLimitKey scope request₀) tokens refillPerSecs []
        ⟨fun _ => none, clock⟩ := ⟨⟨_, le_refl _, rfl⟩, hclock⟩
    obtain ⟨log, limiter, htracks, hcount⟩ :=
      countP_found_le hvalid hagree hsplit t0 (t0 + d) calls hstart
    obtain ⟨last, -, hdrained⟩ := htracks.drained
    have hbound := (Nat.cast_le.2 hcount).trans (hdrained.taken_le hwindow)
    rwa [add_sub_cancel_left] at hbound
  · -- no request is about this identity
    have hzero : (p.found ⟨fun _ => none, clock⟩ calls).countP
        (p.counts before scope identity t0 (t0 + d)) = 0 := by
      refine List.countP_eq_zero.2 fun x _ hx => hsome ⟨x.2, ?_⟩
      simp only [RuleSetPolicy.counts, Bool.and_eq_true, decide_eq_true_eq] at hx
      exact hx.1.1.2
    have hstart : Drained tokens refillPerSecs [] 0 none := rfl
    have hbound := hstart.taken_le hwindow
    rw [add_sub_cancel_left] at hbound
    rw [hzero]
    exact hbound

/-! ### Two rate limits of one scope

A burst of four requests with a token back each second, and one request for ever. -/

namespace Shared

/-- Two limits of one scope. -/
def policy : RuleSetPolicy :=
  ⟨⟨1, ⟨3⟩, [.rateLimit 4 1 .perWallet, .rateLimit 1 0 .perWallet], .allow⟩, none⟩

def calls : List (DecisionId × SigningRequest) :=
  [(⟨4⟩, Limits.request (.apiKey "alice")), (⟨5⟩, Limits.request (.apiKey "bob"))]

end Shared

/-- Two limits of the same size. -/
theorem everyLimitEnforced_limits : EveryLimitEnforced Limits.policy :=
  everyLimitEnforced_of_agree Limits.policy (by decide) (by
    intro tokens refillPerSecs tokens' refillPerSecs' scope hmem hmem'
    simp only [Limits.policy, Limits.rules, List.mem_cons, Rule.rateLimit.injEq,
      List.not_mem_nil, or_false] at hmem hmem'
    rcases hmem with ⟨rfl, rfl, -⟩ | ⟨rfl, rfl, -⟩ <;>
      rcases hmem' with ⟨rfl, rfl, -⟩ | ⟨rfl, rfl, -⟩ <;> exact ⟨rfl, rfl⟩)

/-- Both requests pass at once, each with two of the four tokens that the first rule put into the
bucket, where the second rule allows one. -/
theorem everyLimitEnforced_fails_for_shared :
    validate Shared.policy.rules = .ok () ∧ ¬ EveryLimitEnforced Shared.policy := by
  refine ⟨by decide, fun h => ?_⟩
  have hle := h (fun _ => 0) (fun _ => Int64.le_refl 0) Shared.calls [.rateLimit 4 1 .perWallet] 1 0
    .perWallet [] rfl (some ⟨2⟩, none) 0 0 (le_refl 0)
  revert hle
  decide +kernel

/-! ## Concurrent calls -/

/-- The steps of a call: it reads the clock, and then holds the lock. -/
inductive AcquireOp where
  | nowUnixMs
  | locked (key : String) (capacity refillPerSecs : UInt32) (now : Int64)

/-- What an operation answers. -/
def AcquireOp.Answer : AcquireOp → Type
  | nowUnixMs => Int64
  | locked .. => Bool

/-- `try_acquire` as a program. -/
def tryAcquire (key : String) (capacity refillPerSecs : UInt32) :
    Prog AcquireOp AcquireOp.Answer Bool :=
  if capacity = 0 then .ret false
  else .act .nowUnixMs fun now => .act (.locked key capacity refillPerSecs now) .ret

/-- The buckets, and the time of the last step. -/
structure SharedLimiter where
  inner : String → Option BucketState
  time : Int64

/-- A step at time `t`; time does not go back. -/
def SharedLimiter.perform (s : SharedLimiter) (op : AcquireOp) (t : Int64) :
    Option (op.Answer × SharedLimiter) :=
  if s.time ≤ t then
    match op with
    | .nowUnixMs => some (t, { s with time := t })
    | .locked key capacity refillPerSecs now =>
      let (ok, entry) := Policy.locked (s.inner key) capacity refillPerSecs now
      some (ok, ⟨fun k => if k = key then some entry else s.inner k, t⟩)
  else none

/-- Tasks that call `try_acquire`. -/
abbrev Callers := Pool AcquireOp AcquireOp.Answer SharedLimiter Unit Bool

namespace Callers

/-- Without buckets. -/
def start (time : Int64) : Callers := Pool.start ⟨fun _ => none, time⟩

/-- A call got its token: the answer of its locked section, which the call returns. -/
def granted : Prog.Event AcquireOp AcquireOp.Answer → Bool
  | ⟨.locked .., ok⟩ => ok
  | ⟨.nowUnixMs, _⟩ => false

/-- The step gives a token to a call, at a time from `t0` to `t1`. -/
def grantsIn (t0 t1 : Rat) (x : Prog.Event AcquireOp AcquireOp.Answer) (time : Int64) : Bool :=
  granted x && decide (t0 ≤ (time.toInt : Rat)) && decide ((time.toInt : Rat) ≤ t1)

theorem grantsIn_iff {t0 t1 : Rat} {x : Prog.Event AcquireOp AcquireOp.Answer} {time : Int64} :
    grantsIn t0 t1 x time = true ↔
      granted x = true ∧ t0 ≤ (time.toInt : Rat) ∧ (time.toInt : Rat) ≤ t1 := by
  simp only [grantsIn, Bool.and_eq_true, decide_eq_true_eq, and_assoc]

/-- A locked section runs at the time its call read. -/
def isFresh : Prog.Event AcquireOp AcquireOp.Answer → Int64 → Bool
  | ⟨.locked _ _ _ now, _⟩, time => time == now
  | ⟨.nowUnixMs, _⟩, _ => true

section

variable (key : String) (capacity refillPerSecs : UInt32)

/-- The steps of a run of calls on one key, each with the callers before and after it. -/
def steps (p : Callers) (moves : List (Move Unit Int64)) :
    List (Callers × Nat × Prog.Event AcquireOp AcquireOp.Answer × Callers) :=
  Pool.steps SharedLimiter.perform (fun _ => tryAcquire key capacity refillPerSecs) p moves

/-- How many calls whose locked section ran from `t0` to `t1` got a token. -/
def grants (p : Callers) (moves : List (Move Unit Int64)) (t0 t1 : Rat) : Nat :=
  (steps key capacity refillPerSecs p moves).countP fun x =>
    grantsIn t0 t1 x.2.2.1 x.2.2.2.shared.time

/-- The step is one of a call on the key. -/
def OfKey : AcquireOp → Prop
  | .nowUnixMs => True
  | .locked key' capacity' refillPerSecs' _ =>
    key' = key ∧ capacity' = capacity ∧ refillPerSecs' = refillPerSecs

theorem uses_tryAcquire :
    (tryAcquire key capacity refillPerSecs).Uses (OfKey key capacity refillPerSecs) := by
  unfold tryAcquire
  split
  · trivial
  · exact ⟨trivial, fun now => ⟨⟨rfl, rfl, rfl⟩, fun _ => trivial⟩⟩

end

variable {key : String}

theorem drained_perform {s s' : SharedLimiter} {op : AcquireOp} {t : Int64} {r : op.Answer}
    (hop : OfKey key capacity refillPerSecs op) (hfresh : isFresh ⟨op, r⟩ s'.time = true)
    (h : Drained capacity refillPerSecs log last (s.inner key)) (hlast : last ≤ s.time.toInt)
    (hperform : s.perform op t = some (r, s')) (t0 t1 : Rat) :
    ∃ log' last', Drained capacity refillPerSecs (log ++ log') last' (s'.inner key) ∧
      last' ≤ s'.time.toInt ∧ (grantsIn t0 t1 ⟨op, r⟩ s'.time = true → 0 < taken t0 t1 log') := by
  unfold SharedLimiter.perform at hperform
  split_ifs at hperform with ht
  have hnow := hlast.trans (Int64.le_iff_toInt_le.1 ht)
  cases op with
  | nowUnixMs =>
    cases hperform
    exact ⟨[], last, by simpa using h, hnow, by simp [grantsIn, granted]⟩
  | locked key' capacity' refillPerSecs' now =>
    obtain ⟨rfl, rfl, rfl⟩ := hop
    cases hlocked : Policy.locked (s.inner key') capacity' refillPerSecs' now with
    | mk ok entry =>
    simp only [hlocked, Option.some.injEq] at hperform
    cases hperform
    obtain rfl : t = now := by simpa [isFresh] using hfresh
    have hnext := h.locked hnow
    rw [hlocked] at hnext
    refine ⟨[(t.toInt, r)], t.toInt, ?_, le_refl _, fun hgrants => ?_⟩
    · dsimp only
      rw [if_pos rfl]
      exact hnext
    · obtain ⟨hok, h0, h1⟩ := grantsIn_iff.1 hgrants
      exact taken_pos (List.mem_singleton.2 (Prod.ext rfl hok.symm)) h0 h1

theorem grants_le_taken {p : Callers} {moves : List (Move Unit Int64)}
    (htasks : ∀ task ∈ p.tasks, task.2.Uses (OfKey key capacity refillPerSecs))
    (hfresh : ∀ x ∈ steps key capacity refillPerSecs p moves,
      isFresh x.2.2.1 x.2.2.2.shared.time = true)
    (h : Drained capacity refillPerSecs log last (p.shared.inner key))
    (hlast : last ≤ p.shared.time.toInt) (t0 t1 : Rat) :
    ∃ log' last' entry, Drained capacity refillPerSecs (log ++ log') last' entry ∧
      grants key capacity refillPerSecs p moves t0 t1 ≤ taken t0 t1 log' := by
  induction moves generalizing p log last with
  | nil => exact ⟨[], last, _, by simpa using h, Nat.le_refl 0⟩
  | cons m moves ih =>
    unfold grants at ih ⊢
    unfold steps at ih hfresh ⊢
    obtain hnone | ⟨call, hspawn⟩ | ⟨i, a, call, op, k, r, s, htask, hperform, hstep⟩ :=
      Pool.steps_cons p m moves
    · rw [hnone]
      exact ⟨[], last, _, by simpa using h, Nat.le_refl 0⟩
    · rw [hspawn] at hfresh ⊢
      refine ih (fun task htask => ?_) hfresh h hlast
      rcases List.mem_append.1 htask with htask | htask
      · exact htasks task htask
      · rw [List.mem_singleton.1 htask]
        exact uses_tryAcquire key capacity refillPerSecs
    · rw [hstep] at hfresh ⊢
      obtain ⟨hfirst, hfresh⟩ := List.forall_mem_cons.1 hfresh
      obtain ⟨hop, hrest⟩ := htasks _ (List.mem_of_getElem? htask)
      obtain ⟨log₁, last₁, hdrained₁, hlast₁, hgrants₁⟩ :=
        drained_perform hop hfirst h hlast hperform t0 t1
      obtain ⟨log₂, last₂, entry, hdrained₂, hcount⟩ := ih (fun task htask => by
          rcases List.mem_or_eq_of_mem_set htask with htask | rfl
          · exact htasks task htask
          · exact hrest r) hfresh hdrained₁ hlast₁
      refine ⟨log₁ ++ log₂, last₂, entry, by rwa [← List.append_assoc], ?_⟩
      rw [List.countP_cons, taken_append]
      split
      · next hgrants =>
        have := hgrants₁ hgrants
        omega
      · omega

/-- **Calls whose locked sections run at the time they read get no more tokens than the bucket
may give.** -/
theorem grants_le_of_fresh (key : String) (capacity refillPerSecs : UInt32) (time : Int64)
    (moves : List (Move Unit Int64))
    (hfresh : ∀ x ∈ steps key capacity refillPerSecs (start time) moves,
      isFresh x.2.2.1 x.2.2.2.shared.time = true) (t0 t1 : Rat) (ht : t0 ≤ t1) :
    (grants key capacity refillPerSecs (start time) moves t0 t1 : Rat)
      ≤ allowance capacity refillPerSecs (t1 - t0) := by
  have hstart : Drained capacity refillPerSecs [] time.toInt ((start time).shared.inner key) := rfl
  obtain ⟨log, last, entry, hdrained, hcount⟩ := grants_le_taken (by simp [start, Pool.start])
    hfresh hstart (le_refl _) t0 t1
  exact (Nat.cast_le.2 hcount).trans (hdrained.taken_le ht)

/-! ### A call that waits for the lock

The first call reads the clock and then waits for ten seconds. -/

/-- The calls read at 0, at 10 s and at 10 s; their locked sections run at 10 s, the first one
between the others. -/
def stale : List (Move Unit Int64) :=
  [.spawn (), .spawn (), .spawn (), .act 0 0, .act 1 10000, .act 1 10000, .act 0 10000,
    .act 2 10000, .act 2 10000]

/-- The same calls, with each locked section at the time of its reading. -/
def prompt : List (Move Unit Int64) :=
  [.spawn (), .spawn (), .spawn (), .act 0 0, .act 0 0, .act 1 10000, .act 2 10000,
    .act 1 10000, .act 2 10000]

/-- Three calls, each with its locked section at the time of its reading. -/
theorem grants_le_prompt :
    (grants "k" 1 1 (start 0) prompt 0 10000 : Rat) ≤ allowance 1 1 (10000 - 0) :=
  grants_le_of_fresh "k" 1 1 0 prompt (by decide +kernel) 0 10000 (by decide +kernel)

/-- The first call turns the last refill back to 0, so the third one finds a bucket that gained ten
seconds' tokens since the second one took the last token. -/
theorem grants_exceed_for_stale :
    ¬ (grants "k" 1 1 (start 0) stale 10000 10000 : Rat) ≤ allowance 1 1 (10000 - 10000) := by
  decide +kernel

end Callers

end QfcServerWallet.Policy
