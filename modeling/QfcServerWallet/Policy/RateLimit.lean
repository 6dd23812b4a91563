import QfcServerWallet.Policy.Rules
import Mathlib.Data.Stream.Defs

/-!
# The token-bucket limiter

`qfc-policy/src/rate_limit.rs`, and from `rule_set_policy.rs` the key a rule's bucket has.

* The clock is a parameter of the source (`dyn Clock`). Here a limiter carries the readings it is
  still to make as a stream; each `try_acquire` with a capacity takes one.
* The `HashMap` is a partial function; its keys are never listed.
* The source counts tokens in `f64`. The model counts exactly, in `Rat`: it says nothing about
  rounding.
* `now - last` wraps as in a release build.

Result: `tryAcquire_other` (a call leaves every other bucket alone).
-/

namespace QfcServerWallet.Policy

/-- A bucket: its tokens, and when it was last refilled. -/
structure BucketState where
  tokens : Rat
  lastRefillUnixMs : Int64

/-- The buckets by their key, and the readings of the clock to come. -/
structure TokenBucketLimiter where
  inner : String → Option BucketState
  clock : Stream' Int64

/-- The bucket after the refill for the time since it was last touched. -/
def BucketState.refilled (entry : BucketState) (capacity refillPerSecs : UInt32) (now : Int64) :
    BucketState :=
  if refillPerSecs > 0 then
    let dtMs := max (now - entry.lastRefillUnixMs).toInt 0
    { tokens := min (entry.tokens + (dtMs : Rat) / 1000 / refillPerSecs.toNat) capacity.toNat
      lastRefillUnixMs := now }
  else entry

/-- What `try_acquire` does with the bucket while it holds the lock. -/
def locked (entry : Option BucketState) (capacity refillPerSecs : UInt32) (now : Int64) :
    Bool × BucketState :=
  let entry := (entry.getD ⟨capacity.toNat, now⟩).refilled capacity refillPerSecs now
  let ok := decide (1 ≤ entry.tokens)
  (ok, if ok then { entry with tokens := entry.tokens - 1 } else entry)

/-- Consume one token of the bucket `key`, if it has one. -/
def TokenBucketLimiter.tryAcquire (l : TokenBucketLimiter) (key : String)
    (capacity refillPerSecs : UInt32) : Bool × TokenBucketLimiter :=
  if capacity = 0 then (false, l)
  else
    let (ok, entry) := locked (l.inner key) capacity refillPerSecs l.clock.head
    (ok, ⟨fun k => if k = key then some entry else l.inner k, l.clock.tail⟩)

/-- `StaticAllowDenyPolicy::requester_key` -/
def requesterKey : Requester → String
  | .apiKey keyId => "api:" ++ keyId
  | .oAuthSubject sub => "oauth:" ++ sub
  | .nestedWallet walletId => "wallet:" ++ walletId.toString
  | .onChainContract chainId address =>
    "contract:" ++ toString chainId.toNat ++ ":" ++ Lib.hexEncode address

/-- The bucket of a rate-limit rule for a request. -/
def rateLimitKey (scope : RateLimitScope) (req : SigningRequest) : String :=
  let r := requesterKey req.requester
  match scope with
  | .perWallet => "wallet:" ++ req.walletId.toString
  | .perRequester => "req:" ++ r
  | .perWalletRequester => "wr:" ++ req.walletId.toString ++ "|" ++ r

variable {l : TokenBucketLimiter} {key k : String} {capacity refillPerSecs : UInt32}

theorem tryAcquire_eq (hcap : capacity ≠ 0) :
    l.tryAcquire key capacity refillPerSecs =
      let (ok, entry) := locked (l.inner key) capacity refillPerSecs l.clock.head
      (ok, ⟨fun k => if k = key then some entry else l.inner k, l.clock.tail⟩) :=
  if_neg hcap

/-- A call leaves every other bucket alone. -/
theorem tryAcquire_other (h : k ≠ key) :
    (l.tryAcquire key capacity refillPerSecs).2.inner k = l.inner k := by
  unfold TokenBucketLimiter.tryAcquire
  split
  · rfl
  · exact if_neg h

theorem clock_tryAcquire (hcap : capacity ≠ 0) :
    (l.tryAcquire key capacity refillPerSecs).2.clock = l.clock.tail := by
  rw [tryAcquire_eq hcap]

end QfcServerWallet.Policy
