import QfcServerWallet.Policy.Keys
import QfcServerWallet.Policy.Relabel

/-!
# The documented precedence

The order that the module doc of `rule_set_policy.rs` gives, against what `evaluate` does with rules
in another order, with several rate limits, and with several quorum rules.

* Stage 8 takes a token for each rule, in the order of the list, and reads the clock each time.
  `Limited` asks each bucket as it was before the evaluation, at the first reading; with one rule
  per scope no two rules share a bucket, but the `n`-th one sees the `n`-th reading.
* Stage 10 returns the first quorum rule whose trigger fires.

Results: **`evaluate_precedence_iff`** and **`strictestQuorum_iff`**.
-/

namespace QfcServerWallet.Policy

open Lib

/-! ## The specification -/

/-- Capacity, refill interval and scope of a rate limit. -/
def Rule.limit? : Rule → Option (UInt32 × UInt32 × RateLimitScope)
  | .rateLimit tokens refillPerSecs scope => some (tokens, refillPerSecs, scope)
  | _ => none

/-- The rate limits, in the order of the list. -/
def limits (rules : List Rule) : List (UInt32 × UInt32 × RateLimitScope) :=
  rules.filterMap Rule.limit?

/-- The bucket of the limit has a token at the `n`-th reading of the clock. -/
def TokenAt (limiter : TokenBucketLimiter) (request : SigningRequest) (n : Nat)
    (limit : UInt32 × UInt32 × RateLimitScope) : Prop :=
  (locked (limiter.inner (rateLimitKey limit.2.2 request)) limit.1 limit.2.1
    (limiter.clock.get n)).1 = true

/-- A rate limit has no token left in its bucket. -/
def Evaluation.Limited (ev : Evaluation) (limiter : TokenBucketLimiter) : Prop :=
  ∃ limit ∈ limits ev.rules, ¬ TokenAt limiter ev.request 0 limit

/-- The outcome that is documented. -/
noncomputable def RuleSetPolicy.specified (p : RuleSetPolicy) (limiter : TokenBucketLimiter)
    (request : SigningRequest) : Outcome :=
  p.specifiedWith ((p.start request).Limited limiter) request

/-! ## The rate limits -/

/-- No scope has two rate limits. -/
def OneLimitPerScope (rules : List Rule) : Prop := ((limits rules).map fun limit => limit.2.2).Nodup

section RateLimit

variable {limiter : TokenBucketLimiter}

/-- After a limit of another scope took its token, the bucket is as before, one reading later. -/
theorem tokenAt_tryAcquire {request : SigningRequest} {tokens refillPerSecs : UInt32}
    {scope : RateLimitScope} {limit : UInt32 × UInt32 × RateLimitScope} (hcap : tokens ≠ 0)
    (hscope : limit.2.2 ≠ scope) (n : Nat) :
    TokenAt (limiter.tryAcquire (rateLimitKey scope request) tokens refillPerSecs).2 request n limit
      ↔ TokenAt limiter request (n + 1) limit := by
  unfold TokenAt
  rw [tryAcquire_other fun hkey => hscope (scope_of_rateLimitKey hkey), clock_tryAcquire hcap]
  rfl

theorem clears_iff {rules : List Rule} (hvalid : ∀ r ∈ rules, validateRule r = .ok ())
    (hscope : OneLimitPerScope rules) (limiter : TokenBucketLimiter) (request : SigningRequest) :
    Clears request rules limiter ↔
      ∀ n limit, (limits rules)[n]? = some limit → TokenAt limiter request n limit := by
  induction rules generalizing limiter with
  | nil => exact iff_of_true trivial fun _ _ h => nomatch h
  | cons r rules ih =>
    obtain ⟨hr, hrules⟩ := List.forall_mem_cons.1 hvalid
    cases r with
    | rateLimit tokens refillPerSecs scope =>
      obtain ⟨hfresh, hscope⟩ := List.nodup_cons.1 hscope
      have hcap : tokens ≠ 0 := requireConfig_eq_ok.1 hr
      have hfirst : (limiter.tryAcquire (rateLimitKey scope request) tokens refillPerSecs).1 = true
          ↔ TokenAt limiter request 0 (tokens, refillPerSecs, scope) := by
        rw [tryAcquire_eq hcap]
        rfl
      have hlater : (∀ n limit, (limits rules)[n]? = some limit → TokenAt
            (limiter.tryAcquire (rateLimitKey scope request) tokens refillPerSecs).2 request n
            limit) ↔
          ∀ n limit, (limits rules)[n]? = some limit → TokenAt limiter request (n + 1) limit := by
        refine forall₃_congr fun n limit hlimit => tokenAt_tryAcquire hcap (fun heq => ?_) n
        exact hfresh (List.mem_map.2 ⟨limit, List.mem_of_getElem? hlimit, heq⟩)
      rw [Clears, hfirst, ih hrules hscope, hlater]
      constructor
      · rintro ⟨hzero, hsucc⟩ n limit hlimit
        cases n with
        | zero =>
          cases hlimit
          exact hzero
        | succ n => exact hsucc n limit hlimit
      · exact fun h => ⟨h 0 _ rfl, fun n limit hlimit => h (n + 1) limit hlimit⟩
    | _ => exact ih hrules hscope limiter

end RateLimit

/-! ## Another order of the rules -/

section Evaluate

variable {limiter : TokenBucketLimiter} {rules : List Rule}

/-- The policy with another list of rules. -/
def RuleSetPolicy.withRules (p : RuleSetPolicy) (rules : List Rule) : RuleSetPolicy :=
  { p with rules := { p.rules with rules := rules } }

theorem validate_withRules {p : RuleSetPolicy} (hvalid : validate p.rules = .ok ())
    (hperm : rules.Perm p.rules.rules) : validate (p.withRules rules).rules = .ok () := by
  obtain ⟨hversion, hrules⟩ := validate_ok_iff.1 hvalid
  exact validate_ok_iff.2 ⟨hversion, fun r hr => hrules r (hperm.mem_iff.1 hr)⟩

theorem rejects_withRules {p : RuleSetPolicy} (hmem : ∀ r, r ∈ rules ↔ r ∈ p.rules.rules)
    (request : SigningRequest) (limited : Prop) (stage : DenyStage) :
    ((p.withRules rules).start request).Rejects limited stage ↔
      (p.start request).Rejects limited stage := by
  cases stage <;> simp only [Evaluation.Rejects, Evaluation.Vetoed, RuleSetPolicy.start,
    RuleSetPolicy.withRules, RuleSetPolicy.decode, Evaluation.methodRuleApplies, hmem]

open Classical in
theorem specifiedWith_withRules {p : RuleSetPolicy} (hmem : ∀ r, r ∈ rules ↔ r ∈ p.rules.rules)
    (limited : Prop) (request : SigningRequest) :
    (p.withRules rules).specifiedWith limited request = p.specifiedWith limited request := by
  have hfiring : ((p.withRules rules).start request).firing = (p.start request).firing := rfl
  have hany : (∃ r ∈ rules, ((p.start request).firing r).isSome = true) ↔
      ∃ r ∈ p.rules.rules, ((p.start request).firing r).isSome = true := by
    simp only [hmem]
  have hfind : (DenyStage.order.find? fun stage =>
        ((p.withRules rules).start request).Rejects limited stage)
      = DenyStage.order.find? fun stage => (p.start request).Rejects limited stage :=
    congrArg (DenyStage.order.find? ·)
      (funext fun stage => decide_eq_decide.2 (rejects_withRules hmem request _ stage))
  unfold RuleSetPolicy.specifiedWith
  simp only [hfind, hfiring]
  simp only [RuleSetPolicy.withRules, hany]

/-- A stage before the rate limits rejects. -/
def RejectsEarly (ev : Evaluation) : Prop :=
  ∃ stage ∈ DenyStage.order.takeWhile (· ≠ .rateLimit), ev.Rejects False stage

section Verdict

variable {p : RuleSetPolicy} {request : SigningRequest} {limited limited' : Prop}

theorem order_eq :
    DenyStage.order = DenyStage.order.takeWhile (· ≠ .rateLimit) ++ [.rateLimit, .vmShape] := by
  decide

theorem rejects_iff_of_early {ev : Evaluation} {stage : DenyStage}
    (h : stage ∈ DenyStage.order.takeWhile (· ≠ .rateLimit)) :
    ev.Rejects limited stage ↔ ev.Rejects False stage := by
  cases stage with
  | rateLimit => exact absurd h (by decide)
  | _ => exact Iff.rfl

open Classical in
theorem specifiedWith_of_rejectsEarly (h : RejectsEarly (p.start request)) :
    p.specifiedWith limited request = p.specifiedWith limited' request := by
  obtain ⟨stage, hstage, hrejects⟩ := h
  have hsome : ((DenyStage.order.takeWhile (· ≠ .rateLimit)).find? fun stage =>
      (p.start request).Rejects False stage).isSome = true :=
    List.find?_isSome.2 ⟨stage, hstage, decide_eq_true hrejects⟩
  obtain ⟨first, hfirst⟩ := Option.isSome_iff_exists.1 hsome
  have hfind (limited : Prop) : (DenyStage.order.find? fun stage =>
      (p.start request).Rejects limited stage) = some first := by
    have hearly : ((DenyStage.order.takeWhile (· ≠ .rateLimit)).find? fun stage =>
        (p.start request).Rejects limited stage) = some first := hfirst
    rw [order_eq, List.find?_append, hearly, Option.some_or]
  unfold RuleSetPolicy.specifiedWith
  simp only [hfind]

open Classical in
theorem specifiedWith_eq_rateLimited_iff (h : ¬ RejectsEarly (p.start request)) :
    p.specifiedWith limited request = .deny (DenyStage.reason .rateLimit) ↔ limited := by
  unfold RuleSetPolicy.specifiedWith
  dsimp only
  split
  · next stage hstage =>
    have hreason : Outcome.deny stage.reason = .deny (DenyStage.reason .rateLimit) ↔
        stage = .rateLimit := by
      cases stage <;> simp [DenyStage.reason]
    rw [hreason]
    constructor
    · rintro rfl
      have hrejects := List.find?_some hstage
      exact of_decide_eq_true hrejects
    · intro hlimited
      have hearly : ((DenyStage.order.takeWhile (· ≠ .rateLimit)).find? fun stage =>
          (p.start request).Rejects limited stage) = none :=
        List.find?_eq_none.2 fun stage hmem hrejects =>
          h ⟨stage, hmem, (rejects_iff_of_early hmem).1 (of_decide_eq_true hrejects)⟩
      have hfind : ([.rateLimit, .vmShape].find? fun stage =>
          (p.start request).Rejects limited stage) = some DenyStage.rateLimit :=
        List.find?_cons_of_pos (decide_eq_true hlimited)
      rw [order_eq, List.find?_append, hearly, hfind] at hstage
      exact (Option.some.inj hstage).symm
  · next hnone =>
    refine iff_of_false ?_ fun hlimited => ?_
    · split
      · exact nofun
      · cases p.rules.default <;> simp [DenyStage.reason]
    · exact List.find?_eq_none.1 hnone .rateLimit (by decide) (decide_eq_true hlimited)

/-- The verdict of the rate limits counts unless a stage before them rejects. -/
theorem specifiedWith_eq_iff :
    p.specifiedWith limited request = p.specifiedWith limited' request ↔
      RejectsEarly (p.start request) ∨ (limited ↔ limited') := by
  by_cases hearly : RejectsEarly (p.start request)
  · exact iff_of_true (specifiedWith_of_rejectsEarly hearly) (.inl hearly)
  · rw [or_iff_right hearly]
    constructor
    · intro heq
      rw [← @specifiedWith_eq_rateLimited_iff _ _ limited hearly, heq,
        specifiedWith_eq_rateLimited_iff hearly]
    · exact fun heq => by rw [propext heq]

end Verdict

/-- **With at most one rate limit per scope, `evaluate` returns what is documented in every order of
the rules iff a stage before the rate limits rejects the request, or in every order the rate limits
find their tokens at the readings they take iff they find them at the first reading.** -/
theorem evaluate_precedence_iff (p : RuleSetPolicy) (hvalid : validate p.rules = .ok ())
    (hscope : OneLimitPerScope p.rules.rules) (limiter : TokenBucketLimiter)
    (request : SigningRequest) :
    (∀ rules, rules.Perm p.rules.rules → ∀ decisionId,
      outcome ((p.withRules rules).evaluate decisionId limiter request).1
        = some (p.specified limiter request)) ↔
    RejectsEarly (p.start request) ∨ ∀ rules, rules.Perm p.rules.rules →
      ((∀ n limit, (limits rules)[n]? = some limit → TokenAt limiter request n limit) ↔
        ∀ limit ∈ limits rules, TokenAt limiter request 0 limit) := by
  simp only [← forall_or_left]
  refine forall₂_congr fun rules hperm => ?_
  have hlimits : (limits rules).Perm (limits p.rules.rules) := hperm.filterMap _
  have hvalid' := validate_withRules hvalid hperm
  have hrules : ∀ r ∈ rules, validateRule r = .ok () := (validate_ok_iff.1 hvalid').2
  have hclears := clears_iff hrules ((hlimits.map _).nodup_iff.2 hscope) limiter request
  have hlimited : ¬ (p.start request).Limited limiter ↔
      ∀ limit ∈ limits rules, TokenAt limiter request 0 limit := by
    simp only [Evaluation.Limited, not_exists, not_and, not_not, hlimits.mem_iff]
    rfl
  have houtcome (decisionId : DecisionId) :
      outcome ((p.withRules rules).evaluate decisionId limiter request).1
        = some (p.specifiedWith (¬ Clears request rules limiter) request) := by
    rw [outcome_evaluate hvalid', specifiedWith_withRules fun r => hperm.mem_iff]
    rfl
  have : Nonempty DecisionId := ⟨⟨0⟩⟩
  simp only [houtcome, Option.some.injEq]
  rw [forall_const, RuleSetPolicy.specified, specifiedWith_eq_iff, ← hclears, ← hlimited]
  exact or_congr_right (not_iff_comm.trans Iff.comm)

end Evaluate

/-! ### Two rate limits

One request a second and wallet, one a second and requester. -/

namespace Limits

/-- The two limits. -/
def rules : RuleSet :=
  ⟨1, ⟨3⟩, [.rateLimit 1 1 .perWallet, .rateLimit 1 1 .perRequester], .allow⟩

/-- A policy with them. -/
def policy : RuleSetPolicy := ⟨rules, none⟩

def request (requester : Requester) : SigningRequest where
  requestId := ⟨1⟩
  walletId := ⟨2⟩
  requester := requester
  payload := .raw [1]
  hdPath := none
  receivedAtUnixMs := 0

/-- The readings of the first request, and those of the second one, a second later. -/
def clock : Stream' Int64 := fun n => if n < 2 then 0 else if n = 2 then 999 else 1000

/-- After a request of another requester. -/
def limiter : TokenBucketLimiter :=
  (policy.evaluate ⟨4⟩ ⟨fun _ => none, clock⟩ (request (.apiKey "alice"))).2

end Limits

open Limits in
/-- When the clock stands still, every reading is the first one. -/
theorem evaluate_precedence_steady :
    OneLimitPerScope policy.rules.rules ∧
    ∀ rules, rules.Perm policy.rules.rules → ∀ decisionId,
      outcome ((policy.withRules rules).evaluate decisionId Transfer.limiter
          (request (.apiKey "bob"))).1
        = some (policy.specified Transfer.limiter (request (.apiKey "bob"))) := by
  have hscope : OneLimitPerScope policy.rules.rules := by
    unfold OneLimitPerScope
    decide
  refine ⟨hscope, (evaluate_precedence_iff policy (by decide) hscope Transfer.limiter
    (request (.apiKey "bob"))).2 (.inr fun _ _ => ⟨?_, ?_⟩)⟩
  · exact fun h limit hlimit => (List.getElem?_of_mem hlimit).elim fun n hn => h n limit hn
  · exact fun h _ limit hlimit => h limit (List.mem_of_getElem? hlimit)

open Limits in
/-- The wallet has its token back at the second reading of the clock, not yet at the first. -/
theorem evaluate_order_matters :
    ¬ (validate policy.rules = .ok () → OneLimitPerScope policy.rules.rules →
        ∀ rules, rules.Perm policy.rules.rules →
          outcome ((policy.withRules rules).evaluate ⟨4⟩ limiter
              (request (.apiKey "bob"))).1
            = outcome (policy.evaluate ⟨4⟩ limiter
              (request (.apiKey "bob"))).1) := by
  intro h
  have hsame := h (by decide) (by unfold OneLimitPerScope; decide) rules.rules.reverse
    (List.reverse_perm _)
  exact absurd hsame (by decide +kernel)

/-! ## The strictest quorum -/

/-- Threshold, total and approver set of a decision that requires a quorum. -/
def quorumOf : Except PolicyError PolicyDecision → Option (UInt8 × UInt8 × ApproverSetId)
  | .ok (.requireQuorum _ _ threshold total approverSet _) => some (threshold, total, approverSet)
  | _ => none

/-- A returned quorum is as strict as every quorum rule that fires, and every order of the rules
returns it. -/
def StrictestQuorum (p : RuleSetPolicy) (limiter : TokenBucketLimiter) (request : SigningRequest) :
    Prop :=
  ∀ decisionId quorum, quorumOf (p.evaluate decisionId limiter request).1 = some quorum →
    (∀ r ∈ p.rules.rules, ∀ quorum', (p.start request).firing r = some quorum' →
      quorum'.1 ≤ quorum.1) ∧
    ∀ rules, rules.Perm p.rules.rules → ∀ decisionId',
      quorumOf ((p.withRules rules).evaluate decisionId' limiter request).1 = some quorum

/-- The quorum rules that fire ask for the same quorum. -/
def FiredAgree (p : RuleSetPolicy) (request : SigningRequest) : Prop :=
  ∀ r ∈ p.rules.rules, ∀ r' ∈ p.rules.rules, ∀ quorum quorum',
    (p.start request).firing r = some quorum → (p.start request).firing r' = some quorum' →
      quorum = quorum'

section Quorum

variable {p : RuleSetPolicy} {limiter : TokenBucketLimiter} {request : SigningRequest}
variable {quorum : UInt8 × UInt8 × ApproverSetId} {rules : List Rule}

theorem quorumOf_evaluate_iff (hvalid : validate p.rules = .ok ()) {decisionId : DecisionId} :
    quorumOf (p.evaluate decisionId limiter request).1 = some quorum ↔
      p.Reaches limiter request ∧
        p.rules.rules.findSome? (p.start request).firing = some quorum := by
  rcases evaluate_cases hvalid decisionId limiter request with ⟨_, _, -, hrejected, hx⟩ |
    ⟨hreaches, ⟨_, _, _, _, hquorum, hx⟩ | ⟨hquorum, _, hx⟩⟩
  · exact hx ▸ iff_of_false nofun fun h => hrejected h.1
  · rw [hx, and_iff_right hreaches, hquorum]
    rfl
  · rw [hx, and_iff_right hreaches, hquorum]
    cases p.rules.default <;> simp [applyDefault, quorumOf]

/-- Only the rate limits depend on the order of the rules. -/
theorem reaches_withRules (hperm : rules.Perm p.rules.rules) (hreaches : p.Reaches limiter request)
    (hclears : Clears request rules limiter) : (p.withRules rules).Reaches limiter request := by
  intro stage hrejects
  have hlimited : (¬ Clears request (p.withRules rules).rules.rules limiter) = False :=
    eq_false (not_not.2 hclears)
  rw [hlimited, rejects_withRules fun r => hperm.mem_iff] at hrejects
  refine hreaches stage ?_
  cases stage with
  | rateLimit => exact hrejects.elim
  | _ => exact hrejects

end Quorum

/-- **The returned quorum is the strictest one, in every order of the rules, iff for a request that
gets past the stages that can deny, and for which a quorum rule fires, all the quorum rules that
fire agree and the rate limits let it through in every order.** -/
theorem strictestQuorum_iff (p : RuleSetPolicy) (hvalid : validate p.rules = .ok ())
    (limiter : TokenBucketLimiter) (request : SigningRequest) :
    StrictestQuorum p limiter request ↔
      (p.Reaches limiter request →
        (∃ r ∈ p.rules.rules, ((p.start request).firing r).isSome = true) →
        FiredAgree p request ∧
          ∀ rules, rules.Perm p.rules.rules → Clears request rules limiter) := by
  constructor
  · intro h hreaches hfires
    obtain ⟨quorum, hquorum⟩ := Option.isSome_iff_exists.1 (List.findSome?_isSome_iff.2 hfires)
    obtain ⟨-, hsame⟩ := h ⟨0⟩ quorum ((quorumOf_evaluate_iff hvalid).2 ⟨hreaches, hquorum⟩)
    have hperms (rules : List Rule) (hperm : rules.Perm p.rules.rules) :=
      (quorumOf_evaluate_iff (validate_withRules hvalid hperm)).1 (hsame rules hperm ⟨0⟩)
    -- a rule that fires decides when it stands in front
    have hall (r : Rule) (hr : r ∈ p.rules.rules) (quorum' : UInt8 × UInt8 × ApproverSetId)
        (hr' : (p.start request).firing r = some quorum') : quorum' = quorum := by
      obtain ⟨before, after, hsplit⟩ := List.append_of_mem hr
      have hfront := (hperms (r :: (before ++ after)) (hsplit ▸ List.perm_middle.symm)).2
      have hfires' : ((p.withRules (r :: (before ++ after))).start request).firing r
          = some quorum' := hr'
      exact Option.some.inj (((List.findSome?_cons_of_isSome (by rw [hfires']; rfl)).trans
        hfires').symm.trans hfront)
    refine ⟨fun r hr r' hr' _ _ h h' => (hall r hr _ h).trans (hall r' hr' _ h').symm, ?_⟩
    exact fun rules hperm => not_not.1 ((hperms rules hperm).1 .rateLimit)
  · intro h decisionId quorum hreturned
    obtain ⟨hreaches, hfirst⟩ := (quorumOf_evaluate_iff hvalid).1 hreturned
    obtain ⟨first, hmem, hfires⟩ := List.exists_of_findSome?_eq_some hfirst
    obtain ⟨hagree, hclears⟩ := h hreaches ⟨first, hmem, by rw [hfires]; rfl⟩
    refine ⟨fun r hr quorum' hr' => ?_, fun rules hperm decisionId' => ?_⟩
    · rw [hagree r hr first hmem _ _ hr' hfires]
      exact UInt8.le_refl _
    · refine (quorumOf_evaluate_iff (validate_withRules hvalid hperm)).2
        ⟨reaches_withRules hperm hreaches (hclears rules hperm), ?_⟩
      obtain ⟨quorum', hquorum'⟩ := Option.isSome_iff_exists.1 (List.findSome?_isSome_iff.2
        ⟨first, hperm.mem_iff.2 hmem, show ((p.start request).firing first).isSome = true by
          rw [hfires]; rfl⟩)
      obtain ⟨r, hr, hr'⟩ := List.exists_of_findSome?_eq_some hquorum'
      rw [← hagree r (hperm.mem_iff.1 hr) first hmem _ _ hr' hfires]
      exact hquorum'

/-! ### Two quorum rules

Outside office hours one approval of three, and for a value of 4 or more three of five. -/

namespace Overlap

/-- Off hours. -/
def offHours (threshold total : UInt8) (approverSet : ApproverSetId) : Rule :=
  .requireQuorum threshold total approverSet (.outsideTimeWindow 0x1f 9 17)

/-- A large value. -/
def large : Rule := .requireQuorum 3 5 ⟨8⟩ (.valueGte 1 "4")

/-- A policy with the rules, which decodes EVM transactions. -/
def policy (rules : List Rule) : RuleSetPolicy := evmPolicy Rlp.reference ⟨1, ⟨3⟩, rules, .allow⟩

def request : SigningRequest := Transfer.request 1 none Transfer.signed

end Overlap

open Overlap

/-- Both rules fire, and ask for the same quorum. -/
theorem strictestQuorum_of_agreeing :
    StrictestQuorum (policy [offHours 3 5 ⟨8⟩, large]) Transfer.limiter request :=
  (strictestQuorum_iff (policy [offHours 3 5 ⟨8⟩, large])
    (by decide +kernel) Transfer.limiter request).2 fun _ _ =>
    have hfires (r : Rule) (hr : r ∈ [offHours 3 5 ⟨8⟩, large]) :
        ((policy [offHours 3 5 ⟨8⟩, large]).start request).firing r = some (3, 5, ⟨8⟩) := by
      rcases List.mem_pair.1 hr with rfl | rfl
      · decide +kernel
      · decide +kernel
    ⟨fun r hr r' hr' _ _ h h' => Option.some.inj
      (h.symm.trans ((hfires r hr).trans ((hfires r' hr').symm.trans h'))),
      fun _ hperm => clears_of_kind (fun r hr => by
        rcases List.mem_pair.1 (hperm.mem_iff.1 hr) with rfl | rfl <;> decide) _⟩

/-- Both rules fire, and the first one in the list counts. -/
theorem strictestQuorum_fails_for_overlap :
    validate (policy [offHours 1 3 ⟨7⟩, large]).rules = .ok () ∧
      ¬ StrictestQuorum (policy [offHours 1 3 ⟨7⟩, large]) Transfer.limiter request := by
  refine ⟨by decide +kernel, fun h => ?_⟩
  have hreturned : quorumOf ((policy [offHours 1 3 ⟨7⟩, large]).evaluate
      ⟨4⟩ Transfer.limiter request).1 = some (1, 3, ⟨7⟩) := by decide +kernel
  have hfires : ((policy [offHours 1 3 ⟨7⟩, large]).start
      request).firing large = some (3, 5, ⟨8⟩) := by decide +kernel
  have hle := (h ⟨4⟩ _ hreturned).1 large (by decide) _ hfires
  exact absurd hle (by decide)

end QfcServerWallet.Policy
