import QfcServerWallet.Policy.Precedence
import Mathlib.Data.Finset.Image

/-!
# The static allow and deny lists

`StaticAllowDenyPolicy` of `qfc-policy/src/static_policy.rs`, the policy engine without rules, and
how it compares with `RuleSetPolicy` where both only list chains. A payload without a chain passes
the static list of allowed chains, and is stopped by an `AllowChain` rule.

* A `HashSet` is a `Finset`. A rule lists its chains in a `Vec`: any list of the same chains.
* A check that returns early is an `Except Halt`, as a stage of `Policy.RuleSet` is.
* Requesters are listed by their key, which is theirs alone (`requesterKey_inj`).

Results: `checkRequester_ok_iff` and **`static_agrees_iff`**. Left out: `allow_all`, `deny_all`.
-/

namespace QfcServerWallet.Policy

open Lib

/-- The lists of the policy. -/
structure StaticAllowDenyPolicy where
  policyId : PolicyId
  allowedChains : Option (Finset UInt64)
  deniedChains : Finset UInt64
  allowedRequesters : Option (Finset String)
  deniedRequesters : Finset String
  walletInactive : Bool
  default : AllowDefault

namespace StaticAllowDenyPolicy

variable (p : StaticAllowDenyPolicy)

/-- Step 1. -/
def checkWallet : Except Halt Unit :=
  if p.walletInactive then
    stop [] "wallet-inactive" "wallet is frozen or revoked" .walletInactive
  else .ok ()

/-- Steps 2 and 3; a payload without a chain passes both. -/
def checkChain : Option UInt64 → Except Halt Unit
  | none => .ok ()
  | some chainId =>
    if chainId ∈ p.deniedChains then
      stop [] "denied-chain" ("chain " ++ toString chainId.toNat ++ " is denied") .chainDenied
    else
      match p.allowedChains with
      | none => .ok ()
      | some allow =>
        if chainId ∉ allow then
          stop [] "chain-not-on-allow-list"
            ("chain " ++ toString chainId.toNat ++ " not in allow list") .chainNotAllowed
        else .ok ()

/-- Steps 4 and 5. -/
def checkRequester (reqKey : String) : Except Halt Unit :=
  if reqKey ∈ p.deniedRequesters then
    stop [] "denied-requester" ("requester " ++ reqKey ++ " is denied") .requesterNotAllowed
  else
    match p.allowedRequesters with
    | none => .ok ()
    | some allow =>
      if reqKey ∉ allow then
        stop [] "requester-not-on-allow-list" ("requester " ++ reqKey ++ " not in allow list")
          .requesterNotAllowed
      else .ok ()

/-- Steps 1 to 5. -/
def checks (request : SigningRequest) : Except Halt Unit := do
  p.checkWallet
  p.checkChain request.payload.chainId
  p.checkRequester (requesterKey request.requester)

/-- Step 6. -/
def applyDefault (decisionId : DecisionId) : PolicyDecision :=
  match p.default with
  | .allow => .allow decisionId p.policyId
      (push [] "default-allow" .allow "no explicit deny matched; default is allow")
  | .deny => .deny decisionId p.policyId (.other "policy default")
      (push [] "default-deny" .deny "no explicit allow matched; default is deny")

/-- `StaticAllowDenyPolicy::evaluate` -/
def evaluate (decisionId : DecisionId) (request : SigningRequest) :
    Except PolicyError PolicyDecision :=
  match p.checks request with
  | .error h => h.result decisionId p.policyId
  | .ok () => .ok (p.applyDefault decisionId)

/-- The rules that list the same chains. -/
def chainRules (denied : List UInt64) (allowed : Option (List UInt64)) : List Rule :=
  .denyChain denied :: (allowed.map Rule.allowChain).toList

/-- The rule set that lists the same chains, with the same default. -/
def ruleSet (denied : List UInt64) (allowed : Option (List UInt64)) : RuleSet :=
  ⟨1, p.policyId, chainRules denied allowed, p.default⟩

end StaticAllowDenyPolicy

open StaticAllowDenyPolicy

/-! ## Requesters -/

/-- **Lists of keys list the requesters and nobody else.** -/
theorem checkRequester_ok_iff {p : StaticAllowDenyPolicy} {denied : Finset Requester}
    {allowed : Option (Finset Requester)}
    (hdenied : p.deniedRequesters = denied.image requesterKey)
    (hallowed : p.allowedRequesters = allowed.map (Finset.image requesterKey)) {r : Requester} :
    p.checkRequester (requesterKey r) = .ok () ↔
      r ∉ denied ∧ ∀ requesters ∈ allowed, r ∈ requesters := by
  have hlisted (requesters : Finset Requester) :
      requesterKey r ∈ requesters.image requesterKey ↔ r ∈ requesters :=
    Function.Injective.mem_finset_image fun _ _ => requesterKey_inj
  unfold checkRequester
  rw [hdenied, hallowed]
  simp only [hlisted]
  by_cases hr : r ∈ denied
  · simp [hr, stop]
  · cases allowed with
    | none => simp [hr]
    | some requesters => by_cases hr' : r ∈ requesters <;> simp [hr, hlisted, hr', stop]

/-- Two API keys are listed and one of them is denied: the other one passes, and an OAuth subject
with the same text does not. -/
theorem checkRequester_ok_apiKey :
    let p : StaticAllowDenyPolicy := ⟨⟨1⟩, none, ∅,
      some {requesterKey (.apiKey "ops"), requesterKey (.apiKey "eve")},
      {requesterKey (.apiKey "eve")}, false, .deny⟩
    p.checkRequester (requesterKey (.apiKey "ops")) = .ok () ∧
      p.checkRequester (requesterKey (.apiKey "eve")) ≠ .ok () ∧
      p.checkRequester (requesterKey (.oAuthSubject "ops")) ≠ .ok () := by
  intro p
  have hiff (r : Requester) := @checkRequester_ok_iff p {.apiKey "eve"}
    (some {.apiKey "ops", .apiKey "eve"}) rfl (by simp [p]) r
  exact ⟨(hiff _).2 (by simp), fun h => by simpa using (hiff _).1 h,
    fun h => by simpa using (hiff _).1 h⟩

/-! ## Chains -/

/-- The outcome where no list decides. -/
def defaultOutcome : AllowDefault → Outcome
  | .allow => .allow
  | .deny => .deny (.other "policy default")

/-- What the lists of chains decide; `chainless` is the outcome for a payload without a chain. -/
def StaticAllowDenyPolicy.chainOutcome (p : StaticAllowDenyPolicy) (chainless : Outcome) :
    Option UInt64 → Outcome
  | none => chainless
  | some chain =>
    if chain ∈ p.deniedChains then .deny .chainDenied
    else if ∃ allow ∈ p.allowedChains, chain ∉ allow then .deny .chainNotAllowed
    else defaultOutcome p.default

section Chains

variable {p : StaticAllowDenyPolicy} {denied : List UInt64} {allowed : Option (List UInt64)}

theorem outcome_static (hactive : p.walletInactive = false)
    (hdenied : p.deniedRequesters = ∅) (hallowed : p.allowedRequesters = none)
    (decisionId : DecisionId) (request : SigningRequest) :
    outcome (p.evaluate decisionId request) =
      some (p.chainOutcome (defaultOutcome p.default) request.payload.chainId) := by
  have hchecks : p.checks request = p.checkChain request.payload.chainId := by
    simp only [checks, checkWallet, hactive, checkRequester, hdenied, hallowed]
    cases p.checkChain request.payload.chainId <;> rfl
  have hdefault : outcome (.ok (p.applyDefault decisionId)) = some (defaultOutcome p.default) := by
    unfold StaticAllowDenyPolicy.applyDefault
    cases p.default <;> rfl
  rw [StaticAllowDenyPolicy.evaluate, hchecks]
  cases request.payload.chainId with
  | none => exact hdefault
  | some chain =>
    rw [chainOutcome, checkChain]
    by_cases hdeny : chain ∈ p.deniedChains
    · rw [if_pos hdeny, if_pos hdeny]
      rfl
    · rw [if_neg hdeny, if_neg hdeny]
      cases p.allowedChains with
      | none => simpa using hdefault
      | some allow =>
        by_cases hallow : chain ∈ allow
        · simpa [hallow] using hdefault
        · simp [hallow, stop, Halt.result, outcome]

theorem kind_of_mem_chainRules {r : Rule} (h : r ∈ chainRules denied allowed) :
    r.kind = .denyChain ∨ r.kind = .allowChain := by
  rcases List.mem_cons.1 h with rfl | h
  · exact .inl rfl
  · obtain ⟨chains, -, rfl⟩ : ∃ chains, allowed = some chains ∧ Rule.allowChain chains = r := by
      simpa using h
    exact .inr rfl

theorem rejects_chainRules_iff {ev : Evaluation} (hstart : ev.IsStart)
    (h : ev.rules = chainRules denied allowed) (stage : DenyStage) :
    ev.Rejects False stage ↔
      (stage = .denyChain ∧ ∃ chain, ev.chain = some chain ∧ chain ∈ denied) ∨
      (stage = .allowChain ∧ ∃ chains, allowed = some chains ∧
        ∀ chain, ev.chain = some chain → chain ∉ chains) := by
  cases stage with
  | denyChain =>
    rcases hstart with ⟨vm, chain, hvm, hchain⟩ | ⟨hvm, hchain⟩
    · cases allowed <;>
        simp [Evaluation.Rejects, Evaluation.Vetoed, h, hvm, hchain, chainRules, Rule.Forbids,
          Rule.kind]
    · simp [Evaluation.Rejects, Evaluation.Vetoed, hvm, hchain]
  | allowChain => cases allowed <;> simp [Evaluation.Rejects, h, chainRules]
  | _ =>
    refine iff_of_false (fun hrejects => ?_) (by simp)
    obtain ⟨r, hr, hkind⟩ := exists_kind_of_rejects hrejects
    rcases kind_of_mem_chainRules (h ▸ hr) with hk | hk <;> cases hk.symm.trans hkind

/-- The outcome of a rule set for a payload without a chain. -/
def StaticAllowDenyPolicy.chainlessOutcome (p : StaticAllowDenyPolicy) : Outcome :=
  match p.allowedChains with
  | none => defaultOutcome p.default
  | some _ => .deny .chainNotAllowed

theorem outcome_ruleSet (hdenied : denied.toFinset = p.deniedChains)
    (hallowed : allowed.map List.toFinset = p.allowedChains) (decoder : Option VmDecoder)
    (limiter : TokenBucketLimiter) (decisionId : DecisionId) (request : SigningRequest) :
    outcome (RuleSetPolicy.evaluate ⟨p.ruleSet denied allowed, decoder⟩ decisionId limiter
        request).1 =
      some (p.chainOutcome p.chainlessOutcome request.payload.chainId) := by
  have hvalid : validate (p.ruleSet denied allowed) = .ok () := by
    refine validate_ok_iff.2 ⟨rfl, fun r hr => ?_⟩
    cases r with
    | denyChain | allowChain => rfl
    | _ => rcases kind_of_mem_chainRules hr with hk | hk <;> cases hk
  have hclears : (¬ Clears request (p.ruleSet denied allowed).rules limiter) = False := by
    refine eq_false (not_not.2 (clears_of_kind (fun r hr hkind => ?_) limiter))
    rcases kind_of_mem_chainRules hr with hk | hk <;> cases hk.symm.trans hkind
  have hquorum (ev : Evaluation) :
      ¬ ∃ r ∈ (p.ruleSet denied allowed).rules, (ev.firing r).isSome = true := by
    rintro ⟨r, hr, hfires⟩
    cases r with
    | requireQuorum => rcases kind_of_mem_chainRules hr with hk | hk <;> cases hk
    | _ => cases hfires
  have hrejects (stage : DenyStage) := rejects_chainRules_iff
    (RuleSetPolicy.isStart ⟨p.ruleSet denied allowed, decoder⟩ request) rfl stage
  have hchain : (RuleSetPolicy.start ⟨p.ruleSet denied allowed, decoder⟩ request).chain
    = request.payload.chainId := rfl
  rw [outcome_evaluate hvalid, hclears, RuleSetPolicy.specifiedWith]
  simp only [hrejects, hchain, DenyStage.order, hquorum, if_false, chainlessOutcome, ← hallowed]
  cases request.payload.chainId with
  | none =>
    cases allowed with
    | none => cases hd : p.default <;> simp [chainOutcome, ruleSet, defaultOutcome, hd]
    | some chains => simp [chainOutcome, DenyStage.reason]
  | some chain =>
    simp only [chainOutcome, ← hdenied, ← hallowed, List.mem_toFinset, List.find?_cons,
      Option.some.injEq, exists_eq_left', forall_eq']
    by_cases hdeny : chain ∈ denied
    · simp [hdeny, DenyStage.reason]
    · cases allowed with
      | none => cases hd : p.default <;> simp [hdeny, defaultOutcome, ruleSet, hd]
      | some chains =>
        by_cases hallow : chain ∈ chains
        · cases hd : p.default <;>
            simp only [exists_eq_left', Option.some.injEq, hdeny, hallow, not_true_eq_false,
              and_false, reduceCtorEq, or_self, decide_false, List.find?_nil, ruleSet, hd,
              if_false, Option.map_some, Option.mem_def, List.mem_toFinset, defaultOutcome]
        · simp only [exists_eq_left', Option.some.injEq, hdeny, hallow, not_false_eq_true,
            and_false, and_true, reduceCtorEq, or_self, or_true, decide_false, decide_true,
            DenyStage.reason, if_true, if_false, Option.map_some, Option.mem_def,
            List.mem_toFinset]

/-- **The two engines agree on a request exactly when it has a chain or no chains are required.** -/
theorem static_agrees_iff (hactive : p.walletInactive = false)
    (hdeniedRequesters : p.deniedRequesters = ∅) (hallowedRequesters : p.allowedRequesters = none)
    (hdenied : denied.toFinset = p.deniedChains)
    (hallowed : allowed.map List.toFinset = p.allowedChains) (decoder : Option VmDecoder)
    (limiter : TokenBucketLimiter) (decisionId decisionId' : DecisionId)
    (request : SigningRequest) :
    outcome (p.evaluate decisionId request) =
        outcome (RuleSetPolicy.evaluate ⟨p.ruleSet denied allowed, decoder⟩ decisionId' limiter
          request).1 ↔
      request.payload.chainId ≠ none ∨ p.allowedChains = none := by
  rw [outcome_static hactive hdeniedRequesters hallowedRequesters, outcome_ruleSet hdenied hallowed,
    Option.some.injEq]
  cases request.payload.chainId with
  | some chain => simp [chainOutcome]
  | none =>
    rw [chainOutcome, chainOutcome, chainlessOutcome]
    cases p.allowedChains with
    | none => simp
    | some allow => cases p.default <;> simp [defaultOutcome]

end Chains

/-! ### A message to sign, where only chain one is allowed -/

namespace OneChain

/-- Chain 1 is allowed. -/
def policy : StaticAllowDenyPolicy := ⟨⟨1⟩, some {1}, ∅, none, ∅, false, .allow⟩

/-- A request with the payload. -/
def request (payload : SigningPayload) : SigningRequest :=
  ⟨⟨2⟩, ⟨3⟩, .apiKey "alice", payload, none, 0⟩

/-- No bucket has been used. -/
def limiter : TokenBucketLimiter := ⟨fun _ => none, Stream'.const 0⟩

/-- The rule set that lists the same chain. -/
def rules : RuleSetPolicy := ⟨policy.ruleSet [] (some [1]), none⟩

end OneChain

open OneChain in
/-- A transaction on another chain: both engines deny it. -/
theorem static_agrees_transaction :
    outcome (policy.evaluate ⟨4⟩ (request (.vmTransaction .evm 2 none []))) =
      outcome (rules.evaluate ⟨5⟩ limiter
        (request (.vmTransaction .evm 2 none []))).1 :=
  (static_agrees_iff rfl rfl rfl rfl rfl none limiter ⟨4⟩ ⟨5⟩ _).2 (.inl nofun)

open OneChain in
/-- A raw message is allowed by the one and denied by the other. -/
theorem static_disagrees_raw :
    outcome (policy.evaluate ⟨4⟩ (request (.raw [0x2a]))) = some .allow ∧
      outcome (rules.evaluate ⟨5⟩ limiter (request (.raw [0x2a]))).1 =
        some (.deny .chainNotAllowed) := by
  decide

end QfcServerWallet.Policy
