import QfcServerWallet.Policy.RateLimit

/-!
# Evaluating a rule set

`RuleSetPolicy::evaluate` of `qfc-policy/src/rule_set_policy.rs`: eleven stages in a fixed order,
each of which lets the request pass or ends the evaluation.

* A stage that returns early is an `Except Halt`; `Halt` has no constructor for an allow, so that
  only the default at the end can allow a request. The filters (stages 3 to 5) also extend the
  rationale when the request passes.
* `for rule in rules { … return … }` is `List.forM` over the loop's body.
* Stage 8 is the only one with a state, the limiter. It is threaded through and keeps what earlier
  rules took when a later one ends the evaluation.
* The fresh `DecisionId` is an argument.

Result: `value_le_of_allows`.
-/

namespace QfcServerWallet.Policy

open Lib

/-- How a stage ends the evaluation. -/
inductive Halt where
  | deny (reason : DenyReason) (rationale : List RuleHit)
  | quorum (threshold total : UInt8) (approverSet : ApproverSetId) (rationale : List RuleHit)
  | fail (e : PolicyError)
  deriving DecidableEq

/-- The evaluation ended with a deny. -/
def Halt.isDeny : Halt → Bool
  | deny .. => true
  | _ => false

/-- The value `evaluate` returns then. -/
def Halt.result (decisionId : DecisionId) (policyId : PolicyId) :
    Halt → Except PolicyError PolicyDecision
  | deny reason rationale => .ok (.deny decisionId policyId reason rationale)
  | quorum threshold total approverSet rationale =>
    .ok (.requireQuorum decisionId policyId threshold total approverSet rationale)
  | fail e => .error e

/-- A rule set with the decoder it is evaluated with. The limiter is passed separately. -/
structure RuleSetPolicy where
  rules : RuleSet
  decoder : Option VmDecoder

/-- What `evaluate` reads before its stages. -/
structure Evaluation where
  rules : List Rule
  request : SigningRequest
  chain : Option UInt64
  toAddr : Option Bytes
  vm : Option VmType
  decoded : Option DecodedTx

/-- The raw bytes the decoder is given. -/
def SigningPayload.rawBytes : SigningPayload → Bytes
  | .vmTransaction _ _ _ bytes => bytes
  | _ => []

/-- The decoded view; only a transaction has one. -/
def RuleSetPolicy.decode (p : RuleSetPolicy) (payload : SigningPayload) : Option DecodedTx :=
  match p.decoder, payload.vm with
  | some dec, some vm => dec vm payload.rawBytes
  | _, _ => none

/-- What the stages read. -/
def RuleSetPolicy.start (p : RuleSetPolicy) (request : SigningRequest) : Evaluation where
  rules := p.rules.rules
  request := request
  chain := request.payload.chainId
  toAddr := request.payload.toAddr
  vm := request.payload.vm
  decoded := p.decode request.payload

/-- One more entry of the rationale. -/
def push (rationale : List RuleHit) (ruleId : String) (effect : RuleEffect) (reason : String) :
    List RuleHit :=
  rationale ++ [⟨ruleId, effect, some reason⟩]

/-- `push` a deny and return it. -/
def stop {α : Type} (rationale : List RuleHit) (ruleId text : String) (reason : DenyReason) :
    Except Halt α :=
  .error (.deny reason (push rationale ruleId .deny text))

/-- An allow list: if any entry applies, one has to match. -/
def filterStage (ruleId denied allowed : String) (reason : DenyReason) (applies matched : Bool)
    (rationale : List RuleHit) : Except Halt (List RuleHit) :=
  if applies then
    if matched then .ok (push rationale ruleId .allow allowed)
    else stop rationale ruleId denied reason
  else .ok rationale

namespace Evaluation

variable (ev : Evaluation)

/-! ## Stages 1 to 7 -/

/-- Stage 1. -/
def denyChain (rationale : List RuleHit) : Except Halt Unit :=
  match ev.chain with
  | none => .ok ()
  | some chain => ev.rules.forM fun
    | .denyChain chainIds =>
      if chain ∈ chainIds then
        stop rationale "deny-chain" ("chain " ++ toString chain.toNat ++ " is on deny list")
          .chainDenied
      else .ok ()
    | _ => .ok ()

/-- Stage 2. -/
def denyContract (rationale : List RuleHit) : Except Halt Unit :=
  match ev.chain, ev.toAddr with
  | some chain, some toAddr => ev.rules.forM fun
    | .denyContract chainId addresses =>
      if chainId = chain ∧ addressIn addresses toAddr = true then
        stop rationale "deny-contract" "contract address is on deny list"
          (.other "contract denied")
      else .ok ()
    | _ => .ok ()
  | _, _ => .ok ()

/-- The request's chain is in an `AllowChain` rule. -/
def chainAllowed : Bool :=
  match ev.chain with
  | none => false
  | some c => ev.rules.any fun
    | .allowChain chainIds => decide (c ∈ chainIds)
    | _ => false

/-- Stage 3. -/
def allowChainFilter (rationale : List RuleHit) : Except Halt (List RuleHit) :=
  let anyAllowChain := ev.rules.any fun | .allowChain _ => true | _ => false
  filterStage "allow-chain-filter" "chain not present in any allow_chain rule"
    "chain present in allow_chain rule" .chainNotAllowed anyAllowChain ev.chainAllowed rationale

/-- The request's recipient is in an `AllowContract` rule of the chain. -/
def contractAllowed (chain : UInt64) : Bool :=
  match ev.toAddr with
  | none => false
  | some toAddr => ev.rules.any fun
    | .allowContract chainId addresses => decide (chainId = chain) && addressIn addresses toAddr
    | _ => false

/-- Stage 4. -/
def allowContractFilter (rationale : List RuleHit) : Except Halt (List RuleHit) :=
  match ev.chain with
  | none => .ok rationale
  | some chain =>
    let anyForChain := ev.rules.any fun
      | .allowContract chainId _ => decide (chainId = chain)
      | _ => false
    filterStage "allow-contract-filter" "contract not on allow list for chain"
      "contract on allow list" (.other "contract not on allow list") anyForChain
      (ev.contractAllowed chain) rationale

/-- An `AllowMethod` rule applies to the request's chain and recipient. -/
def methodRuleApplies (chain : UInt64) : Rule → Bool
  | .allowMethod chainId contract _ =>
    decide (chainId = chain) &&
      match contract, ev.toAddr with
      | none, _ => true
      | some addr, some toAddr => addressEq addr toAddr
      | some _, none => false
  | _ => false

/-- A configured selector is the decoded one. -/
def selectorListed (selectors : List String) (sel : FixedBytes 4) : Bool :=
  selectors.any fun s => decide (hexToBytes s = some sel.bytes)

/-- Stage 5. -/
def allowMethodFilter (rationale : List RuleHit) : Except Halt (List RuleHit) :=
  match ev.chain with
  | none => .ok rationale
  | some chain =>
    let applicable := ev.rules.filter (ev.methodRuleApplies chain)
    let matched := match ev.decoded.bind DecodedTx.methodSelector with
      | none => false
      | some sel => applicable.any fun
        | .allowMethod _ _ selectors => selectorListed selectors sel
        | _ => false
    filterStage "allow-method-filter" "method selector not on allow list (or missing decoder)"
      "method selector on allow list" (.other "method not allowed") (!applicable.isEmpty) matched
      rationale

/-- Stage 6. -/
def valueCap (rationale : List RuleHit) : Except Halt Unit :=
  match ev.chain with
  | none => .ok ()
  | some chain =>
    let reqValue := ev.decoded.bind DecodedTx.value
    ev.rules.forM fun
      | .valueCap chainId maxValue =>
        if chainId ≠ chain then .ok ()
        else match parseU256 maxValue with
          | none => .error (.fail (.misconfiguration "invalid U256 in value_cap"))
          | some max =>
            match reqValue with
            | some v =>
              if v > max then
                stop rationale "value-cap" "transaction value exceeds cap"
                  (.other "value cap exceeded")
              else .ok ()
            -- the cap is skipped when there is no decoded value
            | none => .ok ()
      | _ => .ok ()

/-- Stage 7. -/
def timeWindow (rationale : List RuleHit) : Except Halt Unit :=
  ev.rules.forM fun
    | .timeWindow mask hourStart hourEnd =>
      if timeWindowContains ev.request.receivedAtUnixMs mask hourStart hourEnd then .ok ()
      else stop rationale "time-window" "request outside permitted UTC time window"
        (.other "outside time window")
    | _ => .ok ()

/-- The stages before the limiter; the result is the rationale so far. -/
def beforeLimit : Except Halt (List RuleHit) := do
  ev.denyChain []
  ev.denyContract []
  let rationale ← ev.allowChainFilter []
  let rationale ← ev.allowContractFilter rationale
  let rationale ← ev.allowMethodFilter rationale
  ev.valueCap rationale
  ev.timeWindow rationale
  .ok rationale

/-! ## Stage 8 -/

/-- Each `RateLimit` rule takes a token from its bucket, until one has none left. -/
def rateLimit (rationale : List RuleHit) :
    List Rule → TokenBucketLimiter → Except Halt Unit × TokenBucketLimiter
  | [], limiter => (.ok (), limiter)
  | .rateLimit tokens refillPerSecs scope :: rules, limiter =>
    match limiter.tryAcquire (rateLimitKey scope ev.request) tokens refillPerSecs with
    | (true, limiter) => rateLimit rationale rules limiter
    | (false, limiter) =>
      (stop rationale "rate-limit" "token-bucket exhausted" (.other "rate limited"), limiter)
  | _ :: rules, limiter => rateLimit rationale rules limiter

/-! ## Stages 9 to 11 -/

/-- The value bound of a shape. -/
def shapeValue (rationale : List RuleHit) : Option String → Except Halt Unit
  | none => .ok ()
  | some maxValue =>
    match parseU256 maxValue with
    | none => .error (.fail (.misconfiguration "invalid U256 in vm_shape.max_value"))
    | some max =>
      match ev.decoded.bind DecodedTx.value with
      | some v =>
        if v > max then
          stop rationale "vm-shape-max-value" "vm_shape.max_value exceeded"
            (.other "vm-shape constraint")
        else .ok ()
      | none => .ok ()

/-- The gas bound of a shape. -/
def shapeGas (rationale : List RuleHit) (maxGas : Option UInt64) : Except Halt Unit :=
  match maxGas, ev.decoded.bind DecodedTx.gasLimit with
  | some maxGas, some g =>
    if g > maxGas then
      stop rationale "vm-shape-max-gas" "vm_shape.max_gas exceeded" (.other "vm-shape constraint")
    else .ok ()
  | _, _ => .ok ()

/-- The selectors of a shape. -/
def shapeSelector (rationale : List RuleHit) (allowed : Option (List String)) :
    Except Halt Unit :=
  match allowed, ev.decoded.bind DecodedTx.methodSelector with
  | some allowed, some sel =>
    if selectorListed allowed sel then .ok ()
    else
      stop rationale "vm-shape-method" "vm_shape selector not allowed"
        (.other "vm-shape constraint")
  | _, _ => .ok ()

/-- The three ways a `VmShape` rule can be violated. -/
def checkShape (rationale : List RuleHit) (constraints : VmShapeConstraints) :
    Except Halt Unit := do
  ev.shapeValue rationale constraints.maxValue
  ev.shapeGas rationale constraints.maxGas
  ev.shapeSelector rationale constraints.allowedMethodSelectors

/-- Stage 9. -/
def vmShape (rationale : List RuleHit) : Except Halt Unit :=
  match ev.vm with
  | none => .ok ()
  | some reqVm => ev.rules.forM fun
    | .vmShape vm constraints =>
      if vm ≠ reqVm then .ok () else ev.checkShape rationale constraints
    | _ => .ok ()

/-- The trigger of a quorum rule fires. -/
def fires : QuorumTrigger → Except Halt Bool
  | .always => .ok true
  | .valueGte chainId value =>
    match parseU256 value with
    | none => .error (.fail (.misconfiguration "invalid U256 in quorum value_gte trigger"))
    | some thresh =>
      match ev.chain, ev.decoded.bind DecodedTx.value with
      | some c, some v => .ok (decide (c = chainId) && decide (v ≥ thresh))
      | _, _ => .ok false
  | .outsideTimeWindow mask hourStart hourEnd =>
    .ok (!timeWindowContains ev.request.receivedAtUnixMs mask hourStart hourEnd)

/-- Stage 10. -/
def requireQuorum (rationale : List RuleHit) : Except Halt Unit :=
  ev.rules.forM fun
    | .requireQuorum threshold total approverSet trigger => do
      let fired ← ev.fires trigger
      if fired then
        .error (.quorum threshold total approverSet
          (push rationale "require-quorum" .requireQuorum "quorum trigger matched"))
      else .ok ()
    | _ => .ok ()

/-- The stages after the limiter. -/
def afterLimit (rationale : List RuleHit) : Except Halt Unit := do
  ev.vmShape rationale
  ev.requireQuorum rationale

end Evaluation

/-- Stage 11. -/
def applyDefault (decisionId : DecisionId) (policyId : PolicyId) (rationale : List RuleHit) :
    AllowDefault → PolicyDecision
  | .allow => .allow decisionId policyId
      (push rationale "default-allow" .allow "no terminating rule matched; default is allow")
  | .deny => .deny decisionId policyId (.other "policy default")
      (push rationale "default-deny" .deny "no terminating rule matched; default is deny")

/-- `RuleSetPolicy::evaluate`, with the limiter it leaves. -/
def RuleSetPolicy.evaluate (p : RuleSetPolicy) (decisionId : DecisionId)
    (limiter : TokenBucketLimiter) (request : SigningRequest) :
    Except PolicyError PolicyDecision × TokenBucketLimiter :=
  let ev := p.start request
  let policyId := p.rules.policyId
  match ev.beforeLimit with
  | .error h => (h.result decisionId policyId, limiter)
  | .ok rationale =>
    match ev.rateLimit rationale ev.rules limiter with
    | (.error h, limiter) => (h.result decisionId policyId, limiter)
    | (.ok (), limiter) =>
      match ev.afterLimit rationale with
      | .error h => (h.result decisionId policyId, limiter)
      | .ok () => (.ok (applyDefault decisionId policyId rationale p.rules.default), limiter)

/-- The evaluation returned an allow. -/
def allows : Except PolicyError PolicyDecision → Bool
  | .ok x => x.isImmediateAllow
  | .error _ => false

/-- The evaluation returned a deny. -/
def denies : Except PolicyError PolicyDecision → Bool
  | .ok x => x.isDeny
  | .error _ => false

/-! ## An allowed request -/

theorem not_denies_of_allows {x : Except PolicyError PolicyDecision} (h : allows x = true) :
    ¬ denies x = true := by
  rcases x with e | x
  · cases h
  · cases x with
    | allow => exact nofun
    | _ => cases h

theorem allows_result {decisionId : DecisionId} (h : Halt) (policyId : PolicyId) :
    allows (h.result decisionId policyId) = false := by
  cases h <;> rfl

/-- **An allowed value is within the cap for its chain**, whatever the other rules are. -/
theorem value_le_of_allows {p : RuleSetPolicy} {decisionId : DecisionId}
    {limiter : TokenBucketLimiter} {request : SigningRequest} {chain : UInt64} {mx : String}
    {m v : U256} (hchain : (p.start request).chain = some chain)
    (hvalue : (p.start request).decoded.bind DecodedTx.value = some v)
    (hm : parseU256 mx = some m) (hrule : Rule.valueCap chain mx ∈ p.rules.rules)
    (h : allows (p.evaluate decisionId limiter request).1 = true) : v ≤ m := by
  unfold RuleSetPolicy.evaluate at h
  cases hb : (p.start request).beforeLimit with
  | error halt => simp [hb, allows_result] at h
  | ok rationale =>
    simp only [Evaluation.beforeLimit, bind_eq_ok, Except.ok.injEq] at hb
    obtain ⟨_, -, _, -, _, -, _, -, rationale, -, ⟨⟩, hcap, -⟩ := hb
    simp only [Evaluation.valueCap, hchain, hvalue, forM_eq_ok] at hcap
    have hrule := hcap _ hrule
    simp only [ne_eq, not_true_eq_false, if_false, hm, stop] at hrule
    split_ifs at hrule with hle
    exact BitVec.not_lt.1 hle

end QfcServerWallet.Policy
