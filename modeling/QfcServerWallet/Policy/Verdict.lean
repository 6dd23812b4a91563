import QfcServerWallet.Policy.RuleSet

/-!
# What an evaluation returns

The module doc of `rule_set_policy.rs` gives a fixed order of eleven stages and says that operators
configure the contents of the rule list, not its order. `specifiedWith` is that order as a function
of the *set* of rules: the first of nine stages that rejects the request denies it, then a quorum
trigger that fires asks for a quorum, then the default applies.

* `Rejects` says of each stage when the rules of its kind turn a request down. The allow lists
  (stages 3 to 5) reject when a rule applies and none matches, the others when one rule forbids.
* Stage 8 takes a token for each rule, in the order of the list; `Clears` is what it lets through.
* Stage 10 returns the first quorum rule whose trigger fires.

Results: `decides_forM`, `Follows.bind`, **`outcome_evaluate`**, `allows_iff` and `denies_iff`.
-/

namespace QfcServerWallet.Policy

open Lib

/-! ## The specification -/

/-- Some entry of the list denotes these bytes. -/
def Lists (addresses : List String) (b : Bytes) : Prop := ∃ a ∈ addresses, hexToBytes a = some b

/-- The decoded value is above the bound. -/
def Exceeds (decoded : Option DecodedTx) (mx : String) : Prop :=
  ∃ m v, parseU256 mx = some m ∧ decoded.bind DecodedTx.value = some v ∧ m < v

/-- The rule forbids the transaction with this declaration and this decoded view. -/
def Rule.Forbids (vm : VmType) (chain : UInt64) (toAddr : Option Bytes)
    (decoded : Option DecodedTx) : Rule → Prop
  | denyChain chainIds => chain ∈ chainIds
  | denyContract chainId addresses => chainId = chain ∧ ∃ b, toAddr = some b ∧ Lists addresses b
  | valueCap chainId mx => chainId = chain ∧ Exceeds decoded mx
  | vmShape vm' constraints => vm' = vm ∧
      ((∃ mx, constraints.maxValue = some mx ∧ Exceeds decoded mx) ∨
        (∃ mx g, constraints.maxGas = some mx ∧ decoded.bind DecodedTx.gasLimit = some g ∧ mx < g) ∨
        ∃ selectors sel, constraints.allowedMethodSelectors = some selectors ∧
          decoded.bind DecodedTx.methodSelector = some sel ∧ ¬ Lists selectors sel.bytes)
  | _ => False

/-- The stages that can deny. -/
inductive DenyStage where
  | denyChain
  | denyContract
  | allowChain
  | allowContract
  | allowMethod
  | valueCap
  | timeWindow
  | rateLimit
  | vmShape
  deriving DecidableEq, Repr

/-- The documented order. -/
def DenyStage.order : List DenyStage :=
  [denyChain, denyContract, allowChain, allowContract, allowMethod, valueCap, timeWindow,
    rateLimit, vmShape]

/-- What the evaluator says when the stage denies. -/
def DenyStage.reason : DenyStage → DenyReason
  | denyChain => .chainDenied
  | denyContract => .other "contract denied"
  | allowChain => .chainNotAllowed
  | allowContract => .other "contract not on allow list"
  | allowMethod => .other "method not allowed"
  | valueCap => .other "value cap exceeded"
  | timeWindow => .other "outside time window"
  | rateLimit => .other "rate limited"
  | vmShape => .other "vm-shape constraint"

/-- The rules that the stage is about. -/
def DenyStage.kind : DenyStage → RuleKind
  | denyChain => .denyChain
  | denyContract => .denyContract
  | allowChain => .allowChain
  | allowContract => .allowContract
  | allowMethod => .allowMethod
  | valueCap => .valueCap
  | timeWindow => .timeWindow
  | rateLimit => .rateLimit
  | vmShape => .vmShape

namespace Evaluation

variable (ev : Evaluation)

/-- A rule of this kind forbids the transaction. -/
def Vetoed (kind : RuleKind) : Prop :=
  ∃ vm chain, ev.vm = some vm ∧ ev.chain = some chain ∧
    ∃ r ∈ ev.rules, r.kind = kind ∧ r.Forbids vm chain ev.toAddr ev.decoded

/-- The rules of the stage turn the request down, when `limited` says it for the rate limits. -/
def Rejects (limited : Prop) : DenyStage → Prop
  | .denyChain => ev.Vetoed .denyChain
  | .denyContract => ev.Vetoed .denyContract
  | .allowChain =>
    (∃ chainIds, .allowChain chainIds ∈ ev.rules) ∧
      ¬ ∃ chain chainIds, ev.chain = some chain ∧ .allowChain chainIds ∈ ev.rules ∧
        chain ∈ chainIds
  | .allowContract => ∃ chain, ev.chain = some chain ∧
      (∃ addresses, .allowContract chain addresses ∈ ev.rules) ∧
      ¬ ∃ addresses b, .allowContract chain addresses ∈ ev.rules ∧ ev.toAddr = some b ∧
        Lists addresses b
  | .allowMethod => ∃ chain, ev.chain = some chain ∧
      (∃ r ∈ ev.rules, ev.methodRuleApplies chain r = true) ∧
      ¬ ∃ contract selectors sel, .allowMethod chain contract selectors ∈ ev.rules ∧
        ev.methodRuleApplies chain (.allowMethod chain contract selectors) = true ∧
        ev.decoded.bind DecodedTx.methodSelector = some sel ∧ Lists selectors sel.bytes
  | .valueCap => ev.Vetoed .valueCap
  | .timeWindow => ∃ mask hourStart hourEnd, .timeWindow mask hourStart hourEnd ∈ ev.rules ∧
      timeWindowContains ev.request.receivedAtUnixMs mask hourStart hourEnd = false
  | .rateLimit => limited
  | .vmShape => ev.Vetoed .vmShape

/-- What a quorum rule asks for, if its trigger fires. -/
def firing : Rule → Option (UInt8 × UInt8 × ApproverSetId)
  | .requireQuorum threshold total approverSet trigger =>
    if ev.fires trigger = .ok true then some (threshold, total, approverSet) else none
  | _ => none

end Evaluation

open Evaluation

/-- The kind of a decision, and the reason of a deny. -/
inductive Outcome where
  | allow
  | deny (reason : DenyReason)
  | quorum
  deriving DecidableEq

/-- The outcome of an evaluation that returned a decision. -/
def outcome : Except PolicyError PolicyDecision → Option Outcome
  | .ok (.allow ..) => some .allow
  | .ok (.deny _ _ reason _) => some (.deny reason)
  | .ok (.requireQuorum ..) => some .quorum
  | .error _ => none

open Classical in
/-- The outcome that is documented, when `limited` says whether the rate limits turn the request
down. It depends on the rules only through which ones there are. -/
noncomputable def RuleSetPolicy.specifiedWith (p : RuleSetPolicy) (limited : Prop)
    (request : SigningRequest) : Outcome :=
  let ev := p.start request
  match DenyStage.order.find? fun stage => ev.Rejects limited stage with
  | some stage => .deny stage.reason
  | none =>
    if ∃ r ∈ p.rules.rules, (ev.firing r).isSome = true then .quorum
    else match p.rules.default with
      | .allow => .allow
      | .deny => .deny (.other "policy default")

/-! ## Stages that decide as specified -/

/-- The stage denies for this reason. -/
def Halt.DeniesFor (reason : DenyReason) (h : Halt) : Prop :=
  ∃ rationale, h = .deny reason rationale

/-- The stage denies for its reason iff it is to reject. -/
def Decides {α : Type} (stage : DenyStage) (rejects : Prop) (x : Except Halt α) : Prop :=
  ((∃ a, x = .ok a) ↔ ¬ rejects) ∧ ∀ h, x = .error h → h.DeniesFor stage.reason

section Decides

variable {α : Type} {stage : DenyStage} {rejects rejects' : Prop} {x : Except Halt α}
  {rationale : List RuleHit} {ruleId text : String}

theorem Decides.congr (h : Decides stage rejects x) (hiff : rejects ↔ rejects') :
    Decides stage rejects' x :=
  ⟨h.1.trans (not_congr hiff), h.2⟩

theorem Decides.isDeny (hx : Decides stage rejects x) {h : Halt} (hstop : x = .error h) :
    h.isDeny = true := by
  obtain ⟨_, rfl⟩ := hx.2 h hstop
  rfl

theorem decides_pass (h : ¬ rejects) {a : α} : Decides stage rejects (.ok a) :=
  ⟨iff_of_true ⟨a, rfl⟩ h, nofun⟩

theorem decides_stop (h : rejects) :
    Decides stage rejects (stop rationale ruleId text stage.reason : Except Halt α) :=
  ⟨iff_of_false nofun (not_not.2 h), fun _ hstop => ⟨_, (Except.error.inj hstop).symm⟩⟩

theorem decides_ite [Decidable rejects] {a : α} :
    Decides stage rejects (if rejects then stop rationale ruleId text stage.reason else .ok a) := by
  split
  · next h => exact decides_stop h
  · next h => exact decides_pass h

theorem Decides.seq (hx : Decides stage rejects x) {y : Except Halt Unit}
    (hy : Decides stage rejects' y) : Decides stage (rejects ∨ rejects') (x >>= fun _ => y) := by
  cases x with
  | error h =>
    have hrejects : rejects := not_not.1 (hx.1.not.1 nofun)
    refine ⟨iff_of_false nofun (not_not.2 (.inl hrejects)), fun _ hstop => ?_⟩
    cases hstop
    exact hx.2 h rfl
  | ok a => exact hy.congr (or_iff_right (hx.1.1 ⟨a, rfl⟩)).symm

/-- A loop over the rules rejects iff one of them does. -/
theorem decides_forM {rules : List Rule} {check : Rule → Except Halt Unit} {forbids : Rule → Prop}
    (h : ∀ r ∈ rules, Decides stage (forbids r) (check r)) :
    Decides stage (∃ r ∈ rules, forbids r) (rules.forM check) := by
  induction rules with
  | nil => exact decides_pass (by simp)
  | cons r rules ih =>
    obtain ⟨hr, hrules⟩ := List.forall_mem_cons.1 h
    exact (hr.seq (ih hrules)).congr (by simp)

theorem decides_filterStage {denied allowed : String} {applies matched : Bool} :
    Decides stage (applies = true ∧ ¬ matched = true)
      (filterStage ruleId denied allowed stage.reason applies matched rationale) := by
  unfold filterStage
  cases applies with
  | false => exact decides_pass (by simp)
  | true =>
    cases matched with
    | false => exact decides_stop (by simp)
    | true => exact decides_pass (by simp)

end Decides

section Stages

variable {ev : Evaluation} {rationale : List RuleHit}

/-- A request has a chain and a virtual machine, or neither. -/
def Evaluation.IsStart (ev : Evaluation) : Prop :=
  (∃ vm chain, ev.vm = some vm ∧ ev.chain = some chain) ∨ (ev.vm = none ∧ ev.chain = none)

theorem RuleSetPolicy.isStart (p : RuleSetPolicy) (request : SigningRequest) :
    (p.start request).IsStart := by
  cases hp : request.payload with
  | vmTransaction vm chain _ _ =>
    exact .inl ⟨vm, chain, by simp only [start, hp, SigningPayload.vm],
      by simp only [start, hp, SigningPayload.chainId]⟩
  | _ => exact .inr ⟨by simp only [start, hp, SigningPayload.vm],
      by simp only [start, hp, SigningPayload.chainId]⟩

theorem decides_vetoed {x : Except Halt Unit} {stage : DenyStage} {kind : RuleKind}
    (hstart : ev.IsStart) (hnone : ev.vm = none → ev.chain = none → x = .ok ())
    (hsome : ∀ vm chain, ev.vm = some vm → ev.chain = some chain → Decides stage
      (∃ r ∈ ev.rules, r.kind = kind ∧ r.Forbids vm chain ev.toAddr ev.decoded) x) :
    Decides stage (ev.Vetoed kind) x := by
  rcases hstart with ⟨vm, chain, hvm, hchain⟩ | ⟨hvm, hchain⟩
  · simpa [Evaluation.Vetoed, hvm, hchain] using hsome vm chain hvm hchain
  · rw [hnone hvm hchain]
    exact decides_pass (by simp [Evaluation.Vetoed, hvm])

theorem denyChain_decides (hstart : ev.IsStart) :
    Decides .denyChain (ev.Vetoed .denyChain) (ev.denyChain rationale) := by
  refine decides_vetoed hstart (fun _ hchain => by rw [denyChain, hchain])
    fun vm chain _ hchain => ?_
  rw [denyChain, hchain]
  refine decides_forM fun r _ => ?_
  cases r with
  | denyChain chainIds => exact decides_ite.congr (and_iff_right rfl).symm
  | _ => exact decides_pass fun h => by cases h.1

theorem denyContract_decides (hstart : ev.IsStart) :
    Decides .denyContract (ev.Vetoed .denyContract) (ev.denyContract rationale) := by
  refine decides_vetoed hstart (fun _ hchain => by rw [denyContract, hchain])
    fun vm chain _ hchain => ?_
  rw [denyContract, hchain]
  cases ev.toAddr with
  | none =>
    refine decides_pass ?_
    rintro ⟨r, -, hkind, hforbids⟩
    cases r with
    | denyContract => obtain ⟨-, b, hb, -⟩ := hforbids; cases hb
    | _ => cases hkind
  | some toAddr =>
    refine decides_forM fun r _ => ?_
    cases r with
    | denyContract chainId addresses =>
      exact decides_ite.congr (by simp [Rule.kind, Rule.Forbids, addressIn_iff, Lists])
    | _ => exact decides_pass fun h => by cases h.1

/-- A bound on the decoded value, where the bound can be read. -/
theorem decides_exceeds {stage : DenyStage} {mx ruleId text : String} {m : U256}
    (hm : parseU256 mx = some m) :
    Decides stage (Exceeds ev.decoded mx) (match ev.decoded.bind DecodedTx.value with
      | some v => if v > m then stop rationale ruleId text stage.reason else .ok ()
      | none => .ok ()) := by
  unfold Exceeds
  cases ev.decoded.bind DecodedTx.value with
  | none => exact decides_pass (by simp)
  | some v => exact decides_ite.congr (by simp [hm])

theorem valueCap_decides (hstart : ev.IsStart)
    (hvalid : ∀ r ∈ ev.rules, validateRule r = .ok ()) :
    Decides .valueCap (ev.Vetoed .valueCap) (ev.valueCap rationale) := by
  refine decides_vetoed hstart (fun _ hchain => by rw [valueCap, hchain])
    fun vm chain _ hchain => ?_
  rw [valueCap, hchain]
  refine decides_forM fun r hr => ?_
  cases r with
  | valueCap chainId mx =>
    obtain ⟨m, hm⟩ := validateRule_valueCap_iff.1 (hvalid _ hr)
    simp only [hm, Rule.kind, Rule.Forbids, true_and]
    split
    · next hid => exact decides_pass fun h => hid h.1
    · next hid => exact (decides_exceeds hm).congr (and_iff_right (not_not.1 hid)).symm
  | _ => exact decides_pass fun h => by cases h.1

theorem selectorListed_iff {selectors : List String} {sel : FixedBytes 4} :
    selectorListed selectors sel = true ↔ Lists selectors sel.bytes := by
  simp [selectorListed, Lists]

theorem shapeValue_decides {maxValue : Option String}
    (hvalid : ∀ mx, maxValue = some mx → ∃ m, parseU256 mx = some m) :
    Decides .vmShape (∃ mx, maxValue = some mx ∧ Exceeds ev.decoded mx)
      (ev.shapeValue rationale maxValue) := by
  cases maxValue with
  | none => exact decides_pass (by simp)
  | some mx =>
    obtain ⟨m, hm⟩ := hvalid mx rfl
    simp only [shapeValue, hm]
    exact (decides_exceeds hm).congr (by simp)

theorem shapeGas_decides {maxGas : Option UInt64} :
    Decides .vmShape (∃ mx g, maxGas = some mx ∧ ev.decoded.bind DecodedTx.gasLimit = some g ∧
      mx < g) (ev.shapeGas rationale maxGas) := by
  unfold shapeGas
  split
  · next hgas => exact decides_ite.congr (by simp [hgas])
  · next hnone =>
    refine decides_pass ?_
    rintro ⟨mx, g, rfl, hg, -⟩
    exact hnone mx g rfl hg

theorem shapeSelector_decides {allowed : Option (List String)} :
    Decides .vmShape (∃ selectors sel, allowed = some selectors ∧
      ev.decoded.bind DecodedTx.methodSelector = some sel ∧ ¬ Lists selectors sel.bytes)
      (ev.shapeSelector rationale allowed) := by
  unfold shapeSelector
  split
  · next selectors sel hsel =>
    rw [← ite_not]
    exact decides_ite.congr (by simp [hsel, selectorListed_iff])
  · next hnone =>
    refine decides_pass ?_
    rintro ⟨selectors, sel, rfl, hsel, -⟩
    exact hnone selectors sel rfl hsel

theorem vmShape_decides (hstart : ev.IsStart)
    (hvalid : ∀ r ∈ ev.rules, validateRule r = .ok ()) :
    Decides .vmShape (ev.Vetoed .vmShape) (ev.vmShape rationale) := by
  refine decides_vetoed hstart (fun hvm _ => by rw [vmShape, hvm]) fun vm chain hvm _ => ?_
  rw [vmShape, hvm]
  refine decides_forM fun r hr => ?_
  cases r with
  | vmShape vm' constraints =>
    simp only [Rule.kind, Rule.Forbids, true_and]
    split
    · next hid => exact decides_pass fun h => hid h.1
    · next hid =>
      refine Decides.congr (Decides.seq (shapeValue_decides fun mx => ?_)
        (shapeGas_decides.seq shapeSelector_decides)) (and_iff_right (not_not.1 hid)).symm
      exact parses_of_validateRule_vmShape (hvalid _ hr)
  | _ => exact decides_pass fun h => by cases h.1

theorem timeWindow_decides (limited : Prop) :
    Decides .timeWindow (ev.Rejects limited .timeWindow) (ev.timeWindow rationale) := by
  have hloop : Decides .timeWindow (∃ r ∈ ev.rules, ∃ mask hourStart hourEnd,
      r = .timeWindow mask hourStart hourEnd ∧
        timeWindowContains ev.request.receivedAtUnixMs mask hourStart hourEnd = false)
      (ev.timeWindow rationale) := by
    refine decides_forM fun r _ => ?_
    cases r with
    | timeWindow mask hourStart hourEnd =>
      dsimp only
      rw [← ite_not]
      exact decides_ite.congr (by simp)
    | _ => exact decides_pass (by simp)
  refine hloop.congr ⟨?_, ?_⟩
  · rintro ⟨r, hr, mask, hourStart, hourEnd, rfl, hout⟩
    exact ⟨mask, hourStart, hourEnd, hr, hout⟩
  · rintro ⟨mask, hourStart, hourEnd, hr, hout⟩
    exact ⟨_, hr, mask, hourStart, hourEnd, rfl, hout⟩

theorem allowChain_decides (limited : Prop) :
    Decides .allowChain (ev.Rejects limited .allowChain) (ev.allowChainFilter rationale) := by
  refine decides_filterStage.congr (and_congr ?_ (not_congr ?_))
  · rw [List.any_eq_true]
    constructor
    · rintro ⟨r, hr, h⟩
      cases r with
      | allowChain chainIds => exact ⟨chainIds, hr⟩
      | _ => cases h
    · rintro ⟨chainIds, h⟩
      exact ⟨_, h, rfl⟩
  · unfold chainAllowed
    cases ev.chain with
    | none => simp
    | some chain =>
      rw [List.any_eq_true]
      constructor
      · rintro ⟨r, hr, h⟩
        cases r with
        | allowChain chainIds => exact ⟨chain, chainIds, rfl, hr, of_decide_eq_true h⟩
        | _ => cases h
      · rintro ⟨_, chainIds, ⟨⟩, hr, hin⟩
        exact ⟨_, hr, decide_eq_true hin⟩

theorem allowContract_decides (limited : Prop) :
    Decides .allowContract (ev.Rejects limited .allowContract)
      (ev.allowContractFilter rationale) := by
  simp only [Evaluation.Rejects, allowContractFilter]
  cases ev.chain with
  | none => exact decides_pass (by simp)
  | some chain =>
    simp only [Option.some.injEq, exists_eq_left']
    refine decides_filterStage.congr (and_congr ?_ (not_congr ?_))
    · rw [List.any_eq_true]
      constructor
      · rintro ⟨r, hr, h⟩
        cases r with
        | allowContract chainId addresses => exact ⟨addresses, of_decide_eq_true h ▸ hr⟩
        | _ => cases h
      · rintro ⟨addresses, h⟩
        exact ⟨_, h, decide_eq_true rfl⟩
    · unfold contractAllowed
      cases ev.toAddr with
      | none => simp
      | some b =>
        rw [List.any_eq_true]
        constructor
        · rintro ⟨r, hr, h⟩
          cases r with
          | allowContract chainId addresses =>
            obtain ⟨hid, hin⟩ := Bool.and_eq_true_iff.1 h
            exact ⟨addresses, b, of_decide_eq_true hid ▸ hr, rfl, addressIn_iff.1 hin⟩
          | _ => cases h
        · rintro ⟨addresses, _, hr, ⟨⟩, hin⟩
          exact ⟨_, hr, by simpa using addressIn_iff.2 hin⟩

theorem allowMethod_decides (limited : Prop) :
    Decides .allowMethod (ev.Rejects limited .allowMethod) (ev.allowMethodFilter rationale) := by
  simp only [Evaluation.Rejects, allowMethodFilter]
  cases ev.chain with
  | none => exact decides_pass (by simp)
  | some chain =>
    simp only [Option.some.injEq, exists_eq_left']
    refine decides_filterStage.congr (and_congr ?_ (not_congr ?_))
    · rw [Bool.not_eq_true', List.isEmpty_eq_false_iff, Ne, List.filter_eq_nil_iff]
      push Not
      rfl
    · cases ev.decoded.bind DecodedTx.methodSelector with
      | none => simp
      | some sel =>
        rw [List.any_eq_true]
        constructor
        · rintro ⟨r, hr, hlisted⟩
          obtain ⟨hmem, happlies⟩ := List.mem_filter.1 hr
          cases r with
          | allowMethod chainId contract selectors =>
            obtain rfl : chainId = chain := of_decide_eq_true (Bool.and_eq_true_iff.1 happlies).1
            exact ⟨contract, selectors, sel, hmem, happlies, rfl, selectorListed_iff.1 hlisted⟩
          | _ => cases hlisted
        · rintro ⟨contract, selectors, _, hmem, happlies, ⟨⟩, hlisted⟩
          exact ⟨_, List.mem_filter.2 ⟨hmem, happlies⟩, selectorListed_iff.2 hlisted⟩

end Stages

/-- A stage without a rule of its kind rejects nothing. -/
theorem exists_kind_of_rejects {ev : Evaluation} {stage : DenyStage}
    (h : ev.Rejects False stage) : ∃ r ∈ ev.rules, r.kind = stage.kind := by
  cases stage with
  | denyChain | denyContract | valueCap | vmShape =>
    obtain ⟨_, _, -, -, r, hr, hkind, -⟩ := h
    exact ⟨r, hr, hkind⟩
  | allowChain => exact ⟨_, h.1.choose_spec, rfl⟩
  | allowContract =>
    obtain ⟨_, -, ⟨_, hr⟩, -⟩ := h
    exact ⟨_, hr, rfl⟩
  | allowMethod =>
    obtain ⟨_, -, ⟨r, hr, happlies⟩, -⟩ := h
    cases r with
    | allowMethod => exact ⟨_, hr, rfl⟩
    | _ => cases happlies
  | timeWindow =>
    obtain ⟨_, _, _, hr, -⟩ := h
    exact ⟨_, hr, rfl⟩
  | rateLimit => exact h.elim

/-! ## The rate limits -/

/-- The rate limits find a token each, one after the other. -/
def Clears (request : SigningRequest) : List Rule → TokenBucketLimiter → Prop
  | [], _ => True
  | .rateLimit tokens refillPerSecs scope :: rules, limiter =>
    (limiter.tryAcquire (rateLimitKey scope request) tokens refillPerSecs).1 = true ∧
      Clears request rules
        (limiter.tryAcquire (rateLimitKey scope request) tokens refillPerSecs).2
  | _ :: rules, limiter => Clears request rules limiter

theorem clears_of_kind {request : SigningRequest} {rules : List Rule}
    (h : ∀ r ∈ rules, r.kind ≠ .rateLimit) (limiter : TokenBucketLimiter) :
    Clears request rules limiter := by
  induction rules with
  | nil => trivial
  | cons r rules ih =>
    obtain ⟨hr, hrules⟩ := List.forall_mem_cons.1 h
    cases r with
    | rateLimit => exact absurd rfl hr
    | _ => exact ih hrules

theorem rateLimit_decides {ev : Evaluation} {rationale : List RuleHit} {rules : List Rule}
    {limiter : TokenBucketLimiter} :
    Decides .rateLimit (¬ Clears ev.request rules limiter)
      (ev.rateLimit rationale rules limiter).1 := by
  induction rules generalizing limiter with
  | nil => exact decides_pass (not_not.2 trivial)
  | cons r rules ih =>
    cases r with
    | rateLimit tokens refillPerSecs scope =>
      simp only [rateLimit, Clears]
      split
      · next limiter' hacquire => exact ih.congr (by simp [hacquire])
      · next limiter' hacquire => exact decides_stop (by simp [hacquire])
    | _ => exact ih

/-! ## The quorum -/

theorem fires_of_validateRule (ev : Evaluation) {threshold total : UInt8}
    {approverSet : ApproverSetId} {trigger : QuorumTrigger}
    (h : validateRule (.requireQuorum threshold total approverSet trigger) = .ok ()) :
    ∃ fired, ev.fires trigger = .ok fired := by
  cases trigger with
  | always => exact ⟨_, rfl⟩
  | outsideTimeWindow => exact ⟨_, rfl⟩
  | valueGte chainId value =>
    simp only [validateRule, bind_eq_ok, orMisconfiguration_eq_ok] at h
    obtain ⟨_, -, m, hm, -⟩ := h
    simp only [fires, hm]
    split
    · exact ⟨_, rfl⟩
    · exact ⟨_, rfl⟩

theorem requireQuorum_eq {ev : Evaluation} (hvalid : ∀ r ∈ ev.rules, validateRule r = .ok ())
    (rationale : List RuleHit) :
    ev.requireQuorum rationale = match ev.rules.findSome? ev.firing with
      | none => .ok ()
      | some (threshold, total, approverSet) => .error (.quorum threshold total approverSet
          (push rationale "require-quorum" .requireQuorum "quorum trigger matched")) := by
  unfold requireQuorum
  generalize ev.rules = rules at hvalid
  induction rules with
  | nil => rfl
  | cons r rules ih =>
    obtain ⟨hr, hrules⟩ := List.forall_mem_cons.1 hvalid
    cases r with
    | requireQuorum threshold total approverSet trigger =>
      obtain ⟨fired, hfired⟩ := fires_of_validateRule ev hr
      simp only [List.forM, List.findSome?_cons, firing, hfired, Except.ok.injEq]
      cases fired with
      | true => rfl
      | false =>
        simp only [Bool.false_eq_true, if_false]
        exact ih hrules
    | _ => exact ih hrules

/-! ## The whole evaluation -/

/-- The stages in sequence. -/
def Evaluation.stages (ev : Evaluation) (limiter : TokenBucketLimiter) :
    Except Halt (List RuleHit) := do
  let rationale ← ev.beforeLimit
  (ev.rateLimit rationale ev.rules limiter).1
  ev.vmShape rationale
  ev.requireQuorum rationale
  .ok rationale

theorem evaluate_eq (p : RuleSetPolicy) (decisionId : DecisionId) (limiter : TokenBucketLimiter)
    (request : SigningRequest) :
    (p.evaluate decisionId limiter request).1 =
      match (p.start request).stages limiter with
      | .error h => h.result decisionId p.rules.policyId
      | .ok rationale =>
        .ok (applyDefault decisionId p.rules.policyId rationale p.rules.default) := by
  simp only [RuleSetPolicy.evaluate, stages, afterLimit, bind, Except.bind]
  cases (p.start request).beforeLimit with
  | error h => rfl
  | ok rationale =>
    dsimp only
    rcases (p.start request).rateLimit rationale (p.start request).rules limiter with ⟨h | _, l⟩
    · rfl
    · dsimp only
      cases (p.start request).vmShape rationale with
      | error h => rfl
      | ok _ =>
        dsimp only
        cases (p.start request).requireQuorum rationale with
        | error h => rfl
        | ok _ => rfl

open Classical in
/-- The first of the stages that is to reject denies; if there is none, the result is as given. -/
def Follows {α : Type} (rejects : DenyStage → Prop) (stages : List DenyStage)
    (passes : Except Halt α → Prop) (x : Except Halt α) : Prop :=
  match stages.find? fun stage => rejects stage with
  | some stage => ∃ h, x = .error h ∧ h.DeniesFor stage.reason
  | none => passes x

/-- A stage that decides as specified, before stages that do. -/
theorem Follows.bind {α β : Type} {rejects : DenyStage → Prop} {stage : DenyStage}
    {stages : List DenyStage} {passes : Except Halt β → Prop} {x : Except Halt α}
    {f : α → Except Halt β} (hx : Decides stage (rejects stage) x)
    (hf : ∀ a, Follows rejects stages passes (f a)) :
    Follows rejects (stage :: stages) passes (x >>= f) := by
  obtain ⟨hok, hdeny⟩ := hx
  unfold Follows
  cases x with
  | error h =>
    have hrejects : rejects stage := not_not.1 (hok.not.1 nofun)
    simp only [List.find?_cons, hrejects, decide_true]
    exact ⟨h, rfl, hdeny h rfl⟩
  | ok a =>
    have hpasses : ¬ rejects stage := hok.1 ⟨a, rfl⟩
    simp only [List.find?_cons, hpasses, decide_false]
    exact hf a

/-- What is left to the quorum rules and the default. -/
def QuorumOrDefault (ev : Evaluation) (x : Except Halt (List RuleHit)) : Prop :=
  match ev.rules.findSome? ev.firing with
  | some (threshold, total, approverSet) =>
    ∃ rationale, x = .error (.quorum threshold total approverSet rationale)
  | none => ∃ rationale, x = .ok rationale

theorem stages_follows {ev : Evaluation} (hstart : ev.IsStart)
    (hvalid : ∀ r ∈ ev.rules, validateRule r = .ok ()) {limiter : TokenBucketLimiter} :
    Follows (ev.Rejects (¬ Clears ev.request ev.rules limiter)) DenyStage.order (QuorumOrDefault ev)
      (ev.stages limiter) := by
  unfold stages beforeLimit DenyStage.order
  simp only [bind_assoc]
  refine .bind (denyChain_decides hstart) fun _ => ?_
  refine .bind (denyContract_decides hstart) fun _ => ?_
  refine .bind (allowChain_decides _) fun _ => ?_
  refine .bind (allowContract_decides _) fun _ => ?_
  refine .bind (allowMethod_decides _) fun rationale => ?_
  refine .bind (valueCap_decides hstart hvalid) fun _ => ?_
  refine .bind (timeWindow_decides _) fun _ => ?_
  change Follows _ _ _ ((ev.rateLimit rationale ev.rules limiter).1 >>= _)
  refine .bind rateLimit_decides fun _ => ?_
  refine .bind (vmShape_decides hstart hvalid) fun _ => ?_
  simp only [Follows, List.find?_nil, QuorumOrDefault, requireQuorum_eq hvalid]
  cases ev.rules.findSome? ev.firing with
  | none => exact ⟨_, rfl⟩
  | some quorum => exact ⟨_, rfl⟩

/-- The request gets past the stages that can deny. -/
def RuleSetPolicy.Reaches (p : RuleSetPolicy) (limiter : TokenBucketLimiter)
    (request : SigningRequest) : Prop :=
  ∀ stage, ¬ (p.start request).Rejects (¬ Clears request p.rules.rules limiter) stage

section Evaluate

variable {p : RuleSetPolicy} {decisionId : DecisionId} {limiter : TokenBucketLimiter}
  {request : SigningRequest}

open Classical in
/-- **What an evaluation returns**: the deny of the first stage that rejects, the first quorum that
fires, or the default. -/
theorem evaluate_cases (hvalid : validate p.rules = .ok ()) (decisionId : DecisionId)
    (limiter : TokenBucketLimiter) (request : SigningRequest) :
    (∃ stage rationale, DenyStage.order.find? (fun stage =>
        (p.start request).Rejects (¬ Clears request p.rules.rules limiter) stage) = some stage ∧
      ¬ p.Reaches limiter request ∧ (p.evaluate decisionId limiter request).1
        = .ok (.deny decisionId p.rules.policyId stage.reason rationale)) ∨
    p.Reaches limiter request ∧
      ((∃ threshold total approverSet rationale,
        p.rules.rules.findSome? (p.start request).firing = some (threshold, total, approverSet) ∧
        (p.evaluate decisionId limiter request).1 = .ok (.requireQuorum decisionId p.rules.policyId
          threshold total approverSet rationale)) ∨
      (p.rules.rules.findSome? (p.start request).firing = none ∧
        ∃ rationale, (p.evaluate decisionId limiter request).1
          = .ok (applyDefault decisionId p.rules.policyId rationale p.rules.default))) := by
  have hfollows : Follows ((p.start request).Rejects (¬ Clears request p.rules.rules limiter)) _ _
      ((p.start request).stages limiter) :=
    stages_follows (p.isStart request) (validate_ok_iff.1 hvalid).2
  rw [evaluate_eq]
  unfold Follows at hfollows
  split at hfollows
  · next stage hstage =>
    obtain ⟨h, hx, rationale, rfl⟩ := hfollows
    have hrejects := List.find?_some hstage
    exact .inl ⟨stage, rationale, hstage, fun h => h stage (of_decide_eq_true hrejects),
      by rw [hx]; rfl⟩
  · next hnone =>
    refine .inr ⟨fun stage hrejects => ?_, ?_⟩
    · exact List.find?_eq_none.1 hnone stage (by cases stage <;> simp [DenyStage.order])
        (decide_eq_true hrejects)
    · unfold QuorumOrDefault at hfollows
      split at hfollows
      · next hquorum =>
        obtain ⟨rationale, hx⟩ := hfollows
        exact .inl ⟨_, _, _, rationale, hquorum, by rw [hx]; rfl⟩
      · next hquorum =>
        obtain ⟨rationale, hx⟩ := hfollows
        exact .inr ⟨hquorum, rationale, by rw [hx]⟩

open Classical in
/-- **An evaluation returns what is documented**, once the rate limits have been asked. -/
theorem outcome_evaluate (hvalid : validate p.rules = .ok ()) (limiter : TokenBucketLimiter)
    (decisionId : DecisionId) (request : SigningRequest) :
    outcome (p.evaluate decisionId limiter request).1
      = some (p.specifiedWith (¬ Clears request p.rules.rules limiter) request) := by
  unfold RuleSetPolicy.specifiedWith
  simp only [← List.findSome?_isSome_iff]
  rcases evaluate_cases hvalid decisionId limiter request with ⟨_, _, hstage, -, hx⟩ | ⟨hreaches, h⟩
  · rw [hx, hstage]
    rfl
  · rw [List.find?_eq_none.2 fun stage _ h => hreaches stage (of_decide_eq_true h)]
    rcases h with ⟨_, _, _, _, hquorum, hx⟩ | ⟨hquorum, _, hx⟩
    · rw [hx, hquorum]
      rfl
    · rw [hx, hquorum]
      cases p.rules.default <;> rfl

/-- A request is allowed iff it gets past the stages, no quorum rule fires and the default
allows. -/
theorem allows_iff (hvalid : validate p.rules = .ok ()) :
    allows (p.evaluate decisionId limiter request).1 = true ↔ p.Reaches limiter request ∧
      p.rules.rules.findSome? (p.start request).firing = none ∧ p.rules.default = .allow := by
  rcases evaluate_cases hvalid decisionId limiter request with ⟨_, _, -, hrejected, hx⟩ |
    ⟨hreaches, ⟨_, _, _, _, hquorum, hx⟩ | ⟨hquorum, _, hx⟩⟩
  · exact hx ▸ iff_of_false nofun fun h => hrejected h.1
  · exact hx ▸ iff_of_false nofun fun h => by simp [hquorum] at h
  · rw [hx, and_iff_right hreaches, and_iff_right hquorum]
    cases p.rules.default <;> simp [applyDefault, allows, PolicyDecision.isImmediateAllow]

/-- A request is denied iff a stage rejects it, or no quorum rule fires and the default denies. -/
theorem denies_iff (hvalid : validate p.rules = .ok ()) :
    denies (p.evaluate decisionId limiter request).1 = true ↔ ¬ p.Reaches limiter request ∨
      p.rules.rules.findSome? (p.start request).firing = none ∧ p.rules.default = .deny := by
  rcases evaluate_cases hvalid decisionId limiter request with ⟨_, _, -, hrejected, hx⟩ |
    ⟨hreaches, ⟨_, _, _, _, hquorum, hx⟩ | ⟨hquorum, _, hx⟩⟩
  · exact hx ▸ iff_of_true rfl (.inl hrejected)
  · exact hx ▸ iff_of_false nofun fun h => by simp [hquorum, hreaches] at h
  · rw [hx, or_iff_right (not_not.2 hreaches), and_iff_right hquorum]
    cases p.rules.default <;> simp [applyDefault, denies, PolicyDecision.isDeny]

end Evaluate

end QfcServerWallet.Policy
