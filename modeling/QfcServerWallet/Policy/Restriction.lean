import QfcServerWallet.Policy.Loading

/-!
# Restrictive rules only restrict

A rule of kind `DenyChain`, `DenyContract`, `ValueCap`, `TimeWindow` or `VmShape` is put anywhere
into a rule list. The two evaluations are compared stage by stage. The allow lists and the rate
limits do not see the rule at all: the rationale that the stages build and the buckets that they
take tokens from are the same in both evaluations.

Results: `RuleWise.restricts`, `stages_restricts` and **`restrictive_rules_restrict`**.
-/

namespace QfcServerWallet.Policy

open Lib

/-- The kinds of rules that do nothing but deny. -/
def Rule.Restrictive (r : Rule) : Prop :=
  r.kind ∈ [.denyChain, .denyContract, .valueCap, .timeWindow, .vmShape]

instance (r : Rule) : Decidable r.Restrictive :=
  inferInstanceAs (Decidable (_ ∈ _))

/-- The first result is the second, or a deny. -/
def Restricts {α : Type} (x' x : Except Halt α) : Prop :=
  x' = x ∨ ∃ h, x' = .error h ∧ h.isDeny = true

theorem Restricts.bind {α β : Type} {x' x : Except Halt α} {f' f : α → Except Halt β}
    (hx : Restricts x' x) (hf : ∀ a, Restricts (f' a) (f a)) :
    Restricts (x' >>= f') (x >>= f) := by
  rcases hx with rfl | ⟨h, rfl, hdeny⟩
  · cases x' with
    | error h => exact .inl rfl
    | ok a => exact hf a
  · exact .inr ⟨h, rfl, hdeny⟩

/-- The stage looks at one rule after the other. -/
def RuleWise (stage : List Rule → Except Halt Unit) : Prop :=
  ∃ check : Rule → Except Halt Unit, ∀ rules, stage rules = rules.forM check

theorem ruleWise_pass : RuleWise fun _ => .ok () :=
  ⟨fun _ => .ok (), fun _ => (forM_eq_ok.2 fun _ _ => rfl).symm⟩

/-- A rule that can only deny leaves the stage as it was or turns it into a deny. -/
theorem RuleWise.restricts {stage : List Rule → Except Halt Unit} (hstage : RuleWise stage)
    {r : Rule} (hdeny : ∀ h, stage [r] = .error h → h.isDeny = true) (front back : List Rule) :
    Restricts (stage (front ++ r :: back)) (stage (front ++ back)) := by
  obtain ⟨check, hcheck⟩ := hstage
  simp only [hcheck] at hdeny ⊢
  -- the rules before it are checked first, in both lists
  induction front with
  | cons first front ih => exact .bind (.inl rfl) fun _ => ih
  | nil =>
    cases hr : check r with
    | ok =>
      refine .inl ?_
      simp only [List.nil_append, List.forM, hr]
      rfl
    | error h =>
      refine .inr ⟨h, ?_, hdeny h ?_⟩ <;> simp only [List.nil_append, List.forM, hr] <;> rfl

/-! ## The stages -/

namespace Evaluation

variable (ev : Evaluation) (rationale : List RuleHit)

/-- The evaluation of the same request with other rules. -/
@[simps]
def withRules (rules : List Rule) : Evaluation := { ev with rules := rules }

@[simp]
theorem withRules_methodRuleApplies (rules : List Rule) :
    (ev.withRules rules).methodRuleApplies = ev.methodRuleApplies := rfl

@[simp]
theorem withRules_checkShape (rules : List Rule) :
    (ev.withRules rules).checkShape = ev.checkShape := rfl

@[simp]
theorem withRules_fires (rules : List Rule) : (ev.withRules rules).fires = ev.fires := rfl

theorem denyChain_ruleWise : RuleWise fun rules => (ev.withRules rules).denyChain rationale := by
  unfold denyChain
  simp only [withRules_chain, withRules_rules]
  cases ev.chain with
  | none => exact ruleWise_pass
  | some chain => exact ⟨_, fun _ => rfl⟩

theorem denyContract_ruleWise :
    RuleWise fun rules => (ev.withRules rules).denyContract rationale := by
  unfold denyContract
  simp only [withRules_chain, withRules_toAddr, withRules_rules]
  cases ev.chain with
  | none => exact ruleWise_pass
  | some chain =>
    cases ev.toAddr with
    | none => exact ruleWise_pass
    | some toAddr => exact ⟨_, fun _ => rfl⟩

theorem valueCap_ruleWise : RuleWise fun rules => (ev.withRules rules).valueCap rationale := by
  unfold valueCap
  simp only [withRules_chain, withRules_decoded, withRules_rules]
  cases ev.chain with
  | none => exact ruleWise_pass
  | some chain => exact ⟨_, fun _ => rfl⟩

theorem timeWindow_ruleWise :
    RuleWise fun rules => (ev.withRules rules).timeWindow rationale := by
  unfold timeWindow
  simp only [withRules_request, withRules_rules]
  exact ⟨_, fun _ => rfl⟩

theorem vmShape_ruleWise : RuleWise fun rules => (ev.withRules rules).vmShape rationale := by
  unfold vmShape
  simp only [withRules_vm, withRules_checkShape, withRules_rules]
  cases ev.vm with
  | none => exact ruleWise_pass
  | some vm => exact ⟨_, fun _ => rfl⟩

theorem requireQuorum_ruleWise :
    RuleWise fun rules => (ev.withRules rules).requireQuorum rationale := by
  unfold requireQuorum
  simp only [withRules_fires, withRules_rules]
  exact ⟨_, fun _ => rfl⟩

section Inserted

variable {ev rationale} {r : Rule} {front back : List Rule}

theorem allowChainFilter_insert (hr : r.Restrictive) :
    (ev.withRules (front ++ r :: back)).allowChainFilter rationale =
      (ev.withRules (front ++ back)).allowChainFilter rationale := by
  cases r <;> simp [Rule.Restrictive, Rule.kind] at hr <;>
    simp [allowChainFilter, chainAllowed]

theorem allowContractFilter_insert (hr : r.Restrictive) :
    (ev.withRules (front ++ r :: back)).allowContractFilter rationale =
      (ev.withRules (front ++ back)).allowContractFilter rationale := by
  cases r <;> simp [Rule.Restrictive, Rule.kind] at hr <;>
    simp [allowContractFilter, contractAllowed]

theorem allowMethodFilter_insert (hr : r.Restrictive) :
    (ev.withRules (front ++ r :: back)).allowMethodFilter rationale =
      (ev.withRules (front ++ back)).allowMethodFilter rationale := by
  have hskip (chain : UInt64) : ev.methodRuleApplies chain r = false := by
    cases r <;> simp [Rule.Restrictive, Rule.kind] at hr <;> rfl
  simp only [allowMethodFilter, withRules_chain, withRules_methodRuleApplies, withRules_decoded,
    withRules_rules, List.filter_append, List.filter_cons, hskip, Bool.false_eq_true, if_false]

theorem rateLimit_insert (hr : r.Restrictive) (rules rules' : List Rule)
    (limiter : TokenBucketLimiter) :
    (ev.withRules rules').rateLimit rationale (front ++ r :: back) limiter =
      (ev.withRules rules).rateLimit rationale (front ++ back) limiter := by
  have hsame (rest : List Rule) (l : TokenBucketLimiter) :
      (ev.withRules rules').rateLimit rationale rest l =
        (ev.withRules rules).rateLimit rationale rest l := by
    induction rest generalizing l with
    | nil => rfl
    | cons first rest ih =>
      cases first with
      | rateLimit => simp only [rateLimit, withRules_request, ih]
      | _ => exact ih l
  induction front generalizing limiter with
  | nil =>
    cases r <;> simp [Rule.Restrictive, Rule.kind] at hr <;> exact hsame back limiter
  | cons first front ih =>
    cases first with
    | rateLimit => simp only [List.cons_append, rateLimit, withRules_request, ih]
    | _ => exact ih limiter

/-- **The evaluation with the rule is the one without it, or a deny.** -/
theorem stages_restricts (hstart : ev.IsStart) (hr : r.Restrictive)
    (hvalid : validateRule r = .ok ()) (limiter : TokenBucketLimiter) :
    Restricts ((ev.withRules (front ++ r :: back)).stages limiter)
      ((ev.withRules (front ++ back)).stages limiter) := by
  have hone : ∀ r' ∈ (ev.withRules [r]).rules, validateRule r' = .ok () :=
    List.forall_mem_singleton.2 hvalid
  have hstart : (ev.withRules [r]).IsStart := hstart
  unfold stages beforeLimit
  simp only [bind_assoc, allowChainFilter_insert hr, allowContractFilter_insert hr,
    allowMethodFilter_insert hr]
  refine .bind ((denyChain_ruleWise ev []).restricts
    (fun _ => (denyChain_decides hstart).isDeny) _ _) fun _ => ?_
  refine .bind ((denyContract_ruleWise ev []).restricts
    (fun _ => (denyContract_decides hstart).isDeny) _ _) fun _ => ?_
  refine .bind (.inl rfl) fun _ => .bind (.inl rfl) fun _ => .bind (.inl rfl) fun rationale => ?_
  refine .bind ((valueCap_ruleWise ev rationale).restricts
    (fun _ => (valueCap_decides hstart hone).isDeny) _ _) fun _ => ?_
  refine .bind ((timeWindow_ruleWise ev rationale).restricts
    (fun _ => (timeWindow_decides False).isDeny) _ _) fun _ => ?_
  refine .bind (.inl rfl) fun rationale => ?_
  refine .bind (.inl (congrArg Prod.fst (rateLimit_insert hr _ _ limiter))) fun _ => ?_
  refine .bind ((vmShape_ruleWise ev rationale).restricts
    (fun _ => (vmShape_decides hstart hone).isDeny) _ _) fun _ => ?_
  refine .bind ((requireQuorum_ruleWise ev rationale).restricts (fun h hstop => ?_) _ _)
    fun _ => .inl rfl
  -- a quorum rule is not among the restrictive ones
  cases r <;> simp [Rule.Restrictive, Rule.kind] at hr <;> cases hstop

end Inserted

end Evaluation

/-! ## The verdicts -/

/-- Deny below a quorum below allow. -/
def PolicyDecision.rank : PolicyDecision → Nat
  | deny .. => 0
  | requireQuorum .. => 1
  | allow .. => 2

/-- The decision under another id. -/
def PolicyDecision.withId (decisionId : DecisionId) : PolicyDecision → PolicyDecision
  | allow _ policyId rationale => .allow decisionId policyId rationale
  | deny _ policyId reason rationale => .deny decisionId policyId reason rationale
  | requireQuorum _ policyId threshold total approverSet rationale =>
    .requireQuorum decisionId policyId threshold total approverSet rationale

theorem PolicyDecision.rank_withId (decisionId : DecisionId) (x : PolicyDecision) :
    (x.withId decisionId).rank = x.rank := by
  cases x <;> rfl

theorem evaluate_withId {p : RuleSetPolicy} {decisionId : DecisionId} (decisionId' : DecisionId)
    {limiter : TokenBucketLimiter} {request : SigningRequest} {x : PolicyDecision}
    (hx : (p.evaluate decisionId limiter request).1 = .ok x) :
    (p.evaluate decisionId' limiter request).1 = .ok (x.withId decisionId') := by
  rw [evaluate_eq] at hx ⊢
  cases hstages : (p.start request).stages limiter with
  | ok rationale =>
    simp only [hstages, Except.ok.injEq] at hx ⊢
    rw [← hx]
    cases p.rules.default <;> rfl
  | error h =>
    simp only [hstages] at hx ⊢
    cases h <;> simp only [Halt.result, Except.ok.injEq, reduceCtorEq] at hx ⊢ <;> rw [← hx] <;> rfl

/-- **Restrictive rules only restrict.** -/
theorem restrictive_rules_restrict {p : RuleSetPolicy} (hvalid : validate p.rules = .ok ())
    {front back : List Rule} (hrules : p.rules.rules = front ++ back) {r : Rule}
    (hr : r.Restrictive) (hrule : validateRule r = .ok ()) (limiter : TokenBucketLimiter)
    (request : SigningRequest) (decisionId decisionId' : DecisionId) :
    ∃ x x', (p.evaluate decisionId limiter request).1 = .ok x ∧
      ((p.withRules (front ++ r :: back)).evaluate decisionId' limiter request).1 = .ok x' ∧
      x'.rank ≤ x.rank ∧ (x'.isDeny = false → x' = x.withId decisionId') := by
  obtain ⟨x, hx⟩ := exists_decision hvalid decisionId limiter request
  have hstart : (p.start request).withRules (front ++ back) = p.start request := by
    rw [← hrules]
    rfl
  have hrestricts : Restricts (((p.start request).withRules (front ++ r :: back)).stages limiter)
      ((p.start request).stages limiter) :=
    hstart ▸ Evaluation.stages_restricts (p.isStart request) hr hrule limiter
  have heval := evaluate_eq (p.withRules (front ++ r :: back)) decisionId' limiter request
  rcases hrestricts with hsame | ⟨h, hstop, hdeny⟩
  · refine ⟨x, x.withId decisionId', hx, ?_, (x.rank_withId decisionId').le, fun _ => rfl⟩
    rw [heval, ← evaluate_withId decisionId' hx, evaluate_eq, ← hsame]
    rfl
  · obtain ⟨reason, rationale, rfl⟩ : ∃ reason rationale, h = .deny reason rationale := by
      cases h with
      | deny reason rationale => exact ⟨reason, rationale, rfl⟩
      | _ => cases hdeny
    refine ⟨x, .deny decisionId' p.rules.policyId reason rationale, hx, ?_, Nat.zero_le _, nofun⟩
    have hstop' : ((p.withRules (front ++ r :: back)).start request).stages limiter
        = .error (.deny reason rationale) := hstop
    rw [heval, hstop']
    rfl

/-! ### A chain that is allowed and then denied -/

namespace Narrowed

/-- Two chains are allowed. -/
def policy : RuleSetPolicy := ⟨⟨1, ⟨3⟩, [.allowChain [1, 2]], .allow⟩, none⟩

/-- No bucket has been used. -/
def limiter : TokenBucketLimiter := ⟨fun _ => none, Stream'.const 0⟩

def request : SigningRequest :=
  ⟨⟨1⟩, ⟨2⟩, .apiKey "alice", .vmTransaction .evm 2 none [], none, 0⟩

end Narrowed

/-- One of two allowed chains is denied. -/
theorem restrictive_rules_restrict_narrowed :
    ∃ x x', (Narrowed.policy.evaluate ⟨4⟩ Narrowed.limiter Narrowed.request).1 = .ok x ∧
      ((Narrowed.policy.withRules [.allowChain [1, 2], .denyChain [2]]).evaluate ⟨5⟩
        Narrowed.limiter Narrowed.request).1 = .ok x' ∧
      x'.rank ≤ x.rank ∧ (x'.isDeny = false → x' = x.withId ⟨5⟩) :=
  restrictive_rules_restrict (by decide)
    (List.append_nil _).symm (by decide) rfl Narrowed.limiter Narrowed.request ⟨4⟩ ⟨5⟩

end QfcServerWallet.Policy
