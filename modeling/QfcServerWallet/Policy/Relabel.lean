import QfcServerWallet.Policy.RuleSetSound

/-!
# The same bytes under another label

The bytes of a transaction can be submitted as a `VmTransaction`, or as `Raw` or `PersonalSign`
bytes; the message that is signed is the same (`canonical_message_bytes`). The chain, contract,
value and shape stages of `RuleSetPolicy::evaluate` read the declared chain and virtual machine,
which only a `VmTransaction` has, and pass a request without them.

Results: `denies_restrictive_iff`, **`evaluate_relabel_iff`** and `evaluate_relabel_relaxes`.
-/

namespace QfcServerWallet.Policy

open Lib

/-- The rule can only turn a request down, by what the request declares or by what is decoded from
it. -/
def Rule.isRestriction (r : Rule) : Bool :=
  r.kind = .denyChain || r.kind = .denyContract || r.kind = .valueCap || r.kind = .vmShape

/-- The payloads without a virtual machine that stand for the same bytes. -/
def relabellings (bytes : Bytes) : List SigningPayload := [.raw bytes, .personalSign bytes]

/-! ## Rules that only restrict -/

section Restrictive

variable {p : RuleSetPolicy} {request : SigningRequest} (hvalid : validate p.rules = .ok ())
  (hrules : ∀ r ∈ p.rules.rules, r.isRestriction = true)
include hrules

theorem findSome_firing : p.rules.rules.findSome? (p.start request).firing = none := by
  refine List.findSome?_eq_none_iff.2 fun r hr => ?_
  cases r with
  | requireQuorum => cases hrules _ hr
  | _ => rfl

theorem not_clears_eq_false (limiter : TokenBucketLimiter) :
    (¬ Clears request p.rules.rules limiter) = False := by
  refine eq_false (not_not.2 (clears_of_kind (fun r hr hkind => ?_) limiter))
  cases r with
  | rateLimit => cases hrules _ hr
  | _ => cases hkind

include hvalid

theorem allows_unlabelled_iff (hvm : request.payload.vm = none) (decisionId : DecisionId)
    (limiter : TokenBucketLimiter) :
    allows (p.evaluate decisionId limiter request).1 = true ↔ p.rules.default = .allow := by
  rw [allows_iff hvalid, and_iff_right, and_iff_right (findSome_firing hrules)]
  intro stage hrejects
  rw [not_clears_eq_false hrules] at hrejects
  obtain ⟨r, hr, hkind⟩ := exists_kind_of_rejects hrejects
  have hrestriction := hrules r hr
  cases stage with
  | denyChain | denyContract | valueCap | vmShape =>
    obtain ⟨vm, _, hvm', -⟩ := hrejects
    cases hvm.symm.trans hvm'
  | _ => simp [Rule.isRestriction, hkind, DenyStage.kind] at hrestriction

/-- **A transaction is denied iff a rule forbids it or the default is deny.** -/
theorem denies_restrictive_iff {vm : VmType} {chain : UInt64} {toAddr : Option Bytes}
    {raw : Bytes} (hp : request.payload = .vmTransaction vm chain toAddr raw)
    (decisionId : DecisionId) (limiter : TokenBucketLimiter) :
    denies (p.evaluate decisionId limiter request).1 = true ↔
      p.rules.default = .deny ∨
        ∃ r ∈ p.rules.rules, r.Forbids vm chain toAddr (p.decode request.payload) := by
  have hvetoed (kind : RuleKind) : (p.start request).Vetoed kind ↔ ∃ r ∈ p.rules.rules,
      r.kind = kind ∧ r.Forbids vm chain toAddr (p.decode request.payload) := by
    simp [Evaluation.Vetoed, RuleSetPolicy.start, hp, SigningPayload.vm, SigningPayload.chainId,
      SigningPayload.toAddr]
  rw [denies_iff hvalid, and_iff_right (findSome_firing hrules), or_comm, RuleSetPolicy.Reaches,
    not_clears_eq_false hrules, not_forall_not]
  refine or_congr_right ⟨?_, ?_⟩
  · rintro ⟨stage, hrejects⟩
    obtain ⟨r, hr, hkind⟩ := exists_kind_of_rejects hrejects
    have hrestriction := hrules r hr
    cases stage with
    | denyChain | denyContract | valueCap | vmShape =>
      obtain ⟨r, hr, -, hforbids⟩ := (hvetoed _).1 hrejects
      exact ⟨r, hr, hforbids⟩
    | _ => simp [Rule.isRestriction, hkind, DenyStage.kind] at hrestriction
  · rintro ⟨r, hr, hforbids⟩
    have hveto := (hvetoed r.kind).2 ⟨r, hr, rfl, hforbids⟩
    cases r with
    | denyChain => exact ⟨.denyChain, hveto⟩
    | denyContract => exact ⟨.denyContract, hveto⟩
    | valueCap => exact ⟨.valueCap, hveto⟩
    | vmShape => exact ⟨.vmShape, hveto⟩
    | _ => exact hforbids.elim

end Restrictive

/-! ## Two requests for the same bytes -/

theorem canonicalSigningMessage_relabelled {bytes : Bytes} {relabelled : SigningPayload}
    (h : relabelled ∈ relabellings bytes) (toVec : Json → Option Bytes) (vm : VmType)
    (chain : UInt64) (toAddr : Option Bytes) :
    canonicalSigningMessage toVec relabelled
      = canonicalSigningMessage toVec (.vmTransaction vm chain toAddr bytes) := by
  rcases List.mem_pair.1 h with rfl | rfl
  · rfl
  · rfl

/-- **Relabelling relaxes no verdict iff the default is deny or no rule forbids the
transaction.** The two requests are signed over the same message and may meet different limiter
states. -/
theorem evaluate_relabel_iff (p : RuleSetPolicy) (hvalid : validate p.rules = .ok ())
    (hrules : ∀ r ∈ p.rules.rules, r.isRestriction = true) (request : SigningRequest)
    (vm : VmType) (chain : UInt64) (toAddr : Option Bytes) (bytes : Bytes)
    (hp : request.payload = .vmTransaction vm chain toAddr bytes) (relabelled : SigningPayload)
    (hrelabelled : relabelled ∈ relabellings bytes) (decisionId decisionId' : DecisionId)
    (limiter limiter' : TokenBucketLimiter) :
    (∀ toVec, canonicalSigningMessage toVec relabelled
      = canonicalSigningMessage toVec request.payload) ∧
    ((denies (p.evaluate decisionId limiter request).1 = true →
        allows (p.evaluate decisionId' limiter' { request with payload := relabelled }).1 = false) ↔
      p.rules.default = .deny ∨
        ∀ r ∈ p.rules.rules, ¬ r.Forbids vm chain toAddr (p.decode request.payload)) := by
  have hunlabelled : relabelled.vm = none := by
    rcases List.mem_pair.1 hrelabelled with rfl | rfl
    · rfl
    · rfl
  refine ⟨fun toVec => ?_, ?_⟩
  · rw [hp]
    exact canonicalSigningMessage_relabelled hrelabelled toVec vm chain toAddr
  · rw [denies_restrictive_iff hvalid hrules hp, ← Bool.not_eq_true,
      allows_unlabelled_iff hvalid hrules hunlabelled]
    cases p.rules.default with
    | deny => simp
    | allow => simp

open Transfer

/-- Under a default of deny, the bytes alone are not allowed. -/
theorem evaluate_relabel_denied :
    allows ((evmPolicy Rlp.reference { capped with default := .deny }).evaluate ⟨4⟩
      limiter { request 1 none signed with
        payload := .raw signed.envelope.bytes }).1 = false :=
  (evaluate_relabel_iff (evmPolicy Rlp.reference { capped with default := .deny })
      (by decide +kernel) (by decide) (request 1 none signed) .evm 1 none
      signed.envelope.bytes rfl (.raw signed.envelope.bytes) List.mem_cons_self
      ⟨4⟩ ⟨4⟩ limiter limiter).2.2 (.inl rfl) (by decide +kernel)

/-- A transfer of 5 under a cap of 4 is denied; its bytes alone are allowed. -/
theorem evaluate_relabel_relaxes :
    ¬ (validate capped = .ok () → (∀ r ∈ capped.rules, r.isRestriction = true) →
        denies ((evmPolicy Rlp.reference capped).evaluate ⟨4⟩ limiter
          (request 1 none signed)).1 = true →
        allows ((evmPolicy Rlp.reference capped).evaluate ⟨4⟩ limiter { request 1 none signed with
            payload := .raw signed.envelope.bytes }).1 = false) :=
  fun h => absurd (h (by decide +kernel) (by decide) (by decide +kernel)) (by decide +kernel)

end QfcServerWallet.Policy
