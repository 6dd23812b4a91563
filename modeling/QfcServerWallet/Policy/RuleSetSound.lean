import QfcServerWallet.Policy.EvmEnvelope
import QfcServerWallet.Policy.Verdict

/-!
# What a policy verdict says of the transaction

`RuleSetPolicy::evaluate` with the EVM decoder configured, over all validated rule sets and limiter
states. Chain and contract rules are matched against the declared chain and recipient, and a value
cap is skipped when the envelope cannot be decoded.

Results: **`evaluate_binds_tx_iff`** and **`evaluate_valueCap_iff`**.
-/

namespace QfcServerWallet.Policy

open Lib

/-- The policy under the EVM decoder. -/
def evmPolicy (D : Rlp.Decoder) (rs : RuleSet) : RuleSetPolicy := ⟨rs, some (Evm.evmDecoder D)⟩

/-- The chain and contract rules hold of the transaction itself. -/
structure BoundBy (rules : List Rule) (tx : Evm.DecodedEvmTx) : Prop where
  chain_not_denied : ∀ c chainIds, tx.chainId = some c → .denyChain chainIds ∈ rules →
    c ∉ chainIds
  chain_allowed : (∃ chainIds, .allowChain chainIds ∈ rules) →
    ∃ chainIds c, .allowChain chainIds ∈ rules ∧ tx.chainId = some c ∧ c ∈ chainIds
  recipient_not_denied : ∀ c a addresses, tx.chainId = some c → tx.toAddr = some a →
    .denyContract c addresses ∈ rules → ¬ Lists addresses a.bytes
  recipient_allowed : ∀ c, tx.chainId = some c → (∃ addresses, .allowContract c addresses ∈ rules) →
    ∃ addresses a, .allowContract c addresses ∈ rules ∧ tx.toAddr = some a ∧
      Lists addresses a.bytes

/-- The declared chain and recipient are the transaction's own. An empty declared recipient is as
good as none for a contract creation: no address list matches it. -/
def Declares (chain : UInt64) (toAddr : Option Bytes) (tx : Evm.DecodedEvmTx) : Prop :=
  tx.chainId = some chain ∧
    (toAddr = tx.toAddr.map FixedBytes.bytes ∨ (tx.toAddr = none ∧ toAddr = some []))

section Binding

variable {D : Rlp.Decoder} {request : SigningRequest} {chain : UInt64} {toAddr : Option Bytes}
  {raw : Bytes}

theorem lists_singleton {b : Bytes} {a : Bytes} (ha : a ≠ []) : Lists [hexEncode a] b ↔ a = b := by
  simp [Lists, hexToBytes_hexEncode ha]

/-- A rule set of one rule. -/
def only (r : Rule) : RuleSet := ⟨1, ⟨0⟩, [r], .allow⟩

theorem mem_rules_only {r r' : Rule} :
    r' ∈ ((evmPolicy D (only r)).start request).rules ↔ r' = r :=
  List.mem_singleton

theorem validate_only {r : Rule} (hr : validateRule r = .ok ()) : validate (only r) = .ok () :=
  validate_ok_iff.2 ⟨rfl, by simpa [only] using hr⟩

theorem DenyStage.kind_inj {stage stage' : DenyStage} (h : stage.kind = stage'.kind) :
    stage = stage' := by
  cases stage <;> cases stage' <;> first | rfl | cases h

/-- One rule, not a rate limit, lets pass what its stage does not reject. -/
theorem allows_only {r : Rule} {stage : DenyStage} (hr : validateRule r = .ok ())
    (hkind : r.kind = stage.kind) (hlimit : stage ≠ .rateLimit)
    (hpass : ¬ ((evmPolicy D (only r)).start request).Rejects False stage)
    (decisionId : DecisionId) (limiter : TokenBucketLimiter) :
    allows ((evmPolicy D (only r)).evaluate decisionId limiter request).1 = true := by
  have hclears : Clears request [r] limiter :=
    clears_of_kind (List.forall_mem_singleton.2 fun h =>
      hlimit (DenyStage.kind_inj (hkind.symm.trans h))) limiter
  refine (allows_iff (validate_only hr)).2 ⟨fun other hrejects => ?_, ?_, rfl⟩
  · rw [show (¬ Clears request (evmPolicy D (only r)).rules.rules limiter) = False from
      eq_false (not_not.2 hclears)] at hrejects
    obtain ⟨r', hr', hkind'⟩ := exists_kind_of_rejects hrejects
    rw [mem_rules_only.1 hr', hkind] at hkind'
    exact hpass (DenyStage.kind_inj hkind' ▸ hrejects)
  · cases r with
    | requireQuorum => cases stage <;> cases hkind
    | _ => rfl

section Declared

variable (hp : request.payload = .vmTransaction .evm chain toAddr raw) (p : RuleSetPolicy)
include hp

theorem start_chain : (p.start request).chain = some chain := by
  rw [RuleSetPolicy.start, hp, SigningPayload.chainId]

theorem start_vm : (p.start request).vm = some .evm := by
  rw [RuleSetPolicy.start, hp, SigningPayload.vm]

theorem start_toAddr : (p.start request).toAddr = toAddr := by
  rw [RuleSetPolicy.start, hp, SigningPayload.toAddr]

theorem start_decoded (D : Rlp.Decoder) (rs : RuleSet) :
    ((evmPolicy D rs).start request).decoded = Evm.evmDecoder D .evm raw := by
  simp only [RuleSetPolicy.start, RuleSetPolicy.decode, hp, SigningPayload.vm, evmPolicy,
    SigningPayload.rawBytes]

end Declared

theorem declares_of_boundBy {tx : Evm.DecodedEvmTx}
    (hp : request.payload = .vmTransaction .evm chain toAddr raw)
    (h : ∀ r, validateRule r = .ok () → allows ((evmPolicy D (only r)).evaluate ⟨0⟩
      ⟨fun _ => none, fun _ => 0⟩ request).1 = true → BoundBy [r] tx) :
    Declares chain toAddr tx := by
  have hc (r : Rule) := start_chain hp (evmPolicy D (only r))
  have haddr {a : Bytes} (ha : a ≠ []) : validateAddresses [hexEncode a] = .ok () :=
    validateAddresses_iff.2 (by simp [hexToBytes_hexEncode ha])
  have hbound (r : Rule) (stage : DenyStage) (hr : validateRule r = .ok ())
      (hkind : r.kind = stage.kind) (hlimit : stage ≠ .rateLimit)
      (hpass : ¬ ((evmPolicy D (only r)).start request).Rejects False stage) : BoundBy [r] tx :=
    h r hr (allows_only hr hkind hlimit hpass _ _)
  have hchain : tx.chainId = some chain := by
    obtain ⟨chainIds, c, hmem, hc', hin⟩ := (hbound (.allowChain [chain]) .allowChain rfl rfl
      (by decide) (by simp [Evaluation.Rejects, mem_rules_only, hc])).chain_allowed
        ⟨_, List.mem_singleton.2 rfl⟩
    obtain rfl : chainIds = [chain] := by simpa using hmem
    rwa [List.mem_singleton.1 hin] at hc'
  refine ⟨hchain, ?_⟩
  cases hto : tx.toAddr with
  | some a =>
    left
    -- otherwise a rule that denies this very recipient lets the request pass
    by_contra hne
    have ha : a.bytes ≠ [] := List.ne_nil_of_length_pos (by rw [a.length_bytes]; decide)
    refine (hbound (.denyContract chain [hexEncode a.bytes]) .denyContract (haddr ha) rfl
      (by decide) ?_).recipient_not_denied chain a _ hchain hto (List.mem_singleton.2 rfl)
        ((lists_singleton ha).2 rfl)
    rintro ⟨_, _, -, -, r, hr, -, hforbids⟩
    obtain rfl := mem_rules_only.1 hr
    obtain ⟨-, b, hb, hlist⟩ := hforbids
    rw [start_toAddr hp, ← (lists_singleton ha).1 hlist] at hb
    exact hne hb
  | none =>
    cases toAddr with
    | none => exact .inl rfl
    | some b =>
      refine .inr ⟨rfl, congrArg some ?_⟩
      -- otherwise a rule that allows only the declared recipient lets a creation pass
      by_contra hb
      obtain ⟨_, a, -, ha, -⟩ := (hbound (.allowContract chain [hexEncode b]) .allowContract
        (haddr hb) rfl (by decide) (by simp [Evaluation.Rejects, mem_rules_only, hc,
          start_toAddr hp, lists_singleton hb])).recipient_allowed chain hchain
            ⟨_, List.mem_singleton.2 rfl⟩
      rw [hto] at ha
      cases ha

theorem boundBy_of_declares {tx : Evm.DecodedEvmTx}
    (hp : request.payload = .vmTransaction .evm chain toAddr raw)
    (hdeclares : Declares chain toAddr tx) {rs : RuleSet} (hvalid : validate rs = .ok ())
    {decisionId : DecisionId} {limiter : TokenBucketLimiter}
    (hallow : allows ((evmPolicy D rs).evaluate decisionId limiter request).1 = true) :
    BoundBy rs.rules tx := by
  obtain ⟨hchain, hto⟩ := hdeclares
  obtain ⟨hreaches, -⟩ := (allows_iff hvalid).1 hallow
  have hvm := start_vm hp (evmPolicy D rs)
  have hc := start_chain hp (evmPolicy D rs)
  have ht := start_toAddr hp (evmPolicy D rs)
  have hown {c : UInt64} (h : tx.chainId = some c) : chain = c :=
    Option.some.inj (hchain.symm.trans h)
  constructor
  · intro c chainIds hcid hmem hin
    obtain rfl := hown hcid
    exact hreaches .denyChain ⟨.evm, chain, hvm, hc, _, hmem, rfl, hin⟩
  · intro hany
    by_contra hnot
    refine hreaches .allowChain ⟨hany, ?_⟩
    rintro ⟨c, chainIds, hc', hmem, hin⟩
    exact hnot ⟨chainIds, c, hmem, hchain.trans (hc.symm.trans hc'), hin⟩
  · intro c a addresses hcid ha hmem hlist
    obtain rfl := hown hcid
    have hdeclared : toAddr = some a.bytes := by
      rcases hto with h | ⟨h, -⟩
      · rw [h, ha, Option.map_some]
      · rw [ha] at h
        cases h
    exact hreaches .denyContract
      ⟨.evm, chain, hvm, hc, _, hmem, rfl, rfl, a.bytes, ht.trans hdeclared, hlist⟩
  · intro c hcid hany
    obtain rfl := hown hcid
    by_contra hnot
    refine hreaches .allowContract ⟨chain, hc, hany, ?_⟩
    rintro ⟨addresses, b, hmem, hb, hlist⟩
    rw [ht] at hb
    subst hb
    rcases hto with h | ⟨-, h⟩
    · obtain ⟨a, ha, hab⟩ := Option.map_eq_some_iff.1 h.symm
      exact hnot ⟨addresses, a, hmem, ha, hab ▸ hlist⟩
    · obtain ⟨s, -, hs⟩ := hlist
      exact hexToBytes_ne_nil s (Option.some.inj h ▸ hs)

/-- **The chain and contract rules bind the transaction iff the declaration agrees with it.** The
stages for these rules never look at the decoded transaction, so that `tx` enters only through the
declaration. -/
theorem evaluate_binds_tx_iff (D : Rlp.Decoder) (request : SigningRequest) (chain : UInt64)
    (toAddr : Option Bytes) (raw : Bytes) (tx : Evm.DecodedEvmTx)
    (hp : request.payload = .vmTransaction .evm chain toAddr raw) :
    (∀ (rs : RuleSet) (decisionId : DecisionId) (limiter : TokenBucketLimiter),
      validate rs = .ok () →
      allows ((evmPolicy D rs).evaluate decisionId limiter request).1 = true →
        BoundBy rs.rules tx) ↔
    Declares chain toAddr tx := by
  constructor
  · intro h
    exact declares_of_boundBy hp fun r hr => h (only r) _ _ (validate_only hr)
  · intro hdeclares rs decisionId limiter hvalid hallow
    exact boundBy_of_declares hp hdeclares hvalid hallow

end Binding

/-! ### A transfer

A transfer of 5 to the address of twenty bytes `bb` on chain 1. -/

namespace Transfer

def recipient : Evm.Address := ⟨List.replicate 20 0xbb, rfl⟩

def friend : Evm.Address := ⟨List.replicate 20 0xaa, rfl⟩

/-- A transfer of 5. -/
def legacy : Evm.LegacyTx := ⟨0, 1, 21000, some recipient, 5, []⟩

/-- Signed with EIP-155 replay protection. -/
def signed : Evm.WireTx := ⟨.legacySigned legacy (some 1) ⟨false, 1, 1⟩, by decide⟩

/-- The same transfer as an EIP-1559 transaction, in the form that is hashed for signing. -/
def unsigned : Evm.WireTx :=
  ⟨.typedUnsigned (.eip1559 1 0 1 1 21000 (some recipient) 5 [] []), by decide⟩

/-- Its envelope, with a declared chain and recipient. -/
def request (chain : UInt64) (toAddr : Option Bytes) (w : Evm.WireTx) : SigningRequest where
  requestId := ⟨1⟩
  walletId := ⟨2⟩
  requester := .apiKey "alice"
  payload := .vmTransaction .evm chain toAddr w.envelope.bytes
  hdPath := none
  receivedAtUnixMs := 0

/-- A limiter without buckets at time zero. -/
def limiter : TokenBucketLimiter := ⟨fun _ => none, fun _ => 0⟩

/-- Only chain 1, and on it only the recipient. -/
def strict : RuleSet :=
  ⟨1, ⟨3⟩, [.denyChain [5], .allowChain [1], .allowContract 1 [hexEncode recipient.bytes]], .allow⟩

/-- Only chain 137, and on it not the recipient. -/
def elsewhere : RuleSet :=
  ⟨1, ⟨3⟩, [.allowChain [137], .denyContract 137 [hexEncode recipient.bytes]], .allow⟩

/-- At most 4 on chain 1. -/
def capped : RuleSet := ⟨1, ⟨3⟩, [.valueCap 1 "4"], .allow⟩

end Transfer

open Transfer

/-- The declared chain and recipient are those of the envelope. -/
theorem evaluate_binds_tx_strict :
    BoundBy strict.rules (legacy.decoded 37) :=
  (evaluate_binds_tx_iff Rlp.reference (request 1 (some recipient.bytes) signed) 1
      (some recipient.bytes) signed.envelope.bytes (legacy.decoded 37)
      rfl).2 ⟨by decide, .inl rfl⟩ strict ⟨4⟩ limiter
    (by decide +kernel) (by decide +kernel)

/-- Declaring chain 137 next to an envelope for chain 1 gets it allowed. -/
theorem evaluate_binds_declared_only :
    Evm.decodeEvmTx Rlp.reference signed.envelope.bytes =
        .ok (legacy.decoded 37) ∧
      ¬ (validate elsewhere = .ok () →
        allows ((evmPolicy Rlp.reference elsewhere).evaluate ⟨4⟩ limiter
          (request 137 (some friend.bytes) signed)).1 = true →
        BoundBy elsewhere.rules (legacy.decoded 37)) := by
  refine ⟨by decide +kernel, fun h => ?_⟩
  have hbound := h (by decide +kernel) (by decide +kernel)
  obtain ⟨chainIds, c, hmem, hc, hin⟩ := hbound.chain_allowed ⟨[137], by decide⟩
  obtain rfl : c = 1 := (Option.some.inj hc).symm
  obtain rfl : chainIds = [137] := by simpa [elsewhere] using hmem
  exact absurd hin (by decide)

/-! ## Value caps -/

theorem allows_valueCap_undecoded {request : SigningRequest} {chain : UInt64} {raw : Bytes}
    {D : Rlp.Decoder} {mx : String} {m : U256}
    (hp : request.payload = .vmTransaction .evm chain none raw)
    (hundecoded : ∀ tx, Evm.decodeEvmTx D raw ≠ .ok tx) (hm : parseU256 mx = some m)
    (decisionId : DecisionId) (limiter : TokenBucketLimiter) :
    allows ((evmPolicy D (only (.valueCap chain mx))).evaluate decisionId limiter request).1
      = true := by
  have hdecoded : ((evmPolicy D (only (.valueCap chain mx))).start request).decoded = none := by
    rw [start_decoded hp, Evm.evmDecoder]
    cases htx : Evm.decodeEvmTx D raw with
    | ok tx => exact absurd htx (hundecoded tx)
    | error e => rfl
  have hkind : (Rule.valueCap chain mx).kind = DenyStage.kind .valueCap := rfl
  refine allows_only (validateRule_valueCap_iff.2 ⟨m, hm⟩) hkind (by decide) ?_ _ _
  rintro ⟨_, _, -, -, r, hr, -, hforbids⟩
  obtain rfl := mem_rules_only.1 hr
  obtain ⟨-, _, _, -, hv, -⟩ := hforbids
  rw [hdecoded] at hv
  cases hv

theorem denies_valueCap_decoded {request : SigningRequest} {chain : UInt64}
    {toAddr : Option Bytes} {raw : Bytes} {D : Rlp.Decoder} {rs : RuleSet} {mx : String} {m : U256}
    {tx : Evm.DecodedEvmTx} (hp : request.payload = .vmTransaction .evm chain toAddr raw)
    (htx : Evm.decodeEvmTx D raw = .ok tx) (hvalid : validate rs = .ok ())
    (hrule : .valueCap chain mx ∈ rs.rules) (hm : parseU256 mx = some m) (hv : m < tx.value)
    (decisionId : DecisionId) (limiter : TokenBucketLimiter) :
    denies ((evmPolicy D rs).evaluate decisionId limiter request).1 = true := by
  refine (denies_iff hvalid).2 (.inl fun hreaches => hreaches .valueCap ?_)
  refine ⟨.evm, chain, start_vm hp _, start_chain hp _, _, hrule, rfl, rfl, m, tx.value, hm, ?_, hv⟩
  rw [start_decoded hp, Evm.evmDecoder, htx]
  rfl

/-- **A value cap is enforced iff the envelope is readable.** -/
theorem evaluate_valueCap_iff {D : Rlp.Decoder} (hD : D.Canonical) (w : Evm.WireTx)
    (chain : UInt64) (mx : String) (m : U256) (hm : parseU256 mx = some m)
    (hv : m < w.envelope.value) :
    (∀ (rs : RuleSet) (decisionId : DecisionId) (limiter : TokenBucketLimiter)
        (request : SigningRequest) (toAddr : Option Bytes),
      validate rs = .ok () → .valueCap chain mx ∈ rs.rules →
      request.payload = .vmTransaction .evm chain toAddr w.envelope.bytes →
        denies ((evmPolicy D rs).evaluate decisionId limiter request).1 = true) ↔
    w.envelope.Readable := by
  constructor
  · intro h
    by_contra hread
    let request : SigningRequest :=
      ⟨⟨0⟩, ⟨0⟩, .apiKey "", .vmTransaction .evm chain none w.envelope.bytes, none, 0⟩
    have hallowed := allows_valueCap_undecoded (show request.payload = _ from rfl)
      (fun tx htx => hread (w.readable_of_decode hD htx)) hm ⟨0⟩ ⟨fun _ => none, fun _ => 0⟩
    have hdenied := h (only (.valueCap chain mx)) ⟨0⟩ ⟨fun _ => none, fun _ => 0⟩ request none
      (validate_only (validateRule_valueCap_iff.2 ⟨m, hm⟩)) (List.mem_singleton.2 rfl) rfl
    exact not_denies_of_allows hallowed hdenied
  · intro hread rs decisionId limiter request toAddr hvalid hrule hp
    obtain ⟨tx, htx, hvalue⟩ := w.decode_of_readable hD hread
    exact denies_valueCap_decoded hp htx hvalid hrule hm (hvalue ▸ hv) decisionId limiter

/-- A signed transfer of 5 under a cap of 4 is denied. -/
theorem evaluate_valueCap_signed : denies ((evmPolicy Rlp.reference capped).evaluate ⟨4⟩ limiter
      (request 1 (some recipient.bytes) signed)).1 = true :=
  (evaluate_valueCap_iff Rlp.reference_canonical signed 1 "4" 4 (by decide +kernel)
      (by decide)).2 (show 37 < 2 ^ 64 by decide) capped ⟨4⟩ limiter _ _
    (by decide +kernel) (by decide) rfl

/-- A transfer of 5 passes a cap of 4 in the form that is hashed for signing. -/
theorem evaluate_valueCap_unsigned : ¬ (validate capped = .ok () → .valueCap 1 "4" ∈ capped.rules →
      parseU256 "4" = some 4 → (4 : U256) < unsigned.envelope.value →
        denies ((evmPolicy Rlp.reference capped).evaluate ⟨4⟩ limiter
          (request 1 (some recipient.bytes) unsigned)).1 = true) :=
  fun h => absurd (h (by decide +kernel) (by decide) (by decide +kernel) (by decide))
    (by decide +kernel)

end QfcServerWallet.Policy
