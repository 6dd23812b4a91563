import QfcServerWallet.Enclave.HybridVerifier
import Mathlib.Data.List.Dedup
import Mathlib.Data.List.Perm.Subperm

/-!
# What an accepted verification guarantees

Results about `HybridVerifier::verify` as a whole: **`verify_decision_sound`**,
**`checkApprovals_counts_keys_iff`** (the loop counts approvals, not approvers) and
**`verify_ceilings_iff`** (the chain and contract ceilings are checked against the declared fields).
-/

namespace QfcServerWallet.Enclave

open Lib Policy

variable {d : Deps}

/-! ## The signed decision -/

/-- **An accepted decision was issued by the policy service**, for this request and wallet, and is
fresh. `issued` is the set of tuples the service ever signed. -/
theorem verify_decision_sound (V : HybridVerifier) (issued : Set DecisionTuple)
    (signed : Option SignedPolicyDecision) (approvals : List EnclaveApproval)
    (request : SigningRequest) (wallet : WalletCeilings) (now : Int64)
    (hrequired : V.requireSignedDecision = true)
    (hunforgeable : ∀ (vk : FixedBytes 32) (msg : Bytes) (sig : FixedBytes 64),
      vk.bytes = V.policyServicePubkey → d.crypto.ed25519Verify vk msg sig = true →
        ∃ t ∈ issued, msg = t.preimage d.jsonDecision)
    (hjson : ∀ t ∈ issued, ∀ x : PolicyDecision,
      (d.jsonDecision t.decision).getD [] = (d.jsonDecision x).getD [] → t.decision = x)
    (hok : V.verify d signed approvals request wallet now = .ok ()) :
    ∃ s, signed = some s ∧ s.tuple ∈ issued ∧ s.decision.isDeny = false ∧
      s.requestId = request.requestId ∧ s.walletId = wallet.walletId ∧
      0 ≤ now.toInt - s.signedAtUnixMs.toInt ∧
      (now.toInt - s.signedAtUnixMs.toInt) / 1000
        ≤ min s.maxAgeSecs.toNat maxDecisionAgeSecs.toNat := by
  obtain ⟨s, rfl⟩ := presented_of_verify hrequired hok
  obtain ⟨-, hsigned⟩ := verify_some_ok_iff.1 hok
  obtain ⟨hpayload, hsig, hbind, hfresh, hdecision, -⟩ := verifySigned_ok_iff.1 hsigned
  obtain ⟨vk, sg, hvk, -, -, hverify⟩ := verifyEd25519_ok_iff.1 hsig
  obtain ⟨t, ht, hmsg⟩ := hunforgeable vk _ sg hvk hverify
  rw [checkPayload_ok_iff.1 hpayload] at hmsg
  have htuple : t = s.tuple :=
    DecisionTuple.preimage_inj d.jsonDecision (hjson t ht s.decision) hmsg.symm
  obtain ⟨hrid, hwid⟩ := checkBinding_ok_iff.1 hbind
  exact ⟨s, rfl, htuple ▸ ht, not_isDeny_of_checkDecision hdecision, hrid, hwid,
    checkFresh_ok_iff.1 hfresh⟩

/-! ### A decision of the service

One request, wallet and allow decision, with the signature of the key made from thirty-two bytes
`07`; the digest and signatures are the real ones. -/

namespace Sample

def requestId : RequestId := ⟨1⟩

/-- Its wallet. -/
def walletId : WalletId := ⟨2⟩

def message : Bytes := utf8 "transfer 5 to bob"

def request (payload : SigningPayload) : SigningRequest where
  requestId := requestId
  walletId := walletId
  requester := .apiKey "mock-enclave"
  payload := payload
  hdPath := none
  receivedAtUnixMs := 1500

/-- What the policy service signed. -/
def tuple : DecisionTuple := ⟨.allow ⟨3⟩ ⟨4⟩ [], requestId, walletId, 1000, 60⟩

/-- The printed form of the decision of `tuple`. -/
def decisionJson : String :=
  "\x7b\"allow\":\x7b\"decision_id\":\"00000000000000000000000003\",\"policy_id\":" ++
    "\"00000000000000000000000004\",\"rationale\":[]\x7d\x7d"

def jsonDecision (x : PolicyDecision) : Option Bytes :=
  if x = tuple.decision then some (utf8 decisionJson) else none

def policyKey : FixedBytes 32 :=
  .ofNat 32 0xea4a6c63e29c520abef5507b132ec5f9954776aebebe7b92421eea691446d22c

/-- Its signature. -/
def policySignature : FixedBytes 64 :=
  .ofNat 64 (0xe6edfc4f44e98c7161dc63e77a98d836484fe1a5ec20f0594c544354e63bfe18 * 2 ^ 256 +
    0x8ecdc4b3d10a36084aa69f727c8037ca131ba3ab48dfcdf13b64e2176dfd0805)

/-- The decision as the enclave gets it. -/
def signed : SignedPolicyDecision where
  decision := tuple.decision
  requestId := requestId
  walletId := walletId
  rawPayload := tuple.preimage jsonDecision
  policyServiceSignature := policySignature.bytes
  signedAtUnixMs := 1000
  maxAgeSecs := 60

/-- The key of an approver. -/
def approverKey : FixedBytes 32 :=
  .ofNat 32 0xfd1724385aa0c75b64fb78cd602fa1d991fdebf76b13c58ed702eac835e9f618

/-- The hash of the message. -/
def messageHash : FixedBytes 32 :=
  .ofNat 32 0x91295ef998e17e30fc37df78c8db3149bd19e0f194eee74a26778f59a18f818f

def approvalSignature : FixedBytes 64 :=
  .ofNat 64 (0xbca78a1cd555351b118057a9d0a71828b6ad1b5a2bf7521da1d0f888a101795e * 2 ^ 256 +
    0xff8d9d50a56f9c3199aa2f1958059b9cbc9c9ac51c63d2ce670fc065ac56ce02)

/-- An approval of `message`. -/
def approval : EnclaveApproval where
  approvalId := ⟨5⟩
  approverPublicKey := approverKey.bytes
  approverScheme := .ed25519
  requestId := requestId
  messageHash := messageHash
  decision := .approve
  timestampUnixMs := 1000
  signature := approvalSignature.bytes

def otherApproverKey : FixedBytes 32 :=
  .ofNat 32 0x43a72e714401762df66b68c26dfbdf2682aaec9f2474eca4613e424a0fbafd3c

def otherApprovalSignature : FixedBytes 64 :=
  .ofNat 64 (0xf3530912142ae6ed075a3b71ef8a208e27cf3a8dd97060cbaca4f0b702e19d64 * 2 ^ 256 +
    0xbe95b121c9e3adcb0647f7ffa2555d900a1c45e35fb8e6db49deab084c1a6b05)

/-- An approval of another approver. -/
def otherApproval : EnclaveApproval :=
  { approval with
    approvalId := ⟨9⟩
    approverPublicKey := otherApproverKey.bytes
    signature := otherApprovalSignature.bytes }

/-- The digests and signatures of the sample. -/
def tables : Crypto.Tables where
  digests := [(message, messageHash)]
  keys := [(.ofNat 32 (ofBe (List.replicate 32 7)), policyKey)]
  signatures :=
    [((policyKey, tuple.preimage jsonDecision), policySignature),
     ((approverKey, approvalPreimage approval), approvalSignature),
     ((otherApproverKey, approvalPreimage otherApproval), otherApprovalSignature)]

/-- Its dependencies. -/
def deps : Deps := ⟨.ofTables tables, Rlp.reference, fun _ => none, jsonDecision⟩

/-- The same values, with no other signature valid. -/
def honestDeps : Deps :=
  ⟨.ofTablesOnly { tables with signatures := tables.signatures.take 1 }, Rlp.reference,
    fun _ => none, jsonDecision⟩

/-- The verifier with the policy key. -/
def verifier : HybridVerifier := ⟨policyKey.bytes, true⟩

end Sample

open Sample in
/-- An allowed request, one second after the decision. -/
theorem verify_decision_sound_allow :
    ∃ s, some signed = some s ∧ s.tuple ∈ ({tuple} : Set DecisionTuple) ∧
      s.decision.isDeny = false ∧ s.requestId = requestId ∧ s.walletId = walletId ∧
      0 ≤ (2000 : Int64).toInt - s.signedAtUnixMs.toInt ∧
      ((2000 : Int64).toInt - s.signedAtUnixMs.toInt) / 1000
        ≤ min s.maxAgeSecs.toNat maxDecisionAgeSecs.toNat := by
  refine verify_decision_sound (d := honestDeps) verifier {tuple}
    (some signed) [] (Sample.request (.raw message))
    (.unconstrained walletId) 2000 rfl ?_ ?_ (by decide +kernel)
  · intro vk msg sig _ hv
    have hlisted : (tables.signatures.take 1).lookup (vk, msg) = some sig := of_decide_eq_true hv
    simp only [tables, List.take_succ_cons, List.take_zero, List.lookup_cons,
      List.lookup_nil] at hlisted
    split at hlisted
    · next heq => exact ⟨tuple, rfl, (Prod.mk.inj (eq_of_beq heq)).2⟩
    · cases hlisted
  · intro t ht x hx
    obtain rfl : t = tuple := ht
    by_contra hne
    have hnone : jsonDecision x = none := if_neg (Ne.symm hne)
    rw [show honestDeps.jsonDecision = jsonDecision from rfl, hnone] at hx
    exact absurd hx (by decide +kernel)

/-! ## Approvers -/

/-- A valid approval of this request: for its id and message, and signed. -/
def ValidApprove (d : Deps) (request : SigningRequest) (ap : EnclaveApproval) : Prop :=
  ap.requestId = request.requestId ∧
    ap.messageHash = d.crypto.sha256 (d.canonicalMessage request.payload) ∧
    ap.decision = .approve ∧ verifyApprovalSignature d ap = .ok ()

/-- At least `t` pairwise distinct public keys each gave a valid approval. -/
def ApprovedByKeys (d : Deps) (request : SigningRequest) (approvals : List EnclaveApproval)
    (t : Nat) : Prop :=
  ∃ keys : List Bytes, keys.Nodup ∧ t ≤ keys.length ∧
    ∀ k ∈ keys, ∃ ap ∈ approvals, ap.approverPublicKey = k ∧ ValidApprove d request ap

variable {request : SigningRequest} {approvals : List EnclaveApproval} {now : Int64}
  {wallet : WalletCeilings} {chain : UInt64} {toAddr : Option Bytes} {raw : Bytes}
  {payload : SigningPayload}

theorem ApprovedByKeys.le_dedup {t : Nat} (h : ApprovedByKeys d request approvals t) :
    t ≤ (approvals.map EnclaveApproval.approverPublicKey).dedup.length := by
  obtain ⟨keys, hnodup, ht, hkeys⟩ := h
  have hsub : keys ⊆ (approvals.map EnclaveApproval.approverPublicKey).dedup := by
    intro k hk
    obtain ⟨ap, hap, rfl, -⟩ := hkeys k hk
    exact List.mem_dedup.2 (List.mem_map_of_mem hap)
  exact ht.trans (List.subperm_of_subset hnodup hsub).length_le

theorem validApprove_of_checkApproval {ap : EnclaveApproval}
    (h : checkApproval d request.requestId
      (d.crypto.sha256 (d.canonicalMessage request.payload)) now ap = .ok ()) :
    ValidApprove d request ap := by
  obtain ⟨hrid, hhash, -, -, hdec, hsig⟩ := checkApproval_ok_iff.1 h
  exact ⟨hrid, hhash, hdec, hsig⟩

/-- **Acceptance counts approvers iff the listed keys are distinct**, or the list contains an
approval that is refused by itself. -/
theorem checkApprovals_counts_keys_iff (request : SigningRequest)
    (approvals : List EnclaveApproval) (now : Int64) (hbound : approvals.length ≤ maxApprovals) :
    (∀ threshold : UInt8, checkApprovals d approvals request threshold now = .ok () →
      ApprovedByKeys d request approvals threshold.toNat) ↔
    (approvals.map EnclaveApproval.approverPublicKey).Nodup ∨
      ∃ ap ∈ approvals, checkApproval d request.requestId
        (d.crypto.sha256 (d.canonicalMessage request.payload)) now ap ≠ .ok () := by
  constructor
  · intro h
    by_contra hcon
    obtain ⟨hdup, hall⟩ := not_or.1 hcon
    simp only [not_exists, not_and, not_not] at hall
    -- the whole list is accepted at its own length, which exceeds the number of distinct keys
    have hlen : (UInt8.ofNat approvals.length).toNat = approvals.length := by
      rw [UInt8.toNat_ofNat']
      exact Nat.mod_eq_of_lt (by simp only [maxApprovals] at hbound; omega)
    have hreach := h (UInt8.ofNat approvals.length) (checkApprovals_ok_iff.2 ⟨hall, hlen.le⟩)
    rw [hlen] at hreach
    apply hdup
    rw [← List.dedup_eq_self]
    apply (List.dedup_sublist _).eq_of_length_le
    simpa using hreach.le_dedup
  · rintro (hnodup | ⟨ap, hap, hbad⟩) threshold hok
    · obtain ⟨hall, hle⟩ := checkApprovals_ok_iff.1 hok
      refine ⟨_, hnodup, by simpa using hle, ?_⟩
      intro k hk
      obtain ⟨ap, hap, rfl⟩ := List.mem_map.1 hk
      exact ⟨ap, hap, rfl, validApprove_of_checkApproval (hall ap hap)⟩
    · exact absurd ((checkApprovals_ok_iff.1 hok).1 ap hap) hbad

open Sample in
/-- Two approvals under two keys meet a threshold of two. -/
theorem checkApprovals_counts_keys_pair : ApprovedByKeys deps (Sample.request (.raw message))
      [approval, otherApproval] 2 :=
  (checkApprovals_counts_keys_iff (Sample.request (.raw message))
    [approval, otherApproval] 2000 (by decide)).2 (.inl (by decide +kernel)) 2
    (by decide +kernel)

open Sample in
/-- One approval listed twice meets a threshold of two. -/
theorem checkApprovals_counts_repeats : ¬ (checkApprovals deps [approval, approval]
          (Sample.request (.raw message)) 2 2000 = .ok () →
        ApprovedByKeys deps (Sample.request (.raw message)) [approval, approval] 2) := by
  intro h
  have hreach := h (by decide +kernel)
  exact absurd hreach.le_dedup (by decide +kernel)

/-! ## Ceilings -/

/-- The ceilings bound the transaction itself. -/
def CeilingsHold (wallet : WalletCeilings) (tx : Evm.DecodedEvmTx) : Prop :=
  (∀ cap, wallet.maxValuePerTx = some cap → tx.value.toNat ≤ cap.toNat) ∧
  (wallet.chainAllowlist ≠ [] → ∃ c ∈ wallet.chainAllowlist, tx.chainId = some c) ∧
  (wallet.contractAllowlist ≠ [] → ∃ a ∈ wallet.contractAllowlist, tx.toAddr = some a)

theorem checkChain_vm_ok_iff {vm : VmType} :
    checkChain (.vmTransaction vm chain toAddr raw) wallet = .ok () ↔
      (wallet.chainAllowlist ≠ [] → chain ∈ wallet.chainAllowlist) := by
  simp only [checkChain, SigningPayload.chainId]
  split
  · next h => simp [h]
  · next h => simpa using h

theorem checkTarget_evm_ok_iff {b : Bytes} :
    checkTarget (.vmTransaction .evm chain (some b) raw) wallet = .ok () ↔
      (wallet.contractAllowlist ≠ [] → ∃ a ∈ wallet.contractAllowlist, a.bytes = b) := by
  simp only [checkTarget]
  split
  · next h => simp [h]
  · next h =>
    split
    · next hlen =>
      simp only [reduceCtorEq, false_iff, not_forall, not_exists, not_and]
      refine ⟨h, fun a _ hab => ?_⟩
      rw [← hab, FixedBytes.ofBytes?_bytes] at hlen
      cases hlen
    · next a ha =>
      have hab := FixedBytes.ofBytes?_eq_some.1 ha
      split
      · next hmem => simpa using fun _ => ⟨a, hmem, hab⟩
      · next hmem =>
        simp only [reduceCtorEq, false_iff, not_forall, not_exists, not_and]
        refine ⟨h, fun a' ha' hab' => hmem ?_⟩
        rwa [FixedBytes.ext (hab.trans hab'.symm)]

theorem checkValue_evm_ok_iff {tx : Evm.DecodedEvmTx} (htx : Evm.decodeEvmTx d.rlp raw = .ok tx) :
    checkValue d (.vmTransaction .evm chain toAddr raw) wallet = .ok () ↔
      ∀ cap, wallet.maxValuePerTx = some cap → tx.value.toNat ≤ cap.toNat := by
  unfold checkValue
  cases hcap : wallet.maxValuePerTx with
  | none => simp
  | some cap =>
    simp only [htx, Option.some.injEq, forall_eq']
    split
    · next h => simpa using h
    · next h => simpa using h

/-- What the ceilings ask of a payload: of the fields it declares, and of the value decoded from
an EVM envelope. -/
structure PayloadWithin (d : Deps) (wallet : WalletCeilings) (payload : SigningPayload) :
    Prop where
  chain : ∀ chain, payload.chainId = some chain →
    wallet.chainAllowlist ≠ [] → chain ∈ wallet.chainAllowlist
  target : ∀ chain b raw, payload = .vmTransaction .evm chain (some b) raw →
    wallet.contractAllowlist ≠ [] → ∃ a ∈ wallet.contractAllowlist, a.bytes = b
  value : ∀ chain toAddr raw, payload = .vmTransaction .evm chain toAddr raw →
    ∀ cap, wallet.maxValuePerTx = some cap →
      ∃ tx, Evm.decodeEvmTx d.rlp raw = .ok tx ∧ tx.value.toNat ≤ cap.toNat

theorem checkTarget_other (h : ∀ chain b raw, payload ≠ .vmTransaction .evm chain (some b) raw) :
    checkTarget payload wallet = .ok () := by
  unfold checkTarget
  split
  · next chain b raw => exact absurd rfl (h chain b raw)
  · rfl

theorem checkValue_other (h : ∀ chain toAddr raw, payload ≠ .vmTransaction .evm chain toAddr raw) :
    checkValue d payload wallet = .ok () := by
  unfold checkValue
  split
  · next chain toAddr raw _ => exact absurd rfl (h chain toAddr raw)
  · rfl

theorem checkHardCeilings_ok_iff :
    checkHardCeilings d request wallet = .ok () ↔ PayloadWithin d wallet request.payload := by
  simp only [checkHardCeilings, seq_eq_ok]
  constructor
  · rintro ⟨hchain, htarget, hvalue⟩
    refine ⟨fun chain hp => ?_, fun chain b raw hp => ?_, fun chain toAddr raw hp cap hcap => ?_⟩
    · cases hpay : request.payload with
      | vmTransaction vm c toAddr raw =>
        rw [hpay] at hchain hp
        obtain rfl : c = chain := Option.some.inj hp
        exact checkChain_vm_ok_iff.1 hchain
      | _ => rw [hpay] at hp; cases hp
    · rw [hp] at htarget
      exact checkTarget_evm_ok_iff.1 htarget
    · rw [hp] at hvalue
      cases htx : Evm.decodeEvmTx d.rlp raw with
      | error e => simp [checkValue, hcap, htx] at hvalue
      | ok tx => exact ⟨tx, rfl, (checkValue_evm_ok_iff htx).1 hvalue cap hcap⟩
  · rintro ⟨hchain, htarget, hvalue⟩
    refine ⟨?_, ?_, ?_⟩
    · cases hpay : request.payload with
      | vmTransaction vm c toAddr raw =>
        rw [hpay] at hchain
        exact checkChain_vm_ok_iff.2 (hchain c rfl)
      | _ => rfl
    · by_cases h : ∃ chain b raw, request.payload = .vmTransaction .evm chain (some b) raw
      · obtain ⟨chain, b, raw, hp⟩ := h
        rw [hp]
        exact checkTarget_evm_ok_iff.2 (htarget chain b raw hp)
      · exact checkTarget_other fun chain b raw hp => h ⟨chain, b, raw, hp⟩
    · by_cases h : ∃ chain toAddr raw, request.payload = .vmTransaction .evm chain toAddr raw
      · obtain ⟨chain, toAddr, raw, hp⟩ := h
        rw [hp]
        cases hcap : wallet.maxValuePerTx with
        | none => simp [checkValue, hcap]
        | some cap =>
          obtain ⟨tx, htx, hle⟩ := hvalue chain toAddr raw hp cap hcap
          refine (checkValue_evm_ok_iff htx).2 fun cap' hcap' => ?_
          rw [hcap] at hcap'
          rwa [← Option.some.inj hcap']
      · exact checkValue_other fun chain toAddr raw hp => h ⟨chain, toAddr, raw, hp⟩

theorem checkHardCeilings_lists_ok_iff {wid : WalletId} {contracts : List Evm.Address}
    {chains : List UInt64} (hp : request.payload = .vmTransaction .evm chain toAddr raw) :
    checkHardCeilings d request ⟨wid, none, contracts, chains⟩ = .ok () ↔
      (chains ≠ [] → chain ∈ chains) ∧
      (∀ b, toAddr = some b → contracts ≠ [] → ∃ a ∈ contracts, a.bytes = b) := by
  rw [checkHardCeilings_ok_iff, hp]
  constructor
  · rintro ⟨hchain, htarget, -⟩
    exact ⟨hchain chain rfl, fun b hb => htarget chain b raw (by rw [hb])⟩
  · rintro ⟨hchain, htarget⟩
    refine ⟨?_, ?_, by simp⟩
    · rintro c hc
      rwa [← Option.some.inj hc]
    · rintro c b r hr
      cases hr
      exact htarget b rfl

/-- **The ceilings bound what is signed iff the declaration agrees with the envelope**: the
declared chain is the transaction's own, and a declared recipient is present and, when it is an
address at all, is the transaction's own. -/
theorem verify_ceilings_iff (request : SigningRequest) (chain : UInt64) (toAddr : Option Bytes)
    (raw : Bytes) (tx : Evm.DecodedEvmTx)
    (hp : request.payload = .vmTransaction .evm chain toAddr raw)
    (htx : Evm.decodeEvmTx d.rlp raw = .ok tx) :
    (∀ (V : HybridVerifier) (signed : Option SignedPolicyDecision)
        (approvals : List EnclaveApproval) (wallet : WalletCeilings) (now : Int64),
      V.verify d signed approvals request wallet now = .ok () → CeilingsHold wallet tx) ↔
    tx.chainId = some chain ∧
      ∃ b, toAddr = some b ∧ (b.length = 20 → tx.toAddr.map FixedBytes.bytes = some b) := by
  constructor
  · intro h
    -- a verifier that needs no decision accepts whenever the ceilings do
    have accept (contracts : List Evm.Address) (chains : List UInt64)
        (hchain : chains ≠ [] → chain ∈ chains)
        (hto : ∀ b, toAddr = some b → contracts ≠ [] → ∃ a ∈ contracts, a.bytes = b) :
        CeilingsHold ⟨request.walletId, none, contracts, chains⟩ tx :=
      h ⟨[], false⟩ none [] _ 0 ((checkHardCeilings_lists_ok_iff hp).2 ⟨hchain, hto⟩)
    refine ⟨?_, ?_⟩
    · obtain ⟨-, hchain, -⟩ := accept [] [chain] (by simp) (by simp)
      obtain ⟨c, hc, htxc⟩ := hchain (by simp)
      rwa [List.mem_singleton.1 hc] at htxc
    · cases toAddr with
      | none =>
        -- two lists without a common address cannot both hold the recipient
        obtain ⟨-, -, h1⟩ := accept [FixedBytes.ofNat 20 1] [] (by simp) (by simp)
        obtain ⟨-, -, h2⟩ := accept [FixedBytes.ofNat 20 2] [] (by simp) (by simp)
        obtain ⟨a, ha, hta⟩ := h1 (by simp)
        obtain ⟨a', ha', hta'⟩ := h2 (by simp)
        rw [List.mem_singleton.1 ha] at hta
        rw [List.mem_singleton.1 ha', hta] at hta'
        cases hta'
      | some b =>
        refine ⟨b, rfl, fun hlen => ?_⟩
        obtain ⟨-, -, hb⟩ := accept [⟨b, hlen⟩] [] (by simp) (by simp)
        obtain ⟨a, ha, hta⟩ := hb (by simp)
        rw [hta, List.mem_singleton.1 ha]
        rfl
  · rintro ⟨hchain, b, rfl, hto⟩ V signed approvals wallet now hok
    have hc := checkHardCeilings_of_verify hok
    simp only [checkHardCeilings, seq_eq_ok, hp, checkChain_vm_ok_iff, checkTarget_evm_ok_iff,
      checkValue_evm_ok_iff htx] at hc
    obtain ⟨hchains, hcontracts, hvalue⟩ := hc
    refine ⟨hvalue, fun hne => ⟨chain, hchains hne, hchain⟩, fun hne => ?_⟩
    obtain ⟨a, ha, rfl⟩ := hcontracts hne
    refine ⟨a, ha, ?_⟩
    obtain ⟨a', hta', haa'⟩ := Option.map_eq_some_iff.1 (hto a.length_bytes)
    rw [hta', FixedBytes.ext haa']

namespace Sample

/-- A signed legacy transaction on chain 1 that sends 5 to the address of twenty bytes `bb`. -/
def rawTx : Bytes :=
  toBe 32 0xdf800182520894bbbbbbbbbbbbbbbbbbbbbbbbbbbbbbbbbbbbbbbb0580250101

def recipient : Evm.Address := .replicate 20 0xbb

def friend : Evm.Address := .replicate 20 0xaa

/-- The transaction as it is decoded. -/
def tx : Evm.DecodedEvmTx where
  txType := .legacy
  chainId := some 1
  nonce := 0
  toAddr := some recipient
  value := 5
  gasLimit := 21000
  maxFeePerGas := none
  maxPriorityFeePerGas := none
  gasPrice := some 1
  data := []
  methodSelector := none
  accessList := []
  blobVersionedHashes := []

/-- Caps at 10, and only the address `aa…` on chain 137. -/
def ceilings : WalletCeilings := ⟨walletId, some 10, [friend], [137]⟩

theorem declared_samples :
    Evm.decodeEvmTx deps.rlp rawTx = .ok tx ∧
    verifier.verify deps (some signed) []
      (Sample.request (.vmTransaction .evm 1 (some recipient.bytes) rawTx))
      ⟨walletId, some 10, [recipient], [1]⟩ 2000 = .ok () ∧
    verifier.verify deps (some signed) []
      (Sample.request (.vmTransaction .evm 137 (some friend.bytes) rawTx)) ceilings 2000
        = .ok () := by
  decide +kernel

end Sample

open Sample

/-- What is declared is what the bytes say. -/
theorem verify_ceilings_honest :
    CeilingsHold ⟨walletId, some 10, [recipient], [1]⟩ tx :=
  (verify_ceilings_iff (Sample.request (.vmTransaction .evm 1 (some recipient.bytes) rawTx))
      1 (some recipient.bytes) rawTx tx rfl declared_samples.1).2
    ⟨rfl, _, rfl, fun _ => rfl⟩ verifier (some signed) [] _ 2000
    declared_samples.2.1

/-- Declaring chain 137 and the listed address next to the same bytes passes every ceiling. -/
theorem verify_ceilings_misdeclared :
    Evm.decodeEvmTx deps.rlp rawTx = .ok tx ∧
    ¬ (verifier.verify deps (some signed) []
          (Sample.request (.vmTransaction .evm 137 (some friend.bytes) rawTx))
          ceilings 2000 = .ok () →
        CeilingsHold ceilings tx) := by
  refine ⟨declared_samples.1, fun h => ?_⟩
  obtain ⟨-, hchain, -⟩ := h declared_samples.2.2
  obtain ⟨c, hc, htx⟩ := hchain (by decide)
  rw [List.mem_singleton.1 hc] at htx
  cases htx

end QfcServerWallet.Enclave
