import QfcServerWallet.Lib.Crypto
import QfcServerWallet.Policy.Request

/-!
# Signed policy decisions

`qfc-policy`: `signed_decision.rs` (the preimage a decision is signed over) and
`policy_service_signer.rs` (`LocalPolicyServiceSigner::sign_decision`).

The preimage is the domain, the JSON of the decision, and four fields of fixed width, with a zero
byte before each part. `serde_json::to_vec` of a decision is the parameter `toVec`.

Result: `buildPreimage_inj`. Because everything after the JSON has a fixed width, the preimage can
be read from its end, so equal preimages have equal ids, times and ages, and equal JSON; the JSON
may contain any byte, zero included.
-/

namespace QfcServerWallet.Policy

open Lib

/-- `POLICY_DECISION_DOMAIN` -/
def policyDecisionDomain : String := "qfc-policy-decision-v1"

/-- A decision with its signature. -/
structure SignedPolicyDecision where
  decision : PolicyDecision
  requestId : RequestId
  walletId : WalletId
  rawPayload : Bytes
  policyServiceSignature : Bytes
  signedAtUnixMs : Int64
  maxAgeSecs : UInt32
  deriving DecidableEq

section

variable (toVec : PolicyDecision → Option Bytes)

/-- The bytes the policy service signs. -/
def buildPreimage (decision : PolicyDecision) (requestId : RequestId) (walletId : WalletId)
    (signedAtUnixMs : Int64) (maxAgeSecs : UInt32) : Bytes :=
  utf8 policyDecisionDomain ++ 0x00 :: (toVec decision).getD [] ++ 0x00 :: requestId.textBytes
    ++ 0x00 :: walletId.textBytes ++ 0x00 :: int64Be signedAtUnixMs ++ 0x00 :: uint32Be maxAgeSecs

/-- What a signature of the policy service vouches for. -/
structure DecisionTuple where
  decision : PolicyDecision
  requestId : RequestId
  walletId : WalletId
  signedAtUnixMs : Int64
  maxAgeSecs : UInt32
  deriving DecidableEq

/-- What is signed. -/
def DecisionTuple.preimage (t : DecisionTuple) : Bytes :=
  buildPreimage toVec t.decision t.requestId t.walletId t.signedAtUnixMs t.maxAgeSecs

/-- The tuple a presented decision claims to be. -/
def SignedPolicyDecision.tuple (s : SignedPolicyDecision) : DecisionTuple :=
  ⟨s.decision, s.requestId, s.walletId, s.signedAtUnixMs, s.maxAgeSecs⟩

/-- The preimage of a decision's own fields. -/
def SignedPolicyDecision.preimage (s : SignedPolicyDecision) : Bytes := s.tuple.preimage toVec

/-- **The preimage determines what was signed**, up to the JSON of the decision. -/
theorem buildPreimage_inj {d d' : PolicyDecision} {r r' : RequestId} {w w' : WalletId}
    {t t' : Int64} {a a' : UInt32}
    (h : buildPreimage toVec d r w t a = buildPreimage toVec d' r' w' t' a') :
    (toVec d).getD [] = (toVec d').getD [] ∧ r = r' ∧ w = w' ∧ t = t' ∧ a = a' := by
  unfold buildPreimage at h
  -- peel the fixed-width fields off the end
  obtain ⟨h, ha⟩ := List.append_inj' h (by simp)
  obtain ⟨h, ht⟩ := List.append_inj' h (by simp)
  obtain ⟨h, hw⟩ := List.append_inj' h (by simp)
  obtain ⟨h, hr⟩ := List.append_inj' h (by simp)
  obtain ⟨-, hd⟩ := List.append_inj h rfl
  simp only [List.cons.injEq, true_and] at ha ht hw hr hd
  exact ⟨hd, Ident.textBytes_inj hr, Ident.textBytes_inj hw, int64Be_inj ht, uint32Be_inj ha⟩

theorem DecisionTuple.preimage_inj {t t' : DecisionTuple}
    (hjson : (toVec t.decision).getD [] = (toVec t'.decision).getD [] → t.decision = t'.decision)
    (h : t.preimage toVec = t'.preimage toVec) : t = t' := by
  obtain ⟨hd, hr, hw, ht, ha⟩ := buildPreimage_inj toVec h
  obtain ⟨d, r, w, s, a⟩ := t
  obtain ⟨d', r', w', s', a'⟩ := t'
  obtain rfl : d = d' := hjson hd
  subst hr hw ht ha
  rfl

/-- `LocalPolicyServiceSigner::sign_decision`, at clock reading `now`. -/
def signDecision (c : Crypto) (signingKey : FixedBytes 32) (now : Int64)
    (decision : PolicyDecision) (requestId : RequestId) (walletId : WalletId)
    (maxAgeSecs : UInt32) : SignedPolicyDecision :=
  let preimage := buildPreimage toVec decision requestId walletId now maxAgeSecs
  { decision, requestId, walletId
    rawPayload := preimage
    policyServiceSignature := (c.ed25519Sign signingKey preimage).bytes
    signedAtUnixMs := now
    maxAgeSecs }

end

end QfcServerWallet.Policy
