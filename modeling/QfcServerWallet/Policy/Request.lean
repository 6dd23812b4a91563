import QfcServerWallet.Types

/-!
# Signing requests and policy decisions

The input and output types of the policy engine (`qfc-policy`: `request.rs`, `decision.rs`,
`vm.rs`) and the bytes a payload stands for.

* A `SigningPayload` is what the caller declares. A `vmTransaction` carries a declared chain and
  recipient next to the raw envelope; nothing in the type ties the declaration to the envelope.
* `canonicalSigningMessage` is the byte string that is hashed, approved and signed for a payload.
  The verifier (`canonical_signing_message`) and the service (`canonical_message_bytes`) each have
  a copy of it with the same body. `serde_json::to_vec` is the parameter `toVec`; it can fail, and
  a failure gives the empty string.
* The source's field `to` is `toAddr` here (`to` is a token of Lean).
-/

namespace QfcServerWallet.Policy

open Lib

/-- `primitive_types::U256` -/
abbrev U256 := BitVec 256

/-! ## Requests -/

/-- Who asks for the signature. -/
inductive Requester where
  | apiKey (keyId : String)
  | oAuthSubject (sub : String)
  | nestedWallet (walletId : WalletId)
  | onChainContract (chainId : UInt64) (address : Bytes)
  deriving DecidableEq

/-- The virtual machine a transaction targets. -/
inductive VmType where
  | evm
  | qvm
  | wasm
  deriving DecidableEq, Repr

/-- What is to be signed. -/
inductive SigningPayload where
  | raw (bytes : Bytes)
  | personalSign (bytes : Bytes)
  | typedData (json : Json)
  | vmTransaction (vm : VmType) (chainId : UInt64) (toAddr : Option Bytes) (raw : Bytes)

namespace SigningPayload

/-- The declared virtual machine. -/
def vm : SigningPayload → Option VmType
  | vmTransaction vm _ _ _ => some vm
  | _ => none

/-- The declared chain. -/
def chainId : SigningPayload → Option UInt64
  | vmTransaction _ chainId _ _ => some chainId
  | _ => none

/-- The declared recipient. -/
def toAddr : SigningPayload → Option Bytes
  | vmTransaction _ _ toAddr _ => toAddr
  | _ => none

end SigningPayload

/-- The bytes that are signed for a payload. -/
def canonicalSigningMessage (toVec : Json → Option Bytes) : SigningPayload → Bytes
  | .raw bytes => bytes
  | .personalSign bytes => bytes
  | .typedData json => (toVec json).getD []
  | .vmTransaction _ _ _ raw => raw

/-- A request to sign. -/
structure SigningRequest where
  requestId : RequestId
  walletId : WalletId
  requester : Requester
  payload : SigningPayload
  hdPath : Option HdPath
  receivedAtUnixMs : Int64

/-! ## Decoded transactions -/

/-- The view of a transaction that is common to all virtual machines. -/
structure DecodedTx where
  chainId : UInt64
  toAddr : Option Bytes
  value : Option U256
  gasLimit : Option UInt64
  methodSelector : Option (FixedBytes 4)
  rawArgs : Option Bytes
  deriving DecidableEq

/-- `dyn VmDecoder` -/
abbrev VmDecoder := VmType → Bytes → Option DecodedTx

/-! ## Decisions -/

/-- What a rule did. -/
inductive RuleEffect where
  | allow
  | deny
  | requireQuorum
  deriving DecidableEq, Repr

/-- One entry of a decision's rule trace. -/
structure RuleHit where
  ruleId : String
  effect : RuleEffect
  reason : Option String
  deriving DecidableEq

/-- Why a request is denied. -/
inductive DenyReason where
  | chainNotAllowed
  | chainDenied
  | requesterNotAllowed
  | walletInactive
  | other (reason : String)
  deriving DecidableEq

/-- The verdict on a request. -/
inductive PolicyDecision where
  | allow (decisionId : DecisionId) (policyId : PolicyId) (rationale : List RuleHit)
  | deny (decisionId : DecisionId) (policyId : PolicyId) (reason : DenyReason)
      (rationale : List RuleHit)
  | requireQuorum (decisionId : DecisionId) (policyId : PolicyId) (threshold total : UInt8)
      (approverSet : ApproverSetId) (rationale : List RuleHit)
  deriving DecidableEq

namespace PolicyDecision

/-- Its id. -/
def decisionId : PolicyDecision → DecisionId
  | allow id _ _ | deny id _ _ _ | requireQuorum id _ _ _ _ _ => id

/-- The decision is a hard deny. -/
def isDeny : PolicyDecision → Bool
  | deny .. => true
  | _ => false

/-- The decision permits signing without a quorum. -/
def isImmediateAllow : PolicyDecision → Bool
  | allow .. => true
  | _ => false

end PolicyDecision

/-- Why there is no verdict. -/
inductive PolicyError where
  | misconfiguration (what : String)
  | internal (what : String)
  deriving DecidableEq

end QfcServerWallet.Policy
