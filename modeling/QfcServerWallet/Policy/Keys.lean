import QfcServerWallet.Policy.RateLimit
import QfcServerWallet.Lib.Text

/-!
# Keys of requesters and of rate-limit buckets

`requester_key` names a requester in the allow and deny sets of the static policy, in the audit log
(`Actor::Requester`) and in the buckets of the rate limiter; `rate_limit_key` names a bucket. Both
are plain concatenations around text that the requester chooses.

The four variants of a requester differ in the first character of their key. A text the requester
chooses comes last, so that it cannot run into another part; a chain id ends at the first colon,
since neither decimal nor hex digits have one.

Results: `requesterKey_inj` and **`keys_never_collide`**.
-/

namespace QfcServerWallet.Policy

open Lib

/-! ## Requesters -/

/-- The first character of the key. -/
def Requester.tag : Requester → Char
  | .apiKey _ => 'a'
  | .oAuthSubject _ => 'o'
  | .nestedWallet _ => 'w'
  | .onChainContract _ _ => 'c'

theorem head_requesterKey (r : Requester) : (requesterKey r).toList.head? = some r.tag := by
  cases r <;> simp [requesterKey, Requester.tag]

theorem colon_not_mem_hexChars (b : Bytes) : ':' ∉ hexChars b := by
  intro h
  obtain ⟨n, hn, hc⟩ := mem_hexChars h
  revert n
  decide

theorem hexChars_inj {a b : Bytes} (h : hexChars a = hexChars b) : a = b :=
  Option.some.inj (by rw [← ofHexChars?_hexChars a, h, ofHexChars?_hexChars])

theorem toList_contractKey (chainId : UInt64) (address : Bytes) :
    (requesterKey (.onChainContract chainId address)).toList =
      "contract:".toList ++ (decimal chainId.toNat ++ ':' :: hexChars address) := by
  simp [requesterKey, hexEncode, decimal, toString]

/-- **A key names one requester**, whatever text an API key or a subject has. -/
theorem requesterKey_inj {r r' : Requester} (h : requesterKey r = requesterKey r') : r = r' := by
  have htag : r.tag = r'.tag := by
    have hhead := head_requesterKey r
    rw [h, head_requesterKey r'] at hhead
    exact (Option.some.inj hhead).symm
  cases r with
  | apiKey keyId =>
    cases r' with
    | apiKey keyId' => rw [(String.append_right_inj "api:").1 h]
    | _ => simp [Requester.tag] at htag
  | oAuthSubject sub =>
    cases r' with
    | oAuthSubject sub' => rw [(String.append_right_inj "oauth:").1 h]
    | _ => simp [Requester.tag] at htag
  | nestedWallet walletId =>
    cases r' with
    | nestedWallet walletId' => rw [Ident.toString_inj ((String.append_right_inj "wallet:").1 h)]
    | _ => simp [Requester.tag] at htag
  | onChainContract chainId address =>
    cases r' with
    | onChainContract chainId' address' =>
      have hchars := congrArg String.toList h
      rw [toList_contractKey, toList_contractKey, List.append_right_inj,
        List.append_cons_inj_of_notMem (not_mem_decimal rfl _) (colon_not_mem_hexChars _)] at hchars
      obtain ⟨hchain, -, haddress⟩ := hchars
      rw [UInt64.toNat_inj.1 (decimal_inj hchain), hexChars_inj haddress]
    | _ => simp [Requester.tag] at htag

/-! ## Buckets -/

/-- What a scope is about: a wallet, a requester or the two. -/
def RateLimitScope.identity (scope : RateLimitScope) (request : SigningRequest) :
    Option WalletId × Option Requester :=
  match scope with
  | .perWallet => (some request.walletId, none)
  | .perRequester => (none, some request.requester)
  | .perWalletRequester => (some request.walletId, some request.requester)

theorem rateLimitKey_congr {scope : RateLimitScope} {request request' : SigningRequest}
    (h : scope.identity request = scope.identity request') :
    rateLimitKey scope request = rateLimitKey scope request' := by
  cases scope <;> simp_all [RateLimitScope.identity, rateLimitKey]

theorem scope_of_rateLimitKey {s t : RateLimitScope} {req req' : SigningRequest}
    (h : rateLimitKey s req = rateLimitKey t req') : s = t := by
  have htwo := congrArg (fun key => key.toList.take 2) h
  cases s <;> cases t <;> simp [rateLimitKey] at htwo ⊢

theorem identity_of_rateLimitKey {scope : RateLimitScope} {req req' : SigningRequest}
    (h : rateLimitKey scope req = rateLimitKey scope req') :
    scope.identity req = scope.identity req' := by
  cases scope with
  | perWallet =>
    have hwallet := Ident.toString_inj ((String.append_right_inj "wallet:").1 h)
    rw [RateLimitScope.identity, RateLimitScope.identity, hwallet]
  | perRequester =>
    have hrequester := requesterKey_inj ((String.append_right_inj "req:").1 h)
    rw [RateLimitScope.identity, RateLimitScope.identity, hrequester]
  | perWalletRequester =>
    -- the text of a wallet id has a fixed width
    have hchars := congrArg String.toList h
    simp only [rateLimitKey, String.toList_append, List.append_assoc,
      List.append_right_inj] at hchars
    obtain ⟨hwallet, hrest⟩ := List.append_inj hchars (by simp [Ident.toString, Ident.chars])
    have hrequester := requesterKey_inj (String.toList_injective (List.append_cancel_left hrest))
    rw [RateLimitScope.identity, RateLimitScope.identity, hrequester,
      Ident.toString_inj (String.toList_injective hwallet)]

/-- **Requests share a bucket exactly when the scopes are the same and are about the same wallet,
requester or pair of the two; and a requester's key is theirs alone.** -/
theorem keys_never_collide (s t : RateLimitScope) (req req' : SigningRequest) :
    (rateLimitKey s req = rateLimitKey t req' ↔ s = t ∧ s.identity req = t.identity req') ∧
      ∀ r r' : Requester, requesterKey r = requesterKey r' ↔ r = r' := by
  refine ⟨⟨fun h => ?_, ?_⟩, fun r r' => ⟨requesterKey_inj, congrArg requesterKey⟩⟩
  · obtain rfl := scope_of_rateLimitKey h
    exact ⟨rfl, identity_of_rateLimitKey h⟩
  · rintro ⟨rfl, h⟩
    exact rateLimitKey_congr h

end QfcServerWallet.Policy
