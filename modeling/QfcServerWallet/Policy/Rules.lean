import QfcServerWallet.Policy.Request

/-!
# The rule language

`qfc-policy/src/rules.rs`, and from `rule_set_policy.rs` what is checked when a rule set is loaded
(`validate`) and the helpers that read a rule's strings (`parse_u256`, `address_eq`, `address_in`,
`time_window_contains`).

* A rule set comes from JSON through `serde`; the model starts at the parsed `RuleSet`.
* `U256::from_dec_str` (`primitive-types`) reads ASCII digits and refuses a value of `2^256` or
  more; `fromDecStr` is that function, with its error dropped as `parse_u256` drops it.
* `OffsetDateTime::from_unix_timestamp` (`time`, without `large-dates`) accepts the years -9999 to
  9999; weekday and hour are read off the second count.

Results: `hexToBytes_hexEncode`, `addressEq_iff`, `addressIn_iff` and `validate_ok_iff`.
-/

namespace QfcServerWallet.Policy

open Lib

variable {b : Bytes}

/-! ## Rules -/

/-- What a rate-limit bucket is keyed on. -/
inductive RateLimitScope where
  | perWallet
  | perRequester
  | perWalletRequester
  deriving DecidableEq, Repr

/-- What activates a quorum rule. -/
inductive QuorumTrigger where
  | always
  | valueGte (chainId : UInt64) (value : String)
  | outsideTimeWindow (weekdayMask hourUtcStart hourUtcEnd : UInt8)
  deriving DecidableEq

/-- The bounds of a `VmShape` rule. -/
structure VmShapeConstraints where
  maxGas : Option UInt64
  allowedMethodSelectors : Option (List String)
  maxValue : Option String
  deriving DecidableEq

/-- A rule. -/
inductive Rule where
  | allowChain (chainIds : List UInt64)
  | denyChain (chainIds : List UInt64)
  | allowContract (chainId : UInt64) (addresses : List String)
  | denyContract (chainId : UInt64) (addresses : List String)
  | allowMethod (chainId : UInt64) (contract : Option String) (selectors : List String)
  | valueCap (chainId : UInt64) (maxValue : String)
  | timeWindow (weekdayMask hourUtcStart hourUtcEnd : UInt8)
  | rateLimit (tokens refillPerSecs : UInt32) (scope : RateLimitScope)
  | requireQuorum (threshold total : UInt8) (approverSet : ApproverSetId)
      (trigger : QuorumTrigger)
  | vmShape (vm : VmType) (constraints : VmShapeConstraints)
  deriving DecidableEq

/-- The `kind` tag of a rule. -/
inductive RuleKind where
  | allowChain
  | denyChain
  | allowContract
  | denyContract
  | allowMethod
  | valueCap
  | timeWindow
  | rateLimit
  | requireQuorum
  | vmShape
  deriving DecidableEq, Repr

/-- Its kind. -/
def Rule.kind : Rule → RuleKind
  | allowChain .. => .allowChain
  | denyChain .. => .denyChain
  | allowContract .. => .allowContract
  | denyContract .. => .denyContract
  | allowMethod .. => .allowMethod
  | valueCap .. => .valueCap
  | timeWindow .. => .timeWindow
  | rateLimit .. => .rateLimit
  | requireQuorum .. => .requireQuorum
  | vmShape .. => .vmShape

/-- The outcome when no rule ends the evaluation. -/
inductive AllowDefault where
  | allow
  | deny
  deriving DecidableEq, Repr

/-- A rule set, as it is configured. -/
structure RuleSet where
  version : UInt32
  policyId : PolicyId
  rules : List Rule
  default : AllowDefault
  deriving DecidableEq

/-! ## Hex strings -/

/-- The characters after an optional `0x` or `0X`. -/
def strippedHex (s : String) : List Char :=
  match s.toList with
  | '0' :: 'x' :: rest => rest
  | '0' :: 'X' :: rest => rest
  | cs => cs

/-- `char::is_ascii_hexdigit` -/
def isAsciiHexdigit (c : Char) : Bool := (hexValue? c).isSome

/-- `char::to_ascii_lowercase` -/
def toAsciiLowercase (c : Char) : Char :=
  if 65 ≤ c.toNat ∧ c.toNat ≤ 90 then Char.ofNat (c.toNat + 32) else c

/-- The lowercase form of a hex string of whole bytes, without its `0x`. -/
def normalizeHex (s : String) : Option String :=
  let stripped := strippedHex s
  if stripped = [] ∨ stripped.all isAsciiHexdigit = false then none
  else if stripped.length % 2 ≠ 0 then none
  else some (String.ofList (stripped.map toAsciiLowercase))

/-- The bytes of a hex text. -/
def hexToBytes (s : String) : Option Bytes := do
  let canonical ← normalizeHex s
  hexDecode canonical

/-- A configured address is the recipient. -/
def addressEq (addrHex : String) (toBytes : Bytes) : Bool :=
  match normalizeHex addrHex with
  | none => false
  | some canonical =>
    match hexDecode canonical with
    | none => false
    | some bytes => bytes = toBytes

/-- One of the addresses matches. -/
def addressIn (addresses : List String) (toBytes : Bytes) : Bool :=
  addresses.any fun a => addressEq a toBytes

/-! ## Decimal strings -/

/-- The characters `str::trim` removes at both ends (Unicode `White_Space`). -/
def isWhitespace (c : Char) : Bool :=
  let v := c.toNat
  (9 ≤ v && v ≤ 13) || v = 0x20 || v = 0x85 || v = 0xa0 || v = 0x1680 ||
    (0x2000 ≤ v && v ≤ 0x200a) || v = 0x2028 || v = 0x2029 || v = 0x202f || v = 0x205f ||
    v = 0x3000

/-- `str::trim` -/
def trim (s : String) : List Char :=
  ((s.toList.dropWhile isWhitespace).reverse.dropWhile isWhitespace).reverse

/-- One digit of `U256::from_dec_str`; `none` at a character that is no digit or an overflow. -/
def decStep (res : Option Nat) (c : Char) : Option Nat := do
  let n ← res
  if c.toNat < 48 ∨ 57 < c.toNat then none
  else
    let next := 10 * n + (c.toNat - 48)
    if next < 2 ^ 256 then some next else none

/-- `U256::from_dec_str` -/
def fromDecStr (cs : List Char) : Option U256 :=
  (cs.foldl decStep (some 0)).map (BitVec.ofNat 256)

/-- A decimal number. -/
def parseU256 (s : String) : Option U256 :=
  let trimmed := trim s
  if trimmed = [] then none else fromDecStr trimmed

/-! ## Time windows -/

/-- The instants `OffsetDateTime::from_unix_timestamp` accepts. -/
def validTimestamp (secs : Int) : Bool :=
  decide (-377705116800 ≤ secs) && decide (secs ≤ 253402300799)

/-- `Weekday::number_days_from_monday`; the epoch was a Thursday. -/
def weekdayFromMonday (secs : Int) : Nat := ((secs / 86400 + 3) % 7).toNat

/-- The hour of the day. -/
def utcHour (secs : Int) : Nat := (secs % 86400 / 3600).toNat

/-- The instant lies in the UTC window, which wraps midnight when it ends before it starts. -/
def timeWindowContains (unixMs : Int64) (weekdayMask hourUtcStart hourUtcEnd : UInt8) : Bool :=
  -- `i64` division truncates towards zero
  let secs := (unixMs / 1000).toInt
  if validTimestamp secs = false then false
  else if weekdayMask.toNat / 2 ^ weekdayFromMonday secs % 2 ≠ 1 then false
  else if hourUtcEnd > hourUtcStart then
    decide (hourUtcStart.toNat ≤ utcHour secs) && decide (utcHour secs < hourUtcEnd.toNat)
  else decide (hourUtcStart.toNat ≤ utcHour secs) || decide (utcHour secs < hourUtcEnd.toNat)

/-! ## Validation -/

/-- `.ok_or(PolicyError::Misconfiguration(what))` -/
def orMisconfiguration {α : Type} (what : String) : Option α → Except PolicyError α
  | some a => .ok a
  | none => .error (.misconfiguration what)

/-- `if !cond { return Err(PolicyError::Misconfiguration(what)) }` -/
def requireConfig (what : String) (cond : Prop) [Decidable cond] : Except PolicyError Unit :=
  if cond then .ok () else .error (.misconfiguration what)

/-- Every string is a selector of exactly four bytes. -/
def validateSelectors (badHex badLength : String) (selectors : List String) :
    Except PolicyError Unit :=
  selectors.forM fun sel => do
    let bytes ← orMisconfiguration badHex (hexToBytes sel)
    requireConfig badLength (bytes.length = 4)

/-- Every address is hex. -/
def validateAddresses (addresses : List String) : Except PolicyError Unit :=
  addresses.forM fun a =>
    requireConfig "invalid hex address in contract rule" (hexToBytes a ≠ none)

/-- The strings of a rule can be read. -/
def validateRule : Rule → Except PolicyError Unit
  | .allowContract _ addresses | .denyContract _ addresses => validateAddresses addresses
  | .allowMethod _ contract selectors => do
    match contract with
    | none => .ok ()
    | some c => requireConfig "invalid hex contract in allow_method rule" (hexToBytes c ≠ none)
    validateSelectors "invalid hex selector in allow_method rule"
      "method selector must be exactly 4 bytes" selectors
  | .valueCap _ maxValue => do
    let _ ← orMisconfiguration "invalid decimal U256 in value_cap rule" (parseU256 maxValue)
  | .rateLimit tokens _ _ => requireConfig "rate_limit tokens must be > 0" (tokens ≠ 0)
  | .timeWindow weekdayMask hourUtcStart hourUtcEnd => do
    requireConfig "weekday_mask bit 7 is reserved" (weekdayMask &&& 0x80 = 0)
    requireConfig "time_window hours out of range" (hourUtcStart ≤ 23 ∧ hourUtcEnd ≤ 24)
  | .requireQuorum threshold total _ trigger => do
    requireConfig "quorum threshold/total invalid"
      (threshold ≠ 0 ∧ total ≠ 0 ∧ threshold ≤ total)
    match trigger with
    | .valueGte _ value => do
      let _ ← orMisconfiguration "invalid decimal U256 in quorum trigger" (parseU256 value)
    | _ => .ok ()
  | .vmShape _ constraints => do
    match constraints.maxValue with
    | none => .ok ()
    | some v => do
      let _ ← orMisconfiguration "invalid decimal U256 in vm_shape.max_value" (parseU256 v)
    match constraints.allowedMethodSelectors with
    | none => .ok ()
    | some sels =>
      validateSelectors "invalid hex selector in vm_shape rule"
        "vm_shape selector must be exactly 4 bytes" sels
  | .allowChain _ | .denyChain _ => .ok ()

/-- What a rule set is checked for. -/
def validate (rs : RuleSet) : Except PolicyError Unit := do
  requireConfig "unsupported policy version" (rs.version = 1)
  rs.rules.forM validateRule

/-! ## What hex strings denote -/

theorem isAsciiHexdigit_hexDigit : ∀ n < 16, isAsciiHexdigit (hexDigit n) = true := by decide

theorem toAsciiLowercase_hexDigit : ∀ n < 16, toAsciiLowercase (hexDigit n) = hexDigit n := by
  decide

theorem mem_hexChars {c : Char} (h : c ∈ hexChars b) : ∃ n < 16, c = hexDigit n := by
  induction b with
  | nil => cases h
  | cons x b ih =>
    have hx : x.toNat < 256 := x.toNat_lt
    rcases List.mem_cons.1 h with rfl | h
    · exact ⟨_, by omega, rfl⟩
    rcases List.mem_cons.1 h with rfl | h
    · exact ⟨_, by omega, rfl⟩
    · exact ih h

theorem strippedHex_hexEncode (b : Bytes) : strippedHex (hexEncode b) = hexChars b := by
  have hno (c : Char) (hc : ∀ n < 16, hexDigit n ≠ c) : c ∉ hexChars b := by
    intro h
    obtain ⟨n, hn, rfl⟩ := mem_hexChars h
    exact hc n hn rfl
  rw [strippedHex, hexEncode, String.toList_ofList]
  split
  · next h => exact absurd (h ▸ by simp) (hno 'x' (by decide))
  · next h => exact absurd (h ▸ by simp) (hno 'X' (by decide))
  · rfl

theorem normalizeHex_hexEncode (hb : b ≠ []) : normalizeHex (hexEncode b) = some (hexEncode b) := by
  have hne : hexChars b ≠ [] := by
    cases b with
    | nil => exact absurd rfl hb
    | cons x b => simp [hexChars]
  have hall : (hexChars b).all isAsciiHexdigit = true := by
    rw [List.all_eq_true]
    intro c hc
    obtain ⟨n, hn, rfl⟩ := mem_hexChars hc
    exact isAsciiHexdigit_hexDigit n hn
  have hlower : (hexChars b).map toAsciiLowercase = hexChars b := by
    conv_rhs => rw [← List.map_id (hexChars b)]
    refine List.map_congr_left fun c hc => ?_
    obtain ⟨n, hn, rfl⟩ := mem_hexChars hc
    exact toAsciiLowercase_hexDigit n hn
  rw [normalizeHex, strippedHex_hexEncode]
  simp [hne, hall, hlower, hexEncode]

/-- **The hex text of a non-empty byte string denotes it.** -/
theorem hexToBytes_hexEncode (hb : b ≠ []) : hexToBytes (hexEncode b) = some b := by
  simp [hexToBytes, normalizeHex_hexEncode hb]

theorem hexToBytes_ne_nil (s : String) : hexToBytes s ≠ some [] := by
  intro h
  simp only [hexToBytes, Option.bind_eq_bind, Option.bind_eq_some_iff, normalizeHex] at h
  obtain ⟨canonical, hn, hd⟩ := h
  split at hn
  · cases hn
  next hne =>
  split at hn
  · cases hn
  cases hn
  obtain ⟨c, cs, hcs⟩ := List.exists_cons_of_ne_nil (not_or.1 hne).1
  rw [hexDecode, String.toList_ofList, hcs, List.map_cons] at hd
  cases hmap : cs.map toAsciiLowercase with
  | nil => simp [hmap, ofHexChars?] at hd
  | cons d ds => simp [hmap, ofHexChars?, Option.bind_eq_some_iff] at hd

/-- A configured address matches exactly the bytes it denotes. -/
theorem addressEq_iff {a : String} : addressEq a b = true ↔ hexToBytes a = some b := by
  unfold addressEq hexToBytes
  cases normalizeHex a with
  | none => simp
  | some canonical => cases h : hexDecode canonical <;> simp [h]

/-- **A list of addresses matches exactly the byte strings its members denote.** -/
theorem addressIn_iff {addresses : List String} :
    addressIn addresses b = true ↔ ∃ a ∈ addresses, hexToBytes a = some b := by
  simp [addressIn, addressEq_iff]

/-! ## What a loaded rule set guarantees -/

theorem orMisconfiguration_eq_ok {α : Type} {what : String} {x : Option α} {a : α} :
    orMisconfiguration what x = .ok a ↔ x = some a := by
  cases x <;> simp [orMisconfiguration]

theorem requireConfig_eq_ok {what : String} {cond : Prop} [Decidable cond] :
    requireConfig what cond = .ok () ↔ cond := by
  unfold requireConfig
  split
  · next h => simp [h]
  · next h => simp [h]

theorem validate_ok_iff {rs : RuleSet} :
    validate rs = .ok () ↔ rs.version = 1 ∧ ∀ r ∈ rs.rules, validateRule r = .ok () := by
  simp only [validate, seq_eq_ok, requireConfig_eq_ok, forM_eq_ok]

theorem validateRule_valueCap_iff {chain : UInt64} {mx : String} :
    validateRule (.valueCap chain mx) = .ok () ↔ ∃ m, parseU256 mx = some m := by
  simp only [validateRule, bind_eq_ok, orMisconfiguration_eq_ok, pure, Except.pure, and_true]

theorem parses_of_validateRule_vmShape {vm : VmType} {constraints : VmShapeConstraints}
    {mx : String} (h : validateRule (.vmShape vm constraints) = .ok ())
    (hmx : constraints.maxValue = some mx) : ∃ m, parseU256 mx = some m := by
  simp only [validateRule, hmx, bind_eq_ok, orMisconfiguration_eq_ok] at h
  obtain ⟨m, hm, -⟩ := h
  exact ⟨m, hm⟩

theorem validateAddresses_iff {addresses : List String} :
    validateAddresses addresses = .ok () ↔ ∀ a ∈ addresses, ∃ b, hexToBytes a = some b := by
  simp only [validateAddresses, forM_eq_ok, requireConfig_eq_ok, Option.ne_none_iff_exists']

end QfcServerWallet.Policy
