import QfcServerWallet.Policy.Precedence

/-!
# What a loaded rule set guarantees

`RuleSetPolicy::new` checks a rule set once (`validate`), and `evaluate` reads its strings again
for every request. The strings are read by the same functions both times, so that what was accepted
can be read. `Spells` is what a configured string is meant to say; it does not mention the parser.

Results: `spells_iff`, `exists_decision` and **`validation_sufficient`**.
-/

namespace QfcServerWallet.Policy

open Lib

variable {s : String}

/-! ## Hex strings -/

/-- The text is a hex form of the bytes. -/
def Spells (s : String) (b : Bytes) : Prop :=
  b ≠ [] ∧ ∃ mark ∈ ["", "0x", "0X"], ∃ digits : List Char,
    s.toList = mark.toList ++ digits ∧ digits.map toAsciiLowercase = hexChars b

theorem hexValue?_lowercase (c : Char) : hexValue? (toAsciiLowercase c) = hexValue? c := by
  have hcapitals : ∀ n < 91, 65 ≤ n →
      hexValue? (Char.ofNat (n + 32)) = hexValue? (Char.ofNat n) := by decide
  unfold toAsciiLowercase
  split
  · next hc =>
    rw [hcapitals c.toNat (by omega) hc.1, Char.ofNat_toNat]
  · rfl

theorem toAsciiLowercase_lowercase (c : Char) :
    toAsciiLowercase (toAsciiLowercase c) = toAsciiLowercase c := by
  have hcapitals : ∀ n < 91, 65 ≤ n →
      toAsciiLowercase (Char.ofNat (n + 32)) = Char.ofNat (n + 32) := by decide
  by_cases hc : 65 ≤ c.toNat ∧ c.toNat ≤ 90
  · have hlower : toAsciiLowercase c = Char.ofNat (c.toNat + 32) := if_pos hc
    rw [hlower, hcapitals c.toNat (by omega) hc.1]
  · have hsame : toAsciiLowercase c = c := if_neg hc
    rw [hsame, hsame]

theorem hexDigit_of_hexValue? {c : Char} {n : Nat} (h : hexValue? c = some n) :
    n < 16 ∧ toAsciiLowercase c = hexDigit n := by
  have hascii : ∀ m < 128, ∀ n ∈ hexValue? (Char.ofNat m),
      n < 16 ∧ toAsciiLowercase (Char.ofNat m) = hexDigit n := by decide
  have hlt : c.toNat < 128 := by
    unfold hexValue? at h
    simp only at h
    split_ifs at h <;> omega
  have hc := hascii c.toNat hlt n
  rw [Char.ofNat_toNat] at hc
  exact hc h

theorem isAsciiHexdigit_of_lowercase {c : Char} {n : Nat} (hn : n < 16)
    (h : toAsciiLowercase c = hexDigit n) : isAsciiHexdigit c = true := by
  rw [isAsciiHexdigit, ← hexValue?_lowercase, h, hexValue?_hexDigit n hn]
  rfl

theorem lowercase_of_ofHexChars? {cs : List Char} {b : Bytes} (h : ofHexChars? cs = some b) :
    cs.map toAsciiLowercase = hexChars b := by
  induction cs using ofHexChars?.induct generalizing b with
  | case1 =>
    cases h
    rfl
  | case2 => cases h
  | case3 hi lo cs ih =>
    simp only [ofHexChars?, Option.bind_eq_bind, Option.bind_eq_some_iff] at h
    obtain ⟨x, hx, y, hy, rest, hrest, hb⟩ := h
    cases hb
    obtain ⟨hx16, hhi⟩ := hexDigit_of_hexValue? hx
    obtain ⟨hy16, hlo⟩ := hexDigit_of_hexValue? hy
    have hbyte : (UInt8.ofNat (16 * x + y)).toNat = 16 * x + y := by
      rw [UInt8.toNat_ofNat']
      omega
    have hdiv : (16 * x + y) / 16 = x := by omega
    have hmod : (16 * x + y) % 16 = y := by omega
    rw [List.map_cons, List.map_cons, hhi, hlo, ih hrest, hexChars, hbyte, hdiv, hmod]

theorem strippedHex_append {mark : String} (hmark : mark ∈ ["", "0x", "0X"]) {digits : List Char}
    {b : Bytes} (hs : s.toList = mark.toList ++ digits)
    (hdigits : digits.map toAsciiLowercase = hexChars b) : strippedHex s = digits := by
  have hno (c : Char) (hc : toAsciiLowercase c = 'x') : c ∉ digits := by
    intro hmem
    obtain ⟨n, hn, hx⟩ := mem_hexChars (hdigits ▸ List.mem_map_of_mem hmem)
    rw [hc] at hx
    revert n
    decide
  rw [strippedHex, hs]
  rcases List.mem_cons.1 hmark with rfl | hmark
  · simp only [String.toList_empty, List.nil_append]
    split
    · exact absurd (by simp) (hno 'x' (by decide))
    · exact absurd (by simp) (hno 'X' (by decide))
    · rfl
  · simp only [List.mem_cons, List.not_mem_nil, or_false] at hmark
    rcases hmark with rfl | rfl
    · rfl
    · rfl

theorem exists_mark (s : String) :
    ∃ mark ∈ ["", "0x", "0X"], s.toList = mark.toList ++ strippedHex s := by
  unfold strippedHex
  split
  · next hs => exact ⟨"0x", by simp, hs⟩
  · next hs => exact ⟨"0X", by simp, hs⟩
  · exact ⟨"", by simp, by simp⟩

theorem normalizeHex_eq_some {s t : String} :
    normalizeHex s = some t ↔ strippedHex s ≠ [] ∧ (strippedHex s).all isAsciiHexdigit = true ∧
      (strippedHex s).length % 2 = 0 ∧
      String.ofList ((strippedHex s).map toAsciiLowercase) = t := by
  unfold normalizeHex
  simp only
  split
  · next h =>
    refine iff_of_false (by simp) fun ⟨hne, hall, _⟩ => ?_
    rcases h with h | h
    · exact hne h
    · rw [hall] at h
      cases h
  · next h =>
    simp only [not_or, Bool.not_eq_false] at h
    split
    · next hodd => exact iff_of_false (by simp) fun ⟨_, _, heven, _⟩ => hodd heven
    · next heven =>
      rw [Option.some.injEq]
      exact ⟨fun ht => ⟨h.1, h.2, not_not.1 heven, ht⟩, fun ht => ht.2.2.2⟩

/-- **The parser reads a string as the bytes that it spells.** -/
theorem spells_iff {b : Bytes} : hexToBytes s = some b ↔ Spells s b := by
  constructor
  · intro h
    refine ⟨fun hnil => hexToBytes_ne_nil s (hnil ▸ h), ?_⟩
    obtain ⟨canonical, hnormal, hdecode⟩ := Option.bind_eq_some_iff.1 h
    obtain ⟨-, -, -, rfl⟩ := normalizeHex_eq_some.1 hnormal
    rw [hexDecode, String.toList_ofList] at hdecode
    obtain ⟨mark, hmark, hs⟩ := exists_mark s
    refine ⟨mark, hmark, strippedHex s, hs, ?_⟩
    have htwice : toAsciiLowercase ∘ toAsciiLowercase = toAsciiLowercase :=
      funext toAsciiLowercase_lowercase
    have hdigits := lowercase_of_ofHexChars? hdecode
    rwa [List.map_map, htwice] at hdigits
  · rintro ⟨hb, mark, hmark, digits, hs, hdigits⟩
    have hstripped := strippedHex_append hmark hs hdigits
    have hlength : digits.length = 2 * b.length := by
      rw [← length_hexChars, ← hdigits, List.length_map]
    have hne : digits ≠ [] := by
      rintro rfl
      exact hb (List.length_eq_zero_iff.1 (by simpa using hlength.symm))
    have hall : digits.all isAsciiHexdigit = true := by
      refine List.all_eq_true.2 fun c hc => ?_
      obtain ⟨n, hn, hlower⟩ := mem_hexChars (hdigits ▸ List.mem_map_of_mem hc)
      exact isAsciiHexdigit_of_lowercase hn hlower
    have hnormal : normalizeHex s = some (hexEncode b) := by
      rw [normalizeHex_eq_some, hstripped, hdigits]
      exact ⟨hne, hall, by omega, rfl⟩
    rw [hexToBytes, hnormal]
    exact hexDecode_hexEncode b

theorem Spells.unique {b b' : Bytes} (h : Spells s b) (h' : Spells s b') : b = b' :=
  Option.some.inj ((spells_iff.2 h).symm.trans (spells_iff.2 h'))

/-! ## The strings of a rule set -/

/-- The addresses and selectors that a rule is configured with. -/
def Rule.hexStrings : Rule → List String
  | .allowContract _ addresses | .denyContract _ addresses => addresses
  | .allowMethod _ contract selectors => contract.toList ++ selectors
  | .vmShape _ constraints => constraints.allowedMethodSelectors.getD []
  | _ => []

theorem parses_of_validateSelectors {badHex badLength : String} {selectors : List String}
    (h : validateSelectors badHex badLength selectors = .ok ()) (hs : s ∈ selectors) :
    ∃ b, hexToBytes s = some b := by
  obtain ⟨b, hb, -⟩ := bind_eq_ok.1 (forM_eq_ok.1 h s hs)
  exact ⟨b, orMisconfiguration_eq_ok.1 hb⟩

theorem parses_of_validateRule {r : Rule} (h : validateRule r = .ok ()) (hs : s ∈ r.hexStrings) :
    ∃ b, hexToBytes s = some b := by
  cases r with
  | allowContract chainId addresses => exact validateAddresses_iff.1 h s hs
  | denyContract chainId addresses => exact validateAddresses_iff.1 h s hs
  | allowMethod chainId contract selectors =>
    cases contract with
    | none =>
      exact parses_of_validateSelectors (seq_eq_ok.1 h).2 hs
    | some c =>
      obtain ⟨hcontract, hselectors⟩ := seq_eq_ok.1 h
      rcases List.mem_cons.1 hs with rfl | hs
      · exact Option.ne_none_iff_exists'.1 (requireConfig_eq_ok.1 hcontract)
      · exact parses_of_validateSelectors hselectors hs
  | vmShape vm constraints =>
    obtain ⟨maxGas, allowed, maxValue⟩ := constraints
    cases allowed with
    | none => cases hs
    | some selectors =>
      have hlisted : s ∈ selectors := hs
      cases maxValue with
      | none => exact parses_of_validateSelectors (seq_eq_ok.1 h).2 hlisted
      | some v =>
        obtain ⟨-, -, hselectors⟩ := bind_eq_ok.1 h
        exact parses_of_validateSelectors hselectors hlisted
  | _ => cases hs

/-! ## Deciding -/

/-- **A loaded rule set decides every request.** -/
theorem exists_decision {p : RuleSetPolicy} (hvalid : validate p.rules = .ok ())
    (decisionId : DecisionId) (limiter : TokenBucketLimiter) (request : SigningRequest) :
    ∃ decision, (p.evaluate decisionId limiter request).1 = .ok decision := by
  have houtcome := outcome_evaluate hvalid limiter decisionId request
  cases hresult : (p.evaluate decisionId limiter request).1 with
  | error e =>
    rw [hresult] at houtcome
    cases houtcome
  | ok decision => exact ⟨decision, rfl⟩

/-- **Load-time validation is sufficient.** With a rule set that was accepted, every request is
decided; every address and selector in it spells one byte string; and a recipient, contract or
selector is matched exactly when a configured string spells it. -/
theorem validation_sufficient {p : RuleSetPolicy} (hvalid : validate p.rules = .ok ()) :
    (∀ decisionId limiter request, ∃ decision,
      (p.evaluate decisionId limiter request).1 = .ok decision) ∧
    (∀ r ∈ p.rules.rules, ∀ s ∈ r.hexStrings, ∃! b, Spells s b) ∧
    (∀ addresses recipient, addressIn addresses recipient = true ↔
      ∃ a ∈ addresses, Spells a recipient) ∧
    (∀ a recipient, addressEq a recipient = true ↔ Spells a recipient) ∧
    ∀ selectors sel, Evaluation.selectorListed selectors sel = true ↔
      ∃ s ∈ selectors, Spells s sel.bytes := by
  refine ⟨exists_decision hvalid, fun r hr s hs => ?_, fun _ _ => ?_, fun _ _ => ?_,
    fun _ _ => ?_⟩
  · obtain ⟨b, hb⟩ := parses_of_validateRule ((validate_ok_iff.1 hvalid).2 r hr) hs
    exact ⟨b, spells_iff.1 hb, fun b' hb' => hb'.unique (spells_iff.1 hb)⟩
  · simp only [addressIn_iff, spells_iff]
  · rw [addressEq_iff, spells_iff]
  · simp only [selectorListed_iff, Lists, spells_iff]

/-- A contract rule that lists one address twice, written differently. -/
def MixedCase.policy : RuleSetPolicy :=
  ⟨⟨1, ⟨3⟩, [.denyContract 1 ["0xaB01", "AB01"]], .allow⟩, none⟩

/-- One address, spelled twice, is matched by its bytes. -/
theorem validation_sufficient_mixedCase :
    validate MixedCase.policy.rules = .ok () ∧ (∃! b, Spells "0xaB01" b) ∧
      (addressIn ["0xaB01", "AB01"] [0xab, 0x01] = true ↔
        ∃ a ∈ ["0xaB01", "AB01"], Spells a [0xab, 0x01]) :=
  have hvalid : validate MixedCase.policy.rules = .ok () := by decide
  have hloaded := validation_sufficient hvalid
  ⟨hvalid, hloaded.2.1 _ (List.mem_singleton_self _) _ List.mem_cons_self, hloaded.2.2.1 _ _⟩

end QfcServerWallet.Policy
