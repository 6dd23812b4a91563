import QfcServerWallet.Types
import QfcServerWallet.Lib.Text

/-!
# The text of a derivation path

`qfc-wallet-types/src/hd_path.rs`: `Display` and `FromStr` of `HdPath`, and `child_index`.

* A path prints as `m` and its segments, each after a slash; a hardened one ends with an apostrophe.
  The parser also takes `M`, and `h` or `H` for the apostrophe.
* The number of a segment is read with `str::parse`, which also takes a plus sign.
* How a `str` prints with `{:?}`, in two error texts, is a parameter: it depends on the tables of
  printable characters.

Results: **`hdPath_text_round_trip`**, **`grammar_exact_iff`** and `HdPath.toString_inj`.
-/

namespace QfcServerWallet

open Lib

/-! ## Child indices -/

namespace HdPathSegment

theorem toNat_childIndex_hardened (i : UInt32) :
    (hardened i).childIndex.toNat = 2 ^ 31 + i.toNat % 2 ^ 31 := by
  have hlow : i.toNat % 2 ^ 31 < 2 ^ 31 := Nat.mod_lt _ (by decide)
  have hbound := i.toNat_lt
  have hor : (hardened i).childIndex.toNat = i.toNat ||| 2 ^ 31 :=
    UInt32.toNat_or i 0x80000000
  have hset : 2 ^ 31 + i.toNat % 2 ^ 31 = i.toNat % 2 ^ 31 ||| 2 ^ 31 := by
    rw [Nat.or_comm]
    exact Nat.two_pow_add_eq_or_of_lt hlow 1
  rw [hor, hset]
  by_cases hhigh : i.toNat < 2 ^ 31
  · rw [Nat.mod_eq_of_lt hhigh]
  · -- the bit is set already
    have hsplit : i.toNat = i.toNat % 2 ^ 31 ||| 2 ^ 31 := by omega
    nth_rewrite 1 [hsplit]
    rw [Nat.or_assoc, Nat.or_self]

/-- **Two hardened segments have one index iff their numbers agree up to the high bit.** -/
theorem childIndex_hardened_eq_iff {i j : UInt32} :
    (hardened i).childIndex = (hardened j).childIndex ↔
      i.toNat % 2 ^ 31 = j.toNat % 2 ^ 31 := by
  rw [← UInt32.toNat_inj, toNat_childIndex_hardened, toNat_childIndex_hardened,
    Nat.add_left_cancel_iff]

/-- The number of a segment is one the text parser accepts. -/
def BelowHardening : HdPathSegment → Prop
  | .normal i => i.toNat < 2 ^ 31
  | .hardened i => i.toNat < 2 ^ 31

theorem childIndex_inj_of_below {s t : HdPathSegment} (hs : BelowHardening s)
    (ht : BelowHardening t) (h : s.childIndex = t.childIndex) : s = t := by
  have hnat := congrArg UInt32.toNat h
  cases s with
  | normal i =>
    cases t with
    | normal j => rw [show i = j from h]
    | hardened j =>
      rw [toNat_childIndex_hardened] at hnat
      change i.toNat = _ at hnat
      change i.toNat < _ at hs
      omega
  | hardened i =>
    cases t with
    | normal j =>
      rw [toNat_childIndex_hardened] at hnat
      change _ = j.toNat at hnat
      change j.toNat < _ at ht
      omega
    | hardened j =>
      have hmod := childIndex_hardened_eq_iff.1 h
      rw [Nat.mod_eq_of_lt hs, Nat.mod_eq_of_lt ht] at hmod
      rw [UInt32.toNat_inj.1 hmod]

/-! ## Printing -/

/-- The characters of `Display`. -/
def chars : HdPathSegment → List Char
  | normal i => decimal i.toNat
  | hardened i => decimal i.toNat ++ ['\'']

theorem toList_toString (seg : HdPathSegment) : seg.toString.toList = seg.chars := by
  cases seg with
  | normal i => exact Nat.toList_repr
  | hardened i =>
    rw [toString, String.toList_append, Nat.toList_repr]
    rfl

theorem not_mem_chars {c : Char} (hdigit : c.isDigit = false) (hc : c ≠ '\'')
    (seg : HdPathSegment) : c ∉ seg.chars := by
  cases seg with
  | normal i => exact not_mem_decimal hdigit _
  | hardened i =>
    intro h
    rcases List.mem_append.1 h with h | h
    · exact not_mem_decimal hdigit _ h
    · exact hc (List.mem_singleton.1 h)

theorem chars_inj {s t : HdPathSegment} (h : s.chars = t.chars) : s = t := by
  -- only the text of a hardened segment has an apostrophe
  have hquote (i j : UInt32) : (normal i).chars ≠ (hardened j).chars := by
    intro h
    refine not_mem_decimal (c := '\'') rfl i.toNat (?_ : _ ∈ (normal i).chars)
    rw [h]
    exact List.mem_append_right _ List.mem_cons_self
  cases s with
  | normal i =>
    cases t with
    | normal j => rw [UInt32.toNat_inj.1 (decimal_inj h)]
    | hardened j => exact absurd h (hquote i j)
  | hardened i =>
    cases t with
    | normal j => exact absurd h.symm (hquote j i)
    | hardened j => rw [UInt32.toNat_inj.1 (decimal_inj (List.append_cancel_right h))]

end HdPathSegment

/-- `ParseError`, as far as it is about paths. -/
inductive ParseError where
  | invalidHdPath (what : String)
  deriving DecidableEq

namespace HdPath

open HdPathSegment (BelowHardening)

theorem toList_toString (p : HdPath) :
    p.toString.toList = ['m'] ++ (p.segments.map HdPathSegment.chars).flatMap ('/' :: ·) := by
  have hfold (segs : List HdPathSegment) : ∀ s : String,
      (segs.foldl (fun s seg => s ++ "/" ++ seg.toString) s).toList =
        s.toList ++ (segs.map HdPathSegment.chars).flatMap ('/' :: ·) := by
    induction segs with
    | nil => exact fun s => (List.append_nil _).symm
    | cons seg segs ih =>
      intro s
      rw [List.foldl_cons, ih, String.toList_append, String.toList_append, seg.toList_toString,
        List.map_cons, List.flatMap_cons, List.append_assoc, List.append_assoc]
      rfl
  exact hfold p.segments "m"

theorem splitOn_toString (p : HdPath) :
    p.toString.toList.splitOn '/' = ['m'] :: p.segments.map HdPathSegment.chars := by
  rw [toList_toString]
  refine splitOn_flatMap (by decide) fun y hy => ?_
  obtain ⟨seg, -, rfl⟩ := List.mem_map.1 hy
  exact seg.not_mem_chars rfl (by decide)

/-- **The text of a path determines it.** -/
theorem toString_inj {p q : HdPath} (h : p.toString = q.toString) : p = q := by
  have hsplit := p.splitOn_toString
  rw [h, q.splitOn_toString] at hsplit
  have hsegments := List.map_injective_iff.2 (fun _ _ => HdPathSegment.chars_inj)
    (List.cons.inj hsplit).2
  exact congrArg HdPath.mk hsegments.symm

/-! ## Parsing -/

/-- The digits of a segment, and whether it is hardened. -/
def splitHardened (raw : List Char) : List Char × Bool :=
  match stripSuffix '\'' raw with
  | some rest => (rest, true)
  | none =>
    match stripSuffix 'h' raw with
    | some rest => (rest, true)
    | none =>
      match stripSuffix 'H' raw with
      | some rest => (rest, true)
      | none => (raw, false)

/-- A segment with the number. -/
def segmentOf (hardened : Bool) (value : Nat) : HdPathSegment :=
  if hardened then .hardened (UInt32.ofNat value) else .normal (UInt32.ofNat value)

section

variable (debug : List Char → String)

/-- One round of the loop over the parts. -/
def parseSegment (raw : List Char) : Except ParseError HdPathSegment :=
  if raw = [] then .error (.invalidHdPath "empty segment")
  else
    match parseUnsigned 4294967295 (splitHardened raw).1 with
    | none => .error (.invalidHdPath ("non-numeric segment " ++ debug raw))
    | some value =>
      if 0x80000000 ≤ value then
        .error (.invalidHdPath ("segment " ++ value.repr ++ " exceeds 2^31-1"))
      else .ok (segmentOf (splitHardened raw).2 value)

/-- `HdPath::from_str` -/
def fromStr (s : String) : Except ParseError HdPath :=
  if s.toList = [] then .error (.invalidHdPath "empty string")
  else
    let parts := s.toList.splitOn '/'
    let head := parts.head (List.splitOn_ne_nil _ _)
    if head ≠ ['m'] ∧ head ≠ ['M'] then
      .error (.invalidHdPath ("path must start with 'm', got " ++ debug head))
    else do
      let segments ← parts.tail.mapM (parseSegment debug)
      .ok ⟨segments⟩

end

variable {debug : List Char → String} {raw : List Char}

/-- What may stand after the digits. -/
def suffixes : List (List Char) := [[], ['\''], ['h'], ['H']]

theorem exists_of_splitHardened (raw : List Char) :
    ∃ suffix ∈ suffixes, raw = (splitHardened raw).1 ++ suffix ∧
      (splitHardened raw).2 = !suffix.isEmpty := by
  unfold splitHardened
  split
  · next h => exact ⟨['\''], by decide, stripSuffix_eq_some.1 h, rfl⟩
  · split
    · next h => exact ⟨['h'], by decide, stripSuffix_eq_some.1 h, rfl⟩
    · split
      · next h => exact ⟨['H'], by decide, stripSuffix_eq_some.1 h, rfl⟩
      · exact ⟨[], by decide, (List.append_nil raw).symm, rfl⟩

theorem splitHardened_append {rest suffix : List Char} (hsuffix : suffix ∈ suffixes)
    (hlast : ∀ c, rest.getLast? = some c → c.isDigit = true) :
    splitHardened (rest ++ suffix) = (rest, !suffix.isEmpty) := by
  have hne (c : Char) (hc : c.isDigit = false) : rest.getLast? ≠ some c := by
    intro h
    rw [hlast c h] at hc
    cases hc
  have hquote := hne '\'' rfl
  have hlower := hne 'h' rfl
  have hupper := hne 'H' rfl
  simp only [suffixes, List.mem_cons, List.not_mem_nil, or_false] at hsuffix
  rcases hsuffix with rfl | rfl | rfl | rfl
  · simp [splitHardened, stripSuffix, hquote, hlower, hupper]
  · simp [splitHardened, stripSuffix]
  · simp [splitHardened, stripSuffix]
  · simp [splitHardened, stripSuffix]

theorem getLast_of_parseUnsigned {max n : Nat} {s : List Char} (h : parseUnsigned max s = some n)
    {c : Char} (hc : s.getLast? = some c) : c.isDigit = true := by
  obtain ⟨digits, hs, ⟨hne, hdigits, -⟩, -⟩ := parseUnsigned_eq_some_iff.1 h
  refine hdigits c (List.mem_of_getLast? ?_)
  rcases hs with rfl | rfl
  · exact hc
  · rwa [List.getLast?_cons_of_ne_nil hne] at hc

theorem parseSegment_eq_ok {seg : HdPathSegment} :
    parseSegment debug raw = .ok seg ↔
      ∃ rest, ∃ suffix ∈ suffixes, raw = rest ++ suffix ∧
        ∃ value, parseUnsigned 4294967295 rest = some value ∧ value < 2 ^ 31 ∧
          seg = segmentOf (!suffix.isEmpty) value := by
  unfold parseSegment
  constructor
  · intro h
    split at h
    · cases h
    · split at h
      · cases h
      · next value hvalue =>
        split_ifs at h with hbound
        obtain ⟨suffix, hsuffix, hraw, hhardened⟩ := exists_of_splitHardened raw
        refine ⟨_, suffix, hsuffix, hraw, value, hvalue, Nat.not_le.1 hbound, ?_⟩
        rw [← hhardened]
        exact (Except.ok.inj h).symm
  · rintro ⟨rest, suffix, hsuffix, rfl, value, hvalue, hbound, rfl⟩
    have hrest : rest ≠ [] := by
      rintro rfl
      cases hvalue
    rw [if_neg (List.append_ne_nil_of_left_ne_nil hrest suffix),
      splitHardened_append hsuffix fun c => getLast_of_parseUnsigned hvalue]
    simp only [hvalue]
    exact if_neg (Nat.not_le.2 hbound)

theorem fromStr_eq_ok {s : String} {p : HdPath} :
    fromStr debug s = .ok p ↔
      ∃ head parts, s.toList.splitOn '/' = head :: parts ∧ (head = ['m'] ∨ head = ['M']) ∧
        parts.mapM (parseSegment debug) = .ok p.segments := by
  obtain ⟨head, parts, hsplit⟩ := List.exists_cons_of_ne_nil (List.splitOn_ne_nil '/' s.toList)
  have hempty : head = ['m'] ∨ head = ['M'] → s.toList ≠ [] := by
    rintro hhead hnil
    rw [hnil, List.splitOn_nil] at hsplit
    obtain ⟨rfl, -⟩ := List.cons.inj hsplit
    rcases hhead with h | h <;> cases h
  unfold fromStr
  simp only [hsplit, List.head_cons, List.tail_cons]
  constructor
  · intro h
    split at h
    · cases h
    · split_ifs at h with hhead
      obtain ⟨segments, hsegments, hp⟩ := bind_eq_ok.1 h
      cases hp
      rw [← not_or, not_not] at hhead
      exact ⟨head, parts, rfl, hhead, hsegments⟩
  · rintro ⟨head', parts', hcons, hhead, hsegments⟩
    obtain ⟨rfl, rfl⟩ := List.cons.inj hcons
    rw [if_neg (hempty hhead), if_neg (by rwa [← not_or, not_not])]
    exact bind_eq_ok.2 ⟨p.segments, hsegments, rfl⟩

/-! ## Round trip -/

theorem below_of_segmentOf {hardened : Bool} {value : Nat} (h : value < 2 ^ 31) :
    BelowHardening (segmentOf hardened value) := by
  have hvalue : (UInt32.ofNat value).toNat = value :=
    UInt32.toNat_ofNat_of_lt' (h.trans (by decide))
  cases hardened with
  | false => exact hvalue.trans_lt h
  | true => exact hvalue.trans_lt h

theorem parseSegment_chars {seg : HdPathSegment} (h : BelowHardening seg) :
    parseSegment debug seg.chars = .ok seg := by
  have hparse (i : UInt32) : parseUnsigned 4294967295 (decimal i.toNat) = some i.toNat :=
    parseUnsigned_decimal (Nat.le_pred_of_lt i.toNat_lt)
  cases seg with
  | normal i =>
    refine parseSegment_eq_ok.2 ⟨decimal i.toNat, [], by decide, (List.append_nil _).symm, i.toNat,
      hparse i, h, ?_⟩
    exact congrArg HdPathSegment.normal UInt32.ofNat_toNat.symm
  | hardened i =>
    refine parseSegment_eq_ok.2 ⟨decimal i.toNat, ['\''], by decide, rfl, i.toNat, hparse i, h, ?_⟩
    exact congrArg HdPathSegment.hardened UInt32.ofNat_toNat.symm

theorem fromStr_toString {p : HdPath} (h : ∀ seg ∈ p.segments, BelowHardening seg) :
    fromStr debug p.toString = .ok p := by
  refine fromStr_eq_ok.2 ⟨_, _, p.splitOn_toString, .inl rfl, ?_⟩
  have hall : p.segments.mapM (parseSegment debug ∘ HdPathSegment.chars) =
      .ok (p.segments.map id) := mapM_eq_ok_map fun seg hseg => parseSegment_chars (h seg hseg)
  rw [List.mapM_map, hall, List.map_id]

theorem below_of_fromStr {s : String} {p : HdPath} (h : fromStr debug s = .ok p) :
    ∀ seg ∈ p.segments, BelowHardening seg := by
  obtain ⟨head, parts, -, -, hsegments⟩ := fromStr_eq_ok.1 h
  intro seg hseg
  obtain ⟨raw, -, hraw⟩ := exists_left_of_forall₂ (mapM_eq_ok_iff.1 hsegments) hseg
  obtain ⟨-, -, -, -, value, -, hbound, rfl⟩ := parseSegment_eq_ok.1 hraw
  exact below_of_segmentOf hbound

/-- **A path with numbers below `2 ^ 31` reads back from its text, and the parser makes no
other.** -/
theorem hdPath_text_round_trip (debug : List Char → String) :
    (∀ p : HdPath, (∀ seg ∈ p.segments, BelowHardening seg) →
      fromStr debug p.toString = .ok p) ∧
    ∀ (s : String) (p : HdPath), fromStr debug s = .ok p →
      fromStr debug p.toString = .ok p ∧ (∀ seg ∈ p.segments, BelowHardening seg) ∧
        ∀ a ∈ p.segments, ∀ b ∈ p.segments, a ≠ b → a.childIndex ≠ b.childIndex := by
  refine ⟨fun p => fromStr_toString, fun s p h => ?_⟩
  have hbelow := below_of_fromStr h
  exact ⟨fromStr_toString hbelow, hbelow, fun a ha b hb =>
    mt (HdPathSegment.childIndex_inj_of_below (hbelow a ha) (hbelow b hb))⟩

/-! ## The grammar -/

/-- One or more digits of a number below `2 ^ 31`, and at most one suffix. -/
def IsSegment (raw : List Char) : Prop :=
  ∃ digits, ∃ suffix ∈ suffixes, raw = digits ++ suffix ∧
    ∃ value, Numeral digits value ∧ value < 2 ^ 31

/-- The same, with or without a plus sign before it. -/
def IsSignedSegment (raw : List Char) : Prop :=
  ∃ rest, (raw = rest ∨ raw = '+' :: rest) ∧ IsSegment rest

/-- `m` or `M`, and any number of segments, each after a slash. -/
def IsPath (segment : List Char → Prop) (s : List Char) : Prop :=
  ∃ (head : Char) (parts : List (List Char)), (head = 'm' ∨ head = 'M') ∧
    (∀ raw ∈ parts, segment raw) ∧ s = [head] ++ parts.flatMap ('/' :: ·)

theorem IsSegment.not_mem (h : IsSegment raw) {c : Char} (hdigit : c.isDigit = false)
    (hsuffix : [c] ∉ suffixes) : c ∉ raw := by
  obtain ⟨digits, suffix, hmem, rfl, value, ⟨-, hdigits, -⟩, -⟩ := h
  intro hc
  rcases List.mem_append.1 hc with hc | hc
  · rw [hdigits c hc] at hdigit
    cases hdigit
  · simp only [suffixes, List.mem_cons, List.not_mem_nil, or_false] at hmem
    rcases hmem with rfl | rfl | rfl | rfl
    · exact List.not_mem_nil hc
    all_goals
      rw [List.mem_singleton.1 hc] at hsuffix
      exact hsuffix (by decide)

theorem exists_parseSegment_iff :
    (∃ seg, parseSegment debug raw = .ok seg) ↔ IsSignedSegment raw := by
  simp only [parseSegment_eq_ok, parseUnsigned_eq_some_iff]
  constructor
  · rintro ⟨seg, rest, suffix, hsuffix, rfl, value, ⟨digits, hrest, hdigits, -⟩, hbound, -⟩
    refine ⟨digits ++ suffix, ?_, digits, suffix, hsuffix, rfl, value, hdigits, hbound⟩
    rcases hrest with rfl | rfl
    · exact .inl rfl
    · exact .inr rfl
  · rintro ⟨rest, hraw, digits, suffix, hsuffix, rfl, value, hdigits, hbound⟩
    have hfits : value ≤ 4294967295 := by omega
    rcases hraw with rfl | rfl
    · exact ⟨_, digits, suffix, hsuffix, rfl, value, ⟨digits, .inl rfl, hdigits, hfits⟩,
        hbound, rfl⟩
    · exact ⟨_, '+' :: digits, suffix, hsuffix, rfl, value, ⟨digits, .inr rfl, hdigits, hfits⟩,
        hbound, rfl⟩

/-- **The texts that are accepted.** -/
theorem exists_fromStr_iff {s : String} :
    (∃ p, fromStr debug s = .ok p) ↔ IsPath IsSignedSegment s.toList := by
  simp only [fromStr_eq_ok]
  constructor
  · rintro ⟨p, head, parts, hsplit, hhead, hparts⟩
    have hsegments : ∀ raw ∈ parts, IsSignedSegment raw := by
      intro raw hraw
      obtain ⟨seg, -, hseg⟩ := exists_right_of_forall₂ (mapM_eq_ok_iff.1 hparts) hraw
      exact exists_parseSegment_iff.1 ⟨seg, hseg⟩
    have hs := eq_of_splitOn hsplit
    rcases hhead with rfl | rfl
    · exact ⟨'m', parts, .inl rfl, hsegments, hs⟩
    · exact ⟨'M', parts, .inr rfl, hsegments, hs⟩
  · rintro ⟨head, parts, hhead, hsegments, hs⟩
    obtain ⟨segs, hsegs⟩ := exists_mapM_eq_ok fun raw hraw =>
      exists_parseSegment_iff.2 (hsegments raw hraw)
    refine ⟨⟨segs⟩, [head], parts, ?_, by simpa using hhead, hsegs⟩
    rw [hs]
    refine splitOn_flatMap ?_ fun raw hraw => ?_
    · rcases hhead with rfl | rfl <;> decide
    · obtain ⟨rest, hrest, hsegment⟩ := hsegments raw hraw
      have hslash : '/' ∉ rest := hsegment.not_mem rfl (by decide)
      rcases hrest with rfl | rfl
      · exact hslash
      · exact List.not_mem_cons_of_ne_of_not_mem (by decide) hslash

theorem isPath_isSegment_iff {s : List Char} :
    IsPath IsSegment s ↔ IsPath IsSignedSegment s ∧ '+' ∉ s := by
  constructor
  · rintro ⟨head, parts, hhead, hsegments, rfl⟩
    refine ⟨⟨head, parts, hhead, fun raw hraw => ⟨raw, .inl rfl, hsegments raw hraw⟩, rfl⟩, ?_⟩
    intro hplus
    rcases List.mem_append.1 hplus with hplus | hplus
    · rcases hhead with rfl | rfl <;> exact absurd hplus (by decide)
    · obtain ⟨raw, hraw, hplus⟩ := List.mem_flatMap.1 hplus
      rcases List.mem_cons.1 hplus with hplus | hplus
      · cases hplus
      · exact (hsegments raw hraw).not_mem rfl (by decide) hplus
  · rintro ⟨⟨head, parts, hhead, hsegments, rfl⟩, hplus⟩
    refine ⟨head, parts, hhead, fun raw hraw => ?_, rfl⟩
    obtain ⟨rest, hrest, hsegment⟩ := hsegments raw hraw
    rcases hrest with rfl | rfl
    · exact hsegment
    · refine absurd (List.mem_append_right _ (List.mem_flatMap.2 ⟨_, hraw, ?_⟩)) hplus
      exact List.mem_cons_of_mem _ List.mem_cons_self

/-- **The parser accepts a text iff it is in the grammar, unless the text is in the grammar but for
plus signs before numbers.** -/
theorem grammar_exact_iff (debug : List Char → String) (s : String) :
    ((∃ p, fromStr debug s = .ok p) ↔ IsPath IsSegment s.toList) ↔
      ¬ (IsPath IsSignedSegment s.toList ∧ '+' ∈ s.toList) := by
  rw [exists_fromStr_iff, isPath_isSegment_iff, not_and]
  constructor
  · exact fun h hpath => (h.1 hpath).2
  · exact fun h => ⟨fun hpath => ⟨hpath, h hpath⟩, fun hpath => hpath.1⟩

/-- A plus sign is read over. -/
theorem signed_number_accepted :
    fromStr String.ofList "m/+5" = .ok ⟨[.normal 5]⟩ ∧ ¬ IsPath IsSegment "m/+5".toList := by
  refine ⟨by decide, fun h => ?_⟩
  exact (isPath_isSegment_iff.1 h).2 (by decide)

end HdPath

end QfcServerWallet
