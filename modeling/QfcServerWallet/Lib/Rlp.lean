import QfcServerWallet.Lib.Bytes
import Mathlib.Data.Nat.Log

/-!
# Canonical RLP

The recursive-length-prefix encoding at header level: an item is a kind (string or list) and a
payload, and a list's payload is the concatenation of its items' encodings.

* `encode k p` is the canonical encoding of payload `p`; lengths are written in the fewest bytes
  (`minBe`), and a single byte below `0x80` is its own encoding.
* `Decoder` is the interface of a header-level decoder: `decodeRaw` splits the item at the front
  of a buffer into its payload view (a list's items stay encoded), `decodeBytes` reads a string.
  `Decoder.Canonical` states what a correct one accepts, and `reference` is one that runs.

Results: `decodeHeader_iff`, `splitItems_iff`, `reference_canonical` and `minBe_ofBe`.
-/

namespace QfcServerWallet.Lib.Rlp

/-! ## Shortest big-endian numbers -/

/-- The number of bytes needed to write `n`. -/
def byteLen (n : Nat) : Nat := if n = 0 then 0 else n.log2 / 8 + 1

/-- The shortest big-endian encoding of `n`; empty for zero. -/
def minBe (n : Nat) : Bytes := toBe (byteLen n) n

theorem byteLen_le_iff {n k : Nat} : byteLen n ≤ k ↔ n < 256 ^ k := by
  have hpow : (256 : Nat) ^ k = 2 ^ (8 * k) := by rw [Nat.pow_mul]
  unfold byteLen
  split
  · next h => subst h; simp
  · next h =>
    rw [hpow, ← Nat.log2_lt h]
    omega

@[simp] theorem length_minBe (n : Nat) : (minBe n).length = byteLen n := length_toBe _ _

@[simp] theorem ofBe_minBe (n : Nat) : ofBe (minBe n) = n :=
  ofBe_toBe_of_lt (byteLen_le_iff.1 le_rfl)

theorem ofBe_cons (x : UInt8) (b : Bytes) :
    ofBe (x :: b) = x.toNat * 256 ^ b.length + ofBe b := by
  induction b using List.reverseRecOn with
  | nil => simp [ofBe]
  | append_singleton b y ih =>
    rw [← List.cons_append, ofBe_concat, ofBe_concat, ih, List.length_append,
      List.length_singleton, Nat.pow_succ, Nat.add_mul, Nat.mul_assoc, Nat.add_assoc]

theorem byteLen_ofBe {b : Bytes} (h : b.head? ≠ some 0) : byteLen (ofBe b) = b.length := by
  apply le_antisymm (byteLen_le_iff.2 (ofBe_lt b))
  cases b with
  | nil => simp
  | cons x b =>
    have hx : 1 ≤ x.toNat := by
      rcases Nat.eq_zero_or_pos x.toNat with h0 | h0
      · obtain rfl : x = 0 := UInt8.toNat_inj.1 h0
        exact absurd rfl h
      · exact h0
    have hle : 256 ^ b.length ≤ ofBe (x :: b) := by
      rw [ofBe_cons]
      exact Nat.le_add_right_of_le (Nat.le_mul_of_pos_left _ hx)
    have hlt : ¬ byteLen (ofBe (x :: b)) ≤ b.length :=
      fun hc => absurd (byteLen_le_iff.1 hc) (Nat.not_lt.2 hle)
    simp only [List.length_cons]
    omega

/-- Without a leading zero, bytes are the shortest encoding of the number they denote. -/
theorem minBe_ofBe {b : Bytes} (h : b.head? ≠ some 0) : minBe (ofBe b) = b := by
  rw [minBe, byteLen_ofBe h, toBe_ofBe]

theorem minBe_ofBe_eq_dropWhile (b : Bytes) : minBe (ofBe b) = b.dropWhile (· == 0) := by
  induction b with
  | nil => rfl
  | cons x b ih =>
    by_cases hx : x = 0
    · subst hx
      have hzero : ofBe (0 :: b) = ofBe b := by rw [ofBe_cons, UInt8.toNat_zero]; omega
      rw [hzero, ih, List.dropWhile_cons_of_pos (by decide)]
    · rw [List.dropWhile_cons_of_neg (by simpa using hx), minBe_ofBe (by simpa using hx)]

theorem head?_minBe (n : Nat) : (minBe n).head? ≠ some 0 := by
  intro h
  cases hb : minBe n with
  | nil => rw [hb] at h; cases h
  | cons x b =>
    rw [hb] at h
    obtain rfl : x = 0 := by simpa using h
    have hn : n = ofBe b := by
      have := ofBe_minBe n
      rw [hb, ofBe_cons] at this
      simpa using this.symm
    have hlen : byteLen n = b.length + 1 := by
      rw [← length_minBe, hb, List.length_cons]
    have : byteLen n ≤ b.length := byteLen_le_iff.2 (hn ▸ ofBe_lt b)
    omega

/-! ## Encoding -/

/-- What an item is: a byte string or a list of items. -/
inductive Kind where
  | string
  | list
  deriving DecidableEq, Repr

namespace Kind

/-- The first byte of a payload of length zero. -/
def base : Kind → Nat
  | string => 0x80
  | list => 0xc0

end Kind

variable {items : List Bytes}

/-- The header of a payload of length `len`. -/
def header (k : Kind) (len : Nat) : Bytes :=
  if len < 56 then [UInt8.ofNat (k.base + len)]
  else UInt8.ofNat (k.base + 55 + byteLen len) :: minBe len

/-- A string of one byte below `0x80`, which is written without a header. -/
def isBare : Kind → Bytes → Bool
  | .string, [x] => x.toNat < 0x80
  | _, _ => false

/-- The canonical encoding of an item. -/
def encode (k : Kind) (p : Bytes) : Bytes :=
  if isBare k p then p else header k p.length ++ p

/-- The canonical encoding of some item of representable length. -/
def IsItem (i : Bytes) : Prop := ∃ k p, p.length < 2 ^ 64 ∧ i = encode k p

theorem length_le_encode (k : Kind) (p : Bytes) : p.length ≤ (encode k p).length := by
  unfold encode
  split <;> simp

theorem length_encode_le {k : Kind} {p : Bytes} (hp : p.length < 2 ^ 64) :
    (encode k p).length ≤ p.length + 9 := by
  have hlen : byteLen p.length ≤ 8 := byteLen_le_iff.2 (by simpa using hp)
  unfold encode
  split_ifs with hbare
  · omega
  · unfold header
    split_ifs with hshort
    · simp only [List.length_append, List.length_singleton]
      omega
    · simp only [List.length_append, List.length_cons, length_minBe]
      omega

theorem isItem_of_mem_flatten {k : Kind} {p : Bytes} (hi : encode k p ∈ items)
    (h : items.flatten.length < 2 ^ 64) : IsItem (encode k p) := by
  have hle := (List.sublist_flatten_of_mem hi).length_le
  exact ⟨k, p, by have := length_le_encode k p; omega, rfl⟩

/-! ## The decoder interface -/

/-- The payload of one item: a string's bytes, or a list's items, still encoded. -/
inductive PayloadView where
  | string (payload : Bytes)
  | list (items : List Bytes)
  deriving DecidableEq

/-- A header-level decoder. Each function returns what it read and the rest of the buffer; errors
are their debug text. -/
structure Decoder where
  decodeRaw : Bytes → Except String (PayloadView × Bytes)
  decodeBytes : Bytes → Except String (Bytes × Bytes)

/-- The decoder accepts canonical RLP and nothing else. -/
structure Decoder.Canonical (D : Decoder) : Prop where
  raw_string_iff : ∀ buf p rest, D.decodeRaw buf = .ok (.string p, rest) ↔
    p.length < 2 ^ 64 ∧ buf = encode .string p ++ rest
  raw_list_iff : ∀ buf items rest, D.decodeRaw buf = .ok (.list items, rest) ↔
    items.flatten.length < 2 ^ 64 ∧ (∀ i ∈ items, IsItem i) ∧
      buf = encode .list items.flatten ++ rest
  bytes_iff : ∀ buf p rest, D.decodeBytes buf = .ok (p, rest) ↔
    p.length < 2 ^ 64 ∧ buf = encode .string p ++ rest

/-! ## A decoder that runs -/

/-- A payload of length `len` at the front of `bs`. -/
def takePayload (k : Kind) (len : Nat) (bs : Bytes) : Except String (Kind × Bytes × Bytes) :=
  if bs.length < len then .error "InputTooShort" else .ok (k, bs.take len, bs.drop len)

/-- A header whose length is written in `ll` further bytes. -/
def longPayload (k : Kind) (ll : Nat) (bs : Bytes) : Except String (Kind × Bytes × Bytes) :=
  if bs.length < ll then .error "InputTooShort"
  else if (bs.take ll).head? = some 0 then .error "LeadingZero"
  else if ofBe (bs.take ll) < 56 then .error "NonCanonicalSize"
  else takePayload k (ofBe (bs.take ll)) (bs.drop ll)

/-- A header whose length is in its first byte. -/
def shortPayload (k : Kind) (len : Nat) (bs : Bytes) : Except String (Kind × Bytes × Bytes) :=
  if isBare k (bs.take len) then .error "NonCanonicalSingleByte" else takePayload k len bs

/-- The kind, payload and rest of the item at the front of a buffer. -/
def decodeHeader : Bytes → Except String (Kind × Bytes × Bytes)
  | [] => .error "InputTooShort"
  | b :: bs =>
    if b.toNat < 0x80 then .ok (.string, [b], bs)
    else if b.toNat ≤ 0xb7 then shortPayload .string (b.toNat - 0x80) bs
    else if b.toNat ≤ 0xbf then longPayload .string (b.toNat - 0xb7) bs
    else if b.toNat ≤ 0xf7 then shortPayload .list (b.toNat - 0xc0) bs
    else longPayload .list (b.toNat - 0xf7) bs

variable {k k' : Kind} {len ll : Nat} {b : UInt8} {bs p rest : Bytes}

theorem takePayload_iff :
    takePayload k len bs = .ok (k', p, rest) ↔ k' = k ∧ p.length = len ∧ bs = p ++ rest := by
  unfold takePayload
  split
  · next h =>
    refine ⟨fun e => absurd e (by simp), ?_⟩
    rintro ⟨-, rfl, rfl⟩
    simp at h
  · next h =>
    simp only [Except.ok.injEq, Prod.mk.injEq]
    constructor
    · rintro ⟨rfl, rfl, rfl⟩
      exact ⟨rfl, by simp only [List.length_take]; omega, (List.take_append_drop _ _).symm⟩
    · rintro ⟨rfl, rfl, rfl⟩
      simp

theorem shortPayload_iff :
    shortPayload k len bs = .ok (k', p, rest) ↔
      k' = k ∧ isBare k p = false ∧ p.length = len ∧ bs = p ++ rest := by
  unfold shortPayload
  split
  · next h =>
    refine ⟨fun e => absurd e (by simp), ?_⟩
    rintro ⟨-, hb, rfl, rfl⟩
    rw [List.take_left, hb] at h
    cases h
  · next h =>
    rw [takePayload_iff]
    constructor
    · rintro ⟨hk, rfl, rfl⟩
      rw [List.take_left, Bool.not_eq_true] at h
      exact ⟨hk, h, rfl, rfl⟩
    · rintro ⟨hk, -, hl, hbs⟩
      exact ⟨hk, hl, hbs⟩

theorem longPayload_iff :
    longPayload k ll bs = .ok (k', p, rest) ↔
      k' = k ∧ 56 ≤ p.length ∧ byteLen p.length = ll ∧ bs = minBe p.length ++ (p ++ rest) := by
  constructor
  · intro h
    unfold longPayload at h
    split at h
    · cases h
    split at h
    · cases h
    split at h
    · cases h
    next hlen hz hsz =>
    obtain ⟨hk, hp, hd⟩ := takePayload_iff.1 h
    have hll : (bs.take ll).length = ll := by rw [List.length_take]; omega
    refine ⟨hk, by omega, by rw [hp, byteLen_ofBe hz, hll], ?_⟩
    rw [hp, minBe_ofBe hz, ← hd, List.take_append_drop]
  · rintro ⟨rfl, h56, rfl, rfl⟩
    have htake : (minBe p.length ++ (p ++ rest)).take (byteLen p.length) = minBe p.length :=
      List.take_left' (length_minBe _)
    have hdrop : (minBe p.length ++ (p ++ rest)).drop (byteLen p.length) = p ++ rest :=
      List.drop_left' (length_minBe _)
    unfold longPayload
    rw [htake, hdrop, ofBe_minBe, if_neg (by simp), if_neg (head?_minBe _), if_neg (by omega)]
    exact takePayload_iff.2 ⟨rfl, rfl, rfl⟩

theorem byteLen_pos {n : Nat} (h : n ≠ 0) : 0 < byteLen n := by
  simp [byteLen, h]

theorem encode_cons_iff (hp : p.length < 2 ^ 64) :
    b :: bs = encode k p ++ rest ↔
      (isBare k p = true ∧ p = [b] ∧ bs = rest) ∨
      (isBare k p = false ∧ p.length < 56 ∧ b.toNat = k.base + p.length ∧ bs = p ++ rest) ∨
      (56 ≤ p.length ∧ b.toNat = k.base + 55 + byteLen p.length ∧
        bs = minBe p.length ++ (p ++ rest)) := by
  have hbase : k.base ≤ 0xc0 := by cases k <;> decide
  have hll : byteLen p.length ≤ 8 := byteLen_le_iff.2 (by norm_num; omega)
  unfold encode
  by_cases hbare : isBare k p = true
  · obtain ⟨x, rfl⟩ : ∃ x, p = [x] := by
      match k, p, hbare with
      | .string, [x], _ => exact ⟨x, rfl⟩
    simp [hbare, eq_comm]
  · have hsmall : (UInt8.ofNat (k.base + p.length)).toNat = (k.base + p.length) % 256 := by
      simp [UInt8.toNat_ofNat']
    have hbig : (UInt8.ofNat (k.base + 55 + byteLen p.length)).toNat
        = (k.base + 55 + byteLen p.length) % 256 := by
      simp [UInt8.toNat_ofNat']
    rw [if_neg hbare]
    unfold header
    by_cases h56 : p.length < 56
    · rw [if_pos h56, List.singleton_append, List.cons_append, List.cons.injEq,
        ← UInt8.toNat_inj, hsmall, Nat.mod_eq_of_lt (by omega)]
      simp [hbare, h56, Nat.not_le.2 h56]
    · rw [if_neg h56, List.cons_append, List.cons_append, List.cons.injEq,
        ← UInt8.toNat_inj, hbig, Nat.mod_eq_of_lt (by omega), List.append_assoc]
      simp [hbare, h56, Nat.not_lt.1 h56]

theorem isBare_iff {k : Kind} {p : Bytes} :
    isBare k p = true ↔ k = .string ∧ ∃ x, p = [x] ∧ x.toNat < 0x80 := by
  match k, p with
  | .string, [] => simp [isBare]
  | .string, [x] => simp [isBare]
  | .string, x :: y :: l => simp [isBare]
  | .list, l => simp [isBare]

theorem encode_ne_nil : encode k p ≠ [] := by
  unfold encode
  split
  · next h =>
    obtain ⟨-, x, rfl, -⟩ := isBare_iff.1 h
    simp
  · unfold header
    split <;> simp

theorem decodeHeader_sound (h : decodeHeader (b :: bs) = .ok (k, p, rest)) :
    p.length < 2 ^ 64 ∧ b :: bs = encode k p ++ rest := by
  have hb : b.toNat < 256 := b.toNat_lt
  -- a long header has at most eight length bytes
  have long (hl : byteLen p.length ≤ 8) : p.length < 2 ^ 64 := byteLen_le_iff.1 hl
  rw [decodeHeader] at h
  split at h
  · next hbare =>
    obtain ⟨rfl, rfl, rfl⟩ : Kind.string = k ∧ [b] = p ∧ bs = rest := by simpa using h
    exact ⟨by simp, by simp [encode, isBare, hbare]⟩
  split at h
  · obtain ⟨rfl, hbare, hl, hbs⟩ := shortPayload_iff.1 h
    have hp : p.length < 2 ^ 64 := by omega
    exact ⟨hp, (encode_cons_iff hp).2 <| .inr <| .inl
      ⟨hbare, by omega, by simp only [Kind.base]; omega, hbs⟩⟩
  split at h
  · obtain ⟨rfl, h56, hl, hbs⟩ := longPayload_iff.1 h
    have hp := long (by omega)
    exact ⟨hp, (encode_cons_iff hp).2 <| .inr <| .inr
      ⟨h56, by simp only [Kind.base]; omega, hbs⟩⟩
  split at h
  · obtain ⟨rfl, hbare, hl, hbs⟩ := shortPayload_iff.1 h
    have hp : p.length < 2 ^ 64 := by omega
    exact ⟨hp, (encode_cons_iff hp).2 <| .inr <| .inl
      ⟨hbare, by omega, by simp only [Kind.base]; omega, hbs⟩⟩
  · obtain ⟨rfl, h56, hl, hbs⟩ := longPayload_iff.1 h
    have hp := long (by omega)
    exact ⟨hp, (encode_cons_iff hp).2 <| .inr <| .inr
      ⟨h56, by simp only [Kind.base]; omega, hbs⟩⟩

theorem decodeHeader_complete (hp : p.length < 2 ^ 64) (h : b :: bs = encode k p ++ rest) :
    decodeHeader (b :: bs) = .ok (k, p, rest) := by
  have hll : byteLen p.length ≤ 8 := byteLen_le_iff.2 (by norm_num; omega)
  rw [decodeHeader]
  rcases (encode_cons_iff hp).1 h with ⟨hbare, rfl, rfl⟩ | ⟨hbare, h56, hb, hbs⟩ | ⟨h56, hb, hbs⟩
  · obtain ⟨rfl, x, hx, hlt⟩ := isBare_iff.1 hbare
    obtain rfl : b = x := by simpa using hx
    rw [if_pos hlt]
  · cases k with
    | string =>
      simp only [Kind.base] at hb
      rw [if_neg (by omega), if_pos (by omega)]
      exact shortPayload_iff.2 ⟨rfl, hbare, by omega, hbs⟩
    | list =>
      simp only [Kind.base] at hb
      rw [if_neg (by omega), if_neg (by omega), if_neg (by omega), if_pos (by omega)]
      exact shortPayload_iff.2 ⟨rfl, hbare, by omega, hbs⟩
  · have hpos := byteLen_pos (n := p.length) (by omega)
    cases k with
    | string =>
      simp only [Kind.base] at hb
      rw [if_neg (by omega), if_neg (by omega), if_pos (by omega)]
      exact longPayload_iff.2 ⟨rfl, h56, by omega, hbs⟩
    | list =>
      simp only [Kind.base] at hb
      rw [if_neg (by omega), if_neg (by omega), if_neg (by omega), if_neg (by omega)]
      exact longPayload_iff.2 ⟨rfl, h56, by omega, hbs⟩

/-- **Header parsing is exact**: the item at the front of a buffer is read iff the buffer starts
with its canonical encoding. -/
theorem decodeHeader_iff {buf : Bytes} :
    decodeHeader buf = .ok (k, p, rest) ↔ p.length < 2 ^ 64 ∧ buf = encode k p ++ rest := by
  cases buf with
  | nil =>
    refine ⟨fun h => absurd h (by simp [decodeHeader]), fun ⟨_, h⟩ => ?_⟩
    exact absurd (List.append_eq_nil_iff.1 h.symm).1 encode_ne_nil
  | cons b bs => exact ⟨decodeHeader_sound, fun ⟨hp, h⟩ => decodeHeader_complete hp h⟩

/-! ### Lists -/

/-- The encoded items a list payload is made of; `fuel` bounds their number. -/
def splitItems : Nat → Bytes → Except String (List Bytes)
  | _, [] => .ok []
  | 0, _ :: _ => .error "InputTooShort"
  | fuel + 1, buf => do
    let (_, _, rest) ← decodeHeader buf
    let items ← splitItems fuel rest
    .ok (buf.take (buf.length - rest.length) :: items)

theorem take_front (a r : Bytes) : (a ++ r).take ((a ++ r).length - r.length) = a := by
  rw [List.length_append, Nat.add_sub_cancel, List.take_left]

theorem splitItems_sound : ∀ {fuel : Nat} {buf : Bytes} {items : List Bytes},
    splitItems fuel buf = .ok items → (∀ i ∈ items, IsItem i) ∧ buf = items.flatten
  | _, [], items, h => by
    obtain rfl : [] = items := by simpa [splitItems] using h
    simp
  | 0, _ :: _, _, h => absurd h (by simp [splitItems])
  | fuel + 1, b :: bs, items, h => by
    cases hd : decodeHeader (b :: bs) with
    | error e => simp [splitItems, hd, bind, Except.bind] at h
    | ok r =>
      obtain ⟨k, p, rest⟩ := r
      cases hs : splitItems fuel rest with
      | error e => simp [splitItems, hd, hs, bind, Except.bind] at h
      | ok tail =>
        obtain ⟨hp, hbuf⟩ := decodeHeader_iff.1 hd
        obtain ⟨htail, hrest⟩ := splitItems_sound hs
        simp only [splitItems, hd, hs, bind, Except.bind, Except.ok.injEq] at h
        rw [hbuf, take_front] at h
        subst h
        refine ⟨?_, by rw [List.flatten_cons, ← hrest, ← hbuf]⟩
        intro i hi
        rcases List.mem_cons.1 hi with rfl | hi
        · exact ⟨k, p, hp, rfl⟩
        · exact htail i hi

theorem splitItems_complete : ∀ {items : List Bytes} {fuel : Nat},
    (∀ i ∈ items, IsItem i) → items.length ≤ fuel → splitItems fuel items.flatten = .ok items
  | [], _, _, _ => by simp [splitItems]
  | i :: items, 0, _, h => absurd h (by simp)
  | i :: items, fuel + 1, hi, hf => by
    obtain ⟨k, p, hp, rfl⟩ := hi i List.mem_cons_self
    have hd : decodeHeader (encode k p ++ items.flatten) = .ok (k, p, items.flatten) :=
      decodeHeader_iff.2 ⟨hp, rfl⟩
    have ih : splitItems fuel items.flatten = .ok items :=
      splitItems_complete (fun j hj => hi j (List.mem_cons_of_mem _ hj)) (by simpa using hf)
    have htake := take_front (encode k p) items.flatten
    obtain ⟨b, bs, hb⟩ := List.exists_cons_of_ne_nil (encode_ne_nil)
    rw [List.flatten_cons]
    rw [hb, List.cons_append] at hd htake ⊢
    simp only [splitItems, hd, ih, bind, Except.bind, htake]

theorem length_le_length_flatten (h : ∀ i ∈ items, IsItem i) :
    items.length ≤ items.flatten.length := by
  induction items with
  | nil => simp
  | cons i items ih =>
    obtain ⟨k, p, -, rfl⟩ := h i List.mem_cons_self
    have hpos := List.length_pos_iff.2 (encode_ne_nil (k := k) (p := p))
    have := ih fun j hj => h j (List.mem_cons_of_mem _ hj)
    rw [List.flatten_cons, List.length_append, List.length_cons]
    omega

/-- The list splitter accepts canonical encodings, one after another. -/
theorem splitItems_iff {buf : Bytes} :
    splitItems buf.length buf = .ok items ↔ (∀ i ∈ items, IsItem i) ∧ buf = items.flatten := by
  refine ⟨splitItems_sound, ?_⟩
  rintro ⟨hi, rfl⟩
  exact splitItems_complete hi (length_le_length_flatten hi)

/-- The decoder assembled from `decodeHeader` and `splitItems`. -/
def reference : Decoder where
  decodeRaw buf := do
    let (k, p, rest) ← decodeHeader buf
    match k with
    | .string => .ok (.string p, rest)
    | .list => do
      let items ← splitItems p.length p
      .ok (.list items, rest)
  decodeBytes buf := do
    let (k, p, rest) ← decodeHeader buf
    match k with
    | .string => .ok (p, rest)
    | .list => .error "UnexpectedList"

/-- **The reference decoder accepts canonical RLP and nothing else.** -/
theorem reference_canonical : reference.Canonical where
  raw_string_iff buf p rest := by
    rw [← decodeHeader_iff]
    simp only [reference, bind, Except.bind]
    rcases decodeHeader buf with e | ⟨k, q, r⟩
    · simp
    · cases k with
      | string => simp
      | list => cases h : splitItems q.length q <;> simp [h]
  raw_list_iff buf items rest := by
    rw [← and_assoc, and_comm (a := items.flatten.length < 2 ^ 64), and_assoc,
      ← decodeHeader_iff]
    simp only [reference, bind, Except.bind]
    rcases decodeHeader buf with e | ⟨k, q, r⟩
    · simp
    · cases k with
      | string => simp
      | list =>
        constructor
        · intro h
          cases hs : splitItems q.length q with
          | error e => simp [hs] at h
          | ok xs =>
            obtain ⟨hx, hq⟩ := splitItems_iff.1 hs
            obtain ⟨rfl, rfl⟩ : xs = items ∧ r = rest := by simpa [hs] using h
            exact ⟨hx, by rw [hq]⟩
        · rintro ⟨hi, h⟩
          obtain ⟨rfl, rfl⟩ : q = items.flatten ∧ r = rest := by simpa using h
          simp only [splitItems_iff.2 ⟨hi, rfl⟩]
  bytes_iff buf p rest := by
    rw [← decodeHeader_iff]
    simp only [reference, bind, Except.bind]
    rcases decodeHeader buf with e | ⟨k, q, r⟩
    · simp
    · cases k <;> simp

end QfcServerWallet.Lib.Rlp
