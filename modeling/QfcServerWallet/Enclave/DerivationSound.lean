import QfcServerWallet.Enclave.Signer
import QfcServerWallet.HdPath

/-!
# Paths and the keys they lead to

`qfc-enclave/src/derivation.rs`: `derive_ed25519_slip10`, for two paths from one seed.

* A step makes an HMAC of the chain code, the key and the child index of the segment. The index of a
  hardened segment is its number with the high bit set (`child_index`), by a bitwise or.
* The text parser bounds the number of a segment by `2 ^ 31` (`HdPath`). A path that is deserialised
  from a sign request is not parsed, and may have any `u32`.
* HMAC-SHA512 is assumed not to collide on the inputs of the two derivations (`NoCollision`): no
  function is free of collisions on all inputs of a step, which are longer than its output.

Results: `key_eq_iff`, **`distinct_keys_iff`** and `distinct_keys_of_below`.
-/

namespace QfcServerWallet.Enclave

open Lib HdPathSegment

/-! ## One step -/

/-- The inputs of a step: chain code, key and index. -/
abbrev StepInput := Bytes × Bytes × UInt32

/-- Key and chain code of the child. -/
def childNode (c : Crypto) (x : StepInput) : Bytes × Bytes :=
  splitNode (c.hmacSha512 x.1 (0 :: x.2.1 ++ toBe 4 x.2.2.toNat))

/-- The inputs of the steps from a node. -/
def stepInputs (c : Crypto) : Bytes × Bytes → List HdPathSegment → List StepInput
  | _, [] => []
  | (key, chain), seg :: segs =>
    (chain, key, seg.childIndex) :: stepInputs c (childNode c (chain, key, seg.childIndex)) segs

/-- The master node of a seed. -/
def masterNode (c : Crypto) (seed : Bytes) : Bytes × Bytes :=
  splitNode (c.hmacSha512 (utf8 "ed25519 seed") seed)

/-- Different inputs lead to different keys. -/
def NoneCollide (c : Crypto) (xs ys : List StepInput) : Prop :=
  ∀ x ∈ xs, ∀ y ∈ ys, (childNode c x).1 = (childNode c y).1 → x = y

/-- HMAC-SHA512 does not collide in the two derivations. -/
def NoCollision (c : Crypto) (seed : Bytes) (p q : HdPath) : Prop :=
  NoneCollide c (stepInputs c (masterNode c seed) p.segments)
    (stepInputs c (masterNode c seed) q.segments)

/-- The indices of the steps of a path. -/
def childIndices (p : HdPath) : List UInt32 := p.segments.map HdPathSegment.childIndex

section Derivation

variable {c : Crypto} {seed : Bytes} {p q : HdPath} {a b : Bytes} {segs segs' : List HdPathSegment}

theorem slip10Steps_cons {node out : Bytes × Bytes} {seg : HdPathSegment} :
    slip10Steps c node (seg :: segs) = .ok out ↔
      seg.isHardened = true ∧
        slip10Steps c (childNode c (node.2, node.1, seg.childIndex)) segs = .ok out := by
  obtain ⟨key, chain⟩ := node
  rw [slip10Steps]
  split_ifs with hseg
  · simp [hseg, childNode]
  · simp [hseg]

/-! ## Two derivations -/

theorem slip10Steps_congr :
    ∀ {node out out' : Bytes × Bytes},
      segs.map HdPathSegment.childIndex = segs'.map HdPathSegment.childIndex →
      slip10Steps c node segs = .ok out → slip10Steps c node segs' = .ok out' → out = out' := by
  induction segs generalizing segs' with
  | nil =>
    intro node out out' hindices h h'
    obtain rfl : segs' = [] := by simpa using hindices.symm
    exact Except.ok.inj (h.symm.trans h')
  | cons seg segs ih =>
    intro node out out' hindices h h'
    cases segs' with
    | nil => simp at hindices
    | cons seg' segs' =>
      obtain ⟨hindex, hindices⟩ := List.cons.inj hindices
      obtain ⟨-, h⟩ := slip10Steps_cons.1 h
      obtain ⟨-, h'⟩ := slip10Steps_cons.1 h'
      rw [← hindex] at h'
      exact ih hindices h h'

theorem nodes_eq_of_key_eq :
    ∀ {node node' out out' : Bytes × Bytes}, segs ≠ [] → segs.length = segs'.length →
      slip10Steps c node segs = .ok out → slip10Steps c node' segs' = .ok out' →
      NoneCollide c (stepInputs c node segs) (stepInputs c node' segs') → out.1 = out'.1 →
      node = node' ∧ segs.map HdPathSegment.childIndex = segs'.map HdPathSegment.childIndex := by
  induction segs generalizing segs' with
  | nil => exact fun hne => absurd rfl hne
  | cons seg segs ih =>
    intro node node' out out' _ hlength h h' hcollide hkey
    cases segs' with
    | nil => simp at hlength
    | cons seg' segs' =>
      obtain ⟨key, chain⟩ := node
      obtain ⟨key', chain'⟩ := node'
      obtain ⟨-, h⟩ := slip10Steps_cons.1 h
      obtain ⟨-, h'⟩ := slip10Steps_cons.1 h'
      have hchildren : (childNode c (chain, key, seg.childIndex)).1 =
            (childNode c (chain', key', seg'.childIndex)).1 ∧
          segs.map HdPathSegment.childIndex = segs'.map HdPathSegment.childIndex := by
        cases segs with
        | nil =>
          obtain rfl : segs' = [] := by simpa using hlength.symm
          rw [Except.ok.inj h, Except.ok.inj h']
          exact ⟨hkey, rfl⟩
        | cons next segs =>
          obtain ⟨hnodes, hindices⟩ := ih (by simp) (by simpa using hlength) h h'
            (fun x hx y hy => hcollide x (List.mem_cons_of_mem _ hx) y (List.mem_cons_of_mem _ hy))
            hkey
          exact ⟨congrArg Prod.fst hnodes, hindices⟩
      have hinput := hcollide _ List.mem_cons_self _ List.mem_cons_self hchildren.1
      simp only [Prod.mk.injEq] at hinput
      obtain ⟨rfl, rfl, hindex⟩ := hinput
      exact ⟨rfl, by rw [List.map_cons, List.map_cons, hindex, hchildren.2]⟩

theorem derive_ok_iff :
    deriveEd25519Slip10 c seed p = .ok a ↔
      ∃ chain, slip10Steps c (masterNode c seed) p.segments = .ok (a, chain) := by
  unfold deriveEd25519Slip10
  rw [← masterNode, bind_eq_ok]
  constructor
  · rintro ⟨⟨key, chain⟩, h, hkey⟩
    cases hkey
    exact ⟨chain, h⟩
  · rintro ⟨chain, h⟩
    exact ⟨(a, chain), h, rfl⟩

/-- **Two paths of one length lead to one key iff their child indices agree.** -/
theorem key_eq_iff (hp : deriveEd25519Slip10 c seed p = .ok a)
    (hq : deriveEd25519Slip10 c seed q = .ok b) (hcollision : NoCollision c seed p q)
    (hlength : p.segments.length = q.segments.length) :
    a = b ↔ childIndices p = childIndices q := by
  obtain ⟨chain, hp⟩ := derive_ok_iff.1 hp
  obtain ⟨chain', hq⟩ := derive_ok_iff.1 hq
  constructor
  · intro hkey
    by_cases hmaster : p.segments = []
    · have hmaster' : q.segments = [] := by
        rw [hmaster] at hlength
        exact List.eq_nil_of_length_eq_zero hlength.symm
      rw [childIndices, childIndices, hmaster, hmaster']
    · exact (nodes_eq_of_key_eq hmaster hlength hp hq hcollision hkey).2
  · intro hindices
    exact congrArg Prod.fst (slip10Steps_congr hindices hp hq)

/-- **Two different paths lead to different keys iff their child indices differ.** -/
theorem distinct_keys_iff (c : Crypto) (seed : Bytes) (p q : HdPath) (a b : Bytes)
    (hp : deriveEd25519Slip10 c seed p = .ok a) (hq : deriveEd25519Slip10 c seed q = .ok b)
    (hcollision : NoCollision c seed p q)
    (hlengths : p.segments.length ≠ q.segments.length → a ≠ b) :
    (p ≠ q → a ≠ b) ↔ (childIndices p = childIndices q → p = q) := by
  by_cases hlength : p.segments.length = q.segments.length
  · rw [Ne, Ne, key_eq_iff hp hq hcollision hlength, not_imp_not]
  · have hindices : childIndices p ≠ childIndices q := by
      intro h
      have hmap := congrArg List.length h
      rw [childIndices, childIndices, List.length_map, List.length_map] at hmap
      exact hlength hmap
    exact ⟨fun _ h => absurd h hindices, fun _ _ => hlengths hlength⟩

/-! ## Which paths have the same indices -/

theorem eq_of_childIndices_eq (hp : ∀ s ∈ p.segments, BelowHardening s)
    (hq : ∀ s ∈ q.segments, BelowHardening s) (h : childIndices p = childIndices q) : p = q := by
  obtain ⟨segs⟩ := p
  obtain ⟨segs'⟩ := q
  refine congrArg HdPath.mk ?_
  change segs.map _ = segs'.map _ at h
  change ∀ s ∈ segs, _ at hp
  change ∀ s ∈ segs', _ at hq
  induction segs generalizing segs' with
  | nil => simpa using h.symm
  | cons s segs ih =>
    cases segs' with
    | nil => simp at h
    | cons t segs' =>
      obtain ⟨hs, hp⟩ := List.forall_mem_cons.1 hp
      obtain ⟨ht, hq⟩ := List.forall_mem_cons.1 hq
      obtain ⟨hindex, hindices⟩ := List.cons.inj h
      rw [childIndex_inj_of_below hs ht hindex, ih segs' hindices hp hq]

/-- Different paths lead to different keys when all numbers are below `2 ^ 31`, as after parsing a
text. -/
theorem distinct_keys_of_below (hp : deriveEd25519Slip10 c seed p = .ok a)
    (hq : deriveEd25519Slip10 c seed q = .ok b) (hcollision : NoCollision c seed p q)
    (hlengths : p.segments.length ≠ q.segments.length → a ≠ b)
    (hbelow : ∀ s ∈ p.segments ++ q.segments, BelowHardening s) (hne : p ≠ q) : a ≠ b := by
  by_cases hlength : p.segments.length = q.segments.length
  · intro hkey
    obtain ⟨hpbelow, hqbelow⟩ := List.forall_mem_append.1 hbelow
    exact hne (eq_of_childIndices_eq hpbelow hqbelow
      ((key_eq_iff hp hq hcollision hlength).1 hkey))
  · exact hlengths hlength

end Derivation

/-! ### Two paths of one step

The real HMAC values for the seed of thirty-two bytes `05`. -/

namespace SampleDerivation

/-- The seed of the sample. -/
def seed : Bytes := List.replicate 32 5

def masterKey : Bytes := toBe 32 0xa983198719af8b88838fce4c524bd6bb4a4b2fbaa1c0a6855e96ebb9822e94bb

/-- Its chain code. -/
def masterChain : Bytes :=
  toBe 32 0x57f9dba2bcae06f84031af27b0621c7cc63e0ebdadea42e352a3027e1186979e

/-- The values of HMAC-SHA512 that the two derivations need. -/
def hmacs : List ((Bytes × Bytes) × FixedBytes 64) :=
  [((utf8 "ed25519 seed", seed),
      .ofNat 64 (0xa983198719af8b88838fce4c524bd6bb4a4b2fbaa1c0a6855e96ebb9822e94bb * 2 ^ 256 +
        0x57f9dba2bcae06f84031af27b0621c7cc63e0ebdadea42e352a3027e1186979e)),
    ((masterChain, 0 :: masterKey ++ [0x80, 0, 0, 0]),
      .ofNat 64 (0x016db96c06cdf7383a71010ac7f43ce355938354f5c0bc5acd0793559d18fe3c * 2 ^ 256 +
        0x8322ccee2d84872ba2b9ffb41b8cfa497375ca47132fec8f8339a904bef8abf1)),
    ((masterChain, 0 :: masterKey ++ [0x80, 0, 0, 1]),
      .ofNat 64 (0x59b93d57604bdcb56baa755b5d2548eeb7891f149b2c6723132888e7175b4daa * 2 ^ 256 +
        0x77c5b20a5acfe1e06a01c5bfff37c638cab395bfb20f32e30f8a679fe88b4363))]

/-- The HMACs of the sample. -/
def crypto : Crypto :=
  { Crypto.ofTables {} with
    hmacSha512 := fun key message => (hmacs.lookup (key, message)).getD (FixedBytes.zero 64) }

/-- One hardened segment. -/
def path (i : UInt32) : HdPath := ⟨[.hardened i]⟩

/-- The key of one segment. -/
def key (i : Nat) : Bytes :=
  if i = 0 then toBe 32 0x016db96c06cdf7383a71010ac7f43ce355938354f5c0bc5acd0793559d18fe3c
  else toBe 32 0x59b93d57604bdcb56baa755b5d2548eeb7891f149b2c6723132888e7175b4daa

theorem evaluated :
    deriveEd25519Slip10 crypto seed (path 0) = .ok (key 0) ∧
      deriveEd25519Slip10 crypto seed (path 1) = .ok (key 1) ∧
      deriveEd25519Slip10 crypto seed (path 0x80000000) = .ok (key 0) ∧ key 0 ≠ key 1 := by
  decide +kernel

end SampleDerivation

open SampleDerivation

/-- `m/0'` and `m/1'` lead to different keys. -/
theorem distinct_keys_first_two :
    deriveEd25519Slip10 crypto seed (path 0) = .ok (key 0) ∧
      deriveEd25519Slip10 crypto seed (path 1) = .ok (key 1) ∧
      key 0 ≠ key 1 := by
  have hzero := evaluated.1
  have hone := evaluated.2.1
  have hcollision : NoCollision crypto seed (path 0) (path 1) := by
    intro x hx y hy hkey
    obtain rfl := List.mem_singleton.1 hx
    obtain rfl := List.mem_singleton.1 hy
    exact absurd hkey evaluated.2.2.2
  refine ⟨hzero, hone, (distinct_keys_iff _ _ _ _ _ _ hzero hone hcollision
    (fun h => absurd rfl h)).2 ?_ (by decide)⟩
  intro hindices
  cases hindices

/-- **The paths of the segments `Hardened(0)` and `Hardened(2147483648)` differ, and so do their
texts, but both lead to one key.** -/
theorem one_key_for_two_paths :
    path 0 ≠ path 0x80000000 ∧ (path 0).toString ≠ (path 0x80000000).toString ∧
      NoCollision crypto seed (path 0) (path 0x80000000) ∧
      deriveEd25519Slip10 crypto seed (path 0) = .ok (key 0) ∧
      deriveEd25519Slip10 crypto seed (path 0x80000000) = .ok (key 0) := by
  refine ⟨by decide, by decide, ?_, evaluated.1,
    evaluated.2.2.1⟩
  intro x hx y hy _
  obtain rfl := List.mem_singleton.1 hx
  obtain rfl := List.mem_singleton.1 hy
  rfl

end QfcServerWallet.Enclave
