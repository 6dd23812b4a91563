import QfcServerWallet.Enclave.Attestation
import Mathlib.Data.List.Chain

/-!
# What a verified attestation says

Theorems on `verify_attestation.rs`. A chain of certificates is a `List.IsChain` of `Link`s. The
caller chooses `signature_kind`. What rules out the ed25519 kinds under a root anchor is the leaf:
they need 32 bytes of key where the walk needs a certificate.

Results: `verifyRootChain_ok`, `verifyRootChain_broken`, **`verifyAttestation_anchored`** and
**`authentic_iff_nonce`**.
-/

namespace QfcServerWallet.Enclave

open Lib Cose

variable {d : AttestDeps} {nowMs : Int64}

/-! ## Links -/

/-- The certificate is valid now. -/
def InWindow (cert : Certificate) (nowMs : Int64) : Prop :=
  (cert.notBefore : Int) ≤ nowMs.toInt ∧ nowMs.toInt ≤ cert.notAfter

/-- The signature of `child` verifies under the P-384 key of `parent`. -/
def SignedBy (d : AttestDeps) (child parent : Certificate) : Prop :=
  ∃ vk tbs sig, parent.subjectPublicKey.bind d.p384Key = some vk ∧ child.tbsDer = some tbs ∧
    child.signature.bind d.p384DerSignature = some sig ∧ d.p384Verify vk tbs sig = true

/-- The child names the parent as its issuer, is valid now and signed with the parent's key. -/
structure Link (d : AttestDeps) (nowMs : Int64) (child parent : Certificate) : Prop where
  issued : child.issuer = parent.subject
  valid : InWindow child nowMs
  signed : SignedBy d child parent

variable {child parent cert leaf root : Certificate} {index : Nat} {reason : String} {α : Type}
  {x : Except AttestationVerifyError α} {chain : List Certificate}

theorem orBroken_eq_ok {x : Option α} {a : α} : orBroken index reason x = .ok a ↔ x = some a := by
  cases x <;> simp [orBroken]

theorem timeMs_eq_ok {ms : Nat} {t : Int} (h : timeMs ms index reason = .ok t) : t = ms := by
  unfold timeMs at h
  split at h
  · cases h
    rfl
  · cases h

theorem checkValidity_ok (h : checkValidity cert index nowMs = .ok ()) : InWindow cert nowMs := by
  simp only [checkValidity, bind_eq_ok] at h
  obtain ⟨notBefore, hbefore, notAfter, hafter, h⟩ := h
  rw [timeMs_eq_ok hbefore, timeMs_eq_ok hafter] at h
  split_ifs at h with hlow hhigh
  exact ⟨not_lt.1 hlow, not_lt.1 hhigh⟩

theorem verifyP384Signature_ok (h : verifyP384Signature d child parent index reason = .ok ()) :
    SignedBy d child parent := by
  simp only [verifyP384Signature, bind_eq_ok, orBroken_eq_ok] at h
  obtain ⟨sec1, hsec1, vk, hvk, tbs, htbs, sigBytes, hbytes, sig, hsig, h⟩ := h
  split_ifs at h with hverify
  exact ⟨vk, tbs, sig, by rw [hsec1]; exact hvk, htbs, by rw [hbytes]; exact hsig, hverify⟩

theorem checkPair_ok (h : checkPair d child parent index nowMs = .ok ()) :
    Link d nowMs child parent := by
  unfold checkPair at h
  split_ifs at h with hissuer
  rw [seq_eq_ok] at h
  exact ⟨not_not.1 hissuer, checkValidity_ok h.1, verifyP384Signature_ok h.2⟩

/-! ## Errors name the child -/

/-- If the check finds the chain broken, then at `index`. -/
def BreaksAt {α : Type} (index : Nat) (x : Except AttestationVerifyError α) : Prop :=
  ∀ i reason, x = .error (.certChainBroken i reason) → i = index

theorem breaksAt_ok (a : α) : BreaksAt index (.ok a) := nofun

theorem breaksAt_broken (reason : String) :
    BreaksAt (α := α) index (.error (.certChainBroken index reason)) := by
  rintro i reason' h
  cases h
  rfl

theorem breaksAt_error {e : AttestationVerifyError}
    (he : ∀ i reason, e ≠ .certChainBroken i reason) : BreaksAt (α := α) index (.error e) := by
  rintro i reason h
  cases h
  exact absurd rfl (he i reason)

theorem BreaksAt.bind {β : Type} {f : α → Except AttestationVerifyError β} (hx : BreaksAt index x)
    (hf : ∀ a, BreaksAt index (f a)) : BreaksAt index (x >>= f) := by
  intro i reason h
  rcases bind_eq_error.1 h with h | ⟨a, -, h⟩
  · exact hx i reason h
  · exact hf a i reason h

theorem BreaksAt.ite {p : Prop} [Decidable p] {y : Except AttestationVerifyError α}
    (hx : BreaksAt index x) (hy : BreaksAt index y) : BreaksAt index (if p then x else y) := by
  split
  · exact hx
  · exact hy

theorem orBroken_breaksAt (x : Option α) : BreaksAt index (orBroken index reason x) := by
  cases x with
  | none => exact breaksAt_broken reason
  | some a => exact breaksAt_ok a

theorem checkValidity_breaksAt : BreaksAt index (checkValidity cert index nowMs) :=
  .bind (.ite (breaksAt_ok _) (breaksAt_broken _)) fun _ =>
    .bind (.ite (breaksAt_ok _) (breaksAt_broken _)) fun _ =>
      .ite (breaksAt_broken _) (.ite (breaksAt_broken _) (breaksAt_ok _))

theorem verifyP384Signature_breaksAt :
    BreaksAt index (verifyP384Signature d child parent index reason) :=
  .bind (orBroken_breaksAt _) fun _ => .bind (orBroken_breaksAt _) fun _ =>
    .bind (orBroken_breaksAt _) fun _ => .bind (orBroken_breaksAt _) fun _ =>
      .bind (orBroken_breaksAt _) fun _ => .ite (breaksAt_ok _) (breaksAt_broken _)

/-! ## The walk -/

theorem walk_ok (h : walk d nowMs index chain = .ok ()) :
    chain.IsChain (Link d nowMs) := by
  induction chain generalizing index with
  | nil => exact .nil
  | cons child rest ih =>
    cases rest with
    | nil => exact .singleton child
    | cons parent rest =>
      rw [walk, seq_eq_ok] at h
      exact List.isChain_cons_cons.2 ⟨checkPair_ok h.1, ih h.2⟩

theorem walk_broken {i : Nat} (h : walk d nowMs index chain = .error (.certChainBroken i reason)) :
    ∃ n, i = index + n ∧ n + 1 < chain.length ∧
      (chain.take (n + 1)).IsChain (Link d nowMs) := by
  induction chain generalizing index with
  | nil => cases h
  | cons child rest ih =>
    cases rest with
    | nil => cases h
    | cons parent rest =>
      rw [walk, bind_eq_error] at h
      rcases h with h | ⟨_, hpair, h⟩
      · exact ⟨0, BreaksAt.ite (breaksAt_broken _)
          (.bind checkValidity_breaksAt fun _ => verifyP384Signature_breaksAt) i reason h, by simp,
          by simp⟩
      · obtain ⟨n, rfl, hlen, hchain⟩ := ih h
        refine ⟨n + 1, ?_, Nat.succ_lt_succ hlen, ?_⟩
        · rw [Nat.add_assoc, Nat.add_comm 1 n]
        · rw [List.take_succ_cons, List.take_succ_cons]
          rw [List.take_succ_cons] at hchain
          exact List.isChain_cons_cons.2 ⟨checkPair_ok hpair, hchain⟩

/-- The certificates of a chain: leaf, intermediates and root. -/
structure Chain where
  leaf : Certificate
  intermediates : List Certificate
  root : Certificate

namespace Chain

/-- As the walk numbers them. -/
def certificates (c : Chain) : List Certificate := c.leaf :: c.intermediates ++ [c.root]

/-- The bytes of a document and its anchor are these certificates. -/
structure Parses (d : AttestDeps) (leafCert : Bytes) (cabundle : List Bytes) (root : Bytes)
    (c : Chain) : Prop where
  leaf : d.certificate leafCert = some c.leaf
  intermediates : cabundle.map d.certificate = c.intermediates.map some
  root : parseRoot d root = .ok c.root

end Chain

theorem parseCabundle_ok {cabundle : List Bytes} {certs : List Certificate}
    (h : parseCabundle d index cabundle = .ok certs) :
    cabundle.map d.certificate = certs.map some := by
  induction cabundle generalizing index certs with
  | nil =>
    cases h
    rfl
  | cons der rest ih =>
    simp only [parseCabundle] at h
    split at h
    · cases h
    · next cert hcert =>
      obtain ⟨certs', hcerts, h⟩ := bind_eq_ok.1 h
      cases h
      rw [List.map_cons, hcert, ih hcerts, List.map_cons]

theorem parseCabundle_not_broken {cabundle : List Bytes} {i : Nat} :
    parseCabundle d index cabundle ≠ .error (.certChainBroken i reason) := by
  induction cabundle generalizing index with
  | nil => exact nofun
  | cons der rest ih =>
    intro h
    simp only [parseCabundle] at h
    split at h
    · cases h
    · rcases bind_eq_error.1 h with h | ⟨_, -, h⟩
      · exact ih h
      · cases h

theorem parseRoot_not_broken {bytes : Bytes} {i : Nat} :
    parseRoot d bytes ≠ .error (.certChainBroken i reason) := by
  unfold parseRoot
  split <;> split <;> exact nofun

theorem verifyChain_ok {c : Chain}
    (h : verifyChain d c.leaf c.intermediates c.root nowMs = .ok ()) :
    c.certificates.IsChain (Link d nowMs) ∧ Link d nowMs c.root c.root := by
  simp only [verifyChain, seq_eq_ok] at h
  obtain ⟨hwalk, h⟩ := h
  split at h
  · cases h
  · next hissuer =>
    rw [seq_eq_ok, seq_eq_ok] at h
    exact ⟨walk_ok hwalk, not_not.1 hissuer, checkValidity_ok h.1, verifyP384Signature_ok h.2.1⟩

theorem verifyChain_broken {c : Chain}
    (h : verifyChain d c.leaf c.intermediates c.root nowMs
      = .error (.certChainBroken index reason)) :
    index < c.certificates.length ∧ (c.certificates.take (index + 1)).IsChain (Link d nowMs) := by
  simp only [verifyChain] at h
  rcases bind_eq_error.1 h with h | ⟨_, hwalk, h⟩
  · obtain ⟨n, rfl, hlen, hchain⟩ := walk_broken h
    rw [Nat.zero_add]
    exact ⟨Nat.lt_of_succ_lt hlen, hchain⟩
  · obtain rfl : index = c.certificates.length - 1 :=
      BreaksAt.ite (breaksAt_broken _) (.bind checkValidity_breaksAt fun _ =>
        .bind verifyP384Signature_breaksAt fun _ => .ite (breaksAt_error (by simp))
          (.ite (breaksAt_error (by simp)) (breaksAt_ok ()))) index reason h
    have hpos : 0 < c.certificates.length := by simp [Chain.certificates]
    refine ⟨by omega, ?_⟩
    rw [List.take_of_length_le (by omega)]
    exact walk_ok hwalk

section RootChain

variable {leafCert rootBytes : Bytes} {cabundle : List Bytes}

/-- **A chain that was walked is a chain of links up to a root that issued itself.** -/
theorem verifyRootChain_ok (h : verifyRootChain d leafCert cabundle rootBytes nowMs = .ok ()) :
    ∃ c : Chain, c.Parses d leafCert cabundle rootBytes ∧
      c.certificates.IsChain (Link d nowMs) ∧ Link d nowMs c.root c.root := by
  unfold verifyRootChain at h
  split at h
  · cases h
  · next leaf hleaf =>
    simp only [bind_eq_ok] at h
    obtain ⟨intermediates, hints, root, hroot, h⟩ := h
    exact ⟨⟨leaf, intermediates, root⟩, ⟨hleaf, parseCabundle_ok hints, hroot⟩, verifyChain_ok h⟩

/-- **A chain found broken at `index` is a chain of links up to there.** -/
theorem verifyRootChain_broken
    (h : verifyRootChain d leafCert cabundle rootBytes nowMs
      = .error (.certChainBroken index reason)) :
    ∃ c : Chain, c.Parses d leafCert cabundle rootBytes ∧ index < c.certificates.length ∧
      (c.certificates.take (index + 1)).IsChain (Link d nowMs) := by
  unfold verifyRootChain at h
  split at h
  · cases h
  · next leaf hleaf =>
    rcases bind_eq_error.1 h with h | ⟨intermediates, hints, h⟩
    · exact absurd h parseCabundle_not_broken
    · rcases bind_eq_error.1 h with h | ⟨root, hroot, h⟩
      · exact absurd h parseRoot_not_broken
      · exact ⟨⟨leaf, intermediates, root⟩, ⟨hleaf, parseCabundle_ok hints, hroot⟩,
          verifyChain_broken h⟩

end RootChain

/-! ## The whole verification -/

section Verify

variable {doc : NitroAttestationDoc} {expectedPcrs : PcrConstraint} {rootAnchor : RootAnchor}
  {maxAgeMs : Int64} {v : VerifiedAttestation} {envelope : CoseSign1Envelope}

theorem verifyAttestationInner_ok
    (h : verifyAttestationInner d doc expectedPcrs rootAnchor nowMs maxAgeMs = .ok v) :
    checkMirror d doc = .ok () ∧ expectedPcrs.check doc.parsedPayload.pcrs = .ok () ∧
      checkFreshness doc.parsedPayload.timestampUnixMs nowMs maxAgeMs = .ok () ∧
      checkSignature d doc = .ok () ∧ checkCertChain d doc rootAnchor nowMs = .ok () ∧
      v.payload = doc.parsedPayload := by
  simp only [verifyAttestationInner, seq_eq_ok] at h
  obtain ⟨hmirror, hpcrs, hfresh, hsignature, hchain, h⟩ := h
  cases h
  exact ⟨hmirror, hpcrs, hfresh, hsignature, hchain, rfl⟩

theorem decode_ok {bytes : Bytes} {inner : Cose.AttestationPayload}
    (h : decode d bytes = .ok (envelope, inner)) :
    parseCoseSign1 d.toCoseDeps bytes = .ok envelope ∧
      extractPayload d.toCoseDeps envelope = .ok inner := by
  simp only [decode, bind_eq_ok, mapError_eq_ok] at h
  obtain ⟨_, henvelope, _, hinner, h⟩ := h
  cases h
  exact ⟨henvelope, hinner⟩

/-- The mirror agrees with the decoded payload, the nonce apart. -/
structure Mirrors (inner : Cose.AttestationPayload) (payload : NitroAttestationPayload) :
    Prop where
  moduleId : payload.moduleId = inner.moduleId
  timestamp : payload.timestampUnixMs = inner.timestamp
  pcrs : payload.pcrs = inner.pcrs
  publicKey : payload.publicKey = inner.publicKey
  userData : payload.userData = inner.userData

theorem checkMirror_ok (hkind : doc.signatureKind ≠ .mock) (h : checkMirror d doc = .ok ()) :
    ∃ envelope inner, decode d doc.coseSign1 = .ok (envelope, inner) ∧
      Mirrors inner doc.parsedPayload := by
  have hcose : ∃ x, decode d doc.coseSign1 = .ok x ∧ Mirrors x.2 doc.parsedPayload := by
    cases hk : doc.signatureKind with
    | mock => exact absurd hk hkind
    | _ =>
      simp only [checkMirror, hk, bind_eq_ok] at h
      obtain ⟨x, hx, h⟩ := h
      refine ⟨x, hx, ?_⟩
      split_ifs at h with hsame
      simp only [not_or, not_not] at hsame
      exact ⟨hsame.1.symm, hsame.2.1.symm, hsame.2.2.1.symm, hsame.2.2.2.1.symm,
        hsame.2.2.2.2.symm⟩
  obtain ⟨⟨envelope, inner⟩, hdecode, hmirrors⟩ := hcose
  exact ⟨envelope, inner, hdecode, hmirrors⟩

/-- The signature of the envelope verifies under the leaf of the document. -/
def EnvelopeSigned (d : AttestDeps) (doc : NitroAttestationDoc) (envelope : CoseSign1Envelope) :
    Prop :=
  match doc.signatureKind with
  | .mock => False
  | .coseSign1Ed25519 => SignedByKey d.toCoseDeps envelope doc.leafCertificate
  | .coseSign1Es384 => ∃ cert, d.certificate doc.leafCertificate = some cert ∧
      SignedByCertificate d.toCoseDeps envelope cert

theorem checkSignature_ok (hkind : doc.signatureKind ≠ .mock)
    (henvelope : parseCoseSign1 d.toCoseDeps doc.coseSign1 = .ok envelope)
    (h : checkSignature d doc = .ok ()) : EnvelopeSigned d doc envelope := by
  unfold EnvelopeSigned
  cases hk : doc.signatureKind with
  | mock => exact absurd hk hkind
  | coseSign1Ed25519 =>
    simp only [checkSignature, hk, henvelope, Except.mapError, bind, Except.bind] at h
    exact signed_of_verifyCoseSignature (mapError_eq_ok.1 h)
  | coseSign1Es384 =>
    simp only [checkSignature, hk, henvelope, Except.mapError, bind, Except.bind] at h
    exact signed_of_verifyCoseSignatureEs384 (mapError_eq_ok.1 h)

/-! ### The payload -/

/-- The payload is what the signed envelope says, in every field. -/
def Authentic (d : AttestDeps) (doc : NitroAttestationDoc) (payload : NitroAttestationPayload) :
    Prop :=
  ∃ envelope inner, decode d doc.coseSign1 = .ok (envelope, inner) ∧
    EnvelopeSigned d doc envelope ∧ Mirrors inner payload ∧
    narrowNonce inner.nonce = .ok payload.nonce

/-- **A verified payload is the signed one iff its nonce is** the one that `from_cose_sign1` reads
from the same bytes. -/
theorem authentic_iff_nonce (d : AttestDeps) (doc : NitroAttestationDoc)
    (expectedPcrs : PcrConstraint) (rootAnchor : RootAnchor) (nowMs maxAgeMs : Int64)
    (v : VerifiedAttestation) (hkind : doc.signatureKind ≠ .mock)
    (h : verifyAttestationInner d doc expectedPcrs rootAnchor nowMs maxAgeMs = .ok v) :
    Authentic d doc v.payload ↔
      ∃ doc', NitroAttestationDoc.fromCoseSign1 d doc.coseSign1 = .ok doc' ∧
        doc'.parsedPayload.nonce = doc.parsedPayload.nonce := by
  obtain ⟨hmirror, -, -, hsignature, -, hpayload⟩ := verifyAttestationInner_ok h
  obtain ⟨envelope, inner, hdecode, hmirrors⟩ := checkMirror_ok hkind hmirror
  have hsigned := checkSignature_ok hkind (decode_ok hdecode).1 hsignature
  rw [hpayload]
  constructor
  · rintro ⟨envelope', inner', hdecode', -, -, hnonce⟩
    simp only [NitroAttestationDoc.fromCoseSign1, hdecode', hnonce, bind, Except.bind]
    exact ⟨_, rfl, rfl⟩
  · rintro ⟨doc', hdoc', hnonce⟩
    simp only [NitroAttestationDoc.fromCoseSign1, hdecode, bind, Except.bind] at hdoc'
    refine ⟨envelope, inner, hdecode, hsigned, hmirrors, ?_⟩
    split at hdoc'
    · cases hdoc'
    · next nonce hnarrow =>
      cases hdoc'
      rw [hnarrow]
      exact congrArg _ hnonce

/-! ### The chain -/

/-- The document is signed with the key of a leaf that chains to the root, and the signed PCRs
satisfy the constraint. -/
def Anchored (d : AttestDeps) (doc : NitroAttestationDoc) (expectedPcrs : PcrConstraint)
    (rootBytes : Bytes) (nowMs : Int64) : Prop :=
  doc.signatureKind = .coseSign1Es384 ∧
    ∃ (c : Chain) (envelope : CoseSign1Envelope) (inner : Cose.AttestationPayload),
      c.Parses d doc.leafCertificate doc.cabundle rootBytes ∧
      decode d doc.coseSign1 = .ok (envelope, inner) ∧
      SignedByCertificate d.toCoseDeps envelope c.leaf ∧ expectedPcrs.Holds inner.pcrs ∧
      c.certificates.IsChain (Link d nowMs) ∧ Link d nowMs c.root c.root

theorem kind_of_certificate
    (hder : ∀ bytes cert, d.certificate bytes = some cert → bytes.length ≠ 32)
    (hleaf : d.certificate doc.leafCertificate = some leaf) (h : checkSignature d doc = .ok ()) :
    doc.signatureKind = .coseSign1Es384 := by
  have hlength := hder _ _ hleaf
  cases hk : doc.signatureKind with
  | mock =>
    simp only [checkSignature, hk, verifyEd25519Signature] at h
    split at h
    · cases h
    · next pk hpk =>
      rw [← FixedBytes.ofBytes?_eq_some.1 hpk] at hlength
      exact absurd pk.length_bytes hlength
  | coseSign1Ed25519 =>
    simp only [checkSignature, hk, bind_eq_ok, mapError_eq_ok] at h
    obtain ⟨envelope, -, h⟩ := h
    exact absurd (signed_of_verifyCoseSignature h).length_leaf hlength
  | coseSign1Es384 => rfl

/-- **Under a root anchor a verified document is anchored, and a chain found broken is one up to
the link that broke.** -/
theorem verifyAttestation_anchored (d : AttestDeps)
    (hder : ∀ bytes cert, d.certificate bytes = some cert → bytes.length ≠ 32) :
    (∀ doc expectedPcrs rootAnchor nowMs maxAgeMs v, rootAnchor ≠ .none →
      verifyAttestationWithRoot d doc expectedPcrs rootAnchor nowMs maxAgeMs = .ok v →
        ∃ rootBytes, rootAnchor.rootBytes = some rootBytes ∧
          Anchored d doc expectedPcrs rootBytes nowMs) ∧
    ∀ leafCert cabundle rootBytes nowMs index reason,
      verifyRootChain d leafCert cabundle rootBytes nowMs
          = .error (.certChainBroken index reason) →
        ∃ c : Chain, c.Parses d leafCert cabundle rootBytes ∧ index < c.certificates.length ∧
          (c.certificates.take (index + 1)).IsChain (Link d nowMs) := by
  refine ⟨fun doc expectedPcrs rootAnchor nowMs maxAgeMs v hanchor h => ?_,
    fun _ _ _ _ _ _ h => verifyRootChain_broken h⟩
  obtain ⟨hmirror, hpcrs, -, hsignature, hchain, -⟩ := verifyAttestationInner_ok h
  obtain ⟨rootBytes, hroot⟩ : ∃ rootBytes, rootAnchor.rootBytes = some rootBytes := by
    cases rootAnchor with
    | awsNitroG1 => exact ⟨_, rfl⟩
    | custom bytes => exact ⟨_, rfl⟩
    | none => exact absurd rfl hanchor
  refine ⟨rootBytes, hroot, ?_⟩
  obtain ⟨c, hparses, hlinks, hself⟩ : ∃ c : Chain,
      c.Parses d doc.leafCertificate doc.cabundle rootBytes ∧
      c.certificates.IsChain (Link d nowMs) ∧ Link d nowMs c.root c.root := by
    simp only [checkCertChain, hroot] at hchain
    split at hchain
    · cases hchain
    · exact verifyRootChain_ok hchain
  have hkind := kind_of_certificate hder hparses.leaf hsignature
  have hcose : doc.signatureKind ≠ .mock := by
    rw [hkind]
    exact nofun
  obtain ⟨envelope, inner, hdecode, hmirrors⟩ := checkMirror_ok hcose hmirror
  have hsigned := checkSignature_ok hcose (decode_ok hdecode).1 hsignature
  simp only [EnvelopeSigned, hkind] at hsigned
  obtain ⟨leaf, hleaf, hsigned⟩ := hsigned
  cases hparses.leaf.symm.trans hleaf
  refine ⟨hkind, c, envelope, inner, hparses, hdecode, hsigned, ?_, hlinks, hself⟩
  rw [← hmirrors.pcrs]
  exact PcrConstraint.check_ok_iff.1 hpcrs

end Verify

/-! ## An attested document

A P-384 root, a leaf it issued, and an envelope signed with the leaf's key. The certificates and
the signatures are real ones, and `deps` answers as the libraries do for these bytes. -/

namespace Attested

/-- The head of a CBOR item: its major type, and a number in as few bytes as it needs. -/
def head (major : UInt8) (n : Nat) : Bytes :=
  if n < 24 then [major * 32 + UInt8.ofNat n]
  else if n < 256 then (major * 32 + 24) :: toBe 1 n
  else if n < 65536 then (major * 32 + 25) :: toBe 2 n
  else if n < 4294967296 then (major * 32 + 26) :: toBe 4 n
  else (major * 32 + 27) :: toBe 8 n

mutual

/-- The bytes that were signed, for the values that occur in them. -/
def cbor : CborValue → Bytes
  | .integer i => if 0 ≤ i then head 0 i.toNat else head 1 (-1 - i).toNat
  | .bytes b => head 2 b.length ++ b
  | .text s => head 3 (utf8 s).length ++ utf8 s
  | .null => [246]
  | .array entries => head 4 entries.length ++ cborAll entries
  | .map entries => head 5 entries.length ++ cborPairs entries
  | .other => []

/-- One item after the other. -/
def cborAll : List CborValue → Bytes
  | [] => []
  | v :: vs => cbor v ++ cborAll vs

def cborPairs : List (CborValue × CborValue) → Bytes
  | [] => []
  | (k, v) :: rest => cbor k ++ cbor v ++ cborPairs rest

end

/-- A point of the curve, uncompressed. -/
def point (x y : Nat) : Bytes := 4 :: toBe 48 x ++ toBe 48 y

/-- The key of the root. -/
def rootKey : Bytes := point
  0xf9a1f078497b4405d48bba6a1c0d8a749b6acb96cf2783900e6bbb9917281705ad83801405ef0a7f58df5bdfb289c07e
  0x5c073b6fad5893bee0571a38f5188a47f897ae9adaee391f8b5a1b461029887e4d0845cb6819531c7846e475959573b6

/-- The key of the leaf. -/
def leafKey : Bytes := point
  0x0354f33a2794357269be5ce3db28e25e24b2607165f8403c2e780f6ac7ccf2778c5986b9eb13c3f89bb939b7c7c35beb
  0x5943fb78a5bd3cfb0af20d480c50327a601297592dc74fb526554ec905e682fe431cd62f841f8e687138c42737b722ca

/-- The root's signature of itself, in DER. -/
def rootSignature : Bytes := [0x30, 0x65, 2, 0x30] ++ toBe 48
  0x506574638b89e89e8deae39e296d626f0c84f16b24cadaa61f7a0d986ea19778b662b52d7ec06dcfa7b5275e3ebbbfac
  ++ [2, 0x31] ++ toBe 49
  0x864a1e44c5c49010f5942d3954223dee3d70fb341f02a28d69e0629265248d6025fbbee20436665c2be3766532659e78

/-- The root's signature of the leaf, in DER. -/
def leafSignature : Bytes := [0x30, 0x66, 2, 0x31] ++ toBe 49
  0xfb0258904e276829cb9dd95145c9f8076a770b565bf6436922e416a2598a77729e64dd475b45c443d856f63f9ec0484f
  ++ [2, 0x31] ++ toBe 49
  0xf46738ccec8c8a5137eb6bdb8b6704234031faa29fd11010fcb95e9bdd1c4e4c55e4d5cd16eddd1bfbf4894b527ea2ab

/-- `CN=…` -/
def name (cn : String) : Bytes :=
  [0x30, 0x0f, 0x31, 0x0d, 0x30, 0x0b, 6, 3, 0x55, 4, 3, 0x0c, 4] ++ utf8 cn

/-- ecdsa-with-SHA384 -/
def algorithm : Bytes := [0x30, 0x0a, 6, 8, 0x2a, 0x86, 0x48, 0xce, 0x3d, 4, 3, 3]

/-- A certificate body that the root signs, from 2026-11-15 19:03:59 to 2126-10-22. -/
def tbs (serial : UInt8) (subject : String) (key : Bytes) : Bytes :=
  [0x30, 0x81, 0xcb, 2, 1, serial] ++ algorithm ++ name "root"
    ++ [0x30, 0x20, 0x17, 0x0d] ++ utf8 "261115190359Z" ++ [0x18, 0x0f] ++ utf8 "21261022190359Z"
    ++ name subject
    ++ [0x30, 0x76, 0x30, 0x10, 6, 7, 0x2a, 0x86, 0x48, 0xce, 0x3d, 2, 1, 6, 5, 0x2b, 0x81, 4, 0,
      0x22, 3, 0x62, 0] ++ key

/-- A certificate in DER. -/
def der (body signature : Bytes) : Bytes :=
  [0x30, 0x82] ++ toBe 2 (body.length + signature.length + 15) ++ body ++ algorithm
    ++ [3, UInt8.ofNat (signature.length + 1), 0] ++ signature

/-- The root. -/
def rootDer : Bytes := der (tbs 1 "root" rootKey) rootSignature

def leafDer : Bytes := der (tbs 2 "leaf" leafKey) leafSignature

def certificate (subject : String) (key body signature : Bytes) : Certificate where
  issuer := name "root"
  subject := name subject
  notBefore := 1794769439000
  notAfter := 4948369439000
  subjectPublicKey := some key
  tbsDer := some body
  signature := some signature
  der := some (der body signature)

/-- The root as it is read. -/
def rootCert : Certificate := certificate "root" rootKey (tbs 1 "root" rootKey) rootSignature

/-- The leaf as it is read. -/
def leafCert : Certificate := certificate "leaf" leafKey (tbs 2 "leaf" leafKey) leafSignature

def now : Int64 := 1794772800000

/-- The signed payload. -/
def payload : Cose.AttestationPayload where
  moduleId := "i-1"
  timestamp := now
  digest := "SHA384"
  pcrs := Pcrs.empty.insert 0 (List.replicate 48 0xab)
  certificate := leafDer
  cabundle := [rootDer]
  publicKey := []
  userData := utf8 "user-data"
  nonce := List.replicate 32 0x11

/-- The leaf's signature of the envelope, 96 bytes. -/
def envelopeSignature : Bytes := toBe 48
  0x3fcf4cc01f11d5ff804d7598788aa146aee38409ecba5a028d6832bb76243b600127b2d029fd76ea27472533b95832bd
  ++ toBe 48
  0xe561969a3284ae6d849f5415717b5fc9bdc72d311394a4ba027e2c2d500b9fb9e5c62c616c6b0dcbc298f1dddc645b2a

def envelope : CoseSign1 where
  protectedData := [0xa1, 1, 0x38, 0x22]
  alg := some (.assigned (-35))
  payload := some (cbor (payloadMap payload))
  signature := envelopeSignature

/-- The tagged envelope. -/
def bytes : Bytes :=
  0xd2 :: cbor (.array [.bytes envelope.protectedData, .map [], .bytes (cbor (payloadMap payload)),
    .bytes envelope.signature])

/-- The `Sig_structure` of RFC 8152. -/
def sigStructure (cose : CoseSign1) : Bytes :=
  cbor (.array [.text "Signature1", .bytes cose.protectedData, .bytes [],
    .bytes (cose.payload.getD [])])

def signatures : List (Bytes × Bytes × Bytes) :=
  [(rootKey, tbs 1 "root" rootKey, rootSignature), (rootKey, tbs 2 "leaf" leafKey, leafSignature),
    (leafKey, sigStructure envelope, envelope.signature)]

/-- The parsers on the documents of the sample, and its signatures. -/
def deps : AttestDeps where
  crypto := .ofTablesOnly {}
  fromTaggedSlice b := if b = bytes then .ok envelope else .error "not an envelope"
  fromSlice _ := .error "not an envelope"
  tbsData := sigStructure
  intoWriter v := .ok (cbor v)
  fromReader b :=
    if b = cbor (payloadMap payload) then .ok (payloadMap payload) else .error "not CBOR"
  certificate b :=
    if b = leafDer then some leafCert else if b = rootDer then some rootCert else none
  pemChain _ := none
  p384Key b := if b = rootKey ∨ b = leafKey then some b else none
  p384Signature b := if b = envelope.signature then some b else none
  p384DerSignature b := if b = rootSignature ∨ b = leafSignature then some b else none
  p384Verify vk msg sig := decide ((vk, msg, sig) ∈ signatures)
  jsonPayload _ := none

/-- The document of the bytes, with this nonce in its mirror. -/
def doc (nonce : FixedBytes 32) : NitroAttestationDoc where
  coseSign1 := bytes
  parsedPayload := ⟨payload.moduleId, payload.timestamp, payload.pcrs, payload.publicKey,
    payload.userData, nonce⟩
  leafCertificate := leafDer
  cabundle := [rootDer]
  signature := envelope.signature
  signatureKind := .coseSign1Es384

/-- The nonce of the payload. -/
def signedNonce : FixedBytes 32 := ⟨List.replicate 32 0x11, rfl⟩

/-- Register 0 is the one of the payload. -/
def constraint : PcrConstraint := { pcr0 := some (List.replicate 48 0xab) }

theorem samples :
    decode deps bytes = .ok (⟨bytes, envelope⟩, payload) ∧
    NitroAttestationDoc.fromCoseSign1 deps bytes = .ok (doc signedNonce) ∧
    verifyAttestationWithRoot deps (doc signedNonce) constraint (.custom rootDer) now 60000
      = .ok ⟨(doc signedNonce).parsedPayload⟩ ∧
    verifyAttestationWithRoot deps (doc (FixedBytes.zero 32)) constraint (.custom rootDer) now 60000
      = .ok ⟨(doc (FixedBytes.zero 32)).parsedPayload⟩ := by
  decide +kernel

theorem length_der : leafDer.length = 329 ∧ rootDer.length = 328 := by decide +kernel

theorem length_of_certificate {b : Bytes} (h : deps.certificate b = some cert) : b.length ≠ 32 := by
  simp only [deps] at h
  split at h
  · next hb =>
    rw [hb, length_der.1]
    decide
  · split_ifs at h with hb
    rw [hb, length_der.2]
    decide

end Attested

open Attested

/-- The mirror has the signed nonce. -/
theorem authentic_signedNonce : Authentic deps (doc signedNonce)
    (doc signedNonce).parsedPayload :=
  (authentic_iff_nonce deps (doc signedNonce) constraint
    (.custom rootDer) now 60000 _ nofun samples.2.2.1).2
    ⟨_, samples.2.1, rfl⟩

/-- With a nonce of zeros in its mirror the document verifies as well, though another one is
signed. -/
theorem verifyAttestation_other_nonce :
    verifyAttestationWithRoot deps (doc (FixedBytes.zero 32)) constraint (.custom rootDer) now 60000
      = .ok ⟨(doc (FixedBytes.zero 32)).parsedPayload⟩ ∧
    ¬ Authentic deps (doc (FixedBytes.zero 32)) (doc (FixedBytes.zero 32)).parsedPayload := by
  refine ⟨samples.2.2.2, ?_⟩
  rintro ⟨envelope, inner, hdecode, -, -, hnonce⟩
  cases samples.1.symm.trans hdecode
  cases hnonce

/-- The sample document under a root of its own. -/
theorem verifyAttestation_anchored_custom :
    verifyAttestationWithRoot deps (doc signedNonce) constraint (.custom rootDer) now 60000
      = .ok ⟨(doc signedNonce).parsedPayload⟩ ∧
    ∃ rootBytes, (RootAnchor.custom rootDer).rootBytes = some rootBytes ∧
      Anchored deps (doc signedNonce) constraint rootBytes now :=
  ⟨samples.2.2.1, (verifyAttestation_anchored deps fun _ _ => length_of_certificate).1
      _ _ _ _ _ _ nofun samples.2.2.1⟩

end QfcServerWallet.Enclave
