import QfcServerWallet.Stores.Interchange
import Mathlib.Data.Option.Defs

/-!
# Shares that are moved

`LocalFsShareStore::get` and `S3KmsShareStore::get` against an adversary that holds the storage
medium. It cannot make a file or an object of its own, since it has no key; it copies, moves, swaps
and deletes those that are there.

* `LocalFsShareStore::get` compares the id inside the file with the one that was asked for.
* `S3KmsShareStore::get` does not. Neither the envelope nor the encryption says under which key the
  object belongs, so an object opens wherever it lies.
* `Placed s placed`: the bucket was filled by `put`s and then rearranged, and `placed` is the share
  whose object now lies under each key.

Results: `readObject_of_placed`, **`get_returns_asked`** and `copied_share_returned`.
-/

namespace QfcServerWallet.Stores

open Lib Service

/-! ## Rearranging whole objects -/

/-- What the adversary does. -/
inductive Tamper (K : Type) where
  | copy (src dst : K)
  | move (src dst : K)
  | swap (a b : K)
  | delete (k : K)

namespace Tamper

variable {K B C : Type} [DecidableEq K] {R : B → C → Prop}

/-- What lies where afterwards. -/
def apply (f : K → Option B) : Tamper K → K → Option B
  | copy src dst =>
    match f src with
    | some b => Function.update f dst (some b)
    | none => f
  | move src dst =>
    match f src with
    | some b => Function.update (Function.update f src none) dst (some b)
    | none => f
  | swap a b => Function.update (Function.update f a (f b)) b (f a)
  | delete k => Function.update f k none

theorem rel_update {f : K → Option B} {g : K → Option C} (h : ∀ k, Option.Rel R (f k) (g k)) (k : K)
    {x : Option B} {y : Option C} (hxy : Option.Rel R x y) (k' : K) :
    Option.Rel R (Function.update f k x k') (Function.update g k y k') := by
  by_cases hk : k' = k
  · subst hk
    simpa using hxy
  · simpa [Function.update_of_ne hk] using h k'

theorem rel_cases {x : Option B} {y : Option C} (h : Option.Rel R x y) :
    (x = none ∧ y = none) ∨ ∃ b c, x = some b ∧ y = some c ∧ R b c := by
  cases h with
  | none => exact .inl ⟨rfl, rfl⟩
  | some hR => exact .inr ⟨_, _, rfl, rfl, hR⟩

theorem rel_apply {f : K → Option B} {g : K → Option C} (h : ∀ k, Option.Rel R (f k) (g k))
    (t : Tamper K) (k : K) : Option.Rel R (t.apply f k) (t.apply g k) := by
  cases t with
  | copy src dst =>
    obtain ⟨hf, hg⟩ | ⟨b, c, hf, hg, hR⟩ := rel_cases (h src)
    · simp only [apply, hf, hg]
      exact h k
    · simp only [apply, hf, hg]
      exact rel_update h dst (.some hR) k
  | move src dst =>
    obtain ⟨hf, hg⟩ | ⟨b, c, hf, hg, hR⟩ := rel_cases (h src)
    · simp only [apply, hf, hg]
      exact h k
    · simp only [apply, hf, hg]
      exact rel_update (rel_update h src .none) dst (.some hR) k
  | swap a b => exact rel_update (rel_update h a (h b)) b (h a) k
  | delete gone => exact rel_update h gone .none k

end Tamper

/-! ## On disk -/

theorem LocalFsShareStore.shareId_of_get {d : Deps} {st : LocalFsShareStore} {id : ShareId}
    {step : FileSystem → (op : Op) → Res op → FileSystem → Prop} {fs fs' : FileSystem}
    {share : StoredShare} (h : (st.get d id).Runs step fs (.ok share) fs') :
    share.shareId = id := by
  obtain ⟨r, fs₁, -, hrest⟩ := Prog.runs_bind_iff.1 h
  match r, hrest with
  | .error .notFound, hrest => cases (Prog.runs_ret_iff.1 hrest).1
  | .error (.other text), hrest => cases (Prog.runs_ret_iff.1 hrest).1
  | .ok raw, hrest => exact shareId_of_readShare (Prog.runs_ret_iff.1 hrest).1.symm

/-! ## On S3 -/

namespace S3KmsShareStore

/-- The bucket was filled by `put`s and rearranged; under each key lies the object of a share. -/
inductive Placed (kms : KmsClient) (d : Deps) (st : S3KmsShareStore) :
    State kms → (ObjectKey → Option StoredShare) → Prop
  | empty (k : kms.State) : Placed kms d st ⟨∅, k⟩ fun _ => none
  | put {s s' : State kms} {placed : ObjectKey → Option StoredShare} {share : StoredShare} :
      Placed kms d st s placed → (st.put d share).Runs (quiet kms) s (.ok ()) s' →
      Placed kms d st s' (Function.update placed (st.objectKey share.shareId) (some share))
  | tamper {s s' : State kms} {placed : ObjectKey → Option StoredShare} (t : Tamper ObjectKey) :
      Placed kms d st s placed → s'.kms = s.kms →
      (∀ key, s'.objects.lookup key = t.apply (fun key => s.objects.lookup key) key) →
      Placed kms d st s' (t.apply placed)

section

variable {kms : KmsClient} {d : Deps} {st : S3KmsShareStore} {s s' : State kms}
  {placed : ObjectKey → Option StoredShare}

theorem runs_put_ok {share : StoredShare} (h : (st.put d share).Runs (quiet kms) s (.ok ()) s') :
    ∃ draw key k nonce body, kms.generateDataKey s.kms draw = some (key, k) ∧
      st.sealWith d key nonce share = .ok body ∧
      s' = ⟨s.objects.insert (st.objectKey share.shareId) body, k⟩ := by
  obtain ⟨r, s₁, hgen, h⟩ := Prog.runs_run_bind_iff.1 h
  obtain ⟨draw, key, k, hdata, rfl, rfl⟩ := Prog.runs_perform_iff.1 hgen
  obtain ⟨r, s₁, hnonce, h⟩ := Prog.runs_run_bind_iff.1 h
  obtain ⟨nonce, rfl, hdraw⟩ := Prog.runs_run_lift_iff.1 hnonce
  obtain rfl := Prog.runs_perform_iff.1 hdraw
  obtain ⟨r, s₁, hseal, h⟩ := Prog.runs_run_bind_iff.1 h
  obtain ⟨rfl, rfl⟩ := Prog.runs_run_ofExcept_iff.1 hseal
  cases hseal' : st.sealWith d key nonce share with
  | error e =>
    rw [hseal'] at h
    cases h.1
  | ok body =>
    rw [hseal'] at h
    obtain ⟨-, rfl⟩ := Prog.runs_perform_iff.1 h
    exact ⟨draw, key, k, nonce, body, hdata, hseal', rfl⟩

/-- Every object opens to the share it was made for. -/
theorem readObject_of_placed (haead : d.aead.Inverts) (hshares : d.shares.RoundTrips)
    (henvelopes : d.envelopes.RoundTrips) (hkms : kms.ReturnsKeys st.attestation)
    (h : Placed kms d st s placed) (key : ObjectKey) :
    Option.Rel (fun share body => st.readObject d kms s.kms body = .ok share) (placed key)
      (s.objects.lookup key) := by
  induction h generalizing key with
  | empty k => exact .none
  | @put s s' placed share _ hput ih =>
    obtain ⟨draw, dek, k, nonce, body, hgen, hseal, rfl⟩ := runs_put_ok hput
    obtain ⟨body', hseal', hread⟩ :=
      readObject_seal haead hshares henvelopes (hkms.returns hgen) nonce share
    obtain rfl : body = body' := Except.ok.inj (hseal.symm.trans hseal')
    by_cases hkey : key = st.objectKey share.shareId
    · subst hkey
      rw [Function.update_self, AList.lookup_insert]
      exact .some hread
    · rw [Function.update_of_ne hkey, AList.lookup_insert_ne hkey]
      obtain ⟨hp, hl⟩ | ⟨share', body', hp, hl, hread'⟩ := Tamper.rel_cases (ih key)
      · rw [hp, hl]
        exact .none
      · rw [hp, hl]
        exact .some (readObject_keeps hkms hgen hread')
  | tamper t _ hkms' hobjects ih =>
    rw [hobjects, hkms']
    exact Tamper.rel_apply ih t key

theorem runs_get_ok_iff (haead : d.aead.Inverts) (hshares : d.shares.RoundTrips)
    (henvelopes : d.envelopes.RoundTrips) (hkms : kms.ReturnsKeys st.attestation)
    (h : Placed kms d st s placed) {id : ShareId} {share : StoredShare} :
    (∃ s', (st.get d id).Runs (quiet kms) s (.ok share) s') ↔
      placed (st.objectKey id) = some share := by
  obtain ⟨⟨r, s', hrun⟩, hall⟩ : (st.get d id).Ensures (quiet kms) s _ := ensures_get id
  obtain ⟨hp, hl⟩ | ⟨share', body, hp, hl, hread⟩ :=
    Tamper.rel_cases (readObject_of_placed haead hshares henvelopes hkms h (st.objectKey id))
  · rw [hp]
    refine ⟨?_, nofun⟩
    rintro ⟨s₁, hget⟩
    obtain ⟨-, hr⟩ := hall _ _ hget
    rw [hl] at hr
    obtain ⟨id', hr⟩ := hr
    cases hr
  · have hall' (r : Except ShareStoreError StoredShare) (s₁ : State kms)
        (hget : (st.get d id).Runs (quiet kms) s r s₁) : r = .ok share' := by
      obtain ⟨-, hr⟩ := hall _ _ hget
      rw [hl] at hr
      exact hr.trans hread
    rw [hp, Option.some.injEq]
    constructor
    · rintro ⟨s₁, hget⟩
      exact (Except.ok.inj (hall' _ _ hget)).symm
    · rintro rfl
      exact ⟨s', hall' _ _ hrun ▸ hrun⟩

end

end S3KmsShareStore

/-! ## The share that was asked for -/

/-- **On disk a share read back is the one that was asked for, whatever was done to the files. In a
bucket that was filled by `put`s and rearranged it is so for an id exactly if what lies under its
key, if anything, was put there for this id.** -/
theorem get_returns_asked {aead : Aead} {shares : Codec StoredShare} {envelopes : Codec S3Envelope}
    {kms : KmsClient} (onDisk : LocalFsShareStore) {onS3 : S3KmsShareStore}
    (haead : aead.Inverts) (hshares : shares.RoundTrips) (henvelopes : envelopes.RoundTrips)
    (hkms : kms.ReturnsKeys onS3.attestation) (id : ShareId) :
    (∀ (step : FileSystem → (op : LocalFsShareStore.Op) → LocalFsShareStore.Res op → FileSystem →
        Prop) (fs : FileSystem) share fs',
      (onDisk.get ⟨aead, shares⟩ id).Runs step fs (.ok share) fs' → share.shareId = id) ∧
    ∀ s placed, S3KmsShareStore.Placed kms ⟨aead, shares, envelopes⟩ onS3 s placed →
      ((∀ share s', (onS3.get ⟨aead, shares, envelopes⟩ id).Runs (S3KmsShareStore.quiet kms) s
          (.ok share) s' → share.shareId = id) ↔
        ∀ share, placed (onS3.objectKey id) = some share → share.shareId = id) := by
  refine ⟨fun _ _ _ _ h => LocalFsShareStore.shareId_of_get h, fun s placed hplaced => ?_⟩
  have hget (share : StoredShare) : (∃ s', (onS3.get ⟨aead, shares, envelopes⟩ id).Runs
      (S3KmsShareStore.quiet kms) s (.ok share) s') ↔ placed (onS3.objectKey id) = some share :=
    S3KmsShareStore.runs_get_ok_iff haead hshares henvelopes hkms hplaced
  constructor
  · intro h share hshare
    obtain ⟨s', hrun⟩ := (hget share).2 hshare
    exact h share s' hrun
  · intro h share s' hrun
    exact h share ((hget share).1 ⟨s', hrun⟩)

namespace Sample

open S3KmsShareStore

def deps : Deps := ⟨aead, shares, envelopes⟩

/-- After `put`ting share 1. -/
def written : State kms :=
  ⟨(∅ : AList fun _ : ObjectKey => Bytes).insert (onS3.objectKey share.shareId) envelopeText, ()⟩

/-- The object of share 1 is copied to the key of share 2. -/
def copied : State kms :=
  ⟨written.objects.insert (onS3.objectKey ⟨walletId, 2⟩) envelopeText, ()⟩

theorem sealWith_share :
    onS3.sealWith deps ⟨key, 1 :: key.bytes⟩ nonce share = .ok envelopeText := by
  decide +kernel

theorem runs_put : (onS3.put deps share).Runs (quiet kms) ⟨∅, ()⟩ (.ok ()) written := by
  refine Prog.runs_run_bind_iff.2 ⟨.ok ⟨key, 1 :: key.bytes⟩, ⟨∅, ()⟩,
    Prog.runs_perform_iff.2 ⟨key, _, (), rfl, rfl, rfl⟩, ?_⟩
  refine Prog.runs_run_bind_iff.2 ⟨.ok nonce, ⟨∅, ()⟩,
    Prog.runs_run_lift_iff.2 ⟨nonce, rfl, Prog.runs_perform_iff.2 rfl⟩, ?_⟩
  refine Prog.runs_run_bind_iff.2 ⟨.ok envelopeText, ⟨∅, ()⟩,
    Prog.runs_run_ofExcept_iff.2 ⟨sealWith_share.symm, rfl⟩, ?_⟩
  exact Prog.runs_perform_iff.2 ⟨rfl, rfl⟩

theorem placed_written : Placed kms deps onS3 written
    (Function.update (fun _ => none) (onS3.objectKey share.shareId) (some share)) :=
  .put (.empty ()) runs_put

theorem placed_copied : Placed kms deps onS3 copied
    ((Tamper.copy (onS3.objectKey share.shareId) (onS3.objectKey ⟨walletId, 2⟩)).apply
      (Function.update (fun _ => none) (onS3.objectKey share.shareId) (some share))) := by
  refine .tamper _ placed_written rfl fun key => ?_
  have hlookup : written.objects.lookup (onS3.objectKey share.shareId) = some envelopeText :=
    AList.lookup_insert _
  simp only [Tamper.apply, hlookup]
  by_cases hkey : key = onS3.objectKey ⟨walletId, 2⟩
  · subst hkey
    rw [Function.update_self]
    exact AList.lookup_insert _
  · rw [Function.update_of_ne hkey]
    exact AList.lookup_insert_ne hkey

theorem runs_get_onDisk : ∃ fs fs',
    (onDisk.get ⟨aead, shares⟩ share.shareId).Runs LocalFsShareStore.quiet fs (.ok share) fs' := by
  have hfresh := LocalFsShareStore.Holds.fresh (d := ⟨aead, shares⟩)
    (LocalFsShareStore.fresh_empty onDisk)
  obtain ⟨⟨r, fs, hput⟩, hall⟩ := hfresh.put aead_inverts shares_roundTrip share
  obtain ⟨rfl, hfs⟩ := hall _ _ hput
  obtain ⟨⟨r, fs', hget⟩, hall⟩ := hfs.get share.shareId
  obtain ⟨rfl, -⟩ := hall _ _ hget
  have hmap : (ShareMap.empty.put share).get share.shareId = .ok share := by decide +kernel
  exact ⟨fs, fs', hmap ▸ hget⟩

end Sample

open Sample in
/-- A share that was put is read back under its own id, from disk, and from S3 also after its object
was copied to another key. -/
theorem put_share_returned :
    (∃ fs share' fs', (onDisk.get ⟨aead, shares⟩ share.shareId).Runs LocalFsShareStore.quiet fs
      (.ok share') fs' ∧ share'.shareId = share.shareId) ∧
    (∃ s', (onS3.get deps share.shareId).Runs (S3KmsShareStore.quiet kms) copied (.ok share) s') ∧
    ∀ share' s', (onS3.get deps share.shareId).Runs (S3KmsShareStore.quiet kms) copied
      (.ok share') s' → share'.shareId = share.shareId := by
  obtain ⟨hdisk, hs3⟩ := get_returns_asked onDisk aead_inverts shares_roundTrip
    envelopes_roundTrip kms_returnsKeys share.shareId
  obtain ⟨fs, fs', hrun⟩ := runs_get_onDisk
  have hkept : (Tamper.copy (onS3.objectKey share.shareId) (onS3.objectKey ⟨walletId, 2⟩)).apply
      (Function.update (fun _ => none) (onS3.objectKey share.shareId) (some share))
      (onS3.objectKey share.shareId) = some share := by
    have hkey : onS3.objectKey share.shareId ≠ onS3.objectKey ⟨walletId, 2⟩ := by decide +kernel
    simp only [Tamper.apply, Function.update_self]
    rw [Function.update_of_ne hkey, Function.update_self]
  refine ⟨⟨fs, share, fs', hrun, hdisk _ _ _ _ hrun⟩, ?_, (hs3 copied _ placed_copied).2 ?_⟩
  · exact (S3KmsShareStore.runs_get_ok_iff aead_inverts shares_roundTrip envelopes_roundTrip
      kms_returnsKeys placed_copied).2 hkept
  · intro share' hshare'
    exact congrArg _ (Option.some.inj (hkept.symm.trans hshare')).symm

open Sample in
/-- Share 1 is put and its object copied to the key of share 2: `get` then returns share 1 as share
2. -/
theorem copied_share_returned :
    (∃ placed, S3KmsShareStore.Placed kms deps onS3 copied placed) ∧
    (∃ s', (onS3.get deps ⟨walletId, 2⟩).Runs (S3KmsShareStore.quiet kms) copied (.ok share) s') ∧
    share.shareId ≠ ⟨walletId, 2⟩ := by
  refine ⟨⟨_, placed_copied⟩, ?_, by decide⟩
  refine (S3KmsShareStore.runs_get_ok_iff aead_inverts shares_roundTrip envelopes_roundTrip
    kms_returnsKeys placed_copied).2 ?_
  simp only [Tamper.apply, Function.update_self]

end QfcServerWallet.Stores
