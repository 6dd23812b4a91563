import QfcServerWallet.Lib.Codec
import QfcServerWallet.Lib.Text
import QfcServerWallet.Stores.ShareStore
import Mathlib.Data.Set.List

/-!
# The share store on S3 and KMS

`qfc-sss/src/stores/s3_kms.rs`.

* A share is an object `<prefix>/<wallet id>/<index>`: a JSON envelope with a data key that KMS
  wrapped, a nonce and the encryption of the share's JSON text under the data key.
* The object store is a map from keys to bodies (`MockS3Client`, and what `S3Like` asks for). It
  lists keys in an order of its choice, and chooses the id it reports as not found.
* KMS is a parameter, with a state of its own. `ReturnsKeys` says what is documented of it: a data
  key it wrapped is returned to whoever shows an attestation it accepts.
* `get` does not compare the share's id with the one that was asked for.

Results: `readObject_seal`, `objectKey_inj`, `walletId_of_isPrefixOf`, `ensures_get` and
**`s3KmsStore_refines`**.
-/

namespace QfcServerWallet.Stores

open Lib Service

/-! ## The services -/

/-- A data key, plain and wrapped. -/
structure DataKeyMaterial where
  plaintext : FixedBytes 32
  wrapped : Bytes

/-- The trait `KmsClient`, where no request fails. -/
structure KmsClient where
  State : Type
  /-- what the service draws for a data key -/
  Draw : Type
  generateDataKey : State → Draw → Option (DataKeyMaterial × State)
  decryptDataKey : State → (wrapped attestation : Bytes) → Except ShareStoreError Bytes

/-- Shown the attestation, the service returns the data keys it wrapped, now and later. -/
structure KmsClient.ReturnsKeys (kms : KmsClient) (attestation : Bytes) : Prop where
  available : ∀ s, ∃ draw key s', kms.generateDataKey s draw = some (key, s')
  returns : ∀ {s draw key s'}, kms.generateDataKey s draw = some (key, s') →
    kms.decryptDataKey s' key.wrapped attestation = .ok key.plaintext.bytes
  keeps : ∀ {s draw key s' wrapped b}, kms.generateDataKey s draw = some (key, s') →
    kms.decryptDataKey s wrapped attestation = .ok b →
    kms.decryptDataKey s' wrapped attestation = .ok b

/-- What an object holds. -/
structure S3Envelope where
  wrappedDek : Bytes
  nonce : FixedBytes 24
  ciphertext : Bytes
  pcrLabel : String
  deriving DecidableEq

/-- The store. -/
structure S3KmsShareStore where
  bucketPrefix : List Char
  attestation : Bytes
  pcrLabel : String

namespace S3KmsShareStore

/-- The cipher and the JSON codecs. -/
structure Deps where
  aead : Aead
  shares : Codec StoredShare
  envelopes : Codec S3Envelope

/-! ## Keys -/

/-- The key of an object. -/
abbrev ObjectKey := List Char

section

variable (st : S3KmsShareStore)

/-- The object of a share. -/
def objectKey (id : ShareId) : ObjectKey :=
  if st.bucketPrefix = [] then id.walletId.chars ++ '/' :: decimal id.index.toNat
  else trimEnd '/' st.bucketPrefix ++ '/' :: (id.walletId.chars ++ '/' :: decimal id.index.toNat)

/-- Where the objects of a wallet lie. -/
def walletPrefix (walletId : WalletId) : ObjectKey :=
  if st.bucketPrefix = [] then walletId.chars ++ ['/']
  else trimEnd '/' st.bucketPrefix ++ '/' :: (walletId.chars ++ ['/'])

/-- What precedes the wallet id. -/
def base : ObjectKey :=
  if st.bucketPrefix = [] then [] else trimEnd '/' st.bucketPrefix ++ ['/']

variable {st}

theorem walletPrefix_eq (walletId : WalletId) :
    st.walletPrefix walletId = st.base ++ (walletId.chars ++ ['/']) := by
  unfold walletPrefix base
  split <;> simp

theorem objectKey_eq (id : ShareId) :
    st.objectKey id = st.walletPrefix id.walletId ++ decimal id.index.toNat := by
  unfold objectKey walletPrefix
  split <;> simp

theorem walletPrefix_isPrefixOf (id : ShareId) : st.walletPrefix id.walletId <+: st.objectKey id :=
  objectKey_eq id ▸ List.prefix_append _ _

/-- The keys below a wallet's prefix are those of its shares. -/
theorem walletId_of_isPrefixOf {walletId : WalletId} {id : ShareId}
    (h : st.walletPrefix walletId <+: st.objectKey id) : id.walletId = walletId := by
  rw [objectKey_eq, walletPrefix_eq, walletPrefix_eq, List.append_assoc,
    List.prefix_append_right_inj, List.append_assoc] at h
  have hlength (w : WalletId) : w.chars.length = 26 := length_digits ..
  have hchars : walletId.chars = id.walletId.chars := by
    have htake := (List.prefix_iff_eq_take.1 ((List.prefix_append _ _).trans h))
    rwa [hlength, List.take_left' (hlength _)] at htake
  exact (Ident.toString_inj (congrArg String.ofList hchars)).symm

/-- Two shares have two objects. -/
theorem objectKey_inj {a b : ShareId} (h : st.objectKey a = st.objectKey b) : a = b := by
  obtain ⟨w, i⟩ := a
  obtain ⟨w', j⟩ := b
  obtain rfl : w' = w := walletId_of_isPrefixOf (h ▸ walletPrefix_isPrefixOf ⟨w, i⟩)
  rw [objectKey_eq, objectKey_eq] at h
  exact congrArg (ShareId.mk w') (UInt8.toNat_inj.1 (decimal_inj (List.append_cancel_left h)))

theorem lastSegment_objectKey (id : ShareId) :
    lastSegment '/' (st.objectKey id) = decimal id.index.toNat := by
  rw [objectKey_eq, walletPrefix_eq, ← List.append_assoc, List.append_assoc, List.singleton_append]
  exact lastSegment_append (not_mem_decimal rfl _) _

end

/-! ## Objects -/

section

variable (d : Deps) (st : S3KmsShareStore)

/-- The body `put` makes of a share, with a data key and a nonce. -/
def sealWith (key : DataKeyMaterial) (nonce : FixedBytes 24) (share : StoredShare) :
    Except ShareStoreError Bytes := do
  let plaintext ← (d.shares.encode share).mapError fun e => .serde ("serialize share: " ++ e)
  match d.aead.encrypt key.plaintext nonce plaintext with
  | none => .error (.crypto "AEAD encrypt failed")
  | some ciphertext =>
    (d.envelopes.encode ⟨key.wrapped, nonce, ciphertext, st.pcrLabel⟩).mapError
      fun e => .serde ("serialize envelope: " ++ e)

/-- Reads an envelope. -/
def parseEnvelope (body : Bytes) : Except ShareStoreError S3Envelope :=
  (d.envelopes.decode body).mapError fun e => .serde ("parse envelope: " ++ e)

/-- The envelope is opened with the data key KMS returned. -/
def openEnvelope (envelope : S3Envelope) (dek : Bytes) : Except ShareStoreError StoredShare :=
  match FixedBytes.ofBytes? 32 dek with
  | none => .error (.crypto "DEK length != 32")
  | some key =>
    match d.aead.decrypt key envelope.nonce envelope.ciphertext with
    | none => .error (.crypto "AEAD decrypt failed")
    | some plaintext =>
      (d.shares.decode plaintext).mapError fun e => .serde ("parse share: " ++ e)

/-- What `get` makes of an object, in a state of KMS. -/
def readObject (kms : KmsClient) (s : kms.State) (body : Bytes) :
    Except ShareStoreError StoredShare := do
  let envelope ← parseEnvelope d body
  let dek ← kms.decryptDataKey s envelope.wrappedDek st.attestation
  openEnvelope d envelope dek

end

section

variable {d : Deps} {st : S3KmsShareStore} {kms : KmsClient}

/-- A sealed share reads back. -/
theorem readObject_seal (haead : d.aead.Inverts) (hshares : d.shares.RoundTrips)
    (henvelopes : d.envelopes.RoundTrips) {s : kms.State} {key : DataKeyMaterial}
    (hkey : kms.decryptDataKey s key.wrapped st.attestation = .ok key.plaintext.bytes)
    (nonce : FixedBytes 24) (share : StoredShare) :
    ∃ body, st.sealWith d key nonce share = .ok body ∧
      st.readObject d kms s body = .ok share := by
  obtain ⟨plaintext, hencode, hdecode⟩ := hshares share
  obtain ⟨ciphertext, hencrypt, hdecrypt⟩ := haead key.plaintext nonce plaintext
  obtain ⟨body, hbody, hparse⟩ := henvelopes ⟨key.wrapped, nonce, ciphertext, st.pcrLabel⟩
  refine ⟨body, ?_, ?_⟩
  · simp [sealWith, hencode, hencrypt, hbody, Except.mapError, bind, Except.bind]
  · simp [readObject, parseEnvelope, hparse, hkey, openEnvelope, hdecrypt, hdecode,
      Except.mapError, bind, Except.bind]

theorem readObject_keeps (hkms : kms.ReturnsKeys st.attestation) {s s' : kms.State}
    {draw : kms.Draw} {key : DataKeyMaterial} (hgen : kms.generateDataKey s draw = some (key, s'))
    {body : Bytes} {share : StoredShare} (h : st.readObject d kms s body = .ok share) :
    st.readObject d kms s' body = .ok share := by
  obtain ⟨envelope, henvelope, h⟩ := bind_eq_ok.1 h
  obtain ⟨dek, hdek, h⟩ := bind_eq_ok.1 h
  exact bind_eq_ok.2 ⟨envelope, henvelope, bind_eq_ok.2 ⟨dek, hkms.keeps hgen hdek, h⟩⟩

end

/-! ## Methods -/

/-- The requests, and the nonce. -/
inductive Op where
  | generateDataKey
  /-- `OsRng.fill_bytes` -/
  | nonce
  | putObject (key : ObjectKey) (body : Bytes)
  | getObject (key : ObjectKey)
  | deleteObject (key : ObjectKey)
  | listObjects (start : ObjectKey)
  | decryptDataKey (wrapped attestation : Bytes)

/-- What each returns. -/
def Res : Op → Type
  | .generateDataKey => Except ShareStoreError DataKeyMaterial
  | .nonce => FixedBytes 24
  | .putObject _ _ | .deleteObject _ => Except ShareStoreError Unit
  | .getObject _ | .decryptDataKey _ _ => Except ShareStoreError Bytes
  | .listObjects _ => Except ShareStoreError (List ObjectKey)

/-- The bucket, and KMS. -/
structure State (kms : KmsClient) where
  objects : AList fun _ : ObjectKey => Bytes
  kms : kms.State

/-- Requests that do not fail, and any nonce. -/
def quiet (kms : KmsClient) (s : State kms) : (op : Op) → Res op → State kms → Prop
  | .generateDataKey, r, s' => ∃ draw key k, kms.generateDataKey s.kms draw = some (key, k) ∧
      r = .ok key ∧ s' = { s with kms := k }
  | .nonce, _, s' => s' = s
  | .putObject key body, r, s' => r = .ok () ∧ s' = { s with objects := s.objects.insert key body }
  | .getObject key, r, s' => s' = s ∧
      match s.objects.lookup key with
      | some body => r = .ok body
      | none => ∃ id, r = .error (.notFound id)
  | .deleteObject key, r, s' => r = .ok () ∧ s' = { s with objects := s.objects.erase key }
  | .listObjects start, r, s' => s' = s ∧ ∃ keys : List ObjectKey,
      keys.Perm (s.objects.keys.filter fun key => start <+: key) ∧ r = .ok keys
  | .decryptDataKey wrapped attestation, r, s' =>
      r = kms.decryptDataKey s.kms wrapped attestation ∧ s' = s

/-- Asks KMS for a data key. -/
def generateDataKey : Prog Op Res (Except ShareStoreError DataKeyMaterial) :=
  Prog.perform Op.generateDataKey

/-- A fresh nonce. -/
def newNonce : Prog Op Res (FixedBytes 24) := Prog.perform Op.nonce

/-- Writes an object. -/
def putObject (key : ObjectKey) (body : Bytes) : Prog Op Res (Except ShareStoreError Unit) :=
  Prog.perform (Op.putObject key body)

/-- Reads an object. -/
def getObject (key : ObjectKey) : Prog Op Res (Except ShareStoreError Bytes) :=
  Prog.perform (Op.getObject key)

/-- Removes an object. -/
def deleteObject (key : ObjectKey) : Prog Op Res (Except ShareStoreError Unit) :=
  Prog.perform (Op.deleteObject key)

/-- Lists the keys with a prefix. -/
def listObjects (start : ObjectKey) : Prog Op Res (Except ShareStoreError (List ObjectKey)) :=
  Prog.perform (Op.listObjects start)

/-- Asks KMS to unwrap a data key. -/
def decryptDataKey (wrapped attestation : Bytes) : Prog Op Res (Except ShareStoreError Bytes) :=
  Prog.perform (Op.decryptDataKey wrapped attestation)

section

variable (d : Deps) (st : S3KmsShareStore)

/-- Writes a share. -/
def put (share : StoredShare) : Prog Op Res (Except ShareStoreError Unit) := ExceptT.run do
  let key ← ExceptT.mk generateDataKey
  let nonce ← liftM newNonce
  let body ← Prog.ofExcept (st.sealWith d key nonce share)
  ExceptT.mk (putObject (st.objectKey share.shareId) body)

/-- The part of `get` that follows `get_object`. -/
def openBody (body : Bytes) : ExceptT ShareStoreError (Prog Op Res) StoredShare := do
  let envelope ← Prog.ofExcept (parseEnvelope d body)
  let dek ← ExceptT.mk (decryptDataKey envelope.wrappedDek st.attestation)
  Prog.ofExcept (openEnvelope d envelope dek)

/-- Reads a share. -/
def get (id : ShareId) : Prog Op Res (Except ShareStoreError StoredShare) := ExceptT.run do
  let body ← ExceptT.mk (getObject (st.objectKey id))
  st.openBody d body

/-- Removes a share. -/
def delete (id : ShareId) : Prog Op Res (Except ShareStoreError Unit) :=
  deleteObject (st.objectKey id)

/-- The id a key of the wallet stands for. -/
def idOf (walletId : WalletId) (key : ObjectKey) : Option ShareId :=
  (parseUnsigned 255 (lastSegment '/' key)).map fun i => ⟨walletId, UInt8.ofNat i⟩

/-- Lists a wallet's shares. -/
def list (walletId : WalletId) : Prog Op Res (Except ShareStoreError (List ShareId)) :=
  ExceptT.run do
    let keys ← ExceptT.mk (listObjects (st.walletPrefix walletId))
    pure (sortByIndex (keys.filterMap (idOf walletId)))

end

end S3KmsShareStore

/-- `S3KmsShareStore` -/
def s3KmsStore (kms : KmsClient) (d : S3KmsShareStore.Deps) (st : S3KmsShareStore) :
    ShareStore where
  Op := S3KmsShareStore.Op
  Res := S3KmsShareStore.Res
  State := S3KmsShareStore.State kms
  quiet := S3KmsShareStore.quiet kms
  -- the bucket may have other objects
  Fresh s := ∀ key ∈ s.objects.keys, ∀ walletId, ¬ st.walletPrefix walletId <+: key
  put := st.put d
  get := st.get d
  delete := st.delete
  list := st.list

namespace S3KmsShareStore

/-! ## Refinement -/

section

variable {kms : KmsClient} {d : Deps} {st : S3KmsShareStore} {s s' : State kms}

theorem runs_openBody_iff {body : Bytes} {r : Except ShareStoreError StoredShare} :
    (st.openBody d body).run.Runs (quiet kms) s r s' ↔
      r = st.readObject d kms s.kms body ∧ s' = s := by
  unfold openBody readObject
  cases hparse : parseEnvelope d body with
  | error e =>
    exact Prog.runs_run_bind_of_error fun _ _ => Prog.runs_run_ofExcept_iff
  | ok envelope =>
    refine (Prog.runs_run_bind_of_ok fun _ _ => Prog.runs_run_ofExcept_iff).trans ?_
    have hdecrypt (o : Except ShareStoreError Bytes) (s₁ : State kms) :
        (ExceptT.mk (decryptDataKey envelope.wrappedDek st.attestation)).run.Runs
          (quiet kms) s o s₁ ↔
            o = kms.decryptDataKey s.kms envelope.wrappedDek st.attestation ∧ s₁ = s :=
      Prog.runs_perform_iff
    cases hdek : kms.decryptDataKey s.kms envelope.wrappedDek st.attestation with
    | error e =>
      rw [hdek] at hdecrypt
      refine (Prog.runs_run_bind_of_error hdecrypt).trans ?_
      simp [bind, Except.bind, hdek]
    | ok dek =>
      rw [hdek] at hdecrypt
      refine (Prog.runs_run_bind_of_ok hdecrypt).trans (Prog.runs_run_ofExcept_iff.trans ?_)
      simp [bind, Except.bind, hdek]

/-- What `get` returns. -/
theorem ensures_get (id : ShareId) :
    (st.get d id).Ensures (quiet kms) s fun r s' => s' = s ∧
      match s.objects.lookup (st.objectKey id) with
      | some body => r = st.readObject d kms s.kms body
      | none => ∃ id', r = .error (.notFound id') := by
  rw [get, Prog.run_bind_eq]
  cases hlookup : s.objects.lookup (st.objectKey id) with
  | none =>
    refine .act ⟨.error (.notFound id), s, rfl, ?_⟩ ?_
    · rw [hlookup]
      exact ⟨id, rfl⟩
    · rintro r s₁ ⟨rfl, hr⟩
      rw [hlookup] at hr
      obtain ⟨id', rfl⟩ := hr
      exact .ret ⟨rfl, id', rfl⟩
  | some body =>
    refine .act ⟨.ok body, s, rfl, ?_⟩ ?_
    · rw [hlookup]
    · rintro r s₁ ⟨rfl, hr⟩
      rw [hlookup] at hr
      cases hr
      exact .of_runs_iff (fun _ _ => runs_openBody_iff) ⟨rfl, rfl⟩

end

/-- The objects are what the map has. -/
structure Holds (kms : KmsClient) (d : Deps) (st : S3KmsShareStore) (s : State kms) (m : ShareMap) :
    Prop where
  share : ∀ id, (m id = none ∧ s.objects.lookup (st.objectKey id) = none) ∨
    ∃ body share, m id = some (.ok share) ∧ s.objects.lookup (st.objectKey id) = some body ∧
      st.readObject d kms s.kms body = .ok share
  /-- below the prefix of a wallet there are only shares -/
  named : ∀ {walletId key}, key ∈ s.objects.keys → st.walletPrefix walletId <+: key →
    ∃ i, key = st.objectKey ⟨walletId, i⟩

section

variable {kms : KmsClient} {d : Deps} {st : S3KmsShareStore} {s s' : State kms} {m : ShareMap}

theorem Holds.fresh
    (h : ∀ key ∈ s.objects.keys, ∀ walletId, ¬ st.walletPrefix walletId <+: key) :
    Holds kms d st s .empty := by
  refine ⟨fun id => .inl ⟨rfl, AList.lookup_eq_none.2 fun hkey => ?_⟩, fun hkey hbelow => ?_⟩
  · exact h _ (AList.mem_keys.1 hkey) _ (walletPrefix_isPrefixOf id)
  · exact (h _ hkey _ hbelow).elim

theorem Holds.isSome (h : Holds kms d st s m) (id : ShareId) :
    (m id).isSome ↔ st.objectKey id ∈ s.objects.keys := by
  rw [← AList.mem_keys, ← AList.lookup_isSome]
  rcases h.share id with ⟨hm, hlookup⟩ | ⟨body, share, hm, hlookup, -⟩
  · simp [hm, hlookup]
  · simp [hm, hlookup]

theorem Holds.put (h : Holds kms d st s m) {body : Bytes} {share : StoredShare}
    (hread : st.readObject d kms s.kms body = .ok share) :
    Holds kms d st { s with objects := s.objects.insert (st.objectKey share.shareId) body }
      (m.put share) := by
  refine ⟨fun id => ?_, fun {walletId key} hkey hbelow => ?_⟩
  · rw [ShareMap.put_apply]
    by_cases hid : id = share.shareId
    · subst hid
      exact .inr ⟨body, share, if_pos rfl, AList.lookup_insert _, hread⟩
    · have hkey : st.objectKey id ≠ st.objectKey share.shareId := fun heq => hid (objectKey_inj heq)
      rw [if_neg hid, AList.lookup_insert_ne hkey]
      exact h.share id
  · rcases AList.mem_insert _ |>.1 (AList.mem_keys.2 hkey) with rfl | hkey
    · exact ⟨share.shareId.index, by rw [← walletId_of_isPrefixOf hbelow]⟩
    · exact h.named (AList.mem_keys.1 hkey) hbelow

theorem Holds.delete (h : Holds kms d st s m) (gone : ShareId) :
    Holds kms d st { s with objects := s.objects.erase (st.objectKey gone) } (m.delete gone) := by
  refine ⟨fun id => ?_, fun {walletId key} hkey hbelow => ?_⟩
  · rw [ShareMap.delete_apply]
    by_cases hid : id = gone
    · subst hid
      exact .inl ⟨if_pos rfl, AList.lookup_erase _ _⟩
    · have hkey : st.objectKey id ≠ st.objectKey gone := fun heq => hid (objectKey_inj heq)
      rw [if_neg hid, AList.lookup_erase_ne hkey]
      exact h.share id
  · exact h.named (AList.mem_keys.1 (AList.mem_erase.1 (AList.mem_keys.2 hkey)).2) hbelow

theorem Holds.generate (hkms : kms.ReturnsKeys st.attestation) (h : Holds kms d st s m)
    {draw : kms.Draw} {key : DataKeyMaterial} {k : kms.State}
    (hgen : kms.generateDataKey s.kms draw = some (key, k)) :
    Holds kms d st { s with kms := k } m := by
  refine ⟨fun id => (h.share id).imp_right ?_, h.named⟩
  rintro ⟨body, share, hm, hlookup, hread⟩
  exact ⟨body, share, hm, hlookup, readObject_keeps hkms hgen hread⟩

theorem idOf_objectKey (walletId : WalletId) (i : UInt8) :
    idOf walletId (st.objectKey ⟨walletId, i⟩) = some ⟨walletId, i⟩ := by
  have hle : i.toNat ≤ 255 := Nat.le_of_lt_succ i.toNat_lt
  simp [idOf, lastSegment_objectKey, parseUnsigned_decimal hle]

theorem Holds.list (h : Holds kms d st s m) {walletId : WalletId} {keys : List ObjectKey}
    (hperm : keys.Perm (s.objects.keys.filter fun key => st.walletPrefix walletId <+: key)) :
    sortByIndex (keys.filterMap (idOf walletId)) = m.list walletId := by
  have hmem (key : ObjectKey) :
      key ∈ keys ↔ key ∈ s.objects.keys ∧ st.walletPrefix walletId <+: key := by
    rw [hperm.mem_iff, List.mem_filter, decide_eq_true_eq]
  -- every key is that of a share of the wallet
  obtain ⟨indices, rfl⟩ : keys ∈ Set.range (List.map fun i => st.objectKey ⟨walletId, i⟩) := by
    rw [Set.range_list_map]
    intro key hkey
    obtain ⟨hkey, hbelow⟩ := (hmem key).1 hkey
    obtain ⟨i, rfl⟩ := h.named hkey hbelow
    exact ⟨i, rfl⟩
  have hids : (indices.map fun i => st.objectKey ⟨walletId, i⟩).filterMap (idOf walletId) =
      indices.map fun i => ⟨walletId, i⟩ := by
    rw [List.filterMap_map]
    exact (List.filterMap_congr fun i _ => idOf_objectKey walletId i).trans
      (congrFun List.filterMap_eq_map indices)
  have hnodup : indices.Nodup := by
    refine List.Nodup.of_map _ (hperm.nodup_iff.2 ?_)
    exact s.objects.keys_nodup.filter _
  rw [hids]
  refine sort_eq_list (hnodup.map fun i j hij => congrArg ShareId.index hij) fun id => ?_
  rw [h.isSome]
  constructor
  · intro hid
    obtain ⟨i, hi, rfl⟩ := List.mem_map.1 hid
    exact ⟨rfl, ((hmem _).1 (List.mem_map_of_mem hi)).1⟩
  · rintro ⟨rfl, hid⟩
    obtain ⟨i, hi, heq⟩ := List.mem_map.1 ((hmem _).2 ⟨hid, walletPrefix_isPrefixOf id⟩)
    exact List.mem_map.2 ⟨i, hi, objectKey_inj heq⟩

end

end S3KmsShareStore

open S3KmsShareStore in
/-- **Where no request fails, the store is the map.** -/
theorem s3KmsStore_refines {kms : KmsClient} {d : S3KmsShareStore.Deps} {st : S3KmsShareStore}
    (haead : d.aead.Inverts) (hshares : d.shares.RoundTrips) (henvelopes : d.envelopes.RoundTrips)
    (hkms : kms.ReturnsKeys st.attestation) : (s3KmsStore kms d st).Refines (Holds kms d st) where
  fresh h := .fresh h
  put {s m} h share := by
    have hgenerate : generateDataKey.Ensures (quiet kms) s fun r s₁ => ∃ key, r = .ok key ∧
        Holds kms d st s₁ m ∧
          kms.decryptDataKey s₁.kms key.wrapped st.attestation = .ok key.plaintext.bytes := by
      obtain ⟨draw, key, k, hgen⟩ := hkms.available s.kms
      refine .act ⟨.ok key, _, draw, key, k, hgen, rfl, rfl⟩ ?_
      rintro r s₁ ⟨draw, key, k, hgen, rfl, rfl⟩
      exact .ret ⟨key, rfl, h.generate hkms hgen, hkms.returns hgen⟩
    refine hgenerate.run_bind ?_
    rintro key s₁ ⟨h₁, hkey⟩
    have hnonce : newNonce.Ensures (quiet kms) s₁ fun _ s' => s₁ = s' :=
      .act ⟨FixedBytes.zero 24, s₁, rfl⟩ fun _ s' hs' => .ret hs'.symm
    refine hnonce.lift.run_bind ?_
    rintro nonce _ rfl
    obtain ⟨body, hseal, hread⟩ := readObject_seal haead hshares henvelopes hkey nonce share
    refine (Prog.Ensures.ofExcept (P := fun b s' => body = b ∧ s₁ = s') hseal
      ⟨rfl, rfl⟩).run_bind ?_
    rintro _ _ ⟨rfl, rfl⟩
    refine .act ⟨.ok (), _, rfl, rfl⟩ ?_
    rintro r s' ⟨rfl, rfl⟩
    exact .ret ⟨rfl, h₁.put hread⟩
  get {s m} h id := by
    refine (ensures_get id).mono ?_
    rintro r s' ⟨rfl, hr⟩
    refine ⟨?_, h⟩
    rcases h.share id with ⟨hm, hlookup⟩ | ⟨body, share, hm, hlookup, hread⟩
    · rw [hlookup] at hr
      obtain ⟨id', rfl⟩ := hr
      rw [ShareMap.get, hm]
      rfl
    · rw [hlookup] at hr
      rw [ShareMap.get, hm, show r = .ok share from hr.trans hread]
      rfl
  delete h id := by
    refine .act ⟨.ok (), _, rfl, rfl⟩ ?_
    rintro r s' ⟨rfl, rfl⟩
    exact .ret ⟨rfl, h.delete id⟩
  list {s m} h walletId := by
    have hkeys : (listObjects (st.walletPrefix walletId)).Ensures (quiet kms) s fun r s' =>
        ∃ keys, r = .ok keys ∧ s = s' ∧
          keys.Perm (s.objects.keys.filter fun key => st.walletPrefix walletId <+: key) := by
      refine .act ⟨.ok _, s, rfl, _, .refl _, rfl⟩ ?_
      rintro r s' ⟨rfl, keys, hperm, rfl⟩
      exact .ret ⟨keys, rfl, rfl, hperm⟩
    refine hkeys.run_bind ?_
    rintro keys _ ⟨rfl, hperm⟩
    exact .ret ⟨congrArg Except.ok (h.list hperm), h⟩

end QfcServerWallet.Stores
