import QfcServerWallet.Lib.Codec
import QfcServerWallet.Lib.FileSystem
import QfcServerWallet.Lib.Text
import QfcServerWallet.Stores.ShareStore

/-!
# The share store on a file system

`qfc-sss/src/stores/local_fs.rs`.

* A share lies at `root/<wallet id>/<index>.bin`: a magic, a nonce and the encryption of its JSON
  text. `put` writes it under `<index>.bin.tmp` and renames that.
* `list` reads the file names of the wallet's directory. What is no number followed by `.bin` is
  skipped, and so is a temporary file that was left behind.
* `get` compares the share's id with the one that was asked for.
* Drawing the nonce and each file operation is one operation. Reading the entries of a directory is
  one, too.

Results: `readShare_seal`, `tmp_ne_shareName` and **`localFsStore_refines`**.
-/

namespace QfcServerWallet.Stores

open Lib Service FileSystem

/-- The store; `new` refuses an empty root. -/
structure LocalFsShareStore where
  root : Path
  key : FixedBytes 32
  root_ne_nil : root ≠ []

namespace LocalFsShareStore

/-- The cipher and the JSON codec of `StoredShare`. -/
structure Deps where
  aead : Aead
  shares : Codec StoredShare

/-- The constructor. -/
def new (root : Path) (key : FixedBytes 32) : Except ShareStoreError LocalFsShareStore :=
  if h : root = [] then .error (.config "root path must not be empty") else .ok ⟨root, key, h⟩

/-! ## Names -/

/-- `Path::file_stem` -/
def fileStem (name : FileName) : FileName :=
  let before := (name.rdropWhile (· ≠ '.')).dropLast
  if name = "..".toList ∨ before = [] then name else before

/-- `Path::with_extension` -/
def withExtension (path : Path) (extension : List Char) : Path :=
  match path.getLast? with
  | some name => path.dropLast ++ [fileStem name ++ '.' :: extension]
  | none => path

/-- The file name of a share. -/
def shareName (index : UInt8) : FileName := decimal index.toNat ++ ".bin".toList

/-- The index of a file name. -/
def parseShareFilename (name : FileName) : Option UInt8 :=
  match ".bin".toList.isSuffixOf? name with
  | some stem => (parseUnsigned 255 stem).map UInt8.ofNat
  | none => none

theorem parseShareFilename_shareName (index : UInt8) :
    parseShareFilename (shareName index) = some index := by
  have hstem : ".bin".toList.isSuffixOf? (shareName index) = some (decimal index.toNat) :=
    List.isSuffixOf?_eq_some_iff_append_eq.2 rfl
  have hle : index.toNat ≤ 255 := Nat.le_of_lt_succ index.toNat_lt
  rw [parseShareFilename, hstem]
  simp [parseUnsigned_decimal hle]

theorem shareName_inj {i j : UInt8} (h : shareName i = shareName j) : i = j := by
  have hi := parseShareFilename_shareName i
  rw [h, parseShareFilename_shareName] at hi
  exact (Option.some.inj hi).symm

theorem fileStem_shareName (index : UInt8) : fileStem (shareName index) = decimal index.toNat := by
  have hbefore : ((shareName index).rdropWhile (· ≠ '.')).dropLast = decimal index.toNat := by
    simp [shareName, List.rdropWhile, List.dropWhile]
  have hne : decimal index.toNat ≠ [] := Nat.toDigits_ne_nil
  have hdots : shareName index ≠ "..".toList := by
    intro h
    have := congrArg List.getLast? h
    simp [shareName] at this
  simp only [fileStem, hbefore, hne, hdots, or_self, if_false]

section

variable (st : LocalFsShareStore)

/-- The directory of a wallet. -/
def walletDir (walletId : WalletId) : Path := st.root ++ [walletId.chars]

/-- The file of a share. -/
def sharePath (id : ShareId) : Path := st.walletDir id.walletId ++ [shareName id.index]

/-- The temporary name `put` writes to. -/
def tmpPath (id : ShareId) : Path := withExtension (st.sharePath id) "bin.tmp".toList

variable {st}

theorem tmpPath_eq (id : ShareId) :
    st.tmpPath id = st.walletDir id.walletId ++ [decimal id.index.toNat ++ ".bin.tmp".toList] := by
  simp [tmpPath, withExtension, sharePath, fileStem_shareName]

/-- A temporary file is no share file. -/
theorem tmp_ne_shareName (i j : UInt8) : decimal i.toNat ++ ".bin.tmp".toList ≠ shareName j := by
  intro h
  have := congrArg List.getLast? h
  simp [shareName] at this

theorem sharePath_inj {a b : ShareId} (h : st.sharePath a = st.sharePath b) : a = b := by
  obtain ⟨w, i⟩ := a
  obtain ⟨w', j⟩ := b
  simp only [sharePath, walletDir, List.append_assoc, List.append_cancel_left_eq,
    List.cons_append, List.nil_append, List.cons.injEq, and_true] at h
  obtain rfl : w = w' := Ident.toString_inj (congrArg String.ofList h.1)
  rw [shareName_inj h.2]

end

/-! ## Files -/

/-- `FILE_MAGIC` -/
def fileMagic : Bytes := [0x51, 0x46, 0x43, 0x53, 0x53, 0x00, 0x01, 0x00]

/-- What `seal` makes of a plaintext with a nonce. -/
def sealWith (d : Deps) (st : LocalFsShareStore) (nonce : FixedBytes 24) (plaintext : Bytes) :
    Except ShareStoreError Bytes :=
  match d.aead.encrypt st.key nonce plaintext with
  | some ct => .ok (fileMagic ++ (nonce.bytes ++ ct))
  | none => .error (.crypto "aead encrypt")

/-- Reads magic and nonce. -/
def openEnvelope (raw : Bytes) : Except ShareStoreError (FixedBytes 24 × Bytes) :=
  if h : raw.length < fileMagic.length + 24 then .error (.crypto "share file truncated")
  else if raw.take fileMagic.length ≠ fileMagic then .error (.crypto "share file magic mismatch")
  else
    .ok (⟨(raw.drop fileMagic.length).take 24, by
      rw [List.length_take, List.length_drop]
      omega⟩, raw.drop (fileMagic.length + 24))

/-- `open` -/
def openFile (d : Deps) (st : LocalFsShareStore) (raw : Bytes) : Except ShareStoreError Bytes := do
  let (nonce, body) ← openEnvelope raw
  match d.aead.decrypt st.key nonce body with
  | some plaintext => .ok plaintext
  | none => .error (.crypto "aead decrypt")

/-- What `get` makes of the bytes of the file. -/
def readShare (d : Deps) (st : LocalFsShareStore) (id : ShareId) (raw : Bytes) :
    Except ShareStoreError StoredShare := do
  let plaintext ← st.openFile d raw
  let share ← (d.shares.decode plaintext).mapError .serde
  if share.shareId ≠ id then .error (.crypto "share_id mismatch in decrypted blob") else .ok share

section

variable {d : Deps} {st : LocalFsShareStore}

theorem openEnvelope_append (nonce : FixedBytes 24) (ct : Bytes) :
    openEnvelope (fileMagic ++ (nonce.bytes ++ ct)) = .ok (nonce, ct) := by
  have hlength : nonce.bytes.length = 24 := nonce.length_bytes
  have hdrop : (fileMagic ++ (nonce.bytes ++ ct)).drop (fileMagic.length + 24) = ct :=
    by rw [← List.append_assoc, List.drop_left' (by simp [hlength])]
  have htake :
      ((fileMagic ++ (nonce.bytes ++ ct)).drop fileMagic.length).take 24 = nonce.bytes := by
    rw [List.drop_left, List.take_left' hlength]
  unfold openEnvelope
  rw [dif_neg (by simp [hlength]), if_neg (by simp)]
  simp only [hdrop, htake]

/-- A sealed share reads back. -/
theorem readShare_seal (haead : d.aead.Inverts) (hshares : d.shares.RoundTrips)
    (share : StoredShare) (nonce : FixedBytes 24) :
    ∃ plaintext raw, d.shares.encode share = .ok plaintext ∧
      st.sealWith d nonce plaintext = .ok raw ∧ st.readShare d share.shareId raw = .ok share := by
  obtain ⟨plaintext, hencode, hdecode⟩ := hshares share
  obtain ⟨ct, hencrypt, hdecrypt⟩ := haead st.key nonce plaintext
  refine ⟨plaintext, fileMagic ++ (nonce.bytes ++ ct), hencode, by simp [sealWith, hencrypt], ?_⟩
  have hopen : st.openFile d (fileMagic ++ (nonce.bytes ++ ct)) = .ok plaintext := by
    simp [openFile, openEnvelope_append, hdecrypt, bind, Except.bind]
  simp [readShare, hopen, hdecode, bind, Except.bind, Except.mapError]

theorem shareId_of_readShare {id : ShareId} {raw : Bytes} {share : StoredShare}
    (h : st.readShare d id raw = .ok share) : share.shareId = id := by
  obtain ⟨plaintext, -, h⟩ := bind_eq_ok.1 h
  obtain ⟨share', -, h⟩ := bind_eq_ok.1 h
  split_ifs at h with hid
  cases h
  exact not_not.1 hid

end

/-! ## Methods -/

/-- The operations. -/
inductive Op where
  | fs (op : FileSystem.Op)
  /-- `OsRng.fill_bytes` -/
  | nonce

/-- What each returns. -/
def Res : Op → Type
  | .fs op => FileSystem.Res op
  | .nonce => FixedBytes 24

/-- File operations that do not fail, and any nonce. -/
def quiet (fs : FileSystem) : (op : Op) → Res op → FileSystem → Prop
  | .fs op, r, fs' => fs.Quiet op r fs'
  | .nonce, _, fs' => fs' = fs

/-- File operations. -/
def onFs {α : Type} (p : Prog FileSystem.Op FileSystem.Res α) : Prog Op Res α :=
  p.embed Op.fs fun _ r => r

/-- `fs::create_dir_all`. -/
def createDirAll (path : Path) : Prog Op Res (Except IoError Unit) :=
  onFs (Prog.perform (FileSystem.Op.createDirAll path))

/-- `fs::read`. -/
def read (path : Path) : Prog Op Res (Except IoError Bytes) :=
  onFs (Prog.perform (FileSystem.Op.read path))

/-- `fs::remove_file`. -/
def removeFile (path : Path) : Prog Op Res (Except IoError Unit) :=
  onFs (Prog.perform (FileSystem.Op.removeFile path))

/-- `fs::read_dir`. -/
def readDir (path : Path) : Prog Op Res (Except IoError (List FileName)) :=
  onFs (Prog.perform (FileSystem.Op.readDir path))

/-- A fresh nonce. -/
def newNonce : Prog Op Res (FixedBytes 24) := Prog.perform Op.nonce

/-- An I/O error as one of the store. -/
def ioError (e : IoError) : ShareStoreError := .io e.toString

section

variable (d : Deps) (st : LocalFsShareStore)

/-- Writes a share. -/
def put (share : StoredShare) : Prog Op Res (Except ShareStoreError Unit) := ExceptT.run do
  let path := st.sharePath share.shareId
  Prog.orThrow ioError (createDirAll path.dropLast)
  let serialized ← Prog.ofExcept ((d.shares.encode share).mapError .serde)
  let nonce ← liftM newNonce
  let raw ← Prog.ofExcept (st.sealWith d nonce serialized)
  Prog.orThrow ioError (onFs (replaceFile (withExtension path "bin.tmp".toList) path raw).run)

/-- Reads a share. -/
def get (id : ShareId) : Prog Op Res (Except ShareStoreError StoredShare) := do
  match ← read (st.sharePath id) with
  | .error .notFound => .ret (.error (.notFound id))
  | .error e => .ret (.error (ioError e))
  | .ok raw => .ret (st.readShare d id raw)

/-- Removes a share. -/
def delete (id : ShareId) : Prog Op Res (Except ShareStoreError Unit) := do
  match ← removeFile (st.sharePath id) with
  | .error .notFound => .ret (.ok ())
  | .error e => .ret (.error (ioError e))
  | .ok () => .ret (.ok ())

/-- The ids that the names of a wallet's directory stand for. -/
def idsOf (walletId : WalletId) (names : List FileName) : List ShareId :=
  sortByIndex ((names.filterMap parseShareFilename).dedup.map fun i => ⟨walletId, i⟩)

/-- Lists a wallet's shares. -/
def list (walletId : WalletId) : Prog Op Res (Except ShareStoreError (List ShareId)) := do
  match ← readDir (st.walletDir walletId) with
  | .error .notFound => .ret (.ok [])
  | .error e => .ret (.error (ioError e))
  | .ok names => .ret (.ok (idsOf walletId names))

/-- Nothing lies under the root, and no file stands in its way. -/
def Fresh (fs : FileSystem) : Prop :=
  (∀ p, p <+: st.root → fs.content p = none) ∧
    ∀ p, st.root <+: p → p ≠ st.root → fs.content p = none ∧ fs.isDir p = false

end

end LocalFsShareStore

/-- `LocalFsShareStore` -/
def localFsStore (d : LocalFsShareStore.Deps) (st : LocalFsShareStore) : ShareStore where
  Op := LocalFsShareStore.Op
  Res := LocalFsShareStore.Res
  State := FileSystem
  quiet := LocalFsShareStore.quiet
  Fresh := st.Fresh
  put := st.put d
  get := st.get d
  delete := st.delete
  list := st.list

namespace LocalFsShareStore

/-! ## Refinement -/

theorem ensures_onFs {α : Type} {p : Prog FileSystem.Op FileSystem.Res α} {fs : FileSystem}
    {Q : α → FileSystem → Prop} (h : p.Ensures FileSystem.Quiet fs Q) :
    (onFs p).Ensures quiet fs Q := by
  have hruns (a : α) (fs' : FileSystem) :
      (onFs p).Runs quiet fs a fs' ↔ p.Runs FileSystem.Quiet fs a fs' := by
    refine Prog.runs_embed_iff fun s op r s' => ?_
    constructor
    · intro hr
      exact ⟨r, rfl, hr⟩
    · rintro ⟨r', rfl, hr⟩
      exact hr
  simpa only [Prog.Ensures, hruns] using h

theorem ensures_perform {op : FileSystem.Op} {fs fs₀ : FileSystem} {r₀ : FileSystem.Res op}
    (h : ∀ r fs', fs.Quiet op r fs' ↔ r = r₀ ∧ fs' = fs₀) :
    (onFs (Prog.perform op)).Ensures quiet fs fun r fs' => r = r₀ ∧ fs' = fs₀ :=
  ensures_onFs (.of_runs_iff (fun r fs' => Prog.runs_perform_iff.trans (h r fs')) ⟨rfl, rfl⟩)

/-- The share files are what the map has, and nothing is in their way. -/
structure Holds (d : Deps) (st : LocalFsShareStore) (fs : FileSystem) (m : ShareMap) : Prop where
  share : ∀ id, m id = (fs.content (st.sharePath id)).map (st.readShare d id)
  /-- the directory of a wallet has share files only -/
  named : ∀ {walletId name}, (fs.content (st.walletDir walletId ++ [name])).isSome →
    ∃ i, name = shareName i
  noDir : ∀ walletId name, fs.isDir (st.walletDir walletId ++ [name]) = false
  inDir : ∀ {id}, (fs.content (st.sharePath id)).isSome → fs.isDir (st.walletDir id.walletId) = true
  free : ∀ {walletId p}, p <+: st.walletDir walletId → fs.content p = none

section

variable {d : Deps} {st : LocalFsShareStore} {fs fs' : FileSystem} {m : ShareMap}

theorem fresh_empty (st : LocalFsShareStore) : st.Fresh .empty := by
  refine ⟨fun p _ => rfl, fun p hroot _ => ⟨rfl, ?_⟩⟩
  have hp : p ≠ [] := by
    rintro rfl
    exact st.root_ne_nil (List.prefix_nil.1 hroot)
  simp [isDir, empty, hp]

theorem Holds.fresh (h : st.Fresh fs) : Holds d st fs .empty := by
  have hdir (walletId : WalletId) : st.root <+: st.walletDir walletId := List.prefix_append _ _
  have hunder (walletId : WalletId) (name : FileName) :
      fs.content (st.walletDir walletId ++ [name]) = none ∧
        fs.isDir (st.walletDir walletId ++ [name]) = false := by
    refine h.2 _ ((hdir walletId).trans (List.prefix_append _ _)) fun heq => ?_
    have := congrArg List.length heq
    simp [walletDir] at this
  refine ⟨fun id => ?_, fun hname => ?_, fun w name => (hunder w name).2, fun hshare => ?_,
    fun {walletId p} hp => ?_⟩
  · rw [sharePath, (hunder _ _).1]
    rfl
  · rw [(hunder _ _).1] at hname
    cases hname
  · rw [sharePath, (hunder _ _).1] at hshare
    cases hshare
  · -- a beginning of the directory's path is one of the root, or the directory
    rcases List.prefix_concat_iff.1 hp with rfl | hp
    · exact (h.2 _ (hdir walletId) fun heq => by
        have := congrArg List.length heq
        simp [walletDir] at this).1
    · exact h.1 p hp

theorem Holds.missing (h : Holds d st fs m) (id : ShareId) :
    fs.missing (st.sharePath id) = .notFound := by
  refine fs.missing_of_isDir_eq_false _ (h.noDir _ _) fun q hq => ?_
  have hdir : q <+: st.walletDir id.walletId := by simpa [sharePath] using hq
  exact h.free hdir

theorem Holds.isSome (h : Holds d st fs m) (id : ShareId) :
    (m id).isSome ↔ (fs.content (st.sharePath id)).isSome := by
  rw [h.share id, Option.isSome_map]

/-- `get` answers as the map, -/
theorem Holds.get (h : Holds d st fs m) (id : ShareId) :
    (st.get d id).Ensures quiet fs fun r fs' => r = m.get id ∧ fs' = fs := by
  refine (ensures_perform fun r fs' => quiet_read_iff).bind ?_
  rintro r fs' ⟨rfl, rfl⟩
  rw [ShareMap.get, h.share id, h.missing id]
  cases fs'.content (st.sharePath id) with
  | none => exact .ret ⟨rfl, rfl⟩
  | some raw => exact .ret ⟨rfl, rfl⟩

theorem Holds.unlink (h : Holds d st fs m) (gone : ShareId) :
    Holds d st (fs.unlink (st.sharePath gone)) (m.delete gone) := by
  have hsub {p : Path} (hp : ((fs.unlink (st.sharePath gone)).content p).isSome) :
      (fs.content p).isSome := by
    rw [content_unlink] at hp
    split at hp
    · cases hp
    · exact hp
  refine ⟨fun id => ?_, fun hname => h.named (hsub hname), h.noDir,
    fun hshare => h.inDir (hsub hshare), fun hp => ?_⟩
  · rw [ShareMap.delete_apply, content_unlink]
    by_cases hid : id = gone
    · simp [hid]
    · have hpath : st.sharePath id ≠ st.sharePath gone := fun heq => hid (sharePath_inj heq)
      rw [if_neg hid, if_neg hpath, h.share id]
  · rw [content_unlink, h.free hp, ite_self]

theorem Holds.delete (h : Holds d st fs m) (id : ShareId) :
    (st.delete id).Ensures quiet fs fun r fs' => r = .ok () ∧ Holds d st fs' (m.delete id) := by
  cases hcontent : fs.content (st.sharePath id) with
  | none =>
    have hgone : m.delete id = m := by
      funext id'
      rw [ShareMap.delete_apply]
      split
      · next heq => rw [heq, h.share id, hcontent, Option.map_none]
      · rfl
    rw [hgone]
    have hremove : (removeFile (st.sharePath id)).Ensures quiet fs fun r fs' =>
        r = .error .notFound ∧ fs' = fs := by
      refine ensures_perform fun r fs' => ?_
      rw [quiet_removeFile_iff, hcontent, h.missing id]
      rfl
    refine hremove.bind ?_
    rintro r fs' ⟨rfl, rfl⟩
    exact .ret ⟨rfl, h⟩
  | some raw =>
    have hremove : (removeFile (st.sharePath id)).Ensures quiet fs fun r fs' =>
        r = .ok () ∧ fs' = fs.unlink (st.sharePath id) := by
      refine ensures_perform fun r fs' => ?_
      rw [quiet_removeFile_iff, hcontent]
      rfl
    refine hremove.bind ?_
    rintro r fs' ⟨rfl, rfl⟩
    exact .ret ⟨rfl, h.unlink id⟩

theorem Holds.idsOf (h : Holds d st fs m) {walletId : WalletId} {names : List FileName}
    (hperm : names.Perm (fs.entries (st.walletDir walletId))) :
    idsOf walletId names = m.list walletId := by
  have hindex (i : UInt8) : i ∈ names.filterMap parseShareFilename ↔
      (fs.content (st.sharePath ⟨walletId, i⟩)).isSome := by
    simp only [List.mem_filterMap, hperm.mem_iff, mem_entries_iff]
    constructor
    · rintro ⟨name, hname, hparse⟩
      have hfile := hname.resolve_right fun hdir => by
        have := h.noDir walletId name
        simp [isDir, hdir] at this
      obtain ⟨j, rfl⟩ := h.named hfile
      rw [parseShareFilename_shareName] at hparse
      cases hparse
      exact hfile
    · intro hshare
      exact ⟨shareName i, .inl hshare, parseShareFilename_shareName i⟩
  refine sort_eq_list ?_ fun id => ?_
  · exact (List.nodup_dedup _).map fun i j hij => congrArg ShareId.index hij
  · rw [h.isSome]
    simp only [List.mem_map, List.mem_dedup, hindex]
    constructor
    · rintro ⟨i, hi, rfl⟩
      exact ⟨rfl, hi⟩
    · rintro ⟨rfl, hid⟩
      exact ⟨id.index, hid, rfl⟩

/-- so does `list`, -/
theorem Holds.list (h : Holds d st fs m) (walletId : WalletId) :
    (st.list walletId).Ensures quiet fs fun r fs' => r = .ok (m.list walletId) ∧ fs' = fs := by
  cases hdir : fs.isDir (st.walletDir walletId) with
  | true =>
    have hread : (readDir (st.walletDir walletId)).Ensures quiet fs fun r fs' =>
        ∃ names : List FileName, names.Perm (fs.entries (st.walletDir walletId)) ∧ r = .ok names ∧
          fs' = fs := by
      refine ensures_onFs (.act ?_ fun r fs' hr => .ret ((quiet_readDir_iff hdir).1 hr))
      exact ⟨_, fs, (quiet_readDir_iff hdir).2 ⟨_, .refl _, rfl, rfl⟩⟩
    refine hread.bind ?_
    rintro r fs' ⟨names, hperm, rfl, rfl⟩
    exact .ret ⟨congrArg Except.ok (h.idsOf hperm), rfl⟩
  | false =>
    have hempty : m.list walletId = [] := by
      refine List.eq_nil_iff_forall_not_mem.2 fun id hid => ?_
      obtain ⟨rfl, hsome⟩ := ShareMap.mem_list.1 hid
      rw [h.inDir ((h.isSome id).1 hsome)] at hdir
      cases hdir
    have hmissing : fs.missing (st.walletDir walletId) = .notFound :=
      fs.missing_of_isDir_eq_false _ hdir fun q hq =>
        h.free (hq.trans (List.dropLast_prefix _))
    have hread : (readDir (st.walletDir walletId)).Ensures quiet fs fun r fs' =>
        r = .error .notFound ∧ fs' = fs := by
      refine ensures_perform fun r fs' => quiet_iff_of_answer fun a => ?_
      rw [answer, if_neg (by simp [hdir]), h.free List.prefix_rfl, hmissing]
      rfl
    refine hread.bind ?_
    rintro r fs' ⟨rfl, rfl⟩
    exact .ret ⟨congrArg Except.ok hempty.symm, rfl⟩

theorem Holds.addDirs (h : Holds d st fs m) (walletId : WalletId) :
    Holds d st (fs.addDirs (st.walletDir walletId).inits) m := by
  refine ⟨h.share, h.named, fun w name => ?_, fun hshare => ?_, h.free⟩
  · -- the new directories have shorter paths
    have hnew : st.walletDir w ++ [name] ∉ (st.walletDir walletId).inits := by
      intro hmem
      have := (List.mem_inits _ _ |>.1 hmem).length_le
      simp [walletDir] at this
    have hold := h.noDir w name
    simp only [isDir, decide_eq_false_iff_not, not_or] at hold ⊢
    exact ⟨hold.1, fun hmem => (List.mem_append.1 hmem).elim hold.2 hnew⟩
  · have hold := h.inDir hshare
    simp only [isDir, decide_eq_true_eq] at hold ⊢
    exact hold.imp_right (List.mem_append_left _)

theorem Holds.replaced (h : Holds d st fs m) {share : StoredShare} {raw : Bytes}
    (hdir : fs.isDir (st.walletDir share.shareId.walletId) = true)
    (htmp : fs.content (st.tmpPath share.shareId) = none)
    (hread : st.readShare d share.shareId raw = .ok share) :
    Holds d st (fs.replaced (st.tmpPath share.shareId) (st.sharePath share.shareId) raw)
      (m.put share) := by
  have hcontent (p : Path) :
      (fs.replaced (st.tmpPath share.shareId) (st.sharePath share.shareId) raw).content p =
        if p = st.sharePath share.shareId then some raw else fs.content p :=
    content_replaced htmp p
  refine ⟨fun id => ?_, fun {w name} hname => ?_, fun w name => ?_, fun {id} hid => ?_,
    fun {w p} hp => ?_⟩
  · rw [ShareMap.put_apply, hcontent]
    by_cases hid : id = share.shareId
    · rw [if_pos hid, if_pos (congrArg _ hid), hid, Option.map_some, hread]
    · have hpath : st.sharePath id ≠ st.sharePath share.shareId :=
        fun heq => hid (sharePath_inj heq)
      rw [if_neg hid, if_neg hpath, h.share id]
  · rw [hcontent] at hname
    split at hname
    · next hpath =>
      obtain ⟨hname, -⟩ := List.cons.inj (List.append_inj_right' hpath rfl)
      exact ⟨share.shareId.index, hname⟩
    · exact h.named hname
  · rw [isDir_replaced]
    exact h.noDir w name
  · rw [isDir_replaced]
    rw [hcontent] at hid
    split at hid
    · next hpath =>
      rw [sharePath_inj hpath]
      exact hdir
    · exact h.inDir hid
  · rw [hcontent, if_neg, h.free hp]
    rintro rfl
    have := hp.length_le
    simp [sharePath, walletDir] at this

/-- and `put` keeps the correspondence. -/
theorem Holds.put (haead : d.aead.Inverts) (hshares : d.shares.RoundTrips) (h : Holds d st fs m)
    (share : StoredShare) :
    (st.put d share).Ensures quiet fs fun r fs' => r = .ok () ∧ Holds d st fs' (m.put share) := by
  have hparent : (st.sharePath share.shareId).dropLast = st.walletDir share.shareId.walletId := by
    simp [sharePath]
  have hcreate : (createDirAll (st.sharePath share.shareId).dropLast).Ensures quiet fs fun r fs' =>
      ∃ u, r = .ok u ∧ fs' = fs.addDirs (st.walletDir share.shareId.walletId).inits := by
    rw [hparent]
    refine (ensures_perform fun r fs' =>
      quiet_createDirAll_iff fun q hq => h.free hq).mono ?_
    rintro r fs' ⟨rfl, rfl⟩
    exact ⟨(), rfl, rfl⟩
  -- what is written reads back, whatever the nonce
  obtain ⟨plaintext, hencode, -⟩ := hshares share
  refine hcreate.orThrow.run_bind ?_
  rintro _ fs₁ hfs₁
  refine (Prog.Ensures.ofExcept (P := fun p fs' => plaintext = p ∧ fs₁ = fs')
    (by rw [hencode]; rfl) ⟨rfl, rfl⟩).run_bind ?_
  rintro _ _ ⟨rfl, rfl⟩
  have hnonce : newNonce.Ensures quiet fs₁ fun _ fs' => fs₁ = fs' :=
    .act ⟨FixedBytes.zero 24, fs₁, rfl⟩ fun _ fs' hfs' => .ret hfs'.symm
  refine hnonce.lift.run_bind ?_
  rintro nonce _ rfl
  obtain ⟨plaintext', raw, hencode', hseal, hread⟩ := readShare_seal haead hshares share nonce
  obtain rfl : plaintext = plaintext' := Except.ok.inj (hencode.symm.trans hencode')
  refine (Prog.Ensures.ofExcept (P := fun b fs' => raw = b ∧ fs₁ = fs') hseal
    ⟨rfl, rfl⟩).run_bind ?_
  rintro _ _ ⟨rfl, rfl⟩
  -- the temporary name is free, so the file is replaced
  subst hfs₁
  have h₁ := h.addDirs share.shareId.walletId
  have hdir : (fs.addDirs (st.walletDir share.shareId.walletId).inits).isDir
      (st.walletDir share.shareId.walletId) = true := by
    simp [isDir, FileSystem.addDirs]
  have htmp : (fs.addDirs (st.walletDir share.shareId.walletId).inits).content
      (st.tmpPath share.shareId) = none := by
    refine Option.not_isSome_iff_eq_none.1 fun hsome => ?_
    rw [tmpPath_eq] at hsome
    obtain ⟨i, hi⟩ := h₁.named hsome
    exact tmp_ne_shareName _ _ hi
  have hreplace : (onFs (replaceFile (st.tmpPath share.shareId)
      (st.sharePath share.shareId) raw).run).Ensures quiet
        (fs.addDirs (st.walletDir share.shareId.walletId).inits) fun r fs' =>
      ∃ u, r = .ok u ∧ Holds d st fs' (m.put share) := by
    refine ensures_onFs (.of_runs_iff (fun o fs' => runs_replaceFile_iff htmp ?_ ?_)
      ⟨(), rfl, h₁.replaced hdir htmp hread⟩)
    · exact ⟨by rw [tmpPath_eq]; exact h₁.noDir _ _, h₁.noDir _ _⟩
    · rw [tmpPath_eq, List.dropLast_concat, hparent]
      exact ⟨hdir, hdir⟩
  refine hreplace.orThrow.mono ?_
  rintro r fs' ⟨u, rfl, hholds⟩
  exact ⟨rfl, hholds⟩

end

end LocalFsShareStore

open LocalFsShareStore in
/-- **On a file system where nothing fails, the store is the map.** -/
theorem localFsStore_refines {d : LocalFsShareStore.Deps} (haead : d.aead.Inverts)
    (hshares : d.shares.RoundTrips) (st : LocalFsShareStore) :
    (localFsStore d st).Refines (Holds d st) where
  fresh h := .fresh h
  put h share := h.put haead hshares share
  get h id := by
    refine (h.get id).mono ?_
    rintro r fs' ⟨rfl, rfl⟩
    exact ⟨rfl, h⟩
  delete h id := h.delete id
  list h walletId := by
    refine (h.list walletId).mono ?_
    rintro r fs' ⟨rfl, rfl⟩
    exact ⟨rfl, h⟩

end QfcServerWallet.Stores
