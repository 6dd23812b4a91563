import QfcServerWallet.Lib.Bytes
import QfcServerWallet.Lib.Session
import Mathlib.Data.List.AList
import Mathlib.Data.List.Dedup
import Mathlib.Data.List.Infix

/-!
# A file system with inodes

Directories, names of files, and what the files hold.

* A name leads to an inode, and an inode holds bytes. An open handle has the inode and its own
  position in it, so it follows the file through a rename, and two handles of one file overwrite
  each other.
* `write` takes some prefix of what it is given, as long as the outside world likes. `writeAll` is
  `write_all`, the loop around it.
* `readDir` returns the entries of a directory in an order the outside world chooses.
* Every operation may fail (`fault`), and one that reports a failure may have been carried out
  (`applied`).
* Closing a handle does nothing here, and neither do `flush` and `syncAll`.

Results: **`runs_replaceFile_iff`**, `mem_entries_iff`, `perform_create_cases` and its like, and
`Separate.opens`, `Separate.unlink`, `Separate.move`.
-/

namespace QfcServerWallet.Lib

/-- A name in a directory. -/
abbrev FileName := List Char

/-- The components of a path. -/
abbrev Path := List FileName

/-- The errors of an operation. -/
inductive IoError where
  | notFound
  | other (text : String)
  deriving DecidableEq

/-- `Display` -/
def IoError.toString : IoError → String
  | notFound => "No such file or directory (os error 2)"
  | other text => text

/-- Directories, names, inodes and open handles. -/
structure FileSystem where
  dirs : List Path
  /-- the names of files, each with its inode -/
  files : AList fun _ : Path => Nat
  data : Nat → Bytes
  /-- inode and position of the open files -/
  handles : List (Nat × Nat)
  /-- the next inode -/
  inodes : Nat
  /-- names lead to inodes that exist -/
  bounded : ∀ p inode, files.lookup p = some inode → inode < inodes

namespace FileSystem

/-- Nothing but the root. -/
def empty : FileSystem := ⟨[], ∅, fun _ => [], [], 0, fun _ _ h => by simp at h⟩

/-- The path is a directory. -/
def isDir (fs : FileSystem) (p : Path) : Bool := p = [] ∨ p ∈ fs.dirs

/-- What is read under a path. -/
def content (fs : FileSystem) (p : Path) : Option Bytes := (fs.files.lookup p).map fs.data

/-- Why there is no file under a path. -/
def missing (fs : FileSystem) (p : Path) : IoError :=
  if fs.isDir p then .other "Is a directory (os error 21)"
  else if p.dropLast.inits.any fun q => (fs.content q).isSome then
    .other "Not a directory (os error 20)"
  else .notFound

/-- The names in a directory. -/
def entries (fs : FileSystem) (dir : Path) : List FileName :=
  (((fs.files.keys ++ fs.dirs).filter fun p => p.dropLast = dir).filterMap List.getLast?).dedup

/-! ## What the operations do -/

/-- New directories. -/
def addDirs (fs : FileSystem) (paths : List Path) : FileSystem :=
  { fs with dirs := fs.dirs ++ paths }

/-- A new, empty file under a path. -/
def newFile (fs : FileSystem) (p : Path) : FileSystem where
  dirs := fs.dirs
  files := fs.files.insert p fs.inodes
  data := Function.update fs.data fs.inodes []
  handles := fs.handles
  inodes := fs.inodes + 1
  bounded q inode h := by
    by_cases hq : q = p
    · subst hq
      rw [AList.lookup_insert] at h
      cases h
      exact Nat.lt_succ_self _
    · rw [AList.lookup_insert_ne hq] at h
      exact Nat.lt_succ_of_lt (fs.bounded q inode h)

/-- Without the name. -/
def unlink (fs : FileSystem) (p : Path) : FileSystem where
  dirs := fs.dirs
  files := fs.files.erase p
  data := fs.data
  handles := fs.handles
  inodes := fs.inodes
  bounded q inode h := by
    by_cases hq : q = p
    · subst hq
      rw [AList.lookup_erase] at h
      cases h
    · rw [AList.lookup_erase_ne hq] at h
      exact fs.bounded q inode h

/-- The name of an existing inode. -/
def link (fs : FileSystem) (p : Path) (inode : Fin fs.inodes) : FileSystem where
  dirs := fs.dirs
  files := fs.files.insert p inode
  data := fs.data
  handles := fs.handles
  inodes := fs.inodes
  bounded q i h := by
    by_cases hq : q = p
    · subst hq
      rw [AList.lookup_insert] at h
      cases h
      exact inode.isLt
    · rw [AList.lookup_insert_ne hq] at h
      exact fs.bounded q i h

/-- A file gets another name, and takes the place of what had it. -/
def move (fs : FileSystem) (src dst : Path) : FileSystem :=
  match h : fs.files.lookup src with
  | some inode => (fs.unlink src).link dst ⟨inode, fs.bounded src inode h⟩
  | none => fs

/-- Another content of an inode. -/
def setData (fs : FileSystem) (inode : Nat) (b : Bytes) : FileSystem :=
  { fs with data := Function.update fs.data inode b }

/-- A handle at the start of the inode. -/
def addHandle (fs : FileSystem) (inode : Nat) : FileSystem :=
  { fs with handles := fs.handles ++ [(inode, 0)] }

/-- The handle at another position. -/
def seek (fs : FileSystem) (handle inode position : Nat) : FileSystem :=
  { fs with handles := fs.handles.set handle (inode, position) }

/-- The bytes `b` over those from a position on; a gap before it is filled with zeros. -/
def writeAt (old : Bytes) (position : Nat) (b : Bytes) : Bytes :=
  old.take position ++ List.replicate (position - old.length) 0 ++ b
    ++ old.drop (position + b.length)

/-! ## Operations -/

/-- The operations. -/
inductive Op where
  | createDirAll (path : Path)
  /-- `File::create`: an existing file is truncated -/
  | create (path : Path)
  | write (handle : Nat) (b : Bytes)
  | flush (handle : Nat)
  | syncAll (handle : Nat)
  | rename (src dst : Path)
  | read (path : Path)
  | removeFile (path : Path)
  | readDir (path : Path)

/-- What an operation returns. -/
def Val : Op → Type
  | .create _ => Nat
  | .write _ _ => Nat
  | .read _ => Bytes
  | .readDir _ => List FileName
  | _ => Unit

/-- What it answers. -/
abbrev Res (op : Op) : Type := Except IoError (Val op)

/-- What the outside world decides about one operation. -/
structure Ans where
  fault : Option IoError
  applied : Bool
  /-- how many bytes a `write` takes -/
  written : Nat
  /-- the order of the entries of a directory -/
  order : List FileName

/-- One operation that does not fail on its own. -/
def answer (fs : FileSystem) : (op : Op) → Ans → Option (Res op × FileSystem)
  | .createDirAll path, _ =>
    if path.inits.any fun q => (fs.content q).isSome then
      some (.error (.other "Not a directory (os error 20)"), fs)
    else some (.ok (), fs.addDirs path.inits)
  | .create path, _ =>
    if fs.isDir path ∨ fs.isDir path.dropLast = false then some (.error (fs.missing path), fs)
    else
      match fs.files.lookup path with
      | some inode => some (.ok fs.handles.length, (fs.setData inode []).addHandle inode)
      | none => some (.ok fs.handles.length, (fs.newFile path).addHandle fs.inodes)
  | .write handle b, a =>
    match fs.handles[handle]? with
    | some (inode, position) =>
      if 0 < a.written ∧ a.written ≤ b.length then
        some (.ok a.written,
          (fs.setData inode (writeAt (fs.data inode) position (b.take a.written))).seek handle inode
            (position + a.written))
      else none
    | none => none
  | .flush _, _ | .syncAll _, _ => some (.ok (), fs)
  | .rename src dst, _ =>
    match fs.content src with
    | some _ =>
      if fs.isDir dst ∨ fs.isDir dst.dropLast = false then some (.error (fs.missing dst), fs)
      else some (.ok (), fs.move src dst)
    | none => if fs.isDir src then none else some (.error (fs.missing src), fs)
  | .read path, _ =>
    match fs.content path with
    | some b => some (.ok b, fs)
    | none => some (.error (fs.missing path), fs)
  | .removeFile path, _ =>
    match fs.content path with
    | some _ => some (.ok (), fs.unlink path)
    | none => some (.error (fs.missing path), fs)
  | .readDir path, a =>
    if fs.isDir path then
      if a.order.isPerm (fs.entries path) then some (.ok a.order, fs) else none
    else if (fs.content path).isSome then some (.error (.other "Not a directory (os error 20)"), fs)
    else some (.error (fs.missing path), fs)

/-- One operation, which may fail. -/
def perform (fs : FileSystem) (op : Op) (a : Ans) : Option (Res op × FileSystem) :=
  match a.fault with
  | none => fs.answer op a
  | some e =>
    if a.applied then (fs.answer op a).map fun x => (.error e, x.2) else some (.error e, fs)

/-- The operation is answered without a failure from outside. -/
def Quiet (fs : FileSystem) (op : Op) (r : Res op) (fs' : FileSystem) : Prop :=
  ∃ a : Ans, a.fault = none ∧ fs.perform op a = some (r, fs')

/-! ## Content and entries -/

section

variable (fs : FileSystem) (p q : Path)

theorem content_unlink : (fs.unlink p).content q = if q = p then none else fs.content q := by
  unfold content
  by_cases hq : q = p
  · subst hq
    simp [unlink]
  · simp [unlink, hq, AList.lookup_erase_ne hq]

theorem content_link (inode : Fin fs.inodes) :
    (fs.link p inode).content q = if q = p then some (fs.data inode) else fs.content q := by
  unfold content
  by_cases hq : q = p
  · subst hq
    simp [link]
  · simp [link, hq, AList.lookup_insert_ne hq]

theorem content_move {src dst : Path} {b : Bytes} (h : fs.content src = some b) :
    (fs.move src dst).content p =
      if p = dst then some b else if p = src then none else fs.content p := by
  unfold move
  split
  · next inode hinode =>
    obtain rfl : fs.data inode = b := by simpa [content, hinode] using h
    rw [content_link, content_unlink]
    rfl
  · next hnone => simp [content, hnone] at h

@[simp] theorem isDir_move {src dst : Path} : (fs.move src dst).isDir p = fs.isDir p := by
  unfold move
  split <;> rfl

theorem isSome_content_iff : (fs.content p).isSome ↔ p ∈ fs.files.keys := by
  rw [content, Option.isSome_map, AList.lookup_isSome, AList.mem_keys]

/-- What a directory lists. -/
theorem mem_entries_iff {name : FileName} :
    name ∈ fs.entries p ↔ (fs.content (p ++ [name])).isSome ∨ p ++ [name] ∈ fs.dirs := by
  rw [isSome_content_iff]
  simp only [entries, List.mem_dedup, List.mem_filterMap, List.mem_filter, List.mem_append,
    decide_eq_true_eq]
  constructor
  · rintro ⟨q, ⟨hq, rfl⟩, hname⟩
    rwa [List.dropLast_append_getLast? name hname]
  · intro h
    exact ⟨p ++ [name], ⟨h, by simp⟩, by simp⟩

theorem missing_of_isDir_eq_false (hdir : fs.isDir p = false)
    (hfiles : ∀ q, q <+: p.dropLast → fs.content q = none) : fs.missing p = .notFound := by
  unfold missing
  rw [if_neg (by simp [hdir]), if_neg]
  simp only [List.any_eq_true, List.mem_inits, not_exists, not_and]
  intro q hq
  simp [hfiles q hq]

end

/-! ## Operations that succeed -/

section

variable {fs fs' : FileSystem} {path : Path}

theorem quiet_iff {op : Op} {r : Res op} :
    fs.Quiet op r fs' ↔ ∃ a, fs.answer op a = some (r, fs') := by
  constructor
  · rintro ⟨a, hfault, h⟩
    rw [perform, hfault] at h
    exact ⟨a, h⟩
  · rintro ⟨a, h⟩
    refine ⟨{ a with fault := none }, rfl, ?_⟩
    rw [perform, ← h]
    cases op <;> rfl

theorem quiet_iff_of_answer {op : Op} {r r₀ : Res op} {fs₀ : FileSystem}
    (h : ∀ a, fs.answer op a = some (r₀, fs₀)) : fs.Quiet op r fs' ↔ r = r₀ ∧ fs' = fs₀ := by
  rw [quiet_iff]
  constructor
  · rintro ⟨a, ha⟩
    rw [h a] at ha
    cases ha
    exact ⟨rfl, rfl⟩
  · rintro ⟨rfl, rfl⟩
    exact ⟨⟨none, false, 0, []⟩, h _⟩

theorem quiet_createDirAll_iff {r : Res (.createDirAll path)}
    (h : ∀ q, q <+: path → fs.content q = none) :
    fs.Quiet (.createDirAll path) r fs' ↔ r = .ok () ∧ fs' = fs.addDirs path.inits := by
  refine quiet_iff_of_answer fun a => ?_
  rw [answer, if_neg]
  simp only [List.any_eq_true, List.mem_inits, not_exists, not_and]
  intro q hq
  simp [h q hq]

theorem quiet_read_iff {r : Res (.read path)} :
    fs.Quiet (.read path) r fs' ↔
      r = ((fs.content path).elim (.error (fs.missing path)) .ok : Res (.read path)) ∧
        fs' = fs := by
  refine quiet_iff_of_answer fun a => ?_
  rw [answer]
  cases fs.content path <;> rfl

theorem quiet_removeFile_iff {r : Res (.removeFile path)} :
    fs.Quiet (.removeFile path) r fs' ↔
      if (fs.content path).isSome then r = .ok () ∧ fs' = fs.unlink path
      else r = .error (fs.missing path) ∧ fs' = fs := by
  split
  · next h =>
    obtain ⟨b, hb⟩ := Option.isSome_iff_exists.1 h
    exact quiet_iff_of_answer fun a => by rw [answer, hb]
  · next h =>
    exact quiet_iff_of_answer fun a => by rw [answer, Option.not_isSome_iff_eq_none.1 h]

theorem quiet_readDir_iff {r : Res (.readDir path)} (h : fs.isDir path = true) :
    fs.Quiet (.readDir path) r fs' ↔
      ∃ names : List FileName, names.Perm (fs.entries path) ∧ r = .ok names ∧ fs' = fs := by
  rw [quiet_iff]
  constructor
  · rintro ⟨a, ha⟩
    rw [answer, if_pos h] at ha
    split_ifs at ha with hperm
    cases ha
    exact ⟨a.order, List.isPerm_iff.1 hperm, rfl, rfl⟩
  · rintro ⟨names, hperm, rfl, rfl⟩
    refine ⟨⟨none, false, 0, names⟩, ?_⟩
    rw [answer, if_pos h, if_pos (List.isPerm_iff.2 hperm)]

end

/-! ## Replacing a file -/

/-- `write_all`: the number bounds the writes that are left. -/
def writeAll (handle : Nat) : Nat → Bytes → Prog Op Res (Except IoError Unit)
  | _, [] => .ret (.ok ())
  | 0, _ :: _ => .ret (.error (.other "failed to write whole buffer"))
  | writes + 1, x :: b =>
    .act (.write handle (x :: b)) fun
      | .error e => .ret (.error e)
      | .ok n => writeAll handle writes ((x :: b).drop n)

/-- `File::create` -/
def create (path : Path) : Prog Op Res (Except IoError Nat) := Prog.perform (Op.create path)

/-- `flush` -/
def flush (handle : Nat) : Prog Op Res (Except IoError Unit) := Prog.perform (Op.flush handle)

/-- `sync_all` -/
def syncAll (handle : Nat) : Prog Op Res (Except IoError Unit) := Prog.perform (Op.syncAll handle)

/-- `fs::rename` -/
def rename (src dst : Path) : Prog Op Res (Except IoError Unit) :=
  Prog.perform (Op.rename src dst)

/-- The file is written under a temporary name, which is then renamed. -/
def replaceFile (tmp path : Path) (b : Bytes) : ExceptT IoError (Prog Op Res) Unit := do
  let handle ← ExceptT.mk (create tmp)
  ExceptT.mk (writeAll handle b.length b)
  ExceptT.mk (flush handle)
  ExceptT.mk (syncAll handle)
  ExceptT.mk (rename tmp path)

section

variable {fs fs' : FileSystem} {b : Bytes} {handle inode : Nat} {o : Except IoError Unit}

theorem writeAt_length (old b : Bytes) : writeAt old old.length b = old ++ b := by
  simp [writeAt]

/-- Bytes appended through a handle. -/
def append (fs : FileSystem) (handle inode : Nat) (b : Bytes) : FileSystem :=
  (fs.setData inode (fs.data inode ++ b)).seek handle inode ((fs.data inode).length + b.length)

theorem append_nil (h : fs.handles[handle]? = some (inode, (fs.data inode).length)) :
    fs.append handle inode [] = fs := by
  have hset : fs.handles.set handle (inode, (fs.data inode).length) = fs.handles := by
    obtain ⟨hlt, hget⟩ := List.getElem?_eq_some_iff.1 h
    rw [← hget, List.set_getElem_self]
  simp [append, setData, seek, hset]

theorem append_append (b c : Bytes) :
    (fs.append handle inode b).append handle inode c = fs.append handle inode (b ++ c) := by
  simp [append, setData, seek, Nat.add_assoc]

theorem quiet_write_iff {r : Res (.write handle b)}
    (h : fs.handles[handle]? = some (inode, (fs.data inode).length)) :
    fs.Quiet (.write handle b) r fs' ↔ ∃ n : Nat, 0 < n ∧ n ≤ b.length ∧ r = .ok n ∧
      fs' = fs.append handle inode (b.take n) := by
  have happend {n : Nat} (hn : n ≤ b.length) :
      (fs.setData inode (writeAt (fs.data inode) (fs.data inode).length (b.take n))).seek handle
        inode ((fs.data inode).length + n) = fs.append handle inode (b.take n) := by
    rw [writeAt_length, append, List.length_take, Nat.min_eq_left hn]
  rw [quiet_iff]
  constructor
  · rintro ⟨a, ha⟩
    simp only [answer, h] at ha
    split_ifs at ha with hn
    cases ha
    exact ⟨a.written, hn.1, hn.2, rfl, happend hn.2⟩
  · rintro ⟨n, hpos, hn, rfl, rfl⟩
    refine ⟨⟨none, false, n, []⟩, ?_⟩
    simp only [answer, h]
    rw [if_pos ⟨hpos, hn⟩, happend hn]

theorem runs_writeAll_iff {writes : Nat}
    (h : fs.handles[handle]? = some (inode, (fs.data inode).length)) (hb : b.length ≤ writes) :
    (writeAll handle writes b).Runs Quiet fs o fs' ↔
      o = .ok () ∧ fs' = fs.append handle inode b := by
  induction writes generalizing fs b with
  | zero =>
    obtain rfl : b = [] := List.length_eq_zero_iff.1 (Nat.le_zero.1 hb)
    rw [writeAll, Prog.runs_ret_iff, append_nil h]
  | succ writes ih =>
    cases b with
    | nil => rw [writeAll, Prog.runs_ret_iff, append_nil h]
    | cons x b =>
      have hlt : handle < fs.handles.length := (List.getElem?_eq_some_iff.1 h).1
      have hnext (n : Nat) : (fs.append handle inode ((x :: b).take n)).handles[handle]? =
          some (inode, ((fs.append handle inode ((x :: b).take n)).data inode).length) := by
        simp [append, setData, seek, hlt]
      have hrest {n : Nat} (hpos : 0 < n) : ((x :: b).drop n).length ≤ writes := by
        rw [List.length_drop]
        omega
      rw [writeAll, Prog.runs_act_iff]
      constructor
      · rintro ⟨r, fs₁, hwrite, hrun⟩
        obtain ⟨n, hpos, -, rfl, rfl⟩ := (quiet_write_iff h).1 hwrite
        obtain ⟨rfl, rfl⟩ := (ih (hnext n) (hrest hpos)).1 hrun
        exact ⟨rfl, by rw [append_append, List.take_append_drop]⟩
      · rintro ⟨rfl, rfl⟩
        refine ⟨.ok (1 : Nat), _, (quiet_write_iff h).2 ⟨1, Nat.one_pos, by simp, rfl, rfl⟩, ?_⟩
        refine (ih (hnext 1) (hrest Nat.one_pos)).2 ⟨rfl, ?_⟩
        rw [append_append, List.take_append_drop]

/-- The state after `replaceFile`. -/
def replaced (fs : FileSystem) (tmp path : Path) (b : Bytes) : FileSystem :=
  (((fs.newFile tmp).addHandle fs.inodes).append fs.handles.length fs.inodes b).move tmp path

@[simp] theorem isDir_replaced (fs : FileSystem) (tmp path : Path) (b : Bytes) (p : Path) :
    (fs.replaced tmp path b).isDir p = fs.isDir p := isDir_move ..

theorem content_written (fs : FileSystem) (tmp : Path) (b : Bytes) (p : Path) :
    (((fs.newFile tmp).addHandle fs.inodes).append fs.handles.length fs.inodes b).content p =
      if p = tmp then some b else fs.content p := by
  by_cases hp : p = tmp
  · subst hp
    simp [content, append, seek, setData, addHandle, newFile]
  · have hlookup : (fs.newFile tmp).files.lookup p = fs.files.lookup p :=
      AList.lookup_insert_ne hp
    rw [if_neg hp]
    change ((fs.newFile tmp).files.lookup p).map _ = _
    rw [hlookup, content]
    cases h : fs.files.lookup p with
    | none => rfl
    | some inode =>
      have hne : inode ≠ fs.inodes := Nat.ne_of_lt (fs.bounded p inode h)
      simp [append, seek, setData, addHandle, newFile, hne]

theorem content_replaced {tmp path : Path} (htmp : fs.content tmp = none) (p : Path) :
    (fs.replaced tmp path b).content p = if p = path then some b else fs.content p := by
  rw [replaced, content_move _ _ (by rw [content_written, if_pos rfl])]
  split
  · rfl
  · split
    · next hp => rw [hp, htmp]
    · next hp => rw [content_written, if_neg hp]

/-- **Written under a free temporary name and renamed, the file is replaced.** -/
theorem runs_replaceFile_iff {tmp path : Path} (htmp : fs.content tmp = none)
    (hdirs : fs.isDir tmp = false ∧ fs.isDir path = false)
    (hparents : fs.isDir tmp.dropLast = true ∧ fs.isDir path.dropLast = true) :
    (replaceFile tmp path b).run.Runs Quiet fs o fs' ↔
      o = .ok () ∧ fs' = fs.replaced tmp path b := by
  have hlookup : fs.files.lookup tmp = none := by simpa [content] using htmp
  have hcreate (r : Except IoError Nat) (fs₁ : FileSystem) :
      (ExceptT.mk (create tmp)).run.Runs Quiet fs r fs₁ ↔
        r = .ok fs.handles.length ∧ fs₁ = (fs.newFile tmp).addHandle fs.inodes := by
    refine Prog.runs_perform_iff.trans (quiet_iff_of_answer fun a => ?_)
    rw [answer, if_neg (by simp [hdirs, hparents]), hlookup]
    rfl
  let opened := (fs.newFile tmp).addHandle fs.inodes
  have hhandle : opened.handles[fs.handles.length]? =
      some (fs.inodes, (opened.data fs.inodes).length) := by
    simp [opened, addHandle, newFile]
  let written := opened.append fs.handles.length fs.inodes b
  have hflush (r : Except IoError Unit) (fs₁ : FileSystem) :
      (ExceptT.mk (flush fs.handles.length)).run.Runs Quiet written r fs₁ ↔
        r = .ok () ∧ fs₁ = written :=
    Prog.runs_perform_iff.trans (quiet_iff_of_answer fun _ => rfl)
  have hsync (r : Except IoError Unit) (fs₁ : FileSystem) :
      (ExceptT.mk (syncAll fs.handles.length)).run.Runs Quiet written r fs₁ ↔
        r = .ok () ∧ fs₁ = written :=
    Prog.runs_perform_iff.trans (quiet_iff_of_answer fun _ => rfl)
  have hrename : (ExceptT.mk (rename tmp path)).run.Runs Quiet written o fs' ↔
      o = .ok () ∧ fs' = fs.replaced tmp path b := by
    refine Prog.runs_perform_iff.trans (quiet_iff_of_answer fun a => ?_)
    have hname : written.content tmp = some b := by rw [content_written, if_pos rfl]
    have hdir : written.isDir path = false ∧ written.isDir path.dropLast = true :=
      ⟨hdirs.2, hparents.2⟩
    rw [answer, hname]
    simp only [hdir, Bool.false_eq_true, Bool.true_eq_false, or_self, if_false]
    rfl
  unfold replaceFile
  refine (Prog.runs_run_bind_of_ok hcreate).trans ?_
  refine (Prog.runs_run_bind_of_ok fun r _ => runs_writeAll_iff hhandle le_rfl).trans ?_
  refine (Prog.runs_run_bind_of_ok hflush).trans ?_
  exact (Prog.runs_run_bind_of_ok hsync).trans hrename

end

/-! ## What an operation can do

Failures included. -/

section

variable {fs fs' : FileSystem} {path : Path} {src dst : Path} {a : Ans}

/-- The state after `create`. -/
def opened (fs : FileSystem) (path : Path) : FileSystem :=
  match fs.files.lookup path with
  | some inode => (fs.setData inode []).addHandle inode
  | none => (fs.newFile path).addHandle fs.inodes

theorem perform_cases {op : Op} {r : Res op} (h : fs.perform op a = some (r, fs')) :
    (∃ e, r = .error e) ∧ fs' = fs ∨
      ∃ r₀, fs.answer op a = some (r₀, fs') ∧ (r = r₀ ∨ ∃ e, r = .error e) := by
  unfold perform at h
  cases hfault : a.fault with
  | none =>
    rw [hfault] at h
    exact .inr ⟨r, h, .inl rfl⟩
  | some e =>
    simp only [hfault] at h
    split_ifs at h with happlied
    · obtain ⟨⟨r₀, fs₀⟩, hanswer, hx⟩ := Option.map_eq_some_iff.1 h
      cases hx
      exact .inr ⟨r₀, hanswer, .inr ⟨e, rfl⟩⟩
    · cases h
      exact .inl ⟨⟨e, rfl⟩, rfl⟩

/-- What `create` does, whether or not it reports a failure. -/
theorem perform_create_cases {r : Res (.create path)}
    (h : fs.perform (.create path) a = some (r, fs')) :
    (∃ e, r = .error e) ∧ fs' = fs ∨
      fs' = fs.opened path ∧ (r = .ok fs.handles.length ∨ ∃ e, r = .error e) := by
  rcases perform_cases h with hfault | ⟨r₀, hanswer, hr⟩
  · exact .inl hfault
  · rw [answer] at hanswer
    split_ifs at hanswer
    · cases hanswer
      refine .inl ⟨?_, rfl⟩
      rcases hr with rfl | hr
      · exact ⟨_, rfl⟩
      · exact hr
    · have hopened : r₀ = .ok fs.handles.length ∧ fs' = fs.opened path := by
        unfold opened
        cases hlookup : fs.files.lookup path with
        | some inode =>
          rw [hlookup] at hanswer
          cases hanswer
          exact ⟨rfl, rfl⟩
        | none =>
          rw [hlookup] at hanswer
          cases hanswer
          exact ⟨rfl, rfl⟩
      obtain ⟨rfl, rfl⟩ := hopened
      exact .inr ⟨rfl, hr⟩

theorem perform_write_cases {handle inode position : Nat} {b : Bytes} {r : Res (.write handle b)}
    (hhandle : fs.handles[handle]? = some (inode, position))
    (h : fs.perform (.write handle b) a = some (r, fs')) :
    (∃ e, r = .error e) ∧ fs' = fs ∨
      ∃ n ≤ b.length, (r = .ok n ∨ ∃ e, r = .error e) ∧
        fs' = (fs.setData inode (writeAt (fs.data inode) position (b.take n))).seek handle inode
          (position + n) := by
  rcases perform_cases h with hfault | ⟨r₀, hanswer, hr⟩
  · exact .inl hfault
  · simp only [answer, hhandle] at hanswer
    split_ifs at hanswer with hn
    cases hanswer
    exact .inr ⟨a.written, hn.2, hr, rfl⟩

theorem perform_rename_cases {r : Res (.rename src dst)}
    (h : fs.perform (.rename src dst) a = some (r, fs')) : fs' = fs ∨ fs' = fs.move src dst := by
  rcases perform_cases h with ⟨-, rfl⟩ | ⟨r₀, hanswer, -⟩
  · exact .inl rfl
  · rw [answer] at hanswer
    split at hanswer
    · split_ifs at hanswer
      · cases hanswer
        exact .inl rfl
      · cases hanswer
        exact .inr rfl
    · split_ifs at hanswer
      cases hanswer
      exact .inl rfl

theorem perform_removeFile_cases {r : Res (.removeFile path)}
    (h : fs.perform (.removeFile path) a = some (r, fs')) : fs' = fs ∨ fs' = fs.unlink path := by
  rcases perform_cases h with ⟨-, rfl⟩ | ⟨r₀, hanswer, -⟩
  · exact .inl rfl
  · rw [answer] at hanswer
    split at hanswer
    · cases hanswer
      exact .inr rfl
    · cases hanswer
      exact .inl rfl

theorem perform_read_cases {r : Res (.read path)} (h : fs.perform (.read path) a = some (r, fs')) :
    fs' = fs ∧ ∀ b, r = .ok b → fs.content path = some b := by
  rcases perform_cases h with ⟨⟨e, rfl⟩, rfl⟩ | ⟨r₀, hanswer, hr⟩
  · exact ⟨rfl, fun b hb => by cases hb⟩
  · rw [answer] at hanswer
    split at hanswer
    · next b hb =>
      cases hanswer
      refine ⟨rfl, fun c hc => ?_⟩
      rcases hr with rfl | ⟨e, rfl⟩
      · cases hc
        exact hb
      · cases hc
    · cases hanswer
      refine ⟨rfl, fun c hc => ?_⟩
      rcases hr with rfl | ⟨e, rfl⟩
      · cases hc
      · cases hc

theorem perform_idle {op : Op} {r : Res op}
    (hop : ∀ a r₀ fs₁, fs.answer op a = some (r₀, fs₁) → fs₁ = fs)
    (h : fs.perform op a = some (r, fs')) : fs' = fs := by
  rcases perform_cases h with ⟨-, rfl⟩ | ⟨r₀, hanswer, -⟩
  · rfl
  · exact hop a r₀ fs' hanswer

theorem perform_flush {handle : Nat} {r : Res (.flush handle)}
    (h : fs.perform (.flush handle) a = some (r, fs')) : fs' = fs :=
  perform_idle (fun _ _ _ h => by cases h; rfl) h

theorem perform_syncAll {handle : Nat} {r : Res (.syncAll handle)}
    (h : fs.perform (.syncAll handle) a = some (r, fs')) : fs' = fs :=
  perform_idle (fun _ _ _ h => by cases h; rfl) h

theorem perform_readDir {r : Res (.readDir path)}
    (h : fs.perform (.readDir path) a = some (r, fs')) : fs' = fs := by
  refine perform_idle (fun a r₀ fs₁ hanswer => ?_) h
  rw [answer] at hanswer
  split_ifs at hanswer
  · cases hanswer
    rfl
  · cases hanswer
    rfl
  · cases hanswer
    rfl

theorem perform_createDirAll_cases {r : Res (.createDirAll path)}
    (h : fs.perform (.createDirAll path) a = some (r, fs')) :
    fs' = fs ∨ fs' = fs.addDirs path.inits := by
  rcases perform_cases h with ⟨-, rfl⟩ | ⟨r₀, hanswer, -⟩
  · exact .inl rfl
  · rw [answer] at hanswer
    split_ifs at hanswer
    · cases hanswer
      exact .inl rfl
    · cases hanswer
      exact .inr rfl

/-! ### Names and inodes -/

theorem lookup_unlink (fs : FileSystem) (p q : Path) :
    (fs.unlink p).files.lookup q = if q = p then none else fs.files.lookup q := by
  by_cases hq : q = p
  · subst hq
    simp [unlink]
  · simp [unlink, hq, AList.lookup_erase_ne hq]

theorem lookup_move {inode : Nat} (h : fs.files.lookup src = some inode) (q : Path) :
    (fs.move src dst).files.lookup q =
      if q = dst then some inode else if q = src then none else fs.files.lookup q := by
  unfold move
  split
  · next n hn =>
    obtain rfl : n = inode := Option.some.inj (hn.symm.trans h)
    by_cases hq : q = dst
    · subst hq
      simp [link]
    · rw [if_neg hq, ← lookup_unlink]
      exact AList.lookup_insert_ne hq
  · next hn => cases hn.symm.trans h

@[simp] theorem data_move : (fs.move src dst).data = fs.data := by
  unfold move
  split <;> rfl

@[simp] theorem handles_move : (fs.move src dst).handles = fs.handles := by
  unfold move
  split <;> rfl

/-- What `create` does to names and inodes: the name leads to an empty file, which is the one it led
to before or a new one. -/
structure Opens (fs fs' : FileSystem) (path : Path) (inode : Nat) : Prop where
  lookup_self : fs'.files.lookup path = some inode
  lookup_ne : ∀ q, q ≠ path → fs'.files.lookup q = fs.files.lookup q
  data_self : fs'.data inode = []
  data_ne : ∀ n, n ≠ inode → fs'.data n = fs.data n
  handles : fs'.handles = fs.handles ++ [(inode, 0)]
  origin : fs.files.lookup path = some inode ∨ inode = fs.inodes

theorem exists_opens (fs : FileSystem) (path : Path) :
    ∃ inode, Opens fs (fs.opened path) path inode := by
  unfold opened
  cases h : fs.files.lookup path with
  | some inode =>
    refine ⟨inode, h, fun _ _ => rfl, ?_, fun n hn => ?_, rfl, .inl h⟩
    · exact Function.update_self ..
    · exact Function.update_of_ne hn ..
  | none =>
    refine ⟨fs.inodes, ?_, fun q hq => ?_, ?_, fun n hn => ?_, rfl, .inr rfl⟩
    · exact AList.lookup_insert ..
    · exact AList.lookup_insert_ne hq
    · exact Function.update_self ..
    · exact Function.update_of_ne hn ..

/-- The files under a directory have no second name. -/
def Separate (fs : FileSystem) (root : Path) : Prop :=
  ∀ p q inode, root <+: p → fs.files.lookup p = some inode → fs.files.lookup q = some inode → p = q

variable {root : Path}

theorem Opens.ne_of_lookup {q : Path} {inode n : Nat} (h : Opens fs fs' path inode)
    (hsep : fs.Separate root) (hroot : root <+: path) (hq : q ≠ path)
    (hlookup : fs.files.lookup q = some n) : n ≠ inode := by
  rintro rfl
  rcases h.origin with hpath | hnew
  · exact hq (hsep path q n hroot hpath hlookup).symm
  · exact absurd (fs.bounded q n hlookup) (by omega)

/-- `create` keeps names apart. -/
theorem Separate.opens {inode : Nat} (h : Opens fs fs' path inode) (hsep : fs.Separate root)
    (hroot : root <+: path) : fs'.Separate root := by
  intro p q n hp hlookup hlookup'
  by_cases hpath : p = path
  · subst hpath
    by_contra hne
    obtain rfl : inode = n := Option.some.inj (h.lookup_self.symm.trans hlookup)
    rw [h.lookup_ne q (Ne.symm hne)] at hlookup'
    exact h.ne_of_lookup hsep hroot (Ne.symm hne) hlookup' rfl
  · rw [h.lookup_ne p hpath] at hlookup
    by_cases hq : q = path
    · subst hq
      obtain rfl : inode = n := Option.some.inj (h.lookup_self.symm.trans hlookup')
      exact absurd rfl (h.ne_of_lookup hsep hroot hpath hlookup)
    · rw [h.lookup_ne q hq] at hlookup'
      exact hsep p q n hp hlookup hlookup'

theorem Separate.unlink (hsep : fs.Separate root) (path : Path) :
    (fs.unlink path).Separate root := by
  intro p q n hp hlookup hlookup'
  rw [lookup_unlink] at hlookup hlookup'
  split_ifs at hlookup hlookup'
  exact hsep p q n hp hlookup hlookup'

theorem Separate.move {inode : Nat} (hsep : fs.Separate root) (hroot : root <+: src)
    (hsrc : fs.files.lookup src = some inode) : (fs.move src dst).Separate root := by
  intro p q n hp hlookup hlookup'
  rw [lookup_move hsrc] at hlookup hlookup'
  by_cases hpdst : p = dst
  · by_cases hqdst : q = dst
    · rw [hpdst, hqdst]
    · rw [if_pos hpdst] at hlookup
      rw [if_neg hqdst] at hlookup'
      split_ifs at hlookup' with hq
      cases hlookup
      exact absurd (hsep src q inode hroot hsrc hlookup').symm hq
  · rw [if_neg hpdst] at hlookup
    split_ifs at hlookup with hpsrc
    by_cases hqdst : q = dst
    · rw [if_pos hqdst] at hlookup'
      cases hlookup'
      exact absurd (hsep src p inode hroot hsrc hlookup).symm hpsrc
    · rw [if_neg hqdst] at hlookup'
      split_ifs at hlookup'
      exact hsep p q n hp hlookup hlookup'

end

end FileSystem

end QfcServerWallet.Lib
