import QfcServerWallet.Lib.Phases
import QfcServerWallet.Stores.Interchange

/-!
# Concurrent writes of one share

`qfc-sss/src/stores/local_fs.rs`: what `get` finds while several `put`s of one share are under way.

* The calls of the four methods are interleaved operation by operation. An operation may fail, with
  or without having been carried out. A call that is never scheduled again has crashed.
* All `put`s of one share write to one temporary file, and `File::create` truncates it. A `put` that
  has opened the file keeps its inode through the rename of another one.
* `Phase` is what a call has come to. `Writes` says what the temporary file holds for the `put` that
  created it last.

Results: `call_keeps`, `inv_run`, **`get_complete_of_exclusive`**, `exclusive_of_sorted` and
`get_truncated`.
-/

namespace QfcServerWallet.Stores.LocalFsShareStore

open Lib Service FileSystem

variable {log : StoreLog} {path : Path}

/-! ## Calls that are interleaved -/

/-- What the outside world decides about one operation. -/
structure Answer where
  fs : FileSystem.Ans
  nonce : FixedBytes 24

/-- Answers an operation. -/
def perform (fs : FileSystem) : (op : Op) → Answer → Option (Res op × FileSystem)
  | .fs op, a => fs.perform op a.fs
  | .nonce, a => some (a.nonce, fs)

/-- Calls of the store. -/
abbrev StorePool := Pool Op Res FileSystem Call (Reply ShareStoreError)

/-- What they did. -/
abbrev StoreLog := Pool.Log Op Res

/-- The file an event creates. -/
def created : Prog.Event Op Res → Option Path
  | ⟨.fs (.create path), _⟩ => some path
  | _ => none

/-- The calls that created a file, in order. -/
def creators (log : StoreLog) (path : Path) : List Nat :=
  log.filterMap fun x => if created x.2 = some path then some x.1 else none

/-- The event writes to a file or renames one. -/
def touches : Prog.Event Op Res → Bool
  | ⟨.fs (.write _ _), _⟩ => true
  | ⟨.fs (.rename _ _), _⟩ => true
  | _ => false

/-- A call that writes or renames was the last to create the file it created: no other one has
truncated it since. -/
def Exclusive (log : StoreLog) : Prop :=
  ∀ front i x back, log = front ++ (i, x) :: back → touches x = true →
    ∀ path, i ∈ creators front path → (creators front path).getLast? = some i

theorem creators_concat (log : StoreLog) (x : Nat × Prog.Event Op Res) (path : Path) :
    creators (log ++ [x]) path =
      creators log path ++ if created x.2 = some path then [x.1] else [] := by
  unfold creators
  rw [List.filterMap_append]
  split_ifs with h
  · simp [h]
  · simp [h]

theorem mem_creators_concat {x : Nat × Prog.Event Op Res} {i : Nat} (h : i ∈ creators log path) :
    i ∈ creators (log ++ [x]) path := by
  rw [creators_concat]
  exact List.mem_append_left _ h

theorem ne_of_getLast? {a b : Path} {i j : Nat} (hij : i ≠ j)
    (ha : (creators log a).getLast? = some i) (hb : (creators log b).getLast? = some j) :
    a ≠ b := by
  rintro rfl
  exact hij (Option.some.inj (ha.symm.trans hb))

theorem Exclusive.last (h : Exclusive log) {q : StorePool} {i : Nat} {x : Prog.Event Op Res}
    (hlog : q.log ++ [(i, x)] <+: log) (hx : touches x = true) (hi : i ∈ creators q.log path) :
    (creators q.log path).getLast? = some i := by
  obtain ⟨back, hback⟩ := hlog
  exact h q.log i x back (by rw [← hback]; simp) hx path hi

theorem getLast?_of_sorted {l : List Nat} {i : Nat} (hsorted : (l ++ [i]).Pairwise (· ≤ ·))
    (hi : i ∈ l) : l.getLast? = some i := by
  obtain ⟨hl, -, hle⟩ := List.pairwise_append.1 hsorted
  have hne := List.ne_nil_of_mem hi
  rw [List.getLast?_eq_some_getLast hne]
  refine congrArg some (Nat.le_antisymm ?_ (hl.rel_getLast hi))
  exact hle _ (List.getLast_mem hne) i (List.mem_singleton_self i)

/-- The event creates a file, writes to one or renames one. -/
def changes (x : Prog.Event Op Res) : Bool := (created x).isSome || touches x

theorem creators_sublist (log : StoreLog) (path : Path) :
    (creators log path).Sublist ((log.filter fun x => changes x.2).map Prod.fst) := by
  induction log with
  | nil => exact List.Sublist.refl _
  | cons x log ih =>
    unfold creators at ih ⊢
    by_cases hx : created x.2 = some path
    · simpa [hx, changes] using ih
    · rw [List.filterMap_cons, if_neg hx]
      exact ih.trans (((List.sublist_cons_self x log).filter _).map _)

/-- It is enough that the `put`s follow one another, and some of them may have crashed. -/
theorem exclusive_of_sorted
    (h : ((log.filter fun x => changes x.2).map Prod.fst).Pairwise (· ≤ ·)) : Exclusive log := by
  rintro front i x back rfl hx path hi
  refine getLast?_of_sorted (h.sublist ?_) hi
  have hchanges : changes x = true := by simp [changes, hx]
  rw [List.filter_append, List.map_append, List.filter_cons, if_pos hchanges, List.map_cons]
  exact (creators_sublist front path).append ((List.nil_sublist _).cons_cons i)

/-! ## Phases -/

/-- What a call has come to. -/
inductive Phase where
  /-- nothing is written yet -/
  | before
  | sealed (share : StoredShare) (raw : Bytes)
  /-- the temporary file is open, and so many bytes are written -/
  | writing (share : StoredShare) (raw : Bytes) (handle written : Nat)
  /-- nothing is written any more -/
  | ended

section

variable (d : Deps) (st : LocalFsShareStore)

/-- The bytes are a complete file of the share. -/
def Sealing (share : StoredShare) (raw : Bytes) : Prop :=
  ∃ plaintext nonce, d.shares.encode share = .ok plaintext ∧
    st.sealWith d nonce plaintext = .ok raw

/-- What a call may ask for in a phase, and where the answer leads. -/
inductive Next : Call → Phase → (op : Op) → Res op → Phase → Prop
  | dirs {share : StoredShare} {dir : Path} {r : Res (.fs (.createDirAll dir))} :
      Next (.put share) .before (.fs (.createDirAll dir)) r .before
  | sealed {share : StoredShare} {nonce : FixedBytes 24} {raw : Bytes}
      (hraw : Sealing d st share raw) : Next (.put share) .before .nonce nonce (.sealed share raw)
  | notSealed {share : StoredShare} {nonce : FixedBytes 24} :
      Next (.put share) .before .nonce nonce .ended
  | create {share : StoredShare} {raw : Bytes} {handle : Nat} :
      Next (.put share) (.sealed share raw) (.fs (.create (st.tmpPath share.shareId)))
        (Except.ok handle : Except IoError Nat) (.writing share raw handle 0)
  | notCreated {share : StoredShare} {raw : Bytes} {e : IoError} :
      Next (.put share) (.sealed share raw) (.fs (.create (st.tmpPath share.shareId)))
        (Except.error e : Except IoError Nat) .ended
  | write {share : StoredShare} {raw : Bytes} {handle written n : Nat} :
      Next (.put share) (.writing share raw handle written)
        (.fs (.write handle (raw.drop written))) (Except.ok n : Except IoError Nat)
        (.writing share raw handle (written + n))
  | notWritten {share : StoredShare} {raw : Bytes} {handle written : Nat} {e : IoError} :
      Next (.put share) (.writing share raw handle written)
        (.fs (.write handle (raw.drop written))) (Except.error e : Except IoError Nat) .ended
  | flush {share : StoredShare} {raw : Bytes} {handle written : Nat}
      {r : Res (.fs (.flush handle))} :
      Next (.put share) (.writing share raw handle written) (.fs (.flush handle)) r
        (.writing share raw handle written)
  | sync {share : StoredShare} {raw : Bytes} {handle written : Nat}
      {r : Res (.fs (.syncAll handle))} :
      Next (.put share) (.writing share raw handle written) (.fs (.syncAll handle)) r
        (.writing share raw handle written)
  | rename {share : StoredShare} {raw : Bytes} {handle written : Nat}
      {r : Res (.fs (.rename (st.tmpPath share.shareId) (st.sharePath share.shareId)))}
      (hall : raw.length ≤ written) :
      Next (.put share) (.writing share raw handle written)
        (.fs (.rename (st.tmpPath share.shareId) (st.sharePath share.shareId))) r .ended
  | read {id : ShareId} {r : Res (.fs (.read (st.sharePath id)))} :
      Next (.get id) .before (.fs (.read (st.sharePath id))) r .ended
  | remove {id : ShareId} {r : Res (.fs (.removeFile (st.sharePath id)))} :
      Next (.delete id) .before (.fs (.removeFile (st.sharePath id))) r .ended
  | readDir {walletId : WalletId} {r : Res (.fs (.readDir (st.walletDir walletId)))} :
      Next (.list walletId) .before (.fs (.readDir (st.walletDir walletId))) r .ended

end

section Programs

variable {d : Deps} {st : LocalFsShareStore} {share : StoredShare} {raw : Bytes} {handle : Nat}

theorem keeps_onFs {α : Type} {call : Call} {Q : Phase → α → Prop} {l : Phase}
    {p : Prog FileSystem.Op FileSystem.Res α}
    (hp : p.Keeps (fun l op (r : FileSystem.Res op) l' => Next d st call l (.fs op) r l') Q l) :
    (onFs p).Keeps (Next d st call) Q l := by
  refine .embed (hp.of_next fun l op r l' hnext r' hr => ?_)
  cases hr
  exact hnext

/-- What is known when the loop of `write_all` ends. -/
def AllWritten (share : StoredShare) (raw : Bytes) (handle : Nat) (l : Phase) (_ : Unit) : Prop :=
  ∃ n, l = .writing share raw handle n ∧ raw.length ≤ n

theorem writeAll_keeps (writes : Nat) {written : Nat} {b : Bytes} (hb : b = raw.drop written) :
    (writeAll handle writes b).Keeps
      (fun l op (r : FileSystem.Res op) l' => Next d st (.put share) l (.fs op) r l')
      (Prog.OnOk (AllWritten share raw handle)) (.writing share raw handle written) := by
  fun_induction writeAll handle writes b generalizing written with
  | case1 => exact fun _ _ => ⟨written, rfl, List.drop_eq_nil_iff.1 hb.symm⟩
  | case2 => rintro a ⟨⟩
  | case3 writes x b ih =>
    rw [hb] at ih ⊢
    intro r
    cases r with
    | error e =>
      refine ⟨.ended, .notWritten, ?_⟩
      rintro a ⟨⟩
    | ok n => exact ⟨_, .write, ih n (List.drop_drop ..)⟩

theorem replaceFile_keeps :
    (replaceFile (st.tmpPath share.shareId) (st.sharePath share.shareId) raw).run.Keeps
      (fun l op (r : FileSystem.Res op) l' => Next d st (.put share) l (.fs op) r l')
      (Prog.OnOk fun _ _ => True) (.sealed share raw) := by
  unfold replaceFile
  refine .run_bind (P := fun l handle => l = .writing share raw handle 0) ?_ ?_
  · intro r
    cases r with
    | error e =>
      refine ⟨.ended, .notCreated, ?_⟩
      rintro a ⟨⟩
    | ok handle =>
      refine ⟨_, .create, ?_⟩
      rintro a ⟨⟩
      rfl
  rintro l handle rfl
  refine .run_bind (writeAll_keeps raw.length rfl) ?_
  rintro l ⟨⟩ ⟨n, rfl, hall⟩
  refine .run_bind (P := fun l _ => l = .writing share raw handle n) ?_ ?_
  · exact fun r => ⟨_, .flush, fun _ _ => rfl⟩
  rintro l ⟨⟩ rfl
  refine .run_bind (P := fun l _ => l = .writing share raw handle n) ?_ ?_
  · exact fun r => ⟨_, .sync, fun _ _ => rfl⟩
  rintro l ⟨⟩ rfl
  exact fun r => ⟨.ended, .rename hall, fun _ _ => trivial⟩

theorem put_keeps (share : StoredShare) :
    (st.put d share).Keeps (Next d st (.put share)) (Prog.OnOk fun _ _ => True) .before := by
  unfold put
  refine .run_bind (P := fun l _ => l = .before) ?_ ?_
  · refine .orThrow (keeps_onFs ?_)
    exact fun r => ⟨.before, .dirs, fun _ _ => rfl⟩
  rintro l ⟨⟩ rfl
  refine .ofExcept_bind fun serialized hserialized => ?_
  have hencode := mapError_eq_ok.1 hserialized
  -- the phase after the draw says whether the encryption succeeds
  refine .run_bind (P := fun l nonce =>
    ∀ raw, st.sealWith d nonce serialized = .ok raw → l = .sealed share raw) ?_ ?_
  · refine .lift ?_
    intro nonce
    cases hseal : st.sealWith d nonce serialized with
    | error e =>
      refine ⟨.ended, .notSealed, ?_⟩
      intro raw hraw
      cases hseal.symm.trans hraw
    | ok raw =>
      refine ⟨.sealed share raw, .sealed ⟨serialized, nonce, hencode, hseal⟩, ?_⟩
      intro raw' hraw'
      rw [Except.ok.inj (hseal.symm.trans hraw')]
  intro l nonce hl
  refine .ofExcept_bind fun raw hraw => ?_
  rw [hl raw hraw]
  exact .orThrow (keeps_onFs replaceFile_keeps)

/-- Every call goes through its phases. -/
theorem call_keeps (call : Call) :
    ((localFsStore d st).call call).Keeps (Next d st call) (fun _ _ => True) .before := by
  cases call with
  | put share => exact (put_keeps share).bind fun _ _ _ => trivial
  | get id =>
    intro r
    refine ⟨.ended, .read, ?_⟩
    cases r with
    | ok raw => trivial
    | error e =>
      cases e with
      | notFound => trivial
      | other text => trivial
  | delete id =>
    intro r
    refine ⟨.ended, .remove, ?_⟩
    cases r with
    | ok _ => trivial
    | error e =>
      cases e with
      | notFound => trivial
      | other text => trivial
  | list walletId =>
    intro r
    refine ⟨.ended, .readDir, ?_⟩
    cases r with
    | ok names => trivial
    | error e =>
      cases e with
      | notFound => trivial
      | other text => trivial

end Programs

/-! ## The invariant -/

section Names

variable (st : LocalFsShareStore)

theorem root_prefix_tmpPath (id : ShareId) : st.root <+: st.tmpPath id := by
  rw [tmpPath_eq, walletDir, List.append_assoc]
  exact List.prefix_append _ _

theorem root_prefix_sharePath (id : ShareId) : st.root <+: st.sharePath id := by
  rw [sharePath, walletDir, List.append_assoc]
  exact List.prefix_append _ _

theorem tmpPath_ne_sharePath (a b : ShareId) : st.tmpPath a ≠ st.sharePath b := by
  intro h
  rw [tmpPath_eq, sharePath] at h
  obtain ⟨-, hname⟩ := List.append_inj' h rfl
  exact tmp_ne_shareName a.index b.index (List.cons.inj hname).1

end Names

/-- The call is one of the pool. -/
def Called (p : StorePool) (i : Nat) (call : Call) : Prop := ∃ left, p.tasks[i]? = some (call, left)

section Invariant

variable (d : Deps) (st : LocalFsShareStore)

/-- The bytes are a complete file of a share with this id that was put. -/
def Complete (p : StorePool) (id : ShareId) (b : Bytes) : Prop :=
  ∃ j share, Called p j (.put share) ∧ share.shareId = id ∧ Sealing d st share b

/-- The temporary file holds what is written of the file so far, at the end of which the handle
stands. -/
structure Writes (fs : FileSystem) (share : StoredShare) (raw : Bytes)
    (handle written inode : Nat) : Prop where
  name : fs.files.lookup (st.tmpPath share.shareId) = some inode
  handle : fs.handles[handle]? = some (inode, written)
  data : fs.data inode = raw.take written
  le : written ≤ raw.length

/-- What the event finds under the name of a share is a complete file. -/
def FindsComplete (p : StorePool) (i : Nat) (x : Prog.Event Op Res) : Prop :=
  ∀ id b, x = ⟨.fs (.read (st.sharePath id)), (Except.ok b : Except IoError Bytes)⟩ →
    Called p i (.get id) ∧ Complete d st p id b

/-- What holds between two operations. -/
structure Inv (p : StorePool) : Prop where
  complete : ∀ {id inode}, p.shared.files.lookup (st.sharePath id) = some inode →
    Complete d st p id (p.shared.data inode)
  separate : p.shared.Separate st.root
  read : ∀ {i x}, (i, x) ∈ p.log → FindsComplete d st p i x

/-- What a call relies on: it puts the share whose file it has, and if it created the temporary file
last, then it knows what the file holds. -/
def Working (p : StorePool) (i : Nat) : Phase → Prop
  | .before | .ended => True
  | .sealed share raw => Called p i (.put share) ∧ Sealing d st share raw
  | .writing share raw handle written =>
    (Called p i (.put share) ∧ Sealing d st share raw) ∧
      i ∈ creators p.log (st.tmpPath share.shareId) ∧
      ((creators p.log (st.tmpPath share.shareId)).getLast? = some i →
        ∃ inode, Writes st p.shared share raw handle written inode)

/-- The event of call `i` leaves the other last creators what they have written, except one whose
file it creates. -/
def OthersWrite (p : StorePool) (i : Nat) (x : Prog.Event Op Res) (fs : FileSystem) : Prop :=
  ∀ j share raw handle written inode, j ≠ i →
    (creators p.log (st.tmpPath share.shareId)).getLast? = some j →
    created x ≠ some (st.tmpPath share.shareId) →
    Writes st p.shared share raw handle written inode →
    Writes st fs share raw handle written inode

/-- The pool after an event of call `i`. -/
abbrev acted (p : StorePool) (i : Nat) (call : Call) (left : Prog Op Res (Reply ShareStoreError))
    (x : Prog.Event Op Res) (fs : FileSystem) : StorePool :=
  ⟨fs, p.tasks.set i (call, left), p.log ++ [(i, x)]⟩

variable {d st} {q q' : StorePool} {i j : Nat} {call : Call}
  {left left' : Prog Op Res (Reply ShareStoreError)} {x : Prog.Event Op Res} {fs : FileSystem}
  {l : Phase} {id : ShareId} {b : Bytes} {new : Call × Prog Op Res (Reply ShareStoreError)}

theorem Called.spawn (h : Called q i call) :
    Called { q with tasks := q.tasks ++ [new] } i call := by
  obtain ⟨left, hleft⟩ := h
  exact ⟨left, (List.getElem?_append_left (List.getElem?_eq_some_iff.1 hleft).1).trans hleft⟩

theorem Called.acted {c : Call} (htask : q.tasks[i]? = some (call, left)) (h : Called q j c) :
    Called (acted q i call left' x fs) j c := by
  obtain ⟨other, hother⟩ := h
  by_cases hij : i = j
  · subst hij
    obtain rfl : call = c := congrArg Prod.fst (Option.some.inj (htask.symm.trans hother))
    exact ⟨left', List.getElem?_set_self (List.getElem?_eq_some_iff.1 htask).1⟩
  · exact ⟨other, (List.getElem?_set_ne hij).trans hother⟩

theorem Complete.of_called (h : Complete d st q id b)
    (hcalled : ∀ i call, Called q i call → Called q' i call) : Complete d st q' id b := by
  obtain ⟨j, share, hj, hid, hb⟩ := h
  exact ⟨j, share, hcalled _ _ hj, hid, hb⟩

theorem FindsComplete.of_called (h : FindsComplete d st q i x)
    (hcalled : ∀ i call, Called q i call → Called q' i call) : FindsComplete d st q' i x := by
  intro id b hx
  obtain ⟨hget, hb⟩ := h id b hx
  exact ⟨hcalled _ _ hget, hb.of_called hcalled⟩

theorem lookup_of_fresh (hfresh : st.Fresh fs) (hroot : st.root <+: path) :
    fs.files.lookup path = none := by
  have hnone : fs.content path = none := by
    by_cases hpath : path = st.root
    · exact hfresh.1 path (hpath ▸ List.prefix_rfl)
    · exact (hfresh.2 path hroot hpath).1
  exact Option.map_eq_none_iff.1 hnone

theorem inv_start (hfresh : st.Fresh fs) : Inv d st (Pool.start fs) where
  complete {id inode} h := by
    cases (lookup_of_fresh hfresh (root_prefix_sharePath st id)).symm.trans h
  separate p q inode hroot hp := by
    cases (lookup_of_fresh hfresh hroot).symm.trans hp
  read h := by cases h

theorem Inv.spawn (hinv : Inv d st q) :
    Inv d st { q with tasks := q.tasks ++ [new] } where
  complete h := (hinv.complete h).of_called fun _ _ => Called.spawn
  separate := hinv.separate
  read h := (hinv.read h).of_called fun _ _ => Called.spawn

theorem Working.spawn (h : Working d st q i l) :
    Working d st { q with tasks := q.tasks ++ [new] } i l := by
  cases l with
  | before => trivial
  | ended => trivial
  | sealed share raw => exact ⟨h.1.spawn, h.2⟩
  | writing share raw handle written => exact ⟨⟨h.1.1.spawn, h.1.2⟩, h.2⟩

theorem Working.other (htask : q.tasks[i]? = some (call, left)) (hothers : OthersWrite st q i x fs)
    (hj : j ≠ i) (h : Working d st q j l) : Working d st (acted q i call left' x fs) j l := by
  cases l with
  | before => trivial
  | ended => trivial
  | sealed share raw => exact ⟨h.1.acted htask, h.2⟩
  | writing share raw handle written =>
    obtain ⟨⟨hput, hraw⟩, hcreator, hwriter⟩ := h
    refine ⟨⟨hput.acted htask, hraw⟩, mem_creators_concat hcreator, fun hlast => ?_⟩
    -- another call than `i` is the last creator, so `i` created something else
    have hne : created x ≠ some (st.tmpPath share.shareId) := by
      intro hcreated
      rw [creators_concat, if_pos hcreated, List.getLast?_concat] at hlast
      exact hj (Option.some.inj hlast).symm
    rw [creators_concat, if_neg hne, List.append_nil] at hlast
    obtain ⟨inode, hwrites⟩ := hwriter hlast
    exact ⟨inode, hothers j share raw handle written inode hj hlast hne hwrites⟩

/-- One operation: the invariant holds again, and so does what each call relies on. -/
def Advances (d : Deps) (st : LocalFsShareStore) (q : StorePool) (i : Nat) (l' : Phase)
    (q' : StorePool) : Prop :=
  Inv d st q' ∧ Working d st q' i l' ∧
    ∀ j l, j ≠ i → Working d st q j l → Working d st q' j l

theorem Inv.act (hinv : Inv d st q) (htask : q.tasks[i]? = some (call, left))
    (hwork : Working d st (acted q i call left' x fs) i l) (hothers : OthersWrite st q i x fs)
    (hcomplete : ∀ id inode, fs.files.lookup (st.sharePath id) = some inode →
      Complete d st q id (fs.data inode))
    (hseparate : fs.Separate st.root) (hread : FindsComplete d st q i x) :
    Advances d st q i l (acted q i call left' x fs) := by
  have hcalled (j : Nat) (c : Call) (h : Called q j c) :
      Called (acted q i call left' x fs) j c := h.acted htask
  refine ⟨⟨?_, hseparate, ?_⟩, hwork, fun j l hj => .other htask hothers hj⟩
  · intro id inode h
    exact (hcomplete id inode h).of_called hcalled
  · intro j y h
    rcases mem_concat_iff.1 h with h | h
    · exact (hinv.read h).of_called hcalled
    · cases h
      exact hread.of_called hcalled

theorem Inv.frame (hinv : Inv d st q) (htask : q.tasks[i]? = some (call, left))
    (hfiles : fs.files = q.shared.files) (hdata : fs.data = q.shared.data)
    (hhandles : fs.handles = q.shared.handles)
    (hwork : Working d st (acted q i call left' x fs) i l) (hread : FindsComplete d st q i x) :
    Advances d st q i l (acted q i call left' x fs) := by
  refine hinv.act htask hwork ?_ ?_ ?_ hread
  · intro j share raw handle written inode _ _ _ h
    exact ⟨hfiles ▸ h.name, hhandles ▸ h.handle, hdata ▸ h.data, h.le⟩
  · intro id inode h
    rw [hfiles] at h
    rw [hdata]
    exact hinv.complete h
  · unfold FileSystem.Separate
    rw [hfiles]
    exact hinv.separate

theorem Working.stay {share : StoredShare} {raw : Bytes} {handle written : Nat}
    (htask : q.tasks[i]? = some (call, left)) (hcreated : created x = none)
    (h : Working d st q i (.writing share raw handle written)) :
    Working d st (acted q i call left' x q.shared) i (.writing share raw handle written) := by
  obtain ⟨⟨hput, hraw⟩, hcreator, hwriter⟩ := h
  refine ⟨⟨hput.acted htask, hraw⟩, mem_creators_concat hcreator, fun hlast => ?_⟩
  rw [creators_concat, if_neg (by rw [hcreated]; simp), List.append_nil] at hlast
  exact hwriter hlast

section Put

variable {share : StoredShare} {raw : Bytes} {handle written inode : Nat}

theorem Inv.create (hinv : Inv d st q) {r : Res (.fs (.create (st.tmpPath share.shareId)))}
    (htask : q.tasks[i]? = some (call, left))
    (hphase : l = .ended ∨ ∃ raw, l = .writing share raw q.shared.handles.length 0 ∧
      Called q i (.put share) ∧ Sealing d st share raw) :
    Advances d st q i l (acted q i call left' ⟨.fs (.create (st.tmpPath share.shareId)), r⟩
      (q.shared.opened (st.tmpPath share.shareId))) := by
  obtain ⟨inode, hopens⟩ := q.shared.exists_opens (st.tmpPath share.shareId)
  have hroot := root_prefix_tmpPath st share.shareId
  -- what lies under another name is another file
  have hne {path : Path} {n : Nat} (hpath : path ≠ st.tmpPath share.shareId)
      (h : q.shared.files.lookup path = some n) : n ≠ inode :=
    hopens.ne_of_lookup hinv.separate hroot hpath h
  refine hinv.act htask ?_ ?_ ?_ (.opens hopens hinv.separate hroot) ?_
  · rcases hphase with rfl | ⟨raw, rfl, hput, hraw⟩
    · trivial
    · have hself : created ⟨.fs (.create (st.tmpPath share.shareId)), r⟩ =
        some (st.tmpPath share.shareId) := rfl
      refine ⟨⟨hput.acted htask, hraw⟩, ?_, fun _ => ⟨inode, hopens.lookup_self, ?_,
        hopens.data_self, Nat.zero_le _⟩⟩
      · rw [creators_concat, if_pos hself]
        exact List.mem_append_right _ List.mem_cons_self
      · rw [hopens.handles, List.getElem?_concat_length]
  · intro j share' raw handle written n _ _ hcreated h
    have hpath : st.tmpPath share'.shareId ≠ st.tmpPath share.shareId :=
      fun heq => hcreated (congrArg some heq.symm)
    refine ⟨?_, ?_, ?_, h.le⟩
    · rw [hopens.lookup_ne _ hpath]
      exact h.name
    · rw [hopens.handles, List.getElem?_append_left (List.getElem?_eq_some_iff.1 h.handle).1]
      exact h.handle
    · rw [hopens.data_ne n (hne hpath h.name)]
      exact h.data
  · intro id n h
    have hpath := (tmpPath_ne_sharePath st share.shareId id).symm
    rw [hopens.lookup_ne _ hpath] at h
    rw [hopens.data_ne n (hne hpath h)]
    exact hinv.complete h
  · intro id b hevent
    cases hevent

theorem writeAt_take (hle : written ≤ raw.length) (n : Nat) :
    writeAt (raw.take written) written ((raw.drop written).take n) = raw.take (written + n) := by
  have hlen : (raw.take written).length = written := List.length_take_of_le hle
  have hrest : (raw.take written).drop (written + ((raw.drop written).take n).length) = [] :=
    List.drop_of_length_le (by omega)
  unfold writeAt
  rw [hrest, List.take_take, Nat.min_self, hlen, Nat.sub_self, List.replicate_zero,
    List.append_nil, List.append_nil, List.take_add]

theorem Inv.write (hinv : Inv d st q) {r : Res (.fs (.write handle b))} {n : Nat}
    (htask : q.tasks[i]? = some (call, left))
    (hwork : Working d st q i (.writing share raw handle written))
    (hlast : (creators q.log (st.tmpPath share.shareId)).getLast? = some i)
    (hwrites : Writes st q.shared share raw handle written inode) (hb : b = raw.drop written)
    (hn : n ≤ b.length)
    (hfs : fs = (q.shared.setData inode (writeAt (q.shared.data inode) written
      (b.take n))).seek handle inode (written + n))
    (hphase : l = .writing share raw handle (written + n) ∨ l = .ended) :
    Advances d st q i l (acted q i call left' ⟨.fs (.write handle b), r⟩ fs) := by
  have hfiles : fs.files = q.shared.files := by rw [hfs]; rfl
  have hdata : fs.data inode = raw.take (written + n) := by
    rw [hfs, hb, hwrites.data]
    exact (Function.update_self ..).trans (writeAt_take hwrites.le n)
  have hdata_ne {m : Nat} (hm : m ≠ inode) : fs.data m = q.shared.data m := by
    rw [hfs]
    exact Function.update_of_ne hm ..
  have hroot := root_prefix_tmpPath st share.shareId
  have hne {path : Path} {m : Nat} (hpath : path ≠ st.tmpPath share.shareId)
      (h : q.shared.files.lookup path = some m) : m ≠ inode := by
    rintro rfl
    exact hpath (hinv.separate _ _ _ hroot hwrites.name h).symm
  refine hinv.act htask ?_ ?_ ?_ ?_ ?_
  · rcases hphase with rfl | rfl
    · obtain ⟨⟨hput, hraw⟩, hcreator, -⟩ := hwork
      refine ⟨⟨hput.acted htask, hraw⟩, mem_creators_concat hcreator, fun _ =>
        ⟨inode, hfiles ▸ hwrites.name, ?_, hdata, ?_⟩⟩
      · rw [hfs]
        exact List.getElem?_set_self (List.getElem?_eq_some_iff.1 hwrites.handle).1
      · rw [hb, List.length_drop] at hn
        have := hwrites.le
        omega
    · trivial
  · intro j share' raw' handle' written' m hj hlast' _ h
    have hm := hne (ne_of_getLast? hj hlast' hlast) h.name
    have hhandle : handle ≠ handle' := by
      rintro rfl
      exact hm (congrArg Prod.fst (Option.some.inj (h.handle.symm.trans hwrites.handle)))
    refine ⟨hfiles ▸ h.name, ?_, (hdata_ne hm).trans h.data, h.le⟩
    rw [hfs]
    exact (List.getElem?_set_ne hhandle).trans h.handle
  · intro id m h
    rw [hfiles] at h
    rw [hdata_ne (hne (tmpPath_ne_sharePath st share.shareId id).symm h)]
    exact hinv.complete h
  · unfold FileSystem.Separate
    rw [hfiles]
    exact hinv.separate
  · intro id b' hevent
    cases hevent

theorem Inv.rename (hinv : Inv d st q)
    {r : Res (.fs (.rename (st.tmpPath share.shareId) (st.sharePath share.shareId)))}
    (htask : q.tasks[i]? = some (call, left))
    (hwork : Working d st q i (.writing share raw handle written))
    (hlast : (creators q.log (st.tmpPath share.shareId)).getLast? = some i)
    (hwrites : Writes st q.shared share raw handle written inode) (hall : raw.length ≤ written) :
    Advances d st q i .ended (acted q i call left'
      ⟨.fs (.rename (st.tmpPath share.shareId) (st.sharePath share.shareId)), r⟩
      (q.shared.move (st.tmpPath share.shareId) (st.sharePath share.shareId))) := by
  have hroot := root_prefix_tmpPath st share.shareId
  obtain ⟨⟨hput, hraw⟩, -⟩ := hwork
  refine hinv.act htask trivial ?_ ?_ (hinv.separate.move hroot hwrites.name) ?_
  · intro j share' raw' handle' written' m hj hlast' _ h
    have hpath := ne_of_getLast? hj hlast' hlast
    refine ⟨?_, ?_, ?_, h.le⟩
    · rw [lookup_move hwrites.name, if_neg (tmpPath_ne_sharePath st _ _), if_neg hpath]
      exact h.name
    · rw [handles_move]
      exact h.handle
    · rw [data_move]
      exact h.data
  · intro id m h
    rw [lookup_move hwrites.name] at h
    rw [data_move]
    by_cases hid : st.sharePath id = st.sharePath share.shareId
    · rw [if_pos hid] at h
      cases h
      rw [hwrites.data, List.take_of_length_le hall]
      exact ⟨i, share, hput, (sharePath_inj hid).symm, hraw⟩
    · rw [if_neg hid, if_neg (tmpPath_ne_sharePath st share.shareId id).symm] at h
      exact hinv.complete h
  · intro id b hevent
    cases hevent

end Put

theorem Inv.remove (hinv : Inv d st q) {r : Res (.fs (.removeFile (st.sharePath id)))}
    (htask : q.tasks[i]? = some (call, left)) :
    Advances d st q i .ended (acted q i call left' ⟨.fs (.removeFile (st.sharePath id)), r⟩
      (q.shared.unlink (st.sharePath id))) := by
  refine hinv.act htask trivial ?_ ?_ (hinv.separate.unlink _) ?_
  · intro j share raw handle written m _ _ _ h
    refine ⟨?_, h.handle, h.data, h.le⟩
    rw [lookup_unlink, if_neg (tmpPath_ne_sharePath st _ _)]
    exact h.name
  · intro id' m h
    rw [lookup_unlink] at h
    split_ifs at h
    exact hinv.complete h
  · intro id' b hevent
    cases hevent

end Invariant

/-! ## Runs -/

section Runs

variable {d : Deps} {st : LocalFsShareStore} {fs : FileSystem} {p : StorePool}
  {moves : List (Move Call Answer)}

/-- **The invariant holds after every run in which the calls are exclusive.** -/
theorem inv_run (hfresh : st.Fresh fs)
    (hrun : Pool.run perform (localFsStore d st).call (Pool.start fs) moves = some p)
    (hexclusive : Exclusive p.log) : Inv d st p := by
  refine Pool.run_phases (T := Working d st) call_keeps (inv_start hfresh) ?_ ?_ hrun
  · rintro q q' call rfl hinv
    exact ⟨hinv.spawn, trivial, fun _ _ => Working.spawn⟩
  intro q i call op k a r t l l' hstep htask hperform hnext hinv hwork
  have hlog := hstep.log_prefix hrun
  have hcall : Called q i call := ⟨_, htask⟩
  cases hnext with
  | dirs =>
    rcases perform_createDirAll_cases hperform with rfl | rfl
    · exact hinv.frame htask rfl rfl rfl trivial (by rintro _ _ ⟨⟩)
    · exact hinv.frame htask rfl rfl rfl trivial (by rintro _ _ ⟨⟩)
  | sealed hraw =>
    cases hperform
    exact hinv.frame htask rfl rfl rfl ⟨hcall.acted htask, hraw⟩ (by rintro _ _ ⟨⟩)
  | notSealed =>
    cases hperform
    exact hinv.frame htask rfl rfl rfl trivial (by rintro _ _ ⟨⟩)
  | create =>
    rcases perform_create_cases hperform with ⟨⟨e, he⟩, -⟩ | ⟨rfl, hr⟩
    · cases he
    · cases hr.resolve_right (by rintro ⟨e, ⟨⟩⟩)
      exact hinv.create htask (.inr ⟨_, rfl, hwork⟩)
  | notCreated =>
    rcases perform_create_cases hperform with ⟨-, rfl⟩ | ⟨rfl, -⟩
    · exact hinv.frame htask rfl rfl rfl trivial (by rintro _ _ ⟨⟩)
    · exact hinv.create htask (.inl rfl)
  | write =>
    have hlast := hexclusive.last hlog rfl hwork.2.1
    obtain ⟨inode, hwrites⟩ := hwork.2.2 hlast
    rcases perform_write_cases hwrites.handle hperform with
      ⟨⟨e, he⟩, -⟩ | ⟨n, hn, hr, hfs⟩
    · cases he
    · cases hr.resolve_right (by rintro ⟨e, ⟨⟩⟩)
      exact hinv.write htask hwork hlast hwrites rfl hn hfs (.inl rfl)
  | notWritten =>
    have hlast := hexclusive.last hlog rfl hwork.2.1
    obtain ⟨inode, hwrites⟩ := hwork.2.2 hlast
    rcases perform_write_cases hwrites.handle hperform with ⟨-, rfl⟩ | ⟨n, hn, -, hfs⟩
    · exact hinv.frame htask rfl rfl rfl trivial (by rintro _ _ ⟨⟩)
    · exact hinv.write htask hwork hlast hwrites rfl hn hfs (.inr rfl)
  | flush =>
    obtain rfl := perform_flush hperform
    exact hinv.frame htask rfl rfl rfl (hwork.stay htask rfl) (by rintro _ _ ⟨⟩)
  | sync =>
    obtain rfl := perform_syncAll hperform
    exact hinv.frame htask rfl rfl rfl (hwork.stay htask rfl) (by rintro _ _ ⟨⟩)
  | rename hall =>
    have hlast := hexclusive.last hlog rfl hwork.2.1
    obtain ⟨inode, hwrites⟩ := hwork.2.2 hlast
    rcases perform_rename_cases hperform with rfl | rfl
    · exact hinv.frame htask rfl rfl rfl trivial (by rintro _ _ ⟨⟩)
    · exact hinv.rename htask hwork hlast hwrites hall
  | read =>
    obtain ⟨rfl, hcontent⟩ := perform_read_cases hperform
    refine hinv.frame htask rfl rfl rfl trivial ?_
    intro id' b hevent
    obtain ⟨hop, hr⟩ := Sigma.mk.inj_iff.1 hevent
    obtain rfl := sharePath_inj (FileSystem.Op.read.inj (Op.fs.inj hop))
    obtain ⟨inode, hlookup, rfl⟩ := Option.map_eq_some_iff.1 (hcontent b (eq_of_heq hr))
    exact ⟨hcall, hinv.complete hlookup⟩
  | remove =>
    rcases perform_removeFile_cases hperform with rfl | rfl
    · exact hinv.frame htask rfl rfl rfl trivial (by rintro _ _ ⟨⟩)
    · exact hinv.remove htask
  | readDir =>
    obtain rfl := perform_readDir hperform
    exact hinv.frame htask rfl rfl rfl trivial (by rintro _ _ ⟨⟩)

theorem readShare_of_sealing (haead : d.aead.Inverts) (hshares : d.shares.RoundTrips)
    {share : StoredShare} {raw : Bytes} (h : Sealing d st share raw) :
    st.readShare d share.shareId raw = .ok share := by
  obtain ⟨plaintext, nonce, hencode, hseal⟩ := h
  obtain ⟨plaintext', raw', hencode', hseal', hread⟩ : ∃ plaintext' raw',
      d.shares.encode share = .ok plaintext' ∧ st.sealWith d nonce plaintext' = .ok raw' ∧
        st.readShare d share.shareId raw' = .ok share := readShare_seal haead hshares share nonce
  cases hencode'.symm.trans hencode
  cases hseal'.symm.trans hseal
  exact hread

theorem get_returned {tr : List (Prog.Event Op Res)} {id : ShareId} {b : Bytes}
    {left : Prog Op Res (Reply ShareStoreError)}
    (h : Prog.After ((localFsStore d st).call (.get id)) tr left)
    (hread : ⟨.fs (.read (st.sharePath id)), (Except.ok b : Except IoError Bytes)⟩ ∈ tr) :
    left = .ret (.share (st.readShare d id b)) := by
  obtain ⟨rfl, -⟩ | ⟨r, tr', rfl, hrest⟩ := Prog.after_act_iff.1 h
  · cases hread
  · cases r with
    | ok raw =>
      obtain ⟨rfl, rfl⟩ := hrest.of_ret
      cases List.mem_singleton.1 hread
      rfl
    | error e =>
      have hnil : tr' = [] := by
        cases e with
        | notFound => exact hrest.of_ret.1
        | other text => exact hrest.of_ret.1
      subst hnil
      cases List.mem_singleton.1 hread

/-- **A `get` that finds the file returns a complete share that was put**, as long as a `put` that
writes or renames its temporary file created it last. -/
theorem get_complete_of_exclusive (d : Deps) (st : LocalFsShareStore) (haead : d.aead.Inverts)
    (hshares : d.shares.RoundTrips) (fs : FileSystem) (hfresh : st.Fresh fs)
    (moves : List (Move Call Answer)) (p : StorePool)
    (hrun : Pool.run perform (localFsStore d st).call (Pool.start fs) moves = some p)
    (hexclusive : Exclusive p.log) (i : Nat) (id : ShareId) (b : Bytes)
    (hfound : (i, ⟨.fs (.read (st.sharePath id)), (Except.ok b : Except IoError Bytes)⟩) ∈ p.log) :
    ∃ j share, Called p j (.put share) ∧ share.shareId = id ∧
      p.tasks[i]? = some (.get id, .ret (.share (.ok share))) := by
  have hinv := inv_run hfresh hrun hexclusive
  obtain ⟨⟨left, hget⟩, j, share, hput, rfl, hraw⟩ := hinv.read hfound id b rfl
  have hleft := get_returned (Pool.run_after hrun hget) (Pool.mem_trace hfound)
  rw [readShare_of_sealing haead hshares hraw] at hleft
  exact ⟨j, share, hput, rfl, hleft ▸ hget⟩

end Runs

namespace SampleWrites

open Sample

/-- The cipher and the codec. -/
def deps : Deps := ⟨aead, shares⟩

/-- The complete file. -/
def file : Bytes := fileMagic ++ nonce.bytes ++ ciphertext

/-- Nothing fails, and a `write` takes so many bytes. -/
def taking (written : Nat) : Answer := ⟨⟨none, false, written, []⟩, nonce⟩

/-- The directories, the nonce, `create`, and a part of the file. -/
def halfPut (task : Nat) : List (Move Call Answer) :=
  List.replicate 4 (.act task (taking 100))

/-- The directories, the nonce, `create`, the whole file, `flush` and `sync_all`. -/
def almostPut (task : Nat) : List (Move Call Answer) :=
  List.replicate 6 (.act task (taking file.length))

/-- Two `put`s of a share, and a `get`. -/
def calls : List (Move Call Answer) :=
  [.spawn (.put share), .spawn (.put share), .spawn (.get share.shareId)]

/-- The first `put` crashes while it writes, the second one ends, and the file is read. -/
def crashed : List (Move Call Answer) :=
  calls ++ halfPut 0 ++ almostPut 1 ++ [.act 1 (taking 0), .act 2 (taking 0)]

/-- The second `put` creates the temporary file when the first one is about to rename it. -/
def raced : List (Move Call Answer) :=
  calls ++ almostPut 0 ++ List.replicate 3 (.act 1 (taking 0)) ++
    [.act 0 (taking 0), .act 2 (taking 0)]

/-- Where the moves lead. -/
def outcome (moves : List (Move Call Answer)) : Option StorePool :=
  Pool.run perform (localFsStore deps onDisk).call (Pool.start .empty) moves

/-- What a call returned. -/
def reply : Call × Prog Op Res (Reply ShareStoreError) → Option (Reply ShareStoreError)
  | (_, .ret r) => some r
  | _ => none

/-- The bytes that an event finds under the path. -/
def found (path : Path) : Prog.Event Op Res → Option Bytes
  | ⟨.fs (.read path'), .ok b⟩ => if path' = path then some b else none
  | _ => none

theorem eq_of_found {x : Prog.Event Op Res} {b : Bytes} (h : found path x = some b) :
    x = ⟨.fs (.read path), (Except.ok b : Except IoError Bytes)⟩ := by
  unfold found at h
  split at h
  · split_ifs at h with hpath
    cases h
    subst hpath
    rfl
  · cases h

/-- The file of the share was read by the third call, which replied so. -/
def reads (b : Bytes) (r : Reply ShareStoreError) (p : StorePool) : Bool :=
  (p.log.any fun x => x.1 = 2 ∧ found (onDisk.sharePath share.shareId) x.2 = some b) &&
    decide ((p.tasks[2]?).bind reply = some r)

theorem of_reads {b : Bytes} {r : Reply ShareStoreError} {p : StorePool}
    (h : reads b r p = true) :
    (2, ⟨.fs (.read (onDisk.sharePath share.shareId)), (.ok b : Except IoError Bytes)⟩) ∈ p.log ∧
      (p.tasks[2]?).bind reply = some r := by
  obtain ⟨hlog, hreply⟩ := Bool.and_eq_true_iff.1 h
  obtain ⟨⟨i, x⟩, hmem, hx⟩ := List.any_eq_true.1 hlog
  obtain ⟨rfl, hfound⟩ := of_decide_eq_true hx
  obtain rfl : x = _ := eq_of_found hfound
  exact ⟨hmem, of_decide_eq_true hreply⟩

end SampleWrites

open SampleWrites Sample in
/-- A `put` that crashed while it wrote is in nobody's way. -/
theorem get_complete_after_crash : ∃ p, outcome crashed = some p ∧
    (p.tasks[2]?).bind reply = some (.share (.ok share)) ∧
    ∃ j share', Called p j (.put share') ∧ share'.shareId = share.shareId ∧
      p.tasks[2]? = some (.get share.shareId, .ret (.share (.ok share'))) := by
  have hfinal : (outcome crashed).any (fun p => reads file (.share (.ok share)) p &&
      decide (((p.log.filter fun x => changes x.2).map Prod.fst).Pairwise (· ≤ ·))) = true := by
    decide +kernel
  obtain ⟨p, hrun, hp⟩ := (Option.any_eq_true _ _).1 hfinal
  obtain ⟨hreads, hsorted⟩ := Bool.and_eq_true_iff.1 hp
  obtain ⟨hfound, hreply⟩ := of_reads hreads
  exact ⟨p, hrun, hreply, get_complete_of_exclusive deps onDisk aead_inverts shares_roundTrip .empty
    (fresh_empty onDisk) crashed p hrun (exclusive_of_sorted (of_decide_eq_true hsorted)) 2
    share.shareId file hfound⟩

open SampleWrites Sample in
/-- **While a second `put` has truncated the temporary file, the first one renames it, and a `get`
finds an empty file.** -/
theorem get_truncated : ∃ p, outcome raced = some p ∧
    (2, ⟨.fs (.read (onDisk.sharePath share.shareId)), (.ok [] : Except IoError Bytes)⟩) ∈ p.log ∧
    (p.tasks[2]?).bind reply = some (.share (.error (.crypto "share file truncated"))) := by
  have hfinal : (outcome raced).any
      (reads [] (.share (.error (.crypto "share file truncated")))) = true := by
    decide +kernel
  obtain ⟨p, hrun, hp⟩ := (Option.any_eq_true _ _).1 hfinal
  obtain ⟨hfound, hreply⟩ := of_reads hp
  exact ⟨p, hrun, hfound, hreply⟩

end QfcServerWallet.Stores.LocalFsShareStore
