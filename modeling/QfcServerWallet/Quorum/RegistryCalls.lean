import QfcServerWallet.Lib.Session
import QfcServerWallet.Quorum.Registry

/-!
# The approver registry, one call after another

`add_approver`, `revoke_approver` and `create_approver_set` of `MemoryApproverRegistry`
(`qfc-quorum/src/registry/memory.rs`), each run to its end before the next call comes in.

* `Created s create o s'`: everything `create_approver_set` can do, with the check that refuses it.
* `freshStep`: drawn ids are not in use, as the documentation of `ulid` has it. An id that is drawn
  twice would overwrite the first entry, since both maps are written with `HashMap::insert`.

Results: `runs_createApproverSet_iff` and **`registry_invariant`**.
-/

namespace QfcServerWallet.Quorum.MemoryApproverRegistry

open Lib

section Sessions

variable {s s' : State} {id : ApproverId} {set : ApproverSet} {r : Except RegistryError Unit}
  {wallets : List WalletId}

/-! ## Operations -/

/-- One lock section, draw or clock reading. -/
def step (s : State) (op : Op) (r : Res op) (s' : State) : Prop :=
  ∃ a, perform s op a = some (r, s')

/-- A drawn id is not in use. -/
def Fresh (s : State) : (op : Op) → Res op → Prop
  | .newApproverId, (id : ApproverId) => s.approvers id = none
  | .newApproverSetId, (id : ApproverSetId) => s.getSet id = none
  | _, _ => True

/-- A step that draws fresh ids. -/
def freshStep (s : State) (op : Op) (r : Res op) (s' : State) : Prop :=
  step s op r s' ∧ Fresh s op r

theorem step_newApproverId_iff : step s .newApproverId id s' ↔ s' = s := by
  constructor
  · rintro ⟨a, h⟩
    cases a <;> cases h
    rfl
  · rintro rfl
    exact ⟨.approverId id, rfl⟩

theorem step_newApproverSetId_iff {id : ApproverSetId} :
    step s .newApproverSetId id s' ↔ s' = s := by
  constructor
  · rintro ⟨a, h⟩
    cases a <;> cases h
    rfl
  · rintro rfl
    exact ⟨.approverSetId id, rfl⟩

theorem step_now_iff {t : Int64} : step s .now t s' ↔ s' = s := by
  constructor
  · rintro ⟨a, h⟩
    cases a <;> cases h
    rfl
  · rintro rfl
    exact ⟨.time t, rfl⟩

theorem step_insertApprover_iff {record : ApproverRecord} {r : Unit} :
    step s (.insertApprover record) r s' ↔ s' = s.putApprover record := by
  constructor
  · rintro ⟨a, h⟩
    cases h
    rfl
  · rintro rfl
    exact ⟨.unit, rfl⟩

theorem step_insertSet_iff {r : Unit} :
    step s (.insertSet set) r s' ↔ s' = s.putSet set := by
  constructor
  · rintro ⟨a, h⟩
    cases h
    rfl
  · rintro rfl
    exact ⟨.unit, rfl⟩

theorem step_resolveMembers_iff {members : List ApproverId}
    {r : Except RegistryError (List WalletId)} :
    step s (.resolveMembers members) r s' ↔
      r = Quorum.resolveMembers s.approvers members ∧ s' = s := by
  constructor
  · rintro ⟨a, h⟩
    cases h
    exact ⟨rfl, rfl⟩
  · rintro ⟨rfl, rfl⟩
    exact ⟨.unit, rfl⟩

theorem step_checkNesting_iff :
    step s (.checkNesting wallets) r s' ↔
      (∃ order, order.Perm s.sets ∧ checkNesting s.approvers order wallets = some r) ∧
        s' = s := by
  constructor
  · rintro ⟨a, h⟩
    cases a with
    | order sets =>
      simp only [perform] at h
      split_ifs at h with hperm
      split at h
      · next hcheck =>
        cases h
        exact ⟨⟨sets, List.isPerm_iff.1 hperm, hcheck⟩, rfl⟩
      · cases h
    | unit | approverId | approverSetId | time => cases h
  · rintro ⟨⟨order, hperm, hcheck⟩, rfl⟩
    refine ⟨.order order, ?_⟩
    simp only [perform, List.isPerm_iff.2 hperm, if_true, hcheck]

theorem step_revoke_iff :
    step s (.revoke id) r s' ↔
      (s.approvers id = none ∧ r = .error (.approverNotFound id) ∧ s' = s) ∨
      ∃ rec, s.approvers id = some rec ∧ r = .ok () ∧ s' = { s with
        approvers := Function.update s.approvers id (some { rec with status := .revoked }) } := by
  constructor
  · rintro ⟨a, h⟩
    simp only [perform] at h
    split at h
    · next hnone =>
      cases h
      exact .inl ⟨hnone, rfl, rfl⟩
    · next rec hrec =>
      cases h
      exact .inr ⟨rec, hrec, rfl, rfl⟩
  · rintro (⟨hnone, rfl, rfl⟩ | ⟨rec, hrec, rfl, rfl⟩)
    · exact ⟨.unit, by simp only [perform, hnone]⟩
    · exact ⟨.unit, by simp only [perform, hrec]⟩

/-! ## Calls -/

/-- Everything a creation can do. -/
inductive Created (s : State) (create : ApproverSetCreate) :
    Except RegistryError ApproverSet → State → Prop
  | badShape {e : RegistryError} : validateSetShape create = .error e →
      Created s create (.error e) s
  | badMember {e : RegistryError} : validateSetShape create = .ok () →
      resolveMembers s.approvers create.members = .error e → Created s create (.error e) s
  | badNesting {e : RegistryError} {wallets : List WalletId} {order : List ApproverSet} :
      validateSetShape create = .ok () →
      resolveMembers s.approvers create.members = .ok wallets → order.Perm s.sets →
      checkNesting s.approvers order wallets = some (.error e) → Created s create (.error e) s
  | stored {wallets : List WalletId} {order : List ApproverSet} (id : ApproverSetId) (now : Int64) :
      validateSetShape create = .ok () →
      resolveMembers s.approvers create.members = .ok wallets → order.Perm s.sets →
      checkNesting s.approvers order wallets = some (.ok ()) →
      Created s create (.ok (newSet create id now)) (s.putSet (newSet create id now))

section Calls

variable {ok : State → (op : Op) → Res op → Prop} {create : ApproverSetCreate}
  {o : Except RegistryError ApproverSet}

theorem runs_addApprover {create : ApproverCreate} {o : Except RegistryError ApproverRecord}
    (h : (addApprover create).Runs (fun s op r s' => step s op r s' ∧ ok s op r) s o s') :
    ∃ id now, ok s .newApproverId id ∧ o = .ok (newRecord create id now) ∧
      s' = s.putApprover (newRecord create id now) := by
  obtain ⟨id, s₁, ⟨hid, hok⟩, h⟩ := Prog.runs_act_iff.1 h
  obtain ⟨now, s₂, ⟨hnow, -⟩, h⟩ := Prog.runs_act_iff.1 h
  obtain ⟨_, s₃, ⟨hinsert, -⟩, h⟩ := Prog.runs_act_iff.1 h
  obtain rfl := step_newApproverId_iff.1 hid
  obtain rfl := step_now_iff.1 hnow
  obtain rfl := step_insertApprover_iff.1 hinsert
  obtain ⟨rfl, rfl⟩ := Prog.runs_ret_iff.1 h
  exact ⟨id, now, hok, rfl, rfl⟩

theorem runs_storeSet
    (h : (storeSet create).Runs (fun s op r s' => step s op r s' ∧ ok s op r) s o s') :
    ∃ id now, ok s .newApproverSetId id ∧ o = .ok (newSet create id now) ∧
      s' = s.putSet (newSet create id now) := by
  obtain ⟨id, s₁, ⟨hid, hok⟩, h⟩ := Prog.runs_act_iff.1 h
  obtain ⟨now, s₂, ⟨hnow, -⟩, h⟩ := Prog.runs_act_iff.1 h
  obtain ⟨_, s₃, ⟨hinsert, -⟩, h⟩ := Prog.runs_act_iff.1 h
  obtain rfl := step_newApproverSetId_iff.1 hid
  obtain rfl := step_now_iff.1 hnow
  obtain rfl := step_insertSet_iff.1 hinsert
  obtain ⟨rfl, rfl⟩ := Prog.runs_ret_iff.1 h
  exact ⟨id, now, hok, rfl, rfl⟩

theorem runs_createApproverSet
    (h : (createApproverSet create).Runs (fun s op r s' => step s op r s' ∧ ok s op r) s o s') :
    Created s create o s' ∧ ∀ set, o = .ok set → ok s .newApproverSetId set.id := by
  unfold createApproverSet at h
  cases hshape : validateSetShape create with
  | error e =>
    simp only [hshape] at h
    obtain ⟨rfl, rfl⟩ := Prog.runs_ret_iff.1 h
    exact ⟨.badShape hshape, nofun⟩
  | ok u =>
    simp only [hshape] at h
    obtain ⟨r, s₁, ⟨hresolve, -⟩, h⟩ := Prog.runs_act_iff.1 h
    obtain ⟨hr, rfl⟩ := step_resolveMembers_iff.1 hresolve
    cases r with
    | error e =>
      obtain ⟨rfl, rfl⟩ := Prog.runs_ret_iff.1 h
      exact ⟨.badMember hshape hr.symm, nofun⟩
    | ok wallets =>
      obtain ⟨r, s₂, ⟨hcheck, -⟩, h⟩ := Prog.runs_act_iff.1 h
      obtain ⟨⟨order, hperm, hwalk⟩, rfl⟩ := step_checkNesting_iff.1 hcheck
      cases r with
      | error e =>
        obtain ⟨rfl, rfl⟩ := Prog.runs_ret_iff.1 h
        exact ⟨.badNesting hshape hr.symm hperm hwalk, nofun⟩
      | ok u =>
        obtain ⟨id, now, hok, rfl, rfl⟩ := runs_storeSet h
        refine ⟨.stored id now hshape hr.symm hperm hwalk, fun set hset => ?_⟩
        cases hset
        exact hok

/-- **A creation does what `Created` says, and nothing else.** -/
theorem runs_createApproverSet_iff :
    (createApproverSet create).Runs step s o s' ↔ Created s create o s' := by
  constructor
  · intro h
    have hrun : (createApproverSet create).Runs (fun s op r s' => step s op r s' ∧ True) s o s' :=
      h.mono fun _ _ _ _ hstep => ⟨hstep, trivial⟩
    exact (runs_createApproverSet hrun).1
  · intro h
    have hresolve {wallets : Except RegistryError (List WalletId)}
        (hr : resolveMembers s.approvers create.members = wallets) :
        (membersResolved create.members).Runs step s wallets s :=
      Prog.runs_perform_iff.2 (step_resolveMembers_iff.2 ⟨hr.symm, rfl⟩)
    have hcheck {order : List ApproverSet} {wallets : List WalletId} {r : Except RegistryError Unit}
        (hperm : order.Perm s.sets) (hr : checkNesting s.approvers order wallets = some r) :
        (nestingChecked wallets).Runs step s r s :=
      Prog.runs_perform_iff.2 (step_checkNesting_iff.2 ⟨⟨order, hperm, hr⟩, rfl⟩)
    unfold createApproverSet
    cases h with
    | badShape hshape =>
      simp only [hshape]
      exact .ret _ _
    | badMember hshape hr =>
      simp only [hshape]
      exact Prog.runs_bind_iff.2 ⟨_, s, hresolve hr, .ret _ _⟩
    | badNesting hshape hr hperm hwalk =>
      simp only [hshape]
      refine Prog.runs_bind_iff.2 ⟨_, s, hresolve hr, ?_⟩
      exact Prog.runs_bind_iff.2 ⟨_, s, hcheck hperm hwalk, .ret _ _⟩
    | stored id now hshape hr hperm hwalk =>
      simp only [hshape]
      refine Prog.runs_bind_iff.2 ⟨_, s, hresolve hr, ?_⟩
      refine Prog.runs_bind_iff.2 ⟨_, s, hcheck hperm hwalk, ?_⟩
      refine .act (e := Op.newApproverSetId) (r := id) (step_newApproverSetId_iff.2 rfl) ?_
      refine .act (r := now) (step_now_iff.2 rfl) ?_
      exact .act (r := ()) (step_insertSet_iff.2 rfl)
        (.ret _ _)

end Calls

/-! ## Sets that passed the checks -/

theorem checkUnique_ok_iff {seen ms : List ApproverId} :
    checkUnique seen ms = .ok () ↔ ms.Nodup ∧ ∀ m ∈ ms, m ∉ seen := by
  induction ms generalizing seen with
  | nil => simp [checkUnique]
  | cons m ms ih =>
    rw [checkUnique]
    split
    · next hseen => simp [hseen]
    · next hnew =>
      rw [ih, List.nodup_cons]
      constructor
      · rintro ⟨hnodup, hall⟩
        refine ⟨⟨fun hm => hall m hm List.mem_cons_self, hnodup⟩, fun m' hm' => ?_⟩
        rcases List.mem_cons.1 hm' with rfl | hm'
        · exact hnew
        · exact fun hseen => hall m' hm' (List.mem_cons_of_mem _ hseen)
      · rintro ⟨⟨hm, hnodup⟩, hall⟩
        refine ⟨hnodup, fun m' hm' hseen => ?_⟩
        rcases List.mem_cons.1 hseen with rfl | hseen
        · exact hm hm'
        · exact hall m' (List.mem_cons_of_mem _ hm') hseen

/-- The members are distinct and as many as `total` says, and the threshold can be met. -/
structure WellFormed (set : ApproverSet) : Prop where
  distinct : set.members.Nodup
  count : set.members.length = set.total.toNat
  positive : 1 ≤ set.threshold.toNat
  reachable : set.threshold.toNat ≤ set.total.toNat

theorem wellFormed_newSet {create : ApproverSetCreate} (h : validateSetShape create = .ok ())
    (id : ApproverSetId) (now : Int64) : WellFormed (newSet create id now) := by
  unfold validateSetShape at h
  split_ifs at h with hthreshold hcount
  obtain ⟨hzero, hle⟩ := not_or.1 hthreshold
  refine ⟨(checkUnique_ok_iff.1 h).1, not_not.1 hcount, ?_, ?_⟩
  · exact Nat.one_le_iff_ne_zero.2 fun hnat => hzero (UInt8.toNat_inj.1 hnat)
  · exact Nat.not_lt.1 hle

/-- Registered and active. -/
def State.active (s : State) (id : ApproverId) : Prop :=
  ∃ rec, s.approvers id = some rec ∧ rec.status = .active

theorem active_of_resolveMembers {ms : List ApproverId}
    (h : resolveMembers s.approvers ms = .ok wallets) : ∀ m ∈ ms, s.active m := by
  induction ms generalizing wallets with
  | nil => exact nofun
  | cons m ms ih =>
    rw [resolveMembers] at h
    split at h
    · cases h
    next rec hrec =>
    split_ifs at h with hactive
    obtain ⟨rest, hrest, -⟩ := bind_eq_ok.1 h
    intro m' hm'
    rcases List.mem_cons.1 hm' with rfl | hm'
    · exact ⟨rec, hrec, not_not.1 hactive⟩
    · exact ih hrest m' hm'

/-! ## Sequences of calls -/

/-- The calls that write. -/
inductive Call where
  | addApprover (create : ApproverCreate)
  | revokeApprover (id : ApproverId)
  | createApproverSet (create : ApproverSetCreate)

/-- What they return. -/
inductive Reply where
  | added (r : Except RegistryError ApproverRecord)
  | revoked (r : Except RegistryError Unit)
  | created (r : Except RegistryError ApproverSet)

/-- The call returned `Err`. -/
def Reply.failed : Reply → Prop
  | added r => ∃ e, r = .error e
  | revoked r => ∃ e, r = .error e
  | created r => ∃ e, r = .error e

/-- A call as a program. -/
def call : Call → Prog Op Res Reply
  | .addApprover create => addApprover create >>= fun r => .ret (.added r)
  | .revokeApprover id => revokeApprover id >>= fun r => .ret (.revoked r)
  | .createApproverSet create => createApproverSet create >>= fun r => .ret (.created r)

/-- Everything a call with fresh ids can do. -/
inductive Effect (s : State) : Call → Reply → State → Prop
  | failed {c : Call} {o : Reply} : o.failed → Effect s c o s
  | added {create : ApproverCreate} {record : ApproverRecord} :
      s.approvers record.approverId = none →
      Effect s (.addApprover create) (.added (.ok record)) (s.putApprover record)
  | revoked {id : ApproverId} {rec : ApproverRecord} : s.approvers id = some rec →
      Effect s (.revokeApprover id) (.revoked (.ok ())) { s with
        approvers := Function.update s.approvers id (some { rec with status := .revoked }) }
  | created {create : ApproverSetCreate} {set : ApproverSet} : s.getSet set.id = none →
      WellFormed set → (∀ m ∈ set.members, s.active m) →
      Effect s (.createApproverSet create) (.created (.ok set)) (s.putSet set)

variable {c : Call} {o : Reply} {os : List Reply} {calls : List Call}

theorem Effect.of_runs (h : (call c).Runs freshStep s o s') : Effect s c o s' := by
  cases c with
  | addApprover create =>
    obtain ⟨r, s₁, hrun, hret⟩ := Prog.runs_bind_iff.1 h
    obtain ⟨rfl, rfl⟩ := Prog.runs_ret_iff.1 hret
    obtain ⟨id, now, hfresh, rfl, rfl⟩ := runs_addApprover hrun
    exact .added hfresh
  | revokeApprover id =>
    obtain ⟨r, s₁, hrun, hret⟩ := Prog.runs_bind_iff.1 h
    obtain ⟨rfl, rfl⟩ := Prog.runs_ret_iff.1 hret
    obtain ⟨-, rfl, rfl⟩ | ⟨rec, hrec, rfl, rfl⟩ :=
      step_revoke_iff.1 (Prog.runs_perform_iff.1 hrun).1
    · exact .failed ⟨_, rfl⟩
    · exact .revoked hrec
  | createApproverSet create =>
    obtain ⟨r, s₁, hrun, hret⟩ := Prog.runs_bind_iff.1 h
    obtain ⟨rfl, rfl⟩ := Prog.runs_ret_iff.1 hret
    obtain ⟨hcreated, hfresh⟩ := runs_createApproverSet hrun
    cases hcreated with
    | badShape | badMember | badNesting => exact .failed ⟨_, rfl⟩
    | stored id now hshape hmembers =>
      exact .created (hfresh _ rfl) (wellFormed_newSet hshape id now)
        (active_of_resolveMembers hmembers)

theorem Effect.eq_of_failed (h : Effect s c o s') (ho : o.failed) : s' = s := by
  cases h with
  | failed => rfl
  | added | revoked | created =>
    obtain ⟨e, he⟩ := ho
    cases he

/-! ### What a call keeps -/

theorem sets_putSet (h : s.getSet set.id = none) :
    (s.putSet set).sets = set :: s.sets := by
  have hnone := List.find?_eq_none.1 h
  rw [State.putSet, List.filter_eq_self.2]
  intro other hother
  simpa using hnone other hother

theorem getSet_putSet {other : ApproverSet} {id : ApproverSetId} (h : s.getSet set.id = none)
    (hid : s.getSet id = some other) :
    (s.putSet set).getSet id = some other := by
  have hne : set.id ≠ id := by
    rintro rfl
    rw [h] at hid
    cases hid
  rw [State.getSet_putSet, if_neg hne]
  exact hid

/-- Nobody is unregistered or reinstated, and no set is changed. -/
structure Keeps (s s' : State) : Prop where
  registered : ∀ id, s.approvers id ≠ none → s'.approvers id ≠ none
  revoked : ∀ id, s.revoked id = true → s'.revoked id = true
  sets : ∀ id set, s.getSet id = some set → s'.getSet id = some set

theorem Keeps.rfl : Keeps s s := ⟨fun _ h => h, fun _ h => h, fun _ _ h => h⟩

theorem Keeps.trans {s'' : State} (h : Keeps s s') (h' : Keeps s' s'') : Keeps s s'' where
  registered id hid := h'.registered id (h.registered id hid)
  revoked id hid := h'.revoked id (h.revoked id hid)
  sets id set hset := h'.sets id set (h.sets id set hset)

theorem update_ne_none {approvers : Approvers} {x : ApproverId} (h : approvers id ≠ none)
    (rec : ApproverRecord) : Function.update approvers x (some rec) id ≠ none := by
  by_cases heq : id = x
  · subst heq
    rw [Function.update_self]
    exact nofun
  · rwa [Function.update_of_ne heq]

theorem Effect.keeps (h : Effect s c o s') : Keeps s s' := by
  cases h with
  | failed => exact .rfl
  | @added create record hnew =>
    refine ⟨fun _ hid => update_ne_none hid record, fun id hid => ?_, fun _ _ h => h⟩
    rw [State.putApprover, State.revoked_update, if_neg]
    · exact hid
    · rintro rfl
      simp [State.revoked, hnew] at hid
  | @revoked id' rec hrec =>
    refine ⟨fun _ hid => update_ne_none hid _, fun id hid => ?_, fun _ _ h => h⟩
    rw [State.revoked_update]
    split
    · rfl
    · exact hid
  | created hnew => exact ⟨fun _ h => h, fun _ h => h, fun _ _ => getSet_putSet hnew⟩

theorem Keeps.of_session (h : Session freshStep call s calls os s') :
    Keeps s s' := by
  induction h with
  | nil => exact .rfl
  | cons hrun _ ih => exact (Effect.of_runs hrun).keeps.trans ih

/-- Sets are stored under their ids. -/
def Keyed (s : State) : Prop := ∀ set ∈ s.sets, s.getSet set.id = some set

theorem Effect.keyed (h : Effect s c o s') (hs : Keyed s) : Keyed s' := by
  cases h with
  | failed | added | revoked => exact hs
  | @created create new hnew =>
    intro set hset
    rw [sets_putSet hnew] at hset
    rcases List.mem_cons.1 hset with rfl | hset
    · rw [State.getSet, sets_putSet hnew]
      exact List.find?_cons_of_pos (decide_eq_true rfl)
    · exact getSet_putSet hnew (hs set hset)

/-! ### Where a set comes from -/

/-- One of the calls from `s` to `s'` created the set, and its members were active then. -/
def CreatedIn (s : State) (calls : List Call) (os : List Reply) (s' : State) (set : ApproverSet) :
    Prop :=
  ∃ calls₁ os₁ s₁ create calls₂ os₂, calls = calls₁ ++ .createApproverSet create :: calls₂ ∧
    os = os₁ ++ .created (.ok set) :: os₂ ∧ Session freshStep call s calls₁ os₁ s₁ ∧
    Session freshStep call s₁ (.createApproverSet create :: calls₂) (.created (.ok set) :: os₂) s' ∧
    ∀ m ∈ set.members, s₁.active m

theorem CreatedIn.cons {s₁ : State} (hrun : (call c).Runs freshStep s o s₁)
    (h : CreatedIn s₁ calls os s' set) :
    CreatedIn s (c :: calls) (o :: os) s' set := by
  obtain ⟨calls₁, os₁, s₂, create, calls₂, os₂, rfl, rfl, hbefore, hafter, hactive⟩ := h
  exact ⟨c :: calls₁, o :: os₁, s₂, create, calls₂, os₂, rfl, rfl, .cons hrun hbefore, hafter,
    hactive⟩

theorem createdIn_of_session (h : Session freshStep call s calls os s') (hset : set ∈ s'.sets) :
    set ∈ s.sets ∨ WellFormed set ∧ CreatedIn s calls os s' set := by
  induction h with
  | nil => exact .inl hset
  | @cons s s₁ s' c o calls os hrun hrest ih =>
    rcases ih hset with hset₁ | ⟨hwell, hcreated⟩
    · cases Effect.of_runs hrun with
      | failed | added | revoked => exact .inl hset₁
      | @created create new hnew hwell hactive =>
        rw [sets_putSet hnew] at hset₁
        rcases List.mem_cons.1 hset₁ with rfl | hset₁
        · exact .inr ⟨hwell, [], [], s, create, calls, os, rfl, rfl, .nil s, .cons hrun hrest,
            hactive⟩
        · exact .inl hset₁
    · exact .inr ⟨hwell, hcreated.cons hrun⟩

theorem CreatedIn.registered (h : CreatedIn s calls os s' set) :
    ∀ m ∈ set.members, s'.approvers m ≠ none := by
  obtain ⟨calls₁, os₁, s₁, create, calls₂, os₂, -, -, -, hafter, hactive⟩ := h
  intro m hm
  obtain ⟨rec, hrec, -⟩ := hactive m hm
  refine (Keeps.of_session hafter).registered m ?_
  rw [hrec]
  exact nofun

/-- **After every sequence of calls whose drawn ids are fresh: every stored set is well formed, its
members are registered and were active when it was created; whatever is called next, revoked
approvers stay revoked and sets stay as they are; and a call that fails leaves the registry as it
was.** -/
theorem registry_invariant {calls : List Call} {os : List Reply}
    (h : Session freshStep call empty calls os s) :
    (∀ set ∈ s.sets, WellFormed set ∧ (∀ m ∈ set.members, s.approvers m ≠ none) ∧
      CreatedIn empty calls os s set ∧ s.getSet set.id = some set) ∧
    (∀ calls' os' s', Session freshStep call s calls' os' s' →
      (∀ id, s.revoked id = true → s'.revoked id = true) ∧
        ∀ id set, s.getSet id = some set → s'.getSet id = some set) ∧
    ∀ c o s', (call c).Runs freshStep s o s' → o.failed → s' = s := by
  refine ⟨fun set hset => ?_, fun calls' os' s' h' => ?_, fun c o s' hrun ho => ?_⟩
  · obtain hnone | ⟨hwell, hcreated⟩ := createdIn_of_session h hset
    · cases hnone
    · refine ⟨hwell, hcreated.registered, hcreated, ?_⟩
      exact h.induction (fun _ _ _ _ hs hrun => (Effect.of_runs hrun).keyed hs) nofun
        set hset
  · have hkeeps := Keeps.of_session h'
    exact ⟨hkeeps.revoked, hkeeps.sets⟩
  · exact (Effect.of_runs hrun).eq_of_failed ho

end Sessions

namespace SampleRegistry

/-- An approver. -/
def approver : ApproverCreate where
  identity := .external "ops" [1, 2, 3] .ed25519
  label := "ops"
  ownerId := ⟨"acme"⟩
  webhookUrl := none

/-- Their id. -/
def approverId : ApproverId := ⟨7⟩

/-- A set of one. -/
def create : ApproverSetCreate where
  name := "treasury"
  ownerId := ⟨"acme"⟩
  members := [approverId]
  threshold := 1
  total := 1
  quorumTimeoutSecs := none

/-- Its id. -/
def setId : ApproverSetId := ⟨8⟩

/-- What is stored of the approver. -/
def record : ApproverRecord := newRecord approver approverId 1000

/-- What is stored of the set. -/
def set : ApproverSet := newSet create setId 1500

/-- An approver is added, put into a set and revoked. -/
def calls : List Call :=
  [.addApprover approver, .createApproverSet create, .revokeApprover approverId]

def replies : List Reply := [.added (.ok record), .created (.ok set), .revoked (.ok ())]

theorem session : ∃ s, Session freshStep call empty calls replies s ∧ set ∈ s.sets ∧
    s.revoked approverId = true := by
  have hid : freshStep empty .newApproverId approverId empty :=
    ⟨⟨.approverId approverId, rfl⟩, rfl⟩
  have hnow (s : State) (t : Int64) : freshStep s .now t s := ⟨⟨.time t, rfl⟩, trivial⟩
  have hadd : (call (.addApprover approver)).Runs freshStep empty (.added (.ok record))
      (empty.putApprover record) :=
    have hinsert : freshStep empty (.insertApprover record) () (empty.putApprover record) :=
      ⟨⟨.unit, rfl⟩, trivial⟩
    .act hid (.act (hnow _ 1000) (.act hinsert (.ret _ _)))
  let s := empty.putApprover record
  have hresolve : freshStep s (.resolveMembers [approverId]) (.ok []) s := ⟨⟨.unit, rfl⟩, trivial⟩
  have hcheck : freshStep s (.checkNesting []) (.ok ()) s := ⟨⟨.order [], rfl⟩, trivial⟩
  have hsetId : freshStep s .newApproverSetId setId s := ⟨⟨.approverSetId setId, rfl⟩, rfl⟩
  have hcreate : (call (.createApproverSet create)).Runs freshStep s (.created (.ok set))
      (s.putSet set) :=
    have hinsert : freshStep s (.insertSet set) () (s.putSet set) := ⟨⟨.unit, rfl⟩, trivial⟩
    .act hresolve (.act hcheck (.act hsetId (.act (hnow _ 1500) (.act hinsert (.ret _ _)))))
  have hrevoke : freshStep (s.putSet set) (.revoke approverId) (.ok ()) { s.putSet set with
      approvers := Function.update s.approvers approverId
        (some { record with status := .revoked }) } :=
    ⟨⟨.unit, rfl⟩, trivial⟩
  exact ⟨_, .cons hadd (.cons hcreate (.cons (.act hrevoke (.ret _ _)) (.nil _))),
    List.mem_cons_self, rfl⟩

end SampleRegistry

open SampleRegistry in
/-- A set whose member is revoked later. -/
theorem registry_invariant_revoked :
    ∃ s, Session freshStep call empty calls replies s ∧ s.revoked approverId = true ∧
      WellFormed set ∧ CreatedIn empty calls replies s set := by
  obtain ⟨s, hsession, hset, hrevoked⟩ := session
  obtain ⟨hsets, -, -⟩ := registry_invariant hsession
  obtain ⟨hwell, -, hcreated, -⟩ := hsets set hset
  exact ⟨s, hsession, hrevoked, hwell, hcreated⟩

end QfcServerWallet.Quorum.MemoryApproverRegistry
