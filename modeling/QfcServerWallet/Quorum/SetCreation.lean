import QfcServerWallet.Lib.Serial
import QfcServerWallet.Lib.Transactions
import QfcServerWallet.Quorum.Ledger
import QfcServerWallet.Quorum.PostgresRegistry
import Mathlib.Data.List.Permutation

/-!
# Concurrent creations of approver sets

`create_approver_set` of both backends (`qfc-quorum/src/registry`), in every interleaving of lock
sections or statements: whether the calls that succeeded could have been made one after another.

* A creation checks its nested wallets first and stores its set later. The memory backend holds no
  lock in between. The other one has a transaction open, but under READ COMMITTED this does not keep
  other creations from committing after the check.
* `Rechecked`: when a set is stored, its nesting check would pass again.
* `Stands`: the database holds the sets of the calls that succeeded. A call whose commit reports a
  failure may have stored its set as well, so it may hold more.
* A transaction is the task's own: what is committed are the rows that its task inserted
  (`CreationStep.commits`), and so all rows are rows of whole sets (`CreationStep.holds`). Both
  follow from the log alone (`Sound`, `Attributed`), whichever other calls are in it.

Results: **`creations_serialisable`** and `racing_creations_not_serial`.
-/

namespace QfcServerWallet.Quorum

open Lib

/-! ## The map -/

namespace MemoryApproverRegistry

/-- Calls of `create_approver_set` in progress. -/
abbrev Creations := Pool Op Res State ApproverSetCreate (Except RegistryError ApproverSet)

/-- The set that was stored. -/
def inserted : Prog.Event Op Res → Option ApproverSet
  | ⟨.insertSet set, _⟩ => some set
  | _ => none

/-- When a set is stored, its nesting check would pass again. -/
def Rechecked (q : Creations) (x : Prog.Event Op Res) : Prop :=
  ∀ set ∈ inserted x, checkNesting q.shared.approvers q.shared.sets
    (nestedWallets q.shared.approvers set.members) = some (.ok ())

instance (q : Creations) (x : Prog.Event Op Res) : Decidable (Rechecked q x) :=
  inferInstanceAs (Decidable (∀ set ∈ inserted x, _))

theorem trace_of_created {create : ApproverSetCreate} {set : ApproverSet}
    {tr : List (Prog.Event Op Res)} (h : (createApproverSet create).After tr (.ret (.ok set))) :
    ∃ wallets id now, validateSetShape create = .ok () ∧ set = newSet create id now ∧
      tr = [⟨.resolveMembers create.members, .ok wallets⟩, ⟨.checkNesting wallets, .ok ()⟩,
        ⟨.newApproverSetId, id⟩, ⟨.now, now⟩] ++ [⟨.insertSet (newSet create id now), ()⟩] := by
  unfold createApproverSet at h
  cases hshape : validateSetShape create with
  | error e =>
    simp only [hshape] at h
    cases h.of_ret.2
  | ok u =>
    simp only [hshape] at h
    obtain ⟨r, tr₁, rfl, h₁⟩ := h.ret_of_act
    match r, h₁ with
    | .error e, h₁ => cases h₁.of_ret.2
    | .ok wallets, h₁ =>
      obtain ⟨r, tr₂, rfl, h₂⟩ := h₁.ret_of_act
      match r, h₂ with
      | .error e, h₂ => cases h₂.of_ret.2
      | .ok (), h₂ =>
        obtain ⟨id, tr₃, rfl, h₃⟩ := h₂.ret_of_act
        obtain ⟨now, tr₄, rfl, h₄⟩ := h₃.ret_of_act
        obtain ⟨_, tr₅, rfl, h₅⟩ := h₄.ret_of_act
        obtain ⟨rfl, ⟨⟩⟩ := h₅.of_ret
        exact ⟨wallets, id, now, rfl, rfl, rfl⟩

/-- A creation changes nothing but the sets, and returns when it has stored its own. -/
def Stores : (op : Op) → (Res op → Prog Op Res (Except RegistryError ApproverSet)) → Prop
  | .insertSet set, k => ∀ r, k r = .ret (.ok set)
  | .insertApprover _, _ => False
  | .revoke _, _ => False
  | _, _ => True

theorem nodes_createApproverSet (create : ApproverSetCreate) :
    (createApproverSet create).Nodes Stores := by
  unfold createApproverSet
  split
  · trivial
  · refine ⟨trivial, fun r => ?_⟩
    match r with
    | .error e => trivial
    | .ok wallets =>
      refine ⟨trivial, fun r => ?_⟩
      match r with
      | .error e => trivial
      | .ok () =>
        exact ⟨trivial, fun id => ⟨trivial, fun now => ⟨fun _ => rfl, fun _ => trivial⟩⟩⟩

section Runs

variable {s₀ : State} {moves : List (Move ApproverSetCreate Ans)} {p q q' : Creations} {i : Nat}
  {x : Prog.Event Op Res}

/-- One step of a run of creations. -/
abbrev CreationStep (s₀ : State) (moves : List (Move ApproverSetCreate Ans)) (q : Creations)
    (i : Nat) (x : Prog.Event Op Res) (q' : Creations) : Prop :=
  Pool.StepOf perform createApproverSet (Pool.start s₀) moves q i x q'

theorem CreationStep.cases (h : CreationStep s₀ moves q i x q') :
    q'.shared = q.shared ∨ ∃ set call, x = ⟨.insertSet set, ()⟩ ∧
      q'.tasks[i]? = some (call, .ret (.ok set)) ∧ q'.shared = q.shared.putSet set := by
  obtain ⟨call, k, a, s, htask, hperform, rfl⟩ := h.performs
  obtain ⟨before, hq⟩ := h.reached
  have hstores : Stores x.1 k :=
    ((nodes_createApproverSet call).of_after (Pool.run_after hq htask)).1
  obtain ⟨op, r⟩ := x
  obtain rfl | ⟨record, rfl, -⟩ | ⟨set, rfl, rfl⟩ | ⟨id, rec, rfl, -⟩ := perform_cases hperform
  · exact .inl rfl
  · exact hstores.elim
  · refine .inr ⟨set, call, rfl, ?_, rfl⟩
    rw [List.getElem?_set_self (List.getElem?_eq_some_iff.1 htask).1, hstores r]
  · exact hstores.elim

/-- Approvers do not change, and members are resolved as at the start. -/
structure Unchanged (s₀ : State) (q : Creations) : Prop where
  approvers : q.shared.approvers = s₀.approvers
  resolved : ∀ {j members r}, (j, ⟨.resolveMembers members, r⟩) ∈ q.log →
    r = resolveMembers s₀.approvers members

theorem Unchanged.step (hq : Unchanged s₀ q) (h : CreationStep s₀ moves q i x q') :
    Unchanged s₀ q' := by
  have hshared : q'.shared.approvers = q.shared.approvers := by
    obtain heq | ⟨set, call, -, -, heq⟩ := h.cases
    · rw [heq]
    · rw [heq]
      rfl
  refine ⟨hshared.trans hq.approvers, fun {j members r} hj => ?_⟩
  obtain ⟨call, k, a, s, -, hperform, rfl⟩ := h.performs
  rcases mem_concat_iff.1 hj with hj | hj
  · exact hq.resolved hj
  · cases hj
    cases hperform
    rw [hq.approvers]

theorem Unchanged.of_run (h : Pool.run perform createApproverSet (Pool.start s₀) moves = some p) :
    Unchanged s₀ p :=
  Pool.run_induction_steps ⟨rfl, fun hj => absurd hj List.not_mem_nil⟩
    (fun _ _ hq => ⟨hq.approvers, hq.resolved⟩) (fun _ _ _ _ hstep hq => hq.step hstep) h

theorem CreationStep.runs (h : CreationStep s₀ moves q i x q') {create : ApproverSetCreate}
    {set : ApproverSet} (hret : q'.tasks[i]? = some (create, .ret (.ok set)))
    (hchecked : Rechecked q x) :
    (createApproverSet create).Runs step q.shared (.ok set) q'.shared := by
  obtain ⟨op, r⟩ := x
  have hafter := h.after hret
  obtain ⟨call, k, a, s, -, hperform, rfl⟩ := h.performs
  obtain ⟨before, hq⟩ := h.reached
  obtain ⟨wallets, id, now, hshape, rfl, htrace⟩ := trace_of_created hafter
  -- the last event stores the set, the first one resolved the members
  obtain ⟨hfront, hx⟩ := List.append_inj' htrace rfl
  cases List.singleton_inj.1 hx
  cases hperform
  have hresolve : .ok wallets = resolveMembers s₀.approvers create.members :=
    (Unchanged.of_run hq).resolved (Pool.mem_of_mem_trace (hfront ▸ List.mem_cons_self))
  rw [← (Unchanged.of_run hq).approvers] at hresolve
  obtain rfl := nestedWallets_of_resolveMembers hresolve.symm
  exact runs_createApproverSet_iff.2 (.stored id now hshape hresolve.symm (.refl _)
    (hchecked _ rfl))

/-- **The creations of a run could have been made one after another, in the order in which they
store their sets, if each set would still pass its nesting check when it is stored.** -/
theorem creations_serial (h : Pool.run perform createApproverSet (Pool.start s₀) moves = some p)
    (hchecked : ∀ q i x q', CreationStep s₀ moves q i x q' → Rechecked q x) :
    Pool.Serial step createApproverSet Except.isOk (fun _ => Eq) s₀ p := by
  refine Pool.serialises rfl (fun create => ?_) ?_ ?_ h
  · unfold createApproverSet
    split <;> rfl
  · rintro q i x q' order t hstep rfl hquiet
    obtain heq | ⟨set, call, -, hret, -⟩ := CreationStep.cases hstep
    · exact heq
    · cases hquiet _ hret
  · rintro q i x q' order t create o hstep rfl hret hgood
    cases o with
    | error e => cases hgood
    | ok set => exact ⟨_, CreationStep.runs hstep hret (hchecked q i x q' hstep), rfl⟩

end Runs

end MemoryApproverRegistry

/-! ## The tables -/

namespace PostgresApproverRegistry

open MemoryApproverRegistry (newSet WellFormed wellFormed_newSet)

variable {d : Deps} {db db' : Db} {x : Prog.Event Op Res} {a : Ans}

/-! ### What one operation does -/

/-- The transaction that was opened. -/
def begun : Prog.Event Op Res → Option Nat
  | ⟨.begin, .ok tx⟩ => some tx
  | _ => none

/-- The row that was inserted, with its transaction. -/
def inserted : Prog.Event Op Res → Option (Nat × Row)
  | ⟨.insertSet tx row, .ok _⟩ => some (tx, .set row)
  | ⟨.insertMember tx row, .ok _⟩ => some (tx, .member row)
  | _ => none

/-- The transaction that was committed. -/
def committed : Prog.Event Op Res → Option Nat
  | ⟨.commit tx, .ok _⟩ => some tx
  | _ => none

/-- Everything an operation can do. -/
inductive Does (db : Db) (x : Prog.Event Op Res) : Db → Prop
  | nothing (gone : List Nat) : begun x = none → inserted x = none → Does db x (db.abort gone)
  | begin : begun x = some db.sets.next → inserted x = none →
      Does db x { db with sets := db.sets.begin.2 }
  | insert {tx : Nat} {row : Row} {sets : Table Row} : begun x = none →
      inserted x = some (tx, row) → tx ∈ db.sets.active →
      db.sets.insert clash tx row = .done sets → Does db x { db with sets }
  | commit {tx : Nat} {r : Except String Unit} : x = ⟨.commit tx, r⟩ →
      Does db x { db with sets := db.sets.commit tx }

theorem Does.same (hbegun : begun x = none) (hinserted : inserted x = none) : Does db x db := by
  have h : Does db x (db.abort []) := .nothing [] hbegun hinserted
  rwa [Db.abort, Table.abort_nil] at h

theorem Does.of_execute {op : Op} {r : Res op} (h : execute db op a = some (r, db')) :
    Does db ⟨op, r⟩ db' := by
  cases op with
  | begin =>
    simp only [execute] at h
    split at h
    · cases h
      exact .same rfl rfl
    · cases h
      exact .begin rfl rfl
  | selectApprover tx approverId =>
    obtain ⟨text, rfl, rfl⟩ | ⟨-, h⟩ := within_eq_some h
    · exact .nothing _ rfl rfl
    · cases h
      exact .same rfl rfl
  | scanSets tx =>
    obtain ⟨text, rfl, rfl⟩ | ⟨-, h⟩ := within_eq_some h
    · exact .nothing _ rfl rfl
    · split at h
      · cases h
        exact .same rfl rfl
      · cases h
  | selectSetMembers tx setId =>
    obtain ⟨text, rfl, rfl⟩ | ⟨-, h⟩ := within_eq_some h
    · exact .nothing _ rfl rfl
    · cases h
      exact .same rfl rfl
  | neededOrder needed =>
    simp only [execute] at h
    split at h
    · cases h
      exact .same rfl rfl
    · cases h
  | setsOrder sets =>
    simp only [execute] at h
    split at h
    · cases h
      exact .same rfl rfl
    · cases h
  | newApproverSetId | now =>
    cases h
    exact .same rfl rfl
  | insertSet tx row =>
    obtain ⟨text, rfl, rfl⟩ | ⟨htx, h⟩ := within_eq_some h
    · exact .nothing _ rfl rfl
    · obtain ⟨text, rfl, rfl⟩ | ⟨rfl, sets, hinsert, rfl⟩ := insertRow_cases h
      · exact .nothing _ rfl rfl
      · exact .insert rfl rfl htx hinsert
  | insertMember tx row =>
    obtain ⟨text, rfl, rfl⟩ | ⟨htx, h⟩ := within_eq_some h
    · exact .nothing _ rfl rfl
    · split at h
      · cases h
        exact .nothing _ rfl rfl
      · obtain ⟨text, rfl, rfl⟩ | ⟨rfl, sets, hinsert, rfl⟩ := insertRow_cases h
        · exact .nothing _ rfl rfl
        · exact .insert rfl rfl htx hinsert
  | commit tx =>
    simp only [execute] at h
    split at h
    · cases h
      split
      · exact .commit rfl
      · exact .nothing _ rfl rfl
    · split at h
      · cases h
        exact .commit rfl
      · cases h

theorem Does.approvers (h : Does db x db') : db'.approvers = db.approvers := by
  cases h <;> rfl

theorem Does.effect (h : Does db x db') : Table.Effect clash begun inserted db.sets x db'.sets := by
  cases h with
  | nothing gone hbegun hinserted => exact .abort gone hbegun hinserted
  | begin hbegun hinserted => exact .begin hbegun hinserted
  | insert hbegun hinserted htx hinsert => exact .insert hbegun hinserted htx hinsert
  | commit hx =>
    subst hx
    exact .commit _ rfl rfl

theorem Does.unique (h : Does db x db') (hunique : db.sets.Unique clash) :
    db'.sets.Unique clash := by
  cases h with
  | nothing gone => exact hunique.abort gone
  | begin => exact hunique
  | insert _ _ _ hinsert => exact hunique.insert clash_symm hinsert
  | commit => exact hunique.commit clash_symm _

/-! ### What a creation did before -/

/-- The operation reads. -/
def Reads : Op → Prop
  | .selectApprover _ _ | .scanSets _ | .selectSetMembers _ _ => True
  | .neededOrder _ | .setsOrder _ => True
  | _ => False

/-- The operation writes. -/
def Writes : Op → Prop
  | .insertSet _ _ | .insertMember _ _ | .commit _ => True
  | _ => False

theorem Reads.not_writes {op : Op} (h : Reads op) : ¬ Writes op := by
  cases op <;> first | exact h.elim | exact not_false

theorem writes_of_inserted {y : Nat × Row} (h : inserted x = some y) : Writes x.1 := by
  unfold inserted at h
  split at h
  · trivial
  · trivial
  · cases h

section Traces

variable {create : ApproverSetCreate} {tx : Nat} {tr : List (Prog.Event Op Res)}
  {q : Prog Op Res (Except RegistryError ApproverSet)}

theorem uses_loadMembers (ms : List ApproverId) (acc : Approvers) :
    (loadMembers d tx ms acc).run.Uses Reads := by
  induction ms generalizing acc with
  | nil => trivial
  | cons m ms ih =>
    exact .run_bind (.orThrow ⟨trivial, fun _ => trivial⟩) fun _ =>
      .run_bind trivial fun _ => ih _

theorem uses_loadSets (rows : List SetRow) (acc : List ApproverSet) :
    (loadSets d tx rows acc).run.Uses Reads := by
  induction rows generalizing acc with
  | nil => trivial
  | cons row rows ih =>
    exact .run_bind trivial fun _ =>
      .run_bind (.run_bind (.orThrow ⟨trivial, fun _ => trivial⟩) fun _ => trivial) fun _ =>
        .run_bind trivial fun _ => ih _

theorem uses_loadNeeded (ns : List ApproverId) (acc : Approvers) :
    (loadNeeded d tx ns acc).run.Uses Reads := by
  induction ns generalizing acc with
  | nil => trivial
  | cons n ns ih =>
    exact .run_bind (.orThrow ⟨trivial, fun _ => trivial⟩) fun _ =>
      .run_bind trivial fun _ => ih _

theorem uses_checkSet : (checkSet d create tx).run.Uses Reads :=
  .run_bind (uses_loadMembers _ _) fun _ =>
    .run_bind (.orThrow ⟨trivial, fun _ => trivial⟩) fun _ =>
      .run_bind (uses_loadSets _ _) fun _ =>
        .run_bind (.lift ⟨trivial, fun _ => trivial⟩) fun _ =>
          .run_bind (uses_loadNeeded _ _) fun _ =>
            .run_bind (.lift ⟨trivial, fun _ => trivial⟩) fun _ => trivial

theorem selected_of_loadMembers {ms : List ApproverId} {acc acc' : Approvers}
    (h : (loadMembers d tx ms acc).run.After tr (.ret (.ok acc'))) : ∀ m ∈ ms, ∃ row rec,
      ⟨.selectApprover tx m.toString, .ok row⟩ ∈ tr ∧
        readMember d m row = .ok rec := by
  induction ms generalizing tr acc with
  | nil => exact nofun
  | cons o ms ih =>
    obtain ⟨tr₁, rest, row, rfl, hselect, h₁⟩ := h.ok_of_bind
    obtain ⟨tr₂, rest', rec, rfl, hread, h₂⟩ := h₁.ok_of_bind
    obtain rfl := hselect.ok_of_orThrow.of_perform
    obtain ⟨rfl, hok⟩ := hread.of_ret
    intro m hm
    rcases List.mem_cons.1 hm with rfl | hm
    · exact ⟨row, rec, List.mem_append_left _ List.mem_cons_self, (Prog.ret.inj hok).symm⟩
    · obtain ⟨row', rec', hmem, hread'⟩ := ih h₂ m hm
      exact ⟨row', rec', List.mem_append_right _ hmem, hread'⟩

theorem inserted_of_insertMembers {setId : ApproverSetId} {pos : Nat} {ms : List ApproverId}
    (h : (insertMembers tx setId pos ms).run.After tr (.ret (.ok ()))) :
    tr.filterMap (Table.insertedIn inserted tx) = (memberRows setId pos ms).map .member := by
  induction ms generalizing tr pos with
  | nil =>
    obtain ⟨rfl, -⟩ := h.of_ret
    rfl
  | cons m ms ih =>
    obtain ⟨tr₁, rest, position, rfl, hposition, h₁⟩ := h.ok_of_bind
    obtain ⟨tr₂, rest', u, rfl, hinsert, h₂⟩ := h₁.ok_of_bind
    obtain ⟨rfl, hok⟩ := hposition.of_ret
    obtain rfl := hinsert.ok_of_orThrow.of_perform
    have hpos : positionColumn pos = .ok position := (Prog.ret.inj hok).symm
    rw [positionColumn] at hpos
    split at hpos
    · cases hpos
      rw [List.nil_append, List.filterMap_append, ih h₂, memberRows, List.map_cons]
      have hrow : Table.insertedIn inserted tx ⟨.insertMember tx ⟨setId.toString, m.toString,
          Int16.ofNat pos⟩, .ok u⟩ = some (.member ⟨setId.toString, m.toString,
            Int16.ofNat pos⟩) := if_pos rfl
      rw [List.filterMap_cons_some hrow]
      rfl
    · cases hpos

theorem filterMap_of_not_writes (h : ∀ x ∈ tr, ¬ Writes x.1) :
    tr.filterMap (Table.insertedIn inserted tx) = [] := by
  refine List.filterMap_eq_nil_iff.2 fun x hx => ?_
  cases hinserted : inserted x with
  | none => rw [Table.insertedIn, hinserted, Option.bind_none]
  | some y => exact absurd (writes_of_inserted hinserted) (h x hx)

theorem filterMap_of_uses {α : Type} {p q : Prog Op Res α} (hp : p.Uses fun op => ¬ Writes op)
    (h : p.After tr q) : tr.filterMap (Table.insertedIn inserted tx) = [] :=
  filterMap_of_not_writes fun _ hx => hp.allowed_of_mem h hx

/-- What a creation did before it writes. -/
structure Checked (d : Deps) (create : ApproverSetCreate) (tx : Nat)
    (tr : List (Prog.Event Op Res)) : Prop where
  shape : validateSetShape create = .ok ()
  begun : (⟨.begin, .ok tx⟩ : Prog.Event Op Res) ∈ tr
  selected : ∀ m ∈ create.members, ∃ row rec,
    (⟨.selectApprover tx m.toString, .ok row⟩ : Prog.Event Op Res) ∈ tr ∧
      readMember d m row = .ok rec
  inserted : ∀ tx', tr.filterMap (Table.insertedIn inserted tx') = []

theorem checked_of_writes {y : Prog.Event Op Res} {front back : List (Prog.Event Op Res)}
    (h : (createApproverSet d create).After (front ++ y :: back) q) (hy : Writes y.1) :
    ∃ front₁ front₂ tx id now, front = front₁ ++ front₂ ∧ Checked d create tx front₁ ∧
      (storeSet (newSet create id now) tx).run.After (front₂ ++ y :: back) q := by
  have hwrites : ¬ ¬ Writes y.1 := not_not.2 hy
  have hu₀ : (Prog.ofExcept (validateSetShape create) :
    ExceptT RegistryError (Prog Op Res) Unit).run.Uses fun op => ¬ Writes op := trivial
  obtain ⟨tr₀, rest₀, u₀, rfl, hshape, h₀⟩ := h.split_run_bind hu₀ hwrites
  have hu₁ : begin.Uses fun op => ¬ Writes op := ⟨not_false, fun _ => trivial⟩
  obtain ⟨tr₁, rest₁, tx, rfl, hbegin, h₁⟩ := h₀.split_run_bind hu₁.orThrow hwrites
  have hu₂ : (checkSet d create tx).run.Uses fun op => ¬ Writes op :=
    uses_checkSet.mono fun _ => Reads.not_writes
  obtain ⟨tr₂, rest₂, u₂, rfl, hcheck, h₂⟩ := h₁.split_run_bind hu₂ hwrites
  have hu₃ : newApproverSetId.Uses fun op => ¬ Writes op := ⟨not_false, fun _ => trivial⟩
  obtain ⟨tr₃, rest₃, id, rfl, hid, h₃⟩ := h₂.split_run_bind hu₃.lift hwrites
  have hu₄ : nowUnixMs.Uses fun op => ¬ Writes op := ⟨not_false, fun _ => trivial⟩
  obtain ⟨tr₄, rest₄, now, rfl, hnow, h₄⟩ := h₃.split_run_bind hu₄.lift hwrites
  refine ⟨tr₀ ++ (tr₁ ++ (tr₂ ++ (tr₃ ++ tr₄))), rest₄, tx, id, now, by simp, ?_, h₄⟩
  obtain ⟨rfl, hok⟩ := hshape.of_ret
  refine ⟨(Prog.ret.inj hok).symm, ?_, fun m hm => ?_, fun tx' => ?_⟩
  · rw [hbegin.ok_of_orThrow.of_perform]
    exact List.mem_cons_self
  · obtain ⟨front, back, acc, rfl, hload, -⟩ := hcheck.ok_of_bind
    obtain ⟨row, rec, hmem, hread⟩ := selected_of_loadMembers hload m hm
    exact ⟨row, rec, by simp [hmem], hread⟩
  · simp only [List.filterMap_append, List.filterMap_nil, filterMap_of_uses hu₁.orThrow hbegin,
      filterMap_of_uses hu₂ hcheck, filterMap_of_uses hu₃.lift hid,
      filterMap_of_uses hu₄.lift hnow, List.append_nil]

/-- Operations that write in the transaction. -/
def WritesIn (tx : Nat) : Op → Prop
  | .insertSet tx' _ | .insertMember tx' _ | .commit tx' => tx' = tx
  | _ => False

theorem uses_insertMembers (setId : ApproverSetId) (pos : Nat) (ms : List ApproverId) :
    (insertMembers tx setId pos ms).run.Uses fun
      | .insertMember tx' _ => tx' = tx
      | _ => False := by
  induction ms generalizing pos with
  | nil => trivial
  | cons m ms ih =>
    exact .run_bind trivial fun _ =>
      .run_bind (.orThrow ⟨rfl, fun _ => trivial⟩) fun _ => ih _

theorem uses_storeSet (set : ApproverSet) : (storeSet set tx).run.Uses (WritesIn tx) := by
  refine .run_bind (.orThrow ⟨rfl, fun _ => trivial⟩) fun _ => .run_bind ?_ fun _ =>
    .run_bind (.orThrow ⟨rfl, fun _ => trivial⟩) fun _ => trivial
  refine (uses_insertMembers _ _ _).mono fun op hop => ?_
  cases op with
  | insertMember => exact hop
  | _ => exact hop.elim

theorem begun_of_inserted {row : Row} (h : (createApproverSet d create).After tr q) (hx : x ∈ tr)
    (hinserted : inserted x = some (tx, row)) : ∃ y ∈ tr, begun y = some tx := by
  obtain ⟨front, back, rfl⟩ := List.append_of_mem hx
  obtain ⟨front₁, front₂, tx', id, now, rfl, hchecked, hstore⟩ :=
    checked_of_writes h (writes_of_inserted hinserted)
  have hin := (uses_storeSet _).allowed_of_mem hstore
    (List.mem_append_right _ List.mem_cons_self)
  obtain rfl : tx = tx' := by
    unfold inserted at hinserted
    split at hinserted
    · cases hinserted
      exact hin
    · cases hinserted
      exact hin
    · cases hinserted
  exact ⟨⟨.begin, .ok tx⟩, List.mem_append_left _ (List.mem_append_left _ hchecked.begun), rfl⟩

theorem inserted_of_commit {set : ApproverSet} {tx' : Nat} {r : Except String Unit}
    (h : (storeSet set tx).run.After (tr ++ [⟨.commit tx', r⟩]) q) :
    tx' = tx ∧ tr.filterMap (Table.insertedIn inserted tx) = setRows set ∧
      (r = .ok () → q = .ret (.ok set)) := by
  have hcommits : ¬ ¬ ∃ tx₀, (.commit tx' : Op) = .commit tx₀ := not_not.2 ⟨tx', rfl⟩
  have hu₁ : (insertSet tx (setRow set)).Uses fun op => ¬ ∃ tx₀, op = .commit tx₀ :=
    ⟨nofun, fun _ => trivial⟩
  obtain ⟨tr₁, rest₁, u₁, rfl, hset, h₁⟩ := h.split_run_bind hu₁.orThrow hcommits
  have hu₂ : (insertMembers tx set.id 0 set.members).run.Uses fun op => ¬ ∃ tx₀, op = .commit tx₀ :=
    (uses_insertMembers _ _ _).mono fun op hop ⟨tx₀, heq⟩ => by
      subst heq
      exact hop
  obtain ⟨tr₂, rest₂, u₂, rfl, hmembers, h₂⟩ := h₁.split_run_bind hu₂ hcommits
  -- nothing follows the commit
  obtain ⟨hnil, -⟩ | ⟨r', rest, hrest, hret⟩ :=
    Prog.after_act_iff.1 (show Prog.After (Prog.act (Op.commit tx) _) _ _ from h₂)
  · exact absurd hnil (by simp)
  have hback : rest = [] ∧ (r' = .ok () → q = .ret (.ok set)) := by
    cases r' with
    | ok u =>
      obtain ⟨hnil, hq⟩ := hret.of_ret
      exact ⟨hnil, fun _ => hq⟩
    | error e => exact ⟨hret.of_ret.1, nofun⟩
  obtain ⟨rfl, hq⟩ := hback
  obtain ⟨rfl, hevent⟩ := List.append_inj' (hrest.trans (List.nil_append _).symm) rfl
  cases List.singleton_inj.1 hevent
  refine ⟨rfl, ?_, hq⟩
  have hrow : Table.insertedIn inserted tx ⟨.insertSet tx (setRow set), .ok u₁⟩ =
    some (.set (setRow set)) := if_pos rfl
  rw [hset.ok_of_orThrow.of_perform, List.filterMap_append, List.filterMap_cons_some hrow,
    List.append_nil, inserted_of_insertMembers hmembers]
  rfl

theorem commit_of_created {set : ApproverSet}
    (h : (createApproverSet d create).After tr (.ret (.ok set))) :
    ∃ front tx, tr = front ++ [⟨.commit tx, .ok ()⟩] := by
  obtain ⟨tr₀, rest₀, u₀, rfl, -, h₀⟩ := h.ok_of_bind
  obtain ⟨tr₁, rest₁, tx, rfl, -, h₁⟩ := h₀.ok_of_bind
  obtain ⟨tr₂, rest₂, u₂, rfl, -, h₂⟩ := h₁.ok_of_bind
  obtain ⟨tr₃, rest₃, id, rfl, -, h₃⟩ := h₂.ok_of_bind
  obtain ⟨tr₄, rest₄, now, rfl, -, h₄⟩ := h₃.ok_of_bind
  obtain ⟨tr₅, rest₅, u₅, rfl, -, h₅⟩ := h₄.ok_of_bind
  obtain ⟨tr₆, rest₆, u₆, rfl, -, h₆⟩ := h₅.ok_of_bind
  obtain ⟨tr₇, rest₇, u₇, rfl, hcommit, h₇⟩ := h₆.ok_of_bind
  obtain ⟨rfl, -⟩ := h₇.of_ret
  obtain rfl := hcommit.ok_of_orThrow.of_perform
  exact ⟨tr₀ ++ (tr₁ ++ (tr₂ ++ (tr₃ ++ (tr₄ ++ (tr₅ ++ tr₆))))), tx, by simp⟩

end Traces

/-! ### What a log with creations leaves in the tables -/

section Logs

variable {log : Pool.Log Op Res} {t : Table Row} {sets : List ApproverSet} {i tx : Nat}
  {left : Prog Op Res (Except RegistryError ApproverSet)}

theorem Holds.pairwise {rows : List Row} (h : Holds sets rows) :
    rows.Pairwise fun x y => clash x y = none := by
  rw [h.rows]
  refine List.pairwise_flatMap.2 ⟨fun set hset => pairwise_setRows (h.wellFormed set hset), ?_⟩
  refine (List.pairwise_map.1 h.distinct).imp fun hne x hx y hy => clash_of_ne fun heq => hne ?_
  exact Ident.toString_inj ((setId_of_mem hx).symm.trans (heq.trans (setId_of_mem hy)))

theorem fresh_of_own {set : ApproverSet} (hunique : t.Unique clash) (hheld : Holds sets t.rows)
    (hown : t.own tx = setRows set) :
    set.id ∉ sets.map ApproverSet.id := by
  intro hmem
  obtain ⟨other, hother, hid⟩ := List.mem_map.1 hmem
  have hrows : Row.set (setRow other) ∈ t.rows := by
    rw [hheld.rows]
    exact List.mem_flatMap.2 ⟨other, hother, List.mem_cons_self⟩
  have hpending : Row.set (setRow set) ∈ t.pending.map Prod.snd := by
    obtain ⟨y, hy, hrow⟩ := List.mem_map.1
      (hown ▸ List.mem_cons_self : Row.set (setRow set) ∈ t.own tx)
    exact List.mem_map.2 ⟨y, List.mem_of_mem_filter hy, hrow⟩
  exact clash_ne_none hid ((List.pairwise_append.1 hunique).2.2 _ hrows _ hpending)

/-- The log says which rows are not committed yet, and no two rows clash. -/
structure Sound (log : Pool.Log Op Res) (t : Table Row) : Prop where
  tracks : Table.Tracks begun inserted log t
  unique : t.Unique clash

theorem Sound.abort (h : Sound log t) (gone : List Nat) : Sound log (t.abort gone) :=
  ⟨h.tracks.abort gone, h.unique.abort gone⟩

theorem Sound.step (h : Sound log db.sets) (hperform : perform db x.1 a = some (x.2, db')) :
    Sound (log ++ [(i, x)]) db'.sets := by
  have hdoes : Does (db.abort a.gone) x db' := .of_execute hperform
  exact ⟨(h.abort a.gone).tracks.concat hdoes.effect, hdoes.unique (h.abort a.gone).unique⟩

/-- What writes is a creation. -/
def Attributed (d : Deps) (log : Pool.Log Op Res) : Prop :=
  ∀ j, (∃ create left, (createApproverSet d create).After (Pool.trace log j) left) ∨
    ∀ x ∈ Pool.trace log j, ¬ Writes x.1

theorem Attributed.begun (h : Attributed d log) {row : Row} (hx : (i, x) ∈ log)
    (hinserted : inserted x = some (tx, row)) : ∃ y ∈ Pool.trace log i, begun y = some tx := by
  rcases h i with ⟨create, left, hafter⟩ | hquiet
  · exact begun_of_inserted hafter (Pool.mem_trace hx) hinserted
  · exact absurd (writes_of_inserted hinserted) (hquiet x (Pool.mem_trace hx))

theorem Sound.own_eq (h : Sound log t) (hattributed : Attributed d log) (htx : tx ∈ t.active)
    (hbegun : ⟨.begin, .ok tx⟩ ∈ Pool.trace log i) :
    t.own tx = (Pool.trace log i).filterMap (Table.insertedIn inserted tx) :=
  h.tracks.own_eq htx (fun hj hy => hattributed.begun hj hy) ⟨_, hbegun, rfl⟩

theorem Sound.own_of_commit (h : Sound log t) (hattributed : Attributed d log)
    {create : ApproverSetCreate} {r : Except String Unit}
    (hafter : (createApproverSet d create).After (Pool.trace log i ++ [⟨.commit tx, r⟩]) left) :
    ∃ front id now, Checked d create tx front ∧ front ⊆ Pool.trace log i ∧
      (tx ∈ t.active → t.own tx = setRows (newSet create id now)) ∧
      (r = .ok () → left = .ret (.ok (newSet create id now))) := by
  obtain ⟨front₁, front₂, tx', id, now, htrace, hchecked, hstore⟩ :=
    checked_of_writes hafter trivial
  obtain ⟨rfl, hrows, hret⟩ := inserted_of_commit hstore
  have hfront : front₁ ⊆ Pool.trace log i := htrace ▸ List.subset_append_left _ _
  refine ⟨front₁, id, now, hchecked, hfront, fun htx => ?_, hret⟩
  rw [h.own_eq hattributed htx (hfront hchecked.begun), htrace, List.filterMap_append,
    hchecked.inserted, List.nil_append, hrows]

theorem rows_of_commit (h : perform db (.commit tx) a = some (.ok (), db')) :
    tx ∈ db.sets.active ∧ db'.sets.rows = db.sets.rows ++ db.sets.own tx := by
  simp only [perform, execute] at h
  split at h
  · cases h
  · split_ifs at h with htx
    cases h
    obtain ⟨hactive, hgone⟩ := List.mem_filter.1 htx
    refine ⟨hactive, ?_⟩
    rw [← Table.own_abort (of_decide_eq_true hgone)]
    rfl

theorem Sound.holds_of_commit (h : Sound log db.sets) {set : ApproverSet} (hwell : WellFormed set)
    (hown : tx ∈ db.sets.active → db.sets.own tx = setRows set)
    (hperform : perform db (.commit tx) a = some (.ok (), db')) (hheld : Holds sets db.sets.rows) :
    Holds (sets ++ [set]) db'.sets.rows := by
  obtain ⟨htx, hrows⟩ := rows_of_commit hperform
  rw [hrows, hown htx]
  exact hheld.concat hwell (fresh_of_own h.unique hheld (hown htx))

theorem Sound.holds_of_perform (h : Sound log db.sets)
    (hcommits : ∀ tx r, x = ⟨.commit tx, r⟩ →
      ∃ set, WellFormed set ∧ (tx ∈ db.sets.active → db.sets.own tx = setRows set))
    (hperform : perform db x.1 a = some (x.2, db')) (hheld : Holds sets db.sets.rows) :
    ∃ extra, Holds (sets ++ extra) db'.sets.rows := by
  have hdoes : Does (db.abort a.gone) x db' := .of_execute hperform
  have hsame : db'.sets.rows = db.sets.rows → ∃ extra, Holds (sets ++ extra) db'.sets.rows := by
    intro heq
    rw [heq]
    exact ⟨[], by rwa [List.append_nil]⟩
  cases hdoes with
  | nothing | begin => exact hsame rfl
  | insert _ _ _ hinsert =>
    refine hsame ?_
    rw [Table.eq_of_insert hinsert]
    rfl
  | @commit tx r hx =>
    obtain ⟨set, hwell, hown⟩ := hcommits tx r hx
    have hrows : ((db.abort a.gone).sets.commit tx).rows =
        db.sets.rows ++ (db.sets.abort a.gone).own tx := rfl
    by_cases htx : tx ∈ (db.sets.abort a.gone).active
    · obtain ⟨hactive, hgone⟩ := List.mem_filter.1 htx
      rw [Table.own_abort (of_decide_eq_true hgone), hown hactive] at hrows
      rw [hrows]
      exact ⟨[set], hheld.concat hwell (fresh_of_own h.unique hheld (hown hactive))⟩
    · rw [(h.abort a.gone).tracks.lost htx, List.append_nil] at hrows
      exact hsame hrows

/-- A step of a creation adds its set to the tables, at the latest when it returns it. -/
theorem Sound.creation_step (h : Sound log db.sets) (hattributed : Attributed d log)
    {create : ApproverSetCreate}
    (hafter : (createApproverSet d create).After (Pool.trace log i ++ [x]) left)
    (hperform : perform db x.1 a = some (x.2, db')) (hheld : Holds sets db.sets.rows) :
    ∃ extra, Holds (sets ++ extra) db'.sets.rows ∧ ∀ set, left = .ret (.ok set) → set ∈ extra := by
  by_cases hret : ∃ set, left = .ret (.ok set)
  · obtain ⟨set, rfl⟩ := hret
    obtain ⟨front, tx, htrace⟩ := commit_of_created hafter
    cases List.singleton_inj.1 (List.append_inj' htrace rfl).2
    obtain ⟨_, id, now, hchecked, -, hown, hset⟩ := h.own_of_commit hattributed hafter
    refine ⟨[_], h.holds_of_commit (wellFormed_newSet hchecked.shape id now) hown hperform hheld,
      fun other hother => List.mem_singleton.2 ?_⟩
    cases hother.symm.trans (hset rfl)
    rfl
  · have hcommits : ∀ tx r, x = ⟨.commit tx, r⟩ →
        ∃ set, WellFormed set ∧ (tx ∈ db.sets.active → db.sets.own tx = setRows set) := by
      rintro tx r rfl
      obtain ⟨_, id, now, hchecked, -, hown, -⟩ := h.own_of_commit hattributed hafter
      exact ⟨_, wellFormed_newSet hchecked.shape id now, hown⟩
    obtain ⟨extra, hextra⟩ := h.holds_of_perform hcommits hperform hheld
    exact ⟨extra, hextra, fun set hset => absurd ⟨set, hset⟩ hret⟩

end Logs

/-! ### Runs -/

/-- Calls of `create_approver_set` in progress. -/
abbrev Creations := Pool Op Res Db ApproverSetCreate (Except RegistryError ApproverSet)

/-- The approvers that the table is read as. -/
def readApprovers (d : Deps) (db : Db) : Approvers := fun id =>
  (db.approvers id.toString).bind fun row => (rowToApprover d row).toOption

/-- When a set is committed, its nesting check would pass again. -/
def Rechecked (d : Deps) (q : Creations) (x : Prog.Event Op Res) : Prop :=
  ∀ tx ∈ committed x, ∀ set ∈ readSets d (q.shared.sets.own tx),
    checkNesting (readApprovers d q.shared) (readSets d q.shared.sets.rows)
      (nestedWallets (readApprovers d q.shared) set.members) = some (.ok ())

instance (d : Deps) (q : Creations) (x : Prog.Event Op Res) : Decidable (Rechecked d q x) :=
  inferInstanceAs (Decidable (∀ tx ∈ committed x, ∀ set ∈ readSets d (q.shared.sets.own tx), _))

/-- The database before any call: no transaction is open. -/
structure Opened (d : Deps) (approvers : Approvers) (sets : List ApproverSet) (db : Db) : Prop where
  registered : Registered d approvers db
  held : Holds sets db.sets.rows
  pending : db.sets.pending = []
  active : db.sets.active = []

section Runs

variable {db₀ : Db} {moves : List (Move ApproverSetCreate Ans)} {p q q' : Creations} {i : Nat}
  {x : Prog.Event Op Res} {approvers : Approvers} {sets : List ApproverSet}

/-- One step of a run of creations. -/
abbrev CreationStep (d : Deps) (db₀ : Db) (moves : List (Move ApproverSetCreate Ans))
    (q : Creations) (i : Nat) (x : Prog.Event Op Res) (q' : Creations) : Prop :=
  Pool.StepOf perform (createApproverSet d) (Pool.start db₀) moves q i x q'

/-- What holds throughout a run. -/
structure Followed (db₀ : Db) (q : Creations) : Prop where
  approvers : q.shared.approvers = db₀.approvers
  selected : ∀ {j tx id row}, (j, ⟨.selectApprover tx id, .ok row⟩) ∈ q.log →
    row = db₀.approvers id
  tracks : Table.Tracks begun inserted q.log q.shared.sets
  unique : q.shared.sets.Unique clash

theorem Followed.sound (h : Followed db₀ q) : Sound q.log q.shared.sets := ⟨h.tracks, h.unique⟩

theorem Followed.step (hq : Followed db₀ q) (h : CreationStep d db₀ moves q i x q') :
    Followed db₀ q' := by
  obtain ⟨call, k, a, s, -, hperform, rfl⟩ := h.performs
  have hdoes : Does (q.shared.abort a.gone) x s := .of_execute hperform
  have hsound : Sound (q.log ++ [(i, x)]) s.sets := hq.sound.step hperform
  refine ⟨hdoes.approvers.trans hq.approvers, fun {j tx id row} hj => ?_, hsound.tracks,
    hsound.unique⟩
  rcases mem_concat_iff.1 hj with hj | hj
  · exact hq.selected hj
  · cases hj
    obtain ⟨text, hr, -⟩ | ⟨-, hanswer⟩ := within_eq_some hperform
    · cases hr
    · cases hanswer
      exact congrFun hq.approvers id

theorem Followed.of_run (hpending : db₀.sets.pending = []) (hactive : db₀.sets.active = [])
    (hunique : db₀.sets.Unique clash)
    (h : Pool.run perform (createApproverSet d) (Pool.start db₀) moves = some p) : Followed db₀ p :=
  Pool.run_induction_steps
    ⟨rfl, fun hj => absurd hj List.not_mem_nil, .start hpending hactive, hunique⟩
    (fun _ _ hq => ⟨hq.approvers, hq.selected, hq.tracks, hq.unique⟩)
    (fun _ _ _ _ hstep hq => hq.step hstep) h

/-- What is known of a creation when it commits. -/
structure Commits (d : Deps) (db₀ : Db) (q : Creations) (tx : Nat) (create : ApproverSetCreate)
    (set : ApproverSet) : Prop where
  shape : validateSetShape create = .ok ()
  members : ∀ m ∈ create.members, ∃ rec, readMember d m (db₀.approvers m.toString) = .ok rec
  own : tx ∈ q.shared.sets.active → q.shared.sets.own tx = setRows set

theorem attributed_of_run
    (h : Pool.run perform (createApproverSet d) (Pool.start db₀) moves = some q) :
    Attributed d q.log := by
  intro j
  cases htask : q.tasks[j]? with
  | none =>
    rw [Pool.trace_eq_nil h htask]
    exact .inr nofun
  | some task => exact .inl ⟨task.1, task.2, Pool.run_after h htask⟩

/-- What a commit makes visible is the set of the task. -/
theorem CreationStep.commits {tx : Nat} {r : Except String Unit} (hfollowed : Followed db₀ q)
    (h : CreationStep d db₀ moves q i ⟨.commit tx, r⟩ q') :
    ∃ create id now, Commits d db₀ q tx create (newSet create id now) ∧
      (r = .ok () → q'.tasks[i]? = some (create, .ret (.ok (newSet create id now)))) := by
  obtain ⟨call, k, a, s, htask, -, rfl⟩ := h.performs
  obtain ⟨before, hq⟩ := h.reached
  obtain ⟨front, id, now, hchecked, hfront, hown, hret⟩ :=
    hfollowed.sound.own_of_commit (attributed_of_run hq) ((Pool.run_after hq htask).concat r)
  refine ⟨call, id, now, ⟨hchecked.shape, fun m hm => ?_, hown⟩, fun hr => ?_⟩
  · obtain ⟨row, rec, hmem, hread⟩ := hchecked.selected m hm
    exact ⟨rec, hfollowed.selected (Pool.mem_of_mem_trace (hfront hmem)) ▸ hread⟩
  · rw [List.getElem?_set_self (List.getElem?_eq_some_iff.1 htask).1]
    exact congrArg (fun x => some (call, x)) (hret hr)

/-- The rows stay rows of whole sets. -/
theorem CreationStep.holds (hfollowed : Followed db₀ q) (h : CreationStep d db₀ moves q i x q')
    (hheld : Holds sets q.shared.sets.rows) :
    ∃ extra, Holds (sets ++ extra) q'.shared.sets.rows := by
  obtain ⟨call, k, a, s, htask, hperform, rfl⟩ := h.performs
  obtain ⟨before, hq⟩ := h.reached
  obtain ⟨extra, hextra, -⟩ := hfollowed.sound.creation_step (attributed_of_run hq)
    ((Pool.run_after hq htask).concat _) hperform hheld
  exact ⟨extra, hextra⟩

/-- The sets of the calls that succeeded. -/
def created (order : List (ApproverSetCreate × Except RegistryError ApproverSet)) :
    List ApproverSet :=
  order.filterMap fun x => x.2.toOption

/-- The database stands for `t`, which holds the sets of the given calls. A set whose commit
reported a failure may be stored besides. -/
structure Stands (d : Deps) (approvers : Approvers) (sets₀ : List ApproverSet)
    (order : List (ApproverSetCreate × Except RegistryError ApproverSet)) (db t : Db) : Prop where
  registered : Registered d approvers t
  pending : t.sets.pending = []
  held : Holds (sets₀ ++ created order) t.sets.rows
  stored : ∃ sets, Holds sets db.sets.rows ∧ sets₀ ++ created order ⊆ sets

variable {sets₀ : List ApproverSet} {t : Db}
  {order : List (ApproverSetCreate × Except RegistryError ApproverSet)} {set : ApproverSet}

theorem readApprovers_eq (hreg : Registered d approvers db) : readApprovers d db = approvers := by
  funext id
  rw [readApprovers, hreg.row]
  cases approvers id with
  | none => rfl
  | some rec =>
    rw [Option.map_some, Option.bind_some, rowToApprover_approverRow]
    rfl

theorem alone_of_rechecked {tx : Nat} (hwell : WellFormed set)
    (hreg : Registered d approvers q.shared) (hheld : Holds sets q.shared.sets.rows)
    (hown : q.shared.sets.own tx = setRows set) (h : Rechecked d q ⟨.commit tx, .ok ()⟩) :
    ∀ w ∈ nestedWallets approvers set.members, Alone approvers sets w := by
  have hset : readSets d (q.shared.sets.own tx) = [PostgresApproverRegistry.stored set] := by
    have hone : Holds [set] (q.shared.sets.own tx) := by
      rw [hown]
      have hempty : Holds [] [] := ⟨rfl, List.nodup_nil, nofun⟩
      exact hempty.concat hwell List.not_mem_nil
    exact hone.readSets d
  have hcheck := h tx rfl (PostgresApproverRegistry.stored set) (hset ▸ List.mem_cons_self)
  rw [readApprovers_eq hreg, hheld.readSets, checkNesting_ok_iff] at hcheck
  exact fun w hw other hother =>
    hcheck w hw (PostgresApproverRegistry.stored other) (List.mem_map_of_mem hother)

theorem CreationStep.commit_of_returned (h : CreationStep d db₀ moves q i x q')
    {create : ApproverSetCreate} (hret : q'.tasks[i]? = some (create, .ret (.ok set))) :
    ∃ tx, x = ⟨.commit tx, .ok ()⟩ := by
  obtain ⟨front, tx, htrace⟩ := commit_of_created (h.after hret)
  exact ⟨tx, List.singleton_inj.1 (List.append_inj' htrace rfl).2⟩

theorem CreationStep.runs (hopened : Opened d approvers sets₀ db₀) (hfollowed : Followed db₀ q)
    (h : CreationStep d db₀ moves q i x q') (hstands : Stands d approvers sets₀ order q.shared t)
    {create : ApproverSetCreate} (hret : q'.tasks[i]? = some (create, .ret (.ok set)))
    (hchecked : Rechecked d q x) :
    ∃ t', (createApproverSet d create).Runs step t (.ok set) t' ∧
      Stands d approvers sets₀ (order ++ [(create, .ok set)]) q'.shared t' := by
  obtain ⟨tx, rfl⟩ := CreationStep.commit_of_returned h hret
  obtain ⟨create', id, now, hcommits, hret'⟩ := CreationStep.commits hfollowed h
  cases (hret' rfl).symm.trans hret
  obtain ⟨call, k, a, s, -, hperform, hq'⟩ := h.performs
  have hown := hcommits.own (rows_of_commit hperform).1
  have hwell := wellFormed_newSet hcommits.shape id now
  obtain ⟨sets, hheld, hsub⟩ := hstands.stored
  have hfresh := fresh_of_own hfollowed.unique hheld hown
  have hreg : Registered d approvers q.shared :=
    ⟨fun id => (congrFun hfollowed.approvers _).trans (hopened.registered.row id),
      hopened.registered.key⟩
  have halone := alone_of_rechecked hwell hreg hheld hown hchecked
  obtain ⟨t', hrun, hstored⟩ := runs_createApproverSet hstands.registered hstands.held
    hstands.pending hcommits.shape (resolveMembers_of_read hopened.registered hcommits.members)
    (fun w hw other hother => halone w hw other (hsub hother))
    (fun hmem => hfresh (List.map_subset _ hsub hmem)) now
  have hcreated : created (order ++ [(create, .ok (newSet create id now))]) =
      created order ++ [newSet create id now] := List.filterMap_append
  refine ⟨t', hrun, ⟨fun id => ?_, hopened.registered.key⟩, hstored.pending, ?_, ?_⟩
  · rw [hstored.approvers]
    exact hstands.registered.row id
  · rw [hcreated, ← List.append_assoc, hstored.rows]
    exact hstands.held.concat hwell fun hmem => hfresh (List.map_subset _ hsub hmem)
  · refine ⟨sets ++ [newSet create id now], ?_, ?_⟩
    · rw [hq']
      exact hfollowed.sound.holds_of_commit hwell hcommits.own hperform hheld
    · rw [hcreated, ← List.append_assoc]
      exact List.append_subset.2 ⟨List.subset_append_of_subset_left _ hsub,
        List.subset_append_right _ _⟩

/-- **The creations of a run could have been made one after another, in the order in which they
commit, if each set would still pass its nesting check when it is committed.** -/
theorem creations_serial (hopened : Opened d approvers sets₀ db₀)
    (h : Pool.run perform (createApproverSet d) (Pool.start db₀) moves = some p)
    (hchecked : ∀ q i x q', CreationStep d db₀ moves q i x q' → Rechecked d q x) :
    Pool.Serial step (createApproverSet d) Except.isOk (Stands d approvers sets₀) db₀ p := by
  have hfollowed : ∀ {q i x q'}, CreationStep d db₀ moves q i x q' → Followed db₀ q := by
    intro q i x q' hstep
    obtain ⟨before, hq⟩ := hstep.reached
    refine .of_run hopened.pending hopened.active ?_ hq
    rw [Table.Unique, Table.all, hopened.pending, List.map_nil, List.append_nil]
    exact hopened.held.pairwise
  refine Pool.serialises ⟨hopened.registered, hopened.pending, ?_, sets₀, hopened.held, ?_⟩
    (fun create => ?_) ?_ ?_ h
  · rw [created, List.filterMap_nil, List.append_nil]
    exact hopened.held
  · rw [created, List.filterMap_nil, List.append_nil]
    exact List.Subset.refl _
  · rw [createApproverSet]
    cases validateSetShape create <;> rfl
  · rintro q i x q' order t hstep hstands -
    obtain ⟨sets, hheld, hsub⟩ := hstands.stored
    obtain ⟨extra, hheld'⟩ := CreationStep.holds (hfollowed hstep) hstep hheld
    exact ⟨hstands.registered, hstands.pending, hstands.held, _, hheld',
      List.subset_append_of_subset_left _ hsub⟩
  · rintro q i x q' order t create o hstep hstands hret hgood
    cases o with
    | error e => cases hgood
    | ok set =>
      exact CreationStep.runs hopened (hfollowed hstep) hstep hstands hret
        (hchecked q i x q' hstep)

end Runs

end PostgresApproverRegistry

variable {first second : ApproverSetCreate} {os : List (Except RegistryError ApproverSet)}

/-! ## Both backends -/

/-- **For each backend and every interleaving: if each set would still pass its nesting check when
it is stored, the calls that succeeded could have been made one after another, with the same replies
and the same sets stored.** -/
theorem creations_serialisable (s₀ : MemoryApproverRegistry.State)
    {d : PostgresApproverRegistry.Deps} {approvers : Approvers} {sets₀ : List ApproverSet}
    {db₀ : PostgresApproverRegistry.Db}
    (hopened : PostgresApproverRegistry.Opened d approvers sets₀ db₀) :
    (∀ moves p, Pool.run MemoryApproverRegistry.perform MemoryApproverRegistry.createApproverSet
        (Pool.start s₀) moves = some p →
      (∀ q i x q', MemoryApproverRegistry.CreationStep s₀ moves q i x q' →
        MemoryApproverRegistry.Rechecked q x) →
      Pool.Serial MemoryApproverRegistry.step MemoryApproverRegistry.createApproverSet Except.isOk
        (fun _ => Eq) s₀ p) ∧
    ∀ moves p, Pool.run PostgresApproverRegistry.perform
        (PostgresApproverRegistry.createApproverSet d) (Pool.start db₀) moves = some p →
      (∀ q i x q', PostgresApproverRegistry.CreationStep d db₀ moves q i x q' →
        PostgresApproverRegistry.Rechecked d q x) →
      Pool.Serial PostgresApproverRegistry.step (PostgresApproverRegistry.createApproverSet d)
        Except.isOk (PostgresApproverRegistry.Stands d approvers sets₀) db₀ p :=
  ⟨fun _ _ => MemoryApproverRegistry.creations_serial,
    fun _ _ => PostgresApproverRegistry.creations_serial hopened⟩

/-! ## Creations that race -/

/-- A wallet is in both sets, and in the first one it is not alone. -/
def Conflicts (approvers : Approvers) (first second : ApproverSetCreate) : Prop :=
  ∃ w v, v ≠ w ∧ w ∈ nestedWallets approvers first.members ∧
    v ∈ nestedWallets approvers first.members ∧ w ∈ nestedWallets approvers second.members

theorem Conflicts.not_alone {approvers : Approvers} (h : Conflicts approvers first second)
    {sets : List ApproverSet} {id : ApproverSetId} {now : Int64}
    (hset : MemoryApproverRegistry.newSet first id now ∈ sets) :
    ¬ ∀ w ∈ nestedWallets approvers second.members, Alone approvers sets w := by
  obtain ⟨w, v, hne, hw, hv, hsecond⟩ := h
  exact fun halone => hne (halone w hsecond _ hset (mem_nestedWallets.1 hw) v
    (mem_nestedWallets.1 hv))

theorem MemoryApproverRegistry.fails_of_conflicts {s t : State}
    (h : Conflicts s.approvers first second)
    (hsession : Session step createApproverSet s [first, second] os t) :
    ∃ o ∈ os, o.isOk = false := by
  obtain _ | @⟨_, s₁, _, _, o₁, _, _, hfirst, hrest⟩ := hsession
  obtain _ | @⟨_, s₂, _, _, o₂, _, _, hsecond, -⟩ := hrest
  cases runs_createApproverSet_iff.1 hfirst with
  | badShape | badMember | badNesting => exact ⟨_, List.mem_cons_self, rfl⟩
  | stored id now =>
    cases runs_createApproverSet_iff.1 hsecond with
    | badShape | badMember | badNesting =>
      exact ⟨_, List.mem_cons_of_mem _ List.mem_cons_self, rfl⟩
    | stored id' now' _ hmembers hperm hcheck =>
      refine (h.not_alone (hperm.symm.subset List.mem_cons_self) fun w hw => ?_).elim
      refine checkNesting_ok_iff.1 hcheck w ?_
      rwa [nestedWallets_of_resolveMembers hmembers]

theorem PostgresApproverRegistry.fails_of_conflicts {d : Deps} {approvers : Approvers}
    {sets₀ : List ApproverSet} {db t : Db} (hopened : Opened d approvers sets₀ db)
    (h : Conflicts approvers first second)
    (hsession : Session step (createApproverSet d) db [first, second] os t) :
    ∃ o ∈ os, o.isOk = false := by
  obtain _ | @⟨_, db₁, _, _, o₁, _, _, hfirst, hrest⟩ := hsession
  obtain _ | @⟨_, db₂, _, _, o₂, _, _, hsecond, -⟩ := hrest
  match o₁, o₂, hfirst, hsecond with
  | .error e, _, _, _ => exact ⟨_, List.mem_cons_self, rfl⟩
  | .ok set, .error e, _, _ => exact ⟨_, List.mem_cons_of_mem _ List.mem_cons_self, rfl⟩
  | .ok set, .ok other, hfirst, hsecond =>
    obtain ⟨hshape, -, -, id, now, rfl, hnew, hstored⟩ :=
      created_of_runs hopened.registered hopened.held hopened.pending hfirst
    have hheld : Holds (sets₀ ++ [MemoryApproverRegistry.newSet first id now]) db₁.sets.rows := by
      rw [hstored.rows]
      exact hopened.held.concat (MemoryApproverRegistry.wellFormed_newSet hshape id now) hnew
    have hreg : Registered d approvers db₁ :=
      ⟨fun id => (congrFun hstored.approvers _).trans (hopened.registered.row id),
        hopened.registered.key⟩
    obtain ⟨-, -, halone, -⟩ := created_of_runs hreg hheld hstored.pending hsecond
    exact (h.not_alone (List.mem_append_right _ List.mem_cons_self) halone).elim

namespace SampleCreation

open SampleNesting (registered)
open SampleStore (deps)

/-- A set of two. -/
def create (m o : ApproverId) : ApproverSetCreate where
  name := "pair"
  ownerId := ⟨"acme"⟩
  members := [m, o]
  threshold := 1
  total := 2
  quorumTimeoutSecs := none

/-- No set is stored. -/
def registry : MemoryApproverRegistry.State := ⟨registered, []⟩

def database : PostgresApproverRegistry.Db where
  approvers text := (deps.parseUlid text).toOption.bind fun u =>
    (registered ⟨u⟩).map (PostgresApproverRegistry.approverRow deps)
  sets := .empty

theorem database_opened : PostgresApproverRegistry.Opened deps registered [] database where
  registered.row id := by
    dsimp only [database]
    rw [deps.parse_text]
    rfl
  registered.key {id rec} h := by
    unfold registered at h
    split at h
    · cases h
      rfl
    · cases h
  held := ⟨rfl, List.nodup_nil, nofun⟩
  pending := rfl
  active := rfl

/-- Both creations check before either of them stores its set. -/
def memoryRace (first second : ApproverSetCreate) :
    List (Move ApproverSetCreate MemoryApproverRegistry.Ans) :=
  [.spawn first, .spawn second,
    .act 0 .unit, .act 0 (.order []), .act 1 .unit, .act 1 (.order []),
    .act 0 (.approverSetId ⟨21⟩), .act 0 (.time 1500), .act 0 .unit,
    .act 1 (.approverSetId ⟨22⟩), .act 1 (.time 1500), .act 1 .unit]

/-- The same with the statements of the other backend: `BEGIN`, two members, the scan and the two
orders, and then id, time, three `INSERT`s and the commit. -/
def tableRace (first second : ApproverSetCreate) :
    List (Move ApproverSetCreate PostgresApproverRegistry.Ans) :=
  [.spawn first, .spawn second] ++ List.replicate 6 (.act 0 {}) ++ List.replicate 6 (.act 1 {}) ++
    [.act 0 { id := ⟨21⟩ }, .act 0 { now := 1500 }] ++ List.replicate 4 (.act 0 {}) ++
    [.act 1 { id := ⟨22⟩ }, .act 1 { now := 1500 }] ++ List.replicate 4 (.act 1 {})

/-- The calls of a race that have succeeded. -/
def memorySuccesses (first second : ApproverSetCreate) : Option (List ApproverSetCreate) :=
  (Pool.run MemoryApproverRegistry.perform MemoryApproverRegistry.createApproverSet
    (Pool.start registry) (memoryRace first second)).map
      fun p => (p.returned Except.isOk).map Prod.fst

/-- The creations that succeed in the race. -/
def tableSuccesses (first second : ApproverSetCreate) : Option (List ApproverSetCreate) :=
  (Pool.run PostgresApproverRegistry.perform (PostgresApproverRegistry.createApproverSet deps)
    (Pool.start database) (tableRace first second)).map
      fun p => (p.returned Except.isOk).map Prod.fst

end SampleCreation

open SampleCreation in
open SampleNesting (registered) in
open SampleStore (deps) in
/-- Two sets without a common wallet: both creations check before either of them stores its set, and
they could have been made one after the other. -/
theorem disjoint_creations_serial :
    (∃ p, Pool.run MemoryApproverRegistry.perform MemoryApproverRegistry.createApproverSet
        (Pool.start registry) (memoryRace (create ⟨1⟩ ⟨2⟩) (create ⟨3⟩ ⟨4⟩)) = some p ∧
      (p.returned Except.isOk).map Prod.fst = [create ⟨1⟩ ⟨2⟩, create ⟨3⟩ ⟨4⟩] ∧
      Pool.Serial MemoryApproverRegistry.step MemoryApproverRegistry.createApproverSet Except.isOk
        (fun _ => Eq) registry p) ∧
    ∃ p, Pool.run PostgresApproverRegistry.perform (PostgresApproverRegistry.createApproverSet deps)
        (Pool.start database) (tableRace (create ⟨1⟩ ⟨2⟩) (create ⟨3⟩ ⟨4⟩)) = some p ∧
      (p.returned Except.isOk).map Prod.fst = [create ⟨1⟩ ⟨2⟩, create ⟨3⟩ ⟨4⟩] ∧
      Pool.Serial PostgresApproverRegistry.step (PostgresApproverRegistry.createApproverSet deps)
        Except.isOk (PostgresApproverRegistry.Stands deps registered []) database p := by
  obtain ⟨hmemory, htable⟩ := creations_serialisable registry database_opened
  constructor
  · have hsuccesses : memorySuccesses (create ⟨1⟩ ⟨2⟩) (create ⟨3⟩ ⟨4⟩) =
        some [create ⟨1⟩ ⟨2⟩, create ⟨3⟩ ⟨4⟩] := by decide +kernel
    have hchecked : ∀ y ∈ Pool.steps MemoryApproverRegistry.perform
        MemoryApproverRegistry.createApproverSet (Pool.start registry)
        (memoryRace (create ⟨1⟩ ⟨2⟩) (create ⟨3⟩ ⟨4⟩)),
        MemoryApproverRegistry.Rechecked y.1 y.2.2.1 := by decide +kernel
    obtain ⟨p, hp, hreturned⟩ := Option.map_eq_some_iff.1 hsuccesses
    exact ⟨p, hp, hreturned, hmemory _ p hp fun q i x q' hstep =>
      hchecked _ (Pool.mem_steps_iff.2 hstep)⟩
  · obtain ⟨hsuccesses, hchecked⟩ : tableSuccesses (create ⟨1⟩ ⟨2⟩) (create ⟨3⟩ ⟨4⟩) =
        some [create ⟨1⟩ ⟨2⟩, create ⟨3⟩ ⟨4⟩] ∧
        ∀ y ∈ Pool.steps PostgresApproverRegistry.perform
          (PostgresApproverRegistry.createApproverSet deps) (Pool.start database)
          (tableRace (create ⟨1⟩ ⟨2⟩) (create ⟨3⟩ ⟨4⟩)),
          PostgresApproverRegistry.Rechecked deps y.1 y.2.2.1 := by decide +kernel
    obtain ⟨p, hp, hreturned⟩ := Option.map_eq_some_iff.1 hsuccesses
    exact ⟨p, hp, hreturned, htable _ p hp fun q i x q' hstep =>
      hchecked _ (Pool.mem_steps_iff.2 hstep)⟩

open SampleCreation in
open SampleNesting (registered) in
open SampleStore (deps) in
/-- Two sets share wallet one. Both creations succeed, in either backend, but one after the other
they cannot, whichever is first. -/
theorem racing_creations_not_serial :
    memorySuccesses (create ⟨1⟩ ⟨2⟩) (create ⟨1⟩ ⟨3⟩) = some [create ⟨1⟩ ⟨2⟩, create ⟨1⟩ ⟨3⟩] ∧
    tableSuccesses (create ⟨1⟩ ⟨2⟩) (create ⟨1⟩ ⟨3⟩) = some [create ⟨1⟩ ⟨2⟩, create ⟨1⟩ ⟨3⟩] ∧
    ∀ calls : List ApproverSetCreate, calls.Perm [create ⟨1⟩ ⟨2⟩, create ⟨1⟩ ⟨3⟩] →
      (∀ os s, Session MemoryApproverRegistry.step MemoryApproverRegistry.createApproverSet registry
        calls os s → ∃ o ∈ os, o.isOk = false) ∧
      ∀ os t, Session PostgresApproverRegistry.step
        (PostgresApproverRegistry.createApproverSet deps) database calls os t →
        ∃ o ∈ os, o.isOk = false := by
  refine ⟨by decide +kernel, by decide +kernel, fun calls hcalls => ?_⟩
  have hfirst : Conflicts registered (create ⟨1⟩ ⟨2⟩) (create ⟨1⟩ ⟨3⟩) :=
    ⟨⟨1⟩, ⟨2⟩, by decide, by decide, by decide, by decide⟩
  have hsecond : Conflicts registered (create ⟨1⟩ ⟨3⟩) (create ⟨1⟩ ⟨2⟩) :=
    ⟨⟨1⟩, ⟨3⟩, by decide, by decide, by decide, by decide⟩
  obtain rfl | rfl := List.perm_pair.1 hcalls
  · exact ⟨fun os s => MemoryApproverRegistry.fails_of_conflicts hfirst,
      fun os t => PostgresApproverRegistry.fails_of_conflicts database_opened hfirst⟩
  · exact ⟨fun os s => MemoryApproverRegistry.fails_of_conflicts hsecond,
      fun os t => PostgresApproverRegistry.fails_of_conflicts database_opened hsecond⟩

end QfcServerWallet.Quorum
