import QfcServerWallet.Quorum.SetCreation

/-!
# Approver sets that are read back

`create_approver_set` and `get_approver_set` of `qfc-quorum/src/registry`, in every interleaving of
their lock sections or statements.

* The lookup of the Postgres backend is a `SELECT` outside of any transaction, and then a
  transaction of its own that reads the members and is rolled back.
* Other methods may change the table `approvers` at any time. Faults, lost transactions and commits
  that report an error are as for creations alone.
* `stored set` is what the columns keep of a set: its `quorum_timeout_secs` is a 32-bit `INTEGER`,
  and a `u32` that does not fit is bound as `NULL`.

Results: `exists_kept` and **`created_set_survives_iff`**.
-/

namespace QfcServerWallet.Quorum

open Lib

/-! ## Lookups after a creation -/

/-- Calls that come in after `p₀` and look the set up return the reply, where `Clean` holds of the
run. -/
def LookupsReturn {E : Type} {R : E → Type} {σ Call Ans : Type}
    (perform : σ → (e : E) → Ans → Option (R e × σ))
    (prog : Call → Prog E R (Except RegistryError ApproverSet))
    (p₀ : Pool E R σ Call (Except RegistryError ApproverSet)) (lookup : Call)
    (Clean : Pool.Log E R → Nat → Prop) (reply : Except RegistryError ApproverSet) :
    Prop :=
  ∀ moves p j result, Pool.run perform prog p₀ moves = some p → p₀.tasks.length ≤ j →
    p.tasks[j]? = some (lookup, .ret result) → Clean p.log j → result = reply

/-! ## The map -/

namespace MemoryApproverRegistry

section Created

variable {Call : Type} {prog : Call → Prog Op Res (Except RegistryError ApproverSet)} {s₀ : State}
  {moves : List (Move Call Ans)} {p₀ q : Pool Op Res State Call (Except RegistryError ApproverSet)}
  {create : ApproverSetCreate} {set : ApproverSet} {c lookup : Call} {i : Nat}

/-- Sets with the id are stored by call `i` only. -/
def StoredBy (i : Nat) (id : ApproverSetId) (log : Pool.Log Op Res) : Prop :=
  ∀ k other r, (k, ⟨.insertSet other, r⟩) ∈ log → other.id = id → k = i

theorem getSet_of_not_stored {s s' : State} {op : Op} {r : Res op} {a : Ans} {id : ApproverSetId}
    (h : perform s op a = some (r, s')) (hnot : ∀ other, op = .insertSet other → other.id ≠ id) :
    s'.getSet id = s.getSet id := by
  obtain rfl | ⟨record, -, rfl⟩ | ⟨other, hop, rfl⟩ | ⟨_, rec, -, -, rfl⟩ := perform_cases h
  · rfl
  · rfl
  · rw [State.getSet_putSet, if_neg (hnot other hop)]
  · rfl

variable (hc : prog c = createApproverSet create)

include hc

theorem getSet_of_created (h : Pool.run perform prog (Pool.start s₀) moves = some q)
    (hids : StoredBy i set.id q.log) (hcreated : q.tasks[i]? = some (c, .ret (.ok set))) :
    q.shared.getSet set.id = some set := by
  refine Pool.run_induction_steps (P := fun q => StoredBy i set.id q.log →
    q.tasks[i]? = some (c, .ret (.ok set)) → q.shared.getSet set.id = some set) (fun _ hi => ?_)
    (fun q call ih hids hi => ?_) (fun q k x q' hstep ih hids hi => ?_) h hids hcreated
  · cases hi
  · rcases Pool.task_of_spawn hi with hi | ⟨-, hnew⟩
    · exact ih hids hi
    · -- a creation that has just come in has not succeeded
      obtain rfl : c = call := congrArg Prod.fst hnew
      have hret : .ret (.ok set) = prog c := congrArg Prod.snd hnew
      have hafter : (createApproverSet create).After [] (.ret (.ok set)) := by
        rw [← hc, ← hret]
        exact .nil _
      obtain ⟨_, _, _, -, -, htrace⟩ := trace_of_created hafter
      cases htrace
  · obtain ⟨call, next, a, s, -, hperform, hq'⟩ := hstep.performs
    by_cases hki : k = i
    · -- the creation has just stored its set
      subst hki
      have hafter := hstep.after hi
      rw [hc] at hafter
      obtain ⟨_, id, now, -, rfl, htrace⟩ := trace_of_created hafter
      obtain ⟨op, r⟩ := x
      cases List.singleton_inj.1 (List.append_inj' htrace rfl).2
      cases hperform
      rw [hq']
      exact (State.getSet_putSet _ _ _).trans (if_pos rfl)
    · subst hq'
      rw [List.getElem?_set_ne hki] at hi
      have hids' : StoredBy i set.id q.log := fun k other r hk =>
        hids k other r (List.mem_append_left _ hk)
      refine (getSet_of_not_stored hperform fun other hop heq => hki ?_).trans (ih hids' hi)
      obtain ⟨op, r⟩ := x
      subst hop
      exact hids k other r (List.mem_append_right _ List.mem_cons_self) heq

theorem lookupsReturn_created (hlookup : prog lookup = getApproverSet set.id)
    (h₀ : Pool.run perform prog (Pool.start s₀) moves = some p₀)
    (hcreated : p₀.tasks[i]? = some (c, .ret (.ok set))) :
    LookupsReturn perform prog p₀ lookup (fun log _ => StoredBy i set.id log) (.ok set) := by
  intro moves' p j result h hj htask hids
  have hafter := Pool.run_after ((Pool.run_append h₀).trans h) htask
  rw [hlookup] at hafter
  have hx : ⟨.getApproverSet set.id, result⟩ ∈ Pool.trace p.log j := by
    rw [hafter.of_perform]
    exact List.mem_cons_self
  obtain ⟨q, q', k, hstep, hreturned, -, hlog⟩ := Pool.run_later h₀ h hcreated hj htask hx
  have hids' : StoredBy i set.id q.log := by
    obtain ⟨call, next, a, s, -, -, rfl⟩ := hstep.performs
    intro k other r hk
    exact hids k other r (hlog.subset (List.mem_append_left _ hk))
  obtain ⟨call, next, a, s, -, hperform, -⟩ := hstep.performs
  obtain ⟨before, hq⟩ := hstep.reached
  have hfound := getSet_of_created hc hq hids' hreturned
  simp only [perform, hfound] at hperform
  cases hperform
  rfl

end Created

end MemoryApproverRegistry

/-! ## The tables -/

namespace PostgresApproverRegistry

open MemoryApproverRegistry (newSet WellFormed wellFormed_newSet)

/-! ### The method -/

/-- The operations of a creation, and those that only a lookup makes. -/
inductive SetOp where
  | creation (op : Op)
  /-- `SELECT … FROM approver_sets WHERE approver_set_id = $1`, outside of a transaction -/
  | selectSet (setId : String)
  /-- a rollback, whose result is ignored -/
  | rollback (tx : Nat)

/-- What each operation returns. -/
def SetRes : SetOp → Type
  | .creation op => Res op
  | .selectSet _ => Except String (Option SetRow)
  | .rollback _ => Unit

/-- What the outside world supplies. -/
structure SetAns extends Ans where
  /-- the table `approvers`, where another method has changed it before the operation -/
  approvers : Option (String → Option ApproverRow) := none

/-- Another method has written `approvers`. -/
def Db.rewrite (db : Db) (approvers : Option (String → Option ApproverRow)) : Db :=
  { db with approvers := approvers.getD db.approvers }

/-- Executes an operation. -/
def performSet (db : Db) : (op : SetOp) → SetAns → Option (SetRes op × Db)
  | .creation op, a => perform (db.rewrite a.approvers) op a.toAns
  | .selectSet setId, a =>
    let db := (db.rewrite a.approvers).abort a.gone
    match a.fault with
    | some text => some (.error text, db)
    | none => some (.ok ((setRowsIn db.sets.rows).find? fun row => row.approverSetId = setId), db)
  | .rollback tx, a => some ((), ((db.rewrite a.approvers).abort a.gone).abort [tx])

/-- A creation among lookups. -/
def ofCreation {α : Type} (p : Prog Op Res α) : Prog SetOp SetRes α :=
  p.embed .creation fun _ r => r

section

variable (d : Deps)

/-- Reads a set. -/
def rowToSet (row : SetRow) (members : List ApproverId) : Except RegistryError ApproverSet := do
  let id ← parseSetId d row
  readSet row id members

/-- Looks a set up. -/
def getApproverSet (id : ApproverSetId) :
    Prog SetOp SetRes (Except RegistryError ApproverSet) := ExceptT.run do
  let row ← Prog.orThrow (fun e => .io ("select set: " ++ e))
    (Prog.perform (SetOp.selectSet id.toString))
  match row with
  | none => throw (.approverSetNotFound id)
  | some row => do
    let tx ← Prog.orThrow (fun e => .io ("get_set tx: " ++ e)) (ofCreation begin)
    let members ← ExceptT.mk (ofCreation (fetchSetMembers d tx id).run)
    let _ ← (Prog.perform (SetOp.rollback tx) : Prog SetOp SetRes Unit)
    Prog.ofExcept (rowToSet d row members)

/-- The two calls. -/
inductive SetCall where
  | create (create : ApproverSetCreate)
  | get (id : ApproverSetId)

/-- Their programs. -/
def SetCall.prog : SetCall → Prog SetOp SetRes (Except RegistryError ApproverSet)
  | create c => ofCreation (createApproverSet d c)
  | get id => getApproverSet d id

end

/-- Creations and lookups in progress. -/
abbrev SetCalls := Pool SetOp SetRes Db SetCall (Except RegistryError ApproverSet)

/-! ### What a lookup does -/

section Lookup

variable {d : Deps} {id : ApproverSetId} {tr : List (Prog.Event SetOp SetRes)}

/-- An operation that reported a fault. -/
def failed : Prog.Event SetOp SetRes → Bool
  | ⟨.selectSet _, .error _⟩ | ⟨.creation .begin, .error _⟩
  | ⟨.creation (.selectSetMembers _ _), .error _⟩ => true
  | _ => false

/-- The lookup met no fault. -/
def Unfailing (log : Pool.Log SetOp SetRes) (j : Nat) : Prop :=
  ∀ x ∈ Pool.trace log j, failed x = false

/-- What a lookup of the set should see. -/
def Observes (set : ApproverSet) : Prog.Event SetOp SetRes → Prop
  | ⟨.selectSet _, .ok row⟩ => row = some (setRow set)
  | ⟨.creation (.selectSetMembers _ _), .ok rows⟩ => rows = memberRows set.id 0 set.members
  | _ => True

/-- What is left of a lookup once the members are read. -/
def finishLookup (d : Deps) (row : SetRow) (tx : Nat) (rows : List MemberRow) :
    Prog SetOp SetRes (Except RegistryError ApproverSet) :=
  match rows.mapM (parseMember d) with
  | .error e => .ret (.error e)
  | .ok members => .act (.rollback tx) fun _ => .ret (rowToSet d row members)

theorem getApproverSet_eq (d : Deps) (id : ApproverSetId) :
    getApproverSet d id = .act (.selectSet id.toString) fun
      | .error e => .ret (.error (.io ("select set: " ++ e)))
      | .ok none => .ret (.error (.approverSetNotFound id))
      | .ok (some row) => .act (.creation .begin) fun
        | .error e => .ret (.error (.io ("get_set tx: " ++ e)))
        | .ok tx => .act (.creation (.selectSetMembers tx id.toString)) fun
          | .error e => .ret (.error (.io ("set members: " ++ e)))
          | .ok rows => finishLookup d row tx rows := by
  refine congrArg (Prog.act _) (funext fun r => ?_)
  match r with
  | .error e => rfl
  | .ok none => rfl
  | .ok (some row) =>
    refine congrArg (Prog.act _) (funext fun r => ?_)
    match r with
    | .error e => rfl
    | .ok tx =>
      refine congrArg (Prog.act _) (funext fun r => ?_)
      match r with
      | .error e => rfl
      | .ok rows =>
        change ExceptT.bindCont _ (rows.mapM (parseMember d)) = finishLookup d row tx rows
        unfold finishLookup
        cases rows.mapM (parseMember d) <;> rfl

/-- The operations of a lookup. -/
def Looks (id : ApproverSetId) (tr : List (Prog.Event SetOp SetRes)) : SetOp → Prop
  | .selectSet setId => setId = id.toString
  | .creation .begin => True
  -- the transaction was begun by the lookup itself
  | .creation (.selectSetMembers tx setId) =>
    setId = id.toString ∧ (⟨.creation .begin, .ok tx⟩ : Prog.Event SetOp SetRes) ∈ tr
  | .creation _ => False
  | .rollback _ => True

theorem looks_of_after {op : SetOp}
    {k : SetRes op → Prog SetOp SetRes (Except RegistryError ApproverSet)}
    (h : (getApproverSet d id).After tr (.act op k)) : Looks id tr op := by
  rw [getApproverSet_eq] at h
  obtain ⟨rfl, hop⟩ | ⟨r, tr₁, rfl, h₁⟩ := Prog.after_act_iff.1 h
  · cases hop
    rfl
  match r, h₁ with
  | .error e, h₁ => cases h₁.of_ret.2
  | .ok none, h₁ => cases h₁.of_ret.2
  | .ok (some row), h₁ =>
    obtain ⟨rfl, hop⟩ | ⟨r, tr₂, rfl, h₂⟩ := Prog.after_act_iff.1 h₁
    · cases hop
      trivial
    match r, h₂ with
    | .error e, h₂ => cases h₂.of_ret.2
    | .ok tx, h₂ =>
      obtain ⟨rfl, hop⟩ | ⟨r, tr₃, rfl, h₃⟩ := Prog.after_act_iff.1 h₂
      · cases hop
        exact ⟨rfl, by simp⟩
      match r, h₃ with
      | .error e, h₃ => cases h₃.of_ret.2
      | .ok rows, h₃ =>
        simp only [finishLookup] at h₃
        split at h₃
        · cases h₃.of_ret.2
        · obtain ⟨rfl, hop⟩ | ⟨r, tr₄, rfl, h₄⟩ := Prog.after_act_iff.1 h₃
          · cases hop
            trivial
          · cases h₄.of_ret.2

/-- Nothing that a creation writes with. -/
def ReadsOnly : SetOp → Prop
  | .creation op => ¬ Writes op
  | _ => True

theorem uses_getApproverSet : (getApproverSet d id).Uses ReadsOnly := by
  rw [getApproverSet_eq]
  refine ⟨trivial, fun r => ?_⟩
  match r with
  | .error e => trivial
  | .ok none => trivial
  | .ok (some row) =>
    refine ⟨not_false, fun r => ?_⟩
    match r with
    | .error e => trivial
    | .ok tx =>
      refine ⟨not_false, fun r => ?_⟩
      match r with
      | .error e => trivial
      | .ok rows =>
        simp only [finishLookup]
        split
        · trivial
        · exact ⟨trivial, fun _ => trivial⟩

theorem rowToSet_setRow (d : Deps) (set : ApproverSet) :
    rowToSet d (setRow set) set.members = .ok (stored set) := by
  rw [rowToSet, parseSetId_setRow]
  exact readSet_setRow set

theorem getApproverSet_result {set : ApproverSet} {result : Except RegistryError ApproverSet}
    (h : (getApproverSet d set.id).After tr (.ret result)) (hobserves : ∀ x ∈ tr, Observes set x)
    (hunfailing : ∀ x ∈ tr, failed x = false) : result = .ok (stored set) := by
  rw [getApproverSet_eq] at h
  obtain ⟨r, tr₁, rfl, h₁⟩ := h.ret_of_act
  rw [List.forall_mem_cons] at hobserves hunfailing
  match r, h₁, hobserves.1, hunfailing.1 with
  | .ok _, h₁, rfl, _ =>
    obtain ⟨r, tr₂, rfl, h₂⟩ := h₁.ret_of_act
    rw [List.forall_mem_cons] at hobserves hunfailing
    match r, h₂, hunfailing.2.1 with
    | .ok tx, h₂, _ =>
      obtain ⟨r, tr₃, rfl, h₃⟩ := h₂.ret_of_act
      rw [List.forall_mem_cons] at hobserves hunfailing
      match r, h₃, hobserves.2.2.1, hunfailing.2.2.1 with
      | .ok _, h₃, rfl, _ =>
        simp only [finishLookup, mapM_parseMember] at h₃
        obtain ⟨_, tr₄, rfl, h₄⟩ := h₃.ret_of_act
        obtain ⟨-, hret⟩ := h₄.of_ret
        rw [Prog.ret.inj hret]
        exact rowToSet_setRow d set

end Lookup

/-! ### Creations among the calls -/

/-- What a creation did. -/
def creationEvent : Prog.Event SetOp SetRes → Option (Prog.Event Op Res)
  | ⟨.creation op, r⟩ => some ⟨op, r⟩
  | _ => none

/-- What the creations did. -/
def creationLog (log : Pool.Log SetOp SetRes) : Pool.Log Op Res :=
  log.filterMap fun x => (creationEvent x.2).map fun y => (x.1, y)

theorem creationLog_concat (log : Pool.Log SetOp SetRes) (i : Nat)
    (x : Prog.Event SetOp SetRes) : creationLog (log ++ [(i, x)]) =
      creationLog log ++ ((creationEvent x).map fun y => (i, y)).toList := by
  rw [creationLog, List.filterMap_append, List.filterMap_cons]
  cases creationEvent x <;> rfl

theorem trace_creationLog (log : Pool.Log SetOp SetRes) (i : Nat) :
    Pool.trace (creationLog log) i = (Pool.trace log i).filterMap creationEvent := by
  induction log using List.reverseRecOn with
  | nil => rfl
  | append_singleton log x ih =>
    rw [creationLog_concat, Pool.trace_append, Pool.trace_concat, ih]
    by_cases hi : x.1 = i
    · rw [if_pos hi, List.filterMap_append, List.filterMap_cons]
      cases creationEvent x.2 <;> simp [Pool.trace, hi]
    · rw [if_neg hi]
      cases creationEvent x.2 <;> simp [Pool.trace, hi]

theorem eq_of_creationEvent {x : Prog.Event SetOp SetRes} {y : Prog.Event Op Res}
    (h : creationEvent x = some y) : x = ⟨.creation y.1, y.2⟩ := by
  unfold creationEvent at h
  split at h
  · cases h
    rfl
  · cases h

/-- The database before any call: no transaction is open. -/
structure Idle (sets : List ApproverSet) (db : Db) : Prop where
  held : Holds sets db.sets.rows
  pending : db.sets.pending = []
  active : db.sets.active = []

/-- The tables hold the sets, among them those of the creations that have succeeded. -/
structure Kept (q : SetCalls) (sets : List ApproverSet) : Prop where
  sound : Sound (creationLog q.log) q.shared.sets
  held : Holds sets q.shared.sets.rows
  returned : ∀ {i : Nat} {create : ApproverSetCreate} {set : ApproverSet},
    q.tasks[i]? = some (.create create, .ret (.ok set)) → set ∈ sets

section Runs

variable {d : Deps} {db₀ : Db} {moves : List (Move SetCall SetAns)} {p q q' : SetCalls} {i : Nat}
  {x : Prog.Event SetOp SetRes} {sets : List ApproverSet}
  {left : Prog SetOp SetRes (Except RegistryError ApproverSet)} {set : ApproverSet}
  {create : ApproverSetCreate}

/-- One step of a run. -/
abbrev SetStep (d : Deps) (db₀ : Db) (moves : List (Move SetCall SetAns)) (q : SetCalls) (i : Nat)
    (x : Prog.Event SetOp SetRes) (q' : SetCalls) : Prop :=
  Pool.StepOf performSet (SetCall.prog d) (Pool.start db₀) moves q i x q'

theorem creation_after (h : Pool.run performSet (SetCall.prog d) (Pool.start db₀) moves = some q)
    (htask : q.tasks[i]? = some (.create create, left)) :
    ∃ left', (createApproverSet d create).After (Pool.trace (creationLog q.log) i) left' ∧
      left = ofCreation left' := by
  have hafter : ((createApproverSet d create).embed SetOp.creation fun _ r => r).After
    (Pool.trace q.log i) left := Pool.run_after h htask
  have hproj : ∀ op (r : SetRes (.creation op)), creationEvent ⟨.creation op, r⟩ = some ⟨op, r⟩ :=
    fun _ _ => rfl
  rw [trace_creationLog]
  exact Prog.After.of_embed hproj hafter

theorem not_writes_of_get (h : Pool.run performSet (SetCall.prog d) (Pool.start db₀) moves = some q)
    {id : ApproverSetId} (htask : q.tasks[i]? = some (.get id, left)) :
    ∀ y ∈ Pool.trace (creationLog q.log) i, ¬ Writes y.1 := by
  intro y hy
  rw [trace_creationLog] at hy
  obtain ⟨x, hx, hcreation⟩ := List.mem_filterMap.1 hy
  obtain rfl := eq_of_creationEvent hcreation
  exact uses_getApproverSet.allowed_of_mem (Pool.run_after h htask) hx

theorem attributed_of_calls
    (h : Pool.run performSet (SetCall.prog d) (Pool.start db₀) moves = some q) :
    Attributed d (creationLog q.log) := by
  intro j
  cases htask : q.tasks[j]? with
  | none =>
    rw [trace_creationLog, Pool.trace_eq_nil h htask]
    exact .inr nofun
  | some task =>
    obtain ⟨call, left⟩ := task
    cases call with
    | create create =>
      obtain ⟨left', hafter, -⟩ := creation_after h htask
      exact .inl ⟨create, left', hafter⟩
    | get id => exact .inr (not_writes_of_get h htask)

theorem performSet_cases {a : SetAns} {db db' : Db} (h : performSet db x.1 a = some (x.2, db')) :
    (∃ y, creationEvent x = some y ∧
      perform (db.rewrite a.approvers) y.1 a.toAns = some (y.2, db')) ∨
    creationEvent x = none ∧ ∃ gone gone', db'.sets = (db.sets.abort gone).abort gone' := by
  obtain ⟨op, r⟩ := x
  cases op with
  | creation op => exact .inl ⟨⟨op, r⟩, rfl, h⟩
  | selectSet setId =>
    refine .inr ⟨rfl, a.gone, [], ?_⟩
    rw [Table.abort_nil]
    simp only [performSet] at h
    split at h <;> cases h <;> rfl
  | rollback tx =>
    cases h
    exact .inr ⟨rfl, a.gone, [tx], rfl⟩

theorem SetStep.creation (h : SetStep d db₀ moves q i x q')
    (htask' : q'.tasks[i]? = some (.create create, left)) :
    ∃ y left', creationEvent x = some y ∧ left = ofCreation left' ∧
      (createApproverSet d create).After (Pool.trace (creationLog q.log) i ++ [y]) left' := by
  obtain ⟨call, k, a, s, htask, -, hq'⟩ := h.performs
  obtain ⟨before, m, after, -, hq, hm, hlog⟩ := h
  obtain rfl : call = .create create := by
    rw [hq', List.getElem?_set_self (List.getElem?_eq_some_iff.1 htask).1] at htask'
    cases htask'
    rfl
  obtain ⟨left₀, -, hleft₀⟩ := creation_after hq htask
  obtain ⟨left', hafter, hleft'⟩ := creation_after (Pool.run_concat_iff.2 ⟨q, hq, hm⟩) htask'
  cases hx : creationEvent x with
  | none =>
    cases left₀ with
    | ret => cases hleft₀
    | act op k₀ =>
      obtain ⟨op', r⟩ := x
      obtain rfl : op' = .creation op := (Prog.act.inj hleft₀).1
      cases hx
  | some y =>
    refine ⟨y, left', rfl, hleft', ?_⟩
    rw [hlog, creationLog_concat, hx, Pool.trace_append] at hafter
    simpa [Pool.trace] using hafter

theorem Kept.sound_step (hkept : Kept q sets) (h : SetStep d db₀ moves q i x q') :
    Sound (creationLog q'.log) q'.shared.sets := by
  obtain ⟨call, k, a, s, -, hperform, rfl⟩ := h.performs
  rcases performSet_cases hperform with ⟨y, hy, hdo⟩ | ⟨hnone, gone, gone', hsets⟩
  · have hsound : Sound (creationLog q.log) (q.shared.rewrite a.approvers).sets := hkept.sound
    rw [creationLog_concat, hy]
    exact hsound.step hdo
  · rw [creationLog_concat, hnone, Option.map_none, Option.toList_none, List.append_nil, hsets]
    exact (hkept.sound.abort gone).abort gone'

theorem Kept.held_step (hkept : Kept q sets) (h : SetStep d db₀ moves q i x q') :
    ∃ extra, Holds (sets ++ extra) q'.shared.sets.rows ∧
      ∀ {create : ApproverSetCreate} {set : ApproverSet},
        q'.tasks[i]? = some (.create create, .ret (.ok set)) → set ∈ extra := by
  obtain ⟨call, k, a, s, htask, hperform, hq'⟩ := h.performs
  have htask' : q'.tasks[i]? = some (call, k x.2) := by
    rw [hq', List.getElem?_set_self (List.getElem?_eq_some_iff.1 htask).1]
  obtain ⟨before, hq⟩ := h.reached
  -- the sets do not depend on the table of approvers
  have hsound : Sound (creationLog q.log) (q.shared.rewrite a.approvers).sets := hkept.sound
  have hheld : Holds sets (q.shared.rewrite a.approvers).sets.rows := hkept.held
  rcases performSet_cases hperform with ⟨y, hy, hdo⟩ | ⟨hnone, gone, gone', hsets⟩
  · cases call with
    | create create =>
      obtain ⟨y', left, hy', hleft, hafter⟩ := SetStep.creation h htask'
      cases hy.symm.trans hy'
      obtain ⟨extra, hextra, hret⟩ :=
        hsound.creation_step (attributed_of_calls hq) hafter hdo hheld
      refine ⟨extra, hq' ▸ hextra, fun {create' set} hother => hret set ?_⟩
      rw [htask', hleft] at hother
      cases left with
      | ret => cases hother; rfl
      | act => cases hother
    | get id =>
      obtain rfl := eq_of_creationEvent hy
      have hlooks := looks_of_after (Pool.run_after hq htask)
      obtain ⟨extra, hextra⟩ := hsound.holds_of_perform
        (fun tx r hx => by subst hx; exact hlooks.elim) hdo hheld
      refine ⟨extra, hq' ▸ hextra, fun hother => ?_⟩
      cases htask'.symm.trans hother
  · refine ⟨[], ?_, fun hother => ?_⟩
    · rw [List.append_nil, hq', hsets]
      exact hkept.held
    · obtain ⟨y, -, hy, -⟩ := SetStep.creation h hother
      cases hnone.symm.trans hy

theorem Kept.step (hkept : Kept q sets) (h : SetStep d db₀ moves q i x q') :
    ∃ extra, Kept q' (sets ++ extra) := by
  obtain ⟨extra, hheld, hstored⟩ := hkept.held_step h
  refine ⟨extra, hkept.sound_step h, hheld, fun {j create set} hj => ?_⟩
  by_cases hji : j = i
  · subst hji
    exact List.mem_append_right _ (hstored hj)
  · obtain ⟨call, k, a, s, -, -, rfl⟩ := h.performs
    rw [List.getElem?_set_ne (Ne.symm hji)] at hj
    exact List.mem_append_left _ (hkept.returned hj)

theorem prog_create_ne_ok (create : ApproverSetCreate) (set : ApproverSet) :
    SetCall.prog d (.create create) ≠ .ret (.ok set) := by
  rw [SetCall.prog, createApproverSet]
  cases validateSetShape create with
  | error e =>
    intro h
    cases h
  | ok u =>
    intro h
    cases h

/-- At any moment, the tables hold the sets of the creations that have succeeded. -/
theorem exists_kept {sets₀ : List ApproverSet} (hidle : Idle sets₀ db₀)
    (h : Pool.run performSet (SetCall.prog d) (Pool.start db₀) moves = some q) :
    ∃ sets, Kept q sets := by
  refine Pool.run_induction_steps (P := fun q => ∃ sets, Kept q sets)
    ⟨sets₀, ⟨?_, ?_⟩, hidle.held, ?_⟩ (fun q call hq => ?_) (fun q i x q' hstep hq => ?_) h
  · exact .start hidle.pending hidle.active
  · rw [Pool.start, Table.Unique, Table.all, hidle.pending, List.map_nil, List.append_nil]
    exact hidle.held.pairwise
  · intro i create set htask
    cases htask
  · obtain ⟨sets, hkept⟩ := hq
    refine ⟨sets, hkept.sound, hkept.held, fun {i create set} htask => ?_⟩
    rcases Pool.task_of_spawn htask with htask | ⟨-, hnew⟩
    · exact hkept.returned htask
    · -- a creation that has just come in has not succeeded
      obtain rfl : SetCall.create create = call := congrArg Prod.fst hnew
      exact absurd (congrArg Prod.snd hnew).symm (prog_create_ne_ok create set)
  · obtain ⟨sets, hkept⟩ := hq
    obtain ⟨extra, hkept'⟩ := hkept.step hstep
    exact ⟨_, hkept'⟩

/-! ### Lookups -/

theorem approverSetId_setRow (set : ApproverSet) :
    (setRow set).approverSetId = set.id.toString := rfl

theorem Holds.find_setRow {rows : List Row} (h : Holds sets rows) (hset : set ∈ sets) :
    (setRowsIn rows).find? (fun row => row.approverSetId = set.id.toString)
      = some (setRow set) := by
  have hids : (sets.map setRow).map SetRow.approverSetId
      = (sets.map ApproverSet.id).map Ident.toString := by
    rw [List.map_map, List.map_map]
    exact List.map_congr_left fun other _ => approverSetId_setRow other
  have hnodup : ((sets.map setRow).map SetRow.approverSetId).Nodup := by
    rw [hids]
    exact h.distinct.map fun _ _ => Ident.toString_inj
  rw [h.rows, setRowsIn_flatMap, ← approverSetId_setRow]
  exact Table.find?_key hnodup (List.mem_map_of_mem hset)

theorem Kept.observes (hkept : Kept q sets) (hset : set ∈ sets) (h : SetStep d db₀ moves q i x q')
    {k : SetRes x.1 → Prog SetOp SetRes (Except RegistryError ApproverSet)}
    (htask : q.tasks[i]? = some (.get set.id, .act x.1 k)) : Observes set x := by
  obtain ⟨before, hq⟩ := h.reached
  have hlooks := looks_of_after (Pool.run_after hq htask)
  obtain ⟨call, k', a, s, -, hperform, -⟩ := h.performs
  obtain ⟨op, r⟩ := x
  cases op with
  | rollback tx => trivial
  | selectSet setId =>
    obtain rfl : setId = set.id.toString := hlooks
    simp only [performSet] at hperform
    split at hperform
    · cases hperform
      trivial
    · cases hperform
      exact hkept.held.find_setRow hset
  | creation op =>
    cases op with
    | selectSetMembers tx setId =>
      obtain ⟨rfl, hbegun⟩ := hlooks
      obtain ⟨text, hr, -⟩ | ⟨htx, hanswer⟩ := within_eq_some hperform
      · cases hr
        trivial
      · cases hanswer
        have hbegun' : ⟨.begin, .ok tx⟩ ∈
            Pool.trace (creationLog q.log) i := by
          rw [trace_creationLog]
          exact List.mem_filterMap.2 ⟨_, hbegun, rfl⟩
        -- the lookup has inserted nothing in its transaction
        have hown : (q.shared.sets.abort a.gone).own tx = [] := by
          rw [(hkept.sound.abort a.gone).own_eq (attributed_of_calls hq) htx hbegun']
          exact filterMap_of_not_writes (not_writes_of_get hq htask)
        change membersIn (q.shared.sets.rows ++ (q.shared.sets.abort a.gone).own tx) _ = _
        rw [hown, List.append_nil]
        exact hkept.held.membersIn hset
    | begin => trivial
    | _ => exact hlooks.elim

/-! ### A lookup that runs alone

No statement fails, and no other method changes anything. -/

theorem rewrite_none_abort_nil (db : Db) : (db.rewrite none).abort [] = db := by
  rw [Db.abort, Table.abort_nil]
  rfl

theorem performSet_creation_quiet (db : Db) (op : Op) :
    performSet db (.creation op) {} = execute db op {} := by
  change execute ((db.rewrite none).abort []) op {} = _
  rw [rewrite_none_abort_nil]

theorem Holds.performSet_selectSet {db : Db} (hheld : Holds sets db.sets.rows) (hset : set ∈ sets) :
    performSet db (.selectSet set.id.toString) {} = some (.ok (some (setRow set)), db) := by
  change some (Except.ok ((setRowsIn ((db.rewrite none).abort []).sets.rows).find? _), _) = _
  rw [rewrite_none_abort_nil, hheld.find_setRow hset]
  rfl

theorem Holds.performSet_selectSetMembers {db : Db} {tx : Nat} (hheld : Holds sets db.sets.rows)
    (hset : set ∈ sets) (hactive : tx ∈ db.sets.active) (hown : db.sets.own tx = []) :
    performSet db (.creation (.selectSetMembers tx set.id.toString)) {}
      = some (.ok (memberRows set.id 0 set.members), db) := by
  have hvisible : db.visible tx = db.sets.rows := by
    rw [Db.visible, hown, List.append_nil]
  rw [performSet_creation_quiet, execute, within, if_pos hactive, hvisible, hheld.membersIn hset]
  rfl

theorem performSet_rollback_quiet (db : Db) (tx : Nat) :
    performSet db (.rollback tx) {} = some ((), db.abort [tx]) := by
  change some ((), ((db.rewrite none).abort []).abort _) = _
  rw [rewrite_none_abort_nil]

theorem Kept.runs_getApproverSet (hkept : Kept q sets) (hset : set ∈ sets) :
    ∃ db', (getApproverSet d set.id).Runs (fun db op r db' =>
      (∃ a, performSet db op a = some (r, db')) ∧ failed ⟨op, r⟩ = false) q.shared
        (.ok (stored set)) db' := by
  let tx := q.shared.sets.next
  let opened : Db := { q.shared with sets := q.shared.sets.begin.2 }
  have hbegin : performSet q.shared (.creation .begin) {} = some (.ok tx, opened) :=
    performSet_creation_quiet _ _
  have hown : opened.sets.own tx = [] := by
    have hnew : tx ∉ q.shared.sets.active := fun hactive =>
      (hkept.sound.tracks.active hactive).false
    exact hkept.sound.tracks.lost hnew
  have hheld : Holds sets opened.sets.rows := hkept.held
  have hmembers := hheld.performSet_selectSetMembers hset List.mem_cons_self hown
  have hfinish : finishLookup d (setRow set) tx (memberRows set.id 0 set.members)
      = .act (.rollback tx) fun _ => .ret (.ok (stored set)) := by
    simp only [finishLookup, mapM_parseMember, rowToSet_setRow]
  refine ⟨opened.abort [tx], ?_⟩
  rw [getApproverSet_eq]
  refine .act ⟨⟨_, hkept.held.performSet_selectSet hset⟩, rfl⟩
    (.act ⟨⟨_, hbegin⟩, rfl⟩ (.act ⟨⟨_, hmembers⟩, rfl⟩ ?_))
  change Prog.Runs _ _ (finishLookup d _ _ _) _ _
  rw [hfinish]
  exact .act ⟨⟨_, performSet_rollback_quiet opened tx⟩, rfl⟩ (.ret _ _)

/-! ### Lookups that come in later -/

section Created

variable {sets₀ : List ApproverSet} {p₀ : SetCalls} {create : ApproverSetCreate} {set : ApproverSet}
  (hidle : Idle sets₀ db₀)
  (h₀ : Pool.run performSet (SetCall.prog d) (Pool.start db₀) moves = some p₀)
  (hcreated : p₀.tasks[i]? = some (.create create, .ret (.ok set)))

include hidle h₀ hcreated

theorem observes_of_created {moves' : List (Move SetCall SetAns)} {j : Nat}
    (h : Pool.run performSet (SetCall.prog d) p₀ moves' = some p) (hj : p₀.tasks.length ≤ j)
    (htask : p.tasks[j]? = some (.get set.id, left)) :
    ∀ x ∈ Pool.trace p.log j, Observes set x := by
  intro x hx
  obtain ⟨q, q', k, hstep, hreturned, hlookup, -⟩ := Pool.run_later h₀ h hcreated hj htask hx
  obtain ⟨before, hq⟩ := hstep.reached
  obtain ⟨sets, hkept⟩ := exists_kept hidle hq
  exact hkept.observes (hkept.returned hreturned) hstep hlookup

theorem lookupsReturn_stored : LookupsReturn performSet (SetCall.prog d) p₀ (.get set.id) Unfailing
    (.ok (stored set)) := by
  intro moves' p j result h hj htask hunfailing
  exact getApproverSet_result (Pool.run_after ((Pool.run_append h₀).trans h) htask)
    (observes_of_created hidle h₀ hcreated h hj htask) hunfailing

theorem exists_lookup : ∃ (moves' : List (Move SetCall SetAns)) (p : SetCalls),
    Pool.run performSet (SetCall.prog d) p₀ moves' = some p ∧
      p.tasks[p₀.tasks.length]? = some (.get set.id, .ret (.ok (stored set))) ∧
      Unfailing p.log p₀.tasks.length := by
  obtain ⟨sets, hkept⟩ := exists_kept hidle h₀
  obtain ⟨db', hruns⟩ := hkept.runs_getApproverSet (hkept.returned hcreated)
  let p₁ : SetCalls := { p₀ with
    tasks := p₀.tasks ++ [(.get set.id, SetCall.prog d (.get set.id))] }
  obtain ⟨moves', p, tr, hrun, htask, hlog, hunfailing⟩ :=
    Pool.exists_run_of_runs (fun x => failed x = false) (p := p₁) hruns rfl
      List.getElem?_concat_length
  refine ⟨.spawn (.get set.id) :: moves', p, hrun, htask, fun x hx => ?_⟩
  rw [hlog, Pool.trace_append, Pool.trace_eq_nil h₀ (List.getElem?_eq_none le_rfl),
    List.nil_append] at hx
  obtain ⟨y, hy, heq⟩ := List.mem_map.1 (Pool.mem_of_mem_trace hx)
  cases heq
  exact hunfailing _ hy

end Created

end Runs

/-! ### What the columns keep -/

theorem timeoutFromColumn_timeoutColumn (secs : UInt32) :
    (timeoutColumn secs).bind timeoutFromColumn
      = if secs.toNat ≤ 2147483647 then some secs else none := by
  unfold timeoutColumn
  split
  · next hle =>
    have hint : (Int32.ofNat secs.toNat).toInt = secs.toNat :=
      Int32.toInt_ofNat_of_lt (by omega)
    rw [Option.bind_some, timeoutFromColumn, hint, if_pos (Int.natCast_nonneg _),
      Int.toNat_natCast, UInt32.ofNat_toNat]
  · rfl

theorem stored_eq_self_iff {set : ApproverSet} :
    stored set = set ↔ ∀ secs ∈ set.quorumTimeoutSecs, secs.toNat ≤ 2147483647 := by
  obtain ⟨id, name, ownerId, members, threshold, total, timeout, createdAt⟩ := set
  cases timeout with
  | none => simp [stored]
  | some secs =>
    simp only [stored, Option.bind_some, timeoutFromColumn_timeoutColumn, ApproverSet.mk.injEq,
      true_and, and_true, Option.mem_some_iff, forall_eq']
    split
    · next hle => simp [hle]
    · next hgt => simp [hgt]

theorem newSet_of_created {d : Deps} {create : ApproverSetCreate} {set : ApproverSet}
    {tr : List (Prog.Event Op Res)} (h : (createApproverSet d create).After tr (.ret (.ok set))) :
    ∃ id now, set = newSet create id now := by
  obtain ⟨front, tx, rfl⟩ := commit_of_created h
  obtain ⟨front₁, front₂, tx', id, now, -, -, hstore⟩ := checked_of_writes h trivial
  obtain ⟨-, -, hret⟩ := inserted_of_commit hstore
  cases hret rfl
  exact ⟨id, now, rfl⟩

end PostgresApproverRegistry

/-! ## Both backends -/

open MemoryApproverRegistry (newSet)

open PostgresApproverRegistry in
/-- **Approver sets survive persistence if and only if their timeout fits.** Once a creation has
returned a set, whatever other calls do, lookups that meet no fault return that very set, if and
only if its timeout is none or at most `i32::MAX`. The map returns it always, as long as its id is
drawn once. -/
theorem created_set_survives_iff {d : Deps} {sets₀ : List ApproverSet} {db₀ : Db}
    (hidle : Idle sets₀ db₀) {moves : List (Move SetCall SetAns)} {p₀ : SetCalls} {i : Nat}
    {create : ApproverSetCreate} {set : ApproverSet}
    (h₀ : Pool.run performSet (SetCall.prog d) (Pool.start db₀) moves = some p₀)
    (hcreated : p₀.tasks[i]? = some (.create create, .ret (.ok set))) :
    (LookupsReturn performSet (SetCall.prog d) p₀ (.get set.id) Unfailing (.ok set) ↔
      ∀ secs ∈ create.quorumTimeoutSecs, secs.toNat ≤ 2147483647) ∧
    ∀ {Call : Type}
      {prog : Call → Prog MemoryApproverRegistry.Op MemoryApproverRegistry.Res
        (Except RegistryError ApproverSet)} {c lookup : Call} {s₀ moves p₀ i set},
      prog c = MemoryApproverRegistry.createApproverSet create →
      prog lookup = MemoryApproverRegistry.getApproverSet (ApproverSet.id set) →
      Pool.run MemoryApproverRegistry.perform prog (Pool.start s₀) moves = some p₀ →
      p₀.tasks[i]? = some (c, .ret (.ok set)) →
      LookupsReturn MemoryApproverRegistry.perform prog p₀ lookup
        (fun log _ => MemoryApproverRegistry.StoredBy i set.id log) (.ok set) := by
  refine ⟨?_, fun hc hlookup h₀ hcreated =>
    MemoryApproverRegistry.lookupsReturn_created hc hlookup h₀ hcreated⟩
  obtain ⟨left, hafter, hleft⟩ := creation_after h₀ hcreated
  cases left with
  | act => cases hleft
  | ret result =>
    cases hleft
    obtain ⟨id, now, rfl⟩ := newSet_of_created hafter
    have hstored := lookupsReturn_stored hidle h₀ hcreated
    change _ ↔ ∀ secs ∈ (newSet create id now).quorumTimeoutSecs, _
    rw [← stored_eq_self_iff]
    constructor
    · intro hreturn
      obtain ⟨moves', p, hrun, htask, hunfailing⟩ := exists_lookup hidle h₀ hcreated
      exact Except.ok.inj (hreturn moves' p _ _ hrun le_rfl htask hunfailing)
    · intro heq
      rwa [heq] at hstored

namespace SamplePersistence

open PostgresApproverRegistry

/-- A set with the timeout. -/
def create (timeout : Option UInt32) : ApproverSetCreate :=
  { SampleCreation.create ⟨1⟩ ⟨2⟩ with quorumTimeoutSecs := timeout }

/-- `BEGIN`, two members, the scan, the two orders, id, time, three `INSERT`s and the commit. -/
def creation (timeout : Option UInt32) : List (Move SetCall SetAns) :=
  .spawn (.create (create timeout)) :: List.replicate 6 (.act 0 {}) ++
    [.act 0 { id := ⟨21⟩ }, .act 0 { now := 1500 }] ++ List.replicate 4 (.act 0 {})

def lookup : List (Move SetCall SetAns) := .spawn (.get ⟨21⟩) :: List.replicate 4 (.act 1 {})

/-- Where the moves lead. -/
def outcome (moves : List (Move SetCall SetAns)) : Option SetCalls :=
  Pool.run performSet (SetCall.prog SampleStore.deps) (Pool.start SampleCreation.database) moves

/-- A creation with the timeout that returned its set. -/
def returnedSet (timeout : Option UInt32) :
    SetCall × Prog SetOp SetRes (Except RegistryError ApproverSet) → Bool
  | (.create c, .ret (.ok set)) =>
    c.quorumTimeoutSecs = timeout ∧
      set = newSet (create timeout) ⟨21⟩ 1500
  | _ => false

/-- What a call returned. -/
def reply : SetCall × Prog SetOp SetRes (Except RegistryError ApproverSet) →
    Option (Except RegistryError ApproverSet)
  | (_, .ret result) => some result
  | _ => none

end SamplePersistence

open PostgresApproverRegistry SamplePersistence in
/-- A timeout of an hour survives. -/
theorem created_set_survives_hour : ∃ p₀, outcome (creation (some 3600)) = some p₀ ∧
    LookupsReturn performSet (SetCall.prog SampleStore.deps) p₀ (.get ⟨21⟩) Unfailing
      (.ok (newSet (create (some 3600)) ⟨21⟩ 1500)) := by
  have hfinal : (outcome (creation (some 3600))).any
      (fun p => (p.tasks[0]?).any (returnedSet (some 3600))) = true := by
    decide +kernel
  obtain ⟨p₀, h₀, hreturned⟩ := (Option.any_eq_true _ _).1 hfinal
  obtain ⟨task, htask, hset⟩ := (Option.any_eq_true _ _).1 hreturned
  unfold returnedSet at hset
  split at hset
  · next c set =>
    obtain ⟨htimeout, rfl⟩ := of_decide_eq_true hset
    have hidle : Idle [] SampleCreation.database :=
      ⟨SampleCreation.database_opened.held, rfl, rfl⟩
    refine ⟨p₀, h₀, (created_set_survives_iff hidle h₀ htask).1.2 fun secs hsecs => ?_⟩
    rw [htimeout, Option.mem_some_iff] at hsecs
    rw [← hsecs]
    decide
  · cases hset

open PostgresApproverRegistry SamplePersistence in
/-- A timeout of `2^31` seconds is returned by the creation, and is lost. -/
theorem created_set_loses_timeout : ∃ p,
    outcome (creation (some 2147483648) ++ lookup) = some p ∧
      (p.tasks[0]?).bind reply = some (.ok
        (newSet (create (some 2147483648)) ⟨21⟩ 1500)) ∧
      (p.tasks[1]?).bind reply = some (.ok
        (newSet (create none) ⟨21⟩ 1500)) := by
  have hfinal : (outcome (creation (some 2147483648) ++ lookup)).any (fun p => decide (
      (p.tasks[0]?).bind reply = some (.ok
        (newSet (create (some 2147483648)) ⟨21⟩ 1500)) ∧
      (p.tasks[1]?).bind reply = some (.ok
        (newSet (create none) ⟨21⟩ 1500)))) = true := by
    decide +kernel
  obtain ⟨p, hrun, hp⟩ := (Option.any_eq_true _ _).1 hfinal
  exact ⟨p, hrun, of_decide_eq_true hp⟩

end QfcServerWallet.Quorum
