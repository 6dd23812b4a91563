import Mathlib.Data.List.Basic
import Mathlib.Data.List.Induction

/-!
# Resumable programs and pools of concurrent tasks

A program is a tree of operations: it returns a value, or it asks for one operation and continues
with the answer. A pool runs many programs over one shared state. A step of the pool starts a task
or lets one task perform its next operation, so operations are the atomic sections and everything
between two of them may be interleaved. A task that is never scheduled again is a cancelled one.

`perform s e a` gives the answer to operation `e` in state `s`, and the state after it. The value
`a` is what the outside world decides; `none` says that the operation cannot happen there (it is
blocked, or `a` is not a possible answer).

Results: `After.of_bind` and its like (traces of a composed program), `run_after` and
`StepOf.after` (what a task did is a trace of its program), `run_induction_steps`, `run_view`,
`run_later` and **`log_explained`**.
-/

namespace QfcServerWallet.Lib

theorem mem_concat_iff {α : Type} {a b : α} {l : List α} : a ∈ l ++ [b] ↔ a ∈ l ∨ a = b := by
  rw [List.mem_append, List.mem_singleton]

/-- A program over the operations `E`, where `e : E` is answered by a value of `R e`. -/
inductive Prog (E : Type) (R : E → Type) (α : Type) where
  | ret (a : α)
  | act (e : E) (k : R e → Prog E R α)

namespace Prog

variable {E E' : Type} {R : E → Type} {R' : E' → Type} {α β γ : Type} {p : Prog E R α}
  {f : α → Prog E R β}

/-- One program after another. -/
def bind : Prog E R α → (α → Prog E R β) → Prog E R β
  | ret a, f => f a
  | act e k, f => act e fun r => (k r).bind f

instance : Monad (Prog E R) where
  pure := ret
  bind := bind

/-- One operation. -/
def perform (e : E) : Prog E R (R e) := act e ret

@[simp] theorem act_bind (e : E) (k : R e → Prog E R α) (f : α → Prog E R β) :
    act e k >>= f = act e fun r => k r >>= f := rfl

/-- The same program over more operations. -/
def embed (ι : E → E') (back : (e : E) → R' (ι e) → R e) : Prog E R α → Prog E' R' α
  | ret a => ret a
  | act e k => act (ι e) fun r => (k (back e r)).embed ι back

/-! ## Traces -/

/-- An operation with the answer it got. -/
abbrev Event (E : Type) (R : E → Type) : Type := Σ e, R e

/-- From the first program, the events lead to the second. -/
inductive After : Prog E R α → List (Event E R) → Prog E R α → Prop
  | nil (p : Prog E R α) : After p [] p
  | cons (e : E) (k : R e → Prog E R α) (r : R e) {tr : List (Event E R)} {q : Prog E R α} :
      After (k r) tr q → After (act e k) (⟨e, r⟩ :: tr) q

variable {tr : List (Event E R)} {e : E} {k : R e → Prog E R α} {q : Prog E R α}
  {front back : List (Event E R)} {p q : Prog E R α} {a : α}

theorem after_ret_iff : After (ret a) tr q ↔ tr = [] ∧ q = ret a := by
  constructor
  · intro h
    cases h
    exact ⟨rfl, rfl⟩
  · rintro ⟨rfl, rfl⟩
    exact .nil _

theorem After.of_ret (h : After (ret a) tr q) : tr = [] ∧ q = ret a := after_ret_iff.1 h

theorem after_act_iff :
    After (act e k) tr q ↔
      (tr = [] ∧ q = act e k) ∨ ∃ r tr', tr = ⟨e, r⟩ :: tr' ∧ After (k r) tr' q := by
  constructor
  · intro h
    cases h with
    | nil => exact .inl ⟨rfl, rfl⟩
    | cons e k r h => exact .inr ⟨r, _, rfl, h⟩
  · rintro (⟨rfl, rfl⟩ | ⟨r, tr', rfl, h⟩)
    · exact .nil _
    · exact .cons e k r h

theorem After.ret_of_act (h : After (act e k) tr (ret a)) :
    ∃ r tr', tr = ⟨e, r⟩ :: tr' ∧ After (k r) tr' (ret a) := by
  obtain ⟨-, hq⟩ | h := after_act_iff.1 h
  · cases hq
  · exact h

theorem After.of_perform {r : R e} (h : After (perform e) tr (ret r)) : tr = [⟨e, r⟩] := by
  obtain ⟨r', tr', rfl, hrest⟩ := h.ret_of_act
  obtain ⟨rfl, ⟨⟩⟩ := hrest.of_ret
  rfl

theorem After.concat (h : After p tr (act e k)) (r : R e) : After p (tr ++ [⟨e, r⟩]) (k r) := by
  generalize hq : act e k = q at h
  induction h with
  | nil p =>
    subst hq
    exact .cons e k r (.nil _)
  | cons e' k' r' _ ih => exact .cons e' k' r' (ih hq)

theorem After.of_append (h : After p (front ++ back) q) : ∃ q', After p front q' := by
  induction front generalizing p with
  | nil => exact ⟨p, .nil p⟩
  | cons x front ih =>
    cases h with
    | cons e k r h =>
      obtain ⟨q', hq'⟩ := ih h
      exact ⟨q', .cons e k r hq'⟩

/-- A trace of a composed program is one of its first part, or goes on past it. -/
theorem After.of_bind {q : Prog E R β} (h : After (p >>= f) tr q) :
    (∃ p', After p tr p' ∧ q = p' >>= f) ∨
      ∃ front back a, tr = front ++ back ∧ After p front (ret a) ∧ After (f a) back q := by
  induction p generalizing tr with
  | ret a => exact .inr ⟨[], tr, a, rfl, .nil _, h⟩
  | act e k ih =>
    rw [act_bind, after_act_iff] at h
    rcases h with ⟨rfl, rfl⟩ | ⟨r, tr', rfl, h⟩
    · exact .inl ⟨_, .nil _, rfl⟩
    · rcases ih r h with ⟨p', hp', hq⟩ | ⟨front, back, a, rfl, hfront, hback⟩
      · exact .inl ⟨p', .cons e k r hp', hq⟩
      · exact .inr ⟨⟨e, r⟩ :: front, back, a, rfl, .cons e k r hfront, hback⟩

theorem After.bind {q : Prog E R β} (hp : After p front (ret a)) (hf : After (f a) back q) :
    After (p >>= f) (front ++ back) q := by
  generalize hr : ret a = p' at hp
  induction hp with
  | nil p =>
    subst hr
    exact hf
  | cons e k r _ ih => exact .cons e _ r (ih hr)

theorem After.of_map {f : α → β} {q : Prog E R β} (h : After (p >>= fun a => ret (f a)) tr q) :
    ∃ p', After p tr p' := by
  obtain ⟨p', hp', -⟩ | ⟨front, back, a, rfl, hfront, hback⟩ := h.of_bind
  · exact ⟨p', hp'⟩
  · obtain ⟨rfl, -⟩ := hback.of_ret
    rw [List.append_nil]
    exact ⟨_, hfront⟩

theorem After.ret_of_bind {b : β} (h : After (p >>= f) tr (ret b)) :
    ∃ front back a, tr = front ++ back ∧ After p front (ret a) ∧ After (f a) back (ret b) := by
  rcases h.of_bind with ⟨p', hp', hq⟩ | h
  · cases p' with
    | ret a => exact ⟨tr, [], a, (List.append_nil tr).symm, hp', hq ▸ .nil _⟩
    | act e k => cases hq
  · exact h

theorem After.ret_of_map {f : α → β} {b : β} (h : After (p >>= fun a => ret (f a)) tr (ret b)) :
    ∃ a, f a = b ∧ After p tr (ret a) := by
  obtain ⟨front, back, a, rfl, hfront, hback⟩ := h.ret_of_bind
  obtain ⟨rfl, ⟨⟩⟩ := hback.of_ret
  exact ⟨a, rfl, (List.append_nil front).symm ▸ hfront⟩

theorem After.of_embed {ι : E → E'} {back : (e : E) → R' (ι e) → R e}
    {proj : Event E' R' → Option (Event E R)} (hproj : ∀ e r, proj ⟨ι e, r⟩ = some ⟨e, back e r⟩)
    {tr : List (Event E' R')} {q : Prog E' R' α} (h : After (p.embed ι back) tr q) :
    ∃ p', After p (tr.filterMap proj) p' ∧ q = p'.embed ι back := by
  induction p generalizing tr with
  | ret a =>
    obtain ⟨rfl, rfl⟩ := h.of_ret
    exact ⟨ret a, .nil _, rfl⟩
  | act e k ih =>
    obtain ⟨rfl, rfl⟩ | ⟨r, tr', rfl, hrest⟩ := after_act_iff.1 h
    · exact ⟨act e k, .nil _, rfl⟩
    · obtain ⟨p', hp', rfl⟩ := ih _ hrest
      refine ⟨p', ?_, rfl⟩
      rw [List.filterMap_cons, hproj]
      exact .cons e k _ hp'

/-! ## The operations a program can ask for -/

/-- Every operation the program can ask for is allowed. -/
def Uses (allowed : E → Prop) : Prog E R α → Prop
  | ret _ => True
  | act e k => allowed e ∧ ∀ r, (k r).Uses allowed

variable {allowed : E → Prop} {last : E → Prop} {y : Event E R} {x : Event E R}

theorem Uses.bind (hp : p.Uses allowed) (hf : ∀ a, (f a).Uses allowed) :
    (p >>= f).Uses allowed := by
  induction p with
  | ret a => exact hf a
  | act e k ih => exact ⟨hp.1, fun r => ih r (hp.2 r)⟩

theorem Uses.map {f : α → β} (hp : p.Uses allowed) : (p >>= fun a => ret (f a)).Uses allowed :=
  hp.bind fun _ => trivial

theorem Uses.mono {allowed' : E → Prop} (hp : p.Uses allowed) (h : ∀ e, allowed e → allowed' e) :
    p.Uses allowed' := by
  induction p with
  | ret a => trivial
  | act e k ih => exact ⟨h e hp.1, fun r => ih r (hp.2 r)⟩

theorem Uses.of_forall (h : ∀ e, allowed e) : p.Uses allowed := by
  induction p with
  | ret a => trivial
  | act e k ih => exact ⟨h e, ih⟩

theorem Uses.embed {ι : E → E'} {back : (e : E) → R' (ι e) → R e} {allowed' : E' → Prop}
    (hp : p.Uses fun e => allowed' (ι e)) : (p.embed ι back).Uses allowed' := by
  induction p with
  | ret a => trivial
  | act e k ih => exact ⟨hp.1, fun r => ih _ (hp.2 _)⟩

theorem Uses.allowed_of_mem (hp : p.Uses allowed) (h : After p tr q) (hx : x ∈ tr) :
    allowed x.1 := by
  induction h with
  | nil => cases hx
  | cons e k r _ ih =>
    rcases List.mem_cons.1 hx with rfl | hx
    · exact hp.1
    · exact ih (hp.2 r) hx

/-- An operation that the first part does not use belongs to the second. -/
theorem After.split_bind {q : Prog E R β} (h : After (p >>= f) (front ++ x :: back) q)
    (hp : p.Uses allowed) (hnot : ¬ allowed x.1) :
    ∃ front₁ front₂ a, front = front₁ ++ front₂ ∧ After p front₁ (ret a) ∧
      After (f a) (front₂ ++ x :: back) q := by
  induction p generalizing front with
  | ret a => exact ⟨[], front, a, rfl, .nil _, h⟩
  | act e k ih =>
    rw [act_bind] at h
    cases front with
    | nil =>
      cases h with
      | cons e k r h => exact absurd hp.1 hnot
    | cons y front =>
      cases h with
      | cons e k r h =>
        obtain ⟨front₁, front₂, a, rfl, hfront, hrest⟩ := ih r h (hp.2 r)
        exact ⟨⟨e, r⟩ :: front₁, front₂, a, rfl, .cons e _ r hfront, hrest⟩

/-- Once it has asked for a `last` operation, the program only asks for allowed ones. -/
def Settles (last allowed : E → Prop) : Prog E R α → Prop
  | ret _ => True
  | act e k => ∀ r, (last e → (k r).Uses allowed) ∧ (k r).Settles last allowed

theorem Settles.bind (hp : p.Uses fun e => ¬ last e) (hf : ∀ a, (f a).Settles last allowed) :
    (p >>= f).Settles last allowed := by
  induction p with
  | ret a => exact hf a
  | act e k ih => exact fun r => ⟨fun hlast => absurd hlast hp.1, ih r (hp.2 r)⟩

theorem Settles.of_uses (hp : p.Uses allowed) (h : ∀ e, allowed e → ¬ last e) :
    p.Settles last allowed := by
  induction p with
  | ret a => trivial
  | act e k ih => exact fun r => ⟨fun hlast => absurd hlast (h e hp.1), ih r (hp.2 r)⟩

theorem Settles.allowed_of_after (hp : p.Settles last allowed) (h : After p (front ++ x :: back) q)
    (hx : last x.1) (hy : y ∈ back) : allowed y.1 := by
  induction front generalizing p with
  | nil =>
    cases h with
    | cons e k r h => exact ((hp r).1 hx).allowed_of_mem h hy
  | cons z front ih =>
    cases h with
    | cons e k r h => exact ih (hp r).2 h

/-! ## Programs that may fail -/

section Fallible

variable {ε ε' : Type} {f : α → ExceptT ε (Prog E R) β} {x : ExceptT ε (Prog E R) α}
  {r : Except ε β}

/-- A program whose failure is reported through `f`. -/
def orThrow (f : ε → ε') (p : Prog E R (Except ε α)) : ExceptT ε' (Prog E R) α :=
  ExceptT.mk (p >>= fun r => ret (r.mapError f))

/-- The program went through the events and returned the value. -/
abbrev Yields (x : ExceptT ε (Prog E R) α) (tr : List (Event E R)) (a : α) : Prop :=
  After x.run tr (ret (.ok a))

/-- The program went through the events and failed. -/
abbrev Fails (x : ExceptT ε (Prog E R) α) (tr : List (Event E R)) (e : ε) : Prop :=
  After x.run tr (ret (.error e))

theorem After.false_of_error {e : ε} (h : After (ret (Except.error e)) tr (ret (Except.ok a))) :
    False := by
  cases h.of_ret.2

theorem run_bind_eq (x : ExceptT ε (Prog E R) α) (f : α → ExceptT ε (Prog E R) β) :
    (x >>= f).run = x.run >>= fun
      | .ok a => (f a).run
      | .error e => ret (.error e) := by
  change x.run.bind (ExceptT.bindCont f) = x.run.bind _
  congr 1
  funext r
  cases r <;> rfl

/-- How a composed program ends. -/
theorem After.result_of_bind (h : After (x >>= f).run tr (ret r)) :
    (∃ e, r = .error e ∧ After x.run tr (ret (.error e))) ∨
      ∃ front back a, tr = front ++ back ∧ After x.run front (ret (.ok a)) ∧
        After (f a).run back (ret r) := by
  rw [run_bind_eq] at h
  obtain ⟨front, back, first, rfl, hfront, hback⟩ := h.ret_of_bind
  cases first with
  | ok a => exact .inr ⟨front, back, a, rfl, hfront, hback⟩
  | error e =>
    obtain ⟨rfl, ⟨⟩⟩ := hback.of_ret
    rw [List.append_nil]
    exact .inl ⟨e, rfl, hfront⟩

theorem After.ok_of_bind {b : β} (h : After (x >>= f).run tr (ret (.ok b))) :
    ∃ front back a, tr = front ++ back ∧ After x.run front (ret (.ok a)) ∧
      After (f a).run back (ret (.ok b)) := by
  rcases h.result_of_bind with ⟨e, he, -⟩ | h
  · cases he
  · exact h

theorem After.ok_of_orThrow {f : ε → ε'} {p : Prog E R (Except ε α)}
    (h : After (orThrow f p).run tr (ret (.ok a))) : After p tr (ret (.ok a)) := by
  obtain ⟨r, hr, hp⟩ := After.ret_of_map h
  cases r with
  | ok b =>
    cases hr
    exact hp
  | error e => cases hr

theorem After.error_of_bind {e : ε} (h : After (x >>= f).run tr (ret (.error e))) :
    After x.run tr (ret (.error e)) ∨
      ∃ front back a, tr = front ++ back ∧ After x.run front (ret (.ok a)) ∧
        After (f a).run back (ret (.error e)) := by
  rcases h.result_of_bind with ⟨e', he, hfirst⟩ | h
  · cases he
    exact .inl hfirst
  · exact .inr h

theorem After.error_of_orThrow {f : ε → ε'} {p : Prog E R (Except ε α)} {e : ε'}
    (h : After (orThrow f p).run tr (ret (.error e))) :
    ∃ e', e = f e' ∧ After p tr (ret (.error e')) := by
  obtain ⟨r, hr, hp⟩ := After.ret_of_map h
  cases r with
  | ok a => cases hr
  | error e' =>
    cases hr
    exact ⟨e', rfl, hp⟩

theorem run_lift_eq (p : Prog E R α) :
    (liftM p : ExceptT ε (Prog E R) α).run = p >>= fun a => ret (.ok a) := rfl

theorem After.ok_of_lift (h : After (liftM p : ExceptT ε (Prog E R) α).run tr (ret (.ok a))) :
    After p tr (ret a) := by
  rw [run_lift_eq] at h
  obtain ⟨b, hb, hp⟩ := h.ret_of_map
  cases hb
  exact hp

theorem After.result_of_lift (h : After ((liftM p : ExceptT ε (Prog E R) α) >>= f).run tr (ret r)) :
    ∃ front back a, tr = front ++ back ∧ After p front (ret a) ∧ After (f a).run back (ret r) := by
  rcases h.result_of_bind with ⟨e, -, herror⟩ | ⟨front, back, a, rfl, hp, hback⟩
  · rw [run_lift_eq] at herror
    obtain ⟨b, hb, -⟩ := herror.ret_of_map
    cases hb
  · exact ⟨front, back, a, rfl, hp.ok_of_lift, hback⟩

theorem After.result_of_perform {f : R e → ExceptT ε (Prog E R) β}
    (h : After ((liftM (perform e : Prog E R (R e)) : ExceptT ε (Prog E R) (R e)) >>= f).run tr
      (ret r)) : ∃ a back, tr = ⟨e, a⟩ :: back ∧ After (f a).run back (ret r) := by
  obtain ⟨front, back, a, rfl, hperform, hback⟩ := h.result_of_lift
  obtain rfl := hperform.of_perform
  exact ⟨a, back, rfl, hback⟩

theorem After.split_run_bind {q : Prog E R (Except ε β)}
    (h : After (x >>= f).run (front ++ y :: back) q) (hx : x.run.Uses allowed)
    (hnot : ¬ allowed y.1) :
    ∃ front₁ front₂ a, front = front₁ ++ front₂ ∧ After x.run front₁ (ret (.ok a)) ∧
      After (f a).run (front₂ ++ y :: back) q := by
  rw [run_bind_eq] at h
  obtain ⟨front₁, front₂, r, rfl, hfront, hrest⟩ := h.split_bind hx hnot
  cases r with
  | ok a => exact ⟨front₁, front₂, a, rfl, hfront, hrest⟩
  | error e =>
    obtain ⟨hnil, -⟩ := hrest.of_ret
    exact absurd hnil (by simp)

theorem After.past_run_bind {q : Prog E R (Except ε β)} (h : After (x >>= f).run tr q)
    (hx : x.run.Uses allowed) (hy : y ∈ tr) (hnot : ¬ allowed y.1) :
    ∃ front back a, tr = front ++ back ∧ After x.run front (ret (.ok a)) ∧
      After (f a).run back q ∧ y ∈ back := by
  obtain ⟨front, back, rfl⟩ := List.append_of_mem hy
  obtain ⟨front₁, front₂, a, rfl, hfront, hrest⟩ := h.split_run_bind hx hnot
  exact ⟨front₁, front₂ ++ y :: back, a, List.append_assoc .., hfront, hrest, by simp⟩

theorem Uses.lift (hp : p.Uses allowed) : (liftM p : ExceptT ε (Prog E R) α).run.Uses allowed :=
  hp.bind fun _ => trivial

theorem Uses.run_bind (hx : x.run.Uses allowed) (hf : ∀ a, (f a).run.Uses allowed) :
    (x >>= f).run.Uses allowed := by
  rw [run_bind_eq]
  refine hx.bind fun r => ?_
  cases r with
  | ok a => exact hf a
  | error e => trivial

theorem Uses.orThrow {f : ε → ε'} {p : Prog E R (Except ε α)} (hp : p.Uses allowed) :
    (orThrow f p).run.Uses allowed :=
  hp.bind fun _ => trivial

theorem Settles.run_bind (hx : x.run.Uses fun e => ¬ last e)
    (hf : ∀ a, (f a).run.Settles last allowed) : (x >>= f).run.Settles last allowed := by
  rw [run_bind_eq]
  refine Settles.bind hx fun r => ?_
  cases r with
  | ok a => exact hf a
  | error e => trivial

theorem Settles.perform_run_bind {f : R e → ExceptT ε (Prog E R) β}
    (hf : ∀ r, (f r).run.Uses allowed) (h : ∀ e, allowed e → ¬ last e) :
    (liftM (perform e : Prog E R (R e)) >>= f).run.Settles last allowed :=
  fun r => ⟨fun _ => hf r, .of_uses (hf r) h⟩

/-! ### Fixed answers -/

/-- The value of the program, where each operation has one answer or none. -/
def eval (answer : (e : E) → Option (R e)) : Prog E R α → Option α
  | ret a => some a
  | act e k =>
    match answer e with
    | some r => (k r).eval answer
    | none => none

variable {answer : (e : E) → Option (R e)}

theorem eval_bind (p : Prog E R α) (f : α → Prog E R β) :
    (p >>= f).eval answer = (p.eval answer).bind fun a => (f a).eval answer := by
  induction p with
  | ret a => rfl
  | act e k ih =>
    simp only [act_bind, eval]
    cases answer e with
    | none => rfl
    | some r => exact ih r

theorem eval_run_bind (x : ExceptT ε (Prog E R) α) (f : α → ExceptT ε (Prog E R) β) :
    (x >>= f).run.eval answer = (x.run.eval answer).bind fun
      | .ok a => (f a).run.eval answer
      | .error e => some (.error e) := by
  rw [run_bind_eq, eval_bind]
  congr 1
  funext r
  cases r <;> rfl

end Fallible

end Prog

/-! ## Pools -/

/-- Events, each with the number of its task. -/
abbrev Pool.Log (E : Type) (R : E → Type) : Type := List (Nat × Prog.Event E R)

/-- Tasks over a shared state, with the log of what was done: task number, operation, answer. -/
structure Pool (E : Type) (R : E → Type) (σ Call O : Type) where
  shared : σ
  tasks : List (Call × Prog E R O)
  log : Pool.Log E R

/-- One move of the pool: a call comes in, or a task performs its next operation. -/
inductive Move (Call Ans : Type) where
  | spawn (call : Call)
  | act (task : Nat) (answer : Ans)

namespace Pool

variable {E : Type} {R : E → Type} {σ Call O Ans : Type} {x : Prog.Event E R} {i : Nat}
  {log : Log E R}

/-- No tasks yet. -/
def start (s : σ) : Pool E R σ Call O := ⟨s, [], []⟩

/-- What one task did, in order. -/
def trace (log : Log E R) (i : Nat) : List (Prog.Event E R) :=
  (log.filter fun x => x.1 == i).map Prod.snd

theorem mem_of_mem_trace (h : x ∈ trace log i) : (i, x) ∈ log := by
  simp only [trace, List.mem_map, List.mem_filter, beq_iff_eq] at h
  obtain ⟨⟨j, y⟩, ⟨hmem, rfl⟩, rfl⟩ := h
  exact hmem

theorem mem_trace (h : (i, x) ∈ log) : x ∈ trace log i :=
  List.mem_map.2 ⟨(i, x), List.mem_filter.2 ⟨h, by simp⟩, rfl⟩

theorem trace_concat (log : Log E R) (i : Nat) (x : Nat × Prog.Event E R) :
    trace (log ++ [x]) i = if x.1 = i then trace log i ++ [x.2] else trace log i := by
  by_cases h : x.1 = i
  · simp [trace, h]
  · simp [trace, h]

theorem trace_append (log log' : Log E R) (i : Nat) :
    trace (log ++ log') i = trace log i ++ trace log' i := by
  rw [trace, trace, trace, List.filter_append, List.map_append]

theorem filterMap_trace {β : Type} {f : Prog.Event E R → Option β}
    (h : ∀ x ∈ log, x.1 ≠ i → f x.2 = none) :
    log.filterMap (fun x => f x.2) = (trace log i).filterMap f := by
  induction log with
  | nil => rfl
  | cons x log ih =>
    have hrest := ih fun y hy => h y (List.mem_cons_of_mem x hy)
    rw [List.filterMap_cons, hrest]
    by_cases hi : x.1 = i
    · have htrace : trace (x :: log) i = x.2 :: trace log i := by simp [trace, hi]
      rw [htrace, List.filterMap_cons]
    · have htrace : trace (x :: log) i = trace log i := by simp [trace, hi]
      rw [htrace, h x List.mem_cons_self hi]

variable (perform : σ → (e : E) → Ans → Option (R e × σ)) (prog : Call → Prog E R O)

/-- One move of the pool. -/
def step (p : Pool E R σ Call O) : Move Call Ans → Option (Pool E R σ Call O)
  | .spawn call => some { p with tasks := p.tasks ++ [(call, prog call)] }
  | .act i a =>
    match p.tasks[i]? with
    | some (call, .act e k) =>
      match perform p.shared e a with
      | some (r, s) => some ⟨s, p.tasks.set i (call, k r), p.log ++ [(i, ⟨e, r⟩)]⟩
      | none => none
    | _ => none

/-- All moves, in their order. -/
def run (p : Pool E R σ Call O) (moves : List (Move Call Ans)) : Option (Pool E R σ Call O) :=
  moves.foldlM (step perform prog) p

variable {perform prog} {p p' q q' : Pool E R σ Call O} {moves moves' : List (Move Call Ans)}
  {s : σ} {call : Call} {m : Move Call Ans} {P : Pool E R σ Call O → Prop}

theorem task_of_spawn {tasks : List (Call × Prog E R O)} {new task : Call × Prog E R O} {j : Nat}
    (h : (tasks ++ [new])[j]? = some task) :
    tasks[j]? = some task ∨ j = tasks.length ∧ task = new := by
  rcases Nat.lt_trichotomy j tasks.length with hlt | rfl | hgt
  · rw [List.getElem?_append_left hlt] at h
    exact .inl h
  · rw [List.getElem?_concat_length] at h
    exact .inr ⟨rfl, (Option.some.inj h).symm⟩
  · rw [List.getElem?_eq_none (by rw [List.length_append]; exact hgt)] at h
    cases h

theorem step_cases (h : step perform prog p m = some p') :
    (∃ call, m = .spawn call ∧ p' = { p with tasks := p.tasks ++ [(call, prog call)] }) ∨
    ∃ i a call e k r s, m = .act i a ∧ p.tasks[i]? = some (call, .act e k) ∧
      perform p.shared e a = some (r, s) ∧
      p' = ⟨s, p.tasks.set i (call, k r), p.log ++ [(i, ⟨e, r⟩)]⟩ := by
  cases m with
  | spawn call => exact .inl ⟨call, rfl, by simpa [step] using h.symm⟩
  | act i a =>
    simp only [step] at h
    split at h
    · next call e k htask =>
      split at h
      · next r s hperform =>
        exact .inr ⟨i, a, call, e, k, r, s, rfl, htask, hperform, by simpa using h.symm⟩
      · simp at h
    · simp at h

theorem run_induction (hstep : ∀ p m p', P p → step perform prog p m = some p' → P p')
    (h : run perform prog p moves = some p') (hp : P p) : P p' := by
  induction moves generalizing p with
  | nil =>
    obtain rfl : p = p' := by simpa [run] using h
    exact hp
  | cons m ms ih =>
    simp only [run, List.foldlM_cons, Option.bind_eq_bind, Option.bind_eq_some_iff] at h
    obtain ⟨q, hq, hrest⟩ := h
    exact ih hrest (hstep p m q hp hq)

theorem run_concat_iff :
    run perform prog p (moves ++ [m]) = some p' ↔
      ∃ q, run perform prog p moves = some q ∧ step perform prog q m = some p' := by
  simp only [run, List.foldlM_append, List.foldlM_cons, List.foldlM_nil, Option.bind_eq_bind,
    Option.bind_eq_some_iff, Option.pure_def, Option.some.injEq, exists_eq_right]

variable (perform prog) in
/-- One step of a run: in the pool `q`, task `i` performs `x`. -/
def StepOf (p : Pool E R σ Call O) (moves : List (Move Call Ans)) (q : Pool E R σ Call O) (i : Nat)
    (x : Prog.Event E R) (q' : Pool E R σ Call O) : Prop :=
  ∃ before m after, moves = before ++ m :: after ∧ run perform prog p before = some q ∧
    step perform prog q m = some q' ∧ q'.log = q.log ++ [(i, x)]

theorem StepOf.append (h : StepOf perform prog p moves q i x q') (rest : List (Move Call Ans)) :
    StepOf perform prog p (moves ++ rest) q i x q' := by
  obtain ⟨before, m, after, rfl, hq, hstep, hlog⟩ := h
  exact ⟨before, m, after ++ rest, by simp, hq, hstep, hlog⟩

theorem StepOf.performs (h : StepOf perform prog p moves q i x q') :
    ∃ call k a s, q.tasks[i]? = some (call, .act x.1 k) ∧
      perform q.shared x.1 a = some (x.2, s) ∧
      q' = ⟨s, q.tasks.set i (call, k x.2), q.log ++ [(i, x)]⟩ := by
  obtain ⟨before, m, after, -, -, hstep, hlog⟩ := h
  obtain ⟨call, -, rfl⟩ | ⟨j, a, call, e, k, r, s, -, htask, hperform, rfl⟩ := step_cases hstep
  · exact absurd (congrArg List.length hlog) (by simp)
  · obtain ⟨rfl, rfl⟩ : j = i ∧ (⟨e, r⟩ : Prog.Event E R) = x := by simpa using hlog
    exact ⟨call, k, a, s, htask, hperform, rfl⟩

theorem StepOf.reached (h : StepOf perform prog p moves q i x q') :
    ∃ before, run perform prog p before = some q := by
  obtain ⟨before, m, after, -, hq, -, -⟩ := h
  exact ⟨before, hq⟩

theorem run_log_prefix (h : run perform prog p moves = some p') : p.log <+: p'.log := by
  refine run_induction (P := fun r => p.log <+: r.log) ?_ h List.prefix_rfl
  intro r m r' hr hm
  obtain ⟨call, -, rfl⟩ | ⟨j, a, call, e, k, y, s, -, -, -, rfl⟩ := step_cases hm
  · exact hr
  · exact hr.trans (List.prefix_append _ _)

theorem StepOf.log_prefix (h : StepOf perform prog p moves q i x q')
    (hrun : run perform prog p moves = some p') : q'.log <+: p'.log := by
  obtain ⟨before, m, after, rfl, hq, hstep, -⟩ := h
  obtain ⟨q₁, hq₁, hafter⟩ : ∃ q₁, step perform prog q m = some q₁ ∧
      run perform prog q₁ after = some p' := by
    simpa only [run, List.foldlM_append, List.foldlM_cons, Option.bind_eq_bind,
      Option.bind_eq_some_iff, show before.foldlM (step perform prog) p = some q from hq,
      Option.some.injEq, exists_eq_left'] using hrun
  obtain rfl : q₁ = q' := Option.some.inj (hq₁.symm.trans hstep)
  exact run_log_prefix hafter

/-- Induction over the steps of a run, with what is known of each of them. -/
theorem run_induction_steps (hp : P p)
    (hspawn : ∀ q call, P q → P { q with tasks := q.tasks ++ [(call, prog call)] })
    (hstep : ∀ q i x q', StepOf perform prog p moves q i x q' → P q → P q')
    (h : run perform prog p moves = some p') : P p' := by
  induction moves using List.reverseRecOn generalizing p' with
  | nil =>
    obtain rfl : p = p' := by simpa [run] using h
    exact hp
  | append_singleton moves m ih =>
    obtain ⟨q, hq, hm⟩ := run_concat_iff.1 h
    have hPq : P q := ih (fun q i x q' hs => hstep q i x q' (hs.append [m])) hq
    obtain ⟨call, -, rfl⟩ | ⟨i, a, call, e, k, r, s, -, -, -, rfl⟩ := step_cases hm
    · exact hspawn q call hPq
    · exact hstep q i ⟨e, r⟩ _ ⟨moves, m, [], rfl, hq, hm, rfl⟩ hPq

variable (perform prog) in
/-- The steps of a run, in order. -/
def steps : Pool E R σ Call O → List (Move Call Ans) →
    List (Pool E R σ Call O × Nat × Prog.Event E R × Pool E R σ Call O)
  | _, [] => []
  | p, m :: ms =>
    match step perform prog p m with
    | none => []
    | some p' => (p'.log.drop p.log.length).map (fun y => (p, y.1, y.2, p')) ++ steps p' ms

theorem steps_cons (p : Pool E R σ Call O) (m : Move Call Ans) (ms : List (Move Call Ans)) :
    steps perform prog p (m :: ms) = [] ∨
    (∃ call, steps perform prog p (m :: ms) =
      steps perform prog { p with tasks := p.tasks ++ [(call, prog call)] } ms) ∨
    ∃ i a call e k r s, p.tasks[i]? = some (call, .act e k) ∧ perform p.shared e a = some (r, s) ∧
      steps perform prog p (m :: ms) =
        (p, i, ⟨e, r⟩, ⟨s, p.tasks.set i (call, k r), p.log ++ [(i, ⟨e, r⟩)]⟩) ::
          steps perform prog ⟨s, p.tasks.set i (call, k r), p.log ++ [(i, ⟨e, r⟩)]⟩ ms := by
  cases hm : step perform prog p m with
  | none => exact .inl (by simp [steps, hm])
  | some p' =>
    obtain ⟨call, -, rfl⟩ | ⟨i, a, call, e, k, r, s, -, htask, hperform, rfl⟩ := step_cases hm
    · exact .inr (.inl ⟨call, by simp [steps, hm]⟩)
    · exact .inr (.inr ⟨i, a, call, e, k, r, s, htask, hperform, by simp [steps, hm]⟩)

theorem stepOf_cons_iff {ms : List (Move Call Ans)} :
    StepOf perform prog p (m :: ms) q i x q' ↔
      (q = p ∧ step perform prog p m = some q' ∧ q'.log = p.log ++ [(i, x)]) ∨
        ∃ p', step perform prog p m = some p' ∧ StepOf perform prog p' ms q i x q' := by
  constructor
  · rintro ⟨before, m', after, hsplit, hq, hstep, hlog⟩
    cases before with
    | nil =>
      obtain ⟨rfl, rfl⟩ : m = m' ∧ ms = after := by simpa using hsplit
      obtain rfl : p = q := by simpa [run] using hq
      exact .inl ⟨rfl, hstep, hlog⟩
    | cons m₁ before =>
      obtain ⟨rfl, rfl⟩ : m = m₁ ∧ ms = before ++ m' :: after := by simpa using hsplit
      obtain ⟨p', hp', hq⟩ : ∃ p', step perform prog p m = some p' ∧
          run perform prog p' before = some q := by
        simpa [run, List.foldlM_cons, Option.bind_eq_some_iff] using hq
      exact .inr ⟨p', hp', before, m', after, rfl, hq, hstep, hlog⟩
  · rintro (⟨rfl, hstep, hlog⟩ | ⟨p', hp', before, m', after, rfl, hq, hstep, hlog⟩)
    · exact ⟨[], m, ms, rfl, rfl, hstep, hlog⟩
    · refine ⟨m :: before, m', after, rfl, ?_, hstep, hlog⟩
      simpa [run, List.foldlM_cons, hp'] using hq

theorem mem_steps_iff :
    (q, i, x, q') ∈ steps perform prog p moves ↔ StepOf perform prog p moves q i x q' := by
  induction moves generalizing p with
  | nil => simp [steps, StepOf]
  | cons m ms ih =>
    rw [stepOf_cons_iff, steps]
    cases hm : step perform prog p m with
    | none => simp
    | some p' =>
      -- a move logs one event or, where it spawns a task, none
      have hnew : (q, i, x, q') ∈ (p'.log.drop p.log.length).map (fun y => (p, y.1, y.2, p')) ↔
          q = p ∧ p' = q' ∧ q'.log = p.log ++ [(i, x)] := by
        obtain ⟨call, -, rfl⟩ | ⟨j, a, call, e, k, r, s, -, -, -, rfl⟩ := step_cases hm
        · constructor
          · simp
          · rintro ⟨-, rfl, hlog⟩
            exact absurd (congrArg List.length hlog) (by simp)
        · simp only [List.drop_left, List.map_cons, List.map_nil, List.mem_singleton,
            Prod.mk.injEq]
          constructor
          · rintro ⟨rfl, rfl, rfl, rfl⟩
            exact ⟨rfl, rfl, rfl⟩
          · rintro ⟨rfl, rfl, hlog⟩
            obtain ⟨rfl, rfl⟩ : j = i ∧ (⟨e, r⟩ : Prog.Event E R) = x := by simpa using hlog
            exact ⟨rfl, rfl, rfl, rfl⟩
      simp only [List.mem_append, hnew, ih, Option.some.injEq, exists_eq_left']

theorem run_tasks (h : run perform prog (start s) moves = some p) :
    (∀ x ∈ p.log, x.1 < p.tasks.length) ∧
      ∀ i call q, p.tasks[i]? = some (call, q) → Prog.After (prog call) (trace p.log i) q := by
  refine run_induction (P := fun p => (∀ x ∈ p.log, x.1 < p.tasks.length) ∧
      ∀ i call q, p.tasks[i]? = some (call, q) → Prog.After (prog call) (trace p.log i) q)
    ?_ h ⟨by simp [start], by simp [start]⟩
  rintro p m p' ⟨hlt, hafter⟩ hm
  obtain ⟨call, -, rfl⟩ | ⟨i, a, call, e, k, r, s, -, htask, -, rfl⟩ := step_cases hm
  · refine ⟨fun x hx => ?_, fun j c q hj => ?_⟩
    · have := hlt x hx
      simp only [List.length_append, List.length_singleton]
      omega
    · rcases task_of_spawn hj with hj | ⟨rfl, hnew⟩
      · exact hafter j c q hj
      · -- the new task has no events yet
        cases hnew
        have hnil : trace p.log p.tasks.length = [] := by
          simp only [trace, List.map_eq_nil_iff, List.filter_eq_nil_iff, beq_iff_eq]
          exact fun x hx heq => absurd (hlt x hx) (by omega)
        rw [hnil]
        exact .nil _
  · have hi : i < p.tasks.length := (List.getElem?_eq_some_iff.1 htask).1
    refine ⟨fun x hx => ?_, fun j c q hj => ?_⟩
    · rw [List.length_set]
      rcases List.mem_append.1 hx with hx | hx
      · exact hlt x hx
      · rw [List.mem_singleton.1 hx]
        exact hi
    · rw [trace_concat]
      by_cases hij : i = j
      · subst hij
        rw [List.getElem?_set_self hi] at hj
        obtain ⟨rfl, rfl⟩ : call = c ∧ k r = q := by simpa using hj
        rw [if_pos rfl]
        exact (hafter i call _ htask).concat r
      · rw [List.getElem?_set_ne hij] at hj
        rw [if_neg hij]
        exact hafter j c q hj

/-- What a task did is a trace of its program. -/
theorem run_after (h : run perform prog (start s) moves = some p) {q : Prog E R O}
    (hi : p.tasks[i]? = some (call, q)) : Prog.After (prog call) (trace p.log i) q :=
  (run_tasks h).2 i call q hi

theorem StepOf.after (h : StepOf perform prog (start s) moves q i x q') {left : Prog E R O}
    (htask : q'.tasks[i]? = some (call, left)) :
    Prog.After (prog call) (trace q.log i ++ [x]) left := by
  obtain ⟨before, m, after, -, hq, hm, hlog⟩ := h
  have hafter := run_after (run_concat_iff.2 ⟨q, hq, hm⟩) htask
  rwa [hlog, trace_concat, if_pos rfl] at hafter

theorem trace_eq_nil (h : run perform prog (start s) moves = some p) (hi : p.tasks[i]? = none) :
    trace p.log i = [] := by
  refine List.eq_nil_iff_forall_not_mem.2 fun x hx => ?_
  have hlt := (run_tasks h).1 _ (mem_of_mem_trace hx)
  exact absurd (List.getElem?_eq_none_iff.1 hi) (Nat.not_le.2 hlt)

theorem run_append (h : run perform prog p moves = some q) :
    run perform prog p (moves ++ moves') = run perform prog q moves' := by
  rw [run, List.foldlM_append, show moves.foldlM _ p = some q from h]
  rfl

theorem StepOf.run_rest (h : StepOf perform prog p moves q i x q')
    (hrun : run perform prog p moves = some p') : ∃ rest, run perform prog q rest = some p' := by
  obtain ⟨before, m, after, rfl, hq, -, -⟩ := h
  exact ⟨m :: after, (run_append hq).symm.trans hrun⟩

/-- Of two steps, one comes first. -/
theorem StepOf.run_between {q₁ q₁' q₂ q₂' : Pool E R σ Call O} {j : Nat} {y : Prog.Event E R}
    (h₁ : StepOf perform prog p moves q₁ i x q₁') (h₂ : StepOf perform prog p moves q₂ j y q₂') :
    (∃ rest, run perform prog q₁ rest = some q₂) ∨ ∃ rest, run perform prog q₂ rest = some q₁ := by
  obtain ⟨before₁, m₁, after₁, hmoves₁, hq₁, -, -⟩ := h₁
  obtain ⟨before₂, m₂, after₂, hmoves₂, hq₂, -, -⟩ := h₂
  rcases List.append_eq_append_iff.1 (hmoves₁.symm.trans hmoves₂) with
    ⟨rest, rfl, -⟩ | ⟨rest, rfl, -⟩
  · exact .inl ⟨rest, (run_append hq₁).symm.trans hq₂⟩
  · exact .inr ⟨rest, (run_append hq₂).symm.trans hq₁⟩

/-- What is logged was a step. -/
theorem exists_stepOf_of_mem_log (h : run perform prog (start s) moves = some p)
    (hx : (i, x) ∈ p.log) : ∃ q q', StepOf perform prog (start s) moves q i x q' := by
  induction moves using List.reverseRecOn generalizing p with
  | nil =>
    obtain rfl : start s = p := by simpa [run] using h
    cases hx
  | append_singleton moves m ih =>
    obtain ⟨q, hq, hm⟩ := run_concat_iff.1 h
    have hearlier (hx : (i, x) ∈ q.log) :
        ∃ q q', StepOf perform prog (start s) (moves ++ [m]) q i x q' := by
      obtain ⟨r, r', hr⟩ := ih hq hx
      exact ⟨r, r', hr.append [m]⟩
    obtain ⟨call, -, rfl⟩ | ⟨j, a, call, e, k, r, s', -, -, -, rfl⟩ := step_cases hm
    · exact hearlier hx
    · rcases List.mem_append.1 hx with hx | hx
      · exact hearlier hx
      · obtain ⟨rfl, rfl⟩ := Prod.mk.inj (List.mem_singleton.1 hx)
        exact ⟨q, _, moves, m, [], rfl, hq, hm, rfl⟩

theorem run_returned (h : run perform prog p moves = some p') {o : O}
    (hi : p.tasks[i]? = some (call, .ret o)) : p'.tasks[i]? = some (call, .ret o) := by
  refine run_induction (P := fun q => q.tasks[i]? = some (call, .ret o)) ?_ h hi
  rintro q m q' hq hm
  obtain ⟨c, -, rfl⟩ | ⟨j, a, c, e, k, r, s, -, htask, -, rfl⟩ := step_cases hm
  · exact (List.getElem?_append_left (List.getElem?_eq_some_iff.1 hq).1).trans hq
  · have hne : j ≠ i := by
      rintro rfl
      cases htask.symm.trans hq
    exact (List.getElem?_set_ne hne).trans hq

/-- What a task does that came in after another one had returned. -/
theorem run_later (h : run perform prog (start s) moves = some p)
    (h' : run perform prog p moves' = some p') {j : Nat} {call' : Call} {o : O} {left : Prog E R O}
    (hi : p.tasks[i]? = some (call, .ret o)) (hj : p.tasks.length ≤ j)
    (htask : p'.tasks[j]? = some (call', left)) (hx : x ∈ trace p'.log j) :
    ∃ q q' k, StepOf perform prog (start s) (moves ++ moves') q j x q' ∧
      q.tasks[i]? = some (call, .ret o) ∧ q.tasks[j]? = some (call', .act x.1 k) ∧
      q'.log <+: p'.log := by
  induction moves' using List.reverseRecOn generalizing p' left with
  | nil =>
    obtain rfl : p = p' := by simpa [run] using h'
    rw [List.getElem?_eq_none hj] at htask
    cases htask
  | append_singleton moves' m ih =>
    obtain ⟨q, hq, hm⟩ := run_concat_iff.1 h'
    have hrun := (run_append h).trans hq
    -- what was done before the last move
    have hbefore {left : Prog E R O} (hleft : q.tasks[j]? = some (call', left))
        (hx : x ∈ trace q.log j) (hlog : q.log <+: p'.log) : ∃ q q' k,
        StepOf perform prog (start s) (moves ++ (moves' ++ [m])) q j x q' ∧
          q.tasks[i]? = some (call, .ret o) ∧ q.tasks[j]? = some (call', .act x.1 k) ∧
          q'.log <+: p'.log := by
      obtain ⟨q₁, q₂, k, hstep, hi', hj', hlog'⟩ := ih hq hleft hx
      rw [← List.append_assoc]
      exact ⟨q₁, q₂, k, hstep.append [m], hi', hj', hlog'.trans hlog⟩
    obtain ⟨c, -, rfl⟩ | ⟨k, a, c, e, next, r, s', -, hk, -, rfl⟩ := step_cases hm
    · rcases Nat.lt_or_ge j q.tasks.length with hlt | hge
      · rw [List.getElem?_append_left hlt] at htask
        exact hbefore htask hx List.prefix_rfl
      · rw [trace_eq_nil hrun (List.getElem?_eq_none hge)] at hx
        cases hx
    · by_cases hkj : k = j
      · subst hkj
        rw [List.getElem?_set_self (List.getElem?_eq_some_iff.1 hk).1] at htask
        obtain rfl : c = call' := congrArg Prod.fst (Option.some.inj htask)
        rw [trace_concat, if_pos rfl] at hx
        rcases mem_concat_iff.1 hx with hx | hx
        · exact hbefore hk hx (List.prefix_append _ _)
        · obtain rfl := hx
          refine ⟨q, _, next, ⟨moves ++ moves', m, [], by simp, hrun, hm, rfl⟩,
            run_returned hq hi, hk, List.prefix_rfl⟩
      · rw [List.getElem?_set_ne hkj] at htask
        rw [trace_concat, if_neg hkj] at hx
        exact hbefore htask hx (List.prefix_append _ _)

theorem trace_mono {log' : Log E R} (h : log <+: log') (i : Nat) :
    trace log i <+: trace log' i := by
  obtain ⟨rest, rfl⟩ := h
  rw [trace_append]
  exact List.prefix_append _ _

theorem StepOf.trace_prefix (h : StepOf perform prog p moves q i x q')
    (hrun : run perform prog p moves = some p') : trace q.log i ++ [x] <+: trace p'.log i := by
  have hprefix := trace_mono (h.log_prefix hrun) i
  obtain ⟨-, -, -, -, -, -, hlog⟩ := h
  rwa [hlog, trace_concat, if_pos rfl] at hprefix

/-- **Every logged answer was given in a state that satisfies the invariant for the log before it.**
-/
theorem log_explained {I : Log E R → σ → Prop} (h0 : I [] s)
    (hkeep : ∀ log s i e a r s', I log s → perform s e a = some (r, s') →
      I (log ++ [(i, ⟨e, r⟩)]) s') (h : run perform prog (start s) moves = some p) {e : E} {r : R e}
    (hx : (i, ⟨e, r⟩) ∈ p.log) :
    ∃ log s a s', log ++ [(i, ⟨e, r⟩)] <+: p.log ∧ I log s ∧
      perform s e a = some (r, s') := by
  let Explained (p : Pool E R σ Call O) : Prop :=
    I p.log p.shared ∧ ∀ i e (r : R e), (i, ⟨e, r⟩) ∈ p.log →
      ∃ log s a s', log ++ [(i, ⟨e, r⟩)] <+: p.log ∧ I log s ∧ perform s e a = some (r, s')
  suffices hinv : Explained p from hinv.2 i e r hx
  refine run_induction ?_ h ⟨h0, by simp [start]⟩
  rintro p m p' ⟨hI, hlog⟩ hm
  obtain ⟨call, -, rfl⟩ | ⟨j, a, call, e, k, r, s, -, -, hperform, rfl⟩ := step_cases hm
  · exact ⟨hI, hlog⟩
  · refine ⟨hkeep _ _ j e a r s hI hperform, fun i e' r' hmem => ?_⟩
    rcases mem_concat_iff.1 hmem with hmem | hmem
    · obtain ⟨log, s0, a0, s0', hlog, hI0, hp0⟩ := hlog i e' r' hmem
      exact ⟨log, s0, a0, s0', hlog.trans (List.prefix_append _ _), hI0, hp0⟩
    · cases hmem
      exact ⟨p.log, p.shared, a, s, List.prefix_rfl, hI, hperform⟩

/-- A part of the state that follows the log. -/
theorem run_view {V : Type} {view : σ → V} {after : V → Prog.Event E R → V}
    (hview : ∀ s e a r s', perform s e a = some (r, s') → view s' = after (view s) ⟨e, r⟩)
    (h : run perform prog p moves = some p') :
    ∃ new, p'.log = p.log ++ new ∧
      view p'.shared = new.foldl (fun v x => after v x.2) (view p.shared) := by
  refine run_induction (P := fun q => ∃ new, q.log = p.log ++ new ∧
    view q.shared = new.foldl (fun v x => after v x.2) (view p.shared)) ?_ h ⟨[], by simp⟩
  rintro q m q' ⟨new, hlog, hshared⟩ hm
  obtain ⟨call, -, rfl⟩ | ⟨i, a, call, e, k, r, s, -, -, hperform, rfl⟩ := step_cases hm
  · exact ⟨new, hlog, hshared⟩
  · refine ⟨new ++ [(i, ⟨e, r⟩)], by rw [hlog, List.append_assoc], ?_⟩
    rw [List.foldl_append, ← hshared]
    exact hview _ _ _ _ _ hperform

theorem run_alone {answers : List Ans} {q : Prog E R O}
    (h : run perform prog p (answers.map (Move.act i)) = some p')
    (hi : p.tasks[i]? = some (call, q)) :
    ∃ tr q', p'.log = p.log ++ tr.map (fun x => (i, x)) ∧ p'.tasks[i]? = some (call, q') ∧
      Prog.After q tr q' := by
  induction answers generalizing p q with
  | nil =>
    obtain rfl : p = p' := by simpa [run] using h
    exact ⟨[], q, by simp, hi, .nil q⟩
  | cons a answers ih =>
    obtain ⟨p₁, hp₁, hrest⟩ : ∃ p₁, step perform prog p (.act i a) = some p₁ ∧
        run perform prog p₁ (answers.map (Move.act i)) = some p' := by
      simpa [run, List.foldlM_cons, Option.bind_eq_some_iff] using h
    obtain ⟨_, habs, -⟩ | ⟨j, _, call', e, k, r, s, hmove, htask, -, rfl⟩ := step_cases hp₁
    · cases habs
    cases hmove
    obtain ⟨rfl, rfl⟩ : call' = call ∧ .act e k = q := by simpa [htask] using hi
    have hlt : i < p.tasks.length := (List.getElem?_eq_some_iff.1 htask).1
    obtain ⟨tr, q', hlog, htask', hafter⟩ := ih hrest (List.getElem?_set_self hlt)
    exact ⟨⟨e, r⟩ :: tr, q', by simp [hlog], htask', .cons e k r hafter⟩

end Pool

end QfcServerWallet.Lib
