import QfcServerWallet.Lib.Prog
import Mathlib.Data.List.Forall2

/-!
# Programs run alone, and sequences of calls

The sequential counterpart of the pools of `Lib.Prog`: one program runs to its end before the next
one starts.

* `step s e r s'`: in state `s` the operation `e` is answered by `r`, and the state is `s'`. Which
  answers are possible is up to the relation; a blocked operation has none.
* `spec : τ → Call → O × τ` is an object that answers a call at once. `replay` is its session.

Results: `runs_bind_iff`, `runs_run_bind_iff` and their companions take a run apart,
**`Session.simulates`**, `Session.total` and `Pool.exists_run_of_runs`.
-/

namespace QfcServerWallet.Lib

namespace Prog

variable {E : Type} {R : E → Type} {σ α β ε ε' : Type}

/-- Run alone from the first state, the program returns a value and leaves the second state. -/
inductive Runs (step : σ → (e : E) → R e → σ → Prop) : σ → Prog E R α → α → σ → Prop
  | ret (s : σ) (a : α) : Runs step s (ret a) a s
  | act {s s' s'' : σ} {e : E} {k : R e → Prog E R α} {r : R e} {a : α} :
      step s e r s' → Runs step s' (k r) a s'' → Runs step s (act e k) a s''

variable {step : σ → (e : E) → R e → σ → Prop} {s s' : σ} {f : α → ExceptT ε (Prog E R) β}
  {x : ExceptT ε (Prog E R) α} {p : Prog E R α} {a : α} {P : α → σ → Prop} {Q : α → σ → Prop}
  {o : Except ε β} {s₀ : σ}

@[simp] theorem runs_ret_iff {a b : α} :
    Runs step s (ret a : Prog E R α) b s' ↔ b = a ∧ s' = s := by
  constructor
  · intro h
    cases h
    exact ⟨rfl, rfl⟩
  · rintro ⟨rfl, rfl⟩
    exact .ret _ _

theorem runs_act_iff {e : E} {k : R e → Prog E R α} :
    Runs step s (act e k) a s' ↔ ∃ r s₁, step s e r s₁ ∧ Runs step s₁ (k r) a s' := by
  constructor
  · intro h
    cases h with
    | act hstep hrest => exact ⟨_, _, hstep, hrest⟩
  · rintro ⟨r, s₁, hstep, hrest⟩
    exact .act hstep hrest

theorem runs_perform_iff {e : E} {r : R e} :
    Runs step s (perform e : Prog E R (R e)) r s' ↔ step s e r s' := by
  rw [perform, runs_act_iff]
  constructor
  · rintro ⟨r', s₁, hstep, hret⟩
    obtain ⟨rfl, rfl⟩ := runs_ret_iff.1 hret
    exact hstep
  · intro h
    exact ⟨r, s', h, .ret _ _⟩

/-- A run of one program after another. -/
theorem runs_bind_iff {f : α → Prog E R β} {b : β} :
    Runs step s (p >>= f) b s' ↔ ∃ a s₁, Runs step s p a s₁ ∧ Runs step s₁ (f a) b s' := by
  induction p generalizing s with
  | ret a =>
    constructor
    · intro h
      exact ⟨a, s, .ret _ _, h⟩
    · rintro ⟨a', s₁, hp, hf⟩
      obtain ⟨rfl, rfl⟩ := runs_ret_iff.1 hp
      exact hf
  | act e k ih =>
    rw [act_bind, runs_act_iff]
    simp only [ih, runs_act_iff]
    constructor
    · rintro ⟨r, s₁, hstep, a, s₂, hk, hf⟩
      exact ⟨a, s₂, ⟨r, s₁, hstep, hk⟩, hf⟩
    · rintro ⟨a, s₂, ⟨r, s₁, hstep, hk⟩, hf⟩
      exact ⟨r, s₁, hstep, a, s₂, hk, hf⟩

theorem Runs.mono {step' : σ → (e : E) → R e → σ → Prop} (h : Runs step s p a s')
    (himp : ∀ s e r s', step s e r s' → step' s e r s') : Runs step' s p a s' := by
  induction h with
  | ret s a => exact .ret s a
  | act hstep _ ih => exact .act (himp _ _ _ _ hstep) ih

theorem runs_embed_iff {E' : Type} {R' : E' → Type} {ι : E → E'} {back : (e : E) → R' (ι e) → R e}
    {step' : σ → (e : E') → R' e → σ → Prop}
    (hstep : ∀ s e r s', step s e r s' ↔ ∃ r', back e r' = r ∧ step' s (ι e) r' s') :
    Runs step' s (p.embed ι back) a s' ↔ Runs step s p a s' := by
  induction p generalizing s with
  | ret b => rw [embed, runs_ret_iff, runs_ret_iff]
  | act e k ih =>
    rw [embed, runs_act_iff, runs_act_iff]
    simp only [ih]
    constructor
    · rintro ⟨r', s₁, hr', hrest⟩
      exact ⟨back e r', s₁, (hstep _ _ _ _).2 ⟨r', rfl, hr'⟩, hrest⟩
    · rintro ⟨r, s₁, hr, hrest⟩
      obtain ⟨r', rfl, hr'⟩ := (hstep _ _ _ _).1 hr
      exact ⟨r', s₁, hr', hrest⟩

/-! ### Programs that may fail -/

/-- A computation without operations. -/
def ofExcept (x : Except ε α) : ExceptT ε (Prog E R) α := ExceptT.mk (ret x)

theorem Uses.ofExcept_bind {x : Except ε α} {allowed : E → Prop}
    (hf : ∀ a, x = .ok a → (f a).run.Uses allowed) : (ofExcept x >>= f).run.Uses allowed := by
  cases x with
  | error e => trivial
  | ok a => exact hf a rfl

theorem runs_run_bind_iff :
    Runs step s (x >>= f).run o s' ↔ ∃ r s₁, Runs step s x.run r s₁ ∧
      match r with
      | .ok a => Runs step s₁ (f a).run o s'
      | .error e => o = .error e ∧ s' = s₁ := by
  rw [run_bind_eq, runs_bind_iff]
  refine exists_congr fun r => exists_congr fun s₁ => and_congr_right fun _ => ?_
  cases r with
  | ok a => exact Iff.rfl
  | error e => exact runs_ret_iff

theorem Runs.run_bind {s₁ : σ} (hx : Runs step s x.run (.ok a) s₁)
    (hf : Runs step s₁ (f a).run o s') : Runs step s (x >>= f).run o s' :=
  runs_run_bind_iff.2 ⟨.ok a, s₁, hx, hf⟩

theorem Runs.ok_of_bind {b : β} (h : Runs step s (x >>= f).run (.ok b) s') :
    ∃ a s₁, Runs step s x.run (.ok a) s₁ ∧ Runs step s₁ (f a).run (.ok b) s' := by
  obtain ⟨r, s₁, hx, hrest⟩ := runs_run_bind_iff.1 h
  cases r with
  | ok a => exact ⟨a, s₁, hx, hrest⟩
  | error e => cases hrest.1

theorem runs_run_bind_of_ok {s₁ : σ} (hx : ∀ r s', Runs step s x.run r s' ↔ r = .ok a ∧ s' = s₁) :
    Runs step s (x >>= f).run o s' ↔ Runs step s₁ (f a).run o s' := by
  rw [runs_run_bind_iff]
  constructor
  · rintro ⟨r, s₂, hr, hrest⟩
    obtain ⟨rfl, rfl⟩ := (hx r s₂).1 hr
    exact hrest
  · intro hrest
    exact ⟨.ok a, s₁, (hx _ _).2 ⟨rfl, rfl⟩, hrest⟩

theorem runs_run_bind_of_error {e : ε} {s₁ : σ}
    (hx : ∀ r s', Runs step s x.run r s' ↔ r = .error e ∧ s' = s₁) :
    Runs step s (x >>= f).run o s' ↔ o = .error e ∧ s' = s₁ := by
  rw [runs_run_bind_iff]
  constructor
  · rintro ⟨r, s₂, hr, hrest⟩
    obtain ⟨rfl, rfl⟩ := (hx r s₂).1 hr
    exact hrest
  · intro hrest
    exact ⟨.error e, s₁, (hx _ _).2 ⟨rfl, rfl⟩, hrest⟩

theorem runs_run_orThrow_iff {f : ε → ε'} {p : Prog E R (Except ε α)} {o : Except ε' α} :
    Runs step s (orThrow f p).run o s' ↔ ∃ r, o = r.mapError f ∧ Runs step s p r s' := by
  change Runs step s (p >>= fun r => ret (r.mapError f)) o s' ↔ _
  rw [runs_bind_iff]
  constructor
  · rintro ⟨r, s₁, hp, hret⟩
    obtain ⟨rfl, rfl⟩ := runs_ret_iff.1 hret
    exact ⟨r, rfl, hp⟩
  · rintro ⟨r, rfl, hp⟩
    exact ⟨r, s', hp, .ret _ _⟩

theorem Runs.orThrow {f : ε → ε'} {p : Prog E R (Except ε α)} (h : Runs step s p (.ok a) s') :
    Runs step s (Prog.orThrow f p).run (.ok a) s' :=
  runs_run_orThrow_iff.2 ⟨.ok a, rfl, h⟩

theorem Runs.ok_of_orThrow {f : ε → ε'} {p : Prog E R (Except ε α)}
    (h : Runs step s (Prog.orThrow f p).run (.ok a) s') : Runs step s p (.ok a) s' := by
  obtain ⟨r, hr, hp⟩ := runs_run_orThrow_iff.1 h
  cases r with
  | ok b =>
    cases hr
    exact hp
  | error e => cases hr

theorem runs_run_lift_iff {o : Except ε α} :
    Runs step s (liftM p : ExceptT ε (Prog E R) α).run o s' ↔
      ∃ a, o = .ok a ∧ Runs step s p a s' := by
  rw [run_lift_eq, runs_bind_iff]
  constructor
  · rintro ⟨a, s₁, hp, hret⟩
    obtain ⟨rfl, rfl⟩ := runs_ret_iff.1 hret
    exact ⟨a, rfl, hp⟩
  · rintro ⟨a, rfl, hp⟩
    exact ⟨a, s', hp, .ret _ _⟩

theorem Runs.lift (h : Runs step s p a s') :
    Runs step s (liftM p : ExceptT ε (Prog E R) α).run (.ok a) s' :=
  runs_run_lift_iff.2 ⟨a, rfl, h⟩

theorem Runs.of_lift (h : Runs step s (liftM p : ExceptT ε (Prog E R) α).run (.ok a) s') :
    Runs step s p a s' := by
  obtain ⟨b, hb, hp⟩ := runs_run_lift_iff.1 h
  cases hb
  exact hp

theorem runs_run_ofExcept_iff {x o : Except ε α} :
    Runs step s (ofExcept x : ExceptT ε (Prog E R) α).run o s' ↔ o = x ∧ s' = s := runs_ret_iff

theorem Runs.ofExcept {x : Except ε α} (h : x = .ok a) :
    Runs step s (ofExcept x : ExceptT ε (Prog E R) α).run (.ok a) s :=
  runs_run_ofExcept_iff.2 ⟨h.symm, rfl⟩

theorem Runs.ok_of_ofExcept_bind {x : Except ε α} {b : β}
    (h : Runs step s (Prog.ofExcept x >>= f).run (.ok b) s') :
    ∃ a, x = .ok a ∧ Runs step s (f a).run (.ok b) s' := by
  obtain ⟨a, s₁, hx, hrest⟩ := h.ok_of_bind
  obtain ⟨hok, rfl⟩ := runs_run_ofExcept_iff.1 hx
  exact ⟨a, hok.symm, hrest⟩

theorem runs_run_pure_iff {o : Except ε α} :
    Runs step s (pure a : ExceptT ε (Prog E R) α).run o s' ↔ o = .ok a ∧ s' = s := runs_ret_iff

/-! ### Total correctness -/

/-- From the state, the program can return; and however it does, the postcondition holds. -/
def Ensures (step : σ → (e : E) → R e → σ → Prop) (s : σ) (p : Prog E R α) (Q : α → σ → Prop) :
    Prop :=
  (∃ a s', Runs step s p a s') ∧ ∀ a s', Runs step s p a s' → Q a s'

theorem Ensures.of_runs_iff {a₀ : α} (h : ∀ a s', Runs step s p a s' ↔ a = a₀ ∧ s' = s₀)
    (hQ : Q a₀ s₀) : Ensures step s p Q := by
  refine ⟨⟨a₀, s₀, (h a₀ s₀).2 ⟨rfl, rfl⟩⟩, fun a s' hrun => ?_⟩
  obtain ⟨rfl, rfl⟩ := (h a s').1 hrun
  exact hQ

theorem Ensures.ret (h : Q a s) : Ensures step s (ret a : Prog E R α) Q := by
  refine ⟨⟨a, s, .ret _ _⟩, fun b s' hrun => ?_⟩
  obtain ⟨rfl, rfl⟩ := runs_ret_iff.1 hrun
  exact h

theorem Ensures.act {e : E} {k : R e → Prog E R α} (hcan : ∃ r s₁, step s e r s₁)
    (h : ∀ r s₁, step s e r s₁ → Ensures step s₁ (k r) Q) : Ensures step s (act e k) Q := by
  constructor
  · obtain ⟨r, s₁, hstep⟩ := hcan
    obtain ⟨⟨a, s', hrun⟩, -⟩ := h r s₁ hstep
    exact ⟨a, s', .act hstep hrun⟩
  · intro a s' hrun
    obtain ⟨r, s₁, hstep, hrest⟩ := runs_act_iff.1 hrun
    exact (h r s₁ hstep).2 a s' hrest

theorem Ensures.mono {Q Q' : α → σ → Prop} (h : Ensures step s p Q)
    (hQ : ∀ a s', Q a s' → Q' a s') : Ensures step s p Q' :=
  ⟨h.1, fun a s' hrun => hQ a s' (h.2 a s' hrun)⟩

theorem Ensures.bind {f : α → Prog E R β} {Q : β → σ → Prop} (hp : Ensures step s p P)
    (hf : ∀ a s₁, P a s₁ → Ensures step s₁ (f a) Q) : Ensures step s (p >>= f) Q := by
  constructor
  · obtain ⟨⟨a, s₁, hrun⟩, hall⟩ := hp
    obtain ⟨⟨b, s', hrest⟩, -⟩ := hf a s₁ (hall a s₁ hrun)
    exact ⟨b, s', runs_bind_iff.2 ⟨a, s₁, hrun, hrest⟩⟩
  · intro b s' hrun
    obtain ⟨a, s₁, hfirst, hrest⟩ := runs_bind_iff.1 hrun
    exact (hf a s₁ (hp.2 a s₁ hfirst)).2 b s' hrest

theorem Ensures.run_bind {Q : Except ε β → σ → Prop}
    (hx : Ensures step s x.run fun r s₁ => ∃ a, r = .ok a ∧ P a s₁)
    (hf : ∀ a s₁, P a s₁ → Ensures step s₁ (f a).run Q) : Ensures step s (x >>= f).run Q := by
  rw [run_bind_eq]
  refine hx.bind ?_
  rintro r s₁ ⟨a, rfl, ha⟩
  exact hf a s₁ ha

theorem Ensures.orThrow {f : ε → ε'} {p : Prog E R (Except ε α)}
    (hp : Ensures step s p fun r s₁ => ∃ a, r = .ok a ∧ P a s₁) :
    Ensures step s (orThrow f p).run fun r s₁ => ∃ a, r = .ok a ∧ P a s₁ := by
  refine hp.bind ?_
  rintro r s₁ ⟨a, rfl, ha⟩
  exact .ret ⟨a, rfl, ha⟩

theorem Ensures.orThrow_ok {f : ε → ε'} {p : Prog E R (Except ε α)} {a₀ : α}
    (hp : Ensures step s p fun r s₁ => r = .ok a₀ ∧ s₁ = s₀) :
    Ensures step s (Prog.orThrow f p).run fun r s₁ => ∃ a, r = .ok a ∧ a = a₀ ∧ s₁ = s₀ :=
  .orThrow (hp.mono fun _ _ h => ⟨a₀, h.1, rfl, h.2⟩)

theorem Ensures.run_bind_error {e : ε} {Q : Except ε β → σ → Prop}
    (hx : Ensures step s x.run fun r s₁ => r = .error e ∧ s₁ = s₀) (hQ : Q (.error e) s₀) :
    Ensures step s (x >>= f).run Q := by
  rw [run_bind_eq]
  refine hx.bind ?_
  rintro r s₁ ⟨rfl, rfl⟩
  exact .ret hQ

theorem Ensures.orThrow_error {f : ε → ε'} {p : Prog E R (Except ε α)} {e : ε}
    (hp : Ensures step s p fun r s₁ => r = .error e ∧ s₁ = s₀) :
    Ensures step s (Prog.orThrow f p).run fun r s₁ => r = .error (f e) ∧ s₁ = s₀ := by
  refine hp.bind ?_
  rintro r s₁ ⟨rfl, rfl⟩
  exact .ret ⟨rfl, rfl⟩

theorem Ensures.ofExcept {x : Except ε α} (hx : x = .ok a) (h : P a s) :
    Ensures step s (ofExcept x : ExceptT ε (Prog E R) α).run fun r s₁ => ∃ a, r = .ok a ∧ P a s₁ :=
  .ret ⟨a, hx, h⟩

theorem Ensures.lift (hp : Ensures step s p P) :
    Ensures step s (liftM p : ExceptT ε (Prog E R) α).run fun r s₁ => ∃ a, r = .ok a ∧ P a s₁ := by
  rw [run_lift_eq]
  exact hp.bind fun a s₁ ha => .ret ⟨a, rfl, ha⟩

theorem Ensures.map {f : α → β} {Q' : β → σ → Prop} (h : Ensures step s p Q)
    (hQ : ∀ a s', Q a s' → Q' (f a) s') : Ensures step s (p >>= fun a => Prog.ret (f a)) Q' :=
  h.bind fun a s₁ ha => .ret (hQ a s₁ ha)

end Prog

/-! ## Sequences of calls -/

section Sessions

variable {E : Type} {R : E → Type} {σ τ Call O P : Type}

/-- The calls are made one after another, each run to its end. -/
inductive Session (step : σ → (e : E) → R e → σ → Prop) (prog : Call → Prog E R O) :
    σ → List Call → List O → σ → Prop
  | nil (s : σ) : Session step prog s [] [] s
  | cons {s s' s'' : σ} {call : Call} {o : O} {calls : List Call} {os : List O} :
      (prog call).Runs step s o s' → Session step prog s' calls os s'' →
      Session step prog s (call :: calls) (o :: os) s''

/-- The replies of an object that answers each call at once. -/
def replay (spec : τ → Call → P × τ) : τ → List Call → List P
  | _, [] => []
  | t, call :: calls => (spec t call).1 :: replay spec (spec t call).2 calls

/-- Every call of the sequence is one that `ok` admits where it is made. -/
def Admits (spec : τ → Call → P × τ) (ok : τ → Call → Prop) : τ → List Call → Prop
  | _, [] => True
  | t, call :: calls => ok t call ∧ Admits spec ok (spec t call).2 calls

variable {step : σ → (e : E) → R e → σ → Prop} {prog : Call → Prog E R O}
  {spec : τ → Call → P × τ} {view : O → P} {Rel : σ → τ → Prop}

section Simulation

variable (hcall : ∀ {s t}, Rel s t → ∀ call, (prog call).Ensures step s fun o s' =>
  view o = (spec t call).1 ∧ Rel s' (spec t call).2)
include hcall

/-- **If each call, where the states correspond, is answered as specified and keeps the
correspondence, then so are all calls of a session.** -/
theorem Session.simulates {s s' : σ} {t : τ} {calls : List Call} {os : List O}
    (h : Session step prog s calls os s') (hrel : Rel s t) :
    os.map view = replay spec t calls := by
  induction h generalizing t with
  | nil s => rfl
  | cons hrun _ ih =>
    obtain ⟨hview, hrel'⟩ := (hcall hrel _).2 _ _ hrun
    rw [List.map_cons, replay, hview, ih hrel']

/-- If every call returns, every session does. -/
theorem Session.total {s : σ} {t : τ} (calls : List Call) (hrel : Rel s t) :
    ∃ os s', Session step prog s calls os s' := by
  induction calls generalizing s t with
  | nil => exact ⟨[], s, .nil s⟩
  | cons call calls ih =>
    obtain ⟨⟨o, s₁, hrun⟩, hall⟩ := hcall hrel call
    obtain ⟨os, s', hrest⟩ := ih (hall o s₁ hrun).2
    exact ⟨o :: os, s', .cons hrun hrest⟩

end Simulation

theorem Session.induction {I : σ → Prop}
    (hcall : ∀ s call o s', I s → (prog call).Runs step s o s' → I s')
    {s s' : σ} {calls : List Call} {os : List O} (h : Session step prog s calls os s')
    (hs : I s) : I s' := by
  induction h with
  | nil s => exact hs
  | cons hrun _ ih => exact ih (hcall _ _ _ _ hs hrun)

end Sessions

/-! ## Alone in a pool -/

/-- What a program can do alone, it can do as a task of a pool. -/
theorem Pool.exists_run_of_runs {E : Type} {R : E → Type} {σ Call O Ans : Type}
    {perform : σ → (e : E) → Ans → Option (R e × σ)} {prog : Call → Prog E R O}
    (good : Prog.Event E R → Prop) {s s' : σ} {q : Prog E R O} {o : O}
    (h : q.Runs (fun s e r s' => (∃ a, perform s e a = some (r, s')) ∧ good ⟨e, r⟩) s o s')
    {p : Pool E R σ Call O} (hs : p.shared = s) {i : Nat} {call : Call}
    (htask : p.tasks[i]? = some (call, q)) :
    ∃ (moves : List (Move Call Ans)) (p' : Pool E R σ Call O) (tr : List (Prog.Event E R)),
      run perform prog p moves = some p' ∧ p'.tasks[i]? = some (call, .ret o) ∧
        p'.log = p.log ++ tr.map (fun x => (i, x)) ∧ ∀ x ∈ tr, good x := by
  induction h generalizing p with
  | ret s a => exact ⟨[], p, [], rfl, htask, by simp, nofun⟩
  | @act s s₁ s₂ e k r a hstep _ ih =>
    obtain ⟨⟨answer, hperform⟩, hgood⟩ := hstep
    subst hs
    have hlt : i < p.tasks.length := (List.getElem?_eq_some_iff.1 htask).1
    obtain ⟨moves, p', tr, hrun, htask', hlog, htr⟩ :=
      ih (p := ⟨s₁, p.tasks.set i (call, k r), p.log ++ [(i, ⟨e, r⟩)]⟩) rfl
        (List.getElem?_set_self hlt)
    have hmove : step perform prog p (.act i answer)
        = some ⟨s₁, p.tasks.set i (call, k r), p.log ++ [(i, ⟨e, r⟩)]⟩ := by
      simp only [step, htask, hperform]
    refine ⟨.act i answer :: moves, p', ⟨e, r⟩ :: tr, ?_, htask', by simp [hlog], ?_⟩
    · rw [run, List.foldlM_cons, hmove]
      exact hrun
    · exact List.forall_mem_cons.2 ⟨hgood, htr⟩

end QfcServerWallet.Lib
