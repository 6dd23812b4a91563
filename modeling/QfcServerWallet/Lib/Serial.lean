import QfcServerWallet.Lib.Session
import Mathlib.Data.List.Perm.Basic

/-!
# Calls that take effect with their last operation

When the calls of a pool are as if they had been made one after another. A call that returns a good
value takes effect when it returns, and the calls are put in the order in which they do.

`Rel order s t`: the pool's state `s` stands for the state `t` that the calls `order`, made one
after another, lead to.

Result: **`Pool.serialises`**.
-/

namespace QfcServerWallet.Lib

variable {E : Type} {R : E → Type} {σ Call O Ans : Type}

/-! ## Replacing an element that is skipped -/

section FilterMap

variable {α β : Type} {f : α → Option β} {l : List α} {i : Nat} {a b : α}

theorem filterMap_set_of_none (ha : l[i]? = some a) (hfa : f a = none) (hfb : f b = none) :
    (l.set i b).filterMap f = l.filterMap f := by
  induction l generalizing i with
  | nil => rfl
  | cons x l ih =>
    cases i with
    | zero =>
      cases ha
      rw [List.set_cons_zero, List.filterMap_cons_none hfa, List.filterMap_cons_none hfb]
    | succ i =>
      rw [List.set_cons_succ, List.filterMap_cons, List.filterMap_cons, ih ha]

theorem filterMap_set_of_some {y : β} (ha : l[i]? = some a) (hfa : f a = none)
    (hfb : f b = some y) : (l.set i b).filterMap f |>.Perm (y :: l.filterMap f) := by
  induction l generalizing i with
  | nil => cases ha
  | cons x l ih =>
    cases i with
    | zero =>
      cases ha
      rw [List.set_cons_zero, List.filterMap_cons_none hfa, List.filterMap_cons_some hfb]
    | succ i =>
      rw [List.set_cons_succ]
      cases hx : f x with
      | none =>
        rw [List.filterMap_cons_none hx, List.filterMap_cons_none hx]
        exact ih ha
      | some z =>
        rw [List.filterMap_cons_some hx, List.filterMap_cons_some hx]
        exact ((ih ha).cons z).trans (.swap y z _)

end FilterMap

theorem Session.concat {step : σ → (e : E) → R e → σ → Prop} {prog : Call → Prog E R O}
    {s s' s'' : σ} {calls : List Call} {os : List O} {call : Call} {o : O}
    (h : Session step prog s calls os s') (hrun : (prog call).Runs step s' o s'') :
    Session step prog s (calls ++ [call]) (os ++ [o]) s'' := by
  induction h with
  | nil s => exact .cons hrun (.nil _)
  | cons hfirst _ ih => exact .cons hfirst (ih hrun)

/-- Every operation that a program can come to satisfies `ok`, with what follows it. -/
def Prog.Nodes (ok : (e : E) → (R e → Prog E R O) → Prop) : Prog E R O → Prop
  | .ret _ => True
  | .act e k => ok e k ∧ ∀ r, (k r).Nodes ok

theorem Prog.Nodes.of_after {ok : (e : E) → (R e → Prog E R O) → Prop} {p q : Prog E R O}
    {tr : List (Event E R)} (hp : p.Nodes ok) (h : p.After tr q) : q.Nodes ok := by
  induction h with
  | nil => exact hp
  | cons e k r _ ih => exact ih (hp.2 r)

/-! ## Pools -/

namespace Pool

/-- The value of a finished task, if it is good. -/
def goodResult (good : O → Bool) (task : Call × Prog E R O) : Option (Call × O) :=
  match task.2 with
  | .ret o => if good o then some (task.1, o) else none
  | .act _ _ => none

/-- The calls that have returned a good value. -/
def returned (good : O → Bool) (p : Pool E R σ Call O) : List (Call × O) :=
  p.tasks.filterMap (goodResult good)

/-- The good calls could have been made one after another, and the state stands for the one they
lead to. -/
def Serial (step : σ → (e : E) → R e → σ → Prop) (prog : Call → Prog E R O) (good : O → Bool)
    (Rel : List (Call × O) → σ → σ → Prop) (s₀ : σ) (p : Pool E R σ Call O) : Prop :=
  ∃ (order : List (Call × O)) (t : σ), order.Perm (p.returned good) ∧
    Session step prog s₀ (order.map Prod.fst) (order.map Prod.snd) t ∧ Rel order p.shared t

theorem exists_of_goodResult {call : Call} {q : Prog E R O} {good : O → Bool} {y : Call × O}
    (h : goodResult good (call, q) = some y) : ∃ o, q = .ret o ∧ good o = true ∧ y = (call, o) := by
  unfold goodResult at h
  split at h
  · next o hq =>
    split_ifs at h with hgood
    cases h
    exact ⟨o, hq, hgood, rfl⟩
  · cases h

variable {perform : σ → (e : E) → Ans → Option (R e × σ)} {prog : Call → Prog E R O}
  {step : σ → (e : E) → R e → σ → Prop} {good : O → Bool}
  {Rel : List (Call × O) → σ → σ → Prop} {s₀ : σ} {moves : List (Move Call Ans)}
  {p : Pool E R σ Call O}

/-- **Good calls that take effect with their last operation could have been made one after
another.** -/
theorem serialises (hstart : Rel [] s₀ s₀)
    (hprog : ∀ call, goodResult good (call, prog call) = none)
    (hquiet : ∀ q i x q' order t, StepOf perform prog (start s₀) moves q i x q' →
      Rel order q.shared t → (∀ task, q'.tasks[i]? = some task → goodResult good task = none) →
      Rel order q'.shared t)
    (hlast : ∀ q i x q' order t call o, StepOf perform prog (start s₀) moves q i x q' →
      Rel order q.shared t → q'.tasks[i]? = some (call, .ret o) → good o = true →
      ∃ t', (prog call).Runs step t o t' ∧ Rel (order ++ [(call, o)]) q'.shared t')
    (h : run perform prog (start s₀) moves = some p) : Serial step prog good Rel s₀ p := by
  refine run_induction_steps
    ⟨[], s₀, .refl _, .nil s₀, hstart⟩ ?_ ?_ h
  · rintro q call ⟨order, t, hperm, hsession, hrel⟩
    refine ⟨order, t, ?_, hsession, hrel⟩
    rw [returned, List.filterMap_append, List.filterMap_cons_none (hprog call),
      List.filterMap_nil, List.append_nil]
    exact hperm
  · rintro q i x q' hstep ⟨order, t, hperm, hsession, hrel⟩
    obtain ⟨call, k, a, s, htask, -, hq'⟩ := hstep.performs
    have hi : i < q.tasks.length := (List.getElem?_eq_some_iff.1 htask).1
    have hset : q'.tasks[i]? = some (call, k x.2) := by
      rw [hq']
      exact List.getElem?_set_self hi
    have hreturned : q'.returned good =
        (q.tasks.set i (call, k x.2)).filterMap (goodResult good) := by
      rw [hq']
      rfl
    cases hresult : goodResult good (call, k x.2) with
    | none =>
      refine ⟨order, t, ?_, hsession, hquiet q i x q' order t hstep hrel fun task htask' => ?_⟩
      · rw [hreturned, filterMap_set_of_none htask rfl hresult]
        exact hperm
      · cases hset.symm.trans htask'
        exact hresult
    | some y =>
      -- the task has just returned a good value
      obtain ⟨o, hk, hgood, rfl⟩ := exists_of_goodResult hresult
      obtain ⟨t', hrun, hrel'⟩ := hlast q i x q' order t call o hstep hrel (hk ▸ hset) hgood
      refine ⟨order ++ [(call, o)], t', ?_, ?_, hrel'⟩
      · rw [hreturned]
        refine .trans ?_ (filterMap_set_of_some htask rfl hresult).symm
        exact (List.perm_append_singleton _ _).trans (hperm.cons _)
      · rw [List.map_append, List.map_append]
        exact hsession.concat hrun

end Pool

end QfcServerWallet.Lib
