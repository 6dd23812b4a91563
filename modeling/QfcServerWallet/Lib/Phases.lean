import QfcServerWallet.Lib.Bytes
import QfcServerWallet.Lib.Session

/-!
# Phases of concurrent tasks

What each task of a pool has come to. A phase stands for what is known of the operations that are
left of a program. `next l e r l'`: in the phase `l` a program may ask for `e`, and the answer `r`
leads to `l'`.

Results: `Keeps.bind`, `Keeps.run_bind`, `Keeps.orThrow`, `Keeps.embed` (how programs are put
together), and **`Pool.run_phases`**.
-/

namespace QfcServerWallet.Lib

namespace Prog

variable {E : Type} {R : E → Type} {L α β ε ε' : Type}

/-- From the phase on, the program asks only for what its phases allow. -/
def Keeps (next : L → (e : E) → R e → L → Prop) (Q : L → α → Prop) : Prog E R α → L → Prop
  | ret a, l => Q l a
  | act e k, l => ∀ r, ∃ l', next l e r l' ∧ (k r).Keeps next Q l'

variable {next : L → (e : E) → R e → L → Prop} {l : L} {P : L → α → Prop} {p : Prog E R α}
  {Q : L → β → Prop}

theorem Keeps.bind {f : α → Prog E R β} (hp : p.Keeps next P l)
    (hf : ∀ l a, P l a → (f a).Keeps next Q l) : (p >>= f).Keeps next Q l := by
  induction p generalizing l with
  | ret a => exact hf l a hp
  | act e k ih =>
    intro r
    obtain ⟨l', hnext, hrest⟩ := hp r
    exact ⟨l', hnext, ih r hrest⟩

theorem Keeps.of_next {next' : L → (e : E) → R e → L → Prop} {Q : L → α → Prop}
    (hp : p.Keeps next Q l) (h : ∀ l e r l', next l e r l' → next' l e r l') :
    p.Keeps next' Q l := by
  induction p generalizing l with
  | ret a => exact hp
  | act e k ih =>
    intro r
    obtain ⟨l', hnext, hrest⟩ := hp r
    exact ⟨l', h _ _ _ _ hnext, ih r hrest⟩

theorem Keeps.embed {E' : Type} {R' : E' → Type} {ι : E → E'} {back : (e : E) → R' (ι e) → R e}
    {next' : L → (e : E') → R' e → L → Prop} {Q : L → α → Prop}
    (hp : p.Keeps (fun l e r l' => ∀ r', back e r' = r → next' l (ι e) r' l') Q l) :
    (p.embed ι back).Keeps next' Q l := by
  induction p generalizing l with
  | ret a => exact hp
  | act e k ih =>
    intro r
    obtain ⟨l', hnext, hrest⟩ := hp (back e r)
    exact ⟨l', hnext r rfl, ih _ hrest⟩

/-! ### Programs that may fail

A program that has failed asks for nothing more, so only what is known after a success matters. -/

/-- What holds after a success. -/
def OnOk (P : L → α → Prop) (l : L) (r : Except ε α) : Prop := ∀ a, r = .ok a → P l a

theorem Keeps.run_bind {x : ExceptT ε (Prog E R) α} {f : α → ExceptT ε (Prog E R) β}
    (hx : x.run.Keeps next (OnOk P) l) (hf : ∀ l a, P l a → (f a).run.Keeps next (OnOk Q) l) :
    (x >>= f).run.Keeps next (OnOk Q) l := by
  rw [run_bind_eq]
  refine hx.bind fun l r hr => ?_
  cases r with
  | ok a => exact hf l a (hr a rfl)
  | error e =>
    intro b hb
    cases hb

theorem Keeps.orThrow {f : ε → ε'} {p : Prog E R (Except ε α)} (hp : p.Keeps next (OnOk P) l) :
    (orThrow f p).run.Keeps next (OnOk P) l := by
  refine hp.bind fun l r hr => ?_
  intro a ha
  exact hr a (mapError_eq_ok.1 ha)

theorem Keeps.ofExcept_bind {x : Except ε α} {f : α → ExceptT ε (Prog E R) β}
    (hf : ∀ a, x = .ok a → (f a).run.Keeps next (OnOk Q) l) :
    (ofExcept x >>= f).run.Keeps next (OnOk Q) l := by
  cases x with
  | error e =>
    intro b hb
    cases hb
  | ok a => exact hf a rfl

theorem Keeps.lift (hp : p.Keeps next P l) :
    (liftM p : ExceptT ε (Prog E R) α).run.Keeps next (OnOk P) l := by
  refine hp.bind fun l a ha => ?_
  rintro b ⟨⟩
  exact ha

end Prog

/-! ## Pools -/

namespace Pool

variable {E : Type} {R : E → Type} {σ Call O Ans L : Type}
  {perform : σ → (e : E) → Ans → Option (R e × σ)} {prog : Call → Prog E R O}
  {p : Pool E R σ Call O} {s : σ} {moves : List (Move Call Ans)}
  {next : Call → L → (e : E) → R e → L → Prop} {first : Call → L}

/-- **What the operations keep that the phases allow holds of every pool.** `G` is about the pool,
and `T` is what a task in a phase relies on, whatever the others do. -/
theorem run_phases {G : Pool E R σ Call O → Prop} {T : Pool E R σ Call O → Nat → L → Prop}
    (hprog : ∀ call, (prog call).Keeps (next call) (fun _ _ => True) (first call))
    (h0 : G (start s))
    (hspawn : ∀ (q q' : Pool E R σ Call O) call,
      q' = { q with tasks := q.tasks ++ [(call, prog call)] } → G q →
      G q' ∧ T q' q.tasks.length (first call) ∧ ∀ j l, T q j l → T q' j l)
    (hstep : ∀ q i call e k a r t l l',
      StepOf perform prog (start s) moves q i ⟨e, r⟩
        ⟨t, q.tasks.set i (call, k r), q.log ++ [(i, ⟨e, r⟩)]⟩ →
      q.tasks[i]? = some (call, .act e k) → perform q.shared e a = some (r, t) →
      next call l e r l' → G q → T q i l →
      G ⟨t, q.tasks.set i (call, k r), q.log ++ [(i, ⟨e, r⟩)]⟩ ∧
        T ⟨t, q.tasks.set i (call, k r), q.log ++ [(i, ⟨e, r⟩)]⟩ i l' ∧
        ∀ j l, j ≠ i → T q j l →
          T ⟨t, q.tasks.set i (call, k r), q.log ++ [(i, ⟨e, r⟩)]⟩ j l)
    (hrun : run perform prog (start s) moves = some p) : G p := by
  let Kept (q : Pool E R σ Call O) : Prop := G q ∧
    ∀ i call (left : Prog E R O), q.tasks[i]? = some (call, left) →
      ∃ l, T q i l ∧ left.Keeps (next call) (fun _ _ => True) l
  suffices hkept : Kept p from hkept.1
  refine run_induction_steps ?_ ?_ ?_ hrun
  · exact ⟨h0, by simp [start]⟩
  · rintro q call ⟨hG, hkeeps⟩
    obtain ⟨hG', hnew, hothers⟩ := hspawn q _ call rfl hG
    refine ⟨hG', fun j c left hj => ?_⟩
    rcases task_of_spawn hj with hj | ⟨rfl, hleft⟩
    · obtain ⟨l, hl, hleft⟩ := hkeeps j c left hj
      exact ⟨l, hothers j l hl, hleft⟩
    · cases hleft
      exact ⟨first call, hnew, hprog call⟩
  · rintro q i ⟨e, r⟩ q' hs ⟨hG, hkeeps⟩
    obtain ⟨call, k, a, t, htask, hperform, rfl⟩ := hs.performs
    obtain ⟨l, hl, hact⟩ := hkeeps i call _ htask
    obtain ⟨l', hnext, hrest⟩ := hact r
    obtain ⟨hG', hself, hothers⟩ := hstep q i call e k a r t l l' hs htask hperform hnext hG hl
    refine ⟨hG', fun j c left hj => ?_⟩
    by_cases hij : i = j
    · subst hij
      rw [List.getElem?_set_self (List.getElem?_eq_some_iff.1 htask).1] at hj
      cases hj
      exact ⟨l', hself, hrest⟩
    · rw [List.getElem?_set_ne hij] at hj
      obtain ⟨m, hm, hleft⟩ := hkeeps j c left hj
      exact ⟨m, hothers j m (Ne.symm hij) hm, hleft⟩

end Pool

end QfcServerWallet.Lib
