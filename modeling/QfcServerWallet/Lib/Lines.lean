import Mathlib.Data.List.Basic

/-!
# Terminated records

A log of records that each end with a separator, as a byte file of lines does.

Results: `records_append_cons`, `records_terminate` and `records_eq_nil_iff`.
-/

namespace QfcServerWallet.Lib

variable {α : Type} {sep : α}

/-- The records one after the other, each with the separator after it. -/
def terminate (sep : α) (rs : List (List α)) : List α := rs.flatMap fun r => r ++ [sep]

theorem terminate_concat (rs : List (List α)) (r : List α) :
    terminate sep (rs ++ [r]) = terminate sep rs ++ (r ++ [sep]) := by
  simp [terminate]

theorem append_cons_right_inj {xs xs' ys ys' : List α} (hys : sep ∉ ys) (hys' : sep ∉ ys')
    (h : xs ++ sep :: ys = xs' ++ sep :: ys') : xs = xs' ∧ ys = ys' := by
  rcases List.append_eq_append_iff.1 h with ⟨zs, rfl, hzs⟩ | ⟨zs, rfl, hzs⟩
  · cases zs with
    | nil => exact ⟨(List.append_nil xs).symm, (List.cons.inj hzs).2⟩
    | cons z zs =>
      obtain rfl := (List.cons.inj hzs).2
      exact absurd (by simp) hys
  · cases zs with
    | nil => exact ⟨List.append_nil xs', (List.cons.inj hzs).2.symm⟩
    | cons z zs =>
      obtain rfl := (List.cons.inj hzs).2
      exact absurd (by simp) hys'

theorem append_cons_left_inj {xs xs' ys ys' : List α} (hxs : sep ∉ xs) (hxs' : sep ∉ xs')
    (h : xs ++ sep :: ys = xs' ++ sep :: ys') : xs = xs' ∧ ys = ys' := by
  have hreverse := congrArg List.reverse h
  simp only [List.reverse_append, List.reverse_cons, List.append_assoc, List.singleton_append]
    at hreverse
  obtain ⟨hys, hxs⟩ := append_cons_right_inj (mt List.mem_reverse.1 hxs)
    (mt List.mem_reverse.1 hxs') hreverse
  exact ⟨List.reverse_inj.1 hxs, List.reverse_inj.1 hys⟩

variable [BEq α]

/-- The pieces between separators that are not empty. -/
def records (sep : α) (l : List α) : List (List α) :=
  (l.splitOnP fun b => b == sep).filter fun r => !r.isEmpty

@[simp] theorem records_nil : records sep ([] : List α) = [] := by
  simp [records]

variable [LawfulBEq α]

/-- A separator splits a log into two. -/
theorem records_append_cons (xs ys : List α) :
    records sep (xs ++ sep :: ys) = records sep xs ++ records sep ys := by
  rw [records, List.splitOnP_append_cons (p := fun b => b == sep) xs ys (beq_self_eq_true sep),
    List.filter_append]
  rfl

theorem records_of_notMem {r : List α} (hsep : sep ∉ r) (hr : r ≠ []) : records sep r = [r] := by
  have hsplit : r.splitOnP (fun b => b == sep) = [r] := by
    refine List.splitOnP_eq_singleton fun b hb => ?_
    rw [beq_eq_false_iff_ne]
    rintro rfl
    exact hsep hb
  simp [records, hsplit, hr]

/-- Which logs have no record. -/
theorem records_eq_nil_iff {l : List α} : records sep l = [] ↔ ∀ b ∈ l, b = sep := by
  induction hn : l.length using Nat.strongRecOn generalizing l with
  | ind n ih =>
    subst hn
    by_cases hsep : sep ∈ l
    · obtain ⟨xs, ys, rfl⟩ := List.append_of_mem hsep
      have hxs := ih xs.length (by rw [List.length_append, List.length_cons]; omega) rfl
      have hys := ih ys.length (by rw [List.length_append, List.length_cons]; omega) rfl
      rw [records_append_cons, List.append_eq_nil_iff, hxs, hys, List.forall_mem_append,
        List.forall_mem_cons, eq_self_iff_true, true_and]
    · by_cases hl : l = []
      · subst hl
        simp
      · rw [records_of_notMem hsep hl]
        obtain ⟨b, hb⟩ := List.exists_mem_of_ne_nil l hl
        constructor
        · intro h
          cases h
        · intro h
          exact absurd (h b hb ▸ hb) hsep

/-- What was written is read back. -/
theorem records_terminate {rs : List (List α)} (h : ∀ r ∈ rs, sep ∉ r ∧ r ≠ []) :
    records sep (terminate sep rs) = rs := by
  induction rs with
  | nil => exact records_nil
  | cons r rs ih =>
    obtain ⟨hr, hrs⟩ := List.forall_mem_cons.1 h
    have hcons : terminate sep (r :: rs) = r ++ sep :: terminate sep rs := by
      simp [terminate]
    rw [hcons, records_append_cons, records_of_notMem hr.1 hr.2, ih hrs, List.singleton_append]

end QfcServerWallet.Lib
