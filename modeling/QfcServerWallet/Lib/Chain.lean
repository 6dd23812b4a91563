import QfcServerWallet.Lib.Bytes
import Mathlib.Data.List.Perm.Basic

/-!
# Hash chains

A log is linked when each entry names the hash of the one before it, the first one a fixed
genesis value. `prev` is the hash an entry names and `hash` the hash it has.

Results: `linked_concat`, `eq_of_linked_of_perm` and `forall₂_of_chainHead_eq`.
-/

namespace QfcServerWallet.Lib

variable {E H : Type} (prev hash : E → H)

/-- The hash of the last entry, or of the genesis. -/
def chainHead (h : H) : List E → H
  | [] => h
  | e :: es => chainHead (hash e) es

/-- Every entry names the hash of the one before it. -/
def Linked (h : H) : List E → Prop
  | [] => True
  | e :: es => prev e = h ∧ Linked (hash e) es

variable {prev hash} {h : H}

theorem chainHead_concat (es : List E) (e : E) : chainHead hash h (es ++ [e]) = hash e := by
  induction es generalizing h with
  | nil => rfl
  | cons x es ih => exact ih

/-- An entry that names the head keeps a log linked. -/
theorem linked_concat {es : List E} {e : E} :
    Linked prev hash h (es ++ [e]) ↔ Linked prev hash h es ∧ prev e = chainHead hash h es := by
  induction es generalizing h with
  | nil => simp [Linked, chainHead]
  | cons x es ih => simp only [List.cons_append, Linked, chainHead, ih, and_assoc]

theorem Linked.take {es : List E} (hes : Linked prev hash h es) (k : Nat) :
    Linked prev hash h (es.take k) := by
  induction es generalizing h k with
  | nil => rwa [List.take_nil]
  | cons e es ih =>
    cases k with
    | zero => trivial
    | succ k => exact ⟨hes.1, ih hes.2 k⟩

/-- The head commits to every entry before it. -/
theorem forall₂_of_chainHead_eq {R : E → E → Prop} {es fs : List E}
    (hes : Linked prev hash h es) (hfs : Linked prev hash h fs)
    (hgenesis : ∀ e ∈ es ++ fs, hash e ≠ h)
    (hinj : ∀ a ∈ es, ∀ b ∈ fs, hash a = hash b → prev a = prev b ∧ R a b)
    (hhead : chainHead hash h es = chainHead hash h fs) : List.Forall₂ R es fs := by
  -- from the last entries backwards, which both heads are the hashes of
  induction es using List.reverseRecOn generalizing fs with
  | nil =>
    rcases List.eq_nil_or_concat fs with rfl | ⟨fs, b, rfl⟩
    · exact .nil
    · rw [List.concat_eq_append, chainHead_concat] at hhead
      exact absurd hhead.symm (hgenesis b (by simp))
  | append_singleton es a ih =>
    rcases List.eq_nil_or_concat fs with rfl | ⟨fs, b, rfl⟩
    · rw [chainHead_concat] at hhead
      exact absurd hhead (hgenesis a (by simp))
    · rw [List.concat_eq_append] at hfs hgenesis hinj hhead ⊢
      rw [chainHead_concat, chainHead_concat] at hhead
      obtain ⟨hprev, hR⟩ := hinj a (by simp) b (by simp) hhead
      obtain ⟨hes, ha⟩ := linked_concat.1 hes
      obtain ⟨hfs, hb⟩ := linked_concat.1 hfs
      refine List.rel_append (ih hes hfs ?_ ?_ ?_) (.cons hR .nil)
      · exact fun e he => hgenesis e (by simp at he ⊢; tauto)
      · exact fun x hx y hy => hinj x (by simp [hx]) y (by simp [hy])
      · rw [← ha, ← hb, hprev]

/-- When no two entries name the same hash, only one order of them is linked. -/
theorem eq_of_linked_of_perm {es fs : List E} (hperm : es.Perm fs)
    (hinj : ∀ a ∈ es, ∀ b ∈ es, prev a = prev b → a = b)
    (hes : Linked prev hash h es) (hfs : Linked prev hash h fs) : es = fs := by
  induction es generalizing h fs with
  | nil => exact hperm.nil_eq
  | cons a es ih =>
    cases fs with
    | nil => cases hperm.eq_nil
    | cons b fs =>
      -- both logs start at the same hash, so that they start with the same entry
      have hb : b ∈ a :: es := hperm.mem_iff.2 List.mem_cons_self
      obtain rfl : a = b := hinj a List.mem_cons_self b hb (hes.1.trans hfs.1.symm)
      have htail := ih hperm.cons_inv
        (fun x hx y hy => hinj x (List.mem_cons_of_mem _ hx) y (List.mem_cons_of_mem _ hy))
        hes.2 hfs.2
      rw [htail]

end QfcServerWallet.Lib
