import Mathlib.Data.List.Nodup
import Mathlib.Data.List.Perm.Basic

/-!
# Tables with unique constraints under READ COMMITTED

A table of rows, some of them committed and some inserted by transactions that are still open.

* `clash x y` names a unique constraint that forbids `x` beside `y`.
* An insertion is refused at once when it clashes with a committed row or with one of its own
  transaction, and it waits while it clashes with a row of another open transaction.
* Queries outside a transaction see the committed rows.

Results: **`Unique.insert`**, `Unique.commit` and `Unique.abort`: no two rows clash, committed or
not, whatever the order of insertions, commits and rollbacks.
-/

namespace QfcServerWallet.Lib

/-- A table, with its open transactions. -/
structure Table (α : Type) where
  /-- the committed rows, in the order of their commits -/
  rows : List α
  /-- rows of open transactions -/
  pending : List (Nat × α)
  /-- the open transactions -/
  active : List Nat
  /-- the next transaction's number -/
  next : Nat

namespace Table

variable {α : Type}

/-- No rows. -/
def empty : Table α := ⟨[], [], [], 0⟩

/-- A new transaction. -/
def begin (t : Table α) : Nat × Table α :=
  (t.next, { t with active := t.next :: t.active, next := t.next + 1 })

/-- The given transactions are rolled back. -/
def abort (t : Table α) (gone : List Nat) : Table α :=
  { t with
    pending := t.pending.filter fun x => x.1 ∉ gone
    active := t.active.filter fun tx => tx ∉ gone }

/-- The rows a transaction inserted. -/
def own (t : Table α) (tx : Nat) : List α := (t.pending.filter fun x => x.1 = tx).map Prod.snd

/-- How an insertion ends. -/
inductive Insertion (α : Type) where
  | done (t : Table α)
  | refused (constraint : String)
  | waits

/-- A row of the transaction. -/
def insert (clash : α → α → Option String) (t : Table α) (tx : Nat) (row : α) : Insertion α :=
  match (t.rows ++ t.own tx).findSome? (clash row) with
  | some constraint => .refused constraint
  | none =>
    if t.pending.any fun x => (clash row x.2).isSome then .waits
    else .done { t with pending := t.pending ++ [(tx, row)] }

/-- The rows of the transaction become visible. -/
def commit (t : Table α) (tx : Nat) : Table α :=
  { t with
    rows := t.rows ++ t.own tx
    pending := t.pending.filter fun x => x.1 ≠ tx
    active := t.active.filter fun tx' => tx' ≠ tx }

/-! ## What the operations do to the rows -/

/-- All rows, committed or not. -/
def all (t : Table α) : List α := t.rows ++ t.pending.map Prod.snd

variable {clash : α → α → Option String} {t t' : Table α} {tx : Nat} {row : α} {rows : List α}

theorem mem_all_of_mem_rows {x : α} (h : x ∈ t.rows) : x ∈ t.all := List.mem_append_left _ h

theorem abort_nil (t : Table α) : t.abort [] = t := by
  simp [abort]

theorem all_abort_sublist (t : Table α) (gone : List Nat) : (t.abort gone).all.Sublist t.all :=
  (List.Sublist.refl _).append (List.filter_sublist.map _)

theorem all_insert (h : t.insert clash tx row = .done t') :
    t'.all = t.all ++ [row] ∧ ∀ x ∈ t.all, clash row x = none := by
  unfold insert at h
  split at h
  · cases h
  · next hfree =>
    split at h
    · cases h
    · next hwait =>
      cases h
      refine ⟨by simp [all], fun x hx => ?_⟩
      rcases List.mem_append.1 hx with hx | hx
      · exact List.findSome?_eq_none_iff.1 hfree x (List.mem_append_left _ hx)
      · obtain ⟨y, hy, rfl⟩ := List.mem_map.1 hx
        by_contra hclash
        exact hwait (List.any_eq_true.2 ⟨y, hy, Option.isSome_iff_ne_none.2 hclash⟩)

theorem eq_of_insert (h : t.insert clash tx row = .done t') :
    t' = { t with pending := t.pending ++ [(tx, row)] } := by
  unfold insert at h
  split at h
  · cases h
  · split at h
    · cases h
    · cases h
      rfl

theorem insert_of_free (h : ∀ x ∈ t.all, clash row x = none) :
    t.insert clash tx row = .done { t with pending := t.pending ++ [(tx, row)] } := by
  have hrows : (t.rows ++ t.own tx).findSome? (clash row) = none := by
    refine List.findSome?_eq_none_iff.2 fun x hx => h x ?_
    rcases List.mem_append.1 hx with hx | hx
    · exact List.mem_append_left _ hx
    · obtain ⟨y, hy, rfl⟩ := List.mem_map.1 hx
      exact List.mem_append_right _ (List.mem_map_of_mem (List.mem_of_mem_filter hy))
  have hwait : (t.pending.any fun x => (clash row x.2).isSome) = false := by
    refine List.any_eq_false.2 fun x hx => ?_
    rw [h x.2 (List.mem_append_right _ (List.mem_map_of_mem hx))]
    decide
  rw [insert, hrows]
  simp only [hwait, Bool.false_eq_true, if_false]

theorem clash_of_refused {constraint : String}
    (h : t.insert clash tx row = .refused constraint) :
    ∃ x ∈ t.rows ++ t.own tx, clash row x ≠ none := by
  unfold insert at h
  split at h
  · next hsome =>
    obtain ⟨x, hx, hclash⟩ := List.exists_of_findSome?_eq_some hsome
    exact ⟨x, hx, fun hnone => by rw [hnone] at hclash; cases hclash⟩
  · split at h <;> cases h

theorem own_of_pending (h : t.pending = rows.map (tx, ·)) : t.own tx = rows := by
  simp [own, h, List.filter_map, Function.comp_def]

theorem pending_commit (h : t.pending = rows.map (tx, ·)) : (t.commit tx).pending = [] := by
  simp [commit, h, List.filter_map, Function.comp_def]

theorem all_commit_perm (t : Table α) (tx : Nat) : (t.commit tx).all.Perm t.all := by
  have hsplit : (t.pending.filter fun x => x.1 = tx) ++ (t.pending.filter fun x => x.1 ≠ tx) |>.Perm
      t.pending := by
    have := List.filter_append_perm (fun x : Nat × α => decide (x.1 = tx)) t.pending
    simpa using this
  rw [all, all, commit, own, List.append_assoc, ← List.map_append]
  exact (hsplit.map _).append_left _

/-! ## Uniqueness -/

/-- No two rows clash. -/
def Unique (clash : α → α → Option String) (t : Table α) : Prop :=
  t.all.Pairwise fun x y => clash x y = none

theorem Unique.empty : Unique clash (empty : Table α) := List.Pairwise.nil

theorem Unique.abort (h : t.Unique clash) (gone : List Nat) : (t.abort gone).Unique clash :=
  h.sublist (all_abort_sublist t gone)

section Symmetric

variable (hsymm : ∀ {x y}, clash x y = none → clash y x = none)
include hsymm

theorem Unique.insert (h : t.Unique clash) (hinsert : t.insert clash tx row = .done t') :
    t'.Unique clash := by
  obtain ⟨hall, hfree⟩ := all_insert hinsert
  rw [Unique, hall]
  refine List.pairwise_append.2 ⟨h, List.pairwise_singleton _ _, fun x hx y hy => ?_⟩
  rw [List.mem_singleton.1 hy]
  exact hsymm (hfree x hx)

theorem Unique.commit (h : t.Unique clash) (tx : Nat) : (t.commit tx).Unique clash :=
  ((all_commit_perm t tx).pairwise_iff hsymm).2 h

end Symmetric

/-! ## Queries by key -/

theorem find?_key {κ : Type} [DecidableEq κ] {key : α → κ} (hnodup : (rows.map key).Nodup) {x : α}
    (hx : x ∈ rows) : rows.find? (fun y => key y = key x) = some x := by
  cases hfind : rows.find? fun y => key y = key x with
  | none => exact absurd (decide_eq_true rfl) (List.find?_eq_none.1 hfind x hx)
  | some y =>
    have hkey : key y = key x := by simpa using List.find?_some hfind
    rw [List.inj_on_of_nodup_map hnodup (List.mem_of_find?_eq_some hfind) hx hkey]

end Table

end QfcServerWallet.Lib
