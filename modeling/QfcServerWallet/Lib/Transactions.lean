import QfcServerWallet.Lib.Prog
import QfcServerWallet.Lib.Table
import Mathlib.Order.Nat

/-!
# Transactions of concurrent tasks

Tasks that work on one table, each in a transaction of its own, and a log of what they did.
`begun x` is the transaction that the event `x` opened, `inserted x` the row it inserted, together
with its transaction.

Results: `Tracks.concat` and **`Tracks.own_eq`**.
-/

namespace QfcServerWallet.Lib

namespace Table

variable {α X : Type} {t t' : Table α} {tx : Nat}

/-! ## The rows of one transaction -/

theorem own_abort {gone : List Nat} (h : tx ∉ gone) : (t.abort gone).own tx = t.own tx := by
  rw [own, own, abort, List.filter_filter]
  congr 1
  refine List.filter_congr fun x _ => ?_
  by_cases hx : x.1 = tx
  · simp [hx, h]
  · simp [hx]

theorem own_abort_of_mem {gone : List Nat} (h : tx ∈ gone) : (t.abort gone).own tx = [] := by
  rw [own, abort, List.filter_filter, List.map_eq_nil_iff]
  refine List.filter_eq_nil_iff.2 fun x _ => ?_
  by_cases hx : x.1 = tx
  · simp [hx, h]
  · simp [hx]

theorem own_commit_self : (t.commit tx).own tx = [] := by
  simp [own, commit]

theorem own_commit_of_ne {other : Nat} (h : other ≠ tx) :
    (t.commit tx).own other = t.own other := by
  rw [own, own, commit, List.filter_filter]
  congr 1
  refine List.filter_congr fun x _ => ?_
  by_cases hx : x.1 = other
  · simp [hx, h]
  · simp [hx]

/-! ## What events do to the table -/

section Effect

variable (clash : α → α → Option String) (begun : X → Option Nat)
  (inserted : X → Option (Nat × α))

/-- Everything an event can do to the table. -/
inductive Effect (t : Table α) (x : X) : Table α → Prop
  | begin : begun x = some t.next → inserted x = none → Effect t x t.begin.2
  | insert {tx : Nat} {row : α} {t' : Table α} : begun x = none → inserted x = some (tx, row) →
      tx ∈ t.active → t.insert clash tx row = .done t' → Effect t x t'
  | commit (tx : Nat) : begun x = none → inserted x = none → Effect t x (t.commit tx)
  | abort (gone : List Nat) : begun x = none → inserted x = none → Effect t x (t.abort gone)

/-- The row that an event inserted in the transaction. -/
def insertedIn (tx : Nat) (x : X) : Option α :=
  (inserted x).bind fun y => if y.1 = tx then some y.2 else none

/-- Transactions are numbered, below `next`. -/
structure Numbered (log : List (Nat × X)) (next : Nat) : Prop where
  begun_lt : ∀ {i x tx}, (i, x) ∈ log → begun x = some tx → tx < next
  inserted_lt : ∀ {i x tx row}, (i, x) ∈ log → inserted x = some (tx, row) → tx < next
  once : ∀ {i j x y tx}, (i, x) ∈ log → (j, y) ∈ log → begun x = some tx → begun y = some tx →
    i = j

/-- The log says which rows an open transaction has. -/
structure Tracks (log : List (Nat × X)) (t : Table α) : Prop where
  numbered : Numbered begun inserted log t.next
  active : ∀ {tx}, tx ∈ t.active → tx < t.next
  own : ∀ {tx}, tx ∈ t.active → t.own tx = log.filterMap fun y => insertedIn inserted tx y.2
  lost : ∀ {tx}, tx ∉ t.active → t.own tx = []

end Effect

variable {clash : α → α → Option String} {begun : X → Option Nat}
  {inserted : X → Option (Nat × α)} {log : List (Nat × X)} {x : X} {i : Nat}

theorem Numbered.concat {next next' : Nat} (h : Numbered begun inserted log next)
    (hle : next ≤ next') (hbegun : ∀ {tx}, begun x = some tx → tx = next ∧ next < next')
    (hinserted : ∀ {tx row}, inserted x = some (tx, row) → tx < next') :
    Numbered begun inserted (log ++ [(i, x)]) next' := by
  refine ⟨fun {j y tx} hj hy => ?_, fun {j y tx row} hj hy => ?_,
    fun {j k y z tx} hj hk hy hz => ?_⟩
  · rcases mem_concat_iff.1 hj with hj | hj
    · exact (h.begun_lt hj hy).trans_le hle
    · cases hj
      obtain ⟨rfl, hlt⟩ := hbegun hy
      exact hlt
  · rcases mem_concat_iff.1 hj with hj | hj
    · exact (h.inserted_lt hj hy).trans_le hle
    · cases hj
      exact hinserted hy
  · rcases mem_concat_iff.1 hj with hj' | hj' <;> rcases mem_concat_iff.1 hk with hk' | hk'
    · exact h.once hj' hk' hy hz
    · cases hk'
      exact absurd (hbegun hz).1 (h.begun_lt hj' hy).ne
    · cases hj'
      exact absurd (hbegun hy).1 (h.begun_lt hk' hz).ne
    · cases hj'
      cases hk'
      rfl

theorem Tracks.start (hpending : t.pending = []) (hactive : t.active = []) :
    Tracks begun inserted [] t where
  numbered := ⟨fun h => absurd h List.not_mem_nil, fun h => absurd h List.not_mem_nil,
    fun h => absurd h List.not_mem_nil⟩
  active h := by
    rw [hactive] at h
    cases h
  own h := by
    rw [hactive] at h
    cases h
  lost _ := by rw [Table.own, hpending, List.filter_nil, List.map_nil]

theorem Tracks.abort (h : Tracks begun inserted log t) (gone : List Nat) :
    Tracks begun inserted log (t.abort gone) where
  numbered := h.numbered
  active htx := h.active (List.mem_of_mem_filter htx)
  own {tx} htx := by
    obtain ⟨hactive, hgone⟩ := List.mem_filter.1 htx
    rw [own_abort (of_decide_eq_true hgone), h.own hactive]
  lost {tx} htx := by
    by_cases hgone : tx ∈ gone
    · exact own_abort_of_mem hgone
    · rw [own_abort hgone]
      exact h.lost fun hactive => htx (List.mem_filter.2 ⟨hactive, decide_eq_true hgone⟩)

theorem Tracks.commit (h : Tracks begun inserted log t) (tx : Nat) :
    Tracks begun inserted log (t.commit tx) where
  numbered := h.numbered
  active htx := h.active (List.mem_of_mem_filter htx)
  own {other} hother := by
    obtain ⟨hactive, hne⟩ := List.mem_filter.1 hother
    rw [own_commit_of_ne (of_decide_eq_true hne), h.own hactive]
  lost {other} hother := by
    by_cases hne : other = tx
    · rw [hne]
      exact own_commit_self
    · rw [own_commit_of_ne hne]
      exact h.lost fun hactive => hother (List.mem_filter.2 ⟨hactive, decide_eq_true hne⟩)

theorem filterMap_concat (tx : Nat) :
    (log ++ [(i, x)]).filterMap (fun y => insertedIn inserted tx y.2) =
      log.filterMap (fun y => insertedIn inserted tx y.2) ++ (insertedIn inserted tx x).toList := by
  rw [List.filterMap_append, List.filterMap_cons]
  cases insertedIn inserted tx x <;> rfl

theorem insertedIn_of_none (hinserted : inserted x = none) : insertedIn inserted tx x = none := by
  rw [insertedIn, hinserted, Option.bind_none]

theorem Tracks.logged (h : Tracks begun inserted log t) (hbegun : begun x = none)
    (hinserted : inserted x = none) : Tracks begun inserted (log ++ [(i, x)]) t where
  numbered := by
    refine h.numbered.concat le_rfl (fun hsome => ?_) fun hsome => ?_
    · rw [hbegun] at hsome
      cases hsome
    · rw [hinserted] at hsome
      cases hsome
  active := h.active
  own htx := by
    rw [filterMap_concat, insertedIn_of_none hinserted, Option.toList_none, List.append_nil,
      h.own htx]
  lost := h.lost

theorem Tracks.begin (h : Tracks begun inserted log t) (hbegun : begun x = some t.next)
    (hinserted : inserted x = none) : Tracks begun inserted (log ++ [(i, x)]) t.begin.2 where
  numbered := by
    refine h.numbered.concat (Nat.le_succ _) (fun hsome => ?_) fun hsome => ?_
    · rw [hbegun] at hsome
      cases hsome
      exact ⟨rfl, Nat.lt_succ_self _⟩
    · rw [hinserted] at hsome
      cases hsome
  active {tx} htx := by
    rcases List.mem_cons.1 htx with rfl | htx
    · exact Nat.lt_succ_self _
    · exact Nat.lt_succ_of_lt (h.active htx)
  own {tx} htx := by
    rw [filterMap_concat, insertedIn_of_none hinserted, Option.toList_none, List.append_nil]
    change t.own tx = _
    rcases List.mem_cons.1 htx with rfl | htx
    · -- nothing has been inserted under a new number
      rw [h.lost fun hactive => (h.active hactive).false]
      refine (List.filterMap_eq_nil_iff.2 fun y hy => ?_).symm
      rw [insertedIn]
      cases hrow : inserted y.2 with
      | none => rfl
      | some z =>
        have hlt : z.1 < t.next := h.numbered.inserted_lt hy hrow
        exact if_neg hlt.ne
    · exact h.own htx
  lost htx := h.lost fun hactive => htx (List.mem_cons_of_mem _ hactive)

theorem Tracks.insert {row : α} (h : Tracks begun inserted log t) (hbegun : begun x = none)
    (hinserted : inserted x = some (tx, row)) (htx : tx ∈ t.active)
    (hinsert : t.insert clash tx row = .done t') : Tracks begun inserted (log ++ [(i, x)]) t' := by
  obtain rfl := eq_of_insert hinsert
  have hrow : ∀ other, insertedIn inserted other x = if tx = other then some row else none := by
    intro other
    rw [insertedIn, hinserted, Option.bind_some]
  have hown : ∀ other, ({ t with pending := t.pending ++ [(tx, row)] } : Table α).own other =
      t.own other ++ (insertedIn inserted other x).toList := by
    intro other
    rw [hrow]
    by_cases hother : tx = other
    · simp [Table.own, hother]
    · simp [Table.own, hother]
  refine ⟨?_, h.active, fun {other} hactive => ?_, fun {other} hactive => ?_⟩
  · refine h.numbered.concat le_rfl (fun hsome => ?_) fun hsome => ?_
    · rw [hbegun] at hsome
      cases hsome
    · rw [hinserted] at hsome
      cases hsome
      exact h.active htx
  · rw [hown, filterMap_concat, h.own hactive]
  · have hne : tx ≠ other := fun heq => hactive (heq ▸ htx)
    rw [hown, h.lost hactive, hrow, if_neg hne]
    rfl

/-- **Every event keeps the log and the table in step.** -/
theorem Tracks.concat (h : Tracks begun inserted log t)
    (heffect : Effect clash begun inserted t x t') :
    Tracks begun inserted (log ++ [(i, x)]) t' := by
  cases heffect with
  | begin hbegun hinserted => exact h.begin hbegun hinserted
  | insert hbegun hinserted htx hinsert => exact h.insert hbegun hinserted htx hinsert
  | commit tx hbegun hinserted => exact (h.commit tx).logged hbegun hinserted
  | abort gone hbegun hinserted => exact (h.abort gone).logged hbegun hinserted

end Table

/-- **Where tasks insert in transactions they began, an open transaction has what its task
inserted.** -/
theorem Table.Tracks.own_eq {E : Type} {R : E → Type} {α : Type}
    {begun : Prog.Event E R → Option Nat} {inserted : Prog.Event E R → Option (Nat × α)}
    {log : Pool.Log E R} {t : Table α} {tx i : Nat}
    (h : Table.Tracks begun inserted log t) (htx : tx ∈ t.active)
    (hbegins : ∀ {j x row}, (j, x) ∈ log → inserted x = some (tx, row) →
      ∃ y ∈ Pool.trace log j, begun y = some tx)
    (hbegun : ∃ y ∈ Pool.trace log i, begun y = some tx) :
    t.own tx = (Pool.trace log i).filterMap (Table.insertedIn inserted tx) := by
  rw [h.own htx]
  refine Pool.filterMap_trace fun x hx hne => ?_
  rw [Table.insertedIn]
  cases hrow : inserted x.2 with
  | none => rfl
  | some z =>
    refine if_neg fun heq => hne ?_
    obtain ⟨tx', row⟩ := z
    obtain rfl : tx' = tx := heq
    obtain ⟨y, hy, hy'⟩ := hbegins hx hrow
    obtain ⟨z, hz, hz'⟩ := hbegun
    exact h.numbered.once (Pool.mem_of_mem_trace hy) (Pool.mem_of_mem_trace hz) hy' hz'

end QfcServerWallet.Lib
