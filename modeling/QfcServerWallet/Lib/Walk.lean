import Mathlib.Data.List.Basic

/-!
# Depth-first walks that stop at what they have seen

A walk over a graph given by `next`, with an explicit stack of nodes and their depths. It stops
with `tooDeep` at a node below the bound and with `revisited` at a node it has visited, and is
`done` when the stack is empty.

Results, for a walk with enough rounds: **`walk_done_iff`** (over a symmetric graph, any walk from a
node with neighbours comes back to where it came from), **`exists_simplePath_of_tooDeep`** and
`walk_revisited`.
-/

namespace QfcServerWallet.Lib

/-- How a walk can end. -/
inductive Verdict (α : Type) where
  | done
  | tooDeep
  | revisited (a : α)
  deriving DecidableEq

/-- A path from `start` without repetitions, listed from its end. -/
inductive SimplePath {α : Type} (adj : α → α → Prop) (start : α) : List α → Prop
  | single : SimplePath adj start [start]
  | cons {a b : α} {path : List α} : SimplePath adj start (a :: path) → adj a b →
      b ∉ a :: path → SimplePath adj start (b :: a :: path)

variable {α : Type} [DecidableEq α]

/-- The stack has its top at the head, and `none` says that the rounds ran out. -/
def walk (bound : Nat) (next : α → List α) :
    Nat → List α → List (α × Nat) → Option (Verdict α)
  | _, _, [] => some .done
  | 0, _, _ :: _ => none
  | rounds + 1, visited, (a, d) :: stack =>
    if bound < d then some .tooDeep
    else if a ∈ visited then some (.revisited a)
    else walk bound next rounds (a :: visited) ((next a).map (·, d + 1) ++ stack)

variable {bound : Nat} {next : α → List α} {rounds : Nat} {visited : List α}
  {stack : List (α × Nat)} {a start : α} {d : Nat}

theorem walk_cons_of_new (hd : d ≤ bound) (ha : a ∉ visited) :
    walk bound next (rounds + 1) visited ((a, d) :: stack) =
      walk bound next rounds (a :: visited) ((next a).map (·, d + 1) ++ stack) := by
  rw [walk, if_neg (Nat.not_lt.2 hd), if_neg ha]

theorem walk_cons_of_visited (hd : d ≤ bound) (ha : a ∈ visited) :
    walk bound next (rounds + 1) visited ((a, d) :: stack) = some (.revisited a) := by
  rw [walk, if_neg (Nat.not_lt.2 hd), if_pos ha]

theorem walk_nil : walk bound next rounds visited [] = some .done := by
  cases rounds <;> rfl

theorem exists_succ_of_isSome {x : α × Nat}
    (h : (walk bound next rounds visited (x :: stack)).isSome) : ∃ n, rounds = n + 1 := by
  cases rounds with
  | zero => cases h
  | succ n => exact ⟨n, rfl⟩

/-! ## Walks that are done -/

theorem walk_ne_done (h : ∃ x ∈ stack, x.1 ∈ visited) :
    walk bound next rounds visited stack ≠ some .done := by
  induction rounds generalizing visited stack with
  | zero =>
    obtain ⟨x, hx, -⟩ := h
    obtain ⟨y, stack, rfl⟩ := List.exists_cons_of_ne_nil (List.ne_nil_of_mem hx)
    exact nofun
  | succ rounds ih =>
    obtain ⟨x, hx, hvisited⟩ := h
    match stack, hx with
    | (b, d) :: stack, hx =>
      unfold walk
      split
      · exact nofun
      split
      · exact nofun
      next hnew =>
      -- the node that was popped is new, so the visited one is further down
      refine ih ⟨x, List.mem_append_right _ ?_, List.mem_cons_of_mem _ hvisited⟩
      rcases List.mem_cons.1 hx with rfl | hx
      · exact absurd hvisited hnew
      · exact hx

/-- **Over a symmetric graph, a walk is done iff its start has no neighbours.** -/
theorem walk_done_iff (hbound : 1 ≤ bound) (hsymm : ∀ {a b}, b ∈ next a → a ∈ next b)
    (hirrefl : ∀ a, a ∉ next a) (hrounds : (walk bound next rounds [] [(start, 0)]).isSome) :
    walk bound next rounds [] [(start, 0)] = some .done ↔ next start = [] := by
  obtain ⟨rounds, rfl⟩ := exists_succ_of_isSome hrounds
  rw [walk_cons_of_new (Nat.zero_le _) List.not_mem_nil, List.append_nil] at hrounds ⊢
  cases hnext : next start with
  | nil => exact iff_of_true (by rw [List.map_nil, walk_nil]) rfl
  | cons b bs =>
    have hb : b ∈ next start := hnext ▸ List.mem_cons_self
    have hne : b ≠ start := fun heq => hirrefl start (heq ▸ hb)
    rw [hnext, List.map_cons] at hrounds
    obtain ⟨rounds, rfl⟩ := exists_succ_of_isSome hrounds
    rw [List.map_cons, walk_cons_of_new hbound (by simpa using hne)]
    -- the first neighbour leads back to the start
    have hback : ((start, 0 + 1 + 1) : α × Nat) ∈ (next b).map (·, 0 + 1 + 1) :=
      List.mem_map.2 ⟨start, hsymm hb, rfl⟩
    refine iff_of_false (walk_ne_done ⟨_, List.mem_append_left _ hback, ?_⟩) (List.cons_ne_nil b bs)
    exact List.mem_cons_of_mem b (List.mem_singleton_self start)

/-- Where the first neighbours lead back, the walk ends with `revisited`. -/
theorem walk_revisited {b c : α} (hbound : 3 ≤ bound) (hirrefl : ∀ a, a ∉ next a)
    (hb : (next start).head? = some b) (hc : (next b).head? = some c)
    (hback : c = start ∨ (next c).head? = some b)
    (hrounds : (walk bound next rounds [] [(start, 0)]).isSome) :
    ∃ a, walk bound next rounds [] [(start, 0)] = some (.revisited a) := by
  obtain ⟨bs, hbs⟩ := List.head?_eq_some_iff.1 hb
  obtain ⟨cs, hcs⟩ := List.head?_eq_some_iff.1 hc
  have hbne : b ≠ start := fun heq => hirrefl start (by simp [hbs, heq])
  have hcne : c ≠ b := fun heq => hirrefl b (by simp [hcs, heq])
  obtain ⟨rounds, rfl⟩ := exists_succ_of_isSome hrounds
  rw [walk_cons_of_new (by omega) List.not_mem_nil, hbs, List.map_cons, List.cons_append]
    at hrounds ⊢
  obtain ⟨rounds, rfl⟩ := exists_succ_of_isSome hrounds
  rw [walk_cons_of_new (by omega) (by simpa using hbne), hcs, List.map_cons, List.cons_append]
    at hrounds ⊢
  obtain ⟨rounds, rfl⟩ := exists_succ_of_isSome hrounds
  by_cases hstart : c = start
  · exact ⟨c, walk_cons_of_visited (by omega) (by simp [hstart])⟩
  · obtain ⟨ds, hds⟩ := List.head?_eq_some_iff.1 (hback.resolve_left hstart)
    rw [walk_cons_of_new (by omega) (by simp [hcne, hstart]), hds, List.map_cons,
      List.cons_append] at hrounds ⊢
    obtain ⟨rounds, rfl⟩ := exists_succ_of_isSome hrounds
    exact ⟨b, walk_cons_of_visited (by omega) (by simp)⟩

/-! ## Walks that went too deep -/

/-- Every node on the stack is the start, or follows the end of a simple path of visited nodes that
has as many nodes as the node's depth says. -/
def Follows (next : α → List α) (start : α) (visited : List α) (x : α × Nat) : Prop :=
  x = (start, 0) ∨ ∃ a path, SimplePath (fun a b => b ∈ next a) start (a :: path) ∧
    a :: path ⊆ visited ∧ x.1 ∈ next a ∧ (a :: path).length = x.2

omit [DecidableEq α] in
theorem Follows.simplePath (h : Follows next start visited (a, d)) (ha : a ∉ visited) :
    ∃ path, SimplePath (fun a b => b ∈ next a) start (a :: path) ∧ a :: path ⊆ a :: visited ∧
      (a :: path).length = d + 1 := by
  rcases h with h | ⟨b, path, hpath, hsub, hab, hlen⟩
  · cases h
    exact ⟨[], .single, List.cons_subset_cons _ (List.nil_subset _), rfl⟩
  · refine ⟨b :: path, .cons hpath hab fun hmem => ha (hsub hmem), List.cons_subset_cons _ hsub, ?_⟩
    rw [List.length_cons, hlen]

/-- **A walk that went too deep followed a simple path with more nodes than the bound.** -/
theorem exists_simplePath_of_tooDeep (hstack : ∀ x ∈ stack, Follows next start visited x)
    (h : walk bound next rounds visited stack = some .tooDeep) :
    ∃ path, SimplePath (fun a b => b ∈ next a) start path ∧ bound < path.length := by
  induction rounds generalizing visited stack with
  | zero =>
    cases stack <;> cases h
  | succ rounds ih =>
    match stack, hstack, h with
    | (a, d) :: stack, hstack, h =>
      have ha := hstack (a, d) List.mem_cons_self
      unfold walk at h
      split at h
      · next hdeep =>
        rcases ha with ha | ⟨b, path, hpath, -, -, hlen⟩
        · cases ha
          exact absurd hdeep (Nat.not_lt_zero _)
        · exact ⟨b :: path, hpath, hlen ▸ hdeep⟩
      split at h
      · cases h
      next hnew =>
      obtain ⟨path, hpath, hsub, hlen⟩ := ha.simplePath hnew
      refine ih (fun x hx => ?_) h
      rcases List.mem_append.1 hx with hx | hx
      · obtain ⟨b, hb, rfl⟩ := List.mem_map.1 hx
        exact .inr ⟨a, path, hpath, hsub, hb, hlen⟩
      · rcases hstack x (List.mem_cons_of_mem _ hx) with hx | ⟨b, path', hpath', hsub', hrest⟩
        · exact .inl hx
        · exact .inr ⟨b, path', hpath', fun y hy => List.mem_cons_of_mem _ (hsub' hy), hrest⟩

end QfcServerWallet.Lib
