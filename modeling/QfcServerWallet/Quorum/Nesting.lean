import QfcServerWallet.Lib.Walk
import QfcServerWallet.Quorum.RegistryCalls
import Mathlib.Data.List.Rotate
import Mathlib.Logic.Relation

/-!
# The nesting check

`walk_nested` and the nesting loop of `create_approver_set` (`qfc-quorum/src/registry/memory.rs`),
against the graph they are about: two wallets are adjacent when an existing set has both of them as
nested members.

* The walk pushes, for every set with the wallet, the *other* nested wallets of the set. Adjacency
  is symmetric, so the wallet a walk came from is among what it pushes next, and it stops there with
  `NestingCycle`, whether or not the sets contain a cycle.
* `GenuineCycle approvers sets w`: at least two distinct sets and as many distinct wallets, each set
  with two consecutive wallets, which can be reached from `w`.
* `Alone approvers sets w`: no set has the wallet together with another one.
* `NestingExact s create wallets`: over all orders in which the map can be iterated, the check of a
  request returns, always with the same verdict, and only with an error that is right.

Results: **`nesting_check_exact`**; `lone_set_refused` is a refusal without a cycle. Between the two
conditions of the first the order can decide: with a genuine cycle in reach,
`refusal_depends_on_order` gets either error.
-/

namespace QfcServerWallet.Quorum

open Lib

variable {approvers : Approvers} {sets sets' : List ApproverSet} {v w : WalletId}

/-! ## The graph of nested wallets -/

/-- A member of the set stands for the wallet. -/
def NestedIn (approvers : Approvers) (set : ApproverSet) (w : WalletId) : Prop :=
  ∃ m ∈ set.members, nestedMember approvers m = some w

/-- A set has both wallets. -/
def Adjacent (approvers : Approvers) (sets : List ApproverSet) (w v : WalletId) : Prop :=
  v ≠ w ∧ ∃ set ∈ sets, NestedIn approvers set w ∧ NestedIn approvers set v

/-- No set has the wallet together with another one. -/
def Alone (approvers : Approvers) (sets : List ApproverSet) (w : WalletId) : Prop :=
  ∀ set ∈ sets, NestedIn approvers set w → ∀ v, NestedIn approvers set v → v = w

/-- A cycle through distinct sets and wallets: the set beside each wallet has it and the next. -/
def IsCycle (approvers : Approvers) (sets : List ApproverSet)
    (cycle : List (ApproverSet × WalletId)) : Prop :=
  2 ≤ cycle.length ∧ (cycle.map Prod.fst).Nodup ∧ (cycle.map Prod.snd).Nodup ∧
    (∀ x ∈ cycle, x.1 ∈ sets) ∧
    ∀ x ∈ cycle.zip (cycle.rotate 1),
      NestedIn approvers x.1.1 x.1.2 ∧ NestedIn approvers x.1.1 x.2.2

/-- A cycle that can be reached from the wallet. -/
def GenuineCycle (approvers : Approvers) (sets : List ApproverSet) (w : WalletId) : Prop :=
  ∃ cycle, IsCycle approvers sets cycle ∧
    ∃ x ∈ cycle, Relation.ReflTransGen (Adjacent approvers sets) w x.2

theorem Adjacent.symm (h : Adjacent approvers sets w v) : Adjacent approvers sets v w := by
  obtain ⟨hne, set, hset, hw, hv⟩ := h
  exact ⟨hne.symm, set, hset, hv, hw⟩

theorem mem_continuations :
    v ∈ continuations approvers sets w ↔ Adjacent approvers sets w v := by
  simp only [continuations, List.mem_flatMap, Adjacent, NestedIn]
  constructor
  · rintro ⟨set, hset, m, hm, hv⟩
    split at hv
    · next hw =>
      obtain ⟨hv, hne⟩ := List.mem_filter.1 hv
      obtain ⟨o, ho, hov⟩ := List.mem_filterMap.1 hv
      exact ⟨by simpa using hne, set, hset, ⟨m, hm, hw⟩, o, ho, hov⟩
    · cases hv
  · rintro ⟨hne, set, hset, ⟨m, hm, hw⟩, o, ho, hov⟩
    refine ⟨set, hset, m, hm, ?_⟩
    rw [if_pos hw]
    exact List.mem_filter.2 ⟨List.mem_filterMap.2 ⟨o, ho, hov⟩, by simpa using hne⟩

theorem continuations_eq_nil_iff :
    continuations approvers sets w = [] ↔ Alone approvers sets w := by
  rw [List.eq_nil_iff_forall_not_mem]
  simp only [mem_continuations]
  constructor
  · intro h set hset hw v hv
    by_contra hne
    exact h v ⟨hne, set, hset, hw, hv⟩
  · rintro h v ⟨hne, set, hset, hw, hv⟩
    exact hne (h set hset hw v hv)

theorem Alone.perm (h : Alone approvers sets w) (hperm : sets'.Perm sets) :
    Alone approvers sets' w := fun set hset => h set (hperm.subset hset)

/-! ## The walk -/

/-- What a walk answers the caller. -/
def nestingResult : Verdict WalletId → Except RegistryError Unit
  | .done => .ok ()
  | .tooDeep => .error (.nestingTooDeep maxNestingDepth)
  | .revisited w => .error (.nestingCycle w)

/-- The neighbours of a wallet, in the order in which the walk pops them. -/
def neighbours (approvers : Approvers) (sets : List ApproverSet) (w : WalletId) : List WalletId :=
  (continuations approvers sets w).reverse

theorem mem_neighbours : v ∈ neighbours approvers sets w ↔ Adjacent approvers sets w v :=
  List.mem_reverse.trans mem_continuations

theorem walkNested_eq (rounds : Nat) (visited : List WalletId) (stack : List (WalletId × UInt8)) :
    walkNested approvers sets rounds visited stack =
      (walk maxNestingDepth.toNat (neighbours approvers sets) rounds visited
        (stack.map fun x => (x.1, x.2.toNat))).map nestingResult := by
  induction rounds generalizing visited stack with
  | zero => cases stack <;> rfl
  | succ rounds ih =>
    match stack with
    | [] => rfl
    | (w, d) :: stack =>
      rw [walkNested, List.map_cons, walk]
      by_cases hdeep : maxNestingDepth < d
      · rw [if_pos hdeep, if_pos (UInt8.lt_iff_toNat_lt.1 hdeep)]
        rfl
      by_cases hvisited : w ∈ visited
      · rw [if_neg hdeep, if_neg fun h => hdeep (UInt8.lt_iff_toNat_lt.2 h), if_pos hvisited,
          if_pos hvisited]
        rfl
      rw [if_neg hdeep, if_neg fun h => hdeep (UInt8.lt_iff_toNat_lt.2 h), if_neg hvisited,
        if_neg hvisited, ih]
      have hd : (d + 1).toNat = d.toNat + 1 := by
        have hle : d.toNat ≤ 3 := Nat.not_lt.1 fun h => hdeep (UInt8.lt_iff_toNat_lt.2 h)
        rw [UInt8.toNat_add]
        exact Nat.mod_eq_of_lt (by simp; omega)
      simp [neighbours, hd, Function.comp_def]

section Start

variable (approvers : Approvers) (sets : List ApproverSet) (w : WalletId)

theorem walkNested_start : ∃ verdict,
    walkNested approvers sets (walkRounds sets) [] [(w, 0)] = some (nestingResult verdict) ∧
    walk maxNestingDepth.toNat (neighbours approvers sets) (walkRounds sets) [] [(w, 0)] =
      some verdict := by
  have heq : walkNested approvers sets (walkRounds sets) [] [(w, 0)] = _ := walkNested_eq _ _ _
  have hsome : (walkNested approvers sets (walkRounds sets) [] [(w, 0)]).isSome = true :=
    walkNested_finishes w
  rw [heq, Option.isSome_map] at hsome
  obtain ⟨verdict, hverdict⟩ := Option.isSome_iff_exists.1 hsome
  exact ⟨verdict, heq.trans (by rw [hverdict]; rfl), hverdict⟩

/-- **The walk accepts a wallet iff it is alone.** -/
theorem walkNested_ok_iff :
    walkNested approvers sets (walkRounds sets) [] [(w, 0)] = some (.ok ()) ↔
      Alone approvers sets w := by
  obtain ⟨verdict, hnested, hwalk⟩ := walkNested_start approvers sets w
  have hdone : walk maxNestingDepth.toNat (neighbours approvers sets) (walkRounds sets) []
      [(w, 0)] = some .done ↔ neighbours approvers sets w = [] :=
    walk_done_iff (by decide) (fun {_ _} h => mem_neighbours.2 (mem_neighbours.1 h).symm)
      (fun _ h => (mem_neighbours.1 h).1 rfl) (by rw [hwalk]; rfl)
  rw [neighbours, List.reverse_eq_nil_iff, continuations_eq_nil_iff, hwalk] at hdone
  rw [← hdone, hnested]
  cases verdict <;> simp [nestingResult]

theorem simplePath_of_walkNested {d : UInt8}
    (h : walkNested approvers sets (walkRounds sets) [] [(w, 0)] =
      some (.error (.nestingTooDeep d))) :
    ∃ path, SimplePath (Adjacent approvers sets) w path ∧ maxNestingDepth.toNat < path.length := by
  obtain ⟨verdict, hnested, hwalk⟩ := walkNested_start approvers sets w
  have hadj : (fun a b => b ∈ neighbours approvers sets a) = Adjacent approvers sets := by
    funext a b
    exact propext mem_neighbours
  cases verdict with
  | tooDeep =>
    rw [← hadj]
    exact exists_simplePath_of_tooDeep (fun x hx => .inl (List.mem_singleton.1 hx)) hwalk
  | done | revisited =>
    rw [hnested] at h
    cases h

end Start

variable {wallets : List WalletId} {set : ApproverSet}

/-! ## The order of the sets -/

/-- The nested wallets of a set, in the order of its members. -/
def nestedWallets (approvers : Approvers) (members : List ApproverId) : List WalletId :=
  members.filterMap (nestedMember approvers)

theorem mem_nestedWallets :
    w ∈ nestedWallets approvers set.members ↔ NestedIn approvers set w := List.mem_filterMap

theorem nestedWallets_of_resolveMembers {ms : List ApproverId}
    (h : resolveMembers approvers ms = .ok wallets) : wallets = nestedWallets approvers ms := by
  induction ms generalizing wallets with
  | nil =>
    cases h
    rfl
  | cons m ms ih =>
    rw [resolveMembers] at h
    split at h
    · cases h
    next rec hrec =>
    split at h
    · cases h
    obtain ⟨rest, hrest, hwallets⟩ := bind_eq_ok.1 h
    cases hwallets
    rw [ih hrest, nestedWallets, nestedWallets, List.filterMap_cons, nestedMember, hrec,
      Option.bind_some]
    cases rec.identity.nested? <;> rfl

theorem getLast?_flatMap_ite {α β : Type} {p : α → Prop} [DecidablePred p] {l : List β}
    {ms : List α} (h : ∃ m ∈ ms, p m) :
    (ms.flatMap fun m => if p m then l else []).getLast? = l.getLast? := by
  induction ms with
  | nil => exact absurd h (by simp)
  | cons m ms ih =>
    rw [List.flatMap_cons, List.getLast?_append]
    by_cases hms : ∃ m ∈ ms, p m
    · rw [ih hms]
      split
      · exact Option.or_self
      · exact Option.or_none
    · have hm : p m := by
        obtain ⟨m', hm', hp⟩ := h
        rcases List.mem_cons.1 hm' with rfl | hm'
        · exact hp
        · exact absurd ⟨m', hm', hp⟩ hms
      have hnil : (ms.flatMap fun m => if p m then l else []) = [] := by
        refine List.flatMap_eq_nil_iff.2 fun m' hm' => if_neg fun hp => hms ⟨m', hm', hp⟩
      rw [hnil, if_pos hm]
      rfl

theorem getLast?_filter_of_last {α : Type} {p : α → Bool} {l : List α} {z : α}
    (h : l.getLast? = some z) (hz : p z = true) : (l.filter p).getLast? = some z := by
  obtain ⟨front, rfl⟩ := List.getLast?_eq_some_iff.1 h
  rw [List.filter_append, List.filter_singleton, hz]
  exact List.getLast?_concat

theorem head?_neighbours (hw : NestedIn approvers set w) (hv : NestedIn approvers set v)
    (hne : v ≠ w) (rest : List ApproverSet) :
    ∃ u, ((nestedWallets approvers set.members).filter (· ≠ w)).getLast? = some u ∧
      (neighbours approvers (rest ++ [set]) w).head? = some u := by
  have hmem : v ∈ (nestedWallets approvers set.members).filter (· ≠ w) :=
    List.mem_filter.2 ⟨mem_nestedWallets.2 hv, by simpa using hne⟩
  obtain ⟨u, hu⟩ : ∃ u, ((nestedWallets approvers set.members).filter (· ≠ w)).getLast? = some u :=
    Option.ne_none_iff_exists'.1 fun h =>
      List.ne_nil_of_mem hmem (List.getLast?_eq_none_iff.1 h)
  have hlast : (continuations approvers [set] w).getLast? = some u := by
    rw [continuations, List.flatMap_singleton, ← hu]
    exact getLast?_flatMap_ite hw
  have happend : continuations approvers (rest ++ [set]) w =
      continuations approvers rest w ++ continuations approvers [set] w := List.flatMap_append
  refine ⟨u, hu, ?_⟩
  rw [neighbours, List.head?_reverse, happend, List.getLast?_append, hlast]
  rfl

/-- **Iterated with a set of two nested wallets at the end, the sets refuse each of them as a
cycle.** -/
theorem walkNested_refused (hw : NestedIn approvers set w) (hv : NestedIn approvers set v)
    (hne : v ≠ w) (rest : List ApproverSet) :
    ∃ u, walkNested approvers (rest ++ [set]) (walkRounds (rest ++ [set])) [] [(w, 0)] =
      some (.error (.nestingCycle u)) := by
  obtain ⟨verdict, hnested, hwalk⟩ := walkNested_start approvers (rest ++ [set]) w
  have hirrefl : ∀ a, a ∉ neighbours approvers (rest ++ [set]) a := fun _ h =>
    (mem_neighbours.1 h).1 rfl
  obtain ⟨z, hz⟩ : ∃ z, (nestedWallets approvers set.members).getLast? = some z := by
    refine Option.ne_none_iff_exists'.1 fun h => ?_
    rw [List.getLast?_eq_none_iff] at h
    exact absurd (mem_nestedWallets.2 hw) (by rw [h]; exact List.not_mem_nil)
  have hzin : NestedIn approvers set z := mem_nestedWallets.1 (List.mem_of_getLast? hz)
  -- the last wallet of the set is the next one after every other
  have hlast {u : WalletId} (hu : NestedIn approvers set u) (huz : z ≠ u) :
      (neighbours approvers (rest ++ [set]) u).head? = some z := by
    obtain ⟨y, hy, hhead⟩ := head?_neighbours hu hzin huz rest
    cases (getLast?_filter_of_last hz (by simpa using huz)).symm.trans hy
    exact hhead
  suffices hrevisited : ∃ a, walk maxNestingDepth.toNat (neighbours approvers (rest ++ [set]))
      (walkRounds (rest ++ [set])) [] [(w, 0)] = some (.revisited a) by
    obtain ⟨a, ha⟩ := hrevisited
    cases hwalk.symm.trans ha
    exact ⟨a, hnested⟩
  have hrounds : (walk maxNestingDepth.toNat (neighbours approvers (rest ++ [set]))
      (walkRounds (rest ++ [set])) [] [(w, 0)]).isSome = true := by
    rw [hwalk]
    rfl
  by_cases hzw : z = w
  · -- any other wallet leads back to the start
    obtain ⟨b, hb, hhead⟩ := head?_neighbours hw hv hne rest
    obtain ⟨hbin, hbne⟩ := List.mem_filter.1 (List.mem_of_getLast? hb)
    have hback := hlast (mem_nestedWallets.1 hbin) fun heq => by simp [← heq, hzw] at hbne
    exact walk_revisited (by decide) hirrefl hhead hback (.inl hzw) hrounds
  · -- the last wallet leads to some other one, and that back to it
    obtain ⟨c, hc, hhead⟩ := head?_neighbours hzin hw (fun heq => hzw heq.symm) rest
    obtain ⟨hcin, hcne⟩ := List.mem_filter.1 (List.mem_of_getLast? hc)
    have hback := hlast (mem_nestedWallets.1 hcin) fun heq => by simp [← heq] at hcne
    exact walk_revisited (by decide) hirrefl (hlast hw hzw) hhead (.inr hback) hrounds

/-! ## The loop over the nested wallets -/

theorem checkNesting_ok_iff :
    checkNesting approvers sets wallets = some (.ok ()) ↔
      ∀ w ∈ wallets, Alone approvers sets w := by
  induction wallets with
  | nil => exact iff_of_true rfl nofun
  | cons w ws ih =>
    rw [checkNesting, List.forall_mem_cons, ← walkNested_ok_iff]
    split
    · next hok => rw [ih, hok, eq_self_iff_true, true_and]
    · next hnot =>
      exact iff_of_false hnot fun h => hnot h.1

theorem walkNested_of_checkNesting {e : RegistryError}
    (h : checkNesting approvers sets wallets = some (.error e)) :
    ∃ w ∈ wallets, walkNested approvers sets (walkRounds sets) [] [(w, 0)] = some (.error e) := by
  induction wallets with
  | nil => cases h
  | cons w ws ih =>
    rw [checkNesting] at h
    split at h
    · obtain ⟨w', hw', hwalk⟩ := ih h
      exact ⟨w', List.mem_cons_of_mem _ hw', hwalk⟩
    · exact ⟨w, List.mem_cons_self, h⟩

theorem exists_order_of_not_alone (h : ¬ ∀ w ∈ wallets, Alone approvers sets w) :
    ∃ order, order.Perm sets ∧ ∃ u,
      checkNesting approvers order wallets = some (.error (.nestingCycle u)) := by
  induction wallets with
  | nil => exact absurd nofun h
  | cons w ws ih =>
    by_cases hw : Alone approvers sets w
    · -- accepted in every order
      obtain ⟨order, hperm, u, hu⟩ := ih fun hws => h (List.forall_mem_cons.2 ⟨hw, hws⟩)
      refine ⟨order, hperm, u, ?_⟩
      rw [checkNesting, (walkNested_ok_iff approvers order w).2 (hw.perm hperm)]
      exact hu
    · obtain ⟨set, hset, hin, v, hv, hne⟩ : ∃ set ∈ sets, NestedIn approvers set w ∧
          ∃ v, NestedIn approvers set v ∧ v ≠ w := by
        by_contra hnot
        refine hw fun set hset hin v hv => by_contra fun hne => hnot ?_
        exact ⟨set, hset, hin, v, hv, hne⟩
      obtain ⟨front, back, rfl⟩ := List.append_of_mem hset
      obtain ⟨u, hu⟩ := walkNested_refused hin hv hne (front ++ back)
      refine ⟨front ++ back ++ [set], ?_, u, ?_⟩
      · refine (List.perm_append_singleton set (front ++ back)).trans ?_
        exact List.perm_middle.symm
      · rw [checkNesting, hu]

theorem adjacent_perm (h : sets'.Perm sets) :
    Adjacent approvers sets' = Adjacent approvers sets := by
  funext w v
  simp only [Adjacent, h.mem_iff]

theorem MemoryApproverRegistry.Created.of_members {s s' : MemoryApproverRegistry.State}
    {create : ApproverSetCreate} {o : Except RegistryError ApproverSet} (h : Created s create o s')
    (hshape : validateSetShape create = .ok ())
    (hmembers : resolveMembers s.approvers create.members = .ok wallets) :
    ∃ order, order.Perm s.sets ∧
      ((∃ set, o = .ok set ∧ checkNesting s.approvers order wallets = some (.ok ())) ∨
        ∃ e, o = .error e ∧ checkNesting s.approvers order wallets = some (.error e)) := by
  cases h with
  | badShape hbad =>
    rw [hshape] at hbad
    cases hbad
  | badMember _ hbad =>
    rw [hmembers] at hbad
    cases hbad
  | badNesting _ hmembers' hperm hcheck =>
    cases hmembers.symm.trans hmembers'
    exact ⟨_, hperm, .inr ⟨_, rfl, hcheck⟩⟩
  | stored id now _ hmembers' hperm hcheck =>
    cases hmembers.symm.trans hmembers'
    exact ⟨_, hperm, .inl ⟨_, rfl, hcheck⟩⟩

section Exact

open MemoryApproverRegistry

variable {s : MemoryApproverRegistry.State} {create : ApproverSetCreate}

/-- A simple path with more wallets than the bound leaves a listed wallet. -/
def DeeplyNested (approvers : Approvers) (sets : List ApproverSet) (wallets : List WalletId) :
    Prop :=
  ∃ w ∈ wallets, ∃ path, SimplePath (Adjacent approvers sets) w path ∧
    maxNestingDepth.toNat < path.length

/-- **The nesting check of a request is exact**, in every order in which the map can be iterated. -/
structure NestingExact (s : MemoryApproverRegistry.State) (create : ApproverSetCreate)
    (wallets : List WalletId) : Prop where
  terminates : ∀ order, order.Perm s.sets →
    (checkNesting s.approvers order wallets).isSome = true
  cycle : ∀ s' u, (createApproverSet create).Runs step s (.error (.nestingCycle u)) s' →
    ∃ w ∈ wallets, GenuineCycle s.approvers s.sets w
  tooDeep : ∀ s' d, (createApproverSet create).Runs step s (.error (.nestingTooDeep d)) s' →
    DeeplyNested s.approvers s.sets wallets
  /-- accepted, or refused with the same error -/
  verdict : ∀ o₁ s₁ o₂ s₂, (createApproverSet create).Runs step s o₁ s₁ →
    (createApproverSet create).Runs step s o₂ s₂ →
    o₁.map (fun _ => ()) = o₂.map fun _ => ()

variable (hshape : validateSetShape create = .ok ())
  (hmembers : resolveMembers s.approvers create.members = .ok wallets)

include hshape hmembers

theorem accepted_iff_alone {o : Except RegistryError ApproverSet}
    {s' : MemoryApproverRegistry.State} (hrun : (createApproverSet create).Runs step s o s') :
    (∃ set, o = .ok set) ↔ ∀ w ∈ wallets, Alone s.approvers s.sets w := by
  have halone {order : List ApproverSet} (hperm : order.Perm s.sets) :
      checkNesting s.approvers order wallets = some (.ok ()) ↔
        ∀ w ∈ wallets, Alone s.approvers s.sets w := by
    rw [checkNesting_ok_iff]
    exact forall₂_congr fun _ _ => ⟨fun h => h.perm hperm.symm, fun h => h.perm hperm⟩
  obtain ⟨order, hperm, ⟨set, rfl, hcheck⟩ | ⟨e, rfl, hcheck⟩⟩ :=
    (runs_createApproverSet_iff.1 hrun).of_members hshape hmembers
  · exact iff_of_true ⟨set, rfl⟩ ((halone hperm).1 hcheck)
  · refine iff_of_false (by simp) fun h => ?_
    cases ((halone hperm).2 h).symm.trans hcheck

theorem deeplyNested_of_runs {d : UInt8} {s' : MemoryApproverRegistry.State}
    (hrun : (createApproverSet create).Runs step s (.error (.nestingTooDeep d)) s') :
    DeeplyNested s.approvers s.sets wallets := by
  obtain ⟨order, hperm, ⟨set, ho, -⟩ | ⟨e, ho, hcheck⟩⟩ :=
    (runs_createApproverSet_iff.1 hrun).of_members hshape hmembers
  · cases ho
  · cases ho
    obtain ⟨w, hw, hwalk⟩ := walkNested_of_checkNesting hcheck
    rw [DeeplyNested, ← adjacent_perm hperm]
    exact ⟨w, hw, simplePath_of_walkNested s.approvers order w hwalk⟩

/-- **A creation whose shape and members are valid is checked in finite time. In every order of the
map it is accepted iff its nested wallets are alone, and a refusal as too deep is right. The whole
check is exact if the wallets are alone, and then only if they are alone or a genuine cycle can be
reached.** -/
theorem nesting_check_exact :
    (∀ order, order.Perm s.sets → (checkNesting s.approvers order wallets).isSome = true) ∧
    (∀ o s', (createApproverSet create).Runs step s o s' →
      ((∃ set, o = .ok set) ↔ ∀ w ∈ wallets, Alone s.approvers s.sets w) ∧
      ∀ d, o = .error (.nestingTooDeep d) → DeeplyNested s.approvers s.sets wallets) ∧
    ((∀ w ∈ wallets, Alone s.approvers s.sets w) → NestingExact s create wallets) ∧
    (NestingExact s create wallets → (∀ w ∈ wallets, Alone s.approvers s.sets w) ∨
      ∃ w ∈ wallets, GenuineCycle s.approvers s.sets w) := by
  have htooDeep {d : UInt8} {s' : MemoryApproverRegistry.State}
      (hrun : (createApproverSet create).Runs step s (.error (.nestingTooDeep d)) s') :=
    deeplyNested_of_runs hshape hmembers hrun
  refine ⟨fun order _ => checkNesting_isSome wallets, fun o s' hrun =>
    ⟨accepted_iff_alone hshape hmembers hrun, fun d ho => htooDeep (ho ▸ hrun)⟩, fun halone => ?_,
    fun hexact => ?_⟩
  · have haccepted {o : Except RegistryError ApproverSet} {s' : MemoryApproverRegistry.State}
        (hrun : (createApproverSet create).Runs step s o s') :=
      (accepted_iff_alone hshape hmembers hrun).2 halone
    refine ⟨fun order _ => checkNesting_isSome wallets, fun s' u hrun => ?_,
      fun s' d hrun => htooDeep hrun, fun o₁ s₁ o₂ s₂ h₁ h₂ => ?_⟩
    · obtain ⟨set, hset⟩ := haccepted hrun
      cases hset
    · obtain ⟨set₁, rfl⟩ := haccepted h₁
      obtain ⟨set₂, rfl⟩ := haccepted h₂
      rfl
  · by_contra hnot
    obtain ⟨hnotAlone, hnoCycle⟩ := not_or.1 hnot
    obtain ⟨order, hperm, u, hcheck⟩ := exists_order_of_not_alone hnotAlone
    have hrun := runs_createApproverSet_iff.2 (.badNesting hshape hmembers hperm hcheck)
    exact hnoCycle (hexact.cycle _ u hrun)

end Exact

/-! ## Refusals -/

namespace SampleNesting

/-- Approvers one to four stand for the wallets one to four. -/
def registered : Approvers := fun id =>
  if id.ulid.toNat ≤ 4 then some {
    approverId := id
    identity := .nestedWallet ⟨id.ulid⟩ [1, 2, 3] .ed25519
    scheme := .ed25519
    label := "nested"
    ownerId := ⟨"acme"⟩
    webhookUrl := none
    status := .active
    addedAtUnixMs := 1000 }
  else none

/-- A set of two. -/
def pair (id : ApproverSetId) (m o : ApproverId) : ApproverSet where
  id := id
  name := "pair"
  ownerId := ⟨"acme"⟩
  members := [m, o]
  threshold := 1
  total := 2
  quorumTimeoutSecs := none
  createdAtUnixMs := 1000

/-- Wallet one alone. -/
def create : ApproverSetCreate where
  name := "new"
  ownerId := ⟨"acme"⟩
  members := [⟨1⟩]
  threshold := 1
  total := 1
  quorumTimeoutSecs := none

/-- The only set has the wallets one and two. -/
def lonePair : MemoryApproverRegistry.State := ⟨registered, [pair ⟨11⟩ ⟨1⟩ ⟨2⟩]⟩

/-- The only set has other wallets. -/
def otherPair : MemoryApproverRegistry.State := ⟨registered, [pair ⟨11⟩ ⟨2⟩ ⟨3⟩]⟩

theorem create_members : resolveMembers registered create.members = .ok [⟨1⟩] := rfl

end SampleNesting

open SampleNesting MemoryApproverRegistry in
/-- Wallet one is in no other set: a set with it is accepted, and the check is exact. -/
theorem set_of_lone_wallet_accepted :
    (createApproverSet create).Runs step otherPair (.ok (newSet create ⟨20⟩ 1500))
      (otherPair.putSet (newSet create ⟨20⟩ 1500)) ∧ NestingExact otherPair create [⟨1⟩] := by
  have hshape : validateSetShape create = .ok () := rfl
  have hrun : (createApproverSet create).Runs step otherPair (.ok (newSet create ⟨20⟩ 1500)) _ :=
    runs_createApproverSet_iff.2 (.stored ⟨20⟩ 1500 hshape create_members (.refl _) rfl)
  obtain ⟨-, hruns, hexact, -⟩ := nesting_check_exact (s := otherPair) hshape create_members
  exact ⟨hrun, hexact ((hruns _ _ hrun).1.1 ⟨_, rfl⟩)⟩

open SampleNesting MemoryApproverRegistry in
/-- A set has the wallets one and two, and it is the only one. A second set with wallet one is
refused as a cycle. -/
theorem lone_set_refused :
    validateSetShape create = .ok () ∧
    resolveMembers lonePair.approvers create.members = .ok [⟨1⟩] ∧
    (createApproverSet create).Runs step lonePair (.error (.nestingCycle ⟨1⟩)) lonePair ∧
    ∀ w, ¬ GenuineCycle lonePair.approvers lonePair.sets w := by
  refine ⟨rfl, rfl, ?_, ?_⟩
  · exact runs_createApproverSet_iff.2 (.badNesting rfl create_members (.refl _) rfl)
  · rintro w ⟨cycle, ⟨hlength, hsets, -, hmem, -⟩, -⟩
    -- one set is not enough for a cycle
    have hsubset : cycle.map Prod.fst ⊆ lonePair.sets := by
      intro set hset
      obtain ⟨x, hx, rfl⟩ := List.mem_map.1 hset
      exact hmem x hx
    have hle := (List.subperm_of_subset hsets hsubset).length_le
    rw [List.length_map] at hle
    exact absurd (hlength.trans hle) (by decide)

open SampleNesting in
/-- Two sets with the wallets three and four are a genuine cycle. Whether the walk from wallet one
gets there decides which error it gives. -/
theorem refusal_depends_on_order :
    GenuineCycle registered [pair ⟨11⟩ ⟨1⟩ ⟨2⟩, pair ⟨12⟩ ⟨2⟩ ⟨3⟩, pair ⟨13⟩ ⟨3⟩ ⟨4⟩,
      pair ⟨14⟩ ⟨3⟩ ⟨4⟩] ⟨1⟩ ∧
    checkNesting registered [pair ⟨11⟩ ⟨1⟩ ⟨2⟩, pair ⟨12⟩ ⟨2⟩ ⟨3⟩, pair ⟨13⟩ ⟨3⟩ ⟨4⟩,
      pair ⟨14⟩ ⟨3⟩ ⟨4⟩] [⟨1⟩] = some (.error (.nestingTooDeep 3)) ∧
    checkNesting registered [pair ⟨14⟩ ⟨3⟩ ⟨4⟩, pair ⟨13⟩ ⟨3⟩ ⟨4⟩, pair ⟨12⟩ ⟨2⟩ ⟨3⟩,
      pair ⟨11⟩ ⟨1⟩ ⟨2⟩] [⟨1⟩] = some (.error (.nestingCycle ⟨1⟩)) := by
  refine ⟨⟨[(pair ⟨13⟩ ⟨3⟩ ⟨4⟩, ⟨3⟩), (pair ⟨14⟩ ⟨3⟩ ⟨4⟩, ⟨4⟩)], ?_, (pair ⟨13⟩ ⟨3⟩ ⟨4⟩, ⟨3⟩),
    by simp, ?_⟩, rfl, rfl⟩
  · unfold IsCycle NestedIn
    decide +kernel
  · refine .tail (.single (b := ⟨2⟩) ?_) ?_
    · exact ⟨by decide, pair ⟨11⟩ ⟨1⟩ ⟨2⟩, by simp, ⟨⟨1⟩, by simp [pair], rfl⟩,
        ⟨2⟩, by simp [pair], rfl⟩
    · exact ⟨by decide, pair ⟨12⟩ ⟨2⟩ ⟨3⟩, by simp, ⟨⟨2⟩, by simp [pair], rfl⟩,
        ⟨3⟩, by simp [pair], rfl⟩

end QfcServerWallet.Quorum
