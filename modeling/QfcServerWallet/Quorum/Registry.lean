import QfcServerWallet.Lib.Prog
import QfcServerWallet.Quorum.Approval
import Mathlib.Data.List.Perm.Subperm
import Mathlib.Logic.Function.Basic

/-!
# The approver registry

`qfc-quorum/src/registry/types.rs` and `registry/memory.rs` (`MemoryApproverRegistry`).

* Each lock section is one operation. `create_approver_set` is four of them: it resolves the
  members, walks the nested wallets, draws id and time, and stores the set. Other calls may come
  in between.
* The walk keeps the read lock of the sets for all nested wallets, and clones the approvers for
  each. An approver that is registered meanwhile is a member of no stored set and identities do not
  change, so the walk is one operation that reads both maps.
* `sets.values()` iterates in an order the map chooses. The outside world supplies it, as a
  permutation of the stored sets.
* Ids and clock readings are supplied by the outside world too.

Results: `walkNested_finishes`, `perform_cases`, **`Inv.perform`**, `revoked_of_perform` and
`getSet_of_perform`. Out of scope: `list_approvers_by_owner` and `list_approver_sets`, which only
read.
-/

namespace QfcServerWallet.Quorum

open Lib

/-- `MAX_NESTING_DEPTH` -/
def maxNestingDepth : UInt8 := 3

/-- Whether an approver may still approve. -/
inductive ApproverStatus where
  | active
  | revoked
  deriving DecidableEq

/-- A registered approver. -/
structure ApproverRecord where
  approverId : ApproverId
  identity : ApproverIdentity
  scheme : SigningScheme
  label : String
  ownerId : OwnerId
  webhookUrl : Option String
  status : ApproverStatus
  addedAtUnixMs : Int64
  deriving DecidableEq

/-- A stored set. -/
structure ApproverSet where
  id : ApproverSetId
  name : String
  ownerId : OwnerId
  members : List ApproverId
  threshold : UInt8
  total : UInt8
  quorumTimeoutSecs : Option UInt32
  createdAtUnixMs : Int64
  deriving DecidableEq

/-- An approver to be registered. -/
structure ApproverCreate where
  identity : ApproverIdentity
  label : String
  ownerId : OwnerId
  webhookUrl : Option String
  deriving DecidableEq

/-- A set to be stored. -/
structure ApproverSetCreate where
  name : String
  ownerId : OwnerId
  members : List ApproverId
  threshold : UInt8
  total : UInt8
  quorumTimeoutSecs : Option UInt32
  deriving DecidableEq

/-- The memory backend raises every variant but `Io`. -/
inductive RegistryError where
  | io (what : String)
  | approverNotFound (id : ApproverId)
  | approverSetNotFound (id : ApproverSetId)
  | unknownMember (id : ApproverId)
  | revokedMember (id : ApproverId)
  | memberCountMismatch (members : Nat) (total : UInt8)
  | invalidThreshold (threshold total : UInt8)
  | duplicateMember (id : ApproverId)
  | nestingCycle (walletId : WalletId)
  | nestingTooDeep (depth : UInt8)
  deriving DecidableEq

/-- `Display` -/
def RegistryError.toString : RegistryError → String
  | io what => "registry I/O error: " ++ what
  | approverNotFound id => "approver not found: " ++ id.toString
  | approverSetNotFound id => "approver set not found: " ++ id.toString
  | unknownMember id => "approver set references unknown approver: " ++ id.toString
  | revokedMember id => "approver set references revoked approver: " ++ id.toString
  | memberCountMismatch members total =>
    "approver set membership / total mismatch: members=" ++ members.repr ++ ", total="
      ++ total.toNat.repr
  | invalidThreshold threshold total =>
    "invalid threshold " ++ threshold.toNat.repr ++ " for total " ++ total.toNat.repr
  | duplicateMember id => "approver set members must be unique; duplicate: " ++ id.toString
  | nestingCycle walletId =>
    "nested-wallet membership induces a cycle through wallet " ++ walletId.toString
  | nestingTooDeep depth =>
    "nested-wallet membership exceeds max nesting depth " ++ depth.toNat.repr

/-! ## Checks on a new set -/

/-- The loop that looks for a repeated member. -/
def checkUnique : List ApproverId → List ApproverId → Except RegistryError Unit
  | _, [] => .ok ()
  | seen, m :: ms => if m ∈ seen then .error (.duplicateMember m) else checkUnique (m :: seen) ms

/-- What is checked of a set alone. -/
def validateSetShape (create : ApproverSetCreate) : Except RegistryError Unit :=
  if create.threshold = 0 ∨ create.total < create.threshold then
    .error (.invalidThreshold create.threshold create.total)
  else if create.members.length ≠ create.total.toNat then
    .error (.memberCountMismatch create.members.length create.total)
  else checkUnique [] create.members

/-- `approvers`, as a map -/
abbrev Approvers := ApproverId → Option ApproverRecord

/-- The wallet an identity stands for. -/
def ApproverIdentity.nested? : ApproverIdentity → Option WalletId
  | nestedWallet walletId _ _ => some walletId
  | _ => none

/-- The wallet a member stands for, if it is registered and nested. -/
def nestedMember (approvers : Approvers) (m : ApproverId) : Option WalletId :=
  (approvers m).bind fun rec => rec.identity.nested?

/-- The loop that resolves the members, in order, and collects the nested wallets. -/
def resolveMembers (approvers : Approvers) :
    List ApproverId → Except RegistryError (List WalletId)
  | [] => .ok []
  | m :: ms =>
    match approvers m with
    | none => .error (.unknownMember m)
    | some rec =>
      if rec.status ≠ .active then .error (.revokedMember m)
      else do
        let rest ← resolveMembers approvers ms
        .ok (rec.identity.nested?.toList ++ rest)

/-- What the walk pushes when it visits `w`: for each member of a set that stands for `w`, every
other nested wallet of that set. -/
def continuations (approvers : Approvers) (sets : List ApproverSet) (w : WalletId) :
    List WalletId :=
  sets.flatMap fun set => set.members.flatMap fun m =>
    if nestedMember approvers m = some w then
      (set.members.filterMap (nestedMember approvers)).filter (· ≠ w)
    else []

/-- `walk_nested`: the stack has its top at the head, and `none` says that the rounds ran out. -/
def walkNested (approvers : Approvers) (sets : List ApproverSet) :
    Nat → List WalletId → List (WalletId × UInt8) → Option (Except RegistryError Unit)
  | _, _, [] => some (.ok ())
  | 0, _, _ :: _ => none
  | rounds + 1, visited, (w, d) :: stack =>
    if maxNestingDepth < d then some (.error (.nestingTooDeep maxNestingDepth))
    else if w ∈ visited then some (.error (.nestingCycle w))
    else
      walkNested approvers sets rounds (w :: visited)
        ((continuations approvers sets w).reverse.map (·, d + 1) ++ stack)

/-- As many rounds as a walk can need. -/
def walkRounds (sets : List ApproverSet) : Nat := (sets.flatMap ApproverSet.members).length + 2

/-- The loop over the nested wallets. -/
def checkNesting (approvers : Approvers) (sets : List ApproverSet) :
    List WalletId → Option (Except RegistryError Unit)
  | [] => some (.ok ())
  | w :: ws =>
    match walkNested approvers sets (walkRounds sets) [] [(w, 0)] with
    | some (.ok ()) => checkNesting approvers sets ws
    | other => other

section Walk

variable {approvers : Approvers} {sets : List ApproverSet}

theorem mem_of_mem_continuations {w v : WalletId} (h : v ∈ continuations approvers sets w) :
    v ∈ (sets.flatMap ApproverSet.members).filterMap (nestedMember approvers) := by
  simp only [continuations, List.mem_flatMap] at h
  obtain ⟨set, hset, m, -, h⟩ := h
  split at h
  · obtain ⟨o, ho, hov⟩ := List.mem_filterMap.1 (List.mem_filter.1 h).1
    exact List.mem_filterMap.2 ⟨o, List.mem_flatMap.2 ⟨set, hset, ho⟩, hov⟩
  · simp at h

theorem walkNested_isSome (wallets : List WalletId) {visited : List WalletId} {rounds : Nat}
    {stack : List (WalletId × UInt8)} (hcont : ∀ w, continuations approvers sets w ⊆ wallets)
    (hvisited : visited.Nodup) (hsub : visited ⊆ wallets) (hstack : ∀ x ∈ stack, x.1 ∈ wallets)
    (hrounds : wallets.length < visited.length + rounds) :
    (walkNested approvers sets rounds visited stack).isSome = true := by
  induction rounds generalizing visited stack with
  | zero =>
    have hle := (List.subperm_of_subset hvisited hsub).length_le
    omega
  | succ rounds ih =>
    match stack, hstack with
    | [], _ => rfl
    | (w, d) :: stack, hstack =>
      unfold walkNested
      split
      · rfl
      split
      · rfl
      next hnew =>
      have hw := hstack (w, d) List.mem_cons_self
      refine ih (List.nodup_cons.2 ⟨hnew, hvisited⟩) (List.cons_subset.2 ⟨hw, hsub⟩) ?_ ?_
      · intro x hx
        rcases List.mem_append.1 hx with hx | hx
        · obtain ⟨v, hv, rfl⟩ := List.mem_map.1 hx
          exact hcont w (List.mem_reverse.1 hv)
        · exact hstack x (List.mem_cons_of_mem _ hx)
      · simp only [List.length_cons]
        omega

/-- **The walk always finishes.** -/
theorem walkNested_finishes (w : WalletId) :
    (walkNested approvers sets (walkRounds sets) [] [(w, 0)]).isSome = true := by
  let members := (sets.flatMap ApproverSet.members).filterMap (nestedMember approvers)
  have hlen : members.length ≤ (sets.flatMap ApproverSet.members).length :=
    List.length_filterMap_le _ _
  refine walkNested_isSome (w :: members) ?_ List.nodup_nil (by simp) (by simp) ?_
  · exact fun _ _ hv => List.mem_cons_of_mem _ (mem_of_mem_continuations hv)
  · simp only [walkRounds, List.length_cons, List.length_nil]
    omega

theorem checkNesting_isSome (ws : List WalletId) :
    (checkNesting approvers sets ws).isSome = true := by
  induction ws with
  | nil => rfl
  | cons w ws ih =>
    unfold checkNesting
    split
    · exact ih
    · exact walkNested_finishes w

end Walk

/-! ## The in-memory registry -/

namespace MemoryApproverRegistry

/-- The two maps. -/
structure State where
  approvers : Approvers
  sets : List ApproverSet

/-- The set stored under an id. -/
def State.getSet (s : State) (id : ApproverSetId) : Option ApproverSet :=
  s.sets.find? fun set => set.id = id

/-- `HashMap::insert`: a set with the same id is replaced. -/
def State.putSet (s : State) (set : ApproverSet) : State :=
  { s with sets := set :: s.sets.filter fun other => other.id ≠ set.id }

/-- Inserts an approver. -/
def State.putApprover (s : State) (record : ApproverRecord) : State :=
  { s with approvers := Function.update s.approvers record.approverId (some record) }

/-- The lock sections, and what is drawn outside. -/
inductive Op where
  /-- `ApproverId::new` -/
  | newApproverId
  /-- `ApproverSetId::new` -/
  | newApproverSetId
  | now
  | insertApprover (record : ApproverRecord)
  | revoke (id : ApproverId)
  | getApprover (id : ApproverId)
  | resolveMembers (members : List ApproverId)
  | checkNesting (wallets : List WalletId)
  | insertSet (set : ApproverSet)
  | getApproverSet (id : ApproverSetId)

/-- What each returns. -/
def Res : Op → Type
  | .newApproverId => ApproverId
  | .newApproverSetId => ApproverSetId
  | .now => Int64
  | .insertApprover _ => Unit
  | .revoke _ => Except RegistryError Unit
  | .getApprover _ => Except RegistryError ApproverRecord
  | .resolveMembers _ => Except RegistryError (List WalletId)
  | .checkNesting _ => Except RegistryError Unit
  | .insertSet _ => Unit
  | .getApproverSet _ => Except RegistryError ApproverSet

/-- What the outside world supplies. -/
inductive Ans where
  | unit
  | approverId (id : ApproverId)
  | approverSetId (id : ApproverSetId)
  | time (unixMs : Int64)
  /-- the order in which the map of sets is iterated -/
  | order (sets : List ApproverSet)

/-- Executes an operation. -/
def perform (s : State) : (op : Op) → Ans → Option (Res op × State)
  | .newApproverId, .approverId id => some (id, s)
  | .newApproverSetId, .approverSetId id => some (id, s)
  | .now, .time t => some (t, s)
  | .insertApprover record, _ => some ((), s.putApprover record)
  | .revoke id, _ =>
    match s.approvers id with
    | none => some (.error (.approverNotFound id), s)
    | some rec =>
      some (.ok (), { s with
        approvers := Function.update s.approvers id (some { rec with status := .revoked }) })
  | .getApprover id, _ =>
    match s.approvers id with
    | none => some (.error (.approverNotFound id), s)
    | some rec => some (.ok rec, s)
  | .resolveMembers members, _ => some (Quorum.resolveMembers s.approvers members, s)
  | .checkNesting wallets, .order sets =>
    if sets.isPerm s.sets then
      match Quorum.checkNesting s.approvers sets wallets with
      | some verdict => some (verdict, s)
      | none => none
    else none
  | .insertSet set, _ => some ((), s.putSet set)
  | .getApproverSet id, _ =>
    match s.getSet id with
    | none => some (.error (.approverSetNotFound id), s)
    | some set => some (.ok set, s)
  | _, _ => none

/-- The new registry. -/
def empty : State := ⟨fun _ => none, []⟩

/-! ### The methods -/

/-- A fresh approver id. -/
def newApproverId : Prog Op Res ApproverId := Prog.perform Op.newApproverId

/-- A fresh set id. -/
def newApproverSetId : Prog Op Res ApproverSetId := Prog.perform Op.newApproverSetId

/-- `now_unix_ms` -/
def nowUnixMs : Prog Op Res Int64 := Prog.perform Op.now

/-- The record `add_approver` inserts. -/
def newRecord (create : ApproverCreate) (id : ApproverId) (now : Int64) : ApproverRecord where
  approverId := id
  identity := create.identity
  scheme := create.identity.scheme
  label := create.label
  ownerId := create.ownerId
  webhookUrl := create.webhookUrl
  status := .active
  addedAtUnixMs := now

/-- `add_approver` -/
def addApprover (create : ApproverCreate) : Prog Op Res (Except RegistryError ApproverRecord) := do
  let approverId ← newApproverId
  let addedAt ← nowUnixMs
  let record := newRecord create approverId addedAt
  let _ ← Prog.perform (Op.insertApprover record)
  pure (.ok record)

/-- Revokes an approver. -/
def revokeApprover (id : ApproverId) : Prog Op Res (Except RegistryError Unit) :=
  Prog.perform (Op.revoke id)

/-- Looks an approver up. -/
def getApprover (id : ApproverId) : Prog Op Res (Except RegistryError ApproverRecord) :=
  Prog.perform (Op.getApprover id)

/-- Looks a set up. -/
def getApproverSet (id : ApproverSetId) : Prog Op Res (Except RegistryError ApproverSet) :=
  Prog.perform (Op.getApproverSet id)

/-- The member loop of `create_approver_set`, under the read lock of the approvers. -/
def membersResolved (members : List ApproverId) :
    Prog Op Res (Except RegistryError (List WalletId)) :=
  Prog.perform (Op.resolveMembers members)

/-- The nesting loop of `create_approver_set`, under the read lock of the sets. -/
def nestingChecked (wallets : List WalletId) : Prog Op Res (Except RegistryError Unit) :=
  Prog.perform (Op.checkNesting wallets)

/-- The set `create_approver_set` inserts. -/
def newSet (create : ApproverSetCreate) (id : ApproverSetId) (now : Int64) : ApproverSet where
  id := id
  name := create.name
  ownerId := create.ownerId
  members := create.members
  threshold := create.threshold
  total := create.total
  quorumTimeoutSecs := create.quorumTimeoutSecs
  createdAtUnixMs := now

/-- Id and time of a set whose checks passed, and its insertion. -/
def storeSet (create : ApproverSetCreate) : Prog Op Res (Except RegistryError ApproverSet) := do
  let id ← newApproverSetId
  let createdAt ← nowUnixMs
  let set := newSet create id createdAt
  let _ ← Prog.perform (Op.insertSet set)
  pure (.ok set)

/-- Checks a set and stores it. -/
def createApproverSet (create : ApproverSetCreate) :
    Prog Op Res (Except RegistryError ApproverSet) :=
  match validateSetShape create with
  | .error e => .ret (.error e)
  | .ok () => do
    match ← membersResolved create.members with
    | .error e => .ret (.error e)
    | .ok wallets =>
      match ← nestingChecked wallets with
      | .error e => .ret (.error e)
      | .ok () => storeSet create

section Perform

variable {s s' : State} {op : Op} {a : Ans} {r : Res op}

/-- What an operation can do to the maps. -/
theorem perform_cases (h : perform s op a = some (r, s')) :
    s' = s ∨ (∃ record, op = .insertApprover record ∧ s' = s.putApprover record) ∨
      (∃ set, op = .insertSet set ∧ s' = s.putSet set) ∨
      ∃ id rec, op = .revoke id ∧ s.approvers id = some rec ∧ s' = { s with
        approvers := Function.update s.approvers id (some { rec with status := .revoked }) } := by
  cases op with
  | insertApprover record =>
    cases h
    exact .inr (.inl ⟨record, rfl, rfl⟩)
  | insertSet set =>
    cases h
    exact .inr (.inr (.inl ⟨set, rfl, rfl⟩))
  | revoke id =>
    simp only [perform] at h
    split at h
    · cases h
      exact .inl rfl
    · next rec hrec =>
      cases h
      exact .inr (.inr (.inr ⟨id, rec, rfl, hrec, rfl⟩))
  -- the others leave the state as it is
  | newApproverId | newApproverSetId | now =>
    cases a <;> cases h
    exact .inl rfl
  | resolveMembers members =>
    cases h
    exact .inl rfl
  | getApprover id | getApproverSet id =>
    simp only [perform] at h
    split at h <;> cases h <;> exact .inl rfl
  | checkNesting wallets =>
    cases a with
    | order sets =>
      simp only [perform] at h
      split at h
      · split at h <;> cases h
        exact .inl rfl
      · cases h
    | unit | approverId | approverSetId | time => cases h

end Perform

/-! ### What is looked up was added -/

/-- Every record has the identity of one that was added under its id. -/
def Inv (added : ApproverRecord → Prop) (s : State) : Prop :=
  ∀ id rec, s.approvers id = some rec →
    ∃ record, added record ∧ record.approverId = id ∧ record.identity = rec.identity

variable {added added' : ApproverRecord → Prop} {s s' : State} {op : Op} {a : Ans} {r : Res op}

theorem Inv.empty : Inv added empty := fun _ _ h => by simp [MemoryApproverRegistry.empty] at h

theorem Inv.mono (h : Inv added s) (hadded : ∀ record, added record → added' record) :
    Inv added' s := by
  intro id rec hid
  obtain ⟨record, hrec, hid, hidentity⟩ := h id rec hid
  exact ⟨record, hadded record hrec, hid, hidentity⟩

theorem Inv.update (h : Inv added s) {id : ApproverId} {rec : ApproverRecord}
    (hrec : ∃ record, added record ∧ record.approverId = id ∧ record.identity = rec.identity) :
    Inv added { s with approvers := Function.update s.approvers id (some rec) } := by
  intro id' rec' hid
  by_cases heq : id' = id
  · subst heq
    obtain rfl : rec = rec' := by simpa using hid
    exact hrec
  · exact h id' rec' (by simpa [Function.update_of_ne heq] using hid)

/-- **Every operation keeps the invariant, once what it adds is accounted for.** -/
theorem Inv.perform (h : Inv added s) (hperform : perform s op a = some (r, s'))
    (hadd : ∀ record, op = .insertApprover record → added record) : Inv added s' := by
  obtain rfl | ⟨record, hop, rfl⟩ | ⟨set, hop, rfl⟩ | ⟨id, rec, -, hrec, rfl⟩ :=
    perform_cases hperform
  · exact h
  · exact h.update ⟨record, hadd record hop, rfl, rfl⟩
  · exact h
  · -- a revocation changes no identity
    exact h.update (h id rec hrec)

theorem lookup_of_getApprover {id : ApproverId} {rec : ApproverRecord}
    (h : perform s (.getApprover id) a = some (.ok rec, s')) : s.approvers id = some rec := by
  simp only [perform] at h
  split at h
  · cases h
  · next rec' hrec =>
    cases h
    exact hrec

/-! ### Who is revoked -/

/-- The approver is registered and revoked. -/
def State.revoked (s : State) (id : ApproverId) : Bool :=
  (s.approvers id).any fun rec => rec.status = .revoked

theorem State.revoked_update (s : State) (id : ApproverId) (rec : ApproverRecord)
    (x : ApproverId) :
    ({ s with approvers := Function.update s.approvers id (some rec) } : State).revoked x =
      if x = id then decide (rec.status = .revoked) else s.revoked x := by
  unfold State.revoked
  by_cases h : x = id
  · subst h
    simp
  · simp [h]

/-- Only a revocation revokes. -/
theorem revoked_of_perform {x : ApproverId} (h : perform s op a = some (r, s'))
    (hactive : ∀ record, op = .insertApprover record → record.status = .active)
    (hx : s'.revoked x = true) : s.revoked x = true ∨ op = .revoke x := by
  obtain rfl | ⟨record, hop, rfl⟩ | ⟨set, hop, rfl⟩ | ⟨id, rec, hop, -, rfl⟩ := perform_cases h
  · exact .inl hx
  · rw [State.putApprover, State.revoked_update] at hx
    split at hx
    · exact absurd (of_decide_eq_true hx) (by simp [hactive record hop])
    · exact .inl hx
  · exact .inl hx
  · rw [State.revoked_update] at hx
    split at hx
    · next heq => exact .inr (by rw [hop, heq])
    · exact .inl hx

theorem State.getSet_putSet (s : State) (set : ApproverSet) (id : ApproverSetId) :
    (s.putSet set).getSet id = if set.id = id then some set else s.getSet id := by
  unfold State.getSet State.putSet
  rw [List.find?_cons]
  by_cases hid : set.id = id
  · rw [if_pos hid, decide_eq_true hid]
  · rw [if_neg hid, decide_eq_false hid]
    -- what is searched for is not what was replaced
    simp only [List.find?_filter]
    congr 1
    funext other
    by_cases hother : other.id = id
    · have hne : id ≠ set.id := fun heq => hid heq.symm
      simp [hother, hne]
    · simp [hother]

/-- Only an insertion brings a set. -/
theorem getSet_of_perform {id : ApproverSetId} {set : ApproverSet}
    (h : perform s op a = some (r, s')) (hset : s'.getSet id = some set) :
    s.getSet id = some set ∨ op = .insertSet set := by
  obtain rfl | ⟨record, hop, rfl⟩ | ⟨new, hop, rfl⟩ | ⟨id', rec, hop, -, rfl⟩ := perform_cases h
  · exact .inl hset
  · exact .inl hset
  · rw [State.getSet_putSet] at hset
    split at hset
    · exact .inr (by rw [hop, Option.some.inj hset])
    · exact .inl hset
  · exact .inl hset

end MemoryApproverRegistry

end QfcServerWallet.Quorum
