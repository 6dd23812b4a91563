import QfcServerWallet.Service.Calls

/-!
# What the collector returns

The polling loop of `OrchestratingApprover::collect_approvals`, over every sequence of snapshots of
the store that it may see and every reading of its clock.

* `Collection` is a part of a run of the loop, from its start: its events, what it read from the
  store, and what it returned, if it has. It has one constructor for each place in a round.
* `Justified threshold timeout snapshots outcome` says what may be returned after the snapshots. It
  mentions neither the clock nor the order in which the loop makes its tests.
* The remaining time is computed after the store was read. The loop sleeps that long at most, and
  reads the store once more when it wakes up.
* An arrival ends a wait early (`notify_arrival`). `earlyWakeups` counts the waits that the clock
  shows to have been too short.

Results: `collection_of_after`, `exists_collection`, **`collector_correct`** and **`polls_le`**.
-/

namespace QfcServerWallet.Service

open Lib Quorum

/-! ## Snapshots -/

/-- Nobody has rejected. -/
def NoReject (snapshot : List SignedApproval) : Prop := ∀ a ∈ snapshot, a.decision ≠ .reject

/-- The approvals among the decisions. -/
def approves (snapshot : List SignedApproval) : List SignedApproval :=
  snapshot.filter fun a => a.decision = .approve

/-- The snapshot does not end a collection. -/
def Undecided (threshold : UInt8) (snapshot : List SignedApproval) : Prop :=
  NoReject snapshot ∧ (approves snapshot).length < threshold.toNat

/-- The snapshot ends a collection with its first reject, or with all of its approvals. -/
def Concludes (threshold : UInt8) (snapshot v : List SignedApproval) : Prop :=
  (∃ front reject back, snapshot = front ++ reject :: back ∧ NoReject front ∧
    reject.decision = .reject ∧ v = [reject]) ∨
  NoReject snapshot ∧ threshold.toNat ≤ (approves snapshot).length ∧ v = snapshot

/-- What is returned after the snapshots: the last one concludes, the ones before it do not. -/
def Justified (threshold : UInt8) (timeout : Nat)
    (snapshots : List (Except StoreError (List SignedApproval))) :
    Except QuorumError (List SignedApproval) → Prop
  | .ok v => ∃ (earlier : List (List SignedApproval)) (last : List SignedApproval),
      snapshots = earlier.map .ok ++ [.ok last] ∧ (∀ s ∈ earlier, Undecided threshold s) ∧
      Concludes threshold last v
  | .error (.timeout t) => t = timeout ∧
      ∃ (earlier : List (List SignedApproval)) (last : List SignedApproval),
        snapshots = earlier.map .ok ++ [.ok last] ∧ (∀ s ∈ earlier, Undecided threshold s) ∧
        Undecided threshold last
  | .error e => ∃ (earlier : List (List SignedApproval)) (failure : StoreError),
      snapshots = earlier.map .ok ++ [.error failure] ∧ (∀ s ∈ earlier, Undecided threshold s) ∧
      e = .transport ("approval store: " ++ failure.toString)

theorem approves_eq {snapshot : List SignedApproval} (h : NoReject snapshot) :
    approves snapshot = snapshot := by
  refine List.filter_eq_self.2 fun a ha => ?_
  cases hd : a.decision with
  | approve => rfl
  | reject => exact absurd hd (h a ha)

theorem Justified.cons {threshold : UInt8} {timeout : Nat} {s : List SignedApproval}
    {snapshots : List (Except StoreError (List SignedApproval))}
    {outcome : Except QuorumError (List SignedApproval)} (hs : Undecided threshold s)
    (h : Justified threshold timeout snapshots outcome) :
    Justified threshold timeout (.ok s :: snapshots) outcome := by
  unfold Justified at h ⊢
  split at h
  · obtain ⟨earlier, last, rfl, hearlier, hlast⟩ := h
    exact ⟨s :: earlier, last, rfl, List.forall_mem_cons.2 ⟨hs, hearlier⟩, hlast⟩
  · obtain ⟨rfl, earlier, last, rfl, hearlier, hlast⟩ := h
    exact ⟨rfl, s :: earlier, last, rfl, List.forall_mem_cons.2 ⟨hs, hearlier⟩, hlast⟩
  · obtain ⟨earlier, failure, rfl, hearlier, he⟩ := h
    exact ⟨s :: earlier, failure, rfl, List.forall_mem_cons.2 ⟨hs, hearlier⟩, he⟩

namespace WalletService

/-! ## One poll -/

section Poll

variable {threshold : UInt8} {listed : Except StoreError (List SignedApproval)}

theorem undecided_of_pollOutcome (h : pollOutcome threshold listed = none) :
    ∃ s, listed = .ok s ∧ Undecided threshold s := by
  cases listed with
  | error e => cases h
  | ok s =>
    simp only [pollOutcome] at h
    split at h
    · cases h
    next hnone =>
    split at h
    · cases h
    next hfew =>
    exact ⟨s, rfl, fun a ha => by simpa using List.find?_eq_none.1 hnone a ha, by
      simpa [approves] using hfew⟩

theorem concludes_of_pollOutcome {v : List SignedApproval}
    (h : pollOutcome threshold listed = some (.ok v)) :
    ∃ s, listed = .ok s ∧ Concludes threshold s v := by
  cases listed with
  | error e => cases h
  | ok s =>
    refine ⟨s, rfl, ?_⟩
    simp only [pollOutcome] at h
    split at h
    · next reject hfound =>
      cases h
      obtain ⟨hreject, front, back, rfl, hfront⟩ := List.find?_eq_some_iff_append.1 hfound
      refine .inl ⟨front, reject, back, rfl, fun a ha => ?_, ?_, rfl⟩
      · simpa using hfront a ha
      · simpa using hreject
    · next hnone =>
      have hno : NoReject s := fun a ha => by simpa using List.find?_eq_none.1 hnone a ha
      split_ifs at h with hle
      cases h
      exact .inr ⟨hno, hle, approves_eq hno⟩

theorem error_of_pollOutcome {e : QuorumError}
    (h : pollOutcome threshold listed = some (.error e)) :
    ∃ failure, listed = .error failure ∧
      e = .transport ("approval store: " ++ failure.toString) := by
  cases listed with
  | error failure =>
    cases h
    exact ⟨failure, rfl, rfl⟩
  | ok s =>
    simp only [pollOutcome] at h
    split at h
    · cases h
    · split at h <;> cases h

theorem justified_of_pollOutcome {outcome : Except QuorumError (List SignedApproval)}
    (timeout : Nat) (h : pollOutcome threshold listed = some outcome) :
    Justified threshold timeout [listed] outcome := by
  cases outcome with
  | ok v =>
    obtain ⟨s, rfl, hs⟩ := concludes_of_pollOutcome h
    exact ⟨[], s, rfl, List.forall_mem_nil _, hs⟩
  | error e =>
    obtain ⟨failure, rfl, rfl⟩ := error_of_pollOutcome h
    exact ⟨[], failure, rfl, List.forall_mem_nil _, rfl⟩

end Poll

end WalletService

/-! ## The loop -/

/-- A reading of the clock. -/
def reading {S : ApprovalStore} : ServiceEvent S → Option Nat
  | ⟨.instant, (now : Nat)⟩ => some now
  | _ => none

/-- The number of waits that were over before their time: the next reading of the clock is before
the time that is due. -/
def earlyWakeups {S : ApprovalStore} : Nat → List (ServiceEvent S) → Nat
  | _, [] => 0
  | due, ⟨.instant, (now : Nat)⟩ :: tr => (if now < due then 1 else 0) + earlyWakeups now tr
  | due, ⟨.wait nanos, _⟩ :: tr => earlyWakeups (due + nanos) tr
  | due, _ :: tr => earlyWakeups due tr

namespace WalletService

section Loop

variable (S : ApprovalStore) (svc : WalletService) (requestId : RequestId) (threshold : UInt8)
  (timeout started : Nat)

/-- A part of a run of the loop: its events, what it read from the store, and what it returned,
if it has. -/
inductive Collection : List (ServiceEvent S) → List (S.Res (S.listOp requestId)) →
    Option (Except QuorumError (List SignedApproval)) → Prop
  | starts : Collection [] [] none
  /-- the poll ends the collection -/
  | ends (r : S.Res (S.listOp requestId)) {outcome : Except QuorumError (List SignedApproval)} :
      pollOutcome threshold (S.readList requestId r) = some outcome →
      Collection [⟨.store (S.listOp requestId), r⟩] [r] (some outcome)
  /-- the poll does not, and the clock is to be read -/
  | polled (r : S.Res (S.listOp requestId)) :
      pollOutcome threshold (S.readList requestId r) = none →
      Collection [⟨.store (S.listOp requestId), r⟩] [r] none
  /-- no time remains -/
  | timeout (r : S.Res (S.listOp requestId)) (now : Nat) :
      pollOutcome threshold (S.readList requestId r) = none → timeout - (now - started) = 0 →
      Collection [⟨.store (S.listOp requestId), r⟩, ⟨.instant, now⟩] [r]
        (some (.error (.timeout timeout)))
  /-- time remains, and the loop is to wait -/
  | timed (r : S.Res (S.listOp requestId)) (now : Nat) :
      pollOutcome threshold (S.readList requestId r) = none → timeout - (now - started) ≠ 0 →
      Collection [⟨.store (S.listOp requestId), r⟩, ⟨.instant, now⟩] [r] none
  /-- another round, after a wait -/
  | again (r : S.Res (S.listOp requestId)) (now : Nat) {tr : List (ServiceEvent S)}
      {polls : List (S.Res (S.listOp requestId))}
      {outcome : Option (Except QuorumError (List SignedApproval))} :
      pollOutcome threshold (S.readList requestId r) = none → timeout - (now - started) ≠ 0 →
      Collection tr polls outcome →
      Collection (⟨.store (S.listOp requestId), r⟩ :: ⟨.instant, now⟩ ::
        ⟨.wait (min (timeout - (now - started)) svc.pollBackoff), ()⟩ :: tr) (r :: polls) outcome

variable {S svc requestId threshold timeout started} {tr : List (ServiceEvent S)}
  {polls : List (S.Res (S.listOp requestId))}
  {outcome : Option (Except QuorumError (List SignedApproval))}

theorem collectRounds_succ (rounds : Nat) :
    (svc.collectRounds requestId threshold timeout started (rounds + 1)) =
    .act (.store (S.listOp requestId)) fun r => svc.afterPoll timeout started
      (svc.collectRounds requestId threshold timeout started rounds)
      (pollOutcome threshold (S.readList requestId r)) := rfl

/-- What a state of the loop has returned. -/
def returned {α : Type} : Act S α → Option α
  | .ret a => some a
  | .act _ _ => none

/-- The event is a reading of the clock that leaves no time. -/
def Expired (timeout started : Nat) : ServiceEvent S → Prop
  | ⟨.instant, (now : Nat)⟩ => timeout - (now - started) = 0
  | _ => False

/-- **Every state the loop can reach is in one of these places.** -/
theorem collection_of_after {rounds : Nat} {q : Act S (Except QuorumError (List SignedApproval))}
    (h : (svc.collectRounds requestId threshold timeout started rounds).After tr q) :
    ∃ polls, Collection S svc requestId threshold timeout started tr polls (returned q) := by
  induction rounds generalizing tr with
  | zero =>
    obtain ⟨rfl, rfl⟩ | ⟨r, -⟩ := Prog.after_act_iff.1 h
    · exact ⟨[], .starts⟩
    · exact r.elim
  | succ rounds ih =>
    rw [collectRounds_succ] at h
    obtain ⟨rfl, rfl⟩ | ⟨r, tr, rfl, hpolled⟩ := Prog.after_act_iff.1 h
    · exact ⟨[], .starts⟩
    cases hpoll : pollOutcome threshold (S.readList requestId r) with
    | some outcome =>
      rw [hpoll] at hpolled
      obtain ⟨rfl, rfl⟩ := hpolled.of_ret
      exact ⟨[r], .ends r hpoll⟩
    | none =>
      rw [hpoll] at hpolled
      obtain ⟨rfl, rfl⟩ | ⟨now, tr, rfl, hnow⟩ := Prog.after_act_iff.1 hpolled
      · exact ⟨[r], .polled r hpoll⟩
      simp only at hnow
      split at hnow
      · next hzero =>
        obtain ⟨rfl, rfl⟩ := hnow.of_ret
        exact ⟨[r], .timeout r now hpoll hzero⟩
      · next hsome =>
        obtain ⟨rfl, rfl⟩ | ⟨_, tr, rfl, hagain⟩ := Prog.after_act_iff.1 hnow
        · exact ⟨[r], .timed r now hpoll hsome⟩
        · obtain ⟨polls, hpolls⟩ := ih hagain
          exact ⟨r :: polls, .again r now hpoll hsome hpolls⟩

namespace Collection

theorem after {o : Except QuorumError (List SignedApproval)}
    (h : Collection S svc requestId threshold timeout started tr polls (some o)) :
    (svc.collectRounds requestId threshold timeout started polls.length).After tr (.ret o) := by
  generalize hout : some o = outcome at h
  induction h with
  | starts | polled | timed => cases hout
  | ends r hpoll =>
    cases hout
    rw [List.length_singleton, collectRounds_succ]
    refine .cons (R := Reply) (.store (S.listOp requestId)) _ r ?_
    rw [hpoll]
    exact .nil _
  | timeout r now hpoll hzero =>
    cases hout
    rw [List.length_singleton, collectRounds_succ]
    refine .cons (R := Reply) (.store (S.listOp requestId)) _ r ?_
    rw [hpoll]
    refine .cons (R := Reply) .instant _ now ?_
    rw [if_pos hzero]
    exact .nil _
  | again r now hpoll hsome _ ih =>
    rw [List.length_cons, collectRounds_succ]
    refine .cons (R := Reply) (.store (S.listOp requestId)) _ r ?_
    rw [hpoll]
    refine .cons (R := Reply) .instant _ now ?_
    rw [if_neg hsome]
    exact .cons (R := Reply) (.wait _) _ () (ih hout)

theorem storeEvents (h : Collection S svc requestId threshold timeout started tr polls outcome) :
    tr.filterMap storeEvent = polls.map fun r => ⟨S.listOp requestId, r⟩ := by
  induction h with
  | again r now _ _ _ ih => exact congrArg (⟨S.listOp requestId, r⟩ :: ·) ih
  | _ => rfl

theorem justified {o : Except QuorumError (List SignedApproval)}
    (h : Collection S svc requestId threshold timeout started tr polls (some o)) :
    Justified threshold timeout (polls.map (S.readList requestId)) o := by
  generalize hout : some o = outcome at h
  induction h with
  | starts | polled | timed => cases hout
  | ends r hpoll =>
    cases hout
    exact justified_of_pollOutcome timeout hpoll
  | timeout r now hpoll =>
    cases hout
    obtain ⟨s, hs, hundecided⟩ := undecided_of_pollOutcome hpoll
    exact ⟨rfl, [], s, by rw [List.map_singleton, hs]; rfl, by simp, hundecided⟩
  | again r now hpoll _ _ ih =>
    obtain ⟨s, hs, hundecided⟩ := undecided_of_pollOutcome hpoll
    rw [List.map_cons, hs]
    exact (ih hout).cons hundecided

theorem exists_poll {approvals : List SignedApproval}
    (h : Collection S svc requestId threshold timeout started tr polls (some (.ok approvals))) :
    ∃ r : S.Res (S.listOp requestId), ⟨.store (S.listOp requestId), r⟩ ∈ tr ∧
      pollOutcome threshold (S.readList requestId r) = some (.ok approvals) := by
  generalize hout : some (.ok approvals : Except QuorumError (List SignedApproval)) = outcome at h
  induction h with
  | starts | polled | timeout | timed => cases hout
  | ends r hpoll =>
    cases hout
    exact ⟨r, List.mem_cons_self, hpoll⟩
  | again r now _ _ _ ih =>
    obtain ⟨r', hr', hpoll⟩ := ih hout
    exact ⟨r', by simp [hr'], hpoll⟩

theorem pairwise_not_expired
    (h : Collection S svc requestId threshold timeout started tr polls outcome) :
    tr.Pairwise fun x _ => ¬ Expired timeout started x := by
  induction h with
  | starts => exact .nil
  | ends | polled => exact List.pairwise_singleton _ _
  | timeout | timed => simp [Expired]
  | again r now _ hsome _ ih =>
    exact .cons (fun _ _ => id) (.cons (fun _ _ => hsome) (.cons (fun _ _ => id) ih))

theorem timeout_of_expired
    (h : Collection S svc requestId threshold timeout started tr polls outcome)
    {x : ServiceEvent S} (hx : x ∈ tr) (hexpired : Expired timeout started x) :
    outcome = some (.error (.timeout timeout)) := by
  induction h with
  | starts => cases hx
  | ends | polled =>
    obtain rfl := List.mem_singleton.1 hx
    exact hexpired.elim
  | timeout => rfl
  | timed r now _ hsome =>
    obtain rfl | rfl := List.mem_pair.1 hx
    · exact hexpired.elim
    · exact absurd hexpired hsome
  | again r now _ hsome _ ih =>
    simp only [List.mem_cons] at hx
    obtain rfl | rfl | rfl | hx := hx
    · exact hexpired.elim
    · exact absurd hexpired hsome
    · exact hexpired.elim
    · exact ih hx

/-- What the loop has read, it has read from these answers. -/
theorem exists_collection (poll : Nat → S.Res (S.listOp requestId)) (clock : Nat → Nat) {n : Nat}
    (hn : timeout ≤ clock n - started) :
    ∃ k ≤ n, ∃ m ≤ k + 1, ∃ tr o, tr.filterMap reading = (List.range m).map clock ∧
      Collection S svc requestId threshold timeout started tr ((List.range (k + 1)).map poll)
        (some o) := by
  have hshift {α : Type} (f : Nat → α) (k : Nat) :
      (List.range (k + 1)).map f = f 0 :: (List.range k).map fun i => f (i + 1) := by
    rw [List.range_succ_eq_map, List.map_cons, List.map_map]
    rfl
  induction n generalizing poll clock with
  | zero =>
    cases hpoll : pollOutcome threshold (S.readList requestId (poll 0)) with
    | some o => exact ⟨0, le_rfl, 0, Nat.zero_le _, _, o, rfl, .ends (poll 0) hpoll⟩
    | none =>
      exact ⟨0, le_rfl, 1, le_rfl, _, _, rfl, .timeout (poll 0) (clock 0) hpoll (by omega)⟩
  | succ n ih =>
    cases hpoll : pollOutcome threshold (S.readList requestId (poll 0)) with
    | some o => exact ⟨0, Nat.zero_le _, 0, Nat.zero_le _, _, o, rfl, .ends (poll 0) hpoll⟩
    | none =>
      by_cases hzero : timeout - (clock 0 - started) = 0
      · exact ⟨0, Nat.zero_le _, 1, le_rfl, _, _, rfl, .timeout (poll 0) (clock 0) hpoll hzero⟩
      · obtain ⟨k, hk, m, hm, tr, o, hclock, hrest⟩ :=
          ih (fun i => poll (i + 1)) (fun i => clock (i + 1)) hn
        refine ⟨k + 1, Nat.succ_le_succ hk, m + 1, Nat.succ_le_succ hm, _, o, ?_,
          by rw [hshift]; exact again (poll 0) (clock 0) hpoll hzero hrest⟩
        rw [hshift]
        exact congrArg (clock 0 :: ·) hclock

/-- A round takes a whole backoff off the time that is due, or was woken up before that time, or
waits for the deadline and is the last but one. -/
theorem polls_le_of_due (h : Collection S svc requestId threshold timeout started tr polls outcome)
    {last due m : Nat} (hclock : (last :: tr.filterMap reading).Pairwise (· ≤ ·))
    (hstarted : started ≤ last) (hdue : due ≤ last + svc.pollBackoff)
    (hm : timeout ≤ (due - started) + m * svc.pollBackoff) :
    polls.length ≤ m + 1 + earlyWakeups due tr := by
  induction h generalizing last due m with
  | starts => exact Nat.zero_le _
  | ends | polled | timeout | timed => exact Nat.le_add_right_of_le (Nat.le_add_left 1 m)
  | @again r now tr polls outcome _ hsome _ ih =>
    obtain ⟨hle, hclock⟩ := List.pairwise_cons.1 hclock
    have hnow : last ≤ now := hle now List.mem_cons_self
    change polls.length + 1 ≤ m + 1 + ((if now < due then 1 else 0)
      + earlyWakeups (now + min (timeout - (now - started)) svc.pollBackoff) tr)
    have hround {m' : Nat} := @ih now (now + min (timeout - (now - started)) svc.pollBackoff) m'
      hclock (hstarted.trans hnow) (by omega)
    rcases Nat.lt_or_ge (timeout - (now - started)) svc.pollBackoff with hshort | hlong
    · -- the next wait ends at the deadline
      have hrest := @hround 0 (by omega)
      have hmore : now < due ∨ m ≠ 0 := by
        by_contra hnot
        obtain ⟨hnow, rfl⟩ : due ≤ now ∧ m = 0 := by omega
        omega
      split <;> omega
    · split
      · next hearly =>
        have hrest := @hround m (by omega)
        omega
      · next htime =>
        cases m with
        | zero => omega
        | succ m =>
          have hrest := @hround m (by rw [Nat.succ_mul] at hm; omega)
          omega

end Collection

theorem returned_eq_some {α : Type} {q : Act S α} {a : α} : returned q = some a ↔ q = .ret a := by
  cases q with
  | ret b => simp [returned]
  | act => simp [returned]

end Loop

end WalletService

open WalletService

/-- **The collector returns the first reject, or all approvals once there are enough of them, or a
timeout, as the snapshots it has read say; in no state does it go on after it has found that no time
remains; and it returns once the clock has reached the deadline.** -/
theorem collector_correct (S : ApprovalStore) (svc : WalletService) (requestId : RequestId)
    (threshold : UInt8) (timeout : Nat) :
    (∀ rounds (tr : List (Prog.Event (Effect S) Reply)) q,
      (svc.collectApprovals requestId threshold timeout rounds).After tr q →
      (tr = [] ∧ ∀ outcome, q ≠ .ret outcome) ∨
      ∃ (started : Nat) (rest : List (Prog.Event (Effect S) Reply))
        (polls : List (S.Res (S.listOp requestId))), tr = ⟨.instant, started⟩ :: rest ∧
        rest.filterMap storeEvent = (polls.map fun r => ⟨S.listOp requestId, r⟩) ∧
        (∀ outcome, q = .ret outcome →
          Justified threshold timeout (polls.map (S.readList requestId)) outcome) ∧
        ∀ front (now : Nat) back, rest = front ++ ⟨.instant, now⟩ :: back →
          timeout - (now - started) = 0 → back = [] ∧ q = .ret (.error (.timeout timeout))) ∧
    ∀ (started : Nat) (poll : Nat → S.Res (S.listOp requestId)) (clock : Nat → Nat) (n : Nat),
      timeout ≤ clock n - started →
      ∃ k ≤ n, ∃ m ≤ k + 1, ∃ (rest : List (Prog.Event (Effect S) Reply)) (rounds : Nat)
        (outcome : Except QuorumError (List SignedApproval)),
        (svc.collectApprovals requestId threshold timeout rounds).After
          (⟨.instant, started⟩ :: rest) (.ret outcome) ∧
        rest.filterMap storeEvent =
          ((List.range (k + 1)).map fun i => ⟨S.listOp requestId, poll i⟩) ∧
        rest.filterMap reading = (List.range m).map clock := by
  refine ⟨fun rounds tr q h => ?_, fun started poll clock n hn => ?_⟩
  · obtain ⟨rfl, rfl⟩ | ⟨started, rest, rfl, hrounds⟩ := Prog.after_act_iff.1 h
    · exact .inl ⟨rfl, by simp⟩
    obtain ⟨polls, hpolls⟩ := collection_of_after hrounds
    refine .inr ⟨started, rest, polls, rfl, hpolls.storeEvents, ?_, ?_⟩
    · rintro outcome rfl
      exact hpolls.justified
    · rintro front now back rfl hzero
      have hlast := (List.pairwise_append.1 hpolls.pairwise_not_expired).2.1
      exact ⟨List.eq_nil_iff_forall_not_mem.2 fun x hx => (List.pairwise_cons.1 hlast).1 x hx hzero,
        returned_eq_some.1 (hpolls.timeout_of_expired (List.mem_append_right _ (.head _)) hzero)⟩
  · obtain ⟨k, hk, m, hm, rest, outcome, hclock, hpolls⟩ :=
      @Collection.exists_collection S svc requestId threshold timeout started poll clock n hn
    refine ⟨k, hk, m, hm, rest, _, outcome, .cons (R := Reply) .instant _ started hpolls.after, ?_,
      hclock⟩
    rw [hpolls.storeEvents, List.map_map]
    rfl

/-- **How often the store is polled.** In every state the collector reaches, while its clock does
not go back, the store was polled at most once more than the backoff goes into the timeout, and once
for each wait that was cut short. -/
theorem polls_le {S : ApprovalStore} {svc : WalletService} {requestId : RequestId}
    {threshold : UInt8} {timeout rounds started m : Nat}
    {rest : List (ServiceEvent S)}
    {q : Act S (Except QuorumError (List SignedApproval))}
    (h : (svc.collectApprovals requestId threshold timeout rounds).After
      (⟨.instant, started⟩ :: rest) q)
    (hclock : (started :: rest.filterMap reading).Pairwise (· ≤ ·))
    (hm : timeout ≤ m * svc.pollBackoff) :
    (rest.filterMap storeEvent).length ≤ m + 1 + earlyWakeups started rest := by
  cases h with
  | cons _ _ _ hrounds =>
    obtain ⟨polls, hpolls⟩ := collection_of_after hrounds
    rw [hpolls.storeEvents, List.length_map]
    exact hpolls.polls_le_of_due hclock le_rfl (Nat.le_add_right _ _) (by simpa using hm)

/-! ### A collection that times out

The store stays empty. With a timeout of half a second it is polled three times, as often as the
bound allows. -/

namespace Sample

/-- Three polls of an empty store, a backoff apart. -/
def emptyPolls : List (Prog.Event (Effect memoryStore) Reply) :=
  [⟨.store (.list Enclave.Sample.requestId), ([] : List SignedApproval)⟩, ⟨.instant, (0 : Nat)⟩,
   ⟨.wait 250000000, ()⟩,
   ⟨.store (.list Enclave.Sample.requestId), ([] : List SignedApproval)⟩,
   ⟨.instant, (250000000 : Nat)⟩, ⟨.wait 250000000, ()⟩,
   ⟨.store (.list Enclave.Sample.requestId), ([] : List SignedApproval)⟩,
   ⟨.instant, (500000000 : Nat)⟩]

end Sample

/-- Three polls before a timeout of half a second. -/
theorem polls_le_timeout :
    ((Sample.serviceWith Enclave.Sample.mockDeps.crypto).collectApprovals
        Enclave.Sample.requestId 1 500000000 3).After (⟨.instant, (0 : Nat)⟩ :: Sample.emptyPolls)
      (.ret (.error (.timeout 500000000))) ∧
    (Sample.emptyPolls.filterMap storeEvent).length = 3 ∧
    (Sample.emptyPolls.filterMap storeEvent).length
      ≤ 2 + 1 + earlyWakeups 0 Sample.emptyPolls := by
  have hrun : ((Sample.serviceWith Enclave.Sample.mockDeps.crypto).collectApprovals
      Enclave.Sample.requestId 1 500000000 3).After (⟨.instant, (0 : Nat)⟩ :: Sample.emptyPolls)
      (.ret (.error (.timeout 500000000))) := by
    repeat apply Prog.After.cons
    exact .nil _
  exact ⟨hrun, rfl, polls_le hrun (by decide) (by decide)⟩

end QfcServerWallet.Service
