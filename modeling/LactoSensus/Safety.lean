-- The safety of the uncompacted cluster: one leader for each term, logs that
-- match, and committed entries that stay. Each follows from the protocol state
-- the cluster stands for.
import LactoSensus.RefineCluster

open common.types
open machine
open quorum
open raft_engine.storage
open raft_engine.node
open raft_engine.engine
open raft_engine.cluster
open raft (Entry Safe Grows Settled)

namespace raft_engine.refinement

variable {α S : Type} {cfg : Config} {sm : StateMachine α S} {c c' : Cluster α S}
  {a a' : Protocol α}

/-! ## What the protocol knows about a host -/

theorem Refines.disk (h : Refines cfg c a) (n : NodeId) : DiskRel a n (c.hosts n).disk := by
  have hhost := h.hosts n
  unfold Host.disk
  cases hst : (c.hosts n).state with
  | Up p =>
    rw [hst] at hhost
    exact hhost.1.node.disk
  | Down disk =>
    rw [hst] at hhost
    exact hhost.1

theorem Refines.last_committed (h : Refines cfg c a) (n : NodeId) :
    (c.hosts n).last_committed = a.commit n := by
  have hhost := h.hosts n
  unfold Host.last_committed
  cases hst : (c.hosts n).state with
  | Up p =>
    rw [hst] at hhost
    exact hhost.1.node.commit
  | Down disk =>
    rw [hst] at hhost
    exact hhost.1.commit

theorem Refines.current_term (h : Refines cfg c a) (n : NodeId) :
    (c.hosts n).current_term = a.term n :=
  (h.disk n).term

theorem Refines.read_entry (h : Refines cfg c a) (n : NodeId) (i : Nat) :
    (c.hosts n).read_entry i = entryAt (a.log n) i :=
  (h.disk n).log.get? i

theorem Refines.leader (h : Refines cfg c a) {n : NodeId}
    (hrole : (c.hosts n).role = some .Leader) : a.role n = .leader := by
  have hhost := h.hosts n
  unfold Host.role at hrole
  cases hst : (c.hosts n).state with
  | Up p =>
    rw [hst] at hhost hrole
    have hrel := hhost.1.node.role
    dsimp only at hrole
    unfold LogicalNode.node_role at hrole
    cases hl : p.shell.inner.node.state with
    | Leader l =>
      rw [hl] at hrel
      exact hrel.role
    | Follower f => simp [hl, RoleState.node_role] at hrole
    | PreCandidate f => simp [hl, RoleState.node_role] at hrole
    | Candidate f => simp [hl, RoleState.node_role] at hrole
    | Poisoned => simp [hl, RoleState.node_role] at hrole
  | Down disk =>
    rw [hst] at hrole
    cases hrole

/-- What a node takes as committed, as a list of settled entries. -/
theorem Refines.committed (h : Refines cfg c a) (n : NodeId) :
    ∃ p, p.length = (c.hosts n).last_committed ∧ Settled (voters cfg) a (a.term n) p ∧
      ∀ i ≤ p.length, (c.hosts n).read_entry i = entryAt p i := by
  have hlen := h.safe.complete.commit_le n
  refine ⟨(a.log n).take (a.commit n), ?_, h.safe.complete.settled n, fun i hi => ?_⟩
  · rw [h.last_committed, List.length_take_of_le hlen]
  · rw [h.read_entry]
    exact entryAt_extend (List.take_prefix _ _) hi

/-- Two nodes that take an index as committed, one now and one later, hold the same entry. -/
theorem Refines.committed_agree (ha : Refines cfg c a) (ha' : Refines cfg c' a')
    (hgrow : Grows a a') {n m : NodeId} {i : Nat} (hn : i ≤ (c.hosts n).last_committed)
    (hm : i ≤ (c'.hosts m).last_committed) :
    (c'.hosts m).read_entry i = (c.hosts n).read_entry i := by
  obtain ⟨p, hplen, hset, hread⟩ := ha.committed n
  obtain ⟨q, hqlen, hqset, hqread⟩ := ha'.committed m
  rw [hread i (by omega), hqread i (by omega)]
  rcases ha'.safe.complete.settled_agree ha'.safe.matching (hset.grow hgrow) hqset with hpre | hpre
  · exact entryAt_extend hpre (by omega)
  · exact (entryAt_extend hpre (by omega)).symm

/-- What a node takes as committed is in the log of every later leader. -/
theorem Refines.leader_holds (ha : Refines cfg c a) (ha' : Refines cfg c' a') (hgrow : Grows a a')
    {n m : NodeId} {i : Nat} (hn : i ≤ (c.hosts n).last_committed)
    (hm : (c'.hosts m).role = some .Leader)
    (hlt : (c.hosts n).current_term < (c'.hosts m).current_term) :
    (c'.hosts m).read_entry i = (c.hosts n).read_entry i := by
  obtain ⟨p, hplen, hset, hread⟩ := ha.committed n
  obtain ⟨hlead, hglog⟩ := ha'.safe.election.role_leader m (ha'.leader hm)
  rw [ha.current_term, ha'.current_term] at hlt
  have hpre := ha'.safe.complete.settled_in_leader (hset.grow hgrow) hlt.le (by rw [hlead]; simp)
  rw [hglog] at hpre
  rw [hread i (by omega), ha'.read_entry, entryAt_extend hpre (by omega)]

variable [DecidableEq α]

theorem Reachable.refines (h : Reachable cfg sm c) : ∃ a, Refines cfg c a := by
  obtain ⟨a, -, ha⟩ := run_refines h (Refines.init cfg sm)
  exact ⟨a, ha⟩

/-! ## A run -/

/-- Three nodes over a state machine that writes down what it is told. -/
def threeNodes : Config := ⟨[1, 2, 3], by decide, 1⟩

def notebook : StateMachine Nat (Nat × List Nat) where
  empty := (0, [])
  apply s i d := .ok (i, d :: s.2)
  last_applied_index := Prod.fst

/-- Node 1 is elected with the vote of node 2, and commits one entry with it. -/
def commitByFirst : List (Action Nat) :=
  [.Restart 1 1, .Restart 2 9, .Restart 3 9, .Act (.Tick 1 5), .Act (.Deliver 0 5),
    .Act (.RunTask 1 0 2 (some 2) 5), .Act (.RunTask 1 0 2 none 5), .Act (.Deliver 3 1),
    .Act (.RunTask 1 0 2 (some 5) 5), .Act (.Propose 1 77), .Act (.Tick 1 5),
    .Act (.RunTask 1 0 2 none 5), .Act (.Deliver 6 5), .Act (.RunTask 1 0 2 (some 7) 5)]

/-- Node 2 is elected with the vote of node 3, while node 1 still leads term 1. -/
def electSecond : List (Action Nat) :=
  [.Act (.Tick 2 5), .Act (.Deliver 9 5), .Act (.RunTask 2 0 3 (some 10) 5),
    .Act (.RunTask 2 0 3 none 5), .Act (.Deliver 12 5), .Act (.RunTask 2 0 3 (some 13) 5)]

def after (acts : List (Action Nat)) : Cluster Nat (Nat × List Nat) :=
  (exec (step threeNodes notebook) (Cluster.init notebook) acts).getD (Cluster.init notebook)

/-- What comes after a first list of actions, each where it is taken. -/
theorem after_run {P : Cluster Nat (Nat × List Nat) → Action Nat → Prop} (as bs : List (Action Nat))
    (hP : ∀ k a, bs[k]? = some a → P (after (as ++ bs.take k)) a)
    (h : (exec (step threeNodes notebook) (Cluster.init notebook) (as ++ bs)).isSome = true) :
    Run (step threeNodes notebook) P (after as) (after (as ++ bs)) := by
  obtain ⟨c₂, hc₂⟩ := Option.isSome_iff_exists.mp h
  have hafter : ∀ {bs c}, exec (step threeNodes notebook) (Cluster.init notebook) (as ++ bs) =
      some c → after (as ++ bs) = c := fun hc => by
    unfold after
    rw [hc]
    rfl
  rw [exec_append] at hc₂
  obtain ⟨c₁, hc₁, hrest⟩ := Option.bind_eq_some_iff.mp hc₂
  have hfirst : after as = c₁ := by
    unfold after
    rw [hc₁]
    rfl
  have hreached : ∀ {bs c}, exec (step threeNodes notebook) c₁ bs = some c →
      after (as ++ bs) = c := fun hc => by
    refine hafter ?_
    rw [exec_append, hc₁]
    exact hc
  rw [hreached hrest, hfirst]
  refine run_of_prefixes bs (fun k a c ha hc => ?_) hrest
  rw [← hreached hc]
  exact hP k a ha

theorem reachable_commitByFirst : Reachable threeNodes notebook (after commitByFirst) :=
  run_of_exec commitByFirst (fun _ _ _ => trivial) rfl

theorem later_electSecond : Later threeNodes notebook (after commitByFirst)
    (after (commitByFirst ++ electSecond)) :=
  run_of_exec electSecond (fun _ _ _ => trivial) rfl

/-! ## The three properties -/

/-- No two nodes ever lead in the same term, not even at different times. -/
theorem one_leader_per_term (hc : Reachable cfg sm c) (hlater : Later cfg sm c c')
    {n m : NodeId} (hn : (c.hosts n).role = some .Leader)
    (hm : (c'.hosts m).role = some .Leader)
    (hterm : (c.hosts n).current_term = (c'.hosts m).current_term) : n = m := by
  obtain ⟨a, ha⟩ := Reachable.refines hc
  obtain ⟨a', hgrow, ha'⟩ := run_refines hlater ha
  have hln := hgrow.leader_keep _ n (ha.safe.election.role_leader n (ha.leader hn)).1
  have hlm := (ha'.safe.election.role_leader m (ha'.leader hm)).1
  rw [ha.current_term, ha'.current_term] at hterm
  rw [hterm, hlm] at hln
  exact (Option.some.inj hln).symm

theorem one_leader_per_term_three :
    ((after commitByFirst).hosts 1).role = some .Leader ∧
      ((after (commitByFirst ++ electSecond)).hosts 1).role = some .Leader ∧
      (1 : NodeId) = 1 :=
  ⟨rfl, rfl, one_leader_per_term reachable_commitByFirst later_electSecond (n := 1) (m := 1)
    rfl rfl rfl⟩

/-- A committed entry is in the log of every later leader, and no node ever takes
another entry as committed in its place. -/
theorem committed_entry_stays (hc : Reachable cfg sm c) (hlater : Later cfg sm c c')
    {n : NodeId} {i : Nat} {e : LogEntry α} (hi : i ≤ (c.hosts n).last_committed)
    (he : (c.hosts n).read_entry i = some e) :
    (∀ m, (c'.hosts m).role = some .Leader →
      (c.hosts n).current_term < (c'.hosts m).current_term →
      (c'.hosts m).read_entry i = some e) ∧
    ∀ m, i ≤ (c'.hosts m).last_committed → (c'.hosts m).read_entry i = some e := by
  obtain ⟨a, ha⟩ := Reachable.refines hc
  obtain ⟨a', hgrow, ha'⟩ := run_refines hlater ha
  exact ⟨fun m hm hlt => (ha.leader_holds ha' hgrow hi hm hlt).trans he,
    fun m hm => (ha.committed_agree ha' hgrow hi hm).trans he⟩

theorem committed_entry_stays_three :
    ((after commitByFirst).hosts 1).last_committed = 1 ∧
      ((after (commitByFirst ++ electSecond)).hosts 2).role = some .Leader ∧
      ((after (commitByFirst ++ electSecond)).hosts 2).read_entry 1 = some ⟨1, 1, 77⟩ ∧
      ((after (commitByFirst ++ electSecond)).hosts 1).read_entry 1 = some ⟨1, 1, 77⟩ := by
  have h := committed_entry_stays reachable_commitByFirst later_electSecond (n := 1) (i := 1)
    (e := ⟨1, 1, 77⟩) (Nat.le_of_eq rfl) rfl
  exact ⟨rfl, rfl, h.1 2 rfl (Nat.lt_of_lt_of_eq Nat.one_lt_two rfl), h.2 1 (Nat.le_of_eq rfl)⟩

/-- Two logs with an entry of one term at one index are the same up to there; every
log is contiguous from 1 and its terms never decrease. -/
theorem logs_match (hc : Reachable cfg sm c) :
    (∀ n m i e e', (c.hosts n).read_entry i = some e → (c.hosts m).read_entry i = some e' →
      e.term = e'.term → ∀ j ≤ i, (c.hosts n).read_entry j = (c.hosts m).read_entry j) ∧
    (∀ n i e, (c.hosts n).read_entry i = some e → e.index = i ∧ 1 ≤ i ∧
      ∀ j, 1 ≤ j → j ≤ i → (c.hosts n).read_entry j ≠ none) ∧
    ∀ n i j e e', i ≤ j → (c.hosts n).read_entry i = some e →
      (c.hosts n).read_entry j = some e' → e.term ≤ e'.term := by
  obtain ⟨a, ha⟩ := Reachable.refines hc
  have htraced := ha.safe.matching.log_traced
  -- an entry at a log index is an entry of the list
  have hget : ∀ n i e, (c.hosts n).read_entry i = some e →
      ∃ k x, i = k + 1 ∧ (a.log n)[k]? = some x ∧ e = ⟨k + 1, x.term, x.data⟩ := by
    intro n i e he
    rw [ha.read_entry] at he
    cases i with
    | zero => cases he
    | succ k =>
      rw [entryAt_succ] at he
      obtain ⟨x, hx, rfl⟩ := Option.map_eq_some_iff.mp he
      exact ⟨k, x, rfl, hx, rfl⟩
  refine ⟨?_, ?_, ?_⟩
  · intro n m i e e' he he' hterm j hj
    obtain ⟨k, x, rfl, hx, rfl⟩ := hget n i e he
    obtain ⟨k', x', hk, hx', rfl⟩ := hget m _ e' he'
    obtain rfl : k = k' := by omega
    have htake := (htraced n).matching (htraced m) hx hx' hterm
    have hlx := (List.getElem?_eq_some_iff.mp hx).1
    have hlx' := (List.getElem?_eq_some_iff.mp hx').1
    rw [ha.read_entry, ha.read_entry,
      entryAt_extend (List.take_prefix (k + 1) (a.log n))
        (by rw [List.length_take_of_le hlx]; exact hj), htake,
      entryAt_extend (List.take_prefix (k + 1) (a.log m))
        (by rw [List.length_take_of_le hlx']; exact hj)]
  · intro n i e he
    obtain ⟨k, x, rfl, hx, rfl⟩ := hget n i e he
    refine ⟨rfl, by omega, fun j hj hjk => ?_⟩
    have hlx := (List.getElem?_eq_some_iff.mp hx).1
    rw [ha.read_entry]
    exact (entryAt_ne_none_iff _ _).mpr ⟨by omega, by omega⟩
  · intro n i j e e' hij he he'
    obtain ⟨k, x, rfl, hx, rfl⟩ := hget n i e he
    obtain ⟨k', x', rfl, hx', rfl⟩ := hget n j e' he'
    exact ha.safe.matching.terms_sorted (htraced n) hx hx' (by omega)

theorem logs_match_three :
    ((after commitByFirst).hosts 1).read_entry 1 = ((after commitByFirst).hosts 2).read_entry 1 :=
  (logs_match reachable_commitByFirst).1 1 2 1 ⟨1, 1, 77⟩ ⟨1, 1, 77⟩ rfl rfl rfl 1 le_rfl

end raft_engine.refinement
