-- What a member has promised it keeps, over crashes and restarts: the term it has
-- seen, the vote it has cast in it, the index it has committed and every entry up
-- to there. A leader only ever adds to its log; and two stores that have applied
-- different amounts of the log are one store that goes on to be the other.
import LactoSensus.Replicas
import LactoSensus.Safety

open common.types
open common.proto
open machine
open raft_engine.storage
open raft_engine.node
open raft_engine.cluster
open raft_engine.refinement
open raft_engine.recovery
open raft_engine.replicas
open lacto_fsm
open raft (Entry Grows Settled)

namespace raft_engine.promises

variable {α S : Type} {cfg : Config} {sm : StateMachine α S} {c c' : Cluster α S}
  {a a₁ a' : Protocol α} {n m : NodeId}

/-! ## What is kept -/

/-- The protocol has forgotten nothing, and no member has gone back in what it takes as
committed. -/
structure Kept (a a' : Protocol α) : Prop where
  grows : Grows a a'
  same : ∀ n, SamePrefix a a' n

theorem Kept.refl (a : Protocol α) : Kept a a := ⟨.refl a, fun _ => ⟨le_rfl, rfl⟩⟩

theorem Kept.trans (h : Kept a a₁) (h' : Kept a₁ a') : Kept a a' := by
  refine ⟨h.grows.trans h'.grows, fun n => ⟨(h.same n).commit_le.trans (h'.same n).commit_le, ?_⟩⟩
  have hshorter : ∀ l : List (Entry α),
      l.take (a.commit n) = (l.take (a₁.commit n)).take (a.commit n) := fun l => by
    rw [List.take_take, min_eq_left (h.same n).commit_le]
  rw [← (h.same n).log, hshorter (a'.log n), (h'.same n).log, ← hshorter]

theorem step_kept [DecidableEq α] (hr : Refines cfg c a) {act : Action α}
    (hs : step cfg sm c act = some c') : ∃ a', Kept a a' ∧ Refines cfg c' a' := by
  obtain ⟨a', hg, hr'⟩ := step_refines hr hs
  exact ⟨a', ⟨hg, step_samePrefix hr hr' hg hs⟩, hr'⟩

theorem run_kept [DecidableEq α] {P : Cluster α S → Action α → Prop}
    (hrun : Run (step cfg sm) P c c') (hr : Refines cfg c a) :
    ∃ a', Kept a a' ∧ Refines cfg c' a' :=
  hrun.simulates .refl .trans (fun _ _ _ _ h _ hs => step_kept h hs) hr

/-- The entries up to an index that was committed are where they were. -/
theorem SamePrefix.read_entry (hr : Refines cfg c a) (hr' : Refines cfg c' a')
    (h : SamePrefix a a' n) {i : Nat} (hi : i ≤ (c.hosts n).last_committed) :
    (c'.hosts n).read_entry i = (c.hosts n).read_entry i := by
  have hlen := hr.safe.complete.commit_le n
  have hlen' := (h.commit_le).trans (hr'.safe.complete.commit_le n)
  rw [hr.last_committed] at hi
  rw [hr.read_entry, hr'.read_entry,
    entryAt_extend (List.take_prefix (a.commit n) (a.log n))
      (by rw [List.length_take_of_le hlen]; exact hi),
    entryAt_extend (List.take_prefix (a.commit n) (a'.log n))
      (by rw [List.length_take_of_le hlen']; exact hi), h.log]

/-- Terms, votes and committed entries outlive every crash, and a leader keeps its log. -/
theorem promises_kept [DecidableEq α] (hc : Reachable cfg sm c) (hlater : Later cfg sm c c')
    (n : NodeId) :
    (c.hosts n).current_term ≤ (c'.hosts n).current_term ∧
    ((c'.hosts n).current_term = (c.hosts n).current_term →
      ∀ v, (c.hosts n).disk.voted_for = some v → (c'.hosts n).disk.voted_for = some v) ∧
    (c.hosts n).last_committed ≤ (c'.hosts n).last_committed ∧
    (∀ i ≤ (c.hosts n).last_committed, (c'.hosts n).read_entry i = (c.hosts n).read_entry i) ∧
    ((c.hosts n).role = some .Leader → (c'.hosts n).role = some .Leader →
      (c'.hosts n).current_term = (c.hosts n).current_term →
      ∀ i e, (c.hosts n).read_entry i = some e → (c'.hosts n).read_entry i = some e) := by
  obtain ⟨a, hr⟩ := Reachable.refines hc
  obtain ⟨a', hkept, hr'⟩ := run_kept hlater hr
  have hg := hkept.grows
  refine ⟨?_, fun hterm v hv => ?_, ?_, fun i hi => ?_, fun hlead hlead' hterm i e he => ?_⟩
  · rw [hr.current_term, hr'.current_term]
    exact hg.term_le n
  · rw [hr.current_term, hr'.current_term] at hterm
    rw [(hr.disk n).vote] at hv
    rw [(hr'.disk n).vote, hterm]
    exact hg.voted_keep n _ v hv
  · rw [hr.last_committed, hr'.last_committed]
    exact (hkept.same n).commit_le
  · exact SamePrefix.read_entry hr hr' (hkept.same n) hi
  · -- both logs are the log of the leader of the term
    rw [hr.current_term, hr'.current_term] at hterm
    have hlog := (hr.safe.election.role_leader n (hr.leader hlead)).2
    have hlog' := (hr'.safe.election.role_leader n (hr'.leader hlead')).2
    have hpre := hg.glog_grow (a.term n)
    rw [hlog, ← hterm, hlog'] at hpre
    rw [hr.read_entry] at he
    have hin : i ≤ (a.log n).length := by
      have hne := (entryAt_ne_none_iff (a.log n) i).mp (by rw [he]; simp)
      exact hne.2
    rw [hr'.read_entry, entryAt_extend hpre hin, he]

theorem promises_kept_three :
    ((after (commitByFirst ++ electSecond)).hosts 3).disk.voted_for = some 2 ∧
      1 ≤ ((after (commitByFirst ++ electSecond)).hosts 1).last_committed ∧
      ((after (commitByFirst ++ electSecond)).hosts 1).read_entry 1 = some ⟨1, 1, 77⟩ := by
  have h := promises_kept reachable_commitByFirst later_electSecond 1
  exact ⟨rfl, h.2.2.1, h.2.2.2.1 1 (Nat.le_of_eq rfl)⟩

/-! ## The stores -/

variable {codec : Codec α} {cl cl' : Cluster α LactoStore}

/-- Every host of the cluster has applied a beginning of its committed log. -/
def Replicated (cfg : Config) (codec : Codec α) (cl : Cluster α LactoStore) (a : Protocol α) :
    Prop :=
  Refines cfg cl a ∧ ∀ n, Replica codec a n (cl.hosts n)

theorem Replicated.init :
    Replicated cfg codec (Cluster.init (lactoMachine codec)) (raft.State.init : Protocol α) :=
  ⟨.init cfg _, fun _ => ⟨⟨0, le_rfl, .nil⟩, fun _ hp => by cases hp⟩⟩

theorem run_replicated [DecidableEq α] {P : Cluster α LactoStore → Action α → Prop}
    (hrun : Run (step cfg (lactoMachine codec)) P cl cl') (h : Replicated cfg codec cl a) :
    ∃ a', Kept a a' ∧ Replicated cfg codec cl' a' := by
  refine hrun.simulates .refl .trans (fun s act s' t ht _ hs => ?_) h
  obtain ⟨hr, hrep⟩ := ht
  obtain ⟨t', hkept, hr'⟩ := step_kept hr hs
  exact ⟨t', hkept, hr', Replica.step hr hr' hkept.grows hs hrep⟩

/-- What one member has committed and what another one has committed later begin alike. -/
theorem committed_take (hr : Refines cfg cl a) (hr' : Refines cfg cl' a') (hg : Grows a a')
    {k : Nat} (hk : k ≤ a.commit n) (hk' : k ≤ a'.commit m) :
    (dataOf (a'.log m)).take k = (dataOf (a.log n)).take k := by
  have hlen := hr.safe.complete.commit_le n
  have hlen' := hr'.safe.complete.commit_le m
  have hset := (hr.safe.complete.settled n).grow hg
  have hset' := hr'.safe.complete.settled m
  have hsame : ∀ {l l' : List (Entry α)} {i j : Nat}, k ≤ i → k ≤ j → i ≤ l.length →
      l.take i <+: l'.take j → l'.take k = l.take k := by
    intro l l' i j hi hj hlen hpre
    have htake := congrArg (·.take k) (List.prefix_iff_eq_take.mp hpre)
    simp only [List.take_take, List.length_take, min_eq_left hlen, min_eq_left hi,
      min_eq_left (show k ≤ min i j from le_min hi hj)] at htake
    exact htake.symm
  rw [← dataOf_take, ← dataOf_take]
  rcases hr'.safe.complete.settled_agree hr'.safe.matching hset hset' with hpre | hpre
  · rw [hsame hk hk' hlen hpre]
  · rw [hsame hk' hk hlen' hpre]

/-- A store that has applied more has gone through the store that has applied less, wherever
and whenever they are: the entries between the two applied indices lead from one to the other. -/
theorem stores_agree [DecidableEq α] (hc : Reachable cfg (lactoMachine codec) cl)
    (hlater : Later cfg (lactoMachine codec) cl cl')
    (hle : appliedOf (cl.hosts n).fsm ≤ appliedOf (cl'.hosts m).fsm) :
    ∃ log : List α, appliedOf (cl.hosts n).fsm + log.length = appliedOf (cl'.hosts m).fsm ∧
      (∀ i < log.length, ∃ e,
        (cl'.hosts m).read_entry (appliedOf (cl.hosts n).fsm + i + 1) = some e ∧
          log[i]? = some e.data) ∧
      (cl.hosts n).fsm.applyLog codec (appliedOf (cl.hosts n).fsm) log =
        ((cl'.hosts m).fsm, .ok ()) := by
  obtain ⟨a, -, hr, hrep⟩ := run_replicated hc .init
  obtain ⟨a', hkept, hr', hrep'⟩ := run_replicated hlater ⟨hr, hrep⟩
  have hcommit' := hr'.safe.complete.commit_le m
  obtain ⟨hk, hreplays, -⟩ := (hrep n).applied (hr.safe.complete.commit_le n)
  obtain ⟨hk', hreplays', -⟩ := (hrep' m).applied hcommit'
  generalize hfrom : appliedOf (cl.hosts n).fsm = k at *
  generalize hto : appliedOf (cl'.hosts m).fsm = k' at *
  have hlen : k' ≤ (dataOf (a'.log m)).length := by
    rw [dataOf_length]
    exact hk'.trans hcommit'
  have hbegin := committed_take hr hr' hkept.grows hk (hle.trans hk')
  refine ⟨((dataOf (a'.log m)).take k').drop k, ?_, fun i hi => ?_, ?_⟩
  · rw [List.length_drop, List.length_take_of_le hlen]
    omega
  · rw [List.length_drop, List.length_take_of_le hlen] at hi
    obtain ⟨e, he⟩ := Option.ne_none_iff_exists'.mp
      ((entryAt_ne_none_iff (a'.log m) (k + i + 1)).mpr ⟨Nat.succ_pos _, by omega⟩)
    refine ⟨e, (hr'.read_entry m _).trans he, ?_⟩
    rw [List.getElem?_drop, List.getElem?_take_of_lt (by omega)]
    exact entryAt_data he
  · unfold Replays at hreplays hreplays'
    rw [← List.take_append_drop k ((dataOf (a'.log m)).take k'), List.take_take, min_eq_left hle,
      hbegin, applyLog_append, hreplays] at hreplays'
    have hshort : ((dataOf (a.log n)).take k).length = k := by
      rw [← hbegin, List.length_take_of_le (hle.trans hlen)]
    rw [hshort, Nat.zero_add] at hreplays'
    exact hreplays'

/-- Three nodes over the store, from the first start. -/
def stored (acts : List (Action (CommittedMutation ⊕ SnapshotData))) :
    Cluster (CommittedMutation ⊕ SnapshotData) LactoStore :=
  (exec (step threeNodes (lactoMachine plainSnapshots.toCodec))
    (Cluster.init (lactoMachine plainSnapshots.toCodec)) acts).getD
    (Cluster.init (lactoMachine plainSnapshots.toCodec))

/-- Node 1 is elected with the vote of node 2, and commits one entry with it; then its applier
runs up to the end of the entry. -/
def commitOne (data : CommittedMutation ⊕ SnapshotData) :
    List (Action (CommittedMutation ⊕ SnapshotData)) :=
  [.Restart 1 1, .Restart 2 9, .Restart 3 9, .Act (.Tick 1 5), .Act (.Deliver 0 5),
    .Act (.RunTask 1 0 2 (some 2) 5), .Act (.RunTask 1 0 2 none 5), .Act (.Deliver 3 1),
    .Act (.RunTask 1 0 2 (some 5) 5), .Act (.Propose 1 data), .Act (.Tick 1 5),
    .Act (.RunTask 1 0 2 none 5), .Act (.Deliver 6 5), .Act (.RunTask 1 0 2 (some 7) 5),
    .Act (.Apply 1), .Act (.Apply 1), .Act (.Apply 1)]

def commitMilk : List (Action (CommittedMutation ⊕ SnapshotData)) :=
  commitOne (plainSnapshots.encode (putMilk 7))

theorem reachable_stored {acts : List (Action (CommittedMutation ⊕ SnapshotData))}
    (h : (exec (step threeNodes (lactoMachine plainSnapshots.toCodec))
      (Cluster.init (lactoMachine plainSnapshots.toCodec)) acts).isSome = true) :
    Reachable threeNodes (lactoMachine plainSnapshots.toCodec) (stored acts) :=
  run_of_takes acts (fun _ _ _ => trivial) h

theorem later_stored (acts more : List (Action (CommittedMutation ⊕ SnapshotData)))
    (h : (exec (step threeNodes (lactoMachine plainSnapshots.toCodec))
      (Cluster.init (lactoMachine plainSnapshots.toCodec)) (acts ++ more)).isSome = true) :
    Later threeNodes (lactoMachine plainSnapshots.toCodec) (stored acts)
      (stored (acts ++ more)) := by
  obtain ⟨c₂, hc₂⟩ := Option.isSome_iff_exists.mp h
  rw [exec_append] at hc₂
  obtain ⟨c₁, hc₁, hrest⟩ := Option.bind_eq_some_iff.mp hc₂
  refine run_of_exec more (fun _ _ _ => trivial) ?_
  unfold stored
  rw [exec_append, hc₁]
  exact hrest.trans (by simp [hrest])

/-- With the second entry node 2 learns that the first is committed, and applies it. -/
def followMilk : List (Action (CommittedMutation ⊕ SnapshotData)) :=
  [.Act (.Propose 1 (plainSnapshots.encode { putMilk 7 with sequence_id := 2 })),
    .Act (.Tick 1 5), .Act (.RunTask 1 0 2 none 5), .Act (.Deliver 8 5), .Act (.Apply 2),
    .Act (.Apply 2), .Act (.Apply 2)]

/-- Node 1 commits the second entry and applies it. -/
def commitSecond : List (Action (CommittedMutation ⊕ SnapshotData)) :=
  [.Act (.RunTask 1 0 2 (some 9) 5), .Act (.Apply 1), .Act (.Apply 1), .Act (.Apply 1)]

/-- The store of node 1 is what that of node 2 was earlier, one entry further. -/
theorem stores_agree_milk :
    appliedOf ((stored (commitMilk ++ followMilk)).hosts 2).fsm = 1 ∧
      appliedOf ((stored (commitMilk ++ followMilk ++ commitSecond)).hosts 1).fsm = 2 ∧
      ∃ log : List (CommittedMutation ⊕ SnapshotData), 1 + log.length = 2 ∧
        ((stored (commitMilk ++ followMilk)).hosts 2).fsm.applyLog plainSnapshots.toCodec 1 log =
          (((stored (commitMilk ++ followMilk ++ commitSecond)).hosts 1).fsm, .ok ()) := by
  have hreach : Reachable threeNodes (lactoMachine plainSnapshots.toCodec)
      (stored (commitMilk ++ followMilk)) := reachable_stored (by decide +kernel)
  have hlater := later_stored (commitMilk ++ followMilk) commitSecond (by decide +kernel)
  have hfrom : appliedOf ((stored (commitMilk ++ followMilk)).hosts 2).fsm = 1 := by
    decide +kernel
  have hto : appliedOf ((stored (commitMilk ++ followMilk ++ commitSecond)).hosts 1).fsm = 2 := by
    decide +kernel
  obtain ⟨log, hlen, -, happly⟩ := stores_agree (n := 2) (m := 1) hreach hlater (by omega)
  rw [hfrom, hto] at hlen
  rw [hfrom] at happly
  exact ⟨hfrom, hto, log, hlen, happly⟩

end raft_engine.promises
