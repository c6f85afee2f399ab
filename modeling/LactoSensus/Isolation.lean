-- A node on its own: no request reaches it, nobody grants it a pre-vote, and no
-- response tells of a higher term. It goes from follower to pre-candidate and
-- back, its applier works off what is committed, and compactions cut the front
-- of its log; its term, its vote and its commit index stay as they are.
import LactoSensus.HostSteps
import LactoSensus.PreVotes
import LactoSensus.StepDowns

open common.types
open journal
open machine
open raft_engine.storage
open raft_engine.node
open raft_engine.engine
open raft_engine.consensus
open raft_engine.shell
open raft_engine.cluster
open raft_engine.roles
open raft_engine.step_downs
open raft_engine.orchestration

namespace raft_engine.isolation

variable {α S X : Type} {ln ln' : LogicalNode α}

/-! ## Waiting nodes -/

/-- The node neither stands nor leads. -/
def Waiting (ln : LogicalNode α) : Prop :=
  ln.node_role = .Follower ∨ ln.node_role = .PreCandidate ∨ ln.node_role = .Poisoned

theorem Waiting.not_candidate (h : Waiting ln) : ln.node_role ≠ .Candidate := by
  rcases h with h | h | h <;> simp [h]

theorem Waiting.not_leader (h : Waiting ln) : ln.node_role ≠ .Leader := by
  rcases h with h | h | h <;> simp [h]

theorem waiting_of_poisoned (h : ln.is_poisoned = true) : Waiting ln :=
  .inr (.inr (ln.is_poisoned_iff.mp h))

/-- Nothing is written, the commit index stays, and a waiting node goes on waiting. -/
structure Still (ln ln' : LogicalNode α) : Prop where
  store : ln'.node.log_store = ln.node.log_store
  committed : ln'.last_committed = ln.last_committed
  waits : Waiting ln → Waiting ln'

theorem Still.refl (ln : LogicalNode α) : Still ln ln := ⟨rfl, rfl, id⟩

theorem Still.of_eq (h : ln' = ln) : Still ln ln' := by
  rw [h]
  exact .refl ln

theorem Still.poison (h : Still ln ln') : Still ln ln'.poison :=
  ⟨h.store, h.committed, fun _ => waiting_of_poisoned (is_poisoned_poison ln')⟩

theorem Still.afterHandler {r : Handled α X} (h : Still ln r.1) : Still ln (afterHandler r) := by
  obtain ⟨ln', res⟩ := r
  cases res with
  | ok x => exact h
  | error p => exact h.poison

/-- A demotion in the term the node is in writes nothing; one to an earlier term halts it. -/
theorem into_follower_still {term : Nat} (hle : term ≤ ln.current_term)
    (leader_id : Option NodeId) (timeout : Nat) :
    Still ln (ln.into_follower term leader_id timeout).1 := by
  have hcur : (ln.node.transition (Follower.mk leader_id ln.current_tick timeout)).current_term =
      ln.current_term := rfl
  unfold LogicalNode.into_follower
  split
  · exact .refl ln
  unfold RaftNode.try_into_follower RaftNode.advance_term
  rw [hcur]
  dsimp only
  split_ifs
  · exact (Still.refl ln).poison
  · omega
  · exact ⟨rfl, rfl, fun _ => .inl rfl⟩

theorem into_pre_candidate_still (ln : LogicalNode α) : Still ln ln.into_pre_candidate := by
  unfold LogicalNode.into_pre_candidate
  split
  · exact ⟨rfl, rfl, fun _ => .inr (.inl rfl)⟩
  · exact .refl ln

/-- A tick of a waiting node starts a pre-vote, steps down or does nothing. -/
theorem tickLocked_still (hw : Waiting ln) (timeout : Nat) :
    Still ln (tickLocked ln timeout).1 ∧
      ∀ params, (tickLocked ln timeout).2 ≠ .ok (.Campaign params) := by
  have hticked : Still ln { ln with current_tick := ln.current_tick + 1 } := ⟨rfl, rfl, id⟩
  unfold tickLocked LogicalNode.tick
  cases hst : ln.node.state with
  | Follower f =>
    dsimp only
    unfold Follower.evaluate_tick
    split_ifs
    · exact ⟨hticked, by simp⟩
    · refine ⟨?_, by simp⟩
      have h := into_pre_candidate_still { ln with current_tick := ln.current_tick + 1 }
      exact ⟨h.store, h.committed, fun hw => h.waits (hticked.waits hw)⟩
    · exact ⟨hticked, by simp⟩
  | PreCandidate p =>
    dsimp only
    unfold PreCandidate.evaluate_tick
    split_ifs <;> exact ⟨hticked, by simp⟩
  | Candidate c => simp [Waiting, LogicalNode.node_role, hst, RoleState.node_role] at hw
  | Leader l => simp [Waiting, LogicalNode.node_role, hst, RoleState.node_role] at hw
  | Poisoned =>
    dsimp only
    split_ifs <;> exact ⟨hticked, by simp⟩

/-- A response that tells of no higher term than the node's writes nothing. -/
theorem process_vote_response_still (hw : Waiting ln) {term : Nat} {peer_ids : List NodeId}
    {peer_id : NodeId} {resp : RequestVoteResponse} {timeout : Nat}
    (hle : resp.term ≤ ln.current_term) :
    Still ln (afterHandler (process_vote_response ln term peer_ids peer_id resp timeout)) := by
  by_cases hgt : resp.term > term
  · refine Still.afterHandler ?_
    rw [process_vote_response_overtaken hgt]
    exact into_follower_still hle none timeout
  · exact .of_eq (process_vote_response_idle hw.not_candidate (not_lt.mp hgt))

theorem process_replication_response_still (hw : Waiting ln) {term : Nat} {peer_id : NodeId}
    {outcome : ReplicationOutcome} {timeout : Nat} (hle : outcome.term ≤ ln.current_term) :
    Still ln (afterHandler (process_replication_response ln term peer_id outcome timeout)) := by
  by_cases hgt : outcome.term > term
  · refine Still.afterHandler ?_
    rw [process_replication_response_overtaken hgt]
    exact into_follower_still hle none timeout
  · exact .of_eq (process_replication_response_idle hw.not_leader (not_lt.mp hgt))

theorem TaskStep.still {cfg : Config} {n peer : NodeId} {reply : Option (Message α)}
    {timeout : Nat} {task : SpawnedTask α} {sh sh' : ConsensusShell α}
    (hstep : TaskStep cfg n peer reply timeout sh task sh') (hw : Waiting sh.inner)
    (hnot : task ≠ .BecomeCandidate) (htold : ∀ msg ∈ reply, told msg ≤ sh.inner.current_term) :
    Still sh.inner sh'.inner := by
  cases hstep with
  | idle => exact .refl _
  | steppedDown =>
    rw [ConsensusShell.write_inner]
    refine Still.afterHandler ?_
    unfold stepDown
    split
    · exact .refl _
    · exact into_follower_still le_rfl none timeout
  | observed req pending granted resp hreply =>
    rw [ConsensusShell.write_inner]
    exact .of_eq (observe_pre_vote_term_idle (htold _ hreply))
  | stood => exact absurd rfl hnot
  | counted params pending granted resp hreply =>
    rw [ConsensusShell.write_inner]
    exact process_vote_response_still hw (htold _ hreply)
  | promoted =>
    rw [ConsensusShell.write_inner]
    exact .of_eq (into_leader_idle hw.not_candidate _)
  | prepared params =>
    rw [ConsensusShell.write_inner]
    exact .of_eq (prepare_replication_idle hw.not_leader _ _)
  | responded params unsent awaiting req resp hreply =>
    rw [ConsensusShell.write_inner]
    exact process_replication_response_still hw (htold _ hreply)
  | failed err =>
    rw [ConsensusShell.write_inner]
    exact (Still.refl _).poison

/-! ## The applier -/

/-- The applier works on entries that are committed. -/
def Behind (committed : Nat) : Applier α → Prop
  | .Idle => True
  | .Looping _ upto => upto ≤ committed
  | .Fetched next_idx _ => next_idx ≤ committed
  | .Applied next_idx => next_idx ≤ committed

theorem Behind.mono {c c' : Nat} (hle : c ≤ c') {ap : Applier α} (h : Behind c ap) :
    Behind c' ap := by
  cases ap with
  | Idle => exact trivial
  | Looping applied upto => exact h.trans hle
  | Fetched next_idx data => exact h.trans hle
  | Applied next_idx => exact h.trans hle

theorem recordApplied_still {next_idx : Nat} (hle : next_idx ≤ ln.last_committed) :
    Still ln (recordApplied next_idx ln).1 := by
  unfold recordApplied
  rcases node_advance_cases ln next_idx with ⟨-, heq⟩ | ⟨e, heq, -⟩ | ⟨n, heq, hadv⟩
  · rw [heq]
    exact .refl ln
  · rw [heq]
    exact (Still.refl ln).poison
  · rw [heq]
    have hle' : next_idx ≤ ln.node.last_committed := hle
    have hc := hadv.committed
    refine ⟨?_, ?_, fun hw => ?_⟩
    · rcases hadv.store with hsame | ⟨hlt, -⟩
      · exact hsame
      · omega
    · change n.last_committed = ln.node.last_committed
      omega
    · unfold Waiting LogicalNode.node_role at hw ⊢
      change n.state.node_role = _ ∨ n.state.node_role = _ ∨ n.state.node_role = _
      rw [hadv.state]
      exact hw

/-- The applier writes nothing, unless it takes up an index that is not committed. -/
theorem runApplier_steady {sm : StateMachine α S} {p p' : Process α} {fsm fsm' : S}
    (hle : ∀ next_idx, p.applier = .Applied next_idx → next_idx ≤ p.shell.inner.last_committed)
    (hrun : runApplier sm p fsm = some (p', fsm')) : Still p.shell.inner p'.shell.inner := by
  -- a failure only poisons the node
  have hfatal : Still p.shell.inner p.shell.inner.poison := (Still.refl _).poison
  cases happ : p.applier with
  | Applied next_idx =>
    rw [runApplier_applied happ] at hrun
    have hstill := (recordApplied_still (hle next_idx happ)).afterHandler
    rw [← ConsensusShell.write_inner p.shell (recordApplied next_idx)] at hstill
    generalize p.shell.write _ = r at hrun hstill
    obtain ⟨sh, e | committed⟩ := r <;>
    · obtain ⟨rfl, -⟩ := Prod.mk.inj (Option.some.inj hrun)
      exact hstill
  | Fetched next_idx data =>
    unfold runApplier at hrun
    rw [happ] at hrun
    dsimp only at hrun
    split at hrun <;> obtain ⟨rfl, -⟩ := Prod.mk.inj (Option.some.inj hrun)
    · exact .refl _
    · exact hfatal
  | Idle =>
    unfold runApplier at hrun
    rw [happ] at hrun
    dsimp only at hrun
    split at hrun
    · cases hrun
    split at hrun <;> obtain ⟨rfl, -⟩ := Prod.mk.inj (Option.some.inj hrun)
    · exact hfatal
    · exact .refl _
  | Looping applied upto =>
    unfold runApplier at hrun
    rw [happ] at hrun
    dsimp only at hrun
    split at hrun
    · split at hrun
      · obtain ⟨rfl, -⟩ := Prod.mk.inj (Option.some.inj hrun)
        exact hfatal
      · split at hrun <;> obtain ⟨rfl, -⟩ := Prod.mk.inj (Option.some.inj hrun)
        · exact hfatal
        · exact hfatal
        · exact .refl _
    · obtain ⟨rfl, -⟩ := Prod.mk.inj (Option.some.inj hrun)
      exact .refl _

/-- The applier of a node writes nothing that is not committed already. -/
theorem runApplier_still {sm : StateMachine α S} {p p' : Process α} {fsm fsm' : S}
    (hbehind : Behind p.shell.inner.last_committed p.applier)
    (hrun : runApplier sm p fsm = some (p', fsm')) : Still p.shell.inner p'.shell.inner := by
  refine runApplier_steady (fun next_idx happ => ?_) hrun
  rw [happ] at hbehind
  exact hbehind

theorem runApplier_behind {sm : StateMachine α S} {p p' : Process α} {fsm fsm' : S}
    (hbehind : Behind p.shell.inner.last_committed p.applier)
    (hrun : runApplier sm p fsm = some (p', fsm')) :
    Behind p'.shell.inner.last_committed p'.applier := by
  cases runApplier_step hrun with
  | start => exact le_rfl
  | fetch hloop hlt =>
    rw [hloop] at hbehind
    exact hlt.trans_le hbehind
  | finish => exact trivial
  | apply hfetched =>
    rw [hfetched] at hbehind
    exact hbehind
  | @advance next_idx n sh happlied hadv hsh =>
    change n.last_committed ≤ sh.inner.node.last_committed
    rw [hsh]
    exact le_rfl
  | fatal => exact trivial

/-! ## The host -/

variable {cfg : HostConfig} {sm : SnapshotMachine α S} {h h' : SnapshotHost α S} {a : HostAct α}

/-- A process that starts with what its disk and its state machine hold. -/
def Booted (cfg : HostConfig) (sm : SnapshotMachine α S) (h : SnapshotHost α S) : Prop :=
  ∃ timeout disk fsm ln,
    LogicalNode.try_new cfg.node_id (sm.last_applied_index fsm) disk
      cfg.cluster.heartbeat_interval timeout = .ok ln ∧
    h = ⟨⟨.new ln, .Idle, []⟩, fsm, 0, [], [], 0⟩

/-- The step does not take back what the node holds for committed. -/
def CommitStands [DecidableEq α] (cfg : HostConfig) (sm : SnapshotMachine α S)
    (h : SnapshotHost α S) (a : HostAct α) : Prop :=
  ∀ h', hostStep cfg sm h a = some h' → h.node.last_committed ≤ h'.node.last_committed

/-- No request reaches the node and none that it received before is completed; nobody grants it
a pre-vote, and no response tells of a higher term than its own. -/
def Alone (h : SnapshotHost α S) : HostAct α → Prop
  | .Deliver _ _ => False
  | .InstallSnapshot _ _ => False
  | .Finalize _ => False
  | .RunTask _ _ reply _ => ∀ msg ∈ reply, told msg ≤ h.node.current_term ∧
      ∀ src req resp, msg = .PreVoteReply src req resp → resp.vote_granted = false
  | .TransferReply _ _ _ response_term _ => response_term ≤ h.node.current_term
  | _ => True

/-- Where a task of a host comes from. -/
inductive TaskFrom (cfg : HostConfig) (h : SnapshotHost α S) :
    HostAct α → SpawnedTask α → Prop where
  | kept {a : HostAct α} {t : SpawnedTask α} (hmem : t ∈ h.process.tasks) : TaskFrom cfg h a t
  | followed {k : Nat} {peer : NodeId} {reply : Option (Message α)} {timeout : Nat}
      {task t : SpawnedTask α} (hk : h.process.tasks[k]? = some task)
      (hf : Follows cfg.cluster cfg.node_id reply task t) :
      TaskFrom cfg h (.RunTask k peer reply timeout) t
  | ticked {timeout : Nat} {spawn : TickSpawn} {t : SpawnedTask α}
      (hmem : t ∈ spawn.tasks (cfg.cluster.peer_ids cfg.node_id)) :
      TaskFrom cfg h (.Tick timeout) t
  | probed (params : ReplicationRoundParams) (unsent : List NodeId) :
      TaskFrom cfg h .Probe (.Replication params unsent [])
  | failed {a : HostAct α} (err : NodeError) : TaskFrom cfg h a (.Fatal err)

theorem hostStep_tasks [DecidableEq α] (hs : hostStep cfg sm h a = some h') :
    ∀ t ∈ h'.process.tasks, TaskFrom cfg h a t := by
  intro t ht
  cases hostStep_moves hs with
  | @ticked timeout sh res hw =>
    rcases List.mem_append.mp ht with hnew | hold
    · cases res with
      | error p => cases hnew
      | ok spawn => exact .ticked hnew
    · exact .kept hold
  | ran hk hrun =>
    rcases List.mem_append.mp ht with hnew | hold
    · exact .followed hk ((runTask_ran hrun).follows t hnew)
    · exact .kept (List.mem_of_mem_eraseIdx hold)
  | @probed sh probe hprobe =>
    rcases List.mem_append.mp ht with hnew | hold
    · obtain ⟨_, rfl⟩ := mem_probeTasks hnew
      exact .probed _ _
    · exact .kept hold
  | applied hrun =>
    refine .kept ?_
    cases runApplier_step hrun <;> exact ht
  | unanswered hw =>
    rcases List.mem_cons.mp ht with rfl | hold
    · exact .failed _
    · exact .kept hold
  | _ => exact .kept ht

/-- What holds of a host from its start on, as long as its commit index stands. -/
structure Settled (cfg : HostConfig) (h : SnapshotHost α S) : Prop where
  applied : h.node.last_applied ≤ h.node.last_committed
  targets : ∀ c ∈ h.compactions, c.target ≤ h.node.last_committed
  applier : Behind h.node.last_committed h.process.applier
  campaigns : ∀ req pending granted, .PreVote req pending granted ∈ h.process.tasks →
    granted < quorumOf (cfg.cluster.peer_ids cfg.node_id)

theorem Booted.settled (hb : Booted cfg sm h) : Settled cfg h := by
  obtain ⟨timeout, disk, fsm, ln, hnew, rfl⟩ := hb
  refine ⟨?_, by simp, trivial, by simp⟩
  change ln.last_applied ≤ ln.last_committed
  unfold LogicalNode.try_new at hnew
  split at hnew
  · cases hnew
  · rename_i hle
    obtain rfl := Except.ok.inj hnew
    exact not_lt.mp hle

/-- The applied index stays or takes an index that is committed. -/
theorem LogStep.applied_le (hlog : LogStep h a ln')
    (hle : h.node.last_applied ≤ h.node.last_committed)
    (hstands : h.node.last_committed ≤ ln'.last_committed) :
    ln'.last_applied ≤ ln'.last_committed := by
  have hadvanced : ∀ {n n' : RaftNode α RoleState} {i : Nat}, Advanced n i n' →
      n'.last_applied ≤ n'.last_committed := by
    intro n n' i hadv
    have happlied := hadv.applied
    have hc := hadv.committed
    omega
  cases hlog with
  | applied i hadv => exact hadvanced hadv
  | finalized k params hk hadv => exact hadvanced hadv
  | quiet hq => exact hq.applied.le.trans (hle.trans hstands)
  | proposed data l hl => exact hle.trans hstands
  | @merged dst req timeout ln₁ _ f n hq hst hc ht hv hm hln =>
    have hsame : ln'.last_applied = h.node.last_applied :=
      calc ln'.last_applied = n.last_applied := hln.applied
        _ = ln₁.last_applied := hm.frame.1
        _ = h.node.last_applied := hq.applied
    exact hsame.le.trans (hle.trans hstands)
  | saved k i q hk => exact hle.trans hstands
  | front k i hk => exact hle.trans hstands

/-- A campaign that goes on has fewer grants than a quorum. -/
theorem countPreVote_below {quorum : Nat} {req req' : RequestVoteRequest}
    {pending pending' : List NodeId} {granted granted' : Nat}
    (heq : (.PreVote req' pending' granted' : SpawnedTask α) =
      countPreVote quorum req pending granted true) : granted' < quorum := by
  unfold countPreVote at heq
  rw [if_pos rfl] at heq
  split at heq
  · cases heq
  · obtain ⟨-, -, rfl⟩ := SpawnedTask.PreVote.inj heq
    omega

theorem Settled.step [DecidableEq α] (hset : Settled cfg h)
    (hpeers : cfg.cluster.peer_ids cfg.node_id ≠ [])
    (hmono : h.node.last_committed ≤ h'.node.last_committed)
    (hs : hostStep cfg sm h a = some h') : Settled cfg h' := by
  refine ⟨LogStep.applied_le (hostStep_cases hs).1 hset.applied hmono, ?_, ?_, ?_⟩
  · exact hostStep_targets hs (hset.applied.trans hmono) fun c hc => (hset.targets c hc).trans hmono
  · by_cases happly : a = .Apply
    · subst happly
      obtain ⟨⟨p, fsm⟩, hrun, rfl⟩ := Option.map_eq_some_iff.mp hs
      exact runApplier_behind hset.applier hrun
    · rw [(hostStep_aside hs happly).1]
      exact hset.applier.mono hmono
  · intro req pending granted hmem
    have hpos : 1 < quorumOf (cfg.cluster.peer_ids cfg.node_id) := by
      have := List.length_pos_iff.mpr hpeers
      unfold quorumOf
      dsimp only
      omega
    generalize ht : (.PreVote req pending granted : SpawnedTask α) = t at hmem
    cases hostStep_tasks hs t hmem with
    | kept hold =>
      subst ht
      exact hset.campaigns req pending granted hold
    | @followed k peer reply timeout task _ hk hf =>
      cases hf with
      | polled req' pending' pending'' granted' =>
        obtain ⟨rfl, -, rfl⟩ := SpawnedTask.PreVote.inj ht
        exact hset.campaigns _ _ _ (List.mem_of_getElem? hk)
      | granted req' pending' pending'' granted' src resp hreply hgrant =>
        exact countPreVote_below ht
      | _ => cases ht
    | @ticked timeout spawn _ hnew =>
      subst ht
      cases spawn with
      | PreVote req' =>
        obtain ⟨-, -, rfl⟩ := SpawnedTask.PreVote.inj (List.mem_singleton.mp hnew)
        exact hpos
      | Nothing => cases hnew
      | StepDown => cases List.mem_singleton.mp hnew
      | Campaign params => cases List.mem_singleton.mp hnew
      | Round params => cases List.mem_singleton.mp hnew
    | probed params unsent => cases ht
    | failed err => cases ht

/-! ## A run on its own -/

/-- The node after some time on its own: of what it has written only entries of its log are
gone, from the front and no further than the commit index. -/
structure Unmoved (h₁ h : SnapshotHost α S) : Prop where
  term : h.node.current_term = h₁.node.current_term
  vote : h.node.node.voted_for = h₁.node.node.voted_for
  commit : h.disk.last_committed = h₁.disk.last_committed
  committed : h.node.last_committed = h₁.node.last_committed
  log : ∃ i ≤ h₁.node.last_committed, ∀ k,
    h.disk.read_entry k = if 1 ≤ k ∧ k ≤ i then none else h₁.disk.read_entry k
  role : Waiting h.node

theorem Unmoved.start (hw : Waiting h.node) : Unmoved h h := by
  refine ⟨rfl, rfl, rfl, rfl, ⟨0, Nat.zero_le _, fun k => ?_⟩, hw⟩
  rw [if_neg (by omega)]

/-- A step of a waiting node on its own writes nothing but a horizon, or cuts the front of the
log. -/
theorem hostStep_alone [DecidableEq α] (hw : Waiting h.node) (hset : Settled cfg h)
    (hnone : .BecomeCandidate ∉ h.process.tasks) (hok : Alone h a)
    (hs : hostStep cfg sm h a = some h') :
    Still h.node h'.node ∨
      (∃ i q, h'.node = onto h.node (h.node.node.save_snapshot_metadata i q)) ∨
      ∃ i, .Saved i ∈ h.compactions ∧
        h'.node = onto h.node (h.node.node.write (SledStorage.truncate_log_front i)) := by
  have hchange : ∀ {res : Except String Nat} {sh : ConsensusShell α} {res' : Except Panic Unit},
      (h.process.shell.write fun ln => changeDepth res ln) = (sh, res') →
      Still h.node sh.inner := by
    intro res sh res' hw
    rw [ConsensusShell.inner_of_write hw]
    refine Still.afterHandler ?_
    cases res with
    | ok depth => exact .refl _
    | error e => exact (Still.refl _).poison
  have hanswer : ∀ {term index response_term timeout : Nat} {peer : NodeId}
      {sh : ConsensusShell α} {res : Except Panic (Except NodeError ReplicationAction)},
      (h.process.shell.write fun ln => process_replication_response ln term peer
        (.InstallSnapshot index response_term) timeout) = (sh, res) →
      response_term ≤ h.node.current_term → Still h.node sh.inner := by
    intro term index response_term timeout peer sh res hw' hle
    rw [ConsensusShell.inner_of_write hw']
    exact process_replication_response_still hw hle
  have hidle := prepare_probe_idle hw.not_leader
  cases hostStep_moves hs with
  | served hserve => exact hok.elim
  | accepted hinstall => exact hok.elim
  | declined hinstall hno => exact hok.elim
  | finalized hk hfinal => exact hok.elim
  | @ticked timeout sh res htick =>
    refine .inl ?_
    change Still _ sh.inner
    rw [ConsensusShell.inner_of_write htick]
    exact (tickLocked_still hw timeout).1.afterHandler
  | ran hk hrun =>
    refine .inl (TaskStep.still (runTask_ran hrun).step hw ?_ fun msg hmsg => (hok msg hmsg).1)
    rintro rfl
    exact hnone (List.mem_of_getElem? hk)
  | proposed data =>
    refine .inl (.of_eq ?_)
    change (h.process.shell.propose data).1.inner = _
    rw [ConsensusShell.propose_shell, ConsensusShell.write_inner]
    exact propose_idle hw.not_leader data
  | probed hprobe =>
    rw [hprobe] at hidle
    exact .inl (.of_eq hidle)
  | unprobed hprobe hno =>
    rw [hprobe] at hidle
    exact .inl (.of_eq hidle)
  | applied hrun => exact .inl (runApplier_still hset.applier hrun)
  | @saved k i q sh hk hsave =>
    rcases save_snapshot_metadata_cases hsave with ⟨-, heq⟩ | ⟨⟨p, herr⟩, -⟩
    · exact .inr (.inl ⟨i, q, heq⟩)
    · cases herr
  | @unsaved k i q sh p hk hsave =>
    rcases save_snapshot_metadata_cases hsave with ⟨hsaved, -⟩ | ⟨-, heq⟩
    · cases hsaved
    · refine .inl ?_
      change Still _ sh.inner
      rw [heq]
      exact (Still.refl _).poison
  | truncated hk => exact .inr (.inr ⟨_, List.mem_of_getElem? hk, rfl⟩)
  | thawed hk hthaw => exact .inl (hchange hthaw)
  | restored hk hfree hfsm => exact .inl (.refl _)
  | unrestored hk hfree hfsm => exact .inl (.refl _)
  | begun hfreeze => exact .inl (hchange hfreeze)
  | unbegun hfreeze => exact .inl (hchange hfreeze)
  | ended hpos hthaw => exact .inl (hchange hthaw)
  | answered hreply hno => exact .inl (hanswer hreply hok)
  | unanswered hreply => exact .inl (hanswer hreply hok)

theorem Unmoved.still {h₁ : SnapshotHost α S} (hu : Unmoved h₁ h) (hstill : Still h.node h'.node) :
    Unmoved h₁ h' := by
  have hdisk : h'.disk = h.disk := by
    unfold SnapshotHost.disk RaftNode.disk
    rw [hstill.store]
  refine ⟨?_, ?_, ?_, hstill.committed.trans hu.committed, ?_, hstill.waits hu.role⟩
  · change h'.disk.current_term = _
    rw [hdisk]
    exact hu.term
  · change h'.disk.voted_for = _
    rw [hdisk]
    exact hu.vote
  · rw [hdisk]
    exact hu.commit
  · rw [hdisk]
    exact hu.log

/-- The cuts of several compactions are one cut, at the highest of their targets. -/
theorem Unmoved.front {h₁ : SnapshotHost α S} (hu : Unmoved h₁ h) {i : Nat}
    (hi : i ≤ h.node.last_committed)
    (hnode : h'.node = onto h.node (h.node.node.write (SledStorage.truncate_log_front i))) :
    Unmoved h₁ h' := by
  have hdisk : h'.disk = h.disk.truncate_log_front i := by
    unfold SnapshotHost.disk
    rw [hnode]
    rfl
  have hrole : Waiting h'.node := by
    rw [hnode]
    exact hu.role
  have hcommitted : h'.node.last_committed = h.node.last_committed := by
    rw [hnode]
    rfl
  obtain ⟨j, hj, hlog⟩ := hu.log
  refine ⟨?_, ?_, ?_, hcommitted.trans hu.committed, ⟨max i j, ?_, fun k => ?_⟩, hrole⟩
  · change h'.disk.current_term = _
    rw [hdisk]
    exact hu.term
  · change h'.disk.voted_for = _
    rw [hdisk]
    exact hu.vote
  · rw [hdisk]
    exact hu.commit
  · rw [hu.committed] at hi
    omega
  · have hk := hlog k
    unfold SledStorage.read_entry at hk ⊢
    rw [hdisk, truncate_log_front_get?, hk]
    split_ifs <;> first | rfl | omega

theorem Unmoved.metadata {h₁ : SnapshotHost α S} (hu : Unmoved h₁ h) {i q : Nat}
    (hnode : h'.node = onto h.node (h.node.node.save_snapshot_metadata i q)) :
    Unmoved h₁ h' := by
  have hdisk : h'.disk = h.disk.save_snapshot_metadata i q := by
    unfold SnapshotHost.disk
    rw [hnode]
    rfl
  have hrole : Waiting h'.node := by
    rw [hnode]
    exact hu.role
  have hcommitted : h'.node.last_committed = h.node.last_committed := by
    rw [hnode]
    rfl
  refine ⟨?_, ?_, ?_, hcommitted.trans hu.committed, ?_, hrole⟩
  · change h'.disk.current_term = _
    rw [hdisk]
    exact hu.term
  · change h'.disk.voted_for = _
    rw [hdisk]
    exact hu.vote
  · rw [hdisk]
    exact hu.commit
  · obtain ⟨j, hj, hlog⟩ := hu.log
    refine ⟨j, hj, fun k => ?_⟩
    rw [hdisk]
    exact hlog k

/-- Without a grant no campaign gets its quorum. -/
theorem hostStep_no_quorum [DecidableEq α] (hset : Settled cfg h)
    (hnone : .BecomeCandidate ∉ h.process.tasks) (hok : Alone h a)
    (hs : hostStep cfg sm h a = some h') : .BecomeCandidate ∉ h'.process.tasks := by
  intro hmem
  generalize ht : (.BecomeCandidate : SpawnedTask α) = t at hmem
  cases hostStep_tasks hs t hmem with
  | kept hold =>
    subst ht
    exact hnone hold
  | @followed k peer reply timeout task _ hk hf =>
    cases hf with
    | granted req pending pending' granted src resp hreply hgrant =>
      have hdenied := (hok _ hreply).2 src req resp rfl
      rw [hgrant] at hdenied
      cases hdenied
    | stood req granted hquorum =>
      have hbelow := hset.campaigns req [] granted (List.mem_of_getElem? hk)
      omega
    | _ => cases ht
  | @ticked timeout spawn _ hnew =>
    subst ht
    cases spawn with
    | Nothing => cases hnew
    | _ => cases List.mem_singleton.mp hnew
  | probed params unsent => cases ht
  | failed err => cases ht

/-- What a run on its own keeps, from the host `h₁` on. -/
structure Solitary (cfg : HostConfig) (h₁ h : SnapshotHost α S) : Prop where
  settled : Settled cfg h
  quorum : .BecomeCandidate ∉ h.process.tasks
  unmoved : Unmoved h₁ h

theorem Solitary.step [DecidableEq α] {h₁ : SnapshotHost α S} (hsol : Solitary cfg h₁ h)
    (hpeers : cfg.cluster.peer_ids cfg.node_id ≠ []) (hok : Alone h a)
    (hs : hostStep cfg sm h a = some h') : Solitary cfg h₁ h' := by
  have hquorum := hostStep_no_quorum hsol.settled hsol.quorum hok hs
  rcases hostStep_alone hsol.unmoved.role hsol.settled hsol.quorum hok hs with
    hstill | ⟨i, q, hnode⟩ | ⟨i, hsaved, hnode⟩
  · exact ⟨hsol.settled.step hpeers hstill.committed.ge hs, hquorum, hsol.unmoved.still hstill⟩
  · have hcommitted : h'.node.last_committed = h.node.last_committed := by
      rw [hnode]
      rfl
    exact ⟨hsol.settled.step hpeers hcommitted.ge hs, hquorum, hsol.unmoved.metadata hnode⟩
  · have hcommitted : h'.node.last_committed = h.node.last_committed := by
      rw [hnode]
      rfl
    have hi := hsol.settled.targets _ hsaved
    exact ⟨hsol.settled.step hpeers hcommitted.ge hs, hquorum, hsol.unmoved.front hi hnode⟩

/-- A node that is cut off while it waits keeps its term, its vote and its commit index, loses
entries to compactions only, and goes on waiting until it halts. -/
theorem isolated_node_unmoved [DecidableEq α] {h₀ h₁ h₂ : SnapshotHost α S}
    (hpeers : cfg.cluster.peer_ids cfg.node_id ≠ []) (hboot : Booted cfg sm h₀)
    (hbefore : HostRun cfg sm (CommitStands cfg sm) h₀ h₁)
    (hrole : h₁.node.node_role = .Follower ∨ h₁.node.node_role = .PreCandidate)
    (hquorum : .BecomeCandidate ∉ h₁.process.tasks)
    (hrun : HostRun cfg sm Alone h₁ h₂) : Unmoved h₁ h₂ := by
  have hsettled : Settled cfg h₁ :=
    hbefore.invariant (fun _ _ h' hset hstands hs => hset.step hpeers (hstands h' hs) hs)
      hboot.settled
  have hw : Waiting h₁.node := hrole.imp id .inl
  have hsol : Solitary cfg h₁ h₂ :=
    hrun.invariant (fun _ _ _ hsol hok hs => hsol.step hpeers hok hs) ⟨hsettled, hquorum, .start hw⟩
  exact hsol.unmoved

/-! ## What an isolated node can still do -/

def firstOfThree : HostConfig := ⟨campaigns.threeMembers, 0, 0⟩

/-- A state machine of no content, which accepts every entry or none. -/
def judge (accepts : Bool) : SnapshotMachine Unit Unit :=
  ⟨⟨(), fun _ _ _ => if accepts then .ok () else .error "refused", fun _ => 0⟩,
    fun _ _ _ => .ok ()⟩

/-- A first start, about to lose patience. -/
def freshHost : SnapshotHost Unit Unit :=
  ⟨⟨.new ⟨⟨0, .settled .new, 0, 0, .Follower ⟨none, 0, 1⟩⟩, 0, 5⟩, .Idle, []⟩, (), 0, [], [], 0⟩

theorem freshHost_booted (accepts : Bool) : Booted firstOfThree (judge accepts) freshHost :=
  ⟨1, .new, (), _, rfl, rfl⟩

/-- The pre-vote of the host, which a peer denies and nobody else answers; then it steps down. -/
def denied : List (HostAct Unit) :=
  .Tick 10 :: .RunTask 0 2 (some (.PreVoteReply 2 ⟨0, 0, 0, 0⟩ ⟨0, false⟩)) 10 ::
    .RunTask 0 1 none 10 :: .replicate 8 (.Tick 10) ++ [.RunTask 0 0 none 10]

theorem isolated_node_unmoved_denied :
    ∃ h, exec (hostStep firstOfThree (judge true)) freshHost denied = some h ∧
      h.process.tasks = [.PreVote ⟨0, 0, 0, 0⟩ [] 1] ∧ Unmoved freshHost h := by
  have hreach := (Option.some_get
    (x := exec (hostStep firstOfThree (judge true)) freshHost denied) (by decide)).symm
  refine ⟨_, hreach, by decide, isolated_node_unmoved (by decide) (freshHost_booted true) (.refl _)
    (.inl rfl) (by decide) (run_of_exec denied ?_ hreach)⟩
  intro h a ha
  simp only [denied, List.cons_append, List.mem_cons, List.mem_append, List.mem_replicate,
    List.not_mem_nil, or_false] at ha
  rcases ha with rfl | rfl | rfl | ⟨-, rfl⟩ | rfl
  · exact trivial
  · intro msg hmsg
    obtain rfl := Option.some.inj hmsg
    refine ⟨Nat.zero_le _, fun src req resp heq => ?_⟩
    obtain ⟨-, -, rfl⟩ := Message.PreVoteReply.inj heq
    rfl
  · intro msg hmsg
    cases hmsg
  · exact trivial
  · intro msg hmsg
    cases hmsg

/-- One entry from the leader of term 1, which is committed. -/
def received : HostAct Unit := .Deliver (.AppendEntries 0 ⟨1, 1, 0, 0, [⟨1, 1, ()⟩], 1⟩) 10

/-- The entry is applied, and the log is compacted up to it. -/
def compacted : List (HostAct Unit) := [.Tick 10, .SaveMetadata 0, .TruncateFront 0]

def granted : List (HostAct Unit) :=
  [.Tick 10, .RunTask 0 2 (some (.PreVoteReply 2 ⟨0, 0, 0, 0⟩ ⟨0, true⟩)) 10]

/-- A run on its own that takes only steps of the node itself. -/
theorem alone_run {sm : SnapshotMachine Unit Unit} {h₁ h₂ : SnapshotHost Unit Unit}
    (as : List (HostAct Unit))
    (hown : ∀ a ∈ as, a = .Apply ∨ a ∈ compacted ∨ ∃ k, a = .RunTask k 0 none 10)
    (h : exec (hostStep firstOfThree sm) h₁ as = some h₂) :
    HostRun firstOfThree sm Alone h₁ h₂ := by
  refine run_of_exec as (fun h a ha => ?_) h
  rcases hown a ha with rfl | hcompacted | ⟨k, rfl⟩
  · exact trivial
  · simp only [compacted, List.mem_cons, List.not_mem_nil, or_false] at hcompacted
    rcases hcompacted with rfl | rfl | rfl <;> exact trivial
  · intro msg hmsg
    cases hmsg

/-- A follower loses its log to a compaction; another one halts because its state machine
refuses an entry; and a pre-candidate that has its quorum already stands for the next term. -/
theorem isolated_nodes_move :
    (∃ h₁ h₂, exec (hostStep firstOfThree (judge true)) freshHost
          (received :: .replicate 4 .Apply) = some h₁ ∧
        h₁.node.node_role = .Follower ∧ HostRun firstOfThree (judge true) Alone h₁ h₂ ∧
        h₁.disk.read_entry 1 = some ⟨1, 1, ()⟩ ∧ h₂.disk.read_entry 1 = none) ∧
      (∃ h₁ h₂, exec (hostStep firstOfThree (judge false)) freshHost [received] = some h₁ ∧
        h₁.node.node_role = .Follower ∧ HostRun firstOfThree (judge false) Alone h₁ h₂ ∧
        h₂.node.node_role = .Poisoned) ∧
      ∃ h₁ h₂, exec (hostStep firstOfThree (judge true)) freshHost granted = some h₁ ∧
        h₁.node.node_role = .PreCandidate ∧ HostRun firstOfThree (judge true) Alone h₁ h₂ ∧
        h₁.node.current_term = 0 ∧ h₂.node.current_term = 1 := by
  refine ⟨?_, ?_, ?_⟩
  · have h₁ := (Option.some_get (x := exec (hostStep firstOfThree (judge true)) freshHost
      (received :: .replicate 4 .Apply)) (by decide)).symm
    have h₂ := (Option.some_get (x := exec (hostStep firstOfThree (judge true))
      ((exec (hostStep firstOfThree (judge true)) freshHost
        (received :: .replicate 4 .Apply)).get (by decide)) compacted) (by decide)).symm
    exact ⟨_, _, h₁, by decide, alone_run compacted (fun a ha => .inr (.inl ha)) h₂, by decide,
      by decide⟩
  · have h₁ := (Option.some_get (x := exec (hostStep firstOfThree (judge false)) freshHost
      [received]) (by decide)).symm
    have h₂ := (Option.some_get (x := exec (hostStep firstOfThree (judge false))
      ((exec (hostStep firstOfThree (judge false)) freshHost [received]).get (by decide))
      (.replicate 3 .Apply)) (by decide)).symm
    exact ⟨_, _, h₁, by decide,
      alone_run _ (fun a ha => .inl (List.eq_of_mem_replicate ha)) h₂, by decide⟩
  · have h₁ := (Option.some_get (x := exec (hostStep firstOfThree (judge true)) freshHost
      granted) (by decide)).symm
    have h₂ := (Option.some_get (x := exec (hostStep firstOfThree (judge true))
      ((exec (hostStep firstOfThree (judge true)) freshHost granted).get (by decide))
      [.RunTask 0 0 none 10]) (by decide)).symm
    have hown : ∀ a ∈ [HostAct.RunTask 0 0 none 10], a = .Apply ∨ a ∈ compacted ∨
        ∃ k, a = .RunTask k 0 none 10 := fun a ha => .inr (.inr ⟨0, List.mem_singleton.mp ha⟩)
    exact ⟨_, _, h₁, by decide, alone_run _ hown h₂, by decide, by decide⟩

end raft_engine.isolation
