-- Where a node that does not lead sends its clients. Only a request of the leader of the
-- term teaches a follower who leads; a request comes from a round, and a round from a node
-- that led in its term. So the address that a client is given is that of a member that was
-- elected, and nobody else ever leads in that term.
import LactoSensus.Rounds
import LactoSensus.Safety
import LactoSensus.Transport

open common.types
open machine
open ordmap
open raft_engine.storage
open raft_engine.node
open raft_engine.engine
open raft_engine.consensus
open raft_engine.shell
open raft_engine.cluster
open raft_engine.roles
open raft_engine.refinement
open raft_engine.transport (PeerManager)
open raft (Grows)

namespace raft_engine.service

variable {α S X : Type} {ln ln₁ ln' : LogicalNode α} {sh sh' : ConsensusShell α}

/-! ## The handle -/

structure ConsensusAuthority where
  is_leader : Bool
  is_poisoned : Bool
  last_committed : Nat
  leader_hint : String
  rejection_reason : String
deriving DecidableEq, Repr

def follower_redirection (peer_manager : PeerManager) : Option NodeId → String × String
  | some id =>
    match peer_manager.peers.get? id with
    | some addr => (addr, s!"Node is a Follower. Retry with Leader at NodeID {id}.")
    | none => ("", s!"Follower of {id}, but address is missing.")
  | none => ("", "Node is a Follower; leader is unknown.")

def calculate_redirection (peer_manager : PeerManager) (role : NodeRole)
    (leader_hint : Option NodeId) : String × String :=
  match role with
  | .Follower => follower_redirection peer_manager leader_hint
  | .PreCandidate => ("", "Pre-election in progress. No leader established.")
  | .Candidate => ("", "Election in progress. No leader established.")
  | .Leader => ("", "")
  | .Poisoned => ("", "Node is in a poisoned state.")

/-- The channel is all that is read. -/
def authority (peer_manager : PeerManager) (progress : ConsensusProgress) : ConsensusAuthority :=
  match calculate_redirection peer_manager progress.role progress.leader_hint with
  | (leader_hint, rejection_reason) =>
    ⟨progress.role = .Leader, progress.role = .Poisoned, progress.last_committed, leader_hint,
      rejection_reason⟩

/-! ## What a handler learns of the leader -/

/-- The node that a follower takes for the leader of its term. -/
def leaderOf (ln : LogicalNode α) : Option NodeId :=
  match ln.node.state with
  | .Follower f => f.leader_id
  | _ => none

/-- A leader that is known afterwards was known before, in the same term, or has been told. -/
def Learns (told : NodeId → Nat → Prop) (ln ln' : LogicalNode α) : Prop :=
  ∀ l, leaderOf ln' = some l →
    leaderOf ln = some l ∧ ln'.current_term = ln.current_term ∨ told l ln'.current_term

variable {told : NodeId → Nat → Prop}

theorem Learns.refl (ln : LogicalNode α) : Learns told ln ln := fun _ hl => .inl ⟨hl, rfl⟩

theorem Learns.trans (h : Learns told ln ln₁) (h' : Learns told ln₁ ln') : Learns told ln ln' := by
  intro l hl
  rcases h' l hl with ⟨hl₁, hterm'⟩ | htold
  · rcases h l hl₁ with ⟨hl₀, hterm⟩ | htold
    · exact .inl ⟨hl₀, hterm'.trans hterm⟩
    · rw [← hterm'] at htold
      exact .inr htold
  · exact .inr htold

/-- Nobody is taken for the leader. -/
theorem Learns.of_none (h : leaderOf ln' = none) : Learns told ln ln' := by
  intro l hl
  rw [h] at hl
  cases hl

theorem leaderOf_halted (hp : ln.is_poisoned = true) : leaderOf ln = none := by
  unfold leaderOf
  split
  · rename_i f hst
    unfold LogicalNode.is_poisoned at hp
    rw [hst] at hp
    cases of_decide_eq_true hp
  · rfl

theorem Learns.poison (ln ln' : LogicalNode α) : Learns told ln ln'.poison :=
  .of_none rfl

theorem Learns.afterHandler {r : Handled α X} (h : Learns told ln r.1) :
    Learns told ln (afterHandler r) := by
  obtain ⟨ln', res⟩ := r
  cases res with
  | ok x => exact h
  | error p => exact .poison ln ln'

/-- A handler that leaves the role and the term alone. -/
theorem Learns.of_state (hstate : ln'.node.state = ln.node.state)
    (hterm : ln'.current_term = ln.current_term) : Learns told ln ln' := by
  intro l hl
  unfold leaderOf at hl ⊢
  rw [hstate] at hl
  exact .inl ⟨hl, hterm⟩

theorem into_follower_learns (ln : LogicalNode α) {term : Nat} {leader_id : Option NodeId}
    (timeout : Nat) (htold : ∀ l, leader_id = some l → told l term) :
    Learns told ln (ln.into_follower term leader_id timeout).1 := by
  unfold LogicalNode.into_follower RaftNode.try_into_follower RaftNode.advance_term
  dsimp only
  split_ifs with hp hlt hgt
  · exact .refl ln
  · exact .poison ln _
  · exact fun l hl => .inr (htold l hl)
  · intro l hl
    have hsame : ln.current_term = term := by
      have : ¬term < ln.current_term := hlt
      have : ¬ln.current_term < term := hgt
      omega
    refine .inr ?_
    change told l ln.current_term
    rw [hsame]
    exact htold l hl

theorem stepDown_learns (ln : LogicalNode α) (timeout : Nat) :
    Learns told ln (stepDown timeout ln).1 := by
  unfold stepDown
  split
  · exact .refl ln
  · exact into_follower_learns ln timeout (by simp)

theorem observe_pre_vote_term_learns (ln : LogicalNode α) (peer_term timeout : Nat) :
    Learns told ln (observe_pre_vote_term ln peer_term timeout).1 := by
  rcases observe_pre_vote_term_cases ln peer_term timeout with heq | heq
  · rw [heq]
    exact .refl ln
  · rw [heq]
    exact into_follower_learns ln timeout (by simp)

theorem begin_campaign_learns (ln : LogicalNode α) (timeout : Nat) :
    Learns told ln (begin_campaign ln timeout).1 := by
  unfold begin_campaign
  split
  · exact .refl ln
  rcases into_candidate_cases ln timeout with ⟨heq, -⟩ | ⟨p, heq⟩ | ⟨heq, -⟩
  · rw [heq]
    exact .refl ln
  · rw [heq]
    exact .poison ln ln
  · rw [heq]
    exact .of_none rfl

theorem into_leader_learns (ln : LogicalNode α) (peer_ids : List NodeId) :
    Learns told ln (ln.into_leader peer_ids).1 := by
  unfold LogicalNode.into_leader
  split
  · split
    · exact .of_none rfl
    · exact .poison ln ln
  · exact .refl ln

theorem tickLocked_learns (ln : LogicalNode α) (timeout : Nat) :
    Learns told ln (tickLocked ln timeout).1 := by
  have htick : Learns told ln ln.tick.1 := .of_state rfl rfl
  unfold tickLocked
  generalize ln.tick = r at htick
  obtain ⟨ln₁, action⟩ := r
  dsimp only
  split
  · exact htick
  cases action with
  | StartElection =>
    have hstood := htick.trans (begin_campaign_learns ln₁ timeout)
    dsimp only
    generalize begin_campaign ln₁ timeout = r at hstood
    obtain ⟨ln₂, e | params⟩ := r <;> exact hstood
  | StartPreVote =>
    refine htick.trans ?_
    dsimp only
    unfold LogicalNode.into_pre_candidate
    split
    · exact .of_none rfl
    · exact .refl ln₁
  | SendHeartbeat | StepDown | Stop | None => exact htick

theorem process_vote_response_learns (ln : LogicalNode α) (term : Nat) (peer_ids : List NodeId)
    (peer_id : NodeId) (resp : RequestVoteResponse) (timeout : Nat) :
    Learns told ln (process_vote_response ln term peer_ids peer_id resp timeout).1 := by
  by_cases hgt : resp.term > term
  · rw [process_vote_response_overtaken hgt]
    exact into_follower_learns ln timeout (by simp)
  unfold process_vote_response
  rw [if_neg hgt]
  split
  swap
  · exact .refl ln
  split
  · exact .refl ln
  split
  swap
  · exact .refl ln
  split
  swap
  · exact .refl ln
  rename_i c hst hterm
  have hvoted : Learns told ln (ln.withRole (ln.node.transition (c.add_vote peer_id)) .Candidate) :=
    .of_none rfl
  dsimp only
  split
  · have hled := hvoted.trans (into_leader_learns _ peer_ids)
    generalize LogicalNode.into_leader _ peer_ids = r at hled
    obtain ⟨ln', res⟩ := r
    cases res <;> exact hled
  · exact hvoted

theorem propose_learns (ln : LogicalNode α) (command : α) :
    Learns told ln (ln.propose command).1 := by
  unfold LogicalNode.propose
  split
  · rename_i l hst
    generalize (ln.node.transition l).propose command = r
    obtain ⟨n, e | index⟩ := r
    · exact .poison ln _
    · exact .of_none rfl
  · exact .refl ln
  · exact .refl ln

theorem prepare_probe_learns (sh : ConsensusShell α) :
    Learns told sh.inner sh.prepare_probe.1.inner := by
  unfold ConsensusShell.prepare_probe
  rw [ConsensusShell.write_inner]
  apply Learns.afterHandler
  split
  · exact .refl _
  · exact .of_none rfl
  · exact .refl _

theorem prepare_replication_learns (ln : LogicalNode α) (peer_id : NodeId)
    (params : ReplicationRoundParams) :
    Learns told ln (prepare_replication ln peer_id params).1 := by
  have hbuild : Learns told ln (build_append_entries_request ln peer_id params.term params.node_id
      params.last_committed).1 := by
    unfold build_append_entries_request
    split
    · exact .refl ln
    dsimp only
    split
    · exact .refl ln
    split
    · exact .poison ln ln
    · exact .refl ln
  have hstrategy : Learns told ln (determine_replication_strategy ln peer_id params).1 := by
    unfold determine_replication_strategy
    split
    · dsimp only
      split
      · exact .refl ln
      · generalize build_append_entries_request ln peer_id params.term params.node_id
          params.last_committed = r at hbuild
        obtain ⟨ln', p | e | req⟩ := r <;> exact hbuild
    · exact .refl ln
  unfold prepare_replication
  generalize determine_replication_strategy ln peer_id params = r at hstrategy
  obtain ⟨ln', p | e | st⟩ := r
  · exact hstrategy
  · exact .poison ln ln'
  · exact hstrategy

theorem update_leader_last_committed_learns (ln : LogicalNode α) :
    Learns told ln (update_leader_last_committed ln).1 := by
  have hcommit : ∀ index, Learns told ln (ln.advance_last_committed index).1 := by
    intro index
    unfold LogicalNode.advance_last_committed RaftNode.advance_last_committed
      RaftNode.update_commit_index_only
    dsimp only
    split_ifs
    · exact .refl ln
    · exact .refl ln
    · exact .poison ln _
    · exact .of_state rfl rfl
    · exact .refl ln
  unfold update_leader_last_committed
  split
  · exact .refl ln
  split
  · dsimp only
    split
    · exact hcommit _
    · exact .refl ln
  · exact .refl ln

theorem process_replication_response_learns (ln : LogicalNode α) (term : Nat) (peer_id : NodeId)
    (outcome : ReplicationOutcome) (timeout : Nat) :
    Learns told ln (process_replication_response ln term peer_id outcome timeout).1 := by
  by_cases hgt : outcome.term > term
  · rw [process_replication_response_overtaken hgt]
    exact into_follower_learns ln timeout (by simp)
  unfold process_replication_response
  rw [if_neg hgt]
  split
  · exact .refl ln
  split
  swap
  · exact .refl ln
  rename_i l hst
  split
  swap
  · exact .refl ln
  dsimp only
  generalize l.acknowledge_heartbeat peer_id ((l.next_index.entries.length + 1) / 2 + 1) = l₁
  cases reconcile_peer l₁ peer_id term outcome with
  | error e => exact .of_none rfl
  | ok r =>
    obtain ⟨l₂, updated⟩ := r
    cases updated with
    | false => exact .of_none rfl
    | true =>
      have hled : Learns told ln (ln.withRole (ln.node.transition l₂) .Leader) := .of_none rfl
      have hcounted := hled.trans (update_leader_last_committed_learns _)
      have hagain : (ln.withRole (ln.node.transition l₁) .Leader).withRole
          ((ln.withRole (ln.node.transition l₁) .Leader).node.transition l₂) .Leader =
          ln.withRole (ln.node.transition l₂) .Leader := rfl
      dsimp only
      rw [if_pos rfl, hagain]
      generalize update_leader_last_committed _ = r at hcounted
      obtain ⟨ln', res⟩ := r
      cases res <;> exact hcounted

theorem handle_request_vote_learns (ln : LogicalNode α) (candidate_id : NodeId)
    (term last_log_index last_log_term timeout : Nat) :
    Learns told ln
      (ln.handle_request_vote candidate_id term last_log_index last_log_term timeout).1 := by
  have hdecide : ∀ ln : LogicalNode α, Learns told ln
      (ln.decideVote candidate_id term last_log_index last_log_term).1 := by
    intro ln
    unfold LogicalNode.decideVote
    split
    swap
    · exact .refl ln
    rename_i f hst
    unfold RaftNode.attempt_grant_vote
    -- a vote is written under the term that the node is in
    split_ifs with hcond
    · obtain ⟨rfl, -, -⟩ := hcond
      intro l hl
      refine .inl ⟨?_, rfl⟩
      unfold leaderOf
      rw [hst]
      exact hl
    · intro l hl
      refine .inl ⟨?_, rfl⟩
      unfold leaderOf
      rw [hst]
      exact hl
  unfold LogicalNode.handle_request_vote
  split
  · exact .refl ln
  split
  · have hdown : Learns told ln (ln.into_follower term none timeout).1 :=
      into_follower_learns ln timeout (by simp)
    generalize ln.into_follower term none timeout = r at hdown
    obtain ⟨ln₁, p | u⟩ := r
    · exact hdown
    · exact hdown.trans (hdecide ln₁)
  · exact hdecide ln

/-- A reconciliation leaves the role alone. -/
theorem merged_state {m m' : RaftNode α Follower} {entries : List (LogEntry α)}
    {leader_commit : Nat} (hm : Merged m entries leader_commit m') : m'.state = m.state := by
  have hpersist : ∀ (k : RaftNode α Follower) (es : List (LogEntry α)),
      (k.persistAppend es leader_commit).state = k.state := by
    intro k es
    unfold RaftNode.persistAppend
    dsimp only
    split <;> rfl
  cases hm with
  | kept => rfl
  | cut e he => rfl
  | appended es hes hsub => exact hpersist m es
  | replaced e he es hes hsub => exact hpersist (m.truncate_log e.index) es

theorem handle_append_entries_learns (ln : LogicalNode α) {leader_id : NodeId} {req_term : Nat}
    (htold : told leader_id req_term) (prev_log_index prev_log_term : Nat)
    (entries : List (LogEntry α)) (leader_commit timeout : Nat) :
    Learns told ln (ln.handle_append_entries leader_id req_term prev_log_index prev_log_term
      entries leader_commit timeout).1 := by
  have hvalid : Learns told ln
      (ln.validate_leader_rpc_term req_term leader_id "AppendEntries" timeout).1 := by
    have hdemote : Learns told ln (ln.into_follower req_term (some leader_id) timeout).1 :=
      into_follower_learns ln timeout fun l hl => Option.some.inj hl ▸ htold
    rw [← followed_eq] at hdemote
    unfold LogicalNode.validate_leader_rpc_term
    dsimp only
    split
    · exact .refl ln
    split
    · exact .refl ln
    split
    · exact hdemote
    rename_i hp hlt hgt
    have hsame : ln.current_term = req_term := by omega
    split
    · exact hdemote
    · exact .poison ln ln
    · intro l hl
      obtain rfl : leader_id = l := Option.some.inj hl
      refine .inr ?_
      change told leader_id ln.current_term
      rw [hsame]
      exact htold
    · exact hdemote
    · exact .refl ln
  unfold LogicalNode.handle_append_entries
  dsimp only
  generalize ln.validate_leader_rpc_term req_term leader_id "AppendEntries" timeout = r at hvalid
  obtain ⟨ln', p | res⟩ := r
  · exact hvalid
  cases res with
  | Stale => exact hvalid
  | Valid =>
    dsimp only
    have hbeat : Learns told ln ln'.reset_heartbeat := by
      refine hvalid.trans ?_
      unfold LogicalNode.reset_heartbeat
      split
      · rename_i f hst
        intro l hl
        refine .inl ⟨?_, rfl⟩
        unfold leaderOf
        rw [hst]
        exact hl
      · exact .of_none rfl
      · exact .refl ln'
    generalize ln'.reset_heartbeat = ln₁ at hbeat
    split
    swap
    · exact hbeat
    rename_i f hst
    refine hbeat.trans ?_
    have hkept : ((ln₁.node.transition f).reconcile_log prev_log_index prev_log_term entries
          leader_commit).1.state = f ∧
        ((ln₁.node.transition f).reconcile_log prev_log_index prev_log_term entries
          leader_commit).1.current_term = ln₁.current_term := by
      rcases (ln₁.node.transition f).reconcile_log_merged prev_log_index prev_log_term entries
        leader_commit with heq | ⟨-, hm⟩
      · rw [heq]
        exact ⟨rfl, rfl⟩
      · exact ⟨merged_state hm, hm.hard_state.2⟩
    generalize (ln₁.node.transition f).reconcile_log prev_log_index prev_log_term entries
      leader_commit = r at hkept
    obtain ⟨m, e | result⟩ := r
    · exact .poison ln₁ _
    · refine .of_state ?_ hkept.2
      rw [hst]
      exact congrArg RoleState.Follower hkept.1

/-! ## What a host learns in a step -/

theorem Learns.write {f : LogicalNode α → Handled α X} (h : Learns told sh.inner (f sh.inner).1) :
    Learns told sh.inner (sh.write f).1.inner := by
  rw [ConsensusShell.write_inner]
  exact h.afterHandler

variable {cfg : Config} {sm : StateMachine α S} {c c' : Cluster α S} {a a' : Protocol α}
  {n : NodeId}

/-- No task is told of a leader. -/
theorem TaskStep.learns {peer : NodeId} {reply : Option (Message α)} {timeout : Nat}
    {task : SpawnedTask α} (h : TaskStep cfg n peer reply timeout sh task sh') :
    Learns told sh.inner sh'.inner := by
  cases h with
  | idle task => exact .refl _
  | steppedDown => exact .write (stepDown_learns _ timeout)
  | observed req pending pre_votes_granted resp hreply hgt =>
    exact .write (observe_pre_vote_term_learns _ resp.term timeout)
  | stood => exact .write (begin_campaign_learns _ timeout)
  | counted params pending votes_granted resp hreply =>
    exact .write (process_vote_response_learns _ _ _ _ resp timeout)
  | promoted => exact .write (into_leader_learns _ _)
  | prepared params unsent awaiting => exact .write (prepare_replication_learns _ peer params)
  | responded params unsent awaiting req resp hreply =>
    exact .write (process_replication_response_learns _ _ _ _ timeout)
  | failed err =>
    exact .write (f := fun ln => (ln.apply_fatal err : Handled α Unit)) (.poison _ _)

/-- A request to the node has named the leader of the term. -/
def Taught (network : List (Message α)) (n : NodeId) (l t : Nat) : Prop :=
  ∃ req, Message.AppendEntries n req ∈ network ∧ req.leader_id = l ∧ req.term = t

theorem perform_learns [DecidableEq α] {act : Act α} {e : Effect α S}
    (he : perform cfg sm c act = some e) :
    ∃ p, c.process e.host = some p ∧
      Learns (Taught c.network e.host) p.shell.inner e.process.shell.inner := by
  obtain ⟨p, hp, hacted⟩ := perform_acted he
  refine ⟨p, hp, ?_⟩
  cases hacted with
  | halted hres | ticked hres =>
    dsimp only
    exact .write (tickLocked_learns _ _)
  | ran htask hrun => exact TaskStep.learns (runTask_ran hrun).step
  | delivered hmsg hserve =>
    dsimp only
    cases serve_step hserve with
    | preVoted dst req =>
      rw [ConsensusShell.write_inner, handle_pre_vote_idle]
      exact .refl _
    | voted dst req => exact .write (handle_request_vote_learns _ _ _ _ _ _)
    | appended dst req =>
      exact .write (handle_append_entries_learns _ ⟨req, List.mem_of_getElem? hmsg, rfl, rfl⟩
        _ _ _ _ _)
  | proposed n data =>
    dsimp only
    rw [p.shell.propose_shell]
    exact .write (propose_learns _ data)
  | probed hres hround => exact prepare_probe_learns _
  | joined n => exact prepare_probe_learns _
  | applied hrun =>
    cases runApplier_step hrun with
    | start | fetch | finish | apply => exact .refl _
    | advance happlied hadv hsh hpub =>
      dsimp only
      rw [hsh]
      exact .of_state hadv.state hadv.term
    | fatal hs hpoison => exact .of_none (leaderOf_halted hpoison)

/-! ## Who starts a round -/

/-- Only a leader begins a round, and the round is one of its term. -/
theorem tickLocked_leads {timeout : Nat} {spawn : TickSpawn} {peers : List NodeId}
    {params : ReplicationRoundParams} {unsent : List NodeId}
    {awaiting : List (NodeId × AppendEntriesRequest α)}
    (hres : (tickLocked ln timeout).2 = .ok spawn)
    (hmem : .Replication params unsent awaiting ∈ (spawn.tasks peers : List (SpawnedTask α))) :
    ln.node_role = .Leader ∧ params.term = ln.current_term := by
  have hbeat := leader_of_heartbeat ln
  have hrole : ln.tick.1.node.state = ln.node.state := rfl
  have hterm : ln.tick.1.current_term = ln.current_term := rfl
  unfold tickLocked at hres
  generalize ln.tick = r at hres hbeat hrole hterm
  obtain ⟨ln₁, action⟩ := r
  dsimp only at hres
  split at hres
  · cases hres
  cases action with
  | StartElection =>
    dsimp only at hres
    generalize begin_campaign ln₁ timeout = r at hres
    obtain ⟨ln₂, e | params'⟩ := r
    · cases hres
    · obtain rfl := Except.ok.inj hres
      simp [TickSpawn.tasks] at hmem
  | SendHeartbeat =>
    obtain rfl := Except.ok.inj hres
    obtain ⟨rfl, -, -⟩ := by simpa [TickSpawn.tasks] using hmem
    obtain ⟨l, hl⟩ := hbeat rfl
    refine ⟨?_, hterm⟩
    unfold LogicalNode.node_role
    rw [← hrole, hl]
    rfl
  | StartPreVote | StepDown | Stop | None =>
    obtain rfl := Except.ok.inj hres
    simp [TickSpawn.tasks] at hmem

theorem prepare_probe_leads {probe : ReadProbe} {params : ReplicationRoundParams}
    (hres : sh.prepare_probe.2 = .ok (.ok probe)) (hround : probe.round = some params) :
    sh.inner.node_role = .Leader ∧ params.term = sh.inner.current_term := by
  unfold ConsensusShell.prepare_probe at hres
  rw [ConsensusShell.write_result] at hres
  split at hres
  · cases hres
  · rename_i l hst
    obtain rfl := Except.ok.inj (Except.ok.inj hres)
    dsimp only at hround
    split at hround
    · cases hround
    · obtain rfl := Option.some.inj hround
      refine ⟨?_, rfl⟩
      unfold LogicalNode.node_role
      rw [hst]
      rfl
  · cases hres

/-- A round goes on as it was, or the node leads and has begun it. -/
theorem perform_leads [DecidableEq α] {act : Act α} {e : Effect α S}
    (he : perform cfg sm c act = some e) {params : ReplicationRoundParams}
    {unsent : List NodeId} {awaiting : List (NodeId × AppendEntriesRequest α)}
    (ht : .Replication params unsent awaiting ∈ e.process.tasks) :
    ∃ p, c.process e.host = some p ∧
      ((∃ unsent awaiting, .Replication params unsent awaiting ∈ p.tasks) ∨
        p.shell.inner.node_role = .Leader ∧ params.term = p.shell.inner.current_term) := by
  obtain ⟨p, hp, hacted⟩ := perform_acted he
  refine ⟨p, hp, ?_⟩
  cases hacted with
  | halted hres => exact .inl ⟨_, _, ht⟩
  | ticked hres =>
    rcases List.mem_append.mp ht with hnew | hold
    · exact .inr (tickLocked_leads (ConsensusShell.write_result .. ▸ hres) hnew)
    · exact .inl ⟨_, _, hold⟩
  | ran htask hrun =>
    refine .inl ?_
    rcases List.mem_append.mp ht with hnew | hold
    · obtain ⟨unsent, awaiting, rfl⟩ := origins.follows_round ((runTask_ran hrun).follows _ hnew)
      exact ⟨_, _, List.mem_of_getElem? htask⟩
    · exact ⟨_, _, List.mem_of_mem_eraseIdx hold⟩
  | delivered hmsg hserve => exact .inl ⟨_, _, ht⟩
  | proposed n data => exact .inl ⟨_, _, ht⟩
  | probed hres hround =>
    rcases List.mem_cons.mp ht with hnew | hold
    · obtain ⟨rfl, -, -⟩ := SpawnedTask.Replication.inj hnew
      exact .inr (prepare_probe_leads hres hround)
    · exact .inl ⟨_, _, hold⟩
  | joined n => exact .inl ⟨_, _, ht⟩
  | applied hrun =>
    refine .inl ⟨unsent, awaiting, ?_⟩
    cases runApplier_step hrun <;> exact ht

/-- A request comes from a round under way, to a peer that the round had not asked. -/
theorem perform_requests [DecidableEq α] {act : Act α} {e : Effect α S}
    (he : perform cfg sm c act = some e) {dst : NodeId} {req : AppendEntriesRequest α}
    (hreq : .AppendEntries dst req ∈ e.sends) :
    ∃ p params unsent awaiting, c.process e.host = some p ∧
      .Replication params unsent awaiting ∈ p.tasks ∧ dst ∈ unsent ∧
      req.leader_id = params.node_id ∧ req.term = params.term := by
  obtain ⟨p, hp, hacted⟩ := perform_acted he
  cases hacted with
  | ticked hres =>
    rename_i spawn
    cases spawn <;> simp [TickSpawn.sends] at hreq
  | ran htask hrun =>
    rename_i m peer k timeout reply task sh tasks sends
    cases task with
    | Replication params unsent awaiting =>
      refine ⟨p, params, unsent, awaiting, hp, List.mem_of_getElem? htask, ?_⟩
      simp only [runTask] at hrun
      split at hrun
      · rename_i hpeer
        have hres := p.shell.write_result fun ln => prepare_replication ln peer params
        generalize p.shell.write _ = w at hrun hres
        obtain ⟨sh₁, p | (none | strategy)⟩ := w
        · obtain ⟨-, -, rfl⟩ := by simpa using hrun
          cases hreq
        · obtain ⟨-, -, rfl⟩ := by simpa using hrun
          cases hreq
        · cases strategy with
          | InstallSnapshot i q => cases hrun
          | AppendEntries sent =>
            obtain ⟨-, -, rfl⟩ := by simpa using hrun
            obtain ⟨rfl, rfl⟩ := Message.AppendEntries.inj (List.mem_singleton.mp hreq)
            rcases station.determine_replication_strategy_cases
              (station.prepare_replication_some hres.symm) with hno | ⟨sent, hsame, -, hbuild⟩
            · cases hno
            · obtain rfl := ReplicationStrategy.AppendEntries.inj hsame
              obtain ⟨b, entries, -, -, rfl⟩ := station.build_append_entries_request_ok hbuild
              exact ⟨hpeer, rfl, rfl⟩
      · repeat' split at hrun
        all_goals cases hrun <;> cases hreq
    | BecomeCandidate =>
      simp only [runTask] at hrun
      split at hrun <;> obtain ⟨-, -, rfl⟩ := by simpa using hrun
      · simp at hreq
      · cases hreq
    | PreVote req pending granted =>
      simp only [runTask] at hrun
      repeat' split at hrun
      all_goals cases hrun <;> cases hreq
    | Election params pending granted =>
      simp only [runTask] at hrun
      repeat' split at hrun
      all_goals cases hrun <;> cases hreq
    | StepDown | Tally | Promote | Fatal =>
      obtain ⟨-, -, rfl⟩ := by simpa [runTask] using hrun
      cases hreq
  | delivered hmsg hserve =>
    rename_i msg sh sends
    -- an answer is no request
    cases msg with
    | PreVote | RequestVote | AppendEntries =>
      simp only [serve] at hserve
      split at hserve <;> obtain ⟨-, -, rfl⟩ := by simpa using hserve
      · simp at hreq
      · cases hreq
    | PreVoteReply | VoteReply | AppendReply => cases hserve
  | halted | proposed | probed | joined | applied => cases hreq

/-! ## Who has led -/

section
variable [DecidableEq α]

/-- At some point up to now the node was the leader of the term. -/
def HasLed (cfg : Config) (sm : StateMachine α S) (c : Cluster α S) (n : NodeId) (t : Nat) :
    Prop :=
  ∃ c₀, Reachable cfg sm c₀ ∧ Later cfg sm c₀ c ∧ (c₀.hosts n).role = some .Leader ∧
    (c₀.hosts n).current_term = t

/-- The node has led in the term, and is the one that the protocol has elected. -/
structure Chosen (cfg : Config) (sm : StateMachine α S) (c : Cluster α S) (a : Protocol α)
    (l : NodeId) (t : Nat) : Prop where
  leader : a.leader t = some l
  led : HasLed cfg sm c l t

theorem HasLed.later {t : Nat} (h : HasLed cfg sm c n t) (hlater : Later cfg sm c c') :
    HasLed cfg sm c' n t := by
  obtain ⟨c₀, hc₀, hrun, hrole, hterm⟩ := h
  exact ⟨c₀, hc₀, hrun.trans hlater, hrole, hterm⟩

/-- A leader that is known is a peer that was chosen; a round is one of a term in which the
node has led. -/
structure Minded (cfg : Config) (sm : StateMachine α S) (c : Cluster α S) (a : Protocol α)
    (n : NodeId) (p : Process α) : Prop where
  leader : ∀ l, leaderOf p.shell.inner = some l →
    Chosen cfg sm c a l p.shell.inner.current_term ∧ l ∈ cfg.peer_ids n
  rounds : ∀ params unsent awaiting, .Replication params unsent awaiting ∈ p.tasks →
    HasLed cfg sm c n params.term

structure Known (cfg : Config) (sm : StateMachine α S) (c : Cluster α S) (a : Protocol α) :
    Prop where
  hosts : ∀ n p, c.process n = some p → Minded cfg sm c a n p
  network : ∀ dst req, .AppendEntries dst req ∈ c.network →
    Chosen cfg sm c a req.leader_id req.term ∧ req.leader_id ∈ cfg.peer_ids dst

theorem Known.init : Known cfg sm (Cluster.init sm) (raft.State.init : Protocol α) where
  hosts n p hp := by cases hp
  network dst req hreq := by cases hreq

theorem Chosen.grow {l : NodeId} {t : Nat} (h : Chosen cfg sm c a l t) (hg : Grows a a')
    (hlater : Later cfg sm c c') : Chosen cfg sm c' a' l t :=
  ⟨hg.leader_keep t l h.leader, h.led.later hlater⟩

/-- A host that leads right now. -/
theorem HasLed.now (hc : Reachable cfg sm c) {p : Process α} (hp : c.process n = some p)
    (hrole : p.shell.inner.node_role = .Leader) :
    HasLed cfg sm c n p.shell.inner.current_term := by
  refine ⟨c, hc, .refl c, ?_, ?_⟩
  · unfold Host.role
    rw [process_up hp]
    exact congrArg some hrole
  · unfold Host.current_term Host.disk
    rw [process_up hp]
    rfl

/-- What the node has in mind after a step of its host. -/
theorem Minded.acted (h : Known cfg sm c a) (hc : Reachable cfg sm c) (hg : Grows a a')
    (hlater : Later cfg sm c c') {act : Act α} {e : Effect α S}
    (he : perform cfg sm c act = some e) :
    Minded cfg sm c' a' e.host e.process.settle := by
  refine ⟨fun l hl => ?_, fun params unsent awaiting ht => ?_⟩
  · obtain ⟨p, hp, hlearns⟩ := perform_learns he
    rcases hlearns l hl with ⟨hold, hterm⟩ | ⟨req, hreq, rfl, hterm⟩
    · obtain ⟨hchosen, hpeer⟩ := (h.hosts _ p hp).leader l hold
      rw [← hterm] at hchosen
      exact ⟨hchosen.grow hg hlater, hpeer⟩
    · obtain ⟨hchosen, hpeer⟩ := h.network _ req hreq
      rw [hterm] at hchosen
      exact ⟨hchosen.grow hg hlater, hpeer⟩
  · obtain ⟨p, hp, ⟨unsent, awaiting, hold⟩ | ⟨hrole, hterm⟩⟩ := perform_leads he ht
    · exact ((h.hosts _ p hp).rounds _ _ _ hold).later hlater
    · rw [hterm]
      exact (HasLed.now hc hp hrole).later hlater

theorem Known.step (h : Known cfg sm c a) (hc : Reachable cfg sm c) (hr : Refines cfg c a)
    (hg : Grows a a') {act : Action α} (hs : step cfg sm c act = some c') :
    Known cfg sm c' a' := by
  have hlater : Later cfg sm c c' := .tail (.refl c) trivial hs
  have hset : ∀ (m : NodeId) (host : Host α S) (network : List (Message α)),
      (∀ p, host.state = .Up p → Minded cfg sm c' a' m p) →
      ∀ n p, Cluster.process { c.setHost m host with network := network } n = some p →
        Minded cfg sm c' a' n p := by
    intro m host network hhost n p hp
    by_cases hne : n = m
    · subst hne
      have hup := process_up hp
      exact hhost p (by simpa [Cluster.setHost] using hup)
    · rw [process_setHost_of_ne hne] at hp
      have hold := h.hosts n p hp
      refine ⟨fun l hl => ?_, fun params unsent awaiting ht => ?_⟩
      · obtain ⟨hchosen, hpeer⟩ := hold.leader l hl
        exact ⟨hchosen.grow hg hlater, hpeer⟩
      · exact (hold.rounds _ _ _ ht).later hlater
  refine ⟨?_, fun dst req hreq => ?_⟩
  · cases step_after hs with
    | acted he =>
      refine hset _ _ _ fun p hp => ?_
      obtain rfl := HostState.Up.inj hp
      exact .acted h hc hg hlater he
    | crashedIn he hdisk => exact hset _ _ c.network fun _ hp => by cases hp
    | crashed hp => exact hset _ _ c.network fun _ hp => by cases hp
    | stopped hdown => exact hset _ _ c.network fun _ hp => by cases hp
    | booted hdown hmem hnew =>
      refine hset _ _ c.network fun p hp => ?_
      obtain rfl := HostState.Up.inj hp
      -- a node that has just started knows of no leader
      unfold LogicalNode.try_new at hnew
      split at hnew
      · cases hnew
      obtain rfl := Except.ok.inj hnew
      exact ⟨fun l hl => (by cases hl), fun _ _ _ ht => (by cases ht)⟩
  · have hold : ∀ dst req, .AppendEntries dst req ∈ c.network →
        Chosen cfg sm c' a' req.leader_id req.term ∧ req.leader_id ∈ cfg.peer_ids dst := by
      intro dst req hreq
      obtain ⟨hchosen, hpeer⟩ := h.network dst req hreq
      exact ⟨hchosen.grow hg hlater, hpeer⟩
    cases step_after hs with
    | acted he =>
      rcases List.mem_append.mp hreq with hin | hnew
      · exact hold dst req hin
      obtain ⟨p, params, unsent, awaiting, hp, ht, hdst, hid, hterm⟩ := perform_requests he hnew
      have hproc := hr.up hp
      obtain ⟨hround, hunsent, -⟩ := hproc.tasks _ ht
      have hpeer := mem_peer_ids.mp (hunsent dst hdst)
      rw [hid, hterm, hround.node_id]
      refine ⟨⟨hg.leader_keep _ _ hround.leader, ?_⟩, mem_peer_ids.mpr ⟨hproc.member, ?_⟩⟩
      · exact ((h.hosts _ p hp).rounds _ _ _ ht).later hlater
      · exact hpeer.2.symm
    | crashedIn he hdisk => exact hold dst req hreq
    | crashed hp => exact hold dst req hreq
    | stopped hdown => exact hold dst req hreq
    | booted hdown hmem hnew => exact hold dst req hreq

theorem run_known (hlater : Later cfg sm c c') (hc : Reachable cfg sm c) (hr : Refines cfg c a)
    (h : Known cfg sm c a) :
    ∃ a', Grows a a' ∧ Reachable cfg sm c' ∧ Refines cfg c' a' ∧ Known cfg sm c' a' := by
  refine machine.Run.simulates (R := fun c a => Reachable cfg sm c ∧ Refines cfg c a ∧
    Known cfg sm c a) .refl .trans ?_ hlater ⟨hc, hr, h⟩
  rintro c act c' a ⟨hc, hr, h⟩ - hs
  obtain ⟨a', hg, hr'⟩ := step_refines hr hs
  exact ⟨a', hg, .tail hc trivial hs, hr', h.step hc hr hg hs⟩

end

/-! ## What a client is told -/

/-- The topology of the node has an address for every peer, as `Config::validate` wants it. -/
def Addressed (cfg : Config) (n : NodeId) (peer_manager : PeerManager) : Prop :=
  ∀ m ∈ cfg.peer_ids n, ∃ addr, peer_manager.peers.get? m = some addr ∧ addr ≠ ""

variable {pm : PeerManager}

theorem authority_leads (h : Published sh) :
    (authority pm sh.progress).is_leader = true ↔ sh.inner.node_role = .Leader := by
  have hrole : sh.progress.role = sh.inner.node_role := by
    cases hp : sh.inner.is_poisoned with
    | true => exact (h.1 hp).trans (sh.inner.is_poisoned_iff.mp hp).symm
    | false => rw [h.2 hp, try_consensus_progress_role]
  unfold authority
  rw [hrole]
  exact decide_eq_true_iff

/-- The node that is pointed to is the one that the follower takes for the leader. -/
theorem calculate_redirection_shown (h : Published sh) :
    calculate_redirection pm sh.progress.role sh.progress.leader_hint =
      match sh.inner.node_role with
      | .Follower => follower_redirection pm (leaderOf sh.inner)
      | role => calculate_redirection pm role none := by
  cases hp : sh.inner.is_poisoned with
  | true => rw [h.1 hp, sh.inner.is_poisoned_iff.mp hp]; rfl
  | false =>
    rw [h.2 hp]
    unfold LogicalNode.try_consensus_progress LogicalNode.node_role leaderOf
    cases hst : sh.inner.node.state <;> rfl

/-- The address that a client is given is that of the leader in mind. -/
theorem authority_hint (h : Published sh)
    (hhint : (authority pm sh.progress).leader_hint ≠ "") :
    ∃ l, leaderOf sh.inner = some l ∧
      pm.peers.get? l = some (authority pm sh.progress).leader_hint := by
  unfold authority at hhint ⊢
  rw [calculate_redirection_shown h] at hhint ⊢
  cases hrole : sh.inner.node_role with
  | Follower =>
    rw [hrole] at hhint
    dsimp only at hhint ⊢
    cases hl : leaderOf sh.inner with
    | none =>
      rw [hl] at hhint
      exact absurd rfl hhint
    | some l =>
      rw [hl] at hhint
      refine ⟨l, rfl, ?_⟩
      unfold follower_redirection at hhint ⊢
      cases haddr : pm.peers.get? l with
      | none => simp [haddr] at hhint
      | some addr =>
        dsimp only
        rw [haddr]
  | PreCandidate | Candidate | Leader | Poisoned =>
    rw [hrole] at hhint
    exact absurd rfl hhint

/-- A follower with a leader in mind gives its address, where it has one. -/
theorem authority_points (h : Published sh) {l : NodeId} {addr : String}
    (hl : leaderOf sh.inner = some l) (haddr : pm.peers.get? l = some addr) :
    (authority pm sh.progress).leader_hint = addr ∧
      (authority pm sh.progress).rejection_reason =
        s!"Node is a Follower. Retry with Leader at NodeID {l}." := by
  have hrole : sh.inner.node_role = .Follower := by
    unfold leaderOf at hl
    unfold LogicalNode.node_role
    cases hst : sh.inner.node.state with
    | Follower f => rfl
    | PreCandidate f | Candidate f | Leader f | Poisoned =>
      rw [hst] at hl
      cases hl
  unfold authority
  rw [calculate_redirection_shown h, hrole, hl]
  dsimp only [follower_redirection]
  rw [haddr]
  exact ⟨rfl, rfl⟩

/-- A client is sent to a member that was elected in the term of the node it has asked; nobody
else leads in that term at any later time, and every other node that knows of a leader of the
term sends its clients to the same member. -/
theorem redirects_to_elected [DecidableEq α] (hc : Reachable cfg sm c)
    (hlater : Later cfg sm c c') {p : Process α} (hp : c.process n = some p)
    (hpm : Addressed cfg n pm) :
    ((authority pm p.shell.progress).is_leader = true ↔ (c.hosts n).role = some .Leader) ∧
    (∀ l, leaderOf p.shell.inner = some l →
      (authority pm p.shell.progress).leader_hint ≠ "" ∧
        (authority pm p.shell.progress).rejection_reason =
          s!"Node is a Follower. Retry with Leader at NodeID {l}.") ∧
    ((authority pm p.shell.progress).leader_hint ≠ "" → ∃ l, l ≠ n ∧
      pm.peers.get? l = some (authority pm p.shell.progress).leader_hint ∧
      HasLed cfg sm c l p.shell.inner.current_term ∧
      ∀ m q pm', c'.process m = some q →
        q.shell.inner.current_term = p.shell.inner.current_term →
        ((authority pm' q.shell.progress).is_leader = true → m = l) ∧
        ((authority pm' q.shell.progress).leader_hint ≠ "" →
          pm'.peers.get? l = some (authority pm' q.shell.progress).leader_hint)) := by
  have hpub := Announced.run hc n p hp
  obtain ⟨a, -, -, hr, hknown⟩ := run_known hc (.refl _) (Refines.init cfg sm) Known.init
  obtain ⟨a', hg, hc', hr', hknown'⟩ := run_known hlater hc hr hknown
  refine ⟨?_, fun l hl => ?_, fun hhint => ?_⟩
  · rw [authority_leads hpub]
    unfold Host.role
    rw [process_up hp]
    exact (Option.some_inj).symm
  · obtain ⟨addr, haddr, hne⟩ := hpm l ((hknown.hosts n p hp).leader l hl).2
    obtain ⟨hhint, hreason⟩ := authority_points hpub hl haddr
    rw [hhint]
    exact ⟨hne, hreason⟩
  obtain ⟨l, hl, haddr⟩ := authority_hint hpub hhint
  obtain ⟨hchosen, hpeer⟩ := (hknown.hosts n p hp).leader l hl
  refine ⟨l, (mem_peer_ids.mp hpeer).2, haddr, hchosen.led, fun m q pm' hq hterm => ?_⟩
  have hleader := hg.leader_keep _ l hchosen.leader
  have hpub' := Announced.run hc' m q hq
  refine ⟨fun hleads => ?_, fun hhint' => ?_⟩
  · have hrole : (c'.hosts m).role = some .Leader := by
      unfold Host.role
      rw [process_up hq]
      exact congrArg some ((authority_leads hpub').mp hleads)
    have hm := (hr'.safe.election.role_leader m (hr'.leader hrole)).1
    rw [← (hr'.up hq).node.disk.term, show q.shell.inner.node.disk.current_term =
      p.shell.inner.current_term from hterm, hleader] at hm
    exact (Option.some.inj hm).symm
  · obtain ⟨l', hl', haddr'⟩ := authority_hint hpub' hhint'
    have hchosen' := ((hknown'.hosts m q hq).leader l' hl').1.leader
    rw [hterm, hleader] at hchosen'
    rw [Option.some.inj hchosen']
    exact haddr'

/-- The topology of node 2. -/
def secondPeers : PeerManager where
  identity := ⟨"lacto", 2⟩
  peers := (OrdMap.empty.insert 1 "http://127.0.0.1:50051").insert 3 "http://127.0.0.1:50053"

theorem redirects_to_elected_second :
    ∃ p, (after commitByFirst).process 2 = some p ∧
      (authority secondPeers p.shell.progress).leader_hint = "http://127.0.0.1:50051" ∧
      HasLed threeNodes notebook (after commitByFirst) 1 1 := by
  have hup : ((after commitByFirst).process 2).isSome = true := rfl
  have hp : (after commitByFirst).process 2 = some (((after commitByFirst).process 2).get hup) :=
    (Option.some_get hup).symm
  have hhint : (authority secondPeers
      (((after commitByFirst).process 2).get hup).shell.progress).leader_hint =
        "http://127.0.0.1:50051" := rfl
  refine ⟨_, hp, hhint, ?_⟩
  have hpm : Addressed threeNodes 2 secondPeers := by
    intro m hm
    rcases (by simpa [Config.peer_ids, threeNodes] using hm : m = 1 ∨ m = 3) with rfl | rfl
    · exact ⟨_, rfl, by decide⟩
    · exact ⟨_, rfl, by decide⟩
  obtain ⟨l, -, -, hled, hlast⟩ :=
    (redirects_to_elected reachable_commitByFirst later_electSecond hp hpm).2.2
      (by rw [hhint]; decide)
  -- node 1 still takes itself for the leader when node 2 has been elected
  have hup' : ((after (commitByFirst ++ electSecond)).process 1).isSome = true := rfl
  obtain rfl : 1 = l := (hlast 1 _ secondPeers (Option.some_get hup').symm rfl).1 rfl
  exact hled

end raft_engine.service
