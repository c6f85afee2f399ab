-- What a task does to the node when it takes the lock, and what becomes of the
-- role: who leads after a handler led before it, as it did, or was a candidate
-- that has just been elected.
import LactoSensus.Handlers
import LactoSensus.HorizonLog
import LactoSensus.Tasks

open common.types
open raft_engine.storage
open raft_engine.node
open raft_engine.engine
open raft_engine.consensus
open raft_engine.shell
open raft_engine.cluster

namespace raft_engine.roles

variable {α X : Type} {ln ln' : LogicalNode α} {sh sh' : ConsensusShell α}

/-! ## Handlers that pass the node by -/

theorem observe_pre_vote_term_idle {peer_term timeout : Nat} (hle : peer_term ≤ ln.current_term) :
    afterHandler (observe_pre_vote_term ln peer_term timeout) = ln := by
  unfold observe_pre_vote_term
  split
  · rename_i hp
    exact poison_of_poisoned hp
  · rw [if_neg (by omega)]
    rfl

theorem process_vote_response_idle (hrole : ln.node_role ≠ .Candidate) {term : Nat}
    {peer_ids : List NodeId} {peer_id : NodeId} {resp : RequestVoteResponse} {timeout : Nat}
    (hle : resp.term ≤ term) :
    afterHandler (process_vote_response ln term peer_ids peer_id resp timeout) = ln := by
  unfold process_vote_response
  rw [if_neg (by omega)]
  split
  · split
    · rename_i hp
      exact poison_of_poisoned hp
    split
    · rename_i c hst
      simp [LogicalNode.node_role, hst, RoleState.node_role] at hrole
    · rfl
  · rfl

theorem into_leader_idle (hrole : ln.node_role ≠ .Candidate) (peer_ids : List NodeId) :
    afterHandler (ln.into_leader peer_ids) = ln := by
  unfold LogicalNode.into_leader
  split
  · rename_i c hst
    simp [LogicalNode.node_role, hst, RoleState.node_role] at hrole
  · rfl

theorem prepare_replication_idle (hrole : ln.node_role ≠ .Leader) (peer_id : NodeId)
    (params : ReplicationRoundParams) :
    afterHandler (prepare_replication ln peer_id params) = ln := by
  unfold prepare_replication determine_replication_strategy
  cases hst : ln.node.state with
  | Leader l => simp [LogicalNode.node_role, hst, RoleState.node_role] at hrole
  | Follower f => rfl
  | PreCandidate f => rfl
  | Candidate f => rfl
  | Poisoned => rfl

theorem process_replication_response_idle (hrole : ln.node_role ≠ .Leader) {term : Nat}
    {peer_id : NodeId} {outcome : ReplicationOutcome} {timeout : Nat}
    (hle : outcome.term ≤ term) :
    afterHandler (process_replication_response ln term peer_id outcome timeout) = ln := by
  unfold process_replication_response
  rw [if_neg (by omega)]
  split
  · rename_i hp
    exact poison_of_poisoned hp
  split
  · rename_i l hst
    simp [LogicalNode.node_role, hst, RoleState.node_role] at hrole
  · rfl

theorem propose_idle (hrole : ln.node_role ≠ .Leader) (command : α) :
    afterHandler (ln.propose command) = ln := by
  unfold LogicalNode.propose
  cases hst : ln.node.state with
  | Leader l => simp [LogicalNode.node_role, hst, RoleState.node_role] at hrole
  | Poisoned =>
    exact poison_of_poisoned (by simp [LogicalNode.is_poisoned, hst, RoleState.node_role])
  | Follower f => rfl
  | PreCandidate f => rfl
  | Candidate f => rfl

theorem prepare_probe_idle (hrole : sh.inner.node_role ≠ .Leader) :
    sh.prepare_probe.1.inner = sh.inner := by
  unfold ConsensusShell.prepare_probe
  rw [ConsensusShell.write_inner]
  cases hst : sh.inner.node.state with
  | Leader l => simp [LogicalNode.node_role, hst, RoleState.node_role] at hrole
  | Follower f => rfl
  | PreCandidate f => rfl
  | Candidate f => rfl
  | Poisoned => rfl

theorem handle_pre_vote_idle (ln : LogicalNode α)
    (req_term req_last_log_index req_last_log_term : Nat) :
    afterHandler (ln.handle_pre_vote req_term req_last_log_index req_last_log_term) = ln := by
  unfold LogicalNode.handle_pre_vote
  split
  · rename_i hp
    exact poison_of_poisoned hp
  · rfl

/-- Only a follower votes in the term it is in. -/
theorem handle_request_vote_idle (hrole : ln.node_role ≠ .Follower) {candidate_id : NodeId}
    {req_term req_last_log_index req_last_log_term timeout : Nat}
    (hle : req_term ≤ ln.current_term) :
    afterHandler (ln.handle_request_vote candidate_id req_term req_last_log_index
      req_last_log_term timeout) = ln := by
  unfold LogicalNode.handle_request_vote LogicalNode.decideVote
  split
  · rename_i hp
    exact poison_of_poisoned hp
  rw [if_neg (by omega)]
  cases hst : ln.node.state with
  | Follower f => simp [LogicalNode.node_role, hst, RoleState.node_role] at hrole
  | Leader l => rfl
  | PreCandidate f => rfl
  | Candidate f => rfl
  | Poisoned => rfl

theorem validate_leader_rpc_term_stale {req_term : Nat} (hlt : req_term < ln.current_term)
    (leader_id : NodeId) (rpc_name : String) (timeout : Nat) :
    ln.is_poisoned = true ∧
        ln.validate_leader_rpc_term req_term leader_id rpc_name timeout =
          (ln, .error .NodePoisoned) ∨
      ln.validate_leader_rpc_term req_term leader_id rpc_name timeout = (ln, .ok .Stale) := by
  unfold LogicalNode.validate_leader_rpc_term
  dsimp only
  cases hp : ln.is_poisoned with
  | true => exact .inl ⟨rfl, if_pos rfl⟩
  | false =>
    refine .inr ?_
    rw [if_neg (by simp), if_pos hlt]

theorem handle_append_entries_idle {req_term : Nat} (hlt : req_term < ln.current_term)
    (leader_id : NodeId) (prev_log_index prev_log_term : Nat) (entries : List (LogEntry α))
    (leader_commit timeout : Nat) :
    afterHandler (ln.handle_append_entries leader_id req_term prev_log_index prev_log_term entries
      leader_commit timeout) = ln := by
  unfold LogicalNode.handle_append_entries
  rcases validate_leader_rpc_term_stale hlt leader_id "AppendEntries" timeout with
    ⟨hp, heq⟩ | heq
  · rw [heq]
    exact poison_of_poisoned hp
  · rw [heq]
    rfl

theorem handle_install_snapshot_idle {req_term : Nat} (hlt : req_term < ln.current_term)
    (leader_id : NodeId) (last_included_index timeout : Nat) :
    afterHandler (ln.handle_install_snapshot leader_id req_term last_included_index timeout) =
      ln := by
  unfold LogicalNode.handle_install_snapshot
  rcases validate_leader_rpc_term_stale hlt leader_id "InstallSnapshot" timeout with
    ⟨hp, heq⟩ | heq
  · rw [heq]
    exact poison_of_poisoned hp
  · rw [heq]
    rfl

/-! ## Who leads -/

/-- The data of a leader, but for what it knows of the logs of its peers. -/
structure Alike (l l' : Leader) : Prop where
  timer : l'.last_heartbeat = l.last_heartbeat
  current : l'.current_read_epoch = l.current_read_epoch
  confirmed : l'.confirmed_read_epoch = l.confirmed_read_epoch
  acks : l'.heartbeat_acks = l.heartbeat_acks
  peers : l.next_index.entries.length ≤ l'.next_index.entries.length

theorem Alike.refl (l : Leader) : Alike l l := ⟨rfl, rfl, rfl, rfl, le_rfl⟩

theorem Alike.trans {l₁ l₂ l₃ : Leader} (h₁ : Alike l₁ l₂) (h₂ : Alike l₂ l₃) : Alike l₁ l₃ where
  timer := h₂.timer.trans h₁.timer
  current := h₂.current.trans h₁.current
  confirmed := h₂.confirmed.trans h₁.confirmed
  acks := h₂.acks.trans h₁.acks
  peers := h₁.peers.trans h₂.peers

/-- Whoever leads or stands afterwards did so before, in the same term. -/
structure Held (ln ln' : LogicalNode α) : Prop where
  node_id : ln'.node_id = ln.node_id
  term : ln.current_term ≤ ln'.current_term
  leads : ∀ l', ln'.node.state = .Leader l' →
    ∃ l, ln.node.state = .Leader l ∧ Alike l l' ∧ ln'.current_term = ln.current_term
  stands : ln'.node_role = .Candidate →
    ln.node_role = .Candidate ∧ ln'.current_term = ln.current_term

theorem Held.refl (ln : LogicalNode α) : Held ln ln :=
  ⟨rfl, le_rfl, fun l' hl' => ⟨l', hl', .refl l', rfl⟩, fun hrole => ⟨hrole, rfl⟩⟩

theorem Held.trans {ln₁ ln₂ ln₃ : LogicalNode α} (h₁ : Held ln₁ ln₂) (h₂ : Held ln₂ ln₃) :
    Held ln₁ ln₃ where
  node_id := h₂.node_id.trans h₁.node_id
  term := h₁.term.trans h₂.term
  leads := by
    intro l₃ hl₃
    obtain ⟨l₂, hl₂, halike₂, hterm₂⟩ := h₂.leads l₃ hl₃
    obtain ⟨l₁, hl₁, halike₁, hterm₁⟩ := h₁.leads l₂ hl₂
    exact ⟨l₁, hl₁, halike₁.trans halike₂, hterm₂.trans hterm₁⟩
  stands := by
    intro hrole
    obtain ⟨hrole₂, hterm₂⟩ := h₂.stands hrole
    obtain ⟨hrole₁, hterm₁⟩ := h₁.stands hrole₂
    exact ⟨hrole₁, hterm₂.trans hterm₁⟩

/-- A follower, or a node that has halted. -/
def Idles (ln : LogicalNode α) : Prop := ln.node_role ≠ .Leader ∧ ln.node_role ≠ .Candidate

theorem idles_follower {ln : LogicalNode α} {f : Follower} (hst : ln.node.state = .Follower f) :
    Idles ln := by
  simp [Idles, LogicalNode.node_role, hst, RoleState.node_role]

theorem idles_poison (ln : LogicalNode α) : Idles ln.poison := by
  simp [Idles, LogicalNode.poison, LogicalNode.node_role, RaftNode.transition,
    RoleState.node_role]

theorem Held.out (hid : ln'.node_id = ln.node_id) (hterm : ln.current_term ≤ ln'.current_term)
    (hidle : Idles ln') : Held ln ln' := by
  refine ⟨hid, hterm, fun l' hl' => absurd ?_ hidle.1, fun hrole => absurd hrole hidle.2⟩
  unfold LogicalNode.node_role
  rw [hl']
  rfl

theorem Held.poison (h : Held ln ln') : Held ln ln'.poison :=
  .out h.node_id h.term (idles_poison ln')

theorem Held.afterHandler {r : Handled α X} (h : Held ln r.1) : Held ln (afterHandler r) := by
  obtain ⟨ln', res⟩ := r
  cases res with
  | ok x => exact h
  | error p => exact h.poison

/-- A change of the physical node that is none of its role. -/
theorem Held.onto {n : RaftNode α RoleState} (hid : n.node_id = ln.node_id)
    (hterm : n.current_term = ln.current_term) (hstate : n.state = ln.node.state) :
    Held ln { ln with node := n } := by
  refine ⟨hid, hterm.ge, fun l' hl' => ⟨l', hstate.symm.trans hl', .refl l', hterm⟩,
    fun hrole => ⟨?_, hterm⟩⟩
  unfold LogicalNode.node_role at hrole ⊢
  rw [← hstate]
  exact hrole

/-- A leader learns something of its peers. -/
theorem Held.relead {l l' : Leader} (hst : ln.node.state = .Leader l) (halike : Alike l l') :
    Held ln (ln.withRole (ln.node.transition l') .Leader) := by
  refine ⟨rfl, le_rfl, fun l₁ hl₁ => ⟨l, hst, ?_, rfl⟩, fun hrole => by cases hrole⟩
  obtain rfl := RoleState.Leader.inj hl₁
  exact halike

/-! ## The clock and the timer -/

/-- The clock stands still as well. -/
structure Steady (ln ln' : LogicalNode α) : Prop extends Held ln ln' where
  tick : ln'.current_tick = ln.current_tick
  interval : ln'.heartbeat_interval = ln.heartbeat_interval

theorem Steady.refl (ln : LogicalNode α) : Steady ln ln := ⟨.refl ln, rfl, rfl⟩

theorem Steady.trans {ln₁ ln₂ ln₃ : LogicalNode α} (h₁ : Steady ln₁ ln₂) (h₂ : Steady ln₂ ln₃) :
    Steady ln₁ ln₃ :=
  ⟨h₁.toHeld.trans h₂.toHeld, h₂.tick.trans h₁.tick, h₂.interval.trans h₁.interval⟩

theorem Steady.poison (h : Steady ln ln') : Steady ln ln'.poison :=
  ⟨h.toHeld.poison, h.tick, h.interval⟩

theorem Steady.afterHandler {r : Handled α X} (h : Steady ln r.1) : Steady ln (afterHandler r) := by
  obtain ⟨ln', res⟩ := r
  cases res with
  | ok x => exact h
  | error p => exact h.poison

/-- The clock stands still, and whoever leads afterwards led before, with the same timer. -/
structure Timed (ln ln' : LogicalNode α) : Prop where
  tick : ln'.current_tick = ln.current_tick
  interval : ln'.heartbeat_interval = ln.heartbeat_interval
  timer : ∀ l', ln'.node.state = .Leader l' →
    ∃ l, ln.node.state = .Leader l ∧ l'.last_heartbeat = l.last_heartbeat

theorem Steady.timed (h : Steady ln ln') : Timed ln ln' := by
  refine ⟨h.tick, h.interval, fun l' hl' => ?_⟩
  obtain ⟨l, hl, halike, -⟩ := h.leads l' hl'
  exact ⟨l, hl, halike.timer⟩

theorem Timed.trans {ln₁ ln₂ ln₃ : LogicalNode α} (h₁ : Timed ln₁ ln₂) (h₂ : Timed ln₂ ln₃) :
    Timed ln₁ ln₃ where
  tick := h₂.tick.trans h₁.tick
  interval := h₂.interval.trans h₁.interval
  timer := by
    intro l₃ hl₃
    obtain ⟨l₂, hl₂, hbeat₂⟩ := h₂.timer l₃ hl₃
    obtain ⟨l₁, hl₁, hbeat₁⟩ := h₁.timer l₂ hl₂
    exact ⟨l₁, hl₁, hbeat₂.trans hbeat₁⟩

/-- A node that does not lead afterwards. -/
theorem Timed.out (htick : ln'.current_tick = ln.current_tick)
    (hinterval : ln'.heartbeat_interval = ln.heartbeat_interval)
    (hrole : ln'.node_role ≠ .Leader) : Timed ln ln' := by
  refine ⟨htick, hinterval, fun l' hl' => absurd ?_ hrole⟩
  unfold LogicalNode.node_role
  rw [hl']
  rfl

theorem Timed.afterHandler {r : Handled α X} (h : Timed ln r.1) : Timed ln (afterHandler r) := by
  obtain ⟨ln', res⟩ := r
  cases res with
  | ok x => exact h
  | error p => exact .out h.tick h.interval (idles_poison ln').1

/-- What a handler does under the guard, as it does without. -/
theorem Timed.write {f : LogicalNode α → Handled α X} (h : Timed sh.inner (f sh.inner).1) :
    Timed sh.inner (sh.write f).1.inner := by
  rw [ConsensusShell.write_inner]
  exact h.afterHandler

/-- A leader's data changes, but not its timer. -/
theorem Timed.relead {l l' : Leader} (hst : ln.node.state = .Leader l)
    (hbeat : l'.last_heartbeat = l.last_heartbeat) :
    Timed ln (ln.withRole (ln.node.transition l') .Leader) := by
  refine ⟨rfl, rfl, fun l₁ hl₁ => ⟨l, hst, ?_⟩⟩
  obtain rfl := RoleState.Leader.inj hl₁
  exact hbeat

/-! ## Handlers that elect nobody -/

theorem into_follower_steady (ln : LogicalNode α) (term : Nat) (leader_id : Option NodeId)
    (timeout : Nat) : Steady ln (ln.into_follower term leader_id timeout).1 := by
  have hterm := (into_follower_quiet ln term leader_id timeout).term
  unfold LogicalNode.into_follower RaftNode.try_into_follower RaftNode.advance_term at hterm ⊢
  dsimp only at hterm ⊢
  split_ifs at hterm ⊢
  · exact .refl ln
  · exact ⟨.out rfl hterm (idles_poison _), rfl, rfl⟩
  · exact ⟨.out rfl hterm (idles_follower rfl), rfl, rfl⟩
  · exact ⟨.out rfl hterm (idles_follower rfl), rfl, rfl⟩

theorem reset_heartbeat_steady (hrole : ln.node_role ≠ .Leader) :
    Steady ln ln.reset_heartbeat := by
  unfold LogicalNode.reset_heartbeat
  split
  · exact ⟨.out rfl le_rfl (idles_follower rfl), rfl, rfl⟩
  · rename_i l hst
    simp [LogicalNode.node_role, hst, RoleState.node_role] at hrole
  · exact .refl ln

theorem observe_pre_vote_term_steady (ln : LogicalNode α) (peer_term timeout : Nat) :
    Steady ln (observe_pre_vote_term ln peer_term timeout).1 := by
  rcases observe_pre_vote_term_cases ln peer_term timeout with heq | heq
  · rw [heq]
    exact .refl ln
  · rw [heq]
    exact into_follower_steady ln peer_term none timeout

theorem decideVote_steady (ln : LogicalNode α) (candidate_id : NodeId)
    (req_term req_last_log_index req_last_log_term : Nat) :
    Steady ln (ln.decideVote candidate_id req_term req_last_log_index req_last_log_term).1 := by
  have hterm := (decideVote_quiet ln candidate_id req_term req_last_log_index
    req_last_log_term).term
  unfold LogicalNode.decideVote RaftNode.attempt_grant_vote at hterm ⊢
  cases hst : ln.node.state with
  | Follower f =>
    rw [hst] at hterm
    dsimp only at hterm ⊢
    split_ifs at hterm ⊢
    · exact ⟨.out rfl hterm (idles_follower rfl), rfl, rfl⟩
    · exact ⟨.out rfl hterm (idles_follower rfl), rfl, rfl⟩
  | _ => exact .refl ln

theorem handle_request_vote_steady (ln : LogicalNode α) (candidate_id : NodeId)
    (req_term req_last_log_index req_last_log_term timeout : Nat) :
    Steady ln (ln.handle_request_vote candidate_id req_term req_last_log_index req_last_log_term
      timeout).1 := by
  unfold LogicalNode.handle_request_vote
  split
  · exact .refl ln
  split
  · have h := into_follower_steady ln req_term none timeout
    generalize ln.into_follower req_term none timeout = r at h
    obtain ⟨ln', res⟩ := r
    cases res with
    | ok x => exact h.trans (decideVote_steady ln' _ _ _ _)
    | error p => exact h
  · exact decideVote_steady ln _ _ _ _

theorem handle_pre_vote_steady (ln : LogicalNode α)
    (req_term req_last_log_index req_last_log_term : Nat) :
    Steady ln (ln.handle_pre_vote req_term req_last_log_index req_last_log_term).1 := by
  unfold LogicalNode.handle_pre_vote
  split <;> exact .refl ln

/-- Who has heard a leader leads no more. -/
theorem validate_leader_rpc_term_steady (ln : LogicalNode α) (req_term : Nat)
    (leader_id : NodeId) (rpc_name : String) (timeout : Nat) :
    Steady ln (ln.validate_leader_rpc_term req_term leader_id rpc_name timeout).1 := by
  have hdemote := into_follower_steady ln req_term (some leader_id) timeout
  rw [← followed_eq] at hdemote
  unfold LogicalNode.validate_leader_rpc_term
  dsimp only
  split
  · exact .refl ln
  split
  · exact .refl ln
  split
  · exact hdemote
  split
  · exact hdemote
  · exact (Steady.refl ln).poison
  · exact ⟨.out rfl le_rfl (idles_follower rfl), rfl, rfl⟩
  · exact hdemote
  · exact .refl ln

/-- Whoever finds the term of a leader valid does not lead. -/
theorem validate_leader_rpc_term_valid_role (ln : LogicalNode α) (req_term : Nat)
    (leader_id : NodeId) (rpc_name : String) (timeout : Nat)
    (h : (ln.validate_leader_rpc_term req_term leader_id rpc_name timeout).2 = .ok .Valid) :
    (ln.validate_leader_rpc_term req_term leader_id rpc_name timeout).1.node_role ≠ .Leader := by
  have hdemote : ln.is_poisoned = false →
      (ln.into_follower req_term (some leader_id) timeout).1.node_role ≠ .Leader :=
    into_follower_role ln req_term (some leader_id) timeout
  rw [← followed_eq] at hdemote
  unfold LogicalNode.validate_leader_rpc_term at h ⊢
  dsimp only at h ⊢
  by_cases hp : ln.is_poisoned = true
  · rw [if_pos hp] at h
    cases h
  by_cases hlt : req_term < ln.current_term
  · rw [if_neg hp, if_pos hlt] at h
    cases h
  rw [if_neg hp, if_neg hlt] at h ⊢
  have hdemoted := hdemote (by simpa using hp)
  by_cases hgt : req_term > ln.current_term
  · rw [if_pos hgt]
    exact hdemoted
  rw [if_neg hgt] at h ⊢
  cases hst : ln.node.state with
  | Leader l =>
    rw [hst] at h
    cases h
  | Follower f => simp [LogicalNode.node_role, RoleState.node_role]
  | PreCandidate f => exact hdemoted
  | Candidate f => exact hdemoted
  | Poisoned => simp [LogicalNode.node_role, RoleState.node_role, hst]

theorem handle_append_entries_steady (ln : LogicalNode α) (leader_id : NodeId)
    (req_term prev_log_index prev_log_term : Nat) (entries : List (LogEntry α))
    (leader_commit timeout : Nat) :
    Steady ln (ln.handle_append_entries leader_id req_term prev_log_index prev_log_term entries
      leader_commit timeout).1 := by
  have hsteady := validate_leader_rpc_term_steady ln req_term leader_id "AppendEntries" timeout
  have hrole := validate_leader_rpc_term_valid_role ln req_term leader_id "AppendEntries" timeout
  unfold LogicalNode.handle_append_entries
  dsimp only
  generalize ln.validate_leader_rpc_term req_term leader_id "AppendEntries" timeout = r
    at hsteady hrole
  obtain ⟨ln', p | res⟩ := r
  · exact hsteady
  cases res with
  | Stale => exact hsteady
  | Valid =>
    have hbeat := hsteady.trans (reset_heartbeat_steady (hrole rfl))
    dsimp only
    generalize ln'.reset_heartbeat = ln₁ at hbeat
    cases hst : ln₁.node.state with
    | Follower f =>
      refine hbeat.trans ?_
      have hkept : ((ln₁.node.transition f).reconcile_log prev_log_index prev_log_term entries
            leader_commit).1.node_id = ln₁.node_id ∧
          ((ln₁.node.transition f).reconcile_log prev_log_index prev_log_term entries
            leader_commit).1.current_term = ln₁.current_term := by
        rcases (ln₁.node.transition f).reconcile_log_merged prev_log_index prev_log_term entries
          leader_commit with heq | ⟨-, hm⟩
        · rw [heq]
          exact ⟨rfl, rfl⟩
        · exact hm.hard_state
      dsimp only
      generalize (ln₁.node.transition f).reconcile_log prev_log_index prev_log_term entries
        leader_commit = r at hkept
      obtain ⟨n, e | result⟩ := r
      · exact ⟨.out hkept.1 hkept.2.ge (idles_poison _), rfl, rfl⟩
      · exact ⟨.out hkept.1 hkept.2.ge (idles_follower rfl), rfl, rfl⟩
    | PreCandidate f => exact hbeat
    | Candidate f => exact hbeat
    | Leader f => exact hbeat
    | Poisoned => exact hbeat

theorem handle_install_snapshot_steady (ln : LogicalNode α) (leader_id : NodeId)
    (req_term last_included_index timeout : Nat) :
    Steady ln (ln.handle_install_snapshot leader_id req_term last_included_index timeout).1 := by
  have hsteady := validate_leader_rpc_term_steady ln req_term leader_id "InstallSnapshot" timeout
  have hrole := validate_leader_rpc_term_valid_role ln req_term leader_id "InstallSnapshot" timeout
  unfold LogicalNode.handle_install_snapshot
  dsimp only
  generalize ln.validate_leader_rpc_term req_term leader_id "InstallSnapshot" timeout = r
    at hsteady hrole
  obtain ⟨ln', p | res⟩ := r
  · exact hsteady
  cases res with
  | Stale => exact hsteady
  | Valid =>
    dsimp only
    split
    · exact hsteady
    · exact hsteady.trans (reset_heartbeat_steady (hrole rfl))

theorem propose_steady (ln : LogicalNode α) (command : α) : Steady ln (ln.propose command).1 := by
  unfold LogicalNode.propose
  split
  · rename_i l hst
    unfold RaftNode.propose
    cases checked_add "LogIndex" (ln.node.transition l).last_log_index 1 with
    | error e => exact ⟨(Held.relead hst (.refl l)).poison, rfl, rfl⟩
    | ok index => exact ⟨.onto rfl rfl hst.symm, rfl, rfl⟩
  · exact .refl ln
  · exact .refl ln

theorem build_append_entries_request_steady (ln : LogicalNode α) (peer_id : NodeId) (term : Nat)
    (node_id : NodeId) (last_committed : Nat) :
    Steady ln (build_append_entries_request ln peer_id term node_id last_committed).1 := by
  unfold build_append_entries_request
  dsimp only
  split_ifs
  · exact .refl ln
  cases checked_sub _ 1 with
  | error e => exact .refl ln
  | ok prev_log_index =>
    dsimp only
    cases ln.node.disk.read_entries _ ln.last_log_index with
    | error e => exact (Steady.refl ln).poison
    | ok entries => exact .refl ln

theorem prepare_replication_steady (ln : LogicalNode α) (peer_id : NodeId)
    (params : ReplicationRoundParams) : Steady ln (prepare_replication ln peer_id params).1 := by
  have hstrategy : Steady ln (determine_replication_strategy ln peer_id params).1 := by
    have hbuild := build_append_entries_request_steady ln peer_id params.term params.node_id
      params.last_committed
    unfold determine_replication_strategy
    split
    · dsimp only
      split
      · exact .refl ln
      · generalize build_append_entries_request ln peer_id params.term params.node_id
          params.last_committed = r at hbuild
        obtain ⟨ln', p | e | req⟩ := r <;> exact hbuild
    · exact .refl ln
  unfold prepare_replication
  generalize determine_replication_strategy ln peer_id params = r at hstrategy
  obtain ⟨ln', p | e | st⟩ := r
  · exact hstrategy
  · exact hstrategy.poison
  · exact hstrategy

theorem update_leader_last_committed_steady (ln : LogicalNode α) :
    Steady ln (update_leader_last_committed ln).1 := by
  have hcommit : ∀ index, Steady ln (ln.advance_last_committed index).1 := by
    intro index
    unfold LogicalNode.advance_last_committed RaftNode.advance_last_committed
      RaftNode.update_commit_index_only
    dsimp only
    split_ifs
    · exact .refl ln
    · exact .refl ln
    · exact (Steady.refl ln).poison
    · exact ⟨.onto rfl rfl rfl, rfl, rfl⟩
    · exact .refl ln
  unfold update_leader_last_committed
  split
  · exact .refl ln
  split
  · dsimp only
    split
    · exact hcommit _
    · exact .refl ln
  · exact .refl ln

/-- What a response says of the log of the peer. -/
theorem reconcile_peer_alike {l l' : Leader} {peer_id : NodeId} {term : Nat}
    {outcome : ReplicationOutcome} {updated : Bool}
    (hrec : reconcile_peer l peer_id term outcome = .ok (l', updated)) : Alike l l' := by
  have hinsert : ∀ (m : ordmap.OrdMap NodeId Nat) (v : Nat), Alike l
      { l with next_index := l.next_index.insert peer_id v, match_index := m } :=
    fun m v => ⟨rfl, rfl, rfl, rfl, l.next_index.length_le_insert peer_id v⟩
  cases outcome with
  | AppendEntries sent_prev_index sent_entries_len response =>
    simp only [reconcile_peer] at hrec
    split at hrec
    · split at hrec
      · cases hrec
      split at hrec
      · cases hrec
      split at hrec
      · obtain ⟨rfl, -⟩ := Prod.mk.inj (Except.ok.inj hrec)
        exact hinsert _ _
      · obtain ⟨rfl, -⟩ := Prod.mk.inj (Except.ok.inj hrec)
        exact .refl l
    · split at hrec <;>
      · split at hrec
        · cases hrec
        · obtain ⟨rfl, -⟩ := Prod.mk.inj (Except.ok.inj hrec)
          exact hinsert _ _
  | InstallSnapshot last_included_index response_term =>
    simp only [reconcile_peer] at hrec
    split at hrec
    · cases hrec
    · obtain ⟨rfl, -⟩ := Prod.mk.inj (Except.ok.inj hrec)
      exact hinsert _ _

/-- A leader of the term of the round counts the response. -/
def Counts (ln : LogicalNode α) (term : Nat) (outcome : ReplicationOutcome) : Prop :=
  outcome.term ≤ term ∧ ln.node_role = .Leader ∧ ln.current_term = term

/-- The node with the peer among those that have answered. -/
def acknowledged (ln : LogicalNode α) (l : Leader) (peer_id : NodeId) : LogicalNode α :=
  ln.withRole (ln.node.transition
    (l.acknowledge_heartbeat peer_id ((l.next_index.entries.length + 1) / 2 + 1))) .Leader

theorem process_replication_response_counted {l : Leader} {term : Nat} {peer_id : NodeId}
    {outcome : ReplicationOutcome} {timeout : Nat} (hst : ln.node.state = .Leader l)
    (hle : outcome.term ≤ term) (hterm : ln.current_term = term) :
    Steady (acknowledged ln l peer_id)
      (process_replication_response ln term peer_id outcome timeout).1 := by
  have hp : ln.is_poisoned = false := not_poisoned hst (by simp)
  unfold process_replication_response acknowledged
  rw [if_neg (by omega), hp, if_neg (by simp), hst]
  dsimp only
  rw [if_pos hterm]
  generalize l.acknowledge_heartbeat peer_id ((l.next_index.entries.length + 1) / 2 + 1) = l₁
  generalize hln₁ : ln.withRole (ln.node.transition l₁) .Leader = ln₁
  have hst₁ : ln₁.node.state = .Leader l₁ := by
    rw [← hln₁]
    rfl
  cases hrec : reconcile_peer l₁ peer_id term outcome with
  | error e => exact .refl ln₁
  | ok r =>
    obtain ⟨l₂, updated⟩ := r
    have hnext : Steady ln₁ (ln₁.withRole (ln₁.node.transition l₂) .Leader) :=
      ⟨.relead hst₁ (reconcile_peer_alike hrec), rfl, rfl⟩
    cases updated with
    | false => exact hnext
    | true =>
      have h := update_leader_last_committed_steady
        (ln₁.withRole (ln₁.node.transition l₂) .Leader)
      dsimp only
      rw [if_pos rfl]
      generalize update_leader_last_committed _ = r at h
      obtain ⟨ln', res⟩ := r
      cases res <;> exact hnext.trans h

theorem process_replication_response_uncounted {term : Nat} {peer_id : NodeId}
    {outcome : ReplicationOutcome} {timeout : Nat} (hno : ¬Counts ln term outcome) :
    Steady ln (process_replication_response ln term peer_id outcome timeout).1 := by
  by_cases hgt : outcome.term > term
  · rw [process_replication_response_overtaken hgt]
    exact into_follower_steady ln outcome.term none timeout
  unfold process_replication_response
  rw [if_neg hgt]
  split
  · exact .refl ln
  split
  · rename_i l hst
    rw [if_neg fun hterm => hno ⟨not_lt.mp hgt, by
      simp [LogicalNode.node_role, hst, RoleState.node_role], hterm⟩]
    exact .refl ln
  · exact .refl ln

theorem stepDown_steady (ln : LogicalNode α) (timeout : Nat) :
    Steady ln (stepDown timeout ln).1 := by
  unfold stepDown
  split
  · exact .refl ln
  · exact into_follower_steady ln _ _ _

/-! ## Elections -/

/-- What a handler makes of the role: nobody comes to lead or to stand, or the node stands in a
new term, or a candidate is elected. -/
inductive Turn (peers : List NodeId) (ln ln' : LogicalNode α) : Prop where
  | held (h : Held ln ln')
  | stood (hid : ln'.node_id = ln.node_id) (hlt : ln.current_term < ln'.current_term)
      (hrole : ln'.node_role = .Candidate)
  | elected {l : Leader} {last_log_index last_heartbeat : Nat} (hid : ln'.node_id = ln.node_id)
      (hterm : ln'.current_term = ln.current_term) (hrole : ln.node_role = .Candidate)
      (hst : ln'.node.state = .Leader l)
      (hnew : Leader.new peers last_log_index last_heartbeat = .ok l)

variable {peers : List NodeId}

theorem Turn.frame (h : Turn peers ln ln') :
    ln'.node_id = ln.node_id ∧ ln.current_term ≤ ln'.current_term := by
  cases h with
  | held h => exact ⟨h.node_id, h.term⟩
  | stood hid hlt hrole => exact ⟨hid, hlt.le⟩
  | elected hid hterm hrole hst hnew => exact ⟨hid, hterm.ge⟩

theorem Turn.afterHandler {r : Handled α X} (h : Turn peers ln r.1) :
    Turn peers ln (afterHandler r) := by
  obtain ⟨ln', res⟩ := r
  cases res with
  | ok x => exact h
  | error p =>
    obtain ⟨hid, hterm⟩ := h.frame
    exact .held (.out hid hterm (idles_poison ln'))

theorem Held.turn {ln₁ ln₂ ln₃ : LogicalNode α} (h₁ : Held ln₁ ln₂) (h₂ : Turn peers ln₂ ln₃) :
    Turn peers ln₁ ln₃ := by
  cases h₂ with
  | held h => exact .held (h₁.trans h)
  | stood hid hlt hrole => exact .stood (hid.trans h₁.node_id) (h₁.term.trans_lt hlt) hrole
  | elected hid hterm hrole hst hnew =>
    obtain ⟨hrole₁, hterm₁⟩ := h₁.stands hrole
    exact .elected (hid.trans h₁.node_id) (hterm.trans hterm₁) hrole₁ hst hnew

theorem begin_campaign_turn (ln : LogicalNode α) (timeout : Nat) :
    Turn peers ln (begin_campaign ln timeout).1 := by
  unfold begin_campaign
  split
  · exact .held (.refl ln)
  rcases into_candidate_cases ln timeout with ⟨heq, -⟩ | ⟨p, heq⟩ | ⟨heq, -⟩
  · rw [heq]
    exact .held (.refl ln)
  · rw [heq]
    exact .held (Held.refl ln).poison
  · rw [heq]
    exact .stood rfl (Nat.lt_succ_self _) rfl

theorem into_leader_turn (ln : LogicalNode α) (peers : List NodeId) :
    Turn peers ln (ln.into_leader peers).1 := by
  unfold LogicalNode.into_leader RaftNode.try_into_leader
  cases hst : ln.node.state with
  | Candidate c =>
    dsimp only
    cases hnew : Leader.new peers (ln.node.transition c).last_log_index ln.current_tick with
    | error e => exact .held (Held.refl ln).poison
    | ok l =>
      refine .elected rfl rfl ?_ rfl hnew
      simp [LogicalNode.node_role, hst, RoleState.node_role]
  | _ => exact .held (.refl ln)

theorem process_vote_response_turn (ln : LogicalNode α) (term : Nat) (peer_id : NodeId)
    (resp : RequestVoteResponse) (timeout : Nat) :
    Turn peers ln (process_vote_response ln term peers peer_id resp timeout).1 := by
  by_cases hgt : resp.term > term
  · rw [process_vote_response_overtaken hgt]
    exact .held (into_follower_steady ln resp.term none timeout).toHeld
  unfold process_vote_response
  rw [if_neg hgt]
  split
  swap
  · exact .held (.refl ln)
  split
  · exact .held (.refl ln)
  split
  swap
  · exact .held (.refl ln)
  rename_i c hst
  split
  swap
  · exact .held (.refl ln)
  -- one vote more, and perhaps the last
  have hvoted : Held ln (ln.withRole (ln.node.transition (c.add_vote peer_id)) .Candidate) :=
    ⟨rfl, le_rfl, fun l' hl' => (by cases hl'), fun _ => ⟨by
      simp [LogicalNode.node_role, hst, RoleState.node_role], rfl⟩⟩
  dsimp only
  split
  · have h := hvoted.turn (into_leader_turn _ peers)
    generalize LogicalNode.into_leader _ peers = r at h
    obtain ⟨ln', res⟩ := r
    cases res <;> exact h
  · exact .held hvoted

theorem tickLocked_turn (ln : LogicalNode α) (timeout : Nat) :
    Turn peers ln (tickLocked ln timeout).1 := by
  have htick : Held ln ln.tick.1 :=
    ⟨rfl, le_rfl, fun l' hl' => ⟨l', hl', .refl l', rfl⟩, fun hrole => ⟨hrole, rfl⟩⟩
  unfold tickLocked
  generalize ln.tick = r at htick
  obtain ⟨ln₁, action⟩ := r
  dsimp only
  split
  · exact .held htick
  cases action with
  | StartElection =>
    have h : Turn peers ln (begin_campaign ln₁ timeout).1 :=
      htick.turn (begin_campaign_turn ln₁ timeout)
    dsimp only
    generalize begin_campaign ln₁ timeout = r at h
    obtain ⟨ln₂, e | params⟩ := r <;> exact h
  | StartPreVote =>
    refine .held (htick.trans ?_)
    dsimp only
    unfold LogicalNode.into_pre_candidate
    split
    · exact .out rfl le_rfl (by simp [Idles, LogicalNode.withRole, LogicalNode.node_role,
        RaftNode.transition, RoleState.node_role])
    · exact .refl ln₁
  | SendHeartbeat => exact .held htick
  | StepDown => exact .held htick
  | Stop => exact .held htick
  | None => exact .held htick

/-! ## What the channel shows -/

/-- The role, and the term and the confirmed epoch unless the node has halted. -/
structure Shown (sh : ConsensusShell α) : Prop where
  role : sh.progress.role = sh.inner.node_role
  healthy : sh.inner.is_poisoned = false → sh.progress.term = sh.inner.current_term ∧
    sh.progress.confirmed_read_epoch = sh.inner.try_consensus_progress.confirmed_read_epoch

theorem try_consensus_progress_term (hp : ln.is_poisoned = false) :
    ln.try_consensus_progress.term = ln.current_term := by
  unfold LogicalNode.try_consensus_progress
  cases hst : ln.node.state with
  | Poisoned => simp [LogicalNode.is_poisoned, hst, RoleState.node_role] at hp
  | _ => rfl

theorem Shown.new (ln : LogicalNode α) : Shown (.new ln) :=
  ⟨try_consensus_progress_role ln, fun hp => ⟨try_consensus_progress_term hp, rfl⟩⟩

theorem shown_iff :
    Shown sh ↔ Reflects (fun progress => (progress.term, progress.confirmed_read_epoch)) sh := by
  constructor
  · intro h
    refine ⟨h.role, fun hp => ?_⟩
    obtain ⟨hterm, hepoch⟩ := h.healthy hp
    rw [hterm, hepoch, try_consensus_progress_term hp]
  · intro h
    refine ⟨h.role, fun hp => ?_⟩
    obtain ⟨hterm, hepoch⟩ := Prod.mk.inj (h.healthy hp)
    exact ⟨hterm.trans (try_consensus_progress_term hp), hepoch⟩

theorem Shown.write (h : Shown sh) (f : LogicalNode α → Handled α X) : Shown (sh.write f).1 :=
  shown_iff.mpr ((shown_iff.mp h).write f)

/-- A turn of the node, of which the channel tells. -/
structure Turned (peers : List NodeId) (sh sh' : ConsensusShell α) : Prop where
  turn : Turn peers sh.inner sh'.inner
  shown : Shown sh → Shown sh'

theorem Turned.same (sh : ConsensusShell α) : Turned peers sh sh := ⟨.held (.refl _), id⟩

theorem Turned.write {f : LogicalNode α → Handled α X} (h : Turn peers sh.inner (f sh.inner).1) :
    Turned peers sh (sh.write f).1 := by
  refine ⟨?_, fun hshown => hshown.write f⟩
  rw [ConsensusShell.write_inner]
  exact h.afterHandler

/-- What becomes of the role in a task that is told of no answer to a request of a round. -/
theorem TaskStep.turned {cfg : Config} {n peer : NodeId} {reply : Option (Message α)}
    {timeout : Nat} {task : SpawnedTask α} (hstep : TaskStep cfg n peer reply timeout sh task sh')
    (hreply : ∀ src req resp, reply ≠ some (.AppendReply src req resp)) :
    Turned (cfg.peer_ids n) sh sh' := by
  cases hstep with
  | idle => exact .same sh
  | steppedDown => exact .write (.held (stepDown_steady _ timeout).toHeld)
  | observed req pending granted resp =>
    exact .write (.held (observe_pre_vote_term_steady _ _ _).toHeld)
  | stood => exact .write (begin_campaign_turn _ timeout)
  | counted params => exact .write (process_vote_response_turn _ _ _ _ _)
  | promoted => exact .write (into_leader_turn _ _)
  | prepared params => exact .write (.held (prepare_replication_steady _ peer params).toHeld)
  | responded params unsent awaiting req resp hresp => exact absurd hresp (hreply _ _ _)
  | failed err => exact .write (.held (Held.refl _).poison)

/-! ## The timer of a leader -/

theorem begin_campaign_timed (ln : LogicalNode α) (timeout : Nat) :
    Timed ln (begin_campaign ln timeout).1 := by
  unfold begin_campaign
  split
  · exact (Steady.refl ln).timed
  rcases into_candidate_cases ln timeout with ⟨heq, -⟩ | ⟨p, heq⟩ | ⟨heq, -⟩
  · rw [heq]
    exact (Steady.refl ln).timed
  · rw [heq]
    exact (Steady.refl ln).poison.timed
  · rw [heq]
    exact .out rfl rfl (by simp [campaigning, LogicalNode.node_role, RaftNode.transition,
      RoleState.node_role])

/-- Only a candidate is promoted. -/
theorem into_leader_timed (hrole : ln.node_role ≠ .Candidate) (peer_ids : List NodeId) :
    Timed ln (ln.into_leader peer_ids).1 := by
  unfold LogicalNode.into_leader
  split
  · rename_i c hst
    simp [LogicalNode.node_role, hst, RoleState.node_role] at hrole
  · exact (Steady.refl ln).timed

theorem process_vote_response_timed (hrole : ln.node_role ≠ .Candidate) (term : Nat)
    (peer_ids : List NodeId) (peer_id : NodeId) (resp : RequestVoteResponse) (timeout : Nat) :
    Timed ln (process_vote_response ln term peer_ids peer_id resp timeout).1 := by
  by_cases hgt : resp.term > term
  · rw [process_vote_response_overtaken hgt]
    exact (into_follower_steady ln resp.term none timeout).timed
  unfold process_vote_response
  rw [if_neg hgt]
  split
  · split
    · exact (Steady.refl ln).timed
    split
    · rename_i c hst
      simp [LogicalNode.node_role, hst, RoleState.node_role] at hrole
    · exact (Steady.refl ln).timed
  · exact (Steady.refl ln).timed

theorem acknowledge_heartbeat_timer (l : Leader) (peer_id : NodeId) (quorum_size : Nat) :
    (l.acknowledge_heartbeat peer_id quorum_size).last_heartbeat = l.last_heartbeat := by
  unfold Leader.acknowledge_heartbeat
  dsimp only
  split <;> rfl

theorem process_replication_response_timed (ln : LogicalNode α) (term : Nat) (peer_id : NodeId)
    (outcome : ReplicationOutcome) (timeout : Nat) :
    Timed ln (process_replication_response ln term peer_id outcome timeout).1 := by
  by_cases hcounts : Counts ln term outcome
  swap
  · exact (process_replication_response_uncounted hcounts).timed
  obtain ⟨hle, hrole, hterm⟩ := hcounts
  cases hst : ln.node.state with
  | Leader l =>
    have hack : Timed ln (acknowledged ln l peer_id) :=
      .relead hst (acknowledge_heartbeat_timer l peer_id _)
    exact hack.trans (process_replication_response_counted hst hle hterm).timed
  | _ => simp [LogicalNode.node_role, hst, RoleState.node_role] at hrole

theorem prepare_probe_timed (sh : ConsensusShell α) : Timed sh.inner sh.prepare_probe.1.inner := by
  refine Timed.write ?_
  split
  · exact (Steady.refl _).timed
  · rename_i l hst
    have hprobe : (l.prepare_read_probe sh.inner.node_id).1.last_heartbeat = l.last_heartbeat := by
      unfold Leader.prepare_read_probe
      dsimp only
      split <;> rfl
    generalize l.prepare_read_probe sh.inner.node_id = r at hprobe
    exact .relead hst hprobe
  · exact (Steady.refl _).timed

/-- No task moves the clock, and none but that of a candidate makes a leader. -/
theorem TaskStep.timed {cfg : Config} {n peer : NodeId} {reply : Option (Message α)}
    {timeout : Nat} {task : SpawnedTask α} (hstep : TaskStep cfg n peer reply timeout sh task sh')
    (hrole : sh.inner.node_role ≠ .Candidate) : Timed sh.inner sh'.inner := by
  cases hstep with
  | idle => exact (Steady.refl _).timed
  | steppedDown => exact .write (stepDown_steady _ timeout).timed
  | observed req pending granted resp => exact .write (observe_pre_vote_term_steady _ _ _).timed
  | stood => exact .write (begin_campaign_timed _ timeout)
  | counted params => exact .write (process_vote_response_timed hrole _ _ _ _ _)
  | promoted => exact .write (into_leader_timed hrole _)
  | prepared params => exact .write (prepare_replication_steady _ peer params).timed
  | responded params => exact .write (process_replication_response_timed _ _ _ _ _)
  | failed err => exact .write (Steady.refl _).poison.timed

theorem ServeStep.wrote {timeout : Nat} {request : Message α}
    (hstep : ServeStep timeout sh request sh') :
    ∃ (X : Type) (f : LogicalNode α → Handled α X),
      sh' = (sh.write f).1 ∧ Steady sh.inner (f sh.inner).1 := by
  cases hstep with
  | preVoted dst req => exact ⟨_, _, rfl, handle_pre_vote_steady _ _ _ _⟩
  | voted dst req => exact ⟨_, _, rfl, handle_request_vote_steady _ _ _ _ _ _⟩
  | appended dst req => exact ⟨_, _, rfl, handle_append_entries_steady _ _ _ _ _ _ _ _⟩

theorem ServeStep.steady {timeout : Nat} {request : Message α}
    (hstep : ServeStep timeout sh request sh') : Steady sh.inner sh'.inner := by
  obtain ⟨X, f, rfl, hf⟩ := hstep.wrote
  rw [ConsensusShell.write_inner]
  exact hf.afterHandler

theorem ServeStep.turned {timeout : Nat} {request : Message α}
    (hstep : ServeStep timeout sh request sh') : Turned peers sh sh' := by
  obtain ⟨X, f, rfl, hf⟩ := hstep.wrote
  exact .write (.held hf.toHeld)

end raft_engine.roles
