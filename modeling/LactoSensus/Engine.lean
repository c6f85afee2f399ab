-- The logical node: one physical node in one of the roles, its clock, and the
-- handlers of the consensus messages. A violated invariant poisons the node and
-- panics; the disk outlives the poisoned node.
import LactoSensus.Node

open common.types
open journal
open raft_engine.storage
open raft_engine.node

namespace raft_engine.engine

variable {α R : Type}

/-- For how many ticks a pre-candidate waits. -/
def PRE_VOTE_CAMPAIGN_TICKS : Nat := 8

/-- The role of a node without the data of that role. -/
inductive NodeRole where
  | Follower
  | PreCandidate
  | Candidate
  | Leader
  | Poisoned
deriving DecidableEq, Repr

/-- The role of a node with the data of that role. -/
inductive RoleState where
  | Follower (state : node.Follower)
  | PreCandidate (state : node.PreCandidate)
  | Candidate (state : node.Candidate)
  | Leader (state : node.Leader)
  | Poisoned
deriving DecidableEq

/-- Forget the data of the role. -/
def RoleState.node_role : RoleState → NodeRole
  | .Follower _ => .Follower
  | .PreCandidate _ => .PreCandidate
  | .Candidate _ => .Candidate
  | .Leader _ => .Leader
  | .Poisoned => .Poisoned

/-- What is published of a node after every mutation. -/
structure ConsensusProgress where
  term : Nat
  role : NodeRole
  last_log_index : Nat
  last_committed : Nat
  last_applied : Nat
  leader_hint : Option NodeId
  confirmed_read_epoch : Nat
deriving DecidableEq, Repr

/-- What a task panics with: the error of the Halt Mandate, or an access to a
node that is already poisoned. -/
inductive Panic where
  | HaltMandate (err : NodeError)
  | NodePoisoned
deriving DecidableEq, Repr

/-- The election timeouts of the source are random draws; here each handler that
draws one takes it as an argument. -/
structure LogicalNode (α : Type) where
  node : RaftNode α RoleState
  current_tick : Nat
  heartbeat_interval : Nat
deriving DecidableEq

/-- What a handler leaves behind, and what it returns unless it panicked. -/
abbrev Handled (α X : Type) := LogicalNode α × Except Panic X

/-- The node has violated an invariant and answers no more. -/
def LogicalNode.is_poisoned (ln : LogicalNode α) : Bool := ln.node.state.node_role = .Poisoned

def LogicalNode.node_role (ln : LogicalNode α) : NodeRole := ln.node.state.node_role

theorem LogicalNode.is_poisoned_iff (ln : LogicalNode α) :
    ln.is_poisoned = true ↔ ln.node_role = .Poisoned := by
  simp [LogicalNode.is_poisoned, LogicalNode.node_role]

def LogicalNode.current_term (ln : LogicalNode α) : Nat := ln.node.current_term

def LogicalNode.last_log_index (ln : LogicalNode α) : Nat := ln.node.last_log_index

def LogicalNode.last_log_term (ln : LogicalNode α) : Nat := ln.node.last_log_term

def LogicalNode.last_committed (ln : LogicalNode α) : Nat := ln.node.last_committed

def LogicalNode.last_applied (ln : LogicalNode α) : Nat := ln.node.last_applied

def LogicalNode.node_id (ln : LogicalNode α) : NodeId := ln.node.node_id

def LogicalNode.get_term_at (ln : LogicalNode α) (index : Nat) : Nat := ln.node.get_term_at index

/-- The role is lost, and with it the data of the role; the log stays. -/
def LogicalNode.poison (ln : LogicalNode α) : LogicalNode α :=
  { ln with node := ln.node.transition .Poisoned }

/-- The Halt Mandate: poison the node and panic. -/
def LogicalNode.apply_fatal {X : Type} (ln : LogicalNode α) (err : NodeError) : Handled α X :=
  (ln.poison, .error (.HaltMandate err))

/-- Put a node of one role back under the logical node. -/
def LogicalNode.withRole (ln : LogicalNode α) (n : RaftNode α R) (wrap : R → RoleState) :
    LogicalNode α :=
  { ln with node := n.transition (wrap n.state) }

/-- A poisoned node shows nothing but its role. -/
def LogicalNode.try_consensus_progress (ln : LogicalNode α) : ConsensusProgress :=
  let healthy (leader_hint : Option NodeId) (confirmed_read_epoch : Nat) : ConsensusProgress :=
    ⟨ln.current_term, ln.node_role, ln.last_log_index, ln.last_committed, ln.last_applied,
      leader_hint, confirmed_read_epoch⟩
  match ln.node.state with
  | .Poisoned => ⟨0, .Poisoned, 0, 0, 0, none, 0⟩
  | .Follower f => healthy f.leader_id 0
  | .PreCandidate _ => healthy none 0
  | .Candidate _ => healthy none 0
  | .Leader l => healthy (some ln.node_id) l.confirmed_read_epoch

/-! ## Role transitions -/

/-- A term that goes back halts the node. -/
def LogicalNode.into_follower (ln : LogicalNode α) (term : Nat) (leader_id : Option NodeId)
    (timeout : Nat) : Handled α Unit :=
  if ln.is_poisoned then (ln, .error .NodePoisoned)
  else
    match ln.node.try_into_follower term leader_id ln.current_tick timeout with
    | (n, .ok ()) => (ln.withRole n .Follower, .ok ())
    | (n, .error e) => (ln.withRole n .Follower).apply_fatal e

/-- Take over the result of a transition to candidate. -/
def LogicalNode.enterCandidate (ln : LogicalNode α) :
    RaftNode α Candidate × Except NodeError Unit → Handled α Unit
  | (n, .ok ()) => (ln.withRole n .Candidate, .ok ())
  | (n, .error e) => (ln.withRole n .Candidate).apply_fatal e

/-- A leader stays one. -/
def LogicalNode.into_candidate (ln : LogicalNode α) (timeout : Nat) : Handled α Unit :=
  match ln.node.state with
  | .Follower f =>
    ln.enterCandidate ((ln.node.transition f).try_into_candidate ln.current_tick timeout)
  | .PreCandidate p =>
    ln.enterCandidate ((ln.node.transition p).try_into_candidate ln.current_tick timeout)
  | .Candidate c =>
    ln.enterCandidate
      ((ln.node.transition c).try_into_restarted_candidate ln.current_tick timeout)
  | .Leader _ => (ln, .ok ())
  | .Poisoned => (ln, .ok ())

/-- Only a follower asks for pre-votes. -/
def LogicalNode.into_pre_candidate (ln : LogicalNode α) : LogicalNode α :=
  match ln.node.state with
  | .Follower _ =>
    ln.withRole
      (ln.node.transition (PreCandidate.mk ln.current_tick PRE_VOTE_CAMPAIGN_TICKS))
      .PreCandidate
  | _ => ln

/-- Only a candidate comes to lead. -/
def LogicalNode.into_leader (ln : LogicalNode α) (peer_ids : List NodeId) : Handled α Unit :=
  match ln.node.state with
  | .Candidate c =>
    match (ln.node.transition c).try_into_leader peer_ids ln.current_tick with
    | .ok n => (ln.withRole n .Leader, .ok ())
    | .error e => ln.apply_fatal e
  | _ => (ln, .ok ())

/-! ## The clock -/

/-- One tick of the clock, and what the role asks for at it. -/
def LogicalNode.tick (ln : LogicalNode α) : LogicalNode α × TickAction :=
  let now := ln.current_tick + 1
  let action := match ln.node.state with
    | .Follower f => f.evaluate_tick now
    | .PreCandidate p => p.evaluate_tick now
    | .Candidate c => c.evaluate_tick now
    | .Leader l => l.evaluate_tick now ln.heartbeat_interval
    | .Poisoned => .Stop
  ({ ln with current_tick := now }, action)

/-- The timers of a follower and of a leader start again. -/
def LogicalNode.reset_heartbeat (ln : LogicalNode α) : LogicalNode α :=
  match ln.node.state with
  | .Follower f =>
    { ln with
      node := { ln.node with state := .Follower { f with last_heartbeat := ln.current_tick } } }
  | .Leader l =>
    { ln with
      node := { ln.node with state := .Leader { l with last_heartbeat := ln.current_tick } } }
  | _ => ln

/-! ## Commitment -/

/-- A commit index that the log does not reach halts the node. -/
def LogicalNode.advance_last_committed (ln : LogicalNode α) (index : Nat) : Handled α Unit :=
  if ln.is_poisoned then (ln, .error .NodePoisoned)
  else
    match ln.node.advance_last_committed index with
    | (n, .ok ()) => ({ ln with node := n }, .ok ())
    | (n, .error e) => ({ ln with node := n } : LogicalNode α).apply_fatal e

/-- The caller decides what to do with the error. -/
def LogicalNode.advance_horizon_after_snapshot (ln : LogicalNode α) (index : Nat) :
    Handled α (Except NodeError Unit) :=
  if ln.is_poisoned then (ln, .error .NodePoisoned)
  else
    match ln.node.advance_horizon_after_snapshot index with
    | (n, res) => ({ ln with node := n }, .ok res)

/-- The horizon is written only under a healthy node. -/
def LogicalNode.save_snapshot_metadata (ln : LogicalNode α) (index term : Nat) :
    Handled α Unit :=
  if ln.is_poisoned then (ln, .error .NodePoisoned)
  else ({ ln with node := ln.node.save_snapshot_metadata index term }, .ok ())

/-! ## Messages -/

/-- Whether a request comes from the leader of the term or from an earlier one. -/
inductive TermCheckResult where
  | Valid
  | Stale
deriving DecidableEq, Repr

/-- The error of a leader that hears of another leader in its term. -/
def rivalLeader (leader_id : NodeId) (req_term : Nat) (rpc_name : String) : NodeError :=
  .Protocol (s!"CRITICAL SAFETY VIOLATION: Rival leader {leader_id} detected for term " ++
    s!"{req_term} during {rpc_name}. Halting node.")

/-- Whoever leads this term or a later one is followed; a rival in the same term halts a leader. -/
def LogicalNode.validate_leader_rpc_term (ln : LogicalNode α) (req_term : Nat)
    (leader_id : NodeId) (rpc_name : String) (timeout : Nat) : Handled α TermCheckResult :=
  let demote : Handled α TermCheckResult :=
    match ln.into_follower req_term (some leader_id) timeout with
    | (ln, .ok ()) => (ln, .ok .Valid)
    | (ln, .error p) => (ln, .error p)
  if ln.is_poisoned then (ln, .error .NodePoisoned)
  else if req_term < ln.current_term then (ln, .ok .Stale)
  else if req_term > ln.current_term then demote
  else
    match ln.node.state with
    | .Candidate _ => demote
    | .Leader _ => ln.apply_fatal (rivalLeader leader_id req_term rpc_name)
    | .Follower f =>
      ({ ln with
        node := { ln.node with state := .Follower { f with leader_id := some leader_id } } },
        .ok .Valid)
    | .PreCandidate _ => demote
    | .Poisoned => (ln, .ok .Valid)

/-- The answer to `AppendEntries`; `conflict_index` is where the log ends. -/
structure AppendEntriesResult where
  term : Nat
  success : Bool
  conflict_index : Nat
deriving DecidableEq, Repr

/-- A request that is not stale starts the timer again before the logs are compared. -/
def LogicalNode.handle_append_entries (ln : LogicalNode α) (leader_id : NodeId)
    (req_term req_prev_log_index req_prev_log_term : Nat) (entries : List (LogEntry α))
    (req_leader_commit : Nat) (timeout : Nat) : Handled α AppendEntriesResult :=
  let current_term := ln.current_term
  match ln.validate_leader_rpc_term req_term leader_id "AppendEntries" timeout with
  | (ln, .error p) => (ln, .error p)
  | (ln, .ok .Stale) => (ln, .ok ⟨current_term, false, 0⟩)
  | (ln, .ok .Valid) =>
    let ln := ln.reset_heartbeat
    match ln.node.state with
    | .Follower f =>
      match (ln.node.transition f).reconcile_log req_prev_log_index req_prev_log_term entries
        req_leader_commit with
      | (n, .ok result) =>
        let ln := ln.withRole n .Follower
        (ln, .ok ⟨ln.current_term, result.success, result.last_index⟩)
      | (n, .error e) => (ln.withRole n .Follower).apply_fatal e
    | _ => (ln, .ok ⟨ln.current_term, false, 0⟩)

/-- The answer to a request for a vote, and to one for a pre-vote. -/
structure RequestVoteResult where
  term : Nat
  vote_granted : Bool
deriving DecidableEq, Repr

/-- The second half of `handle_request_vote`: only a follower gives its vote. -/
def LogicalNode.decideVote (ln : LogicalNode α) (candidate_id : NodeId)
    (req_term req_last_log_index req_last_log_term : Nat) : Handled α RequestVoteResult :=
  match ln.node.state with
  | .Follower f =>
    match (ln.node.transition f).attempt_grant_vote candidate_id req_term req_last_log_index
      req_last_log_term with
    | (n, vote_granted) =>
      let ln := ln.withRole n .Follower
      (ln, .ok ⟨ln.current_term, vote_granted⟩)
  | _ => (ln, .ok ⟨ln.current_term, false⟩)

/-- A later term makes a follower of the node before it decides. -/
def LogicalNode.handle_request_vote (ln : LogicalNode α) (candidate_id : NodeId)
    (req_term req_last_log_index req_last_log_term : Nat) (timeout : Nat) :
    Handled α RequestVoteResult :=
  if ln.is_poisoned then (ln, .error .NodePoisoned)
  else if req_term > ln.current_term then
    match ln.into_follower req_term none timeout with
    | (ln, .ok ()) => ln.decideVote candidate_id req_term req_last_log_index req_last_log_term
    | (ln, .error p) => (ln, .error p)
  else ln.decideVote candidate_id req_term req_last_log_index req_last_log_term

/-- Reads only: no term, vote, role or timer changes. -/
def LogicalNode.handle_pre_vote (ln : LogicalNode α)
    (req_term req_last_log_index req_last_log_term : Nat) : Handled α RequestVoteResult :=
  if ln.is_poisoned then (ln, .error .NodePoisoned)
  else
    let vote_granted := match ln.node.state with
      | .Follower f =>
        (ln.node.transition f).grant_pre_vote req_term req_last_log_index req_last_log_term
      | _ => false
    (ln, .ok ⟨ln.current_term, vote_granted⟩)

/-- The outer result is the panic, the inner one what `propose` returns. -/
def LogicalNode.propose (ln : LogicalNode α) (command : α) :
    Handled α (Except NodeError Nat) :=
  match ln.node.state with
  | .Leader l =>
    match (ln.node.transition l).propose command with
    | (n, .ok idx) => (ln.withRole n .Leader, .ok (.ok idx))
    | (n, .error e) => (ln.withRole n .Leader).apply_fatal e
  | .Poisoned => (ln, .error .NodePoisoned)
  | _ => (ln, .ok (.error (.NotLeader ln.node.voted_for)))

/-- What becomes of a snapshot that is offered. -/
inductive SnapshotAction where
  | Accepted
  | Rejected
  | Stale
deriving DecidableEq, Repr

/-- The answer to `InstallSnapshot`, before anything is restored. -/
structure InstallSnapshotResult where
  term : Nat
  action : SnapshotAction
deriving DecidableEq, Repr

/-- A snapshot of what is applied already is stale. An accepted one cuts nothing here. -/
def LogicalNode.handle_install_snapshot (ln : LogicalNode α) (leader_id : NodeId)
    (req_term last_included_index : Nat) (timeout : Nat) : Handled α InstallSnapshotResult :=
  let current_term := ln.current_term
  match ln.validate_leader_rpc_term req_term leader_id "InstallSnapshot" timeout with
  | (ln, .error p) => (ln, .error p)
  | (ln, .ok .Stale) => (ln, .ok ⟨current_term, .Rejected⟩)
  | (ln, .ok .Valid) =>
    if last_included_index ≤ ln.last_applied then (ln, .ok ⟨current_term, .Stale⟩)
    else
      let ln := ln.reset_heartbeat
      (ln, .ok ⟨ln.current_term, .Accepted⟩)

/-- The writes of the handler are on disk. -/
def LogicalNode.settle (ln : LogicalNode α) : LogicalNode α :=
  { ln with node := { ln.node with log_store := .settled ln.node.disk } }

/-- A node starts as a follower with what its disk holds, unless the state
machine is ahead of the commit index on disk. -/
def LogicalNode.try_new (node_id : NodeId) (fsm_applied : Nat) (log_store : SledStorage α)
    (heartbeat_interval timeout : Nat) : Except NodeError (LogicalNode α) :=
  if fsm_applied > log_store.last_committed then
    .error (.Protocol (s!"Causal invariant violation: FSM applied index {fsm_applied} is " ++
      s!"ahead of LogStore committed index {log_store.last_committed}"))
  else
    let n := RaftNode.try_new_with_applied node_id log_store fsm_applied 0 timeout
    .ok ⟨n.transition (.Follower n.state), 0, heartbeat_interval⟩

end raft_engine.engine
