-- The physical node of the engine: the roles with the data each one carries,
-- and what a node can do in each role. The type of the role is a parameter of
-- the node, as in the source, so a follower's methods exist only on followers.
import Mathlib.Data.Finset.Card
import LactoSensus.Storage

open common.types
open journal
open ordmap
open raft_engine.storage

namespace raft_engine.node

variable {α R : Type}

/-- What a role asks for when the clock has moved. -/
inductive TickAction where
  | None
  | StartElection
  | StartPreVote
  | StepDown
  | SendHeartbeat
  | Stop
deriving DecidableEq, Repr

/-! ## Roles -/

/-- A follower waits `timeout` ticks for the next word of its leader. -/
structure Follower where
  leader_id : Option NodeId
  last_heartbeat : Nat
  timeout : Nat
deriving DecidableEq, Repr

/-- The election timer. -/
def Follower.evaluate_tick (f : Follower) (now : Nat) : TickAction :=
  if now ≥ f.last_heartbeat ∧ now - f.last_heartbeat ≥ f.timeout then .StartPreVote else .None

/-- A node that asks whether a campaign would be of use. -/
structure PreCandidate where
  campaign_start : Nat
  timeout : Nat
deriving DecidableEq, Repr

/-- A round of pre-votes that has lasted too long is given up. -/
def PreCandidate.evaluate_tick (p : PreCandidate) (now : Nat) : TickAction :=
  if now - p.campaign_start ≥ p.timeout then .StepDown else .None

/-- `votes_received` is the `HashSet` of the source. -/
structure Candidate where
  votes_received : Finset NodeId
  election_start : Nat
  timeout : Nat
deriving DecidableEq

/-- Nobody has voted yet, not even the node itself. -/
def Candidate.new (election_start : Nat) (timeout : Nat) : Candidate :=
  ⟨∅, election_start, timeout⟩

/-- A second vote of one peer counts for nothing. -/
def Candidate.add_vote (c : Candidate) (peer_id : NodeId) : Candidate :=
  { c with votes_received := insert peer_id c.votes_received }

def Candidate.vote_count (c : Candidate) : Nat := c.votes_received.card

/-- A campaign that has lasted too long is begun again, in the next term. -/
def Candidate.evaluate_tick (c : Candidate) (now : Nat) : TickAction :=
  if now - c.election_start ≥ c.timeout then .StartElection else .None

/-- What a leader knows of its peers, and how far its reads are confirmed. -/
structure Leader where
  next_index : OrdMap NodeId Nat
  match_index : OrdMap NodeId Nat
  last_heartbeat : Nat
  current_read_epoch : Nat
  confirmed_read_epoch : Nat
  heartbeat_acks : Finset NodeId
deriving DecidableEq

/-- The two maps start with the same keys, one for each peer. -/
def Leader.new (peer_ids : List NodeId) (last_log_index : Nat) (last_heartbeat : Nat) :
    Except NodeError Leader :=
  let fill (v : Nat) : OrdMap NodeId Nat :=
    OrdMap.empty.insertAll (peer_ids.map fun p => (p, v))
  if peer_ids = [] then
    .ok ⟨.empty, .empty, last_heartbeat, 0, 0, ∅⟩
  else
    match checked_add "LogIndex" last_log_index 1 with
    | .error e => .error (.Arithmetic e)
    | .ok next => .ok ⟨fill next, fill 0, last_heartbeat, 0, 0, ∅⟩

/-- The heartbeat timer. -/
def Leader.evaluate_tick (l : Leader) (now : Nat) (threshold : Nat) : TickAction :=
  if now - l.last_heartbeat ≥ threshold then .SendHeartbeat else .None

/-- A new epoch begins only when the last one is confirmed; the leader acknowledges itself. -/
def Leader.prepare_read_probe (l : Leader) (self_id : NodeId) : Leader × Nat :=
  let l := if l.confirmed_read_epoch = l.current_read_epoch then
      { l with current_read_epoch := l.current_read_epoch + 1, heartbeat_acks := {self_id} }
    else l
  (l, l.current_read_epoch)

/-- With a quorum of acknowledgements the epoch that is open is confirmed. -/
def Leader.acknowledge_heartbeat (l : Leader) (peer_id : NodeId) (quorum_size : Nat) : Leader :=
  let l := { l with heartbeat_acks := insert peer_id l.heartbeat_acks }
  if l.heartbeat_acks.card ≥ quorum_size then
    { l with confirmed_read_epoch := l.current_read_epoch }
  else l

/-! ## The shared node -/

/-- A node over its disk. `last_committed` and `last_applied` are kept in memory. -/
structure RaftNode (α R : Type) where
  node_id : NodeId
  log_store : Journal (SledStorage α)
  last_committed : Nat
  last_applied : Nat
  state : R
deriving DecidableEq

/-- What a read of the log finds. -/
def RaftNode.disk (n : RaftNode α R) : SledStorage α := n.log_store.now

def RaftNode.current_term (n : RaftNode α R) : Nat := n.disk.current_term

def RaftNode.voted_for (n : RaftNode α R) : Option NodeId := n.disk.voted_for

def RaftNode.last_log_index (n : RaftNode α R) : Nat := n.disk.last_log_index

def RaftNode.last_log_term (n : RaftNode α R) : Nat := n.disk.last_log_term

def RaftNode.last_included_index (n : RaftNode α R) : Nat := n.disk.last_included_index

def RaftNode.last_included_term (n : RaftNode α R) : Nat := n.disk.last_included_term

/-- Snapshot metadata is authoritative for truncated history. -/
def RaftNode.get_term_at (n : RaftNode α R) (index : Nat) : Nat :=
  if index = 0 then 0
  else if index = n.last_included_index then n.last_included_term
  else ((n.disk.read_entry index).map LogEntry.term).getD 0

/-- The same node in another role. -/
def RaftNode.transition {Next : Type} (n : RaftNode α R) (next_state : Next) :
    RaftNode α Next :=
  ⟨n.node_id, n.log_store, n.last_committed, n.last_applied, next_state⟩

/-- One durable write. -/
def RaftNode.write (n : RaftNode α R) (f : SledStorage α → SledStorage α) : RaftNode α R :=
  { n with log_store := n.log_store.write f }

/-- Cut the log from `index` on. -/
def RaftNode.truncate_log (n : RaftNode α R) (index : Nat) : RaftNode α R :=
  n.write (SledStorage.truncate_log index)

def RaftNode.append_entries (n : RaftNode α R) (entries : List (LogEntry α)) : RaftNode α R :=
  n.write (SledStorage.append_entries entries)

/-- Move the horizon of the log. -/
def RaftNode.save_snapshot_metadata (n : RaftNode α R) (index : Nat) (term : Nat) :
    RaftNode α R :=
  n.write (SledStorage.save_snapshot_metadata index term)

/-- The text of the error of both `advance_term`s. -/
def termRegression (current term : Nat) : NodeError :=
  .Protocol s!"Term regression detected! current={current} new={term}"

/-- A newer term takes the vote back; the same term is not written again. -/
def RaftNode.advance_term (n : RaftNode α R) (term : Nat) :
    RaftNode α R × Except NodeError Unit :=
  let current := n.current_term
  if term < current then (n, .error (termRegression current term))
  else if term > current then (n.write (SledStorage.save_hard_state term none), .ok ())
  else (n, .ok ())

/-- The term and the vote in it are one write. -/
def RaftNode.advance_term_and_vote (n : RaftNode α R) (term : Nat) (vote : NodeId) :
    RaftNode α R × Except NodeError Unit :=
  let current := n.current_term
  if term < current then (n, .error (termRegression current term))
  else (n.write (SledStorage.save_hard_state term (some vote)), .ok ())

/-- The vote in the term that the node is in. -/
def RaftNode.persist_vote (n : RaftNode α R) (candidate_id : NodeId) : RaftNode α R :=
  n.write (SledStorage.save_hard_state n.current_term (some candidate_id))

/-- A follower in the term, with a timer that starts now. -/
def RaftNode.try_into_follower (n : RaftNode α R) (term : Nat) (leader_id : Option NodeId)
    (last_heartbeat : Nat) (timeout : Nat) :
    RaftNode α Follower × Except NodeError Unit :=
  (n.transition (Follower.mk leader_id last_heartbeat timeout)).advance_term term

/-- Of a follower and of a pre-candidate; the two have one body. -/
def RaftNode.try_into_candidate (n : RaftNode α R) (election_start : Nat)
    (timeout : Nat) : RaftNode α Candidate × Except NodeError Unit :=
  let current_term := n.current_term
  let node := n.transition (Candidate.new election_start timeout)
  match checked_add "Term" current_term 1 with
  | .error e => (node, .error (.Arithmetic e))
  | .ok new_term =>
    match node.advance_term_and_vote new_term n.node_id with
    | (node, .error e) => (node, .error e)
    | (node, .ok ()) => ({ node with state := node.state.add_vote n.node_id }, .ok ())

/-- A campaign that is begun again forgets its votes. -/
def RaftNode.try_into_restarted_candidate (n : RaftNode α Candidate) (election_start : Nat)
    (timeout : Nat) : RaftNode α Candidate × Except NodeError Unit :=
  n.try_into_candidate election_start timeout

/-- The peers are taken to be as far as the leader itself. -/
def RaftNode.try_into_leader (n : RaftNode α Candidate) (peer_ids : List NodeId)
    (last_heartbeat : Nat) : Except NodeError (RaftNode α Leader) :=
  match Leader.new peer_ids n.last_log_index last_heartbeat with
  | .error e => .error e
  | .ok leader => .ok (n.transition leader)

/-- The new entry comes right after the log, in the term of the leader. -/
def RaftNode.propose (n : RaftNode α Leader) (command : α) :
    RaftNode α Leader × Except NodeError Nat :=
  match checked_add "LogIndex" n.last_log_index 1 with
  | .error e => (n, .error (.Arithmetic e))
  | .ok index => (n.append_entries [⟨index, n.current_term, command⟩], .ok index)

/-! ## Commitment -/

/-- A commit index never goes down, and never past the end of the log. -/
def RaftNode.update_commit_index_only (n : RaftNode α R) (index : Nat) :
    RaftNode α R × Except NodeError Unit :=
  if index < n.last_committed then (n, .ok ())
  else
    let last_idx := n.last_log_index
    if index > last_idx then
      (n, .error (.Protocol
        s!"Attempted to commit index {index} but last_log_index is {last_idx}"))
    else if index > n.last_committed then
      ({ n.write (SledStorage.save_last_committed index) with last_committed := index }, .ok ())
    else (n, .ok ())

def RaftNode.advance_last_committed (n : RaftNode α R) (index : Nat) :
    RaftNode α R × Except NodeError Unit :=
  n.update_commit_index_only index

/-- The snapshot counts as committed and as applied. -/
def RaftNode.advance_horizon_after_snapshot (n : RaftNode α R) (index : Nat) :
    RaftNode α R × Except NodeError Unit :=
  match n.update_commit_index_only index with
  | (n, .error e) => (n, .error e)
  | (n, .ok ()) => ({ n with last_applied := index }, .ok ())

/-! ## The follower -/

/-- What a follower answers: whether it took the entries, and where its log ends. -/
structure ReconciliationResult where
  success : Bool
  last_index : Nat
deriving DecidableEq, Repr

/-- The log goes up to the entry before the new ones, and has it with the same term. -/
def RaftNode.verify_log_consistency (n : RaftNode α Follower) (prev_log_index : Nat)
    (prev_log_term : Nat) : Bool :=
  if prev_log_index = 0 then true
  else if prev_log_index > n.last_log_index then false
  else n.get_term_at prev_log_index = prev_log_term

/-- The first loop of `reconcile_log`: cut the log at the first entry of another term. -/
def RaftNode.truncateConflict (n : RaftNode α Follower) :
    List (LogEntry α) → RaftNode α Follower
  | [] => n
  | entry :: entries =>
    let local_term := n.get_term_at entry.index
    if local_term ≠ 0 ∧ local_term ≠ entry.term then n.truncate_log entry.index
    else n.truncateConflict entries

/-- The second loop of `reconcile_log`: the entries past the local log, or nothing
when the leader left a gap. -/
def gatherAppend (next_expected : Nat) :
    List (LogEntry α) → Except ArithmeticError (Option (List (LogEntry α)))
  | [] => .ok (some [])
  | entry :: entries =>
    if entry.index ≥ next_expected then
      if entry.index ≠ next_expected then .ok none
      else
        match checked_add "LogIndex" next_expected 1 with
        | .error e => .error e
        | .ok next =>
          match gatherAppend next entries with
          | .error e => .error e
          | .ok rest => .ok (rest.map (entry :: ·))
    else gatherAppend next_expected entries

/-- The last two parts of `reconcile_log`: the new commit index and the one write. -/
def RaftNode.persistAppend (n : RaftNode α Follower) (to_append : List (LogEntry α))
    (leader_commit : Nat) : RaftNode α Follower :=
  let commit_advance : Option Nat :=
    if leader_commit > n.last_committed then
      let last_new_idx := (to_append.getLast?.map LogEntry.index).getD n.last_log_index
      some (min leader_commit last_new_idx)
    else none
  match to_append.isEmpty, commit_advance with
  | true, none => n
  | true, some commit =>
    { n.write (SledStorage.save_last_committed commit) with last_committed := commit }
  | false, none => n.append_entries to_append
  | false, some commit =>
    -- one flush, but two writes in program order
    { (n.append_entries to_append).write (SledStorage.save_last_committed commit) with
      last_committed := commit }

/-- Make the log go on as that of the leader, and take over the commit index. -/
def RaftNode.reconcile_log (n : RaftNode α Follower) (prev_log_index : Nat)
    (prev_log_term : Nat) (entries : List (LogEntry α)) (leader_commit : Nat) :
    RaftNode α Follower × Except NodeError ReconciliationResult :=
  if n.verify_log_consistency prev_log_index prev_log_term = false then
    (n, .ok ⟨false, n.last_log_index⟩)
  else
    let n := n.truncateConflict entries
    match checked_add "LogIndex" n.last_log_index 1 with
    | .error e => (n, .error (.Arithmetic e))
    | .ok next_expected =>
      match gatherAppend next_expected entries with
      | .error e => (n, .error (.Arithmetic e))
      | .ok none => (n, .ok ⟨false, n.last_log_index⟩)
      | .ok (some to_append) =>
        let n := n.persistAppend to_append leader_commit
        (n, .ok ⟨true, n.last_log_index⟩)

/-- The later last term wins; in one term the longer log does. -/
def RaftNode.is_log_up_to_date (n : RaftNode α Follower) (candidate_last_log_term : Nat)
    (candidate_last_log_index : Nat) : Bool :=
  if candidate_last_log_term ≠ n.last_log_term then
    candidate_last_log_term > n.last_log_term
  else
    candidate_last_log_index ≥ n.last_log_index

/-- A vote goes to one candidate of a term, whose log is not behind. -/
def RaftNode.attempt_grant_vote (n : RaftNode α Follower) (candidate_id : NodeId)
    (req_term : Nat) (req_last_log_index : Nat) (req_last_log_term : Nat) :
    RaftNode α Follower × Bool :=
  if req_term = n.current_term ∧ (n.voted_for = none ∨ n.voted_for = some candidate_id) ∧
      n.is_log_up_to_date req_last_log_term req_last_log_index then
    (n.persist_vote candidate_id, true)
  else (n, false)

/-- A pre-vote binds nobody: nothing is written. -/
def RaftNode.grant_pre_vote (n : RaftNode α Follower) (req_term : Nat)
    (req_last_log_index : Nat) (req_last_log_term : Nat) : Bool :=
  if req_term < n.current_term then false
  else n.is_log_up_to_date req_last_log_term req_last_log_index

/-- `try_new_with_applied`: a node that starts reads its commit index from disk. -/
def RaftNode.try_new_with_applied (node_id : NodeId) (log_store : SledStorage α)
    (last_applied : Nat) (last_heartbeat : Nat) (timeout : Nat) :
    RaftNode α Follower :=
  ⟨node_id, .settled log_store, log_store.last_committed, last_applied,
    ⟨none, last_heartbeat, timeout⟩⟩

end raft_engine.node
