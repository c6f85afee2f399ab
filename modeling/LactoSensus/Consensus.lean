-- What the campaign and replication tasks do with the node while they hold its
-- lock: count a vote, build a request for a peer, take over a response, move
-- the commit index of a leader.
import LactoSensus.Engine
import LactoSensus.Lib.Quorum

open common.types
open ordmap
open quorum
open raft_engine.storage
open raft_engine.node
open raft_engine.engine

namespace raft_engine.consensus

variable {α : Type}

/-! ## Messages -/

/-- `PreVoteRequest` has the same fields. -/
structure RequestVoteRequest where
  term : Nat
  candidate_id : NodeId
  last_log_index : Nat
  last_log_term : Nat
deriving DecidableEq, Repr

/-- `PreVoteResponse` has the same fields. -/
structure RequestVoteResponse where
  term : Nat
  vote_granted : Bool
deriving DecidableEq, Repr

/-- A heartbeat is a request without entries. -/
structure AppendEntriesRequest (α : Type) where
  term : Nat
  leader_id : NodeId
  prev_log_index : Nat
  prev_log_term : Nat
  entries : List (LogEntry α)
  leader_commit : Nat
deriving DecidableEq, Repr

/-- The answer of a follower, with the end of its log. -/
structure AppendEntriesResponse where
  term : Nat
  success : Bool
  last_log_index : Nat
deriving DecidableEq, Repr

/-! ## Elections -/

/-- What a campaign was begun with; the node may be elsewhere when an answer comes. -/
structure ElectionCampaignParams where
  term : Nat
  node_id : NodeId
  last_log_index : Nat
  last_log_term : Nat
deriving DecidableEq, Repr

/-- The request that goes to every peer. -/
def ElectionCampaignParams.request (p : ElectionCampaignParams) : RequestVoteRequest :=
  ⟨p.term, p.node_id, p.last_log_index, p.last_log_term⟩

/-- What the task of the campaign does after an answer. -/
inductive VoteAction where
  | QuorumReached
  | Demoted
  | Continue
deriving DecidableEq, Repr

/-- A majority of the peers and the node itself. -/
def quorumOf (peer_ids : List NodeId) : Nat :=
  let total_nodes := peer_ids.length + 1
  total_nodes / 2 + 1

/-- The part of `process_vote_response` under the lock. -/
def process_vote_response (ln : LogicalNode α) (term : Nat) (peer_ids : List NodeId)
    (peer_id : NodeId) (resp : RequestVoteResponse) (timeout : Nat) : Handled α VoteAction :=
  if resp.term > term then
    match ln.into_follower resp.term none timeout with
    | (ln, .ok ()) => (ln, .ok .Demoted)
    | (ln, .error p) => (ln, .error p)
  else if resp.vote_granted then
    if ln.is_poisoned then (ln, .error .NodePoisoned)
    else
      match ln.node.state with
      | .Candidate c =>
        if ln.current_term = term then
          let c := c.add_vote peer_id
          let ln := ln.withRole (ln.node.transition c) .Candidate
          if c.vote_count ≥ quorumOf peer_ids then
            match ln.into_leader peer_ids with
            | (ln, .ok ()) => (ln, .ok .QuorumReached)
            | (ln, .error p) => (ln, .error p)
          else (ln, .ok .Continue)
        else (ln, .ok .Continue)
      | _ => (ln, .ok .Continue)
  else (ln, .ok .Continue)

/-- A campaign of the node as it now is, `into_candidate` first. -/
def begin_campaign (ln : LogicalNode α) (timeout : Nat) : Handled α ElectionCampaignParams :=
  if ln.is_poisoned then (ln, .error .NodePoisoned)
  else
    match ln.into_candidate timeout with
    | (ln, .error p) => (ln, .error p)
    | (ln, .ok ()) =>
      (ln, .ok ⟨ln.current_term, ln.node_id, ln.last_log_index, ln.last_log_term⟩)

/-- A peer of a pre-vote campaign that reports a higher term: true when the
campaign is over. -/
def observe_pre_vote_term (ln : LogicalNode α) (peer_term : Nat) (timeout : Nat) :
    Handled α Bool :=
  if ln.is_poisoned then (ln, .error .NodePoisoned)
  else if peer_term > ln.current_term then
    match ln.into_follower peer_term none timeout with
    | (ln, .ok ()) => (ln, .ok true)
    | (ln, .error p) => (ln, .error p)
  else (ln, .ok false)

/-! ## Replication -/

/-- What a round of replication was begun with. -/
structure ReplicationRoundParams where
  term : Nat
  node_id : NodeId
  last_committed : Nat
deriving DecidableEq, Repr

/-- What is sent to a peer: entries, or the state in place of entries that are gone. -/
inductive ReplicationStrategy (α : Type) where
  | AppendEntries (req : AppendEntriesRequest α)
  | InstallSnapshot (last_included_index last_included_term : Nat)
deriving DecidableEq

/-- The inner error is the arithmetic one the caller turns into a fatal error. -/
def build_append_entries_request (ln : LogicalNode α) (peer_id : NodeId) (term : Nat)
    (node_id : NodeId) (last_committed : Nat) :
    Handled α (Except NodeError (AppendEntriesRequest α)) :=
  if ln.is_poisoned then (ln, .error .NodePoisoned)
  else
    let next_idx := match ln.node.state with
      | .Leader l => (l.next_index.get? peer_id).getD 1
      | _ => 1
    let last_log_idx := ln.last_log_index
    match checked_sub next_idx 1 with
    | .error e => (ln, .ok (.error (.Arithmetic e)))
    | .ok prev_log_index =>
      let prev_log_term := ln.get_term_at prev_log_index
      match ln.node.disk.read_entries next_idx last_log_idx with
      | .error (.Invariant msg) => ln.apply_fatal (.Protocol msg)
      | .ok entries =>
        (ln, .ok (.ok
          ⟨term, node_id, prev_log_index, prev_log_term, entries, last_committed⟩))

/-- A peer that needs an entry under the horizon is sent a snapshot. -/
def determine_replication_strategy (ln : LogicalNode α) (peer_id : NodeId)
    (params : ReplicationRoundParams) :
    Handled α (Except NodeError (Option (ReplicationStrategy α))) :=
  match ln.node.state with
  | .Leader l =>
    let next_idx := (l.next_index.get? peer_id).getD 1
    let last_included := ln.node.last_included_index
    if next_idx ≤ last_included then
      (ln, .ok (.ok (some (.InstallSnapshot last_included ln.node.last_included_term))))
    else
      match build_append_entries_request ln peer_id params.term params.node_id
        params.last_committed with
      | (ln, .ok (.ok req)) => (ln, .ok (.ok (some (.AppendEntries req))))
      | (ln, .ok (.error e)) => (ln, .ok (.error e))
      | (ln, .error p) => (ln, .error p)
  | _ => (ln, .ok (.ok none))

/-- `replicate_to_peer` prepared: a failed strategy is fatal. -/
def prepare_replication (ln : LogicalNode α) (peer_id : NodeId)
    (params : ReplicationRoundParams) : Handled α (Option (ReplicationStrategy α)) :=
  match determine_replication_strategy ln peer_id params with
  | (ln, .ok (.ok s)) => (ln, .ok s)
  | (ln, .ok (.error e)) =>
    ln.apply_fatal (.Protocol
      (s!"Replication strategy failed for peer={peer_id} at index={ln.last_log_index} " ++
        s!"in term={params.term}: " ++ e.text))
  | (ln, .error p) => (ln, .error p)

/-- A leader commits what a majority has, and only an entry of its own term. -/
def update_leader_last_committed (ln : LogicalNode α) : Handled α Unit :=
  if ln.is_poisoned then (ln, .error .NodePoisoned)
  else
    match ln.node.state with
    | .Leader l =>
      -- the leader itself counts with its last index
      let match_indices := l.match_index.values ++ [ln.last_log_index]
      let median_idx := median match_indices
      if median_idx > ln.last_committed ∧ ln.get_term_at median_idx = ln.current_term then
        ln.advance_last_committed median_idx
      else (ln, .ok ())
    | _ => (ln, .ok ())

/-- What came back from a peer, with what was sent to it. -/
inductive ReplicationOutcome where
  | AppendEntries (sent_prev_index sent_entries_len : Nat) (response : AppendEntriesResponse)
  | InstallSnapshot (last_included_index : Nat) (response_term : Nat)
deriving DecidableEq, Repr

/-- The term that the peer is in. -/
def ReplicationOutcome.term : ReplicationOutcome → Nat
  | .AppendEntries _ _ response => response.term
  | .InstallSnapshot _ response_term => response_term

/-- What the round does after an answer. -/
inductive ReplicationAction where
  | Demoted
  | Continue
deriving DecidableEq, Repr

/-- The new indices of a peer after its response, and whether the match index moved. -/
def reconcile_peer (l : Leader) (peer_id : NodeId) (term : Nat) :
    ReplicationOutcome → Except NodeError (Leader × Bool)
  | .AppendEntries sent_prev_index sent_entries_len response =>
    if response.success then
      match checked_add "LogIndex" sent_prev_index sent_entries_len with
      | .error e => .error (.Protocol
          (s!"Arithmetic overflow calculating match_index for peer={peer_id} " ++
            s!"(prev={sent_prev_index} len={sent_entries_len}) in term={term}: " ++ e.text))
      | .ok new_match =>
        match checked_add "LogIndex" new_match 1 with
        | .error e => .error (.Protocol
            (s!"Arithmetic overflow calculating next_index for peer={peer_id} " ++
              s!"(match={new_match}) in term={term}: " ++ e.text))
        | .ok new_next =>
          let current_match := (l.match_index.get? peer_id).getD 0
          if new_match > current_match then
            .ok ({ l with
              next_index := l.next_index.insert peer_id new_next
              match_index := l.match_index.insert peer_id new_match }, true)
          else .ok (l, false)
    else
      let current_next := (l.next_index.get? peer_id).getD 1
      let last_log_index := response.last_log_index
      if last_log_index > 0 then
        match checked_add "LogIndex" last_log_index 1 with
        | .error e => .error (.Protocol
            (s!"Arithmetic overflow calculating next_index backoff for peer={peer_id} " ++
              s!"(last_log={last_log_index}) in term={term}: " ++ e.text))
        | .ok past_last =>
          .ok ({ l with
            next_index := l.next_index.insert peer_id (min current_next past_last) }, false)
      else
        match checked_sub current_next 1 with
        | .error e => .error (.Protocol
            (s!"Arithmetic underflow calculating next_index backoff for peer={peer_id} " ++
              s!"(current_next={current_next}) in term={term}: " ++ e.text))
        | .ok idx =>
          .ok ({ l with next_index := l.next_index.insert peer_id (max idx 1) }, false)
  | .InstallSnapshot last_included_index _ =>
    match checked_add "LogIndex" last_included_index 1 with
    | .error e => .error (.Protocol
        (s!"Arithmetic overflow calculating next_index after snapshot for peer={peer_id} " ++
          s!"(match={last_included_index}) in term={term}: " ++ e.text))
    | .ok new_next =>
      .ok ({ l with
        next_index := l.next_index.insert peer_id new_next
        match_index := l.match_index.insert peer_id last_included_index }, true)

/-- The part of `process_replication_response` under the lock. The inner error
goes to the task, which poisons the node under a lock of its own. -/
def process_replication_response (ln : LogicalNode α) (term : Nat) (peer_id : NodeId)
    (outcome : ReplicationOutcome) (timeout : Nat) :
    Handled α (Except NodeError ReplicationAction) :=
  if outcome.term > term then
    match ln.into_follower outcome.term none timeout with
    | (ln, .ok ()) => (ln, .ok (.ok .Demoted))
    | (ln, .error p) => (ln, .error p)
  else if ln.is_poisoned then (ln, .error .NodePoisoned)
  else
    match ln.node.state with
    | .Leader l =>
      if ln.current_term = term then
        let quorum := (l.next_index.entries.length + 1) / 2 + 1
        let l := l.acknowledge_heartbeat peer_id quorum
        let ln := ln.withRole (ln.node.transition l) .Leader
        match reconcile_peer l peer_id term outcome with
        | .error e => (ln, .ok (.error e))
        | .ok (l, last_committed_updated) =>
          let ln := ln.withRole (ln.node.transition l) .Leader
          if last_committed_updated then
            match update_leader_last_committed ln with
            | (ln, .ok ()) => (ln, .ok (.ok .Continue))
            | (ln, .error p) => (ln, .error p)
          else (ln, .ok (.ok .Continue))
      else (ln, .ok (.ok .Continue))
    | _ => (ln, .ok (.ok .Continue))

/-! ## Answers of a higher term -/

variable {ln : LogicalNode α} {term : Nat}

/-- An answer of a higher term makes a follower, and nothing else of it is used. -/
theorem process_vote_response_overtaken {resp : RequestVoteResponse} (hgt : resp.term > term)
    (peer_ids : List NodeId) (peer_id : NodeId) (timeout : Nat) :
    (process_vote_response ln term peer_ids peer_id resp timeout).1 =
      (ln.into_follower resp.term none timeout).1 := by
  unfold process_vote_response
  rw [if_pos hgt]
  generalize ln.into_follower resp.term none timeout = r
  obtain ⟨ln', res⟩ := r
  cases res <;> rfl

theorem process_replication_response_overtaken {outcome : ReplicationOutcome}
    (hgt : outcome.term > term) (peer_id : NodeId) (timeout : Nat) :
    (process_replication_response ln term peer_id outcome timeout).1 =
      (ln.into_follower outcome.term none timeout).1 := by
  unfold process_replication_response
  rw [if_pos hgt]
  generalize ln.into_follower outcome.term none timeout = r
  obtain ⟨ln', res⟩ := r
  cases res <;> rfl

theorem observe_pre_vote_term_cases (ln : LogicalNode α) (peer_term timeout : Nat) :
    (observe_pre_vote_term ln peer_term timeout).1 = ln ∨
      (observe_pre_vote_term ln peer_term timeout).1 =
        (ln.into_follower peer_term none timeout).1 := by
  unfold observe_pre_vote_term
  split
  · exact .inl rfl
  split
  · generalize ln.into_follower peer_term none timeout = r
    obtain ⟨ln', res⟩ := r
    right
    cases res <;> rfl
  · exact .inl rfl

end raft_engine.consensus
