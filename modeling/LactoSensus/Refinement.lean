-- How a host of the cluster stands for a node of the protocol: its disk holds
-- the node's term, vote, log and commit index, and its role carries votes and
-- acknowledgements that were really given. Messages and tasks carry facts that
-- stay true as the protocol goes on.
import LactoSensus.Cluster
import LactoSensus.Handlers
import LactoSensus.LogView
import LactoSensus.Lib.Raft.Completeness

open common.types
open journal
open quorum
open raft_engine.storage
open raft_engine.node
open raft_engine.engine
open raft_engine.consensus
open raft_engine.shell
open raft_engine.cluster
open raft (Entry Step Steps Safe Grows Frame Settled lastTerm UpToDate)

namespace raft_engine.refinement

variable {α S : Type}

/-- The nodes of the protocol, with the entries' data. -/
abbrev Protocol (α : Type) := raft.State NodeId α

def voters (cfg : Config) : Finset NodeId := cfg.members.toFinset

/-! ## Hosts -/

structure DiskRel (a : Protocol α) (n : NodeId) (d : SledStorage α) : Prop where
  term : d.current_term = a.term n
  vote : d.voted_for = a.voted n (a.term n)
  log : Uncompacted d (a.log n)
  commit : d.last_committed = a.commit n

/-- A candidate counts votes that were given to it in its term. It has no quorum
yet, unless it is alone. -/
structure CandidateRel (cfg : Config) (a : Protocol α) (n : NodeId) (c : Candidate) : Prop where
  role : a.role n = .candidate
  own : n ∈ c.votes_received
  voters : c.votes_received ⊆ voters cfg
  votes : ∀ v ∈ c.votes_received, a.voted v (a.term n) = some n
  short : c.vote_count < quorumOf (cfg.peer_ids n) ∨ quorumOf (cfg.peer_ids n) = 1

/-- A leader counts entries that were acknowledged to it in its term. -/
structure LeaderRel (cfg : Config) (a : Protocol α) (n : NodeId) (l : Leader) : Prop where
  role : a.role n = .leader
  peers : ∀ p, l.match_index.get? p ≠ none ↔ p ∈ cfg.peer_ids n
  acked : ∀ p v, l.match_index.get? p = some v → v ≤ a.ack p (a.term n)
  next : ∀ p v, l.next_index.get? p = some v → 1 ≤ v ∧ v ≤ (a.log n).length + 1

def RoleRel (cfg : Config) (a : Protocol α) (n : NodeId) : RoleState → Prop
  | .Follower _ => a.role n = .follower
  | .PreCandidate _ => a.role n = .follower
  | .Candidate c => CandidateRel cfg a n c
  | .Leader l => LeaderRel cfg a n l
  | .Poisoned => True

/-- The node `ln` of a running handler stands for the protocol state `a`, which
is reached from `a₀` by steps of `n`; so does every state its disk went through. -/
structure Tracks (cfg : Config) (a₀ a : Protocol α) (n : NodeId) (ln : LogicalNode α) :
    Prop where
  steps : Steps (voters cfg) n a₀ a
  disk : DiskRel a n ln.node.disk
  past : ∀ d ∈ ln.node.log_store.past, ∃ a', Steps (voters cfg) n a₀ a' ∧ DiskRel a' n d
  node_id : ln.node.node_id = n
  commit : ln.node.last_committed = a.commit n
  role : RoleRel cfg a n ln.node.state
  commit_le : a₀.commit n ≤ a.commit n

variable {cfg : Config} {a₀ a a' : Protocol α} {n : NodeId} {ln ln' : LogicalNode α}

theorem Tracks.safe (hsafe : Safe (voters cfg) a₀) (h : Tracks cfg a₀ a n ln) :
    Safe (voters cfg) a :=
  (hsafe.steps h.steps).1

theorem Tracks.grows (hsafe : Safe (voters cfg) a₀) (h : Tracks cfg a₀ a n ln) : Grows a₀ a :=
  (hsafe.steps h.steps).2

theorem Tracks.role_of (h : Tracks cfg a₀ a n ln) {st : RoleState} (hst : ln.node.state = st) :
    RoleRel cfg a n st :=
  hst ▸ h.role

theorem Tracks.poison (h : Tracks cfg a₀ a n ln) : Tracks cfg a₀ a n ln.poison where
  steps := h.steps
  disk := h.disk
  past := h.past
  node_id := h.node_id
  commit := h.commit
  role := trivial
  commit_le := h.commit_le

theorem Tracks.afterHandler {X : Type} {r : Handled α X} (h : Tracks cfg a₀ a n r.1) :
    Tracks cfg a₀ a n (afterHandler r) := by
  unfold shell.afterHandler
  split
  · exact h
  · exact h.poison

/-- A handler that leaves the disk and the commit index alone, and a role that fits. -/
theorem Tracks.reRole (h : Tracks cfg a₀ a n ln) (hstore : ln'.node.log_store = ln.node.log_store)
    (hid : ln'.node.node_id = ln.node.node_id)
    (hcommit : ln'.node.last_committed = a.commit n)
    (hrole : RoleRel cfg a n ln'.node.state) : Tracks cfg a₀ a n ln' where
  steps := h.steps
  disk := by
    unfold RaftNode.disk
    rw [hstore]
    exact h.disk
  past := by
    rw [hstore]
    exact h.past
  node_id := hid.trans h.node_id
  commit := hcommit
  role := hrole
  commit_le := h.commit_le

/-- A handler that takes steps of the protocol and leaves the disk alone. -/
theorem Tracks.step (h : Tracks cfg a₀ a n ln) (hs : Steps (voters cfg) n a a')
    (hstore : ln'.node.log_store = ln.node.log_store) (hdisk : DiskRel a' n ln.node.disk)
    (hid : ln'.node.node_id = ln.node.node_id)
    (hcommit : ln'.node.last_committed = a'.commit n)
    (hle : a.commit n ≤ a'.commit n) (hrole : RoleRel cfg a' n ln'.node.state) :
    Tracks cfg a₀ a' n ln' where
  steps := h.steps.trans hs
  disk := by
    unfold RaftNode.disk
    rw [hstore]
    exact hdisk
  past := by
    rw [hstore]
    exact h.past
  node_id := hid.trans h.node_id
  commit := hcommit
  role := hrole
  commit_le := h.commit_le.trans hle

/-- A handler that writes to disk once while the protocol takes steps. -/
theorem Tracks.write (h : Tracks cfg a₀ a n ln) (hs : Steps (voters cfg) n a a')
    {f : SledStorage α → SledStorage α} (hstore : ln'.node.log_store = ln.node.log_store.write f)
    (hdisk : DiskRel a' n (f ln.node.disk)) (hid : ln'.node.node_id = ln.node.node_id)
    (hcommit : ln'.node.last_committed = a'.commit n)
    (hle : a.commit n ≤ a'.commit n) (hrole : RoleRel cfg a' n ln'.node.state) :
    Tracks cfg a₀ a' n ln' where
  steps := h.steps.trans hs
  disk := by
    unfold RaftNode.disk
    rw [hstore]
    exact hdisk
  past := by
    intro d hd
    rw [hstore, Journal.write_past] at hd
    rcases List.mem_cons.mp hd with rfl | hd
    · exact ⟨a, h.steps, h.disk⟩
    · exact h.past d hd
  node_id := hid.trans h.node_id
  commit := hcommit
  role := hrole
  commit_le := h.commit_le.trans hle

/-! ## Messages and tasks -/

/-- The campaign really was started, with these coordinates; a leader that
campaigns again for its own term has nothing to win. -/
def CampaignFact (a : Protocol α) (n : NodeId) (term last_log_index last_log_term : Nat) :
    Prop :=
  ∃ l, a.cand n term = some l ∧
    (a.leader term = some n ∨ (last_log_index = l.length ∧ last_log_term = lastTerm l))

/-- The request carries a window of the log of some leader term `T`, which is the
term it is labelled with or a later one, and a commit index that is settled. -/
structure AppendFact (cfg : Config) (a : Protocol α) (req : AppendEntriesRequest α)
    (T m : Nat) : Prop where
  label : req.term ≤ T
  sender : a.leader T = some req.leader_id
  length : m ≤ (a.glog T).length
  prev : req.prev_log_index ≤ m
  prev_term : req.prev_log_term = termAt (a.glog T) req.prev_log_index
  entries : req.entries = numbered req.prev_log_index
    (((a.glog T).take m).drop req.prev_log_index)
  commit : req.leader_commit ≤ m
  settled : Settled (voters cfg) a req.term ((a.glog T).take req.leader_commit)

/-- A successful reply acknowledges the window, unless the leader has moved on. -/
def AckFact (a : Protocol α) (src : NodeId) (req : AppendEntriesRequest α) : Prop :=
  req.term < a.term req.leader_id ∨
    req.prev_log_index + req.entries.length ≤ a.ack src req.term

def MessageRel (cfg : Config) (a : Protocol α) : Message α → Prop
  | .PreVote dst _ => dst ∈ cfg.members
  | .PreVoteReply _ _ _ => True
  | .RequestVote dst req => dst ∈ cfg.members ∧
      CampaignFact a req.candidate_id req.term req.last_log_index req.last_log_term
  | .VoteReply src req resp => src ∈ cfg.members ∧
      (resp.vote_granted = true → a.voted src req.term = some req.candidate_id)
  | .AppendEntries dst req => dst ∈ cfg.members ∧ ∃ T m, AppendFact cfg a req T m
  | .AppendReply src req resp => src ∈ cfg.members ∧ (resp.success = true → AckFact a src req)

/-- The round was started by the leader of its term, with a commit index that is settled. -/
structure RoundFact (cfg : Config) (a : Protocol α) (n : NodeId)
    (params : ReplicationRoundParams) : Prop where
  node_id : params.node_id = n
  leader : a.leader params.term = some n
  settled : ∃ p, p.length = params.last_committed ∧ Settled (voters cfg) a params.term p

structure CampaignRel (cfg : Config) (a : Protocol α) (n : NodeId)
    (params : ElectionCampaignParams) (pending : List NodeId) (votes_granted : Nat) : Prop where
  node_id : params.node_id = n
  fact : CampaignFact a n params.term params.last_log_index params.last_log_term
  short : votes_granted < quorumOf (cfg.peer_ids n) ∨ quorumOf (cfg.peer_ids n) = 1
  pending : ∀ p ∈ pending, p ∈ cfg.peer_ids n

def TaskRel (cfg : Config) (a : Protocol α) (n : NodeId) : SpawnedTask α → Prop
  | .StepDown => True
  | .PreVote _ _ _ => True
  | .BecomeCandidate => True
  | .Election params pending votes => CampaignRel cfg a n params pending votes
  | .Tally params pending votes => CampaignRel cfg a n params pending votes
  | .Promote => quorumOf (cfg.peer_ids n) = 1
  | .Replication params unsent awaiting =>
    RoundFact cfg a n params ∧ (∀ p ∈ unsent, p ∈ cfg.peer_ids n) ∧
      ∀ call ∈ awaiting, call.1 ∈ cfg.peer_ids n ∧ call.2.term = params.term ∧
        call.2.leader_id = n
  | .Fatal _ => True

/-! ## Facts stay true -/

theorem CampaignFact.grow (hg : Grows a a') {term i t : Nat} (h : CampaignFact a n term i t) :
    CampaignFact a' n term i t := by
  obtain ⟨l, hc, hor⟩ := h
  refine ⟨l, hg.cand_keep n term l hc, ?_⟩
  rcases hor with hl | heq
  · exact .inl (hg.leader_keep term n hl)
  · exact .inr heq

theorem AppendFact.grow (hg : Grows a a') {req : AppendEntriesRequest α} {T m : Nat}
    (h : AppendFact cfg a req T m) : AppendFact cfg a' req T m where
  label := h.label
  sender := hg.leader_keep T _ h.sender
  length := h.length.trans (hg.glog_grow T).length_le
  prev := h.prev
  prev_term := by
    rw [h.prev_term, termAt_extend (hg.glog_grow T) (h.prev.trans h.length)]
  entries := by rw [h.entries, hg.take_eq h.length]
  commit := h.commit
  settled := by
    rw [hg.take_eq (h.commit.trans h.length)]
    exact h.settled.grow hg

theorem AckFact.grow (hg : Grows a a') {src : NodeId} {req : AppendEntriesRequest α}
    (h : AckFact a src req) : AckFact a' src req := by
  rcases h with hlt | hle
  · exact .inl (hlt.trans_le (hg.term_le _))
  · exact .inr (hle.trans (hg.ack_le _ _))

theorem MessageRel.grow (hg : Grows a a') {msg : Message α} (h : MessageRel cfg a msg) :
    MessageRel cfg a' msg := by
  cases msg with
  | PreVote dst req => exact h
  | PreVoteReply src req resp => exact h
  | RequestVote dst req => exact ⟨h.1, h.2.grow hg⟩
  | VoteReply src req resp => exact ⟨h.1, fun hv => hg.voted_keep _ _ _ (h.2 hv)⟩
  | AppendEntries dst req =>
    obtain ⟨hd, T, m, hf⟩ := h
    exact ⟨hd, T, m, hf.grow hg⟩
  | AppendReply src req resp => exact ⟨h.1, fun hs => (h.2 hs).grow hg⟩

theorem RoundFact.grow (hg : Grows a a') {params : ReplicationRoundParams}
    (h : RoundFact cfg a n params) : RoundFact cfg a' n params where
  node_id := h.node_id
  leader := hg.leader_keep _ _ h.leader
  settled := by
    obtain ⟨p, hp, hs⟩ := h.settled
    exact ⟨p, hp, hs.grow hg⟩

theorem CampaignRel.grow (hg : Grows a a') {params : ElectionCampaignParams}
    {pending : List NodeId} {votes : Nat} (h : CampaignRel cfg a n params pending votes) :
    CampaignRel cfg a' n params pending votes :=
  { h with fact := h.fact.grow hg }

theorem TaskRel.grow (hg : Grows a a') {task : SpawnedTask α} (h : TaskRel cfg a n task) :
    TaskRel cfg a' n task := by
  cases task with
  | StepDown => trivial
  | PreVote req pending votes => trivial
  | BecomeCandidate => trivial
  | Election params pending votes => exact CampaignRel.grow hg h
  | Tally params pending votes => exact CampaignRel.grow hg h
  | Promote => exact h
  | Replication params unsent awaiting => exact ⟨h.1.grow hg, h.2.1, h.2.2⟩
  | Fatal err => trivial

/-- A step of another node leaves the role of this one as it was. -/
theorem RoleRel.frame {m : NodeId} (hf : Frame m a a') (hg : Grows a a') (hne : n ≠ m)
    {st : RoleState} (h : RoleRel cfg a n st) : RoleRel cfg a' n st := by
  cases st with
  | Follower f => exact (hf.role_eq n hne).trans h
  | PreCandidate p => exact (hf.role_eq n hne).trans h
  | Candidate c =>
    refine { h with role := (hf.role_eq n hne).trans h.role, votes := ?_ }
    intro v hv
    rw [hf.term_eq n hne]
    exact hg.voted_keep _ _ _ (h.votes v hv)
  | Leader l =>
    refine { h with role := (hf.role_eq n hne).trans h.role, acked := ?_, next := ?_ }
    · intro p v hp
      rw [hf.term_eq n hne]
      exact (h.acked p v hp).trans (hg.ack_le _ _)
    · rw [hf.log_eq n hne]
      exact h.next
  | Poisoned => trivial

theorem DiskRel.frame {m : NodeId} (hf : Frame m a a') (hne : n ≠ m) {d : SledStorage α}
    (h : DiskRel a n d) : DiskRel a' n d where
  term := by rw [hf.term_eq n hne, h.term]
  vote := by rw [hf.term_eq n hne, hf.voted_eq n _ hne, h.vote]
  log := by
    rw [hf.log_eq n hne]
    exact h.log
  commit := by rw [hf.commit_eq n hne, h.commit]

end raft_engine.refinement
