-- The cluster: every member runs the tick loop, the applier, the campaign and
-- replication tasks and the RPC service over its own shell. A message that was
-- sent can be delivered at any time, any number of times, or never; a host can
-- crash at any time, also between two writes of a handler, and start again.
import LactoSensus.Shell
import LactoSensus.Lib.Machine

open common.types
open journal
open raft_engine.storage
open raft_engine.node
open raft_engine.engine
open raft_engine.consensus
open raft_engine.shell

namespace raft_engine.cluster

variable {α S : Type}

/-- The state machine the log is applied to; an error leaves its state as it was. -/
structure StateMachine (α S : Type) where
  empty : S
  apply : S → Nat → α → Except String S
  last_applied_index : S → Nat

/-- A request names its sender; a reply carries the request it answers. -/
inductive Message (α : Type) where
  | PreVote (dst : NodeId) (req : RequestVoteRequest)
  | PreVoteReply (src : NodeId) (req : RequestVoteRequest) (resp : RequestVoteResponse)
  | RequestVote (dst : NodeId) (req : RequestVoteRequest)
  | VoteReply (src : NodeId) (req : RequestVoteRequest) (resp : RequestVoteResponse)
  | AppendEntries (dst : NodeId) (req : AppendEntriesRequest α)
  | AppendReply (src : NodeId) (req : AppendEntriesRequest α) (resp : AppendEntriesResponse)
deriving DecidableEq

/-- A spawned task, at a point where it waits for the lock or for a response. -/
inductive SpawnedTask (α : Type) where
  /-- The tick loop after `TickAction::StepDown`, before its second lock. -/
  | StepDown
  /-- `initiate_pre_vote` in its loop. -/
  | PreVote (req : RequestVoteRequest) (pending : List NodeId) (pre_votes_granted : Nat)
  /-- `initiate_pre_vote` with a quorum, before it takes the lock. -/
  | BecomeCandidate
  /-- `initiate_election` in its loop. -/
  | Election (params : ElectionCampaignParams) (pending : List NodeId) (votes_granted : Nat)
  /-- `initiate_election` after a `Continue`, before it reads the tally. -/
  | Tally (params : ElectionCampaignParams) (pending : List NodeId) (votes_granted : Nat)
  /-- `initiate_election` after its loop, when it has seen a candidate. -/
  | Promote
  /-- `replicate_to_peers`: peers to prepare, and requests under way. -/
  | Replication (params : ReplicationRoundParams) (unsent : List NodeId)
      (awaiting : List (NodeId × AppendEntriesRequest α))
  /-- A task that failed, before it poisons the node. -/
  | Fatal (err : NodeError)
deriving DecidableEq

/-- `apply_committed` at the points where it lets go of the node. -/
inductive Applier (α : Type) where
  | Idle
  | Looping (applied committed : Nat)
  | Fetched (next_idx : Nat) (data : α)
  | Applied (next_idx : Nat)
deriving DecidableEq

structure Process (α : Type) where
  shell : ConsensusShell α
  applier : Applier α
  tasks : List (SpawnedTask α)
deriving DecidableEq

inductive HostState (α : Type) where
  | Up (process : Process α)
  | Down (disk : SledStorage α)
deriving DecidableEq

/-- The state machine writes to a database of its own, which a crash leaves alone. -/
structure Host (α S : Type) where
  fsm : S
  state : HostState α
deriving DecidableEq

structure Cluster (α S : Type) where
  hosts : NodeId → Host α S
  network : List (Message α)

/-- The members are the keys of a map, so none is listed twice. -/
structure Config where
  members : List NodeId
  nodup : members.Nodup
  heartbeat_interval : Nat
deriving DecidableEq

/-- `PeerManager::peer_ids`: the membership list without the node itself. -/
def Config.peer_ids (cfg : Config) (n : NodeId) : List NodeId :=
  cfg.members.filter fun m => m ≠ n

/-- What one step of one host leaves behind. -/
structure Effect (α S : Type) where
  host : NodeId
  process : Process α
  fsm : S
  sends : List (Message α)

/-! ## The tasks -/

/-- A pre-vote is counted; with a quorum the campaign goes on to the election. -/
def countPreVote (quorum : Nat) (req : RequestVoteRequest) (pending : List NodeId)
    (pre_votes_granted : Nat) (vote_granted : Bool) : SpawnedTask α :=
  if vote_granted then
    if pre_votes_granted + 1 ≥ quorum then .BecomeCandidate
    else .PreVote req pending (pre_votes_granted + 1)
  else .PreVote req pending pre_votes_granted

/-- What the task of a process does next: the shell, the tasks that take its
place and the messages it sends. The peer and the reply are chosen by the
environment; no reply is an RPC that failed or timed out. -/
def runTask [DecidableEq α] (cfg : Config) (n : NodeId) (sh : ConsensusShell α)
    (peer : NodeId) (reply : Option (Message α)) (timeout : Nat) :
    SpawnedTask α → Option (ConsensusShell α × List (SpawnedTask α) × List (Message α))
  | .StepDown =>
    match sh.write fun ln =>
      if ln.is_poisoned then (ln, .error .NodePoisoned)
      else ln.into_follower ln.current_term none timeout with
    | (sh, _) => some (sh, [], [])
  | .PreVote req pending pre_votes_granted =>
    let quorum := quorumOf (cfg.peer_ids n)
    if pending = [] then
      some (sh, if pre_votes_granted ≥ quorum then [.BecomeCandidate] else [], [])
    else if peer ∈ pending then
      let pending := pending.erase peer
      match reply with
      | none => some (sh, [.PreVote req pending pre_votes_granted], [])
      | some (.PreVoteReply src req' resp) =>
        if src = peer ∧ req' = req then
          let counted := countPreVote quorum req pending pre_votes_granted resp.vote_granted
          if resp.term > req.term then
            match sh.write fun ln => observe_pre_vote_term ln resp.term timeout with
            | (sh, .ok false) => some (sh, [counted], [])
            | (sh, .ok true) => some (sh, [], [])
            | (sh, .error _) => some (sh, [], [])
          else some (sh, [counted], [])
        else none
      | some _ => none
    else none
  | .BecomeCandidate =>
    match sh.write fun ln => begin_campaign ln timeout with
    | (sh, .ok params) =>
      let peers := cfg.peer_ids n
      some (sh, [.Election params peers 1], peers.map fun p => .RequestVote p params.request)
    | (sh, .error _) => some (sh, [], [])
  | .Election params pending votes_granted =>
    let quorum := quorumOf (cfg.peer_ids n)
    if pending = [] then
      if votes_granted ≥ quorum ∧ sh.inner.node_role = .Candidate then some (sh, [.Promote], [])
      else some (sh, [], [])
    else if peer ∈ pending then
      let pending := pending.erase peer
      match reply with
      | none => some (sh, [.Tally params pending votes_granted], [])
      | some (.VoteReply src req resp) =>
        if src = peer ∧ req = params.request then
          match sh.write fun ln =>
            process_vote_response ln params.term (cfg.peer_ids n) peer resp timeout with
          | (sh, .ok .Continue) => some (sh, [.Tally params pending votes_granted], [])
          | (sh, _) => some (sh, [], [])
        else none
      | some _ => none
    else none
  | .Tally params pending votes_granted =>
    let votes_granted := match sh.inner.node.state with
      | .Candidate c => c.vote_count
      | _ => votes_granted
    some (sh, [.Election params pending votes_granted], [])
  | .Promote =>
    match sh.write fun ln => ln.into_leader (cfg.peer_ids n) with
    | (sh, _) => some (sh, [], [])
  | .Replication params unsent awaiting =>
    if peer ∈ unsent then
      let unsent := unsent.erase peer
      match sh.write fun ln => prepare_replication ln peer params with
      | (sh, .ok (some (.AppendEntries req))) =>
        some (sh, [.Replication params unsent ((peer, req) :: awaiting)],
          [.AppendEntries peer req])
      -- the snapshot transport is not part of the uncompacted cluster
      | (_, .ok (some (.InstallSnapshot _ _))) => none
      | (sh, .ok none) => some (sh, [.Replication params unsent awaiting], [])
      | (sh, .error _) => some (sh, [], [])
    else
      match awaiting.find? fun call => call.1 = peer with
      | none => none
      | some call =>
        let awaiting := awaiting.erase call
        match reply with
        | none => some (sh, [.Replication params unsent awaiting], [])
        | some (.AppendReply src req resp) =>
          if src = peer ∧ req = call.2 then
            match sh.write fun ln =>
              process_replication_response ln params.term peer
                (.AppendEntries req.prev_log_index req.entries.length resp) timeout with
            | (sh, .ok (.ok .Continue)) => some (sh, [.Replication params unsent awaiting], [])
            | (sh, .ok (.error err)) => some (sh, [.Fatal err], [])
            | (sh, _) => some (sh, [], [])
          else none
        | some _ => none
  | .Fatal err =>
    match sh.write fun ln => (ln.apply_fatal err : Handled α Unit) with
    | (sh, _) => some (sh, [], [])

/-! ## The tick loop and the applier -/

/-- What the tick loop spawns after its locked part. -/
inductive TickSpawn where
  | Nothing
  | StepDown
  | Campaign (params : ElectionCampaignParams)
  | PreVote (req : RequestVoteRequest)
  | Round (params : ReplicationRoundParams)

/-- The locked part of one pulse. -/
def tickLocked (ln : LogicalNode α) (timeout : Nat) : Handled α TickSpawn :=
  match ln.tick with
  | (ln, action) =>
    if ln.is_poisoned then (ln, .error .NodePoisoned)
    else
      match action with
      | .StartElection =>
        match begin_campaign ln timeout with
        | (ln, .ok params) => (ln, .ok (.Campaign params))
        | (ln, .error p) => (ln, .error p)
      | .StartPreVote =>
        let term := ln.current_term
        let ln := ln.into_pre_candidate
        (ln, .ok (.PreVote ⟨term, ln.node_id, ln.last_log_index, ln.last_log_term⟩))
      | .SendHeartbeat => (ln, .ok (.Round ⟨ln.current_term, ln.node_id, ln.last_committed⟩))
      | .StepDown => (ln, .ok .StepDown)
      | .Stop => (ln, .ok .Nothing)
      | .None => (ln, .ok .Nothing)

def TickSpawn.tasks (peers : List NodeId) : TickSpawn → List (SpawnedTask α)
  | .Nothing => []
  | .StepDown => [.StepDown]
  | .Campaign params => [.Election params peers 1]
  | .PreVote req => [.PreVote req peers 1]
  | .Round params => [.Replication params peers []]

def TickSpawn.sends (peers : List NodeId) : TickSpawn → List (Message α)
  | .Campaign params => peers.map fun p => .RequestVote p params.request
  | .PreVote req => peers.map fun p => .PreVote p req
  | _ => []

/-- The next part of `apply_committed`; a failure poisons the node. -/
def runApplier (sm : StateMachine α S) (p : Process α) (fsm : S) : Option (Process α × S) :=
  let fatal (err : NodeError) : Option (Process α × S) :=
    match p.shell.write fun ln => (ln.apply_fatal err : Handled α Unit) with
    | (sh, _) => some ({ p with shell := sh, applier := .Idle }, fsm)
  match p.applier with
  | .Idle =>
    -- the log store is taken from the node, which panics when poisoned
    if p.shell.inner.is_poisoned then none
    else
      let applied := p.shell.inner.last_applied
      let committed := p.shell.inner.last_committed
      if applied > committed then
        fatal (.Protocol
          s!"Causal Divergence: applied ({applied}) > committed ({committed})")
      else some ({ p with applier := .Looping applied committed }, fsm)
  | .Looping applied committed =>
    if applied < committed then
      match checked_add "LogIndex" applied 1 with
      | .error e => fatal (.Arithmetic e)
      | .ok next_idx =>
        match p.shell.inner.node.disk.read_entries next_idx next_idx with
        | .error (.Invariant msg) => fatal (.Protocol msg)
        | .ok [] =>
          fatal (.Protocol s!"Committed entry {next_idx} missing from log storage")
        | .ok (entry :: _) =>
          some ({ p with applier := .Fetched next_idx entry.data }, fsm)
    else some ({ p with applier := .Idle }, fsm)
  | .Fetched next_idx data =>
    match sm.apply fsm next_idx data with
    | .ok fsm => some ({ p with applier := .Applied next_idx }, fsm)
    | .error e => fatal (.Protocol s!"Apply failure: {e}")
  | .Applied next_idx =>
    match p.shell.write fun ln =>
      match ln.advance_horizon_after_snapshot next_idx with
      | (ln, .ok (.ok ())) => (ln, .ok ln.last_committed)
      | (ln, .ok (.error e)) => ln.apply_fatal e
      | (ln, .error pn) => (ln, .error pn) with
    | (sh, .ok committed) =>
      some ({ p with shell := sh, applier := .Looping next_idx committed }, fsm)
    | (sh, .error _) => some ({ p with shell := sh, applier := .Idle }, fsm)

/-! ## The RPC service -/

/-- A request is handled under the lock; a panic sends no reply. -/
def serve (sh : ConsensusShell α) (timeout : Nat) :
    Message α → Option (NodeId × ConsensusShell α × List (Message α))
  | .PreVote dst req =>
    match sh.write fun ln =>
      ln.handle_pre_vote req.term req.last_log_index req.last_log_term with
    | (sh, .ok r) => some (dst, sh, [.PreVoteReply dst req ⟨r.term, r.vote_granted⟩])
    | (sh, .error _) => some (dst, sh, [])
  | .RequestVote dst req =>
    match sh.write fun ln =>
      ln.handle_request_vote req.candidate_id req.term req.last_log_index req.last_log_term
        timeout with
    | (sh, .ok r) => some (dst, sh, [.VoteReply dst req ⟨r.term, r.vote_granted⟩])
    | (sh, .error _) => some (dst, sh, [])
  | .AppendEntries dst req =>
    match sh.write fun ln =>
      ln.handle_append_entries req.leader_id req.term req.prev_log_index req.prev_log_term
        req.entries req.leader_commit timeout with
    | (sh, .ok r) => some (dst, sh, [.AppendReply dst req ⟨r.term, r.success, r.conflict_index⟩])
    | (sh, .error _) => some (dst, sh, [])
  | _ => none

def Message.dst : Message α → NodeId
  | .PreVote dst _ => dst
  | .RequestVote dst _ => dst
  | .AppendEntries dst _ => dst
  | .PreVoteReply _ req _ => req.candidate_id
  | .VoteReply _ req _ => req.candidate_id
  | .AppendReply _ req _ => req.leader_id

/-! ## Steps -/

/-- One step of a host that is up. Messages are named by their place in the
list of all that was sent. -/
inductive Act (α : Type) where
  | Tick (n : NodeId) (timeout : Nat)
  | RunTask (n : NodeId) (k : Nat) (peer : NodeId) (reply : Option Nat) (timeout : Nat)
  | Deliver (i : Nat) (timeout : Nat)
  | Propose (n : NodeId) (data : α)
  | Probe (n : NodeId)
  | Apply (n : NodeId)
deriving DecidableEq

def Cluster.process (c : Cluster α S) (n : NodeId) : Option (Process α) :=
  match (c.hosts n).state with
  | .Up p => some p
  | .Down _ => none

def perform [DecidableEq α] (cfg : Config) (sm : StateMachine α S) (c : Cluster α S) :
    Act α → Option (Effect α S)
  | .Tick n timeout =>
    (c.process n).bind fun p =>
      match p.shell.write fun ln => tickLocked ln timeout with
      | (sh, .ok spawn) =>
        let peers := cfg.peer_ids n
        some ⟨n, { p with shell := sh, tasks := spawn.tasks peers ++ p.tasks },
          (c.hosts n).fsm, spawn.sends peers⟩
      | (sh, .error _) => some ⟨n, { p with shell := sh }, (c.hosts n).fsm, []⟩
  | .RunTask n k peer reply timeout =>
    (c.process n).bind fun p =>
      p.tasks[k]?.bind fun task =>
        let resp := reply.bind fun i => c.network[i]?
        if reply.isSome && resp.isNone then none
        else
          (runTask cfg n p.shell peer resp timeout task).map fun (sh, tasks, sends) =>
            ⟨n, { p with shell := sh, tasks := tasks ++ p.tasks.eraseIdx k },
              (c.hosts n).fsm, sends⟩
  | .Deliver i timeout =>
    c.network[i]?.bind fun msg =>
      (c.process msg.dst).bind fun p =>
        (serve p.shell timeout msg).map fun (n, sh, sends) =>
          ⟨n, { p with shell := sh }, (c.hosts n).fsm, sends⟩
  | .Propose n data =>
    (c.process n).map fun p =>
      ⟨n, { p with shell := (p.shell.propose data).1 }, (c.hosts n).fsm, []⟩
  | .Probe n =>
    (c.process n).map fun p =>
      match p.shell.prepare_probe with
      | (sh, .ok (.ok probe)) =>
        let tasks : List (SpawnedTask α) := match probe.round with
          | some params => [.Replication params (cfg.peer_ids n) []]
          | none => []
        ⟨n, { p with shell := sh, tasks := tasks ++ p.tasks }, (c.hosts n).fsm, []⟩
      | (sh, _) => ⟨n, { p with shell := sh }, (c.hosts n).fsm, []⟩
  | .Apply n =>
    (c.process n).bind fun p =>
      (runApplier sm p (c.hosts n).fsm).map fun (p, fsm) => ⟨n, p, fsm, []⟩

/-- `replay_committed_entries`: the state machine as far as the replay got, and
whether it got to the end. -/
def replay_committed_entries (sm : StateMachine α S) (disk : SledStorage α) :
    Nat → Nat → S → S × Bool
  | 0, _, fsm => (fsm, true)
  | missing + 1, current, fsm =>
    match disk.read_entry (current + 1) with
    | none => (fsm, false)
    | some entry =>
      match sm.apply fsm (current + 1) entry.data with
      | .error _ => (fsm, false)
      | .ok fsm => replay_committed_entries sm disk missing (current + 1) fsm

/-- `RecoveryManager::recover`: a state machine ahead of the commit index stops the boot. -/
def recover (sm : StateMachine α S) (disk : SledStorage α) (fsm : S) : S × Bool :=
  let last_applied := sm.last_applied_index fsm
  if last_applied > disk.last_committed then (fsm, false)
  else replay_committed_entries sm disk (disk.last_committed - last_applied) last_applied fsm

inductive Action (α : Type) where
  | Act (a : Act α)
  /-- The host of the step crashes at one of the points its writes went through. -/
  | CrashIn (a : Act α) (point : Nat)
  | Crash (n : NodeId)
  | Restart (n : NodeId) (timeout : Nat)
deriving DecidableEq

def Cluster.setHost (c : Cluster α S) (n : NodeId) (h : Host α S) : Cluster α S :=
  { c with hosts := fun m => if m = n then h else c.hosts m }

/-- The writes of the handler are on disk. -/
def Process.settle (p : Process α) : Process α :=
  { p with shell := { p.shell with inner := p.shell.inner.settle } }

def step [DecidableEq α] (cfg : Config) (sm : StateMachine α S) (c : Cluster α S) :
    Action α → Option (Cluster α S)
  | .Act a =>
    (perform cfg sm c a).map fun e =>
      { c.setHost e.host ⟨e.fsm, .Up e.process.settle⟩ with
        network := c.network ++ e.sends }
  | .CrashIn a point =>
    (perform cfg sm c a).bind fun e =>
      e.process.shell.inner.node.log_store.crash_points[point]?.map fun disk =>
        c.setHost e.host ⟨(c.hosts e.host).fsm, .Down disk⟩
  | .Crash n =>
    (c.process n).map fun p =>
      c.setHost n ⟨(c.hosts n).fsm, .Down p.shell.inner.node.disk⟩
  | .Restart n timeout =>
    match (c.hosts n).state with
    | .Up _ => none
    | .Down disk =>
      if n ∉ cfg.members then none
      else
        match recover sm disk (c.hosts n).fsm with
        | (fsm, false) => some (c.setHost n ⟨fsm, .Down disk⟩)
        | (fsm, true) =>
          match LogicalNode.try_new n (sm.last_applied_index fsm) disk cfg.heartbeat_interval
            timeout with
          | .ok ln => some (c.setHost n ⟨fsm, .Up ⟨.new ln, .Idle, []⟩⟩)
          | .error _ => some (c.setHost n ⟨fsm, .Down disk⟩)

/-- Every host is down with an empty disk, before its first start. -/
def Cluster.init (sm : StateMachine α S) : Cluster α S :=
  ⟨fun _ => ⟨sm.empty, .Down .new⟩, []⟩

/-! ## What can be seen of a host -/

def Host.disk (h : Host α S) : SledStorage α :=
  match h.state with
  | .Up p => p.shell.inner.node.disk
  | .Down disk => disk

/-- The commit index of the node, or the one on disk while the host is down. -/
def Host.last_committed (h : Host α S) : Nat :=
  match h.state with
  | .Up p => p.shell.inner.last_committed
  | .Down disk => disk.last_committed

def Host.current_term (h : Host α S) : Nat := h.disk.current_term

def Host.read_entry (h : Host α S) (index : Nat) : Option (LogEntry α) :=
  h.disk.read_entry index

/-- The role of the node, if the host is up. -/
def Host.role (h : Host α S) : Option NodeRole :=
  match h.state with
  | .Up p => some p.shell.inner.node_role
  | .Down _ => none

/-- Reached from the first start of the cluster, by whatever steps. -/
def Reachable [DecidableEq α] (cfg : Config) (sm : StateMachine α S) (c : Cluster α S) : Prop :=
  machine.Run (step cfg sm) (fun _ _ => True) (Cluster.init sm) c

/-- Reached from another cluster, by whatever steps. -/
def Later [DecidableEq α] (cfg : Config) (sm : StateMachine α S) (c c' : Cluster α S) : Prop :=
  machine.Run (step cfg sm) (fun _ _ => True) c c'

end raft_engine.cluster
