-- The clients of the cluster. Mutations are answered when they are committed, or
-- from the session of an earlier one; a query waits for a probe of its node, and
-- reads the store as far as it has got. The handlers of a host end when it stops.
import LactoSensus.ClusterProbes
import LactoSensus.Gateway
import LactoSensus.Queries

open common.types
open common.proto
open raft_engine.engine
open raft_engine.shell
open raft_engine.cluster
open raft_engine.recovery
open raft_engine.cluster_probes
open raft_engine.fleet (ReadCall)
open gateway.ingress (ProposalStatus build_mutation_response enforce_sequence_firewall)
open gateway.queries (QueryStateRequest Display Node NodeAct nodeStep)
open lacto_fsm

namespace gateway.reads

variable {α : Type}

/-! ## The handlers -/

/-- A mutation in `commit_to_consensus`, after its proposal. -/
structure Waiting where
  node : NodeId
  proposal_index : Nat
  status : ProposalStatus
  moral_justification : String
deriving DecidableEq

/-- `handle_query_state` at the points where it waits. -/
inductive Stage where
  /-- The node was the leader when the request came. -/
  | Authorized (req : QueryStateRequest) (last_committed : Nat)
  /-- In `verify_leadership_quorum`; the horizon is what its node had to apply at the start. -/
  | Probing (req : QueryStateRequest) (last_committed : Nat) (call : ReadCall) (horizon : Nat)
  | Reading (horizon : Nat) (stage : queries.Stage)

structure Query where
  node : NodeId
  /-- The answers to mutations that clients had when the request came. -/
  answers : List ProposeMutationResponse
  stage : Stage

structure Service (α : Type) where
  cluster : Cluster α LactoStore
  waiting : List Waiting
  answers : List ProposeMutationResponse
  queries : List Query

def Service.init (c : SnapshotCodec α) : Service α :=
  ⟨Cluster.init (lactoMachine c.toCodec), [], [], []⟩

def Query.call? (q : Query) : Option ReadCall :=
  match q.stage with
  | .Probing _ _ call _ => some call
  | _ => none

/-- The calls of `verify_leadership_quorum` that wait. -/
def Service.calls (s : Service α) : List ReadCall := s.queries.filterMap Query.call?

def Query.isAnswered (q : Query) : Bool :=
  match q.stage with
  | .Reading _ (.Answered _ _) => true
  | _ => false

/-- The cluster has taken a step; the handlers of a host that is down are gone. -/
def Service.onto (s : Service α) (cluster : Cluster α LactoStore) : Service α :=
  { s with
    cluster := cluster
    waiting := s.waiting.filter fun w => (cluster.process w.node).isSome
    queries := s.queries.filter fun q => q.isAnswered || (cluster.process q.node).isSome }

def Service.withStage (s : Service α) (i : Nat) (q : Query) (stage : Stage) : Service α :=
  { s with queries := s.queries.set i { q with stage := stage } }

/-- The commit index, and the last index with an entry of an earlier term: a leader cannot
have less than this committed in the end. -/
def horizonOf (ln : LogicalNode α) : Nat :=
  max ln.last_committed
    (((ln.node.disk.log.values.filter fun e => e.term < ln.current_term).map
      LogEntry.index).max?.getD 0)

/-! ## Steps -/

inductive ServiceAct (α : Type) where
  /-- Any step of the cluster but a probe, which is a step of a query. -/
  | Raft (a : Action α)
  | Propose (n : NodeId) (mutation : CommittedMutation) (status : ProposalStatus)
      (moral_justification : String)
  /-- A look of `await_commit`. -/
  | AwaitCommit (i : Nat)
  /-- The handler of a mutation times out, or its client is gone. -/
  | Abandon (i : Nat)
  /-- The firewall answers a request from the session of its client. -/
  | Firewall (n : NodeId) (client_id : String) (sequence_id : Nat)
  | Receive (n : NodeId) (req : QueryStateRequest)
  | Verify (i : Nat)
  /-- A look of `verify_leadership_quorum`. -/
  | AwaitProbe (i : Nat)
  | Read (i : Nat) (a : NodeAct)
  | Leave (i : Nat)
deriving DecidableEq

def isProbe : Action α → Bool
  | .Act (.Probe _) => true
  | _ => false

/-- The steps of a query that reads. -/
def isRead : NodeAct → Bool
  | .PassFence => true
  | .TimeOut => true
  | .Fetch => true
  | .LoadLeaf => true
  | .Next => true
  | .ReadVersion => true
  | _ => false

/-- A query that reads goes on, on the store and the channel of its host. -/
def readStep (c : SnapshotCodec α) (d : Display) (store : LactoStore) (last_applied : Nat)
    (stage : queries.Stage) (a : NodeAct) : Option queries.Stage :=
  if isRead a then (nodeStep c d [] ⟨store, [], last_applied, stage⟩ a).map Node.stage else none

def serviceStep [DecidableEq α] (cfg : Config) (c : SnapshotCodec α) (d : Display)
    (s : Service α) : ServiceAct α → Option (Service α)
  | .Raft a =>
    if isProbe a then none
    else (step cfg (lactoMachine c.toCodec) s.cluster a).map s.onto
  | .Propose n mutation status moral_justification =>
    (s.cluster.process n).bind fun p =>
      (step cfg (lactoMachine c.toCodec) s.cluster (.Act (.Propose n (c.encode mutation)))).map
        fun cluster =>
          match (p.shell.propose (c.encode mutation)).2 with
          | .ok (.ok proposal_index) =>
            { s with
              waiting := ⟨n, proposal_index, status, moral_justification⟩ :: s.waiting }.onto
                cluster
          | _ => s.onto cluster
  | .AwaitCommit i =>
    s.waiting[i]?.bind fun w => (s.cluster.process w.node).bind fun p =>
      match await_commit p.shell.progress w.proposal_index with
      | some (.ok ()) =>
        some { s with
          waiting := s.waiting.eraseIdx i
          answers :=
            build_mutation_response w.proposal_index w.status w.moral_justification :: s.answers }
      | some (.error _) => some { s with waiting := s.waiting.eraseIdx i }
      | none => none
  | .Abandon i => some { s with waiting := s.waiting.eraseIdx i }
  | .Firewall n client_id sequence_id =>
    (s.cluster.process n).bind fun _ =>
      match enforce_sequence_firewall (s.cluster.hosts n).fsm client_id sequence_id with
      | .ok (some response) => some { s with answers := response :: s.answers }
      | _ => none
  | .Receive n req =>
    (s.cluster.process n).bind fun p =>
      if p.shell.progress.role = .Leader then
        some { s with
          queries := ⟨n, s.answers, .Authorized req p.shell.progress.last_committed⟩ ::
            s.queries }
      else none
  | .Verify i =>
    s.queries[i]?.bind fun q =>
      match q.stage with
      | .Authorized req last_committed =>
        (s.cluster.process q.node).bind fun p =>
          (step cfg (lactoMachine c.toCodec) s.cluster (.Act (.Probe q.node))).map fun cluster =>
            match p.shell.prepare_probe.2 with
            | .ok (.ok probe) =>
              (s.withStage i q (.Probing req last_committed (callOf s.cluster q.node probe)
                (horizonOf p.shell.inner))).onto cluster
            | _ => { s with queries := s.queries.eraseIdx i }.onto cluster
      | _ => none
  | .AwaitProbe i =>
    s.queries[i]?.bind fun q =>
      match q.stage with
      | .Probing req last_committed call horizon =>
        (s.cluster.process q.node).bind fun p =>
          match await_probe p.shell.progress call.probe with
          | some (.ok ()) => some (s.withStage i q (.Reading horizon (.Fence req last_committed)))
          | some (.error _) => some { s with queries := s.queries.eraseIdx i }
          | none => none
      | _ => none
  | .Read i a =>
    s.queries[i]?.bind fun q =>
      match q.stage with
      | .Reading horizon stage =>
        (s.cluster.process q.node).bind fun p =>
          (readStep c d (s.cluster.hosts q.node).fsm p.shell.progress.last_applied stage a).map
            fun stage => s.withStage i q (.Reading horizon stage)
      | _ => none
  | .Leave i => some { s with queries := s.queries.eraseIdx i }

/-- The runs of the service whose steps meet a condition on the state before them. -/
def ServiceRun [DecidableEq α] (cfg : Config) (c : SnapshotCodec α) (d : Display)
    (P : Service α → ServiceAct α → Prop) : Service α → Service α → Prop :=
  machine.Run (serviceStep cfg c d) P

/-! ## What is promised -/

/-- What is listed under a key is what the entries up to some index between the two have made
of it, in the log of the host. -/
def Lists (c : SnapshotCodec α) (d : Display) (h : Host α LactoStore) (lo hi : Nat)
    (items : List GroceryItem) (key : String) : Prop :=
  ∃ k s, lo ≤ k ∧ k ≤ hi ∧
    replay_committed_entries (lactoMachine c.toCodec) h.disk k 0 .new = (s, true) ∧
    items.filter (fun item => item.item_key = key) = (s.inventory.get? key).toList.map d.shown

/-- No call joins an epoch that has been answered, no answer counts for a call but one that
was given after it had begun, and a query begins to read when the store has got to the
horizon of its node. -/
def Prompt (s : Service α) : ServiceAct α → Prop
  | .Raft (.Act a) => Timely s.cluster s.calls a
  | .Verify i => ∀ q p, s.queries[i]? = some q → s.cluster.process q.node = some p →
    JoinsFresh q.node p
  | .Read i .Fetch => ∀ q horizon stage, s.queries[i]? = some q →
    q.stage = .Reading horizon stage → horizon ≤ appliedOf (s.cluster.hosts q.node).fsm
  | _ => True

end gateway.reads
