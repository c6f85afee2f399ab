-- The client of the command line. It keeps the last sequence id it has drawn in
-- a file and the intents without an outcome in a write-ahead log; both survive
-- the process, which goes through the log before it takes commands.
import LactoSensus.Gateway

open common.types
open common.proto
open ordmap
open gateway.ingress (Operation)

namespace client_cli

/-! ## Messages -/

structure MutationIntent where
  item_key : String
  quantity : Option String
  unit : Option String
  category : Option String
  operation : Operation
deriving DecidableEq, Repr

structure ProposeMutationRequest where
  client_id : String
  sequence_id : Nat
  intent : Option MutationIntent
deriving DecidableEq, Repr

def ProposeMutationRequest.new (client_id : String) (sequence_id : Nat)
    (intent : MutationIntent) : ProposeMutationRequest :=
  ⟨client_id, sequence_id, some intent⟩

/-- The codes of `tonic::Status` that the retry loop tells apart. -/
inductive Code where
  | InvalidArgument
  | FailedPrecondition
  | Other
deriving DecidableEq, Repr

/-- What comes back from an attempt. Of the answer to a query the loop reads only whether it
is a rejection, and the hint. -/
inductive Reply where
  | Mutation (res : ProposeMutationResponse)
  | Query (rejected : Bool) (leader_hint : String)
  | Status (code : Code)
deriving DecidableEq, Repr

/-! ## The state file -/

def MAX_KNOWN_NODES : Nat := 10

structure ClientState where
  cluster_id : String
  client_id : String
  sequence_id : Nat
  known_nodes : List String
deriving DecidableEq, Repr

/-- What `load_or_init` makes of the state in the file, and whether it writes that back. -/
def ClientState.load (s : ClientState) (overriding_nodes : List String) : ClientState × Bool :=
  let overriding_nodes := overriding_nodes.take MAX_KNOWN_NODES
  let known_nodes := s.known_nodes.take MAX_KNOWN_NODES
  if overriding_nodes = [] then ({ s with known_nodes := known_nodes }, false)
  else
    let merged := overriding_nodes.reverse.foldl
      (fun nodes node => node :: nodes.filter (· ≠ node)) known_nodes
    ({ s with known_nodes := merged.take MAX_KNOWN_NODES }, true)

def ClientState.next_sequence_id (s : ClientState) : Except ArithmeticError ClientState :=
  (checked_add "SequenceId" s.sequence_id 1).map fun n => { s with sequence_id := n }

/-- The state to be written; none when there is nothing to do. -/
def ClientState.record_success (s : ClientState) (node_addr : String) : Option ClientState :=
  if s.known_nodes.head? = some node_addr then none
  else
    let known_nodes := node_addr :: s.known_nodes.filter (· ≠ node_addr)
    some { s with known_nodes := known_nodes.take MAX_KNOWN_NODES }

/-- A node that has just answered is in front already. -/
theorem record_current_node_success {s : ClientState} {addr : String}
    (h : s.known_nodes.head? = some addr) : s.record_success addr = none :=
  if_pos h

def ClientState.record_hint (s : ClientState) (leader_addr : String) : Option ClientState :=
  s.record_success leader_addr

def ClientState.rotate_nodes (s : ClientState) : Option ClientState :=
  match s.known_nodes with
  | current :: next :: rest => some { s with known_nodes := next :: rest ++ [current] }
  | _ => none

/-- A hint is followed; without one the next node is tried. -/
def ClientState.reroute (s : ClientState) : Option String → Option ClientState
  | some hint => if hint ≠ "" then s.record_hint hint else s.rotate_nodes
  | none => s.rotate_nodes

/-- The list of nodes is all that these change. -/
theorem record_success_same {s s' : ClientState} {addr : String}
    (h : s.record_success addr = some s') :
    s'.client_id = s.client_id ∧ s'.sequence_id = s.sequence_id := by
  unfold ClientState.record_success at h
  split at h
  · cases h
  · obtain rfl := Option.some.inj h
    exact ⟨rfl, rfl⟩

theorem rotate_nodes_same {s s' : ClientState} (h : s.rotate_nodes = some s') :
    s'.client_id = s.client_id ∧ s'.sequence_id = s.sequence_id := by
  unfold ClientState.rotate_nodes at h
  split at h
  · obtain rfl := Option.some.inj h
    exact ⟨rfl, rfl⟩
  · cases h

theorem reroute_same {s s' : ClientState} {leader_hint : Option String}
    (h : s.reroute leader_hint = some s') :
    s'.client_id = s.client_id ∧ s'.sequence_id = s.sequence_id := by
  unfold ClientState.reroute at h
  split at h
  · split at h
    · exact record_success_same h
    · exact rotate_nodes_same h
  · exact rotate_nodes_same h

theorem load_same (s : ClientState) (seeds : List String) :
    (s.load seeds).1.client_id = s.client_id ∧ (s.load seeds).1.sequence_id = s.sequence_id := by
  unfold ClientState.load
  dsimp only
  split <;> exact ⟨rfl, rfl⟩

/-- A write that was cut short leaves a file that no longer parses. -/
inductive StateFile where
  | Saved (s : ClientState)
  | Torn
deriving DecidableEq, Repr

/-- How a write to the state file ends; all but the first return an error. -/
inductive Io where
  | Written
  | Kept
  | Torn
deriving DecidableEq, Repr

def StateFile.save (file : StateFile) (s : ClientState) : Io → StateFile
  | .Written => .Saved s
  | .Kept => file
  | .Torn => .Torn

/-! ## The process -/

/-- What `execute_with_retry` is at work for. -/
inductive Call where
  | Propose (payload : ProposeMutationRequest)
  | Repropose (sequence_id : Nat) (payload : ProposeMutationRequest)
      (pending : List (Nat × ProposeMutationRequest))
  | Query
deriving DecidableEq, Repr

inductive Stage where
  /-- In `recover_pending_intents`, with the intents that are left. -/
  | Recovering (pending : List (Nat × ProposeMutationRequest))
  /-- `run_repl` waits for a line. -/
  | Ready
  /-- The new id is in the file, and the intent not yet in the log. -/
  | Drawn (request_payload : ProposeMutationRequest)
  | Retrying (call : Call) (retry_count max_retries : Nat)
  /-- An attempt is on the way. -/
  | Awaiting (call : Call) (retry_count max_retries : Nat)
  /-- The cluster has answered with an outcome; the intent goes from the log. -/
  | Removing (call : Call)
deriving DecidableEq, Repr

structure Process where
  state : ClientState
  /-- There is a channel to some node. -/
  connected : Bool
  /-- “Mutation failed. Contact cluster operator.” was the answer to the last mutation. -/
  failed : Bool
  stage : Stage
deriving DecidableEq, Repr

structure Client where
  file : StateFile
  wal : OrdMap Nat ProposeMutationRequest
  process : Option Process
  /-- What it has ever put on the network. -/
  sent : List ProposeMutationRequest
deriving DecidableEq

/-- A client that was set up for its cluster and has not run yet. -/
def Client.init (s : ClientState) : Client := ⟨.Saved s, .empty, none, []⟩

inductive ClientAct where
  | Start (cluster_id : String) (seeds : List String) (io : Io)
  /-- The end of the process at any point: a crash, or `exit` at the prompt. -/
  | Stop
  | Recover
  | Command (intent : MutationIntent) (io : Io)
  | Ask
  /-- An error can leave the intent in the log all the same. -/
  | Append (ok durable : Bool)
  | Attempt (reachable : Bool)
  | Receive (reply : Reply) (io : Io)
  | Remove (ok durable : Bool)
deriving DecidableEq, Repr

def Client.goto (client : Client) (p : Process) (stage : Stage) : Client :=
  { client with process := some { p with stage := stage } }

/-- `execute_with_retry` starts. -/
def Client.dispatch (client : Client) (p : Process) (call : Call) : Client :=
  client.goto p (.Retrying call 0 (p.state.known_nodes.length + MAX_KNOWN_NODES))

/-- The call returns an error: the prompt goes on, and a recovery ends the process. -/
def Client.fail (client : Client) (p : Process) : Call → Client
  | .Propose _ => client.goto { p with failed := true } .Ready
  | .Repropose _ _ _ => { client with process := none }
  | .Query => client.goto p .Ready

/-- The call returns a response. -/
def Client.succeed (client : Client) (p : Process) : Call → Client
  | .Propose _ => client.goto { p with failed := false } .Ready
  | .Repropose _ _ pending => client.goto p (.Recovering pending)
  | .Query => client.goto p .Ready

/-- The id under which the intent of the call is in the log. -/
def Call.sequence_id : Call → Nat
  | .Propose payload => payload.sequence_id
  | .Repropose sequence_id _ _ => sequence_id
  | .Query => 0

def Call.payload? : Call → Option ProposeMutationRequest
  | .Propose payload => some payload
  | .Repropose _ payload _ => some payload
  | .Query => none

/-- The reply is of the type that the call waits for. -/
def Reply.fits : Reply → Call → Bool
  | .Status _, _ => true
  | .Query _ _, .Query => true
  | .Mutation _, .Propose _ => true
  | .Mutation _, .Repropose _ _ _ => true
  | _, _ => false

def Client.reconcile_routing_failure (client : Client) (p : Process) (call : Call)
    (retry_count max_retries : Nat) (leader_hint : Option String) (io : Io) : Client :=
  match p.state.reroute leader_hint with
  | none => client.goto { p with connected := false } (.Retrying call retry_count max_retries)
  | some state =>
    let written := { client with file := client.file.save state io }
    if io = .Written then
      written.goto { p with state := state, connected := false }
        (.Retrying call retry_count max_retries)
    else written.fail { p with state := state } call

/-- `execute_mutation` after the dispatch. -/
def Client.conclude (client : Client) (p : Process) (call : Call)
    (res : ProposeMutationResponse) : Client :=
  if MutationStatus.try_from res.status = some .Committed ∨
      MutationStatus.try_from res.status = some .Vetoed then client.goto p (.Removing call)
  else client.succeed p call

/-- The body of the retry loop, once the attempt has come back. A success leaves the list of
nodes as it is (`record_current_node_success`). -/
def Client.receive (client : Client) (p : Process) (call : Call) (retry_count max_retries : Nat)
    (io : Io) : Reply → Client
  | .Status .Other =>
    client.reconcile_routing_failure p call retry_count max_retries none io
  | .Status _ => client.fail p call
  | .Mutation res =>
    if res.status = MutationStatus.Rejected.toInt then
      client.reconcile_routing_failure p call retry_count max_retries (some res.leader_hint) io
    else client.conclude p call res
  | .Query rejected leader_hint =>
    if rejected then
      client.reconcile_routing_failure p call retry_count max_retries (some leader_hint) io
    else client.succeed p call

def Client.start (client : Client) (cluster_id : String) (seeds : List String) (io : Io) :
    Option Client :=
  match client.process, client.file with
  | none, .Saved s =>
    if s.cluster_id ≠ cluster_id then none
    else
      let running := fun state =>
        some (⟨state, false, false, .Recovering client.wal.entries⟩ : Process)
      match s.load seeds with
      | (state, false) => some { client with process := running state }
      | (state, true) =>
        let written := { client with file := client.file.save state io }
        some (if io = .Written then { written with process := running state } else written)
  | _, _ => none

/-- `propose_mutation` up to the log. -/
def Client.propose_mutation (client : Client) (p : Process) (intent : MutationIntent) (io : Io) :
    Client :=
  match p.state.next_sequence_id with
  | .error _ => client.goto { p with failed := true } .Ready
  | .ok state =>
    let written := { client with file := client.file.save state io }
    if io = .Written then
      written.goto { p with state := state }
        (.Drawn (.new state.client_id state.sequence_id intent))
    else written.goto { p with state := state, failed := true } .Ready

/-- Connect when there is no channel, and send the request. -/
def Client.attempt (client : Client) (p : Process) (call : Call) (retry_count max_retries : Nat)
    (reachable : Bool) : Client :=
  if retry_count ≥ max_retries then client.fail p call
  else if p.connected = false ∧ (p.state.known_nodes = [] ∨ reachable = false) then
    client.fail p call
  else
    { client with
      process := some { p with
        connected := true
        stage := .Awaiting call (retry_count + 1) max_retries }
      sent := call.payload?.toList ++ client.sent }

def clientStep (client : Client) : ClientAct → Option Client
  | .Start cluster_id seeds io => client.start cluster_id seeds io
  | .Stop => client.process.map fun _ => { client with process := none }
  | a => client.process.bind fun p =>
    match p.stage, a with
    | .Recovering [], .Recover => some (client.goto p .Ready)
    | .Recovering ((seq, req) :: pending), .Recover =>
      some (client.dispatch p (.Repropose seq req pending))
    | .Ready, .Command intent io => some (client.propose_mutation p intent io)
    | .Ready, .Ask => some (client.dispatch p .Query)
    | .Drawn payload, .Append ok durable =>
      let logged := if ok ∨ durable then
          { client with wal := client.wal.insert payload.sequence_id payload }
        else client
      some (if ok then logged.dispatch p (.Propose payload)
        else logged.goto { p with failed := true } .Ready)
    | .Retrying call retry_count max_retries, .Attempt reachable =>
      some (client.attempt p call retry_count max_retries reachable)
    | .Awaiting call retry_count max_retries, .Receive reply io =>
      if reply.fits call then some (client.receive p call retry_count max_retries io reply)
      else none
    | .Removing call, .Remove ok durable =>
      let removed := if ok ∨ durable then
          { client with wal := client.wal.erase call.sequence_id }
        else client
      some (if ok then removed.succeed p call else removed.fail p call)
    | _, _ => none

end client_cli
