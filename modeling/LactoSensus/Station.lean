-- One node with everything that runs on it: the host with its compactions and
-- installations, the replication rounds with a call for each peer, and the
-- calls of `apply_committed`, which wait for one lock. The background applier
-- looks at the freeze depth once, before it waits.
import LactoSensus.Snapshots
import LactoSensus.InstallCrash

open common.types
open common.proto
open machine
open raft_engine.storage
open raft_engine.node
open raft_engine.engine
open raft_engine.consensus
open raft_engine.shell
open raft_engine.cluster
open raft_engine.orchestration
open raft_engine.recovery
open lacto_fsm

namespace raft_engine.station

variable {α : Type}

/-! ## The replication rounds -/

/-- `prepare_and_replicate_to_peer` at the points where it waits. -/
inductive PeerCall (α : Type) where
  | Unsent
  /-- Another call sends a snapshot to this peer; before the heartbeat is built. -/
  | Downgraded
  | Append (req : AppendEntriesRequest α)
  /-- `replicate_snapshot_to_peer` waits for the answer to its probe. -/
  | Probing (req : AppendEntriesRequest α)
  | Reached (last_included_index last_included_term : Nat)
  | Frozen (last_included_index last_included_term : Nat)
  | Serialized (last_included_index last_included_term : Nat) (res : Except FsmError α)
  | Sending (params : SnapshotParams α)

/-- The permit lives from the decision to the end of the call. -/
def PeerCall.hasPermit : PeerCall α → Bool
  | .Unsent => false
  | .Downgraded => false
  | .Append _ => false
  | _ => true

/-- The call has frozen the state machine and has not thawed it. -/
def PeerCall.isFrozen : PeerCall α → Bool
  | .Frozen _ _ => true
  | .Serialized _ _ _ => true
  | _ => false

/-- `replicate_to_peers` with the calls that are not finished. -/
structure Round (α : Type) where
  params : ReplicationRoundParams
  calls : List (NodeId × PeerCall α)

/-- What a peer answers; no answer is an RPC that failed. -/
inductive PeerReply where
  | Append (response : AppendEntriesResponse)
  | InstallSnapshot (response_term : Nat)
deriving DecidableEq, Repr

/-! ## The node -/

/-- `spawn_background_applier`. -/
inductive Background where
  | Parked
  /-- It was woken, and looks at the freeze depth next. -/
  | Woken
  | Waiting
  | Running
  /-- It has panicked. -/
  | Gone
deriving DecidableEq, Repr

/-- Who runs `apply_committed`. -/
inductive Caller where
  | Background
  | CatchUp
deriving DecidableEq, Repr

structure Station (α : Type) where
  host : SnapshotHost α LactoStore
  rounds : List (Round α)
  /-- The channel has a value that the background applier has not seen. -/
  unseen : Bool
  background : Background
  /-- Compactions that have thawed and wait to catch up. -/
  catchups : Nat
  /-- The call that holds `fsm_lock`. -/
  holder : Option Caller

def Station.node (st : Station α) : LogicalNode α := st.host.node

/-- A permit for the peer is taken. -/
def Station.in_flight_snapshots (st : Station α) (peer : NodeId) : Bool :=
  st.rounds.any fun r => r.calls.any fun call => call.1 = peer && call.2.hasPermit

/-- A replication task becomes a round of its own. -/
def asRound : SpawnedTask α → Option (Round α)
  | .Replication params unsent _ => some ⟨params, unsent.map fun p => (p, .Unsent)⟩
  | _ => none

/-- `MutationGuard::drop` broadcasts when the progress is not what it was. -/
def signals (ln ln' : LogicalNode α) : Bool :=
  decide (afterDrop ln.try_consensus_progress ln' ≠ ln.try_consensus_progress)

/-- The station after a step of its host under the guard: new rounds, and the signal. -/
def Station.adopt (st : Station α) (h : SnapshotHost α LactoStore) : Station α :=
  { st with
    host := { h with
      process := { h.process with
        tasks := h.process.tasks.filter fun t => (asRound t).isNone } }
    rounds := h.process.tasks.filterMap asRound ++ st.rounds
    unseen := st.unseen || signals st.node h.node }

/-! ## The calls -/

/-- What becomes of a call: it goes on, it is finished, or the whole round is over and
every other call of it is dropped where it waits. -/
inductive CallResult (α : Type) where
  | Continues (call : PeerCall α)
  | Finished
  | Ended (tasks : List (SpawnedTask α))

/-- `process_replication_response` and what `replicate_to_peers` does with its result. -/
def respond (h : SnapshotHost α LactoStore) (term : Nat) (peer : NodeId)
    (outcome : ReplicationOutcome) (timeout : Nat) : SnapshotHost α LactoStore × CallResult α :=
  match h.process.shell.write fun ln =>
    process_replication_response ln term peer outcome timeout with
  | (sh, .ok (.ok .Continue)) => (h.withShell sh, .Finished)
  | (sh, .ok (.ok .Demoted)) => (h.withShell sh, .Ended [])
  | (sh, .ok (.error err)) => (h.withShell sh, .Ended [.Fatal err])
  | (sh, .error _) => (h.withShell sh, .Ended [])

def runCall [DecidableEq α] (cfg : HostConfig) (c : SnapshotCodec α) (st : Station α)
    (params : ReplicationRoundParams) (peer : NodeId) (reply : Option PeerReply)
    (timeout : Nat) : PeerCall α → Option (SnapshotHost α LactoStore × CallResult α)
  | .Unsent =>
    match st.host.process.shell.write fun ln => prepare_replication ln peer params with
    | (sh, .ok (some (.AppendEntries req))) =>
      some (st.host.withShell sh, .Continues (.Append req))
    | (sh, .ok (some (.InstallSnapshot index term))) =>
      some (st.host.withShell sh, .Continues (
        if st.in_flight_snapshots peer then .Downgraded
        else .Probing ⟨params.term, params.node_id, index, term, [], params.last_committed⟩))
    | (sh, .ok none) => some (st.host.withShell sh, .Finished)
    | (sh, .error _) => some (st.host.withShell sh, .Ended [])
  | .Downgraded =>
    match st.host.process.shell.write fun ln =>
      build_append_entries_request ln peer params.term params.node_id params.last_committed with
    | (sh, .ok (.ok req)) => some (st.host.withShell sh, .Continues (.Append req))
    | (sh, .ok (.error _)) => some (st.host.withShell sh, .Finished)
    | (sh, .error _) => some (st.host.withShell sh, .Ended [])
  | .Append req =>
    match reply with
    | none => some (st.host, .Finished)
    | some (.Append response) =>
      some (respond st.host params.term peer
        (.AppendEntries req.prev_log_index req.entries.length response) timeout)
    | some _ => none
  | .Probing req =>
    match reply with
    | none => some (st.host, .Finished)
    | some (.Append response) =>
      if response.term > params.term then
        some (respond st.host params.term peer
          (.AppendEntries req.prev_log_index req.entries.length response) timeout)
      else some (st.host, .Continues (.Reached req.prev_log_index req.prev_log_term))
    | some _ => none
  | .Reached index term =>
    (hostStep cfg (lactoSnapshots c) st.host .BeginTransfer).map fun h =>
      (h, if h.node.is_poisoned then .Ended [] else .Continues (.Frozen index term))
  | .Frozen index term =>
    -- the closure takes `fsm_lock`; it outlives a call that is dropped here, but only reads
    if st.holder.isSome then none
    else some (st.host, .Continues (.Serialized index term (st.host.fsm.snapshot c)))
  | .Serialized index term res =>
    (hostStep cfg (lactoSnapshots c) st.host .EndTransfer).map fun h =>
      (h, if h.node.is_poisoned then .Ended []
        else match res with
          | .ok data => .Continues (.Sending ⟨params.node_id, params.term, index, term, data⟩)
          | .error e => .Ended [.Fatal (.Protocol
              (s!"Snapshot serialization failed for peer={peer} at index={index} " ++
                s!"in term={params.term}: " ++ e.text))])
  | .Sending sent =>
    match reply with
    | none => some (st.host, .Finished)
    | some (.InstallSnapshot response_term) =>
      some (respond st.host params.term peer
        (.InstallSnapshot sent.last_included_index response_term) timeout)
    | some _ => none

/-- The rounds after call `k` of round `r`. -/
def roundsAfter (rounds : List (Round α)) (r k : Nat) (round : Round α) (peer : NodeId) :
    CallResult α → List (Round α)
  | .Continues call => rounds.set r { round with calls := round.calls.set k (peer, call) }
  | .Finished => rounds.set r { round with calls := round.calls.eraseIdx k }
  | .Ended _ => rounds.eraseIdx r

def CallResult.tasks : CallResult α → List (SpawnedTask α)
  | .Ended tasks => tasks
  | _ => []

/-! ## Steps -/

inductive StationAct (α : Type) where
  /-- A step of the tick loop, the service, a campaign, a compaction or an installation. -/
  | Host (a : HostAct α)
  /-- Call `k` of round `r` goes on. -/
  | Call (r k : Nat) (reply : Option PeerReply) (timeout : Nat)
  /-- `changed` returns in the background applier. -/
  | Wake
  | CheckFrozen
  /-- A call of `apply_committed` gets `fsm_lock`. -/
  | Enter (caller : Caller)
  /-- The call that holds the lock goes on. -/
  | Loop

/-- What the rounds and the callers of `apply_committed` do is not left to the host. -/
def hostOnly : HostAct α → Bool
  | .Apply => false
  | .BeginTransfer => false
  | .EndTransfer => false
  | .TransferReply _ _ _ _ _ => false
  | _ => true

def takesFsmLock : HostAct α → Bool
  | .Restore _ => true
  | _ => false

/-- The front is cut without the lock, so nobody is told of it. -/
def guarded : HostAct α → Bool
  | .TruncateFront _ => false
  | _ => true

/-- A compaction that has thawed goes on to catch up. -/
def catchupsAfter (catchups : Nat) (h : SnapshotHost α LactoStore) : HostAct α → Nat
  | .ThawCompaction _ => if h.node.is_poisoned then catchups else catchups + 1
  | _ => catchups

/-- The background applier after the call it was in has returned or panicked. -/
def backgroundAfter (background : Background) (poisoned : Bool) : Caller → Background
  | .Background => if poisoned then .Gone else .Parked
  | .CatchUp => background

def stationStep [DecidableEq α] (cfg : HostConfig) (c : SnapshotCodec α) (st : Station α) :
    StationAct α → Option (Station α)
  | .Host a =>
    if hostOnly a = false ∨ (takesFsmLock a = true ∧ st.holder.isSome) then none
    else
      (hostStep cfg (lactoSnapshots c) st.host a).map fun h =>
        { st.adopt h with
          unseen := st.unseen || (guarded a && signals st.node h.node)
          catchups := catchupsAfter st.catchups h a }
  | .Call r k reply timeout =>
    st.rounds[r]?.bind fun round =>
      round.calls[k]?.bind fun (peer, call) =>
        (runCall cfg c st round.params peer reply timeout call).map fun (h, res) =>
          { st.adopt { h with process := { h.process with tasks := res.tasks ++ h.process.tasks } }
            with rounds := roundsAfter st.rounds r k round peer res }
  | .Wake =>
    if st.background = .Parked ∧ st.unseen = true then
      some { st with unseen := false, background := .Woken }
    else none
  | .CheckFrozen =>
    if st.background = .Woken then
      some { st with
        background := if is_frozen st.host.fsm_freeze_depth then .Parked else .Waiting }
    else none
  | .Enter caller =>
    if st.holder.isSome then none
    else
      match caller with
      | .Background =>
        if st.background = .Waiting then
          some { st with background := .Running, holder := some .Background }
        else none
      | .CatchUp =>
        if st.catchups = 0 then none
        else some { st with catchups := st.catchups - 1, holder := some .CatchUp }
  | .Loop =>
    st.holder.bind fun caller =>
      match hostStep cfg (lactoSnapshots c) st.host .Apply with
      -- the node is poisoned: the call panics and lets go of the lock
      | none =>
        some { st with
          holder := none
          background := backgroundAfter st.background true caller }
      | some h =>
        if h.process.applier = .Idle then
          some { st.adopt h with
            holder := none
            background := backgroundAfter st.background h.node.is_poisoned caller }
        else some (st.adopt h)

/-- A node after a start: no task is under way, and the background applier begins with a
call of its own. -/
def Started (cfg : HostConfig) (c : SnapshotCodec α) (st : Station α) : Prop :=
  ∃ timeout db disk fsm ln,
    reboot c.toCodec cfg.node_id cfg.cluster.heartbeat_interval timeout db disk =
      some (fsm, ln) ∧
    st = ⟨⟨⟨.new ln, .Idle, []⟩, fsm, 0, [], [], 0⟩, [], false, .Waiting, 0, none⟩

/-- The steps of the station that meet a condition on the station before them. -/
def StationRun [DecidableEq α] (cfg : HostConfig) (c : SnapshotCodec α)
    (P : Station α → StationAct α → Prop) : Station α → Station α → Prop :=
  machine.Run (stationStep cfg c) P

/-! ## What a call does -/

def PeerReply.term : PeerReply → Nat
  | .Append response => response.term
  | .InstallSnapshot response_term => response_term

/-- Everything a call can do when it goes on. Only the two ends of the serialisation touch
the depth; a round ends because it is demoted, or on a node that halts. -/
inductive CallStep [DecidableEq α] (cfg : HostConfig) (c : SnapshotCodec α)
    (h : SnapshotHost α LactoStore) (term : Nat) (reply : Option PeerReply) :
    PeerCall α → SnapshotHost α LactoStore → CallResult α → Prop where
  | continued {call call' : PeerCall α} {sh : ConsensusShell α}
      (hs : Stepped h.process.shell sh) (hf : call'.isFrozen = call.isFrozen) :
      CallStep cfg c h term reply call (h.withShell sh) (.Continues call')
  | finished {call : PeerCall α} {sh : ConsensusShell α} (hs : Stepped h.process.shell sh)
      (hf : call.isFrozen = false) : CallStep cfg c h term reply call (h.withShell sh) .Finished
  | demoted {call : PeerCall α} {sh : ConsensusShell α} {r : PeerReply}
      (hs : Stepped h.process.shell sh) (hreply : reply = some r) (ht : term < r.term)
      (hf : call.isFrozen = false) : CallStep cfg c h term reply call (h.withShell sh) (.Ended [])
  | failed {call : PeerCall α} {sh : ConsensusShell α} {tasks : List (SpawnedTask α)}
      (hs : Stepped h.process.shell sh)
      (hhalt : sh.inner.is_poisoned = true ∨ ∃ err, .Fatal err ∈ tasks) :
      CallStep cfg c h term reply call (h.withShell sh) (.Ended tasks)
  | froze (i t : Nat) {h' : SnapshotHost α LactoStore}
      (hs : hostStep cfg (lactoSnapshots c) h .BeginTransfer = some h')
      (hp : h'.node.is_poisoned = false) :
      CallStep cfg c h term reply (.Reached i t) h' (.Continues (.Frozen i t))
  | freezeFailed (i t : Nat) {h' : SnapshotHost α LactoStore}
      (hs : hostStep cfg (lactoSnapshots c) h .BeginTransfer = some h')
      (hp : h'.node.is_poisoned = true) :
      CallStep cfg c h term reply (.Reached i t) h' (.Ended [])
  | thawed (i t : Nat) {res : Except FsmError α} {sent : SnapshotParams α}
      {h' : SnapshotHost α LactoStore}
      (hs : hostStep cfg (lactoSnapshots c) h .EndTransfer = some h')
      (hp : h'.node.is_poisoned = false) :
      CallStep cfg c h term reply (.Serialized i t res) h' (.Continues (.Sending sent))
  | thawFailed (i t : Nat) {res : Except FsmError α} {tasks : List (SpawnedTask α)}
      {h' : SnapshotHost α LactoStore}
      (hs : hostStep cfg (lactoSnapshots c) h .EndTransfer = some h')
      (hhalt : h'.node.is_poisoned = true ∨ ∃ err, .Fatal err ∈ tasks) :
      CallStep cfg c h term reply (.Serialized i t res) h' (.Ended tasks)

theorem process_replication_response_demoted {ln : LogicalNode α} {term : Nat} {peer : NodeId}
    {outcome : ReplicationOutcome} {timeout : Nat}
    (h : (process_replication_response ln term peer outcome timeout).2 = .ok (.ok .Demoted)) :
    term < outcome.term := by
  by_contra hle
  unfold process_replication_response at h
  rw [if_neg hle] at h
  split at h
  · cases h
  split at h
  · split at h
    · dsimp only at h
      split at h
      · cases h
      · rename_i l₁ updated hrec
        split at h
        · generalize update_leader_last_committed _ = r at h
          obtain ⟨ln', p | u⟩ := r <;> cases h
        · cases h
    · cases h
  · cases h

variable [DecidableEq α] {cfg : HostConfig} {c : SnapshotCodec α} {st st' : Station α}

theorem respond_step {h h' : SnapshotHost α LactoStore} {term : Nat} {peer : NodeId}
    {outcome : ReplicationOutcome} {timeout : Nat} {call : PeerCall α} {r : PeerReply}
    {res : CallResult α} (hrun : respond h term peer outcome timeout = (h', res))
    (hterm : outcome.term = r.term) (hf : call.isFrozen = false) :
    CallStep cfg c h term (some r) call h' res := by
  unfold respond at hrun
  have hres := h.process.shell.write_result fun ln =>
    process_replication_response ln term peer outcome timeout
  generalize hw : h.process.shell.write _ = w at hrun hres
  obtain ⟨sh, res₁⟩ := w
  have hs : Stepped h.process.shell sh :=
    .of_write hw (process_replication_response_quiet _ _ _ _ _)
  split at hrun <;> rename_i heq <;> obtain ⟨rfl, rfl⟩ := Prod.mk.inj heq <;>
    obtain ⟨rfl, rfl⟩ := Prod.mk.inj hrun
  · exact .finished hs hf
  · refine .demoted hs rfl ?_ hf
    rw [← hterm]
    exact process_replication_response_demoted hres.symm
  · exact .failed hs (.inr ⟨_, List.mem_singleton_self _⟩)
  · exact .failed hs (.inl (write_error_poisoned hw))

theorem runCall_step {params : ReplicationRoundParams} {peer : NodeId} {reply : Option PeerReply}
    {timeout : Nat} {call : PeerCall α} {h : SnapshotHost α LactoStore} {res : CallResult α}
    (hrun : runCall cfg c st params peer reply timeout call = some (h, res)) :
    CallStep cfg c st.host params.term reply call h res := by
  cases call with
  | Unsent =>
    simp only [runCall] at hrun
    generalize hw : st.host.process.shell.write _ = w at hrun
    obtain ⟨sh, res₁⟩ := w
    have hs : Stepped st.host.process.shell sh := .of_write hw (prepare_replication_quiet _ _ _)
    split at hrun <;> rename_i heq <;> obtain ⟨rfl, rfl⟩ := Prod.mk.inj heq <;>
      obtain ⟨rfl, rfl⟩ := Prod.mk.inj (Option.some.inj hrun)
    · exact .continued hs rfl
    · refine .continued hs ?_
      split <;> rfl
    · exact .finished hs rfl
    · exact .failed hs (.inl (write_error_poisoned hw))
  | Downgraded =>
    simp only [runCall] at hrun
    generalize hw : st.host.process.shell.write _ = w at hrun
    obtain ⟨sh, res₁⟩ := w
    have hs : Stepped st.host.process.shell sh :=
      .of_write hw (build_append_entries_request_quiet _ _ _ _ _)
    split at hrun <;> rename_i heq <;> obtain ⟨rfl, rfl⟩ := Prod.mk.inj heq <;>
      obtain ⟨rfl, rfl⟩ := Prod.mk.inj (Option.some.inj hrun)
    · exact .continued hs rfl
    · exact .finished hs rfl
    · exact .failed hs (.inl (write_error_poisoned hw))
  | Append req =>
    simp only [runCall] at hrun
    split at hrun
    · obtain ⟨rfl, rfl⟩ := Prod.mk.inj (Option.some.inj hrun)
      exact .finished .same rfl
    · exact respond_step (Option.some.inj hrun) rfl rfl
    · cases hrun
  | Probing req =>
    simp only [runCall] at hrun
    split at hrun
    · obtain ⟨rfl, rfl⟩ := Prod.mk.inj (Option.some.inj hrun)
      exact .finished .same rfl
    · split at hrun
      · exact respond_step (Option.some.inj hrun) rfl rfl
      · obtain ⟨rfl, rfl⟩ := Prod.mk.inj (Option.some.inj hrun)
        exact .continued .same rfl
    · cases hrun
  | Reached i t =>
    obtain ⟨h', hs, heq⟩ := Option.map_eq_some_iff.mp hrun
    obtain ⟨rfl, rfl⟩ := Prod.mk.inj heq
    by_cases hp : h'.node.is_poisoned = true
    · rw [if_pos hp]
      exact .freezeFailed i t hs hp
    · rw [if_neg hp]
      exact .froze i t hs (by simpa using hp)
  | Frozen i t =>
    simp only [runCall] at hrun
    split at hrun
    · cases hrun
    · obtain ⟨rfl, rfl⟩ := Prod.mk.inj (Option.some.inj hrun)
      exact .continued .same rfl
  | Serialized i t out =>
    obtain ⟨h', hs, heq⟩ := Option.map_eq_some_iff.mp hrun
    obtain ⟨rfl, rfl⟩ := Prod.mk.inj heq
    by_cases hp : h'.node.is_poisoned = true
    · rw [if_pos hp]
      exact .thawFailed i t hs (.inl hp)
    · rw [if_neg hp]
      cases out with
      | ok data => exact .thawed i t hs (by simpa using hp)
      | error e => exact .thawFailed i t hs (.inr ⟨_, List.mem_singleton_self _⟩)
  | Sending sent =>
    simp only [runCall] at hrun
    split at hrun
    · obtain ⟨rfl, rfl⟩ := Prod.mk.inj (Option.some.inj hrun)
      exact .finished .same rfl
    · exact respond_step (Option.some.inj hrun) rfl rfl
    · cases hrun

/-- What a call runs on the host when it goes on. -/
inductive CallMove (cfg : HostConfig) (c : SnapshotCodec α) (h : SnapshotHost α LactoStore)
    (params : ReplicationRoundParams) (peer : NodeId) (reply : Option PeerReply)
    (timeout : Nat) : PeerCall α → SnapshotHost α LactoStore → Prop where
  | idle (call : PeerCall α) : CallMove cfg c h params peer reply timeout call h
  | prepared {sh : ConsensusShell α} {r : Except Panic (Option (ReplicationStrategy α))}
      (hw : (h.process.shell.write fun ln => prepare_replication ln peer params) = (sh, r)) :
      CallMove cfg c h params peer reply timeout .Unsent (h.withShell sh)
  | built {sh : ConsensusShell α} {r : Except Panic (Except NodeError (AppendEntriesRequest α))}
      (hw : (h.process.shell.write fun ln => build_append_entries_request ln peer params.term
        params.node_id params.last_committed) = (sh, r)) :
      CallMove cfg c h params peer reply timeout .Downgraded (h.withShell sh)
  | appended (req : AppendEntriesRequest α) (response : AppendEntriesResponse)
      (hreply : reply = some (.Append response)) :
      CallMove cfg c h params peer reply timeout (.Append req) (respond h params.term peer
        (.AppendEntries req.prev_log_index req.entries.length response) timeout).1
  /-- The probe for a snapshot is answered in a later term. -/
  | overtaken (req : AppendEntriesRequest α) (response : AppendEntriesResponse)
      (hreply : reply = some (.Append response)) (hgt : params.term < response.term) :
      CallMove cfg c h params peer reply timeout (.Probing req) (respond h params.term peer
        (.AppendEntries req.prev_log_index req.entries.length response) timeout).1
  | froze (i t : Nat) {h' : SnapshotHost α LactoStore}
      (hs : hostStep cfg (lactoSnapshots c) h .BeginTransfer = some h') :
      CallMove cfg c h params peer reply timeout (.Reached i t) h'
  | thawed (i t : Nat) (res : Except FsmError α) {h' : SnapshotHost α LactoStore}
      (hs : hostStep cfg (lactoSnapshots c) h .EndTransfer = some h') :
      CallMove cfg c h params peer reply timeout (.Serialized i t res) h'
  | installed (sent : SnapshotParams α) (response_term : Nat)
      (hreply : reply = some (.InstallSnapshot response_term)) :
      CallMove cfg c h params peer reply timeout (.Sending sent) (respond h params.term peer
        (.InstallSnapshot sent.last_included_index response_term) timeout).1

omit [DecidableEq α] in
/-- A response leaves nothing behind but a failure. -/
theorem respond_tasks (h : SnapshotHost α LactoStore) (term : Nat) (peer : NodeId)
    (outcome : ReplicationOutcome) (timeout : Nat) :
    ∀ t ∈ (respond h term peer outcome timeout).2.tasks, ∃ err, t = .Fatal err := by
  unfold respond
  generalize h.process.shell.write _ = r
  obtain ⟨sh, p | err | action⟩ := r
  · simp [CallResult.tasks]
  · simp [CallResult.tasks]
  · cases action <;> simp [CallResult.tasks]

theorem runCall_moves {params : ReplicationRoundParams} {peer : NodeId} {reply : Option PeerReply}
    {timeout : Nat} {call : PeerCall α} {h : SnapshotHost α LactoStore} {res : CallResult α}
    (hrun : runCall cfg c st params peer reply timeout call = some (h, res)) :
    CallMove cfg c st.host params peer reply timeout call h ∧
      ∀ t ∈ res.tasks, ∃ err, t = .Fatal err := by
  have hnothing : ∀ t ∈ ([] : List (SpawnedTask α)), ∃ err, t = .Fatal err := by simp
  cases call with
  | Unsent =>
    simp only [runCall] at hrun
    generalize hw : st.host.process.shell.write _ = w at hrun
    obtain ⟨sh, res₁⟩ := w
    split at hrun <;> rename_i heq <;> obtain ⟨rfl, rfl⟩ := Prod.mk.inj heq <;>
      obtain ⟨rfl, rfl⟩ := Prod.mk.inj (Option.some.inj hrun) <;>
      exact ⟨.prepared hw, hnothing⟩
  | Downgraded =>
    simp only [runCall] at hrun
    generalize hw : st.host.process.shell.write _ = w at hrun
    obtain ⟨sh, res₁⟩ := w
    split at hrun <;> rename_i heq <;> obtain ⟨rfl, rfl⟩ := Prod.mk.inj heq <;>
      obtain ⟨rfl, rfl⟩ := Prod.mk.inj (Option.some.inj hrun) <;>
      exact ⟨.built hw, hnothing⟩
  | Append req =>
    simp only [runCall] at hrun
    split at hrun
    · obtain ⟨rfl, rfl⟩ := Prod.mk.inj (Option.some.inj hrun)
      exact ⟨.idle _, hnothing⟩
    · obtain ⟨rfl, rfl⟩ := Prod.mk.inj (Option.some.inj hrun)
      exact ⟨.appended req _ rfl, respond_tasks _ _ _ _ _⟩
    · cases hrun
  | Probing req =>
    simp only [runCall] at hrun
    split at hrun
    · obtain ⟨rfl, rfl⟩ := Prod.mk.inj (Option.some.inj hrun)
      exact ⟨.idle _, hnothing⟩
    · split at hrun
      · rename_i hgt
        obtain ⟨rfl, rfl⟩ := Prod.mk.inj (Option.some.inj hrun)
        exact ⟨.overtaken req _ rfl hgt, respond_tasks _ _ _ _ _⟩
      · obtain ⟨rfl, rfl⟩ := Prod.mk.inj (Option.some.inj hrun)
        exact ⟨.idle _, hnothing⟩
    · cases hrun
  | Reached i t =>
    obtain ⟨h', hs, heq⟩ := Option.map_eq_some_iff.mp hrun
    obtain ⟨rfl, rfl⟩ := Prod.mk.inj heq
    refine ⟨.froze i t hs, ?_⟩
    split <;> exact hnothing
  | Frozen i t =>
    simp only [runCall] at hrun
    split at hrun
    · cases hrun
    · obtain ⟨rfl, rfl⟩ := Prod.mk.inj (Option.some.inj hrun)
      exact ⟨.idle _, hnothing⟩
  | Serialized i t out =>
    obtain ⟨h', hs, heq⟩ := Option.map_eq_some_iff.mp hrun
    obtain ⟨rfl, rfl⟩ := Prod.mk.inj heq
    refine ⟨.thawed i t out hs, ?_⟩
    split
    · exact hnothing
    · cases out <;> simp [CallResult.tasks]
  | Sending sent =>
    simp only [runCall] at hrun
    split at hrun
    · obtain ⟨rfl, rfl⟩ := Prod.mk.inj (Option.some.inj hrun)
      exact ⟨.idle _, hnothing⟩
    · obtain ⟨rfl, rfl⟩ := Prod.mk.inj (Option.some.inj hrun)
      exact ⟨.installed sent _ rfl, respond_tasks _ _ _ _ _⟩
    · cases hrun

/-- The host with the tasks that a call leaves behind. -/
def withTasks (h : SnapshotHost α LactoStore) (tasks : List (SpawnedTask α)) :
    SnapshotHost α LactoStore :=
  { h with process := { h.process with tasks := tasks ++ h.process.tasks } }

theorem call_cases {r k : Nat} {reply : Option PeerReply} {timeout : Nat}
    (hs : stationStep cfg c st (.Call r k reply timeout) = some st') :
    ∃ round peer call h res, st.rounds[r]? = some round ∧
      round.calls[k]? = some (peer, call) ∧
      CallStep cfg c st.host round.params.term reply call h res ∧
      st' = { st.adopt (withTasks h res.tasks) with
        rounds := roundsAfter st.rounds r k round peer res } := by
  obtain ⟨round, hr, hcall⟩ := Option.bind_eq_some_iff.mp hs
  obtain ⟨⟨peer, call⟩, hk, hmap⟩ := Option.bind_eq_some_iff.mp hcall
  dsimp only at hmap
  obtain ⟨⟨h, res⟩, hrun, rfl⟩ := Option.map_eq_some_iff.mp hmap
  exact ⟨round, peer, call, h, res, hr, hk, runCall_step hrun, rfl⟩

/-- The call that holds the lock has panicked, or it has done a part of its loop. -/
theorem loop_cases (hs : stationStep cfg c st .Loop = some st') :
    ∃ caller, st.holder = some caller ∧
      ((hostStep cfg (lactoSnapshots c) st.host .Apply = none ∧
        st' = { st with
          holder := none
          background := backgroundAfter st.background true caller }) ∨
      ∃ h, hostStep cfg (lactoSnapshots c) st.host .Apply = some h ∧
        (h.process.applier = .Idle ∧ st' = { st.adopt h with
            holder := none
            background := backgroundAfter st.background h.node.is_poisoned caller } ∨
          h.process.applier ≠ .Idle ∧ st' = st.adopt h)) := by
  obtain ⟨caller, hholder, hloop⟩ := Option.bind_eq_some_iff.mp hs
  refine ⟨caller, hholder, ?_⟩
  split at hloop
  · rename_i hnone
    exact .inl ⟨hnone, (Option.some.inj hloop).symm⟩
  · rename_i h hstep
    split at hloop
    · rename_i hidle
      exact .inr ⟨h, hstep, .inl ⟨hidle, (Option.some.inj hloop).symm⟩⟩
    · rename_i hidle
      exact .inr ⟨h, hstep, .inr ⟨hidle, (Option.some.inj hloop).symm⟩⟩

theorem host_cases {a : HostAct α} (hs : stationStep cfg c st (.Host a) = some st') :
    hostOnly a = true ∧ (takesFsmLock a = true → st.holder = none) ∧
      ∃ h, hostStep cfg (lactoSnapshots c) st.host a = some h ∧
        st' = { st.adopt h with
          unseen := st.unseen || (guarded a && signals st.node h.node)
          catchups := catchupsAfter st.catchups h a } := by
  simp only [stationStep] at hs
  split at hs
  · cases hs
  rename_i hnot
  obtain ⟨h, hstep, rfl⟩ := Option.map_eq_some_iff.mp hs
  refine ⟨?_, fun htakes => ?_, h, hstep, rfl⟩
  · by_contra hno
    exact hnot (.inl (by simpa using hno))
  · by_contra hno
    exact hnot (.inr ⟨htakes, Option.isSome_iff_ne_none.mpr hno⟩)

/-! ## The first of three nodes -/

def milk (sequence_id : Nat) : Bytes := .inl { putMilk 7 with sequence_id := sequence_id }

def firstStart : Station Bytes :=
  let n := RaftNode.try_new_with_applied 1 (SledStorage.new : SledStorage Bytes) 0 0 1
  ⟨⟨⟨.new ⟨n.transition (.Follower n.state), 0, 1⟩, .Idle, []⟩, .new, 0, [], [], 0⟩,
    [], false, .Waiting, 0, none⟩

theorem started_first : Started firstOfThree plainSnapshots firstStart :=
  ⟨1, .new, .new, _, _, rfl, rfl⟩

def stationAfter (as : List (StationAct Bytes)) : Station Bytes :=
  (exec (stationStep firstOfThree plainSnapshots) firstStart as).getD firstStart

theorem stationAfter_run {P : Station Bytes → StationAct Bytes → Prop}
    {as : List (StationAct Bytes)} (hP : ∀ st, ∀ a ∈ as, P st a)
    (h : (exec (stationStep firstOfThree plainSnapshots) firstStart as).isSome = true) :
    StationRun firstOfThree plainSnapshots P firstStart (stationAfter as) := by
  obtain ⟨st, hst⟩ := Option.isSome_iff_exists.mp h
  refine run_of_exec as hP ?_
  unfold stationAfter
  rw [hst]
  rfl

/-- One more step, which meets the condition where it is taken. -/
theorem stationAfter_tail {P : Station Bytes → StationAct Bytes → Prop}
    {as : List (StationAct Bytes)} {a : StationAct Bytes}
    (hrun : StationRun firstOfThree plainSnapshots P firstStart (stationAfter as))
    (hP : P (stationAfter as) a)
    (h : (exec (stationStep firstOfThree plainSnapshots) firstStart (as ++ [a])).isSome = true) :
    StationRun firstOfThree plainSnapshots P firstStart (stationAfter (as ++ [a])) := by
  obtain ⟨st, hst⟩ := Option.isSome_iff_exists.mp h
  refine .tail hrun hP (a := a) ?_
  rw [exec_append] at hst
  obtain ⟨st₁, hst₁, hstep⟩ := Option.bind_eq_some_iff.mp hst
  unfold stationAfter
  rw [exec_append, hst₁]
  simp only [exec, Option.bind_fun_some] at hstep
  simp only [Option.bind_some, Option.getD_some, exec, Option.bind_fun_some, hstep]

theorem stationAfter_append {P : Station Bytes → StationAct Bytes → Prop}
    {as : List (StationAct Bytes)}
    (hrun : StationRun firstOfThree plainSnapshots P firstStart (stationAfter as))
    (bs : List (StationAct Bytes)) (hP : ∀ st, ∀ a ∈ bs, P st a)
    (h : (exec (stationStep firstOfThree plainSnapshots) firstStart (as ++ bs)).isSome = true) :
    StationRun firstOfThree plainSnapshots P firstStart (stationAfter (as ++ bs)) := by
  obtain ⟨st, hst⟩ := Option.isSome_iff_exists.mp h
  rw [exec_append] at hst
  obtain ⟨st₁, hst₁, hrest⟩ := Option.bind_eq_some_iff.mp hst
  refine hrun.trans (run_of_exec bs hP ?_)
  unfold stationAfter
  rw [exec_append, hst₁]
  exact hrest.trans (by simp [hrest])

/-- A run whose steps meet the condition, each where it is taken. -/
theorem stationAfter_take {P : Station Bytes → StationAct Bytes → Prop}
    (as : List (StationAct Bytes))
    (hP : ∀ k a, as[k]? = some a → P (stationAfter (as.take k)) a)
    (h : (exec (stationStep firstOfThree plainSnapshots) firstStart as).isSome = true) :
    StationRun firstOfThree plainSnapshots P firstStart (stationAfter as) :=
  run_of_takes as hP h

/-- The leader of term 1 sends two entries and says that they are committed; the background
applier applies both. -/
def applyTwo : List (StationAct Bytes) :=
  .Host (.Deliver (.AppendEntries 1 ⟨1, 2, 0, 0, [⟨1, 1, milk 1⟩, ⟨2, 1, milk 2⟩], 2⟩) 10) ::
    .Enter .Background :: List.replicate 8 .Loop

/-- The node is elected with the vote of node 2, commits two entries with it, applies them
and compacts its log. Node 3 has nothing yet. -/
def leadAndCompact : List (StationAct Bytes) :=
  [.Host (.Tick 1), .Host (.RunTask 0 2 (some (.PreVoteReply 2 ⟨0, 1, 0, 0⟩ ⟨0, true⟩)) 1),
    .Host (.RunTask 0 2 none 5),
    .Host (.RunTask 0 2 (some (.VoteReply 2 ⟨1, 1, 0, 0⟩ ⟨1, true⟩)) 5),
    .Host (.Propose (milk 1)), .Host (.Propose (milk 2)), .Host (.Tick 5),
    .Call 0 0 none 5, .Call 0 0 (some (.Append ⟨1, true, 2⟩)) 5] ++
  .Enter .Background :: List.replicate 8 .Loop ++
  [.Host (.Tick 5), .Host (.SaveMetadata 0), .Host (.TruncateFront 0),
    .Host (.ThawCompaction 0), .Enter .CatchUp, .Loop, .Loop]

/-- In the next round node 3 answers the probe, and the state machine is frozen for it. -/
def freezeForThree : List (StationAct Bytes) :=
  [.Call 0 1 none 5, .Call 0 1 (some (.Append ⟨1, false, 0⟩)) 5, .Call 0 1 none 5]

end raft_engine.station
