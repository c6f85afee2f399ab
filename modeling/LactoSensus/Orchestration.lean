-- One host with compaction and snapshots: the tick loop captures a target, a
-- background task writes it as the horizon and then cuts the front of the log
-- without the lock; an accepted snapshot is restored and finalised by a task
-- of its own. Messages and replies come from outside, in any order.
import LactoSensus.Cluster

open common.types
open raft_engine.storage
open raft_engine.node
open raft_engine.engine
open raft_engine.consensus
open raft_engine.shell
open raft_engine.cluster

namespace raft_engine.orchestration

variable {α S : Type}

/-! ## Freezing -/

/-- The depth is an `AtomicU32`. -/
def u32Max : Nat := 2 ^ 32 - 1

/-- `freeze`: the new depth. -/
def freeze (fsm_freeze_depth : Nat) : Except String Nat :=
  if fsm_freeze_depth = u32Max then
    .error "fsm_freeze_depth overflow (u32::MAX concurrent freezes)"
  else .ok (fsm_freeze_depth + 1)

/-- The new depth; whoever thaws must have frozen. -/
def thaw (fsm_freeze_depth : Nat) : Except String Nat :=
  if fsm_freeze_depth = 0 then
    .error "fsm_freeze_depth underflow (thaw without matching freeze)"
  else .ok (fsm_freeze_depth - 1)

/-- Somebody needs the store to stand still. -/
def is_frozen (fsm_freeze_depth : Nat) : Bool := fsm_freeze_depth > 0

/-- The depth after a call that may have failed; a failed one leaves it. -/
def depthAfter (fsm_freeze_depth : Nat) (res : Except String Nat) : Nat :=
  match res with
  | .ok depth => depth
  | .error _ => fsm_freeze_depth

/-! ## The host -/

/-- A snapshot on its way, with the index that it is labelled with. -/
structure SnapshotParams (α : Type) where
  leader_id : NodeId
  term : Nat
  last_included_index : Nat
  last_included_term : Nat
  data : α
deriving DecidableEq

/-- `initiate_log_compaction` at the points where it waits. -/
inductive Compaction where
  | Captured (index term : Nat)
  | Saved (index : Nat)
  | Truncated
deriving DecidableEq, Repr

/-- The background part of `handle_install_snapshot`. -/
inductive Installation (α : Type) where
  | Accepted (params : SnapshotParams α)
  | Restored (params : SnapshotParams α) (res : Except String Unit)

/-- A state machine that can also be restored from a snapshot. -/
structure SnapshotMachine (α S : Type) extends StateMachine α S where
  install_snapshot : S → Nat → α → Except String S

/-- A host with its state machine, and the tasks that freeze it. -/
structure SnapshotHost (α S : Type) where
  process : Process α
  fsm : S
  fsm_freeze_depth : Nat
  compactions : List Compaction
  installations : List (Installation α)
  /-- Snapshots being serialised for peers. -/
  transfers : Nat

def SnapshotHost.node (h : SnapshotHost α S) : LogicalNode α := h.process.shell.inner

def SnapshotHost.disk (h : SnapshotHost α S) : SledStorage α := h.node.node.disk

/-- The host after a write under the lock. -/
def SnapshotHost.withShell (h : SnapshotHost α S) (sh : ConsensusShell α) : SnapshotHost α S :=
  { h with process := { h.process with shell := sh } }

/-! ## The tasks -/

/-- The entries that are applied behind the horizon are more than the threshold. -/
def should_compact_log (ln : LogicalNode α) (snapshot_threshold : Nat) (is_frozen : Bool) :
    Bool :=
  if is_frozen then false
  else
    let applied := ln.last_applied
    let last_snap := ln.node.last_included_index
    let log_length := match checked_sub applied last_snap with
      | .ok i => i
      | .error _ => 0
    log_length > snapshot_threshold

/-- The target that the tick loop captures. The clock has ticked before, which
changes nothing that is read here; at depth zero the freeze cannot fail. -/
def compactionTarget (snapshot_threshold fsm_freeze_depth : Nat) (ln : LogicalNode α) :
    Option (Nat × Nat) :=
  if ln.is_poisoned then none
  else if should_compact_log ln snapshot_threshold (is_frozen fsm_freeze_depth) then
    some (ln.last_applied, ln.get_term_at ln.last_applied)
  else none

/-- A freeze or thaw under the lock: a failed one is fatal. -/
def changeDepth (res : Except String Nat) (ln : LogicalNode α) : Handled α Unit :=
  match res with
  | .ok _ => (ln, .ok ())
  | .error e => ln.apply_fatal (.Protocol e)

/-- Phase 1 of `handle_install_snapshot`: true when the snapshot is accepted. -/
def acceptSnapshot (fsm_freeze_depth : Nat) (params : SnapshotParams α) (timeout : Nat)
    (ln : LogicalNode α) : Handled α Bool :=
  match ln.handle_install_snapshot params.leader_id params.term params.last_included_index
    timeout with
  | (ln, .error p) => (ln, .error p)
  | (ln, .ok res) =>
    match res.action with
    | .Rejected => (ln, .ok false)
    | .Stale => (ln, .ok false)
    | .Accepted =>
      match freeze fsm_freeze_depth with
      | .ok _ => (ln, .ok true)
      | .error e => ln.apply_fatal (.Protocol s!"Structural Invariant Violation: {e}")

/-- Phase 3 of `handle_install_snapshot`. -/
def finalizeSnapshot (fsm_freeze_depth : Nat) (params : SnapshotParams α)
    (res : Except String Unit) (ln : LogicalNode α) : Handled α Unit :=
  match thaw fsm_freeze_depth with
  | .error e => ln.apply_fatal (.Protocol s!"Structural Invariant Violation: {e}")
  | .ok _ =>
    match res with
    | .error e => ln.apply_fatal (.Protocol s!"Background snapshot restoration failure: {e}")
    | .ok () =>
      match ln.save_snapshot_metadata params.last_included_index params.last_included_term with
      | (ln, .error p) => (ln, .error p)
      | (ln, .ok ()) =>
        match ln.advance_horizon_after_snapshot params.last_included_index with
        | (ln, .error p) => (ln, .error p)
        | (ln, .ok (.error e)) => ln.apply_fatal e
        | (ln, .ok (.ok ())) => (ln, .ok ())

/-! ## Steps -/

/-- The cluster, and the host in it. -/
structure HostConfig where
  cluster : Config
  node_id : NodeId
  snapshot_threshold : Nat

/-- What can happen on a host. The numbers name tasks by their place. -/
inductive HostAct (α : Type) where
  | Tick (timeout : Nat)
  | RunTask (k : Nat) (peer : NodeId) (reply : Option (Message α)) (timeout : Nat)
  | Deliver (msg : Message α) (timeout : Nat)
  | Propose (data : α)
  | Probe
  | Apply
  /-- The compaction task `k` under its first lock. -/
  | SaveMetadata (k : Nat)
  /-- The compaction task `k` without the lock. -/
  | TruncateFront (k : Nat)
  /-- The compaction task `k` under its second lock. -/
  | ThawCompaction (k : Nat)
  | InstallSnapshot (params : SnapshotParams α) (timeout : Nat)
  | Restore (k : Nat)
  | Finalize (k : Nat)
  /-- `replicate_snapshot_to_peer` around the serialisation, and what becomes of it. -/
  | BeginTransfer
  | EndTransfer
  | TransferReply (term : Nat) (peer : NodeId) (last_included_index response_term timeout : Nat)

/-- One action of the host, each under at most one lock; none if nothing can do it. -/
def hostStep [DecidableEq α] (cfg : HostConfig) (sm : SnapshotMachine α S)
    (h : SnapshotHost α S) : HostAct α → Option (SnapshotHost α S)
  | .Tick timeout =>
    let target := compactionTarget cfg.snapshot_threshold h.fsm_freeze_depth h.node
    let spawned := target.toList.map fun t => Compaction.Captured t.1 t.2
    match h.process.shell.write fun ln => tickLocked ln timeout with
    | (sh, res) =>
      let tasks : List (SpawnedTask α) := match res with
        | .ok spawn => spawn.tasks (cfg.cluster.peer_ids cfg.node_id)
        | .error _ => []
      some { h with
        process := { h.process with shell := sh, tasks := tasks ++ h.process.tasks }
        fsm_freeze_depth := h.fsm_freeze_depth + spawned.length
        compactions := spawned ++ h.compactions }
  | .RunTask k peer reply timeout =>
    h.process.tasks[k]?.bind fun task =>
      (runTask cfg.cluster cfg.node_id h.process.shell peer reply timeout task).map
        fun (sh, tasks, _) =>
          { h with
            process := { h.process with
              shell := sh
              tasks := tasks ++ h.process.tasks.eraseIdx k } }
  | .Deliver msg timeout =>
    (serve h.process.shell timeout msg).map fun (_, sh, _) => h.withShell sh
  | .Propose data => some (h.withShell (h.process.shell.propose data).1)
  | .Probe =>
    match h.process.shell.prepare_probe with
    | (sh, .ok (.ok probe)) =>
      let tasks : List (SpawnedTask α) := match probe.round with
        | some params => [.Replication params (cfg.cluster.peer_ids cfg.node_id) []]
        | none => []
      some { h with process := { h.process with shell := sh, tasks := tasks ++ h.process.tasks } }
    | (sh, _) => some (h.withShell sh)
  | .Apply =>
    (runApplier sm.toStateMachine h.process h.fsm).map fun (p, fsm) =>
      { h with process := p, fsm := fsm }
  | .SaveMetadata k =>
    match h.compactions[k]? with
    | some (.Captured index term) =>
      match h.process.shell.write fun ln => ln.save_snapshot_metadata index term with
      | (sh, .ok ()) =>
        some { h.withShell sh with compactions := h.compactions.set k (.Saved index) }
      -- a task that panics is gone, and nobody thaws for it
      | (sh, .error _) => some { h.withShell sh with compactions := h.compactions.eraseIdx k }
    | _ => none
  | .TruncateFront k =>
    match h.compactions[k]? with
    | some (.Saved index) =>
      let sh := h.process.shell
      let node := sh.inner.node.write (SledStorage.truncate_log_front index)
      some { h.withShell { sh with inner := { sh.inner with node := node } } with
        compactions := h.compactions.set k .Truncated }
    | _ => none
  | .ThawCompaction k =>
    match h.compactions[k]? with
    | some .Truncated =>
      let depth := thaw h.fsm_freeze_depth
      match h.process.shell.write fun ln => changeDepth depth ln with
      | (sh, _) =>
        some { h.withShell sh with
          fsm_freeze_depth := depthAfter h.fsm_freeze_depth depth
          compactions := h.compactions.eraseIdx k }
    | _ => none
  | .InstallSnapshot params timeout =>
    match h.process.shell.write fun ln =>
      acceptSnapshot h.fsm_freeze_depth params timeout ln with
    | (sh, .ok true) =>
      some { h.withShell sh with
        fsm_freeze_depth := depthAfter h.fsm_freeze_depth (freeze h.fsm_freeze_depth)
        installations := h.installations ++ [.Accepted params] }
    | (sh, _) => some (h.withShell sh)
  | .Restore k =>
    match h.installations[k]?, h.process.applier with
    -- the applier holds the lock of the state machine for its whole loop
    | some (.Accepted params), .Idle =>
      match sm.install_snapshot h.fsm params.last_included_index params.data with
      | .ok fsm =>
        some { h with
          fsm := fsm
          installations := h.installations.set k (.Restored params (.ok ())) }
      | .error e =>
        some { h with installations := h.installations.set k (.Restored params (.error e)) }
    | _, _ => none
  | .Finalize k =>
    match h.installations[k]? with
    | some (.Restored params res) =>
      match h.process.shell.write fun ln => finalizeSnapshot h.fsm_freeze_depth params res ln with
      | (sh, _) =>
        some { h.withShell sh with
          fsm_freeze_depth := depthAfter h.fsm_freeze_depth (thaw h.fsm_freeze_depth)
          installations := h.installations.eraseIdx k }
    | _ => none
  | .BeginTransfer =>
    let depth := freeze h.fsm_freeze_depth
    match h.process.shell.write fun ln => changeDepth depth ln with
    | (sh, .ok ()) =>
      some { h.withShell sh with
        fsm_freeze_depth := depthAfter h.fsm_freeze_depth depth
        transfers := h.transfers + 1 }
    | (sh, .error _) => some (h.withShell sh)
  | .EndTransfer =>
    if h.transfers = 0 then none
    else
      let depth := thaw h.fsm_freeze_depth
      match h.process.shell.write fun ln => changeDepth depth ln with
      | (sh, _) =>
        some { h.withShell sh with
          fsm_freeze_depth := depthAfter h.fsm_freeze_depth depth
          transfers := h.transfers - 1 }
  | .TransferReply term peer last_included_index response_term timeout =>
    match h.process.shell.write fun ln =>
      process_replication_response ln term peer
        (.InstallSnapshot last_included_index response_term) timeout with
    | (sh, .ok (.error err)) =>
      some { h with
        process := { h.process with shell := sh, tasks := .Fatal err :: h.process.tasks } }
    | (sh, _) => some (h.withShell sh)

/-- A host at its first start, on an empty disk. -/
def Fresh (cfg : HostConfig) (sm : SnapshotMachine α S) (h : SnapshotHost α S) : Prop :=
  ∃ timeout ln,
    LogicalNode.try_new cfg.node_id (sm.last_applied_index sm.empty) SledStorage.new
      cfg.cluster.heartbeat_interval timeout = .ok ln ∧
    h = ⟨⟨.new ln, .Idle, []⟩, sm.empty, 0, [], [], 0⟩

/-- The steps of the host that meet a condition on the host before them. -/
def HostRun [DecidableEq α] (cfg : HostConfig) (sm : SnapshotMachine α S)
    (P : SnapshotHost α S → HostAct α → Prop) : SnapshotHost α S → SnapshotHost α S → Prop :=
  machine.Run (hostStep cfg sm) P

end raft_engine.orchestration
