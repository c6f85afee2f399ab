-- What each action of a host does, said once: which handler has run under the guard,
-- what it returned, and what else of the host is different.
import LactoSensus.Orchestration

open common.types
open raft_engine.storage
open raft_engine.node
open raft_engine.engine
open raft_engine.consensus
open raft_engine.shell
open raft_engine.cluster

namespace raft_engine.orchestration

variable {α S : Type}

/-- The compaction that a tick begins. -/
def HostConfig.captured (cfg : HostConfig) (h : SnapshotHost α S) : List Compaction :=
  (compactionTarget cfg.snapshot_threshold h.fsm_freeze_depth h.node).toList.map
    fun t => .Captured t.1 t.2

/-- The tasks that a tick spawns; one that has panicked spawns none. -/
def tickTasks (peers : List NodeId) : Except Panic TickSpawn → List (SpawnedTask α)
  | .ok spawn => spawn.tasks peers
  | .error _ => []

/-- The round that carries a probe, when the call has opened a new epoch. -/
def probeTasks (peers : List NodeId) (probe : ReadProbe) : List (SpawnedTask α) :=
  match probe.round with
  | some params => [.Replication params peers []]
  | none => []

theorem mem_probeTasks {peers : List NodeId} {probe : ReadProbe} {task : SpawnedTask α}
    (h : task ∈ probeTasks peers probe) : ∃ params, task = .Replication params peers [] := by
  unfold probeTasks at h
  split at h
  · exact ⟨_, List.mem_singleton.mp h⟩
  · cases h

/-- The host after an action, for every way in which the action can go. -/
inductive HostMove [DecidableEq α] (cfg : HostConfig) (sm : SnapshotMachine α S)
    (h : SnapshotHost α S) : HostAct α → SnapshotHost α S → Prop where
  | ticked {timeout : Nat} {sh : ConsensusShell α} {res : Except Panic TickSpawn}
      (hw : (h.process.shell.write fun ln => tickLocked ln timeout) = (sh, res)) :
      HostMove cfg sm h (.Tick timeout) { h with
        process := { h.process with
          shell := sh
          tasks := tickTasks (cfg.cluster.peer_ids cfg.node_id) res ++ h.process.tasks }
        fsm_freeze_depth := h.fsm_freeze_depth + (cfg.captured h).length
        compactions := cfg.captured h ++ h.compactions }
  | ran {k : Nat} {peer : NodeId} {reply : Option (Message α)} {timeout : Nat}
      {task : SpawnedTask α} {sh : ConsensusShell α} {tasks : List (SpawnedTask α)}
      {sends : List (Message α)} (hk : h.process.tasks[k]? = some task)
      (hrun : runTask cfg.cluster cfg.node_id h.process.shell peer reply timeout task =
        some (sh, tasks, sends)) :
      HostMove cfg sm h (.RunTask k peer reply timeout) { h with
        process := { h.process with
          shell := sh
          tasks := tasks ++ h.process.tasks.eraseIdx k } }
  | served {msg : Message α} {timeout : Nat} {dst : NodeId} {sh : ConsensusShell α}
      {sends : List (Message α)}
      (hserve : serve h.process.shell timeout msg = some (dst, sh, sends)) :
      HostMove cfg sm h (.Deliver msg timeout) (h.withShell sh)
  | proposed (data : α) :
      HostMove cfg sm h (.Propose data) (h.withShell (h.process.shell.propose data).1)
  | probed {sh : ConsensusShell α} {probe : ReadProbe}
      (hprobe : h.process.shell.prepare_probe = (sh, .ok (.ok probe))) :
      HostMove cfg sm h .Probe { h with
        process := { h.process with
          shell := sh
          tasks := probeTasks (cfg.cluster.peer_ids cfg.node_id) probe ++ h.process.tasks } }
  | unprobed {sh : ConsensusShell α} {res : Except Panic (Except ConsensusError ReadProbe)}
      (hprobe : h.process.shell.prepare_probe = (sh, res))
      (hno : ∀ probe, res ≠ .ok (.ok probe)) : HostMove cfg sm h .Probe (h.withShell sh)
  | applied {p : Process α} {fsm : S}
      (hrun : runApplier sm.toStateMachine h.process h.fsm = some (p, fsm)) :
      HostMove cfg sm h .Apply { h with process := p, fsm := fsm }
  | saved {k index term : Nat} {sh : ConsensusShell α}
      (hk : h.compactions[k]? = some (.Captured index term))
      (hw : (h.process.shell.write fun ln => ln.save_snapshot_metadata index term) =
        (sh, .ok ())) :
      HostMove cfg sm h (.SaveMetadata k)
        { h.withShell sh with compactions := h.compactions.set k (.Saved index) }
  | unsaved {k index term : Nat} {sh : ConsensusShell α} {p : Panic}
      (hk : h.compactions[k]? = some (.Captured index term))
      (hw : (h.process.shell.write fun ln => ln.save_snapshot_metadata index term) =
        (sh, .error p)) :
      HostMove cfg sm h (.SaveMetadata k)
        { h.withShell sh with compactions := h.compactions.eraseIdx k }
  | truncated {k index : Nat} (hk : h.compactions[k]? = some (.Saved index)) :
      HostMove cfg sm h (.TruncateFront k)
        { h.withShell { h.process.shell with
            inner := { h.node with
              node := h.node.node.write (SledStorage.truncate_log_front index) } } with
          compactions := h.compactions.set k .Truncated }
  | thawed {k : Nat} {sh : ConsensusShell α} {res : Except Panic Unit}
      (hk : h.compactions[k]? = some .Truncated)
      (hw : (h.process.shell.write fun ln => changeDepth (thaw h.fsm_freeze_depth) ln) =
        (sh, res)) :
      HostMove cfg sm h (.ThawCompaction k) { h.withShell sh with
        fsm_freeze_depth := depthAfter h.fsm_freeze_depth (thaw h.fsm_freeze_depth)
        compactions := h.compactions.eraseIdx k }
  | accepted {params : SnapshotParams α} {timeout : Nat} {sh : ConsensusShell α}
      (hw : (h.process.shell.write fun ln => acceptSnapshot h.fsm_freeze_depth params timeout ln) =
        (sh, .ok true)) :
      HostMove cfg sm h (.InstallSnapshot params timeout) { h.withShell sh with
        fsm_freeze_depth := depthAfter h.fsm_freeze_depth (freeze h.fsm_freeze_depth)
        installations := h.installations ++ [.Accepted params] }
  | declined {params : SnapshotParams α} {timeout : Nat} {sh : ConsensusShell α}
      {res : Except Panic Bool}
      (hw : (h.process.shell.write fun ln => acceptSnapshot h.fsm_freeze_depth params timeout ln) =
        (sh, res)) (hno : res ≠ .ok true) :
      HostMove cfg sm h (.InstallSnapshot params timeout) (h.withShell sh)
  | restored {k : Nat} {params : SnapshotParams α} {fsm : S}
      (hk : h.installations[k]? = some (.Accepted params)) (hidle : h.process.applier = .Idle)
      (hfsm : sm.install_snapshot h.fsm params.last_included_index params.data = .ok fsm) :
      HostMove cfg sm h (.Restore k) { h with
        fsm := fsm
        installations := h.installations.set k (.Restored params (.ok ())) }
  | unrestored {k : Nat} {params : SnapshotParams α} {e : String}
      (hk : h.installations[k]? = some (.Accepted params)) (hidle : h.process.applier = .Idle)
      (hfsm : sm.install_snapshot h.fsm params.last_included_index params.data = .error e) :
      HostMove cfg sm h (.Restore k)
        { h with installations := h.installations.set k (.Restored params (.error e)) }
  | finalized {k : Nat} {params : SnapshotParams α} {restored : Except String Unit}
      {sh : ConsensusShell α} {res : Except Panic Unit}
      (hk : h.installations[k]? = some (.Restored params restored))
      (hw : (h.process.shell.write fun ln =>
        finalizeSnapshot h.fsm_freeze_depth params restored ln) = (sh, res)) :
      HostMove cfg sm h (.Finalize k) { h.withShell sh with
        fsm_freeze_depth := depthAfter h.fsm_freeze_depth (thaw h.fsm_freeze_depth)
        installations := h.installations.eraseIdx k }
  | begun {sh : ConsensusShell α}
      (hw : (h.process.shell.write fun ln => changeDepth (freeze h.fsm_freeze_depth) ln) =
        (sh, .ok ())) :
      HostMove cfg sm h .BeginTransfer { h.withShell sh with
        fsm_freeze_depth := depthAfter h.fsm_freeze_depth (freeze h.fsm_freeze_depth)
        transfers := h.transfers + 1 }
  | unbegun {sh : ConsensusShell α} {p : Panic}
      (hw : (h.process.shell.write fun ln => changeDepth (freeze h.fsm_freeze_depth) ln) =
        (sh, .error p)) :
      HostMove cfg sm h .BeginTransfer (h.withShell sh)
  | ended {sh : ConsensusShell α} {res : Except Panic Unit} (hpos : h.transfers ≠ 0)
      (hw : (h.process.shell.write fun ln => changeDepth (thaw h.fsm_freeze_depth) ln) =
        (sh, res)) :
      HostMove cfg sm h .EndTransfer { h.withShell sh with
        fsm_freeze_depth := depthAfter h.fsm_freeze_depth (thaw h.fsm_freeze_depth)
        transfers := h.transfers - 1 }
  | answered {term : Nat} {peer : NodeId} {index response_term timeout : Nat}
      {sh : ConsensusShell α} {res : Except Panic (Except NodeError ReplicationAction)}
      (hw : (h.process.shell.write fun ln => process_replication_response ln term peer
        (.InstallSnapshot index response_term) timeout) = (sh, res))
      (hno : ∀ err, res ≠ .ok (.error err)) :
      HostMove cfg sm h (.TransferReply term peer index response_term timeout) (h.withShell sh)
  | unanswered {term : Nat} {peer : NodeId} {index response_term timeout : Nat}
      {sh : ConsensusShell α} {err : NodeError}
      (hw : (h.process.shell.write fun ln => process_replication_response ln term peer
        (.InstallSnapshot index response_term) timeout) = (sh, .ok (.error err))) :
      HostMove cfg sm h (.TransferReply term peer index response_term timeout) { h with
        process := { h.process with shell := sh, tasks := .Fatal err :: h.process.tasks } }

variable {cfg : HostConfig} {sm : SnapshotMachine α S} {h h' : SnapshotHost α S} {a : HostAct α}

theorem hostStep_moves [DecidableEq α] (hs : hostStep cfg sm h a = some h') :
    HostMove cfg sm h a h' := by
  cases a with
  | Tick timeout =>
    obtain rfl := Option.some.inj hs
    exact .ticked rfl
  | RunTask k peer reply timeout =>
    obtain ⟨task, hk, hrun⟩ := Option.bind_eq_some_iff.mp hs
    obtain ⟨⟨sh, tasks, sends⟩, htask, rfl⟩ := Option.map_eq_some_iff.mp hrun
    exact .ran hk htask
  | Deliver msg timeout =>
    obtain ⟨⟨dst, sh, sends⟩, hserve, rfl⟩ := Option.map_eq_some_iff.mp hs
    exact .served hserve
  | Propose data =>
    obtain rfl := Option.some.inj hs
    exact .proposed data
  | Probe =>
    simp only [hostStep] at hs
    generalize hprobe : h.process.shell.prepare_probe = r at hs
    obtain ⟨sh, p | e | probe⟩ := r <;> obtain rfl := Option.some.inj hs
    · exact .unprobed hprobe nofun
    · exact .unprobed hprobe nofun
    · exact .probed hprobe
  | Apply =>
    obtain ⟨⟨p, fsm⟩, hrun, rfl⟩ := Option.map_eq_some_iff.mp hs
    exact .applied hrun
  | SaveMetadata k =>
    simp only [hostStep] at hs
    split at hs
    · rename_i index term hk
      generalize hw : h.process.shell.write _ = r at hs
      obtain ⟨sh, p | u⟩ := r <;> obtain rfl := Option.some.inj hs
      · exact .unsaved hk hw
      · exact .saved hk hw
    · cases hs
  | TruncateFront k =>
    simp only [hostStep] at hs
    split at hs
    · rename_i index hk
      obtain rfl := Option.some.inj hs
      exact .truncated hk
    · cases hs
  | ThawCompaction k =>
    simp only [hostStep] at hs
    split at hs
    · rename_i hk
      obtain rfl := Option.some.inj hs
      exact .thawed hk rfl
    · cases hs
  | InstallSnapshot params timeout =>
    simp only [hostStep] at hs
    generalize hw : h.process.shell.write _ = r at hs
    obtain ⟨sh, p | b⟩ := r
    · obtain rfl := Option.some.inj hs
      exact .declined hw nofun
    · cases b <;> obtain rfl := Option.some.inj hs
      · exact .declined hw nofun
      · exact .accepted hw
  | Restore k =>
    simp only [hostStep] at hs
    split at hs
    · rename_i params hk hidle
      split at hs <;> rename_i hfsm <;> obtain rfl := Option.some.inj hs
      · exact .restored hk hidle hfsm
      · exact .unrestored hk hidle hfsm
    · cases hs
  | Finalize k =>
    simp only [hostStep] at hs
    split at hs
    · rename_i params res hk
      obtain rfl := Option.some.inj hs
      exact .finalized hk rfl
    · cases hs
  | BeginTransfer =>
    simp only [hostStep] at hs
    generalize hw : h.process.shell.write _ = r at hs
    obtain ⟨sh, p | u⟩ := r <;> obtain rfl := Option.some.inj hs
    · exact .unbegun hw
    · exact .begun hw
  | EndTransfer =>
    simp only [hostStep] at hs
    split at hs
    · cases hs
    · rename_i hpos
      obtain rfl := Option.some.inj hs
      exact .ended hpos rfl
  | TransferReply term peer index response_term timeout =>
    simp only [hostStep] at hs
    generalize hw : h.process.shell.write _ = r at hs
    obtain ⟨sh, p | err | action⟩ := r <;> obtain rfl := Option.some.inj hs
    · exact .answered hw nofun
    · exact .unanswered hw
    · exact .answered hw nofun

end raft_engine.orchestration
