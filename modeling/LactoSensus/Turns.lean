-- What becomes of the role of a node in a step of its station: whatever the tick
-- loop, the campaigns, the applier, the compactions and the installations do,
-- nobody comes to lead but a candidate that is elected, and a leader keeps what
-- it has counted. Only a probe and an answer of a round touch that.
import LactoSensus.Roles
import LactoSensus.Station

open common.types
open raft_engine.storage
open raft_engine.node
open raft_engine.engine
open raft_engine.consensus
open raft_engine.shell
open raft_engine.cluster
open raft_engine.orchestration
open raft_engine.station
open lacto_fsm

namespace raft_engine.roles

variable {α S X : Type} {ln ln' : LogicalNode α} {sh sh' : ConsensusShell α} {peers : List NodeId}

/-! ## The terms of the answers -/

/-- The term is that of the node before the request or after it. -/
theorem handle_append_entries_term {leader_id : NodeId}
    {req_term prev_log_index prev_log_term : Nat} {entries : List (LogEntry α)}
    {leader_commit timeout : Nat} {r : AppendEntriesResult}
    (hres : (ln.handle_append_entries leader_id req_term prev_log_index prev_log_term entries
      leader_commit timeout).2 = .ok r) : ln.current_term ≤ r.term := by
  have hafter := (handle_append_entries_steady ln leader_id req_term prev_log_index prev_log_term
    entries leader_commit timeout).term
  unfold LogicalNode.handle_append_entries at hres hafter
  dsimp only at hres hafter
  generalize ln.validate_leader_rpc_term req_term leader_id "AppendEntries" timeout = v
    at hres hafter
  obtain ⟨ln₁, p | res⟩ := v
  · cases hres
  cases res with
  | Stale =>
    obtain rfl := Except.ok.inj hres
    exact le_rfl
  | Valid =>
    dsimp only at hres hafter
    generalize ln₁.reset_heartbeat = ln₂ at hres hafter
    cases hst : ln₂.node.state with
    | Follower f =>
      rw [hst] at hres hafter
      dsimp only at hres hafter
      generalize (ln₂.node.transition f).reconcile_log prev_log_index prev_log_term entries
        leader_commit = rec at hres hafter
      obtain ⟨n, e | result⟩ := rec
      · cases hres
      · obtain rfl := Except.ok.inj hres
        exact hafter
    | _ =>
      rw [hst] at hres hafter
      obtain rfl := Except.ok.inj hres
      exact hafter

theorem handle_install_snapshot_term {leader_id : NodeId}
    {req_term last_included_index timeout : Nat} {r : InstallSnapshotResult}
    (hres : (ln.handle_install_snapshot leader_id req_term last_included_index timeout).2 =
      .ok r) : ln.current_term ≤ r.term := by
  have hafter := (handle_install_snapshot_steady ln leader_id req_term last_included_index
    timeout).term
  unfold LogicalNode.handle_install_snapshot at hres hafter
  dsimp only at hres hafter
  generalize ln.validate_leader_rpc_term req_term leader_id "InstallSnapshot" timeout = v
    at hres hafter
  obtain ⟨ln₁, p | res⟩ := v
  · cases hres
  cases res with
  | Stale =>
    obtain rfl := Except.ok.inj hres
    exact le_rfl
  | Valid =>
    dsimp only at hres hafter
    split at hres
    · obtain rfl := Except.ok.inj hres
      exact le_rfl
    · rename_i hnew
      rw [if_neg hnew] at hafter
      obtain rfl := Except.ok.inj hres
      exact hafter

/-! ## Handlers of the host -/

theorem changeDepth_held (res : Except String Nat) (ln : LogicalNode α) :
    Held ln (changeDepth res ln).1 := by
  cases res with
  | ok depth => exact .refl ln
  | error e => exact (Held.refl ln).poison

theorem save_snapshot_metadata_held (ln : LogicalNode α) (index term : Nat) :
    Held ln (ln.save_snapshot_metadata index term).1 := by
  unfold LogicalNode.save_snapshot_metadata
  split
  · exact .refl ln
  · exact .onto rfl rfl rfl

theorem advance_horizon_after_snapshot_held (ln : LogicalNode α) (index : Nat) :
    Held ln (ln.advance_horizon_after_snapshot index).1 := by
  unfold LogicalNode.advance_horizon_after_snapshot RaftNode.advance_horizon_after_snapshot
    RaftNode.update_commit_index_only
  dsimp only
  split_ifs
  · exact .refl ln
  · exact .onto rfl rfl rfl
  · exact .onto rfl rfl rfl
  · exact .onto rfl rfl rfl
  · exact .onto rfl rfl rfl

theorem recordApplied_held (ln : LogicalNode α) (next_idx : Nat) :
    Held ln (recordApplied next_idx ln).1 := by
  have h := advance_horizon_after_snapshot_held ln next_idx
  unfold recordApplied
  generalize ln.advance_horizon_after_snapshot next_idx = r at h
  obtain ⟨ln', p | e | u⟩ := r
  · exact h
  · exact h.poison
  · exact h

theorem acceptSnapshot_held (depth : Nat) (params : SnapshotParams α) (timeout : Nat)
    (ln : LogicalNode α) : Held ln (acceptSnapshot depth params timeout ln).1 := by
  have h := (handle_install_snapshot_steady ln params.leader_id params.term
    params.last_included_index timeout).toHeld
  unfold acceptSnapshot
  generalize ln.handle_install_snapshot params.leader_id params.term params.last_included_index
    timeout = r at h
  obtain ⟨ln', p | res⟩ := r
  · exact h
  dsimp only
  cases res.action with
  | Rejected => exact h
  | Stale => exact h
  | Accepted =>
    cases freeze depth with
    | ok d => exact h
    | error e => exact h.poison

theorem finalizeSnapshot_held (depth : Nat) (params : SnapshotParams α) (res : Except String Unit)
    (ln : LogicalNode α) : Held ln (finalizeSnapshot depth params res ln).1 := by
  unfold finalizeSnapshot
  cases thaw depth with
  | error e => exact (Held.refl ln).poison
  | ok d =>
    cases res with
    | error e => exact (Held.refl ln).poison
    | ok u =>
      have hsaved := save_snapshot_metadata_held ln params.last_included_index
        params.last_included_term
      dsimp only
      generalize ln.save_snapshot_metadata params.last_included_index params.last_included_term = r
        at hsaved
      obtain ⟨ln₁, p | u⟩ := r
      · exact hsaved
      have hadvanced := hsaved.trans
        (advance_horizon_after_snapshot_held ln₁ params.last_included_index)
      dsimp only
      generalize ln₁.advance_horizon_after_snapshot params.last_included_index = r at hadvanced
      obtain ⟨ln₂, p | e | u⟩ := r
      · exact hadvanced
      · exact hadvanced.poison
      · exact hadvanced

/-- What the applier does to the node while it has the lock. -/
theorem runApplier_turned {sm : StateMachine α S} {p p' : Process α} {fsm fsm' : S}
    (hrun : runApplier sm p fsm = some (p', fsm')) : Turned peers p.shell p'.shell := by
  have hfatal : ∀ err : NodeError, Turned peers p.shell ({ p with
      shell := (p.shell.write fun ln => (ln.apply_fatal err : Handled α Unit)).1
      applier := .Idle } : Process α).shell := by
    intro err
    have hheld : Held p.shell.inner p.shell.inner.poison := (Held.refl _).poison
    exact Turned.write (f := fun ln => (ln.apply_fatal err : Handled α Unit)) (.held hheld)
  cases happ : p.applier with
  | Applied next_idx =>
    rw [runApplier_applied happ] at hrun
    have h : Turned peers p.shell (p.shell.write (recordApplied next_idx)).1 :=
      .write (.held (recordApplied_held _ next_idx))
    generalize p.shell.write (recordApplied next_idx) = r at hrun h
    obtain ⟨sh, e | committed⟩ := r <;>
    · obtain ⟨rfl, -⟩ := Prod.mk.inj (Option.some.inj hrun)
      exact h
  | Idle =>
    unfold runApplier at hrun
    rw [happ] at hrun
    dsimp only at hrun
    split at hrun
    · cases hrun
    split at hrun <;> obtain ⟨rfl, -⟩ := Prod.mk.inj (Option.some.inj hrun)
    · exact hfatal _
    · exact .same _
  | Looping applied committed =>
    unfold runApplier at hrun
    rw [happ] at hrun
    dsimp only at hrun
    split at hrun
    swap
    · obtain ⟨rfl, -⟩ := Prod.mk.inj (Option.some.inj hrun)
      exact .same _
    split at hrun
    · obtain ⟨rfl, -⟩ := Prod.mk.inj (Option.some.inj hrun)
      exact hfatal _
    split at hrun <;> obtain ⟨rfl, -⟩ := Prod.mk.inj (Option.some.inj hrun)
    · exact hfatal _
    · exact hfatal _
    · exact .same _
  | Fetched next_idx data =>
    unfold runApplier at hrun
    rw [happ] at hrun
    dsimp only at hrun
    split at hrun <;> obtain ⟨rfl, -⟩ := Prod.mk.inj (Option.some.inj hrun)
    · exact .same _
    · exact hfatal _

/-! ## Steps of the host -/

theorem try_consensus_progress_epoch (hstate : ln.node.state = ln'.node.state) :
    ln.try_consensus_progress.confirmed_read_epoch =
      ln'.try_consensus_progress.confirmed_read_epoch := by
  unfold LogicalNode.try_consensus_progress
  rw [hstate]
  cases ln'.node.state <;> rfl

/-- A step that is neither a probe nor an answer to a request of a round. -/
def isWork : HostAct α → Bool
  | .Probe => false
  | .RunTask _ _ (some (.AppendReply _ _ _)) _ => false
  | .TransferReply _ _ _ _ _ => false
  | _ => true

theorem hostStep_turned [DecidableEq α] {cfg : HostConfig} {sm : SnapshotMachine α S}
    {h h' : SnapshotHost α S} {a : HostAct α} (hwork : isWork a = true)
    (hs : hostStep cfg sm h a = some h') :
    Turned (cfg.cluster.peer_ids cfg.node_id) h.process.shell h'.process.shell := by
  have hwrote : ∀ {X : Type} {f : LogicalNode α → Handled α X} {sh : ConsensusShell α}
      {res : Except Panic X}, h.process.shell.write f = (sh, res) → Held h.node (f h.node).1 →
      Turned (cfg.cluster.peer_ids cfg.node_id) h.process.shell sh := by
    intro X f sh res hw hf
    have hturned : Turned (cfg.cluster.peer_ids cfg.node_id) h.process.shell
        (h.process.shell.write f).1 := .write (.held hf)
    rw [hw] at hturned
    exact hturned
  cases hostStep_moves hs with
  | @ticked timeout sh res hw =>
    have hturned : Turned (cfg.cluster.peer_ids cfg.node_id) h.process.shell
        (h.process.shell.write fun ln => tickLocked ln timeout).1 :=
      .write (tickLocked_turn _ timeout)
    rw [hw] at hturned
    exact hturned
  | ran hk hrun =>
    refine (runTask_ran hrun).step.turned ?_
    rintro src req resp rfl
    cases hwork
  | served hserve => exact (serve_step hserve).turned
  | proposed data =>
    change Turned _ _ (h.process.shell.propose data).1
    rw [ConsensusShell.propose_shell]
    exact .write (.held (propose_steady _ _).toHeld)
  | probed hprobe => cases hwork
  | unprobed hprobe hno => cases hwork
  | applied hrun => exact runApplier_turned hrun
  | saved hk hw => exact hwrote hw (save_snapshot_metadata_held _ _ _)
  | unsaved hk hw => exact hwrote hw (save_snapshot_metadata_held _ _ _)
  | truncated hk =>
    -- without the guard nothing is published, but the channel shows nothing of the log
    refine ⟨.held (.onto rfl rfl rfl), fun hshown => ⟨hshown.role, fun hp => ?_⟩⟩
    obtain ⟨hterm, hepoch⟩ := hshown.healthy hp
    exact ⟨hterm, hepoch.trans (try_consensus_progress_epoch rfl)⟩
  | thawed hk hw => exact hwrote hw (changeDepth_held _ _)
  | accepted hw => exact hwrote hw (acceptSnapshot_held _ _ _ _)
  | declined hw hno => exact hwrote hw (acceptSnapshot_held _ _ _ _)
  | restored hk hidle hfsm => exact .same _
  | unrestored hk hidle hfsm => exact .same _
  | finalized hk hw => exact hwrote hw (finalizeSnapshot_held _ _ _ _)
  | begun hw => exact hwrote hw (changeDepth_held _ _)
  | unbegun hw => exact hwrote hw (changeDepth_held _ _)
  | ended hpos hw => exact hwrote hw (changeDepth_held _ _)
  | answered hw hno => cases hwork
  | unanswered hw => cases hwork

/-! ## Steps of the station -/

variable [DecidableEq α] {cfg : HostConfig} {c : SnapshotCodec α} {st st' : Station α}

theorem host_turned {a : HostAct α} (hwork : isWork a = true)
    (hs : stationStep cfg c st (.Host a) = some st') :
    Turned (cfg.cluster.peer_ids cfg.node_id) st.host.process.shell st'.host.process.shell := by
  obtain ⟨-, -, h', hstep, rfl⟩ := host_cases hs
  have hturned := hostStep_turned hwork hstep
  exact hturned

theorem loop_turned (hs : stationStep cfg c st .Loop = some st') :
    Turned (cfg.cluster.peer_ids cfg.node_id) st.host.process.shell st'.host.process.shell := by
  obtain ⟨caller, -, ⟨-, rfl⟩ | ⟨h', hstep, ⟨-, rfl⟩ | ⟨-, rfl⟩⟩⟩ := loop_cases hs
  · exact .same _
  all_goals
    have hturned := hostStep_turned rfl hstep
    exact hturned

omit [DecidableEq α] in
/-- A response is one handler under the guard, whatever becomes of the round. -/
theorem respond_shell (h : SnapshotHost α LactoStore) (term : Nat) (peer : NodeId)
    (outcome : ReplicationOutcome) (timeout : Nat) :
    (respond h term peer outcome timeout).1.process.shell =
      (h.process.shell.write fun ln =>
        process_replication_response ln term peer outcome timeout).1 := by
  unfold respond
  generalize h.process.shell.write _ = r
  obtain ⟨sh, p | e | action⟩ := r
  · rfl
  · rfl
  · cases action <;> rfl

/-- The leader of the term has counted the peer, and nothing else has become of the role. -/
structure CountedFor (ln : LogicalNode α) (term : Nat) (peer : NodeId) (r : PeerReply)
    (sh sh' : ConsensusShell α) : Prop where
  current : ln.current_term = term
  within : r.term ≤ term
  held : ∃ l, ln.node.state = .Leader l ∧ Held (acknowledged ln l peer) sh'.inner
  shown : Shown sh → Shown sh'

omit [DecidableEq α] in
theorem respond_turned (h : SnapshotHost α LactoStore) (term : Nat) (peer : NodeId)
    (outcome : ReplicationOutcome) (timeout : Nat) {r : PeerReply} (hterm : outcome.term = r.term) :
    Turned peers h.process.shell (respond h term peer outcome timeout).1.process.shell ∨
      CountedFor h.node term peer r h.process.shell
        (respond h term peer outcome timeout).1.process.shell := by
  rw [respond_shell]
  by_cases hcounts : Counts h.node term outcome
  swap
  · exact .inl (.write (.held (process_replication_response_uncounted hcounts).toHeld))
  obtain ⟨hle, hrole, hcur⟩ := hcounts
  cases hst : h.node.node.state with
  | Leader l =>
    refine .inr ⟨hcur, hterm ▸ hle, ⟨l, hst, ?_⟩, fun hshown => hshown.write _⟩
    rw [ConsensusShell.write_inner]
    exact (process_replication_response_counted hst hle hcur).toHeld.afterHandler
  | _ => simp [LogicalNode.node_role, hst, RoleState.node_role] at hrole

/-- The call only asks whether the peer is there, so nothing counts the answer to it. -/
def isProbing : PeerCall α → Bool
  | .Probing _ => true
  | _ => false

/-- A call goes on: it prepares, freezes or thaws, or it takes up an answer. -/
theorem runCall_turned {params : ReplicationRoundParams} {peer : NodeId}
    {reply : Option PeerReply} {timeout : Nat} {call : PeerCall α}
    {h : SnapshotHost α LactoStore} {res : CallResult α}
    (hrun : runCall cfg c st params peer reply timeout call = some (h, res)) :
    Turned (cfg.cluster.peer_ids cfg.node_id) st.host.process.shell h.process.shell ∨
      isProbing call = false ∧ ∃ r, reply = some r ∧
        CountedFor st.node params.term peer r st.host.process.shell h.process.shell := by
  cases (runCall_moves hrun).1 with
  | idle => exact .inl (.same _)
  | @prepared sh r hw =>
    have hturned : Turned (cfg.cluster.peer_ids cfg.node_id) st.host.process.shell
        (st.host.process.shell.write fun ln => prepare_replication ln peer params).1 :=
      .write (.held (prepare_replication_steady _ _ _).toHeld)
    rw [hw] at hturned
    exact .inl hturned
  | @built sh r hw =>
    have hturned : Turned (cfg.cluster.peer_ids cfg.node_id) st.host.process.shell
        (st.host.process.shell.write fun ln => build_append_entries_request ln peer params.term
          params.node_id params.last_committed).1 :=
      .write (.held (build_append_entries_request_steady _ _ _ _ _).toHeld)
    rw [hw] at hturned
    exact .inl hturned
  | appended req response hreply =>
    rcases respond_turned (r := .Append response) st.host params.term peer
      (.AppendEntries req.prev_log_index req.entries.length response) timeout rfl with
      hturned | hcounted
    · exact .inl hturned
    · exact .inr ⟨rfl, _, hreply, hcounted⟩
  | overtaken req response hreply hgt =>
    rcases respond_turned (r := .Append response) st.host params.term peer
      (.AppendEntries req.prev_log_index req.entries.length response) timeout rfl with
      hturned | hcounted
    · exact .inl hturned
    · exact absurd hgt (not_lt.mpr hcounted.within)
  | froze i t hs => exact .inl (hostStep_turned (a := .BeginTransfer) rfl hs)
  | thawed i t out hs => exact .inl (hostStep_turned (a := .EndTransfer) rfl hs)
  | installed sent response_term hreply =>
    rcases respond_turned (r := .InstallSnapshot response_term) st.host params.term peer
      (.InstallSnapshot sent.last_included_index response_term) timeout rfl with
      hturned | hcounted
    · exact .inl hturned
    · exact .inr ⟨rfl, _, hreply, hcounted⟩

/-- A call goes on, and the station with it. -/
theorem call_turned {r k : Nat} {reply : Option PeerReply} {timeout : Nat}
    (hs : stationStep cfg c st (.Call r k reply timeout) = some st') :
    ∃ round peer call, st.rounds[r]? = some round ∧ round.calls[k]? = some (peer, call) ∧
      (Turned (cfg.cluster.peer_ids cfg.node_id) st.host.process.shell st'.host.process.shell ∨
        isProbing call = false ∧ ∃ r, reply = some r ∧
          CountedFor st.node round.params.term peer r st.host.process.shell
            st'.host.process.shell) := by
  obtain ⟨round, hr, hcall⟩ := Option.bind_eq_some_iff.mp hs
  obtain ⟨⟨peer, call⟩, hk, hmap⟩ := Option.bind_eq_some_iff.mp hcall
  dsimp only at hmap
  obtain ⟨⟨h, res⟩, hrun, rfl⟩ := Option.map_eq_some_iff.mp hmap
  have hturned := runCall_turned hrun
  exact ⟨round, peer, call, hr, hk, hturned⟩

/-- A step of the station that is neither a probe nor a call of a round. -/
theorem station_turned {a : StationAct α}
    (hcall : ∀ r k reply timeout, a ≠ .Call r k reply timeout)
    (hwork : ∀ b, a = .Host b → isWork b = true) (hs : stationStep cfg c st a = some st') :
    Turned (cfg.cluster.peer_ids cfg.node_id) st.host.process.shell st'.host.process.shell := by
  cases a with
  | Host b => exact host_turned (hwork b rfl) hs
  | Call r k reply timeout => exact absurd rfl (hcall r k reply timeout)
  | Wake =>
    simp only [stationStep] at hs
    split at hs
    · obtain rfl := Option.some.inj hs
      exact .same _
    · cases hs
  | CheckFrozen =>
    simp only [stationStep] at hs
    split at hs
    · obtain rfl := Option.some.inj hs
      exact .same _
    · cases hs
  | Enter caller =>
    simp only [stationStep] at hs
    split at hs
    · cases hs
    cases caller with
    | Background =>
      dsimp only at hs
      split at hs
      · obtain rfl := Option.some.inj hs
        exact .same _
      · cases hs
    | CatchUp =>
      dsimp only at hs
      split at hs
      · cases hs
      · obtain rfl := Option.some.inj hs
        exact .same _
  | Loop => exact loop_turned hs

/-! ## A probe -/

theorem probe_shell (hs : stationStep cfg c st (.Host .Probe) = some st') :
    st'.host.process.shell = st.host.process.shell.prepare_probe.1 := by
  obtain ⟨-, -, h', hstep, rfl⟩ := host_cases hs
  simp only [hostStep] at hstep
  change h'.process.shell = _
  generalize st.host.process.shell.prepare_probe = r at hstep
  obtain ⟨sh, e | e | probe⟩ := r <;> obtain rfl := Option.some.inj hstep <;> rfl

omit [DecidableEq α] in
/-- A leader prepares the probe; on any other node the call fails at once. -/
theorem prepare_probe_cases (sh : ConsensusShell α) :
    (∃ l probe, sh.inner.node.state = .Leader l ∧ sh.prepare_probe.2 = .ok (.ok probe) ∧
      probe.term = sh.inner.current_term ∧
      probe.target_epoch = (l.prepare_read_probe sh.inner.node_id).2 ∧
      sh.prepare_probe.1.inner = sh.inner.withRole
        (sh.inner.node.transition (l.prepare_read_probe sh.inner.node_id).1) .Leader) ∨
    (∃ e, sh.prepare_probe.2 = .ok (.error e)) ∧ sh.prepare_probe.1.inner = sh.inner := by
  unfold ConsensusShell.prepare_probe
  rw [ConsensusShell.write_inner, ConsensusShell.write_result]
  cases hst : sh.inner.node.state with
  | Leader l => exact .inl ⟨l, _, rfl, rfl, rfl, rfl, rfl⟩
  | _ => exact .inr ⟨⟨_, rfl⟩, rfl⟩

end raft_engine.roles
