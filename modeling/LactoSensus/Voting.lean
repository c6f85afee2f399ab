-- The votes of a node with everything that runs on it. Most of what a node does
-- leaves its vote alone, or moves it to a later term in which it has none; it votes
-- when it stands, when it grants a vote, and nowhere else. Whoever comes to lead has
-- counted a majority that has really voted for it.
import LactoSensus.Lib.Ballots
import LactoSensus.RefineElection
import LactoSensus.Turns

open ballots
open common.types
open journal
open quorum
open raft_engine.storage
open raft_engine.node
open raft_engine.engine
open raft_engine.consensus
open raft_engine.shell
open raft_engine.cluster
open raft_engine.orchestration
open raft_engine.refinement (voters mem_peer_ids majority_of_quorum one_vote_is_short
  into_leader_of_candidate leader_new_cases handle_pre_vote_fst)
open raft_engine.roles

namespace raft_engine.voting

variable {α S X : Type} {ln ln₁ ln' : LogicalNode α} {sh : ConsensusShell α}

/-! ## Handlers that do not vote -/

/-- The term and the vote are the same, or the term is a later one without a vote. -/
def Onward (d d' : SledStorage α) : Prop :=
  d'.current_term = d.current_term ∧ d'.voted_for = d.voted_for ∨
    d.current_term < d'.current_term ∧ d'.voted_for = none

theorem Onward.refl (d : SledStorage α) : Onward d d := .inl ⟨rfl, rfl⟩

/-- A write of another key. -/
theorem Onward.of_key {d d' : SledStorage α} (h : d'.key_hard_state = d.key_hard_state) :
    Onward d d' := by
  refine .inl ⟨?_, ?_⟩
  · unfold SledStorage.current_term
    rw [h]
  · unfold SledStorage.voted_for
    rw [h]

theorem Onward.trans {d d₁ d' : SledStorage α} (h : Onward d d₁) (h' : Onward d₁ d') :
    Onward d d' := by
  rcases h with ⟨ht, hv⟩ | ⟨hlt, hv⟩ <;> rcases h' with ⟨ht', hv'⟩ | ⟨hlt', hv'⟩
  · exact .inl ⟨ht'.trans ht, hv'.trans hv⟩
  · exact .inr ⟨ht ▸ hlt', hv'⟩
  · exact .inr ⟨ht' ▸ hlt, hv'.trans hv⟩
  · exact .inr ⟨hlt.trans hlt', hv'⟩

/-- The handler does not vote, also not on a disk on its way; whoever stands or leads
afterwards did so before, in the same term. -/
structure Abstains (ln ln' : LogicalNode α) : Prop where
  node_id : ln'.node.node_id = ln.node.node_id
  disks : Since ln.node.log_store (Onward ln.node.disk) ln'.node.log_store
  leads : ∀ l', ln'.node.state = .Leader l' →
    (∃ l, ln.node.state = .Leader l) ∧ ln'.current_term = ln.current_term
  stands : ∀ c, ln'.node.state = .Candidate c →
    ln.node.state = .Candidate c ∧ ln'.current_term = ln.current_term

theorem Abstains.refl (ln : LogicalNode α) : Abstains ln ln :=
  ⟨rfl, .start (.refl _), fun l hl => ⟨⟨l, hl⟩, rfl⟩, fun _ hc => ⟨hc, rfl⟩⟩

theorem Abstains.trans (h : Abstains ln ln₁) (h' : Abstains ln₁ ln') : Abstains ln ln' where
  node_id := h'.node_id.trans h.node_id
  disks := h.disks.trans h'.disks fun _ hd => h.disks.now.trans hd
  leads := by
    intro l' hl'
    obtain ⟨⟨l₁, hl₁⟩, hterm'⟩ := h'.leads l' hl'
    obtain ⟨hl, hterm⟩ := h.leads l₁ hl₁
    exact ⟨hl, hterm'.trans hterm⟩
  stands := by
    intro c hc
    obtain ⟨hc₁, hterm'⟩ := h'.stands c hc
    obtain ⟨hc, hterm⟩ := h.stands c hc₁
    exact ⟨hc, hterm'.trans hterm⟩

/-- A follower, or a node that has halted. -/
theorem Abstains.out (hid : ln'.node.node_id = ln.node.node_id)
    (hdisks : Since ln.node.log_store (Onward ln.node.disk) ln'.node.log_store)
    (hidle : Idles ln') : Abstains ln ln' := by
  refine ⟨hid, hdisks, fun l' hl' => absurd ?_ hidle.1, fun c hc => absurd ?_ hidle.2⟩
  · unfold LogicalNode.node_role
    rw [hl']
    rfl
  · unfold LogicalNode.node_role
    rw [hc]
    rfl

theorem Abstains.poison (h : Abstains ln ln') : Abstains ln ln'.poison :=
  .out h.node_id h.disks (idles_poison ln')

theorem Abstains.afterHandler {r : Handled α X} (h : Abstains ln r.1) :
    Abstains ln (afterHandler r) := by
  obtain ⟨ln', res⟩ := r
  cases res with
  | ok x => exact h
  | error p => exact h.poison

/-- A change of the physical node that is none of its role. -/
theorem Abstains.onto {n : RaftNode α RoleState} (hid : n.node_id = ln.node.node_id)
    (hdisks : Since ln.node.log_store
      (fun d => d.key_hard_state = ln.node.disk.key_hard_state) n.log_store)
    (hstate : n.state = ln.node.state) : Abstains ln { ln with node := n } := by
  have hterm : n.current_term = ln.current_term := by
    change n.disk.current_term = ln.node.disk.current_term
    unfold SledStorage.current_term
    rw [show n.disk.key_hard_state = _ from hdisks.now]
  refine ⟨hid, ⟨.of_key hdisks.now, fun d hd => (hdisks.past d hd).imp id .of_key⟩,
    fun l hl => ⟨⟨l, hstate.symm.trans hl⟩, hterm⟩, fun c hc => ⟨hstate.symm.trans hc, hterm⟩⟩

/-- A leader learns something of its peers. -/
theorem Abstains.relead {l l' : Leader} (hst : ln.node.state = .Leader l) :
    Abstains ln (ln.withRole (ln.node.transition l') .Leader) :=
  ⟨rfl, .start (.refl _), fun _ _ => ⟨⟨l, hst⟩, rfl⟩, fun _ hc => by cases hc⟩

theorem into_follower_abstains (ln : LogicalNode α) (term : Nat) (leader_id : Option NodeId)
    (timeout : Nat) : Abstains ln (ln.into_follower term leader_id timeout).1 := by
  unfold LogicalNode.into_follower RaftNode.try_into_follower RaftNode.advance_term
  dsimp only
  split_ifs with hp hlt hgt
  · exact .refl ln
  · exact .out rfl (.start (.refl _)) (idles_poison _)
  · refine .out rfl ?_ (idles_follower rfl)
    exact (Since.start (.refl _)).write (.inr ⟨hgt, rfl⟩)
  · exact .out rfl (.start (.refl _)) (idles_follower rfl)

theorem tick_abstains (ln : LogicalNode α) : Abstains ln ln.tick.1 :=
  ⟨rfl, .start (.refl _), fun l hl => ⟨⟨l, hl⟩, rfl⟩, fun _ hc => ⟨hc, rfl⟩⟩

theorem into_pre_candidate_abstains (ln : LogicalNode α) : Abstains ln ln.into_pre_candidate := by
  unfold LogicalNode.into_pre_candidate
  split
  · exact .out rfl (.start (.refl _)) (by simp [Idles, LogicalNode.withRole, LogicalNode.node_role,
      RaftNode.transition, RoleState.node_role])
  · exact .refl ln

theorem reset_heartbeat_abstains (ln : LogicalNode α) : Abstains ln ln.reset_heartbeat := by
  unfold LogicalNode.reset_heartbeat
  split
  · exact .out rfl (.start (.refl _)) (idles_follower rfl)
  · rename_i l hst
    exact ⟨rfl, .start (.refl _), fun _ _ => ⟨⟨l, hst⟩, rfl⟩, fun _ hc => by cases hc⟩
  · exact .refl ln

theorem observe_pre_vote_term_abstains (ln : LogicalNode α) (peer_term timeout : Nat) :
    Abstains ln (observe_pre_vote_term ln peer_term timeout).1 := by
  rcases observe_pre_vote_term_cases ln peer_term timeout with heq | heq
  · rw [heq]
    exact .refl ln
  · rw [heq]
    exact into_follower_abstains ln peer_term none timeout

theorem stepDown_abstains (ln : LogicalNode α) (timeout : Nat) :
    Abstains ln (stepDown timeout ln).1 := by
  unfold stepDown
  split
  · exact .refl ln
  · exact into_follower_abstains ln _ _ _

theorem validate_leader_rpc_term_abstains (ln : LogicalNode α) (req_term : Nat)
    (leader_id : NodeId) (rpc_name : String) (timeout : Nat) :
    Abstains ln (ln.validate_leader_rpc_term req_term leader_id rpc_name timeout).1 := by
  have hdemote := into_follower_abstains ln req_term (some leader_id) timeout
  rw [← followed_eq] at hdemote
  unfold LogicalNode.validate_leader_rpc_term
  dsimp only
  split
  · exact .refl ln
  split
  · exact .refl ln
  split
  · exact hdemote
  split
  · exact hdemote
  · exact (Abstains.refl ln).poison
  · exact .out rfl (.start (.refl _)) (idles_follower rfl)
  · exact hdemote
  · exact .refl ln

/-- A reconciliation writes to the log and the commit index only. -/
theorem merged_hard_state {m m' : RaftNode α Follower} {entries : List (LogEntry α)}
    {leader_commit : Nat} (hm : Merged m entries leader_commit m') :
    Since m.log_store (fun d => d.key_hard_state = m.disk.key_hard_state) m'.log_store := by
  have hpersist : ∀ {k : RaftNode α Follower} (es : List (LogEntry α)),
      Since k.log_store (fun d => d.key_hard_state = k.disk.key_hard_state)
        (k.persistAppend es leader_commit).log_store := by
    intro k es
    have hstart : Since k.log_store (fun d => d.key_hard_state = k.disk.key_hard_state)
        k.log_store := .start rfl
    unfold RaftNode.persistAppend
    dsimp only
    split
    · exact hstart
    · exact hstart.write rfl
    · exact hstart.write rfl
    · exact (hstart.write rfl).write rfl
  have hcut : ∀ (d : SledStorage α) i, (d.truncate_log i).key_hard_state = d.key_hard_state := by
    intro d i
    unfold SledStorage.truncate_log
    dsimp only
    split <;> rfl
  have hstart : Since m.log_store (fun d => d.key_hard_state = m.disk.key_hard_state)
      m.log_store := .start rfl
  cases hm with
  | kept => exact hstart
  | cut e he => exact hstart.write (hcut _ _)
  | appended es hes hsub => exact hpersist es
  | replaced e he es hes hsub =>
    have hfirst : Since m.log_store (fun d => d.key_hard_state = m.disk.key_hard_state)
        (m.truncate_log e.index).log_store := hstart.write (hcut _ _)
    exact hfirst.trans (hpersist es) fun d hd => hd.trans (hcut _ _)

theorem handle_append_entries_abstains (ln : LogicalNode α) (leader_id : NodeId)
    (req_term prev_log_index prev_log_term : Nat) (entries : List (LogEntry α))
    (leader_commit timeout : Nat) :
    Abstains ln (ln.handle_append_entries leader_id req_term prev_log_index prev_log_term entries
      leader_commit timeout).1 := by
  have hvalid := validate_leader_rpc_term_abstains ln req_term leader_id "AppendEntries" timeout
  unfold LogicalNode.handle_append_entries
  dsimp only
  generalize ln.validate_leader_rpc_term req_term leader_id "AppendEntries" timeout = r at hvalid
  obtain ⟨ln', p | res⟩ := r
  · exact hvalid
  cases res with
  | Stale => exact hvalid
  | Valid =>
    have hbeat := hvalid.trans (reset_heartbeat_abstains ln')
    dsimp only
    generalize ln'.reset_heartbeat = ln₁ at hbeat
    cases hst : ln₁.node.state with
    | Follower f =>
      have hkept : ((ln₁.node.transition f).reconcile_log prev_log_index prev_log_term entries
            leader_commit).1.node_id = ln₁.node.node_id ∧
          Since ln₁.node.log_store (Onward ln₁.node.disk)
            ((ln₁.node.transition f).reconcile_log prev_log_index prev_log_term entries
              leader_commit).1.log_store := by
        rcases (ln₁.node.transition f).reconcile_log_merged prev_log_index prev_log_term entries
          leader_commit with heq | ⟨-, hm⟩
        · rw [heq]
          exact ⟨rfl, .start (.refl _)⟩
        · have hsince := merged_hard_state hm
          exact ⟨hm.hard_state.1, .of_key hsince.now, fun d hd => (hsince.past d hd).imp id .of_key⟩
      refine hbeat.trans ?_
      dsimp only
      generalize (ln₁.node.transition f).reconcile_log prev_log_index prev_log_term entries
        leader_commit = r at hkept
      obtain ⟨m, e | result⟩ := r
      · exact .out hkept.1 hkept.2 (idles_poison _)
      · exact .out hkept.1 hkept.2 (idles_follower rfl)
    | _ => exact hbeat

theorem handle_install_snapshot_abstains (ln : LogicalNode α) (leader_id : NodeId)
    (req_term last_included_index timeout : Nat) :
    Abstains ln (ln.handle_install_snapshot leader_id req_term last_included_index timeout).1 := by
  have hvalid := validate_leader_rpc_term_abstains ln req_term leader_id "InstallSnapshot" timeout
  unfold LogicalNode.handle_install_snapshot
  dsimp only
  generalize ln.validate_leader_rpc_term req_term leader_id "InstallSnapshot" timeout = r at hvalid
  obtain ⟨ln', p | res⟩ := r
  · exact hvalid
  cases res with
  | Stale => exact hvalid
  | Valid =>
    dsimp only
    split
    · exact hvalid
    · exact hvalid.trans (reset_heartbeat_abstains ln')

theorem propose_abstains (ln : LogicalNode α) (command : α) :
    Abstains ln (ln.propose command).1 := by
  have hstart : Since ln.node.log_store (fun d => d.key_hard_state = ln.node.disk.key_hard_state)
      ln.node.log_store := .start rfl
  unfold LogicalNode.propose
  split
  · rename_i l hst
    unfold RaftNode.propose
    cases checked_add "LogIndex" (ln.node.transition l).last_log_index 1 with
    | error e => exact (Abstains.relead hst).poison
    | ok index => exact .onto rfl (hstart.write rfl) hst.symm
  · exact .refl ln
  · exact .refl ln

theorem prepare_replication_abstains (ln : LogicalNode α) (peer_id : NodeId)
    (params : ReplicationRoundParams) : Abstains ln (prepare_replication ln peer_id params).1 := by
  have hbuild : Abstains ln (build_append_entries_request ln peer_id params.term params.node_id
      params.last_committed).1 := by
    unfold build_append_entries_request
    dsimp only
    split
    · exact .refl ln
    cases checked_sub _ 1 with
    | error e => exact .refl ln
    | ok prev_log_index =>
      dsimp only
      split
      · exact (Abstains.refl ln).poison
      · exact .refl ln
  have hstrategy : Abstains ln (determine_replication_strategy ln peer_id params).1 := by
    unfold determine_replication_strategy
    split
    · dsimp only
      split
      · exact .refl ln
      · generalize build_append_entries_request ln peer_id params.term params.node_id
          params.last_committed = r at hbuild
        obtain ⟨ln', p | e | req⟩ := r <;> exact hbuild
    · exact .refl ln
  unfold prepare_replication
  generalize determine_replication_strategy ln peer_id params = r at hstrategy
  obtain ⟨ln', p | e | st⟩ := r
  · exact hstrategy
  · exact hstrategy.poison
  · exact hstrategy

theorem update_leader_last_committed_abstains (ln : LogicalNode α) :
    Abstains ln (update_leader_last_committed ln).1 := by
  have hcommit : ∀ index, Abstains ln (ln.advance_last_committed index).1 := by
    intro index
    have hstart : Since ln.node.log_store
        (fun d => d.key_hard_state = ln.node.disk.key_hard_state) ln.node.log_store := .start rfl
    unfold LogicalNode.advance_last_committed RaftNode.advance_last_committed
      RaftNode.update_commit_index_only
    dsimp only
    split_ifs
    · exact .refl ln
    · exact .refl ln
    · exact (Abstains.refl ln).poison
    · exact .onto rfl (hstart.write rfl) rfl
    · exact .refl ln
  unfold update_leader_last_committed
  split
  · exact .refl ln
  split
  · dsimp only
    split
    · exact hcommit _
    · exact .refl ln
  · exact .refl ln

theorem process_replication_response_abstains (ln : LogicalNode α) (term : Nat) (peer_id : NodeId)
    (outcome : ReplicationOutcome) (timeout : Nat) :
    Abstains ln (process_replication_response ln term peer_id outcome timeout).1 := by
  by_cases hgt : outcome.term > term
  · rw [process_replication_response_overtaken hgt]
    exact into_follower_abstains ln outcome.term none timeout
  unfold process_replication_response
  rw [if_neg hgt]
  split
  · exact .refl ln
  split
  swap
  · exact .refl ln
  rename_i l hst
  split
  swap
  · exact .refl ln
  dsimp only
  generalize l.acknowledge_heartbeat peer_id ((l.next_index.entries.length + 1) / 2 + 1) = l₁
  have hacked : Abstains ln (ln.withRole (ln.node.transition l₁) .Leader) := .relead hst
  cases reconcile_peer l₁ peer_id term outcome with
  | error e => exact hacked
  | ok r =>
    obtain ⟨l₂, updated⟩ := r
    have hnext : Abstains ln ((ln.withRole (ln.node.transition l₁) .Leader).withRole
        ((ln.withRole (ln.node.transition l₁) .Leader).node.transition l₂) .Leader) :=
      hacked.trans (.relead rfl)
    dsimp only
    split
    · have h := hnext.trans (update_leader_last_committed_abstains _)
      generalize update_leader_last_committed _ = r at h
      obtain ⟨ln', res⟩ := r
      cases res <;> exact h
    · exact hnext

/-! ## Handlers of the host -/

theorem build_append_entries_request_abstains (ln : LogicalNode α) (peer_id : NodeId) (term : Nat)
    (leader_id : NodeId) (leader_commit : Nat) :
    Abstains ln (build_append_entries_request ln peer_id term leader_id leader_commit).1 := by
  unfold build_append_entries_request
  dsimp only
  split
  · exact .refl ln
  cases checked_sub _ 1 with
  | error e => exact .refl ln
  | ok prev_log_index =>
    dsimp only
    split
    · exact (Abstains.refl ln).poison
    · exact .refl ln

theorem prepare_probe_abstains (sh : ConsensusShell α) :
    Abstains sh.inner sh.prepare_probe.1.inner := by
  unfold ConsensusShell.prepare_probe
  rw [ConsensusShell.write_inner]
  apply Abstains.afterHandler
  split
  · exact .refl _
  · rename_i l hst
    exact .relead hst
  · exact .refl _

theorem changeDepth_abstains (res : Except String Nat) (ln : LogicalNode α) :
    Abstains ln (changeDepth res ln).1 := by
  cases res with
  | ok depth => exact .refl ln
  | error e => exact (Abstains.refl ln).poison

/-- A write of the log or of the metadata. -/
theorem Abstains.writes {f : SledStorage α → SledStorage α}
    (hf : ∀ d, (f d).key_hard_state = d.key_hard_state) :
    Abstains ln { ln with node := ln.node.write f } := by
  have hstart : Since ln.node.log_store (fun d => d.key_hard_state = ln.node.disk.key_hard_state)
      ln.node.log_store := .start rfl
  exact .onto rfl (hstart.write (hf _)) rfl

theorem save_snapshot_metadata_abstains (ln : LogicalNode α) (index term : Nat) :
    Abstains ln (ln.save_snapshot_metadata index term).1 := by
  unfold LogicalNode.save_snapshot_metadata
  split
  · exact .refl ln
  · exact .writes fun _ => rfl

theorem advance_horizon_after_snapshot_abstains (ln : LogicalNode α) (index : Nat) :
    Abstains ln (ln.advance_horizon_after_snapshot index).1 := by
  have hstart : Since ln.node.log_store (fun d => d.key_hard_state = ln.node.disk.key_hard_state)
      ln.node.log_store := .start rfl
  unfold LogicalNode.advance_horizon_after_snapshot RaftNode.advance_horizon_after_snapshot
    RaftNode.update_commit_index_only
  dsimp only
  split_ifs
  · exact .refl ln
  · exact .onto rfl hstart rfl
  · exact .onto rfl hstart rfl
  · exact .onto rfl (hstart.write rfl) rfl
  · exact .onto rfl hstart rfl

theorem recordApplied_abstains (ln : LogicalNode α) (next_idx : Nat) :
    Abstains ln (recordApplied next_idx ln).1 := by
  have h := advance_horizon_after_snapshot_abstains ln next_idx
  unfold recordApplied
  generalize ln.advance_horizon_after_snapshot next_idx = r at h
  obtain ⟨ln', p | e | u⟩ := r
  · exact h
  · exact h.poison
  · exact h

theorem acceptSnapshot_abstains (depth : Nat) (params : SnapshotParams α) (timeout : Nat)
    (ln : LogicalNode α) : Abstains ln (acceptSnapshot depth params timeout ln).1 := by
  have h := handle_install_snapshot_abstains ln params.leader_id params.term
    params.last_included_index timeout
  unfold acceptSnapshot
  generalize ln.handle_install_snapshot params.leader_id params.term params.last_included_index
    timeout = r at h
  obtain ⟨ln', p | res⟩ := r
  · exact h
  dsimp only
  cases res.action with
  | Rejected => exact h
  | Stale => exact h
  | Accepted =>
    cases freeze depth with
    | ok d => exact h
    | error e => exact h.poison

theorem finalizeSnapshot_abstains (depth : Nat) (params : SnapshotParams α)
    (res : Except String Unit) (ln : LogicalNode α) :
    Abstains ln (finalizeSnapshot depth params res ln).1 := by
  unfold finalizeSnapshot
  cases thaw depth with
  | error e => exact (Abstains.refl ln).poison
  | ok d =>
    cases res with
    | error e => exact (Abstains.refl ln).poison
    | ok u =>
      have hsaved := save_snapshot_metadata_abstains ln params.last_included_index
        params.last_included_term
      dsimp only
      generalize ln.save_snapshot_metadata params.last_included_index params.last_included_term = r
        at hsaved
      obtain ⟨ln₁, p | u⟩ := r
      · exact hsaved
      have hadvanced := hsaved.trans
        (advance_horizon_after_snapshot_abstains ln₁ params.last_included_index)
      dsimp only
      generalize ln₁.advance_horizon_after_snapshot params.last_included_index = r at hadvanced
      obtain ⟨ln₂, p | e | u⟩ := r
      · exact hadvanced
      · exact hadvanced.poison
      · exact hadvanced

theorem Abstains.write {f : LogicalNode α → Handled α X} (h : Abstains sh.inner (f sh.inner).1) :
    Abstains sh.inner (sh.write f).1.inner := by
  rw [ConsensusShell.write_inner]
  exact h.afterHandler

theorem write_abstains {f : LogicalNode α → Handled α X} {sh' : ConsensusShell α}
    {res : Except Panic X} (hw : sh.write f = (sh', res))
    (hf : Abstains sh.inner (f sh.inner).1) : Abstains sh.inner sh'.inner := by
  rw [ConsensusShell.inner_of_write hw]
  exact hf.afterHandler

/-- What the applier does to the node while it has the lock. -/
theorem runApplier_abstains {sm : StateMachine α S} {p p' : Process α} {fsm fsm' : S}
    (hrun : runApplier sm p fsm = some (p', fsm')) : Abstains p.shell.inner p'.shell.inner := by
  have hfatal : ∀ err : NodeError, Abstains p.shell.inner ({ p with
      shell := (p.shell.write fun ln => (ln.apply_fatal err : Handled α Unit)).1
      applier := .Idle } : Process α).shell.inner :=
    fun err => Abstains.write (f := fun ln => (ln.apply_fatal err : Handled α Unit))
      (Abstains.refl _).poison
  cases happ : p.applier with
  | Applied next_idx =>
    rw [runApplier_applied happ] at hrun
    have h : Abstains p.shell.inner (p.shell.write (recordApplied next_idx)).1.inner :=
      .write (recordApplied_abstains _ next_idx)
    generalize p.shell.write (recordApplied next_idx) = r at hrun h
    obtain ⟨sh, e | committed⟩ := r <;>
    · obtain ⟨rfl, -⟩ := Prod.mk.inj (Option.some.inj hrun)
      exact h
  | Idle =>
    unfold runApplier at hrun
    rw [happ] at hrun
    dsimp only at hrun
    split at hrun
    · cases hrun
    split at hrun <;> obtain ⟨rfl, -⟩ := Prod.mk.inj (Option.some.inj hrun)
    · exact hfatal _
    · exact .refl _
  | Looping applied committed =>
    unfold runApplier at hrun
    rw [happ] at hrun
    dsimp only at hrun
    split at hrun
    swap
    · obtain ⟨rfl, -⟩ := Prod.mk.inj (Option.some.inj hrun)
      exact .refl _
    split at hrun
    · obtain ⟨rfl, -⟩ := Prod.mk.inj (Option.some.inj hrun)
      exact hfatal _
    split at hrun <;> obtain ⟨rfl, -⟩ := Prod.mk.inj (Option.some.inj hrun)
    · exact hfatal _
    · exact hfatal _
    · exact .refl _
  | Fetched next_idx data =>
    unfold runApplier at hrun
    rw [happ] at hrun
    dsimp only at hrun
    split at hrun <;> obtain ⟨rfl, -⟩ := Prod.mk.inj (Option.some.inj hrun)
    · exact .refl _
    · exact hfatal _

/-! ## Handlers that vote -/

variable {cfg : Config} {n : NodeId} {b₀ b b' : Ballots NodeId} {t : Nat}

/-- A candidate has counted votes that were given to it. They are no quorum yet, unless it
is alone. -/
structure Canvassed (cfg : Config) (b : Ballots NodeId) (n : NodeId) (t : Nat) (c : Candidate) :
    Prop where
  own : n ∈ c.votes_received
  voters : c.votes_received ⊆ voters cfg
  votes : ∀ v ∈ c.votes_received, b v t = some n
  short : c.vote_count < quorumOf (cfg.peer_ids n) ∨ quorumOf (cfg.peer_ids n) = 1

def Backed (cfg : Config) (b : Ballots NodeId) (n : NodeId) (t : Nat) : RoleState → Prop
  | .Candidate c => Canvassed cfg b n t c
  | .Leader _ => Elected (voters cfg) b t n
  | _ => True

theorem Backed.keep {m : NodeId} {st : RoleState} (h : Backed cfg b n t st) (ha : Adds m b b') :
    Backed cfg b' n t st := by
  cases st with
  | Candidate c => exact ⟨h.own, h.voters, fun v hv => ha.keeps v t n (h.votes v hv), h.short⟩
  | Leader l => exact Elected.keep h ha
  | _ => trivial

/-- The node in a handler: the ballots have its vote as its disk has it, and had it so at
every point before; the votes it has counted were given. -/
structure Polled (cfg : Config) (n : NodeId) (b₀ b : Ballots NodeId) (ln : LogicalNode α) :
    Prop where
  adds : Adds n b₀ b
  node_id : ln.node.node_id = n
  disk : Filed b n ln.node.disk.current_term ln.node.disk.voted_for
  past : ∀ d ∈ ln.node.log_store.past,
    ∃ b', Adds n b₀ b' ∧ Filed b' n d.current_term d.voted_for
  role : Backed cfg b n ln.current_term ln.node.state

theorem filed_onward {d d' : SledStorage α} (h : Filed b n d.current_term d.voted_for)
    (ho : Onward d d') : Filed b n d'.current_term d'.voted_for := by
  rcases ho with ⟨ht, hv⟩ | ⟨hlt, hv⟩
  · rw [ht, hv]
    exact h
  · rw [hv]
    exact h.raise hlt

theorem Polled.poison (h : Polled cfg n b₀ b ln) : Polled cfg n b₀ b ln.poison :=
  ⟨h.adds, h.node_id, h.disk, h.past, trivial⟩

theorem Polled.afterHandler {r : Handled α X} (h : Polled cfg n b₀ b r.1) :
    Polled cfg n b₀ b (afterHandler r) := by
  obtain ⟨ln', res⟩ := r
  cases res with
  | ok x => exact h
  | error p => exact h.poison

/-- Who abstains adds nothing to the ballots. -/
theorem Polled.abstain (h : Polled cfg n b₀ b ln) (ha : Abstains ln ln') :
    Polled cfg n b₀ b ln' where
  adds := h.adds
  node_id := ha.node_id.trans h.node_id
  disk := filed_onward h.disk ha.disks.now
  past := by
    intro d hd
    rcases ha.disks.past d hd with hold | honward
    · exact h.past d hold
    · exact ⟨b, h.adds, filed_onward h.disk honward⟩
  role := by
    have hrole := h.role
    cases hst : ln'.node.state with
    | Candidate c =>
      obtain ⟨hc, hterm⟩ := ha.stands c hst
      rw [hc] at hrole
      rw [hterm]
      exact hrole
    | Leader l' =>
      obtain ⟨⟨l, hl⟩, hterm⟩ := ha.leads l' hst
      rw [hl] at hrole
      rw [hterm]
      exact hrole
    | _ => trivial

/-- The node writes a vote for `c` down, in a term in which it had none for another. -/
theorem Polled.vote {vote : Option NodeId} {c : NodeId} (h : Polled cfg n b₀ b ln)
    (hfiled : Filed b n t vote) (hfree : vote = none ∨ vote = some c)
    (hid : ln'.node.node_id = ln.node.node_id)
    (hstore : ln'.node.log_store =
      ln.node.log_store.write (SledStorage.save_hard_state t (some c)))
    (hrole : Backed cfg (cast b n t c) n t ln'.node.state) :
    Polled cfg n b₀ (cast b n t c) ln' := by
  have hterm : ln'.node.disk.current_term = t := by
    unfold RaftNode.disk
    rw [hstore]
    rfl
  have hvote : ln'.node.disk.voted_for = some c := by
    unfold RaftNode.disk
    rw [hstore]
    rfl
  refine ⟨h.adds.trans (hfiled.cast_adds hfree), hid.trans h.node_id, ?_, ?_, ?_⟩
  · rw [hterm, hvote]
    exact hfiled.cast c
  · intro d hd
    rw [hstore, Journal.write_past] at hd
    rcases List.mem_cons.mp hd with rfl | hd
    · exact ⟨b, h.adds, h.disk⟩
    · exact h.past d hd
  · change Backed cfg _ n ln'.node.disk.current_term _
    rw [hterm]
    exact hrole

theorem campaigning_polled (hmem : n ∈ cfg.members) (h : Polled cfg n b₀ b ln) (timeout : Nat) :
    ∃ b', Polled cfg n b₀ b' (campaigning ln timeout) := by
  have hid : ln.node_id = n := h.node_id
  have hfiled : Filed b n (ln.current_term + 1) none := h.disk.raise (Nat.lt_succ_self _)
  refine ⟨_, h.vote hfiled (.inl rfl) rfl (c := n) ?_ ?_⟩
  · rw [← hid]
    rfl
  · refine ⟨?_, ?_, ?_, ?_⟩
    · simp [hid]
    · simpa [hid, voters] using hmem
    · simp [hid]
    · simpa [Candidate.vote_count] using one_vote_is_short cfg n

theorem begin_campaign_polled (hmem : n ∈ cfg.members) (h : Polled cfg n b₀ b ln)
    (timeout : Nat) :
    ∃ b', Polled cfg n b₀ b' (begin_campaign ln timeout).1 ∧
      ∀ params, (begin_campaign ln timeout).2 = .ok params → params.node_id = n := by
  unfold begin_campaign
  split
  · exact ⟨b, h, by simp⟩
  rcases into_candidate_cases ln timeout with ⟨heq, -⟩ | ⟨p, heq⟩ | ⟨heq, -⟩
  · rw [heq]
    refine ⟨b, h, ?_⟩
    rintro params hparams
    obtain rfl := Except.ok.inj hparams
    exact h.node_id
  · rw [heq]
    exact ⟨b, h.poison, by simp⟩
  · rw [heq]
    obtain ⟨b', hb'⟩ := campaigning_polled hmem h timeout
    refine ⟨b', hb', ?_⟩
    rintro params hparams
    obtain rfl := Except.ok.inj hparams
    exact hb'.node_id

/-- A candidate with a quorum is elected. -/
theorem into_leader_polled (hmem : n ∈ cfg.members) (h : Polled cfg n b₀ b ln) {c : Candidate}
    (hsub : c.votes_received ⊆ voters cfg)
    (hvotes : ∀ v ∈ c.votes_received, b v ln.current_term = some n)
    (hq : quorumOf (cfg.peer_ids n) ≤ c.vote_count) :
    Polled cfg n b₀ b
      ((ln.withRole (ln.node.transition c) .Candidate).into_leader (cfg.peer_ids n)).1 := by
  rw [into_leader_of_candidate]
  unfold RaftNode.try_into_leader
  rcases leader_new_cases (cfg.peer_ids n) (ln.node.transition c).last_log_index ln.current_tick
    with ⟨e, he⟩ | ⟨l, hl, -⟩
  · rw [he]
    exact ⟨h.adds, h.node_id, h.disk, h.past, trivial⟩
  · rw [hl]
    exact ⟨h.adds, h.node_id, h.disk, h.past,
      ⟨c.votes_received, majority_of_quorum hmem hsub hq, hvotes⟩⟩

theorem promote_polled (hmem : n ∈ cfg.members) (h : Polled cfg n b₀ b ln)
    (halone : quorumOf (cfg.peer_ids n) = 1) :
    Polled cfg n b₀ b (ln.into_leader (cfg.peer_ids n)).1 := by
  cases hst : ln.node.state with
  | Candidate c =>
    have hc : Canvassed cfg b n ln.current_term c := by
      have hrole := h.role
      rw [hst] at hrole
      exact hrole
    have hself : ln.withRole (ln.node.transition c) .Candidate = ln := by
      simp only [LogicalNode.withRole, RaftNode.transition, ← hst]
    have hq : quorumOf (cfg.peer_ids n) ≤ c.vote_count := by
      rw [halone]
      exact Finset.card_pos.mpr ⟨n, hc.own⟩
    have hled := into_leader_polled hmem h hc.voters hc.votes hq
    rwa [hself] at hled
  | _ => simpa [LogicalNode.into_leader, hst] using h

/-- What the campaign task does with an answer of a member. -/
theorem process_vote_response_polled (hmem : n ∈ cfg.members) (h : Polled cfg n b₀ b ln)
    {term : Nat} {peer_id : NodeId} {resp : RequestVoteResponse} (timeout : Nat)
    (hpeer : peer_id ∈ cfg.members)
    (hvote : resp.vote_granted = true → b peer_id term = some n) :
    Polled cfg n b₀ b
      (process_vote_response ln term (cfg.peer_ids n) peer_id resp timeout).1 := by
  by_cases hgt : resp.term > term
  · rw [process_vote_response_overtaken hgt]
    exact h.abstain (into_follower_abstains ln resp.term none timeout)
  unfold process_vote_response
  rw [if_neg hgt]
  split
  swap
  · exact h
  rename_i hgr
  split
  · exact h
  cases hst : ln.node.state with
  | Candidate c =>
    have hc : Canvassed cfg b n ln.current_term c := by
      have hrole := h.role
      rw [hst] at hrole
      exact hrole
    dsimp only
    by_cases hterm : ln.current_term = term
    swap
    · rw [if_neg hterm]
      exact h
    rw [if_pos hterm]
    have hsub : (c.add_vote peer_id).votes_received ⊆ voters cfg := by
      refine Finset.insert_subset ?_ hc.voters
      simpa [voters] using hpeer
    have hvotes : ∀ v ∈ (c.add_vote peer_id).votes_received, b v ln.current_term = some n := by
      intro v hv
      rcases Finset.mem_insert.mp hv with rfl | hv
      · rw [hterm]
        exact hvote hgr
      · exact hc.votes v hv
    by_cases hq : (c.add_vote peer_id).vote_count ≥ quorumOf (cfg.peer_ids n)
    · rw [if_pos hq]
      have hled := into_leader_polled hmem h hsub hvotes hq
      generalize (ln.withRole (ln.node.transition (c.add_vote peer_id)) .Candidate).into_leader
        (cfg.peer_ids n) = r at hled
      obtain ⟨ln', res⟩ := r
      cases res <;> exact hled
    · rw [if_neg hq]
      refine ⟨h.adds, h.node_id, h.disk, h.past, ?_⟩
      exact ⟨Finset.mem_insert_of_mem hc.own, hsub, hvotes, .inl (Nat.lt_of_not_le hq)⟩
  | _ => exact h

theorem decideVote_polled (h : Polled cfg n b₀ b ln) (c : NodeId)
    (term last_log_index last_log_term : Nat) :
    ∃ b', Polled cfg n b₀ b' (ln.decideVote c term last_log_index last_log_term).1 ∧
      ∀ r, (ln.decideVote c term last_log_index last_log_term).2 = .ok r →
        r.vote_granted = true → b' n term = some c := by
  unfold LogicalNode.decideVote
  split
  swap
  · refine ⟨b, h, ?_⟩
    rintro r hr hg
    obtain rfl := Except.ok.inj hr
    cases hg
  rename_i f hst
  unfold RaftNode.attempt_grant_vote
  by_cases hcond : term = (ln.node.transition f).current_term ∧
      ((ln.node.transition f).voted_for = none ∨ (ln.node.transition f).voted_for = some c) ∧
      (ln.node.transition f).is_log_up_to_date last_log_term last_log_index = true
  · rw [if_pos hcond]
    obtain ⟨rfl, hfree, -⟩ := hcond
    refine ⟨_, h.vote h.disk hfree rfl rfl trivial, fun _ _ _ => ?_⟩
    exact cast_self b n _ c
  · rw [if_neg hcond]
    refine ⟨b, ⟨h.adds, h.node_id, h.disk, h.past, trivial⟩, ?_⟩
    rintro r hr hg
    obtain rfl := Except.ok.inj hr
    cases hg

/-- A vote that is granted is on disk before it is told. -/
theorem handle_request_vote_polled (h : Polled cfg n b₀ b ln) (c : NodeId)
    (term last_log_index last_log_term timeout : Nat) :
    ∃ b', Polled cfg n b₀ b'
        (ln.handle_request_vote c term last_log_index last_log_term timeout).1 ∧
      ∀ r, (ln.handle_request_vote c term last_log_index last_log_term timeout).2 = .ok r →
        r.vote_granted = true → b' n term = some c := by
  unfold LogicalNode.handle_request_vote
  split
  · exact ⟨b, h, by simp⟩
  split
  · have hdown := h.abstain (into_follower_abstains ln term none timeout)
    generalize ln.into_follower term none timeout = r at hdown
    obtain ⟨ln₁, res⟩ := r
    cases res with
    | error p => exact ⟨b, hdown, by simp⟩
    | ok u => exact decideVote_polled hdown c term last_log_index last_log_term
  · exact decideVote_polled h c term last_log_index last_log_term

/-- The locked part of a pulse. -/
theorem tickLocked_polled (hmem : n ∈ cfg.members) (h : Polled cfg n b₀ b ln) (timeout : Nat) :
    ∃ b', Polled cfg n b₀ b' (tickLocked ln timeout).1 ∧
      ∀ params, (tickLocked ln timeout).2 = .ok (.Campaign params) → params.node_id = n := by
  have hticked := h.abstain (tick_abstains ln)
  unfold tickLocked
  generalize ln.tick = r at hticked
  obtain ⟨ln₁, action⟩ := r
  dsimp only
  split
  · exact ⟨b, hticked, by simp⟩
  cases action with
  | StartElection =>
    obtain ⟨b', hb', hparams⟩ := begin_campaign_polled hmem hticked timeout
    refine ⟨b', ?_⟩
    dsimp only
    generalize begin_campaign ln₁ timeout = r at hb' hparams
    obtain ⟨ln₂, e | params⟩ := r
    · exact ⟨hb', by simp⟩
    · refine ⟨hb', ?_⟩
      rintro params' heq
      obtain rfl := TickSpawn.Campaign.inj (Except.ok.inj heq)
      exact hparams _ rfl
  | StartPreVote => exact ⟨b, hticked.abstain (into_pre_candidate_abstains ln₁), by simp⟩
  | _ => exact ⟨b, hticked, by simp⟩

end raft_engine.voting
