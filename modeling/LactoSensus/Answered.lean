-- What an answer of `await_commit` is worth on a whole node, which compacts its log and
-- is sent snapshots, among members that crash. The commit index passes the index of a
-- proposal in one step, with the proposal in the log, and the node has counted for it or
-- has been told of it. Only an installation could take it past without the entry.
import LactoSensus.Acknowledged
import LactoSensus.Elections
import LactoSensus.Proposals

open common.types
open journal
open machine
open raft_engine.storage
open raft_engine.node
open raft_engine.engine
open raft_engine.consensus
open raft_engine.shell
open raft_engine.cluster
open raft_engine.orchestration
open raft_engine.recovery
open raft_engine.station
open raft_engine.roles
open raft_engine.isolation
open raft_engine.origins
open raft_engine.refinement (after after_run commitByFirst threeNodes notebook)
open raft_engine.fleet (FleetConfig booted)
open raft_engine.elections
open lacto_fsm

namespace raft_engine.service

variable {α S X : Type} {ln : LogicalNode α} {sh sh' : ConsensusShell α}

/-! ## What raises the commit index -/

theorem changeDepth_keeps (res : Except String Nat) (ln : LogicalNode α) :
    KeepsCommit ln (changeDepth res ln).1 := by
  cases res <;> exact .of_store rfl

theorem save_snapshot_metadata_keeps (ln : LogicalNode α) (index term : Nat) :
    KeepsCommit ln (ln.save_snapshot_metadata index term).1 := by
  rw [save_snapshot_metadata_eq]
  split
  · exact .refl ln
  · exact .write rfl fun _ => rfl

theorem reset_heartbeat_keeps (ln : LogicalNode α) : KeepsCommit ln ln.reset_heartbeat := by
  unfold LogicalNode.reset_heartbeat
  split <;> exact .of_store rfl

theorem acceptSnapshot_keeps (depth : Nat) (params : SnapshotParams α) (timeout : Nat)
    (ln : LogicalNode α) : KeepsCommit ln (acceptSnapshot depth params timeout ln).1 := by
  have hvalid := validate_leader_rpc_term_keeps ln params.term params.leader_id "InstallSnapshot"
    timeout
  unfold acceptSnapshot LogicalNode.handle_install_snapshot
  dsimp only
  generalize ln.validate_leader_rpc_term params.term params.leader_id "InstallSnapshot" timeout = r
    at hvalid
  obtain ⟨ln', p | res⟩ := r
  · exact hvalid
  cases res with
  | Stale => exact hvalid
  | Valid =>
    dsimp only
    split_ifs
    · exact hvalid
    · have hreset : KeepsCommit ln ln'.reset_heartbeat := hvalid.trans (reset_heartbeat_keeps ln')
      cases freeze depth with
      | ok d => exact hreset
      | error e => exact hreset.trans (.of_store rfl)

/-- The request that an action serves. -/
def heard : HostAct α → List (Message α)
  | .Deliver msg _ => [msg]
  | _ => []

theorem origin_of_write {network : List (Message α)} {f : LogicalNode α → Handled α X}
    {res : Except Panic X} (hw : sh.write f = (sh', res))
    (hf : KeepsCommit sh.inner (f sh.inner).1) :
    Origin network sh.inner sh'.inner sh'.inner.node.disk := by
  rw [ConsensusShell.inner_of_write hw]
  exact .inl hf.afterHandler.now

theorem origin_of_response {network : List (Message α)} {term : Nat} {peer : NodeId}
    {outcome : ReplicationOutcome} {timeout : Nat}
    {res : Except Panic (Except NodeError ReplicationAction)}
    (hw : (sh.write fun ln => process_replication_response ln term peer outcome timeout) =
      (sh', res)) : Origin network sh.inner sh'.inner sh'.inner.node.disk := by
  have hsince : Since sh.inner.node.log_store (Origin network sh.inner (sh.write fun ln =>
      process_replication_response ln term peer outcome timeout).1.inner) _ :=
    response_origin sh term peer outcome timeout
  have horigin := hsince.now
  rw [hw] at horigin
  exact horigin

variable [DecidableEq α] {cfg : HostConfig} {sm : SnapshotMachine α S} {h h' : SnapshotHost α S}
  {a : HostAct α}

/-- But for the applier and an installation only a count of the leader and a request that is
served write a commit index. -/
theorem hostStep_origin (hs : hostStep cfg sm h a = some h') (hnot : a ≠ .Apply)
    (hfin : ∀ k, a ≠ .Finalize k) : Origin (heard a) h.node h'.node h'.disk := by
  cases hostStep_moves hs with
  | ticked hw => exact origin_of_write hw (tickLocked_keeps _ _)
  | ran hk hrun => exact (TaskStep.origin (runTask_ran hrun).step).now
  | served hserve => exact (ServeStep.origin (serve_step hserve) (List.mem_singleton_self _)).now
  | proposed data =>
    have hkeeps : KeepsCommit h.node (h.process.shell.propose data).1.inner := by
      rw [ConsensusShell.propose_shell, ConsensusShell.write_inner]
      exact (propose_keeps _ data).afterHandler
    exact .inl hkeeps.now
  | probed hprobe =>
    have hkeeps := prepare_probe_keeps h.process.shell
    rw [hprobe] at hkeeps
    exact .inl hkeeps.now
  | unprobed hprobe hno =>
    have hkeeps := prepare_probe_keeps h.process.shell
    rw [hprobe] at hkeeps
    exact .inl hkeeps.now
  | applied hrun => exact absurd rfl hnot
  | saved hk hw => exact origin_of_write hw (save_snapshot_metadata_keeps _ _ _)
  | unsaved hk hw => exact origin_of_write hw (save_snapshot_metadata_keeps _ _ _)
  | truncated hk => exact .inl rfl
  | thawed hk hw => exact origin_of_write hw (changeDepth_keeps _ _)
  | accepted hw => exact origin_of_write hw (acceptSnapshot_keeps _ _ _ _)
  | declined hw hno => exact origin_of_write hw (acceptSnapshot_keeps _ _ _ _)
  | restored hk hidle hfsm => exact .inl rfl
  | unrestored hk hidle hfsm => exact .inl rfl
  | finalized hk hw => exact absurd rfl (hfin _)
  | begun hw => exact origin_of_write hw (changeDepth_keeps _ _)
  | unbegun hw => exact origin_of_write hw (changeDepth_keeps _ _)
  | ended hpos hw => exact origin_of_write hw (changeDepth_keeps _ _)
  | answered hw hno => exact origin_of_response hw
  | unanswered hw => exact origin_of_response hw

/-! ## What the channel and the disk show -/

omit [DecidableEq α] in
theorem LogStep.cached {ln' : LogicalNode α} (hlog : LogStep h a ln')
    (hc : h.node.last_committed = h.disk.last_committed) :
    ln'.last_committed = ln'.node.disk.last_committed := by
  cases hlog with
  | quiet hq => exact (hq.disks hc).1
  | proposed data l hl => exact hc
  | merged dst req timeout hq hst hcommit ht hv hm hln =>
    exact (hln.disks (proposals.Merged.durable hm (hq.disks hc).1)).1
  | applied index hadv => exact hadv.durable hc
  | saved k i q hk => exact hc
  | front k i hk => exact hc
  | finalized k params hk hadv => exact hadv.durable hc

/-- The channel shows the role, and the commit index unless the node has halted. -/
abbrev Tells (sh : ConsensusShell α) : Prop := Reflects ConsensusProgress.last_committed sh

omit [DecidableEq α] in
theorem Tells.written (h : Tells sh) {f : LogicalNode α → Handled α X} {res : Except Panic X}
    (hw : sh.write f = (sh', res)) : Tells sh' := by
  have hwritten := h.write f
  rw [hw] at hwritten
  exact hwritten

omit [DecidableEq α] in
theorem Tells.stepped (h : Tells sh) (hs : Stepped sh sh') : Tells sh' := by
  cases hs with
  | same => exact h
  | wrote f hf => exact h.write f

omit [DecidableEq α] in
theorem runApplier_tells {sm : StateMachine α S} {p p' : Process α} {fsm fsm' : S}
    (h : Tells p.shell) (hrun : runApplier sm p fsm = some (p', fsm')) : Tells p'.shell := by
  cases happ : p.applier with
  | Applied next_idx =>
    rw [runApplier_applied happ] at hrun
    generalize hw : p.shell.write _ = r at hrun
    obtain ⟨sh, e | committed⟩ := r <;> obtain ⟨rfl, -⟩ := Prod.mk.inj (Option.some.inj hrun)
    · exact h.written hw
    · exact h.written hw
  | _ =>
    cases runApplier_step hrun with
    | advance happlied => simp [happ] at happlied
    | fatal hs hp => exact h.stepped hs
    | _ => exact h

omit [DecidableEq α] in
theorem serve_tells {msg : Message α} {timeout : Nat} {dst : NodeId} {sends : List (Message α)}
    (h : Tells sh) (hserve : serve sh timeout msg = some (dst, sh', sends)) : Tells sh' := by
  cases serve_step hserve with
  | preVoted dst req => exact h.write _
  | voted dst req => exact h.write _
  | appended dst req => exact h.write _

theorem HostMove.tells (hm : HostMove cfg sm h a h') (hp : Tells h.process.shell) :
    Tells h'.process.shell := by
  cases hm with
  | ticked hw => exact hp.written hw
  | ran hk hrun => exact hp.stepped (runTask_stepped hrun)
  | served hserve => exact serve_tells hp hserve
  | proposed data =>
    change Tells (h.process.shell.propose data).1
    rw [ConsensusShell.propose_shell]
    exact hp.write _
  | probed hprobe => exact hp.written hprobe
  | unprobed hprobe hno => exact hp.written hprobe
  | applied hrun => exact runApplier_tells hp hrun
  | saved hk hw => exact hp.written hw
  | unsaved hk hw => exact hp.written hw
  | truncated hk =>
    obtain ⟨hrole, hcommitted⟩ := reflects_committed.mp hp
    exact reflects_committed.mpr ⟨hrole, hcommitted⟩
  | thawed hk hw => exact hp.written hw
  | accepted hw => exact hp.written hw
  | declined hw hno => exact hp.written hw
  | restored hk hidle hfsm => exact hp
  | unrestored hk hidle hfsm => exact hp
  | finalized hk hw => exact hp.written hw
  | begun hw => exact hp.written hw
  | unbegun hw => exact hp.written hw
  | ended hpos hw => exact hp.written hw
  | answered hw hno => exact hp.written hw
  | unanswered hw => exact hp.written hw

/-- What stands on the disk and what the channel shows is what the node has. -/
structure Shows (h : SnapshotHost α S) : Prop where
  cached : h.node.last_committed = h.disk.last_committed
  tells : Tells h.process.shell

theorem Shows.step (hc : Shows h) (hs : hostStep cfg sm h a = some h') : Shows h' :=
  ⟨LogStep.cached (hostStep_cases hs).1 hc.cached, HostMove.tells (hostStep_moves hs) hc.tells⟩

omit [DecidableEq α] in
theorem Shows.shell (hc : Shows h) (hs : Stepped h.process.shell sh) : Shows (h.withShell sh) :=
  ⟨(hs.quiet.disks hc.cached).1, hc.tells.stepped hs⟩

/-! ## A proposal that is not committed yet -/

/-- Nothing that the node holds for committed, has applied or sets out to apply, or has captured
for a compaction is beyond `b`. -/
structure Within (b : Nat) (h : SnapshotHost α S) : Prop where
  committed : h.node.last_committed ≤ b
  applied : h.node.last_applied ≤ b
  targets : ∀ c ∈ h.compactions, c.target ≤ b
  applier : Behind b h.process.applier

omit [DecidableEq α] in
theorem LogStep.applied_within {b : Nat} {ln' : LogicalNode α} (hlog : LogStep h a ln')
    (hle : h.node.last_applied ≤ b) (hc : ln'.last_committed ≤ b) : ln'.last_applied ≤ b := by
  have hadvanced : ∀ {n n' : RaftNode α RoleState} {i : Nat}, Advanced n i n' →
      n'.last_committed ≤ b → n'.last_applied ≤ b := by
    intro n n' i hadv hc
    have happlied := hadv.applied
    have hcommitted := hadv.committed
    omega
  cases hlog with
  | applied i hadv => exact hadvanced hadv hc
  | finalized k params hk hadv => exact hadvanced hadv hc
  | quiet hq => exact hq.applied.le.trans hle
  | proposed data l hl => exact hle
  | @merged dst req timeout ln₁ _ f n hq hst hcommit ht hv hm hln =>
    have hsame : ln'.last_applied = h.node.last_applied :=
      calc ln'.last_applied = n.last_applied := hln.applied
        _ = ln₁.last_applied := hm.frame.1
        _ = h.node.last_applied := hq.applied
    exact hsame.le.trans hle
  | saved k i q hk => exact hle
  | front k i hk => exact hle

omit [DecidableEq α] in
theorem recordApplied_within {b next_idx : Nat} (hle : next_idx ≤ b) (hc : ln.last_committed ≤ b) :
    (recordApplied next_idx ln).1.last_committed ≤ b := by
  unfold recordApplied
  rcases node_advance_cases ln next_idx with ⟨-, heq⟩ | ⟨e, heq, -⟩ | ⟨n, heq, hadv⟩
  · rw [heq]
    exact hc
  · rw [heq]
    exact hc
  · rw [heq]
    have hold : ln.node.last_committed ≤ b := hc
    have hcommitted := hadv.committed
    change n.last_committed ≤ b
    omega

omit [DecidableEq α] in
theorem runApplier_within {b : Nat} {sm : StateMachine α S} {p p' : Process α} {fsm fsm' : S}
    (hc : p.shell.inner.last_committed ≤ b) (hap : Behind b p.applier)
    (hrun : runApplier sm p fsm = some (p', fsm')) :
    p'.shell.inner.last_committed ≤ b ∧ Behind b p'.applier := by
  have hcommitted : p'.shell.inner.last_committed ≤ b := by
    cases happ : p.applier with
    | Applied next_idx =>
      rw [happ] at hap
      rw [runApplier_applied happ] at hrun
      have hwithin : (afterHandler (recordApplied next_idx p.shell.inner)).last_committed ≤ b := by
        have hrecorded := recordApplied_within hap hc
        unfold afterHandler
        split <;> exact hrecorded
      rw [← ConsensusShell.write_inner] at hwithin
      generalize p.shell.write _ = r at hrun hwithin
      obtain ⟨sh, e | committed⟩ := r <;>
      · obtain ⟨rfl, -⟩ := Prod.mk.inj (Option.some.inj hrun)
        exact hwithin
    | _ =>
      have hstill := runApplier_steady (fun next_idx h => by simp [happ] at h) hrun
      exact hstill.committed.le.trans hc
  refine ⟨hcommitted, ?_⟩
  cases runApplier_step hrun with
  | start => exact hc
  | fetch hloop hlt =>
    rw [hloop] at hap
    exact hlt.trans_le hap
  | finish => exact trivial
  | apply hfetched =>
    rw [hfetched] at hap
    exact hap
  | @advance next_idx n sh happlied hadv hsh =>
    change sh.inner.node.last_committed ≤ b at hcommitted
    rw [hsh] at hcommitted
    exact hcommitted
  | fatal => exact trivial

theorem Within.step {b : Nat} (hw : Within b h) (hs : hostStep cfg sm h a = some h')
    (hc : h'.node.last_committed ≤ b) : Within b h' := by
  refine ⟨hc, LogStep.applied_within (hostStep_cases hs).1 hw.applied hc,
    hostStep_targets hs hw.applied hw.targets, ?_⟩
  by_cases happly : a = .Apply
  · subst happly
    obtain ⟨⟨p, fsm⟩, hrun, rfl⟩ := Option.map_eq_some_iff.mp hs
    exact (runApplier_within hw.committed hw.applier hrun).2
  · rw [(hostStep_aside hs happly).1]
    exact hw.applier

omit [DecidableEq α] in
theorem finalizeSnapshot_within {b depth : Nat} {params : SnapshotParams α}
    {res : Except String Unit} (hle : params.last_included_index ≤ b) (hc : ln.last_committed ≤ b) :
    (finalizeSnapshot depth params res ln).1.last_committed ≤ b := by
  unfold finalizeSnapshot
  cases thaw depth with
  | error e => exact hc
  | ok d =>
    cases res with
    | error e => exact hc
    | ok u =>
      dsimp only
      rw [save_snapshot_metadata_eq]
      by_cases hp : ln.is_poisoned = true
      · rw [if_pos hp]
        exact hc
      rw [if_neg hp]
      dsimp only
      rcases node_advance_cases (onto ln (ln.node.save_snapshot_metadata params.last_included_index
        params.last_included_term)) params.last_included_index with
        ⟨-, heq⟩ | ⟨e, heq, -⟩ | ⟨n, heq, hadv⟩
      · rw [heq]
        exact hc
      · rw [heq]
        exact hc
      · rw [heq]
        have hold : (onto ln (ln.node.save_snapshot_metadata params.last_included_index
          params.last_included_term)).node.last_committed ≤ b := hc
        have hcommitted := hadv.committed
        change n.last_committed ≤ b
        omega

theorem finalize_within {b k : Nat} (hc : h.node.last_committed ≤ b)
    (hle : ∀ params res, h.installations[k]? = some (.Restored params res) →
      params.last_included_index ≤ b) (hs : hostStep cfg sm h (.Finalize k) = some h') :
    h'.node.last_committed ≤ b := by
  cases hostStep_moves hs with
  | @finalized _ params res sh res' hk hw =>
    change sh.inner.last_committed ≤ b
    rw [ConsensusShell.inner_of_write hw]
    have hwithin : (finalizeSnapshot h.fsm_freeze_depth params res h.node).1.last_committed ≤ b :=
      finalizeSnapshot_within (hle params res hk) hc
    unfold afterHandler
    split <;> exact hwithin

/-- The entry is in the log, and nothing that the node does comes up to it yet. -/
structure Waits (e : LogEntry α) (h : SnapshotHost α S) : Prop where
  positive : 0 < e.index
  within : Within (e.index - 1) h
  held : h.disk.read_entry e.index = some e

/-- The entry is in the log when the commit index comes up to it. -/
structure Reached (e : LogEntry α) (h h' : SnapshotHost α S) : Prop where
  before : h.node.last_committed < e.index
  after : e.index ≤ h'.node.last_committed
  held : h.disk.read_entry e.index = some e
  holds : h'.disk.read_entry e.index = some e

variable {e : LogEntry α}

theorem Waits.host (hw : Waits e h) (hshows : Shows h)
    (hcut : ∀ dst req timeout, a = .Deliver (.AppendEntries dst req) timeout →
      CutsAbove e.index h.node req)
    (hfin : ∀ k params res, a = .Finalize k →
      h.installations[k]? = some (.Restored params res) → params.last_included_index < e.index)
    (hs : hostStep cfg sm h a = some h') :
    Waits e h' ∨ Reached e h h' ∧
      (h.node.node_role = .Leader ∨ origins.Told (heard a) h'.node.last_committed) := by
  have hpos := hw.positive
  have hbefore := hw.within.committed
  have hheld : h'.disk.read_entry e.index = some e := by
    refine (hostStep_cases hs).1.keeps hw.held (fun i hi => ?_) hcut
    have htarget : i ≤ e.index - 1 := hw.within.targets (.Saved i) hi
    omega
  by_cases hlt : h'.node.last_committed < e.index
  · exact .inl ⟨hpos, hw.within.step hs (by omega), hheld⟩
  -- the applier and an installation stay below the entry
  have hnot : a ≠ .Apply := by
    rintro rfl
    obtain ⟨⟨p, fsm⟩, hrun, rfl⟩ := Option.map_eq_some_iff.mp hs
    have hle : p.shell.inner.last_committed ≤ e.index - 1 :=
      (runApplier_within hbefore hw.within.applier hrun).1
    exact hlt (show p.shell.inner.last_committed < e.index by omega)
  have hno : ∀ k, a ≠ .Finalize k := by
    rintro k rfl
    have hle := finalize_within hbefore (fun params res hk => by
      have := hfin k params res rfl hk
      omega) hs
    omega
  refine .inr ⟨⟨by omega, not_lt.mp hlt, hw.held, hheld⟩, ?_⟩
  have hcached := (hshows.step hs).cached
  rcases hostStep_origin hs hnot hno with hsame | ⟨-, ⟨hrole, -⟩ | htold⟩
  · have hold := hshows.cached
    change h'.disk.last_committed = h.disk.last_committed at hsame
    omega
  · exact .inl hrole
  · rw [hcached]
    exact .inr htold

omit [DecidableEq α] in
theorem Waits.shell (hw : Waits e h) (hshows : Shows h) (hs : Stepped h.process.shell sh)
    (horigin : Origin [] h.process.shell.inner sh.inner sh.inner.node.disk) :
    Waits e (h.withShell sh) ∨ Reached e h (h.withShell sh) ∧ h.node.node_role = .Leader := by
  have hq := hs.quiet
  have hpos := hw.positive
  have hbefore := hw.within.committed
  have hheld : sh.inner.node.disk.read_entry e.index = some e := by
    unfold SledStorage.read_entry
    rw [hq.log]
    exact hw.held
  by_cases hlt : sh.inner.last_committed < e.index
  · refine .inl ⟨hpos, ⟨?_, hq.applied.le.trans hw.within.applied, hw.within.targets,
      hw.within.applier⟩, hheld⟩
    change sh.inner.last_committed ≤ _
    omega
  refine .inr ⟨⟨by omega, not_lt.mp hlt, hw.held, hheld⟩, ?_⟩
  have hcached : sh.inner.last_committed = sh.inner.node.disk.last_committed :=
    (hq.disks hshows.cached).1
  rcases horigin with hsame | ⟨-, ⟨hrole, -⟩ | ⟨dst, req, hmem, -⟩⟩
  · have hold : h.node.last_committed = h.process.shell.inner.node.disk.last_committed :=
      hshows.cached
    omega
  · exact hrole
  · cases hmem

/-! ## The station -/

/-- Why the commit index of a node comes up to `i`: the node leads, and has counted, or a
request has told it of the index. -/
inductive Raises (i : Nat) (st : Station α) : StationAct α → Prop where
  | counted {a : StationAct α} (hrole : st.node.node_role = .Leader) : Raises i st a
  | told {dst : NodeId} {req : AppendEntriesRequest α} {timeout : Nat}
      (hle : i ≤ req.leader_commit) :
      Raises i st (.Host (.Deliver (.AppendEntries dst req) timeout))

/-- No request that is taken up cuts the log at or below `i`, and no snapshot of `i` or beyond is
installed. -/
def Spares (i : Nat) (st : Station α) : StationAct α → Prop
  | .Host (.Deliver (.AppendEntries _ req) _) => CutsAbove i st.node req
  | .Host (.Finalize k) => ∀ params res,
      st.host.installations[k]? = some (.Restored params res) → params.last_included_index < i
  | _ => True

omit [DecidableEq α] in
theorem respond_host (h : SnapshotHost α LactoStore) (term : Nat) (peer : NodeId)
    (outcome : ReplicationOutcome) (timeout : Nat) :
    (respond h term peer outcome timeout).1 = h.withShell (h.process.shell.write fun ln =>
      process_replication_response ln term peer outcome timeout).1 := by
  unfold respond
  generalize h.process.shell.write _ = r
  obtain ⟨sh, p | err | action⟩ := r
  · rfl
  · rfl
  · cases action <;> rfl

variable {c : SnapshotCodec α} {st st' : Station α} {act : StationAct α}

theorem Shows.call {h h' : SnapshotHost α LactoStore} {term : Nat} {reply : Option PeerReply}
    {call : PeerCall α} {res : CallResult α} (hshows : Shows h)
    (hstep : CallStep cfg c h term reply call h' res) : Shows h' := by
  cases hstep with
  | continued hs hf => exact hshows.shell hs
  | finished hs hf => exact hshows.shell hs
  | demoted hs hreply ht hf => exact hshows.shell hs
  | failed hs hhalt => exact hshows.shell hs
  | froze i t hs hp => exact hshows.step hs
  | freezeFailed i t hs hp => exact hshows.step hs
  | thawed i t hs hp => exact hshows.step hs
  | thawFailed i t hs hhalt => exact hshows.step hs

theorem Shows.station (hshows : Shows st.host) (hs : stationStep cfg c st act = some st') :
    Shows st'.host := by
  cases act with
  | Host a =>
    obtain ⟨-, -, h', hstep, rfl⟩ := host_cases hs
    exact ⟨(hshows.step hstep).cached, (hshows.step hstep).tells⟩
  | Call r k reply timeout =>
    obtain ⟨round, peer, call, h', res, -, -, hcall, rfl⟩ := call_cases hs
    exact ⟨(hshows.call hcall).cached, (hshows.call hcall).tells⟩
  | Wake =>
    simp only [stationStep] at hs
    split at hs <;> cases hs
    exact hshows
  | CheckFrozen =>
    simp only [stationStep] at hs
    split at hs <;> cases hs
    exact hshows
  | Enter caller =>
    simp only [stationStep] at hs
    repeat' split at hs
    all_goals
      cases hs <;> exact hshows
  | Loop =>
    obtain ⟨caller, -, ⟨-, rfl⟩ | ⟨h', hstep, ⟨-, rfl⟩ | ⟨-, rfl⟩⟩⟩ := loop_cases hs
    · exact hshows
    · exact ⟨(hshows.step hstep).cached, (hshows.step hstep).tells⟩
    · exact ⟨(hshows.step hstep).cached, (hshows.step hstep).tells⟩

theorem Waits.call {h : SnapshotHost α LactoStore} {params : ReplicationRoundParams}
    {peer : NodeId} {reply : Option PeerReply} {timeout : Nat} {call : PeerCall α}
    {h' : SnapshotHost α LactoStore} (hw : Waits e h) (hshows : Shows h)
    (hm : CallMove cfg c h params peer reply timeout call h') :
    Waits e h' ∨ Reached e h h' ∧ h.node.node_role = .Leader := by
  have hrespond : ∀ outcome, Waits e (respond h params.term peer outcome timeout).1 ∨
      Reached e h (respond h params.term peer outcome timeout).1 ∧ h.node.node_role = .Leader := by
    intro outcome
    rw [respond_host]
    exact hw.shell hshows (.wrote _ (process_replication_response_quiet _ _ _ _ _))
      (response_origin _ _ _ _ _).now
  have hstep : ∀ {a : HostAct α}, hostStep cfg (lactoSnapshots c) h a = some h' → heard a = [] →
      (∀ k, a ≠ .Finalize k) →
      Waits e h' ∨ Reached e h h' ∧ h.node.node_role = .Leader := by
    intro a hs hheard hno
    rcases hw.host hshows (by rintro dst req timeout rfl; cases hheard)
      (fun k _ _ ha _ => absurd ha (hno k)) hs with hwaits | ⟨hreached, hrole | ⟨dst, req, hmem, -⟩⟩
    · exact .inl hwaits
    · exact .inr ⟨hreached, hrole⟩
    · rw [hheard] at hmem
      cases hmem
  cases hm with
  | idle => exact .inl hw
  | prepared hwrite =>
    exact hw.shell hshows (.of_write hwrite (prepare_replication_quiet _ _ _))
      (origin_of_write hwrite (prepare_replication_keeps _ _ _))
  | built hwrite =>
    exact hw.shell hshows (.of_write hwrite (build_append_entries_request_quiet _ _ _ _ _))
      (origin_of_write hwrite (.of_store (build_append_entries_request_store _ _ _ _ _)))
  | appended req response hreply => exact hrespond _
  | overtaken req response hreply hgt => exact hrespond _
  | froze i t hs => exact hstep hs rfl nofun
  | thawed i t out hs => exact hstep hs rfl nofun
  | installed sent response_term hreply => exact hrespond _

theorem Waits.station (hw : Waits e st.host) (hshows : Shows st.host)
    (hok : Spares e.index st act) (hs : stationStep cfg c st act = some st') :
    Waits e st'.host ∨ Reached e st.host st'.host ∧ Raises e.index st act := by
  have hsame : ∀ {h : SnapshotHost α LactoStore} {tasks : List (SpawnedTask α)}, Waits e h →
      Waits e { h with process := { h.process with tasks := tasks } } :=
    fun hw => ⟨hw.positive, ⟨hw.within.committed, hw.within.applied, hw.within.targets,
      hw.within.applier⟩, hw.held⟩
  have hagain : ∀ {h h' : SnapshotHost α LactoStore} {tasks : List (SpawnedTask α)},
      Reached e h h' → Reached e h { h' with process := { h'.process with tasks := tasks } } :=
    fun hr => ⟨hr.before, hr.after, hr.held, hr.holds⟩
  have happly : ∀ {h' : SnapshotHost α LactoStore},
      hostStep cfg (lactoSnapshots c) st.host .Apply = some h' → Waits e h' := by
    intro h' hstep
    rcases hw.host hshows (by simp) (by simp) hstep with hwaits | ⟨hreached, -⟩
    · exact hwaits
    · obtain ⟨⟨p, fsm⟩, hrun, rfl⟩ := Option.map_eq_some_iff.mp hstep
      have hle : p.shell.inner.last_committed ≤ e.index - 1 :=
        (runApplier_within hw.within.committed hw.within.applier hrun).1
      have hafter : e.index ≤ p.shell.inner.last_committed := hreached.after
      have hpos := hw.positive
      omega
  cases act with
  | Host a =>
    obtain ⟨-, -, h', hstep, rfl⟩ := host_cases hs
    rcases hw.host hshows (by rintro dst req timeout rfl; exact hok)
      (by rintro k params res rfl hk; exact hok params res hk) hstep with
      hwaits | ⟨hreached, hrole | htold⟩
    · exact .inl (hsame hwaits)
    · exact .inr ⟨hagain hreached, .counted hrole⟩
    · refine .inr ⟨hagain hreached, ?_⟩
      obtain ⟨dst, req, hmem, hle⟩ := htold
      cases a with
      | Deliver msg timeout =>
        obtain rfl := List.mem_singleton.mp hmem
        exact .told (hreached.after.trans hle)
      | _ => cases hmem
  | Call r k reply timeout =>
    obtain ⟨round, hr, hcall⟩ := Option.bind_eq_some_iff.mp hs
    obtain ⟨⟨peer, call⟩, hk, hmap⟩ := Option.bind_eq_some_iff.mp hcall
    obtain ⟨⟨h', res⟩, hrun, rfl⟩ := Option.map_eq_some_iff.mp hmap
    rcases hw.call hshows (runCall_moves hrun).1 with hwaits | ⟨hreached, hrole⟩
    · exact .inl (hsame (hsame hwaits))
    · exact .inr ⟨hagain (hagain hreached), .counted hrole⟩
  | Wake =>
    simp only [stationStep] at hs
    split at hs <;> cases hs
    exact .inl hw
  | CheckFrozen =>
    simp only [stationStep] at hs
    split at hs <;> cases hs
    exact .inl hw
  | Enter caller =>
    simp only [stationStep] at hs
    repeat' split at hs
    all_goals
      cases hs <;> exact .inl hw
  | Loop =>
    obtain ⟨caller, -, ⟨-, rfl⟩ | ⟨h', hstep, ⟨-, rfl⟩ | ⟨-, rfl⟩⟩⟩ := loop_cases hs
    · exact .inl hw
    · exact .inl (hsame (happly hstep))
    · exact .inl (hsame (happly hstep))

/-! ## The members -/

variable {cfg : FleetConfig} {s s₀ s₁ s₂ s' : Assembly α} {n : NodeId}

/-- The member stays up, cuts its log at or below `i` on nobody's word, and installs no snapshot
of `i` or beyond. -/
def Untouched (n : NodeId) (i : Nat) (s : Assembly α) : AssemblyAct α → Prop
  | .Work m a => m = n → ∀ st, s.seats n = .Up st → Spares i st a
  | .CrashIn m _ _ => m ≠ n
  | .Crash m => m ≠ n
  | .Restart _ _ _ => True

/-- In a step of the member its commit index comes up to the entry, which is in its log. -/
def CommittedIn (cfg : FleetConfig) (c : SnapshotCodec α) (n : NodeId) (e : LogEntry α)
    (s s' : Assembly α) : Prop :=
  ∃ a st st', s.seats n = .Up st ∧ assemblyStep cfg c s (.Work n a) = some s' ∧
    s'.seats n = .Up st' ∧ Reached e st.host st'.host ∧ Raises e.index st a

theorem work_seat {a : StationAct α} (hs : assemblyStep cfg c s (.Work n a) = some s')
    (hup : s.seats n = .Up st) :
    ∃ st', stationStep (cfg.host n) c st a = some st' ∧ s'.seats n = .Up (settle st') := by
  obtain ⟨⟨st₁, st'⟩, hwork, rfl⟩ := Option.map_eq_some_iff.mp hs
  unfold Assembly.work at hwork
  rw [hup] at hwork
  dsimp only at hwork
  split at hwork
  swap
  · cases hwork
  obtain ⟨st₂, hstep, heq⟩ := Option.map_eq_some_iff.mp hwork
  obtain ⟨rfl, rfl⟩ := Prod.mk.inj heq
  exact ⟨_, hstep, Function.update_self _ _ _⟩

/-- What a step makes of a member that stays up. -/
theorem assemblyStep_seat {act : AssemblyAct α} {i : Nat} (hs : assemblyStep cfg c s act = some s')
    (hok : Untouched n i s act) (hup : s.seats n = .Up st) :
    s'.seats n = .Up st ∨ ∃ a st', act = .Work n a ∧ Spares i st a ∧
      stationStep (cfg.host n) c st a = some st' ∧ s'.seats n = .Up (settle st') := by
  cases act with
  | Work m a =>
    by_cases hm : m = n
    · subst hm
      obtain ⟨st', hstep, hup'⟩ := work_seat hs hup
      exact .inr ⟨a, st', rfl, hok rfl _ hup, hstep, hup'⟩
    · obtain ⟨⟨st₁, st'⟩, -, rfl⟩ := Option.map_eq_some_iff.mp hs
      exact .inl ((Function.update_of_ne (Ne.symm hm) _ _).trans hup)
  | CrashIn m a point =>
    obtain ⟨⟨st₁, st'⟩, -, hcrash⟩ := Option.bind_eq_some_iff.mp hs
    obtain ⟨disk, -, rfl⟩ := Option.map_eq_some_iff.mp hcrash
    exact .inl ((Function.update_of_ne (Ne.symm hok) _ _).trans hup)
  | Crash m =>
    simp only [assemblyStep] at hs
    split at hs <;> cases hs
    exact .inl ((Function.update_of_ne (Ne.symm hok) _ _).trans hup)
  | Restart m timeout db =>
    simp only [assemblyStep] at hs
    split at hs
    · cases hs
    rename_i disk hdown
    have hm : n ≠ m := by
      rintro rfl
      rw [hup] at hdown
      cases hdown
    split at hs
    swap
    · cases hs
    obtain ⟨⟨fsm, ln⟩, -, rfl⟩ := Option.map_eq_some_iff.mp hs
    exact .inl ((Function.update_of_ne hm _ _).trans hup)

/-- Every member that is up shows what it has. -/
def AllShow (s : Assembly α) : Prop := ∀ n st, s.seats n = .Up st → Shows st.host

omit [DecidableEq α] in
theorem AllShow.seat (h : AllShow s) {m : NodeId} {seat : Seat α}
    (hseat : ∀ st, seat = .Up st → Shows st.host) (replies : List (Message α)) :
    AllShow { s.seat m seat with replies := replies } := by
  intro n st hup
  change Function.update s.seats m seat n = _ at hup
  rw [Function.update_apply] at hup
  split at hup
  · exact hseat st hup
  · exact h n st hup

omit [DecidableEq α] in
theorem reboot_shows {disk : SledStorage α} {timeout : Nat} {db fsm : LactoStore}
    {ln : LogicalNode α}
    (hboot : reboot c.toCodec n cfg.cluster.heartbeat_interval timeout db disk = some (fsm, ln)) :
    Shows (booted fsm ln).host := by
  refine ⟨?_, Reflects.new _ ln⟩
  unfold reboot at hboot
  split at hboot
  · cases hboot
  split at hboot
  swap
  · cases hboot
  rename_i hnew
  obtain ⟨rfl, rfl⟩ := Prod.mk.inj (Option.some.inj hboot)
  have hcommitted := try_new_committed hnew
  unfold LogicalNode.try_new at hnew
  split at hnew
  · cases hnew
  obtain rfl := Except.ok.inj hnew
  exact hcommitted

theorem AllShow.step {act : AssemblyAct α} (h : AllShow s)
    (hs : assemblyStep cfg c s act = some s') : AllShow s' := by
  cases act with
  | Work m a =>
    obtain ⟨⟨st₁, st'⟩, hwork, rfl⟩ := Option.map_eq_some_iff.mp hs
    refine h.seat (fun st hst => ?_) _
    obtain rfl := Seat.Up.inj hst
    unfold Assembly.work at hwork
    split at hwork
    · cases hwork
    rename_i st₂ hup
    split at hwork
    swap
    · cases hwork
    obtain ⟨st₃, hstep, heq⟩ := Option.map_eq_some_iff.mp hwork
    obtain ⟨rfl, rfl⟩ := Prod.mk.inj heq
    have hnext := (h m _ hup).station hstep
    exact ⟨hnext.cached, ⟨hnext.tells.role, hnext.tells.healthy⟩⟩
  | CrashIn m a point =>
    obtain ⟨⟨st₁, st'⟩, -, hcrash⟩ := Option.bind_eq_some_iff.mp hs
    obtain ⟨disk, -, rfl⟩ := Option.map_eq_some_iff.mp hcrash
    refine h.seat (fun st hst => ?_) _
    cases hst
  | Crash m =>
    simp only [assemblyStep] at hs
    split at hs <;> cases hs
    refine h.seat (fun st hst => ?_) _
    cases hst
  | Restart m timeout db =>
    simp only [assemblyStep] at hs
    split at hs
    · cases hs
    split at hs
    swap
    · cases hs
    obtain ⟨⟨fsm, ln⟩, hboot, rfl⟩ := Option.map_eq_some_iff.mp hs
    refine h.seat (fun st hst => ?_) _
    obtain rfl := Seat.Up.inj hst
    exact reboot_shows hboot

theorem AllShow.run (hrun : AssemblyRun cfg c .new s) : AllShow s := by
  have hnew : AllShow (Assembly.new : Assembly α) := by
    intro n st hup
    cases hup
  exact Run.invariant (fun _ _ _ h _ hs => h.step hs) hrun hnew

/-- The entry is in the log of the member, which is up and has not come up to it. -/
def Standing (n : NodeId) (e : LogEntry α) (s : Assembly α) : Prop :=
  ∃ st, s.seats n = .Up st ∧ Waits e st.host

theorem Standing.step {act : AssemblyAct α} (h : Standing n e s) (hall : AllShow s)
    (hok : Untouched n e.index s act) (hs : assemblyStep cfg c s act = some s') :
    Standing n e s' ∨ CommittedIn cfg c n e s s' := by
  obtain ⟨st, hup, hw⟩ := h
  rcases assemblyStep_seat hs hok hup with hsame | ⟨a, st', rfl, hspares, hstep, hup'⟩
  · exact .inl ⟨st, hsame, hw⟩
  · rcases hw.station (hall n st hup) hspares hstep with hwaits | ⟨hreached, hraises⟩
    · exact .inl ⟨_, hup', ⟨hwaits.positive, ⟨hwaits.within.committed, hwaits.within.applied,
        hwaits.within.targets, hwaits.within.applier⟩, hwaits.held⟩⟩
    · exact .inr ⟨a, st, _, hup, hs, hup',
        ⟨hreached.before, hreached.after, hreached.held, hreached.holds⟩, hraises⟩

/-! ## The answer -/

omit [DecidableEq α] in
/-- A proposal is at the end of the log, which nothing else has come up to. -/
theorem propose_waits {h : SnapshotHost α LactoStore} {data : α} {i : Nat}
    (hw : Within h.node.last_log_index h)
    (hok : (h.process.shell.propose data).2 = .ok (.ok i)) :
    Waits ⟨i, h.node.current_term, data⟩ (h.withShell (h.process.shell.propose data).1) := by
  have hheld := propose_entry hok
  rcases (propose_stepped h.process.shell data).1 with ⟨hno, -⟩ | ⟨-, hindex, heq⟩
  · exact absurd hok (hno i)
  obtain rfl : i = h.node.last_log_index + 1 := by
    rw [hindex] at hok
    exact (Except.ok.inj (Except.ok.inj hok)).symm
  refine ⟨Nat.succ_pos _, ⟨?_, ?_, hw.targets, hw.applier⟩, hheld⟩
  · change (h.process.shell.propose data).1.inner.last_committed ≤ _
    rw [heq]
    exact hw.committed
  · change (h.process.shell.propose data).1.inner.last_applied ≤ _
    rw [heq]
    exact hw.applied

/-- The member that answers leads and takes `i` for committed, and its commit index came up to
`i` in one of its steps, with the proposal in its log. -/
theorem acknowledged_reached {data : α} {i : Nat} {st₂ : Station α}
    (hreach : AssemblyRun cfg c .new s) (hup : s.seats n = .Up st)
    (hwithin : Within st.node.last_log_index st.host)
    (hpropose : (st.host.process.shell.propose data).2 = .ok (.ok i))
    (hs : assemblyStep cfg c s (.Work n (.Host (.Propose data))) = some s₁)
    (hrun : Run (assemblyStep cfg c) (Untouched n i) s₁ s₂) (hup₂ : s₂.seats n = .Up st₂)
    (hok : await_commit st₂.host.process.shell.progress i = some (.ok ())) :
    st₂.node.node_role = .Leader ∧ i ≤ st₂.node.last_committed ∧
      ∃ s' s'', Run (assemblyStep cfg c) (Untouched n i) s₁ s' ∧
        CommittedIn cfg c n ⟨i, st.node.current_term, data⟩ s' s'' ∧
        Run (assemblyStep cfg c) (Untouched n i) s'' s₂ := by
  have hreach₁ : AssemblyRun cfg c .new s₁ := .tail hreach trivial hs
  have hstanding : Standing n ⟨i, st.node.current_term, data⟩ s₁ := by
    obtain ⟨st', hstep, hup'⟩ := work_seat hs hup
    obtain ⟨-, -, h', hhost, rfl⟩ := host_cases hstep
    obtain rfl := Option.some.inj hhost
    have hw := propose_waits hwithin hpropose
    exact ⟨_, hup', ⟨hw.positive, ⟨hw.within.committed, hw.within.applied, hw.within.targets,
      hw.within.applier⟩, hw.held⟩⟩
  have hlater : ∀ {s'}, Run (assemblyStep cfg c) (Untouched n i) s₁ s' → AllShow s' :=
    fun hrun => .run (hreach₁.trans (hrun.weaken fun _ _ _ => trivial))
  obtain ⟨hrole, hle⟩ := (hlater hrun n st₂ hup₂).tells.await_commit_ok hok
  refine ⟨hrole, hle, ?_⟩
  rcases hrun.loses hstanding with ⟨st', hup', hw⟩ | ⟨s', act, s'', hbefore, hstand, hp, hstep, hno,
    hafter⟩
  · -- the answer says that the commit index has come up to it
    obtain rfl := Seat.Up.inj (hup'.symm.trans hup₂)
    have hbelow := hw.within.committed
    have hpos := hw.positive
    change st'.node.last_committed ≤ i - 1 at hbelow
    change 0 < i at hpos
    change i ≤ st'.node.last_committed at hle
    omega
  · rcases hstand.step (hlater hbefore) hp hstep with hnext | hcommitted
    · exact absurd hnext hno
    · exact ⟨s', s'', hbefore, hcommitted, hafter⟩

/-- When a proposal got the index `i`, the node has lived on, nothing has cut its log at or below
`i`, and `await_commit` returns. Where nobody compacts or sends a snapshot, the proposal is what
every node comes to hold at `i`. On a node that compacts its log and is sent snapshots, but
installs none of `i` or beyond, the commit index came up to `i` in one step, with the proposal in
the log, and the node had counted for it or had been told of it. -/
theorem acknowledged_is_committed :
    (∀ {S : Type} {cfg : Config} {sm : StateMachine α S} {c c₁ c₂ : Cluster α S} {n : NodeId}
      {data : α} {p q : Process α} {i : Nat},
      Reachable cfg sm c → c.process n = some p →
      (p.shell.propose data).2 = .ok (.ok i) →
      step cfg sm c (.Act (.Propose n data)) = some c₁ →
      Run (step cfg sm) (fun c a => ¬crashes cfg sm c n a ∧ Uncut n i c a) c₁ c₂ →
      c₂.process n = some q → await_commit q.shell.progress i = some (.ok ()) →
      AgreedOn cfg sm c₂ n ⟨i, p.shell.inner.current_term, data⟩) ∧
    ∀ {cfg : FleetConfig} {c : SnapshotCodec α} {s s₁ s₂ : Assembly α} {n : NodeId} {data : α}
      {st st₂ : Station α} {i : Nat},
      AssemblyRun cfg c .new s → s.seats n = .Up st → Within st.node.last_log_index st.host →
      (st.host.process.shell.propose data).2 = .ok (.ok i) →
      assemblyStep cfg c s (.Work n (.Host (.Propose data))) = some s₁ →
      Run (assemblyStep cfg c) (Untouched n i) s₁ s₂ → s₂.seats n = .Up st₂ →
      await_commit st₂.host.process.shell.progress i = some (.ok ()) →
      st₂.node.node_role = .Leader ∧ i ≤ st₂.node.last_committed ∧
        ∃ s' s'', Run (assemblyStep cfg c) (Untouched n i) s₁ s' ∧
          CommittedIn cfg c n ⟨i, st.node.current_term, data⟩ s' s'' ∧
          Run (assemblyStep cfg c) (Untouched n i) s'' s₂ :=
  ⟨acknowledged_agreed, acknowledged_reached⟩

/-! ## Two answers -/

omit [DecidableEq α] in
theorem station_up {seat : Seat α} (h : seat.station = some st) : seat = .Up st := by
  cases seat with
  | Up st' =>
    obtain rfl := Option.some.inj h
    rfl
  | Down disk => cases h

/-- The action neither serves a request of a leader nor installs a snapshot. -/
def isOwn : StationAct α → Bool
  | .Host (.Deliver (.AppendEntries _ _) _) => false
  | .Host (.Finalize _) => false
  | _ => true

omit [DecidableEq α] in
theorem spares_own {a : StationAct α} (hown : isOwn a = true) (i : Nat) (st : Station α) :
    Spares i st a := by
  unfold isOwn at hown
  split at hown
  · cases hown
  · cases hown
  · rename_i hdeliver hfinal
    unfold Spares
    split
    · exact absurd rfl (hdeliver _ _ _)
    · exact absurd rfl (hfinal _)
    · trivial

/-- Node 1 proposes 77, replicates it to node 2, and is told that it is committed. A node that
has compacted its log up to its proposal is told the same: it held the proposal when its commit
index came up to it. -/
theorem acknowledged_is_committed_once :
    AgreedOn threeNodes notebook (after commitByFirst) 1 ⟨1, 1, 77⟩ ∧
      ((assemblyAfter electAndCompact).seats 1).disk.read_entry 1 = none ∧
      ∃ s' s'', CommittedIn fleet.threeNodes plainSnapshots 1 ⟨1, 1, milk 1⟩ s' s'' ∧
        AssemblyRun fleet.threeNodes plainSnapshots s'' (assemblyAfter electAndCompact) := by
  refine ⟨?_, by decide +kernel, ?_⟩
  · have hleads : ((after (commitByFirst.take 9)).process 1).map (fun p =>
        ((p.shell.propose 77).2, p.shell.inner.current_term)) = some (.ok (.ok 1), 1) := by
      decide +kernel
    obtain ⟨p, hp, hfacts⟩ := Option.map_eq_some_iff.mp hleads
    obtain ⟨hpropose, hterm⟩ := Prod.mk.inj hfacts
    have hanswer : answer (after commitByFirst) 1 1 = some (.ok ()) := by decide +kernel
    obtain ⟨q, hq, hok⟩ := Option.bind_eq_some_iff.mp hanswer
    have hreach : Reachable threeNodes notebook (after (commitByFirst.take 9)) :=
      after_run [] (commitByFirst.take 9) (fun _ _ _ => trivial) (by decide +kernel)
    have hproposed : step threeNodes notebook (after (commitByFirst.take 9))
        (.Act (.Propose 1 77)) = some (after (commitByFirst.take 10)) := rfl
    have hmsg : (after (commitByFirst.take 12)).network[6]?.map Message.dst = some 2 := by
      decide +kernel
    have hrun : Run (step threeNodes notebook)
        (fun c a => ¬crashes threeNodes notebook c 1 a ∧ Uncut 1 1 c a)
        (after (commitByFirst.take 10)) (after commitByFirst) := by
      refine after_run (commitByFirst.take 10) (commitByFirst.drop 10) (fun k a ha => ?_)
        (by decide +kernel)
      match k, ha with
      | 0, rfl => exact ⟨id, trivial⟩
      | 1, rfl => exact ⟨id, trivial⟩
      | 2, rfl =>
        -- the request is for node 2
        refine ⟨id, fun p req _ hreq => ?_⟩
        have hdst := (congrArg (Option.map Message.dst) hreq).symm.trans hmsg
        cases hdst
      | 3, rfl => exact ⟨id, trivial⟩
    have hagreed := acknowledged_is_committed.1 hreach hp hpropose hproposed hrun hq hok
    rwa [hterm] at hagreed
  · have hleads : ((assemblyAfter (electAndCompact.take 8)).seats 1).station.map (fun st =>
        ((st.host.process.shell.propose (milk 1)).2, st.node.current_term, st.node.last_committed,
          st.node.last_applied, st.host.compactions, st.host.process.applier)) =
        some (.ok (.ok 1), 1, 0, 0, [], .Idle) := rfl
    obtain ⟨st, hst, hfacts⟩ := Option.map_eq_some_iff.mp hleads
    simp only [Prod.mk.injEq] at hfacts
    obtain ⟨hpropose, hterm, hcommitted, happlied, hnone, hidle⟩ := hfacts
    have hanswer : ((assemblyAfter electAndCompact).seats 1).station.map (fun st =>
        await_commit st.host.process.shell.progress 1) = some (some (.ok ())) := by decide +kernel
    obtain ⟨st₂, hst₂, hok⟩ := Option.map_eq_some_iff.mp hanswer
    have hreach : AssemblyRun fleet.threeNodes plainSnapshots .new
        (assemblyAfter (electAndCompact.take 8)) :=
      run_of_takes (electAndCompact.take 8) (fun _ _ _ => trivial) (by decide +kernel)
    have hwithin : Within st.node.last_log_index st.host := by
      refine ⟨hcommitted.trans_le (Nat.zero_le _), happlied.trans_le (Nat.zero_le _),
        by simp [hnone], ?_⟩
      rw [hidle]
      trivial
    have hproposed : assemblyStep fleet.threeNodes plainSnapshots
        (assemblyAfter (electAndCompact.take 8)) (.Work 1 (.Host (.Propose (milk 1)))) =
        some (assemblyAfter (electAndCompact.take 9)) := rfl
    have hown : (leadAndCompact.drop 5).all isOwn = true := by decide +kernel
    have hrun : Run (assemblyStep fleet.threeNodes plainSnapshots) (Untouched 1 1)
        (assemblyAfter (electAndCompact.take 9)) (assemblyAfter electAndCompact) := by
      refine run_of_exec ((leadAndCompact.drop 5).map (.Work 1)) (fun s act hact => ?_) rfl
      obtain ⟨a, ha, rfl⟩ := List.mem_map.mp hact
      exact fun _ st _ => spares_own (List.all_eq_true.mp hown a ha) 1 st
    obtain ⟨-, -, s', s'', -, hcommits, hafter⟩ := acknowledged_is_committed.2 hreach
      (station_up hst) hwithin hpropose hproposed hrun (station_up hst₂) hok
    rw [hterm] at hcommits
    exact ⟨s', s'', hcommits, hafter.weaken fun _ _ _ => trivial⟩

end raft_engine.service
