-- Everything a step of the host can do to the log: nothing, an append, a
-- reconciliation, a new horizon, or a cut of the front. The invariants of the
-- log are proved from this description, not from the steps.
import LactoSensus.ClusterSteps
import LactoSensus.HostMoves

open common.types
open raft_engine.storage
open raft_engine.node
open raft_engine.engine
open raft_engine.consensus
open raft_engine.shell
open raft_engine.cluster

namespace raft_engine.orchestration

variable {α S X : Type} {cfg : HostConfig} {sm : SnapshotMachine α S} {h h' : SnapshotHost α S}
  {ln ln' : LogicalNode α} {sh sh' : ConsensusShell α}

/-! ## Steps that leave the log alone -/

/-- Only a snapshot past the applied index is accepted. -/
theorem acceptSnapshot_positive {depth : Nat} {params : SnapshotParams α} {timeout : Nat}
    (hok : (acceptSnapshot depth params timeout ln).2 = .ok true) :
    0 < params.last_included_index := by
  unfold acceptSnapshot LogicalNode.handle_install_snapshot at hok
  dsimp only at hok
  generalize ln.validate_leader_rpc_term params.term params.leader_id "InstallSnapshot" timeout = r
    at hok
  obtain ⟨ln', p | res⟩ := r
  · cases hok
  cases res with
  | Stale => cases hok
  | Valid =>
    dsimp only at hok
    split_ifs at hok with hle
    · cases hok
    · omega

theorem changeDepth_quiet (res : Except String Nat) (ln : LogicalNode α) :
    Quiet ln (changeDepth res ln).1 := by
  cases res with
  | ok depth => exact .refl ln
  | error e => exact (Quiet.refl ln).poison

theorem acceptSnapshot_quiet (depth : Nat) (params : SnapshotParams α) (timeout : Nat)
    (ln : LogicalNode α) : Quiet ln (acceptSnapshot depth params timeout ln).1 := by
  have h := handle_install_snapshot_quiet ln params.leader_id params.term
    params.last_included_index timeout
  unfold acceptSnapshot
  generalize ln.handle_install_snapshot params.leader_id params.term params.last_included_index
    timeout = r at h
  obtain ⟨ln', p | res⟩ := r
  · exact h
  dsimp only
  cases res.action with
  | Rejected => exact h
  | Stale => exact h
  | Accepted =>
    cases freeze depth with
    | ok d => exact h
    | error e => exact h.poison

/-! ## What a step does to the log -/

/-- The log of the host after a step. A panic after the change only poisons the
node, so each change is followed by a quiet one. -/
inductive LogStep (h : SnapshotHost α S) : HostAct α → LogicalNode α → Prop where
  | quiet {a : HostAct α} {ln' : LogicalNode α} (hq : Quiet h.node ln') : LogStep h a ln'
  | proposed (data : α) (l : Leader) (hl : h.node.node.state = .Leader l) :
      LogStep h (.Propose data) (onto h.node (h.node.node.append_entries
        [⟨h.node.last_log_index + 1, h.node.current_term, data⟩]))
  | merged (dst : NodeId) (req : AppendEntriesRequest α) (timeout : Nat)
      {ln₁ ln' : LogicalNode α} {f : Follower} {n : RaftNode α Follower}
      (hq : Quiet h.node ln₁) (hst : ln₁.node.state = .Follower f)
      (hc : ln₁.last_committed = h.node.last_committed)
      (ht : h.node.current_term ≤ req.term)
      (hv : (ln₁.node.transition f).verify_log_consistency req.prev_log_index
        req.prev_log_term = true)
      (hm : Merged (ln₁.node.transition f) req.entries req.leader_commit n)
      (hln : Quiet (ln₁.withRole n .Follower) ln') :
      LogStep h (.Deliver (.AppendEntries dst req) timeout) ln'
  | applied (index : Nat) {n : RaftNode α RoleState} (hadv : Advanced h.node.node index n) :
      LogStep h .Apply (onto h.node n)
  | saved (k i q : Nat) (hk : h.compactions[k]? = some (.Captured i q)) :
      LogStep h (.SaveMetadata k) (onto h.node (h.node.node.save_snapshot_metadata i q))
  | front (k i : Nat) (hk : h.compactions[k]? = some (.Saved i)) :
      LogStep h (.TruncateFront k)
        (onto h.node (h.node.node.write (SledStorage.truncate_log_front i)))
  | finalized (k : Nat) (params : SnapshotParams α) {n : RaftNode α RoleState}
      (hk : h.installations[k]? = some (.Restored params (.ok ())))
      (hadv : Advanced (h.node.node.save_snapshot_metadata params.last_included_index
        params.last_included_term) params.last_included_index n) :
      LogStep h (.Finalize k) (onto h.node n)

theorem serve_log {msg : Message α} {timeout : Nat} {dst : NodeId} {sends : List (Message α)}
    (hserve : serve h.process.shell timeout msg = some (dst, sh, sends)) :
    LogStep h (.Deliver msg timeout) sh.inner := by
  cases (serve_served hserve).1 with
  | quiet hq => exact .quiet hq
  | merged dst req hq hst hc ht hv hm hln =>
    exact .merged dst req timeout hq hst hc ht hv hm hln

theorem save_snapshot_metadata_eq (ln : LogicalNode α) (i q : Nat) :
    ln.save_snapshot_metadata i q =
      if ln.is_poisoned then (ln, .error .NodePoisoned)
      else (onto ln (ln.node.save_snapshot_metadata i q), .ok ()) := rfl

theorem finalizeSnapshot_cases (depth : Nat) (params : SnapshotParams α)
    (res : Except String Unit) (ln : LogicalNode α) :
    Quiet ln (finalizeSnapshot depth params res ln).1 ∧
      (∃ p, (finalizeSnapshot depth params res ln).2 = .error p) ∨
    res = .ok () ∧ ln.is_poisoned = false ∧ (finalizeSnapshot depth params res ln).2 = .ok () ∧
    ∃ n, Advanced (ln.node.save_snapshot_metadata params.last_included_index
        params.last_included_term) params.last_included_index n ∧
      (finalizeSnapshot depth params res ln).1 = onto ln n := by
  unfold finalizeSnapshot
  cases thaw depth with
  | error e => exact .inl ⟨(Quiet.refl ln).poison, _, rfl⟩
  | ok d =>
    cases res with
    | error e => exact .inl ⟨(Quiet.refl ln).poison, _, rfl⟩
    | ok u =>
      dsimp only
      rw [save_snapshot_metadata_eq]
      by_cases hp : ln.is_poisoned = true
      · rw [if_pos hp]
        exact .inl ⟨.refl ln, _, rfl⟩
      rw [if_neg hp]
      dsimp only
      -- the new horizon is within the log, so the advance succeeds
      have hlast : params.last_included_index ≤
          (onto ln (ln.node.save_snapshot_metadata params.last_included_index
            params.last_included_term)).last_log_index :=
        horizon_le_last (ln.node.save_snapshot_metadata params.last_included_index
          params.last_included_term).disk
      rcases node_advance_cases (onto ln (ln.node.save_snapshot_metadata
        params.last_included_index params.last_included_term)) params.last_included_index with
        ⟨hp', -⟩ | ⟨e, heq, hlt⟩ | ⟨n, heq, hadv⟩
      · exact absurd hp' hp
      · omega
      · rw [heq]
        exact .inr ⟨rfl, Bool.eq_false_iff.mpr hp, rfl, n, hadv, rfl⟩

variable {a : HostAct α}

/-- Where a compaction under way after a step comes from. -/
def CompactionFrom (h h' : SnapshotHost α S) (c : Compaction) : Prop :=
  c ∈ h.compactions ∨ c = .Truncated ∨
    c = .Captured h.node.last_applied (h.node.get_term_at h.node.last_applied) ∨
    ∃ i, c = .Saved i ∧ h'.disk.last_included_index = i

def Installation.params : Installation α → SnapshotParams α
  | .Accepted params => params
  | .Restored params _ => params

/-- Where an installation comes from; none is ever accepted for index zero. -/
def InstallationFrom (h : SnapshotHost α S) (x : Installation α) : Prop :=
  (∃ y ∈ h.installations, y.params = x.params) ∨ 0 < x.params.last_included_index

/-- The new horizon is written, or the node is poisoned. -/
theorem save_snapshot_metadata_cases {i q : Nat} {res : Except Panic Unit}
    (hw : (sh.write fun ln => ln.save_snapshot_metadata i q) = (sh', res)) :
    res = .ok () ∧ sh'.inner = onto sh.inner (sh.inner.node.save_snapshot_metadata i q) ∨
      (∃ p, res = .error p) ∧ sh'.inner = sh.inner.poison := by
  have hinner := ConsensusShell.inner_of_write hw
  have hres := ConsensusShell.result_of_write hw
  rw [save_snapshot_metadata_eq] at hinner hres
  by_cases hp : sh.inner.is_poisoned = true
  · rw [if_pos hp] at hinner hres
    exact .inr ⟨⟨_, hres⟩, hinner⟩
  · rw [if_neg hp] at hinner hres
    exact .inl ⟨hres, hinner⟩

theorem HostMove.log [DecidableEq α] (hm : HostMove cfg sm h a h') : LogStep h a h'.node := by
  cases hm with
  | ticked hw => exact .quiet (write_quiet hw (tickLocked_quiet _ _))
  | ran hk hrun => exact .quiet (runTask_stepped hrun).quiet
  | served hserve => exact serve_log hserve
  | proposed data =>
    change LogStep h (.Propose data) (h.process.shell.propose data).1.inner
    rcases (propose_stepped h.process.shell data).1 with ⟨-, hq⟩ | ⟨⟨l, hl⟩, -, heq⟩
    · exact .quiet hq
    · rw [heq]
      exact .proposed data l hl
  | probed hprobe =>
    have hq := prepare_probe_quiet h.process.shell
    rw [hprobe] at hq
    exact .quiet hq
  | unprobed hprobe hno =>
    have hq := prepare_probe_quiet h.process.shell
    rw [hprobe] at hq
    exact .quiet hq
  | @applied p fsm hrun =>
    change LogStep h .Apply p.shell.inner
    cases runApplier_step hrun with
    | start => exact .quiet (.refl _)
    | fetch => exact .quiet (.refl _)
    | finish => exact .quiet (.refl _)
    | apply => exact .quiet (.refl _)
    | @advance index n sh' _ hadv hsh =>
      change LogStep h .Apply sh'.inner
      rw [hsh]
      exact .applied index hadv
    | fatal hstep => exact .quiet hstep.quiet
  | @saved k i q sh hk hw =>
    change LogStep h (.SaveMetadata k) sh.inner
    rcases save_snapshot_metadata_cases hw with ⟨-, heq⟩ | ⟨⟨p, herr⟩, -⟩
    · rw [heq]
      exact .saved k i q hk
    · cases herr
  | @unsaved k i q sh p hk hw =>
    change LogStep h (.SaveMetadata k) sh.inner
    rcases save_snapshot_metadata_cases hw with ⟨hok, -⟩ | ⟨-, heq⟩
    · cases hok
    · rw [heq]
      exact .quiet (Quiet.refl _).poison
  | truncated hk => exact .front _ _ hk
  | thawed hk hw => exact .quiet (write_quiet hw (changeDepth_quiet _ _))
  | accepted hw => exact .quiet (write_quiet hw (acceptSnapshot_quiet _ _ _ _))
  | declined hw hno => exact .quiet (write_quiet hw (acceptSnapshot_quiet _ _ _ _))
  | restored hk hidle hfsm => exact .quiet (.refl _)
  | unrestored hk hidle hfsm => exact .quiet (.refl _)
  | @finalized k params restored sh res hk hw =>
    change LogStep h (.Finalize k) sh.inner
    rw [ConsensusShell.inner_of_write hw]
    rcases finalizeSnapshot_cases h.fsm_freeze_depth params restored h.process.shell.inner with
      ⟨hq, -⟩ | ⟨rfl, -, hok, n, hadv, heq⟩
    · exact .quiet hq.afterHandler
    · unfold afterHandler
      rw [hok, heq]
      exact .finalized k params hk hadv
  | begun hw => exact .quiet (write_quiet hw (changeDepth_quiet _ _))
  | unbegun hw => exact .quiet (write_quiet hw (changeDepth_quiet _ _))
  | ended hpos hw => exact .quiet (write_quiet hw (changeDepth_quiet _ _))
  | answered hw hno => exact .quiet (write_quiet hw (process_replication_response_quiet _ _ _ _ _))
  | unanswered hw => exact .quiet (write_quiet hw (process_replication_response_quiet _ _ _ _ _))

/-- A tick captures the applied index, when nothing is frozen, or it captures nothing. -/
theorem HostConfig.captured_cases (cfg : HostConfig) (h : SnapshotHost α S) :
    cfg.captured h = [] ∨ h.fsm_freeze_depth = 0 ∧
      cfg.captured h =
        [.Captured h.node.last_applied (h.node.get_term_at h.node.last_applied)] := by
  unfold HostConfig.captured compactionTarget
  split_ifs with hp hcompact
  · exact .inl rfl
  · refine .inr ⟨?_, rfl⟩
    unfold should_compact_log is_frozen at hcompact
    by_contra hne
    simp [Nat.pos_of_ne_zero hne] at hcompact
  · exact .inl rfl

theorem HostMove.compactionFrom [DecidableEq α] (hm : HostMove cfg sm h a h') :
    ∀ c ∈ h'.compactions, CompactionFrom h h' c := by
  intro c hc
  cases hm with
  | ticked hw =>
    rcases List.mem_append.mp hc with hnew | hold
    · rcases cfg.captured_cases h with hnone | ⟨-, hone⟩
      · rw [hnone] at hnew
        cases hnew
      · rw [hone] at hnew
        exact .inr (.inr (.inl (List.mem_singleton.mp hnew)))
    · exact .inl hold
  | @saved k i q sh hk hw =>
    rcases List.mem_or_eq_of_mem_set hc with hold | rfl
    · exact .inl hold
    · refine .inr (.inr (.inr ⟨i, rfl, ?_⟩))
      change sh.inner.node.disk.last_included_index = i
      rcases save_snapshot_metadata_cases hw with ⟨-, heq⟩ | ⟨⟨p, herr⟩, -⟩
      · rw [heq]
        rfl
      · cases herr
  | unsaved hk hw => exact .inl (List.mem_of_mem_eraseIdx hc)
  | truncated hk =>
    rcases List.mem_or_eq_of_mem_set hc with hold | rfl
    · exact .inl hold
    · exact .inr (.inl rfl)
  | thawed hk hw => exact .inl (List.mem_of_mem_eraseIdx hc)
  | _ => exact .inl hc

theorem HostMove.installationFrom [DecidableEq α] (hm : HostMove cfg sm h a h') :
    ∀ x ∈ h'.installations, InstallationFrom h x := by
  intro x hx
  cases hm with
  | @accepted params timeout sh hw =>
    rcases List.mem_append.mp hx with hold | hnew
    · exact .inl ⟨x, hold, rfl⟩
    · obtain rfl := List.mem_singleton.mp hnew
      have hres := h.process.shell.write_result fun ln =>
        acceptSnapshot h.fsm_freeze_depth params timeout ln
      rw [hw] at hres
      exact .inr (acceptSnapshot_positive hres.symm)
  | @restored k params fsm hk hidle hfsm =>
    rcases List.mem_or_eq_of_mem_set hx with hold | rfl
    · exact .inl ⟨x, hold, rfl⟩
    · exact .inl ⟨.Accepted params, List.mem_of_getElem? hk, rfl⟩
  | @unrestored k params e hk hidle hfsm =>
    rcases List.mem_or_eq_of_mem_set hx with hold | rfl
    · exact .inl ⟨x, hold, rfl⟩
    · exact .inl ⟨.Accepted params, List.mem_of_getElem? hk, rfl⟩
  | finalized hk hw => exact .inl ⟨x, List.mem_of_mem_eraseIdx hx, rfl⟩
  | _ => exact .inl ⟨x, hx, rfl⟩

/-- The log after a step, and where the tasks under way come from. -/
theorem hostStep_cases [DecidableEq α] (hs : hostStep cfg sm h a = some h') :
    LogStep h a h'.node ∧ (∀ c ∈ h'.compactions, CompactionFrom h h' c) ∧
      ∀ x ∈ h'.installations, InstallationFrom h x := by
  have hm := hostStep_moves hs
  exact ⟨hm.log, hm.compactionFrom, hm.installationFrom⟩

/-! ## What a step leaves alone -/

theorem write_error_poisoned {f : LogicalNode α → Handled α X} {p : Panic}
    (hw : sh.write f = (sh', .error p)) : sh'.inner.is_poisoned = true := by
  rw [ConsensusShell.inner_of_write hw]
  unfold afterHandler
  rw [← ConsensusShell.result_of_write hw]
  exact is_poisoned_poison _

theorem LogStep.halted (hlog : LogStep h a ln') (hp : h.node.is_poisoned = true) :
    ln'.is_poisoned = true := by
  cases hlog with
  | quiet hq => exact hq.halted hp
  | proposed data l hl => exact halted_elim hl (by simp) hp
  | merged dst req timeout hq hst hc ht hv hm hln => exact halted_elim hst (by simp) (hq.halted hp)
  | applied index hadv =>
    unfold LogicalNode.is_poisoned onto
    rw [hadv.state]
    exact hp
  | saved k i q hk => exact hp
  | front k i hk => exact hp
  | finalized k params hk hadv =>
    unfold LogicalNode.is_poisoned onto
    rw [hadv.state]
    exact hp

/-- A host that is healthy after a step was healthy before it. -/
theorem hostStep_healthy [DecidableEq α] (hs : hostStep cfg sm h a = some h')
    (hp : h'.node.is_poisoned = false) : h.node.is_poisoned = false := by
  by_contra hnot
  have := (hostStep_cases hs).1.halted (by simpa using hnot)
  rw [hp] at this
  cases this

/-- Only the applier and a finalisation move the applied index. -/
theorem LogStep.last_applied (hlog : LogStep h a ln') (hnot : a ≠ .Apply)
    (hfin : ∀ k, a ≠ .Finalize k) : ln'.last_applied = h.node.last_applied := by
  cases hlog with
  | quiet hq => exact hq.applied
  | proposed data l hl => rfl
  | @merged dst req timeout ln₁ _ f n hq hst hc ht hv hm hln =>
    calc ln'.last_applied = n.last_applied := hln.applied
      _ = ln₁.last_applied := hm.frame.1
      _ = h.node.last_applied := hq.applied
  | applied i hadv => exact absurd rfl hnot
  | saved k i q hk => rfl
  | front k i hk => rfl
  | finalized k params hk hadv => exact absurd rfl (hfin k)

/-- An entry stays unless the front is cut past it or a request cuts below it. -/
theorem LogStep.keeps {k : Nat} {e : LogEntry α} (hlog : LogStep h a ln')
    (he : h.disk.read_entry k = some e) (hfront : ∀ i, .Saved i ∈ h.compactions → i < k)
    (hcut : ∀ dst req timeout, a = .Deliver (.AppendEntries dst req) timeout →
      CutsAbove k h.node req) : ln'.node.disk.read_entry k = some e := by
  have hsame : ∀ {ln ln' : LogicalNode α}, Quiet ln ln' →
      ln.node.disk.read_entry k = some e → ln'.node.disk.read_entry k = some e := by
    intro ln ln' hq he
    unfold SledStorage.read_entry
    rw [hq.log]
    exact he
  have hadvanced : ∀ {n n' : RaftNode α RoleState} {i : Nat}, Advanced n i n' →
      n.disk.read_entry k = some e → n'.disk.read_entry k = some e := by
    intro n n' i hadv he
    unfold SledStorage.read_entry
    rw [hadv.log]
    exact he
  cases hlog with
  | quiet hq => exact hsame hq he
  | proposed data l hl =>
    have hes : Consecutive h.disk.last_log_index
        [⟨h.node.last_log_index + 1, h.node.current_term, data⟩] := ⟨rfl, trivial⟩
    exact append_entries_keeps hes he
  | @merged dst req timeout ln₁ _ f n hq hst hc ht hv hm hln =>
    refine hsame hln (hm.keeps (fun e₁ he₁ => ?_) (hsame hq he))
    exact (hcut dst req timeout rfl).after hq ht hv he₁
  | applied i hadv => exact hadvanced hadv he
  | saved k i q hk => exact he
  | front j i hk =>
    have hi := hfront i (List.mem_of_getElem? hk)
    change (h.disk.truncate_log_front i).read_entry k = some e
    unfold SledStorage.read_entry at he ⊢
    rw [truncate_log_front_get?, if_neg (by omega)]
    exact he
  | finalized j params hk hadv => exact hadvanced hadv he

/-- The index up to which a compaction cuts the log. -/
def Compaction.target : Compaction → Nat
  | .Captured index _ => index
  | .Saved index => index
  | .Truncated => 0

theorem hostStep_saved [DecidableEq α] (hs : hostStep cfg sm h a = some h') {i : Nat}
    (hmem : .Saved i ∈ h'.compactions) :
    .Saved i ∈ h.compactions ∨ ∃ q, .Captured i q ∈ h.compactions := by
  cases hostStep_moves hs with
  | ticked hw =>
    rcases List.mem_append.mp hmem with hnew | hold
    · obtain ⟨t, -, hno⟩ := List.mem_map.mp hnew
      cases hno
    · exact .inl hold
  | @saved k j q sh hk hw =>
    rcases List.mem_or_eq_of_mem_set hmem with hold | hnew
    · exact .inl hold
    · obtain rfl := Compaction.Saved.inj hnew
      exact .inr ⟨q, List.mem_of_getElem? hk⟩
  | unsaved hk hw => exact .inl (List.mem_of_mem_eraseIdx hmem)
  | truncated hk =>
    rcases List.mem_or_eq_of_mem_set hmem with hold | hnew
    · exact .inl hold
    · cases hnew
  | thawed hk hw => exact .inl (List.mem_of_mem_eraseIdx hmem)
  | _ => exact .inl hmem

/-- A compaction keeps the target that it started with: the applied index. -/
theorem hostStep_targets [DecidableEq α] (hs : hostStep cfg sm h a = some h') {bound : Nat}
    (hle : h.node.last_applied ≤ bound) (hold : ∀ c ∈ h.compactions, c.target ≤ bound) :
    ∀ c ∈ h'.compactions, c.target ≤ bound := by
  obtain ⟨-, hfrom, -⟩ := hostStep_cases hs
  intro c hc
  rcases hfrom c hc with hmem | rfl | rfl | ⟨i, rfl, -⟩
  · exact hold c hmem
  · exact Nat.zero_le _
  · exact hle
  · rcases hostStep_saved hs hc with hmem | ⟨q, hmem⟩
    · exact hold _ hmem
    · exact hold (.Captured i q) hmem

/-- A finalisation poisons the node, or it has installed its snapshot. -/
theorem finalize_cases [DecidableEq α] {k : Nat} (hs : hostStep cfg sm h (.Finalize k) = some h') :
    ∃ params res, h.installations[k]? = some (.Restored params res) ∧
      h'.installations = h.installations.eraseIdx k ∧
      (Quiet h.node h'.node ∧ h'.node.is_poisoned = true ∨
        res = .ok () ∧ h.node.is_poisoned = false ∧
        ∃ n, Advanced (h.node.node.save_snapshot_metadata params.last_included_index
          params.last_included_term) params.last_included_index n ∧ h'.node = onto h.node n) := by
  cases hostStep_moves hs with
  | @finalized _ params res sh res' hk hw =>
  have hinner := ConsensusShell.inner_of_write hw
  refine ⟨params, res, hk, rfl, ?_⟩
  change Quiet h.process.shell.inner sh.inner ∧ sh.inner.is_poisoned = true ∨
    _ ∧ _ ∧ ∃ n, _ ∧ sh.inner = _
  rcases finalizeSnapshot_cases h.fsm_freeze_depth params res h.process.shell.inner with
    ⟨hq, p, herr⟩ | ⟨rfl, hp, hok, n, hadv, heq⟩
  · refine .inl ⟨?_, ?_⟩
    · rw [hinner]
      exact hq.afterHandler
    · rw [hinner]
      unfold afterHandler
      rw [herr]
      exact is_poisoned_poison _
  · unfold afterHandler at hinner
    rw [hok, heq] at hinner
    exact .inr ⟨rfl, hp, n, hadv, hinner⟩

/-- On a node that stays healthy a compaction ends with its thaw only, an installation with
its finalisation. -/
theorem hostStep_pending [DecidableEq α] (hs : hostStep cfg sm h a = some h')
    (hp : h'.node.is_poisoned = false) :
    ((∀ k, a ≠ .ThawCompaction k) → h.compactions ≠ [] → h'.compactions ≠ []) ∧
      ((∀ k, a ≠ .Finalize k) → h.installations ≠ [] → h'.installations ≠ []) := by
  cases hostStep_moves hs with
  | ticked hw => exact ⟨fun _ hc => by simp [hc], fun _ hi => hi⟩
  | saved hk hw => exact ⟨fun _ hc => by simpa using hc, fun _ hi => hi⟩
  | @unsaved k i q sh p hk hw =>
    have hpoison : sh.inner.is_poisoned = true := write_error_poisoned hw
    rw [show sh.inner.is_poisoned = false from hp] at hpoison
    cases hpoison
  | truncated hk => exact ⟨fun _ hc => by simpa using hc, fun _ hi => hi⟩
  | @thawed k sh res hk hw => exact ⟨fun hno => absurd rfl (hno k), fun _ hi => hi⟩
  | accepted hw => exact ⟨fun _ hc => hc, fun _ _ => by simp⟩
  | restored hk hidle hfsm => exact ⟨fun _ hc => hc, fun _ hi => by simpa using hi⟩
  | unrestored hk hidle hfsm => exact ⟨fun _ hc => hc, fun _ hi => by simpa using hi⟩
  | @finalized k params res sh res' hk hw =>
    exact ⟨fun _ hc => hc, fun hno => absurd rfl (hno k)⟩
  | _ => exact ⟨fun _ hc => hc, fun _ hi => hi⟩

/-- Only the applier moves itself, and only it and a restoration touch the store. -/
theorem hostStep_aside [DecidableEq α] (hs : hostStep cfg sm h a = some h') (hnot : a ≠ .Apply) :
    h'.process.applier = h.process.applier ∧ ((∀ k, a ≠ .Restore k) → h'.fsm = h.fsm) := by
  cases hostStep_moves hs with
  | applied hrun => exact absurd rfl hnot
  | @restored k params fsm hk hidle hfsm => exact ⟨rfl, fun hno => absurd rfl (hno k)⟩
  | _ => exact ⟨rfl, fun _ => rfl⟩

/-! ## The freeze depth -/

/-- The operations that have frozen the state machine and have not thawed it. -/
def SnapshotHost.inProgress (h : SnapshotHost α S) : Nat :=
  h.compactions.length + h.transfers + h.installations.length

theorem freeze_ok {depth depth' : Nat} (hf : freeze depth = .ok depth') : depth' = depth + 1 := by
  unfold freeze at hf
  split at hf
  · cases hf
  · exact (Except.ok.inj hf).symm

theorem thaw_pos {depth : Nat} (hd : 0 < depth) : thaw depth = .ok (depth - 1) := by
  unfold thaw
  rw [if_neg (by omega)]

/-- What one step does to the depth and to the operations it counts. -/
structure DepthStep (h h' : SnapshotHost α S) : Prop where
  /-- A task that panics leaves its freeze behind. -/
  le : h.inProgress ≤ h.fsm_freeze_depth → h'.inProgress ≤ h'.fsm_freeze_depth
  eq : h'.node.is_poisoned = false → h.inProgress = h.fsm_freeze_depth →
    h'.inProgress = h'.fsm_freeze_depth
  alone : h.inProgress ≤ h.fsm_freeze_depth → h.compactions.length ≤ 1 →
    h'.compactions.length ≤ 1

theorem DepthStep.same (hc : h'.compactions.length = h.compactions.length)
    (ht : h'.transfers = h.transfers) (hi : h'.installations.length = h.installations.length)
    (hd : h'.fsm_freeze_depth = h.fsm_freeze_depth) : DepthStep h h' := by
  have hin : h'.inProgress = h.inProgress := by
    unfold SnapshotHost.inProgress
    rw [hc, ht, hi]
  refine ⟨fun hle => ?_, fun _ heq => ?_, fun _ hone => ?_⟩
  · rw [hin, hd]
    exact hle
  · rw [hin, hd]
    exact heq
  · rw [hc]
    exact hone

/-- One more operation and one more freeze. -/
theorem DepthStep.frozen (hin : h'.inProgress = h.inProgress + 1)
    (hd : h'.fsm_freeze_depth = h.fsm_freeze_depth + 1)
    (hc : h.inProgress ≤ h.fsm_freeze_depth → h.compactions.length ≤ 1 →
      h'.compactions.length ≤ 1) : DepthStep h h' := by
  refine ⟨fun hle => ?_, fun _ heq => ?_, hc⟩ <;> omega

/-- One operation less and one thaw. -/
theorem DepthStep.thawed (hin : h'.inProgress + 1 = h.inProgress)
    (hd : h'.fsm_freeze_depth = depthAfter h.fsm_freeze_depth (thaw h.fsm_freeze_depth))
    (hc : h'.compactions.length ≤ h.compactions.length) : DepthStep h h' := by
  have hthaw : 0 < h.fsm_freeze_depth → h'.fsm_freeze_depth = h.fsm_freeze_depth - 1 := by
    intro hpos
    rw [hd, thaw_pos hpos]
    rfl
  refine ⟨fun hle => ?_, fun _ heq => ?_, fun _ hone => hc.trans hone⟩
  · have := hthaw (by omega)
    omega
  · have := hthaw (by omega)
    omega

theorem acceptSnapshot_frozen {depth : Nat} {params : SnapshotParams α} {timeout : Nat}
    (hok : (acceptSnapshot depth params timeout ln).2 = .ok true) :
    depthAfter depth (freeze depth) = depth + 1 := by
  unfold acceptSnapshot at hok
  generalize ln.handle_install_snapshot params.leader_id params.term params.last_included_index
    timeout = r at hok
  obtain ⟨ln', p | res⟩ := r
  · cases hok
  dsimp only at hok
  cases haction : res.action with
  | Rejected =>
    rw [haction] at hok
    cases hok
  | Stale =>
    rw [haction] at hok
    cases hok
  | Accepted =>
    rw [haction] at hok
    cases hf : freeze depth with
    | error e =>
      rw [hf] at hok
      cases hok
    | ok d => exact freeze_ok hf

theorem hostStep_depth [DecidableEq α] (hs : hostStep cfg sm h a = some h') : DepthStep h h' := by
  cases hostStep_moves hs with
  | ticked hw =>
    rcases cfg.captured_cases h with hnone | ⟨hzero, hone⟩
    · exact .same (by simp [hnone]) rfl rfl (by simp [hnone])
    · -- a compaction starts only when nothing is frozen
      refine .frozen ?_ (by simp [hone]) fun hle hone' => ?_
      · unfold SnapshotHost.inProgress
        simp only [hone, List.cons_append, List.nil_append, List.length_cons]
        omega
      · unfold SnapshotHost.inProgress at hle
        simp only [hone, List.cons_append, List.nil_append, List.length_cons]
        omega
  | saved hk hw => exact .same (by simp) rfl rfl rfl
  | @unsaved k i q sh p hk hw =>
    -- the node is poisoned
    have hpoison : sh.inner.is_poisoned = true := write_error_poisoned hw
    have hle := List.length_eraseIdx_le h.compactions k
    refine ⟨fun hold => ?_, fun hp => ?_, fun _ hone => hle.trans hone⟩
    · unfold SnapshotHost.inProgress at hold ⊢
      dsimp only [SnapshotHost.withShell]
      omega
    · rw [show sh.inner.is_poisoned = false from hp] at hpoison
      cases hpoison
  | truncated hk => exact .same (by simp) rfl rfl rfl
  | thawed hk hw =>
    have hlt := (List.getElem?_eq_some_iff.mp hk).1
    refine .thawed ?_ rfl (List.length_eraseIdx_le _ _)
    unfold SnapshotHost.inProgress
    dsimp only [SnapshotHost.withShell]
    rw [List.length_eraseIdx_of_lt hlt]
    omega
  | @accepted params timeout sh hw =>
    have hres := h.process.shell.write_result fun ln =>
      acceptSnapshot h.fsm_freeze_depth params timeout ln
    rw [hw] at hres
    refine .frozen ?_ (acceptSnapshot_frozen hres.symm) fun _ hone => hone
    unfold SnapshotHost.inProgress
    dsimp only [SnapshotHost.withShell]
    rw [List.length_append, List.length_singleton]
    omega
  | restored hk hidle hfsm => exact .same rfl rfl (by simp) rfl
  | unrestored hk hidle hfsm => exact .same rfl rfl (by simp) rfl
  | finalized hk hw =>
    have hlt := (List.getElem?_eq_some_iff.mp hk).1
    refine .thawed ?_ rfl le_rfl
    unfold SnapshotHost.inProgress
    dsimp only [SnapshotHost.withShell]
    rw [List.length_eraseIdx_of_lt hlt]
    omega
  | begun hw =>
    have hres := h.process.shell.write_result fun ln =>
      changeDepth (freeze h.fsm_freeze_depth) ln
    rw [hw] at hres
    cases hf : freeze h.fsm_freeze_depth with
    | error e =>
      rw [hf] at hres
      cases hres
    | ok d =>
      refine .frozen ?_ (freeze_ok hf) fun _ hone => hone
      unfold SnapshotHost.inProgress
      dsimp only [SnapshotHost.withShell]
      omega
  | ended hpos hw =>
    refine .thawed ?_ rfl le_rfl
    unfold SnapshotHost.inProgress
    dsimp only [SnapshotHost.withShell]
    omega
  | _ => exact .same rfl rfl rfl rfl

end raft_engine.orchestration
