-- What a step of a running process can do to its shell, described once: most
-- steps run a handler under the guard that leaves the log alone; a proposal, a
-- reconciliation and the applier do more, each in one way.
import LactoSensus.Handlers
import LactoSensus.HorizonLog
import LactoSensus.Tasks

open common.types
open ordmap
open raft_engine.storage
open raft_engine.node
open raft_engine.engine
open raft_engine.consensus
open raft_engine.shell
open raft_engine.roles

namespace raft_engine.cluster

variable {α S X : Type} {ln ln' : LogicalNode α} {sh sh' : ConsensusShell α}

/-! ## Steps that leave the log alone -/

theorem tickLocked_quiet (ln : LogicalNode α) (timeout : Nat) :
    Quiet ln (tickLocked ln timeout).1 := by
  have htick := tick_quiet ln
  unfold tickLocked
  generalize ln.tick = r at htick
  obtain ⟨ln₁, action⟩ := r
  dsimp only
  split
  · exact htick
  cases action with
  | StartElection =>
    have h := htick.trans (begin_campaign_quiet ln₁ timeout)
    dsimp only
    generalize begin_campaign ln₁ timeout = r at h
    obtain ⟨ln₂, e | params⟩ := r <;> exact h
  | StartPreVote => exact htick.trans (into_pre_candidate_quiet ln₁)
  | SendHeartbeat => exact htick
  | StepDown => exact htick
  | Stop => exact htick
  | None => exact htick

/-- The shell was left alone, or a handler that leaves the log alone ran under the guard. -/
inductive Stepped (sh : ConsensusShell α) : ConsensusShell α → Prop where
  | same : Stepped sh sh
  | wrote {X : Type} (f : LogicalNode α → Handled α X) (hf : Quiet sh.inner (f sh.inner).1) :
      Stepped sh (sh.write f).1

theorem Stepped.of_write {f : LogicalNode α → Handled α X} {res : Except Panic X}
    (hw : sh.write f = (sh', res)) (hf : Quiet sh.inner (f sh.inner).1) : Stepped sh sh' := by
  have h : Stepped sh (sh.write f).1 := .wrote f hf
  rw [hw] at h
  exact h

theorem Stepped.quiet (h : Stepped sh sh') : Quiet sh.inner sh'.inner := by
  cases h with
  | same => exact .refl _
  | wrote f hf =>
    rw [ConsensusShell.write_inner]
    exact hf.afterHandler

theorem Stepped.published (h : Stepped sh sh') (hp : Published sh) : Published sh' := by
  cases h with
  | same => exact hp
  | wrote f hf => exact hp.write f

theorem write_quiet {f : LogicalNode α → Handled α X} {res : Except Panic X}
    (hw : sh.write f = (sh', res)) (hf : Quiet sh.inner (f sh.inner).1) :
    Quiet sh.inner sh'.inner :=
  (Stepped.of_write hw hf).quiet

theorem runTask_stepped [DecidableEq α] {c : Config} {n peer : NodeId} {reply : Option (Message α)}
    {timeout : Nat} {task : SpawnedTask α} {tasks : List (SpawnedTask α)}
    {sends : List (Message α)}
    (hrun : runTask c n sh peer reply timeout task = some (sh', tasks, sends)) :
    Stepped sh sh' := by
  cases (runTask_ran hrun).step with
  | idle => exact .same
  | steppedDown =>
    refine .wrote _ ?_
    unfold stepDown
    split
    · exact .refl _
    · exact into_follower_quiet _ _ _ _
  | observed req pending granted resp => exact .wrote _ (observe_pre_vote_term_quiet _ _ _)
  | stood => exact .wrote _ (begin_campaign_quiet _ _)
  | counted params => exact .wrote _ (process_vote_response_quiet _ _ _ _ _ _)
  | promoted => exact .wrote _ (into_leader_quiet _ _)
  | prepared params => exact .wrote _ (prepare_replication_quiet _ peer params)
  | responded params => exact .wrote _ (process_replication_response_quiet _ _ _ _ _)
  | failed err => exact .wrote _ (Quiet.refl _).poison

/-! ## The applied index -/

/-- `advance_horizon_after_snapshot` done: the index is applied and committed. -/
structure Advanced {R : Type} (n : RaftNode α R) (index : Nat) (n' : RaftNode α R) : Prop where
  log : n'.disk.log = n.disk.log
  snapshot_index : n'.disk.key_snapshot_index = n.disk.key_snapshot_index
  snapshot_term : n'.disk.key_snapshot_term = n.disk.key_snapshot_term
  term : n'.current_term = n.current_term
  state : n'.state = n.state
  applied : n'.last_applied = index
  store : n'.log_store = n.log_store ∨
    n.last_committed < index ∧
      n'.log_store = n.log_store.write (SledStorage.save_last_committed index)
  committed : index ≤ n.last_committed ∧ n'.last_committed = n.last_committed ∨
    n.last_committed < index ∧ index ≤ n.last_log_index ∧ n'.last_committed = index
  durable : n.last_committed = n.disk.last_committed → n'.last_committed = n'.disk.last_committed

theorem advance_horizon_cases {R : Type} (n : RaftNode α R) (index : Nat) :
    (∃ e, n.advance_horizon_after_snapshot index = (n, .error e) ∧ n.last_log_index < index) ∨
    ∃ n', n.advance_horizon_after_snapshot index = (n', .ok ()) ∧ Advanced n index n' := by
  unfold RaftNode.advance_horizon_after_snapshot RaftNode.update_commit_index_only
  dsimp only
  by_cases hlt : index < n.last_committed
  · rw [if_pos hlt]
    exact .inr ⟨_, rfl, rfl, rfl, rfl, rfl, rfl, rfl, .inl rfl, .inl ⟨hlt.le, rfl⟩, id⟩
  rw [if_neg hlt]
  by_cases hgt : index > n.last_log_index
  · rw [if_pos hgt]
    exact .inl ⟨_, rfl, hgt⟩
  rw [if_neg hgt]
  by_cases hup : index > n.last_committed
  · rw [if_pos hup]
    exact .inr ⟨_, rfl, rfl, rfl, rfl, rfl, rfl, rfl, .inr ⟨hup, rfl⟩,
      .inr ⟨hup, not_lt.mp hgt, rfl⟩, fun _ => rfl⟩
  · rw [if_neg hup]
    exact .inr ⟨_, rfl, rfl, rfl, rfl, rfl, rfl, rfl, .inl rfl, .inl ⟨not_lt.mp hup, rfl⟩, id⟩

/-- The node with another physical node under it. -/
def onto (ln : LogicalNode α) (n : RaftNode α RoleState) : LogicalNode α := { ln with node := n }

theorem node_advance_cases (ln : LogicalNode α) (index : Nat) :
    (ln.is_poisoned = true ∧
      ln.advance_horizon_after_snapshot index = (ln, .error .NodePoisoned)) ∨
    (∃ e, ln.advance_horizon_after_snapshot index = (ln, .ok (.error e)) ∧
      ln.last_log_index < index) ∨
    ∃ n, ln.advance_horizon_after_snapshot index = (onto ln n, .ok (.ok ())) ∧
      Advanced ln.node index n := by
  unfold LogicalNode.advance_horizon_after_snapshot
  split
  · rename_i hp
    exact .inl ⟨hp, rfl⟩
  rcases advance_horizon_cases ln.node index with ⟨e, heq, hlt⟩ | ⟨n, heq, hadv⟩
  · rw [heq]
    exact .inr (.inl ⟨e, rfl, hlt⟩)
  · rw [heq]
    exact .inr (.inr ⟨n, rfl, hadv⟩)

theorem read_one (d : SledStorage α) (k : Nat) (entry : LogEntry α) (rest : List (LogEntry α))
    (h : d.read_entries k k = .ok (entry :: rest)) : d.read_entry k = some entry := by
  unfold SledStorage.read_entries at h
  split_ifs at h with h0 h1
  · cases h
  have hmem : entry ∈ d.log.range k k := by
    rw [Except.ok.inj h]
    exact List.mem_cons_self
  unfold OrdMap.range OrdMap.values at hmem
  obtain ⟨⟨j, e⟩, hj, rfl⟩ := List.mem_map.mp hmem
  obtain ⟨hin, hk⟩ := List.mem_filter.mp hj
  simp only [decide_eq_true_eq] at hk
  obtain rfl : j = k := le_antisymm hk.2 hk.1
  exact (d.log.get?_eq_some_iff j e).mpr hin

/-- What the applier does when it is given the processor. -/
inductive ApplierStep (sm : StateMachine α S) (p : Process α) (fsm : S) :
    Process α → S → Prop where
  | start (hidle : p.applier = .Idle) (hp : p.shell.inner.is_poisoned = false)
      (hle : p.shell.inner.last_applied ≤ p.shell.inner.last_committed) :
      ApplierStep sm p fsm
        { p with applier := .Looping p.shell.inner.last_applied p.shell.inner.last_committed } fsm
  | fetch {applied committed : Nat} {e : LogEntry α}
      (hloop : p.applier = .Looping applied committed) (hlt : applied < committed)
      (he : p.shell.inner.node.disk.read_entry (applied + 1) = some e) :
      ApplierStep sm p fsm { p with applier := .Fetched (applied + 1) e.data } fsm
  | finish {applied committed : Nat} (hloop : p.applier = .Looping applied committed)
      (hge : committed ≤ applied) : ApplierStep sm p fsm { p with applier := .Idle } fsm
  | apply {next_idx : Nat} {data : α} {fsm' : S} (hfetched : p.applier = .Fetched next_idx data)
      (happly : sm.apply fsm next_idx data = .ok fsm') :
      ApplierStep sm p fsm { p with applier := .Applied next_idx } fsm'
  | advance {next_idx : Nat} {n : RaftNode α RoleState} {sh : ConsensusShell α}
      (happlied : p.applier = .Applied next_idx) (hadv : Advanced p.shell.inner.node next_idx n)
      (hsh : sh.inner = onto p.shell.inner n) (hpub : Published p.shell → Published sh) :
      ApplierStep sm p fsm { p with shell := sh, applier := .Looping next_idx n.last_committed } fsm
  /-- A failure: the node is poisoned, and the applier is gone. -/
  | fatal {sh : ConsensusShell α} (hs : Stepped p.shell sh) (hp : sh.inner.is_poisoned = true) :
      ApplierStep sm p fsm { p with shell := sh, applier := .Idle } fsm

/-- What the applier does under the lock with an entry that is applied. -/
def recordApplied (next_idx : Nat) (ln : LogicalNode α) : Handled α Nat :=
  match ln.advance_horizon_after_snapshot next_idx with
  | (ln, .ok (.ok ())) => (ln, .ok ln.last_committed)
  | (ln, .ok (.error e)) => ln.apply_fatal e
  | (ln, .error pn) => (ln, .error pn)

theorem runApplier_applied {sm : StateMachine α S} {p : Process α} {fsm : S} {next_idx : Nat}
    (happ : p.applier = .Applied next_idx) :
    runApplier sm p fsm =
      match p.shell.write (recordApplied next_idx) with
      | (sh, .ok committed) =>
        some ({ p with shell := sh, applier := .Looping next_idx committed }, fsm)
      | (sh, .error _) => some ({ p with shell := sh, applier := .Idle }, fsm) := by
  unfold runApplier
  rw [happ]
  rfl

theorem runApplier_step {sm : StateMachine α S} {p p' : Process α} {fsm fsm' : S}
    (hrun : runApplier sm p fsm = some (p', fsm')) : ApplierStep sm p fsm p' fsm' := by
  have hfatal : ∀ err : NodeError, ApplierStep sm p fsm { p with
      shell := (p.shell.write fun ln => (ln.apply_fatal err : Handled α Unit)).1
      applier := .Idle } fsm := by
    intro err
    refine .fatal (.wrote _ (Quiet.refl _).poison) ?_
    rw [ConsensusShell.write_inner]
    exact is_poisoned_poison _
  cases happ : p.applier with
  | Idle =>
    unfold runApplier at hrun
    rw [happ] at hrun
    dsimp only at hrun
    split at hrun
    · cases hrun
    rename_i hp
    split at hrun
    · obtain ⟨rfl, rfl⟩ := Prod.mk.inj (Option.some.inj hrun)
      exact hfatal _
    · rename_i hle
      obtain ⟨rfl, rfl⟩ := Prod.mk.inj (Option.some.inj hrun)
      exact .start happ (Bool.eq_false_iff.mpr hp) (not_lt.mp hle)
  | Looping applied committed =>
    unfold runApplier at hrun
    rw [happ] at hrun
    dsimp only at hrun
    split at hrun
    swap
    · rename_i hge
      obtain ⟨rfl, rfl⟩ := Prod.mk.inj (Option.some.inj hrun)
      exact .finish happ (not_lt.mp hge)
    rename_i hlt
    split at hrun
    · obtain ⟨rfl, rfl⟩ := Prod.mk.inj (Option.some.inj hrun)
      exact hfatal _
    rename_i hadd
    obtain ⟨rfl, -⟩ := checked_add_ok hadd
    split at hrun
    · obtain ⟨rfl, rfl⟩ := Prod.mk.inj (Option.some.inj hrun)
      exact hfatal _
    · obtain ⟨rfl, rfl⟩ := Prod.mk.inj (Option.some.inj hrun)
      exact hfatal _
    · rename_i e rest hread
      obtain ⟨rfl, rfl⟩ := Prod.mk.inj (Option.some.inj hrun)
      exact .fetch happ hlt (read_one _ _ _ _ hread)
  | Fetched next_idx data =>
    unfold runApplier at hrun
    rw [happ] at hrun
    dsimp only at hrun
    split at hrun
    · rename_i fsm₁ happly
      obtain ⟨rfl, rfl⟩ := Prod.mk.inj (Option.some.inj hrun)
      exact .apply happ happly
    · obtain ⟨rfl, rfl⟩ := Prod.mk.inj (Option.some.inj hrun)
      exact hfatal _
  | Applied next_idx =>
    rw [runApplier_applied happ] at hrun
    let f : LogicalNode α → Handled α Nat := recordApplied next_idx
    have hinner := p.shell.write_inner f
    have hres := p.shell.write_result f
    have hpub : Published p.shell → Published (p.shell.write f).1 := fun h => h.write f
    have hstep : Quiet p.shell.inner (f p.shell.inner).1 → Stepped p.shell (p.shell.write f).1 :=
      .wrote f
    rcases node_advance_cases p.shell.inner next_idx with ⟨hp, heq⟩ | ⟨e, heq, -⟩ | ⟨n, heq, hadv⟩
    · have hf : f p.shell.inner = (p.shell.inner, .error .NodePoisoned) := by
        simp only [f, recordApplied, heq]
      rw [hf] at hinner hres hstep
      generalize p.shell.write _ = r at hrun hinner hres hstep
      obtain ⟨sh, res⟩ := r
      obtain rfl : res = .error .NodePoisoned := hres
      obtain ⟨rfl, rfl⟩ := Prod.mk.inj (Option.some.inj hrun)
      refine .fatal (hstep (.refl _)) ?_
      change sh.inner = _ at hinner
      rw [hinner]
      exact is_poisoned_poison _
    · have hf : f p.shell.inner = p.shell.inner.apply_fatal e := by
        simp only [f, recordApplied, heq]
      rw [hf] at hinner hres hstep
      generalize p.shell.write _ = r at hrun hinner hres hstep
      obtain ⟨sh, res⟩ := r
      change res = .error _ at hres
      subst hres
      obtain ⟨rfl, rfl⟩ := Prod.mk.inj (Option.some.inj hrun)
      refine .fatal (hstep (Quiet.refl _).poison) ?_
      change sh.inner = _ at hinner
      rw [hinner]
      exact is_poisoned_poison _
    · have hf : f p.shell.inner = (onto p.shell.inner n, .ok n.last_committed) := by
        simp only [f, recordApplied, heq]
        rfl
      rw [hf] at hinner hres
      generalize p.shell.write _ = r at hrun hinner hres hpub
      obtain ⟨sh, res⟩ := r
      obtain rfl : res = .ok n.last_committed := hres
      obtain ⟨rfl, rfl⟩ := Prod.mk.inj (Option.some.inj hrun)
      exact .advance happ hadv hinner hpub

/-- Only the first step can panic: it reads the node, which is poisoned. -/
theorem runApplier_none {sm : StateMachine α S} {p : Process α} {fsm : S}
    (hrun : runApplier sm p fsm = none) :
    p.applier = .Idle ∧ p.shell.inner.is_poisoned = true := by
  unfold runApplier at hrun
  dsimp only at hrun
  split at hrun
  · rename_i hidle
    split at hrun
    · rename_i hp
      exact ⟨hidle, hp⟩
    · split at hrun <;> cases hrun
  · split at hrun
    · split at hrun
      · cases hrun
      · split at hrun <;> cases hrun
    · cases hrun
  · split at hrun <;> cases hrun
  · split at hrun <;> cases hrun

/-! ## Requests that cut high enough -/

/-- If the node takes up the request and finds an entry of another term, the cut is
above `bound`. -/
def CutsAbove (bound : Nat) (ln : LogicalNode α) (req : AppendEntriesRequest α) : Prop :=
  ln.current_term ≤ req.term →
  (ln.node.transition (Follower.mk none 0 0)).verify_log_consistency req.prev_log_index
    req.prev_log_term = true →
  ∀ e, req.entries.find? ln.node.conflicts = some e → bound < e.index

theorem get_term_at_quiet (hq : Quiet ln ln') (i : Nat) :
    ln'.node.get_term_at i = ln.node.get_term_at i := by
  have hterm : ln'.node.disk.last_included_term = ln.node.disk.last_included_term := by
    unfold SledStorage.last_included_term
    rw [hq.snapshot_term]
  unfold RaftNode.get_term_at RaftNode.last_included_index RaftNode.last_included_term
    SledStorage.read_entry
  rw [hq.log, hq.horizon, hterm]

theorem conflicts_quiet (hq : Quiet ln ln') : ln'.node.conflicts = ln.node.conflicts := by
  funext e
  unfold RaftNode.conflicts
  rw [get_term_at_quiet hq]

theorem verify_quiet (hq : Quiet ln ln') (f f' : Follower) (i t : Nat) :
    (ln'.node.transition f').verify_log_consistency i t =
      (ln.node.transition f).verify_log_consistency i t := by
  have hlast : (ln'.node.transition f').last_log_index =
      (ln.node.transition f).last_log_index := hq.last_log_index
  have hterm : (ln'.node.transition f').get_term_at i =
      (ln.node.transition f).get_term_at i := get_term_at_quiet hq i
  unfold RaftNode.verify_log_consistency
  rw [hlast, hterm]

/-- The cut is where the follower finds the conflict after it has checked the term. -/
theorem CutsAbove.after {ln₁ : LogicalNode α} {bound : Nat} {req : AppendEntriesRequest α}
    {f : Follower} (hcut : CutsAbove bound ln req) (hq : Quiet ln ln₁)
    (ht : ln.current_term ≤ req.term)
    (hv : (ln₁.node.transition f).verify_log_consistency req.prev_log_index
      req.prev_log_term = true) {e : LogEntry α}
    (he : req.entries.find? (ln₁.node.transition f).conflicts = some e) : bound < e.index := by
  refine hcut ht ?_ e ?_
  · rw [← verify_quiet hq _ f]
    exact hv
  · rw [← conflicts_quiet hq]
    exact he

/-! ## Requests -/

/-- The node after a request: the log is left alone, or a follower reconciles it. A panic
after that only poisons the node, so the reconciliation is followed by a quiet change. -/
inductive Served (ln : LogicalNode α) : Message α → LogicalNode α → Prop where
  | quiet {msg : Message α} {ln' : LogicalNode α} (hq : Quiet ln ln') : Served ln msg ln'
  | merged (dst : NodeId) (req : AppendEntriesRequest α) {ln₁ ln' : LogicalNode α} {f : Follower}
      {n : RaftNode α Follower} (hq : Quiet ln ln₁) (hst : ln₁.node.state = .Follower f)
      (hc : ln₁.last_committed = ln.last_committed) (ht : ln.current_term ≤ req.term)
      (hv : (ln₁.node.transition f).verify_log_consistency req.prev_log_index
        req.prev_log_term = true)
      (hm : Merged (ln₁.node.transition f) req.entries req.leader_commit n)
      (hln : Quiet (ln₁.withRole n .Follower) ln') : Served ln (.AppendEntries dst req) ln'

theorem serve_served {msg : Message α} {timeout : Nat} {dst : NodeId} {sends : List (Message α)}
    (hserve : serve sh timeout msg = some (dst, sh', sends)) :
    Served sh.inner msg sh'.inner ∧ (Published sh → Published sh') := by
  cases serve_step hserve with
  | preVoted dst req =>
    have hstep : Stepped sh (sh.write fun ln =>
        ln.handle_pre_vote req.term req.last_log_index req.last_log_term).1 :=
      .wrote _ (handle_pre_vote_quiet _ _ _ _)
    exact ⟨.quiet hstep.quiet, hstep.published⟩
  | voted dst req =>
    have hstep : Stepped sh (sh.write fun ln => ln.handle_request_vote req.candidate_id req.term
        req.last_log_index req.last_log_term timeout).1 :=
      .wrote _ (handle_request_vote_quiet _ _ _ _ _ _)
    exact ⟨.quiet hstep.quiet, hstep.published⟩
  | appended dst req =>
    have hcases := handle_append_entries_cases sh.inner req.leader_id req.term
      req.prev_log_index req.prev_log_term req.entries req.leader_commit timeout
    refine ⟨?_, fun hp => hp.write _⟩
    rw [ConsensusShell.write_inner]
    generalize sh.inner.handle_append_entries req.leader_id req.term
      req.prev_log_index req.prev_log_term req.entries req.leader_commit timeout = r at hcases
    rcases hcases with hq | ⟨ln₁, f, hq, hst, hc, ht, hr⟩
    · exact .quiet hq.afterHandler
    have hafter : Quiet (ln₁.withRole ((ln₁.node.transition f).reconcile_log req.prev_log_index
        req.prev_log_term req.entries req.leader_commit).1 .Follower) (afterHandler r) := by
      apply Quiet.afterHandler
      rcases hr with hr | hr
      · rw [hr]
        exact .refl _
      · rw [hr]
        exact (Quiet.refl _).poison
    rcases (ln₁.node.transition f).reconcile_log_merged req.prev_log_index req.prev_log_term
      req.entries req.leader_commit with hsame | ⟨hv, hm⟩
    · rw [hsame] at hafter
      refine .quiet (hq.trans (Quiet.trans ?_ hafter))
      exact .reRole rfl rfl rfl (fun _ hr => by rcases hr with hr | hr <;> cases hr)
        (halted_elim hst (by simp)) fun _ => nofun
    · exact .merged dst req hq hst hc ht hv hm hafter

/-! ## Proposals -/

/-- A proposal appends one entry of the leader's term and returns its index, or leaves the
log alone. -/
theorem propose_stepped (sh : ConsensusShell α) (data : α) :
    ((∀ i, (sh.propose data).2 ≠ .ok (.ok i)) ∧ Quiet sh.inner (sh.propose data).1.inner ∨
      (∃ l, sh.inner.node.state = .Leader l) ∧
        (sh.propose data).2 = .ok (.ok (sh.inner.last_log_index + 1)) ∧
        (sh.propose data).1.inner = onto sh.inner (sh.inner.node.append_entries
          [⟨sh.inner.last_log_index + 1, sh.inner.current_term, data⟩])) ∧
    (Published sh → Published (sh.propose data).1) := by
  have hresult : ∀ i, (sh.propose data).2 = .ok (.ok i) ↔
      (sh.inner.propose data).2 = .ok (.ok i) := by
    intro i
    rw [← ConsensusShell.write_result sh fun ln => ln.propose data]
    unfold ConsensusShell.propose
    generalize sh.write _ = r
    obtain ⟨sh₁, p | err | index⟩ := r
    · simp
    · cases err <;> simp
    · simp
  refine ⟨?_, fun hp => ?_⟩
  · rw [sh.propose_shell, ConsensusShell.write_inner]
    rcases propose_cases sh.inner data with ⟨hno, hq⟩ | ⟨hl, hok, heq⟩
    · exact .inl ⟨fun i hi => hno i ((hresult i).mp hi), hq.afterHandler⟩
    · refine .inr ⟨hl, (hresult _).mpr hok, ?_⟩
      unfold afterHandler
      rw [hok, heq]
      rfl
  · rw [sh.propose_shell]
    exact hp.write _

/-! ## One step of the cluster -/

/-- What a step of the host `n` does to its process. -/
inductive Performed (sm : StateMachine α S) (c : Cluster α S) (n : NodeId) (p : Process α) :
    Act α → Process α → S → Prop where
  | stepped {a : Act α} {p' : Process α} {fsm : S} (hs : Stepped p.shell p'.shell) :
      Performed sm c n p a p' fsm
  | proposed (data : α) {p' : Process α} {fsm : S}
      (hsh : p'.shell = (p.shell.propose data).1) : Performed sm c n p (.Propose n data) p' fsm
  | served {k timeout : Nat} {msg : Message α} {p' : Process α} {fsm : S}
      (hmsg : c.network[k]? = some msg) (hdst : msg.dst = n)
      (hserved : Served p.shell.inner msg p'.shell.inner)
      (hpub : Published p.shell → Published p'.shell) :
      Performed sm c n p (.Deliver k timeout) p' fsm
  | applied {p' : Process α} {fsm : S} (happly : ApplierStep sm p (c.hosts n).fsm p' fsm) :
      Performed sm c n p (.Apply n) p' fsm

variable [DecidableEq α] {cfg : Config} {sm : StateMachine α S} {c c' : Cluster α S}

theorem perform_cases {a : Act α} {e : Effect α S} (h : perform cfg sm c a = some e) :
    ∃ p, c.process e.host = some p ∧ Performed sm c e.host p a e.process e.fsm := by
  obtain ⟨p, hp, hacted⟩ := perform_acted h
  refine ⟨p, hp, ?_⟩
  have htick : ∀ timeout, Stepped p.shell (p.shell.write fun ln => tickLocked ln timeout).1 :=
    fun timeout => .wrote _ (tickLocked_quiet _ _)
  have hprobe : Stepped p.shell p.shell.prepare_probe.1 := by
    obtain ⟨f, heq, hq⟩ := prepare_probe_wrote p.shell
    rw [heq]
    exact .wrote f hq
  cases hacted with
  | halted hres => exact .stepped (htick _)
  | ticked hres => exact .stepped (htick _)
  | ran htask hrun => exact .stepped (runTask_stepped hrun)
  | delivered hmsg hserve =>
    obtain ⟨hserved, hpub⟩ := serve_served hserve
    exact .served hmsg rfl hserved hpub
  | proposed n data => exact .proposed data rfl
  | probed hres hround => exact .stepped hprobe
  | joined n => exact .stepped hprobe
  | applied hrun => exact .applied (runApplier_step hrun)

omit [DecidableEq α] in
theorem Performed.published {n : NodeId} {p p' : Process α} {a : Act α} {fsm : S}
    (h : Performed sm c n p a p' fsm) (hp : Published p.shell) : Published p'.shell := by
  cases h with
  | stepped hs => exact hs.published hp
  | proposed data hsh =>
    rw [hsh]
    exact (propose_stepped p.shell data).2 hp
  | served hmsg hdst hserved hpub => exact hpub hp
  | applied happly =>
    cases happly with
    | start => exact hp
    | fetch => exact hp
    | finish => exact hp
    | apply => exact hp
    | advance happlied hadv hsh hpub => exact hpub hp
    | fatal hs hpoison => exact hs.published hp

/-- The host is down after the step. -/
def crashes (cfg : Config) (sm : StateMachine α S) (c : Cluster α S) (n : NodeId) :
    Action α → Prop
  | .CrashIn a _ => ∃ e, perform cfg sm c a = some e ∧ e.host = n
  | .Crash m => m = n
  | _ => False

omit [DecidableEq α] in
theorem process_setHost_of_ne {m n : NodeId} (hne : n ≠ m) (h : Host α S)
    (network : List (Message α)) :
    Cluster.process { c.setHost m h with network := network } n = c.process n := by
  unfold Cluster.process Cluster.setHost
  simp [hne]

/-- A process that does not crash is left alone, or it is the one that takes the step. -/
theorem step_process {a : Action α} {n : NodeId} {p : Process α} (hs : step cfg sm c a = some c')
    (hn : ¬crashes cfg sm c n a) (hp : c.process n = some p) :
    c'.process n = some p ∨ ∃ act e, a = .Act act ∧ perform cfg sm c act = some e ∧
      Performed sm c n p act e.process e.fsm ∧ c'.process n = some e.process.settle := by
  have hother : ∀ {m : NodeId} (h : Host α S) (network : List (Message α)), n ≠ m →
      Cluster.process { c.setHost m h with network := network } n = some p :=
    fun h network hne => (process_setHost_of_ne hne h network).trans hp
  have hup : ∀ {m : NodeId} {disk : SledStorage α}, (c.hosts m).state = .Down disk → n ≠ m := by
    rintro m disk hdown rfl
    cases hdown.symm.trans (process_up hp)
  cases step_after hs with
  | @acted act e he =>
    by_cases hne : n = e.host
    · subst hne
      obtain ⟨p', hp', hperf⟩ := perform_cases he
      obtain rfl := Option.some.inj (hp'.symm.trans hp)
      refine .inr ⟨act, e, rfl, he, hperf, ?_⟩
      simp [Cluster.process, Cluster.setHost]
    · exact .inl (hother _ _ hne)
  | crashedIn he hdisk => exact .inl (hother _ c.network fun heq => hn ⟨_, he, heq.symm⟩)
  | crashed hp' => exact .inl (hother _ c.network fun heq => hn heq.symm)
  | stopped hdown => exact .inl (hother _ c.network (hup hdown))
  | booted hdown hmem hnew => exact .inl (hother _ c.network (hup hdown))

/-- Every channel of the cluster shows its node. -/
def Announced (c : Cluster α S) : Prop := ∀ n p, c.process n = some p → Published p.shell

omit [DecidableEq α] in
theorem Announced.set {m : NodeId} {h : Host α S} (hall : Announced c)
    (hnew : ∀ p, h.state = .Up p → Published p.shell) (network : List (Message α)) :
    Announced { c.setHost m h with network := network } := by
  intro n p hp
  by_cases hne : n = m
  · subst hne
    have hup := process_up hp
    exact hnew p (by simpa [Cluster.setHost] using hup)
  · rw [process_setHost_of_ne hne] at hp
    exact hall n p hp

theorem Announced.after {a : Action α} (hall : Announced c) (hs : step cfg sm c a = some c') :
    Announced c' := by
  have hdown : ∀ m fsm disk, Announced (c.setHost m ⟨fsm, .Down disk⟩) := fun m fsm disk =>
    hall.set (fun _ hp' => by cases hp') c.network
  cases step_after hs with
  | @acted act e he =>
    obtain ⟨p, hp, hperf⟩ := perform_cases he
    refine hall.set (fun p' hp' => ?_) _
    obtain rfl := HostState.Up.inj hp'
    exact hperf.published (hall _ p hp)
  | crashedIn he hdisk => exact hdown _ _ _
  | crashed hp => exact hdown _ _ _
  | stopped hdisk => exact hdown _ _ _
  | booted hdisk hmem hnew =>
    refine hall.set (fun p' hp' => ?_) c.network
    obtain rfl := HostState.Up.inj hp'
    exact ConsensusShell.published_new _

theorem Announced.run {P : Cluster α S → Action α → Prop}
    (hrun : machine.Run (step cfg sm) P (Cluster.init sm) c) : Announced c := by
  refine machine.Run.invariant (fun _ _ _ hall _ hs => Announced.after hall hs) hrun ?_
  intro n p hp
  cases hp

end raft_engine.cluster
