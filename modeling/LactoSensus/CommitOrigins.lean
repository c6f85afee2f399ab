-- Where a commit index comes from. Only a leader raises one by its own count, in its
-- term, and a follower takes over no more than what a request has told; nothing else
-- writes it, whatever a crash leaves of a step.
import LactoSensus.Isolation
import LactoSensus.Safety
import LactoSensus.Turns

open common.types
open journal
open raft_engine.storage
open raft_engine.node
open raft_engine.engine
open raft_engine.consensus
open raft_engine.shell
open raft_engine.cluster
open raft_engine.roles
open raft_engine.refinement

namespace raft_engine.origins

variable {α S X : Type} {ln ln' ln₁ ln₂ : LogicalNode α} {sh sh' : ConsensusShell α}

/-! ## Handlers that leave the commit index alone -/

/-- Every disk since has the same commit index. -/
def KeepsCommit (ln ln' : LogicalNode α) : Prop :=
  Since ln.node.log_store (fun d => d.last_committed = ln.node.disk.last_committed)
    ln'.node.log_store

theorem KeepsCommit.of_store (h : ln'.node.log_store = ln.node.log_store) : KeepsCommit ln ln' := by
  unfold KeepsCommit
  rw [h]
  exact .start rfl

theorem KeepsCommit.write {f : SledStorage α → SledStorage α}
    (h : ln'.node.log_store = ln.node.log_store.write f)
    (hf : ∀ d : SledStorage α, (f d).last_committed = d.last_committed) : KeepsCommit ln ln' := by
  unfold KeepsCommit
  rw [h]
  have hstart : Since ln.node.log_store
      (fun d => d.last_committed = ln.node.disk.last_committed) ln.node.log_store := .start rfl
  exact hstart.write (hf _)

theorem KeepsCommit.refl (ln : LogicalNode α) : KeepsCommit ln ln := .of_store rfl

theorem KeepsCommit.trans (h₁ : KeepsCommit ln ln₁) (h₂ : KeepsCommit ln₁ ln₂) :
    KeepsCommit ln ln₂ := by
  have hsame : ln₁.node.disk.last_committed = ln.node.disk.last_committed := h₁.now
  exact Since.trans h₁ h₂ fun d hd => hd.trans hsame

theorem KeepsCommit.afterHandler {r : Handled α X} (h : KeepsCommit ln r.1) :
    KeepsCommit ln (afterHandler r) := by
  obtain ⟨ln', res⟩ := r
  cases res <;> exact h

theorem into_follower_keeps (ln : LogicalNode α) (term : Nat) (leader_id : Option NodeId)
    (timeout : Nat) : KeepsCommit ln (ln.into_follower term leader_id timeout).1 := by
  unfold LogicalNode.into_follower RaftNode.try_into_follower RaftNode.advance_term
  dsimp only
  split_ifs
  · exact .refl ln
  · exact .of_store rfl
  · exact .write rfl fun _ => rfl
  · exact .of_store rfl

theorem campaigning_keeps (ln : LogicalNode α) (timeout : Nat) :
    KeepsCommit ln (campaigning ln timeout) :=
  .write rfl fun _ => rfl

theorem begin_campaign_keeps (ln : LogicalNode α) (timeout : Nat) :
    KeepsCommit ln (begin_campaign ln timeout).1 := by
  unfold begin_campaign
  split
  · exact .refl ln
  rcases into_candidate_cases ln timeout with ⟨heq, -⟩ | ⟨p, heq⟩ | ⟨heq, -⟩
  · rw [heq]
    exact .refl ln
  · rw [heq]
    exact .of_store rfl
  · rw [heq]
    exact campaigning_keeps ln timeout

theorem into_leader_store (ln : LogicalNode α) (peer_ids : List NodeId) :
    (ln.into_leader peer_ids).1.node.log_store = ln.node.log_store := by
  unfold LogicalNode.into_leader
  split
  · unfold RaftNode.try_into_leader
    split
    · rename_i n hn
      split at hn
      · cases hn
      · obtain rfl := Except.ok.inj hn
        rfl
    · rfl
  · rfl

theorem process_vote_response_keeps (ln : LogicalNode α) (term : Nat) (peer_ids : List NodeId)
    (peer_id : NodeId) (resp : RequestVoteResponse) (timeout : Nat) :
    KeepsCommit ln (process_vote_response ln term peer_ids peer_id resp timeout).1 := by
  by_cases hgt : resp.term > term
  · rw [process_vote_response_overtaken hgt]
    exact into_follower_keeps ln resp.term none timeout
  unfold process_vote_response
  rw [if_neg hgt]
  split
  · split
    · exact .refl ln
    split
    · rename_i c hst
      split
      · dsimp only
        split
        · have h := into_leader_store
            (ln.withRole (ln.node.transition (c.add_vote peer_id)) .Candidate) peer_ids
          generalize LogicalNode.into_leader _ peer_ids = r at h
          obtain ⟨ln', res⟩ := r
          cases res <;> exact .of_store h
        · exact .of_store rfl
      · exact .refl ln
    · exact .refl ln
  · exact .refl ln

theorem decideVote_keeps (ln : LogicalNode α) (candidate_id : NodeId)
    (req_term req_last_log_index req_last_log_term : Nat) :
    KeepsCommit ln (ln.decideVote candidate_id req_term req_last_log_index
      req_last_log_term).1 := by
  unfold LogicalNode.decideVote RaftNode.attempt_grant_vote
  cases hst : ln.node.state with
  | Follower f =>
    dsimp only
    split_ifs
    · exact .write rfl fun _ => rfl
    · exact .of_store rfl
  | _ => exact .refl ln

theorem handle_request_vote_keeps (ln : LogicalNode α) (candidate_id : NodeId)
    (req_term req_last_log_index req_last_log_term timeout : Nat) :
    KeepsCommit ln (ln.handle_request_vote candidate_id req_term req_last_log_index
      req_last_log_term timeout).1 := by
  unfold LogicalNode.handle_request_vote
  split
  · exact .refl ln
  split
  · have h := into_follower_keeps ln req_term none timeout
    generalize ln.into_follower req_term none timeout = r at h
    obtain ⟨ln', res⟩ := r
    cases res with
    | ok x => exact h.trans (decideVote_keeps ln' _ _ _ _)
    | error p => exact h
  · exact decideVote_keeps ln _ _ _ _

theorem handle_pre_vote_keeps (ln : LogicalNode α)
    (req_term req_last_log_index req_last_log_term : Nat) :
    KeepsCommit ln (ln.handle_pre_vote req_term req_last_log_index req_last_log_term).1 := by
  unfold LogicalNode.handle_pre_vote
  split <;> exact .refl ln

theorem observe_pre_vote_term_keeps (ln : LogicalNode α) (peer_term timeout : Nat) :
    KeepsCommit ln (observe_pre_vote_term ln peer_term timeout).1 := by
  rcases observe_pre_vote_term_cases ln peer_term timeout with heq | heq
  · rw [heq]
    exact .refl ln
  · rw [heq]
    exact into_follower_keeps ln peer_term none timeout

theorem stepDown_keeps (ln : LogicalNode α) (timeout : Nat) :
    KeepsCommit ln (stepDown timeout ln).1 := by
  unfold stepDown
  split
  · exact .refl ln
  · exact into_follower_keeps ln ln.current_term none timeout

theorem build_append_entries_request_store (ln : LogicalNode α) (peer_id : NodeId) (term : Nat)
    (node_id : NodeId) (last_committed : Nat) :
    (build_append_entries_request ln peer_id term node_id last_committed).1.node.log_store =
      ln.node.log_store := by
  unfold build_append_entries_request
  split
  · rfl
  dsimp only
  split
  · rfl
  split <;> rfl

theorem prepare_replication_keeps (ln : LogicalNode α) (peer_id : NodeId)
    (params : ReplicationRoundParams) :
    KeepsCommit ln (prepare_replication ln peer_id params).1 := by
  have hstrategy : (determine_replication_strategy ln peer_id params).1.node.log_store =
      ln.node.log_store := by
    unfold determine_replication_strategy
    split
    · dsimp only
      split
      · rfl
      · have h := build_append_entries_request_store ln peer_id params.term params.node_id
          params.last_committed
        generalize build_append_entries_request ln peer_id params.term params.node_id
          params.last_committed = r at h
        obtain ⟨ln', p | e | req⟩ := r <;> exact h
    · rfl
  unfold prepare_replication
  generalize determine_replication_strategy ln peer_id params = r at hstrategy
  obtain ⟨ln', p | e | st⟩ := r <;> exact .of_store hstrategy

theorem tickLocked_keeps (ln : LogicalNode α) (timeout : Nat) :
    KeepsCommit ln (tickLocked ln timeout).1 := by
  have htick : KeepsCommit ln ln.tick.1 := .of_store rfl
  unfold tickLocked
  generalize ln.tick = r at htick
  obtain ⟨ln₁, action⟩ := r
  dsimp only
  split
  · exact htick
  cases action with
  | StartElection =>
    have h := htick.trans (begin_campaign_keeps ln₁ timeout)
    dsimp only
    generalize begin_campaign ln₁ timeout = r at h
    obtain ⟨ln₂, e | params⟩ := r <;> exact h
  | StartPreVote =>
    refine htick.trans (.of_store ?_)
    change ln₁.into_pre_candidate.node.log_store = _
    unfold LogicalNode.into_pre_candidate
    split <;> rfl
  | SendHeartbeat => exact htick
  | StepDown => exact htick
  | Stop => exact htick
  | None => exact htick

theorem propose_keeps (ln : LogicalNode α) (command : α) :
    KeepsCommit ln (ln.propose command).1 := by
  unfold LogicalNode.propose RaftNode.propose
  cases hst : ln.node.state with
  | Leader l =>
    dsimp only
    cases checked_add "LogIndex" (ln.node.transition l).last_log_index 1 with
    | error e => exact .of_store rfl
    | ok index => exact .write rfl fun _ => rfl
  | _ => exact .refl ln

theorem prepare_probe_keeps (sh : ConsensusShell α) :
    KeepsCommit sh.inner sh.prepare_probe.1.inner := by
  rcases prepare_probe_cases sh with ⟨l, probe, -, -, -, -, heq⟩ | ⟨-, heq⟩
  · rw [heq]
    exact .of_store rfl
  · rw [heq]
    exact .refl _

/-! ## Handlers that raise it -/

/-- Some request tells of the index, or of a later one. -/
def Told (network : List (Message α)) (k : Nat) : Prop :=
  ∃ dst req, Message.AppendEntries dst req ∈ network ∧ k ≤ req.leader_commit

/-- The commit index on a disk is the one before the handler, or it is the one after it: then
the node led, and has counted in its term, or a request has told of the index. -/
def Origin (network : List (Message α)) (ln ln' : LogicalNode α) (d : SledStorage α) : Prop :=
  d.last_committed = ln.node.disk.last_committed ∨
    d.last_committed = ln'.last_committed ∧
      (ln.node_role = .Leader ∧ d.current_term = ln.current_term ∨ Told network d.last_committed)

/-- One write of a new commit index. -/
structure Raised (ln ln' : LogicalNode α) : Prop where
  store : ln'.node.log_store =
    ln.node.log_store.write (SledStorage.save_last_committed ln'.last_committed)

theorem advance_last_committed_raised (ln : LogicalNode α) (index : Nat) :
    KeepsCommit ln (ln.advance_last_committed index).1 ∨
      Raised ln (ln.advance_last_committed index).1 := by
  unfold LogicalNode.advance_last_committed RaftNode.advance_last_committed
    RaftNode.update_commit_index_only
  dsimp only
  split_ifs
  · exact .inl (.refl ln)
  · exact .inl (.refl ln)
  · exact .inl (.of_store rfl)
  · exact .inr ⟨rfl⟩
  · exact .inl (.refl ln)

theorem update_leader_last_committed_raised (ln : LogicalNode α) :
    KeepsCommit ln (update_leader_last_committed ln).1 ∨
      Raised ln (update_leader_last_committed ln).1 := by
  unfold update_leader_last_committed
  split
  · exact .inl (.refl ln)
  split
  · dsimp only
    split
    · exact advance_last_committed_raised ln _
    · exact .inl (.refl ln)
  · exact .inl (.refl ln)

theorem process_replication_response_raised (ln : LogicalNode α) (term : Nat) (peer_id : NodeId)
    (outcome : ReplicationOutcome) (timeout : Nat) :
    KeepsCommit ln (process_replication_response ln term peer_id outcome timeout).1 ∨
      ln.node_role = .Leader ∧
        Raised ln (process_replication_response ln term peer_id outcome timeout).1 := by
  by_cases hgt : outcome.term > term
  · rw [process_replication_response_overtaken hgt]
    exact .inl (into_follower_keeps ln outcome.term none timeout)
  unfold process_replication_response
  rw [if_neg hgt]
  split
  · exact .inl (.refl ln)
  split
  swap
  · exact .inl (.refl ln)
  rename_i l hst
  have hrole : ln.node_role = .Leader := by
    unfold LogicalNode.node_role
    rw [hst]
    rfl
  split
  swap
  · exact .inl (.refl ln)
  dsimp only
  generalize l.acknowledge_heartbeat peer_id ((l.next_index.entries.length + 1) / 2 + 1) = l₁
  cases reconcile_peer l₁ peer_id term outcome with
  | error e => exact .inl (.of_store rfl)
  | ok r =>
    obtain ⟨l₂, updated⟩ := r
    cases updated with
    | false => exact .inl (.of_store rfl)
    | true =>
      have h := update_leader_last_committed_raised
        (ln.withRole (ln.node.transition l₂) .Leader)
      have hagain : (ln.withRole (ln.node.transition l₁) .Leader).withRole
          ((ln.withRole (ln.node.transition l₁) .Leader).node.transition l₂) .Leader =
          ln.withRole (ln.node.transition l₂) .Leader := rfl
      dsimp only
      rw [if_pos rfl, hagain]
      generalize update_leader_last_committed _ = r at h
      obtain ⟨ln', res⟩ := r
      cases res <;> exact h.imp id fun hraised => ⟨hrole, ⟨hraised.store⟩⟩

variable {network : List (Message α)}

theorem KeepsCommit.origin (h : KeepsCommit ln ln₁) :
    Since ln.node.log_store (Origin network ln ln') ln₁.node.log_store :=
  ⟨.inl h.now, fun d hd => (h.past d hd).imp id .inl⟩

theorem Raised.origin (h : Raised ln ln') (hrole : ln.node_role = .Leader) :
    Since ln.node.log_store (Origin network ln ln') ln'.node.log_store := by
  have hstart : Since ln.node.log_store (Origin network ln ln') ln.node.log_store :=
    .start (.inl rfl)
  rw [h.store]
  exact hstart.write (.inr ⟨rfl, .inl ⟨hrole, rfl⟩⟩)

theorem truncate_log_committed (index : Nat) (s : SledStorage α) :
    (s.truncate_log index).last_committed = s.last_committed := by
  unfold SledStorage.truncate_log
  dsimp only
  split <;> rfl

/-- A follower takes over an index that it was told, in the last of its writes. -/
theorem Merged.told {n n' : RaftNode α Follower} {entries : List (LogEntry α)}
    {leader_commit : Nat} (hm : Merged n entries leader_commit n') :
    Since n.log_store (fun d => d.last_committed = n.disk.last_committed ∨
      d.last_committed = n'.last_committed ∧ d.last_committed ≤ leader_commit) n'.log_store := by
  have hpersist : ∀ {m : RaftNode α Follower} {es : List (LogEntry α)} {P : SledStorage α → Prop},
      P m.disk → P (m.disk.append_entries es) →
      (∀ d k, d.last_committed = k → k = (m.persistAppend es leader_commit).last_committed →
        k ≤ leader_commit → P d) →
      Since m.log_store P (m.persistAppend es leader_commit).log_store := by
    intro m es P hnow happended hP
    have hstart : Since m.log_store P m.log_store := .start hnow
    unfold RaftNode.persistAppend at hP ⊢
    dsimp only at hP ⊢
    by_cases hgt : leader_commit > m.last_committed
    · rw [if_pos hgt] at hP ⊢
      cases hes : es.isEmpty with
      | true =>
        rw [hes] at hP
        exact hstart.write (hP _ _ rfl rfl (min_le_left _ _))
      | false =>
        rw [hes] at hP
        exact (hstart.write happended).write (hP _ _ rfl rfl (min_le_left _ _))
    · rw [if_neg hgt] at hP ⊢
      cases hes : es.isEmpty with
      | true => exact hstart
      | false => exact hstart.write happended
  cases hm with
  | kept => exact .start (.inl rfl)
  | cut e he => exact (Since.start (.inl rfl)).write (.inl (truncate_log_committed e.index _))
  | appended es hes hsub =>
    exact hpersist (.inl rfl) (.inl rfl) fun d k hd hk hle => .inr ⟨hd.trans hk, hd.trans_le hle⟩
  | replaced e he es hes hsub =>
    have hcut := truncate_log_committed e.index n.disk
    have hfirst : Since n.log_store (fun d => d.last_committed = n.disk.last_committed ∨
        d.last_committed =
          ((n.truncate_log e.index).persistAppend es leader_commit).last_committed ∧
            d.last_committed ≤ leader_commit) (n.truncate_log e.index).log_store :=
      (Since.start (.inl rfl)).write (.inl hcut)
    exact hfirst.trans (hpersist (.inl hcut) (.inl hcut)
      fun d k hd hk hle => .inr ⟨hd.trans hk, hd.trans_le hle⟩) fun _ h => h

theorem validate_leader_rpc_term_keeps (ln : LogicalNode α) (req_term : Nat)
    (leader_id : NodeId) (rpc_name : String) (timeout : Nat) :
    KeepsCommit ln (ln.validate_leader_rpc_term req_term leader_id rpc_name timeout).1 := by
  have hdemote := into_follower_keeps ln req_term (some leader_id) timeout
  rw [← followed_eq] at hdemote
  unfold LogicalNode.validate_leader_rpc_term
  dsimp only
  split
  · exact .refl ln
  split
  · exact .refl ln
  split
  · exact hdemote
  split
  · exact hdemote
  · exact .of_store rfl
  · exact .of_store rfl
  · exact hdemote
  · exact .refl ln

theorem handle_append_entries_told (ln : LogicalNode α) (leader_id : NodeId)
    (req_term prev_log_index prev_log_term : Nat) (entries : List (LogEntry α))
    (leader_commit timeout : Nat) :
    Since ln.node.log_store (fun d => d.last_committed = ln.node.disk.last_committed ∨
      d.last_committed = (ln.handle_append_entries leader_id req_term prev_log_index prev_log_term
        entries leader_commit timeout).1.last_committed ∧ d.last_committed ≤ leader_commit)
      (ln.handle_append_entries leader_id req_term prev_log_index prev_log_term entries
        leader_commit timeout).1.node.log_store := by
  have hkept : ∀ {P : SledStorage α → Prop} {ln₁ : LogicalNode α}, KeepsCommit ln ln₁ →
      Since ln.node.log_store (fun d => d.last_committed = ln.node.disk.last_committed ∨ P d)
        ln₁.node.log_store :=
    fun h => ⟨.inl h.now, fun d hd => (h.past d hd).imp id .inl⟩
  have hkeeps := validate_leader_rpc_term_keeps ln req_term leader_id "AppendEntries" timeout
  unfold LogicalNode.handle_append_entries
  dsimp only
  generalize ln.validate_leader_rpc_term req_term leader_id "AppendEntries" timeout = r at hkeeps
  obtain ⟨ln', p | res⟩ := r
  · exact hkept hkeeps
  cases res with
  | Stale => exact hkept hkeeps
  | Valid =>
    have hbeat : KeepsCommit ln ln'.reset_heartbeat := by
      refine hkeeps.trans (.of_store ?_)
      unfold LogicalNode.reset_heartbeat
      split <;> rfl
    dsimp only
    generalize ln'.reset_heartbeat = ln₁ at hbeat
    cases hst : ln₁.node.state with
    | Follower f =>
      dsimp only
      have hnow : ln₁.node.disk.last_committed = ln.node.disk.last_committed := hbeat.now
      have hmerged := (ln₁.node.transition f).reconcile_log_merged prev_log_index prev_log_term
        entries leader_commit
      generalize (ln₁.node.transition f).reconcile_log prev_log_index prev_log_term entries
        leader_commit = rec at hmerged
      obtain ⟨n, res⟩ := rec
      have htold : Since ln₁.node.log_store (fun d =>
          d.last_committed = ln₁.node.disk.last_committed ∨
            d.last_committed = n.last_committed ∧ d.last_committed ≤ leader_commit)
          n.log_store := by
        rcases hmerged with hsame | ⟨-, hm⟩
        · obtain rfl : n = ln₁.node.transition f := hsame
          exact .start (.inl rfl)
        · exact Merged.told hm
      have hall := (hkept hbeat).trans htold fun d hd => hd.imp (·.trans hnow) id
      cases res <;> exact hall
    | _ => exact hkept hbeat

/-! ## Steps of the cluster -/

/-- An answer that is taken up raises the commit index of a leader, or leaves it. -/
theorem response_origin (sh : ConsensusShell α) (term : Nat) (peer : NodeId)
    (outcome : ReplicationOutcome) (timeout : Nat) :
    Since sh.inner.node.log_store (Origin network sh.inner (sh.write fun ln =>
        process_replication_response ln term peer outcome timeout).1.inner)
      (sh.write fun ln =>
        process_replication_response ln term peer outcome timeout).1.inner.node.log_store := by
  have hraised := process_replication_response_raised sh.inner term peer outcome timeout
  rw [ConsensusShell.write_inner]
  generalize process_replication_response sh.inner term peer outcome timeout = r at hraised
  rcases hraised with hkeeps | ⟨hrole, hup⟩
  · exact hkeeps.afterHandler.origin
  · have hafter : Raised sh.inner (afterHandler r) := by
      obtain ⟨ln', res⟩ := r
      cases res <;> exact ⟨hup.store⟩
    exact hafter.origin hrole

theorem TaskStep.origin {cfg : Config} {n peer : NodeId} {reply : Option (Message α)}
    {timeout : Nat} {task : SpawnedTask α} (h : TaskStep cfg n peer reply timeout sh task sh') :
    Since sh.inner.node.log_store (Origin network sh.inner sh'.inner) sh'.inner.node.log_store := by
  have hkept : ∀ {X : Type} {f : LogicalNode α → Handled α X}, KeepsCommit sh.inner (f sh.inner).1 →
      Since sh.inner.node.log_store (Origin network sh.inner (sh.write f).1.inner)
        (sh.write f).1.inner.node.log_store := by
    intro X f hf
    rw [ConsensusShell.write_inner]
    exact hf.afterHandler.origin
  cases h with
  | idle => exact (KeepsCommit.refl sh.inner).origin
  | steppedDown => exact hkept (stepDown_keeps _ _)
  | observed req pending granted resp hreply => exact hkept (observe_pre_vote_term_keeps _ _ _)
  | stood => exact hkept (begin_campaign_keeps _ _)
  | counted params pending granted resp hreply =>
    exact hkept (process_vote_response_keeps _ _ _ _ _ _)
  | promoted => exact hkept (.of_store (into_leader_store _ _))
  | prepared params unsent awaiting => exact hkept (prepare_replication_keeps _ _ _)
  | responded params unsent awaiting req resp hreply => exact response_origin _ _ _ _ _
  | failed err => exact hkept (.of_store rfl)

theorem ServeStep.origin {timeout : Nat} {msg : Message α} (h : ServeStep timeout sh msg sh')
    (hmsg : msg ∈ network) :
    Since sh.inner.node.log_store (Origin network sh.inner sh'.inner) sh'.inner.node.log_store := by
  cases h with
  | preVoted dst req =>
    rw [ConsensusShell.write_inner]
    exact (handle_pre_vote_keeps _ _ _ _).afterHandler.origin
  | voted dst req =>
    rw [ConsensusShell.write_inner]
    exact (handle_request_vote_keeps _ _ _ _ _ _).afterHandler.origin
  | appended dst req =>
    have htold := handle_append_entries_told sh.inner req.leader_id req.term req.prev_log_index
      req.prev_log_term req.entries req.leader_commit timeout
    rw [ConsensusShell.write_inner]
    generalize sh.inner.handle_append_entries req.leader_id req.term req.prev_log_index
      req.prev_log_term req.entries req.leader_commit timeout = r at htold
    have hsame : (afterHandler r).node.log_store = r.1.node.log_store ∧
        (afterHandler r).last_committed = r.1.last_committed := by
      obtain ⟨ln', res⟩ := r
      cases res <;> exact ⟨rfl, rfl⟩
    have horigin : ∀ d : SledStorage α, (d.last_committed = sh.inner.node.disk.last_committed ∨
        d.last_committed = r.1.last_committed ∧ d.last_committed ≤ req.leader_commit) →
        Origin network sh.inner (afterHandler r) d :=
      fun d hd => hd.imp id fun hnew => ⟨hnew.1.trans hsame.2.symm, .inr ⟨dst, req, hmsg, hnew.2⟩⟩
    rw [hsame.1]
    exact ⟨horigin _ htold.now, fun d hd => (htold.past d hd).imp id (horigin d)⟩

variable {cfg : Config} {sm : StateMachine α S} {c c' : Cluster α S} {a a' : Protocol α}

/-- The applier works on entries that are committed. -/
theorem behind {n : NodeId} {p : Process α} (h : ProcessRel cfg a a n p) :
    isolation.Behind p.shell.inner.last_committed p.applier := by
  have happ := h.applier
  rw [show p.shell.inner.last_committed = a.commit n from h.node.commit]
  cases hst : p.applier <;> rw [hst] at happ <;> exact happ

theorem perform_origin [DecidableEq α] (h : Refines cfg c a) {act : Act α} {e : Effect α S}
    (he : perform cfg sm c act = some e) :
    ∃ p, c.process e.host = some p ∧
      Since p.shell.inner.node.log_store (Origin c.network p.shell.inner e.process.shell.inner)
        e.process.shell.inner.node.log_store := by
  obtain ⟨p, hp, hacted⟩ := perform_acted he
  refine ⟨p, hp, ?_⟩
  have htick : ∀ timeout, KeepsCommit p.shell.inner
      (p.shell.write fun ln => tickLocked ln timeout).1.inner := by
    intro timeout
    rw [ConsensusShell.write_inner]
    exact (tickLocked_keeps _ timeout).afterHandler
  cases hacted with
  | halted hres => exact (htick _).origin
  | ticked hres => exact (htick _).origin
  | ran htask hrun => exact TaskStep.origin (runTask_ran hrun).step
  | delivered hmsg hserve =>
    exact ServeStep.origin (serve_step hserve) (List.mem_of_getElem? hmsg)
  | proposed n data =>
    refine KeepsCommit.origin ?_
    dsimp only
    rw [p.shell.propose_shell, ConsensusShell.write_inner]
    exact (propose_keeps _ data).afterHandler
  | probed hres hround => exact (prepare_probe_keeps p.shell).origin
  | joined n => exact (prepare_probe_keeps p.shell).origin
  | applied hrun =>
    have hstill := isolation.runApplier_still (behind (h.up hp)) hrun
    exact (KeepsCommit.of_store hstill.store).origin

/-- What the commit index of a host has become in a step, and why. -/
inductive Moved (c c' : Cluster α S) (n : NodeId) : Prop where
  | same (h : (c'.hosts n).last_committed = (c.hosts n).last_committed)
  | counted (hle : (c.hosts n).last_committed ≤ (c'.hosts n).last_committed)
      (hrole : (c.hosts n).role = some .Leader)
      (hterm : (c'.hosts n).current_term = (c.hosts n).current_term)
  | told (hle : (c.hosts n).last_committed ≤ (c'.hosts n).last_committed)
      (htold : Told c.network (c'.hosts n).last_committed)

theorem Moved.le {n : NodeId} (h : Moved c c' n) :
    (c.hosts n).last_committed ≤ (c'.hosts n).last_committed := by
  cases h with
  | same h => exact h.ge
  | counted hle => exact hle
  | told hle => exact hle

theorem moved_setHost_of_ne {m n : NodeId} (hne : n ≠ m) (host : Host α S)
    (network : List (Message α)) : Moved c { c.setHost m host with network := network } n := by
  refine .same ?_
  unfold Cluster.setHost
  dsimp only
  rw [if_neg hne]

theorem Refines.settled (h : Refines cfg c a) {n : NodeId} {p : Process α}
    (hp : c.process n = some p) : p.shell.inner.node.log_store.past = [] := by
  have hhost := h.hosts n
  rw [process_up hp] at hhost
  exact hhost.2

/-- A host that has the disk `d` after a step of its process, whether it is up or not. -/
theorem Origin.moved {n : NodeId} {p p' : Process α} {d : SledStorage α}
    (h : Origin c.network p.shell.inner p'.shell.inner d) (hp : c.process n = some p)
    (hbefore : ProcessRel cfg a a n p) (hafter : ProcessRel cfg a a' n p')
    (hcommitted : (c'.hosts n).last_committed = d.last_committed)
    (hterm : (c'.hosts n).current_term = d.current_term) : Moved c c' n := by
  have hup := process_up hp
  have hold : (c.hosts n).last_committed = p.shell.inner.last_committed := by
    unfold Host.last_committed
    rw [hup]
  have hcurrent : (c.hosts n).current_term = p.shell.inner.current_term := by
    unfold Host.current_term Host.disk
    rw [hup]
    rfl
  have hdisk : p.shell.inner.node.disk.last_committed = p.shell.inner.last_committed :=
    hbefore.node.disk.commit.trans hbefore.node.commit.symm
  have hle : p.shell.inner.last_committed ≤ p'.shell.inner.last_committed := by
    have hcommit := hafter.node.commit_le
    rw [show p.shell.inner.last_committed = a.commit n from hbefore.node.commit,
      show p'.shell.inner.last_committed = a'.commit n from hafter.node.commit]
    exact hcommit
  rcases h with hsame | ⟨hnew, ⟨hrole, ht⟩ | htold⟩
  · refine .same ?_
    rw [hcommitted, hsame, hdisk, hold]
  · refine .counted (by rw [hcommitted, hnew, hold]; exact hle) ?_ ?_
    · unfold Host.role
      rw [hup]
      exact congrArg some hrole
    · rw [hterm, ht, hcurrent]
  · exact .told (by rw [hcommitted, hnew, hold]; exact hle) (hcommitted ▸ htold)

/-- A node that starts has what its disk has. -/
theorem try_new_committed {n applied heartbeat_interval timeout : Nat} {disk : SledStorage α}
    {ln : LogicalNode α}
    (hnew : LogicalNode.try_new n applied disk heartbeat_interval timeout = .ok ln) :
    ln.last_committed = disk.last_committed := by
  unfold LogicalNode.try_new at hnew
  split at hnew
  · cases hnew
  · obtain rfl := Except.ok.inj hnew
    rfl

theorem step_moved [DecidableEq α] (h : Refines cfg c a) {act : Action α}
    (hs : step cfg sm c act = some c') (n : NodeId) : Moved c c' n := by
  have hother : ∀ {m : NodeId} {host : Host α S}, host.last_committed = (c.hosts m).last_committed →
      Moved c (c.setHost m host) n := by
    intro m host hsame
    refine .same ?_
    unfold Cluster.setHost
    dsimp only
    split
    · rename_i heq
      rw [heq]
      exact hsame
    · rfl
  cases step_after hs with
  | @acted act e he =>
    obtain ⟨p, hp, horigin⟩ := perform_origin h he
    obtain ⟨a', heffect⟩ := perform_effect h he
    by_cases hne : n = e.host
    · rw [hne]
      have hhost : ({ c.setHost e.host ⟨e.fsm, .Up e.process.settle⟩ with
          network := c.network ++ e.sends } : Cluster α S).hosts e.host =
          ⟨e.fsm, .Up e.process.settle⟩ := if_pos rfl
      have hnode := heffect.process.node
      refine horigin.now.moved hp (h.up hp) heffect.process ?_ ?_ <;> rw [hhost]
      · exact hnode.commit.trans hnode.disk.commit.symm
      · rfl
    · exact moved_setHost_of_ne hne _ _
  | @crashedIn act e point disk he hdisk =>
    obtain ⟨p, hp, horigin⟩ := perform_origin h he
    obtain ⟨a', heffect⟩ := perform_effect h he
    by_cases hne : n = e.host
    · rw [hne]
      have hhost : (c.setHost e.host ⟨(c.hosts e.host).fsm, .Down disk⟩).hosts e.host =
          ⟨(c.hosts e.host).fsm, .Down disk⟩ := if_pos rfl
      have hfound : Origin c.network p.shell.inner e.process.shell.inner disk := by
        rcases List.mem_cons.mp hdisk with rfl | hpast
        · exact horigin.now
        · refine (horigin.past disk hpast).resolve_left ?_
          rw [Refines.settled h hp]
          exact List.not_mem_nil
      refine hfound.moved hp (h.up hp) heffect.process ?_ ?_ <;> rw [hhost] <;> rfl
    · exact moved_setHost_of_ne hne _ c.network
  | crashed hp =>
    refine hother ?_
    have hproc := h.up hp
    unfold Host.last_committed
    rw [process_up hp]
    exact hproc.node.disk.commit.trans hproc.node.commit.symm
  | stopped hdown =>
    refine hother ?_
    unfold Host.last_committed
    rw [hdown]
  | booted hdown hmem hnew =>
    refine hother ((try_new_committed hnew).trans ?_)
    unfold Host.last_committed
    rw [hdown]

end raft_engine.origins
