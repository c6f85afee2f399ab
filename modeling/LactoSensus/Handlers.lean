-- What a handler can do to the node: every one but the append and the proposal
-- leaves the log as it was. Each role transition is described once, by the
-- states it can end in.
import LactoSensus.Shell

open common.types
open journal
open ordmap
open quorum
open raft_engine.storage
open raft_engine.node
open raft_engine.consensus
open raft_engine.shell

namespace raft_engine.engine

variable {α X : Type} {ln ln' ln₁ ln₂ : LogicalNode α}

theorem not_poisoned {st : RoleState} (h : ln.node.state = st) (hst : st ≠ .Poisoned) :
    ln.is_poisoned = false := by
  cases st <;> simp_all [LogicalNode.is_poisoned, RoleState.node_role]

theorem halted_elim {P : Prop} {st : RoleState} (h : ln.node.state = st) (hst : st ≠ .Poisoned)
    (hp : ln.is_poisoned = true) : P := by
  rw [not_poisoned h hst] at hp
  cases hp

@[simp] theorem is_poisoned_poison (ln : LogicalNode α) : ln.poison.is_poisoned = true := by
  simp [LogicalNode.poison, LogicalNode.is_poisoned, RaftNode.transition, RoleState.node_role]

theorem poison_of_poisoned (h : ln.is_poisoned = true) : ln.poison = ln := by
  obtain ⟨⟨node_id, log_store, last_committed, last_applied, state⟩, tick, interval⟩ := ln
  cases state <;> simp_all [LogicalNode.is_poisoned, RoleState.node_role, LogicalNode.poison,
    RaftNode.transition]

/-! ## Role transitions -/

/-- The node after a new campaign: the next term, and its own vote on disk. -/
def campaigning (ln : LogicalNode α) (timeout : Nat) : LogicalNode α :=
  { ln with
    node := (ln.node.write (SledStorage.save_hard_state (ln.current_term + 1)
      (some ln.node_id))).transition
        (.Candidate ⟨{ln.node_id}, ln.current_tick, timeout⟩) }

theorem try_into_candidate_cases {R : Type} (n : RaftNode α R) (election_start timeout : Nat) :
    (∃ e, n.try_into_candidate election_start timeout =
      (n.transition (Candidate.new election_start timeout), .error e)) ∨
    n.try_into_candidate election_start timeout =
      ((n.write (SledStorage.save_hard_state (n.current_term + 1) (some n.node_id))).transition
        ⟨{n.node_id}, election_start, timeout⟩, .ok ()) := by
  unfold RaftNode.try_into_candidate
  dsimp only
  cases hadd : checked_add "Term" n.current_term 1 with
  | error e => exact .inl ⟨_, rfl⟩
  | ok new_term =>
    obtain ⟨rfl, -⟩ := checked_add_ok hadd
    have hlt : ¬n.current_term + 1 <
        (n.transition (Candidate.new election_start timeout)).current_term := by
      change ¬n.current_term + 1 < n.current_term
      omega
    refine .inr ?_
    simp only [RaftNode.advance_term_and_vote, if_neg hlt]
    rfl

theorem enterCandidate_cases {R : Type} (ln : LogicalNode α) (st : R) (timeout : Nat) :
    (∃ p, ln.enterCandidate ((ln.node.transition st).try_into_candidate ln.current_tick timeout)
      = (ln.poison, .error p)) ∨
    ln.enterCandidate ((ln.node.transition st).try_into_candidate ln.current_tick timeout) =
      (campaigning ln timeout, .ok ()) := by
  rcases try_into_candidate_cases (ln.node.transition st) ln.current_tick timeout with
    ⟨e, he⟩ | he
  · rw [he]
    exact .inl ⟨.HaltMandate e, rfl⟩
  · rw [he]
    exact .inr rfl

/-- A leader and a poisoned node stay what they are. -/
theorem into_candidate_cases (ln : LogicalNode α) (timeout : Nat) :
    (ln.into_candidate timeout = (ln, .ok ()) ∧
      ((∃ l, ln.node.state = .Leader l) ∨ ln.is_poisoned = true)) ∨
    (∃ p, ln.into_candidate timeout = (ln.poison, .error p)) ∨
    (ln.into_candidate timeout = (campaigning ln timeout, .ok ()) ∧ ln.is_poisoned = false) := by
  unfold LogicalNode.into_candidate
  cases hst : ln.node.state with
  | Leader l => exact .inl ⟨rfl, .inl ⟨l, rfl⟩⟩
  | Poisoned =>
    exact .inl ⟨rfl, .inr (by simp [LogicalNode.is_poisoned, hst, RoleState.node_role])⟩
  | Follower f =>
    have hp := not_poisoned hst (by simp)
    exact .inr ((enterCandidate_cases ln f timeout).imp id (⟨·, hp⟩))
  | PreCandidate f =>
    have hp := not_poisoned hst (by simp)
    exact .inr ((enterCandidate_cases ln f timeout).imp id (⟨·, hp⟩))
  | Candidate f =>
    have hp := not_poisoned hst (by simp)
    exact .inr ((enterCandidate_cases ln f timeout).imp id (⟨·, hp⟩))

theorem into_follower_role (ln : LogicalNode α) (term : Nat) (leader_id : Option NodeId)
    (timeout : Nat) (hp : ln.is_poisoned = false) :
    (ln.into_follower term leader_id timeout).1.node_role ≠ .Leader := by
  unfold LogicalNode.into_follower
  rw [if_neg (by simp [hp])]
  split <;> simp [LogicalNode.withRole, LogicalNode.apply_fatal, LogicalNode.poison,
    LogicalNode.node_role, RaftNode.transition, RoleState.node_role]

theorem poisoned_role (h : ln.is_poisoned = true) : ln.node_role ≠ .Leader := by
  rw [(ln.is_poisoned_iff).mp h]
  simp

/-! ## Handlers that leave the log alone -/

/-- Only in a term it has raised can a node stand or lead. -/
def Seated (ln : LogicalNode α) : Prop :=
  ln.node_role = .Candidate ∨ ln.node_role = .Leader → 0 < ln.current_term

/-- A next index is one that a log can have. -/
def PacedLeader (l : Leader) : Prop :=
  ∀ peer i, l.next_index.get? peer = some i → 0 < i ∧ i ≤ u64Max

def Paced (ln : LogicalNode α) : Prop := ∀ l, ln.node.state = .Leader l → PacedLeader l

/-- Whoever does not lead keeps no next index. -/
theorem paced_of_role (hrole : ln.node_role ≠ .Leader) : Paced ln := by
  intro l hl
  simp [LogicalNode.node_role, hl, RoleState.node_role] at hrole

theorem PacedLeader.next {l : Leader} (hl : PacedLeader l) (peer : NodeId) :
    0 < (l.next_index.get? peer).getD 1 ∧ (l.next_index.get? peer).getD 1 ≤ u64Max := by
  cases hget : l.next_index.get? peer with
  | none => exact ⟨Nat.one_pos, by simp [u64Max]⟩
  | some i => exact hl peer i hget

theorem PacedLeader.insert {l : Leader} (hl : PacedLeader l) {peer : NodeId} {i : Nat}
    (hpos : 0 < i) (hmax : i ≤ u64Max) {l' : Leader}
    (hnext : l'.next_index = l.next_index.insert peer i) : PacedLeader l' := by
  intro peer' j hj
  rw [hnext, OrdMap.get?_insert] at hj
  split at hj
  · obtain rfl := Option.some.inj hj
    exact ⟨hpos, hmax⟩
  · exact hl peer' j hj

theorem PacedLeader.new {peer_ids : List NodeId} {last_log_index last_heartbeat : Nat}
    {l : Leader} (hnew : Leader.new peer_ids last_log_index last_heartbeat = .ok l) :
    PacedLeader l := by
  unfold Leader.new at hnew
  dsimp only at hnew
  intro peer i hi
  split at hnew
  · obtain rfl := Except.ok.inj hnew
    rw [OrdMap.get?_empty] at hi
    cases hi
  · split at hnew
    · cases hnew
    · rename_i next hadd
      obtain ⟨rfl, hmax⟩ := checked_add_ok hadd
      obtain rfl := Except.ok.inj hnew
      rw [OrdMap.get?_insertAll_const] at hi
      split at hi
      · obtain rfl := Option.some.inj hi
        exact ⟨Nat.succ_pos _, hmax⟩
      · rw [OrdMap.get?_empty] at hi
        cases hi

theorem PacedLeader.acknowledge {l : Leader} (hl : PacedLeader l) (peer_id : NodeId)
    (quorum_size : Nat) : PacedLeader (l.acknowledge_heartbeat peer_id quorum_size) := by
  unfold Leader.acknowledge_heartbeat
  dsimp only
  split <;> exact hl

theorem PacedLeader.reconcile {l l' : Leader} {peer_id : NodeId} {term : Nat}
    {outcome : ReplicationOutcome} {updated : Bool} (hl : PacedLeader l)
    (hrec : reconcile_peer l peer_id term outcome = .ok (l', updated)) : PacedLeader l' := by
  obtain ⟨hpos, hmax⟩ := hl.next peer_id
  cases outcome with
  | AppendEntries sent_prev_index sent_entries_len response =>
    simp only [reconcile_peer] at hrec
    split at hrec
    · split at hrec
      · cases hrec
      split at hrec
      · cases hrec
      rename_i new_match _ new_next hnext
      obtain ⟨rfl, hle⟩ := checked_add_ok hnext
      split at hrec
      · obtain ⟨rfl, -⟩ := Prod.mk.inj (Except.ok.inj hrec)
        exact hl.insert (Nat.succ_pos _) hle rfl
      · obtain ⟨rfl, -⟩ := Prod.mk.inj (Except.ok.inj hrec)
        exact hl
    · split at hrec
      · split at hrec
        · cases hrec
        · rename_i past_last hadd
          obtain ⟨rfl, hle⟩ := checked_add_ok hadd
          obtain ⟨rfl, -⟩ := Prod.mk.inj (Except.ok.inj hrec)
          exact hl.insert (by omega) (by omega) rfl
      · split at hrec
        · cases hrec
        · rename_i idx hsub
          obtain ⟨rfl, -⟩ := checked_sub_ok hsub
          obtain ⟨rfl, -⟩ := Prod.mk.inj (Except.ok.inj hrec)
          exact hl.insert (by omega) (by simp only [u64Max] at hmax ⊢; omega) rfl
  | InstallSnapshot last_included_index response_term =>
    simp only [reconcile_peer] at hrec
    split at hrec
    · cases hrec
    · rename_i new_next hadd
      obtain ⟨rfl, hle⟩ := checked_add_ok hadd
      obtain ⟨rfl, -⟩ := Prod.mk.inj (Except.ok.inj hrec)
      exact hl.insert (Nat.succ_pos _) hle rfl

/-- A disk with the same log and metadata, and a commit index that stays or moves up
within the log. -/
structure QuietDisk (d d' : SledStorage α) : Prop where
  log : d'.log = d.log
  snapshot_index : d'.key_snapshot_index = d.key_snapshot_index
  snapshot_term : d'.key_snapshot_term = d.key_snapshot_term
  committed : d'.last_committed = d.last_committed ∨
    d.last_committed < d'.last_committed ∧ d'.last_committed ≤ d.last_log_index

theorem QuietDisk.refl (d : SledStorage α) : QuietDisk d d := ⟨rfl, rfl, rfl, .inl rfl⟩

theorem QuietDisk.trans {d d₁ d₂ : SledStorage α} (h₁ : QuietDisk d d₁) (h₂ : QuietDisk d₁ d₂) :
    QuietDisk d d₂ where
  log := h₂.log.trans h₁.log
  snapshot_index := h₂.snapshot_index.trans h₁.snapshot_index
  snapshot_term := h₂.snapshot_term.trans h₁.snapshot_term
  committed := by
    have hlast : d₁.last_log_index = d.last_log_index := by
      unfold SledStorage.last_log_index SledStorage.last_included_index
      rw [h₁.log, h₁.snapshot_index]
    have h₁' := h₁.committed
    have h₂' := h₂.committed
    omega

/-- The log and the snapshot metadata are untouched, the term does not fall, a poisoned node
stays poisoned, and the commit index stays or moves up within the log; so it is on every disk
on the way. -/
structure Quiet (ln ln' : LogicalNode α) : Prop where
  log : ln'.node.disk.log = ln.node.disk.log
  snapshot_index : ln'.node.disk.key_snapshot_index = ln.node.disk.key_snapshot_index
  snapshot_term : ln'.node.disk.key_snapshot_term = ln.node.disk.key_snapshot_term
  applied : ln'.last_applied = ln.last_applied
  committed : ln'.last_committed = ln.last_committed ∨
    ln.last_committed < ln'.last_committed ∧ ln'.last_committed ≤ ln.last_log_index
  term : ln.current_term ≤ ln'.current_term
  seated : Seated ln → Seated ln'
  halted : ln.is_poisoned = true → ln'.is_poisoned = true
  paced : Paced ln → Paced ln'
  disks : ln.last_committed = ln.node.disk.last_committed →
    ln'.last_committed = ln'.node.disk.last_committed ∧
      Since ln.node.log_store (QuietDisk ln.node.disk) ln'.node.log_store

theorem Quiet.refl (ln : LogicalNode α) : Quiet ln ln :=
  ⟨rfl, rfl, rfl, rfl, .inl rfl, le_rfl, id, id, id, fun hc => ⟨hc, .start (.refl _)⟩⟩

theorem Quiet.horizon (h : Quiet ln ln') :
    ln'.node.disk.last_included_index = ln.node.disk.last_included_index := by
  unfold SledStorage.last_included_index
  rw [h.snapshot_index]

theorem Quiet.last_log_index (h : Quiet ln ln') : ln'.last_log_index = ln.last_log_index := by
  change ln'.node.disk.last_log_index = ln.node.disk.last_log_index
  unfold SledStorage.last_log_index
  rw [h.log, h.horizon]

theorem Quiet.trans (h₁ : Quiet ln ln₁) (h₂ : Quiet ln₁ ln₂) : Quiet ln ln₂ where
  log := h₂.log.trans h₁.log
  snapshot_index := h₂.snapshot_index.trans h₁.snapshot_index
  snapshot_term := h₂.snapshot_term.trans h₁.snapshot_term
  applied := h₂.applied.trans h₁.applied
  committed := by
    have hlast := h₁.last_log_index
    have h₁' := h₁.committed
    have h₂' := h₂.committed
    omega
  term := h₁.term.trans h₂.term
  seated := h₂.seated ∘ h₁.seated
  halted := h₂.halted ∘ h₁.halted
  paced := h₂.paced ∘ h₁.paced
  disks := by
    intro hc
    obtain ⟨hc₁, hs₁⟩ := h₁.disks hc
    obtain ⟨hc₂, hs₂⟩ := h₂.disks hc₁
    exact ⟨hc₂, hs₁.trans hs₂ fun d hd => QuietDisk.trans hs₁.now hd⟩

/-- A change of the role alone. -/
theorem Quiet.reRole (hstore : ln'.node.log_store = ln.node.log_store)
    (hcommit : ln'.node.last_committed = ln.node.last_committed)
    (happlied : ln'.node.last_applied = ln.node.last_applied)
    (hseat : Seated ln → Seated ln')
    (hhalt : ln.is_poisoned = true → ln'.is_poisoned = true) (hpace : Paced ln → Paced ln') :
    Quiet ln ln' := by
  have hdisk : ln'.node.disk = ln.node.disk := by
    unfold RaftNode.disk
    rw [hstore]
  refine ⟨?_, ?_, ?_, happlied, .inl hcommit, ?_, hseat, hhalt, hpace, fun hc => ⟨?_, ?_⟩⟩
  · rw [hdisk]
  · rw [hdisk]
  · rw [hdisk]
  · change ln.node.disk.current_term ≤ ln'.node.disk.current_term
    rw [hdisk]
  · rw [hdisk]
    exact hcommit.trans hc
  · rw [hstore]
    exact .start (.refl _)

/-- One write of the hard state. -/
theorem Quiet.hardState {term : Nat} {vote : Option NodeId}
    (hstore : ln'.node.log_store = ln.node.log_store.write (SledStorage.save_hard_state term vote))
    (hcommit : ln'.node.last_committed = ln.node.last_committed)
    (happlied : ln'.node.last_applied = ln.node.last_applied)
    (hterm : ln.current_term ≤ term) (hseat : Seated ln → Seated ln')
    (hhalt : ln.is_poisoned = true → ln'.is_poisoned = true) (hpace : Paced ln → Paced ln') :
    Quiet ln ln' := by
  have hdisk : ln'.node.disk = ln.node.disk.save_hard_state term vote := by
    unfold RaftNode.disk
    rw [hstore]
    rfl
  refine ⟨?_, ?_, ?_, happlied, .inl hcommit, ?_, hseat, hhalt, hpace, fun hc => ⟨?_, ?_⟩⟩
  · rw [hdisk]
    rfl
  · rw [hdisk]
    rfl
  · rw [hdisk]
    rfl
  · change _ ≤ ln'.node.disk.current_term
    rw [hdisk]
    exact hterm
  · rw [hdisk]
    exact hcommit.trans hc
  · rw [hstore]
    exact (Since.start (.refl _)).write ⟨rfl, rfl, rfl, .inl rfl⟩

theorem Quiet.poison (h : Quiet ln ln') : Quiet ln ln'.poison :=
  h.trans (.reRole rfl rfl rfl (fun _ hr => by rcases hr with hr | hr <;> cases hr)
    (fun _ => is_poisoned_poison ln') fun _ => paced_of_role (by
      simp [LogicalNode.poison, LogicalNode.node_role, RaftNode.transition, RoleState.node_role]))

theorem Quiet.afterHandler {r : Handled α X} (h : Quiet ln r.1) : Quiet ln (afterHandler r) := by
  obtain ⟨ln', res⟩ := r
  cases res with
  | ok x => exact h
  | error p => exact h.poison

theorem tick_quiet (ln : LogicalNode α) : Quiet ln ln.tick.1 :=
  .reRole rfl rfl rfl id id id

theorem into_pre_candidate_quiet (ln : LogicalNode α) : Quiet ln ln.into_pre_candidate := by
  unfold LogicalNode.into_pre_candidate
  split
  · rename_i f hst
    exact .reRole rfl rfl rfl (fun _ hr => by rcases hr with hr | hr <;> cases hr)
      (halted_elim hst (by simp)) fun _ => nofun
  · exact .refl ln

theorem reset_heartbeat_quiet (ln : LogicalNode α) : Quiet ln ln.reset_heartbeat := by
  unfold LogicalNode.reset_heartbeat
  split
  · rename_i f hst
    exact .reRole rfl rfl rfl (fun _ hr => by rcases hr with hr | hr <;> cases hr)
      (halted_elim hst (by simp)) fun _ => nofun
  · rename_i l hst
    refine .reRole rfl rfl rfl (fun hs _ => hs (.inr ?_)) (halted_elim hst (by simp)) ?_
    · simp [LogicalNode.node_role, hst, RoleState.node_role]
    · intro hpace l' hl'
      obtain rfl := RoleState.Leader.inj hl'
      exact hpace l hst
  · exact .refl ln

theorem into_follower_quiet (ln : LogicalNode α) (term : Nat) (leader_id : Option NodeId)
    (timeout : Nat) : Quiet ln (ln.into_follower term leader_id timeout).1 := by
  have hfollow : ∀ (n : RaftNode α Follower), ¬((ln.withRole n .Follower).node_role = .Candidate ∨
      (ln.withRole n .Follower).node_role = .Leader) := by
    intro n hr
    rcases hr with hr | hr <;> cases hr
  have hcur : (ln.node.transition (Follower.mk leader_id ln.current_tick timeout)).current_term =
      ln.current_term := rfl
  unfold LogicalNode.into_follower
  split
  · exact .refl ln
  rename_i hp
  unfold RaftNode.try_into_follower RaftNode.advance_term
  rw [hcur]
  dsimp only
  rcases Nat.lt_trichotomy term ln.current_term with hlt | heq | hgt
  · rw [if_pos hlt]
    exact (Quiet.refl ln).poison
  · rw [if_neg (by omega), if_neg (by omega)]
    exact .reRole rfl rfl rfl (fun _ hr => absurd hr (hfollow _)) (fun h => absurd h hp)
      fun _ => nofun
  · rw [if_neg (by omega), if_pos hgt]
    exact .hardState rfl rfl rfl hgt.le (fun _ hr => absurd hr (hfollow _))
      (fun h => absurd h hp) fun _ => nofun

theorem campaigning_quiet (hp : ln.is_poisoned = false) (timeout : Nat) :
    Quiet ln (campaigning ln timeout) := by
  have hterm : (campaigning ln timeout).current_term = ln.current_term + 1 := rfl
  refine .hardState rfl rfl rfl (Nat.le_succ _) (fun _ _ => ?_) (fun h => ?_) fun _ => nofun
  · omega
  · rw [hp] at h
    cases h

theorem begin_campaign_quiet (ln : LogicalNode α) (timeout : Nat) :
    Quiet ln (begin_campaign ln timeout).1 := by
  unfold begin_campaign
  split
  · exact .refl ln
  rcases into_candidate_cases ln timeout with ⟨heq, -⟩ | ⟨p, heq⟩ | ⟨heq, hp⟩
  · rw [heq]
    exact .refl ln
  · rw [heq]
    exact (Quiet.refl ln).poison
  · rw [heq]
    exact campaigning_quiet hp timeout

theorem into_leader_quiet (ln : LogicalNode α) (peer_ids : List NodeId) :
    Quiet ln (ln.into_leader peer_ids).1 := by
  unfold LogicalNode.into_leader
  split
  · rename_i c hst
    unfold RaftNode.try_into_leader
    split
    · rename_i n hn
      split at hn
      · cases hn
      · obtain rfl := Except.ok.inj hn
        rename_i leader hnew
        refine .reRole rfl rfl rfl (fun hs _ => hs (.inl ?_)) (halted_elim hst (by simp))
          fun _ l hl => ?_
        · simp [LogicalNode.node_role, hst, RoleState.node_role]
        · obtain rfl := RoleState.Leader.inj hl
          exact PacedLeader.new hnew
    · exact (Quiet.refl ln).poison
  · exact .refl ln

theorem observe_pre_vote_term_quiet (ln : LogicalNode α) (peer_term timeout : Nat) :
    Quiet ln (observe_pre_vote_term ln peer_term timeout).1 := by
  rcases observe_pre_vote_term_cases ln peer_term timeout with heq | heq
  · rw [heq]
    exact .refl ln
  · rw [heq]
    exact into_follower_quiet ln peer_term none timeout

theorem process_vote_response_quiet (ln : LogicalNode α) (term : Nat) (peer_ids : List NodeId)
    (peer_id : NodeId) (resp : RequestVoteResponse) (timeout : Nat) :
    Quiet ln (process_vote_response ln term peer_ids peer_id resp timeout).1 := by
  by_cases hgt : resp.term > term
  · rw [process_vote_response_overtaken hgt]
    exact into_follower_quiet ln resp.term none timeout
  unfold process_vote_response
  rw [if_neg hgt]
  split
  · split
    · exact .refl ln
    split
    · rename_i c hst
      split
      · have hvote : Quiet ln
            (ln.withRole (ln.node.transition (c.add_vote peer_id)) .Candidate) := by
          refine .reRole rfl rfl rfl (fun hs _ => hs (.inl ?_)) (halted_elim hst (by simp))
            fun _ => nofun
          simp [LogicalNode.node_role, hst, RoleState.node_role]
        dsimp only
        split
        · have h := into_leader_quiet
            (ln.withRole (ln.node.transition (c.add_vote peer_id)) .Candidate) peer_ids
          generalize LogicalNode.into_leader _ peer_ids = r at h
          obtain ⟨ln', res⟩ := r
          cases res <;> exact hvote.trans h
        · exact hvote
      · exact .refl ln
    · exact .refl ln
  · exact .refl ln

theorem decideVote_quiet (ln : LogicalNode α) (candidate_id : NodeId)
    (req_term req_last_log_index req_last_log_term : Nat) :
    Quiet ln (ln.decideVote candidate_id req_term req_last_log_index req_last_log_term).1 := by
  unfold LogicalNode.decideVote
  split
  · rename_i f hst
    unfold RaftNode.attempt_grant_vote
    split
    · rename_i n vote_granted hvote
      split at hvote
      · obtain ⟨rfl, -⟩ := Prod.mk.inj hvote
        exact .hardState rfl rfl rfl le_rfl
          (fun _ hr => by rcases hr with hr | hr <;> cases hr) (halted_elim hst (by simp))
          fun _ => nofun
      · obtain ⟨rfl, -⟩ := Prod.mk.inj hvote
        exact .reRole rfl rfl rfl (fun _ hr => by rcases hr with hr | hr <;> cases hr)
          (halted_elim hst (by simp)) fun _ => nofun
  · exact .refl ln

theorem handle_request_vote_quiet (ln : LogicalNode α) (candidate_id : NodeId)
    (req_term req_last_log_index req_last_log_term timeout : Nat) :
    Quiet ln (ln.handle_request_vote candidate_id req_term req_last_log_index req_last_log_term
      timeout).1 := by
  unfold LogicalNode.handle_request_vote
  split
  · exact .refl ln
  split
  · have h := into_follower_quiet ln req_term none timeout
    generalize ln.into_follower req_term none timeout = r at h
    obtain ⟨ln', res⟩ := r
    cases res with
    | ok x => exact h.trans (decideVote_quiet ln' _ _ _ _)
    | error p => exact h
  · exact decideVote_quiet ln _ _ _ _

theorem handle_pre_vote_quiet (ln : LogicalNode α)
    (req_term req_last_log_index req_last_log_term : Nat) :
    Quiet ln (ln.handle_pre_vote req_term req_last_log_index req_last_log_term).1 := by
  unfold LogicalNode.handle_pre_vote
  split <;> exact .refl ln

/-- A leader's data changes, its log and its term do not. -/
theorem Quiet.relead {l : Leader} (hst : ln.node.state = .Leader l) {l' : Leader}
    (hpace : PacedLeader l → PacedLeader l') :
    Quiet ln (ln.withRole (ln.node.transition l') .Leader) := by
  refine .reRole rfl rfl rfl (fun hs _ => hs (.inr ?_)) (halted_elim hst (by simp)) ?_
  · simp [LogicalNode.node_role, hst, RoleState.node_role]
  · intro hp l₁ hl₁
    obtain rfl := RoleState.Leader.inj hl₁
    exact hpace (hp l hst)

theorem build_append_entries_request_quiet (ln : LogicalNode α) (peer_id : NodeId) (term : Nat)
    (node_id : NodeId) (last_committed : Nat) :
    Quiet ln (build_append_entries_request ln peer_id term node_id last_committed).1 := by
  unfold build_append_entries_request
  split
  · exact .refl ln
  dsimp only
  split
  · exact .refl ln
  split
  · exact (Quiet.refl ln).poison
  · exact .refl ln

theorem prepare_replication_quiet (ln : LogicalNode α) (peer_id : NodeId)
    (params : ReplicationRoundParams) : Quiet ln (prepare_replication ln peer_id params).1 := by
  have hstrategy : Quiet ln (determine_replication_strategy ln peer_id params).1 := by
    unfold determine_replication_strategy
    split
    · dsimp only
      split
      · exact .refl ln
      · have h := build_append_entries_request_quiet ln peer_id params.term params.node_id
          params.last_committed
        generalize build_append_entries_request ln peer_id params.term params.node_id
          params.last_committed = r at h
        obtain ⟨ln', p | e | req⟩ := r <;> exact h
    · exact .refl ln
  unfold prepare_replication
  generalize determine_replication_strategy ln peer_id params = r at hstrategy
  obtain ⟨ln', p | e | st⟩ := r
  · exact hstrategy
  · exact hstrategy.poison
  · exact hstrategy

theorem advance_last_committed_quiet (ln : LogicalNode α) (index : Nat) :
    Quiet ln (ln.advance_last_committed index).1 := by
  unfold LogicalNode.advance_last_committed
  split
  · exact .refl ln
  unfold RaftNode.advance_last_committed RaftNode.update_commit_index_only
  dsimp only
  by_cases hlt : index < ln.node.last_committed
  · rw [if_pos hlt]
    exact .refl ln
  rw [if_neg hlt]
  by_cases hgt : index > ln.node.last_log_index
  · rw [if_pos hgt]
    exact (Quiet.refl ln).poison
  rw [if_neg hgt]
  by_cases hup : index > ln.node.last_committed
  · rw [if_pos hup]
    refine ⟨rfl, rfl, rfl, rfl, .inr ⟨hup, not_lt.mp hgt⟩, le_rfl, id, id, id, fun hc => ⟨rfl, ?_⟩⟩
    refine (Since.start (.refl _)).write ⟨rfl, rfl, rfl, .inr ⟨?_, not_lt.mp hgt⟩⟩
    change ln.node.disk.last_committed < index
    rw [← hc]
    exact hup
  · rw [if_neg hup]
    exact .refl ln

theorem update_leader_last_committed_quiet (ln : LogicalNode α) :
    Quiet ln (update_leader_last_committed ln).1 := by
  unfold update_leader_last_committed
  split
  · exact .refl ln
  split
  · dsimp only
    split
    · exact advance_last_committed_quiet ln _
    · exact .refl ln
  · exact .refl ln

theorem process_replication_response_quiet (ln : LogicalNode α) (term : Nat) (peer_id : NodeId)
    (outcome : ReplicationOutcome) (timeout : Nat) :
    Quiet ln (process_replication_response ln term peer_id outcome timeout).1 := by
  by_cases hgt : outcome.term > term
  · rw [process_replication_response_overtaken hgt]
    exact into_follower_quiet ln outcome.term none timeout
  unfold process_replication_response
  rw [if_neg hgt]
  split
  · exact .refl ln
  split
  · rename_i l hst
    split
    · dsimp only
      have hack := fun hl : PacedLeader l =>
        hl.acknowledge peer_id ((l.next_index.entries.length + 1) / 2 + 1)
      generalize l.acknowledge_heartbeat peer_id ((l.next_index.entries.length + 1) / 2 + 1) = l₁
        at hack
      cases hrec : reconcile_peer l₁ peer_id term outcome with
      | error e => exact .relead hst hack
      | ok r =>
        obtain ⟨l₂, updated⟩ := r
        have hlead : Quiet ln (ln.withRole (ln.node.transition l₂) .Leader) :=
          .relead hst fun hl => (hack hl).reconcile hrec
        cases updated with
        | false => exact hlead
        | true =>
          have h := update_leader_last_committed_quiet
            (ln.withRole (ln.node.transition l₂) .Leader)
          have hagain : (ln.withRole (ln.node.transition l₁) .Leader).withRole
              ((ln.withRole (ln.node.transition l₁) .Leader).node.transition l₂) .Leader =
              ln.withRole (ln.node.transition l₂) .Leader := rfl
          dsimp only
          rw [if_pos rfl, hagain]
          generalize update_leader_last_committed _ = r at h
          obtain ⟨ln', res⟩ := r
          cases res <;> exact hlead.trans h
    · exact .refl ln
  · exact .refl ln

/-- A node that follows the sender does with its commit index and its log what a demotion
does. -/
theorem followed_eq (ln : LogicalNode α) (term : Nat) (leader_id : NodeId) (timeout : Nat) :
    (match ln.into_follower term (some leader_id) timeout with
      | (ln, .ok ()) => (ln, .ok .Valid)
      | (ln, .error p) => (ln, .error p) : Handled α TermCheckResult).1 =
      (ln.into_follower term (some leader_id) timeout).1 := by
  generalize ln.into_follower term (some leader_id) timeout = r
  obtain ⟨ln', res⟩ := r
  cases res <;> rfl

theorem validate_leader_rpc_term_quiet (ln : LogicalNode α) (req_term : Nat)
    (leader_id : NodeId) (rpc_name : String) (timeout : Nat) :
    Quiet ln (ln.validate_leader_rpc_term req_term leader_id rpc_name timeout).1 := by
  have hdemote := into_follower_quiet ln req_term (some leader_id) timeout
  rw [← followed_eq] at hdemote
  unfold LogicalNode.validate_leader_rpc_term
  dsimp only
  split
  · exact .refl ln
  split
  · exact .refl ln
  split
  · exact hdemote
  split
  · exact hdemote
  · exact (Quiet.refl ln).poison
  · rename_i f hst
    exact .reRole rfl rfl rfl (fun _ hr => by rcases hr with hr | hr <;> cases hr)
      (halted_elim hst (by simp)) fun _ l hl => by cases hl
  · exact hdemote
  · exact .refl ln

theorem handle_install_snapshot_quiet (ln : LogicalNode α) (leader_id : NodeId)
    (req_term last_included_index timeout : Nat) :
    Quiet ln (ln.handle_install_snapshot leader_id req_term last_included_index timeout).1 := by
  have h := validate_leader_rpc_term_quiet ln req_term leader_id "InstallSnapshot" timeout
  unfold LogicalNode.handle_install_snapshot
  dsimp only
  generalize ln.validate_leader_rpc_term req_term leader_id "InstallSnapshot" timeout = r at h
  obtain ⟨ln', p | res⟩ := r
  · exact h
  cases res with
  | Stale => exact h
  | Valid =>
    dsimp only
    split
    · exact h
    · exact h.trans (reset_heartbeat_quiet ln')

/-- The probe under the guard. -/
theorem prepare_probe_wrote (sh : ConsensusShell α) :
    ∃ f : LogicalNode α → Handled α (Except ConsensusError ReadProbe),
      sh.prepare_probe = sh.write f ∧ Quiet sh.inner (f sh.inner).1 := by
  refine ⟨_, rfl, ?_⟩
  cases hst : sh.inner.node.state with
  | Leader l =>
    dsimp only
    have hnext : (l.prepare_read_probe sh.inner.node_id).1.next_index = l.next_index := by
      unfold Leader.prepare_read_probe
      dsimp only
      split <;> rfl
    generalize l.prepare_read_probe sh.inner.node_id = r at hnext
    obtain ⟨l', target⟩ := r
    refine .relead hst fun hl => ?_
    unfold PacedLeader
    rw [hnext]
    exact hl
  | Follower f => exact .refl _
  | PreCandidate f => exact .refl _
  | Candidate f => exact .refl _
  | Poisoned => exact .refl _

theorem prepare_probe_quiet (sh : ConsensusShell α) :
    Quiet sh.inner sh.prepare_probe.1.inner := by
  obtain ⟨f, heq, hq⟩ := prepare_probe_wrote sh
  rw [heq, ConsensusShell.write_inner]
  exact hq.afterHandler

/-! ## Append and proposal -/

theorem into_follower_committed (ln : LogicalNode α) (term : Nat) (leader_id : Option NodeId)
    (timeout : Nat) :
    (ln.into_follower term leader_id timeout).1.last_committed = ln.last_committed := by
  unfold LogicalNode.into_follower
  split
  · rfl
  unfold RaftNode.try_into_follower RaftNode.advance_term
  dsimp only
  split_ifs <;> rfl

theorem validate_leader_rpc_term_committed (ln : LogicalNode α) (req_term : Nat)
    (leader_id : NodeId) (rpc_name : String) (timeout : Nat) :
    (ln.validate_leader_rpc_term req_term leader_id rpc_name timeout).1.last_committed =
      ln.last_committed := by
  have hdemote := into_follower_committed ln req_term (some leader_id) timeout
  rw [← followed_eq] at hdemote
  unfold LogicalNode.validate_leader_rpc_term
  dsimp only
  split_ifs
  · rfl
  · rfl
  · exact hdemote
  split
  · exact hdemote
  · rfl
  · rfl
  · exact hdemote
  · rfl

/-- A request of an earlier term is never valid. -/
theorem validate_leader_rpc_term_valid (ln : LogicalNode α) (req_term : Nat)
    (leader_id : NodeId) (rpc_name : String) (timeout : Nat)
    (h : (ln.validate_leader_rpc_term req_term leader_id rpc_name timeout).2 = .ok .Valid) :
    ln.current_term ≤ req_term := by
  unfold LogicalNode.validate_leader_rpc_term at h
  dsimp only at h
  split_ifs at h with hp hlt
  · cases h
  · omega
  · omega

/-- An append is a reconciliation of the log by a follower that has only changed its role
and its term, or no change of the log at all. -/
theorem handle_append_entries_cases (ln : LogicalNode α) (leader_id : NodeId)
    (req_term prev_log_index prev_log_term : Nat) (entries : List (LogEntry α))
    (leader_commit timeout : Nat) :
    Quiet ln (ln.handle_append_entries leader_id req_term prev_log_index prev_log_term entries
      leader_commit timeout).1 ∨
    ∃ ln₁ f, Quiet ln ln₁ ∧ ln₁.node.state = .Follower f ∧
      ln₁.last_committed = ln.last_committed ∧ ln.current_term ≤ req_term ∧
      ((ln.handle_append_entries leader_id req_term prev_log_index prev_log_term entries
          leader_commit timeout).1 =
        ln₁.withRole ((ln₁.node.transition f).reconcile_log prev_log_index prev_log_term entries
          leader_commit).1 .Follower ∨
       (ln.handle_append_entries leader_id req_term prev_log_index prev_log_term entries
          leader_commit timeout).1 =
        (ln₁.withRole ((ln₁.node.transition f).reconcile_log prev_log_index prev_log_term entries
          leader_commit).1 .Follower).poison) := by
  have hquiet := validate_leader_rpc_term_quiet ln req_term leader_id "AppendEntries" timeout
  have hcommit := validate_leader_rpc_term_committed ln req_term leader_id "AppendEntries" timeout
  have hvalid := validate_leader_rpc_term_valid ln req_term leader_id "AppendEntries" timeout
  unfold LogicalNode.handle_append_entries
  dsimp only
  generalize ln.validate_leader_rpc_term req_term leader_id "AppendEntries" timeout = r
    at hquiet hcommit hvalid
  obtain ⟨ln', p | res⟩ := r
  · exact .inl hquiet
  cases res with
  | Stale => exact .inl hquiet
  | Valid =>
    have hbeat := hquiet.trans (reset_heartbeat_quiet ln')
    have hc : ln'.reset_heartbeat.last_committed = ln.last_committed := by
      rw [← hcommit]
      unfold LogicalNode.reset_heartbeat
      split <;> rfl
    dsimp only
    generalize ln'.reset_heartbeat = ln₁ at hbeat hc
    cases hst : ln₁.node.state with
    | Follower f =>
      refine .inr ⟨ln₁, f, hbeat, hst, hc, hvalid rfl, ?_⟩
      dsimp only
      generalize (ln₁.node.transition f).reconcile_log prev_log_index prev_log_term entries
        leader_commit = r
      obtain ⟨n, e | result⟩ := r
      · exact .inr rfl
      · exact .inl rfl
    | PreCandidate f => exact .inl hbeat
    | Candidate f => exact .inl hbeat
    | Leader f => exact .inl hbeat
    | Poisoned => exact .inl hbeat

/-- A proposal appends one entry of the leader's term, or changes nothing of the log. -/
theorem propose_cases (ln : LogicalNode α) (command : α) :
    (∀ i, (ln.propose command).2 ≠ .ok (.ok i)) ∧ Quiet ln (ln.propose command).1 ∨
    (∃ l, ln.node.state = .Leader l) ∧
      (ln.propose command).2 = .ok (.ok (ln.last_log_index + 1)) ∧
      (ln.propose command).1 = { ln with
        node := ln.node.append_entries [⟨ln.last_log_index + 1, ln.current_term, command⟩] } := by
  unfold LogicalNode.propose
  cases hst : ln.node.state with
  | Leader l =>
    dsimp only
    unfold RaftNode.propose
    have hlast : (ln.node.transition l).last_log_index = ln.last_log_index := rfl
    rw [hlast]
    cases hadd : checked_add "LogIndex" ln.last_log_index 1 with
    | error e => exact .inl ⟨(fun i hi => nomatch hi), (Quiet.relead hst id).poison⟩
    | ok index =>
      obtain ⟨rfl, -⟩ := checked_add_ok hadd
      refine .inr ⟨⟨l, rfl⟩, rfl, ?_⟩
      dsimp only
      unfold LogicalNode.withRole RaftNode.append_entries RaftNode.write RaftNode.transition
      dsimp only
      rw [← hst]
      rfl
  | Follower f => exact .inl ⟨(fun i hi => nomatch hi), .refl ln⟩
  | PreCandidate f => exact .inl ⟨(fun i hi => nomatch hi), .refl ln⟩
  | Candidate f => exact .inl ⟨(fun i hi => nomatch hi), .refl ln⟩
  | Poisoned => exact .inl ⟨(fun i hi => nomatch hi), .refl ln⟩

end raft_engine.engine
