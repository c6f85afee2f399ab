-- Elections of the engine are elections of the protocol: role changes, votes
-- that are asked for, given and counted, and the promotion to leader.
import LactoSensus.Refinement

open Function
open common.types
open journal
open quorum
open raft_engine.storage
open raft_engine.node
open raft_engine.engine
open raft_engine.consensus
open raft_engine.shell
open raft_engine.cluster
open raft (Entry Step Steps Safe Grows Frame Settled lastTerm UpToDate update₂)

namespace raft_engine.refinement

variable {α : Type} {cfg : Config} {a₀ a a' : Protocol α} {n : NodeId} {ln : LogicalNode α}

/-! ## Stepping down -/

theorem DiskRel.observe (hsafe : Safe (voters cfg) a) {d : SledStorage α} (h : DiskRel a n d)
    {t : Nat} (hlt : a.term n < t) :
    DiskRel { a with term := update a.term n t, role := update a.role n .follower } n
      (d.save_hard_state t none) where
  term := by simp [SledStorage.current_term, SledStorage.save_hard_state]
  vote := by
    simp [SledStorage.voted_for, SledStorage.save_hard_state, hsafe.election.voted_none hlt]
  log := h.log.save_hard_state t none
  commit := h.commit

theorem DiskRel.retire {d : SledStorage α} (h : DiskRel a n d) :
    DiskRel { a with role := update a.role n .follower } n d :=
  ⟨h.term, h.vote, h.log, h.commit⟩

/-- What `into_follower` leaves behind: a follower in the given term, or a poisoned node. -/
theorem into_follower_tracks (hsafe : Safe (voters cfg) a₀) (h : Tracks cfg a₀ a n ln)
    (t : Nat) (leader_id : Option NodeId) (timeout : Nat) :
    ∃ a', Tracks cfg a₀ a' n (ln.into_follower t leader_id timeout).1 ∧
      ((ln.into_follower t leader_id timeout).2 = .ok () →
        (∃ f, (ln.into_follower t leader_id timeout).1.node.state = .Follower f) ∧
          a'.term n = t) := by
  unfold LogicalNode.into_follower
  by_cases hp : ln.is_poisoned = true
  · rw [if_pos hp]
    exact ⟨a, h, by simp⟩
  rw [if_neg hp]
  have hcur : ln.node.current_term = a.term n := h.disk.term
  unfold RaftNode.try_into_follower RaftNode.advance_term
  have hcur' : (ln.node.transition (Follower.mk leader_id ln.current_tick timeout)).current_term
      = a.term n := hcur
  rw [hcur']
  dsimp only
  rcases Nat.lt_trichotomy t (a.term n) with hlt | rfl | hgt
  · -- a lower term is fatal
    rw [if_pos hlt]
    exact ⟨a, h.reRole rfl rfl h.commit trivial,
      by simp [LogicalNode.apply_fatal]⟩
  · rw [if_neg (lt_irrefl _), if_neg (lt_irrefl _)]
    refine ⟨_, h.step (.single (.retire a)) rfl h.disk.retire rfl h.commit le_rfl
      ?_, ?_⟩
    · simp [LogicalNode.withRole, RaftNode.transition, RoleRel]
    · exact fun _ => ⟨⟨_, rfl⟩, rfl⟩
  · rw [if_neg (by omega), if_pos hgt]
    refine ⟨_, h.write (.single (.observe a t hgt)) rfl
      (h.disk.observe (h.safe hsafe) hgt) rfl h.commit le_rfl ?_, ?_⟩
    · simp [LogicalNode.withRole, RaftNode.transition, RoleRel]
    · exact fun _ => ⟨⟨_, rfl⟩, by simp⟩

/-! ## Campaigns -/

theorem DiskRel.campaign {d : SledStorage α} (h : DiskRel a n d) :
    DiskRel
      { a with
        term := update a.term n (a.term n + 1)
        role := update a.role n .candidate
        voted := update₂ a.voted n (a.term n + 1) (some n)
        cand := update₂ a.cand n (a.term n + 1) (some (a.log n)) } n
      (d.save_hard_state (a.term n + 1) (some n)) where
  term := by simp [SledStorage.current_term, SledStorage.save_hard_state]
  vote := by simp [SledStorage.voted_for, SledStorage.save_hard_state]
  log := h.log.save_hard_state _ _
  commit := h.commit

/-- A node of the cluster counts itself, so it is alone or needs at least two votes. -/
theorem one_vote_is_short (cfg : Config) (n : NodeId) :
    1 < quorumOf (cfg.peer_ids n) ∨ quorumOf (cfg.peer_ids n) = 1 := by
  unfold quorumOf
  dsimp only
  omega

theorem campaigning_tracks (hmem : n ∈ cfg.members) (h : Tracks cfg a₀ a n ln)
    (timeout : Nat) :
    ∃ a', Tracks cfg a₀ a' n (campaigning ln timeout) ∧
      a'.cand n (a'.term n) = some (a'.log n) := by
  have hcur : ln.current_term = a.term n := h.disk.term
  have hid : ln.node_id = n := h.node_id
  refine ⟨_, h.write (.single (.campaign a))
    (f := SledStorage.save_hard_state (ln.current_term + 1) (some ln.node_id)) rfl ?_ rfl
    h.commit le_rfl ?_, by simp⟩
  · rw [hcur, hid]
    exact h.disk.campaign
  · refine ⟨by simp, ?_, ?_, ?_, ?_⟩
    · simp [hid]
    · simpa [hid, voters] using hmem
    · simp [hid]
    · simpa [Candidate.vote_count] using one_vote_is_short cfg n

/-- A campaign that begins has really begun, with the coordinates of the node's log. -/
theorem begin_campaign_tracks (hsafe : Safe (voters cfg) a₀) (hmem : n ∈ cfg.members)
    (h : Tracks cfg a₀ a n ln) (timeout : Nat) :
    ∃ a', Tracks cfg a₀ a' n (begin_campaign ln timeout).1 ∧
      ∀ params, (begin_campaign ln timeout).2 = .ok params → params.node_id = n ∧
        CampaignFact a' n params.term params.last_log_index params.last_log_term := by
  unfold begin_campaign
  by_cases hp : ln.is_poisoned = true
  · rw [if_pos hp]
    exact ⟨a, h, by simp⟩
  rw [if_neg hp]
  rcases into_candidate_cases ln timeout with ⟨heq, hl | hp'⟩ | ⟨p, heq⟩ | ⟨heq, hp'⟩
  · rw [heq]
    refine ⟨a, h, ?_⟩
    rintro params hparams
    obtain rfl := Except.ok.inj hparams
    obtain ⟨l, hl⟩ := hl
    have hrole := h.role
    rw [hl] at hrole
    have hlead := ((h.safe hsafe).election.role_leader n hrole.role).1
    obtain ⟨c, hc⟩ := Option.ne_none_iff_exists'.mp
      ((h.safe hsafe).election.leader_cand _ n hlead)
    refine ⟨h.node_id, c, ?_, .inl ?_⟩
    · rw [show ln.current_term = a.term n from h.disk.term]
      exact hc
    · rw [show ln.current_term = a.term n from h.disk.term]
      exact hlead
  · exact absurd hp' hp
  · rw [heq]
    exact ⟨a, h.poison, by simp⟩
  · rw [heq]
    obtain ⟨a', ha', hc⟩ := campaigning_tracks hmem h timeout
    refine ⟨a', ha', ?_⟩
    rintro params hparams
    obtain rfl := Except.ok.inj hparams
    refine ⟨ha'.node_id, a'.log n, ?_, .inr ⟨?_, ?_⟩⟩
    · rw [show (campaigning ln timeout).current_term = a'.term n from ha'.disk.term]
      exact hc
    · exact ha'.disk.log.last_log_index
    · exact ha'.disk.log.last_log_term

/-! ## Promotion -/

theorem mem_peer_ids {p : NodeId} : p ∈ cfg.peer_ids n ↔ p ∈ cfg.members ∧ p ≠ n := by
  simp [Config.peer_ids]

theorem peer_ids_length (hmem : n ∈ cfg.members) :
    (cfg.peer_ids n).length + 1 = (voters cfg).card := by
  have hset : (cfg.peer_ids n).toFinset = (voters cfg).erase n := by
    ext p
    simp [voters, mem_peer_ids, and_comm]
  have hnd : (cfg.peer_ids n).Nodup := cfg.nodup.filter _
  have hin : n ∈ voters cfg := by simpa [voters] using hmem
  rw [← List.toFinset_card_of_nodup hnd, hset, Finset.card_erase_of_mem hin]
  have := Finset.card_pos.mpr ⟨n, hin⟩
  omega

theorem majority_of_quorum (hmem : n ∈ cfg.members)
    {Q : Finset NodeId} (hsub : Q ⊆ voters cfg) (hq : quorumOf (cfg.peer_ids n) ≤ Q.card) :
    Majority (voters cfg) Q := by
  refine majority_of_card hsub ?_
  rw [← peer_ids_length hmem]
  exact hq

theorem leader_new_cases (peer_ids : List NodeId) (last_log_index last_heartbeat : Nat) :
    (∃ e, Leader.new peer_ids last_log_index last_heartbeat = .error e) ∨
    ∃ l, Leader.new peer_ids last_log_index last_heartbeat = .ok l ∧
      (∀ p, l.match_index.get? p = if p ∈ peer_ids then some 0 else none) ∧
      (∀ p, l.next_index.get? p = if p ∈ peer_ids then some (last_log_index + 1) else none) := by
  unfold Leader.new
  by_cases hnil : peer_ids = []
  · rw [if_pos hnil]
    refine .inr ⟨_, rfl, ?_, ?_⟩ <;> simp [hnil]
  · rw [if_neg hnil]
    cases hadd : checked_add "LogIndex" last_log_index 1 with
    | error e => exact .inl ⟨_, rfl⟩
    | ok next =>
      obtain ⟨rfl, -⟩ := checked_add_ok hadd
      refine .inr ⟨_, rfl, ?_, ?_⟩
      · intro p
        rw [ordmap.OrdMap.get?_insertAll_const, ordmap.OrdMap.get?_empty]
      · intro p
        rw [ordmap.OrdMap.get?_insertAll_const, ordmap.OrdMap.get?_empty]

theorem DiskRel.elect {d : SledStorage α} {Q : Finset NodeId} (h : DiskRel a n d) :
    DiskRel
      { a with
        role := update a.role n .leader
        leader := update a.leader (a.term n) (some n)
        electors := update a.electors (a.term n) Q
        glog := update a.glog (a.term n) (a.log n)
        ack := update₂ a.ack n (a.term n) (a.log n).length } n d :=
  ⟨h.term, h.vote, h.log, h.commit⟩

/-- A candidate with a quorum of real votes becomes the leader of its term. -/
theorem into_leader_of_candidate (ln : LogicalNode α) (c : Candidate) (peer_ids : List NodeId) :
    (ln.withRole (ln.node.transition c) .Candidate).into_leader peer_ids =
      match (ln.node.transition c).try_into_leader peer_ids ln.current_tick with
      | .ok n => ((ln.withRole (ln.node.transition c) .Candidate).withRole n .Leader, .ok ())
      | .error e => (ln.withRole (ln.node.transition c) .Candidate).apply_fatal e := rfl

theorem into_leader_tracks (hmem : n ∈ cfg.members)
    (h : Tracks cfg a₀ a n ln) (hrole : a.role n = .candidate)
    {c : Candidate} (hsub : c.votes_received ⊆ voters cfg)
    (hvotes : ∀ v ∈ c.votes_received, a.voted v (a.term n) = some n)
    (hq : quorumOf (cfg.peer_ids n) ≤ c.vote_count) :
    ∃ a', Tracks cfg a₀ a' n
      ((ln.withRole (ln.node.transition c) .Candidate).into_leader (cfg.peer_ids n)).1 := by
  have hmaj : Majority (voters cfg) c.votes_received := majority_of_quorum hmem hsub hq
  have hlast : (ln.node.transition c).last_log_index = (a.log n).length :=
    h.disk.log.last_log_index
  rw [into_leader_of_candidate]
  unfold RaftNode.try_into_leader
  rw [hlast]
  rcases leader_new_cases (cfg.peer_ids n) (a.log n).length ln.current_tick with
    ⟨e, he⟩ | ⟨l, hl, hmatch, hnext⟩
  · rw [he]
    exact ⟨a, h.reRole rfl rfl h.commit trivial⟩
  · rw [hl]
    refine ⟨_, h.step (.single (.elect a c.votes_received hrole hmaj hvotes)) rfl h.disk.elect
      rfl h.commit le_rfl ?_⟩
    change LeaderRel cfg _ n l
    refine ⟨by simp, ?_, ?_, ?_⟩
    · intro p
      rw [hmatch]
      by_cases hmp : p ∈ cfg.peer_ids n <;> simp [hmp]
    · intro p v hv
      rw [hmatch] at hv
      split at hv
      · obtain rfl := Option.some.inj hv
        exact Nat.zero_le _
      · cases hv
    · intro p v hv
      rw [hnext] at hv
      split at hv
      · obtain rfl := Option.some.inj hv
        exact ⟨by omega, le_rfl⟩
      · cases hv

/-- What the campaign task does with a reply of a member. -/
theorem process_vote_response_tracks (hsafe : Safe (voters cfg) a₀)
    (hmem : n ∈ cfg.members) (h : Tracks cfg a₀ a n ln)
    {term : Nat} {peer_id : NodeId} {resp : RequestVoteResponse} (timeout : Nat)
    (hpeer : peer_id ∈ cfg.members)
    (hvote : resp.vote_granted = true → a.voted peer_id term = some n) :
    ∃ a', Tracks cfg a₀ a' n
      (process_vote_response ln term (cfg.peer_ids n) peer_id resp timeout).1 := by
  by_cases hgt : resp.term > term
  · rw [process_vote_response_overtaken hgt]
    obtain ⟨a', ha', -⟩ := into_follower_tracks hsafe h resp.term none timeout
    exact ⟨a', ha'⟩
  unfold process_vote_response
  rw [if_neg hgt]
  by_cases hgr : resp.vote_granted = true
  swap
  · rw [if_neg hgr]
    exact ⟨a, h⟩
  rw [if_pos hgr]
  by_cases hp : ln.is_poisoned = true
  · rw [if_pos hp]
    exact ⟨a, h⟩
  rw [if_neg hp]
  have hp' : ln.is_poisoned = false := by simpa using hp
  cases hst : ln.node.state with
  | Follower f => exact ⟨a, h⟩
  | PreCandidate f => exact ⟨a, h⟩
  | Leader f => exact ⟨a, h⟩
  | Poisoned => exact ⟨a, h⟩
  | Candidate c =>
    dsimp only
    by_cases hterm : ln.current_term = term
    swap
    · rw [if_neg hterm]
      exact ⟨a, h⟩
    rw [if_pos hterm]
    have hcand : CandidateRel cfg a n c := h.role_of hst
    have hcur : a.term n = term := by
      rw [← hterm]
      exact h.disk.term.symm
    have hsub : (c.add_vote peer_id).votes_received ⊆ voters cfg := by
      refine Finset.insert_subset ?_ hcand.voters
      simpa [voters] using hpeer
    have hvotes : ∀ v ∈ (c.add_vote peer_id).votes_received, a.voted v (a.term n) = some n := by
      intro v hv
      rcases Finset.mem_insert.mp hv with rfl | hv
      · rw [hcur]
        exact hvote hgr
      · exact hcand.votes v hv
    by_cases hq : (c.add_vote peer_id).vote_count ≥ quorumOf (cfg.peer_ids n)
    · rw [if_pos hq]
      obtain ⟨a', ha'⟩ := into_leader_tracks hmem h hcand.role hsub hvotes hq
      refine ⟨a', ?_⟩
      generalize (ln.withRole (ln.node.transition (c.add_vote peer_id)) .Candidate).into_leader
        (cfg.peer_ids n) = r at ha'
      obtain ⟨ln', res⟩ := r
      cases res <;> exact ha'
    · rw [if_neg hq]
      refine ⟨a, h.reRole rfl rfl h.commit ?_⟩
      exact ⟨hcand.role, Finset.mem_insert_of_mem hcand.own, hsub, hvotes,
        .inl (Nat.lt_of_not_le hq)⟩

theorem promote_tracks (hmem : n ∈ cfg.members)
    (h : Tracks cfg a₀ a n ln) (halone : quorumOf (cfg.peer_ids n) = 1) :
    ∃ a', Tracks cfg a₀ a' n (ln.into_leader (cfg.peer_ids n)).1 := by
  cases hst : ln.node.state with
  | Candidate c =>
    have hcand : CandidateRel cfg a n c := h.role_of hst
    have hself : ln.withRole (ln.node.transition c) .Candidate = ln := by
      simp only [LogicalNode.withRole, RaftNode.transition, ← hst]
    have hq : quorumOf (cfg.peer_ids n) ≤ c.vote_count := by
      rw [halone]
      exact Finset.card_pos.mpr ⟨n, hcand.own⟩
    have := into_leader_tracks hmem h hcand.role hcand.voters
      hcand.votes hq
    rwa [hself] at this
  | Follower f => exact ⟨a, by simpa [LogicalNode.into_leader, hst] using h⟩
  | PreCandidate f => exact ⟨a, by simpa [LogicalNode.into_leader, hst] using h⟩
  | Leader f => exact ⟨a, by simpa [LogicalNode.into_leader, hst] using h⟩
  | Poisoned => exact ⟨a, by simpa [LogicalNode.into_leader, hst] using h⟩

/-! ## Votes -/

theorem DiskRel.grant {d : SledStorage α} (h : DiskRel a n d) (c : NodeId) :
    DiskRel { a with voted := update₂ a.voted n (a.term n) (some c) } n
      (d.save_hard_state (a.term n) (some c)) where
  term := by simp [SledStorage.current_term, SledStorage.save_hard_state]
  vote := by simp [SledStorage.voted_for, SledStorage.save_hard_state]
  log := h.log.save_hard_state _ _
  commit := h.commit

theorem is_log_up_to_date_view (nd : RaftNode α Follower) {l v : List (Entry α)}
    (h : Uncompacted nd.disk v) (hup : nd.is_log_up_to_date (lastTerm l) l.length = true) :
    UpToDate l v := by
  unfold RaftNode.is_log_up_to_date at hup
  rw [RaftNode.last_log_term_view h, RaftNode.last_log_index_view h] at hup
  split at hup
  · exact .inl (by simpa using hup)
  · rename_i heq
    exact .inr ⟨(not_not.mp heq).symm, by simpa using hup⟩

/-- A follower gives its vote to a campaign that really was started. -/
theorem attempt_grant_vote_tracks (hsafe : Safe (voters cfg) a₀) (h : Tracks cfg a₀ a n ln)
    {f : Follower} (hst : ln.node.state = .Follower f) {c : NodeId} {term i t : Nat}
    (hfact : CampaignFact a₀ c term i t) :
    ∃ a', Tracks cfg a₀ a' n
        (ln.withRole ((ln.node.transition f).attempt_grant_vote c term i t).1 .Follower) ∧
      (((ln.node.transition f).attempt_grant_vote c term i t).2 = true →
        a'.voted n term = some c) := by
  have hrole : a.role n = .follower := h.role_of hst
  unfold RaftNode.attempt_grant_vote
  split
  · rename_i hcond
    obtain ⟨hterm, hfree, hup⟩ := hcond
    have hcur : (ln.node.transition f).current_term = a.term n := h.disk.term
    have hvoted : (ln.node.transition f).voted_for = a.voted n (a.term n) := h.disk.vote
    rw [hcur] at hterm
    subst hterm
    rw [hvoted] at hfree
    obtain ⟨l, hcand, hor⟩ := hfact.grow (h.grows hsafe)
    have hfresh : a.leader (a.term n) = none → UpToDate l (a.log n) := by
      intro hnone
      rcases hor with hl | ⟨rfl, rfl⟩
      · rw [hnone] at hl
        cases hl
      · exact is_log_up_to_date_view (ln.node.transition f) h.disk.log hup
    refine ⟨_, h.write (.single (.grant a c l hfree hcand hfresh))
      (f := SledStorage.save_hard_state (ln.node.transition f).current_term (some c)) rfl ?_ rfl
      h.commit le_rfl hrole, by simp⟩
    rw [hcur]
    exact h.disk.grant c
  · exact ⟨a, h.reRole rfl rfl h.commit hrole, by simp⟩

theorem decideVote_tracks (hsafe : Safe (voters cfg) a₀) (h : Tracks cfg a₀ a n ln)
    {c : NodeId} {term i t : Nat} (hfact : CampaignFact a₀ c term i t) :
    ∃ a', Tracks cfg a₀ a' n (ln.decideVote c term i t).1 ∧
      ∀ r, (ln.decideVote c term i t).2 = .ok r → r.vote_granted = true →
        a'.voted n term = some c := by
  unfold LogicalNode.decideVote
  split
  · rename_i f hst
    obtain ⟨a', ha', hv⟩ := attempt_grant_vote_tracks hsafe h hst hfact
    refine ⟨a', ha', ?_⟩
    rintro r hr hg
    obtain rfl := Except.ok.inj hr
    exact hv hg
  · refine ⟨a, h, ?_⟩
    rintro r hr hg
    obtain rfl := Except.ok.inj hr
    cases hg

theorem handle_request_vote_tracks (hsafe : Safe (voters cfg) a₀) (h : Tracks cfg a₀ a n ln)
    {c : NodeId} {term i t : Nat} (timeout : Nat) (hfact : CampaignFact a₀ c term i t) :
    ∃ a', Tracks cfg a₀ a' n (ln.handle_request_vote c term i t timeout).1 ∧
      ∀ r, (ln.handle_request_vote c term i t timeout).2 = .ok r → r.vote_granted = true →
        a'.voted n term = some c := by
  unfold LogicalNode.handle_request_vote
  by_cases hp : ln.is_poisoned = true
  · rw [if_pos hp]
    exact ⟨a, h, by simp⟩
  rw [if_neg hp]
  split
  · obtain ⟨a₁, h₁, -⟩ := into_follower_tracks hsafe h term none timeout
    generalize ln.into_follower term none timeout = res at h₁
    obtain ⟨ln₁, res⟩ := res
    cases res with
    | error p => exact ⟨a₁, h₁, by simp⟩
    | ok u => exact decideVote_tracks hsafe h₁ hfact
  · exact decideVote_tracks hsafe h hfact

theorem handle_pre_vote_fst (ln : LogicalNode α) (term i t : Nat) :
    (ln.handle_pre_vote term i t).1 = ln := by
  unfold LogicalNode.handle_pre_vote
  split <;> rfl

theorem observe_pre_vote_term_tracks (hsafe : Safe (voters cfg) a₀) (h : Tracks cfg a₀ a n ln)
    (peer_term timeout : Nat) :
    ∃ a', Tracks cfg a₀ a' n (observe_pre_vote_term ln peer_term timeout).1 := by
  rcases observe_pre_vote_term_cases ln peer_term timeout with heq | heq
  · rw [heq]
    exact ⟨a, h⟩
  · rw [heq]
    obtain ⟨a₁, h₁, -⟩ := into_follower_tracks hsafe h peer_term none timeout
    exact ⟨a₁, h₁⟩

/-! ## The clock -/

theorem tick_tracks (h : Tracks cfg a₀ a n ln) : Tracks cfg a₀ a n ln.tick.1 :=
  h.reRole rfl rfl h.commit h.role

theorem into_pre_candidate_tracks (h : Tracks cfg a₀ a n ln) :
    Tracks cfg a₀ a n ln.into_pre_candidate := by
  unfold LogicalNode.into_pre_candidate
  split
  · rename_i f hst
    have hrole : a.role n = .follower := h.role_of hst
    exact h.reRole rfl rfl h.commit hrole
  · exact h

end raft_engine.refinement
