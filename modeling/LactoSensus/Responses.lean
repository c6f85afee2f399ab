-- What a response can do to the node that reads it. It is compared with the term
-- its task has kept, not with the term of the node: a response from in between
-- takes the node back, and the node halts. Nothing else in a response does that,
-- as long as no counter runs out.
import LactoSensus.FreezeDepth
import LactoSensus.Safety

open common.types
open machine
open ordmap
open quorum
open raft_engine.storage
open raft_engine.node
open raft_engine.engine
open raft_engine.consensus
open raft_engine.shell
open raft_engine.cluster
open raft_engine.orchestration
open raft_engine.recovery
open raft_engine.refinement
open lacto_fsm

namespace raft_engine.station

variable {α : Type} {ln : LogicalNode α}

/-! ## Requests on their way -/

/-- The entries of a request end where a log can end. -/
def WithinLog (req : AppendEntriesRequest α) : Prop :=
  req.prev_log_index + req.entries.length < u64Max

theorem read_entries_within (hmax : ln.last_log_index < u64Max) {next_idx : Nat}
    (hnext : 0 < next_idx ∧ next_idx ≤ u64Max) {entries : List (LogEntry α)}
    (hread : ln.node.disk.read_entries next_idx ln.last_log_index = .ok entries) :
    next_idx - 1 + entries.length < u64Max := by
  unfold SledStorage.read_entries at hread
  rw [if_neg (by omega)] at hread
  split at hread
  · obtain rfl := Except.ok.inj hread
    simp only [List.length_nil]
    omega
  · obtain rfl := Except.ok.inj hread
    have hlen := ln.node.disk.log.range_length next_idx ln.last_log_index
    omega

theorem build_append_entries_request_within (hpace : Paced ln)
    (hmax : ln.last_log_index < u64Max) {peer_id : NodeId} {term : Nat} {node_id : NodeId}
    {last_committed : Nat} {req : AppendEntriesRequest α}
    (hreq : (build_append_entries_request ln peer_id term node_id last_committed).2 =
      .ok (.ok req)) : WithinLog req := by
  unfold build_append_entries_request at hreq
  split at hreq
  · cases hreq
  have hone : 0 < 1 ∧ 1 ≤ u64Max := by simp [u64Max]
  have hlead := fun l (hst : ln.node.state = .Leader l) => (hpace l hst).next peer_id
  -- only a leader has a next index for the peer, everybody else begins at 1
  cases hst : ln.node.state <;> rw [hst] at hreq <;> dsimp only at hreq
  all_goals
    split at hreq
    · cases hreq
    rename_i prev hsub
    obtain ⟨rfl, -⟩ := checked_sub_ok hsub
    split at hreq
    · cases hreq
    rename_i entries hread
    obtain rfl := Except.ok.inj (Except.ok.inj hreq)
    first
    | exact read_entries_within hmax (hlead _ hst) hread
    | exact read_entries_within hmax hone hread

def StrategyWithin : ReplicationStrategy α → Prop
  | .AppendEntries req => WithinLog req
  | .InstallSnapshot i _ => i < u64Max

theorem determine_replication_strategy_within (hpace : Paced ln)
    (hmax : ln.last_log_index < u64Max) {peer_id : NodeId} {params : ReplicationRoundParams}
    {strategy : ReplicationStrategy α}
    (hok : (determine_replication_strategy ln peer_id params).2 = .ok (.ok (some strategy))) :
    StrategyWithin strategy := by
  unfold determine_replication_strategy at hok
  split at hok
  · dsimp only at hok
    split at hok
    · obtain rfl := Option.some.inj (Except.ok.inj (Except.ok.inj hok))
      have hhor : ln.node.last_included_index ≤ ln.last_log_index := horizon_le_last ln.node.disk
      exact hhor.trans_lt hmax
    · split at hok
      · rename_i ln' req hbuild
        obtain rfl := Option.some.inj (Except.ok.inj (Except.ok.inj hok))
        exact build_append_entries_request_within hpace hmax (congrArg Prod.snd hbuild)
      · cases hok
      · cases hok
  · cases hok

/-- A strategy names a place in the log. -/
theorem prepare_replication_within (hpace : Paced ln) (hmax : ln.last_log_index < u64Max)
    {peer_id : NodeId} {params : ReplicationRoundParams} {strategy : ReplicationStrategy α}
    (hok : (prepare_replication ln peer_id params).2 = .ok (some strategy)) :
    StrategyWithin strategy := by
  unfold prepare_replication at hok
  split at hok
  · rename_i ln' found hdet
    obtain rfl := Except.ok.inj hok
    exact determine_replication_strategy_within hpace hmax (congrArg Prod.snd hdet)
  · cases hok
  · cases hok

/-! ## What the handlers of responses do -/

/-- The handler has returned, and the node is not poisoned. -/
def Fits {X : Type} (r : Handled α X) : Prop := (∃ x, r.2 = .ok x) ∧ r.1.is_poisoned = false

theorem into_follower_fits (hp : ln.is_poisoned = false) {term : Nat}
    (hterm : ln.current_term ≤ term) (leader_id : Option NodeId) (timeout : Nat) :
    Fits (ln.into_follower term leader_id timeout) := by
  unfold LogicalNode.into_follower RaftNode.try_into_follower RaftNode.advance_term
  have hcur : (ln.node.transition (Follower.mk leader_id ln.current_tick timeout)).current_term =
      ln.current_term := rfl
  rw [hp, hcur, if_neg (by simp)]
  dsimp only
  rw [if_neg (by omega)]
  by_cases hgt : term > ln.current_term
  · rw [if_pos hgt]
    exact ⟨⟨_, rfl⟩, rfl⟩
  · rw [if_neg hgt]
    exact ⟨⟨_, rfl⟩, rfl⟩

theorem observe_pre_vote_term_fits (hp : ln.is_poisoned = false) (peer_term timeout : Nat) :
    Fits (observe_pre_vote_term ln peer_term timeout) := by
  unfold observe_pre_vote_term
  rw [hp, if_neg (by simp)]
  split
  · rename_i hgt
    obtain ⟨⟨u, hok⟩, hhealthy⟩ := into_follower_fits hp hgt.le none timeout
    generalize ln.into_follower peer_term none timeout = r at hok hhealthy
    obtain ⟨ln', res⟩ := r
    obtain rfl : res = .ok u := hok
    exact ⟨⟨_, rfl⟩, hhealthy⟩
  · exact ⟨⟨_, rfl⟩, hp⟩

theorem get_term_at_past {i : Nat} (hi : ln.last_log_index < i) : ln.get_term_at i = 0 := by
  have hhor : ln.node.last_included_index ≤ ln.last_log_index := horizon_le_last ln.node.disk
  have hnone : ln.node.disk.read_entry i = none := by
    by_contra hne
    have hle : i ≤ ln.last_log_index := key_le_last hne
    omega
  unfold LogicalNode.get_term_at RaftNode.get_term_at
  rw [if_neg (by omega), if_neg (by omega), hnone]
  rfl

theorem advance_last_committed_fits (hp : ln.is_poisoned = false) {index : Nat}
    (hle : index ≤ ln.last_log_index) : Fits (ln.advance_last_committed index) := by
  unfold LogicalNode.advance_last_committed RaftNode.advance_last_committed
    RaftNode.update_commit_index_only
  have hnot : ¬index > ln.node.last_log_index := not_lt.mpr hle
  rw [hp, if_neg (by simp)]
  dsimp only
  by_cases hlt : index < ln.node.last_committed
  · rw [if_pos hlt]
    exact ⟨⟨_, rfl⟩, hp⟩
  rw [if_neg hlt, if_neg hnot]
  by_cases hgt : index > ln.node.last_committed
  · rw [if_pos hgt]
    exact ⟨⟨_, rfl⟩, hp⟩
  · rw [if_neg hgt]
    exact ⟨⟨_, rfl⟩, hp⟩

/-- The commit index of a leader moves to an entry of its term, which is in the log. -/
theorem update_leader_last_committed_fits (hp : ln.is_poisoned = false) (hseat : Seated ln) :
    Fits (update_leader_last_committed ln) := by
  unfold update_leader_last_committed
  rw [hp, if_neg (by simp)]
  cases hst : ln.node.state with
  | Leader l =>
    dsimp only
    split
    · rename_i hmedian
      refine advance_last_committed_fits hp ?_
      by_contra hpast
      have hpos : 0 < ln.current_term :=
        hseat (.inr (by simp [LogicalNode.node_role, hst, RoleState.node_role]))
      have hterm := hmedian.2
      rw [get_term_at_past (not_le.mp hpast)] at hterm
      omega
    · exact ⟨⟨_, rfl⟩, hp⟩
  | _ => exact ⟨⟨_, rfl⟩, hp⟩

/-- The counters of an outcome are below their bound. -/
def OutcomeWithin : ReplicationOutcome → Prop
  | .AppendEntries sent_prev_index sent_entries_len response =>
    sent_prev_index + sent_entries_len < u64Max ∧ response.last_log_index < u64Max
  | .InstallSnapshot last_included_index _ => last_included_index < u64Max

theorem checked_add_fits {type_name : String} {a b : Nat} (h : a + b ≤ u64Max) :
    checked_add type_name a b = .ok (a + b) := if_pos h

theorem reconcile_peer_fits {l : Leader} (hl : PacedLeader l) {outcome : ReplicationOutcome}
    (hin : OutcomeWithin outcome) (peer_id : NodeId) (term : Nat) :
    ∃ r, reconcile_peer l peer_id term outcome = .ok r := by
  cases outcome with
  | AppendEntries sent_prev_index sent_entries_len response =>
    obtain ⟨hsent, hlast⟩ := hin
    obtain ⟨hpos, -⟩ := hl.next peer_id
    simp only [reconcile_peer]
    split
    · rw [checked_add_fits hsent.le]
      dsimp only
      rw [checked_add_fits hsent]
      dsimp only
      split <;> exact ⟨_, rfl⟩
    · split
      · rw [checked_add_fits hlast]
        exact ⟨_, rfl⟩
      · unfold checked_sub
        rw [if_pos (Nat.succ_le_of_lt hpos)]
        exact ⟨_, rfl⟩
  | InstallSnapshot last_included_index response_term =>
    simp only [reconcile_peer]
    rw [checked_add_fits (Nat.succ_le_of_lt hin)]
    exact ⟨_, rfl⟩

/-- A response of a round is taken up unless it takes the node back to an earlier term. -/
theorem process_replication_response_fits (hp : ln.is_poisoned = false) (hseat : Seated ln)
    (hpace : Paced ln) {term : Nat} {outcome : ReplicationOutcome}
    (hin : OutcomeWithin outcome) (htimely : term < outcome.term → ln.current_term ≤ outcome.term)
    (peer_id : NodeId) (timeout : Nat) :
    (∃ action, (process_replication_response ln term peer_id outcome timeout).2 =
      .ok (.ok action)) ∧
    (process_replication_response ln term peer_id outcome timeout).1.is_poisoned = false := by
  unfold process_replication_response
  split
  · rename_i hgt
    obtain ⟨⟨u, hok⟩, hhealthy⟩ := into_follower_fits hp (htimely hgt) none timeout
    generalize ln.into_follower outcome.term none timeout = r at hok hhealthy
    obtain ⟨ln', res⟩ := r
    obtain rfl : res = .ok u := hok
    exact ⟨⟨_, rfl⟩, hhealthy⟩
  rw [hp, if_neg (by simp)]
  cases hst : ln.node.state with
  | Leader l =>
    dsimp only
    split
    swap
    · exact ⟨⟨_, rfl⟩, hp⟩
    have hack := (hpace l hst).acknowledge peer_id ((l.next_index.entries.length + 1) / 2 + 1)
    generalize l.acknowledge_heartbeat peer_id ((l.next_index.entries.length + 1) / 2 + 1) = l₁
      at hack
    obtain ⟨⟨l₂, updated⟩, hrec⟩ := reconcile_peer_fits hack hin peer_id term
    rw [hrec]
    dsimp only
    cases updated with
    | false => exact ⟨⟨_, rfl⟩, rfl⟩
    | true =>
      rw [if_pos rfl]
      have hseat' : Seated (((ln.withRole (ln.node.transition l₁) .Leader).withRole
          ((ln.withRole (ln.node.transition l₁) .Leader).node.transition l₂) .Leader)) := by
        intro _
        exact hseat (.inr (by simp [LogicalNode.node_role, hst, RoleState.node_role]))
      obtain ⟨⟨u, hok⟩, hhealthy⟩ := update_leader_last_committed_fits rfl hseat'
      generalize update_leader_last_committed _ = r at hok hhealthy
      obtain ⟨ln', res⟩ := r
      obtain rfl : res = .ok u := hok
      exact ⟨⟨_, rfl⟩, hhealthy⟩
  | _ => exact ⟨⟨_, rfl⟩, hp⟩

theorem into_leader_fits (hp : ln.is_poisoned = false) (hmax : ln.last_log_index < u64Max)
    (peer_ids : List NodeId) : Fits (ln.into_leader peer_ids) := by
  unfold LogicalNode.into_leader RaftNode.try_into_leader Leader.new
  cases hst : ln.node.state with
  | Candidate cand =>
    have hnext : checked_add "LogIndex" (ln.node.transition cand).last_log_index 1 =
        .ok ((ln.node.transition cand).last_log_index + 1) := checked_add_fits hmax
    dsimp only
    rw [hnext]
    dsimp only
    by_cases hnone : peer_ids = []
    · rw [if_pos hnone]
      exact ⟨⟨_, rfl⟩, rfl⟩
    · rw [if_neg hnone]
      exact ⟨⟨_, rfl⟩, rfl⟩
  | _ => exact ⟨⟨_, rfl⟩, hp⟩

/-- So is a response of a campaign. -/
theorem process_vote_response_fits (hp : ln.is_poisoned = false)
    (hmax : ln.last_log_index < u64Max) {term : Nat} {resp : RequestVoteResponse}
    (htimely : term < resp.term → ln.current_term ≤ resp.term) (peer_ids : List NodeId)
    (peer_id : NodeId) (timeout : Nat) :
    Fits (process_vote_response ln term peer_ids peer_id resp timeout) := by
  unfold process_vote_response
  split
  · rename_i hgt
    obtain ⟨⟨u, hok⟩, hhealthy⟩ := into_follower_fits hp (htimely hgt) none timeout
    generalize ln.into_follower resp.term none timeout = r at hok hhealthy
    obtain ⟨ln', res⟩ := r
    obtain rfl : res = .ok u := hok
    exact ⟨⟨_, rfl⟩, hhealthy⟩
  split
  swap
  · exact ⟨⟨_, rfl⟩, hp⟩
  rw [hp, if_neg (by simp)]
  cases hst : ln.node.state with
  | Candidate cand =>
    dsimp only
    split
    swap
    · exact ⟨⟨_, rfl⟩, hp⟩
    split
    · have hvoted : (ln.withRole (ln.node.transition (cand.add_vote peer_id))
          .Candidate).is_poisoned = false := rfl
      obtain ⟨⟨u, hok⟩, hhealthy⟩ := into_leader_fits hvoted hmax peer_ids
      generalize LogicalNode.into_leader _ peer_ids = r at hok hhealthy
      obtain ⟨ln', res⟩ := r
      obtain rfl : res = .ok u := hok
      exact ⟨⟨_, rfl⟩, hhealthy⟩
    · exact ⟨⟨_, rfl⟩, rfl⟩
  | _ => exact ⟨⟨_, rfl⟩, hp⟩

/-! ## What is under way -/

def PeerCall.Within : PeerCall α → Prop
  | .Append req => WithinLog req
  | .Probing req => WithinLog req
  | .Reached i _ => i < u64Max
  | .Frozen i _ => i < u64Max
  | .Serialized i _ _ => i < u64Max
  | .Sending params => params.last_included_index < u64Max
  | _ => True

/-- Every round is one of the station, and nothing on its way is out of bounds. -/
structure Provided (st : Station α) : Prop where
  seated : Seated st.node
  paced : Paced st.node
  calls : ∀ round ∈ st.rounds, ∀ call ∈ round.calls, call.2.Within
  tasks : ∀ t ∈ st.host.process.tasks, asRound t = none

variable {st st' : Station α} {h h' : SnapshotHost α LactoStore}

/-- Whoever stands or leads after a step has raised its term, and has its next indices. -/
theorem logStep_role {a : HostAct α} {ln' : LogicalNode α} (hlog : LogStep h a ln') :
    (Seated h.node → Seated ln') ∧ (Paced h.node → Paced ln') := by
  have honto : ∀ {n : RaftNode α RoleState}, n.state = h.node.node.state →
      n.current_term = h.node.current_term →
      (Seated h.node → Seated (onto h.node n)) ∧ (Paced h.node → Paced (onto h.node n)) := by
    intro n hstate hterm
    constructor
    · intro hseat hr
      change 0 < n.current_term
      rw [hterm]
      refine hseat ?_
      unfold LogicalNode.node_role at hr ⊢
      rw [← hstate]
      exact hr
    · intro hpace l hl
      exact hpace l (hstate.symm.trans hl)
  cases hlog with
  | quiet hq => exact ⟨hq.seated, hq.paced⟩
  | proposed data l hl => exact ⟨id, id⟩
  | merged dst req timeout hq hst hc ht hv hm hln =>
    have hrole : ∀ {n : RaftNode α node.Follower} {ln : LogicalNode α},
        (ln.withRole n .Follower).node_role = .Follower := rfl
    refine ⟨fun _ => hln.seated fun hr => ?_, fun _ => hln.paced (paced_of_role ?_)⟩
    · rw [hrole] at hr
      rcases hr with hr | hr <;> cases hr
    · rw [hrole]
      simp
  | applied index hadv => exact honto hadv.state hadv.term
  | saved k i q hk => exact ⟨id, id⟩
  | front k i hk => exact ⟨id, id⟩
  | finalized k params hk hadv => exact honto hadv.state hadv.term

theorem Provided.adopt (hseat : Seated h.node) (hpace : Paced h.node)
    (hcalls : ∀ round ∈ st.rounds, ∀ call ∈ round.calls, call.2.Within) :
    Provided (st.adopt h) := by
  refine ⟨hseat, hpace, fun round hround call hcall => ?_, fun t ht => ?_⟩
  · rcases List.mem_append.mp hround with hnew | hold
    · obtain ⟨t, -, ht⟩ := List.mem_filterMap.mp hnew
      cases t <;> simp only [asRound, Option.some.injEq, reduceCtorEq] at ht
      subst ht
      obtain ⟨p, -, rfl⟩ := List.mem_map.mp hcall
      trivial
    · exact hcalls round hold call hcall
  · have hnone := (List.mem_filter.mp ht).2
    simpa using hnone

theorem roundsAfter_within {rounds : List (Round α)} {r k : Nat} {round : Round α}
    {peer : NodeId} {res : CallResult α}
    (hcalls : ∀ round ∈ rounds, ∀ call ∈ round.calls, call.2.Within) (hmem : round ∈ rounds)
    (hres : ∀ call, res = .Continues call → call.Within) :
    ∀ round' ∈ roundsAfter rounds r k round peer res, ∀ call ∈ round'.calls, call.2.Within := by
  intro round' hround call hcall
  cases res with
  | Continues call' =>
    rcases List.mem_or_eq_of_mem_set hround with hold | rfl
    · exact hcalls round' hold call hcall
    · rcases List.mem_or_eq_of_mem_set hcall with hold | rfl
      · exact hcalls round hmem call hold
      · exact hres call' rfl
  | Finished =>
    rcases List.mem_or_eq_of_mem_set hround with hold | rfl
    · exact hcalls round' hold call hcall
    · exact hcalls round hmem call (List.mem_of_mem_eraseIdx hcall)
  | Ended tasks => exact hcalls round' (List.mem_of_mem_eraseIdx hround) call hcall

variable [DecidableEq α] {cfg : HostConfig} {c : SnapshotCodec α}

/-- What a call goes on with is within the log. -/
theorem runCall_within {params : ReplicationRoundParams} {peer : NodeId}
    {reply : Option PeerReply} {timeout : Nat} {call call' : PeerCall α} (hpace : Paced st.node)
    (hmax : st.node.last_log_index < u64Max) (hin : call.Within)
    (hrun : runCall cfg c st params peer reply timeout call = some (h, .Continues call')) :
    call'.Within := by
  have hrespond : ∀ {outcome : ReplicationOutcome} {h : SnapshotHost α LactoStore},
      respond st.host params.term peer outcome timeout ≠ (h, .Continues call') := by
    intro outcome h hno
    unfold respond at hno
    split at hno <;> cases hno
  cases call with
  | Unsent =>
    simp only [runCall] at hrun
    have hres := st.host.process.shell.write_result fun ln => prepare_replication ln peer params
    generalize st.host.process.shell.write _ = w at hrun hres
    obtain ⟨sh, res⟩ := w
    split at hrun <;> rename_i heq <;> obtain ⟨rfl, rfl⟩ := Prod.mk.inj heq <;>
      simp only [Option.some.injEq, Prod.mk.injEq, reduceCtorEq, and_false,
        CallResult.Continues.injEq] at hrun
    · obtain ⟨-, rfl⟩ := hrun
      exact prepare_replication_within hpace hmax hres.symm
    · obtain ⟨-, rfl⟩ := hrun
      have hi := prepare_replication_within hpace hmax hres.symm
      split
      · trivial
      · exact hi
  | Downgraded =>
    simp only [runCall] at hrun
    have hres := st.host.process.shell.write_result fun ln =>
      build_append_entries_request ln peer params.term params.node_id params.last_committed
    generalize st.host.process.shell.write _ = w at hrun hres
    obtain ⟨sh, res⟩ := w
    split at hrun <;> rename_i heq <;> obtain ⟨rfl, rfl⟩ := Prod.mk.inj heq <;>
      simp only [Option.some.injEq, Prod.mk.injEq, reduceCtorEq, and_false,
        CallResult.Continues.injEq] at hrun
    obtain ⟨-, rfl⟩ := hrun
    exact build_append_entries_request_within hpace hmax hres.symm
  | Append req =>
    simp only [runCall] at hrun
    split at hrun
    · cases hrun
    · exact absurd (Option.some.inj hrun) hrespond
    · cases hrun
  | Probing req =>
    simp only [runCall] at hrun
    split at hrun
    · cases hrun
    · split at hrun
      · exact absurd (Option.some.inj hrun) hrespond
      · obtain ⟨-, heq⟩ := Prod.mk.inj (Option.some.inj hrun)
        obtain rfl := CallResult.Continues.inj heq
        exact (Nat.le_add_right _ _).trans_lt hin
    · cases hrun
  | Reached i t =>
    obtain ⟨h', -, heq⟩ := Option.map_eq_some_iff.mp hrun
    obtain ⟨-, heq⟩ := Prod.mk.inj heq
    split at heq
    · cases heq
    · obtain rfl := CallResult.Continues.inj heq
      exact hin
  | Frozen i t =>
    simp only [runCall] at hrun
    split at hrun
    · cases hrun
    · obtain ⟨-, heq⟩ := Prod.mk.inj (Option.some.inj hrun)
      obtain rfl := CallResult.Continues.inj heq
      exact hin
  | Serialized i t out =>
    obtain ⟨h', -, heq⟩ := Option.map_eq_some_iff.mp hrun
    obtain ⟨-, heq⟩ := Prod.mk.inj heq
    split at heq
    · cases heq
    · cases out with
      | ok data =>
        obtain rfl := CallResult.Continues.inj heq
        exact hin
      | error e => cases heq
  | Sending sent =>
    simp only [runCall] at hrun
    split at hrun
    · cases hrun
    · exact absurd (Option.some.inj hrun) hrespond
    · cases hrun

/-! ## The run -/

/-- No counter is at its bound: neither the last index of the node nor the one a peer reports. -/
def Below (st : Station α) (a : StationAct α) : Prop :=
  st.node.last_log_index < u64Max ∧
    match a with
    | .Call _ _ (some (.Append response)) _ => response.last_log_index < u64Max
    | _ => True

/-- A response past the term of its round or campaign is not below the term of the node. -/
def Timely (st : Station α) : StationAct α → Prop
  | .Call r _ (some reply) _ =>
    ∀ round, st.rounds[r]? = some round → round.params.term < reply.term →
      st.node.current_term ≤ reply.term
  | .Host (.RunTask k _ (some (.VoteReply _ _ resp)) _) =>
    ∀ params pending votes_granted,
      st.host.process.tasks[k]? = some (.Election params pending votes_granted) →
      params.term < resp.term → st.node.current_term ≤ resp.term
  | _ => True

omit [DecidableEq α] in
theorem Provided.started (hst : Started cfg c st) : Provided st := by
  obtain ⟨timeout, db, disk, fsm, ln, hboot, rfl⟩ := hst
  have hrole : ln.node_role ≠ .Leader ∧ ln.node_role ≠ .Candidate := by
    unfold reboot at hboot
    split at hboot
    · cases hboot
    split at hboot
    · rename_i hnew
      obtain ⟨rfl, rfl⟩ := Prod.mk.inj (Option.some.inj hboot)
      unfold LogicalNode.try_new at hnew
      split at hnew
      · cases hnew
      · obtain rfl := Except.ok.inj hnew
        simp [LogicalNode.node_role, RaftNode.transition, RoleState.node_role]
    · cases hboot
  refine ⟨fun hr => ?_, paced_of_role hrole.1, by simp, by simp⟩
  rcases hr with hr | hr
  · exact absurd hr hrole.2
  · exact absurd hr hrole.1

theorem callStep_role {term : Nat} {reply : Option PeerReply} {call : PeerCall α}
    {res : CallResult α} (hstep : CallStep cfg c h term reply call h' res) :
    (Seated h.node → Seated h'.node) ∧ (Paced h.node → Paced h'.node) := by
  have hshell : ∀ {sh : ConsensusShell α}, Stepped h.process.shell sh →
      (Seated h.node → Seated (h.withShell sh).node) ∧
        (Paced h.node → Paced (h.withShell sh).node) :=
    fun hs => ⟨hs.quiet.seated, hs.quiet.paced⟩
  cases hstep with
  | continued hs hf => exact hshell hs
  | finished hs hf => exact hshell hs
  | demoted hs hreply ht hf => exact hshell hs
  | failed hs hhalt => exact hshell hs
  | froze i t hs hp => exact logStep_role (hostStep_cases hs).1
  | freezeFailed i t hs hp => exact logStep_role (hostStep_cases hs).1
  | thawed i t hs hp => exact logStep_role (hostStep_cases hs).1
  | thawFailed i t hs hhalt => exact logStep_role (hostStep_cases hs).1

theorem Provided.step {a : StationAct α} (hprov : Provided st) (hbelow : Below st a)
    (hs : stationStep cfg c st a = some st') : Provided st' := by
  have hhost : ∀ {a : HostAct α} {h' : SnapshotHost α LactoStore},
      hostStep cfg (lactoSnapshots c) st.host a = some h' → Provided (st.adopt h') := by
    intro a h' hs
    obtain ⟨hseat, hpace⟩ := logStep_role (hostStep_cases hs).1
    exact .adopt (hseat hprov.seated) (hpace hprov.paced) hprov.calls
  cases a with
  | Host a =>
    obtain ⟨-, -, h', hstep, rfl⟩ := host_cases hs
    obtain ⟨hseat, hpace, hcalls, htasks⟩ := hhost hstep
    exact ⟨hseat, hpace, hcalls, htasks⟩
  | Call r k reply timeout =>
    obtain ⟨round, hr, hcall⟩ := Option.bind_eq_some_iff.mp hs
    obtain ⟨⟨peer, call⟩, hk, hmap⟩ := Option.bind_eq_some_iff.mp hcall
    dsimp only at hmap
    obtain ⟨⟨h', res⟩, hrun, rfl⟩ := Option.map_eq_some_iff.mp hmap
    obtain ⟨hseat, hpace⟩ := callStep_role (runCall_step hrun)
    have hround := List.mem_of_getElem? hr
    have hwithin := hprov.calls round hround _ (List.mem_of_getElem? hk)
    have hadopted : Provided (st.adopt (withTasks h' res.tasks)) :=
      .adopt (hseat hprov.seated) (hpace hprov.paced) hprov.calls
    refine ⟨hadopted.seated, hadopted.paced, ?_, hadopted.tasks⟩
    refine roundsAfter_within hprov.calls hround fun call' hres => ?_
    subst hres
    exact runCall_within hprov.paced hbelow.1 hwithin hrun
  | Loop =>
    obtain ⟨caller, -, ⟨-, rfl⟩ | ⟨h', hstep, ⟨-, rfl⟩ | ⟨-, rfl⟩⟩⟩ := loop_cases hs
    · exact ⟨hprov.seated, hprov.paced, hprov.calls, hprov.tasks⟩
    · obtain ⟨hseat, hpace, hcalls, htasks⟩ := hhost hstep
      exact ⟨hseat, hpace, hcalls, htasks⟩
    · exact hhost hstep
  | _ =>
    simp only [stationStep] at hs
    repeat' split at hs
    all_goals
      cases hs <;> exact ⟨hprov.seated, hprov.paced, hprov.calls, hprov.tasks⟩

/-! ## Responses -/

/-- The call waits for a response. -/
def PeerCall.awaits : PeerCall α → Bool
  | .Append _ => true
  | .Probing _ => true
  | .Sending _ => true
  | _ => false

/-- The campaign waits for a response. -/
def campaigns : SpawnedTask α → Bool
  | .PreVote _ _ _ => true
  | .Election _ _ _ => true
  | _ => false

/-- The step hands a response to the round or the campaign that waits for it. -/
def Answers (st : Station α) : StationAct α → Prop
  | .Call r k (some _) _ => ∃ round peer call, st.rounds[r]? = some round ∧
      round.calls[k]? = some (peer, call) ∧ call.awaits = true
  | .Host (.RunTask k _ (some _) _) => ∃ task, st.host.process.tasks[k]? = some task ∧
      campaigns task = true
  | _ => False

omit [DecidableEq α] in
theorem not_halting_adopt {h : SnapshotHost α LactoStore} (hp : h.node.is_poisoned = false)
    (htasks : ∀ err, .Fatal err ∉ h.process.tasks) : ¬Halting (st.adopt h).host := by
  rintro (hno | ⟨err, herr⟩)
  · rw [show h.node.is_poisoned = true from hno] at hp
    cases hp
  · exact htasks err (List.mem_filter.mp herr).1

omit [DecidableEq α] in
theorem respond_fits {term : Nat} {peer : NodeId} {outcome : ReplicationOutcome} {timeout : Nat}
    {res : CallResult α}
    (hfits : (∃ action, (process_replication_response h.node term peer outcome timeout).2 =
        .ok (.ok action)) ∧
      (process_replication_response h.node term peer outcome timeout).1.is_poisoned = false)
    (hrun : respond h term peer outcome timeout = (h', res)) :
    h'.node.is_poisoned = false ∧ h'.process.tasks = h.process.tasks ∧ res.tasks = [] := by
  obtain ⟨⟨action, hok⟩, hp⟩ := hfits
  have hinner := h.process.shell.write_inner fun ln =>
    process_replication_response ln term peer outcome timeout
  have hres := h.process.shell.write_result fun ln =>
    process_replication_response ln term peer outcome timeout
  unfold respond at hrun
  generalize h.process.shell.write _ = w at hrun hinner hres
  obtain ⟨sh, out⟩ := w
  obtain rfl : out = .ok (.ok action) := hres.trans hok
  have hhealthy : sh.inner.is_poisoned = false := by
    rw [show sh.inner = _ from hinner]
    unfold afterHandler
    rw [show (process_replication_response h.process.shell.inner term peer outcome timeout).2 = _
      from hok]
    exact hp
  cases action <;> obtain ⟨rfl, rfl⟩ := Prod.mk.inj hrun <;> exact ⟨hhealthy, rfl, rfl⟩

/-- A round takes up what a peer answers. -/
theorem call_fits {r k : Nat} {round : Round α} {peer : NodeId} {reply : PeerReply}
    {timeout : Nat} {call : PeerCall α} {res : CallResult α} (hprov : Provided st)
    (hbelow : Below st (.Call r k (some reply) timeout))
    (htimely : Timely st (.Call r k (some reply) timeout)) (hr : st.rounds[r]? = some round)
    (hk : round.calls[k]? = some (peer, call)) (hwaits : call.awaits = true)
    (hp : st.node.is_poisoned = false)
    (hrun : runCall cfg c st round.params peer (some reply) timeout call = some (h', res)) :
    h'.node.is_poisoned = false ∧ h'.process.tasks = st.host.process.tasks ∧ res.tasks = [] := by
  have hwithin := hprov.calls round (List.mem_of_getElem? hr) _ (List.mem_of_getElem? hk)
  have hfits := fun {outcome : ReplicationOutcome} (hin : OutcomeWithin outcome)
    (hterm : outcome.term = reply.term) =>
      process_replication_response_fits hp hprov.seated hprov.paced hin
        (fun hgt => by
          rw [hterm] at hgt ⊢
          exact htimely round hr hgt) peer timeout
  cases call with
  | Append req =>
    simp only [runCall] at hrun
    cases reply with
    | Append response =>
      have hin : OutcomeWithin (.AppendEntries req.prev_log_index req.entries.length response) :=
        ⟨hwithin, hbelow.2⟩
      exact respond_fits (hfits hin rfl) (Option.some.inj hrun)
    | InstallSnapshot response_term => cases hrun
  | Probing req =>
    simp only [runCall] at hrun
    cases reply with
    | Append response =>
      dsimp only at hrun
      split at hrun
      · have hin : OutcomeWithin (.AppendEntries req.prev_log_index req.entries.length response) :=
          ⟨hwithin, hbelow.2⟩
        exact respond_fits (hfits hin rfl) (Option.some.inj hrun)
      · obtain ⟨rfl, rfl⟩ := Prod.mk.inj (Option.some.inj hrun)
        exact ⟨hp, rfl, rfl⟩
    | InstallSnapshot response_term => cases hrun
  | Sending sent =>
    simp only [runCall] at hrun
    cases reply with
    | Append response => cases hrun
    | InstallSnapshot response_term =>
      have hin : OutcomeWithin (.InstallSnapshot sent.last_included_index response_term) := hwithin
      exact respond_fits (hfits hin rfl) (Option.some.inj hrun)
  | _ => cases hwaits

omit [DecidableEq α] in
/-- What a handler that fits leaves under the guard. -/
theorem write_fits {X : Type} {sh sh' : ConsensusShell α} {f : LogicalNode α → Handled α X}
    {res : Except Panic X} (hfits : Fits (f sh.inner)) (hw : sh.write f = (sh', res)) :
    sh'.inner.is_poisoned = false ∧ ∃ x, res = .ok x := by
  obtain ⟨⟨x, hok⟩, hp⟩ := hfits
  refine ⟨?_, x, (ConsensusShell.result_of_write hw).trans hok⟩
  rw [ConsensusShell.inner_of_write hw]
  unfold afterHandler
  rw [hok]
  exact hp

/-- A campaign takes up what a peer answers. -/
theorem campaign_fits {n peer : NodeId} {sh sh' : ConsensusShell α} {reply : Message α}
    {timeout : Nat} {task : SpawnedTask α} {tasks : List (SpawnedTask α)}
    {sends : List (Message α)} (hcampaigns : campaigns task = true)
    (hp : sh.inner.is_poisoned = false) (hmax : sh.inner.last_log_index < u64Max)
    (htimely : ∀ params pending votes_granted src req resp,
      task = .Election params pending votes_granted → reply = .VoteReply src req resp →
      params.term < resp.term → sh.inner.current_term ≤ resp.term)
    (hrun : runTask cfg.cluster n sh peer (some reply) timeout task = some (sh', tasks, sends)) :
    sh'.inner.is_poisoned = false ∧ ∀ err, .Fatal err ∉ tasks := by
  cases task with
  | PreVote req pending pre_votes_granted =>
    have hcounted : ∀ {quorum : Nat} {granted : Bool} (err : NodeError),
        .Fatal err ∉ [countPreVote (α := α) quorum req (pending.erase peer) pre_votes_granted
          granted] := by
      intro quorum granted err hno
      have heq := List.mem_singleton.mp hno
      unfold countPreVote at heq
      split at heq
      · split at heq <;> cases heq
      · cases heq
    simp only [runTask] at hrun
    split at hrun
    · obtain ⟨rfl, heq⟩ := Prod.mk.inj (Option.some.inj hrun)
      obtain ⟨rfl, -⟩ := Prod.mk.inj heq
      exact ⟨hp, by split <;> simp⟩
    split at hrun
    swap
    · cases hrun
    cases reply with
    | PreVoteReply src req' resp =>
      dsimp only at hrun
      split at hrun
      swap
      · cases hrun
      split at hrun
      · have hfits := observe_pre_vote_term_fits hp resp.term timeout
        generalize hw : sh.write _ = w at hrun
        obtain ⟨sh₁, res⟩ := w
        obtain ⟨hhealthy, ended, rfl⟩ := write_fits hfits hw
        cases ended <;>
          obtain ⟨rfl, heq⟩ := Prod.mk.inj (Option.some.inj hrun) <;>
          obtain ⟨rfl, -⟩ := Prod.mk.inj heq
        · exact ⟨hhealthy, hcounted⟩
        · exact ⟨hhealthy, by simp⟩
      · obtain ⟨rfl, heq⟩ := Prod.mk.inj (Option.some.inj hrun)
        obtain ⟨rfl, -⟩ := Prod.mk.inj heq
        exact ⟨hp, hcounted⟩
    | _ => cases hrun
  | Election params pending votes_granted =>
    simp only [runTask] at hrun
    split at hrun
    · split at hrun <;>
        obtain ⟨rfl, heq⟩ := Prod.mk.inj (Option.some.inj hrun) <;>
        obtain ⟨rfl, -⟩ := Prod.mk.inj heq <;>
        exact ⟨hp, by simp⟩
    split at hrun
    swap
    · cases hrun
    cases reply with
    | VoteReply src req resp =>
      dsimp only at hrun
      split at hrun
      swap
      · cases hrun
      have hfits := process_vote_response_fits hp hmax
        (htimely params pending votes_granted src req resp rfl rfl) (cfg.cluster.peer_ids n) peer
        timeout
      generalize hw : sh.write _ = w at hrun
      obtain ⟨sh₁, res⟩ := w
      obtain ⟨hhealthy, action, rfl⟩ := write_fits hfits hw
      cases action <;>
        obtain ⟨rfl, heq⟩ := Prod.mk.inj (Option.some.inj hrun) <;>
        obtain ⟨rfl, -⟩ := Prod.mk.inj heq <;>
        exact ⟨hhealthy, by simp⟩
    | _ => cases hrun
  | _ => cases hcampaigns

/-- In every run in which no response past the term of its round or campaign is below the term
of the node, and no counter is at its bound, a response leaves a node that does not halt as
it is: it is not poisoned, and nothing is about to poison it. -/
theorem responses_never_halt {st₀ : Station α} {a : StationAct α} (hst : Started cfg c st₀)
    (hrun : StationRun cfg c (fun st a => Below st a ∧ Timely st a) st₀ st)
    (hbelow : Below st a) (htimely : Timely st a) (hanswers : Answers st a)
    (hgo : ¬Halting st.host) (hs : stationStep cfg c st a = some st') : ¬Halting st'.host := by
  have hprov : Provided st := Run.invariant (fun _ _ _ hprov hok hs =>
    Provided.step hprov hok.1 hs) hrun (.started hst)
  have hp : st.node.is_poisoned = false := by
    cases hno : st.node.is_poisoned with
    | false => rfl
    | true => exact absurd (.inl hno) hgo
  have hquiet : ∀ err, .Fatal err ∉ st.host.process.tasks := fun err herr => hgo (.inr ⟨err, herr⟩)
  match a, hanswers with
  | .Call r k (some reply) timeout, ⟨round, peer, call, hr, hk, hwaits⟩ =>
    obtain ⟨round', hr', hcall⟩ := Option.bind_eq_some_iff.mp hs
    obtain rfl := Option.some.inj (hr.symm.trans hr')
    obtain ⟨⟨peer', call'⟩, hk', hmap⟩ := Option.bind_eq_some_iff.mp hcall
    obtain ⟨rfl, rfl⟩ := Prod.mk.inj (Option.some.inj (hk.symm.trans hk'))
    dsimp only at hmap
    obtain ⟨⟨h', res⟩, hrun, rfl⟩ := Option.map_eq_some_iff.mp hmap
    obtain ⟨hp', htasks, hnone⟩ := call_fits hprov hbelow htimely hr hk hwaits hp hrun
    have hkept : ∀ err, .Fatal err ∉ (withTasks h' res.tasks).process.tasks := fun err herr => by
      unfold withTasks at herr
      rw [hnone, List.nil_append, htasks] at herr
      exact hquiet err herr
    exact @not_halting_adopt _ st _ hp' hkept
  | .Host (.RunTask k peer (some reply) timeout), ⟨task, hk, hcampaigns⟩ =>
    obtain ⟨-, -, h', hstep, rfl⟩ := host_cases hs
    obtain ⟨task', hk', hrun⟩ := Option.bind_eq_some_iff.mp hstep
    obtain rfl := Option.some.inj (hk.symm.trans hk')
    obtain ⟨⟨sh, tasks, sends⟩, htask, rfl⟩ := Option.map_eq_some_iff.mp hrun
    obtain ⟨hp', hnone⟩ := campaign_fits hcampaigns hp hbelow.1 (by
      rintro params pending votes_granted src req resp rfl rfl hgt
      exact htimely params pending votes_granted hk hgt) htask
    refine not_halting_adopt hp' fun err herr => ?_
    rcases List.mem_append.mp herr with hnew | hold
    · exact hnone err hnew
    · exact hquiet err (List.mem_of_mem_eraseIdx hold)

/-- Node 2 refuses its vote because it is in term 2 already, and node 1 follows it there. -/
def refusedVote : StationAct Bytes :=
  .Host (.RunTask 0 2 (some (.VoteReply 2 ⟨1, 1, 0, 0⟩ ⟨2, false⟩)) 5)

theorem responses_never_halt_refused :
    (stationAfter (leadAndCompact.take 3)).node.node_role = .Candidate ∧
    ∃ st, stationStep firstOfThree plainSnapshots (stationAfter (leadAndCompact.take 3))
      refusedVote = some st ∧ st.node.current_term = 2 ∧ ¬Halting st.host := by
  have hbelow : ∀ k < 4, (stationAfter (leadAndCompact.take k)).node.last_log_index < u64Max := by
    decide +kernel
  have hstanding : StationRun firstOfThree plainSnapshots (fun st a => Below st a ∧ Timely st a)
      firstStart (stationAfter (leadAndCompact.take 3)) := by
    refine stationAfter_take _ (fun k a hk => ?_) (by decide +kernel)
    match k, hk with
    | 0, rfl => exact ⟨⟨hbelow 0 (by decide), trivial⟩, trivial⟩
    | 1, rfl => exact ⟨⟨hbelow 1 (by decide), trivial⟩, trivial⟩
    | 2, rfl => exact ⟨⟨hbelow 2 (by decide), trivial⟩, trivial⟩
  have htask : (stationAfter (leadAndCompact.take 3)).host.process.tasks =
      [.Election ⟨1, 1, 0, 0⟩ [2, 3] 1] := by decide +kernel
  have hterm : (stationAfter (leadAndCompact.take 3)).node.current_term = 1 := by decide +kernel
  have hgo : ¬Halting (stationAfter (leadAndCompact.take 3)).host := by
    rintro (hp | ⟨err, herr⟩)
    · exact absurd hp (by decide +kernel)
    · rw [htask] at herr
      simp at herr
  obtain ⟨st, hs, hnext⟩ : ∃ st, stationStep firstOfThree plainSnapshots
      (stationAfter (leadAndCompact.take 3)) refusedVote = some st ∧ st.node.current_term = 2 := by
    have hsome : (stationStep firstOfThree plainSnapshots (stationAfter (leadAndCompact.take 3))
        refusedVote).map (fun st => st.node.current_term) = some 2 := by decide +kernel
    exact Option.map_eq_some_iff.mp hsome
  refine ⟨by decide +kernel, st, hs, hnext, ?_⟩
  refine responses_never_halt started_first hstanding ⟨hbelow 3 (by decide), trivial⟩ ?_ ?_ hgo hs
  · intro params pending votes_granted hk _
    rw [hterm]
    decide
  · refine ⟨.Election ⟨1, 1, 0, 0⟩ [2, 3] 1, ?_, rfl⟩
    rw [htask]
    rfl

/-- Node 3 refuses, in term 2, a request of the leader of term 1. Before the answer arrives,
node 1 has voted for node 3 in term 3. -/
def overtakenAnswer : List (Action Nat) :=
  [.Restart 1 1, .Restart 2 9, .Restart 3 1, .Act (.Tick 1 5), .Act (.Deliver 0 5),
    .Act (.RunTask 1 0 2 (some 2) 5), .Act (.RunTask 1 0 2 none 5), .Act (.Deliver 3 1),
    .Act (.RunTask 1 0 2 (some 5) 5), .Act (.Deliver 4 1), .Act (.Tick 1 5),
    .Act (.RunTask 1 0 3 none 5), .Act (.Tick 3 1), .Act (.Deliver 9 5),
    .Act (.RunTask 3 0 2 (some 10) 1), .Act (.RunTask 3 0 2 none 1), .Act (.Deliver 7 5),
    .Act (.Tick 3 5), .Act (.Deliver 14 5)]

/-- The answer takes node 1 back to term 2, and it halts. -/
theorem delayed_response_halts :
    Reachable threeNodes notebook (after overtakenAnswer) ∧
    ((after overtakenAnswer).hosts 1).role = some .Follower ∧
    ((after overtakenAnswer).hosts 1).current_term = 3 ∧
    ((after overtakenAnswer).process 1).map Process.tasks =
      some [.Replication ⟨1, 1, 0⟩ [2] [(3, ⟨1, 1, 0, 0, [], 0⟩)]] ∧
    (after overtakenAnswer).network[13]? =
      some (.AppendReply 3 ⟨1, 1, 0, 0, [], 0⟩ ⟨2, false, 0⟩) ∧
    (step threeNodes notebook (after overtakenAnswer)
      (.Act (.RunTask 1 0 3 (some 13) 5))).map (fun c => (c.hosts 1).role) =
        some (some .Poisoned) :=
  ⟨run_of_exec overtakenAnswer (fun _ _ _ => trivial) rfl, by decide +kernel, by decide +kernel,
    by decide +kernel, by decide +kernel, by decide +kernel⟩

end raft_engine.station
