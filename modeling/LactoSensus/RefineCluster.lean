-- Every run of the cluster is a run of the protocol: each step of a host, each
-- crash inside it and each restart is followed by steps of one node that keep
-- hosts, messages and tasks in relation.
import LactoSensus.RefineReplication
import LactoSensus.Tasks

open Function
open common.types
open journal
open quorum
open raft_engine.storage
open raft_engine.node
open raft_engine.engine
open raft_engine.consensus
open raft_engine.shell
open raft_engine.cluster
open raft (Entry Step Steps Safe Grows Frame Settled Matching Traced)

namespace raft_engine.refinement

variable {α S : Type} {cfg : Config} {a₀ a a' : Protocol α} {n : NodeId} {ln : LogicalNode α}

/-- What a handler run under the guard leaves behind. -/
theorem write_tracks {X : Type} {f : LogicalNode α → Handled α X}
    {sh sh' : ConsensusShell α} {res : Except Panic X} (hw : sh.write f = (sh', res))
    {P : Protocol α → Except Panic X → Prop}
    (h : ∃ a', Tracks cfg a₀ a' n (f sh.inner).1 ∧ P a' (f sh.inner).2) :
    ∃ a', Tracks cfg a₀ a' n sh'.inner ∧ P a' res := by
  obtain ⟨a', ha', hp⟩ := h
  refine ⟨a', ?_, by rw [ConsensusShell.result_of_write hw]; exact hp⟩
  rw [ConsensusShell.inner_of_write hw]
  exact ha'.afterHandler

/-! ## The tick loop -/

theorem begin_campaign_spawn (hsafe : Safe (voters cfg) a₀) (hmem : n ∈ cfg.members)
    (h : Tracks cfg a₀ a n ln) (timeout : Nat) :
    ∃ a', Tracks cfg a₀ a' n (begin_campaign ln timeout).1 ∧
      ∀ params, (begin_campaign ln timeout).2 = .ok params →
        CampaignRel cfg a' n params (cfg.peer_ids n) 1 ∧
        ∀ msg ∈ (cfg.peer_ids n).map fun p => Message.RequestVote (α := α) p params.request,
          MessageRel cfg a' msg := by
  obtain ⟨a', ha', hok⟩ := begin_campaign_tracks hsafe hmem h timeout
  refine ⟨a', ha', fun params hparams => ?_⟩
  obtain ⟨hid, hfact⟩ := hok params hparams
  refine ⟨⟨hid, hfact, one_vote_is_short cfg n, fun p hp => hp⟩, ?_⟩
  intro msg hmsg
  obtain ⟨p, hp, rfl⟩ := List.mem_map.mp hmsg
  refine ⟨(mem_peer_ids.mp hp).1, ?_⟩
  rw [show params.request.candidate_id = n from hid]
  exact hfact

/-- Only a leader sends heartbeats. -/
theorem leader_of_heartbeat (ln : LogicalNode α) (h : ln.tick.2 = .SendHeartbeat) :
    ∃ l, ln.tick.1.node.state = .Leader l := by
  unfold LogicalNode.tick at h ⊢
  dsimp only at h ⊢
  cases hst : ln.node.state with
  | Leader l => exact ⟨l, rfl⟩
  | Follower f =>
    rw [hst] at h
    simp only [Follower.evaluate_tick] at h
    split at h <;> cases h
  | PreCandidate f =>
    rw [hst] at h
    simp only [PreCandidate.evaluate_tick] at h
    split at h <;> cases h
  | Candidate f =>
    rw [hst] at h
    simp only [Candidate.evaluate_tick] at h
    split at h <;> cases h
  | Poisoned =>
    rw [hst] at h
    cases h

theorem tickLocked_tracks (hsafe : Safe (voters cfg) a₀) (hmem : n ∈ cfg.members)
    (h : Tracks cfg a₀ a n ln) (timeout : Nat) :
    ∃ a', Tracks cfg a₀ a' n (tickLocked ln timeout).1 ∧
      ∀ spawn, (tickLocked ln timeout).2 = .ok spawn →
        (∀ task ∈ spawn.tasks (cfg.peer_ids n), TaskRel cfg a' n task) ∧
        ∀ msg ∈ spawn.sends (cfg.peer_ids n), MessageRel cfg a' msg := by
  have htick := tick_tracks h
  have hbeat := leader_of_heartbeat ln
  unfold tickLocked
  generalize ln.tick = r at htick hbeat
  obtain ⟨ln₁, action⟩ := r
  dsimp only
  by_cases hp : ln₁.is_poisoned = true
  · rw [if_pos hp]
    exact ⟨a, htick, by simp⟩
  rw [if_neg hp]
  cases action with
  | StartElection =>
    obtain ⟨a', ha', hok⟩ := begin_campaign_spawn hsafe hmem htick timeout
    dsimp only
    generalize begin_campaign ln₁ timeout = res at ha' hok
    obtain ⟨ln₂, e | params⟩ := res
    · exact ⟨a', ha', by simp⟩
    · refine ⟨a', ha', fun spawn hspawn => ?_⟩
      obtain rfl := Except.ok.inj hspawn
      obtain ⟨hrel, hmsg⟩ := hok params rfl
      exact ⟨by simpa [TickSpawn.tasks, TaskRel] using hrel, hmsg⟩
  | StartPreVote =>
    refine ⟨a, into_pre_candidate_tracks htick, fun spawn hspawn => ?_⟩
    obtain rfl := Except.ok.inj hspawn
    refine ⟨by simp [TickSpawn.tasks, TaskRel], ?_⟩
    intro msg hmsg
    obtain ⟨p, hp, rfl⟩ := List.mem_map.mp hmsg
    exact (mem_peer_ids.mp hp).1
  | SendHeartbeat =>
    obtain ⟨l, hl⟩ := hbeat rfl
    refine ⟨a, htick, fun spawn hspawn => ?_⟩
    obtain rfl := Except.ok.inj hspawn
    refine ⟨?_, by simp [TickSpawn.sends]⟩
    simpa [TickSpawn.tasks, TaskRel] using RoundFact.of_leader hsafe htick hl
  | StepDown =>
    refine ⟨a, htick, fun spawn hspawn => ?_⟩
    obtain rfl := Except.ok.inj hspawn
    simp [TickSpawn.tasks, TickSpawn.sends, TaskRel]
  | Stop =>
    refine ⟨a, htick, fun spawn hspawn => ?_⟩
    obtain rfl := Except.ok.inj hspawn
    simp [TickSpawn.tasks, TickSpawn.sends]
  | None =>
    refine ⟨a, htick, fun spawn hspawn => ?_⟩
    obtain rfl := Except.ok.inj hspawn
    simp [TickSpawn.tasks, TickSpawn.sends]

/-! ## The RPC service -/

theorem serve_tracks (hsafe : Safe (voters cfg) a) {sh sh' : ConsensusShell α} {dst : NodeId}
    {msg : Message α} {sends : List (Message α)} {timeout : Nat}
    (h : Tracks cfg a a msg.dst sh.inner) (hmsg : MessageRel cfg a msg)
    (hs : serve sh timeout msg = some (dst, sh', sends)) :
    dst = msg.dst ∧ ∃ a', Tracks cfg a a' msg.dst sh'.inner ∧
      ∀ m ∈ sends, MessageRel cfg a' m := by
  cases msg with
  | PreVoteReply src req resp => cases hs
  | VoteReply src req resp => cases hs
  | AppendReply src req resp => cases hs
  | PreVote d req =>
    simp only [serve] at hs
    generalize hw : sh.write _ = res at hs
    obtain ⟨sh₁, r⟩ := res
    obtain ⟨a', ha', -⟩ := write_tracks (P := fun _ _ => True) hw
      ⟨a, by rw [handle_pre_vote_fst]; exact h, trivial⟩
    cases r with
    | error e =>
      obtain ⟨rfl, rfl, rfl⟩ := by simpa using hs
      exact ⟨rfl, a', ha', by simp⟩
    | ok r =>
      obtain ⟨rfl, rfl, rfl⟩ := by simpa using hs
      exact ⟨rfl, a', ha', by simp [MessageRel]⟩
  | RequestVote d req =>
    simp only [serve] at hs
    generalize hw : sh.write _ = res at hs
    obtain ⟨sh₁, r⟩ := res
    obtain ⟨a', ha', hok⟩ := write_tracks hw
      (P := fun a' res => ∀ r, res = .ok r → r.vote_granted = true →
        a'.voted d req.term = some req.candidate_id)
      (handle_request_vote_tracks hsafe h timeout hmsg.2)
    cases r with
    | error e =>
      obtain ⟨rfl, rfl, rfl⟩ := by simpa using hs
      exact ⟨rfl, a', ha', by simp⟩
    | ok r =>
      obtain ⟨rfl, rfl, rfl⟩ := by simpa using hs
      refine ⟨rfl, a', ha', ?_⟩
      intro m hm
      obtain rfl := List.mem_singleton.mp hm
      exact ⟨hmsg.1, fun hg => hok r rfl hg⟩
  | AppendEntries d req =>
    obtain ⟨hd, T, m, hfact⟩ := hmsg
    simp only [serve] at hs
    generalize hw : sh.write _ = res at hs
    obtain ⟨sh₁, r⟩ := res
    obtain ⟨a', ha', hok⟩ := write_tracks hw
      (P := fun a' res => ∀ r, res = .ok r → r.success = true → AckFact a' d req)
      (handle_append_entries_tracks hsafe h hfact timeout)
    cases r with
    | error e =>
      obtain ⟨rfl, rfl, rfl⟩ := by simpa using hs
      exact ⟨rfl, a', ha', by simp⟩
    | ok r =>
      obtain ⟨rfl, rfl, rfl⟩ := by simpa using hs
      refine ⟨rfl, a', ha', ?_⟩
      intro m hm
      obtain rfl := List.mem_singleton.mp hm
      exact ⟨hd, fun hg => hok r rfl hg⟩

/-! ## The tasks -/

/-- What one turn of a task leaves behind. -/
def TaskDone (cfg : Config) (a₀ : Protocol α) (n : NodeId)
    (r : ConsensusShell α × List (SpawnedTask α) × List (Message α)) : Prop :=
  ∃ a', Tracks cfg a₀ a' n r.1.inner ∧ (∀ task ∈ r.2.1, TaskRel cfg a' n task) ∧
    ∀ msg ∈ r.2.2, MessageRel cfg a' msg

variable {sh : ConsensusShell α} {r : ConsensusShell α × List (SpawnedTask α) × List (Message α)}

/-- A task that ends or goes on without a message. -/
theorem TaskDone.of_tasks {sh' : ConsensusShell α} {tasks : List (SpawnedTask α)}
    (h : Tracks cfg a₀ a n sh'.inner) (ht : ∀ task ∈ tasks, TaskRel cfg a n task) :
    TaskDone cfg a₀ n (sh', tasks, []) :=
  ⟨a, h, ht, by simp⟩

theorem stepDown_tracks (hsafe : Safe (voters cfg) a₀) (h : Tracks cfg a₀ a n ln)
    (timeout : Nat) :
    ∃ a', Tracks cfg a₀ a' n
      (if ln.is_poisoned then (ln, .error .NodePoisoned)
        else ln.into_follower ln.current_term none timeout : Handled α Unit).1 := by
  split
  · exact ⟨a, h⟩
  · obtain ⟨a', ha', -⟩ := into_follower_tracks hsafe h ln.current_term none timeout
    exact ⟨a', ha'⟩

theorem countPreVote_rel (quorum : Nat) (req : RequestVoteRequest) (pending : List NodeId)
    (votes : Nat) (granted : Bool) :
    TaskRel cfg a n (countPreVote quorum req pending votes granted) := by
  unfold countPreVote
  split
  · split <;> trivial
  · trivial

variable [DecidableEq α]

theorem runTask_preVote (hsafe : Safe (voters cfg) a) (h : Tracks cfg a a n sh.inner)
    {peer : NodeId} {reply : Option (Message α)} {timeout : Nat} {req : RequestVoteRequest}
    {pending : List NodeId} {votes : Nat}
    (hr : runTask cfg n sh peer reply timeout (.PreVote req pending votes) = some r) :
    TaskDone cfg a n r := by
  simp only [runTask] at hr
  split at hr
  · obtain rfl := Option.some.inj hr
    refine .of_tasks h ?_
    split <;> simp [TaskRel]
  split at hr
  swap
  · cases hr
  split at hr
  · obtain rfl := Option.some.inj hr
    exact .of_tasks h (by simp [TaskRel])
  · split at hr
    swap
    · cases hr
    split at hr
    · generalize hw : sh.write _ = res at hr
      obtain ⟨sh₁, res⟩ := res
      obtain ⟨a', ha', -⟩ := write_tracks (P := fun _ _ => True) hw
        ((observe_pre_vote_term_tracks hsafe h _ timeout).imp fun _ h => ⟨h, trivial⟩)
      rcases res with e | _ | _
      · obtain rfl := Option.some.inj hr
        exact .of_tasks ha' (by simp)
      · obtain rfl := Option.some.inj hr
        exact .of_tasks ha' (by simpa using countPreVote_rel _ _ _ _ _)
      · obtain rfl := Option.some.inj hr
        exact .of_tasks ha' (by simp)
    · obtain rfl := Option.some.inj hr
      exact .of_tasks h (by simpa using countPreVote_rel _ _ _ _ _)
  · cases hr

theorem runTask_election (hsafe : Safe (voters cfg) a) (hmem : n ∈ cfg.members)
    (h : Tracks cfg a a n sh.inner) {peer : NodeId}
    {reply : Option (Message α)} {timeout : Nat} {params : ElectionCampaignParams}
    {pending : List NodeId} {votes : Nat} (hrel : CampaignRel cfg a n params pending votes)
    (hreply : ∀ msg, reply = some msg → MessageRel cfg a msg)
    (hr : runTask cfg n sh peer reply timeout (.Election params pending votes) = some r) :
    TaskDone cfg a n r := by
  simp only [runTask] at hr
  split at hr
  · split at hr
    · rename_i hcond
      obtain rfl := Option.some.inj hr
      refine .of_tasks h ?_
      have := hrel.short
      simp only [List.mem_singleton, forall_eq, TaskRel]
      omega
    · obtain rfl := Option.some.inj hr
      exact .of_tasks h (by simp)
  split at hr
  swap
  · cases hr
  have hrel' : CampaignRel cfg a n params (pending.erase peer) votes :=
    { hrel with pending := fun p hp => hrel.pending p (List.mem_of_mem_erase hp) }
  split at hr
  · obtain rfl := Option.some.inj hr
    exact .of_tasks h (by simpa [TaskRel] using hrel')
  · rename_i src req resp
    split at hr
    swap
    · cases hr
    rename_i hsrc
    obtain ⟨rfl, rfl⟩ := hsrc
    obtain ⟨hsrc, hvote⟩ := hreply _ rfl
    rw [show params.request.candidate_id = n from hrel.node_id] at hvote
    generalize hw : sh.write _ = res at hr
    obtain ⟨sh₁, res⟩ := res
    obtain ⟨a', ha', -⟩ := write_tracks (P := fun _ _ => True) hw
      ((process_vote_response_tracks hsafe hmem h timeout hsrc hvote).imp
        fun _ h => ⟨h, trivial⟩)
    rcases res with e | _ | _ | _
    · obtain rfl := Option.some.inj hr
      exact .of_tasks ha' (by simp)
    · obtain rfl := Option.some.inj hr
      exact .of_tasks ha' (by simp)
    · obtain rfl := Option.some.inj hr
      exact .of_tasks ha' (by simp)
    · obtain rfl := Option.some.inj hr
      refine .of_tasks ha' ?_
      simpa [TaskRel] using hrel'.grow (ha'.grows hsafe)
  · cases hr

theorem runTask_replication (hsafe : Safe (voters cfg) a) (hmem : n ∈ cfg.members)
    (h : Tracks cfg a a n sh.inner) {peer : NodeId} {reply : Option (Message α)} {timeout : Nat}
    {params : ReplicationRoundParams} {unsent : List NodeId}
    {awaiting : List (NodeId × AppendEntriesRequest α)}
    (hrel : TaskRel cfg a n (.Replication params unsent awaiting))
    (hreply : ∀ msg, reply = some msg → MessageRel cfg a msg)
    (hr : runTask cfg n sh peer reply timeout (.Replication params unsent awaiting) = some r) :
    TaskDone cfg a n r := by
  obtain ⟨hround, hunsent, hawait⟩ := hrel
  simp only [runTask] at hr
  split at hr
  · rename_i hpeer
    have hunsent' : ∀ p ∈ unsent.erase peer, p ∈ cfg.peer_ids n :=
      fun p hp => hunsent p (List.mem_of_mem_erase hp)
    generalize hw : sh.write _ = res at hr
    obtain ⟨sh₁, res⟩ := res
    have hprep := prepare_replication_tracks hsafe h hround peer
    obtain ⟨a', ha', rfl, hok⟩ := write_tracks hw
      (P := fun a' res => a' = a ∧ ∀ req, res = .ok (some (.AppendEntries req)) →
        req.term = params.term ∧ req.leader_id = n ∧ ∃ T m, AppendFact cfg a req T m)
      ⟨a, hprep.1, rfl, hprep.2⟩
    rcases res with e | _ | _ | _
    · obtain rfl := Option.some.inj hr
      exact .of_tasks ha' (by simp)
    · obtain rfl := Option.some.inj hr
      refine .of_tasks ha' ?_
      simp only [List.mem_singleton, forall_eq]
      exact ⟨hround, hunsent', hawait⟩
    · rename_i req
      obtain rfl := Option.some.inj hr
      obtain ⟨hterm, hid, hfact⟩ := hok req rfl
      refine ⟨a', ha', ?_, ?_⟩
      · intro task htask
        obtain rfl := List.mem_singleton.mp htask
        refine ⟨hround, hunsent', fun call hcall => ?_⟩
        rcases List.mem_cons.mp hcall with rfl | hcall
        · exact ⟨hunsent peer hpeer, hterm, hid⟩
        · exact hawait call hcall
      · intro msg hmsg
        obtain rfl := List.mem_singleton.mp hmsg
        exact ⟨(mem_peer_ids.mp (hunsent peer hpeer)).1, hfact⟩
    · cases hr
  · split at hr
    · cases hr
    rename_i call hcall
    have hin := List.mem_of_find?_eq_some hcall
    have heq : call.1 = peer := by simpa using List.find?_some hcall
    obtain ⟨hpeer, hterm, hid⟩ := hawait call hin
    have hrel' : ∀ {a' : Protocol α}, Grows a a' →
        TaskRel cfg a' n (.Replication params unsent (awaiting.erase call)) := fun hg =>
      ⟨hround.grow hg, hunsent, fun c hc => hawait c (List.mem_of_mem_erase hc)⟩
    split at hr
    · obtain rfl := Option.some.inj hr
      exact .of_tasks h (by simpa using hrel' (.refl a))
    · rename_i src req resp
      split at hr
      swap
      · cases hr
      rename_i hsrc
      obtain ⟨rfl, rfl⟩ := hsrc
      rw [heq] at hpeer
      obtain ⟨-, hack⟩ := hreply _ rfl
      generalize hw : sh.write _ = res at hr
      obtain ⟨sh₁, res⟩ := res
      obtain ⟨a', ha', -⟩ := write_tracks (P := fun _ _ => True) hw
        ((process_replication_response_tracks hsafe hmem h hpeer hterm hid hack timeout).imp
          fun _ h => ⟨h, trivial⟩)
      rcases res with e | e | _ | _
      · obtain rfl := Option.some.inj hr
        exact .of_tasks ha' (by simp)
      · obtain rfl := Option.some.inj hr
        exact .of_tasks ha' (by simp [TaskRel])
      · obtain rfl := Option.some.inj hr
        exact .of_tasks ha' (by simp)
      · obtain rfl := Option.some.inj hr
        exact .of_tasks ha' (by simpa using hrel' (ha'.grows hsafe))
    · cases hr

/-- Every task does what a node of the protocol can do. -/
theorem runTask_tracks (hsafe : Safe (voters cfg) a) (hmem : n ∈ cfg.members)
    (h : Tracks cfg a a n sh.inner) {peer : NodeId}
    {reply : Option (Message α)} {timeout : Nat} {task : SpawnedTask α}
    (hrel : TaskRel cfg a n task) (hreply : ∀ msg, reply = some msg → MessageRel cfg a msg)
    (hr : runTask cfg n sh peer reply timeout task = some r) : TaskDone cfg a n r := by
  cases task with
  | StepDown =>
    simp only [runTask] at hr
    generalize hw : sh.write _ = res at hr
    obtain ⟨a', ha', -⟩ := write_tracks (P := fun _ _ => True) hw
      ((stepDown_tracks hsafe h timeout).imp fun _ h => ⟨h, trivial⟩)
    obtain rfl := Option.some.inj hr
    exact .of_tasks ha' (by simp)
  | PreVote req pending votes => exact runTask_preVote hsafe h hr
  | BecomeCandidate =>
    simp only [runTask] at hr
    generalize hw : sh.write _ = res at hr
    obtain ⟨sh₁, res⟩ := res
    obtain ⟨a', ha', hok⟩ := write_tracks hw
      (P := fun a' res => ∀ params, res = .ok params →
        CampaignRel cfg a' n params (cfg.peer_ids n) 1 ∧
        ∀ msg ∈ (cfg.peer_ids n).map fun p => Message.RequestVote (α := α) p params.request,
          MessageRel cfg a' msg)
      (begin_campaign_spawn hsafe hmem h timeout)
    cases res with
    | error e =>
      obtain rfl := Option.some.inj hr
      exact .of_tasks ha' (by simp)
    | ok params =>
      obtain rfl := Option.some.inj hr
      obtain ⟨hc, hmsg⟩ := hok params rfl
      exact ⟨a', ha', by simpa [TaskRel] using hc, hmsg⟩
  | Election params pending votes => exact runTask_election hsafe hmem h hrel hreply hr
  | Tally params pending votes =>
    simp only [runTask] at hr
    obtain rfl := Option.some.inj hr
    refine .of_tasks h ?_
    simp only [List.mem_singleton, forall_eq]
    refine ⟨hrel.node_id, hrel.fact, ?_, hrel.pending⟩
    cases hst : sh.inner.node.state with
    | Candidate c => exact (h.role_of hst : CandidateRel cfg a n c).short
    | _ => exact hrel.short
  | Promote =>
    simp only [runTask] at hr
    generalize hw : sh.write _ = res at hr
    obtain ⟨a', ha', -⟩ := write_tracks (P := fun _ _ => True) hw
      ((promote_tracks hmem h hrel).imp fun _ h => ⟨h, trivial⟩)
    obtain rfl := Option.some.inj hr
    exact .of_tasks ha' (by simp)
  | Replication params unsent awaiting =>
    exact runTask_replication hsafe hmem h hrel hreply hr
  | Fatal err =>
    simp only [runTask] at hr
    generalize hw : sh.write _ = res at hr
    obtain ⟨a', ha', -⟩ := write_tracks (P := fun _ _ => True) hw ⟨a, h.poison, trivial⟩
    obtain rfl := Option.some.inj hr
    exact .of_tasks ha' (by simp)

/-! ## Hosts -/

/-- The applier never runs past what the node takes as committed. -/
def ApplierRel (a : Protocol α) (n : NodeId) : Applier α → Prop
  | .Idle => True
  | .Looping _ committed => committed ≤ a.commit n
  | .Fetched next_idx _ => next_idx ≤ a.commit n
  | .Applied next_idx => next_idx ≤ a.commit n

omit [DecidableEq α] in
theorem ApplierRel.mono {ap : Applier α} (h : ApplierRel a n ap)
    (hle : a.commit n ≤ a'.commit n) : ApplierRel a' n ap := by
  cases ap with
  | Idle => trivial
  | Looping applied committed => exact le_trans h hle
  | Fetched next_idx data => exact le_trans h hle
  | Applied next_idx => exact le_trans h hle

structure ProcessRel (cfg : Config) (a₀ a : Protocol α) (n : NodeId) (p : Process α) : Prop where
  member : n ∈ cfg.members
  node : Tracks cfg a₀ a n p.shell.inner
  tasks : ∀ task ∈ p.tasks, TaskRel cfg a n task
  applier : ApplierRel a n p.applier

def HostRel (cfg : Config) (a : Protocol α) (n : NodeId) : HostState α → Prop
  | .Up p => ProcessRel cfg a a n p ∧ p.shell.inner.node.log_store.past = []
  | .Down disk => DiskRel a n disk ∧ a.role n = .follower

/-- The cluster stands for the state of the protocol. -/
structure Refines (cfg : Config) (c : Cluster α S) (a : Protocol α) : Prop where
  safe : Safe (voters cfg) a
  hosts : ∀ n, HostRel cfg a n (c.hosts n).state
  network : ∀ msg ∈ c.network, MessageRel cfg a msg

omit [DecidableEq α] in
theorem Tracks.settle (h : Tracks cfg a₀ a n ln) : Tracks cfg a a n ln.settle where
  steps := .refl a
  disk := h.disk
  past := by simp [LogicalNode.settle]
  node_id := h.node_id
  commit := h.commit
  role := h.role
  commit_le := le_rfl

omit [DecidableEq α] in
theorem HostRel.frame {m : NodeId} (hf : Frame m a a') (hg : Grows a a') (hne : n ≠ m)
    {st : HostState α} (h : HostRel cfg a n st) : HostRel cfg a' n st := by
  cases st with
  | Down disk => exact ⟨h.1.frame hf hne, (hf.role_eq n hne).trans h.2⟩
  | Up p =>
    obtain ⟨⟨hmem, hnode, htasks, happ⟩, hpast⟩ := h
    have hcommit := hf.commit_eq n hne
    refine ⟨⟨hmem, ?_, fun task ht => (htasks task ht).grow hg, happ.mono hcommit.ge⟩, hpast⟩
    refine ⟨.refl a', hnode.disk.frame hf hne, ?_, hnode.node_id, ?_,
      hnode.role.frame hf hg hne, le_rfl⟩
    · rw [hpast]
      simp
    · rw [hnode.commit, hcommit]

omit [DecidableEq α] in
/-- One host moves and the protocol takes steps of its node. -/
theorem Refines.move {c : Cluster α S} (h : Refines cfg c a) {m : NodeId}
    (hs : Steps (voters cfg) m a a') (host : Host α S) (hhost : HostRel cfg a' m host.state)
    (sends : List (Message α)) (hsends : ∀ msg ∈ sends, MessageRel cfg a' msg) :
    Grows a a' ∧ Refines cfg { c.setHost m host with network := c.network ++ sends } a' := by
  obtain ⟨hsafe, hgrow⟩ := h.safe.steps hs
  refine ⟨hgrow, hsafe, ?_, ?_⟩
  · intro k
    change HostRel cfg a' k (if k = m then host else c.hosts k).state
    split
    · rename_i heq
      rw [heq]
      exact hhost
    · rename_i hne
      exact (h.hosts k).frame hs.frame hgrow hne
  · intro msg hmsg
    rcases List.mem_append.mp hmsg with hin | hin
    · exact (h.network msg hin).grow hgrow
    · exact hsends msg hin

/-! ## Steps -/

/-- What a step of a host leaves behind, before its writes are settled. -/
structure EffectRel (cfg : Config) (a₀ a : Protocol α) (e : Effect α S) : Prop where
  process : ProcessRel cfg a₀ a e.host e.process
  sends : ∀ msg ∈ e.sends, MessageRel cfg a msg

omit [DecidableEq α] in
theorem Refines.up {c : Cluster α S} (h : Refines cfg c a) {p : Process α}
    (hp : c.process n = some p) : ProcessRel cfg a a n p := by
  have hhost := h.hosts n
  rw [process_up hp] at hhost
  exact hhost.1

omit [DecidableEq α] in
/-- The parts of a process that a handler of the node does not touch. -/
theorem ProcessRel.keep (hsafe : Safe (voters cfg) a) {p p' : Process α}
    (h : ProcessRel cfg a a n p) (hnode : Tracks cfg a a' n p'.shell.inner)
    (htasks : ∀ task ∈ p'.tasks, task ∈ p.tasks ∨ TaskRel cfg a' n task)
    (happ : p'.applier = p.applier) : ProcessRel cfg a a' n p' := by
  refine ⟨h.member, hnode, fun task ht => ?_, ?_⟩
  · rcases htasks task ht with hold | hnew
    · exact (h.tasks task hold).grow (hnode.grows hsafe)
    · exact hnew
  · rw [happ]
    exact h.applier.mono hnode.commit_le

omit [DecidableEq α] in
theorem tick_effect (hsafe : Safe (voters cfg) a) {p : Process α} (hp : ProcessRel cfg a a n p)
    (timeout : Nat) :
    ∃ a', Tracks cfg a a' n (p.shell.write fun ln => tickLocked ln timeout).1.inner ∧
      ∀ spawn, (p.shell.write fun ln => tickLocked ln timeout).2 = .ok spawn →
        (∀ task ∈ spawn.tasks (cfg.peer_ids n), TaskRel cfg a' n task) ∧
          ∀ msg ∈ spawn.sends (cfg.peer_ids n), MessageRel cfg a' msg := by
  generalize hw : p.shell.write _ = res
  obtain ⟨sh, res⟩ := res
  exact write_tracks hw (P := fun a' res => ∀ spawn, res = .ok spawn →
    (∀ task ∈ spawn.tasks (cfg.peer_ids n), TaskRel cfg a' n task) ∧
      ∀ msg ∈ spawn.sends (cfg.peer_ids n), MessageRel cfg a' msg)
    (tickLocked_tracks hsafe hp.member hp.node timeout)

omit [DecidableEq α] in
theorem probe_effect (hsafe : Safe (voters cfg) a) {p : Process α}
    (hp : ProcessRel cfg a a n p) :
    ∃ a', Tracks cfg a a' n p.shell.prepare_probe.1.inner ∧
      ∀ probe params, p.shell.prepare_probe.2 = .ok (.ok probe) → probe.round = some params →
        RoundFact cfg a' n params := by
  unfold ConsensusShell.prepare_probe
  generalize hw : p.shell.write _ = res
  obtain ⟨sh, res⟩ := res
  refine write_tracks hw (P := fun a' res => ∀ probe params, res = .ok (.ok probe) →
    probe.round = some params → RoundFact cfg a' n params) ⟨a, ?_⟩
  dsimp only
  cases hst : p.shell.inner.node.state with
  | Leader l =>
    obtain ⟨hm, hn⟩ := prepare_read_probe_maps l p.shell.inner.node_id
    dsimp only
    generalize l.prepare_read_probe p.shell.inner.node_id = probe at hm hn
    obtain ⟨l', target⟩ := probe
    have hlead : LeaderRel cfg a n l' := LeaderRel.of_maps (hp.node.role_of hst) hm hn
    have htr : Tracks cfg a a n
        (p.shell.inner.withRole (p.shell.inner.node.transition l') .Leader) :=
      hp.node.reRole rfl rfl hp.node.commit hlead
    refine ⟨htr, ?_⟩
    rintro probe params hprobe hround
    simp only [Except.ok.injEq] at hprobe
    subst hprobe
    dsimp only at hround
    split at hround
    · cases hround
    · obtain rfl := Option.some.inj hround
      exact RoundFact.of_leader hsafe htr rfl
  | Follower f => exact ⟨hp.node, by simp⟩
  | PreCandidate f => exact ⟨hp.node, by simp⟩
  | Candidate f => exact ⟨hp.node, by simp⟩
  | Poisoned => exact ⟨hp.node, by simp⟩

omit [DecidableEq α] in
theorem runApplier_effect {sm : StateMachine α S} {p p' : Process α} {fsm fsm' : S}
    (hp : ProcessRel cfg a a n p) (hr : runApplier sm p fsm = some (p', fsm')) :
    ProcessRel cfg a a n p' := by
  have hfatal : ∀ (err : NodeError) {q : Process α},
      q = { p with
        shell := (p.shell.write fun ln => (ln.apply_fatal err : Handled α Unit)).1
        applier := .Idle } → ProcessRel cfg a a n q := by
    rintro err q rfl
    refine ⟨hp.member, ?_, hp.tasks, trivial⟩
    rw [ConsensusShell.write_inner]
    exact (hp.node.poison.afterHandler : Tracks cfg a a n
      (afterHandler (p.shell.inner.apply_fatal err : Handled α Unit)))
  unfold runApplier at hr
  dsimp only at hr
  cases happ : p.applier with
  | Idle =>
    rw [happ] at hr
    dsimp only at hr
    split at hr
    · cases hr
    split at hr
    · obtain ⟨rfl, -⟩ := Prod.mk.inj (Option.some.inj hr)
      exact hfatal _ rfl
    · obtain ⟨rfl, -⟩ := Prod.mk.inj (Option.some.inj hr)
      exact ⟨hp.member, hp.node, hp.tasks, hp.node.commit.le⟩
  | Looping applied committed =>
    have hle : committed ≤ a.commit n := by
      have := hp.applier
      rwa [happ] at this
    rw [happ] at hr
    dsimp only at hr
    split at hr
    swap
    · obtain ⟨rfl, -⟩ := Prod.mk.inj (Option.some.inj hr)
      exact ⟨hp.member, hp.node, hp.tasks, trivial⟩
    split at hr
    · obtain ⟨rfl, -⟩ := Prod.mk.inj (Option.some.inj hr)
      exact hfatal _ rfl
    rename_i hadd
    obtain ⟨rfl, -⟩ := checked_add_ok hadd
    split at hr
    · obtain ⟨rfl, -⟩ := Prod.mk.inj (Option.some.inj hr)
      exact hfatal _ rfl
    · obtain ⟨rfl, -⟩ := Prod.mk.inj (Option.some.inj hr)
      exact hfatal _ rfl
    · obtain ⟨rfl, -⟩ := Prod.mk.inj (Option.some.inj hr)
      refine ⟨hp.member, hp.node, hp.tasks, ?_⟩
      change applied + 1 ≤ a.commit n
      omega
  | Fetched next_idx data =>
    have hle : next_idx ≤ a.commit n := by
      have := hp.applier
      rwa [happ] at this
    rw [happ] at hr
    dsimp only at hr
    split at hr
    · obtain ⟨rfl, -⟩ := Prod.mk.inj (Option.some.inj hr)
      exact ⟨hp.member, hp.node, hp.tasks, hle⟩
    · obtain ⟨rfl, -⟩ := Prod.mk.inj (Option.some.inj hr)
      exact hfatal _ rfl
  | Applied next_idx =>
    have hle : next_idx ≤ a.commit n := by
      have := hp.applier
      rwa [happ] at this
    rw [happ] at hr
    dsimp only at hr
    generalize hw : p.shell.write _ = res at hr
    obtain ⟨sh, res⟩ := res
    have hdone : ∃ a', Tracks cfg a a' n sh.inner ∧
        (a' = a ∧ ∀ committed, res = .ok committed → committed ≤ a.commit n) :=
      write_tracks hw (P := fun a' res => a' = a ∧ ∀ committed, res = .ok committed →
        committed ≤ a.commit n) (by
        have hadv := advance_horizon_tracks hp.node hle
        generalize p.shell.inner.advance_horizon_after_snapshot next_idx = adv at hadv
        obtain ⟨ln₁, e | e | u⟩ := adv
        · exact ⟨a, hadv, rfl, by simp⟩
        · exact ⟨a, hadv.poison, rfl, by simp [LogicalNode.apply_fatal]⟩
        · refine ⟨a, hadv, rfl, ?_⟩
          rintro committed hc
          obtain rfl := Except.ok.inj hc
          exact hadv.commit.le)
    obtain ⟨a', ha', rfl, hok⟩ := hdone
    cases res with
    | error e =>
      obtain ⟨rfl, -⟩ := Prod.mk.inj (Option.some.inj hr)
      exact ⟨hp.member, ha', hp.tasks, trivial⟩
    | ok committed =>
      obtain ⟨rfl, -⟩ := Prod.mk.inj (Option.some.inj hr)
      exact ⟨hp.member, ha', hp.tasks, hok committed rfl⟩

/-- Every step of a host is followed by steps of its node. -/
theorem perform_effect {sm : StateMachine α S} {c : Cluster α S}
    (h : Refines cfg c a) {act : Act α} {e : Effect α S}
    (he : perform cfg sm c act = some e) : ∃ a', EffectRel cfg a a' e := by
  obtain ⟨p, hp, hacted⟩ := perform_acted he
  have hproc := h.up hp
  cases hacted with
  | halted hres =>
    obtain ⟨a', ha', -⟩ := tick_effect h.safe hproc _
    exact ⟨a', hproc.keep h.safe ha' (fun t ht => .inl ht) rfl, by simp⟩
  | ticked hres =>
    obtain ⟨a', ha', hok⟩ := tick_effect h.safe hproc _
    obtain ⟨htasks, hsends⟩ := hok _ hres
    refine ⟨a', hproc.keep h.safe ha' (fun t ht => ?_) rfl, hsends⟩
    rcases List.mem_append.mp ht with hnew | hold
    · exact .inr (htasks t hnew)
    · exact .inl hold
  | ran htask hrun =>
    obtain ⟨a', ha', hnew, hsends⟩ := runTask_tracks h.safe hproc.member hproc.node
      (hproc.tasks _ (List.mem_of_getElem? htask)) (fun msg hmsg => by
        obtain ⟨i, -, hi⟩ := Option.bind_eq_some_iff.mp hmsg
        exact h.network msg (List.mem_of_getElem? hi)) hrun
    refine ⟨a', hproc.keep h.safe ha' (fun t ht => ?_) rfl, hsends⟩
    rcases List.mem_append.mp ht with ht | ht
    · exact .inr (hnew t ht)
    · exact .inl (List.mem_of_mem_eraseIdx ht)
  | delivered hmsg hserve =>
    obtain ⟨-, a', ha', hsends⟩ := serve_tracks h.safe hproc.node
      (h.network _ (List.mem_of_getElem? hmsg)) hserve
    exact ⟨a', hproc.keep h.safe ha' (fun t ht => .inl ht) rfl, hsends⟩
  | proposed m data =>
    obtain ⟨a', ha'⟩ := propose_tracks h.safe hproc.node data
    refine ⟨a', hproc.keep h.safe ?_ (fun t ht => .inl ht) rfl, by simp⟩
    dsimp only
    rw [p.shell.propose_shell, ConsensusShell.write_inner]
    exact ha'.afterHandler
  | probed hres hround =>
    obtain ⟨a', ha', hfact⟩ := probe_effect h.safe hproc
    refine ⟨a', hproc.keep h.safe ha' (fun t ht => ?_) rfl, by simp⟩
    rcases List.mem_cons.mp ht with rfl | hold
    · exact .inr ⟨hfact _ _ hres hround, fun _ h => h, by simp⟩
    · exact .inl hold
  | joined m =>
    obtain ⟨a', ha', -⟩ := probe_effect h.safe hproc
    exact ⟨a', hproc.keep h.safe ha' (fun t ht => .inl ht) rfl, by simp⟩
  | applied hrun => exact ⟨a, runApplier_effect hproc hrun, by simp⟩

omit [DecidableEq α] in
/-- A host that goes down keeps its disk; its role is lost. -/
theorem Refines.down {c : Cluster α S} (h : Refines cfg c a) {m : NodeId}
    (hs : Steps (voters cfg) m a a') {disk : SledStorage α} (hdisk : DiskRel a' m disk)
    (fsm : S) :
    ∃ a'', Grows a a'' ∧ Refines cfg (c.setHost m ⟨fsm, .Down disk⟩) a'' := by
  have hmove := h.move (hs.trans (.single (.retire a'))) ⟨fsm, .Down disk⟩
    ⟨hdisk.retire, by simp⟩ [] (by simp)
  rw [List.append_nil] at hmove
  exact ⟨_, hmove⟩

omit [DecidableEq α] in
/-- A node that starts is a follower with what its disk holds. -/
theorem try_new_tracks (cfg : Config) {disk : SledStorage α} (hdisk : DiskRel a n disk)
    (hrole : a.role n = .follower) {applied heartbeat timeout : Nat}
    (hnew : LogicalNode.try_new n applied disk heartbeat timeout = .ok ln) :
    Tracks cfg a a n ln ∧ ln.node.log_store.past = [] := by
  unfold LogicalNode.try_new at hnew
  split at hnew
  · cases hnew
  obtain rfl := Except.ok.inj hnew
  refine ⟨⟨.refl a, hdisk, ?_, rfl, hdisk.commit, hrole, le_rfl⟩, rfl⟩
  intro d hd
  cases hd

/-- Every step of the cluster is followed by steps of the protocol. -/
theorem step_refines {sm : StateMachine α S} {c c' : Cluster α S}
    {act : Action α} (h : Refines cfg c a) (hs : step cfg sm c act = some c') :
    ∃ a', Grows a a' ∧ Refines cfg c' a' := by
  cases step_after hs with
  | @acted act e he =>
    obtain ⟨a', hproc, hsends⟩ := perform_effect h he
    exact ⟨a', h.move hproc.node.steps ⟨e.fsm, .Up e.process.settle⟩
      ⟨⟨hproc.member, hproc.node.settle, hproc.tasks, hproc.applier⟩, rfl⟩ e.sends hsends⟩
  | crashedIn he hdisk =>
    obtain ⟨a', hproc, -⟩ := perform_effect h he
    rcases List.mem_cons.mp hdisk with rfl | hpast
    · exact h.down hproc.node.steps hproc.node.disk _
    · obtain ⟨a'', hsteps, hrel⟩ := hproc.node.past _ hpast
      exact h.down hsteps hrel _
  | crashed hp => exact h.down (.refl a) (h.up hp).node.disk _
  | @stopped m timeout disk hdown =>
    have hhost := h.hosts m
    rw [hdown] at hhost
    exact h.down (.refl a) hhost.1 _
  | @booted m timeout disk ln hdown hmem hnew =>
    have hhost := h.hosts m
    rw [hdown] at hhost
    obtain ⟨hdisk, hrole⟩ := hhost
    obtain ⟨htr, hpast⟩ := try_new_tracks cfg hdisk hrole hnew
    have hmove := h.move (.refl a) ⟨(recover sm disk (c.hosts m).fsm).1, .Up ⟨.new ln, .Idle, []⟩⟩
      ⟨⟨hmem, htr, by simp, trivial⟩, hpast⟩ [] (by simp)
    rw [List.append_nil] at hmove
    exact ⟨a, hmove⟩

omit [DecidableEq α] in
theorem Refines.init (cfg : Config) (sm : StateMachine α S) :
    Refines cfg (Cluster.init sm) raft.State.init where
  safe := .init _
  hosts := fun _ => ⟨⟨rfl, rfl, .new, rfl⟩, rfl⟩
  network := by simp [Cluster.init]

/-- Every run of the cluster is followed by the protocol, which forgets nothing. -/
theorem run_refines {sm : StateMachine α S} {c c' : Cluster α S}
    {P : Cluster α S → Action α → Prop} (hrun : machine.Run (step cfg sm) P c c')
    (h : Refines cfg c a) : ∃ a', Grows a a' ∧ Refines cfg c' a' :=
  hrun.simulates .refl .trans (fun _ _ _ _ h _ hs => step_refines h hs) h

end raft_engine.refinement
