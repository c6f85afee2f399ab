-- What a commit index stands on. A round carries the one of its leader, and a request
-- the one of its round; so every index that a host has taken over was counted by some
-- leader, and that leader does not go back behind it in its term.
import LactoSensus.CommitOrigins
import LactoSensus.Windows

open common.types
open raft_engine.engine
open raft_engine.consensus
open raft_engine.shell
open raft_engine.cluster
open raft_engine.roles
open raft_engine.refinement
open raft_engine.station (prepare_replication_some determine_replication_strategy_cases
  build_append_entries_request_ok)
open raft (Grows Settled)

namespace raft_engine.origins

variable {α S : Type} {ln : LogicalNode α} {sh sh' : ConsensusShell α}
  {cfg : Config} {sm : StateMachine α S} {c c' : Cluster α S} {a a' : Protocol α}

/-! ## Rounds and requests -/

/-- A round only follows a round of the same parameters. -/
theorem follows_round {n : NodeId} {reply : Option (Message α)} {task : SpawnedTask α}
    {params : ReplicationRoundParams} {unsent : List NodeId}
    {awaiting : List (NodeId × AppendEntriesRequest α)}
    (h : Follows cfg n reply task (.Replication params unsent awaiting)) :
    ∃ unsent awaiting, task = .Replication params unsent awaiting := by
  generalize hnext : SpawnedTask.Replication params unsent awaiting = next at h
  cases h with
  | granted req pending pending' granted src resp hreply hgrant =>
    unfold countPreVote at hnext
    split at hnext
    · split at hnext <;> cases hnext
    · cases hnext
  | replicated params' unsent₁ unsent₂ awaiting₁ awaiting₂ =>
    obtain ⟨rfl, -, -⟩ := SpawnedTask.Replication.inj hnext
    exact ⟨_, _, rfl⟩
  | _ => cases hnext

/-- A heartbeat carries the commit index of its leader. -/
theorem tickLocked_round {timeout : Nat} {spawn : TickSpawn} {peers : List NodeId}
    {params : ReplicationRoundParams} {unsent : List NodeId}
    {awaiting : List (NodeId × AppendEntriesRequest α)}
    (hres : (tickLocked ln timeout).2 = .ok spawn)
    (hmem : .Replication params unsent awaiting ∈ (spawn.tasks peers : List (SpawnedTask α))) :
    params.last_committed = ln.last_committed := by
  unfold tickLocked at hres
  have htick : ln.tick.1.last_committed = ln.last_committed := rfl
  generalize ln.tick = r at hres htick
  obtain ⟨ln₁, action⟩ := r
  dsimp only at hres
  split at hres
  · cases hres
  cases action with
  | StartElection =>
    dsimp only at hres
    generalize begin_campaign ln₁ timeout = r at hres
    obtain ⟨ln₂, e | params'⟩ := r
    · cases hres
    · obtain rfl := Except.ok.inj hres
      simp [TickSpawn.tasks] at hmem
  | SendHeartbeat =>
    obtain rfl := Except.ok.inj hres
    obtain ⟨rfl, -, -⟩ := by simpa [TickSpawn.tasks] using hmem
    exact htick
  | StartPreVote | StepDown | Stop | None =>
    obtain rfl := Except.ok.inj hres
    simp [TickSpawn.tasks] at hmem

theorem prepare_probe_round {probe : ReadProbe} {params : ReplicationRoundParams}
    (hres : sh.prepare_probe.2 = .ok (.ok probe)) (hround : probe.round = some params) :
    params.last_committed = sh.inner.last_committed := by
  unfold ConsensusShell.prepare_probe at hres
  rw [ConsensusShell.write_result] at hres
  split at hres
  · cases hres
  · obtain rfl := Except.ok.inj (Except.ok.inj hres)
    dsimp only at hround
    split at hround
    · cases hround
    · obtain rfl := Option.some.inj hround
      rfl
  · cases hres

/-- A round carries the commit index of its node, or goes on as it was. -/
theorem perform_rounds [DecidableEq α] {act : Act α} {e : Effect α S}
    (he : perform cfg sm c act = some e) {params : ReplicationRoundParams}
    {unsent : List NodeId} {awaiting : List (NodeId × AppendEntriesRequest α)}
    (ht : .Replication params unsent awaiting ∈ e.process.tasks) :
    ∃ p, c.process e.host = some p ∧
      ((∃ unsent awaiting, .Replication params unsent awaiting ∈ p.tasks) ∨
        params.last_committed = p.shell.inner.last_committed) := by
  obtain ⟨p, hp, hacted⟩ := perform_acted he
  refine ⟨p, hp, ?_⟩
  cases hacted with
  | halted hres => exact .inl ⟨_, _, ht⟩
  | ticked hres =>
    rcases List.mem_append.mp ht with hnew | hold
    · exact .inr (tickLocked_round (ConsensusShell.write_result .. ▸ hres) hnew)
    · exact .inl ⟨_, _, hold⟩
  | ran htask hrun =>
    refine .inl ?_
    rcases List.mem_append.mp ht with hnew | hold
    · obtain ⟨unsent, awaiting, rfl⟩ := follows_round ((runTask_ran hrun).follows _ hnew)
      exact ⟨_, _, List.mem_of_getElem? htask⟩
    · exact ⟨_, _, List.mem_of_mem_eraseIdx hold⟩
  | delivered hmsg hserve => exact .inl ⟨_, _, ht⟩
  | proposed n data => exact .inl ⟨_, _, ht⟩
  | probed hres hround =>
    rcases List.mem_cons.mp ht with hnew | hold
    · obtain ⟨rfl, -, -⟩ := SpawnedTask.Replication.inj hnew
      exact .inr (prepare_probe_round hres hround)
    · exact .inl ⟨_, _, hold⟩
  | joined n => exact .inl ⟨_, _, ht⟩
  | applied hrun =>
    refine .inl ⟨unsent, awaiting, ?_⟩
    cases runApplier_step hrun <;> exact ht

/-- What a host can send in a step: a request carries the commit index of its round, and an
answer the term of the node or a later one. -/
inductive Sends (n : NodeId) (p : Process α) : Message α → Prop where
  | preVote (dst : NodeId) (req : RequestVoteRequest) : Sends n p (.PreVote dst req)
  | preVoteReply (src : NodeId) (req : RequestVoteRequest) (resp : RequestVoteResponse) :
      Sends n p (.PreVoteReply src req resp)
  | vote (dst : NodeId) (req : RequestVoteRequest) : Sends n p (.RequestVote dst req)
  | voteReply (src : NodeId) (req : RequestVoteRequest) (resp : RequestVoteResponse) :
      Sends n p (.VoteReply src req resp)
  | append {dst : NodeId} {req : AppendEntriesRequest α} {params : ReplicationRoundParams}
      {unsent : List NodeId} {awaiting : List (NodeId × AppendEntriesRequest α)}
      (ht : .Replication params unsent awaiting ∈ p.tasks)
      (hcommit : req.leader_commit = params.last_committed) : Sends n p (.AppendEntries dst req)
  | reply (req : AppendEntriesRequest α) {resp : AppendEntriesResponse}
      (hterm : p.shell.inner.current_term ≤ resp.term) : Sends n p (.AppendReply n req resp)

theorem prepare_replication_commit {peer : NodeId} {params : ReplicationRoundParams}
    {req : AppendEntriesRequest α}
    (h : (prepare_replication ln peer params).2 = .ok (some (.AppendEntries req))) :
    req.leader_commit = params.last_committed := by
  rcases determine_replication_strategy_cases (prepare_replication_some h) with
    hno | ⟨req', hsame, -, hbuild⟩
  · cases hno
  · obtain rfl := ReplicationStrategy.AppendEntries.inj hsame
    obtain ⟨b, entries, -, -, rfl⟩ := build_append_entries_request_ok hbuild
    rfl

theorem runTask_sends [DecidableEq α] {n peer : NodeId} {reply : Option (Message α)}
    {timeout : Nat} {task : SpawnedTask α} {tasks : List (SpawnedTask α)}
    {sends : List (Message α)} {p : Process α}
    (hrun : runTask cfg n sh peer reply timeout task = some (sh', tasks, sends))
    (htask : task ∈ p.tasks) : ∀ msg ∈ sends, Sends n p msg := by
  intro msg hm
  cases task with
  | BecomeCandidate =>
    simp only [runTask] at hrun
    split at hrun <;> obtain ⟨-, -, rfl⟩ := by simpa using hrun
    · obtain ⟨dst, -, rfl⟩ := List.mem_map.mp hm
      exact .vote dst _
    · cases hm
  | Replication params unsent awaiting =>
    simp only [runTask] at hrun
    split at hrun
    · have hres := sh.write_result fun ln => prepare_replication ln peer params
      generalize sh.write _ = w at hrun hres
      obtain ⟨sh₁, p | (none | strategy)⟩ := w
      · obtain ⟨-, -, rfl⟩ := by simpa using hrun
        cases hm
      · obtain ⟨-, -, rfl⟩ := by simpa using hrun
        cases hm
      · cases strategy with
        | InstallSnapshot i q => cases hrun
        | AppendEntries req =>
          obtain ⟨-, -, rfl⟩ := by simpa using hrun
          obtain rfl := List.mem_singleton.mp hm
          exact .append htask (prepare_replication_commit hres.symm)
    · repeat' split at hrun
      all_goals cases hrun <;> cases hm
  | PreVote req pending granted =>
    simp only [runTask] at hrun
    repeat' split at hrun
    all_goals cases hrun <;> cases hm
  | Election params pending granted =>
    simp only [runTask] at hrun
    repeat' split at hrun
    all_goals cases hrun <;> cases hm
  | StepDown | Tally | Promote | Fatal =>
    obtain ⟨-, -, rfl⟩ := by simpa [runTask] using hrun
    cases hm

theorem serve_sends {timeout : Nat} {msg : Message α} {n : NodeId} {sends : List (Message α)}
    {p : Process α} (hserve : serve p.shell timeout msg = some (n, sh', sends)) :
    ∀ msg ∈ sends, Sends n p msg := by
  intro m hm
  cases msg with
  | PreVote dst req =>
    simp only [serve] at hserve
    split at hserve <;> obtain ⟨rfl, -, rfl⟩ := by simpa using hserve
    · obtain rfl := List.mem_singleton.mp hm
      exact .preVoteReply _ _ _
    · cases hm
  | RequestVote dst req =>
    simp only [serve] at hserve
    split at hserve <;> obtain ⟨rfl, -, rfl⟩ := by simpa using hserve
    · obtain rfl := List.mem_singleton.mp hm
      exact .voteReply _ _ _
    · cases hm
  | AppendEntries dst req =>
    have hres := p.shell.write_result fun ln =>
      ln.handle_append_entries req.leader_id req.term req.prev_log_index req.prev_log_term
        req.entries req.leader_commit timeout
    simp only [serve] at hserve
    generalize p.shell.write _ = w at hserve hres
    obtain ⟨sh₁, e | r⟩ := w <;> obtain ⟨rfl, -, rfl⟩ := by simpa using hserve
    · cases hm
    · obtain rfl := List.mem_singleton.mp hm
      exact .reply req (handle_append_entries_term hres.symm)
  | PreVoteReply src req resp => cases hserve
  | VoteReply src req resp => cases hserve
  | AppendReply src req resp => cases hserve

theorem perform_sends [DecidableEq α] {act : Act α} {e : Effect α S}
    (he : perform cfg sm c act = some e) :
    ∃ p, c.process e.host = some p ∧ ∀ msg ∈ e.sends, Sends e.host p msg := by
  obtain ⟨p, hp, hacted⟩ := perform_acted he
  refine ⟨p, hp, fun msg hm => ?_⟩
  cases hacted with
  | ticked hres =>
    rename_i spawn
    cases spawn with
    | Campaign params =>
      obtain ⟨dst, -, rfl⟩ := List.mem_map.mp hm
      exact .vote dst _
    | PreVote req =>
      obtain ⟨dst, -, rfl⟩ := List.mem_map.mp hm
      exact .preVote dst req
    | Nothing | StepDown | Round => cases hm
  | ran htask hrun => exact runTask_sends hrun (List.mem_of_getElem? htask) msg hm
  | delivered hmsg hserve => exact serve_sends hserve msg hm
  | halted | proposed | probed | joined | applied => cases hm

/-! ## What a commit index stands on -/

/-- The leader of the term has counted the index, and while it stays in the term it does not
go back behind it. -/
structure CountedBy (cfg : Config) (a : Protocol α) (k t : Nat) (n : NodeId) : Prop where
  leader : a.leader t = some n
  settled : ∃ p, k ≤ p.length ∧ Settled (voters cfg) a t p
  holds : a.term n = t → k ≤ a.commit n

/-- Some leader has counted the index, or there is nothing to count. -/
def Led (cfg : Config) (a : Protocol α) (k : Nat) : Prop :=
  k = 0 ∨ ∃ t n, CountedBy cfg a k t n

theorem Led.mono {k k' : Nat} (hle : k' ≤ k) (h : Led cfg a k) : Led cfg a k' := by
  rcases h with rfl | ⟨t, n, hlead, ⟨p, hp, hset⟩, hholds⟩
  · exact .inl (Nat.le_zero.mp hle)
  · exact .inr ⟨t, n, hlead, ⟨p, hle.trans hp, hset⟩, fun ht => hle.trans (hholds ht)⟩

theorem leader_term_le (hsafe : raft.Safe (voters cfg) a) {t : Nat} {n : NodeId}
    (hlead : a.leader t = some n) : t ≤ a.term n := by
  obtain ⟨l, hl⟩ := Option.ne_none_iff_exists'.mp (hsafe.election.leader_cand t n hlead)
  exact hsafe.election.voted_le n t n (hsafe.election.cand_voted n t l hl)

/-- No commit index goes back, so what was counted stays counted. -/
theorem Led.grow (hsafe : raft.Safe (voters cfg) a) (hg : Grows a a')
    (hcommit : ∀ n, a.commit n ≤ a'.commit n) {k : Nat} (h : Led cfg a k) : Led cfg a' k := by
  rcases h with rfl | ⟨t, n, hlead, ⟨p, hp, hset⟩, hholds⟩
  · exact .inl rfl
  · refine .inr ⟨t, n, hg.leader_keep t n hlead, ⟨p, hp, hset.grow hg⟩, fun ht => ?_⟩
    have hle : a.term n ≤ t := ht ▸ hg.term_le n
    exact (hholds (le_antisymm hle (leader_term_le hsafe hlead))).trans (hcommit n)

/-- Every commit index that a host, a round or a request has goes back to a leader. -/
structure Backed (cfg : Config) (c : Cluster α S) (a : Protocol α) : Prop where
  hosts : ∀ n, Led cfg a (c.hosts n).last_committed
  rounds : ∀ n p params unsent awaiting, c.process n = some p →
    .Replication params unsent awaiting ∈ p.tasks → Led cfg a params.last_committed
  network : ∀ dst req, .AppendEntries dst req ∈ c.network → Led cfg a req.leader_commit

theorem Backed.init : Backed cfg (Cluster.init sm) (raft.State.init : Protocol α) where
  hosts n := .inl rfl
  rounds n p params unsent awaiting hp := by cases hp
  network dst req hreq := by cases hreq

theorem Backed.moved (h : Backed cfg c a) (hr : Refines cfg c a) (hr' : Refines cfg c' a')
    (hg : Grows a a') (hcommit : ∀ n, a.commit n ≤ a'.commit n) {n : NodeId}
    (hmoved : Moved c c' n) : Led cfg a' (c'.hosts n).last_committed := by
  cases hmoved with
  | same hsame =>
    rw [hsame]
    exact (h.hosts n).grow hr.safe hg hcommit
  | told hle htold =>
    obtain ⟨dst, req, hreq, hle⟩ := htold
    exact ((h.network dst req hreq).mono hle).grow hr.safe hg hcommit
  | counted hle hrole hterm =>
    have hlead := (hr.safe.election.role_leader n (hr.leader hrole)).1
    have hsame : a'.term n = a.term n := by
      rw [← hr'.current_term, ← hr.current_term, hterm]
    have hcomplete := hr'.safe.complete
    have hlen := hcomplete.commit_le n
    rw [hr'.last_committed]
    refine .inr ⟨a.term n, n, hg.leader_keep _ n hlead, ⟨_, ?_, hsame ▸ hcomplete.settled n⟩,
      fun _ => le_rfl⟩
    rw [List.length_take_of_le hlen]

theorem Backed.step [DecidableEq α] (h : Backed cfg c a) (hr : Refines cfg c a)
    (hr' : Refines cfg c' a') (hg : Grows a a') {act : Action α}
    (hs : step cfg sm c act = some c') : Backed cfg c' a' := by
  have hcommit : ∀ n, a.commit n ≤ a'.commit n := by
    intro n
    rw [← hr.last_committed, ← hr'.last_committed]
    exact (step_moved hr hs n).le
  have hgrow : ∀ {k : Nat}, Led cfg a k → Led cfg a' k := fun hk =>
    hk.grow hr.safe hg hcommit
  have hkept : ∀ (m : NodeId) (host : Host α S) (network : List (Message α)),
      (∀ p params unsent awaiting, host.state = .Up p →
        .Replication params unsent awaiting ∈ p.tasks → Led cfg a' params.last_committed) →
      ∀ n p params unsent awaiting,
        Cluster.process { c.setHost m host with network := network } n = some p →
        .Replication params unsent awaiting ∈ p.tasks → Led cfg a' params.last_committed := by
    intro m host network hhost n p params unsent awaiting hp ht
    by_cases hne : n = m
    · rw [hne] at hp
      refine hhost p params unsent awaiting ?_ ht
      have hup := process_up hp
      simpa [Cluster.setHost] using hup
    · rw [process_setHost_of_ne hne] at hp
      exact hgrow (h.rounds n p params unsent awaiting hp ht)
  refine ⟨fun n => h.moved hr hr' hg hcommit (step_moved hr hs n), ?_, ?_⟩
  · cases step_after hs with
    | @acted act e he =>
      refine hkept _ _ _ fun p params unsent awaiting hp ht => ?_
      obtain rfl := HostState.Up.inj hp
      obtain ⟨p, hp, ⟨unsent, awaiting, hold⟩ | hnew⟩ := perform_rounds he ht
      · exact hgrow (h.rounds _ p params unsent awaiting hp hold)
      · have hhost := hgrow (h.hosts e.host)
        unfold Host.last_committed at hhost
        rw [process_up hp] at hhost
        rw [hnew]
        exact hhost
    | crashedIn he hdisk => exact hkept _ _ c.network fun _ _ _ _ hp => by cases hp
    | crashed hp => exact hkept _ _ c.network fun _ _ _ _ hp => by cases hp
    | stopped hdown => exact hkept _ _ c.network fun _ _ _ _ hp => by cases hp
    | booted hdown hmem hnew =>
      refine hkept _ _ c.network fun p params unsent awaiting hp ht => ?_
      obtain rfl := HostState.Up.inj hp
      cases ht
  · intro dst req hreq
    cases step_after hs with
    | acted he =>
      rcases List.mem_append.mp hreq with hold | hnew
      · exact hgrow (h.network dst req hold)
      · obtain ⟨p, hp, hsends⟩ := perform_sends he
        cases hsends _ hnew with
        | append ht hsame =>
          rw [hsame]
          exact hgrow (h.rounds _ p _ _ _ hp ht)
    | crashedIn he hdisk => exact hgrow (h.network dst req hreq)
    | crashed hp => exact hgrow (h.network dst req hreq)
    | stopped hdown => exact hgrow (h.network dst req hreq)
    | booted hdown hmem hnew => exact hgrow (h.network dst req hreq)

end raft_engine.origins
