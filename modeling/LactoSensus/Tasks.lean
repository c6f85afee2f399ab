-- The tasks of a member at the points where they take the lock: which handler
-- each one runs under the guard, with what it had to be told, and which tasks
-- can take its place. The requests of the peers likewise. Then what a step of the
-- cluster comes to: what was called, and what is left of its host.
import LactoSensus.Cluster

open common.types
open raft_engine.storage
open raft_engine.node
open raft_engine.engine
open raft_engine.consensus
open raft_engine.shell
open raft_engine.cluster

namespace raft_engine.roles

variable {α X : Type} {sh sh' : ConsensusShell α}

/-- The second lock of the tick loop. -/
def stepDown (timeout : Nat) (ln : LogicalNode α) : Handled α Unit :=
  if ln.is_poisoned then (ln, .error .NodePoisoned)
  else ln.into_follower ln.current_term none timeout

/-- Everything a task can do with the shell, each with what it had to be told. -/
inductive TaskStep (cfg : Config) (n peer : NodeId) (reply : Option (Message α)) (timeout : Nat)
    (sh : ConsensusShell α) : SpawnedTask α → ConsensusShell α → Prop where
  | idle (task : SpawnedTask α) : TaskStep cfg n peer reply timeout sh task sh
  | steppedDown : TaskStep cfg n peer reply timeout sh .StepDown (sh.write (stepDown timeout)).1
  | observed (req : RequestVoteRequest) (pending : List NodeId) (pre_votes_granted : Nat)
      (resp : RequestVoteResponse) (hreply : reply = some (.PreVoteReply peer req resp))
      (hgt : req.term < resp.term) :
      TaskStep cfg n peer reply timeout sh (.PreVote req pending pre_votes_granted)
        (sh.write fun ln => observe_pre_vote_term ln resp.term timeout).1
  | stood : TaskStep cfg n peer reply timeout sh .BecomeCandidate
      (sh.write fun ln => begin_campaign ln timeout).1
  | counted (params : ElectionCampaignParams) (pending : List NodeId) (votes_granted : Nat)
      (resp : RequestVoteResponse) (hreply : reply = some (.VoteReply peer params.request resp)) :
      TaskStep cfg n peer reply timeout sh (.Election params pending votes_granted)
        (sh.write fun ln =>
          process_vote_response ln params.term (cfg.peer_ids n) peer resp timeout).1
  | promoted : TaskStep cfg n peer reply timeout sh .Promote
      (sh.write fun ln => ln.into_leader (cfg.peer_ids n)).1
  | prepared (params : ReplicationRoundParams) (unsent : List NodeId)
      (awaiting : List (NodeId × AppendEntriesRequest α)) :
      TaskStep cfg n peer reply timeout sh (.Replication params unsent awaiting)
        (sh.write fun ln => prepare_replication ln peer params).1
  | responded (params : ReplicationRoundParams) (unsent : List NodeId)
      (awaiting : List (NodeId × AppendEntriesRequest α)) (req : AppendEntriesRequest α)
      (resp : AppendEntriesResponse) (hreply : reply = some (.AppendReply peer req resp)) :
      TaskStep cfg n peer reply timeout sh (.Replication params unsent awaiting)
        (sh.write fun ln => process_replication_response ln params.term peer
          (.AppendEntries req.prev_log_index req.entries.length resp) timeout).1
  | failed (err : NodeError) : TaskStep cfg n peer reply timeout sh (.Fatal err)
      (sh.write fun ln => (ln.apply_fatal err : Handled α Unit)).1

/-- What can take the place of a task, with the answer that it had to be told. -/
inductive Follows (cfg : Config) (n : NodeId) (reply : Option (Message α)) :
    SpawnedTask α → SpawnedTask α → Prop where
  | polled (req : RequestVoteRequest) (pending pending' : List NodeId) (granted : Nat) :
      Follows cfg n reply (.PreVote req pending granted) (.PreVote req pending' granted)
  | granted (req : RequestVoteRequest) (pending pending' : List NodeId) (granted : Nat)
      (src : NodeId) (resp : RequestVoteResponse)
      (hreply : reply = some (.PreVoteReply src req resp)) (hgrant : resp.vote_granted = true) :
      Follows cfg n reply (.PreVote req pending granted)
        (countPreVote (quorumOf (cfg.peer_ids n)) req pending' granted true)
  | stood (req : RequestVoteRequest) (granted : Nat)
      (hquorum : granted ≥ quorumOf (cfg.peer_ids n)) :
      Follows cfg n reply (.PreVote req [] granted) .BecomeCandidate
  | campaign (params : ElectionCampaignParams) (pending : List NodeId) (granted : Nat) :
      Follows cfg n reply .BecomeCandidate (.Election params pending granted)
  | asked (params : ElectionCampaignParams) (pending pending' : List NodeId) (granted : Nat) :
      Follows cfg n reply (.Election params pending granted) (.Tally params pending' granted)
  | seen (params : ElectionCampaignParams) (pending : List NodeId) (granted : Nat) :
      Follows cfg n reply (.Election params pending granted) .Promote
  | tallied (params : ElectionCampaignParams) (pending : List NodeId) (granted granted' : Nat) :
      Follows cfg n reply (.Tally params pending granted) (.Election params pending granted')
  | replicated (params : ReplicationRoundParams) (unsent unsent' : List NodeId)
      (awaiting awaiting' : List (NodeId × AppendEntriesRequest α)) :
      Follows cfg n reply (.Replication params unsent awaiting)
        (.Replication params unsent' awaiting')
  | failed (params : ReplicationRoundParams) (unsent : List NodeId)
      (awaiting : List (NodeId × AppendEntriesRequest α)) (err : NodeError) :
      Follows cfg n reply (.Replication params unsent awaiting) (.Fatal err)

/-- A pre-vote that is counted was granted, or the campaign goes on as before. -/
theorem Follows.counted {cfg : Config} {n src : NodeId} {req : RequestVoteRequest}
    {resp : RequestVoteResponse} (pending pending' : List NodeId) (granted : Nat) :
    Follows cfg n (some (.PreVoteReply src req resp) : Option (Message α))
      (.PreVote req pending granted)
      (countPreVote (quorumOf (cfg.peer_ids n)) req pending' granted resp.vote_granted) := by
  cases hgrant : resp.vote_granted with
  | true => exact .granted req pending pending' granted src resp rfl hgrant
  | false => exact .polled req pending pending' granted

/-- What becomes of a task: the shell after it, and the tasks that take its place. -/
structure Ran (cfg : Config) (n peer : NodeId) (reply : Option (Message α)) (timeout : Nat)
    (sh : ConsensusShell α) (task : SpawnedTask α) (sh' : ConsensusShell α)
    (tasks : List (SpawnedTask α)) : Prop where
  step : TaskStep cfg n peer reply timeout sh task sh'
  follows : ∀ next ∈ tasks, Follows cfg n reply task next

variable {cfg : Config} {n peer : NodeId} {reply : Option (Message α)} {timeout : Nat}
  {task next : SpawnedTask α} {tasks : List (SpawnedTask α)} {sends : List (Message α)}

theorem TaskStep.ended (h : TaskStep cfg n peer reply timeout sh task sh') :
    Ran cfg n peer reply timeout sh task sh' [] :=
  ⟨h, by simp⟩

theorem TaskStep.continued (h : TaskStep cfg n peer reply timeout sh task sh')
    (hf : Follows cfg n reply task next) : Ran cfg n peer reply timeout sh task sh' [next] :=
  ⟨h, by simpa using hf⟩

/-- The task wrote, whatever it got back. -/
theorem TaskStep.of_write {f : LogicalNode α → Handled α X} {res : Except Panic X}
    (hw : sh.write f = (sh', res))
    (h : TaskStep cfg n peer reply timeout sh task (sh.write f).1) :
    TaskStep cfg n peer reply timeout sh task sh' := by
  rw [hw] at h
  exact h

/-- A round of pre-votes ends without peers, asks one, or counts an answer. -/
theorem preVote_ran [DecidableEq α] {req : RequestVoteRequest} {pending : List NodeId}
    {granted : Nat}
    (hrun : runTask cfg n sh peer reply timeout (.PreVote req pending granted) =
      some (sh', tasks, sends)) :
    Ran cfg n peer reply timeout sh (.PreVote req pending granted) sh' tasks := by
  simp only [runTask] at hrun
  split at hrun
  · rename_i hnil
    subst hnil
    obtain ⟨rfl, rfl, -⟩ := by simpa using hrun
    split
    · rename_i hquorum
      exact (TaskStep.idle _).continued (.stood req granted hquorum)
    · exact (TaskStep.idle _).ended
  split at hrun
  · split at hrun
    · obtain ⟨rfl, rfl, -⟩ := by simpa using hrun
      exact (TaskStep.idle _).continued (.polled req pending _ granted)
    · split at hrun
      · rename_i resp hfits
        obtain ⟨rfl, rfl⟩ := hfits
        split at hrun
        · rename_i hgt
          generalize hw : sh.write _ = r at hrun
          obtain ⟨sh₁, p | b⟩ := r
          · obtain ⟨rfl, rfl, -⟩ := by simpa using hrun
            exact (TaskStep.of_write hw (.observed _ _ _ resp rfl hgt)).ended
          · cases b <;> obtain ⟨rfl, rfl, -⟩ := by simpa using hrun
            · exact (TaskStep.of_write hw (.observed _ _ _ resp rfl hgt)).continued
                (.counted pending _ granted)
            · exact (TaskStep.of_write hw (.observed _ _ _ resp rfl hgt)).ended
        · obtain ⟨rfl, rfl, -⟩ := by simpa using hrun
          exact (TaskStep.idle _).continued (.counted pending _ granted)
      · cases hrun
    · cases hrun
  · cases hrun

/-- A campaign writes when it counts a vote. -/
theorem election_ran [DecidableEq α] {params : ElectionCampaignParams}
    {pending : List NodeId} {granted : Nat}
    (hrun : runTask cfg n sh peer reply timeout (.Election params pending granted) =
      some (sh', tasks, sends)) :
    Ran cfg n peer reply timeout sh (.Election params pending granted) sh' tasks := by
  simp only [runTask] at hrun
  split at hrun
  · split at hrun <;> obtain ⟨rfl, rfl, -⟩ := by simpa using hrun
    · exact (TaskStep.idle _).continued (.seen params pending granted)
    · exact (TaskStep.idle _).ended
  split at hrun
  · split at hrun
    · obtain ⟨rfl, rfl, -⟩ := by simpa using hrun
      exact (TaskStep.idle _).continued (.asked params pending _ granted)
    · split at hrun
      · rename_i resp hfits
        obtain ⟨rfl, rfl⟩ := hfits
        generalize hw : sh.write _ = r at hrun
        obtain ⟨sh₁, p | action⟩ := r
        · obtain ⟨rfl, rfl, -⟩ := by simpa using hrun
          exact (TaskStep.of_write hw (.counted _ _ _ resp rfl)).ended
        · cases action <;> obtain ⟨rfl, rfl, -⟩ := by simpa using hrun
          · exact (TaskStep.of_write hw (.counted _ _ _ resp rfl)).ended
          · exact (TaskStep.of_write hw (.counted _ _ _ resp rfl)).ended
          · exact (TaskStep.of_write hw (.counted _ _ _ resp rfl)).continued
              (.asked params pending _ granted)
      · cases hrun
    · cases hrun
  · cases hrun

/-- A round of replication writes when it prepares a request and when it takes up an answer. -/
theorem replication_ran [DecidableEq α] {params : ReplicationRoundParams}
    {unsent : List NodeId} {awaiting : List (NodeId × AppendEntriesRequest α)}
    (hrun : runTask cfg n sh peer reply timeout (.Replication params unsent awaiting) =
      some (sh', tasks, sends)) :
    Ran cfg n peer reply timeout sh (.Replication params unsent awaiting) sh' tasks := by
  simp only [runTask] at hrun
  split at hrun
  · generalize hw : sh.write _ = r at hrun
    obtain ⟨sh₁, p | (none | strategy)⟩ := r
    · obtain ⟨rfl, rfl, -⟩ := by simpa using hrun
      exact (TaskStep.of_write hw (.prepared _ _ _)).ended
    · obtain ⟨rfl, rfl, -⟩ := by simpa using hrun
      exact (TaskStep.of_write hw (.prepared _ _ _)).continued
        (.replicated params unsent _ awaiting _)
    · cases strategy with
      | AppendEntries req =>
        obtain ⟨rfl, rfl, -⟩ := by simpa using hrun
        exact (TaskStep.of_write hw (.prepared _ _ _)).continued
          (.replicated params unsent _ awaiting _)
      | InstallSnapshot i q => cases hrun
  · split at hrun
    · cases hrun
    · split at hrun
      · obtain ⟨rfl, rfl, -⟩ := by simpa using hrun
        exact (TaskStep.idle _).continued (.replicated params unsent _ awaiting _)
      · split at hrun
        · rename_i req resp hfits
          obtain ⟨rfl, rfl⟩ := hfits
          generalize hw : sh.write _ = r at hrun
          obtain ⟨sh₁, p | err | action⟩ := r
          · obtain ⟨rfl, rfl, -⟩ := by simpa using hrun
            exact (TaskStep.of_write hw (.responded _ _ _ _ resp rfl)).ended
          · obtain ⟨rfl, rfl, -⟩ := by simpa using hrun
            exact (TaskStep.of_write hw (.responded _ _ _ _ resp rfl)).continued
              (.failed params unsent awaiting err)
          · cases action <;> obtain ⟨rfl, rfl, -⟩ := by simpa using hrun
            · exact (TaskStep.of_write hw (.responded _ _ _ _ resp rfl)).ended
            · exact (TaskStep.of_write hw (.responded _ _ _ _ resp rfl)).continued
                (.replicated params unsent _ awaiting _)
        · cases hrun
      · cases hrun

/-- Whatever a task does, it writes at most once, and what follows it is its own. -/
theorem runTask_ran [DecidableEq α]
    (hrun : runTask cfg n sh peer reply timeout task = some (sh', tasks, sends)) :
    Ran cfg n peer reply timeout sh task sh' tasks := by
  cases task with
  | StepDown =>
    obtain ⟨rfl, rfl, -⟩ := by simpa [runTask] using hrun
    exact TaskStep.steppedDown.ended
  | PreVote req pending granted => exact preVote_ran hrun
  | BecomeCandidate =>
    simp only [runTask] at hrun
    generalize hw : sh.write _ = r at hrun
    obtain ⟨sh₁, p | params⟩ := r <;> obtain ⟨rfl, rfl, -⟩ := by simpa using hrun
    · exact (TaskStep.of_write hw .stood).ended
    · exact (TaskStep.of_write hw .stood).continued (.campaign params _ 1)
  | Election params pending granted => exact election_ran hrun
  | Tally params pending granted =>
    obtain ⟨rfl, rfl, -⟩ := by simpa [runTask] using hrun
    exact (TaskStep.idle _).continued (.tallied params pending granted _)
  | Promote =>
    obtain ⟨rfl, rfl, -⟩ := by simpa [runTask] using hrun
    exact TaskStep.promoted.ended
  | Replication params unsent awaiting => exact replication_ran hrun
  | Fatal err =>
    obtain ⟨rfl, rfl, -⟩ := by simpa [runTask] using hrun
    exact (TaskStep.failed err).ended

/-! ## Requests -/

/-- What the RPC service does with the shell for a request. -/
inductive ServeStep (timeout : Nat) (sh : ConsensusShell α) :
    Message α → ConsensusShell α → Prop where
  | preVoted (dst : NodeId) (req : RequestVoteRequest) :
      ServeStep timeout sh (.PreVote dst req)
        (sh.write fun ln => ln.handle_pre_vote req.term req.last_log_index req.last_log_term).1
  | voted (dst : NodeId) (req : RequestVoteRequest) :
      ServeStep timeout sh (.RequestVote dst req)
        (sh.write fun ln => ln.handle_request_vote req.candidate_id req.term req.last_log_index
          req.last_log_term timeout).1
  | appended (dst : NodeId) (req : AppendEntriesRequest α) :
      ServeStep timeout sh (.AppendEntries dst req)
        (sh.write fun ln => ln.handle_append_entries req.leader_id req.term req.prev_log_index
          req.prev_log_term req.entries req.leader_commit timeout).1

theorem serve_step {request : Message α} {dst : NodeId}
    (hs : serve sh timeout request = some (dst, sh', sends)) :
    ServeStep timeout sh request sh' := by
  cases request with
  | PreVote dst' req =>
    have hstep : ServeStep timeout sh _ _ := .preVoted dst' req
    simp only [serve] at hs
    generalize sh.write _ = r at hs hstep
    obtain ⟨sh₁, p | b⟩ := r <;>
    · obtain ⟨-, rfl, -⟩ := by simpa using hs
      exact hstep
  | RequestVote dst' req =>
    have hstep : ServeStep timeout sh _ _ := .voted dst' req
    simp only [serve] at hs
    generalize sh.write _ = r at hs hstep
    obtain ⟨sh₁, p | b⟩ := r <;>
    · obtain ⟨-, rfl, -⟩ := by simpa using hs
      exact hstep
  | AppendEntries dst' req =>
    have hstep : ServeStep timeout sh _ _ := .appended dst' req
    simp only [serve] at hs
    generalize sh.write _ = r at hs hstep
    obtain ⟨sh₁, p | b⟩ := r <;>
    · obtain ⟨-, rfl, -⟩ := by simpa using hs
      exact hstep
  | PreVoteReply src req resp => cases hs
  | VoteReply src req resp => cases hs
  | AppendReply src req resp => cases hs

end raft_engine.roles

namespace raft_engine.cluster

variable {α S : Type}

/-! ## Steps of the cluster -/

theorem serve_host {sh sh' : ConsensusShell α} {msg : Message α} {timeout : Nat} {dst : NodeId}
    {sends : List (Message α)} (hserve : serve sh timeout msg = some (dst, sh', sends)) :
    dst = msg.dst := by
  cases msg with
  | PreVoteReply src req resp => cases hserve
  | VoteReply src req resp => cases hserve
  | AppendReply src req resp => cases hserve
  | _ =>
    simp only [serve] at hserve
    split at hserve <;> exact (congrArg Prod.fst (Option.some.inj hserve)).symm

variable {cfg : Config} {sm : StateMachine α S} {c c' : Cluster α S}

theorem process_up {n : NodeId} {p : Process α} (hp : c.process n = some p) :
    (c.hosts n).state = .Up p := by
  unfold Cluster.process at hp
  split at hp
  · rename_i hup
    rw [hup, Option.some.inj hp]
  · cases hp

variable [DecidableEq α]

/-- What a step of a process has called, and what it has made of the process. -/
inductive Acted (cfg : Config) (sm : StateMachine α S) (c : Cluster α S) (p : Process α) :
    Act α → Effect α S → Prop where
  | halted {n : NodeId} {timeout : Nat} {panic : Panic}
      (hres : (p.shell.write fun ln => tickLocked ln timeout).2 = .error panic) :
      Acted cfg sm c p (.Tick n timeout)
        ⟨n, { p with shell := (p.shell.write fun ln => tickLocked ln timeout).1 },
          (c.hosts n).fsm, []⟩
  | ticked {n : NodeId} {timeout : Nat} {spawn : TickSpawn}
      (hres : (p.shell.write fun ln => tickLocked ln timeout).2 = .ok spawn) :
      Acted cfg sm c p (.Tick n timeout)
        ⟨n, { p with
          shell := (p.shell.write fun ln => tickLocked ln timeout).1
          tasks := spawn.tasks (cfg.peer_ids n) ++ p.tasks },
          (c.hosts n).fsm, spawn.sends (cfg.peer_ids n)⟩
  | ran {n peer : NodeId} {k timeout : Nat} {reply : Option Nat} {task : SpawnedTask α}
      {sh : ConsensusShell α} {tasks : List (SpawnedTask α)} {sends : List (Message α)}
      (htask : p.tasks[k]? = some task)
      (hrun : runTask cfg n p.shell peer (reply.bind fun i => c.network[i]?) timeout task =
        some (sh, tasks, sends)) :
      Acted cfg sm c p (.RunTask n k peer reply timeout)
        ⟨n, { p with shell := sh, tasks := tasks ++ p.tasks.eraseIdx k }, (c.hosts n).fsm, sends⟩
  | delivered {i timeout : Nat} {msg : Message α} {sh : ConsensusShell α}
      {sends : List (Message α)} (hmsg : c.network[i]? = some msg)
      (hserve : serve p.shell timeout msg = some (msg.dst, sh, sends)) :
      Acted cfg sm c p (.Deliver i timeout)
        ⟨msg.dst, { p with shell := sh }, (c.hosts msg.dst).fsm, sends⟩
  | proposed (n : NodeId) (data : α) :
      Acted cfg sm c p (.Propose n data)
        ⟨n, { p with shell := (p.shell.propose data).1 }, (c.hosts n).fsm, []⟩
  | probed {n : NodeId} {probe : ReadProbe} {params : ReplicationRoundParams}
      (hres : p.shell.prepare_probe.2 = .ok (.ok probe)) (hround : probe.round = some params) :
      Acted cfg sm c p (.Probe n)
        ⟨n, { p with
          shell := p.shell.prepare_probe.1
          tasks := .Replication params (cfg.peer_ids n) [] :: p.tasks }, (c.hosts n).fsm, []⟩
  /-- The probe is refused, or joins a round that is under way. -/
  | joined (n : NodeId) :
      Acted cfg sm c p (.Probe n)
        ⟨n, { p with shell := p.shell.prepare_probe.1 }, (c.hosts n).fsm, []⟩
  | applied {n : NodeId} {p' : Process α} {fsm : S}
      (hrun : runApplier sm p (c.hosts n).fsm = some (p', fsm)) :
      Acted cfg sm c p (.Apply n) ⟨n, p', fsm, []⟩

theorem perform_acted {act : Act α} {e : Effect α S} (he : perform cfg sm c act = some e) :
    ∃ p, c.process e.host = some p ∧ Acted cfg sm c p act e := by
  cases act with
  | Tick n timeout =>
    obtain ⟨p, hp, he⟩ := Option.bind_eq_some_iff.mp he
    generalize hw : p.shell.write _ = w at he
    obtain ⟨sh, panic | spawn⟩ := w <;> obtain rfl := Option.some.inj he <;>
      refine ⟨p, hp, ?_⟩ <;> obtain rfl := congrArg Prod.fst hw
    · exact .halted (congrArg Prod.snd hw)
    · exact .ticked (congrArg Prod.snd hw)
  | RunTask n k peer reply timeout =>
    obtain ⟨p, hp, he⟩ := Option.bind_eq_some_iff.mp he
    obtain ⟨task, htask, he⟩ := Option.bind_eq_some_iff.mp he
    dsimp only at he
    split at he
    · cases he
    obtain ⟨⟨sh, tasks, sends⟩, hrun, rfl⟩ := Option.map_eq_some_iff.mp he
    exact ⟨p, hp, .ran htask hrun⟩
  | Deliver k timeout =>
    obtain ⟨msg, hmsg, he⟩ := Option.bind_eq_some_iff.mp he
    obtain ⟨p, hp, he⟩ := Option.bind_eq_some_iff.mp he
    obtain ⟨⟨n, sh, sends⟩, hserve, rfl⟩ := Option.map_eq_some_iff.mp he
    obtain rfl := serve_host hserve
    exact ⟨p, hp, .delivered hmsg hserve⟩
  | Propose n data =>
    obtain ⟨p, hp, rfl⟩ := Option.map_eq_some_iff.mp he
    exact ⟨p, hp, .proposed n data⟩
  | Probe n =>
    obtain ⟨p, hp, rfl⟩ := Option.map_eq_some_iff.mp he
    generalize hw : p.shell.prepare_probe = w
    obtain ⟨sh, err | err | probe⟩ := w <;> refine ⟨p, hp, ?_⟩ <;>
      obtain rfl := congrArg Prod.fst hw
    · exact .joined n
    · exact .joined n
    · cases hround : probe.round with
      | none =>
        dsimp only
        rw [hround]
        exact .joined n
      | some params =>
        dsimp only
        rw [hround]
        exact .probed (congrArg Prod.snd hw) hround
  | Apply n =>
    obtain ⟨p, hp, he⟩ := Option.bind_eq_some_iff.mp he
    obtain ⟨⟨p', fsm⟩, hrun, rfl⟩ := Option.map_eq_some_iff.mp he
    exact ⟨p, hp, .applied hrun⟩

/-- The cluster after a step: a host has acted, it has gone down, or it has tried to start. -/
inductive After (cfg : Config) (sm : StateMachine α S) (c : Cluster α S) :
    Action α → Cluster α S → Prop where
  | acted {act : Act α} {e : Effect α S} (he : perform cfg sm c act = some e) :
      After cfg sm c (.Act act) { c.setHost e.host ⟨e.fsm, .Up e.process.settle⟩ with
        network := c.network ++ e.sends }
  | crashedIn {act : Act α} {e : Effect α S} {point : Nat} {disk : SledStorage α}
      (he : perform cfg sm c act = some e)
      (hdisk : disk ∈ e.process.shell.inner.node.log_store.crash_points) :
      After cfg sm c (.CrashIn act point) (c.setHost e.host ⟨(c.hosts e.host).fsm, .Down disk⟩)
  | crashed {n : NodeId} {p : Process α} (hp : c.process n = some p) :
      After cfg sm c (.Crash n)
        (c.setHost n ⟨(c.hosts n).fsm, .Down p.shell.inner.node.disk⟩)
  | stopped {n : NodeId} {timeout : Nat} {disk : SledStorage α}
      (hdown : (c.hosts n).state = .Down disk) :
      After cfg sm c (.Restart n timeout)
        (c.setHost n ⟨(recover sm disk (c.hosts n).fsm).1, .Down disk⟩)
  | booted {n : NodeId} {timeout : Nat} {disk : SledStorage α} {ln : LogicalNode α}
      (hdown : (c.hosts n).state = .Down disk) (hmem : n ∈ cfg.members)
      (hnew : LogicalNode.try_new n (sm.last_applied_index (recover sm disk (c.hosts n).fsm).1)
        disk cfg.heartbeat_interval timeout = .ok ln) :
      After cfg sm c (.Restart n timeout)
        (c.setHost n ⟨(recover sm disk (c.hosts n).fsm).1, .Up ⟨.new ln, .Idle, []⟩⟩)

theorem step_after {act : Action α} (hs : step cfg sm c act = some c') :
    After cfg sm c act c' := by
  cases act with
  | Act act =>
    obtain ⟨e, he, rfl⟩ := Option.map_eq_some_iff.mp hs
    exact .acted he
  | CrashIn act point =>
    obtain ⟨e, he, hs⟩ := Option.bind_eq_some_iff.mp hs
    obtain ⟨disk, hdisk, rfl⟩ := Option.map_eq_some_iff.mp hs
    exact .crashedIn he (List.mem_of_getElem? hdisk)
  | Crash n =>
    obtain ⟨p, hp, rfl⟩ := Option.map_eq_some_iff.mp hs
    exact .crashed hp
  | Restart n timeout =>
    simp only [step] at hs
    split at hs
    · cases hs
    rename_i disk hdown
    have hstopped : After cfg sm c (.Restart n timeout)
        (c.setHost n ⟨(recover sm disk (c.hosts n).fsm).1, .Down disk⟩) := .stopped hdown
    have hbooted : ∀ ln, n ∈ cfg.members → LogicalNode.try_new n
        (sm.last_applied_index (recover sm disk (c.hosts n).fsm).1) disk cfg.heartbeat_interval
        timeout = .ok ln → After cfg sm c (.Restart n timeout) (c.setHost n
          ⟨(recover sm disk (c.hosts n).fsm).1, .Up ⟨.new ln, .Idle, []⟩⟩) :=
      fun ln hmem hnew => .booted hdown hmem hnew
    generalize recover sm disk (c.hosts n).fsm = r at hs hstopped hbooted
    obtain ⟨fsm, ok⟩ := r
    split at hs
    · cases hs
    rename_i hmem
    cases ok with
    | false =>
      obtain rfl := Option.some.inj hs
      exact hstopped
    | true =>
      dsimp only at hs
      cases hnew : LogicalNode.try_new n (sm.last_applied_index fsm) disk
        cfg.heartbeat_interval timeout with
      | error err =>
        rw [hnew] at hs
        obtain rfl := Option.some.inj hs
        exact hstopped
      | ok ln =>
        rw [hnew] at hs
        obtain rfl := Option.some.inj hs
        exact hbooted ln (not_not.mp hmem) hnew

end raft_engine.cluster
