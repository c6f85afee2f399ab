-- The step-down of a pre-vote campaign that has timed out. The tick loop decides
-- it under one lock and carries it out under a second one; between the two it
-- takes no tick, but tasks, requests and responses can take the lock.
import LactoSensus.ClusterSteps
import LactoSensus.PreVotes
import LactoSensus.Roles

open common.types
open machine
open raft_engine.node
open raft_engine.engine
open raft_engine.consensus
open raft_engine.shell
open raft_engine.cluster
open raft_engine.campaigns
open raft_engine.roles

namespace raft_engine.step_downs

variable {α : Type} {cfg : Config} {n : NodeId} {m m' : Member α} {ln : LogicalNode α}
  {p : PreCandidate}

/-! ## The tick loop -/

/-- A member with its tick loop, which is one task: asleep, or between its two locks, with the
campaign that it has found timed out and the term of that campaign. -/
structure TickLoop (α : Type) where
  member : Member α
  stepping : Option (PreCandidate × Nat)
deriving DecidableEq

def TickLoop.node (s : TickLoop α) : LogicalNode α := s.member.shell.inner

def taskAt (m : Member α) (k : Nat) : Option (SpawnedTask α) := m.tasks[k]?.map Prod.snd

def timedOut (ln : LogicalNode α) : Option (PreCandidate × Nat) :=
  match ln.node.state, ln.tick.2 with
  | .PreCandidate p, .StepDown => some (p, ln.current_term)
  | _, _ => none

def loopStep [DecidableEq α] (cfg : Config) (n : NodeId) (s : TickLoop α) :
    MemberAct α → Option (TickLoop α)
  | .Tick timeout =>
    if s.stepping = none then
      (memberStep cfg n s.member (.Tick timeout)).map fun m => ⟨m, timedOut s.node⟩
    else none
  | .Run k peer reply timeout =>
    (memberStep cfg n s.member (.Run k peer reply timeout)).map fun m =>
      ⟨m, if taskAt s.member k = some .StepDown then none else s.stepping⟩
  | a => (memberStep cfg n s.member a).map fun m => ⟨m, s.stepping⟩

/-! ## What can come between the two locks -/

/-- The term that an answer tells. -/
def told : Message α → Nat
  | .PreVoteReply _ _ resp => resp.term
  | .VoteReply _ _ resp => resp.term
  | .AppendReply _ _ resp => resp.term
  | .PreVote _ req => req.term
  | .RequestVote _ req => req.term
  | .AppendEntries _ req => req.term

/-- The answer to a question of the term `asked` makes a follower of the node. -/
def Overtakes (ln : LogicalNode α) (asked answered : Nat) : Prop :=
  asked < answered ∧ ln.current_term ≤ answered

def TaskDisturbs (ln : LogicalNode α) (reply : Option (Message α)) : SpawnedTask α → Prop
  | .BecomeCandidate => ln.current_term < u64Max
  | .PreVote req _ _ => ∃ msg ∈ reply, req.term < told msg ∧ ln.current_term < told msg
  | .Election params _ _ => ∃ msg ∈ reply, Overtakes ln params.term (told msg)
  | .Replication params _ _ => ∃ msg ∈ reply, Overtakes ln params.term (told msg)
  | _ => False

/-- The step takes a pre-candidate out of its campaign. -/
def Disturbs (s : TickLoop α) : MemberAct α → Prop
  | .Run k _ reply _ => ∃ task ∈ taskAt s.member k, TaskDisturbs s.node reply task
  | .Serve (.RequestVote _ req) _ => s.node.current_term < req.term
  | .Serve (.AppendEntries _ req) _ => s.node.current_term ≤ req.term
  | .InstallSnapshot _ req_term _ _ => s.node.current_term ≤ req_term
  | .Respond term _ outcome _ => Overtakes s.node term outcome.term
  | _ => False

/-- Nothing disturbs the campaign while its step-down is under way. -/
def Undisturbed (s : TickLoop α) (a : MemberAct α) : Prop :=
  s.stepping.isSome → s.node.node_role = .PreCandidate → ¬Disturbs s a

/-! ## The node between the two locks -/

/-- An answer of an earlier term than the node's is fatal. -/
theorem into_follower_regressed {term : Nat} (hlt : term < ln.current_term)
    (leader_id : Option NodeId) (timeout : Nat) :
    (ln.into_follower term leader_id timeout).1.is_poisoned = true := by
  unfold LogicalNode.into_follower
  split
  · assumption
  · have hcur : (ln.node.transition
        (Follower.mk leader_id ln.current_tick timeout)).current_term = ln.current_term := rfl
    unfold RaftNode.try_into_follower RaftNode.advance_term
    rw [hcur]
    dsimp only
    rw [if_pos hlt]
    exact is_poisoned_poison _

theorem poisoned_afterHandler {X : Type} {r : Handled α X} (h : r.1.is_poisoned = true) :
    (afterHandler r).is_poisoned = true := by
  obtain ⟨ln', res⟩ := r
  cases res with
  | ok x => exact h
  | error e => exact is_poisoned_poison _

/-- An answer that does not overtake the node passes it by, or halts it. -/
theorem process_vote_response_calm (hrole : ln.node_role ≠ .Candidate) {term : Nat}
    {peer_ids : List NodeId} {peer_id : NodeId} {resp : RequestVoteResponse} {timeout : Nat}
    (hcalm : ¬Overtakes ln term resp.term) :
    afterHandler (process_vote_response ln term peer_ids peer_id resp timeout) = ln ∨
      (afterHandler
        (process_vote_response ln term peer_ids peer_id resp timeout)).is_poisoned = true := by
  by_cases hgt : resp.term > term
  · refine .inr (poisoned_afterHandler ?_)
    rw [process_vote_response_overtaken hgt]
    exact into_follower_regressed (not_le.mp fun hle => hcalm ⟨hgt, hle⟩) none timeout
  · exact .inl (process_vote_response_idle hrole (not_lt.mp hgt))

theorem process_replication_response_calm (hrole : ln.node_role ≠ .Leader) {term : Nat}
    {peer_id : NodeId} {outcome : ReplicationOutcome} {timeout : Nat}
    (hcalm : ¬Overtakes ln term outcome.term) :
    afterHandler (process_replication_response ln term peer_id outcome timeout) = ln ∨
      (afterHandler
        (process_replication_response ln term peer_id outcome timeout)).is_poisoned = true := by
  by_cases hgt : outcome.term > term
  · refine .inr (poisoned_afterHandler ?_)
    rw [process_replication_response_overtaken hgt]
    exact into_follower_regressed (not_le.mp fun hle => hcalm ⟨hgt, hle⟩) none timeout
  · exact .inl (process_replication_response_idle hrole (not_lt.mp hgt))

/-- A campaign cannot stand past the last term. -/
theorem begin_campaign_last_term (hst : ln.node.state = .PreCandidate p)
    (hlast : ¬ln.current_term < u64Max) (timeout : Nat) :
    (begin_campaign ln timeout).1.is_poisoned = true := by
  have hp := not_poisoned hst (by simp)
  have hadd : ∃ e, checked_add "Term" (ln.node.transition p).current_term 1 = .error e := by
    refine ⟨_, if_neg ?_⟩
    change ¬ln.current_term + 1 ≤ u64Max
    omega
  obtain ⟨e, hadd⟩ := hadd
  unfold begin_campaign LogicalNode.into_candidate
  rw [if_neg (by simp [hp]), hst]
  unfold RaftNode.try_into_candidate
  dsimp only
  rw [hadd]
  exact is_poisoned_poison _

theorem TaskStep.calm {peer : NodeId} {reply : Option (Message α)} {timeout : Nat}
    {task : SpawnedTask α} {sh sh' : ConsensusShell α}
    (hstep : TaskStep cfg n peer reply timeout sh task sh')
    (hst : sh.inner.node.state = .PreCandidate p) (hnot : task ≠ .StepDown)
    (hcalm : ¬TaskDisturbs sh.inner reply task) :
    sh'.inner = sh.inner ∨ sh'.inner.is_poisoned = true := by
  have hrole : sh.inner.node_role = .PreCandidate := by
    simp [LogicalNode.node_role, hst, RoleState.node_role]
  cases hstep with
  | idle => exact .inl rfl
  | steppedDown => exact absurd rfl hnot
  | observed req pending granted resp hreply hgt =>
    rw [ConsensusShell.write_inner]
    refine .inl (observe_pre_vote_term_idle (not_lt.mp fun hlt => hcalm ?_))
    exact ⟨_, hreply, hgt, hlt⟩
  | stood =>
    rw [ConsensusShell.write_inner]
    exact .inr (poisoned_afterHandler (begin_campaign_last_term hst hcalm timeout))
  | counted params pending granted resp hreply =>
    rw [ConsensusShell.write_inner]
    refine process_vote_response_calm (by simp [hrole]) fun hover => hcalm ?_
    exact ⟨_, hreply, hover⟩
  | promoted =>
    rw [ConsensusShell.write_inner]
    exact .inl (into_leader_idle (by simp [hrole]) _)
  | prepared params =>
    rw [ConsensusShell.write_inner]
    exact .inl (prepare_replication_idle (by simp [hrole]) _ _)
  | responded params unsent awaiting req resp hreply =>
    rw [ConsensusShell.write_inner]
    refine process_replication_response_calm (by simp [hrole]) fun hover => hcalm ?_
    exact ⟨_, hreply, hover⟩
  | failed err =>
    rw [ConsensusShell.write_inner]
    exact .inr (is_poisoned_poison _)

theorem ServeStep.calm {request : Message α} {timeout : Nat} {sh sh' : ConsensusShell α}
    (hstep : ServeStep timeout sh request sh') (hst : sh.inner.node.state = .PreCandidate p)
    (hvote : ∀ dst req, request = .RequestVote dst req → req.term ≤ sh.inner.current_term)
    (happend : ∀ dst req, request = .AppendEntries dst req → req.term < sh.inner.current_term) :
    sh'.inner = sh.inner := by
  have hrole : sh.inner.node_role = .PreCandidate := by
    simp [LogicalNode.node_role, hst, RoleState.node_role]
  cases hstep with
  | preVoted dst req =>
    rw [ConsensusShell.write_inner]
    exact handle_pre_vote_idle _ _ _ _
  | voted dst req =>
    rw [ConsensusShell.write_inner]
    exact handle_request_vote_idle (by simp [hrole]) (hvote dst req rfl)
  | appended dst req =>
    rw [ConsensusShell.write_inner]
    exact handle_append_entries_idle (happend dst req rfl) _ _ _ _ _ _

/-- A step that does not disturb the campaign leaves the node in it, or halts the node. -/
theorem memberStep_calm [DecidableEq α] {s : TickLoop α} {a : MemberAct α}
    (hs : memberStep cfg n s.member a = some m') (hst : s.node.node.state = .PreCandidate p)
    (htick : ∀ timeout, a ≠ .Tick timeout)
    (hnot : ∀ k peer reply timeout, a = .Run k peer reply timeout →
      taskAt s.member k ≠ some .StepDown)
    (hcalm : ¬Disturbs s a) :
    m'.shell.inner = s.node ∨ m'.shell.inner.is_poisoned = true := by
  have hrole : s.node.node_role = .PreCandidate := by
    simp [LogicalNode.node_role, hst, RoleState.node_role]
  cases a with
  | Tick timeout => exact absurd rfl (htick timeout)
  | Run k peer reply timeout =>
    simp only [memberStep, Option.bind_eq_some_iff, Option.map_eq_some_iff] at hs
    obtain ⟨⟨t, task⟩, hk, ⟨sh, tasks, sends⟩, hrun, rfl⟩ := hs
    have htask : taskAt s.member k = some task := by simp [taskAt, hk]
    refine TaskStep.calm (runTask_ran hrun).step hst ?_ fun hdisturbs =>
      hcalm ⟨task, htask, hdisturbs⟩
    rintro rfl
    exact hnot k peer reply timeout rfl htask
  | Serve request timeout =>
    obtain ⟨⟨dst, sh, sends⟩, hserve, rfl⟩ := Option.map_eq_some_iff.mp hs
    refine .inl (ServeStep.calm (serve_step hserve) hst ?_ ?_)
    · rintro dst req rfl
      exact not_lt.mp hcalm
    · rintro dst req rfl
      exact not_le.mp hcalm
  | InstallSnapshot leader_id req_term last_included_index timeout =>
    obtain rfl := Option.some.inj hs
    rw [ConsensusShell.write_inner]
    exact .inl (handle_install_snapshot_idle (not_le.mp hcalm) _ _ _)
  | Respond term peer_id outcome timeout =>
    obtain rfl := Option.some.inj hs
    rw [ConsensusShell.write_inner]
    exact process_replication_response_calm (by simp [TickLoop.node] at hrole; simp [hrole]) hcalm
  | Propose data =>
    obtain rfl := Option.some.inj hs
    rw [ConsensusShell.propose_shell, ConsensusShell.write_inner]
    exact .inl (propose_idle (by simp [TickLoop.node] at hrole; simp [hrole]) data)
  | Probe =>
    obtain rfl := Option.some.inj hs
    exact .inl (prepare_probe_idle (by simp [TickLoop.node] at hrole; simp [hrole]))
  | Halt err =>
    obtain rfl := Option.some.inj hs
    rw [ConsensusShell.write_inner]
    exact .inr (is_poisoned_poison _)

/-- A halted node stays halted. -/
theorem memberStep_halted [DecidableEq α] {a : MemberAct α}
    (hs : memberStep cfg n m a = some m') (hp : m.shell.inner.is_poisoned = true) :
    m'.shell.inner.is_poisoned = true := by
  cases a with
  | Tick timeout =>
    have h := (tickLocked_quiet m.shell.inner timeout).afterHandler.halted hp
    rw [← m.shell.write_inner fun ln => tickLocked ln timeout] at h
    simp only [memberStep] at hs
    generalize m.shell.write (fun ln => tickLocked ln timeout) = r at hs h
    obtain ⟨sh, e | spawn⟩ := r <;>
    · obtain rfl := Option.some.inj hs
      exact h
  | Run k peer reply timeout =>
    simp only [memberStep, Option.bind_eq_some_iff, Option.map_eq_some_iff] at hs
    obtain ⟨⟨t, task⟩, -, ⟨sh, tasks, sends⟩, hrun, rfl⟩ := hs
    exact (runTask_stepped hrun).quiet.halted hp
  | Serve request timeout =>
    obtain ⟨⟨dst, sh, sends⟩, hserve, rfl⟩ := Option.map_eq_some_iff.mp hs
    cases (serve_served hserve).1 with
    | quiet hq => exact hq.halted hp
    | merged dst req hq hst => exact halted_elim hst (by simp) (hq.halted hp)
  | InstallSnapshot leader_id req_term last_included_index timeout =>
    obtain rfl := Option.some.inj hs
    rw [ConsensusShell.write_inner]
    exact (handle_install_snapshot_quiet _ _ _ _ _).afterHandler.halted hp
  | Respond term peer_id outcome timeout =>
    obtain rfl := Option.some.inj hs
    rw [ConsensusShell.write_inner]
    exact (process_replication_response_quiet _ _ _ _ _).afterHandler.halted hp
  | Propose data =>
    obtain rfl := Option.some.inj hs
    rcases (propose_stepped m.shell data).1 with ⟨-, hq⟩ | ⟨⟨l, hl⟩, -⟩
    · exact hq.halted hp
    · exact halted_elim hl (by simp) hp
  | Probe =>
    obtain rfl := Option.some.inj hs
    exact (prepare_probe_quiet m.shell).halted hp
  | Halt err =>
    obtain rfl := Option.some.inj hs
    rw [ConsensusShell.write_inner]
    exact is_poisoned_poison _

/-! ## The step-down and its campaign -/

def isStepDown : SpawnedTask α → Bool
  | .StepDown => true
  | _ => false

def stepDowns (tasks : List (Nat × SpawnedTask α)) : Nat := tasks.countP fun t => isStepDown t.2

/-- At most one step-down is under way, the one of the tick loop; and until it is done the node
is in the campaign that timed out, unless it has halted. -/
structure Bound (s : TickLoop α) : Prop where
  pending : stepDowns s.member.tasks = s.stepping.isSome.toNat
  state : ∀ p term, s.stepping = some (p, term) →
    s.node.node.state = .PreCandidate p ∧ s.node.current_term = term ∨ s.node.is_poisoned = true

theorem follows_stepDown {reply : Option (Message α)} {task next : SpawnedTask α}
    (hf : Follows cfg n reply task next) : isStepDown next = false := by
  cases hf with
  | granted req pending pending' granted =>
    unfold countPreVote
    rw [if_pos rfl]
    split <;> rfl
  | _ => rfl

/-- Only a campaign that has timed out makes the tick loop step down. -/
theorem tickLocked_stepDown (ln : LogicalNode α) (timeout : Nat) :
    (∃ p, ln.node.state = .PreCandidate p ∧ timedOut ln = some (p, ln.current_term) ∧
      tickLocked ln timeout = ({ ln with current_tick := ln.current_tick + 1 }, .ok .StepDown)) ∨
    timedOut ln = none ∧ (tickLocked ln timeout).2 ≠ .ok .StepDown := by
  unfold timedOut tickLocked LogicalNode.tick
  cases hst : ln.node.state with
  | PreCandidate p =>
    have hp : ({ ln with current_tick := ln.current_tick + 1 } : LogicalNode α).is_poisoned =
        false := not_poisoned hst (by simp)
    dsimp only
    rw [if_neg (by simp [hp])]
    cases haction : p.evaluate_tick (ln.current_tick + 1) with
    | StepDown => exact .inl ⟨p, rfl, rfl, rfl⟩
    | None => exact .inr ⟨rfl, by simp⟩
    | _ =>
      unfold PreCandidate.evaluate_tick at haction
      split at haction <;> cases haction
  | Follower f =>
    refine .inr ⟨rfl, ?_⟩
    dsimp only
    unfold Follower.evaluate_tick
    split_ifs <;> simp
  | Candidate c =>
    refine .inr ⟨rfl, ?_⟩
    dsimp only
    unfold Candidate.evaluate_tick
    split_ifs
    · simp
    · dsimp only
      generalize begin_campaign _ timeout = r
      obtain ⟨ln', e | params⟩ := r <;> simp
    · simp
  | Leader l =>
    refine .inr ⟨rfl, ?_⟩
    dsimp only
    unfold Leader.evaluate_tick
    split_ifs <;> simp
  | Poisoned =>
    refine .inr ⟨rfl, ?_⟩
    simp [LogicalNode.is_poisoned, hst, RoleState.node_role]

theorem stepDown_count {k : Nat} {t : Nat} {task : SpawnedTask α}
    (hk : m.tasks[k]? = some (t, task)) :
    stepDowns m.tasks = stepDowns (m.tasks.eraseIdx k) + (isStepDown task).toNat := by
  obtain ⟨hlt, hget⟩ := List.getElem?_eq_some_iff.mp hk
  unfold stepDowns
  rw [← (List.getElem_cons_eraseIdx_perm hlt).countP_eq, hget, List.countP_cons]
  cases isStepDown task <;> rfl

theorem Bound.tick [DecidableEq α] {s : TickLoop α} {timeout : Nat} (hb : Bound s)
    (hidle : s.stepping = none)
    (hs : memberStep cfg n s.member (.Tick timeout) = some m') : Bound ⟨m', timedOut s.node⟩ := by
  have hnone : stepDowns s.member.tasks = 0 := by
    rw [hb.pending, hidle]
    rfl
  have hinner := s.member.shell.write_inner fun ln => tickLocked ln timeout
  have hresult := s.member.shell.write_result fun ln => tickLocked ln timeout
  simp only [memberStep] at hs
  generalize s.member.shell.write (fun ln => tickLocked ln timeout) = r at hs hinner hresult
  obtain ⟨sh, res⟩ := r
  rcases tickLocked_stepDown s.node timeout with ⟨p, hst, hout, heq⟩ | ⟨hout, hno⟩
  · rw [TickLoop.node] at heq
    rw [heq] at hinner hresult
    change res = _ at hresult
    subst hresult
    obtain rfl := Option.some.inj hs
    change sh.inner = _ at hinner
    refine ⟨?_, fun p' term hp' => .inl ?_⟩
    · rw [hout]
      change stepDowns (_ :: s.member.tasks) = 1
      unfold stepDowns at hnone ⊢
      rw [List.countP_cons, hnone]
      rfl
    · rw [hout] at hp'
      obtain ⟨rfl, rfl⟩ := Prod.mk.inj (Option.some.inj hp')
      change sh.inner.node.state = _ ∧ sh.inner.current_term = _
      rw [hinner]
      exact ⟨hst, rfl⟩
  · refine ⟨?_, fun p term hp => ?_⟩
    · rw [hout]
      cases res with
      | error e =>
        obtain rfl := Option.some.inj hs
        exact hnone
      | ok spawn =>
        obtain rfl := Option.some.inj hs
        have hstarted : stepDowns ((spawn.tasks (cfg.peer_ids n)).map fun task =>
            ((spawnTerm spawn, task) : Nat × SpawnedTask α)) = 0 := by
          cases spawn with
          | StepDown => exact absurd hresult.symm hno
          | _ => rfl
        change stepDowns (_ ++ s.member.tasks) = 0
        unfold stepDowns at hstarted hnone ⊢
        rw [List.countP_append, hstarted, hnone]
    · rw [hout] at hp
      cases hp

/-- A step other than a tick and the step-down itself. -/
theorem Bound.calm [DecidableEq α] {s : TickLoop α} {a : MemberAct α} (hb : Bound s)
    (hok : Undisturbed s a) (hs : memberStep cfg n s.member a = some m')
    (htick : ∀ timeout, a ≠ .Tick timeout)
    (hnot : ∀ k peer reply timeout, a = .Run k peer reply timeout →
      taskAt s.member k ≠ some .StepDown)
    (htasks : stepDowns m'.tasks = stepDowns s.member.tasks) : Bound ⟨m', s.stepping⟩ := by
  refine ⟨htasks.trans hb.pending, fun p term hp => ?_⟩
  change m'.shell.inner.node.state = _ ∧ m'.shell.inner.current_term = _ ∨
    m'.shell.inner.is_poisoned = true
  have hp : s.stepping = some (p, term) := hp
  rcases hb.state p term hp with ⟨hst, hterm⟩ | hhalt
  · have hrole : s.node.node_role = .PreCandidate := by
      simp [LogicalNode.node_role, hst, RoleState.node_role]
    have hcalm := hok (by rw [hp]; rfl) hrole
    rcases memberStep_calm hs hst htick hnot hcalm with hsame | hhalt
    · rw [hsame]
      exact .inl ⟨hst, hterm⟩
    · exact .inr hhalt
  · exact .inr (memberStep_halted hs hhalt)

theorem Bound.step [DecidableEq α] {s s' : TickLoop α} {a : MemberAct α} (hb : Bound s)
    (hok : Undisturbed s a) (hs : loopStep cfg n s a = some s') : Bound s' := by
  cases a with
  | Tick timeout =>
    simp only [loopStep] at hs
    split at hs
    · rename_i hidle
      obtain ⟨m', hm, rfl⟩ := Option.map_eq_some_iff.mp hs
      exact hb.tick hidle hm
    · cases hs
  | Run k peer reply timeout =>
    obtain ⟨m', hm, rfl⟩ := Option.map_eq_some_iff.mp hs
    have hrun := hm
    simp only [memberStep, Option.bind_eq_some_iff, Option.map_eq_some_iff] at hrun
    obtain ⟨⟨t, task⟩, hk, ⟨sh, tasks, sends⟩, hrun, heq⟩ := hrun
    have htask : taskAt s.member k = some task := by simp [taskAt, hk]
    have hnew : stepDowns (tasks.map fun task => (t, task)) = 0 := by
      unfold stepDowns
      rw [List.countP_eq_zero]
      intro x hx
      obtain ⟨next, hnext, rfl⟩ := List.mem_map.mp hx
      simp [follows_stepDown ((runTask_ran hrun).follows next hnext)]
    have hcount := stepDown_count hk
    have hafter : stepDowns m'.tasks = stepDowns (s.member.tasks.eraseIdx k) := by
      rw [← heq]
      unfold stepDowns at hnew ⊢
      rw [List.countP_append, hnew, Nat.zero_add]
    by_cases hdown : task = .StepDown
    · subst hdown
      rw [if_pos htask]
      refine ⟨?_, fun p term hp => by cases hp⟩
      have hpending := hb.pending
      rw [hcount] at hpending
      change stepDowns m'.tasks = 0
      rw [hafter]
      cases hstep : s.stepping with
      | none =>
        rw [hstep] at hpending
        simp [isStepDown] at hpending
      | some x =>
        rw [hstep] at hpending
        simpa [isStepDown] using hpending
    · rw [if_neg (by rw [htask]; simpa using hdown)]
      refine hb.calm hok hm (by simp) ?_ ?_
      · rintro k' peer' reply' timeout' hsame
        obtain ⟨rfl, -⟩ := MemberAct.Run.inj hsame
        rw [htask]
        simpa using hdown
      · rw [hafter, hcount]
        cases task <;> first | rfl | exact absurd rfl hdown
  | Serve request timeout =>
    obtain ⟨m', hm, rfl⟩ := Option.map_eq_some_iff.mp hs
    refine hb.calm hok hm (by simp) (by simp) ?_
    obtain ⟨r, -, rfl⟩ := Option.map_eq_some_iff.mp hm
    rfl
  | _ =>
    simp only [loopStep] at hs
    obtain ⟨m', hm, rfl⟩ := Option.map_eq_some_iff.mp hs
    refine hb.calm hok hm (by simp) (by simp) ?_
    obtain rfl := Option.some.inj hm
    rfl

/-- The tick loop is asleep and owes no step-down. -/
def Asleep (s : TickLoop α) : Prop := s.stepping = none ∧ ∀ t ∈ s.member.tasks, t.2 ≠ .StepDown

theorem Asleep.bound {s : TickLoop α} (h : Asleep s) : Bound s := by
  obtain ⟨hnone, hno⟩ := h
  refine ⟨?_, fun p term hp => ?_⟩
  · rw [hnone]
    refine List.countP_eq_zero.mpr fun t ht hdown => hno t ht ?_
    revert hdown
    cases t.2 <;> simp [isStepDown]
  · rw [hnone] at hp
    cases hp

/-- In a run in which nothing disturbs a campaign between the two locks, a step-down finds the
node in the campaign that timed out, and in its term, or finds it halted and leaves it so. -/
theorem step_down_bound [DecidableEq α] {s₀ s s' : TickLoop α} (hstart : Asleep s₀)
    (hrun : Run (loopStep cfg n) Undisturbed s₀ s) {k : Nat} {peer : NodeId}
    {reply : Option (Message α)} {timeout : Nat} (hk : taskAt s.member k = some .StepDown)
    (hs : loopStep cfg n s (.Run k peer reply timeout) = some s') :
    (∃ p, s.stepping = some (p, s.node.current_term) ∧ s.node.node.state = .PreCandidate p) ∨
      s.node.is_poisoned = true ∧ s'.node = s.node := by
  have hb : Bound s := hrun.invariant (fun _ _ _ hb hok hs => hb.step hok hs) hstart.bound
  obtain ⟨⟨t, task⟩, hget, rfl⟩ := Option.map_eq_some_iff.mp hk
  have hcount := stepDown_count hget
  rw [hb.pending] at hcount
  cases hstep : s.stepping with
  | none =>
    rw [hstep] at hcount
    simp [isStepDown] at hcount
  | some x =>
    obtain ⟨p, term⟩ := x
    rcases hb.state p term hstep with ⟨hst, hterm⟩ | hhalt
    · exact .inl ⟨p, by rw [hterm], hst⟩
    · refine .inr ⟨hhalt, ?_⟩
      obtain ⟨m', hm, rfl⟩ := Option.map_eq_some_iff.mp hs
      simp only [memberStep, Option.bind_eq_some_iff, Option.map_eq_some_iff] at hm
      obtain ⟨⟨t', task'⟩, hget', ⟨sh, tasks, sends⟩, htask, rfl⟩ := hm
      obtain ⟨-, rfl⟩ := Prod.mk.inj (Option.some.inj (hget'.symm.trans hget))
      simp only [runTask, Option.some.injEq, Prod.mk.injEq] at htask
      obtain ⟨rfl, -⟩ := htask
      have hinner := s.member.shell.write_inner fun ln => stepDown timeout ln
      unfold stepDown at hinner
      rw [if_pos (show s.member.shell.inner.is_poisoned = true from hhalt)] at hinner
      exact hinner.trans (poison_of_poisoned hhalt)

/-! ## A quorum between the two locks -/

/-- The member waits for pre-votes until its campaign times out. -/
def patience : List (MemberAct Unit) := .replicate 9 (.Tick 10)

theorem step_down_bound_alone :
    ∃ s, exec (loopStep threeMembers 0) ⟨fresh, none⟩ patience = some s ∧
      ∃ p, s.stepping = some (p, s.node.current_term) ∧ s.node.node.state = .PreCandidate p := by
  have hreach := (Option.some_get (x := exec (loopStep threeMembers 0) ⟨fresh, none⟩ patience)
    (by decide)).symm
  generalize hs : (exec (loopStep threeMembers 0) ⟨fresh, none⟩ patience).get (by decide) = s
    at hreach
  have hhealthy : s.node.is_poisoned = false := by
    rw [← hs]
    decide
  have hcalm : ∀ (s : TickLoop Unit), ∀ a ∈ patience, Undisturbed s a := by
    intro s a ha
    obtain rfl := List.eq_of_mem_replicate ha
    exact fun _ _ h => h
  have hdown : (loopStep threeMembers 0 s (.Run 0 0 none 10)).isSome = true := by
    rw [← hs]
    decide
  have htask : taskAt s.member 0 = some .StepDown := by
    rw [← hs]
    decide
  refine ⟨s, hreach, ?_⟩
  have hasleep : Asleep (⟨fresh, none⟩ : TickLoop Unit) := ⟨rfl, by simp [fresh]⟩
  rcases step_down_bound hasleep (run_of_exec patience hcalm hreach) htask
    (Option.some_get hdown).symm with h | ⟨hhalt, -⟩
  · exact h
  · rw [hhealthy] at hhalt
    cases hhalt

/-- The grant comes just before the tick at which the campaign times out, and the member is
elected before the tick loop has its second lock. -/
def lateQuorum : List (MemberAct Unit) :=
  .replicate 8 (.Tick 10) ++ [granted, .Tick 10, .Run 1 0 none 10,
    .Run 0 1 (some (.VoteReply 1 ⟨1, 0, 0, 0⟩ ⟨1, true⟩)) 10]

/-- The step-down of the campaign demotes the leader that has come out of it. -/
theorem step_down_demotes_leader :
    ∃ s, exec (loopStep threeMembers 0) ⟨fresh, none⟩ lateQuorum = some s ∧
      taskAt s.member 0 = some .StepDown ∧ s.stepping = some (⟨1, 8⟩, 0) ∧
      s.node.node_role = .Leader ∧ s.node.current_term = 1 ∧
      ∃ s', loopStep threeMembers 0 s (.Run 0 0 none 10) = some s' ∧
        s'.node.node_role = .Follower ∧ s'.node.current_term = 1 := by
  have hreach := (Option.some_get (x := exec (loopStep threeMembers 0) ⟨fresh, none⟩ lateQuorum)
    (by decide)).symm
  have hdown := (Option.some_get (x := loopStep threeMembers 0
    ((exec (loopStep threeMembers 0) ⟨fresh, none⟩ lateQuorum).get (by decide))
    (.Run 0 0 none 10)) (by decide)).symm
  exact ⟨_, hreach, by decide, by decide, by decide, by decide, _, hdown, by decide, by decide⟩

end raft_engine.step_downs
