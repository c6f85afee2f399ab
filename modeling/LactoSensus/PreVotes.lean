-- One member of the cluster with its campaigns: each task keeps the term in
-- which it was started. A pre-vote campaign that reaches its quorum takes the
-- lock and stands for the next term, whatever the node has become meanwhile.
import LactoSensus.Cluster
import LactoSensus.Handlers

open common.types
open machine
open raft_engine.storage
open raft_engine.node
open raft_engine.engine
open raft_engine.consensus
open raft_engine.shell
open raft_engine.cluster

namespace raft_engine.campaigns

variable {α : Type}

/-! ## The member -/

structure Member (α : Type) where
  shell : ConsensusShell α
  /-- The tasks, each with the term of the parameters it was started with. -/
  tasks : List (Nat × SpawnedTask α)
deriving DecidableEq

inductive MemberAct (α : Type) where
  | Tick (timeout : Nat)
  | Run (k : Nat) (peer : NodeId) (reply : Option (Message α)) (timeout : Nat)
  | Serve (request : Message α) (timeout : Nat)
  | InstallSnapshot (leader_id : NodeId) (req_term last_included_index timeout : Nat)
  /-- A peer answers a snapshot transfer. -/
  | Respond (term : Nat) (peer_id : NodeId) (outcome : ReplicationOutcome) (timeout : Nat)
  | Propose (data : α)
  | Probe
  /-- The applier or a transfer has failed. -/
  | Halt (err : NodeError)

/-- `PreVoteCampaignParams::term`, and the same of the other tasks. -/
def spawnTerm : TickSpawn → Nat
  | .PreVote req => req.term
  | .Campaign params => params.term
  | .Round params => params.term
  | .Nothing => 0
  | .StepDown => 0

def memberStep [DecidableEq α] (cfg : Config) (n : NodeId) (m : Member α) :
    MemberAct α → Option (Member α)
  | .Tick timeout =>
    match m.shell.write fun ln => tickLocked ln timeout with
    | (sh, .ok spawn) =>
      let started := (spawn.tasks (cfg.peer_ids n)).map fun task => (spawnTerm spawn, task)
      some ⟨sh, started ++ m.tasks⟩
    | (sh, .error _) => some { m with shell := sh }
  | .Run k peer reply timeout =>
    m.tasks[k]?.bind fun (term, task) =>
      (runTask cfg n m.shell peer reply timeout task).map fun (sh, tasks, _) =>
        ⟨sh, tasks.map (fun task => (term, task)) ++ m.tasks.eraseIdx k⟩
  | .Serve request timeout =>
    (serve m.shell timeout request).map fun (_, sh, _) => { m with shell := sh }
  | .InstallSnapshot leader_id req_term last_included_index timeout =>
    some { m with shell := (m.shell.write fun ln =>
      ln.handle_install_snapshot leader_id req_term last_included_index timeout).1 }
  | .Respond term peer_id outcome timeout =>
    some { m with shell := (m.shell.write fun ln =>
      process_replication_response ln term peer_id outcome timeout).1 }
  | .Propose data => some { m with shell := (m.shell.propose data).1 }
  | .Probe => some { m with shell := m.shell.prepare_probe.1 }
  | .Halt err =>
    some { m with shell := (m.shell.write fun ln => (ln.apply_fatal err : Handled α Unit)).1 }

/-! ## The promotion -/

/-- The node is still in the campaign that was started in the term. -/
def Campaigning (term : Nat) (ln : LogicalNode α) : Prop :=
  ln.node_role = .PreCandidate ∧ ln.current_term = term

instance (term : Nat) (ln : LogicalNode α) : Decidable (Campaigning term ln) :=
  inferInstanceAs (Decidable (_ ∧ _))

/-- Only the campaign that the node is in raises its term; any other one ends here, and leaves
the node as it is. -/
structure BoundTo (term k : Nat) (m m' : Member α) : Prop where
  raised : m'.shell.inner.current_term ≠ m.shell.inner.current_term →
    Campaigning term m.shell.inner
  ended : ¬Campaigning term m.shell.inner →
    m'.shell.inner = m.shell.inner ∧ m'.tasks = m.tasks.eraseIdx k

/-- What the campaign does under the lock, and what it goes on with. -/
theorem promote_step [DecidableEq α] {cfg : Config} {n : NodeId} {m m' : Member α} {k : Nat}
    {peer : NodeId} {reply : Option (Message α)} {timeout term : Nat}
    (hk : m.tasks[k]? = some (term, .BecomeCandidate))
    (hs : memberStep cfg n m (.Run k peer reply timeout) = some m') :
    m'.shell.inner = afterHandler (begin_campaign m.shell.inner timeout) ∧
      ((∃ p, (begin_campaign m.shell.inner timeout).2 = .error p) ∧
          m'.tasks = m.tasks.eraseIdx k ∨
        ∃ params, (begin_campaign m.shell.inner timeout).2 = .ok params ∧
          m'.tasks = (term, .Election params (cfg.peer_ids n) 1) :: m.tasks.eraseIdx k) := by
  simp only [memberStep, hk, Option.bind_some, runTask] at hs
  rw [← ConsensusShell.write_inner m.shell fun ln => begin_campaign ln timeout,
    ← ConsensusShell.write_result m.shell fun ln => begin_campaign ln timeout]
  generalize m.shell.write (fun ln => begin_campaign ln timeout) = r at hs
  obtain ⟨sh, p | params⟩ := r
  · simp only [Option.map_some, Option.some.injEq] at hs
    rw [← hs]
    exact ⟨rfl, .inl ⟨⟨p, rfl⟩, rfl⟩⟩
  · simp only [Option.map_some, Option.some.injEq] at hs
    rw [← hs]
    exact ⟨rfl, .inr ⟨params, rfl, rfl⟩⟩

/-- A node that can stand does, unless its term is the last one, when it halts. -/
theorem begin_campaign_stands {ln : LogicalNode α} {R : Type} (st : R) {timeout : Nat}
    (hp : ln.is_poisoned = false)
    (hinto : ln.into_candidate timeout =
      ln.enterCandidate ((ln.node.transition st).try_into_candidate ln.current_tick timeout)) :
    afterHandler (begin_campaign ln timeout) = ln.poison ∨
      afterHandler (begin_campaign ln timeout) = campaigning ln timeout := by
  unfold begin_campaign
  rw [if_neg (by simp [hp]), hinto]
  rcases enterCandidate_cases ln st timeout with ⟨p, heq⟩ | heq
  · rw [heq]
    exact .inl rfl
  · rw [heq]
    exact .inr rfl

theorem begin_campaign_cases (ln : LogicalNode α) (timeout : Nat) :
    ln.node_role = .Poisoned ∧ begin_campaign ln timeout = (ln, .error .NodePoisoned) ∨
    ln.node_role = .Leader ∧ (∃ params, begin_campaign ln timeout = (ln, .ok params)) ∨
    (ln.node_role ≠ .Poisoned ∧ ln.node_role ≠ .Leader) ∧
      (afterHandler (begin_campaign ln timeout) = ln.poison ∨
        afterHandler (begin_campaign ln timeout) = campaigning ln timeout) := by
  have hrole : ∀ st, ln.node.state = st → ln.node_role = st.node_role := fun st hst => by
    rw [← hst]
    rfl
  cases hst : ln.node.state with
  | Leader l =>
    refine .inr (.inl ⟨hrole _ hst, ?_⟩)
    unfold begin_campaign LogicalNode.into_candidate
    rw [if_neg (by simp [not_poisoned hst (by simp)]), hst]
    exact ⟨_, rfl⟩
  | Poisoned =>
    refine .inl ⟨hrole _ hst, ?_⟩
    unfold begin_campaign
    rw [if_pos (ln.is_poisoned_iff.mpr (hrole _ hst))]
  | Follower f =>
    have hinto := begin_campaign_stands f (not_poisoned hst (by simp))
      (show ln.into_candidate timeout = _ by unfold LogicalNode.into_candidate; rw [hst])
    exact .inr (.inr ⟨by simp [hrole _ hst, RoleState.node_role], hinto⟩)
  | PreCandidate f =>
    have hinto := begin_campaign_stands f (not_poisoned hst (by simp))
      (show ln.into_candidate timeout = _ by unfold LogicalNode.into_candidate; rw [hst])
    exact .inr (.inr ⟨by simp [hrole _ hst, RoleState.node_role], hinto⟩)
  | Candidate f =>
    have hinto := begin_campaign_stands f (not_poisoned hst (by simp))
      (show ln.into_candidate timeout = _ by
        unfold LogicalNode.into_candidate RaftNode.try_into_restarted_candidate
        rw [hst])
    exact .inr (.inr ⟨by simp [hrole _ hst, RoleState.node_role], hinto⟩)

/-- A promotion is bound to its campaign exactly when the node is still in the campaign, or has
halted. A leader keeps its term, but the campaign goes on in it. -/
theorem promotion_bound_iff [DecidableEq α] {cfg : Config} {n : NodeId} {m m' : Member α}
    {k : Nat} {peer : NodeId} {reply : Option (Message α)} {timeout term : Nat}
    (hk : m.tasks[k]? = some (term, .BecomeCandidate))
    (hs : memberStep cfg n m (.Run k peer reply timeout) = some m') :
    BoundTo term k m m' ↔
      Campaigning term m.shell.inner ∨ m.shell.inner.node_role = .Poisoned := by
  obtain ⟨hshell, htasks⟩ := promote_step hk hs
  have hin : Campaigning term m.shell.inner → BoundTo term k m m' :=
    fun hin => ⟨fun _ => hin, fun hout => absurd hin hout⟩
  refine ⟨fun hbound => ?_, fun h => h.elim hin fun hhalted => ?_⟩
  · by_contra hno
    obtain ⟨hsame, hended⟩ := hbound.ended fun h => hno (.inl h)
    rcases begin_campaign_cases m.shell.inner timeout with ⟨hrole, -⟩ | ⟨-, params, heq⟩ |
      ⟨⟨hrole, -⟩, hp | hc⟩
    · exact hno (.inr hrole)
    · -- the leader asks for votes in its own term
      rcases htasks with ⟨⟨p, herr⟩, -⟩ | ⟨params', -, hgoes⟩
      · rw [heq] at herr
        cases herr
      · have hlength := congrArg List.length (hgoes.symm.trans hended)
        simp at hlength
    · have hp' : m.shell.inner.poison = m.shell.inner := (hp.symm.trans hshell.symm).trans hsame
      exact hrole (m.shell.inner.is_poisoned_iff.mp (hp' ▸ is_poisoned_poison _))
    · have hterm : (campaigning m.shell.inner timeout).current_term =
          m.shell.inner.current_term + 1 := rfl
      rw [← hc, ← hshell, hsame] at hterm
      omega
  · rcases begin_campaign_cases m.shell.inner timeout with ⟨-, heq⟩ | ⟨hrole, -⟩ | ⟨⟨hrole, -⟩, -⟩
    · have hsame : m'.shell.inner = m.shell.inner := by
        rw [hshell, heq]
        exact poison_of_poisoned (m.shell.inner.is_poisoned_iff.mpr hhalted)
      refine ⟨fun hne => absurd (by rw [hsame]) hne, fun _ => ⟨hsame, ?_⟩⟩
      rcases htasks with ⟨-, hended⟩ | ⟨params, hok, -⟩
      · exact hended
      · rw [heq] at hok
        cases hok
    · rw [hrole] at hhalted
      cases hhalted
    · exact absurd hhalted hrole

/-! ## A late quorum -/

def threeMembers : Config := ⟨[0, 1, 2], by decide, 5⟩

/-- A member after its first start, about to lose patience. -/
def fresh : Member Unit :=
  ⟨.new ⟨⟨0, .settled .new, 0, 0, .Follower ⟨none, 0, 1⟩⟩, 0, 5⟩, []⟩

/-- The pre-vote of the member, and the grant of a peer. -/
def granted : MemberAct Unit :=
  .Run 0 2 (some (.PreVoteReply 2 ⟨0, 0, 0, 0⟩ ⟨0, true⟩)) 10

/-- The member when the campaign has its quorum and waits for the lock. -/
def inTime : Member Unit :=
  (exec (memberStep threeMembers 0) fresh [.Tick 10, granted]).get (by decide)

/-- As `inTime`, but a heartbeat of the leader of term 1 comes before the grant. -/
def tooLate : Member Unit :=
  (exec (memberStep threeMembers 0) fresh
    [.Tick 10, .Serve (.AppendEntries 0 ⟨1, 1, 0, 0, [], 0⟩) 10, granted]).get (by decide)

theorem promotion_bound_in_time :
    ∃ m', memberStep threeMembers 0 inTime (.Run 0 0 none 10) = some m' ∧
      m'.shell.inner.current_term = 1 ∧ BoundTo 0 0 inTime m' := by
  have hs := (Option.some_get (x := memberStep threeMembers 0 inTime (.Run 0 0 none 10))
    (by decide)).symm
  exact ⟨_, hs, by decide, (promotion_bound_iff (by decide) hs).mpr (.inl (by decide))⟩

/-- The grant of a peer that has meanwhile helped to elect a leader: the member already
follows that leader, and leaves its term all the same. -/
theorem late_promotion :
    exec (memberStep threeMembers 0) fresh
        [.Tick 10, .Serve (.AppendEntries 0 ⟨1, 1, 0, 0, [], 0⟩) 10, granted] = some tooLate ∧
      tooLate.tasks = [(0, .BecomeCandidate)] ∧ tooLate.shell.inner.node_role = .Follower ∧
      tooLate.shell.inner.current_term = 1 ∧
      ∃ m', memberStep threeMembers 0 tooLate (.Run 0 0 none 10) = some m' ∧
        m'.shell.inner.current_term = 2 ∧ ¬BoundTo 0 0 tooLate m' := by
  have hs := (Option.some_get (x := memberStep threeMembers 0 tooLate (.Run 0 0 none 10))
    (by decide)).symm
  refine ⟨(Option.some_get _).symm, by decide, by decide, by decide, _, hs, by decide,
    fun hbound => ?_⟩
  have hin := hbound.raised (by decide)
  revert hin
  decide

end raft_engine.campaigns
