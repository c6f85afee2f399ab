-- The heartbeats of one reign. The timer of a leader is set when it is elected
-- and by nothing that happens to it as a leader: not by the tick loop when it
-- starts a round, nor by the proposals, the read probes and the peers between.
import LactoSensus.PreVotes
import LactoSensus.Roles

open common.types
open machine
open raft_engine.node
open raft_engine.engine
open raft_engine.consensus
open raft_engine.shell
open raft_engine.cluster
open raft_engine.campaigns
open raft_engine.roles

namespace raft_engine.heartbeats

variable {α : Type} {cfg : Config} {n : NodeId} {m m' : Member α} {term : Nat} {l : Leader}

/-! ## A reign -/

def LeaderOf (term : Nat) (m : Member α) : Prop :=
  m.shell.inner.node_role = .Leader ∧ m.shell.inner.current_term = term

instance (term : Nat) (m : Member α) : Decidable (LeaderOf term m) :=
  inferInstanceAs (Decidable (_ ∧ _))

/-- Steps of any kind, with the node leader of the term before and after each one. -/
def Reign [DecidableEq α] (cfg : Config) (n : NodeId) (term : Nat) :
    Member α → List (MemberAct α) → Prop
  | m, [] => LeaderOf term m
  | m, a :: as => LeaderOf term m ∧ ∃ m' ∈ memberStep cfg n m a, Reign cfg n term m' as

instance Reign.decidable [DecidableEq α] (cfg : Config) (n : NodeId) (term : Nat) :
    ∀ (m : Member α) (as : List (MemberAct α)), Decidable (Reign cfg n term m as)
  | m, [] => inferInstanceAs (Decidable (LeaderOf term m))
  | m, a :: as =>
    haveI : DecidablePred fun m' => Reign cfg n term m' as :=
      fun m' => Reign.decidable cfg n term m' as
    inferInstanceAs
      (Decidable (LeaderOf term m ∧ ∃ m' ∈ memberStep cfg n m a, Reign cfg n term m' as))

def isTick : MemberAct α → Bool
  | .Tick _ => true
  | _ => false

def ticks (as : List (MemberAct α)) : Nat := as.countP isTick

/-- The times at which the tick loop is told to send a heartbeat. -/
def beats [DecidableEq α] (cfg : Config) (n : NodeId) : Member α → List (MemberAct α) → List Nat
  | _, [] => []
  | m, a :: as =>
    match memberStep cfg n m a with
    | none => []
    | some m' =>
      if isTick a ∧ m.shell.inner.tick.2 = .SendHeartbeat then
        m'.shell.inner.current_tick :: beats cfg n m' as
      else beats cfg n m' as

/-- Each heartbeat comes `threshold` ticks after the one before it. -/
def Evenly (threshold : Nat) (times : List Nat) : Prop :=
  times.IsChain fun k k' => k' = k + threshold

/-! ## What a step does to the timer -/

theorem LeaderOf.state (h : LeaderOf term m) : ∃ l, m.shell.inner.node.state = .Leader l := by
  obtain ⟨hrole, -⟩ := h
  unfold LogicalNode.node_role at hrole
  cases hst : m.shell.inner.node.state <;> simp [hst, RoleState.node_role] at hrole
  exact ⟨_, rfl⟩

/-- Between two ticks nothing moves the timer of a leader. -/
theorem memberStep_timed [DecidableEq α] {a : MemberAct α}
    (hl : m.shell.inner.node.state = .Leader l) (hnot : isTick a = false)
    (hs : memberStep cfg n m a = some m') : Timed m.shell.inner m'.shell.inner := by
  have hrole : m.shell.inner.node_role ≠ .Candidate := by
    simp [LogicalNode.node_role, hl, RoleState.node_role]
  cases a with
  | Tick timeout => cases hnot
  | Run k peer reply timeout =>
    simp only [memberStep, Option.bind_eq_some_iff, Option.map_eq_some_iff] at hs
    obtain ⟨⟨t, task⟩, -, ⟨sh, tasks, sends⟩, hrun, rfl⟩ := hs
    exact (runTask_ran hrun).step.timed hrole
  | Serve request timeout =>
    obtain ⟨⟨dst, sh, sends⟩, hserve, rfl⟩ := Option.map_eq_some_iff.mp hs
    exact (serve_step hserve).steady.timed
  | InstallSnapshot leader_id req_term last_included_index timeout =>
    obtain rfl := Option.some.inj hs
    rw [ConsensusShell.write_inner]
    exact (handle_install_snapshot_steady _ _ _ _ _).afterHandler.timed
  | Respond t peer_id outcome timeout =>
    obtain rfl := Option.some.inj hs
    rw [ConsensusShell.write_inner]
    exact (process_replication_response_timed _ _ _ _ _).afterHandler
  | Propose data =>
    obtain rfl := Option.some.inj hs
    rw [ConsensusShell.propose_shell, ConsensusShell.write_inner]
    exact (propose_steady _ _).afterHandler.timed
  | Probe =>
    obtain rfl := Option.some.inj hs
    exact prepare_probe_timed _
  | Halt err =>
    obtain rfl := Option.some.inj hs
    rw [ConsensusShell.write_inner]
    exact (Steady.refl _).poison.timed

/-- A tick of a leader moves its clock, and nothing else. -/
theorem memberStep_tick [DecidableEq α] {timeout : Nat} (hl : m.shell.inner.node.state = .Leader l)
    (hs : memberStep cfg n m (.Tick timeout) = some m') :
    m'.shell.inner = { m.shell.inner with current_tick := m.shell.inner.current_tick + 1 } ∧
      m.shell.inner.tick.2 =
        l.evaluate_tick (m.shell.inner.current_tick + 1) m.shell.inner.heartbeat_interval := by
  have hlock : tickLocked m.shell.inner timeout =
      ({ m.shell.inner with current_tick := m.shell.inner.current_tick + 1 },
        .ok (if l.evaluate_tick (m.shell.inner.current_tick + 1)
            m.shell.inner.heartbeat_interval = .SendHeartbeat
          then .Round ⟨m.shell.inner.current_term, m.shell.inner.node_id,
            m.shell.inner.last_committed⟩
          else .Nothing)) := by
    unfold tickLocked LogicalNode.tick Leader.evaluate_tick
    rw [hl]
    dsimp only
    rw [if_neg (by simp [LogicalNode.is_poisoned, hl, RoleState.node_role])]
    by_cases hdue : m.shell.inner.current_tick + 1 - l.last_heartbeat ≥
        m.shell.inner.heartbeat_interval
    · simp only [if_pos hdue]
      rfl
    · simp [if_neg hdue]
  constructor
  · simp only [memberStep] at hs
    have hinner := m.shell.write_inner fun ln => tickLocked ln timeout
    generalize m.shell.write (fun ln => tickLocked ln timeout) = r at hs hinner
    rw [hlock] at hinner
    obtain ⟨sh, p | spawn⟩ := r <;>
    · obtain rfl := Option.some.inj hs
      exact hinner
  · unfold LogicalNode.tick
    rw [hl]

/-! ## The heartbeats of a reign -/

theorem evaluate_tick_iff (l : Leader) (now : Nat) {threshold : Nat} (hpos : 0 < threshold) :
    l.evaluate_tick now threshold = .SendHeartbeat ↔ l.last_heartbeat + threshold ≤ now := by
  unfold Leader.evaluate_tick
  split
  · simp only [true_iff]
    omega
  · simp only [reduceCtorEq, false_iff]
    omega

/-- From the threshold on every tick is a heartbeat. -/
theorem beats_eq [DecidableEq α] {as : List (MemberAct α)}
    (hpos : 0 < m.shell.inner.heartbeat_interval) (hl : m.shell.inner.node.state = .Leader l)
    (hreign : Reign cfg n term m as) :
    beats cfg n m as = (List.range' (m.shell.inner.current_tick + 1) (ticks as)).filter
      fun k => l.last_heartbeat + m.shell.inner.heartbeat_interval ≤ k := by
  induction as generalizing m l with
  | nil => rfl
  | cons a as ih =>
    obtain ⟨-, m', hs, hrest⟩ := hreign
    have hs : memberStep cfg n m a = some m' := hs
    unfold beats ticks
    simp only [hs, List.countP_cons]
    cases htick : isTick a with
    | true =>
      cases a <;> cases htick
      obtain ⟨hinner, haction⟩ := memberStep_tick hl hs
      have hl' : m'.shell.inner.node.state = .Leader l := by
        rw [hinner]
        exact hl
      have hbeats := ih (by rw [hinner]; exact hpos) hl' hrest
      have hiff := evaluate_tick_iff l (m.shell.inner.current_tick + 1) hpos
      rw [← haction] at hiff
      rw [hbeats, hinner]
      simp only [if_true, List.range'_succ, List.filter_cons, hiff, true_and, decide_eq_true_eq]
      rfl
    | false =>
      have hkept := memberStep_timed hl htick hs
      have hlead : LeaderOf term m' := by cases as with
        | nil => exact hrest
        | cons a' as' => exact hrest.1
      obtain ⟨l', hl'⟩ := hlead.state
      obtain ⟨l₀, hl₀, hbeat⟩ := hkept.timer l' hl'
      obtain rfl := RoleState.Leader.inj (hl₀.symm.trans hl)
      have hbeats := ih (by rw [hkept.interval]; exact hpos) hl' hrest
      rw [hbeats, hkept.tick, hkept.interval, hbeat]
      simp
      rfl

theorem range'_filter_ge (c start len : Nat) :
    (List.range' start len).filter (fun k => c ≤ k) =
      List.range' (max start c) (start + len - max start c) := by
  induction len generalizing start with
  | zero => simp
  | succ len ih =>
    rw [List.range'_succ, List.filter_cons, ih]
    by_cases hle : c ≤ start
    · have hlen : start + (len + 1) - start = (start + 1 + len - (start + 1)) + 1 := by omega
      rw [if_pos (by simpa using hle), max_eq_left hle, max_eq_left (by omega), hlen,
        List.range'_succ]
    · have hmax : max (start + 1) c = max start c := by omega
      have hlen : start + 1 + len - max start c = start + (len + 1) - max start c := by omega
      rw [if_neg (by simpa using hle), hmax, hlen]

/-- Neighbours are `threshold` apart only when that is one, or when there are no neighbours. -/
theorem range'_evenly_iff (threshold start len : Nat) :
    Evenly threshold (List.range' start len) ↔ threshold = 1 ∨ len ≤ 1 := by
  unfold Evenly
  constructor
  · intro h
    by_contra hno
    obtain ⟨len, rfl⟩ : ∃ k, len = k + 2 := ⟨len - 2, by omega⟩
    rw [List.range'_succ, List.range'_succ, List.isChain_cons_cons] at h
    omega
  · rintro (rfl | hlen)
    · exact List.isChain_range' start len 1
    · have hcases : len = 0 ∨ len = 1 := by omega
      rcases hcases with rfl | rfl <;> simp [List.range'_succ]

/-- Heartbeats are paced only when the threshold is one tick, or when the reign is over before
the second of them. -/
theorem heartbeats_even_iff [DecidableEq α] {as : List (MemberAct α)}
    (hpos : 0 < m.shell.inner.heartbeat_interval) (hl : m.shell.inner.node.state = .Leader l)
    (hreign : Reign cfg n term m as) :
    Evenly m.shell.inner.heartbeat_interval (beats cfg n m as) ↔
      m.shell.inner.heartbeat_interval = 1 ∨
        m.shell.inner.current_tick + ticks as ≤
          max (m.shell.inner.current_tick + 1)
            (l.last_heartbeat + m.shell.inner.heartbeat_interval) := by
  rw [beats_eq hpos hl hreign, range'_filter_ge, range'_evenly_iff]
  omega

/-! ## Stacked rounds -/

/-- The way of a member to the leadership of term 1, at its first tick. -/
def election : List (MemberAct Unit) :=
  [.Tick 10, granted, .Run 0 0 none 10, .Run 0 1 (some (.VoteReply 1 ⟨1, 0, 0, 0⟩ ⟨1, true⟩)) 10]

/-- A new leader whose threshold is five ticks. -/
def elected : Member Unit :=
  (exec (memberStep threeMembers 0) fresh election).get (by decide)

theorem first_heartbeat_even :
    ∃ l, elected.shell.inner.node.state = .Leader l ∧
      Reign threeMembers 0 1 elected (.replicate 5 (.Tick 10)) ∧
      Evenly 5 (beats threeMembers 0 elected (.replicate 5 (.Tick 10))) := by
  have hl : ∃ l, elected.shell.inner.node.state = .Leader l ∧ l.last_heartbeat = 1 := ⟨_, rfl, rfl⟩
  obtain ⟨l, hl, hbeat⟩ := hl
  have hreign : Reign threeMembers 0 1 elected (.replicate 5 (.Tick 10)) := by decide +kernel
  refine ⟨l, hl, hreign, (heartbeats_even_iff (by decide) hl hreign).mpr (.inr ?_)⟩
  rw [hbeat]
  decide

/-- The sixth tick of the reign is due, and so is the seventh. -/
theorem heartbeats_stacked :
    exec (memberStep threeMembers 0) fresh election = some elected ∧
      elected.shell.inner.heartbeat_interval = 5 ∧
      Reign threeMembers 0 1 elected (.replicate 6 (.Tick 10)) ∧
      beats threeMembers 0 elected (.replicate 6 (.Tick 10)) = [6, 7] ∧
      ¬Evenly 5 (beats threeMembers 0 elected (.replicate 6 (.Tick 10))) := by
  have hbeats : beats threeMembers 0 elected (.replicate 6 (.Tick 10)) = [6, 7] := by
    decide +kernel
  refine ⟨(Option.some_get _).symm, rfl, by decide +kernel, hbeats, ?_⟩
  rw [hbeats]
  unfold Evenly
  decide

end raft_engine.heartbeats
