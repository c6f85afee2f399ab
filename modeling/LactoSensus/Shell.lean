-- The shell around the logical node: every change of the node goes through a
-- guard that publishes the new progress when it is dropped, and poisons the
-- node when the holder panics. Readers of the watch channel see the latest
-- published value only.
import LactoSensus.Consensus

open common.types
open raft_engine.node
open raft_engine.engine
open raft_engine.consensus

namespace raft_engine.shell

variable {α X : Type}

structure ConsensusShell (α : Type) where
  inner : LogicalNode α
  /-- The latest value of the watch channel. -/
  progress : ConsensusProgress
deriving DecidableEq

def ConsensusShell.new (initial_state : LogicalNode α) : ConsensusShell α :=
  ⟨initial_state, initial_state.try_consensus_progress⟩

/-- `MutationGuard::drop`: what is published after a mutation that began at `before`. -/
def afterDrop (before : ConsensusProgress) (ln : LogicalNode α) : ConsensusProgress :=
  if ln.is_poisoned then { before with role := .Poisoned, leader_hint := none }
  else ln.try_consensus_progress

/-- Run a handler under the mutation guard. -/
def ConsensusShell.write (sh : ConsensusShell α) (f : LogicalNode α → Handled α X) :
    ConsensusShell α × Except Panic X :=
  let before := sh.inner.try_consensus_progress
  match f sh.inner with
  | (ln, res) =>
    let ln := match res with
      | .ok _ => ln
      | .error _ => ln.poison
    let after := afterDrop before ln
    (⟨ln, if before ≠ after then after else sh.progress⟩, res)

/-! ## The handle -/

/-- `LocalRaftHandle::propose`. -/
def ConsensusShell.propose (sh : ConsensusShell α) (data : α) :
    ConsensusShell α × Except Panic (Except ConsensusError Nat) :=
  match sh.write fun ln => ln.propose data with
  | (sh, .ok (.ok index)) => (sh, .ok (.ok index))
  | (sh, .ok (.error (.NotLeader _))) => (sh, .ok (.error .NotLeader))
  | (sh, .ok (.error e)) => (sh, .ok (.error (.Internal e.text)))
  | (sh, .error p) => (sh, .error p)

/-- One look of `await_commit` at the channel: it returns, or it waits. -/
def await_commit (progress : ConsensusProgress) (index : Nat) :
    Option (Except ConsensusError Unit) :=
  match progress.role with
  | .Leader => if progress.last_committed ≥ index then some (.ok ()) else none
  | .Poisoned => some (.error .Poisoned)
  | _ => some (.error .NotLeader)

/-- One look of `await_apply` at the channel. -/
def await_apply (progress : ConsensusProgress) (index : Nat) :
    Option (Except ConsensusError Unit) :=
  if progress.role = .Poisoned then some (.error .Poisoned)
  else if progress.last_applied ≥ index then some (.ok ())
  else none

/-- The probe of `verify_leadership_quorum`: what it waits for, and the round it
starts unless one is in flight. -/
structure ReadProbe where
  target_epoch : Nat
  term : Nat
  round : Option ReplicationRoundParams
deriving DecidableEq, Repr

def ConsensusShell.prepare_probe (sh : ConsensusShell α) :
    ConsensusShell α × Except Panic (Except ConsensusError ReadProbe) :=
  sh.write fun ln =>
    match ln.node.state with
    | .Poisoned => (ln, .ok (.error .Poisoned))
    | .Leader l =>
      let current := l.current_read_epoch
      match l.prepare_read_probe ln.node_id with
      | (l, target) =>
        let ln := ln.withRole (ln.node.transition l) .Leader
        let round := if target = current then none
          else some ⟨ln.current_term, ln.node_id, ln.last_committed⟩
        (ln, .ok (.ok ⟨target, ln.current_term, round⟩))
    | _ => (ln, .ok (.error .NotLeader))

/-- One look of `verify_leadership_quorum` at the channel. -/
def await_probe (progress : ConsensusProgress) (probe : ReadProbe) :
    Option (Except ConsensusError Unit) :=
  if progress.role ≠ .Leader ∨ progress.term ≠ probe.term then some (.error .NotLeader)
  else if progress.confirmed_read_epoch ≥ probe.target_epoch then some (.ok ())
  else none

/-! ## What the guard keeps -/

/-- The node after a handler: what the handler left, poisoned when it panicked. -/
def afterHandler (h : Handled α X) : LogicalNode α :=
  match h.2 with
  | .ok _ => h.1
  | .error _ => h.1.poison

@[simp] theorem ConsensusShell.write_inner (sh : ConsensusShell α)
    (f : LogicalNode α → Handled α X) : (sh.write f).1.inner = afterHandler (f sh.inner) := by
  unfold ConsensusShell.write afterHandler
  cases f sh.inner with
  | mk ln res => cases res <;> rfl

@[simp] theorem ConsensusShell.write_result (sh : ConsensusShell α)
    (f : LogicalNode α → Handled α X) : (sh.write f).2 = (f sh.inner).2 := by
  unfold ConsensusShell.write
  cases f sh.inner with
  | mk ln res => rfl

/-- The node under the guard, once the write is known. -/
theorem ConsensusShell.inner_of_write {sh sh' : ConsensusShell α}
    {f : LogicalNode α → Handled α X} {res : Except Panic X} (hw : sh.write f = (sh', res)) :
    sh'.inner = afterHandler (f sh.inner) := by
  have hinner := sh.write_inner f
  rw [hw] at hinner
  exact hinner

/-- What the handler answered, once the write is known. -/
theorem ConsensusShell.result_of_write {sh sh' : ConsensusShell α}
    {f : LogicalNode α → Handled α X} {res : Except Panic X} (hw : sh.write f = (sh', res)) :
    res = (f sh.inner).2 := by
  have hres := sh.write_result f
  rw [hw] at hres
  exact hres

/-- A proposal is one write of the guard. -/
theorem ConsensusShell.propose_shell (sh : ConsensusShell α) (data : α) :
    (sh.propose data).1 = (sh.write fun ln => ln.propose data).1 := by
  unfold ConsensusShell.propose
  generalize sh.write _ = r
  obtain ⟨sh₁, p | err | index⟩ := r
  · rfl
  · cases err <;> rfl
  · rfl

/-- The channel shows the node: the same progress, or the last one before it was poisoned. -/
def Published (sh : ConsensusShell α) : Prop :=
  (sh.inner.is_poisoned = true → sh.progress.role = .Poisoned) ∧
    (sh.inner.is_poisoned = false → sh.progress = sh.inner.try_consensus_progress)

theorem try_consensus_progress_role (ln : LogicalNode α) :
    ln.try_consensus_progress.role = ln.node_role := by
  unfold LogicalNode.try_consensus_progress LogicalNode.node_role RoleState.node_role
  split <;> rename_i h <;> simp [h]

theorem ConsensusShell.published_new (ln : LogicalNode α) : Published (.new ln) := by
  refine ⟨fun h => ?_, fun _ => rfl⟩
  change ln.try_consensus_progress.role = .Poisoned
  rw [try_consensus_progress_role]
  exact ln.is_poisoned_iff.mp h

theorem ConsensusShell.write_progress (sh : ConsensusShell α)
    (f : LogicalNode α → Handled α X) :
    (sh.write f).1.progress =
      if sh.inner.try_consensus_progress ≠
          afterDrop sh.inner.try_consensus_progress (afterHandler (f sh.inner))
      then afterDrop sh.inner.try_consensus_progress (afterHandler (f sh.inner))
      else sh.progress := by
  unfold ConsensusShell.write afterHandler
  cases f sh.inner with
  | mk ln res => cases res <;> rfl

theorem afterDrop_role (before : ConsensusProgress) (ln : LogicalNode α) :
    (afterDrop before ln).role = ln.node_role := by
  unfold afterDrop
  split
  · rename_i hp
    exact (ln.is_poisoned_iff.mp hp).symm
  · exact try_consensus_progress_role ln

/-- The channel shows the role, and what a reader looks at unless the node has halted. -/
structure Reflects {Y : Type} (look : ConsensusProgress → Y) (sh : ConsensusShell α) : Prop where
  role : sh.progress.role = sh.inner.node_role
  healthy : sh.inner.is_poisoned = false →
    look sh.progress = look sh.inner.try_consensus_progress

theorem Reflects.new {Y : Type} (look : ConsensusProgress → Y) (ln : LogicalNode α) :
    Reflects look (.new ln) :=
  ⟨try_consensus_progress_role ln, fun _ => rfl⟩

theorem Reflects.write {Y : Type} {look : ConsensusProgress → Y} {sh : ConsensusShell α}
    (h : Reflects look sh) (f : LogicalNode α → Handled α X) :
    Reflects look (sh.write f).1 := by
  have hinner := sh.write_inner f
  have hprog := sh.write_progress f
  generalize afterHandler (f sh.inner) = ln at hinner hprog
  have hafter : ln.is_poisoned = false →
      afterDrop sh.inner.try_consensus_progress ln = ln.try_consensus_progress :=
    fun hp => if_neg (by simp [hp])
  by_cases hsame : sh.inner.try_consensus_progress = afterDrop sh.inner.try_consensus_progress ln
  · -- nothing is published, and nothing has changed
    rw [if_neg (not_not.mpr hsame)] at hprog
    have hrole : sh.inner.node_role = ln.node_role := by
      rw [← try_consensus_progress_role, hsame]
      exact afterDrop_role _ ln
    refine ⟨?_, fun hp => ?_⟩
    · rw [hprog, hinner, h.role, hrole]
    · rw [hinner] at hp ⊢
      have hbefore : sh.inner.is_poisoned = false := by
        unfold LogicalNode.is_poisoned at hp ⊢
        rw [show sh.inner.node.state.node_role = ln.node.state.node_role from hrole]
        exact hp
      rw [hprog, h.healthy hbefore, hsame, hafter hp]
  · rw [if_pos hsame] at hprog
    refine ⟨?_, fun hp => ?_⟩
    · rw [hprog, hinner]
      exact afterDrop_role _ ln
    · rw [hinner] at hp ⊢
      rw [hprog, hafter hp]

/-- To show the node is to show all of its progress. -/
theorem published_iff {sh : ConsensusShell α} : Published sh ↔ Reflects id sh := by
  constructor
  · rintro ⟨hpoisoned, hhealthy⟩
    refine ⟨?_, hhealthy⟩
    cases hp : sh.inner.is_poisoned with
    | true => exact (hpoisoned hp).trans (sh.inner.is_poisoned_iff.mp hp).symm
    | false => rw [hhealthy hp, try_consensus_progress_role]
  · intro h
    exact ⟨fun hp => h.role.trans (sh.inner.is_poisoned_iff.mp hp), h.healthy⟩

theorem Published.write {sh : ConsensusShell α} (h : Published sh)
    (f : LogicalNode α → Handled α X) : Published (sh.write f).1 :=
  published_iff.mpr ((published_iff.mp h).write f)

theorem Published.reflects {sh : ConsensusShell α} (h : Published sh) {Y : Type}
    (look : ConsensusProgress → Y) : Reflects look sh :=
  ⟨(published_iff.mp h).role, fun hp => congrArg look (h.2 hp)⟩

theorem try_consensus_progress_committed {ln : LogicalNode α} (hp : ln.is_poisoned = false) :
    ln.try_consensus_progress.last_committed = ln.last_committed := by
  unfold LogicalNode.try_consensus_progress
  cases hst : ln.node.state with
  | Poisoned => simp [LogicalNode.is_poisoned, hst, RoleState.node_role] at hp
  | _ => rfl

theorem reflects_committed {sh : ConsensusShell α} :
    Reflects ConsensusProgress.last_committed sh ↔ sh.progress.role = sh.inner.node_role ∧
      (sh.inner.is_poisoned = false → sh.progress.last_committed = sh.inner.last_committed) := by
  constructor
  · intro h
    exact ⟨h.role, fun hp => (h.healthy hp).trans (try_consensus_progress_committed hp)⟩
  · rintro ⟨hrole, hcommitted⟩
    exact ⟨hrole, fun hp => (hcommitted hp).trans (try_consensus_progress_committed hp).symm⟩

/-- The answer of `await_commit` is what the node itself would say. -/
theorem Reflects.await_commit_ok {sh : ConsensusShell α}
    (h : Reflects ConsensusProgress.last_committed sh) {i : Nat}
    (hok : await_commit sh.progress i = some (.ok ())) :
    sh.inner.node_role = .Leader ∧ i ≤ sh.inner.last_committed := by
  obtain ⟨hshown, hcommitted⟩ := reflects_committed.mp h
  unfold await_commit at hok
  rw [hshown] at hok
  cases hrole : sh.inner.node_role with
  | Leader =>
    have hp : sh.inner.is_poisoned = false := by
      unfold LogicalNode.is_poisoned
      rw [show sh.inner.node.state.node_role = .Leader from hrole]
      rfl
    rw [hrole] at hok
    dsimp only at hok
    split at hok
    · rename_i hle
      rw [hcommitted hp] at hle
      exact ⟨rfl, hle⟩
    · cases hok
  | _ =>
    rw [hrole] at hok
    cases hok

end raft_engine.shell
