-- The mutation guard in its parts: what it read when it was taken, what its
-- holder does with the node, and the drop that publishes. Compaction cuts the
-- front of the log without the guard, between these parts and while a guard is
-- held, so the record that a drop compares with can be older than the log.
import LactoSensus.HorizonLog
import LactoSensus.Shell
import LactoSensus.Lib.Machine

open common.types
open journal
open machine
open raft_engine.storage
open raft_engine.node
open raft_engine.engine

namespace raft_engine.shell

variable {α X : Type}

/-! ## The guard -/

structure Guarded (α : Type) where
  sh : ConsensusShell α
  /-- `MutationGuard::before`, while there is a guard. -/
  before : Option ConsensusProgress

def Guarded.new (initial_state : LogicalNode α) : Guarded α := ⟨.new initial_state, none⟩

def Guarded.node (g : Guarded α) : LogicalNode α := g.sh.inner

inductive GuardAct (α : Type) where
  /-- `write` and `blocking_write`. -/
  | Acquire
  /-- Whatever the holder does with the node, at once or in parts. -/
  | Operate (f : LogicalNode α → LogicalNode α)
  | Drop
  /-- The guard is dropped by a panic of its holder. -/
  | Unwind
  /-- The blocking task of a compaction. -/
  | TruncateFront (i : Nat)

/-- `MutationGuard::drop` over the node as it is left. -/
def Guarded.release (g : Guarded α) (before : ConsensusProgress) (ln : LogicalNode α) :
    Guarded α :=
  let after := afterDrop before ln
  ⟨⟨ln, if before ≠ after then after else g.sh.progress⟩, none⟩

/-- The front of the log is cut; the channel is not told. -/
def Guarded.truncateFront (g : Guarded α) (i : Nat) : Guarded α :=
  { g with
    sh := { g.sh with
      inner := { g.node with node := g.node.node.write (SledStorage.truncate_log_front i) } } }

def guardStep (g : Guarded α) : GuardAct α → Option (Guarded α)
  | .Acquire =>
    if g.before.isSome then none
    else some { g with before := some g.node.try_consensus_progress }
  | .Operate f => g.before.map fun _ => { g with sh := { g.sh with inner := f g.node } }
  | .Drop => g.before.map fun before => g.release before g.node
  | .Unwind => g.before.map fun before => g.release before g.node.poison
  | .TruncateFront i => some (g.truncateFront i)

/-- The cut stays within what the snapshot covers. -/
def FrontCovered (g : Guarded α) : GuardAct α → Prop
  | .TruncateFront i => i ≤ g.node.node.last_included_index
  | _ => True

/-- Nobody revives a poisoned node. -/
def NotRevived (g : Guarded α) (a : GuardAct α) : Prop :=
  FrontCovered g a ∧ ∀ f, a = .Operate f → g.node.is_poisoned = true →
    (f g.node).is_poisoned = true

def GuardRun (P : Guarded α → GuardAct α → Prop) : Guarded α → Guarded α → Prop :=
  Run guardStep P

/-! ## What the channel shows -/

/-- The cut moves nothing that the progress is made of. -/
theorem truncateFront_progress {g : Guarded α} {i : Nat}
    (hi : i ≤ g.node.node.last_included_index) :
    (g.truncateFront i).node.try_consensus_progress = g.node.try_consensus_progress := by
  have hlast : (g.truncateFront i).node.last_log_index = g.node.last_log_index := front_last hi
  unfold LogicalNode.try_consensus_progress
  rw [hlast]
  rfl

/-- With a guard out, the channel shows what the guard began with. -/
structure Current (g : Guarded α) : Prop where
  free : g.before = none → Published g.sh
  held : ∀ before, g.before = some before →
    (before.role = .Poisoned → g.sh.progress.role = .Poisoned) ∧
    (before.role ≠ .Poisoned → g.sh.progress = before)

theorem Current.new (ln : LogicalNode α) : Current (Guarded.new ln) :=
  ⟨fun _ => ConsensusShell.published_new ln, fun _ h => by cases h⟩

theorem afterDrop_poisoned (before : ConsensusProgress) {ln : LogicalNode α}
    (hp : ln.is_poisoned = true) : (afterDrop before ln).role = .Poisoned := by
  simp [afterDrop, hp]

theorem Current.release {g : Guarded α} {before : ConsensusProgress}
    (h : Current g) (hb : g.before = some before) (ln : LogicalNode α) :
    Published (g.release before ln).sh := by
  obtain ⟨hpoisoned, hhealthy⟩ := h.held before hb
  refine ⟨fun hp => ?_, fun hp => ?_⟩
  · have hrole := afterDrop_poisoned before hp
    unfold Guarded.release
    dsimp only
    split
    · exact hrole
    · rename_i hsame
      apply hpoisoned
      rw [not_not.mp hsame]
      exact hrole
  · have hafter : afterDrop before ln = ln.try_consensus_progress := by
      have hln : ln.is_poisoned = false := hp
      simp [afterDrop, hln]
    change (if before ≠ afterDrop before ln then _ else _) = ln.try_consensus_progress
    split
    · exact hafter
    · rename_i hsame
      have hbefore : before = ln.try_consensus_progress := (not_not.mp hsame).trans hafter
      rw [← hbefore]
      apply hhealthy
      rw [hbefore, try_consensus_progress_role]
      intro hrole
      exact absurd (hp.symm.trans (ln.is_poisoned_iff.mpr hrole)) (by decide)

theorem Current.step {g g' : Guarded α} {a : GuardAct α} (h : Current g) (hok : FrontCovered g a)
    (hs : guardStep g a = some g') : Current g' := by
  cases a with
  | Acquire =>
    simp only [guardStep] at hs
    split at hs
    · cases hs
    rename_i hnone
    obtain rfl := Option.some.inj hs
    have hpub := h.free (by simpa using hnone)
    refine ⟨fun hno => (by cases hno), fun before hb => ?_⟩
    obtain rfl := Option.some.inj hb
    rw [try_consensus_progress_role]
    refine ⟨fun hrole => hpub.1 (g.node.is_poisoned_iff.mpr hrole), fun hrole => ?_⟩
    apply hpub.2
    rw [Bool.eq_false_iff]
    exact fun hp => hrole (g.node.is_poisoned_iff.mp hp)
  | Operate f =>
    obtain ⟨before, hb, rfl⟩ := Option.map_eq_some_iff.mp hs
    refine ⟨fun hno => ?_, h.held⟩
    rw [show g.before = none from hno] at hb
    cases hb
  | Drop =>
    obtain ⟨before, hb, rfl⟩ := Option.map_eq_some_iff.mp hs
    exact ⟨fun _ => h.release hb g.node, fun _ hno => by cases hno⟩
  | Unwind =>
    obtain ⟨before, hb, rfl⟩ := Option.map_eq_some_iff.mp hs
    exact ⟨fun _ => h.release hb g.node.poison, fun _ hno => by cases hno⟩
  | TruncateFront i =>
    obtain rfl := Option.some.inj hs
    refine ⟨fun hno => ?_, h.held⟩
    have hpub := h.free hno
    exact ⟨hpub.1, fun hp => (hpub.2 hp).trans (truncateFront_progress hok).symm⟩

/-- A poisoned node that has been announced stays so. -/
structure Announced (g : Guarded α) : Prop where
  poisoned : g.node.is_poisoned = true
  published : g.sh.progress.role = .Poisoned
  held : ∀ before, g.before = some before → before.role = .Poisoned

theorem Announced.release {g : Guarded α} (h : Announced g) (before : ConsensusProgress)
    {ln : LogicalNode α} (hp : ln.is_poisoned = true) : Announced (g.release before ln) := by
  refine ⟨hp, ?_, fun _ hno => by cases hno⟩
  unfold Guarded.release
  dsimp only
  split
  · exact afterDrop_poisoned _ hp
  · exact h.published

theorem Announced.step {g g' : Guarded α} {a : GuardAct α} (h : Announced g)
    (hok : NotRevived g a) (hs : guardStep g a = some g') : Announced g' := by
  cases a with
  | Acquire =>
    simp only [guardStep] at hs
    split at hs
    · cases hs
    obtain rfl := Option.some.inj hs
    refine ⟨h.poisoned, h.published, fun before hb => ?_⟩
    obtain rfl := Option.some.inj hb
    rw [try_consensus_progress_role]
    exact g.node.is_poisoned_iff.mp h.poisoned
  | Operate f =>
    obtain ⟨before, -, rfl⟩ := Option.map_eq_some_iff.mp hs
    exact ⟨hok.2 f rfl h.poisoned, h.published, h.held⟩
  | Drop =>
    obtain ⟨before, -, rfl⟩ := Option.map_eq_some_iff.mp hs
    exact h.release before h.poisoned
  | Unwind =>
    obtain ⟨before, -, rfl⟩ := Option.map_eq_some_iff.mp hs
    exact h.release before rfl
  | TruncateFront i =>
    obtain rfl := Option.some.inj hs
    exact ⟨h.poisoned, h.published, h.held⟩

/-- In every run of guards and cuts within the snapshot: with no guard out, the channel shows
the progress of a healthy node. Once a guard is dropped over a poisoned node, the role that is
shown is `Poisoned`, and it stays so for as long as nobody revives the node. -/
theorem progress_is_current (ln : LogicalNode α) (g : Guarded α)
    (hrun : GuardRun FrontCovered (.new ln) g) :
    (g.before = none → g.node.is_poisoned = false →
      g.sh.progress = g.node.try_consensus_progress) ∧
    ∀ a g', a = .Drop ∨ a = .Unwind → guardStep g a = some g' → g'.node.is_poisoned = true →
      ∀ g'', GuardRun NotRevived g' g'' → g''.sh.progress.role = .Poisoned := by
  have hcurrent : Current g := Run.invariant (fun _ _ _ h hok hs => h.step hok hs) hrun
    (Current.new ln)
  refine ⟨fun hfree => (hcurrent.free hfree).2, fun a g' ha hs hp g'' hrun' => ?_⟩
  have hstep : Current g' := hcurrent.step (by rcases ha with rfl | rfl <;> trivial) hs
  have hfree : g'.before = none := by
    rcases ha with rfl | rfl <;>
      (obtain ⟨before, -, rfl⟩ := Option.map_eq_some_iff.mp hs; rfl)
  have hannounced : Announced g' := by
    refine ⟨hp, (hstep.free hfree).1 hp, fun before hb => ?_⟩
    rw [hfree] at hb
    cases hb
  exact (Run.invariant (fun _ _ _ h hok hs => Announced.step h hok hs) hrun' hannounced).published

/-- A follower on an empty disk. -/
def idle : LogicalNode Nat := ⟨⟨1, .settled .new, 0, 0, .Follower ⟨none, 0, 10⟩⟩, 0, 5⟩

def guardedAfter (acts : List (GuardAct Nat)) : Guarded Nat :=
  (exec guardStep (Guarded.new idle) acts).getD (.new idle)

/-- The follower is sent three entries, two of them committed, and publishes a snapshot of
two; the log is cut while a guard is out under which it learns that the third is committed. -/
def followAndCompact : List (GuardAct Nat) :=
  [.Acquire, .Operate fun ln => (ln.handle_append_entries 2 1 0 0
      [⟨1, 1, 7⟩, ⟨2, 1, 8⟩, ⟨3, 1, 9⟩] 2 10).1, .Drop,
    .Acquire, .Operate fun ln => (ln.save_snapshot_metadata 2 1).1, .Drop,
    .Acquire, .TruncateFront 2, .Operate fun ln => (ln.handle_append_entries 2 1 3 1 [] 3 10).1,
    .Drop]

def poisonUnderGuard : List (GuardAct Nat) :=
  followAndCompact ++ [.Acquire, .Operate .poison]

/-- The channel shows the log whose front is gone; the node that is poisoned under the next
guard shows it when the guard is dropped. -/
theorem progress_is_current_once :
    ((guardedAfter followAndCompact).node.node.disk.read_entry 2 = none ∧
      (guardedAfter followAndCompact).node.last_log_index = 3 ∧
      (guardedAfter followAndCompact).node.last_committed = 3) ∧
    (guardedAfter followAndCompact).sh.progress =
      (guardedAfter followAndCompact).node.try_consensus_progress ∧
    (guardedAfter (poisonUnderGuard ++ [.Drop])).sh.progress.role = .Poisoned := by
  have hsaved : GuardRun FrontCovered (.new idle) (guardedAfter (followAndCompact.take 7)) :=
    run_of_exec (followAndCompact.take 7) (by simp [followAndCompact, FrontCovered]) rfl
  have hcut : GuardRun FrontCovered (.new idle) (guardedAfter (followAndCompact.take 8)) :=
    hsaved.tail (a := .TruncateFront 2) (Nat.le_refl 2) rfl
  have hfollowed : GuardRun FrontCovered (.new idle) (guardedAfter followAndCompact) :=
    hcut.trans (run_of_exec (followAndCompact.drop 8)
      (by simp [followAndCompact, FrontCovered]) rfl)
  have hpoisoned : GuardRun FrontCovered (.new idle) (guardedAfter poisonUnderGuard) :=
    hfollowed.trans (run_of_exec [.Acquire, .Operate .poison] (by simp [FrontCovered]) rfl)
  exact ⟨⟨rfl, rfl, rfl⟩, (progress_is_current idle _ hfollowed).1 rfl rfl,
    (progress_is_current idle _ hpoisoned).2 .Drop _ (.inl rfl) rfl rfl _ (.refl _)⟩

end raft_engine.shell
