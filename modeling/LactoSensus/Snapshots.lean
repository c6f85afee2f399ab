-- Two invariants of a host with snapshots: the horizon, the commit index and the
-- last index stay in order over a log without holes, and the term a node reports
-- for its last index is the one it has there. Neither holds for every run: a
-- metadata write compares nothing with what is stored, and it keeps the entries
-- below the new horizon. Each theorem says which steps have to be ruled out.
import LactoSensus.HostSteps

open common.types
open machine
open ordmap
open raft_engine.storage
open raft_engine.node
open raft_engine.engine
open raft_engine.consensus
open raft_engine.shell
open raft_engine.cluster

namespace raft_engine.orchestration

variable {α S R : Type} {cfg : HostConfig} {sm : SnapshotMachine α S} {h h' : SnapshotHost α S}
  {ln ln' : LogicalNode α}

/-! ## Horizon, commit index and last index -/

structure Level (n : RaftNode α R) : Prop where
  horizon_le : n.last_included_index ≤ n.last_committed
  commit_le : n.last_committed ≤ n.last_log_index
  applied_le : n.last_applied ≤ n.last_committed
  covered : Covered n.disk

/-- The order depends on the log, the metadata and the two indices only. -/
theorem Level.congr {R' : Type} {n : RaftNode α R} {n' : RaftNode α R'} (hlevel : Level n)
    (hlog : n'.disk.log = n.disk.log)
    (hsnap : n'.disk.key_snapshot_index = n.disk.key_snapshot_index)
    (happlied : n'.last_applied ≤ n'.last_committed)
    (hle : n.last_committed ≤ n'.last_committed)
    (hlast : n'.last_committed ≤ n.last_log_index) : Level n' := by
  have hhor : n'.disk.last_included_index = n.disk.last_included_index := by
    unfold SledStorage.last_included_index
    rw [hsnap]
  have hll : n'.disk.last_log_index = n.disk.last_log_index := by
    unfold SledStorage.last_log_index
    rw [hlog, hhor]
  refine ⟨?_, ?_, happlied, ?_⟩
  · have := hlevel.horizon_le
    change n'.disk.last_included_index ≤ _
    rw [hhor]
    exact this.trans hle
  · change _ ≤ n'.disk.last_log_index
    rw [hll]
    exact hlast
  · intro k hk hkl
    rw [hhor] at hk
    rw [hll] at hkl
    rw [hlog]
    exact hlevel.covered k hk hkl

theorem Level.quiet (hlevel : Level ln.node) (hq : Quiet ln ln') :
    Level ln'.node ∧ ln.last_committed ≤ ln'.last_committed := by
  have hc := hq.committed
  have ha := hq.applied
  have hal : ln.last_applied ≤ ln.last_committed := hlevel.applied_le
  have hcl : ln.last_committed ≤ ln.last_log_index := hlevel.commit_le
  refine ⟨hlevel.congr hq.log hq.snapshot_index ?_ ?_ ?_, ?_⟩
  · change ln'.last_applied ≤ ln'.last_committed
    omega
  · change ln.last_committed ≤ ln'.last_committed
    omega
  · change ln'.last_committed ≤ ln.last_log_index
    omega
  · omega

/-- What is in conflict with an entry above the horizon is an entry of the log. -/
theorem conflict_in_log {n : RaftNode α R} {e : LogEntry α} (he : n.conflicts e = true)
    (hne : n.last_included_index < e.index) : e.index ≤ n.last_log_index := by
  simp only [RaftNode.conflicts, decide_eq_true_eq] at he
  apply key_le_last
  intro hnone
  apply he.1
  unfold RaftNode.get_term_at
  rw [if_neg (by omega), if_neg (by omega)]
  change ((n.disk.log.get? e.index).map LogEntry.term).getD 0 = 0
  rw [hnone]
  rfl

theorem Level.cut {n : RaftNode α R} (hlevel : Level n) {e : LogEntry α}
    (he : n.conflicts e = true) (hcut : n.last_committed < e.index) :
    Level (n.truncate_log e.index) ∧
      (n.truncate_log e.index).last_included_index = n.last_included_index := by
  have hhor : n.last_included_index < e.index := by
    have := hlevel.horizon_le
    omega
  have hle : e.index ≤ n.last_log_index := conflict_in_log he hhor
  have hsame : (n.truncate_log e.index).last_included_index = n.last_included_index :=
    truncate_log_horizon n.disk e.index
  have hlast : (n.truncate_log e.index).last_log_index = e.index - 1 :=
    hlevel.covered.truncate_last hhor hle
  refine ⟨⟨?_, ?_, hlevel.applied_le, hlevel.covered.truncate hhor hle⟩, hsame⟩
  · rw [hsame]
    exact hlevel.horizon_le
  · rw [hlast]
    change n.last_committed ≤ _
    omega

theorem Level.persist {n : RaftNode α Follower} (hlevel : Level n) {es : List (LogEntry α)}
    (hes : Consecutive n.last_log_index es) (leader_commit : Nat) :
    Level (n.persistAppend es leader_commit) ∧
      n.last_committed ≤ (n.persistAppend es leader_commit).last_committed ∧
      (n.persistAppend es leader_commit).last_included_index = n.last_included_index := by
  obtain ⟨hlog, hsnap, -, happlied, hcommit⟩ := n.persistAppend_log hes leader_commit
  have hcl := hlevel.commit_le
  have hal := hlevel.applied_le
  have hlast : (n.disk.append_entries es).last_log_index = n.last_log_index + es.length :=
    append_last hes
  have happended : Level (n.append_entries es) := by
    refine ⟨hlevel.horizon_le, ?_, hal, hlevel.covered.append hes⟩
    change n.last_committed ≤ (n.disk.append_entries es).last_log_index
    omega
  have hsame : (n.persistAppend es leader_commit).last_included_index =
      n.last_included_index := by
    change (n.persistAppend es leader_commit).disk.last_included_index =
      n.disk.last_included_index
    unfold SledStorage.last_included_index
    rw [hsnap]
  have hle : n.last_committed ≤ (n.persistAppend es leader_commit).last_committed := by
    omega
  refine ⟨happended.congr hlog hsnap ?_ hle ?_, hle, hsame⟩
  · omega
  · change _ ≤ (n.disk.append_entries es).last_log_index
    omega

/-- A reconciliation that cuts above the commit index keeps the order. -/
theorem Level.merged {n n' : RaftNode α Follower} (hlevel : Level n)
    {entries : List (LogEntry α)} {leader_commit : Nat}
    (hcut : ∀ e, entries.find? n.conflicts = some e → n.last_committed < e.index)
    (hm : Merged n entries leader_commit n') :
    Level n' ∧ n.last_committed ≤ n'.last_committed ∧
      n'.last_included_index = n.last_included_index := by
  cases hm with
  | kept => exact ⟨hlevel, le_rfl, rfl⟩
  | cut e he =>
    obtain ⟨hl, hs⟩ := hlevel.cut (List.find?_some he) (hcut e he)
    exact ⟨hl, le_rfl, hs⟩
  | appended es hes hsub => exact hlevel.persist hes leader_commit
  | replaced e he es hes hsub =>
    obtain ⟨hl, hs⟩ := hlevel.cut (List.find?_some he) (hcut e he)
    obtain ⟨hl', hc', hs'⟩ := hl.persist hes leader_commit
    exact ⟨hl', hc', hs'.trans hs⟩

theorem Level.advanced {n n' : RaftNode α R} (hlevel : Level n) {i : Nat}
    (hadv : Advanced n i n') : Level n' ∧ n.last_committed ≤ n'.last_committed := by
  have hc := hadv.committed
  have ha := hadv.applied
  have hcl := hlevel.commit_le
  refine ⟨hlevel.congr hadv.log hadv.snapshot_index ?_ ?_ ?_, ?_⟩ <;> omega

theorem metadata_last_node {n : RaftNode α R} {i q : Nat} (hi : n.last_included_index ≤ i) :
    (n.save_snapshot_metadata i q).last_log_index = max n.last_log_index i :=
  metadata_last (s := n.disk) hi

/-- A compaction writes a horizon that is already committed. -/
theorem Level.saved {n : RaftNode α R} (hlevel : Level n) {i q : Nat}
    (hi : n.last_included_index ≤ i) (hic : i ≤ n.last_committed) :
    Level (n.save_snapshot_metadata i q) := by
  refine ⟨hic, ?_, hlevel.applied_le, hlevel.covered.metadata hi⟩
  rw [metadata_last_node hi]
  exact hlevel.commit_le.trans (Nat.le_max_left _ _)

/-- An installation writes its horizon and commits it under one lock. -/
theorem Level.installed {n n' : RaftNode α R} (hlevel : Level n) {i q : Nat}
    (hi : n.last_included_index ≤ i) (hadv : Advanced (n.save_snapshot_metadata i q) i n') :
    Level n' ∧ n.last_committed ≤ n'.last_committed ∧ n'.last_included_index = i := by
  have hc : i ≤ n.last_committed ∧ n'.last_committed = n.last_committed ∨
      n.last_committed < i ∧ i ≤ (n.save_snapshot_metadata i q).last_log_index ∧
        n'.last_committed = i := hadv.committed
  have hcl := hlevel.commit_le
  have ha := hadv.applied
  have hlast := metadata_last_node (q := q) hi
  have hhor : n'.last_included_index = i := by
    change n'.disk.last_included_index = i
    unfold SledStorage.last_included_index
    rw [hadv.snapshot_index]
    rfl
  have hll : n'.last_log_index = max n.last_log_index i := by
    rw [← hlast]
    change n'.disk.last_log_index = (n.save_snapshot_metadata i q).disk.last_log_index
    unfold SledStorage.last_log_index SledStorage.last_included_index
    rw [hadv.log, hadv.snapshot_index]
  refine ⟨⟨?_, ?_, ?_, ?_⟩, ?_, hhor⟩
  · omega
  · omega
  · omega
  · intro k hk hkl
    rw [show n'.disk.last_included_index = i from hhor] at hk
    rw [show n'.disk.last_log_index = max n.last_log_index i from hll] at hkl
    rw [hadv.log]
    have := hlevel.covered.metadata (q := q) hi
    refine this k hk ?_
    rw [metadata_last (s := n.disk) hi]
    exact hkl
  · omega

theorem Level.front {n : RaftNode α R} (hlevel : Level n) {i : Nat}
    (hi : i ≤ n.last_included_index) :
    Level (n.write (SledStorage.truncate_log_front i)) := by
  refine ⟨hlevel.horizon_le, ?_, hlevel.applied_le, hlevel.covered.front hi⟩
  change n.last_committed ≤ (n.disk.truncate_log_front i).last_log_index
  rw [front_last hi]
  exact hlevel.commit_le

/-! ## Every interleaving -/

/-- What a step must not do: write a horizon below the stored one, or cut the log
at or below the commit index. -/
def KeepsOrder (h : SnapshotHost α S) : HostAct α → Prop
  | .SaveMetadata k =>
    ∀ i q, h.compactions[k]? = some (.Captured i q) → h.disk.last_included_index ≤ i
  | .Finalize k =>
    ∀ params res, h.installations[k]? = some (.Restored params res) →
      h.disk.last_included_index ≤ params.last_included_index
  | .Deliver (.AppendEntries _ req) _ => CutsAbove h.node.last_committed h.node req
  | _ => True

/-- The order, with what the compactions under way rely on. -/
structure Sound (h : SnapshotHost α S) : Prop where
  level : Level h.node.node
  captured : ∀ i q, .Captured i q ∈ h.compactions → i ≤ h.node.last_committed
  saved : ∀ i, .Saved i ∈ h.compactions → i ≤ h.disk.last_included_index

theorem Sound.fresh (hf : Fresh cfg sm h) : Sound h := by
  obtain ⟨timeout, ln, hnew, rfl⟩ := hf
  unfold LogicalNode.try_new at hnew
  split at hnew
  · cases hnew
  rename_i hzero
  obtain rfl := Except.ok.inj hnew
  refine ⟨⟨le_rfl, Nat.zero_le _, ?_, ?_⟩, by simp, by simp⟩
  · exact not_lt.mp hzero
  · intro k hk hkl
    have hk' : 0 < k := hk
    have hkl' : k ≤ 0 := hkl
    omega

/-- What one change of the log leaves of the order. -/
theorem Sound.log {a : HostAct α} (hsound : Sound h) (hkeep : KeepsOrder h a)
    (hlog : LogStep h a ln') :
    Level ln'.node ∧ h.node.last_committed ≤ ln'.last_committed ∧
      h.disk.last_included_index ≤ ln'.node.last_included_index := by
  have hlevel := hsound.level
  cases hlog with
  | quiet hq =>
    obtain ⟨hl, hc⟩ := hlevel.quiet hq
    exact ⟨hl, hc, hq.horizon.ge⟩
  | proposed data l hl =>
    have hes : Consecutive h.node.node.last_log_index
        [⟨h.node.last_log_index + 1, h.node.current_term, data⟩] := ⟨rfl, trivial⟩
    refine ⟨⟨hlevel.horizon_le, ?_, hlevel.applied_le, hlevel.covered.append hes⟩,
      le_rfl, le_rfl⟩
    have hlast := append_last hes
    have hcl := hlevel.commit_le
    change h.node.node.last_committed ≤ (h.node.node.disk.append_entries _).last_log_index
    rw [hlast]
    exact hcl.trans (Nat.le_add_right _ _)
  | @merged dst req timeout ln₁ _ f n hq hst hc ht hv hm hln =>
    obtain ⟨hl₁, -⟩ := hlevel.quiet hq
    have hcut : ∀ e, req.entries.find? (ln₁.node.transition f).conflicts = some e →
        (ln₁.node.transition f).last_committed < e.index := by
      intro e he
      change ln₁.last_committed < e.index
      rw [hc]
      exact CutsAbove.after hkeep hq ht hv he
    have hl₂ : Level (ln₁.node.transition f) :=
      ⟨hl₁.horizon_le, hl₁.commit_le, hl₁.applied_le, hl₁.covered⟩
    obtain ⟨hl₃, hc₃, hs₃⟩ := hl₂.merged hcut hm
    have hl₄ : Level (ln₁.withRole n .Follower).node :=
      ⟨hl₃.horizon_le, hl₃.commit_le, hl₃.applied_le, hl₃.covered⟩
    obtain ⟨hl₅, hc₅⟩ := hl₄.quiet hln
    refine ⟨hl₅, ?_, ?_⟩
    · calc h.node.last_committed = ln₁.last_committed := hc.symm
        _ ≤ n.last_committed := hc₃
        _ ≤ ln'.last_committed := hc₅
    · calc h.disk.last_included_index = ln₁.node.last_included_index := hq.horizon.symm
        _ = n.last_included_index := hs₃.symm
        _ ≤ ln'.node.last_included_index := hln.horizon.ge
  | applied i hadv =>
    obtain ⟨hl, hc⟩ := hlevel.advanced hadv
    refine ⟨hl, hc, ?_⟩
    change h.node.node.disk.last_included_index ≤ (onto h.node _).node.disk.last_included_index
    unfold SledStorage.last_included_index onto
    rw [hadv.snapshot_index]
  | saved k i q hk =>
    have hi : h.node.node.last_included_index ≤ i := hkeep i q hk
    have hic := hsound.captured i q (List.mem_of_getElem? hk)
    exact ⟨hlevel.saved hi hic, le_rfl, hi⟩
  | front k i hk =>
    exact ⟨hlevel.front (hsound.saved i (List.mem_of_getElem? hk)), le_rfl, le_rfl⟩
  | finalized k params hk hadv =>
    have hi : h.node.node.last_included_index ≤ params.last_included_index :=
      hkeep params (.ok ()) hk
    obtain ⟨hl, hc, hs⟩ := hlevel.installed hi hadv
    refine ⟨hl, hc, ?_⟩
    change h.node.node.last_included_index ≤ _
    rw [show (onto h.node _).node.last_included_index = _ from hs]
    exact hi

variable [DecidableEq α]

theorem Sound.step {a : HostAct α} (hsound : Sound h) (hkeep : KeepsOrder h a)
    (hs : hostStep cfg sm h a = some h') :
    Sound h' ∧ h.disk.last_included_index ≤ h'.disk.last_included_index := by
  obtain ⟨hlog, hcomp, -⟩ := hostStep_cases hs
  obtain ⟨hl, hc, hhor⟩ := hsound.log hkeep hlog
  refine ⟨⟨hl, ?_, ?_⟩, hhor⟩
  · intro i q hmem
    rcases hcomp _ hmem with hold | hno | hnew | ⟨i', hno, -⟩
    · exact (hsound.captured i q hold).trans hc
    · cases hno
    · obtain ⟨rfl, -⟩ := Compaction.Captured.inj hnew
      exact hsound.level.applied_le.trans hc
    · cases hno
  · intro i hmem
    rcases hcomp _ hmem with hold | hno | hno | ⟨i', hnew, hi⟩
    · exact (hsound.saved i hold).trans hhor
    · cases hno
    · cases hno
    · obtain rfl := Compaction.Saved.inj hnew
      exact hi.ge

theorem Sound.run (hsound : Sound h) (hrun : HostRun cfg sm KeepsOrder h h') :
    Sound h' ∧ h.disk.last_included_index ≤ h'.disk.last_included_index := by
  refine Run.invariant (I := fun h' => Sound h' ∧
    h.disk.last_included_index ≤ h'.disk.last_included_index) ?_ hrun ⟨hsound, le_rfl⟩
  rintro h₁ a h₂ ⟨hs₁, hle₁⟩ hkeep hstep
  obtain ⟨hs₂, hle₂⟩ := hs₁.step hkeep hstep
  exact ⟨hs₂, hle₁.trans hle₂⟩

/-! ## A host that runs -/

/-- Keeps the index and the value of the last write. -/
def register : SnapshotMachine Nat (Nat × Nat) where
  empty := (0, 0)
  apply _ index data := .ok (index, data)
  last_applied_index := Prod.fst
  install_snapshot _ index data := .ok (index, data)

theorem three_nodup : [1, 2, 3].Nodup := by decide

def firstOfThree : HostConfig := ⟨⟨[1, 2, 3], three_nodup, 1⟩, 1, 1⟩

def firstBoot : SnapshotHost Nat (Nat × Nat) :=
  let n := RaftNode.try_new_with_applied 1 SledStorage.new 0 0 10
  ⟨⟨.new ⟨n.transition (.Follower n.state), 0, 1⟩, .Idle, []⟩, (0, 0), 0, [], [], 0⟩

theorem firstBoot_fresh : Fresh firstOfThree register firstBoot := ⟨10, _, rfl, rfl⟩

/-- The leader of term 1 sends two entries and says that they are committed. -/
def twoEntries : HostAct Nat :=
  .Deliver (.AppendEntries 1 ⟨1, 2, 0, 0, [⟨1, 1, 70⟩, ⟨2, 1, 71⟩], 2⟩) 10

/-- Both entries are applied, and the next tick captures index 2. -/
def captureTwo : List (HostAct Nat) := twoEntries :: (List.replicate 8 .Apply ++ [.Tick 10])

/-- A snapshot up to index 5 is accepted, restored and finalised. -/
def installFive : List (HostAct Nat) :=
  [.InstallSnapshot ⟨2, 1, 5, 1, 74⟩ 10, .Restore 0, .Finalize 0]

def hostAfter (as : List (HostAct Nat)) : SnapshotHost Nat (Nat × Nat) :=
  (exec (hostStep firstOfThree register) firstBoot as).getD firstBoot

/-- In every run that writes no horizon below the stored one and cuts nothing that is
committed, the horizon never falls, horizon, commit index and last index stay in order,
and every index above the horizon has its entry. -/
theorem horizon_in_order {h₀ : SnapshotHost α S} (hf : Fresh cfg sm h₀)
    (h₁ : HostRun cfg sm KeepsOrder h₀ h) (h₂ : HostRun cfg sm KeepsOrder h h') :
    h.disk.last_included_index ≤ h'.disk.last_included_index ∧
    h'.disk.last_included_index ≤ h'.node.last_committed ∧
    h'.node.last_committed ≤ h'.disk.last_log_index ∧
    ∀ k, h'.disk.last_included_index < k → k ≤ h'.disk.last_log_index →
      h'.disk.read_entry k ≠ none := by
  obtain ⟨hs₁, -⟩ := (Sound.fresh hf).run h₁
  obtain ⟨hs₂, hle⟩ := hs₁.run h₂
  exact ⟨hle, hs₂.level.horizon_le, hs₂.level.commit_le, hs₂.level.covered⟩

theorem horizon_in_order_compacted :
    (hostAfter (captureTwo ++ [.SaveMetadata 0])).disk.last_included_index = 2 ∧
    2 ≤ (hostAfter (captureTwo ++ [.SaveMetadata 0, .TruncateFront 0])).disk.last_log_index := by
  have hfirst : KeepsOrder firstBoot twoEntries := by
    rintro - - e he
    cases he
  have hsave : KeepsOrder (hostAfter captureTwo) (.SaveMetadata 0) := by
    intro i q hk
    exact Nat.zero_le i
  have hcapture : HostRun firstOfThree register KeepsOrder firstBoot (hostAfter captureTwo) :=
    .head hfirst rfl (run_of_exec (List.replicate 8 .Apply ++ [.Tick 10])
      (by simp [KeepsOrder]) rfl)
  have hsaved : HostRun firstOfThree register KeepsOrder firstBoot
      (hostAfter (captureTwo ++ [.SaveMetadata 0])) := .tail hcapture hsave rfl
  have hfront : HostRun firstOfThree register KeepsOrder
      (hostAfter (captureTwo ++ [.SaveMetadata 0]))
      (hostAfter (captureTwo ++ [.SaveMetadata 0, .TruncateFront 0])) :=
    run_of_exec [.TruncateFront 0] (by simp [KeepsOrder]) rfl
  obtain ⟨-, hhor, hcommit, -⟩ := horizon_in_order firstBoot_fresh hsaved hfront
  exact ⟨rfl, hhor.trans hcommit⟩

/-- The compaction captured index 2, the snapshot moved the horizon to 5, and then the
compaction writes its target: the horizon falls, and the log ends below the commit index. -/
theorem compaction_overtaken :
    Fresh firstOfThree register firstBoot ∧
    HostRun firstOfThree register (fun _ _ => True) firstBoot
      (hostAfter (captureTwo ++ installFive)) ∧
    HostRun firstOfThree register (fun _ _ => True) (hostAfter (captureTwo ++ installFive))
      (hostAfter (captureTwo ++ installFive ++ [.SaveMetadata 0])) ∧
    (hostAfter (captureTwo ++ installFive)).disk.last_included_index = 5 ∧
    (hostAfter (captureTwo ++ installFive ++ [.SaveMetadata 0])).disk.last_included_index = 2 ∧
    (hostAfter (captureTwo ++ installFive ++ [.SaveMetadata 0])).node.last_committed = 5 ∧
    (hostAfter (captureTwo ++ installFive ++ [.SaveMetadata 0])).disk.last_log_index = 2 :=
  ⟨firstBoot_fresh, run_of_exec (captureTwo ++ installFive) (fun _ _ _ => trivial) rfl,
    run_of_exec [.SaveMetadata 0] (fun _ _ _ => trivial) rfl, rfl, rfl, rfl, rfl⟩

end raft_engine.orchestration
