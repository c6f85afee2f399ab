-- The coordinates a candidate is judged by: the last index is the larger of the
-- last entry and the horizon, the last term is that of the last entry whenever
-- there is one. The two belong together as long as the last entry at or below
-- the horizon has the horizon's term.
import LactoSensus.Snapshots

open common.types
open machine
open ordmap
open raft_engine.storage
open raft_engine.node
open raft_engine.engine
open raft_engine.consensus
open raft_engine.cluster

namespace raft_engine.orchestration

variable {α S R : Type} {cfg : HostConfig} {sm : SnapshotMachine α S} {h h' : SnapshotHost α S}
  {ln ln' : LogicalNode α} {s : SledStorage α}

/-! ## The last entry up to an index -/

/-- The entry `e` at `k` is the last one at or below `i`. -/
structure LastUpTo (s : SledStorage α) (i k : Nat) (e : LogEntry α) : Prop where
  found : s.log.get? k = some e
  le : k ≤ i
  last : ∀ j, s.log.get? j ≠ none → j ≤ i → j ≤ k

/-- A horizon at `i` with term `q` fits the log: the last entry that stays below it
has its term. -/
def Fits (s : SledStorage α) (i q : Nat) : Prop := ∀ k e, LastUpTo s i k e → e.term = q

structure Truthful (s : SledStorage α) : Prop where
  entries : ∀ k e, s.log.get? k = some e → 1 ≤ k ∧ 0 < e.term
  unset : s.last_included_index = 0 → s.last_included_term = 0
  fits : Fits s s.last_included_index s.last_included_term

/-- The last term is the term at the last index. -/
theorem Truthful.last_log_term {n : RaftNode α R} (ht : Truthful n.disk) :
    n.last_log_term = n.get_term_at n.last_log_index := by
  have hhor : n.last_included_index = n.disk.last_included_index := rfl
  have hinc : n.last_included_term = n.disk.last_included_term := rfl
  change n.disk.last_log_term = n.get_term_at n.disk.last_log_index
  unfold SledStorage.last_log_term SledStorage.last_log_index RaftNode.get_term_at
    SledStorage.read_entry
  rw [hhor, hinc]
  cases hlast : n.disk.log.last? with
  | none =>
    by_cases hzero : n.disk.last_included_index = 0
    · simp [hzero, ht.unset hzero]
    · simp [hzero]
  | some p =>
    obtain ⟨k, e⟩ := p
    obtain ⟨hget, hmax⟩ := (n.disk.log.last?_eq_some_iff k e).mp hlast
    obtain ⟨hk, hterm⟩ := ht.entries k e hget
    simp only [Option.map_some, Option.getD_some, hterm, if_true]
    by_cases hle : k ≤ n.disk.last_included_index
    · -- the last entry lies under the horizon
      rw [Nat.max_eq_right hle, if_neg (by omega), if_pos rfl]
      exact ht.fits k e ⟨hget, hle, fun j hj _ => hmax j hj⟩
    · rw [Nat.max_eq_left (by omega), if_neg (by omega), if_neg (by omega), hget]
      rfl

/-! ## What keeps it -/

theorem Truthful.congr {s' : SledStorage α} (ht : Truthful s) (hlog : s'.log = s.log)
    (hi : s'.key_snapshot_index = s.key_snapshot_index)
    (hq : s'.key_snapshot_term = s.key_snapshot_term) : Truthful s' := by
  have hhor : s'.last_included_index = s.last_included_index := by
    unfold SledStorage.last_included_index
    rw [hi]
  have hinc : s'.last_included_term = s.last_included_term := by
    unfold SledStorage.last_included_term
    rw [hq]
  refine ⟨?_, ?_, ?_⟩
  · rw [hlog]
    exact ht.entries
  · rw [hhor, hinc]
    exact ht.unset
  · rw [hhor, hinc]
    rintro k e ⟨hf, hle, hlast⟩
    rw [hlog] at hf hlast
    exact ht.fits k e ⟨hf, hle, hlast⟩

/-- What happens above the horizon does not matter to the entry below it. -/
theorem Truthful.above {s' : SledStorage α} (ht : Truthful s)
    (hentries : ∀ k e, s'.log.get? k = some e → 1 ≤ k ∧ 0 < e.term)
    (hbelow : ∀ k, k ≤ s.last_included_index → s'.log.get? k = s.log.get? k)
    (hi : s'.last_included_index = s.last_included_index)
    (hq : s'.last_included_term = s.last_included_term) : Truthful s' := by
  refine ⟨hentries, by rw [hi, hq]; exact ht.unset, ?_⟩
  rw [hi, hq]
  rintro k e ⟨hf, hle, hlast⟩
  rw [hbelow k hle] at hf
  refine ht.fits k e ⟨hf, hle, ?_⟩
  intro j hj hjle
  rw [← hbelow j hjle] at hj
  exact hlast j hj hjle

theorem Truthful.append (ht : Truthful s) {es : List (LogEntry α)}
    (hes : Consecutive s.last_log_index es) (hpos : ∀ e ∈ es, 0 < e.term) :
    Truthful (s.append_entries es) := by
  have hhor := horizon_le_last s
  have hnew : ∀ k e, (s.append_entries es).log.get? k = some e →
      s.log.get? k = some e ∨ s.last_log_index < k ∧ 0 < e.term := by
    intro k e hk
    rcases OrdMap.get?_insertAll_cases _ _ hk with hold | hmem
    · exact .inl hold
    · obtain ⟨x, hx, heq⟩ := List.mem_map.mp hmem
      obtain ⟨rfl, rfl⟩ := Prod.mk.inj heq
      have := (hes.mem_index x.index).mp (List.mem_map_of_mem hx)
      exact .inr ⟨this.1, hpos x hx⟩
  refine ht.above ?_ ?_ rfl rfl
  · intro k e hk
    rcases hnew k e hk with hold | ⟨hlt, hterm⟩
    · exact ht.entries k e hold
    · exact ⟨by omega, hterm⟩
  · intro k hle
    cases hk : s.log.get? k with
    | some e =>
      cases hk' : (s.append_entries es).log.get? k with
      | none =>
        have := (append_entries_get? s es k).mpr (.inl (by rw [hk]; simp))
        exact absurd hk' this
      | some e' =>
        rcases hnew k e' hk' with hold | ⟨hlt, -⟩
        · rw [← hold, hk]
        · omega
    | none =>
      by_contra hne
      rcases (append_entries_get? s es k).mp hne with hold | hmem
      · exact hold hk
      · have := (hes.mem_index k).mp hmem
        omega

theorem Truthful.truncate (ht : Truthful s) {c : Nat} (hc : s.last_included_index < c) :
    Truthful (s.truncate_log c) := by
  refine ht.above ?_ ?_ (truncate_log_horizon s c) ?_
  · intro k e hk
    rw [truncate_log_get?] at hk
    split at hk
    · cases hk
    · exact ht.entries k e hk
  · intro k hle
    rw [truncate_log_get?, if_neg (by omega)]
  · unfold SledStorage.truncate_log
    dsimp only
    split <;> rfl

theorem Truthful.front (ht : Truthful s) (i : Nat) : Truthful (s.truncate_log_front i) := by
  refine ⟨?_, ht.unset, ?_⟩
  · intro k e hk
    rw [truncate_log_front_get?] at hk
    split at hk
    · cases hk
    · exact ht.entries k e hk
  · rintro k e ⟨hf, hle, hlast⟩
    rw [truncate_log_front_get?] at hf
    split at hf
    · cases hf
    rename_i hk
    refine ht.fits k e ⟨hf, hle, ?_⟩
    intro j hj hjle
    by_cases hji : 1 ≤ j ∧ j ≤ i
    · -- what is cut away lies below what stays
      have := (ht.entries k e hf).1
      omega
    · refine hlast j ?_ hjle
      rw [truncate_log_front_get?, if_neg hji]
      exact hj

theorem Truthful.metadata (ht : Truthful s) {i q : Nat} (hfits : Fits s i q)
    (hzero : i = 0 → q = 0) : Truthful (s.save_snapshot_metadata i q) := by
  refine ⟨ht.entries, hzero, ?_⟩
  rintro k e ⟨hf, hle, hlast⟩
  exact hfits k e ⟨hf, hle, hlast⟩

theorem Truthful.persist {n : RaftNode α Follower} (ht : Truthful n.disk)
    {es : List (LogEntry α)} (hes : Consecutive n.last_log_index es)
    (hpos : ∀ e ∈ es, 0 < e.term) (leader_commit : Nat) :
    Truthful (n.persistAppend es leader_commit).disk := by
  obtain ⟨hlog, hi, hq, -⟩ := n.persistAppend_log hes leader_commit
  exact (ht.append hes hpos).congr hlog hi hq

/-- A reconciliation that cuts above the horizon and brings entries of positive terms. -/
theorem Truthful.merged {n n' : RaftNode α Follower} (ht : Truthful n.disk)
    {entries : List (LogEntry α)} {leader_commit : Nat}
    (hcut : ∀ e, entries.find? n.conflicts = some e → n.last_included_index < e.index)
    (hpos : ∀ e ∈ entries, 0 < e.term) (hm : Merged n entries leader_commit n') :
    Truthful n'.disk := by
  cases hm with
  | kept => exact ht
  | cut e he => exact ht.truncate (hcut e he)
  | appended es hes hsub => exact ht.persist hes (fun e he => hpos e (hsub e he)) leader_commit
  | replaced e he es hes hsub =>
    have hcutted : Truthful (n.truncate_log e.index).disk := ht.truncate (hcut e he)
    exact hcutted.persist hes (fun e he => hpos e (hsub e he)) leader_commit

/-! ## Every sequence of steps -/

/-- What a step must not do: put a horizon over a last entry of another term, cut the
log at or below the horizon, or bring an entry of term zero. -/
def KeepsTerms (h : SnapshotHost α S) : HostAct α → Prop
  | .SaveMetadata k =>
    ∀ i q, h.compactions[k]? = some (.Captured i q) → Fits h.disk i q
  | .Finalize k =>
    ∀ params res, h.installations[k]? = some (.Restored params res) →
      Fits h.disk params.last_included_index params.last_included_term
  | .Deliver (.AppendEntries _ req) _ =>
    CutsAbove h.disk.last_included_index h.node req ∧ ∀ e ∈ req.entries, 0 < e.term
  | _ => True

/-- The log is truthful, with what the tasks under way rely on. -/
structure Candid (h : SnapshotHost α S) : Prop where
  truthful : Truthful h.disk
  seated : Seated h.node
  captured : ∀ i q, .Captured i q ∈ h.compactions → i = 0 → q = 0
  installs : ∀ x ∈ h.installations, 0 < x.params.last_included_index

theorem Candid.fresh (hf : Fresh cfg sm h) : Candid h := by
  obtain ⟨timeout, ln, hnew, rfl⟩ := hf
  unfold LogicalNode.try_new at hnew
  split at hnew
  · cases hnew
  obtain rfl := Except.ok.inj hnew
  refine ⟨⟨?_, fun _ => rfl, ?_⟩, ?_, by simp, by simp⟩
  · intro k e hk
    cases hk
  · rintro k e ⟨hf, -, -⟩
    cases hf
  · intro hrole
    rcases hrole with hrole | hrole <;> cases hrole

theorem seated_of_leader {l : Leader} (hs : Seated ln) (hl : ln.node.state = .Leader l) :
    0 < ln.current_term := by
  apply hs
  right
  simp [LogicalNode.node_role, hl, RoleState.node_role]

/-- A change of the log that leaves the role and the term. -/
theorem seated_onto {n : RaftNode α RoleState} (hs : Seated ln) (hstate : n.state = ln.node.state)
    (hterm : n.current_term = ln.node.current_term) : Seated (onto ln n) := by
  intro hrole
  change 0 < n.current_term
  rw [hterm]
  apply hs
  unfold LogicalNode.node_role onto at hrole
  rw [show n.state = ln.node.state from hstate] at hrole
  exact hrole

theorem Candid.log {a : HostAct α} (hc : Candid h) (hkeep : KeepsTerms h a)
    (hlog : LogStep h a ln') : Truthful ln'.node.disk ∧ Seated ln' := by
  have ht := hc.truthful
  have hs := hc.seated
  cases hlog with
  | quiet hq => exact ⟨ht.congr hq.log hq.snapshot_index hq.snapshot_term, hq.seated hs⟩
  | proposed data l hl =>
    have hes : Consecutive h.disk.last_log_index
        [⟨h.node.last_log_index + 1, h.node.current_term, data⟩] := ⟨rfl, trivial⟩
    refine ⟨ht.append hes ?_, seated_onto hs rfl rfl⟩
    intro e he
    obtain rfl := List.mem_singleton.mp he
    exact seated_of_leader hs hl
  | @merged dst req timeout ln₁ _ f n hq hst hcm hterm hv hm hln =>
    obtain ⟨hcut, hpos⟩ := hkeep
    have ht₁ : Truthful (ln₁.node.transition f).disk :=
      ht.congr hq.log hq.snapshot_index hq.snapshot_term
    have hcut' : ∀ e, req.entries.find? (ln₁.node.transition f).conflicts = some e →
        (ln₁.node.transition f).last_included_index < e.index := by
      intro e he
      have hfind : req.entries.find? h.node.node.conflicts = some e := by
        rw [← conflicts_quiet hq]
        exact he
      change ln₁.node.disk.last_included_index < e.index
      rw [hq.horizon]
      refine hcut hterm ?_ e hfind
      rw [← verify_quiet hq _ f]
      exact hv
    have ht₂ : Truthful (ln₁.withRole n .Follower).node.disk := ht₁.merged hcut' hpos hm
    have hs₂ : Seated (ln₁.withRole n .Follower) := by
      intro hrole
      rcases hrole with hrole | hrole <;> cases hrole
    exact ⟨ht₂.congr hln.log hln.snapshot_index hln.snapshot_term, hln.seated hs₂⟩
  | applied i hadv =>
    exact ⟨ht.congr hadv.log hadv.snapshot_index hadv.snapshot_term,
      seated_onto hs hadv.state hadv.term⟩
  | saved k i q hk =>
    exact ⟨ht.metadata (hkeep i q hk) (hc.captured i q (List.mem_of_getElem? hk)),
      seated_onto hs rfl rfl⟩
  | front k i hk => exact ⟨ht.front i, seated_onto hs rfl rfl⟩
  | finalized k params hk hadv =>
    have hpos := hc.installs _ (List.mem_of_getElem? hk)
    have hzero : params.last_included_index = 0 → params.last_included_term = 0 := by
      intro h0
      have : 0 < params.last_included_index := hpos
      omega
    have ht₁ := ht.metadata (hkeep params (.ok ()) hk) hzero
    exact ⟨ht₁.congr hadv.log hadv.snapshot_index hadv.snapshot_term,
      seated_onto hs hadv.state hadv.term⟩

variable [DecidableEq α]

theorem Candid.step {a : HostAct α} (hc : Candid h) (hkeep : KeepsTerms h a)
    (hs : hostStep cfg sm h a = some h') : Candid h' := by
  obtain ⟨hlog, hcomp, hinst⟩ := hostStep_cases hs
  obtain ⟨ht, hseat⟩ := hc.log hkeep hlog
  refine ⟨ht, hseat, ?_, ?_⟩
  · intro i q hmem hzero
    rcases hcomp _ hmem with hold | hno | hnew | ⟨i', hno, -⟩
    · exact hc.captured i q hold hzero
    · cases hno
    · obtain ⟨rfl, rfl⟩ := Compaction.Captured.inj hnew
      rw [hzero]
      rfl
    · cases hno
  · intro x hx
    rcases hinst x hx with ⟨y, hy, heq⟩ | hpos
    · rw [← heq]
      exact hc.installs y hy
    · exact hpos

/-- In every run of the host that meets the condition, the last term is the term of the
log at the last index; where the snapshot covers that index, it is the snapshot's term. -/
theorem last_term_truthful {h₀ : SnapshotHost α S} (hf : Fresh cfg sm h₀)
    (hrun : HostRun cfg sm KeepsTerms h₀ h) :
    h.node.last_log_term = h.node.get_term_at h.node.last_log_index ∧
    (h.node.last_log_index ≤ h.disk.last_included_index →
      h.node.last_log_term = h.disk.last_included_term) := by
  have hc : Candid h := Run.invariant (fun _ _ _ hc hk hs => hc.step hk hs) hrun (.fresh hf)
  have hterm : h.node.last_log_term = h.node.get_term_at h.node.last_log_index :=
    hc.truthful.last_log_term
  refine ⟨hterm, ?_⟩
  intro hle
  have heq : h.node.last_log_index = h.disk.last_included_index :=
    le_antisymm hle (horizon_le_last h.disk)
  rw [hterm, heq]
  change h.node.node.get_term_at h.node.node.last_included_index = _
  unfold RaftNode.get_term_at
  split
  · rename_i hzero
    exact (hc.truthful.unset hzero).symm
  · rw [if_pos rfl]
    rfl

/-- One entry of term 1 arrives. -/
def oneEntry : HostAct Nat :=
  .Deliver (.AppendEntries 1 ⟨1, 2, 0, 0, [⟨1, 1, 70⟩], 0⟩) 10

/-- A snapshot up to index 5 of the given term is accepted, restored and finalised. -/
def installOf (term : Nat) : List (HostAct Nat) :=
  [.InstallSnapshot ⟨2, 3, 5, term, 74⟩ 10, .Restore 0, .Finalize 0]

theorem last_term_truthful_installed :
    (hostAfter (oneEntry :: installOf 1)).node.last_log_index = 5 ∧
    (hostAfter (oneEntry :: installOf 1)).node.last_log_term =
      (hostAfter (oneEntry :: installOf 1)).node.get_term_at 5 := by
  have hfirst : KeepsTerms firstBoot oneEntry := by
    refine ⟨?_, by simp⟩
    rintro - - e he
    cases he
  have hrestore : HostRun firstOfThree register KeepsTerms firstBoot
      (hostAfter [oneEntry, .InstallSnapshot ⟨2, 3, 5, 1, 74⟩ 10, .Restore 0]) :=
    .head hfirst rfl (run_of_exec [.InstallSnapshot ⟨2, 3, 5, 1, 74⟩ 10, .Restore 0]
      (by simp [KeepsTerms]) rfl)
  have hfits : KeepsTerms
      (hostAfter [oneEntry, .InstallSnapshot ⟨2, 3, 5, 1, 74⟩ 10, .Restore 0])
      (.Finalize 0) := by
    intro params res hk
    obtain ⟨rfl, -⟩ := Installation.Restored.inj (Option.some.inj hk)
    rintro k e ⟨hf, -, -⟩
    change (OrdMap.empty.insert 1 (⟨1, 1, 70⟩ : LogEntry Nat)).get? k = some e at hf
    rw [OrdMap.get?_insert] at hf
    split at hf
    · obtain rfl := Option.some.inj hf
      rfl
    · cases hf
  have hrun : HostRun firstOfThree register KeepsTerms firstBoot
      (hostAfter (oneEntry :: installOf 1)) := .tail hrestore hfits rfl
  exact ⟨rfl, (last_term_truthful firstBoot_fresh hrun).1⟩

/-- The snapshot has term 3, the entry that stays below it has term 1: the node reports
index 5 with term 1, and its history has term 3 there. -/
theorem stale_entry_names_term :
    Fresh firstOfThree register firstBoot ∧
    HostRun firstOfThree register (fun _ _ => True) firstBoot
      (hostAfter (oneEntry :: installOf 3)) ∧
    (hostAfter (oneEntry :: installOf 3)).node.last_log_index = 5 ∧
    (hostAfter (oneEntry :: installOf 3)).node.last_log_term = 1 ∧
    (hostAfter (oneEntry :: installOf 3)).node.get_term_at 5 = 3 :=
  ⟨firstBoot_fresh, run_of_exec (oneEntry :: installOf 3) (fun _ _ _ => trivial) rfl,
    rfl, rfl, rfl⟩

end raft_engine.orchestration
