-- Crash recovery of a server that takes no snapshots from others: the log, the
-- commit index, the horizon and the store are written at different moments by
-- different tasks, and a crash between any two of the writes leaves a pair of
-- databases from which the next start rebuilds what was committed.
import LactoSensus.Recovery
import LactoSensus.InstallCrash
import LactoSensus.Snapshots

open common.types
open common.proto
open machine
open journal
open ordmap
open raft_engine.storage
open raft_engine.node
open raft_engine.engine
open raft_engine.consensus
open raft_engine.shell
open raft_engine.cluster
open raft_engine.orchestration
open lacto_fsm

namespace raft_engine.recovery

variable {α : Type}

/-! ## The server -/

inductive ServerState (α : Type) where
  | Up (host : SnapshotHost α LactoStore)
  | Down (db : LactoStore) (disk : SledStorage α)

structure Server (α : Type) where
  state : ServerState α
  /-- The data of every entry that was committed, from the first one on. -/
  ledger : List α

def ServerState.db : ServerState α → LactoStore
  | .Up h => h.fsm
  | .Down db _ => db

def ServerState.disk : ServerState α → SledStorage α
  | .Up h => h.disk
  | .Down _ disk => disk

/-- Both databases are empty, and the server has not been started yet. -/
def Server.new : Server α := ⟨.Down .new .new, []⟩

/-- The entries that the commit index has passed since the ledger was last written. -/
def record (ledger : List α) (disk : SledStorage α) : List α :=
  ledger ++ (List.range' (ledger.length + 1) (disk.last_committed - ledger.length)).filterMap
    fun k => (disk.read_entry k).map LogEntry.data

def settled (h : SnapshotHost α LactoStore) : SnapshotHost α LactoStore :=
  { h with process := h.process.settle }

/-- What a crash inside a step can find in the two databases. No step writes to both. -/
def crashPoints (h h' : SnapshotHost α LactoStore) : List (LactoStore × SledStorage α) :=
  (h'.fsm, h'.disk) :: h'.node.node.log_store.past.map fun disk => (h.fsm, disk)

inductive ServerAct (α : Type) where
  | Host (a : HostAct α)
  /-- A crash inside a step of the host. -/
  | CrashIn (a : HostAct α) (point : Nat)
  /-- A crash between two steps. -/
  | Crash
  | Boot (timeout : Nat)
  /-- A crash of the start, when it has replayed that many entries. -/
  | CrashInBoot (replayed : Nat)

def serverStep [DecidableEq α] (cfg : HostConfig) (c : SnapshotCodec α) (s : Server α) :
    ServerAct α → Option (Server α)
  | .Host a =>
    match s.state with
    | .Down _ _ => none
    | .Up h =>
      (hostStep cfg (lactoSnapshots c) h a).map fun h' =>
        ⟨.Up (settled h'), record s.ledger h'.disk⟩
  | .CrashIn a point =>
    match s.state with
    | .Down _ _ => none
    | .Up h =>
      (hostStep cfg (lactoSnapshots c) h a).bind fun h' =>
        (crashPoints h h')[point]?.map fun (db, disk) =>
          ⟨.Down db disk, record s.ledger disk⟩
  | .Crash => some ⟨.Down s.state.db s.state.disk, s.ledger⟩
  | .Boot timeout =>
    match s.state with
    | .Up _ => none
    | .Down db disk =>
      (reboot c.toCodec cfg.node_id cfg.cluster.heartbeat_interval timeout db disk).map
        fun (fsm, ln) => ⟨.Up ⟨⟨.new ln, .Idle, []⟩, fsm, 0, [], [], 0⟩, s.ledger⟩
  | .CrashInBoot replayed =>
    match s.state with
    | .Up _ => none
    | .Down db disk =>
      let fsm := (reopen db).now
      let missing := disk.last_committed - appliedOf fsm
      some ⟨.Down (replay_committed_entries (lactoMachine c.toCodec) disk (min replayed missing)
        (appliedOf fsm) fsm).1 disk, s.ledger⟩

/-- No snapshot is offered, and no request of a leader is in conflict with what is
committed here. -/
def Permitted (h : SnapshotHost α LactoStore) : HostAct α → Prop
  | .InstallSnapshot _ _ => False
  | .Deliver (.AppendEntries _ req) _ => CutsAbove h.node.last_committed h.node req
  | _ => True

def PermittedAct (s : Server α) : ServerAct α → Prop
  | .Host a => ∀ h, s.state = .Up h → Permitted h a
  | .CrashIn a _ => ∀ h, s.state = .Up h → Permitted h a
  | _ => True

/-! ## The two databases -/

/-- The store is the fold of a beginning of the ledger, and the log has the rest of it. -/
structure Backing (c : Codec α) (ledger : List α) (fsm : LactoStore) (d : SledStorage α) :
    Prop where
  horizon_le : d.last_included_index ≤ appliedOf fsm
  applied_le : appliedOf fsm ≤ ledger.length
  ledger_le : ledger.length ≤ d.last_committed
  committed_le : d.last_committed ≤ d.last_log_index
  covered : Covered d
  agrees : ∀ k e, 0 < k → k ≤ ledger.length → d.read_entry k = some e →
    ledger[k - 1]? = some e.data
  folded : LactoStore.new.applyLog c 0 (ledger.take (appliedOf fsm)) = (fsm, .ok ())

variable {c : Codec α} {ledger : List α} {fsm fsm' : LactoStore} {d d' : SledStorage α}

theorem Backing.new (c : Codec α) :
    Backing c [] LactoStore.new (SledStorage.new : SledStorage α) := by
  refine ⟨le_rfl, le_rfl, le_rfl, le_rfl, ?_, ?_, rfl⟩
  · intro k hk hkl
    have hk' : 0 < k := hk
    have hkl' : k ≤ 0 := hkl
    omega
  · intro k e hk hkl
    simp at hkl
    omega

/-- What the store needs of the log: nothing below the ledger's end has changed. -/
theorem Backing.changed (hb : Backing c ledger fsm d)
    (hhor : d'.last_included_index ≤ appliedOf fsm)
    (hcommit : ledger.length ≤ d'.last_committed)
    (hlast : d'.last_committed ≤ d'.last_log_index) (hcov : Covered d')
    (hsame : ∀ k e, k ≤ ledger.length → d'.read_entry k = some e → d.read_entry k = some e) :
    Backing c ledger fsm d' :=
  ⟨hhor, hb.applied_le, hcommit, hlast, hcov,
    fun k e hk hkl he => hb.agrees k e hk hkl (hsame k e hkl he), hb.folded⟩

theorem Backing.quiet (hb : Backing c ledger fsm d) (hq : QuietDisk d d') :
    Backing c ledger fsm d' := by
  have hhor : d'.last_included_index = d.last_included_index := by
    unfold SledStorage.last_included_index
    rw [hq.snapshot_index]
  have hlast : d'.last_log_index = d.last_log_index := by
    unfold SledStorage.last_log_index
    rw [hq.log, hhor]
  have hcl := hb.committed_le
  have hll := hb.ledger_le
  have hc := hq.committed
  refine hb.changed (hhor.trans_le hb.horizon_le) (by omega) (by omega) ?_ ?_
  · intro k hk hkl
    rw [hhor] at hk
    rw [hlast] at hkl
    rw [hq.log]
    exact hb.covered k hk hkl
  · intro k e _ he
    unfold SledStorage.read_entry at he ⊢
    rw [← hq.log]
    exact he

/-- A cut above the commit index. -/
theorem Backing.truncate (hb : Backing c ledger fsm d) {i : Nat} (hi : d.last_committed < i)
    (hil : i ≤ d.last_log_index) : Backing c ledger fsm (d.truncate_log i) := by
  have hhor := hb.horizon_le
  have hal := hb.applied_le
  have hll := hb.ledger_le
  have hcommit : (d.truncate_log i).last_committed = d.last_committed := by
    unfold SledStorage.truncate_log
    dsimp only
    split <;> rfl
  have hbelow : d.last_included_index < i := by omega
  refine hb.changed ?_ ?_ ?_ (hb.covered.truncate hbelow hil) ?_
  · rw [truncate_log_horizon]
    exact hhor
  · rw [hcommit]
    exact hll
  · rw [hcommit, hb.covered.truncate_last hbelow hil]
    omega
  · intro k e hk he
    unfold SledStorage.read_entry at he ⊢
    rw [truncate_log_get?, if_neg (by omega)] at he
    exact he

/-- Entries past the last one. -/
theorem Backing.append (hb : Backing c ledger fsm d) {es : List (LogEntry α)}
    (hes : Consecutive d.last_log_index es) : Backing c ledger fsm (d.append_entries es) := by
  have hll := hb.ledger_le
  have hcl := hb.committed_le
  refine hb.changed hb.horizon_le hll ?_ (hb.covered.append hes) ?_
  · rw [append_last hes]
    exact hcl.trans (Nat.le_add_right _ _)
  · intro k e hk he
    unfold SledStorage.read_entry SledStorage.append_entries at he
    rcases OrdMap.get?_insertAll_cases _ _ he with hold | hnew
    · exact hold
    · obtain ⟨e', he', heq⟩ := List.mem_map.mp hnew
      obtain ⟨rfl, rfl⟩ := Prod.mk.inj heq
      have := (hes.mem_index e'.index).mp (List.mem_map_of_mem he')
      omega

/-- A higher commit index within the log. -/
theorem Backing.commit (hb : Backing c ledger fsm d) {i : Nat} (hi : d.last_committed ≤ i)
    (hil : i ≤ d.last_log_index) : Backing c ledger fsm (d.save_last_committed i) :=
  hb.changed hb.horizon_le (hb.ledger_le.trans hi) hil hb.covered fun _ _ _ he => he

/-- A compaction writes a horizon that the store has reached. -/
theorem Backing.metadata (hb : Backing c ledger fsm d) {i q : Nat}
    (hi : d.last_included_index ≤ i) (hia : i ≤ appliedOf fsm) :
    Backing c ledger fsm (d.save_snapshot_metadata i q) := by
  refine hb.changed hia hb.ledger_le ?_ (hb.covered.metadata hi) fun _ _ _ he => he
  rw [metadata_last hi]
  exact hb.committed_le.trans (Nat.le_max_left _ _)

/-- A cut of the front up to the horizon. -/
theorem Backing.front (hb : Backing c ledger fsm d) {i : Nat} (hi : i ≤ d.last_included_index) :
    Backing c ledger fsm (d.truncate_log_front i) := by
  refine hb.changed hb.horizon_le hb.ledger_le ?_ (hb.covered.front hi) ?_
  · rw [front_last hi]
    exact hb.committed_le
  · intro k e _ he
    unfold SledStorage.read_entry at he ⊢
    rw [truncate_log_front_get?] at he
    split at he
    · cases he
    · exact he

/-! ## The store -/

/-- The store that is found has no tombstone and was not poisoned. -/
theorem Backing.reopened (hb : Backing c ledger fsm d) : (reopen fsm).now = fsm := by
  obtain ⟨-, hflag, hpoison⟩ := applyLog_moves hb.folded rfl
  exact reopen_clean hflag hpoison

/-- The next entry of the ledger. -/
theorem Backing.applied (hb : Backing c ledger fsm d) {index : Nat} {data : α}
    (hpos : 0 < index) (hdata : ledger[index - 1]? = some data)
    (happly : fsm.apply c index data = (fsm', .ok ())) : Backing c ledger fsm' d := by
  obtain ⟨hindex, happlied, -⟩ := apply_moves happly
  have hlt : index - 1 < ledger.length := (List.getElem?_eq_some_iff.mp hdata).1
  have hhor := hb.horizon_le
  refine ⟨by omega, by omega, hb.ledger_le, hb.committed_le, hb.covered, hb.agrees, ?_⟩
  have htake : ledger.take (appliedOf fsm') = ledger.take (appliedOf fsm) ++ [data] := by
    rw [happlied, hindex, List.take_add_one]
    rw [show appliedOf fsm = index - 1 by omega, hdata]
    rfl
  have hlen : (ledger.take (appliedOf fsm)).length = appliedOf fsm :=
    List.length_take_of_le hb.applied_le
  rw [htake, applyLog_append, hb.folded]
  dsimp only
  rw [Nat.zero_add, hlen]
  unfold LactoStore.applyLog
  rw [← hindex, happly]
  rfl

/-! ## The ledger -/

theorem record_extends (ledger : List α) (d : SledStorage α) : ledger <+: record ledger d :=
  List.prefix_append _ _

/-- The ledger is brought up to the commit index, from entries that are still there. -/
theorem filterMap_range {β : Type} (f : Nat → Option β) (a n : Nat)
    (hf : ∀ k, a ≤ k → k < a + n → f k ≠ none) (i : Nat) (hi : i < n) :
    ((List.range' a n).filterMap f)[i]? = f (a + i) := by
  induction n generalizing a i with
  | zero => omega
  | succ n ih =>
    rw [List.range'_succ, List.filterMap_cons]
    cases hfa : f a with
    | none => exact absurd hfa (hf a le_rfl (by omega))
    | some b =>
      cases i with
      | zero => simp [hfa]
      | succ i =>
        dsimp only
        rw [List.getElem?_cons_succ, ih (a + 1) (fun k hk hk' => hf k (by omega) (by omega)) i
          (by omega)]
        congr 1
        omega

theorem filterMap_range_length {β : Type} (f : Nat → Option β) (a n : Nat)
    (hf : ∀ k, a ≤ k → k < a + n → f k ≠ none) :
    ((List.range' a n).filterMap f).length = n := by
  induction n generalizing a with
  | zero => rfl
  | succ n ih =>
    rw [List.range'_succ, List.filterMap_cons]
    cases hfa : f a with
    | none => exact absurd hfa (hf a le_rfl (by omega))
    | some b =>
      rw [List.length_cons, ih (a + 1) fun k hk hk' => hf k (by omega) (by omega)]

theorem Backing.record (hb : Backing c ledger fsm d) :
    Backing c (record ledger d) fsm d ∧ (record ledger d).length = d.last_committed := by
  have hhor := hb.horizon_le
  have hal := hb.applied_le
  have hll := hb.ledger_le
  have hcl := hb.committed_le
  have hthere : ∀ k, ledger.length + 1 ≤ k →
      k < ledger.length + 1 + (d.last_committed - ledger.length) →
      (d.read_entry k).map LogEntry.data ≠ none := by
    intro k hk hkl hnone
    exact hb.covered k (by omega) (by omega) (Option.map_eq_none_iff.mp hnone)
  have hlen : (recovery.record ledger d).length = d.last_committed := by
    unfold recovery.record
    rw [List.length_append, filterMap_range_length _ _ _ hthere]
    omega
  refine ⟨⟨hhor, by omega, hlen.le, hcl, hb.covered, ?_, ?_⟩, hlen⟩
  · intro k e hk hkl he
    by_cases hold : k ≤ ledger.length
    · rw [List.prefix_iff_getElem?.mp (record_extends ledger d) (k - 1) (by omega)]
      have := hb.agrees k e hk hold he
      rw [List.getElem?_eq_some_iff] at this
      exact congrArg some this.2
    · unfold recovery.record
      rw [List.getElem?_append_right (by omega),
        filterMap_range _ _ _ hthere _ (by omega)]
      rw [show ledger.length + 1 + (k - 1 - ledger.length) = k by omega, he]
      rfl
  · have hpre : (recovery.record ledger d).take (appliedOf fsm) = ledger.take (appliedOf fsm) := by
      unfold recovery.record
      exact List.take_append_of_le_length hal
    rw [hpre]
    exact hb.folded

/-! ## The running host -/

/-- What the applier holds is of the ledger, and what it has applied is in the store. -/
def ApplierFits (ledger : List α) (fsm : LactoStore) : Applier α → Prop
  | .Idle => True
  | .Looping _ committed => committed ≤ ledger.length
  | .Fetched next_idx data => 0 < next_idx ∧ ledger[next_idx - 1]? = some data
  | .Applied next_idx => appliedOf fsm = next_idx

structure Running (c : Codec α) (ledger : List α) (h : SnapshotHost α LactoStore) : Prop where
  backing : Backing c ledger h.fsm h.disk
  cached : h.node.last_committed = h.disk.last_committed
  horizon_le : h.disk.last_included_index ≤ h.node.last_applied
  applied_le : h.node.last_applied ≤ appliedOf h.fsm
  applier : ApplierFits ledger h.fsm h.process.applier
  captured : ∀ i q, .Captured i q ∈ h.compactions →
    h.disk.last_included_index ≤ i ∧ i ≤ h.node.last_applied
  saved : ∀ i, .Saved i ∈ h.compactions → i ≤ h.disk.last_included_index
  /-- One compaction at a time: the depth counts it. -/
  alone : h.compactions.length ≤ 1
  frozen : h.inProgress ≤ h.fsm_freeze_depth
  installations : h.installations = []

theorem ApplierFits.extend {ledger' : List α} (hpre : ledger <+: ledger') {a : Applier α}
    (ha : ApplierFits ledger fsm a) : ApplierFits ledger' fsm a := by
  cases a with
  | Idle => exact ha
  | Looping applied committed => exact ha.trans hpre.length_le
  | Fetched next_idx data =>
    refine ⟨ha.1, ?_⟩
    obtain ⟨rest, rfl⟩ := hpre
    rw [List.getElem?_append_left (List.getElem?_eq_some_iff.mp ha.2).1]
    exact ha.2
  | Applied next_idx => exact ha

variable {h h' : SnapshotHost α LactoStore} {a : HostAct α} {ln ln' : LogicalNode α}

/-- The writes of a reconciliation that cuts above the commit index. -/
theorem Backing.persist {R : Journal (SledStorage α)} {n : RaftNode α node.Follower}
    (hb : Since R (Backing c ledger fsm) n.log_store)
    (hcached : n.last_committed = n.disk.last_committed) {es : List (LogEntry α)}
    (hes : Consecutive n.last_log_index es) (leader_commit : Nat) :
    Since R (Backing c ledger fsm) (n.persistAppend es leader_commit).log_store ∧
      (n.persistAppend es leader_commit).last_committed =
        (n.persistAppend es leader_commit).disk.last_committed := by
  have hb' : Backing c ledger fsm n.disk := hb.now
  have happended : Backing c ledger fsm (n.disk.append_entries es) := hb'.append hes
  have hlast : (n.disk.append_entries es).last_log_index = n.last_log_index + es.length :=
    append_last hes
  have hcl : n.disk.last_committed ≤ n.last_log_index := hb'.committed_le
  unfold RaftNode.persistAppend
  rw [hes.last_index]
  by_cases hgt : leader_commit > n.last_committed
  · rw [if_pos hgt]
    cases hempty : es.isEmpty with
    | true =>
      obtain rfl := List.isEmpty_iff.mp hempty
      refine ⟨hb.write (hb'.commit ?_ ?_), rfl⟩
      · omega
      · exact Nat.min_le_right _ _
    | false =>
      refine ⟨(hb.write happended).write (happended.commit ?_ ?_), rfl⟩
      · change n.disk.last_committed ≤ _
        omega
      · omega
  · rw [if_neg hgt]
    cases hempty : es.isEmpty with
    | true => exact ⟨hb, hcached⟩
    | false => exact ⟨hb.write happended, hcached⟩

theorem Backing.merged {R : Journal (SledStorage α)} {n n' : RaftNode α node.Follower}
    (hb : Since R (Backing c ledger fsm) n.log_store)
    (hcached : n.last_committed = n.disk.last_committed) {entries : List (LogEntry α)}
    {leader_commit : Nat}
    (hcut : ∀ e, entries.find? n.conflicts = some e → n.last_committed < e.index)
    (hm : Merged n entries leader_commit n') :
    Since R (Backing c ledger fsm) n'.log_store ∧
      n'.last_committed = n'.disk.last_committed := by
  have htruncate : ∀ e, entries.find? n.conflicts = some e →
      Since R (Backing c ledger fsm) (n.truncate_log e.index).log_store ∧
        (n.truncate_log e.index).last_committed =
          (n.truncate_log e.index).disk.last_committed := by
    intro e he
    have hb' : Backing c ledger fsm n.disk := hb.now
    have hlt := hcut e he
    have hhor := hb'.horizon_le
    have hal := hb'.applied_le
    have hll := hb'.ledger_le
    have hle : e.index ≤ n.last_log_index := by
      apply conflict_in_log (List.find?_some he)
      change n.disk.last_included_index < _
      omega
    refine ⟨hb.write (hb'.truncate (by omega) hle), ?_⟩
    change n.last_committed = (n.disk.truncate_log e.index).last_committed
    rw [hcached]
    unfold SledStorage.truncate_log
    dsimp only
    split <;> rfl
  cases hm with
  | kept => exact ⟨hb, hcached⟩
  | cut e he => exact htruncate e he
  | appended es hes hsub => exact Backing.persist hb hcached hes leader_commit
  | replaced e he es hes hsub =>
    obtain ⟨hb₁, hcached₁⟩ := htruncate e he
    exact Backing.persist hb₁ hcached₁ hes leader_commit

/-- What one change of the log leaves on disk, and at every point on the way. -/
theorem Running.log (hr : Running c ledger h) (hok : Permitted h a) (hlog : LogStep h a ln')
    (hnot : a ≠ .Apply) :
    Since h.node.node.log_store (Backing c ledger h.fsm) ln'.node.log_store ∧
      ln'.last_committed = ln'.node.disk.last_committed ∧
      ln'.last_applied = h.node.last_applied ∧
      (ln'.node.disk.last_included_index = h.disk.last_included_index ∨
        ∃ i q, .Captured i q ∈ h.compactions ∧ ln'.node.disk.last_included_index = i) := by
  have hstart : Since h.node.node.log_store (Backing c ledger h.fsm) h.node.node.log_store :=
    .start hr.backing
  have hquiet : ∀ {ln ln' : LogicalNode α}, Quiet ln ln' →
      Since h.node.node.log_store (Backing c ledger h.fsm) ln.node.log_store →
      ln.last_committed = ln.node.disk.last_committed →
      Since h.node.node.log_store (Backing c ledger h.fsm) ln'.node.log_store ∧
        ln'.last_committed = ln'.node.disk.last_committed := by
    intro ln ln' hq hs hc
    obtain ⟨hc', hs'⟩ := hq.disks hc
    exact ⟨hs.trans hs' fun d hd => Backing.quiet hs.now hd, hc'⟩
  cases hlog with
  | quiet hq =>
    obtain ⟨hs, hc⟩ := hquiet hq hstart hr.cached
    exact ⟨hs, hc, hq.applied, .inl hq.horizon⟩
  | proposed data l hl =>
    have hes : Consecutive h.disk.last_log_index
        [⟨h.node.last_log_index + 1, h.node.current_term, data⟩] := ⟨rfl, trivial⟩
    exact ⟨hstart.write (hr.backing.append hes), hr.cached, rfl, .inl rfl⟩
  | @merged dst req timeout ln₁ _ f n hq hst hc ht hv hm hln =>
    obtain ⟨hs₁, hc₁⟩ := hquiet hq hstart hr.cached
    have hcut : ∀ e, req.entries.find? (ln₁.node.transition f).conflicts = some e →
        (ln₁.node.transition f).last_committed < e.index := by
      intro e he
      change ln₁.last_committed < e.index
      rw [hc]
      exact CutsAbove.after hok hq ht hv he
    obtain ⟨hs₂, hc₂⟩ := Backing.merged (n := ln₁.node.transition f) hs₁ hc₁ hcut hm
    obtain ⟨hs₃, hc₃⟩ := hquiet hln hs₂ hc₂
    obtain ⟨happlied, hhor⟩ := hm.frame
    have hhor' : ln'.node.disk.last_included_index = h.disk.last_included_index :=
      hln.horizon.trans (hhor.trans hq.horizon)
    refine ⟨hs₃, hc₃, ?_, .inl hhor'⟩
    calc ln'.last_applied = n.last_applied := hln.applied
      _ = ln₁.last_applied := happlied
      _ = h.node.last_applied := hq.applied
  | applied i hadv => exact absurd rfl hnot
  | saved k i q hk =>
    obtain ⟨hi, hia⟩ := hr.captured i q (List.mem_of_getElem? hk)
    exact ⟨hstart.write (hr.backing.metadata hi (hia.trans hr.applied_le)), hr.cached, rfl,
      .inr ⟨i, q, List.mem_of_getElem? hk, rfl⟩⟩
  | front k i hk =>
    have hi := hr.saved i (List.mem_of_getElem? hk)
    exact ⟨hstart.write (hr.backing.front hi), hr.cached, rfl, .inl rfl⟩
  | finalized k params hk hadv =>
    rw [hr.installations] at hk
    cases hk

variable {cfg : HostConfig}

/-- Without an offer there is never an installation. -/
theorem hostStep_uninstalled [DecidableEq α] {sm : SnapshotMachine α LactoStore}
    (hs : hostStep cfg sm h a = some h') (hok : Permitted h a) (hnone : h.installations = []) :
    h'.installations = [] ∧ ∀ k, a ≠ .Restore k := by
  cases hostStep_moves hs with
  | accepted hw => cases hok
  | declined hw hno => cases hok
  | restored hk hidle hfsm => simp [hnone] at hk
  | unrestored hk hidle hfsm => simp [hnone] at hk
  | finalized hk hw => simp [hnone] at hk
  | _ => exact ⟨hnone, by simp⟩

/-- The index of the entry that is applied is published; the commit index was there before. -/
theorem Running.advanced (hr : Running c ledger h)
    (hlevel : ledger.length = h.disk.last_committed) {next_idx : Nat} {n : RaftNode α RoleState}
    {sh : ConsensusShell α} (happlied : h.process.applier = .Applied next_idx)
    (hadv : Advanced h.node.node next_idx n) (hsh : sh.inner = onto h.node n) :
    Running c ledger { h with
      process := { h.process with shell := sh, applier := .Looping next_idx n.last_committed } } ∧
      Since h.node.node.log_store (Backing c ledger h.fsm) sh.inner.node.log_store := by
  have hstart : Since h.node.node.log_store (Backing c ledger h.fsm) h.node.node.log_store :=
    .start hr.backing
  have happlier := hr.applier
  rw [happlied] at happlier
  have hnext : appliedOf h.fsm = next_idx := happlier
  have hle : next_idx ≤ h.node.last_committed := by
    rw [← hnext, hr.cached, ← hlevel]
    exact hr.backing.applied_le
  -- the entry was committed before, so the commit index stays where it is
  have hstore : n.log_store = h.node.node.log_store := by
    rcases hadv.store with hsame | ⟨hlt, -⟩
    · exact hsame
    · exact absurd hle (not_le.mpr hlt)
  have hcommitted : n.last_committed = h.node.last_committed := by
    rcases hadv.committed with ⟨-, hsame⟩ | ⟨hlt, -⟩
    · exact hsame
    · exact absurd hle (not_le.mpr hlt)
  have hdisk : sh.inner.node.disk = h.disk := by
    rw [hsh]
    exact congrArg Journal.now hstore
  have hmoved : sh.inner.last_applied = next_idx := by
    rw [hsh]
    exact hadv.applied
  have hcached : sh.inner.last_committed = h.node.last_committed := by
    rw [hsh]
    exact hcommitted
  have hal := hr.applied_le
  have hhor := hr.horizon_le
  refine ⟨⟨?_, ?_, ?_, ?_, ?_, ?_, ?_, hr.alone, hr.frozen, hr.installations⟩, ?_⟩
  · change Backing c ledger h.fsm sh.inner.node.disk
    rw [hdisk]
    exact hr.backing
  · change sh.inner.last_committed = sh.inner.node.disk.last_committed
    rw [hdisk, hcached]
    exact hr.cached
  · change sh.inner.node.disk.last_included_index ≤ sh.inner.last_applied
    rw [hdisk, hmoved]
    omega
  · change sh.inner.last_applied ≤ appliedOf h.fsm
    omega
  · change n.last_committed ≤ ledger.length
    rw [hcommitted, hr.cached, hlevel]
  · intro i q hmem
    have := hr.captured i q hmem
    change sh.inner.node.disk.last_included_index ≤ i ∧ i ≤ sh.inner.last_applied
    rw [hdisk]
    omega
  · intro i hmem
    change i ≤ sh.inner.node.disk.last_included_index
    rw [hdisk]
    exact hr.saved i hmem
  · rw [hsh]
    change Since _ _ n.log_store
    rw [hstore]
    exact hstart

/-- An applier that fails leaves the store and the disk as they are. -/
theorem Running.failed (hr : Running c ledger h) {sh : ConsensusShell α}
    (hstep : Stepped h.process.shell sh) :
    Running c ledger { h with process := { h.process with shell := sh, applier := .Idle } } ∧
      Since h.node.node.log_store (Backing c ledger h.fsm) sh.inner.node.log_store := by
  have hstart : Since h.node.node.log_store (Backing c ledger h.fsm) h.node.node.log_store :=
    .start hr.backing
  have hq := hstep.quiet
  obtain ⟨hc, hs⟩ := hq.disks hr.cached
  have hdisk : sh.inner.node.disk.last_included_index = h.disk.last_included_index := hq.horizon
  have happlied : sh.inner.last_applied = h.node.last_applied := hq.applied
  have hsince := hstart.trans hs fun d hd => hr.backing.quiet hd
  refine ⟨⟨hsince.now, hc, ?_, ?_, trivial, ?_, ?_, hr.alone, hr.frozen, hr.installations⟩,
    hsince⟩
  · change sh.inner.node.disk.last_included_index ≤ sh.inner.last_applied
    rw [hdisk, happlied]
    exact hr.horizon_le
  · change sh.inner.last_applied ≤ _
    rw [happlied]
    exact hr.applied_le
  · intro i q hmem
    change sh.inner.node.disk.last_included_index ≤ i ∧ i ≤ sh.inner.last_applied
    rw [hdisk, happlied]
    exact hr.captured i q hmem
  · intro i hmem
    change i ≤ sh.inner.node.disk.last_included_index
    rw [hdisk]
    exact hr.saved i hmem

/-- The applier takes entries of the ledger to the store, one after the other. -/
theorem Running.apply {p : Process α} (hr : Running c ledger h)
    (hlevel : ledger.length = h.disk.last_committed)
    (hrun : runApplier (lactoMachine c) h.process h.fsm = some (p, fsm')) :
    Running c ledger { h with process := p, fsm := fsm' } ∧
      Since h.node.node.log_store (Backing c ledger h.fsm) p.shell.inner.node.log_store := by
  have hstart : Since h.node.node.log_store (Backing c ledger h.fsm) h.node.node.log_store :=
    .start hr.backing
  have happlier := hr.applier
  cases runApplier_step hrun with
  | start hidle hp hle =>
    have hfits : h.node.last_committed ≤ ledger.length := by
      rw [hr.cached, hlevel]
    exact ⟨{ hr with applier := hfits }, hstart⟩
  | @fetch applied committed e hloop hlt he =>
    rw [hloop] at happlier
    have hle : committed ≤ ledger.length := happlier
    have hdata := hr.backing.agrees (applied + 1) e (by omega) (by omega) he
    exact ⟨{ hr with applier := ⟨Nat.succ_pos _, hdata⟩ }, hstart⟩
  | finish hloop hge => exact ⟨{ hr with applier := trivial }, hstart⟩
  | @apply next_idx data fsm' hfetched happly =>
    rw [hfetched] at happlier
    have hok := lactoMachine_apply.mp happly
    obtain ⟨hnext, hmoved, -⟩ := apply_moves hok
    have hal := hr.applied_le
    refine ⟨{ hr with
      backing := hr.backing.applied happlier.1 happlier.2 hok
      applied_le := ?_
      applier := hmoved }, hstart⟩
    change h.node.last_applied ≤ appliedOf fsm'
    omega
  | advance happlied hadv hsh hpub => exact hr.advanced hlevel happlied hadv hsh
  | fatal hstep hp => exact hr.failed hstep

/-- A step of the host, with what a crash inside it can find. -/
theorem Running.step [DecidableEq α] {cs : SnapshotCodec α} (hr : Running cs.toCodec ledger h)
    (hlevel : ledger.length = h.disk.last_committed) (hok : Permitted h a)
    (hs : hostStep cfg (lactoSnapshots cs) h a = some h') :
    Running cs.toCodec ledger h' ∧
      Since h.node.node.log_store (Backing cs.toCodec ledger h.fsm) h'.node.node.log_store := by
  by_cases happly : a = .Apply
  · subst happly
    obtain ⟨⟨p, fsm⟩, hrun, rfl⟩ := Option.map_eq_some_iff.mp hs
    exact hr.apply hlevel hrun
  obtain ⟨hlog, hcomp, -⟩ := hostStep_cases hs
  obtain ⟨hnone, hnot⟩ := hostStep_uninstalled hs hok hr.installations
  obtain ⟨happlier, hfsm⟩ := hostStep_aside hs happly
  replace hfsm := hfsm hnot
  have hdepth := hostStep_depth hs
  have halone := hdepth.alone hr.frozen hr.alone
  have hfrozen := hdepth.le hr.frozen
  obtain ⟨hsince, hcached, happlied, hhor⟩ := hr.log hok hlog happly
  have hdisk : h.disk.last_included_index ≤ h'.disk.last_included_index ∧
      h'.disk.last_included_index ≤ h.node.last_applied := by
    rcases hhor with hsame | ⟨i, q, hmem, rfl⟩
    · exact ⟨hsame.ge, hsame.trans_le hr.horizon_le⟩
    · exact hr.captured _ q hmem
  refine ⟨⟨?_, hcached, ?_, ?_, ?_, ?_, ?_, halone, hfrozen, hnone⟩, hsince⟩
  · rw [hfsm]
    exact hsince.now
  · rw [happlied]
    exact hdisk.2
  · rw [happlied, hfsm]
    exact hr.applied_le
  · rw [happlier, hfsm]
    exact hr.applier
  · intro i q hmem
    rw [happlied]
    rcases hcomp _ hmem with hold | hno | hnew | ⟨i', hno, -⟩
    · refine ⟨?_, (hr.captured i q hold).2⟩
      rcases hhor with hsame | ⟨i', q', hmem', hi'⟩
      · exact hsame.trans_le (hr.captured i q hold).1
      · -- there is no other compaction
        have heq : Compaction.Captured i q = .Captured i' q' := by
          have halone := hr.alone
          match hl : h.compactions with
          | [] => simp [hl] at hold
          | [x] =>
            rw [hl, List.mem_singleton] at hold hmem'
            rw [hold, hmem']
          | x :: y :: l => simp [hl] at halone
        exact (hi'.trans (Compaction.Captured.inj heq).1.symm).le
    · cases hno
    · obtain ⟨rfl, -⟩ := Compaction.Captured.inj hnew
      exact ⟨hdisk.2, le_rfl⟩
    · cases hno
  · intro i hmem
    rcases hcomp _ hmem with hold | hno | hno | ⟨i', hnew, hi⟩
    · exact (hr.saved i hold).trans hdisk.1
    · cases hno
    · cases hno
    · obtain rfl := Compaction.Saved.inj hnew
      exact hi.ge

/-! ## The server through its crashes -/

/-- Level with what is committed, up or down. -/
structure Sane (c : Codec α) (s : Server α) : Prop where
  backing : Backing c s.ledger s.state.db s.state.disk
  level : s.ledger.length = s.state.disk.last_committed
  running : ∀ h, s.state = .Up h → Running c s.ledger h ∧ h.node.node.log_store.past = []

theorem Sane.new (c : Codec α) : Sane c Server.new :=
  ⟨Backing.new c, rfl, fun _ h => nomatch h⟩

theorem Sane.down (hb : Backing c ledger fsm d) : Sane c ⟨.Down fsm d, record ledger d⟩ :=
  ⟨hb.record.1, hb.record.2, fun _ h => nomatch h⟩

theorem Running.settle (hr : Running c ledger h) :
    Sane c ⟨.Up (settled h), recovery.record ledger h.disk⟩ := by
  obtain ⟨hb, hlevel⟩ := hr.backing.record
  refine ⟨hb, hlevel, fun h₁ heq => ?_⟩
  obtain rfl := ServerState.Up.inj heq
  exact ⟨{ hr with
    backing := hb
    applier := hr.applier.extend (record_extends ledger h.disk) }, rfl⟩

/-- Any part of the replay goes further through the ledger. -/
theorem Backing.replayed (hb : Backing c ledger fsm d) (n : Nat)
    (hn : appliedOf fsm + n ≤ ledger.length) :
    Backing c ledger (replay_committed_entries (lactoMachine c) d n (appliedOf fsm) fsm).1 d := by
  induction n generalizing fsm with
  | zero => exact hb
  | succ n ih =>
    have hhor := hb.horizon_le
    have hll := hb.ledger_le
    have hcl := hb.committed_le
    unfold replay_committed_entries
    cases he : d.read_entry (appliedOf fsm + 1) with
    | none => exact hb
    | some e =>
      dsimp only
      cases happly : (lactoMachine c).apply fsm (appliedOf fsm + 1) e.data with
      | error err => exact hb
      | ok fsm₁ =>
        dsimp only
        have hok := lactoMachine_apply.mp happly
        have hdata := hb.agrees (appliedOf fsm + 1) e (by omega) (by omega) he
        have hb₁ := hb.applied (Nat.succ_pos _) hdata hok
        have hmoved := (apply_moves hok).2.1
        have := ih hb₁ (by omega)
        rw [hmoved] at this
        exact this

/-- The start goes through the rest of the ledger, if the store accepts it. -/
theorem Backing.reboot (hb : Backing c ledger fsm d) (hlevel : ledger.length = d.last_committed)
    (haccepted : (LactoStore.new.applyLog c 0 ledger).2 = .ok ())
    (node_id heartbeat_interval timeout : Nat) :
    ∃ fsm' ln, recovery.reboot c node_id heartbeat_interval timeout fsm d = some (fsm', ln) ∧
      LactoStore.new.applyLog c 0 ledger = (fsm', .ok ()) ∧
      appliedOf fsm' = d.last_committed ∧ ln.last_applied = d.last_committed ∧
      ln.last_committed = d.last_committed ∧ ln.node.log_store = .settled d := by
  have hal := hb.applied_le
  have hlen : (ledger.take (appliedOf fsm)).length = appliedOf fsm := List.length_take_of_le hal
  obtain ⟨fsm', hfsm'⟩ : ∃ fsm', LactoStore.new.applyLog c 0 ledger = (fsm', .ok ()) :=
    ⟨_, Prod.ext rfl haccepted⟩
  have hrest : fsm.applyLog c (appliedOf fsm) (ledger.drop (appliedOf fsm)) = (fsm', .ok ()) := by
    have hsplit := applyLog_append (c := c) LactoStore.new 0 (ledger.take (appliedOf fsm))
      (ledger.drop (appliedOf fsm))
    rw [List.take_append_drop, hfsm', hb.folded] at hsplit
    dsimp only at hsplit
    rw [Nat.zero_add, hlen] at hsplit
    exact hsplit.symm
  have happlied : appliedOf fsm' = d.last_committed := by
    rw [(applyLog_moves hfsm' rfl).1, Nat.zero_add, hlevel]
  have hsum : appliedOf fsm + (d.last_committed - appliedOf fsm) = ledger.length := by omega
  have hreplay : replay_committed_entries (lactoMachine c) d
      (d.last_committed - appliedOf fsm) (appliedOf fsm) fsm = (fsm', true) := by
    apply replay_data ledger
    · rw [hsum]
      intro k hk hkl
      have hhor := hb.horizon_le
      have hcl := hb.committed_le
      obtain ⟨e, he⟩ := Option.ne_none_iff_exists'.mp (hb.covered k (by omega) (by omega))
      exact ⟨e, he, hb.agrees k e (by omega) hkl he⟩
    · rw [hsum, List.take_length]
      exact hrest
  have hle : appliedOf (reopen fsm).now ≤ d.last_committed := by
    rw [hb.reopened]
    omega
  obtain ⟨ln, hboot, -, hstore, hcommitted, hlast⟩ := reboot_replayed node_id heartbeat_interval
    timeout hle (by rw [hb.reopened]; exact hreplay) happlied
  exact ⟨fsm', ln, hboot, hfsm', happlied, hlast, hcommitted, hstore⟩

/-- A start that succeeds is level with the ledger, even if it was not known to accept it. -/
theorem Sane.boot {s : Server α} {node_id heartbeat_interval timeout : Nat} {db : LactoStore}
    (hsane : Sane c s) (hstate : s.state = .Down db d) {fsm' : LactoStore} {ln : LogicalNode α}
    (hboot : recovery.reboot c node_id heartbeat_interval timeout db d = some (fsm', ln)) :
    Sane c ⟨.Up ⟨⟨.new ln, .Idle, []⟩, fsm', 0, [], [], 0⟩, s.ledger⟩ := by
  obtain ⟨hb, hlevel, -⟩ := hsane
  rw [hstate] at hb hlevel
  have hb' : Backing c s.ledger db d := hb
  have hlevel' : s.ledger.length = d.last_committed := hlevel
  have hal := hb'.applied_le
  have hreplayed := hb'.replayed (d.last_committed - appliedOf db) (by omega)
  have hindex : ∀ s, (lactoMachine c).last_applied_index s = appliedOf s := fun _ => rfl
  unfold recovery.reboot recover at hboot
  simp only [hindex, hb'.reopened] at hboot
  rw [if_neg (by omega)] at hboot
  generalize replay_committed_entries (lactoMachine c) d (d.last_committed - appliedOf db)
    (appliedOf db) db = r at hboot hreplayed
  obtain ⟨fsm₁, b⟩ := r
  cases b with
  | false => cases hboot
  | true =>
    dsimp only at hboot
    cases hnew : LogicalNode.try_new node_id (appliedOf fsm₁) d heartbeat_interval timeout with
    | error e =>
      rw [hnew] at hboot
      cases hboot
    | ok ln₁ =>
      rw [hnew] at hboot
      obtain ⟨rfl, rfl⟩ := Prod.mk.inj (Option.some.inj hboot)
      unfold LogicalNode.try_new at hnew
      split at hnew
      · cases hnew
      obtain rfl := Except.ok.inj hnew
      refine ⟨hreplayed, hlevel', fun h heq => ?_⟩
      obtain rfl := ServerState.Up.inj heq
      refine ⟨⟨hreplayed, rfl, hreplayed.horizon_le, le_rfl, trivial, ?_, ?_, ?_, ?_, rfl⟩, rfl⟩
      · intro i q hmem
        cases hmem
      · intro i hmem
        cases hmem
      · exact Nat.zero_le _
      · exact le_rfl

theorem Sane.step [DecidableEq α] {cs : SnapshotCodec α} {s s' : Server α} {a : ServerAct α}
    (hsane : Sane cs.toCodec s) (hok : PermittedAct s a)
    (hs : serverStep cfg cs s a = some s') : Sane cs.toCodec s' := by
  cases a with
  | Host a =>
    cases hstate : s.state with
    | Down db d => simp [serverStep, hstate] at hs
    | Up h =>
      simp only [serverStep, hstate] at hs
      obtain ⟨h', hstep, rfl⟩ := Option.map_eq_some_iff.mp hs
      obtain ⟨hr, -⟩ := hsane.running h hstate
      have hlevel := hsane.level
      rw [hstate] at hlevel
      exact (hr.step hlevel (hok h hstate) hstep).1.settle
  | CrashIn a point =>
    cases hstate : s.state with
    | Down db d => simp [serverStep, hstate] at hs
    | Up h =>
      simp only [serverStep, hstate] at hs
      obtain ⟨h', hstep, hpoint⟩ := Option.bind_eq_some_iff.mp hs
      obtain ⟨⟨db, d⟩, hmem, rfl⟩ := Option.map_eq_some_iff.mp hpoint
      obtain ⟨hr, hpast⟩ := hsane.running h hstate
      have hlevel := hsane.level
      rw [hstate] at hlevel
      obtain ⟨hr', hsince⟩ := hr.step hlevel (hok h hstate) hstep
      apply Sane.down
      rcases List.mem_cons.mp (List.mem_of_getElem? hmem) with heq | hmem
      · obtain ⟨rfl, rfl⟩ := Prod.mk.inj heq
        exact hr'.backing
      · obtain ⟨d', hd', heq⟩ := List.mem_map.mp hmem
        obtain ⟨rfl, rfl⟩ := Prod.mk.inj heq
        rcases hsince.past d' hd' with hold | hnew
        · rw [hpast] at hold
          cases hold
        · exact hnew
  | Crash =>
    obtain rfl := Option.some.inj hs
    exact ⟨hsane.backing, hsane.level, fun _ h => nomatch h⟩
  | Boot timeout =>
    cases hstate : s.state with
    | Up h => simp [serverStep, hstate] at hs
    | Down db d =>
      simp only [serverStep, hstate] at hs
      obtain ⟨⟨fsm, ln⟩, hboot, rfl⟩ := Option.map_eq_some_iff.mp hs
      exact hsane.boot hstate hboot
  | CrashInBoot replayed =>
    cases hstate : s.state with
    | Up h => simp [serverStep, hstate] at hs
    | Down db d =>
      simp only [serverStep, hstate] at hs
      obtain rfl := Option.some.inj hs
      obtain ⟨hb, hlevel, -⟩ := hsane
      rw [hstate] at hb hlevel
      have hb' : Backing cs.toCodec s.ledger db d := hb
      have hlevel' : s.ledger.length = d.last_committed := hlevel
      have hal := hb'.applied_le
      rw [hb'.reopened]
      exact ⟨hb'.replayed _ (by omega), hlevel', fun _ h => nomatch h⟩

/-- Wherever a run gets to, a crash there leaves the four indices in order, and the next start
rebuilds the fold of everything that was committed. -/
theorem crash_recovers [DecidableEq α] (c : SnapshotCodec α) {s : Server α}
    (hrun : Run (serverStep cfg c) PermittedAct Server.new s) :
    s.state.disk.last_included_index ≤ appliedOf s.state.db ∧
    appliedOf s.state.db ≤ s.state.disk.last_committed ∧
    s.state.disk.last_committed ≤ s.state.disk.last_log_index ∧
    s.ledger.length = s.state.disk.last_committed ∧
    (∀ k e, 0 < k → k ≤ s.state.disk.last_committed → s.state.disk.read_entry k = some e →
      s.ledger[k - 1]? = some e.data) ∧
    ((LactoStore.new.applyLog c.toCodec 0 s.ledger).2 = .ok () → ∀ timeout, ∃ fsm ln,
      reboot c.toCodec cfg.node_id cfg.cluster.heartbeat_interval timeout s.state.db
        s.state.disk = some (fsm, ln) ∧
      LactoStore.new.applyLog c.toCodec 0 s.ledger = (fsm, .ok ()) ∧
      appliedOf fsm = ln.last_committed ∧ ln.last_applied = ln.last_committed ∧
      ln.last_committed = s.state.disk.last_committed) := by
  have hsane : Sane c.toCodec s :=
    Run.invariant (fun _ _ _ h hok hs => Sane.step h hok hs) hrun (Sane.new c.toCodec)
  have hb := hsane.backing
  refine ⟨hb.horizon_le, ?_, hb.committed_le, hsane.level, ?_, ?_⟩
  · rw [← hsane.level]
    exact hb.applied_le
  · intro k e hk hkl he
    exact hb.agrees k e hk (hsane.level ▸ hkl) he
  · intro haccepted timeout
    obtain ⟨fsm, ln, hboot, hfold, hstore, happlied, hcommitted, -⟩ :=
      hb.reboot hsane.level haccepted cfg.node_id cfg.cluster.heartbeat_interval timeout
    exact ⟨fsm, ln, hboot, hfold, hstore.trans hcommitted.symm, happlied.trans hcommitted.symm,
      hcommitted⟩

/-! ## A crash between the commit and the application -/

/-- The leader of term 1 sends the first entry and says that it is committed. -/
def milkEntry : HostAct Bytes :=
  .Deliver (.AppendEntries 1 ⟨1, 2, 0, 0, [⟨1, 1, .inl (putMilk 7)⟩], 1⟩) 10

def serverAfter (as : List (ServerAct Bytes)) : Server Bytes :=
  (exec (serverStep firstOfThree plainSnapshots) Server.new as).getD .new

theorem crash_recovers_milk :
    (serverAfter [.Boot 10, .Host milkEntry, .Crash]).ledger = [.inl (putMilk 7)] ∧
    appliedOf (serverAfter [.Boot 10, .Host milkEntry, .Crash]).state.db = 0 ∧
    ∃ fsm ln, reboot plainSnapshots.toCodec 1 1 10
        (serverAfter [.Boot 10, .Host milkEntry, .Crash]).state.db
        (serverAfter [.Boot 10, .Host milkEntry, .Crash]).state.disk = some (fsm, ln) ∧
      appliedOf fsm = ln.last_committed ∧ ln.last_committed = 1 := by
  have hup : Run (serverStep firstOfThree plainSnapshots) PermittedAct Server.new
      (serverAfter [.Boot 10]) := .tail (.refl _) (a := .Boot 10) trivial rfl
  have hfirst : PermittedAct (serverAfter [.Boot 10]) (.Host milkEntry) := by
    intro h hstate
    obtain rfl := ServerState.Up.inj hstate
    rintro - - e he
    cases he
  have hrun : Run (serverStep firstOfThree plainSnapshots) PermittedAct Server.new
      (serverAfter [.Boot 10, .Host milkEntry, .Crash]) :=
    .tail (.tail hup hfirst rfl) (a := .Crash) trivial rfl
  obtain ⟨-, -, -, -, -, hboot⟩ := crash_recovers plainSnapshots hrun
  obtain ⟨fsm, ln, hln, -, happlied, -, hcommitted⟩ := hboot rfl 10
  exact ⟨rfl, rfl, fsm, ln, hln, happlied, hcommitted⟩

end raft_engine.recovery
