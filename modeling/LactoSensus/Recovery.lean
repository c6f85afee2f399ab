-- A start after a crash: the store purges a stale restoration, the recovery
-- replays what the log has and the store lacks, and the node is built on what
-- the two disks then hold.
import LactoSensus.Orchestration
import LactoSensus.LabelSkew
import LactoSensus.HorizonLog

open common.types
open common.proto
open journal
open raft_engine.storage
open raft_engine.node
open raft_engine.engine
open raft_engine.cluster
open raft_engine.orchestration
open lacto_fsm

namespace raft_engine.recovery

variable {α : Type}

/-- The store as the state machine of the engine. A call that fails halts the node, so
what it left in memory does not matter. -/
def lactoMachine (c : Codec α) : StateMachine α LactoStore where
  empty := .new
  apply s index data :=
    match s.apply c index data with
    | (s, .ok ()) => .ok s
    | (_, .error e) => .error e.text
  last_applied_index s := s.key_last_applied.getD 0

/-- The store with its snapshots. -/
def lactoSnapshots (c : SnapshotCodec α) : SnapshotMachine α LactoStore where
  toStateMachine := lactoMachine c.toCodec
  install_snapshot s index data :=
    match s.install_snapshot c index data with
    | (s, .ok ()) => .ok s
    | (_, .error e) => .error e.text

theorem lactoMachine_apply {c : Codec α} {s t : LactoStore} {index : Nat} {data : α} :
    (lactoMachine c).apply s index data = .ok t ↔ s.apply c index data = (t, .ok ()) := by
  unfold lactoMachine
  dsimp only
  generalize s.apply c index data = r
  obtain ⟨s', e | u⟩ := r
  · simp
  · simp

/-- `LactoStore::new`, `RecoveryManager::recover` and `LogicalNode::try_new`; nothing when
one of them panics or fails. -/
def reboot (c : Codec α) (node_id heartbeat_interval timeout : Nat) (db : LactoStore)
    (disk : SledStorage α) : Option (LactoStore × LogicalNode α) :=
  match recover (lactoMachine c) disk (reopen db).now with
  | (_, false) => none
  | (fsm, true) =>
    match LogicalNode.try_new node_id ((lactoMachine c).last_applied_index fsm) disk
      heartbeat_interval timeout with
    | .ok ln => some (fsm, ln)
    | .error _ => none

/-! ## What a store has of a ledger -/

abbrev appliedOf (s : LactoStore) : Nat := s.key_last_applied.getD 0

/-- The agreed log as the store sees it: it accepts every entry, and there is room for
one more. -/
structure Ledger (c : Codec α) (ms : List CommittedMutation) : Prop where
  canonical : ∀ m ∈ ms, Canonical c m
  accepted : ∃ s, replay c ms = (s, .ok ())
  room : ms.length < u64Max

/-- The store has applied a beginning of the ledger that reaches its applied index, or
goes past it when it was restored under an older label. -/
def Holds (c : Codec α) (ms : List CommittedMutation) (s : LactoStore) : Prop :=
  ∃ a sₐ, appliedOf s ≤ a ∧ a ≤ ms.length ∧ replay c (ms.take a) = (sₐ, .ok ()) ∧
    Same (sₐ.advance_last_applied_for_duplicate (appliedOf s)) s

variable {c : Codec α} {ms : List CommittedMutation} {s t : LactoStore} {disk : SledStorage α}

theorem Holds.new (c : Codec α) (ms : List CommittedMutation) : Holds c ms .new :=
  ⟨0, .new, le_rfl, Nat.zero_le _, rfl, rfl, rfl, rfl, rfl, rfl⟩

theorem Ledger.take (hl : Ledger c ms) (a : Nat) :
    ∃ sₐ, replay c (ms.take a) = (sₐ, .ok ()) ∧ Counted (ms.take a) sₐ := by
  obtain ⟨s, hs⟩ := hl.accepted
  obtain ⟨sₐ, hsₐ, -⟩ := replay_take hs a
  exact ⟨sₐ, hsₐ, replay_counted (fun m hm => hl.canonical m (List.mem_of_mem_take hm)) hsₐ⟩

theorem Holds.healthy (hl : Ledger c ms) (h : Holds c ms s) : s.poisoned = false := by
  obtain ⟨a, sₐ, -, -, hsₐ, hsame⟩ := h
  obtain ⟨sₐ', hsₐ', hcount⟩ := hl.take a
  rw [hsₐ] at hsₐ'
  obtain rfl := (Prod.mk.inj hsₐ').1
  exact hsame.poisoned.trans hcount.healthy

/-- An accepted entry moves the applied index by one and touches neither flag. -/
theorem apply_moves {index : Nat} {data : α} (h : s.apply c index data = (t, .ok ())) :
    index = appliedOf s + 1 ∧ appliedOf t = index ∧
      t.key_restore_in_progress = s.key_restore_in_progress ∧ t.poisoned = s.poisoned := by
  obtain ⟨hindex, m, client_id, -, -, ⟨-, rfl⟩ | ⟨-, status, event_time, rfl⟩⟩ := apply_ok h
  · exact ⟨hindex, rfl, rfl, rfl⟩
  · exact ⟨hindex, rfl, rfl, rfl⟩

theorem applyLog_moves {log : List α} {applied : Nat}
    (h : s.applyLog c applied log = (t, .ok ())) (happlied : appliedOf s = applied) :
    appliedOf t = applied + log.length ∧
      t.key_restore_in_progress = s.key_restore_in_progress ∧ t.poisoned = s.poisoned := by
  induction log generalizing s applied with
  | nil =>
    obtain rfl := (Prod.mk.inj h).1
    exact ⟨happlied, rfl, rfl⟩
  | cons data log ih =>
    unfold LactoStore.applyLog at h
    generalize happly : s.apply c (applied + 1) data = r at h
    obtain ⟨s₁, e | u⟩ := r
    · cases h
    obtain ⟨-, happlied₁, hflag₁, hpoison₁⟩ := apply_moves happly
    obtain ⟨happlied', hflag', hpoison'⟩ := ih h happlied₁
    refine ⟨?_, hflag'.trans hflag₁, hpoison'.trans hpoison₁⟩
    rw [happlied', List.length_cons]
    omega

/-- From any such store the ledger can be gone through, to wherever one likes. -/
theorem Holds.applyLog (hl : Ledger c ms) (h : Holds c ms s) {k : Nat} (hk : appliedOf s ≤ k)
    (hkn : k ≤ ms.length) :
    ∃ t, s.applyLog c (appliedOf s) (((ms.take k).drop (appliedOf s)).map c.encode) =
        (t, .ok ()) ∧ appliedOf t = k ∧ Holds c ms t := by
  obtain ⟨a, sₐ, hla, han, hsₐ, hsame⟩ := h
  obtain ⟨sₙ, hsₙ⟩ := hl.accepted
  obtain ⟨t, happly, hbelow, habove⟩ := replay_skewed hl.canonical hsₙ hla han
    (han.trans_lt hl.room) hk hsₐ hsame
  refine ⟨t, happly, ?_⟩
  by_cases hka : k ≤ a
  · have hsame' := hbelow hka
    have happlied : appliedOf t = k := hsame'.applied
    exact ⟨happlied, a, sₐ, by omega, han, hsₐ, by rw [happlied]; exact hsame'⟩
  · obtain ⟨sₖ, hsₖ, hsame'⟩ := habove (by omega)
    obtain ⟨sₖ', hsₖ', hcount⟩ := hl.take k
    rw [hsₖ] at hsₖ'
    obtain rfl := (Prod.mk.inj hsₖ').1
    have hcounted : sₖ.key_last_applied.getD 0 = k := by
      rw [hcount.applied, List.length_take_of_le hkn]
    have happlied : appliedOf t = k := hsame'.applied.trans hcounted
    refine ⟨happlied, k, sₖ, happlied.le, hkn, hsₖ, ?_⟩
    exact ⟨hsame'.inventory, hsame'.sessions, hsame'.clock, rfl, hsame'.poisoned⟩

/-- A store restored from a snapshot of a beginning of the ledger, under a label that the
beginning reaches. -/
theorem Holds.restored (hl : Ledger c ms) {a label : Nat} (hla : label ≤ a)
    (han : a ≤ ms.length) {sₐ : LactoStore} (hsₐ : replay c (ms.take a) = (sₐ, .ok ())) :
    Holds c ms (restored label (snapshotOf sₐ)) := by
  obtain ⟨sₐ', hsₐ', hcount⟩ := hl.take a
  rw [hsₐ] at hsₐ'
  obtain rfl := (Prod.mk.inj hsₐ').1
  exact ⟨a, sₐ, hla, han, hsₐ, restored_same hcount.keyed hcount.healthy label⟩

/-! ## Replay -/

/-- The log has these data from after `lo` up to `hi`. -/
def HasData (ds : List α) (disk : SledStorage α) (lo hi : Nat) : Prop :=
  ∀ k, lo < k → k ≤ hi → ∃ e, disk.read_entry k = some e ∧ ds[k - 1]? = some e.data

theorem replay_data (ds : List α) {missing current : Nat}
    (hent : HasData ds disk current (current + missing))
    (happly : s.applyLog c current ((ds.take (current + missing)).drop current) = (t, .ok ())) :
    replay_committed_entries (lactoMachine c) disk missing current s = (t, true) := by
  induction missing generalizing current s with
  | zero =>
    have hnil : (ds.take current).drop current = [] := by simp
    rw [Nat.add_zero, hnil] at happly
    obtain rfl := (Prod.mk.inj happly).1
    rfl
  | succ missing ih =>
    obtain ⟨e, he, hdata⟩ := hent (current + 1) (by omega) (by omega)
    have hcons : (ds.take (current + (missing + 1))).drop current =
        e.data :: (ds.take (current + 1 + missing)).drop (current + 1) := by
      have hget : (ds.take (current + (missing + 1)))[current]? = some e.data := by
        rw [List.getElem?_take_of_lt (by omega)]
        exact hdata
      rw [List.drop_eq_getElem?_toList_append, hget, Option.toList_some, List.singleton_append,
        Nat.add_right_comm, Nat.add_assoc]
    rw [hcons, LactoStore.applyLog] at happly
    unfold replay_committed_entries
    rw [he]
    dsimp only [lactoMachine]
    generalize s.apply c (current + 1) e.data = r at happly
    obtain ⟨s₁, err | u⟩ := r
    · cases happly
    · refine ih ?_ happly
      intro k hk hkn
      exact hent k (by omega) (by omega)

/-- The data of the entries that the log has behind `current`. -/
def pending (disk : SledStorage α) (current : Nat) : Nat → List α
  | 0 => []
  | missing + 1 =>
    ((disk.read_entry (current + 1)).map LogEntry.data).toList ++
      pending disk (current + 1) missing

/-- The node is up, level with its disk, and its store can go on through the ledger. -/
structure Ready (c : Codec α) (ms : List CommittedMutation) (disk : SledStorage α)
    (s : LactoStore) (ln : LogicalNode α) : Prop where
  follower : ln.node_role = .Follower
  kept : ln.node.disk = disk
  committed : ln.last_committed = disk.last_committed
  applied : ln.last_applied = disk.last_committed
  store : appliedOf s = disk.last_committed
  holds : Holds c ms s

/-- A replay that gets to the end starts the node. -/
theorem reboot_replayed (node_id heartbeat_interval timeout : Nat) {db : LactoStore}
    (hle : appliedOf (reopen db).now ≤ disk.last_committed)
    (hreplay : replay_committed_entries (lactoMachine c) disk
      (disk.last_committed - appliedOf (reopen db).now) (appliedOf (reopen db).now)
      (reopen db).now = (t, true))
    (happlied : appliedOf t = disk.last_committed) :
    ∃ ln, reboot c node_id heartbeat_interval timeout db disk = some (t, ln) ∧
      ln.node_role = .Follower ∧ ln.node.log_store = .settled disk ∧
      ln.last_committed = disk.last_committed ∧ ln.last_applied = disk.last_committed := by
  have hindex : ∀ s, (lactoMachine c).last_applied_index s = appliedOf s := fun _ => rfl
  unfold reboot recover LogicalNode.try_new
  simp only [hindex, if_neg (not_lt.mpr hle), hreplay]
  rw [if_neg (by omega)]
  exact ⟨_, rfl, rfl, rfl, rfl, happlied⟩

end raft_engine.recovery
