-- A crash while a snapshot is being installed. The store, the metadata and the
-- commit index are written one after the other, in two databases; what a start
-- finds between two of the writes is not always something it can start from.
import LactoSensus.Recovery
import LactoSensus.Orchestration

open common.types
open common.proto
open journal
open raft_engine.storage
open raft_engine.node
open raft_engine.engine
open raft_engine.orchestration
open lacto_fsm

namespace raft_engine.recovery

variable {α : Type} {c : SnapshotCodec α} {ms : List CommittedMutation} {fsm db : LactoStore}
  {disk : SledStorage α} {ln : LogicalNode α} {depth : Nat} {params : SnapshotParams α}

/-- The two databases of a follower: no restoration is under way, and the log has what lies
between the store and the commit index. Nothing is said about the entries it has, which
under the horizon need not be the ledger's, nor about what the store holds. -/
structure Follower (disk : SledStorage α) (fsm : LactoStore) : Prop where
  clean : fsm.key_restore_in_progress = false
  present : ∀ k, appliedOf fsm < k → k ≤ disk.last_committed → disk.read_entry k ≠ none

/-- The store is one of the ledger's, and so is the snapshot, up to its label or further. -/
structure Agreed (c : SnapshotCodec α) (ms : List CommittedMutation) (fsm : LactoStore)
    (params : SnapshotParams α) : Prop where
  holds : Holds c.toCodec ms fsm
  data : ∃ a sₐ, params.last_included_index ≤ a ∧ a ≤ ms.length ∧
    replay c.toCodec (ms.take a) = (sₐ, .ok ()) ∧ sₐ.snapshot c = .ok params.data

/-- What a crash between the acceptance and the end of the finalisation leaves: a point of
the restoration, or the store after it and a point of the finalisation, which hears
whether it went well. -/
inductive InstallCrash (c : SnapshotCodec α) (fsm : LactoStore) (ln : LogicalNode α)
    (depth : Nat) (params : SnapshotParams α) : LactoStore → SledStorage α → Prop where
  | restoring {db : LactoStore}
      (hdb : db ∈ (install_snapshot c (.settled fsm) params.last_included_index
        params.data).1.crash_points) : InstallCrash c fsm ln depth params db ln.node.disk
  | finalizing {disk : SledStorage α} {res : Except String Unit}
      (hres : res = .ok () ↔ (install_snapshot c (.settled fsm) params.last_included_index
        params.data).2 = .ok ())
      (hdisk : disk ∈ (finalizeSnapshot depth params res ln).1.node.log_store.crash_points) :
      InstallCrash c fsm ln depth params (install_snapshot c (.settled fsm)
        params.last_included_index params.data).1.now disk

theorem clear_inventory_stale {j₀ db : Db} (h : Since j₀ (·.key_restore_in_progress = true) db) :
    Since j₀ (·.key_restore_in_progress = true) (clear_inventory db) := by
  refine h.writeAll fun f hf s hs => ?_
  obtain ⟨k, -, rfl⟩ := List.mem_map.mp hf
  exact hs

theorem clear_sessions_stale {j₀ db : Db} (h : Since j₀ (·.key_restore_in_progress = true) db) :
    Since j₀ (·.key_restore_in_progress = true) (clear_sessions db) := by
  refine h.writeAll fun f hf s hs => ?_
  obtain ⟨k, -, rfl⟩ := List.mem_map.mp hf
  exact hs

/-- From the tombstone on it stands at every point, until the last batch. -/
theorem rewriteTrees_stale (snapshot : SnapshotData) (db : Db) :
    Since (set_restoration_tombstone db) (·.key_restore_in_progress = true)
      (rewriteTrees snapshot db) := by
  have hstart : Since (set_restoration_tombstone db) (·.key_restore_in_progress = true)
      (set_restoration_tombstone db) := .start rfl
  have hcleared := clear_sessions_stale (clear_inventory_stale hstart)
  have happlied := hcleared.write (f := fun s => { s with key_last_applied := none })
    hcleared.now
  have htime := happlied.write (f := fun s => { s with key_last_effective_time := none })
    happlied.now
  have hinventory := htime.write (f := fun s => { s with
    inventory := s.inventory.insertAll
      (snapshot.inventory.map fun item => (item.item_key, item)) }) htime.now
  exact Since.write hinventory (f := fun s => { s with
    sessions := s.sessions.insertAll
      (snapshot.sessions.map fun record => (record.client_id, record)) }) hinventory.now

theorem install_points (c : SnapshotCodec α) (hp : fsm.poisoned = false) (index : Nat)
    {snapshot : SnapshotData} {data : α} (hdata : c.decode_snapshot data = .ok snapshot)
    (hdb : db ∈ (install_snapshot c (.settled fsm) index data).1.crash_points) :
    db = fsm ∨ db.key_restore_in_progress = true ∨ db = restored index snapshot := by
  have hnow := (install_snapshot_now c (.settled fsm) hp index snapshot hdata).2
  have hstale := rewriteTrees_stale snapshot (.settled fsm)
  unfold install_snapshot LactoStore.check_not_poisoned at hdb hnow
  rw [Journal.settled_now, hp, hdata] at hdb hnow
  rcases List.mem_cons.mp hdb with heq | hpast
  · rw [heq]
    exact .inr (.inr hnow)
  rcases List.mem_cons.mp hpast with rfl | hpast
  · exact .inr (.inl hstale.now)
  rcases hstale.past db hpast with hbefore | hflag
  · exact .inl (List.mem_singleton.mp hbefore)
  · exact .inr (.inl hflag)

theorem install_ok (c : SnapshotCodec α) {index : Nat} {data : α}
    (hok : (install_snapshot c (.settled fsm) index data).2 = .ok ()) :
    ∃ snapshot, (install_snapshot c (.settled fsm) index data).1.now =
      restored index snapshot := by
  cases hp : fsm.poisoned with
  | true =>
    unfold install_snapshot LactoStore.check_not_poisoned at hok
    rw [Journal.settled_now, hp] at hok
    cases hok
  | false =>
    cases hdata : c.decode_snapshot data with
    | error e =>
      unfold install_snapshot LactoStore.check_not_poisoned at hok
      rw [Journal.settled_now, hp, hdata] at hok
      cases hok
    | ok snapshot =>
      exact ⟨snapshot, (install_snapshot_now c (.settled fsm) hp index snapshot hdata).2⟩

/-- An installation that is refused writes nothing. -/
theorem install_crash_points (c : SnapshotCodec α) {index : Nat} {data : α}
    (hdb : db ∈ (install_snapshot c (.settled fsm) index data).1.crash_points) :
    db = fsm ∨ db.key_restore_in_progress = true ∨
      ∃ snapshot, db = restored index snapshot := by
  cases hp : fsm.poisoned with
  | true =>
    unfold install_snapshot LactoStore.check_not_poisoned at hdb
    rw [Journal.settled_now, hp] at hdb
    exact .inl (List.mem_singleton.mp hdb)
  | false =>
    cases hdata : c.decode_snapshot data with
    | error e =>
      unfold install_snapshot LactoStore.check_not_poisoned at hdb
      rw [Journal.settled_now, hp, hdata] at hdb
      exact .inl (List.mem_singleton.mp hdb)
    | ok snapshot =>
      exact (install_points c hp index hdata hdb).imp_right (.imp_right fun h => ⟨snapshot, h⟩)

/-- A stale restoration is purged to an empty store. -/
theorem reopen_stale (h : db.key_restore_in_progress = true) : (reopen db).now = .new := by
  unfold reopen
  rw [if_pos h]
  simp [purge_all_data, LactoStore.new]

theorem reopen_clean (h : db.key_restore_in_progress = false) (hp : db.poisoned = false) :
    (reopen db).now = db := by
  unfold reopen
  rw [if_neg (by simp [h])]
  change { db with poisoned := false } = db
  rw [← hp]

theorem advance_horizon_store {R : Type} (n : RaftNode α R) (index : Nat) :
    (n.advance_horizon_after_snapshot index).1.log_store = n.log_store ∨
      (n.advance_horizon_after_snapshot index).1.log_store =
        n.log_store.write (SledStorage.save_last_committed index) := by
  unfold RaftNode.advance_horizon_after_snapshot RaftNode.update_commit_index_only
  dsimp only
  split_ifs
  · exact .inl rfl
  · exact .inl rfl
  · exact .inr rfl
  · exact .inl rfl

theorem node_advance_horizon_store (ln : LogicalNode α) (index : Nat) :
    (ln.advance_horizon_after_snapshot index).1.node.log_store = ln.node.log_store ∨
      (ln.advance_horizon_after_snapshot index).1.node.log_store =
        ln.node.log_store.write (SledStorage.save_last_committed index) := by
  unfold LogicalNode.advance_horizon_after_snapshot
  split
  · exact .inl rfl
  · exact advance_horizon_store ln.node index

/-- The finalisation writes nothing, the metadata, or the metadata and then the commit
index. -/
theorem finalize_store (depth : Nat) (params : SnapshotParams α) (ln : LogicalNode α) :
    let saved := ln.node.log_store.write (SledStorage.save_snapshot_metadata
      params.last_included_index params.last_included_term)
    let store := (finalizeSnapshot depth params (.ok ()) ln).1.node.log_store
    store = ln.node.log_store ∨ store = saved ∨
      store = saved.write (SledStorage.save_last_committed params.last_included_index) := by
  intro saved store
  have hadvance := node_advance_horizon_store
    { ln with
      node := ln.node.save_snapshot_metadata params.last_included_index
        params.last_included_term } params.last_included_index
  by_cases hp : ln.is_poisoned = true
  · left
    simp only [store, finalizeSnapshot, LogicalNode.save_snapshot_metadata, if_pos hp]
    cases thaw depth <;> rfl
  · simp only [store, finalizeSnapshot, LogicalNode.save_snapshot_metadata, if_neg hp]
    cases thaw depth with
    | error e => exact .inl rfl
    | ok d =>
      dsimp only
      right
      generalize LogicalNode.advance_horizon_after_snapshot _ params.last_included_index = r
        at hadvance
      obtain ⟨ln', p | e | u⟩ := r <;> exact hadvance

theorem finalize_failed (depth : Nat) (params : SnapshotParams α) (e : String)
    (ln : LogicalNode α) :
    (finalizeSnapshot depth params (.error e) ln).1.node.log_store = ln.node.log_store := by
  unfold finalizeSnapshot
  cases thaw depth <;> rfl

theorem finalize_points {res : Except String Unit} (hsettled : ln.node.log_store.past = [])
    (hdisk : disk ∈ (finalizeSnapshot depth params res ln).1.node.log_store.crash_points) :
    disk = ln.node.disk ∨ res = .ok () ∧ disk.log = ln.node.disk.log ∧
      (disk.last_committed = ln.node.disk.last_committed ∨
        disk.last_committed = params.last_included_index) := by
  unfold Journal.crash_points at hdisk
  cases res with
  | error e =>
    rw [finalize_failed, hsettled] at hdisk
    exact .inl (List.mem_singleton.mp hdisk)
  | ok u =>
    rcases finalize_store depth params ln with heq | heq | heq
    · rw [heq, hsettled] at hdisk
      exact .inl (List.mem_singleton.mp hdisk)
    · rw [heq, Journal.write_past, hsettled] at hdisk
      rcases List.mem_cons.mp hdisk with rfl | hdisk
      · exact .inr ⟨rfl, rfl, .inl rfl⟩
      · exact .inl (List.mem_singleton.mp hdisk)
    · rw [heq, Journal.write_past, Journal.write_past, hsettled] at hdisk
      rcases List.mem_cons.mp hdisk with rfl | hdisk
      · exact .inr ⟨rfl, rfl, .inr rfl⟩
      rcases List.mem_cons.mp hdisk with rfl | hdisk
      · exact .inr ⟨rfl, rfl, .inl rfl⟩
      · exact .inl (List.mem_singleton.mp hdisk)

/-! ## The start -/

/-- The databases that a crash can leave: a store without a tombstone, with a log that misses
nothing behind the store's index; or one with the tombstone. -/
inductive Left (db : LactoStore) (disk : SledStorage α) : Prop where
  | whole (hclean : db.key_restore_in_progress = false)
      (hpresent : ∀ k, appliedOf db < k → k ≤ disk.last_committed → disk.read_entry k ≠ none) :
      Left db disk
  | stale (hstale : db.key_restore_in_progress = true) : Left db disk

/-- Behind the snapshot's index nothing is missing, whatever of the finalisation is on disk. -/
theorem Follower.restored (hf : Follower ln.node.disk fsm)
    (hahead : appliedOf fsm ≤ params.last_included_index) (snapshot : SnapshotData)
    (hlog : disk.log = ln.node.disk.log)
    (hcommit : disk.last_committed = ln.node.disk.last_committed ∨
      disk.last_committed = params.last_included_index) :
    Left (lacto_fsm.restored params.last_included_index snapshot) disk := by
  refine .whole rfl fun k hk hkd => ?_
  have hlo : params.last_included_index < k := hk
  have hread : disk.read_entry k = ln.node.disk.read_entry k := by
    unfold SledStorage.read_entry
    rw [hlog]
  rw [hread]
  rcases hcommit with heq | heq
  · exact hf.present k (hahead.trans_lt hlo) (heq ▸ hkd)
  · omega

theorem InstallCrash.left (hcrash : InstallCrash c fsm ln depth params db disk)
    (hf : Follower ln.node.disk fsm) (hsettled : ln.node.log_store.past = [])
    (hahead : appliedOf fsm ≤ params.last_included_index) : Left db disk := by
  have hrestoring : ∀ db ∈ (install_snapshot c (.settled fsm) params.last_included_index
      params.data).1.crash_points, Left db ln.node.disk := by
    intro db hdb
    rcases install_crash_points c hdb with rfl | hstale | ⟨snapshot, rfl⟩
    · exact .whole hf.clean hf.present
    · exact .stale hstale
    · exact hf.restored hahead snapshot rfl (.inl rfl)
  cases hcrash with
  | restoring hdb => exact hrestoring db hdb
  | finalizing hres hdisk =>
    rcases finalize_points hsettled hdisk with rfl | ⟨hok, hlog, hcommit⟩
    · exact hrestoring _ List.mem_cons_self
    · obtain ⟨snapshot, hnow⟩ := install_ok c (hres.mp hok)
      rw [hnow]
      exact hf.restored hahead snapshot hlog hcommit

/-- Without a tombstone the store that a crash leaves is the ledger's again. -/
theorem InstallCrash.holds (hcrash : InstallCrash c fsm ln depth params db disk)
    (hl : Ledger c.toCodec ms) (hagreed : Agreed c ms fsm params)
    (hclean : db.key_restore_in_progress = false) : Holds c.toCodec ms db := by
  have hp := hagreed.holds.healthy hl
  obtain ⟨a, sₐ, hla, han, hsₐ, hdata⟩ := hagreed.data
  obtain ⟨sₐ', hsₐ', hcount⟩ := hl.take a
  rw [hsₐ] at hsₐ'
  obtain rfl := (Prod.mk.inj hsₐ').1
  rw [snapshot_eq c hcount.healthy] at hdata
  have hdecode : c.decode_snapshot params.data = .ok (snapshotOf sₐ) := by
    rw [← Except.ok.inj hdata]
    exact c.decode_encode_snapshot _
  have hrestored : Holds c.toCodec ms (restored params.last_included_index (snapshotOf sₐ)) :=
    .restored hl hla han hsₐ
  cases hcrash with
  | finalizing hres hdisk =>
    rw [(install_snapshot_now c (.settled fsm) hp params.last_included_index _ hdecode).2]
    exact hrestored
  | restoring hdb =>
    rcases install_points c hp params.last_included_index hdecode hdb with rfl | hstale | rfl
    · exact hagreed.holds
    · rw [hclean] at hstale
      cases hstale
    · exact hrestored

abbrev Bytes := CommittedMutation ⊕ SnapshotData

end raft_engine.recovery
