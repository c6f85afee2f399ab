-- Snapshots of the store: the three trees in one message, and the restoration
-- from it. The restoration is not one transaction: a tombstone stands while the
-- trees are rewritten, and a start that finds it purges everything.
import LactoSensus.LactoFsm
import LactoSensus.Lib.Journal

open common.types
open common.proto
open ordmap
open journal

namespace lacto_fsm

variable {α : Type}

/-- The message of a snapshot. Its index is not in it. -/
structure SnapshotData where
  inventory : List GroceryItem
  sessions : List SessionRecord
  last_effective_time : Option Timestamp
deriving DecidableEq, Repr

/-- What is written of a snapshot is read back. -/
structure SnapshotCodec (α : Type) extends Codec α where
  encode_snapshot : SnapshotData → α
  decode_snapshot : α → Except String SnapshotData
  decode_encode_snapshot : ∀ d, decode_snapshot (encode_snapshot d) = .ok d

/-- The clock is always in the message, also when it has never been written. -/
def LactoStore.snapshot (c : SnapshotCodec α) (s : LactoStore) : Except FsmError α :=
  match s.check_not_poisoned with
  | .error e => .error e
  | .ok () =>
    match s.get_inventory with
    | .error e => .error e
    | .ok inventory =>
      .ok (c.encode_snapshot ⟨inventory, s.sessions.values, some s.last_effective_time⟩)

/-! ## Restoration -/

/-- The database while a call writes to it. -/
abbrev Db := Journal LactoStore

/-- The first write of a restoration. -/
def set_restoration_tombstone (db : Db) : Db :=
  db.write fun s => { s with key_restore_in_progress := true }

/-- `Tree::clear` is not atomic: it removes one key after the other. -/
def clear_inventory (db : Db) : Db :=
  db.writeAll (db.now.inventory.keys.map fun k s =>
    { s with inventory := s.inventory.erase k })

/-- The same for the sessions. -/
def clear_sessions (db : Db) : Db :=
  db.writeAll (db.now.sessions.keys.map fun k s => { s with sessions := s.sessions.erase k })

/-- Nothing of the former state is left, one write after the other. -/
def clear_state_except_tombstone (db : Db) : Db :=
  let db := clear_inventory db
  let db := clear_sessions db
  let db := db.write fun s => { s with key_last_applied := none }
  db.write fun s => { s with key_last_effective_time := none }

/-- The items in one batch. -/
def restore_inventory_batch (inventory : List GroceryItem) (db : Db) : Db :=
  db.write fun s =>
    { s with inventory := s.inventory.insertAll (inventory.map fun item => (item.item_key, item)) }

/-- The sessions in one batch. -/
def restore_session_batch (sessions : List SessionRecord) (db : Db) : Db :=
  db.write fun s =>
    { s with
      sessions := s.sessions.insertAll (sessions.map fun record => (record.client_id, record)) }

/-- The last batch: the label, the clock, and the end of the tombstone. -/
def finalize_restoration (last_included_index : Nat) (last_effective_time : Option Timestamp)
    (db : Db) : Db :=
  db.write fun s =>
    { s with
      key_last_applied := some last_included_index
      key_last_effective_time := match last_effective_time with
        | some time => some time
        | none => s.key_last_effective_time
      key_restore_in_progress := false }

/-- The trees while the tombstone stands, up to the last batch. -/
def rewriteTrees (snapshot : SnapshotData) (db : Db) : Db :=
  let db := set_restoration_tombstone db
  let db := clear_state_except_tombstone db
  let db := restore_inventory_batch snapshot.inventory db
  restore_session_batch snapshot.sessions db

/-- Nothing is written before the message has been read. -/
def install_snapshot (c : SnapshotCodec α) (db : Db) (last_included_index : Nat) (data : α) :
    Db × Except FsmError Unit :=
  match db.now.check_not_poisoned with
  | .error e => (db, .error e)
  | .ok () =>
    match c.decode_snapshot data with
    | .error e => (db, .error (.Deserialization s!"Failed to decode SnapshotData: {e}"))
    | .ok snapshot =>
      (finalize_restoration last_included_index snapshot.last_effective_time
        (rewriteTrees snapshot db), .ok ())

/-- The call as a whole, without a crash in it. -/
def LactoStore.install_snapshot (c : SnapshotCodec α) (s : LactoStore)
    (last_included_index : Nat) (data : α) : Applied Unit :=
  match lacto_fsm.install_snapshot c (.settled s) last_included_index data with
  | (db, res) => (db.now, res)

/-! ## Starting again -/

/-- As after the first start, one write after the other. -/
def purge_all_data (db : Db) : Db :=
  let db := clear_inventory db
  let db := clear_sessions db
  let db := db.write fun s => { s with key_last_applied := none }
  let db := db.write fun s => { s with key_last_effective_time := none }
  db.write fun s => { s with key_restore_in_progress := false }

/-- `LactoStore::new` on the database that a crash left: the flag is gone, and a
stale restoration is purged. -/
def reopen (s : LactoStore) : Db :=
  let db := Journal.settled { s with poisoned := false }
  if s.key_restore_in_progress then purge_all_data db else db

/-! ## What they come to -/

theorem erase_keys {V : Type} (m : OrdMap String V) (ks : List String) (k : String) :
    (ks.foldl OrdMap.erase m).get? k = if k ∈ ks then none else m.get? k := by
  induction ks generalizing m with
  | nil => simp
  | cons j ks ih =>
    rw [List.foldl_cons, ih, OrdMap.get?_erase]
    by_cases hk : k ∈ ks <;> by_cases hj : k = j <;> simp [hk, hj]

theorem erase_all {V : Type} (m : OrdMap String V) : m.keys.foldl OrdMap.erase m = .empty := by
  apply OrdMap.ext_get?
  intro k
  rw [erase_keys, OrdMap.get?_empty]
  split
  · rfl
  · rename_i hk
    cases hv : m.get? k with
    | none => rfl
    | some v =>
      have hmem := (m.get?_eq_some_iff k v).mp hv
      exact absurd (List.mem_map_of_mem hmem) hk

@[simp] theorem clear_inventory_now (db : Db) :
    (clear_inventory db).now = { db.now with inventory := .empty } := by
  have hfold : ∀ (ks : List String) (s : LactoStore),
      (ks.map fun k (s : LactoStore) => { s with inventory := s.inventory.erase k }).foldl
        (fun s f => f s) s = { s with inventory := ks.foldl OrdMap.erase s.inventory } := by
    intro ks
    induction ks with
    | nil => intro s; rfl
    | cons k ks ih =>
      intro s
      simp only [List.map_cons, List.foldl_cons]
      rw [ih]
  unfold clear_inventory
  rw [Journal.writeAll_now, hfold, erase_all]

@[simp] theorem clear_sessions_now (db : Db) :
    (clear_sessions db).now = { db.now with sessions := .empty } := by
  have hfold : ∀ (ks : List String) (s : LactoStore),
      (ks.map fun k (s : LactoStore) => { s with sessions := s.sessions.erase k }).foldl
        (fun s f => f s) s = { s with sessions := ks.foldl OrdMap.erase s.sessions } := by
    intro ks
    induction ks with
    | nil => intro s; rfl
    | cons k ks ih =>
      intro s
      simp only [List.map_cons, List.foldl_cons]
      rw [ih]
  unfold clear_sessions
  rw [Journal.writeAll_now, hfold, erase_all]

/-- The store that a snapshot stands for, under a label. -/
def restored (last_included_index : Nat) (snapshot : SnapshotData) : LactoStore where
  inventory := OrdMap.empty.insertAll (snapshot.inventory.map fun item => (item.item_key, item))
  sessions := OrdMap.empty.insertAll
    (snapshot.sessions.map fun record => (record.client_id, record))
  key_last_applied := some last_included_index
  key_last_effective_time := snapshot.last_effective_time
  key_restore_in_progress := false
  poisoned := false

/-- Nothing of the former content is left. -/
theorem install_snapshot_now (c : SnapshotCodec α) (db : Db) (hp : db.now.poisoned = false)
    (last_included_index : Nat) (snapshot : SnapshotData) {data : α}
    (hdata : c.decode_snapshot data = .ok snapshot) :
    (install_snapshot c db last_included_index data).2 = .ok () ∧
      (install_snapshot c db last_included_index data).1.now =
        restored last_included_index snapshot := by
  unfold install_snapshot LactoStore.check_not_poisoned
  rw [hp, hdata]
  refine ⟨rfl, ?_⟩
  simp [rewriteTrees, set_restoration_tombstone, clear_state_except_tombstone,
    restore_inventory_batch, restore_session_batch, finalize_restoration, restored, hp]
  cases snapshot.last_effective_time <;> rfl

theorem LactoStore.install_snapshot_eq (c : SnapshotCodec α) {s : LactoStore}
    (hp : s.poisoned = false) (last_included_index : Nat) (snapshot : SnapshotData) {data : α}
    (hdata : c.decode_snapshot data = .ok snapshot) :
    s.install_snapshot c last_included_index data =
      (restored last_included_index snapshot, .ok ()) := by
  have h := install_snapshot_now c (.settled s) hp last_included_index snapshot hdata
  unfold LactoStore.install_snapshot
  generalize lacto_fsm.install_snapshot c (.settled s) last_included_index data = r at h
  obtain ⟨db, res⟩ := r
  exact Prod.ext h.2 h.1

/-- A tree whose values name their keys is what its values are restored to. -/
theorem restore_values {V : Type} (m : OrdMap String V) (key : V → String)
    (hkey : ∀ k v, m.get? k = some v → key v = k) :
    OrdMap.empty.insertAll (m.values.map fun v => (key v, v)) = m := by
  have hentries : m.values.map (fun v => (key v, v)) = m.entries := by
    unfold OrdMap.values
    rw [List.map_map]
    conv_rhs => rw [← List.map_id m.entries]
    apply List.map_congr_left
    rintro ⟨k, v⟩ hmem
    have := hkey k v ((m.get?_eq_some_iff k v).mpr hmem)
    simp [this]
  rw [hentries]
  apply OrdMap.ext_get?
  intro k
  cases hv : (OrdMap.empty.insertAll m.entries : OrdMap String V).get? k with
  | none =>
    have hnot : k ∉ m.entries.map Prod.fst := by
      intro hmem
      exact (OrdMap.get?_insertAll_ne_none _ _ _).mpr (.inr hmem) hv
    cases hm : m.get? k with
    | none => rfl
    | some v =>
      exact absurd (List.mem_map_of_mem ((m.get?_eq_some_iff k v).mp hm)) hnot
  | some v =>
    rcases OrdMap.get?_insertAll_cases _ _ hv with hempty | hmem
    · cases hempty
    · exact ((m.get?_eq_some_iff k v).mpr hmem).symm

end lacto_fsm
