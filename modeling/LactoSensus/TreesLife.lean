-- The life of the trees: restorations that are not atomic, a crash between any two of
-- their writes, the purge of the start after it and a crash of that. Whatever the trees
-- answer over such a life the store may answer as well, so nothing that was written there
-- is ever called corrupt.
import LactoSensus.LabelSkew
import LactoSensus.LactoTrees
import LactoSensus.Lib.Durable
import LactoSensus.Lib.Protobuf

open common.types
open common.proto
open ordmap
open journal
open bigendian
open durable

namespace lacto_fsm.sled

variable {α : Type} {w : Wire} {b : LactoTrees} {s : LactoStore}

/-! ## Snapshots -/

/-- The loop over the sessions; the first record that cannot be read ends it. -/
def decodeSessions (w : Wire) : List Bytes → Except FsmError (List SessionRecord)
  | [] => .ok []
  | v :: vs =>
    match w.decode_record v with
    | .error e => .error (.Deserialization s!"Failed to decode SessionRecord: {e}")
    | .ok record => (decodeSessions w vs).map (record :: ·)

/-- A session that cannot be read is an error; an item that cannot be read is left out. -/
def LactoTrees.snapshot (w : Wire) (c : SnapshotCodec α) (b : LactoTrees) : Except FsmError α :=
  match b.check_not_poisoned with
  | .error e => .error e
  | .ok () =>
    match b.get_inventory w with
    | .error e => .error e
    | .ok inventory =>
      match decodeSessions w b.sessions.values with
      | .error e => .error e
      | .ok sessions =>
        match b.last_effective_time w with
        | .error e => .error e
        | .ok time => .ok (c.encode_snapshot ⟨inventory, sessions, some time⟩)

/-- The database while a call writes to it. -/
abbrev Db := Journal LactoTrees

/-- Remove one item. -/
def eraseItem (k : Bytes) (b : LactoTrees) : LactoTrees :=
  { b with inventory := b.inventory.erase k }

/-- Remove one session. -/
def eraseSession (k : Bytes) (b : LactoTrees) : LactoTrees :=
  { b with sessions := b.sessions.erase k }

/-- Remove one key of the metadata. -/
def eraseMeta (k : Bytes) (b : LactoTrees) : LactoTrees := { b with «meta» := b.meta.erase k }

/-- The first write of a restoration. -/
def set_restoration_tombstone (db : Db) : Db :=
  db.write fun b =>
    { b with «meta» := b.meta.insert KEY_RESTORE_IN_PROGRESS (utf8.encode "true") }

/-- `Tree::clear` is not atomic: it removes one key after the other. -/
def clear_inventory (db : Db) : Db := db.writeAll (db.now.inventory.keys.map eraseItem)

/-- The same for the sessions. -/
def clear_sessions (db : Db) : Db := db.writeAll (db.now.sessions.keys.map eraseSession)

/-- Every key but the tombstone is removed. -/
def clear_state_except_tombstone (db : Db) : Db :=
  let db := clear_inventory db
  let db := clear_sessions db
  db.writeAll ((db.now.meta.keys.filter (· ≠ KEY_RESTORE_IN_PROGRESS)).map eraseMeta)

/-- The items in one batch. -/
def restore_inventory_batch (w : Wire) (inventory : List GroceryItem) (db : Db) : Db :=
  db.write fun b =>
    { b with
      inventory := b.inventory.insertAll
        (inventory.map fun item => (utf8.encode item.item_key, w.encode_item item)) }

/-- The sessions in one batch. -/
def restore_session_batch (w : Wire) (sessions : List SessionRecord) (db : Db) : Db :=
  db.write fun b =>
    { b with
      sessions := b.sessions.insertAll
        (sessions.map fun record => (utf8.encode record.client_id, w.encode_record record)) }

/-- The last batch: the label, the clock, and the end of the tombstone. -/
def finalize_restoration (w : Wire) (last_included_index : Nat)
    (last_effective_time : Option Timestamp) (db : Db) : Db :=
  db.write fun b =>
    let m := b.meta.insert KEY_LAST_APPLIED (to_be_bytes last_included_index)
    let m := match last_effective_time with
      | some time => m.insert KEY_LAST_EFFECTIVE_TIME (w.encode_timestamp time)
      | none => m
    { b with «meta» := m.erase KEY_RESTORE_IN_PROGRESS }

/-- The trees while the tombstone stands, up to the last batch. -/
def rewriteTrees (w : Wire) (snapshot : SnapshotData) (db : Db) : Db :=
  let db := set_restoration_tombstone db
  let db := clear_state_except_tombstone db
  let db := restore_inventory_batch w snapshot.inventory db
  restore_session_batch w snapshot.sessions db

/-- Nothing is written before the message has been read. -/
def install_snapshot (w : Wire) (c : SnapshotCodec α) (db : Db) (last_included_index : Nat)
    (data : α) : Db × Except FsmError Unit :=
  match db.now.check_not_poisoned with
  | .error e => (db, .error e)
  | .ok () =>
    match c.decode_snapshot data with
    | .error e => (db, .error (.Deserialization s!"Failed to decode SnapshotData: {e}"))
    | .ok snapshot =>
      (finalize_restoration w last_included_index snapshot.last_effective_time
        (rewriteTrees w snapshot db), .ok ())

/-- All three trees are cleared. -/
def purge_all_data (db : Db) : Db :=
  let db := clear_inventory db
  let db := clear_sessions db
  db.writeAll (db.now.meta.keys.map eraseMeta)

/-- `LactoStore::new` on the database that a crash left. -/
def reopen (b : LactoTrees) : Db :=
  let db := Journal.settled { b with poisoned := false }
  if b.is_restoration_stale then purge_all_data db else db

theorem decodeSessions_back {records : List SessionRecord} (h : ∀ r ∈ records, FitsRecord r) :
    decodeSessions w (records.map w.encode_record) = .ok records := by
  induction records with
  | nil => rfl
  | cons r records ih =>
    rw [List.map_cons, decodeSessions, w.record_back r (h r List.mem_cons_self),
      ih fun r hr => h r (List.mem_cons_of_mem _ hr)]
    rfl

theorem Held.snapshot (h : Held w b s) (c : SnapshotCodec α) :
    b.snapshot w c = s.snapshot c := by
  have hsessions : decodeSessions w b.sessions.values = .ok s.sessions.values := by
    rw [h.sessions.values_eq]
    refine decodeSessions_back fun r hr => ?_
    obtain ⟨k, hk⟩ := mem_values hr
    exact h.records k r hk
  unfold LactoTrees.snapshot LactoStore.snapshot
  rw [h.check_not_poisoned, h.get_inventory]
  cases s.check_not_poisoned with
  | error e => rfl
  | ok _ =>
    cases s.get_inventory with
    | error e => rfl
    | ok inventory =>
      dsimp only
      rw [hsessions, h.last_effective_time]

/-! ## Restoration -/

theorem Held.erase_meta (h : Held w b s) (k : Bytes) :
    ∀ j v, (eraseMeta k b).meta.get? j = some v → j ∈ metaKeys := by
  intro j v hj
  change (b.meta.erase k).get? j = some v at hj
  rw [OrdMap.get?_erase] at hj
  split at hj
  · cases hj
  · exact h.keys j v hj

theorem Held.erase_applied (h : Held w b s) :
    Held w (eraseMeta KEY_LAST_APPLIED b) { s with key_last_applied := none } :=
  { h with
    last_applied := .erased to_be_bytes b.meta KEY_LAST_APPLIED
    effective_time := h.effective_time.frame_erase applied_ne_time.symm
    restore := by
      change (b.meta.erase _).get? _ = _
      rw [OrdMap.get?_erase, if_neg applied_ne_restore.symm]
      exact h.restore
    keys := h.erase_meta _ }

theorem Held.erase_time (h : Held w b s) :
    Held w (eraseMeta KEY_LAST_EFFECTIVE_TIME b) { s with key_last_effective_time := none } :=
  { h with
    last_applied := h.last_applied.frame_erase applied_ne_time
    effective_time := .erased w.encode_timestamp b.meta KEY_LAST_EFFECTIVE_TIME
    restore := by
      change (b.meta.erase _).get? _ = _
      rw [OrdMap.get?_erase, if_neg time_ne_restore.symm]
      exact h.restore
    keys := h.erase_meta _ }

theorem Held.erase_restore (h : Held w b s) :
    Held w (eraseMeta KEY_RESTORE_IN_PROGRESS b) { s with key_restore_in_progress := false } :=
  { h with
    last_applied := h.last_applied.frame_erase applied_ne_restore
    effective_time := h.effective_time.frame_erase time_ne_restore
    restore := by
      change (b.meta.erase _).get? _ = _
      rw [OrdMap.get?_erase, if_pos rfl]
      rfl
    keys := h.erase_meta _ }

theorem Held.set_tombstone (h : Held w b s) :
    Held w { b with «meta» := b.meta.insert KEY_RESTORE_IN_PROGRESS (utf8.encode "true") }
      { s with key_restore_in_progress := true } :=
  { h with
    last_applied := h.last_applied.frame applied_ne_restore _
    effective_time := h.effective_time.frame time_ne_restore _
    restore := OrdMap.get?_insert_self _ _ _
    keys := fun k v hk => by
      rw [OrdMap.get?_insert] at hk
      split at hk
      · simp [metaKeys, *]
      · exact h.keys k v hk }

theorem metaKeys_sorted : metaKeys.Pairwise (· < ·) := by
  have h₁ : KEY_LAST_APPLIED < KEY_LAST_EFFECTIVE_TIME := utf8.encode_strictMono (by decide)
  have h₂ : KEY_LAST_EFFECTIVE_TIME < KEY_RESTORE_IN_PROGRESS :=
    utf8.encode_strictMono (by decide)
  simp [metaKeys, h₁, h₂, h₁.trans h₂]

/-- Which of the keys are there. -/
theorem Held.meta_keys (h : Held w b s) :
    b.meta.keys = ([KEY_LAST_APPLIED].filter fun _ => s.key_last_applied.isSome) ++
      (([KEY_LAST_EFFECTIVE_TIME].filter fun _ => s.key_last_effective_time.isSome) ++
        ([KEY_RESTORE_IN_PROGRESS].filter fun _ => s.key_restore_in_progress)) := by
  have hrestore : (b.meta.get? KEY_RESTORE_IN_PROGRESS).isSome = s.key_restore_in_progress := by
    rw [h.restore]
    cases s.key_restore_in_progress <;> rfl
  rw [b.meta.keys_eq_filter metaKeys_sorted h.keys]
  simp only [metaKeys, List.filter_cons, List.filter_nil, h.last_applied.data,
    h.effective_time.data, hrestore, Option.isSome_map]
  split <;> split <;> split <;> rfl

variable {db : Db} {db' : lacto_fsm.Db}

theorem clear_inventory_mirrored (h : Mirrored (Held w) db db') :
    Mirrored (Held w) (clear_inventory db) (lacto_fsm.clear_inventory db') := by
  unfold clear_inventory lacto_fsm.clear_inventory
  rw [h.now.inventory.keys_eq, List.map_map]
  exact h.writeAll fun k _ b s hbs => hbs.erase_item k

theorem clear_sessions_mirrored (h : Mirrored (Held w) db db') :
    Mirrored (Held w) (clear_sessions db) (lacto_fsm.clear_sessions db') := by
  unfold clear_sessions lacto_fsm.clear_sessions
  rw [h.now.sessions.keys_eq, List.map_map]
  exact h.writeAll fun k _ b s hbs => hbs.erase_session k

/-- A key is removed if it is there; where it is not, the store has nothing to remove. -/
theorem erase_if (h : Mirrored (Held w) db db') {k : Bytes} {there : Bool}
    {g : LactoStore → LactoStore} (hheld : ∀ b s, Held w b s → Held w (eraseMeta k b) (g s))
    (hskip : there = false → g db'.now = db'.now) :
    Mirrored (Held w) (db.writeAll (([k].filter fun _ => there).map eraseMeta)) (db'.write g) := by
  cases there with
  | true => exact h.write (hheld _ _ h.now)
  | false => exact h.skip (hskip rfl)

theorem clear_state_mirrored (h : Mirrored (Held w) db db') :
    Mirrored (Held w) (clear_state_except_tombstone db)
      (lacto_fsm.clear_state_except_tombstone db') := by
  have h₁ := clear_sessions_mirrored (clear_inventory_mirrored h)
  unfold clear_state_except_tombstone lacto_fsm.clear_state_except_tombstone
  dsimp only
  generalize clear_sessions (clear_inventory db) = db₁ at *
  generalize lacto_fsm.clear_sessions (lacto_fsm.clear_inventory db') = db₁' at *
  have hkeys : db₁.now.meta.keys.filter (· ≠ KEY_RESTORE_IN_PROGRESS) =
      ([KEY_LAST_APPLIED].filter fun _ => db₁'.now.key_last_applied.isSome) ++
        [KEY_LAST_EFFECTIVE_TIME].filter fun _ => db₁'.now.key_last_effective_time.isSome := by
    rw [h₁.now.meta_keys]
    simp only [List.filter_append, List.filter_cons, List.filter_nil]
    split <;> split <;> split <;> simp [applied_ne_restore, time_ne_restore]
  rw [hkeys, List.map_append, writeAll_append]
  refine erase_if (erase_if h₁ (fun b s hbs => hbs.erase_applied) ?_)
    (fun b s hbs => hbs.erase_time) ?_
  · intro hnone
    rw [Option.isSome_eq_false_iff, Option.isNone_iff_eq_none] at hnone
    rw [← hnone]
  · intro hnone
    rw [Option.isSome_eq_false_iff, Option.isNone_iff_eq_none] at hnone
    rw [Journal.write_now, ← hnone]

/-- What the types of a snapshot promise. -/
structure FitsSnapshot (snapshot : SnapshotData) : Prop where
  items : ∀ item ∈ snapshot.inventory, FitsItem item
  records : ∀ record ∈ snapshot.sessions, FitsRecord record
  time : ∀ t, snapshot.last_effective_time = some t → FitsTime t

theorem set_tombstone_mirrored (h : Mirrored (Held w) db db') :
    Mirrored (Held w) (set_restoration_tombstone db)
      (lacto_fsm.set_restoration_tombstone db') := by
  apply h.write
  exact h.now.set_tombstone

theorem restore_inventory_mirrored (h : Mirrored (Held w) db db') {items : List GroceryItem}
    (hitems : ∀ item ∈ items, FitsItem item) :
    Mirrored (Held w) (restore_inventory_batch w items db)
      (lacto_fsm.restore_inventory_batch items db') := by
  refine h.write { h.now with inventory := ?_, items := fun k i hi => ?_ }
  · have hkeys : ∀ e ∈ items.map fun item => (item.item_key, item), e.1 ∈ Set.univ :=
      fun e _ => Set.mem_univ _
    have hall := h.now.inventory.insertAll encode_mono hkeys
    rw [List.map_map] at hall
    exact hall
  · rcases OrdMap.get?_insertAll_cases _ _ hi with hold | hnew
    · exact h.now.items k i hold
    · obtain ⟨item, hitem, heq⟩ := List.mem_map.mp hnew
      obtain ⟨-, rfl⟩ := Prod.mk.inj heq
      exact hitems item hitem

theorem restore_session_mirrored (h : Mirrored (Held w) db db') {records : List SessionRecord}
    (hrecords : ∀ record ∈ records, FitsRecord record) :
    Mirrored (Held w) (restore_session_batch w records db)
      (lacto_fsm.restore_session_batch records db') := by
  refine h.write { h.now with sessions := ?_, records := fun k r hr => ?_ }
  · have hkeys : ∀ e ∈ records.map fun record => (record.client_id, record), e.1 ∈ Set.univ :=
      fun e _ => Set.mem_univ _
    have hall := h.now.sessions.insertAll encode_mono hkeys
    rw [List.map_map] at hall
    exact hall
  · rcases OrdMap.get?_insertAll_cases _ _ hr with hold | hnew
    · exact h.now.records k r hold
    · obtain ⟨record, hrecord, heq⟩ := List.mem_map.mp hnew
      obtain ⟨-, rfl⟩ := Prod.mk.inj heq
      exact hrecords record hrecord

theorem finalize_mirrored (h : Mirrored (Held w) db db') {index : Nat} (hindex : index ∈ u64)
    {time : Option Timestamp} (htime : ∀ t, time = some t → FitsTime t) :
    Mirrored (Held w) (finalize_restoration w index time db)
      (lacto_fsm.finalize_restoration index time db') := by
  have hindexed := h.now.set_last_applied hindex
  apply h.write
  cases time with
  | none => exact hindexed.erase_restore
  | some t => exact (hindexed.set_effective_time (htime t rfl)).erase_restore

theorem rewrite_mirrored (h : Mirrored (Held w) db db') {snapshot : SnapshotData}
    (hfits : FitsSnapshot snapshot) :
    Mirrored (Held w) (rewriteTrees w snapshot db) (lacto_fsm.rewriteTrees snapshot db') := by
  have hcleared := clear_state_mirrored (set_tombstone_mirrored h)
  exact restore_session_mirrored (restore_inventory_mirrored hcleared hfits.items) hfits.records

theorem install_mirrored (h : Held w b s) (c : SnapshotCodec α) {index : Nat}
    (hindex : index ∈ u64) {data : α}
    (hdata : ∀ snapshot, c.decode_snapshot data = .ok snapshot → FitsSnapshot snapshot) :
    Mirrored (Held w) (install_snapshot w c (.settled b) index data).1
        (lacto_fsm.install_snapshot c (.settled s) index data).1 ∧
      (install_snapshot w c (.settled b) index data).2 =
        (lacto_fsm.install_snapshot c (.settled s) index data).2 := by
  have h₀ : Mirrored (Held w) (.settled b) (.settled s) := .settled h
  unfold install_snapshot lacto_fsm.install_snapshot
  rw [Journal.settled_now, Journal.settled_now, h.check_not_poisoned]
  cases s.check_not_poisoned with
  | error e => exact ⟨h₀, rfl⟩
  | ok _ =>
    dsimp only
    cases hdec : c.decode_snapshot data with
    | error e => exact ⟨h₀, rfl⟩
    | ok snapshot =>
      have hfits := hdata snapshot hdec
      exact ⟨finalize_mirrored (rewrite_mirrored h₀ hfits) hindex hfits.time, rfl⟩

/-! ## Starting again -/

theorem purge_mirrored (h : Mirrored (Held w) db db') :
    Mirrored (Held w) (purge_all_data db) (lacto_fsm.purge_all_data db') := by
  have h₁ := clear_sessions_mirrored (clear_inventory_mirrored h)
  unfold purge_all_data lacto_fsm.purge_all_data
  dsimp only
  generalize clear_sessions (clear_inventory db) = db₁ at *
  generalize lacto_fsm.clear_sessions (lacto_fsm.clear_inventory db') = db₁' at *
  rw [h₁.now.meta_keys, List.map_append, List.map_append, writeAll_append, writeAll_append]
  refine erase_if (erase_if (erase_if h₁ (fun b s hbs => hbs.erase_applied) ?_)
    (fun b s hbs => hbs.erase_time) ?_) (fun b s hbs => hbs.erase_restore) ?_
  · intro hnone
    rw [Option.isSome_eq_false_iff, Option.isNone_iff_eq_none] at hnone
    rw [← hnone]
  · intro hnone
    rw [Option.isSome_eq_false_iff, Option.isNone_iff_eq_none] at hnone
    rw [Journal.write_now, ← hnone]
  · intro hnone
    rw [Journal.write_now, Journal.write_now, ← hnone]

theorem Held.is_restoration_stale (h : Held w b s) :
    b.is_restoration_stale = s.key_restore_in_progress := by
  unfold LactoTrees.is_restoration_stale
  rw [h.restore]
  cases s.key_restore_in_progress <;> simp

theorem reopen_mirrored (h : Held w b s) :
    Mirrored (Held w) (reopen b) (lacto_fsm.reopen s) := by
  have h₀ : Mirrored (Held w) (.settled { b with poisoned := false })
      (.settled { s with poisoned := false }) := .settled { h with poisoned := rfl }
  unfold reopen lacto_fsm.reopen
  rw [h.is_restoration_stale]
  dsimp only
  split
  · exact purge_mirrored h₀
  · exact h₀

/-! ## The life of a store -/

/-- The calls of the store. -/
inductive StoreOp (α : Type) where
  | Apply (index : Nat) (data : α)
  | Snapshot
  | InstallSnapshot (index : Nat) (data : α)
  | LastAppliedIndex
  | LastEffectiveTime
  | CheckSession (client_id : String) (sequence_id : Nat)
  | GetInventory
  | CurrentVersion

/-- What a call returns. -/
inductive Answer (α : Type) where
  | Done
  | Data (data : α)
  | Index (index : Nat)
  | Time (t : Timestamp)
  | Session (record : Option SessionRecord)
  | Inventory (items : List GroceryItem)
deriving DecidableEq

/-- What the types of the arguments promise. -/
def StoreOp.Fits (c : SnapshotCodec α) : StoreOp α → Prop
  | .Apply _ data => ∀ m, c.decode data = .ok m → FitsMutation m
  | .InstallSnapshot index data =>
    index ∈ u64 ∧ ∀ snapshot, c.decode_snapshot data = .ok snapshot → FitsSnapshot snapshot
  | _ => True

/-- A call of `apply` writes at most once. -/
def onDisk (w : Wire) (c : SnapshotCodec α) : Store LactoTrees (StoreOp α)
    (Except FsmError (Answer α)) where
  call op b :=
    match op with
    | .Apply index data =>
      ((Journal.settled b).write fun b => (b.apply w c.toCodec index data).1,
        (b.apply w c.toCodec index data).2.map fun _ => .Done)
    | .Snapshot => (.settled b, (b.snapshot w c).map .Data)
    | .InstallSnapshot index data =>
      ((install_snapshot w c (.settled b) index data).1,
        (install_snapshot w c (.settled b) index data).2.map fun _ => .Done)
    | .LastAppliedIndex => (.settled b, b.last_applied_index.map .Index)
    | .LastEffectiveTime => (.settled b, (b.last_effective_time w).map .Time)
    | .CheckSession client_id sequence_id =>
      (.settled b, (b.check_session w client_id sequence_id).map .Session)
    | .GetInventory => (.settled b, (b.get_inventory w).map .Inventory)
    | .CurrentVersion => (.settled b, b.current_version.map .Index)
  reopen := reopen

/-- The same calls on the store of the model. -/
def inMaps (c : SnapshotCodec α) : Store LactoStore (StoreOp α) (Except FsmError (Answer α)) where
  call op s :=
    match op with
    | .Apply index data =>
      ((Journal.settled s).write fun s => (s.apply c.toCodec index data).1,
        (s.apply c.toCodec index data).2.map fun _ => .Done)
    | .Snapshot => (.settled s, (s.snapshot c).map .Data)
    | .InstallSnapshot index data =>
      ((lacto_fsm.install_snapshot c (.settled s) index data).1,
        (lacto_fsm.install_snapshot c (.settled s) index data).2.map fun _ => .Done)
    | .LastAppliedIndex => (.settled s, s.last_applied_index.map .Index)
    | .LastEffectiveTime => (.settled s, .ok (.Time s.last_effective_time))
    | .CheckSession client_id sequence_id =>
      (.settled s, (s.check_session client_id sequence_id).map .Session)
    | .GetInventory => (.settled s, s.get_inventory.map .Inventory)
    | .CurrentVersion => (.settled s, s.current_version.map .Index)
  reopen := lacto_fsm.reopen

theorem apply_mirrored (h : Held w b s) (c : Codec α) (index : Nat) {data : α}
    (hdata : ∀ m, c.decode data = .ok m → FitsMutation m) :
    Mirrored (Held w) ((Journal.settled b).write fun b => (b.apply w c index data).1)
      ((Journal.settled s).write fun s => (s.apply c index data).1) := by
  apply Mirrored.write (.settled h)
  exact (h.apply c index hdata).held

theorem trees_refine (w : Wire) (c : SnapshotCodec α) :
    Refines (onDisk w c) (inMaps c) (Held w) (StoreOp.Fits c) where
  answer := by
    intro op b s hop h
    cases op with
    | Apply index data =>
      exact congrArg (Except.map fun _ => Answer.Done) (h.apply c.toCodec index hop).res
    | Snapshot => exact congrArg (Except.map Answer.Data) (h.snapshot c)
    | InstallSnapshot index data =>
      exact congrArg (Except.map fun _ => Answer.Done) (install_mirrored h c hop.1 hop.2).2
    | LastAppliedIndex => exact congrArg (Except.map Answer.Index) h.last_applied_index
    | LastEffectiveTime => exact congrArg (Except.map Answer.Time) h.last_effective_time
    | CheckSession client_id sequence_id =>
      exact congrArg (Except.map Answer.Session) (h.check_session client_id sequence_id)
    | GetInventory => exact congrArg (Except.map Answer.Inventory) h.get_inventory
    | CurrentVersion => exact congrArg (Except.map Answer.Index) h.current_version
  call := by
    intro op b s hop h
    cases op with
    | Apply index data => exact apply_mirrored h c.toCodec index hop
    | InstallSnapshot index data => exact (install_mirrored h c hop.1 hop.2).1
    | _ => exact .settled h
  reopen := fun _ _ h => reopen_mirrored h

/-- Whatever the trees show over a life, with calls and starts cut short wherever they may be,
the store of items and sessions may show as well. -/
theorem trees_live_as_store (w : Wire) (c : SnapshotCodec α)
    {evs : List (Event (StoreOp α) (Except FsmError (Answer α)))} {x : Life LactoTrees}
    (htrace : Trace (onDisk w c) (.Up .new) evs x) (hfits : ∀ ev ∈ evs, ev.Meets (StoreOp.Fits c)) :
    ∃ y, Trace (inMaps c) (.Up .new) evs y := by
  obtain ⟨y, hy, -⟩ := (trees_refine w c).trace htrace (.up (held_new w)) hfits
  exact ⟨y, hy⟩

/-! ## The messages as the schema has them -/

open protobuf (numberField bytesField optionalField)

/-- The message of a time. -/
def encodeTimestamp (t : Timestamp) : Bytes :=
  protobuf.encode (numberField 1 (protobuf.signed t.seconds) ++
    (numberField 2 (protobuf.signed t.nanos) ++ []))

/-- The time of a message. -/
def decodeTimestamp (data : Bytes) : Except String Timestamp :=
  match protobuf.decode data with
  | none => .error "invalid wire format"
  | some m => .ok ⟨protobuf.int64 (protobuf.number m 1), protobuf.int32 (protobuf.number m 2)⟩

theorem decodeTimestamp_back {t : Timestamp} (ht : FitsTime t) :
    decodeTimestamp (encodeTimestamp t) = .ok t := by
  obtain ⟨seconds, nanos⟩ := t
  unfold decodeTimestamp encodeTimestamp
  rw [protobuf.decode_encode]
  simp [-List.append_nil, protobuf.number, protobuf.int64_signed ht.1, protobuf.int32_signed ht.2]

/-- A message within a message. -/
def optionalTime : Option Bytes → Except String (Option Timestamp)
  | none => .ok none
  | some data => (decodeTimestamp data).map some

theorem optionalTime_back {t : Option Timestamp} (ht : ∀ u, t = some u → FitsTime u) :
    optionalTime (t.map encodeTimestamp) = .ok t := by
  cases t with
  | none => rfl
  | some u =>
    change (decodeTimestamp (encodeTimestamp u)).map some = _
    rw [decodeTimestamp_back (ht u rfl)]
    rfl

/-- The messages of items, sessions and times. -/
def schema : Wire where
  encode_item item :=
    protobuf.encode (bytesField 1 (utf8.encode item.item_key) ++
      (bytesField 2 (utf8.encode item.quantity) ++ (bytesField 3 (utf8.encode item.unit) ++
        (bytesField 4 (utf8.encode item.category) ++
          (bytesField 5 (utf8.encode item.last_modifier_id) ++
            (optionalField 6 (item.last_activity.map encodeTimestamp) ++
              (numberField 7 item.state_version ++
                (bytesField 8 (utf8.encode item.display_unit) ++ []))))))))
  decode_item data :=
    match protobuf.decode data with
    | none => .error "invalid wire format"
    | some m => do
      let item_key ← utf8.decode (protobuf.bytes m 1)
      let quantity ← utf8.decode (protobuf.bytes m 2)
      let unit ← utf8.decode (protobuf.bytes m 3)
      let category ← utf8.decode (protobuf.bytes m 4)
      let last_modifier_id ← utf8.decode (protobuf.bytes m 5)
      let last_activity ← optionalTime (protobuf.optional m 6)
      let display_unit ← utf8.decode (protobuf.bytes m 8)
      .ok ⟨item_key, quantity, unit, category, last_modifier_id, last_activity,
        protobuf.number m 7, display_unit⟩
  encode_record record :=
    protobuf.encode (bytesField 1 (utf8.encode record.client_id) ++
      (numberField 2 record.last_sequence_id ++ (numberField 3 (protobuf.signed record.status) ++
        (numberField 4 record.log_index ++
          (bytesField 5 (utf8.encode record.moral_justification) ++
            (optionalField 6 (record.last_activity_effective_time.map encodeTimestamp) ++ []))))))
  decode_record data :=
    match protobuf.decode data with
    | none => .error "invalid wire format"
    | some m => do
      let client_id ← utf8.decode (protobuf.bytes m 1)
      let moral_justification ← utf8.decode (protobuf.bytes m 5)
      let time ← optionalTime (protobuf.optional m 6)
      .ok ⟨client_id, protobuf.number m 2, protobuf.int32 (protobuf.number m 3),
        protobuf.number m 4, moral_justification, time⟩
  encode_timestamp := encodeTimestamp
  decode_timestamp := decodeTimestamp
  item_back item h := by
    obtain ⟨item_key, quantity, unit, category, last_modifier_id, time, version, display⟩ := item
    rw [protobuf.decode_encode]
    simp [-List.append_nil, protobuf.number, protobuf.bytes, protobuf.optional,
      utf8.decode_encode, optionalTime_back h.2, bind, Except.bind]
  record_back record h := by
    obtain ⟨client_id, last, status, log_index, moral, time⟩ := record
    rw [protobuf.decode_encode]
    simp [-List.append_nil, protobuf.number, protobuf.bytes, protobuf.optional,
      utf8.decode_encode, optionalTime_back h.2.2.2, protobuf.int32_signed h.2.1, bind,
      Except.bind]
  timestamp_back _ h := decodeTimestamp_back h

/-! ## A life -/

/-- A snapshot without sessions, its one item under an id that no session has. -/
def oatsSnapshot : SnapshotData :=
  ⟨[⟨"oats", "5", "g", "Grains", "bob", some ⟨9, 0⟩, 7, "g"⟩], [], some ⟨9, 0⟩⟩

theorem oats_fits : FitsSnapshot oatsSnapshot := by
  constructor <;> simp [oatsSnapshot, FitsItem, FitsTime]

/-- An entry, a restoration that is cut short, and a start after it that finds nothing. -/
def cutShort : List (Event (StoreOp (CommittedMutation ⊕ SnapshotData))
    (Except FsmError (Answer (CommittedMutation ⊕ SnapshotData)))) :=
  [.Answered (.Apply 1 (.inl (putMilk 7))) (.ok .Done),
    .CrashedIn (.InstallSnapshot 7 (.inr oatsSnapshot)), .Opened,
    .Answered .GetInventory (.ok (.Inventory []))]

theorem trees_live_as_store_cut : ∃ y, Trace (inMaps plainSnapshots) (.Up .new) cutShort y := by
  have href := trees_refine schema plainSnapshots
  have hput : StoreOp.Fits plainSnapshots (.Apply 1 (.inl (putMilk 7))) := by
    intro m hm
    obtain rfl := Except.ok.inj hm
    simp [FitsMutation, putMilk, FitsTime]
  have hinstall : StoreOp.Fits plainSnapshots (.InstallSnapshot 7 (.inr oatsSnapshot)) := by
    refine ⟨by simp, fun snapshot hsnapshot => ?_⟩
    obtain rfl := Except.ok.inj hsnapshot
    exact oats_fits
  have hdone := (href.answer _ _ _ hput (held_new schema)).trans
    (show _ = Except.ok Answer.Done from rfl)
  have h₁ := (href.call _ _ _ hput (held_new schema)).now
  generalize hr : (onDisk schema plainSnapshots).call (.Apply 1 (.inl (putMilk 7))) .new = r at *
  have hcut : (rewriteTrees schema oatsSnapshot (.settled r.1.now)).now ∈
      ((onDisk schema plainSnapshots).call
        (.InstallSnapshot 7 (.inr oatsSnapshot)) r.1.now).1.crash_points := by
    change _ ∈ (install_snapshot schema plainSnapshots (.settled r.1.now) 7
      (.inr oatsSnapshot)).1.crash_points
    unfold install_snapshot
    rw [Journal.settled_now, h₁.check_not_poisoned]
    exact List.mem_cons_of_mem _ List.mem_cons_self
  have h₂ := (reopen_mirrored (rewrite_mirrored (.settled h₁) oats_fits).now).now
  have hempty := (href.answer .GetInventory _ _ trivial h₂).trans
    (show _ = Except.ok (Answer.Inventory []) from rfl)
  obtain ⟨x, htrace⟩ : ∃ x, Trace (onDisk schema plainSnapshots) (.Up .new) cutShort x := by
    unfold cutShort
    rw [← hdone, ← hempty, ← hr]
    exact ⟨_, .answered (.crashedIn (by rw [hr]; exact hcut) (.opened (.answered (.nil _))))⟩
  have hmeets : ∀ ev ∈ cutShort, ev.Meets (StoreOp.Fits plainSnapshots) := by
    simp only [cutShort, List.mem_cons, List.not_mem_nil, or_false, forall_eq_or_imp, forall_eq]
    exact ⟨hput, hinstall, trivial, trivial⟩
  exact trees_live_as_store schema plainSnapshots htrace hmeets

end lacto_fsm.sled
