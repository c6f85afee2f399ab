-- The store as it lies in its database: three trees of bytes, the items and the sessions
-- by the bytes of a text, and three keys of metadata. Every read of the trees and every
-- log entry that is applied to them come to the same as in the store.
import LactoSensus.LactoFsm
import LactoSensus.Lib.BigEndian
import LactoSensus.Lib.Recoded
import LactoSensus.Lib.Utf8

open common.types
open common.proto
open ordmap
open bigendian

namespace lacto_fsm.sled

variable {α : Type}

/-! ## Messages -/

/-- The numbers of a 32-bit field with a sign. -/
abbrev i32 : Set Int := {z | -2147483648 ≤ z ∧ z < 2147483648}

/-- The numbers of a 64-bit field with a sign. -/
abbrev i64 : Set Int := {z | -9223372036854775808 ≤ z ∧ z < 9223372036854775808}

/-- The fields of a timestamp. -/
def FitsTime (t : Timestamp) : Prop := t.seconds ∈ i64 ∧ t.nanos ∈ i32

/-- The fields of an item. -/
def FitsItem (item : GroceryItem) : Prop :=
  item.state_version ∈ u64 ∧ ∀ t, item.last_activity = some t → FitsTime t

/-- The fields of a session record. -/
def FitsRecord (record : SessionRecord) : Prop :=
  record.last_sequence_id ∈ u64 ∧ record.status ∈ i32 ∧ record.log_index ∈ u64 ∧
    ∀ t, record.last_activity_effective_time = some t → FitsTime t

/-- How messages become bytes. The generated code writes every message so that it reads it
back, as long as its numbers have the size of their fields. -/
structure Wire where
  encode_item : GroceryItem → Bytes
  decode_item : Bytes → Except String GroceryItem
  encode_record : SessionRecord → Bytes
  decode_record : Bytes → Except String SessionRecord
  encode_timestamp : Timestamp → Bytes
  decode_timestamp : Bytes → Except String Timestamp
  item_back : ∀ item, FitsItem item → decode_item (encode_item item) = .ok item
  record_back : ∀ record, FitsRecord record → decode_record (encode_record record) = .ok record
  timestamp_back : ∀ t, FitsTime t → decode_timestamp (encode_timestamp t) = .ok t

/-! ## The store -/

/-- The three trees of the store, all of them from bytes to bytes. -/
structure LactoTrees where
  inventory : OrdMap Bytes Bytes
  sessions : OrdMap Bytes Bytes
  «meta» : OrdMap Bytes Bytes
  /-- Kept in memory only. -/
  poisoned : Bool
deriving DecidableEq

/-- The index of the last entry, as eight bytes. -/
def KEY_LAST_APPLIED : Bytes := utf8.encode "last_applied"

/-- The clinical clock, as a message. -/
def KEY_LAST_EFFECTIVE_TIME : Bytes := utf8.encode "last_effective_time"

/-- The tombstone of a restoration, as a text. -/
def KEY_RESTORE_IN_PROGRESS : Bytes := utf8.encode "restore_in_progress"

/-- The keys of the metadata, in their order. -/
def metaKeys : List Bytes := [KEY_LAST_APPLIED, KEY_LAST_EFFECTIVE_TIME, KEY_RESTORE_IN_PROGRESS]

/-- A store before its first write. -/
def LactoTrees.new : LactoTrees := ⟨.empty, .empty, .empty, false⟩

/-! ### Reads -/

/-- The tombstone stands: a restoration did not come to its end. -/
def LactoTrees.is_restoration_stale (b : LactoTrees) : Bool :=
  match b.meta.get? KEY_RESTORE_IN_PROGRESS with
  | some v => v = utf8.encode "true"
  | none => false

/-- A time that cannot be read is an error, not the epoch. -/
def decode_timestamp (w : Wire) (bytes : Bytes) : Except FsmError Timestamp :=
  (w.decode_timestamp bytes).mapError fun e =>
    .Deserialization s!"Failed to decode clinical timestamp: {e}"

/-- The clock starts at the epoch. -/
def LactoTrees.last_effective_time (w : Wire) (b : LactoTrees) : Except FsmError Timestamp :=
  readOr (b.meta.get? KEY_LAST_EFFECTIVE_TIME) ⟨0, 0⟩ (decode_timestamp w)

/-- The session of a client, if it has one. -/
def LactoTrees.get_session_record (w : Wire) (b : LactoTrees) (client_id : String) :
    Except FsmError (Option SessionRecord) :=
  readOr (b.sessions.get? (utf8.encode client_id)) none fun bytes =>
    ((w.decode_record bytes).mapError fun e => .Deserialization
      s!"Corrupt SessionRecord for client {client_id}: {e}").map some

/-- The guard at the head of every call. -/
def LactoTrees.check_not_poisoned (b : LactoTrees) : Except FsmError Unit :=
  if b.poisoned then .error .Poisoned else .ok ()

/-- Eight bytes make an index; any other number of them is an error. -/
def last_applied_of (k : Bytes) : Except FsmError Nat :=
  if k.length = 8 then .ok (value k)
  else .error (.Deserialization "last_applied index byte conversion failed")

/-- No entry has been applied to a new store. -/
def LactoTrees.last_applied_index (b : LactoTrees) : Except FsmError Nat :=
  match b.check_not_poisoned with
  | .error e => .error e
  | .ok () => readOr (b.meta.get? KEY_LAST_APPLIED) 0 last_applied_of

/-- The record of this very request; sequence 0 asks for whatever the last one was. -/
def LactoTrees.check_session (w : Wire) (b : LactoTrees) (client_id : String)
    (sequence_id : Nat) : Except FsmError (Option SessionRecord) :=
  match b.check_not_poisoned with
  | .error e => .error e
  | .ok () =>
    (b.get_session_record w client_id).map fun found =>
      match found with
      | some record =>
        if sequence_id = 0 ∨ record.last_sequence_id = sequence_id then some record else none
      | none => none

/-- A corrupt item is skipped. -/
def decode_inventory_entry (w : Wire) (v : Bytes) : Option GroceryItem :=
  match w.decode_item v with
  | .ok item => some item
  | .error _ => none

/-- The items in the order of their keys. -/
def LactoTrees.get_inventory (w : Wire) (b : LactoTrees) : Except FsmError (List GroceryItem) :=
  match b.check_not_poisoned with
  | .error e => .error e
  | .ok () => .ok (b.inventory.values.filterMap (decode_inventory_entry w))

/-- The version of the inventory is the index of the last entry. -/
def LactoTrees.current_version (b : LactoTrees) : Except FsmError Nat :=
  match b.check_not_poisoned with
  | .error e => .error e
  | .ok () => b.last_applied_index

/-! ### One log entry -/

/-- What an operation leaves behind, and what it returns. -/
abbrev Applied (X : Type) := LactoTrees × Except FsmError X

/-- The Halt Mandate of the store: it is poisoned, in memory. -/
def LactoTrees.halt {X : Type} (b : LactoTrees) (msg : String) : Applied X :=
  ({ b with poisoned := true }, .error (.Invariant msg))

/-- An entry out of turn halts the store. -/
def LactoTrees.validate_log_monotonicity (b : LactoTrees) (index : Nat) : Applied Unit :=
  match b.last_applied_index with
  | .error e => (b, .error e)
  | .ok current_applied =>
    match checked_add "LogIndex" current_applied 1 with
    | .error e => (b, .error (.Arithmetic e))
    | .ok expected =>
      if index ≠ expected then
        b.halt (s!"Non-sequential LogIndex apply attempted. last_applied={current_applied}, " ++
          s!"got {index}")
      else (b, .ok ())

/-- A client id of the ledger that is no UUID halts the store. -/
def LactoTrees.parse_client_id (c : Codec α) (b : LactoTrees) (raw_client_id : String)
    (index : Nat) : Applied String :=
  match c.parse_uuid raw_client_id with
  | .ok id => (b, .ok id)
  | .error e =>
    b.halt (s!"Invalid client_id '{raw_client_id}' in ledger at index {index}. " ++
      s!"Identity metadata is corrupted: Invalid ClientId format: {e}")

/-- A duplicate changes nothing but the index. -/
def LactoTrees.advance_last_applied_for_duplicate (b : LactoTrees) (index : Nat) : LactoTrees :=
  { b with «meta» := b.meta.insert KEY_LAST_APPLIED (to_be_bytes index) }

/-- The inventory part of the transaction. -/
def updateInventory (w : Wire) (inventory : OrdMap Bytes Bytes) (index : Nat)
    (mutation : CommittedMutation) (status : MutationStatus) : OrdMap Bytes Bytes :=
  if status = .Committed then
    if mutation.is_delete then inventory.erase (utf8.encode mutation.resolved_item_key)
    else inventory.insert (utf8.encode mutation.resolved_item_key)
      (w.encode_item (item_from_mutation index mutation))
  else inventory

/-- The transaction over the three trees. -/
def LactoTrees.commit (w : Wire) (b : LactoTrees) (index : Nat) (mutation : CommittedMutation)
    (client_id : String) (status : MutationStatus) (event_time next_effective : Timestamp) :
    LactoTrees :=
  { b with
    inventory := updateInventory w b.inventory index mutation status
    sessions := b.sessions.insert (utf8.encode mutation.client_id)
      (w.encode_record ⟨client_id, mutation.sequence_id, status.toInt, index,
        mutation.moral_justification, some event_time⟩)
    «meta» := (b.meta.insert KEY_LAST_APPLIED (to_be_bytes index)).insert
      KEY_LAST_EFFECTIVE_TIME (w.encode_timestamp next_effective) }

/-- `apply` from the sequence check on. -/
def LactoTrees.applySequence (w : Wire) (b : LactoTrees) (index : Nat)
    (mutation : CommittedMutation) (client_id : String) : Applied Unit :=
  let seq := mutation.sequence_id
  match b.get_session_record w mutation.client_id with
  | .error e => (b, .error e)
  | .ok record =>
    let last_seen := (record.map SessionRecord.last_sequence_id).getD 0
    match checked_add "SequenceId" last_seen 1 with
    | .error e => (b, .error (.Arithmetic e))
    | .ok expected_seq =>
      if seq ≤ last_seen then (b.advance_last_applied_for_duplicate index, .ok ())
      else if seq > expected_seq then
        b.halt (s!"Sequence gap for client {mutation.client_id}: expected {expected_seq}, " ++
          s!"got {seq}")
      else
        match MutationStatus.try_from mutation.status with
        | none =>
          b.halt (s!"Unknown MutationStatus integer {mutation.status} at index {index}. The node " ++
            "is likely running an obsolete version or the ledger is corrupted.")
        | some status =>
          match mutation.event_time with
          | none =>
            b.halt (s!"Mutation at index {index} is missing mandatory event_time. Cannot update " ++
              "deterministic clinical clock.")
          | some event_time =>
            match b.last_effective_time w with
            | .error e => (b, .error e)
            | .ok current_effective =>
              (b.commit w index mutation client_id status event_time
                (max_timestamp event_time current_effective), .ok ())

/-- Apply the entry of the log at `index`. -/
def LactoTrees.apply (w : Wire) (c : Codec α) (b : LactoTrees) (index : Nat) (data : α) :
    Applied Unit :=
  match b.check_not_poisoned with
  | .error e => (b, .error e)
  | .ok () =>
    match c.decode data with
    | .error e =>
      (b, .error (.Deserialization s!"Failed to deserialize mutation at index {index}: {e}"))
    | .ok mutation =>
      match b.validate_log_monotonicity index with
      | (b, .error e) => (b, .error e)
      | (b, .ok ()) =>
        match b.parse_client_id c mutation.client_id index with
        | (b, .error e) => (b, .error e)
        | (b, .ok client_id) => b.applySequence w index mutation client_id

/-! ## What the trees stand for -/

/-- The trees hold what the store holds, and nothing in them is too large for its field. -/
structure Held (w : Wire) (b : LactoTrees) (s : LactoStore) : Prop where
  inventory : Recoded Set.univ utf8.encode w.encode_item s.inventory b.inventory
  items : ∀ k item, s.inventory.get? k = some item → FitsItem item
  sessions : Recoded Set.univ utf8.encode w.encode_record s.sessions b.sessions
  records : ∀ k record, s.sessions.get? k = some record → FitsRecord record
  last_applied : Cell (b.meta.get? KEY_LAST_APPLIED) s.key_last_applied to_be_bytes (· ∈ u64)
  effective_time : Cell (b.meta.get? KEY_LAST_EFFECTIVE_TIME) s.key_last_effective_time
    w.encode_timestamp FitsTime
  restore : b.meta.get? KEY_RESTORE_IN_PROGRESS =
    if s.key_restore_in_progress then some (utf8.encode "true") else none
  keys : ∀ k v, b.meta.get? k = some v → k ∈ metaKeys
  poisoned : b.poisoned = s.poisoned

theorem encode_mono : StrictMonoOn utf8.encode Set.univ := utf8.encode_strictMono.strictMonoOn _

variable {w : Wire} {b b' : LactoTrees} {s s' : LactoStore}

theorem held_new (w : Wire) : Held w .new .new :=
  ⟨.empty, nofun, .empty, nofun, .none, .none, rfl, nofun, rfl⟩

/-! ### Reads -/

theorem Held.check_not_poisoned (h : Held w b s) : b.check_not_poisoned = s.check_not_poisoned := by
  unfold LactoTrees.check_not_poisoned LactoStore.check_not_poisoned
  rw [h.poisoned]

theorem Held.last_applied_index (h : Held w b s) : b.last_applied_index = s.last_applied_index := by
  unfold LactoTrees.last_applied_index LactoStore.last_applied_index
  have hread := h.last_applied.read last_applied_of id (fun n hn => by
    unfold last_applied_of
    rw [if_pos (length_to_be_bytes n), value_to_be_bytes hn]
    rfl) 0
  rw [h.check_not_poisoned, hread, Option.map_id]
  rfl

theorem Held.current_version (h : Held w b s) : b.current_version = s.current_version := by
  unfold LactoTrees.current_version LactoStore.current_version
  rw [h.check_not_poisoned]
  cases s.check_not_poisoned with
  | error e => rfl
  | ok _ => exact h.last_applied_index

theorem Held.last_effective_time (h : Held w b s) :
    b.last_effective_time w = .ok s.last_effective_time := by
  have hread := h.effective_time.read (decode_timestamp w) id (fun t ht => by
    unfold decode_timestamp
    rw [w.timestamp_back t ht]
    rfl) ⟨0, 0⟩
  rwa [Option.map_id] at hread

theorem Held.get_session_record (h : Held w b s) (client_id : String) :
    b.get_session_record w client_id = .ok (s.get_session_record client_id) := by
  have hcell : Cell (b.sessions.get? (utf8.encode client_id)) (s.sessions.get? client_id)
      w.encode_record FitsRecord :=
    ⟨h.sessions.get? encode_mono (Set.mem_univ _), h.records client_id⟩
  unfold LactoTrees.get_session_record LactoStore.get_session_record
  rw [hcell.read _ some (fun record hrecord => by rw [w.record_back record hrecord]; rfl)]
  cases s.sessions.get? client_id <;> rfl

theorem Held.check_session (h : Held w b s) (client_id : String) (sequence_id : Nat) :
    b.check_session w client_id sequence_id = s.check_session client_id sequence_id := by
  unfold LactoTrees.check_session LactoStore.check_session
  rw [h.check_not_poisoned, h.get_session_record]
  cases s.check_not_poisoned with
  | error e => rfl
  | ok _ => cases s.get_session_record client_id <;> rfl

theorem mem_values {V : Type} {m : OrdMap String V} {v : V} (hv : v ∈ m.values) :
    ∃ k, m.get? k = some v := by
  obtain ⟨e, he, rfl⟩ := List.mem_map.mp hv
  exact ⟨e.1, (m.get?_eq_some_iff e.1 e.2).mpr he⟩

theorem Held.get_inventory (h : Held w b s) : b.get_inventory w = s.get_inventory := by
  have hdecode : ∀ item ∈ s.inventory.values,
      (decode_inventory_entry w ∘ w.encode_item) item = some item := by
    intro item hitem
    obtain ⟨k, hk⟩ := mem_values hitem
    simp only [Function.comp, decode_inventory_entry, w.item_back item (h.items k item hk)]
  have hvalues : b.inventory.values.filterMap (decode_inventory_entry w) = s.inventory.values := by
    rw [h.inventory.values_eq, List.filterMap_map, List.filterMap_congr hdecode,
      List.filterMap_some]
  unfold LactoTrees.get_inventory LactoStore.get_inventory
  rw [h.check_not_poisoned]
  cases s.check_not_poisoned with
  | error e => rfl
  | ok _ => exact congrArg Except.ok hvalues

/-! ### One log entry -/

/-- The trees and the store are left alike, and answer alike. -/
structure Agrees {X : Type} (w : Wire) (r : Applied X) (r' : lacto_fsm.Applied X) : Prop where
  held : Held w r.1 r'.1
  res : r.2 = r'.2

theorem Agrees.mk' {X : Type} (h : Held w b s) (res : Except FsmError X) :
    Agrees w (b, res) (s, res) := ⟨h, rfl⟩

theorem Held.halt {X : Type} (h : Held w b s) (msg : String) :
    Agrees w (b.halt msg : Applied X) (s.halt msg) :=
  ⟨{ h with poisoned := rfl }, rfl⟩

theorem Held.validate_log_monotonicity (h : Held w b s) (index : Nat) :
    Agrees w (b.validate_log_monotonicity index) (s.validate_log_monotonicity index) := by
  unfold LactoTrees.validate_log_monotonicity LactoStore.validate_log_monotonicity
  rw [h.last_applied_index]
  cases s.last_applied_index with
  | error e => exact .mk' h _
  | ok current =>
    dsimp only
    cases checked_add "LogIndex" current 1 with
    | error e => exact .mk' h _
    | ok expected =>
      dsimp only
      split
      · exact h.halt _
      · exact .mk' h _

theorem Held.parse_client_id (h : Held w b s) (c : Codec α) (raw_client_id : String)
    (index : Nat) : Agrees w (b.parse_client_id c raw_client_id index)
      (s.parse_client_id c raw_client_id index) := by
  unfold LactoTrees.parse_client_id LactoStore.parse_client_id
  cases c.parse_uuid raw_client_id with
  | error e => exact h.halt _
  | ok id => exact .mk' h _

theorem applied_ne_time : KEY_LAST_APPLIED ≠ KEY_LAST_EFFECTIVE_TIME :=
  utf8.encode_ne (by decide)

theorem applied_ne_restore : KEY_LAST_APPLIED ≠ KEY_RESTORE_IN_PROGRESS :=
  utf8.encode_ne (by decide)

theorem time_ne_restore : KEY_LAST_EFFECTIVE_TIME ≠ KEY_RESTORE_IN_PROGRESS :=
  utf8.encode_ne (by decide)

theorem Held.set_last_applied (h : Held w b s) {index : Nat} (hindex : index ∈ u64) :
    Held w { b with «meta» := b.meta.insert KEY_LAST_APPLIED (to_be_bytes index) }
      { s with key_last_applied := some index } :=
  { h with
    last_applied := .written to_be_bytes b.meta KEY_LAST_APPLIED hindex
    effective_time := h.effective_time.frame applied_ne_time.symm _
    restore := by
      rw [OrdMap.get?_insert_of_ne _ applied_ne_restore.symm]
      exact h.restore
    keys := fun k v hk => by
      rw [OrdMap.get?_insert] at hk
      split at hk
      · simp [metaKeys, *]
      · exact h.keys k v hk }

theorem Held.set_effective_time (h : Held w b s) {t : Timestamp} (ht : FitsTime t) :
    Held w { b with «meta» := b.meta.insert KEY_LAST_EFFECTIVE_TIME (w.encode_timestamp t) }
      { s with key_last_effective_time := some t } :=
  { h with
    last_applied := h.last_applied.frame applied_ne_time _
    effective_time := .written w.encode_timestamp b.meta KEY_LAST_EFFECTIVE_TIME ht
    restore := by
      rw [OrdMap.get?_insert_of_ne _ time_ne_restore.symm]
      exact h.restore
    keys := fun k v hk => by
      rw [OrdMap.get?_insert] at hk
      split at hk
      · simp [metaKeys, *]
      · exact h.keys k v hk }

theorem Held.put_item (h : Held w b s) (key : String) {item : GroceryItem}
    (hitem : FitsItem item) :
    Held w { b with inventory := b.inventory.insert (utf8.encode key) (w.encode_item item) }
      { s with inventory := s.inventory.insert key item } :=
  { h with
    inventory := h.inventory.insert encode_mono (Set.mem_univ _)
    items := fun k i hi => by
      rw [OrdMap.get?_insert] at hi
      split at hi
      · obtain rfl := Option.some.inj hi
        exact hitem
      · exact h.items k i hi }

theorem Held.put_record (h : Held w b s) (key : String) {record : SessionRecord}
    (hrecord : FitsRecord record) :
    Held w { b with sessions := b.sessions.insert (utf8.encode key) (w.encode_record record) }
      { s with sessions := s.sessions.insert key record } :=
  { h with
    sessions := h.sessions.insert encode_mono (Set.mem_univ _)
    records := fun k r hr => by
      rw [OrdMap.get?_insert] at hr
      split at hr
      · obtain rfl := Option.some.inj hr
        exact hrecord
      · exact h.records k r hr }

theorem Held.erase_item (h : Held w b s) (key : String) :
    Held w { b with inventory := b.inventory.erase (utf8.encode key) }
      { s with inventory := s.inventory.erase key } :=
  { h with
    inventory := h.inventory.erase encode_mono (Set.mem_univ _)
    items := fun k i hi => by
      rw [OrdMap.get?_erase] at hi
      split at hi
      · cases hi
      · exact h.items k i hi }

theorem Held.erase_session (h : Held w b s) (key : String) :
    Held w { b with sessions := b.sessions.erase (utf8.encode key) }
      { s with sessions := s.sessions.erase key } :=
  { h with
    sessions := h.sessions.erase encode_mono (Set.mem_univ _)
    records := fun k r hr => by
      rw [OrdMap.get?_erase] at hr
      split at hr
      · cases hr
      · exact h.records k r hr }

/-- What the types of a mutation promise. -/
def FitsMutation (m : CommittedMutation) : Prop :=
  m.sequence_id ∈ u64 ∧ ∀ t, m.event_time = some t → FitsTime t

theorem fits_status (status : MutationStatus) : status.toInt ∈ i32 := by
  cases status <;> simp [MutationStatus.toInt]

theorem fits_zero : FitsTime ⟨0, 0⟩ := by simp [FitsTime]

theorem Held.fits_effective (h : Held w b s) : FitsTime s.last_effective_time := by
  unfold LactoStore.last_effective_time
  cases htime : s.key_last_effective_time with
  | none => exact fits_zero
  | some t => exact h.effective_time.fits t htime

theorem fits_max {t t' : Timestamp} (ht : FitsTime t) (ht' : FitsTime t') :
    FitsTime (max_timestamp t t') := by
  unfold max_timestamp
  split
  · exact ht
  · exact ht'

theorem Held.commit (h : Held w b s) {index : Nat} (hindex : index ∈ u64)
    {m : CommittedMutation} (hm : FitsMutation m) (client_id : String) (status : MutationStatus)
    {event_time : Timestamp} (ht : m.event_time = some event_time) :
    Held w (b.commit w index m client_id status event_time
        (max_timestamp event_time s.last_effective_time))
      (s.commit index m client_id status event_time) := by
  have htime := hm.2 event_time ht
  have hitem : FitsItem (item_from_mutation index m) := by
    refine ⟨hindex, fun t hst => ?_⟩
    rw [item_from_mutation, ht] at hst
    obtain rfl := Option.some.inj hst
    exact htime
  have hinventory : Held w
      { b with inventory := updateInventory w b.inventory index m status }
      { s with inventory := lacto_fsm.updateInventory s.inventory index m status } := by
    unfold updateInventory lacto_fsm.updateInventory
    split
    · split
      · exact h.erase_item _
      · exact h.put_item _ hitem
    · exact h
  have hrecord : FitsRecord ⟨client_id, m.sequence_id, status.toInt, index,
      m.moral_justification, some event_time⟩ := by
    refine ⟨hm.1, fits_status status, hindex, fun t hst => ?_⟩
    obtain rfl := Option.some.inj hst
    exact htime
  exact ((hinventory.put_record m.client_id hrecord).set_last_applied hindex).set_effective_time
    (fits_max htime h.fits_effective)

theorem Held.applySequence (h : Held w b s) {index : Nat} (hindex : index ∈ u64)
    {m : CommittedMutation} (hm : FitsMutation m) (client_id : String) :
    Agrees w (b.applySequence w index m client_id) (s.applySequence index m client_id) := by
  unfold LactoTrees.applySequence LactoStore.applySequence
  rw [h.get_session_record]
  dsimp only
  cases checked_add "SequenceId" _ 1 with
  | error e => exact .mk' h _
  | ok expected =>
    dsimp only
    split
    · exact ⟨h.set_last_applied hindex, rfl⟩
    split
    · exact h.halt _
    cases MutationStatus.try_from m.status with
    | none => exact h.halt _
    | some status =>
      cases ht : m.event_time with
      | none => exact h.halt _
      | some event_time =>
        rw [h.last_effective_time]
        exact ⟨h.commit hindex hm client_id status ht, rfl⟩

/-- The index that is let through is one that a log can have. -/
theorem validate_fits {index : Nat} (h : (s.validate_log_monotonicity index).2 = .ok ()) :
    index ∈ u64 := by
  unfold LactoStore.validate_log_monotonicity at h
  split at h
  · cases h
  split at h
  · cases h
  rename_i expected hadd
  split at h
  · cases h
  · rename_i heq
    obtain ⟨rfl, hmax⟩ := checked_add_ok hadd
    have : index = _ := not_not.mp heq
    rw [this]
    exact Nat.lt_succ_of_le hmax

theorem Held.apply (h : Held w b s) (c : Codec α) (index : Nat) {data : α}
    (hdata : ∀ m, c.decode data = .ok m → FitsMutation m) :
    Agrees w (b.apply w c index data) (s.apply c index data) := by
  unfold LactoTrees.apply LactoStore.apply
  rw [h.check_not_poisoned]
  cases s.check_not_poisoned with
  | error e => exact .mk' h _
  | ok _ =>
    dsimp only
    cases hdec : c.decode data with
    | error e => exact .mk' h _
    | ok m =>
      dsimp only
      have hvalid := h.validate_log_monotonicity index
      have hfits : (s.validate_log_monotonicity index).2 = .ok () → index ∈ u64 := validate_fits
      generalize b.validate_log_monotonicity index = r at hvalid
      generalize s.validate_log_monotonicity index = r' at hvalid hfits
      obtain ⟨b₁, res⟩ := r
      obtain ⟨s₁, res'⟩ := r'
      obtain ⟨h₁, rfl⟩ := hvalid
      cases res with
      | error e => exact .mk' h₁ _
      | ok _ =>
        dsimp only
        have hparse := Held.parse_client_id h₁ c m.client_id index
        generalize b₁.parse_client_id c m.client_id index = r at hparse
        generalize s₁.parse_client_id c m.client_id index = r' at hparse
        obtain ⟨b₂, res⟩ := r
        obtain ⟨s₂, res'⟩ := r'
        obtain ⟨h₂, rfl⟩ := hparse
        cases res with
        | error e => exact .mk' h₂ _
        | ok client_id => exact Held.applySequence h₂ (hfits rfl) (hdata m hdec) client_id

end lacto_fsm.sled
