-- The store: inventory, sessions and the clock in their trees, and the one
-- function that applies a log entry to them. A violated invariant sets a flag
-- that no later call gets past.
import Mathlib.Data.String.Basic
import LactoSensus.Proto

open common.types
open common.proto
open ordmap

namespace lacto_fsm

variable {α : Type}

/-- What a call of the store can fail with. -/
inductive FsmError where
  | Deserialization (msg : String)
  | Invariant (msg : String)
  | Arithmetic (e : ArithmeticError)
  | Poisoned
deriving DecidableEq, Repr

/-- The text of the error, as it is shown. -/
def FsmError.text : FsmError → String
  | .Deserialization msg => s!"Deserialization failure: {msg}"
  | .Invariant msg => s!"Foundation invariant violation: {msg}"
  | .Arithmetic e => s!"Arithmetic failure: {e.text}"
  | .Poisoned => "State machine is poisoned"

/-- What the store uses of the message codec and of the UUID parser, which gives
the canonical text of an id. -/
structure Codec (α : Type) where
  encode : CommittedMutation → α
  decode : α → Except String CommittedMutation
  decode_encode : ∀ m, decode (encode m) = .ok m
  parse_uuid : String → Except String String

/-- The three trees; a read of a missing key of `meta` finds the default. -/
structure LactoStore where
  inventory : OrdMap String GroceryItem
  sessions : OrdMap String SessionRecord
  key_last_applied : Option Nat
  key_last_effective_time : Option Timestamp
  /-- The tombstone of a restoration: the key is there with the text `true`. -/
  key_restore_in_progress : Bool
  /-- Kept in memory only. -/
  poisoned : Bool
deriving DecidableEq

/-- `LactoStore::new` on an empty database. -/
def LactoStore.new : LactoStore := ⟨.empty, .empty, none, none, false, false⟩

/-! ## Reads -/

/-- The one read that does not look at the flag. -/
def LactoStore.last_effective_time (s : LactoStore) : Timestamp :=
  s.key_last_effective_time.getD ⟨0, 0⟩

/-- The session of a client, if it has one. -/
def LactoStore.get_session_record (s : LactoStore) (client_id : String) : Option SessionRecord :=
  s.sessions.get? client_id

/-- The guard at the head of a call. -/
def LactoStore.check_not_poisoned (s : LactoStore) : Except FsmError Unit :=
  if s.poisoned then .error .Poisoned else .ok ()

/-- No entry has been applied to a new store. -/
def LactoStore.last_applied_index (s : LactoStore) : Except FsmError Nat :=
  match s.check_not_poisoned with
  | .error e => .error e
  | .ok () => .ok (s.key_last_applied.getD 0)

/-- The record of this very request; sequence 0 asks for whatever the last one was. -/
def LactoStore.check_session (s : LactoStore) (client_id : String) (sequence_id : Nat) :
    Except FsmError (Option SessionRecord) :=
  match s.check_not_poisoned with
  | .error e => .error e
  | .ok () =>
    match s.get_session_record client_id with
    | some record =>
      .ok (if sequence_id = 0 ∨ record.last_sequence_id = sequence_id then some record else none)
    | none => .ok none

/-- The items in the order of their keys. -/
def LactoStore.get_inventory (s : LactoStore) : Except FsmError (List GroceryItem) :=
  match s.check_not_poisoned with
  | .error e => .error e
  | .ok () => .ok s.inventory.values

/-- The version of the inventory is the index of the last entry. -/
def LactoStore.current_version (s : LactoStore) : Except FsmError Nat :=
  match s.check_not_poisoned with
  | .error e => .error e
  | .ok () => s.last_applied_index

/-! ## One log entry -/

/-- The item that a mutation leaves behind, with the index of its entry as its version. -/
def item_from_mutation (index : Nat) (mutation : CommittedMutation) : GroceryItem :=
  ⟨mutation.resolved_item_key, mutation.updated_base_quantity, mutation.base_unit,
    mutation.updated_category, mutation.client_id, some (mutation.event_time.getD ⟨0, 0⟩), index,
    mutation.display_unit⟩

/-- The later time; the second one of two that are the same. -/
def max_timestamp (t1 t2 : Timestamp) : Timestamp :=
  if t1.seconds > t2.seconds ∨ (t1.seconds = t2.seconds ∧ t1.nanos > t2.nanos) then t1 else t2

/-- What a call leaves behind, and what it returns. -/
abbrev Applied (X : Type) := LactoStore × Except FsmError X

/-- The Halt Mandate: set the flag and fail. -/
def LactoStore.halt {X : Type} (s : LactoStore) (msg : String) : Applied X :=
  ({ s with poisoned := true }, .error (.Invariant msg))

/-- An entry out of turn halts the store. -/
def LactoStore.validate_log_monotonicity (s : LactoStore) (index : Nat) : Applied Unit :=
  match s.last_applied_index with
  | .error e => (s, .error e)
  | .ok current_applied =>
    match checked_add "LogIndex" current_applied 1 with
    | .error e => (s, .error (.Arithmetic e))
    | .ok expected =>
      if index ≠ expected then
        s.halt (s!"Non-sequential LogIndex apply attempted. last_applied={current_applied}, " ++
          s!"got {index}")
      else (s, .ok ())

/-- A client id of the ledger that is no UUID halts the store. -/
def LactoStore.parse_client_id (c : Codec α) (s : LactoStore) (raw_client_id : String)
    (index : Nat) : Applied String :=
  match c.parse_uuid raw_client_id with
  | .ok id => (s, .ok id)
  | .error e =>
    s.halt (s!"Invalid client_id '{raw_client_id}' in ledger at index {index}. " ++
      s!"Identity metadata is corrupted: Invalid ClientId format: {e}")

/-- A duplicate changes nothing but the index. -/
def LactoStore.advance_last_applied_for_duplicate (s : LactoStore) (index : Nat) :
    LactoStore :=
  { s with key_last_applied := some index }

/-- The inventory part of the transaction. -/
def updateInventory (inventory : OrdMap String GroceryItem) (index : Nat)
    (mutation : CommittedMutation) (status : MutationStatus) : OrdMap String GroceryItem :=
  if status = .Committed then
    if mutation.is_delete then inventory.erase mutation.resolved_item_key
    else inventory.insert mutation.resolved_item_key (item_from_mutation index mutation)
  else inventory

/-- The transaction over the three trees. -/
def LactoStore.commit (s : LactoStore) (index : Nat) (mutation : CommittedMutation)
    (client_id : String) (status : MutationStatus) (event_time : Timestamp) : LactoStore :=
  { s with
    inventory := updateInventory s.inventory index mutation status
    sessions := s.sessions.insert mutation.client_id
      ⟨client_id, mutation.sequence_id, status.toInt, index, mutation.moral_justification,
        some event_time⟩
    key_last_applied := some index
    key_last_effective_time := some (max_timestamp event_time s.last_effective_time) }

/-- `apply` from the sequence check on. -/
def LactoStore.applySequence (s : LactoStore) (index : Nat) (mutation : CommittedMutation)
    (client_id : String) : Applied Unit :=
  let seq := mutation.sequence_id
  let last_seen := ((s.get_session_record mutation.client_id).map
    SessionRecord.last_sequence_id).getD 0
  match checked_add "SequenceId" last_seen 1 with
  | .error e => (s, .error (.Arithmetic e))
  | .ok expected_seq =>
    if seq ≤ last_seen then (s.advance_last_applied_for_duplicate index, .ok ())
    else if seq > expected_seq then
      s.halt (s!"Sequence gap for client {mutation.client_id}: expected {expected_seq}, " ++
        s!"got {seq}")
    else
      match MutationStatus.try_from mutation.status with
      | none =>
        s.halt (s!"Unknown MutationStatus integer {mutation.status} at index {index}. The node " ++
          "is likely running an obsolete version or the ledger is corrupted.")
      | some status =>
        match mutation.event_time with
        | none =>
          s.halt (s!"Mutation at index {index} is missing mandatory event_time. Cannot update " ++
            "deterministic clinical clock.")
        | some event_time => (s.commit index mutation client_id status event_time, .ok ())

/-- Apply the entry of the log at `index`. -/
def LactoStore.apply (c : Codec α) (s : LactoStore) (index : Nat) (data : α) : Applied Unit :=
  match s.check_not_poisoned with
  | .error e => (s, .error e)
  | .ok () =>
    match c.decode data with
    | .error e =>
      (s, .error (.Deserialization s!"Failed to deserialize mutation at index {index}: {e}"))
    | .ok mutation =>
      match s.validate_log_monotonicity index with
      | (s, .error e) => (s, .error e)
      | (s, .ok ()) =>
        match s.parse_client_id c mutation.client_id index with
        | (s, .error e) => (s, .error e)
        | (s, .ok client_id) => s.applySequence index mutation client_id

/-- Apply the entries that follow `applied`, up to the first that fails. -/
def LactoStore.applyLog (c : Codec α) (s : LactoStore) (applied : Nat) :
    List α → Applied Unit
  | [] => (s, .ok ())
  | data :: log =>
    match s.apply c (applied + 1) data with
    | (s, .error e) => (s, .error e)
    | (s, .ok ()) => s.applyLog c (applied + 1) log

end lacto_fsm
