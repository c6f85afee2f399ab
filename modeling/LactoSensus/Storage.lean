-- The sled backend of the log: one tree of entries by index, and one tree of
-- metadata. A read of a missing key finds the default. Every write is one
-- batch or one insert, so each is atomic on its own.
import LactoSensus.Types
import LactoSensus.Lib.Journal

open common.types
open ordmap

namespace raft_engine.storage

variable {α : Type}

/-- What is on disk: the `log` tree and the four keys of the `meta` tree. -/
structure SledStorage (α : Type) where
  log : OrdMap Nat (LogEntry α)
  key_hard_state : Option (Nat × Option NodeId)
  key_last_committed : Option Nat
  key_snapshot_index : Option Nat
  key_snapshot_term : Option Nat
deriving DecidableEq

/-- A disk before its first write. -/
def SledStorage.new : SledStorage α := ⟨.empty, none, none, none, none⟩

/-! ## Reads -/

/-- The term of the hard state. -/
def SledStorage.current_term (s : SledStorage α) : Nat :=
  (s.key_hard_state.map Prod.fst).getD 0

/-- The vote in that term. -/
def SledStorage.voted_for (s : SledStorage α) : Option NodeId :=
  s.key_hard_state.bind Prod.snd

def SledStorage.last_committed (s : SledStorage α) : Nat := s.key_last_committed.getD 0

/-- Up to where a snapshot stands for the log. -/
def SledStorage.last_included_index (s : SledStorage α) : Nat := s.key_snapshot_index.getD 0

def SledStorage.last_included_term (s : SledStorage α) : Nat := s.key_snapshot_term.getD 0

/-- The last entry that is there, or the horizon when that is further. -/
def SledStorage.last_log_index (s : SledStorage α) : Nat :=
  let physical_last := (s.log.last?.map Prod.fst).getD 0
  max physical_last s.last_included_index

/-- An entry that is there comes before the horizon, however old it is. -/
def SledStorage.last_log_term (s : SledStorage α) : Nat :=
  let physical_last := (s.log.last?.map fun e => e.2.term).getD 0
  if physical_last > 0 then physical_last else s.last_included_term

/-- An entry under the horizon is found as long as it has not been cut. -/
def SledStorage.read_entry (s : SledStorage α) (index : Nat) : Option (LogEntry α) :=
  s.log.get? index

/-- A read that the type of an index does not exclude. -/
inductive LogStorageError where
  | Invariant (msg : String)
deriving DecidableEq, Repr

/-- From `start` up to `end`, both of them included; missing entries are skipped. -/
def SledStorage.read_entries (s : SledStorage α) (start «end» : Nat) :
    Except LogStorageError (List (LogEntry α)) :=
  if start = 0 then
    .error (.Invariant "LogIndex is 1-indexed; range start cannot be 0")
  else if start > «end» then
    .ok []
  else
    .ok (s.log.range start «end»)

/-! ## Writes -/

/-- The term and the vote are one value. -/
def SledStorage.save_hard_state (term : Nat) (vote : Option NodeId) (s : SledStorage α) :
    SledStorage α :=
  { s with key_hard_state := some (term, vote) }

def SledStorage.save_last_committed (index : Nat) (s : SledStorage α) : SledStorage α :=
  { s with key_last_committed := some index }

/-- The entries are written by their index, over what was there. -/
def SledStorage.append_entries (entries : List (LogEntry α)) (s : SledStorage α) :
    SledStorage α :=
  { s with log := s.log.insertAll (entries.map fun e => (e.index, e)) }

/-- The batch that removes `index..=last_log_index`. -/
def SledStorage.truncate_log (index : Nat) (s : SledStorage α) : SledStorage α :=
  let last_idx := s.last_log_index
  if index > last_idx then s
  else { s with log := s.log.filterKeys fun k => ¬(index ≤ k ∧ k ≤ last_idx) }

/-- Remove what a snapshot stands for. -/
def SledStorage.truncate_log_front (up_to_index : Nat) (s : SledStorage α) :
    SledStorage α :=
  { s with log := s.log.filterKeys fun k => ¬(1 ≤ k ∧ k ≤ up_to_index) }

/-- Both keys of the horizon in one batch. -/
def SledStorage.save_snapshot_metadata (last_included_index : Nat)
    (last_included_term : Nat) (s : SledStorage α) : SledStorage α :=
  { s with
    key_snapshot_index := some last_included_index
    key_snapshot_term := some last_included_term }

end raft_engine.storage
