-- The log store as it lies in its database: two trees of bytes, the log by index with
-- the most significant byte first, and four keys of metadata. Whatever is written there
-- is read back as it was meant, in the order of the indices, and nothing that the store
-- has written is ever refused by a read.
import LactoSensus.Identity
import LactoSensus.Storage
import LactoSensus.Lib.BigEndian
import LactoSensus.Lib.Utf8
import LactoSensus.Lib.Recoded
import LactoSensus.Lib.Protobuf

open common.types
open ordmap
open bigendian

namespace raft_engine.sled

variable {α : Type}

/-! ## Messages -/

/-- The message of the term and the vote; no vote is the empty text. -/
structure HardState where
  term : Nat
  vote : String
deriving DecidableEq, Repr

/-- A vote as its decimal text. -/
def HardState.new (term : Nat) (vote : Option NodeId) : HardState :=
  ⟨term, (vote.map toString).getD ""⟩

/-- How messages become bytes. The generated code writes every message so that it reads it
back; the numbers in it have 64 bits. -/
structure Wire (α : Type) where
  encode_hard_state : HardState → Bytes
  decode_hard_state : Bytes → Except String HardState
  encode_entry : LogEntry α → Bytes
  decode_entry : Bytes → Except String (LogEntry α)
  hard_state_back : ∀ hs : HardState, hs.term ∈ u64 →
    decode_hard_state (encode_hard_state hs) = .ok hs
  entry_back : ∀ e : LogEntry α, e.index ∈ u64 → e.term ∈ u64 →
    decode_entry (encode_entry e) = .ok e

/-- What a read of the trees can fail with. -/
inductive LogStorageError where
  | Deserialization (msg : String)
  | Invariant (msg : String)
deriving DecidableEq, Repr

/-- `try_into` an array of eight bytes, and the number they are. -/
def from_be_bytes (what : String) (k : Bytes) : Except LogStorageError Nat :=
  if k.length = 8 then .ok (value k)
  else .error (.Deserialization s!"{what} byte conversion failed")

theorem from_be_bytes_back (what : String) {n : Nat} (hn : n ∈ u64) :
    from_be_bytes what (to_be_bytes n) = .ok n := by
  unfold from_be_bytes
  rw [if_pos (length_to_be_bytes n), value_to_be_bytes hn]

/-! ## The store -/

/-- The two trees of the log store, from bytes to bytes. -/
structure SledTrees where
  log : OrdMap Bytes Bytes
  «meta» : OrdMap Bytes Bytes
deriving DecidableEq

/-- The term and the vote, as a message. -/
def KEY_HARD_STATE : Bytes := utf8.encode "hard_state"

/-- The commit index, as eight bytes. -/
def KEY_LAST_COMMITTED : Bytes := utf8.encode "last_committed"

/-- The index of the horizon, as eight bytes. -/
def KEY_SNAPSHOT_INDEX : Bytes := utf8.encode "snapshot_index"

/-- The term of the horizon, as eight bytes. -/
def KEY_SNAPSHOT_TERM : Bytes := utf8.encode "snapshot_term"

/-- A disk before its first write. -/
def SledTrees.new : SledTrees := ⟨.empty, .empty⟩

def serialize_hard_state (w : Wire α) (term : Nat) (vote : Option NodeId) : Bytes :=
  w.encode_hard_state (.new term vote)

/-- A vote is read only if there is one. -/
def deserialize_hard_state (w : Wire α) (data : Bytes) :
    Except LogStorageError (Nat × Option NodeId) :=
  match w.decode_hard_state data with
  | .error e => .error (.Deserialization s!"Failed to decode HardState: {e}")
  | .ok hs =>
    if hs.vote = "" then .ok (hs.term, none)
    else
      match NodeId.from_str hs.vote with
      | .error e => .error (.Deserialization s!"Invalid NodeId in HardState: {e.text}")
      | .ok vote => .ok (hs.term, some vote)

/-- A node without a hard state is in term 0 and has not voted. -/
def SledTrees.hard_state (w : Wire α) (s : SledTrees) :
    Except LogStorageError (Nat × Option NodeId) :=
  readOr (s.meta.get? KEY_HARD_STATE) (0, none) (deserialize_hard_state w)

def SledTrees.current_term (w : Wire α) (s : SledTrees) : Except LogStorageError Nat :=
  (s.hard_state w).map Prod.fst

def SledTrees.voted_for (w : Wire α) (s : SledTrees) : Except LogStorageError (Option NodeId) :=
  (s.hard_state w).map Prod.snd

/-- Nothing is committed on a new disk. -/
def SledTrees.last_committed (s : SledTrees) : Except LogStorageError Nat :=
  readOr (s.meta.get? KEY_LAST_COMMITTED) 0 (from_be_bytes "last_committed")

/-- The horizon of a new disk is 0. -/
def SledTrees.last_included_index (s : SledTrees) : Except LogStorageError Nat :=
  readOr (s.meta.get? KEY_SNAPSHOT_INDEX) 0 (from_be_bytes "snapshot_index")

def SledTrees.last_included_term (s : SledTrees) : Except LogStorageError Nat :=
  readOr (s.meta.get? KEY_SNAPSHOT_TERM) 0 (from_be_bytes "snapshot_term")

/-- The last key of the log, or the horizon when that is further. -/
def SledTrees.last_log_index (s : SledTrees) : Except LogStorageError Nat :=
  match readOr (s.log.last?.map Prod.fst) 0 (from_be_bytes "LogIndex") with
  | .error e => .error e
  | .ok physical_last => s.last_included_index.map fun snapshot_last =>
      max physical_last snapshot_last

/-- An entry that cannot be read names the read that met it. -/
def decodeWith (w : Wire α) (context : String) (v : Bytes) :
    Except LogStorageError (LogEntry α) :=
  (w.decode_entry v).mapError fun e => .Deserialization s!"{context}: {e}"

/-- The last entry is read even when it is under the horizon. -/
def SledTrees.last_log_term (w : Wire α) (s : SledTrees) : Except LogStorageError Nat :=
  match readOr (s.log.last?.map Prod.snd) 0 fun v =>
    (decodeWith w "Failed to decode last log entry" v).map LogEntry.term with
  | .error e => .error e
  | .ok physical_last => if physical_last > 0 then .ok physical_last else s.last_included_term

/-- The entry with the key of the index. -/
def SledTrees.read_entry (w : Wire α) (s : SledTrees) (index : Nat) :
    Except LogStorageError (Option (LogEntry α)) :=
  readOr (s.log.get? (to_be_bytes index)) none fun v =>
    (decodeWith w s!"Failed to decode log entry at {index}" v).map some

/-- The loop over the range; the first entry that cannot be read ends it. -/
def decodeAll (w : Wire α) : List Bytes → Except LogStorageError (List (LogEntry α))
  | [] => .ok []
  | v :: vs =>
    match decodeWith w "Failed to decode log entry" v with
    | .error e => .error e
    | .ok entry => (decodeAll w vs).map (entry :: ·)

/-- The keys of indices stand in the order of the indices. -/
def SledTrees.read_entries (w : Wire α) (s : SledTrees) (start «end» : Nat) :
    Except LogStorageError (List (LogEntry α)) :=
  if start = 0 then .error (.Invariant "LogIndex is 1-indexed; range start cannot be 0")
  else if start > «end» then .ok []
  else decodeAll w (s.log.range (to_be_bytes start) (to_be_bytes «end»))

/-- The term and the vote are one message. -/
def SledTrees.save_hard_state (w : Wire α) (term : Nat) (vote : Option NodeId) (s : SledTrees) :
    SledTrees :=
  { s with «meta» := s.meta.insert KEY_HARD_STATE (serialize_hard_state w term vote) }

def SledTrees.save_last_committed (index : Nat) (s : SledTrees) : SledTrees :=
  { s with «meta» := s.meta.insert KEY_LAST_COMMITTED (to_be_bytes index) }

/-- The batch of the appended entries, in their order. -/
def SledTrees.append_entries (w : Wire α) (entries : List (LogEntry α)) (s : SledTrees) :
    SledTrees :=
  { s with
    log := s.log.insertAll
      (entries.map fun entry => (to_be_bytes entry.index, w.encode_entry entry)) }

/-- One flush, two writes in program order. -/
def SledTrees.append_entries_and_advance_commit (w : Wire α) (entries : List (LogEntry α))
    (commit_index : Nat) (s : SledTrees) : SledTrees :=
  (s.append_entries w entries).save_last_committed commit_index

/-- `lo..=hi`. -/
def inclusive (lo hi : Nat) : List Nat := List.range' lo (hi + 1 - lo)

/-- The batch that removes `index..=last_log_index`. -/
def SledTrees.truncate_log (index : Nat) (s : SledTrees) : Except LogStorageError SledTrees :=
  s.last_log_index.map fun last_idx =>
    if index > last_idx then s
    else { s with log := s.log.eraseAll ((inclusive index last_idx).map to_be_bytes) }

/-- The batch that removes `1..=up_to_index`. -/
def SledTrees.truncate_log_front (up_to_index : Nat) (s : SledTrees) : SledTrees :=
  { s with log := s.log.eraseAll ((inclusive 1 up_to_index).map to_be_bytes) }

/-- Both keys of the horizon in one batch. -/
def SledTrees.save_snapshot_metadata (last_included_index last_included_term : Nat)
    (s : SledTrees) : SledTrees :=
  { s with
    «meta» := (s.meta.insert KEY_SNAPSHOT_INDEX (to_be_bytes last_included_index)).insert
      KEY_SNAPSHOT_TERM (to_be_bytes last_included_term) }

/-! ## What the trees stand for -/

theorem read_number {data : Option Bytes} {x : Option Nat}
    (h : Cell data x to_be_bytes (· ∈ u64)) (what : String) :
    readOr data 0 (from_be_bytes what) = .ok (x.getD 0) := by
  have hread := h.read (from_be_bytes what) id (fun k hk => from_be_bytes_back what hk) 0
  rwa [Option.map_id] at hread

/-- A term, and the id of a node if there is a vote. -/
def fitsHardState (hs : Nat × Option NodeId) : Prop :=
  hs.1 ∈ u64 ∧ ∀ id, hs.2 = some id → NodeId.Valid id

/-- The trees hold what the store holds, and every number of it has 64 bits. -/
structure Stored (w : Wire α) (b : SledTrees) (s : storage.SledStorage α) : Prop where
  log : Recoded u64 to_be_bytes w.encode_entry s.log b.log
  entries : ∀ e ∈ s.log.entries, e.2.index ∈ u64 ∧ e.2.term ∈ u64
  hard_state : Cell (b.meta.get? KEY_HARD_STATE) s.key_hard_state
    (fun hs => serialize_hard_state w hs.1 hs.2) fitsHardState
  last_committed : Cell (b.meta.get? KEY_LAST_COMMITTED) s.key_last_committed to_be_bytes (· ∈ u64)
  snapshot_index : Cell (b.meta.get? KEY_SNAPSHOT_INDEX) s.key_snapshot_index to_be_bytes (· ∈ u64)
  snapshot_term : Cell (b.meta.get? KEY_SNAPSHOT_TERM) s.key_snapshot_term to_be_bytes (· ∈ u64)

variable {w : Wire α} {b b' : SledTrees} {s : storage.SledStorage α}

theorem stored_new (w : Wire α) : Stored w .new .new :=
  ⟨.empty, nofun, .none, .none, .none, .none⟩

/-! ## Reads -/

/-- A vote is the text of the node that was voted for; without one the text is empty. -/
theorem deserialize_back (w : Wire α) {hs : Nat × Option NodeId} (hfits : fitsHardState hs) :
    deserialize_hard_state w (serialize_hard_state w hs.1 hs.2) = .ok hs := by
  obtain ⟨term, vote⟩ := hs
  obtain ⟨hterm, hvote⟩ := hfits
  unfold deserialize_hard_state serialize_hard_state
  rw [w.hard_state_back _ hterm]
  cases vote with
  | none => rfl
  | some id =>
    have hback := from_str_text (hvote id rfl)
    have hne : (HardState.new term (some id)).vote ≠ "" := by
      intro hempty
      rw [show toString id = "" from hempty] at hback
      cases hback
    dsimp only
    rw [if_neg hne]
    change (match NodeId.from_str (toString id) with
      | .error e => _
      | .ok vote => _) = _
    rw [hback]
    rfl

theorem Stored.hard_state_read (h : Stored w b s) :
    b.hard_state w = .ok (s.key_hard_state.getD (0, none)) := by
  have hread := h.hard_state.read (deserialize_hard_state w) id
    (fun hs hfits => deserialize_back w hfits) (0, none)
  rwa [Option.map_id] at hread

theorem Stored.last_log_index_read (h : Stored w b s) :
    b.last_log_index = .ok s.last_log_index := by
  have hlast : Cell (b.log.last?.map Prod.fst) (s.log.last?.map Prod.fst) to_be_bytes
      (· ∈ u64) := by
    rw [h.log.last?]
    refine ⟨by rw [Option.map_map, Option.map_map]; rfl, fun k hk => ?_⟩
    obtain ⟨e, he, rfl⟩ := Option.map_eq_some_iff.mp hk
    exact h.log.keys e (List.mem_of_getLast? he)
  unfold SledTrees.last_log_index SledTrees.last_included_index
  rw [read_number hlast, read_number h.snapshot_index]
  rfl

theorem decode_back (w : Wire α) (context : String) {e : LogEntry α}
    (he : e.index ∈ u64 ∧ e.term ∈ u64) : decodeWith w context (w.encode_entry e) = .ok e := by
  unfold decodeWith
  rw [w.entry_back e he.1 he.2]
  rfl

theorem decodeAll_back (w : Wire α) {es : List (LogEntry α)}
    (hes : ∀ e ∈ es, e.index ∈ u64 ∧ e.term ∈ u64) :
    decodeAll w (es.map w.encode_entry) = .ok es := by
  induction es with
  | nil => rfl
  | cons e es ih =>
    rw [List.map_cons, decodeAll, decode_back w _ (hes e List.mem_cons_self),
      ih fun e he => hes e (List.mem_cons_of_mem _ he)]
    rfl

theorem Stored.last_log_term_read (h : Stored w b s) :
    b.last_log_term w = .ok s.last_log_term := by
  have hlast : Cell (b.log.last?.map Prod.snd) (s.log.last?.map Prod.snd) w.encode_entry
      fun e => e.index ∈ u64 ∧ e.term ∈ u64 := by
    rw [h.log.last?]
    refine ⟨by rw [Option.map_map, Option.map_map]; rfl, fun v hv => ?_⟩
    obtain ⟨e, he, rfl⟩ := Option.map_eq_some_iff.mp hv
    exact h.entries e (List.mem_of_getLast? he)
  have hphysical := hlast.read (fun v =>
    (decodeWith w "Failed to decode last log entry" v).map LogEntry.term) LogEntry.term
    (fun e he => by rw [decode_back w _ he]; rfl) 0
  rw [Option.map_map] at hphysical
  unfold SledTrees.last_log_term SledTrees.last_included_term
  rw [hphysical, read_number h.snapshot_term]
  unfold storage.SledStorage.last_log_term storage.SledStorage.last_included_term
  dsimp only [Function.comp_def]
  split <;> rfl

/-- Every read of the trees finds what the store has. -/
structure Answers (w : Wire α) (b : SledTrees) (s : storage.SledStorage α) : Prop where
  current_term : b.current_term w = .ok s.current_term
  voted_for : b.voted_for w = .ok s.voted_for
  last_log_index : b.last_log_index = .ok s.last_log_index
  last_log_term : b.last_log_term w = .ok s.last_log_term
  last_committed : b.last_committed = .ok s.last_committed
  last_included_index : b.last_included_index = .ok s.last_included_index
  last_included_term : b.last_included_term = .ok s.last_included_term
  read_entry : ∀ index ∈ u64, b.read_entry w index = .ok (s.read_entry index)
  read_entries : ∀ start ∈ u64, ∀ «end» ∈ u64, b.read_entries w start «end» =
    (s.read_entries start «end»).mapError fun | .Invariant msg => .Invariant msg

theorem Stored.answers (h : Stored w b s) : Answers w b s where
  current_term := by
    unfold SledTrees.current_term storage.SledStorage.current_term
    rw [h.hard_state_read]
    cases s.key_hard_state <;> rfl
  voted_for := by
    unfold SledTrees.voted_for storage.SledStorage.voted_for
    rw [h.hard_state_read]
    cases s.key_hard_state <;> rfl
  last_log_index := h.last_log_index_read
  last_log_term := h.last_log_term_read
  last_committed := read_number h.last_committed _
  last_included_index := read_number h.snapshot_index _
  last_included_term := read_number h.snapshot_term _
  read_entry := by
    intro index hindex
    have hcell : Cell (b.log.get? (to_be_bytes index)) (s.log.get? index) w.encode_entry
        fun e => e.index ∈ u64 ∧ e.term ∈ u64 :=
      ⟨h.log.get? to_be_bytes_mono hindex, fun e he =>
        h.entries (index, e) ((s.log.get?_eq_some_iff index e).mp he)⟩
    have hread := hcell.read (fun v =>
      (decodeWith w s!"Failed to decode log entry at {index}" v).map some) some
      (fun e he => by rw [decode_back w _ he]; rfl) none
    unfold SledTrees.read_entry storage.SledStorage.read_entry
    rw [hread]
    cases s.log.get? index <;> rfl
  read_entries := by
    intro start hstart «end» hend
    unfold SledTrees.read_entries storage.SledStorage.read_entries
    split
    · rfl
    split
    · rfl
    · rw [h.log.range to_be_bytes_mono hstart hend]
      refine decodeAll_back w fun e he => ?_
      obtain ⟨kv, hkv, rfl⟩ := List.mem_map.mp he
      exact h.entries kv (List.mem_of_mem_filter hkv)

/-! ## Writes -/

/-- The calls of the store that write. -/
inductive Write (α : Type) where
  | save_hard_state (term : Nat) (vote : Option NodeId)
  | save_last_committed (index : Nat)
  | append_entries (entries : List (LogEntry α))
  | append_entries_and_advance_commit (entries : List (LogEntry α)) (commit_index : Nat)
  | truncate_log (index : Nat)
  | truncate_log_front (up_to_index : Nat)
  | save_snapshot_metadata (last_included_index last_included_term : Nat)

/-- What the types of the arguments promise. -/
def Write.Fits : Write α → Prop
  | .save_hard_state term vote => fitsHardState (term, vote)
  | .save_last_committed index => index ∈ u64
  | .append_entries entries => ∀ e ∈ entries, e.index ∈ u64 ∧ e.term ∈ u64
  | .append_entries_and_advance_commit entries commit_index =>
    (∀ e ∈ entries, e.index ∈ u64 ∧ e.term ∈ u64) ∧ commit_index ∈ u64
  | .truncate_log index => index ∈ u64
  | .truncate_log_front up_to_index => up_to_index ∈ u64
  | .save_snapshot_metadata index term => index ∈ u64 ∧ term ∈ u64

/-- The call on the trees. -/
def Write.toTrees (w : Wire α) (b : SledTrees) : Write α → Except LogStorageError SledTrees
  | .save_hard_state term vote => .ok (b.save_hard_state w term vote)
  | .save_last_committed index => .ok (b.save_last_committed index)
  | .append_entries entries => .ok (b.append_entries w entries)
  | .append_entries_and_advance_commit entries commit_index =>
    .ok (b.append_entries_and_advance_commit w entries commit_index)
  | .truncate_log index => b.truncate_log index
  | .truncate_log_front up_to_index => .ok (b.truncate_log_front up_to_index)
  | .save_snapshot_metadata index term => .ok (b.save_snapshot_metadata index term)

/-- The same call on the store of the model. -/
def Write.toStore (s : storage.SledStorage α) : Write α → storage.SledStorage α
  | .save_hard_state term vote => s.save_hard_state term vote
  | .save_last_committed index => s.save_last_committed index
  | .append_entries entries => s.append_entries entries
  | .append_entries_and_advance_commit entries commit_index =>
    (s.append_entries entries).save_last_committed commit_index
  | .truncate_log index => s.truncate_log index
  | .truncate_log_front up_to_index => s.truncate_log_front up_to_index
  | .save_snapshot_metadata index term => s.save_snapshot_metadata index term

theorem Stored.save_hard_state (h : Stored w b s) {term : Nat} {vote : Option NodeId}
    (hfits : fitsHardState (term, vote)) :
    Stored w (b.save_hard_state w term vote) (s.save_hard_state term vote) where
  log := h.log
  entries := h.entries
  hard_state := .written (fun hs : Nat × Option NodeId => serialize_hard_state w hs.1 hs.2)
    b.meta KEY_HARD_STATE hfits
  last_committed := h.last_committed.frame (utf8.encode_ne (by decide)) _
  snapshot_index := h.snapshot_index.frame (utf8.encode_ne (by decide)) _
  snapshot_term := h.snapshot_term.frame (utf8.encode_ne (by decide)) _

theorem Stored.save_last_committed (h : Stored w b s) {index : Nat} (hindex : index ∈ u64) :
    Stored w (b.save_last_committed index) (s.save_last_committed index) where
  log := h.log
  entries := h.entries
  hard_state := h.hard_state.frame (utf8.encode_ne (by decide)) _
  last_committed := .written to_be_bytes b.meta KEY_LAST_COMMITTED hindex
  snapshot_index := h.snapshot_index.frame (utf8.encode_ne (by decide)) _
  snapshot_term := h.snapshot_term.frame (utf8.encode_ne (by decide)) _

theorem Stored.save_snapshot_metadata (h : Stored w b s) {index term : Nat}
    (hindex : index ∈ u64) (hterm : term ∈ u64) :
    Stored w (b.save_snapshot_metadata index term) (s.save_snapshot_metadata index term) where
  log := h.log
  entries := h.entries
  hard_state := (h.hard_state.frame (utf8.encode_ne (by decide)) _).frame
    (utf8.encode_ne (by decide)) _
  last_committed := (h.last_committed.frame (utf8.encode_ne (by decide)) _).frame
    (utf8.encode_ne (by decide)) _
  snapshot_index := (Cell.written to_be_bytes b.meta KEY_SNAPSHOT_INDEX hindex).frame
    (utf8.encode_ne (by decide)) _
  snapshot_term := .written to_be_bytes _ KEY_SNAPSHOT_TERM hterm

theorem Stored.append_entries (h : Stored w b s) {es : List (LogEntry α)}
    (hes : ∀ e ∈ es, e.index ∈ u64 ∧ e.term ∈ u64) :
    Stored w (b.append_entries w es) (s.append_entries es) := by
  refine ⟨?_, ?_, h.hard_state, h.last_committed, h.snapshot_index, h.snapshot_term⟩
  · have hkeys : ∀ e ∈ es.map fun e => (e.index, e), e.1 ∈ u64 := by
      intro kv hkv
      obtain ⟨e, he, rfl⟩ := List.mem_map.mp hkv
      exact (hes e he).1
    have hlog := h.log.insertAll to_be_bytes_mono hkeys
    rw [List.map_map] at hlog
    exact hlog
  · rintro ⟨k, e⟩ hin
    have hfound := (OrdMap.get?_eq_some_iff _ k e).mpr hin
    rcases OrdMap.get?_insertAll_cases _ _ hfound with hold | hnew
    · exact h.entries (k, e) ((s.log.get?_eq_some_iff k e).mp hold)
    · obtain ⟨e', he', heq⟩ := List.mem_map.mp hnew
      obtain ⟨-, rfl⟩ := Prod.mk.inj heq
      exact hes e' he'

theorem mem_inclusive {lo hi k : Nat} : k ∈ inclusive lo hi ↔ lo ≤ k ∧ k ≤ hi := by
  unfold inclusive
  rw [List.mem_range'_1]
  omega

/-- A batch of removals keeps the entries outside it. -/
theorem Stored.remove (h : Stored w b s) {lo hi : Nat} (hhi : hi ∈ u64) :
    Stored w { b with log := b.log.eraseAll ((inclusive lo hi).map to_be_bytes) }
      { s with log := s.log.filterKeys fun k => ¬(lo ≤ k ∧ k ≤ hi) } := by
  have hkeys : ∀ k ∈ inclusive lo hi, k ∈ u64 := fun k hk =>
    (mem_inclusive.mp hk).2.trans_lt hhi
  have hlog := h.log.eraseAll to_be_bytes_mono hkeys
  rw [OrdMap.eraseAll_eq_filterKeys] at hlog
  have hsame : (s.log.filterKeys fun k => k ∉ inclusive lo hi) =
      s.log.filterKeys fun k => ¬(lo ≤ k ∧ k ≤ hi) := by
    simp only [mem_inclusive]
  rw [hsame] at hlog
  exact ⟨hlog, fun e he => h.entries e (List.mem_of_mem_filter he), h.hard_state,
    h.last_committed, h.snapshot_index, h.snapshot_term⟩

theorem Stored.last_log_index_fits (h : Stored w b s) : s.last_log_index ∈ u64 := by
  unfold storage.SledStorage.last_log_index storage.SledStorage.last_included_index
  change max _ _ < 256 ^ 8
  refine max_lt ?_ ?_
  · cases hlast : s.log.last? with
    | none => exact Nat.pow_pos (by norm_num)
    | some e => exact h.log.keys e (List.mem_of_getLast? hlast)
  · cases hsnap : s.key_snapshot_index with
    | none => exact Nat.pow_pos (by norm_num)
    | some k => exact h.snapshot_index.fits k hsnap

theorem Stored.truncate_log (h : Stored w b s) (index : Nat) :
    ∃ b', b.truncate_log index = .ok b' ∧ Stored w b' (s.truncate_log index) := by
  unfold SledTrees.truncate_log storage.SledStorage.truncate_log
  rw [h.last_log_index_read]
  refine ⟨_, rfl, ?_⟩
  dsimp only
  split
  · exact h
  · exact h.remove h.last_log_index_fits

theorem Stored.write (h : Stored w b s) {wr : Write α} (hfits : wr.Fits) :
    ∃ b', wr.toTrees w b = .ok b' ∧ Stored w b' (wr.toStore s) := by
  cases wr with
  | save_hard_state term vote => exact ⟨_, rfl, h.save_hard_state hfits⟩
  | save_last_committed index => exact ⟨_, rfl, h.save_last_committed hfits⟩
  | append_entries es => exact ⟨_, rfl, h.append_entries hfits⟩
  | append_entries_and_advance_commit es i =>
    exact ⟨_, rfl, (h.append_entries hfits.1).save_last_committed hfits.2⟩
  | truncate_log index => exact h.truncate_log index
  | truncate_log_front up_to_index => exact ⟨_, rfl, h.remove hfits⟩
  | save_snapshot_metadata index term => exact ⟨_, rfl, h.save_snapshot_metadata hfits.1 hfits.2⟩

/-- One call after the other, up to the first that fails. -/
def writeTrees (w : Wire α) : List (Write α) → SledTrees → Except LogStorageError SledTrees
  | [], b => .ok b
  | wr :: ws, b =>
    match wr.toTrees w b with
    | .error e => .error e
    | .ok b => writeTrees w ws b

/-- One call after the other on the store of the model. -/
def writeStore (ws : List (Write α)) (s : storage.SledStorage α) : storage.SledStorage α :=
  ws.foldl Write.toStore s

theorem Stored.writes (h : Stored w b s) {ws : List (Write α)} (hws : ∀ wr ∈ ws, wr.Fits) :
    ∃ b', writeTrees w ws b = .ok b' ∧ Stored w b' (writeStore ws s) := by
  induction ws generalizing b s with
  | nil => exact ⟨b, rfl, h⟩
  | cons wr ws ih =>
    obtain ⟨b₁, hb₁, h₁⟩ := h.write (hws wr List.mem_cons_self)
    obtain ⟨b', hb', h'⟩ := ih h₁ fun wr hwr => hws wr (List.mem_cons_of_mem _ hwr)
    refine ⟨b', ?_, h'⟩
    rw [writeTrees, hb₁]
    exact hb'

/-- Whatever is written to a new database, in any order, no write fails, and every read of the
trees finds what the store has. -/
theorem trees_hold_store (w : Wire α) (ws : List (Write α)) (hws : ∀ wr ∈ ws, wr.Fits) :
    ∃ b, writeTrees w ws .new = .ok b ∧ Answers w b (writeStore ws .new) := by
  obtain ⟨b, hb, hstored⟩ := (stored_new w).writes hws
  exact ⟨b, hb, hstored.answers⟩

/-! ## The messages as the schema has them -/

/-- `HardState` and `LogEntry` as protocol buffers. -/
def schema : Wire Bytes where
  encode_hard_state hs :=
    protobuf.encode
      (protobuf.numberField 1 hs.term ++ (protobuf.bytesField 2 (utf8.encode hs.vote) ++ []))
  decode_hard_state data :=
    match protobuf.decode data with
    | none => .error "invalid wire format"
    | some m => (utf8.decode (protobuf.bytes m 2)).map (HardState.mk (protobuf.number m 1))
  encode_entry e :=
    protobuf.encode (protobuf.numberField 1 e.term ++
      (protobuf.numberField 2 e.index ++ (protobuf.bytesField 3 e.data ++ [])))
  decode_entry data :=
    match protobuf.decode data with
    | none => .error "invalid wire format"
    | some m => .ok ⟨protobuf.number m 2, protobuf.number m 1, protobuf.bytes m 3⟩
  hard_state_back hs _ := by
    rw [protobuf.decode_encode]
    simp [-List.append_nil, protobuf.number, protobuf.bytes, protobuf.optional, utf8.decode_encode,
      Except.map]
  entry_back e _ _ := by
    rw [protobuf.decode_encode]
    simp [-List.append_nil, protobuf.number, protobuf.bytes, protobuf.optional]

/-- A vote, three entries with an index of more than one byte, and the front cut off. -/
def written : List (Write Bytes) :=
  [.save_hard_state 2 (some 3), .append_entries [⟨255, 1, utf8.encode "milk"⟩, ⟨256, 2, []⟩],
    .append_entries_and_advance_commit [⟨257, 2, utf8.encode "rice"⟩] 256, .truncate_log_front 2,
    .truncate_log 257]

theorem trees_hold_store_written : ∃ b, writeTrees schema written .new = .ok b ∧
    b.voted_for schema = .ok (some 3) ∧ b.last_log_index = .ok 256 := by
  have hfits : ∀ wr ∈ written, wr.Fits := by
    simp [written, Write.Fits, fitsHardState, NodeId.Valid, u64Max]
  obtain ⟨b, hb, hanswers⟩ := trees_hold_store schema written hfits
  refine ⟨b, hb, ?_, ?_⟩
  · rw [hanswers.voted_for]
    rfl
  · rw [hanswers.last_log_index]
    rfl

end raft_engine.sled
