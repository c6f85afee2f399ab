-- The two log stores of the engine: the tree of the sled backend and the vector
-- of the one the tests run on. They answer every call alike as long as the vector
-- is asked for a range it has whole and reaches as far as the horizon when entries
-- are appended; the snapshot of a longer log, or a read below the log, tells them
-- apart.
import LactoSensus.HorizonLog

open common.types
open ordmap

namespace raft_engine.node

/-! ## Consecutive entries -/

variable {α : Type} {b : Nat} {es fs : List (LogEntry α)}

theorem Consecutive.append (h : Consecutive b es) (h' : Consecutive (b + es.length) fs) :
    Consecutive b (es ++ fs) := by
  induction es generalizing b with
  | nil => exact h'
  | cons e es ih =>
    obtain ⟨he, hes⟩ := h
    refine ⟨he, ih hes ?_⟩
    rw [List.length_cons] at h'
    rw [Nat.add_assoc, Nat.add_comm 1]
    exact h'

theorem Consecutive.take (h : Consecutive b es) (n : Nat) : Consecutive b (es.take n) := by
  induction es generalizing b n with
  | nil => simpa using h
  | cons e es ih =>
    cases n with
    | zero => trivial
    | succ n => exact ⟨h.1, ih h.2 n⟩

theorem Consecutive.drop (h : Consecutive b es) (n : Nat) : Consecutive (b + n) (es.drop n) := by
  induction n generalizing b es with
  | zero => exact h
  | succ n ih =>
    cases es with
    | nil => trivial
    | cons e es =>
      have := ih h.2
      rwa [Nat.add_assoc, Nat.add_comm 1] at this

theorem Consecutive.getElem? (h : Consecutive b es) {i : Nat} {e : LogEntry α}
    (he : es[i]? = some e) : e.index = b + 1 + i := by
  induction es generalizing b i with
  | nil => simp at he
  | cons x es ih =>
    cases i with
    | zero =>
      obtain rfl := Option.some.inj he
      exact h.1
    | succ i =>
      have := ih h.2 he
      omega

theorem Consecutive.head_index (h : Consecutive b es) {e : LogEntry α} (he : es.head? = some e) :
    e.index = b + 1 := by
  rw [List.head?_eq_getElem?] at he
  exact h.getElem? he

theorem Consecutive.getLast_index (h : Consecutive b es) {e : LogEntry α}
    (he : es.getLast? = some e) : e.index = b + es.length := by
  have hlast := h.last_index
  rw [he] at hlast
  exact hlast

/-- The entries between two indices are a slice. -/
theorem Consecutive.filter_range (h : Consecutive b es) (lo hi : Nat) :
    es.filter (fun e => lo ≤ e.index ∧ e.index ≤ hi) = (es.take (hi - b)).drop (lo - (b + 1)) := by
  induction es generalizing b with
  | nil => simp
  | cons e es ih =>
    obtain ⟨he, hes⟩ := h
    have ih := ih hes
    by_cases hhi : b + 1 ≤ hi
    · obtain ⟨n, hn⟩ : ∃ n, hi - b = n + 1 := ⟨hi - b - 1, by omega⟩
      have hn' : hi - (b + 1) = n := by omega
      rw [hn, List.take_succ_cons]
      rw [hn'] at ih
      by_cases hlo : lo ≤ b + 1
      · rw [List.filter_cons_of_pos (by simp [he, hlo, hhi]), ih,
          show lo - (b + 1 + 1) = 0 by omega, show lo - (b + 1) = 0 by omega]
        rfl
      · obtain ⟨k, hk⟩ : ∃ k, lo - (b + 1) = k + 1 := ⟨lo - (b + 1) - 1, by omega⟩
        rw [List.filter_cons_of_neg (by simp [he]; omega), ih, hk, List.drop_succ_cons,
          show lo - (b + 1 + 1) = k by omega]
    · rw [List.filter_cons_of_neg (by simp [he]; omega), ih,
        show hi - (b + 1) = 0 by omega, show hi - b = 0 by omega]
      simp

end raft_engine.node

namespace raft_engine.storage

open raft_engine.node

variable {α σ : Type}

/-! ## The interface -/

/-- What a call of a log store can fail with. -/
inductive StorageError where
  | Log (e : LogStorageError)
  | Arithmetic (e : ArithmeticError)
deriving DecidableEq, Repr

/-- The methods of the trait that cannot fail without an I/O error return no result. -/
class LogStorage (σ : Type) (α : outParam Type) where
  current_term : σ → Nat
  voted_for : σ → Option NodeId
  last_log_index : σ → Nat
  last_log_term : σ → Nat
  last_committed : σ → Nat
  read_entry : σ → Nat → Option (LogEntry α)
  read_entries : σ → Nat → Nat → Except StorageError (List (LogEntry α))
  save_hard_state : Nat → Option NodeId → σ → σ
  save_last_committed : Nat → σ → σ
  append_entries : List (LogEntry α) → σ → σ × Except StorageError Unit
  append_entries_and_advance_commit : List (LogEntry α) → Nat → σ →
      σ × Except StorageError Unit := fun entries commit_index s =>
    match append_entries entries s with
    | (s, .ok ()) => (save_last_committed commit_index s, .ok ())
    | (s, .error e) => (s, .error e)
  truncate_log : Nat → σ → σ
  truncate_log_front : Nat → σ → σ
  save_snapshot_metadata : Nat → Nat → σ → σ
  last_included_index : σ → Nat
  last_included_term : σ → Nat

instance : LogStorage (SledStorage α) α where
  current_term := SledStorage.current_term
  voted_for := SledStorage.voted_for
  last_log_index := SledStorage.last_log_index
  last_log_term := SledStorage.last_log_term
  last_committed := SledStorage.last_committed
  read_entry := SledStorage.read_entry
  read_entries s start «end» := (s.read_entries start «end»).mapError .Log
  save_hard_state := SledStorage.save_hard_state
  save_last_committed := SledStorage.save_last_committed
  append_entries entries s := (s.append_entries entries, .ok ())
  append_entries_and_advance_commit entries commit_index s :=
    ((s.append_entries entries).save_last_committed commit_index, .ok ())
  truncate_log := SledStorage.truncate_log
  truncate_log_front := SledStorage.truncate_log_front
  save_snapshot_metadata := SledStorage.save_snapshot_metadata
  last_included_index := SledStorage.last_included_index
  last_included_term := SledStorage.last_included_term

/-! ## The vector -/

/-- `MemoryState`; entry 0 of the vector is the first one that is not truncated. -/
structure MemoryStorage (α : Type) where
  current_term : Nat
  voted_for : Option NodeId
  last_committed : Nat
  last_included_index : Nat
  last_included_term : Nat
  log : List (LogEntry α)
deriving DecidableEq

/-- A log before its first write. -/
def MemoryStorage.new : MemoryStorage α := ⟨0, none, 0, 0, 0, []⟩

/-- The last entry of the vector, or the horizon when that is further. -/
def MemoryStorage.last_log_index (m : MemoryStorage α) : Nat :=
  let physical_last := (m.log.getLast?.map LogEntry.index).getD 0
  max physical_last m.last_included_index

/-- The last entry of the vector, or the horizon when there is none. -/
def MemoryStorage.last_log_term (m : MemoryStorage α) : Nat :=
  let physical_last := (m.log.getLast?.map LogEntry.term).getD 0
  if physical_last > 0 then physical_last else m.last_included_term

/-- Entries are found by their distance from the first one. -/
def MemoryStorage.read_entry (m : MemoryStorage α) (index : Nat) : Option (LogEntry α) :=
  if index = 0 then none
  else
    match m.log.head? with
    | some first => if index < first.index then none else m.log[index - first.index]?
    | none => none

/-- A range that begins under the first entry is an error. -/
def MemoryStorage.read_entries (m : MemoryStorage α) (start «end» : Nat) :
    Except StorageError (List (LogEntry α)) :=
  if start = 0 then
    .error (.Log (.Invariant "LogIndex is 1-indexed; range start cannot be 0"))
  else if start > «end» then
    .ok []
  else
    match m.log.head? with
    | some first =>
      if start < first.index then
        let range_end := «end»
        .error (.Log (.Invariant
          (s!"Log range [{start}, {range_end}] overlaps with truncated history " ++
            s!"(log starts at {first.index})")))
      else
        let start_offset := start - first.index
        let end_offset := «end» - first.index
        -- a slice that ends past the vector is none at all
        if end_offset < m.log.length then
          .ok ((m.log.drop start_offset).take (end_offset + 1 - start_offset))
        else .ok []
    | none => .ok []

/-- An entry that does not follow the last one is an error; those before it stay. -/
def MemoryStorage.append_entries : List (LogEntry α) → MemoryStorage α →
    MemoryStorage α × Except StorageError Unit
  | [], m => (m, .ok ())
  | entry :: entries, m =>
    let last_idx := (m.log.getLast?.map LogEntry.index).getD m.last_included_index
    match checked_add "LogIndex" last_idx 1 with
    | .error e => (m, .error (.Arithmetic e))
    | .ok expected_idx =>
      if entry.index ≠ expected_idx then
        (m, .error (.Log (.Invariant
          (s!"Non-contiguous log append: expected index {expected_idx}, " ++
            s!"got {entry.index}"))))
      else append_entries entries { m with log := m.log ++ [entry] }

/-- Cut the vector from `index` on. -/
def MemoryStorage.truncate_log (index : Nat) (m : MemoryStorage α) : MemoryStorage α :=
  match m.log.head? with
  | some first =>
    if index ≤ first.index then { m with log := [] }
    else { m with log := m.log.take (index - first.index) }
  | none => m

/-- Drop what a snapshot stands for. -/
def MemoryStorage.truncate_log_front (up_to_index : Nat) (m : MemoryStorage α) :
    MemoryStorage α :=
  match m.log.head? with
  | some first =>
    if up_to_index ≥ first.index then
      let remove_count := up_to_index - first.index + 1
      { m with log := m.log.drop (min remove_count m.log.length) }
    else m
  | none => m

instance : LogStorage (MemoryStorage α) α where
  current_term := MemoryStorage.current_term
  voted_for := MemoryStorage.voted_for
  last_log_index := MemoryStorage.last_log_index
  last_log_term := MemoryStorage.last_log_term
  last_committed := MemoryStorage.last_committed
  read_entry := MemoryStorage.read_entry
  read_entries := MemoryStorage.read_entries
  save_hard_state term vote m := { m with current_term := term, voted_for := vote }
  save_last_committed index m := { m with last_committed := index }
  append_entries := MemoryStorage.append_entries
  truncate_log := MemoryStorage.truncate_log
  truncate_log_front := MemoryStorage.truncate_log_front
  save_snapshot_metadata last_included_index last_included_term m :=
    { m with
      last_included_index := last_included_index
      last_included_term := last_included_term }
  last_included_index := MemoryStorage.last_included_index
  last_included_term := MemoryStorage.last_included_term

/-! ## Calls -/

/-- The calls of the trait. -/
inductive LogCall (α : Type) where
  | current_term
  | voted_for
  | last_log_index
  | last_log_term
  | last_committed
  | last_included_index
  | last_included_term
  | read_entry (index : Nat)
  | read_entries (start «end» : Nat)
  | save_hard_state (term : Nat) (vote : Option NodeId)
  | save_last_committed (index : Nat)
  | append_entries (entries : List (LogEntry α))
  | append_entries_and_advance_commit (entries : List (LogEntry α)) (commit_index : Nat)
  | truncate_log (index : Nat)
  | truncate_log_front (up_to_index : Nat)
  | save_snapshot_metadata (last_included_index last_included_term : Nat)
deriving DecidableEq

/-- What a call returns. -/
inductive Answer (α : Type) where
  | Number (n : Nat)
  | Vote (vote : Option NodeId)
  | Entry (entry : Option (LogEntry α))
  | Entries (entries : List (LogEntry α))
  | Done
deriving DecidableEq

/-- The call on a store of either kind. -/
def LogCall.on [LogStorage σ α] (s : σ) : LogCall α → σ × Except StorageError (Answer α)
  | .current_term => (s, .ok (.Number (LogStorage.current_term s)))
  | .voted_for => (s, .ok (.Vote (LogStorage.voted_for s)))
  | .last_log_index => (s, .ok (.Number (LogStorage.last_log_index s)))
  | .last_log_term => (s, .ok (.Number (LogStorage.last_log_term s)))
  | .last_committed => (s, .ok (.Number (LogStorage.last_committed s)))
  | .last_included_index => (s, .ok (.Number (LogStorage.last_included_index s)))
  | .last_included_term => (s, .ok (.Number (LogStorage.last_included_term s)))
  | .read_entry index => (s, .ok (.Entry (LogStorage.read_entry s index)))
  | .read_entries start «end» =>
    (s, (LogStorage.read_entries s start «end»).map .Entries)
  | .save_hard_state term vote => (LogStorage.save_hard_state term vote s, .ok .Done)
  | .save_last_committed index => (LogStorage.save_last_committed index s, .ok .Done)
  | .append_entries entries =>
    match LogStorage.append_entries entries s with
    | (s, res) => (s, res.map fun () => .Done)
  | .append_entries_and_advance_commit entries commit_index =>
    match LogStorage.append_entries_and_advance_commit entries commit_index s with
    | (s, res) => (s, res.map fun () => .Done)
  | .truncate_log index => (LogStorage.truncate_log index s, .ok .Done)
  | .truncate_log_front up_to_index =>
    (LogStorage.truncate_log_front up_to_index s, .ok .Done)
  | .save_snapshot_metadata index term =>
    (LogStorage.save_snapshot_metadata index term s, .ok .Done)

/-- What a store answers to one call after the other. -/
def answers [LogStorage σ α] : List (LogCall α) → σ → List (Except StorageError (Answer α))
  | [], _ => []
  | call :: calls, s => (call.on s).2 :: answers calls (call.on s).1

/-- The calls the engine makes: it appends what follows its last index. -/
def LogCall.Issued (s : SledStorage α) : LogCall α → Prop
  | .append_entries entries =>
    Consecutive s.last_log_index entries ∧ s.last_log_index + entries.length ≤ u64Max
  | .append_entries_and_advance_commit entries _ =>
    Consecutive s.last_log_index entries ∧ s.last_log_index + entries.length ≤ u64Max
  | _ => True

/-- Every call is one that the engine makes where it is made. -/
def Issued : List (LogCall α) → SledStorage α → Prop
  | [], _ => True
  | call :: calls, s => call.Issued s ∧ Issued calls (call.on s).1

/-- The log goes at least as far as the snapshot does. -/
def MemoryStorage.ReachesHorizon (m : MemoryStorage α) : Prop :=
  ∀ last ∈ m.log.getLast?, m.last_included_index ≤ last.index

/-- The log has the whole range, or nothing from its start on. -/
def MemoryStorage.HasRange (m : MemoryStorage α) (start «end» : Nat) : Prop :=
  ∀ first ∈ m.log.head?, ∀ last ∈ m.log.getLast?,
    first.index ≤ start ∧ («end» ≤ last.index ∨ last.index < start)

/-- The vector is in a state in which it can answer the call as the tree does. -/
def LogCall.Aligned (m : MemoryStorage α) : LogCall α → Prop
  | .append_entries entries => entries ≠ [] → m.ReachesHorizon
  | .append_entries_and_advance_commit entries _ => entries ≠ [] → m.ReachesHorizon
  | .read_entries start «end» => 0 < start → start ≤ «end» → m.HasRange start «end»
  | _ => True

/-- The vector can answer every call where it is made. -/
def Aligned : List (LogCall α) → MemoryStorage α → Prop
  | [], _ => True
  | call :: calls, m => call.Aligned m ∧ Aligned calls (call.on m).1

/-! ## The tree mirrors the vector -/

/-- The pairs of the tree are the entries of the vector, each under its index. -/
structure Mirrors (m : MemoryStorage α) (s : SledStorage α) : Prop where
  current_term : s.current_term = m.current_term
  voted_for : s.voted_for = m.voted_for
  last_committed : s.last_committed = m.last_committed
  last_included_index : s.last_included_index = m.last_included_index
  last_included_term : s.last_included_term = m.last_included_term
  entries : s.log.entries = m.log.map fun e => (e.index, e)
  contiguous : ∃ b, Consecutive b m.log

variable {m m' : MemoryStorage α} {s s' : SledStorage α}

theorem Mirrors.new : Mirrors (MemoryStorage.new : MemoryStorage α) .new :=
  ⟨rfl, rfl, rfl, rfl, rfl, rfl, 0, trivial⟩

/-- Only the log has changed, in both alike. -/
theorem Mirrors.relog (h : Mirrors m s) {log : List (LogEntry α)} {tree : OrdMap Nat (LogEntry α)}
    (hentries : tree.entries = log.map fun e => (e.index, e)) (hcon : ∃ b, Consecutive b log) :
    Mirrors { m with log := log } { s with log := tree } :=
  ⟨h.current_term, h.voted_for, h.last_committed, h.last_included_index, h.last_included_term,
    hentries, hcon⟩

theorem Mirrors.filterKeys (h : Mirrors m s) (p : Nat → Bool) :
    (s.log.filterKeys p).entries = (m.log.filter fun e => p e.index).map fun e => (e.index, e) := by
  change s.log.entries.filter _ = _
  rw [h.entries, List.filter_map]
  rfl

theorem Mirrors.last? (h : Mirrors m s) :
    s.log.last? = m.log.getLast?.map fun e => (e.index, e) := by
  unfold OrdMap.last?
  rw [h.entries, List.getLast?_map]

theorem Mirrors.last_log_index (h : Mirrors m s) : s.last_log_index = m.last_log_index := by
  unfold SledStorage.last_log_index MemoryStorage.last_log_index
  rw [h.last?, h.last_included_index, Option.map_map]
  rfl

theorem Mirrors.last_log_term (h : Mirrors m s) : s.last_log_term = m.last_log_term := by
  unfold SledStorage.last_log_term MemoryStorage.last_log_term
  rw [h.last?, h.last_included_term, Option.map_map]
  rfl

theorem Mirrors.read_entry (h : Mirrors m s) (index : Nat) :
    s.read_entry index = m.read_entry index := by
  obtain ⟨b, hb⟩ := h.contiguous
  have htree : ∀ e, s.read_entry index = some e ↔ e ∈ m.log ∧ e.index = index := by
    intro e
    change s.log.get? index = some e ↔ _
    rw [OrdMap.get?_eq_some_iff, h.entries, List.mem_map]
    constructor
    · rintro ⟨e', hmem, heq⟩
      obtain ⟨hindex, rfl⟩ := Prod.mk.inj heq
      exact ⟨hmem, hindex⟩
    · rintro ⟨hmem, rfl⟩
      exact ⟨e, hmem, rfl⟩
  ext e
  rw [htree]
  unfold MemoryStorage.read_entry
  constructor
  · rintro ⟨hmem, rfl⟩
    obtain ⟨i, hi⟩ := List.mem_iff_getElem?.mp hmem
    have hindex := hb.getElem? hi
    obtain ⟨first, hfirst⟩ : ∃ first, m.log.head? = some first := by
      cases hlog : m.log with
      | nil => simp [hlog] at hmem
      | cons x xs => exact ⟨x, rfl⟩
    have hhead := hb.head_index hfirst
    have hoffset : e.index - first.index = i := by omega
    rw [if_neg (by omega), hfirst]
    dsimp only
    rw [if_neg (by omega), hoffset]
    exact hi
  · intro he
    split at he
    · cases he
    split at he
    · rename_i first hfirst
      have hhead := hb.head_index hfirst
      split at he
      · cases he
      · have hindex := hb.getElem? he
        exact ⟨List.mem_of_getElem? he, by omega⟩
    · cases he

theorem Mirrors.range (h : Mirrors m s) {b : Nat} (hb : Consecutive b m.log) (lo hi : Nat) :
    s.log.range lo hi = (m.log.take (hi - b)).drop (lo - (b + 1)) := by
  unfold OrdMap.range OrdMap.values
  rw [h.filterKeys, List.map_map, ← hb.filter_range]
  exact List.map_id _

/-- Past the start, the two ranges differ exactly when the vector lacks a part. -/
theorem Mirrors.read_entries_iff (h : Mirrors m s) {start «end» : Nat} :
    m.read_entries start «end» = (s.read_entries start «end»).mapError .Log ↔
      (0 < start → start ≤ «end» → m.HasRange start «end») := by
  obtain ⟨b, hb⟩ := h.contiguous
  unfold MemoryStorage.read_entries SledStorage.read_entries
  by_cases hzero : start = 0
  · rw [if_pos hzero, if_pos hzero]
    exact ⟨fun _ hpos => absurd hpos (by omega), fun _ => rfl⟩
  rw [if_neg hzero, if_neg hzero]
  by_cases hempty : start > «end»
  · rw [if_pos hempty, if_pos hempty]
    exact ⟨fun _ _ hle => absurd hle (by omega), fun _ => rfl⟩
  rw [if_neg hempty, if_neg hempty, h.range hb]
  cases hlog : m.log with
  | nil =>
    refine ⟨fun _ _ _ first hfirst => ?_, fun _ => by simp [Except.mapError]⟩
    rw [hlog] at hfirst
    cases hfirst
  | cons x xs =>
    have hx : x.index = b + 1 := hb.head_index (by rw [hlog]; rfl)
    obtain ⟨last, hlast⟩ : ∃ last, m.log.getLast? = some last := by
      rw [hlog]
      exact ⟨_, List.getLast?_eq_some_getLast (by simp)⟩
    have hlastindex := hb.getLast_index hlast
    have hrange : m.HasRange start «end» ↔
        x.index ≤ start ∧ («end» ≤ last.index ∨ last.index < start) := by
      unfold MemoryStorage.HasRange
      rw [hlast, hlog]
      simp
    have hgoal : (0 < start → start ≤ «end» → m.HasRange start «end») ↔
        x.index ≤ start ∧ («end» ≤ last.index ∨ last.index < start) :=
      ⟨fun hhas => hrange.mp (hhas (by omega) (by omega)), fun hhas _ _ => hrange.mpr hhas⟩
    rw [hgoal, ← hlog]
    rw [hlog, List.length_cons] at hlastindex
    have hlength : (x :: xs).length = xs.length + 1 := rfl
    simp only [hlog, List.head?_cons, Except.mapError, hlength]
    by_cases hbelow : start < x.index
    · rw [if_pos hbelow]
      exact ⟨fun hno => (nomatch hno), fun hhas => absurd hhas.1 (by omega)⟩
    rw [if_neg hbelow]
    by_cases hinside : «end» - x.index < xs.length + 1
    · rw [if_pos hinside]
      refine ⟨fun _ => ⟨by omega, .inl (by omega)⟩, fun _ => ?_⟩
      rw [List.drop_take, show start - (b + 1) = start - x.index by omega,
        show «end» - b - (start - x.index) = «end» - x.index + 1 - (start - x.index) by omega]
    · rw [if_neg hinside]
      rw [Except.ok.injEq, eq_comm, List.drop_eq_nil_iff, List.length_take, hlength]
      omega

theorem Mirrors.mem_index (h : Mirrors m s) {e : LogEntry α} (he : e ∈ m.log) :
    0 < e.index ∧ e.index ≤ s.last_log_index := by
  obtain ⟨b, hb⟩ := h.contiguous
  obtain ⟨i, hi⟩ := List.mem_iff_getElem?.mp he
  have hindex := hb.getElem? hi
  refine ⟨by omega, key_le_last ?_⟩
  have hmem : (e.index, e) ∈ s.log.entries := by
    rw [h.entries]
    exact List.mem_map_of_mem he
  rw [(s.log.get?_eq_some_iff e.index e).mpr hmem]
  simp

theorem Mirrors.truncate_log (h : Mirrors m s) (index : Nat) :
    Mirrors (m.truncate_log index) (s.truncate_log index) := by
  obtain ⟨b, hb⟩ := h.contiguous
  have hvector : m.truncate_log index = { m with log := m.log.take (index - 1 - b) } := by
    unfold MemoryStorage.truncate_log
    cases hlog : m.log with
    | nil =>
      dsimp only [List.head?_nil]
      rw [List.take_nil, ← hlog]
    | cons x xs =>
      have hx : x.index = b + 1 := hb.head_index (by rw [hlog]; rfl)
      dsimp only [List.head?_cons]
      split
      · rw [show index - 1 - b = 0 by omega, List.take_zero]
      · rw [show index - 1 - b = index - x.index by omega]
  have hslice : m.log.take (index - 1 - b) = m.log.filter fun e => 0 ≤ e.index ∧
      e.index ≤ index - 1 := by
    rw [hb.filter_range, Nat.zero_sub, List.drop_zero]
  rw [hvector]
  unfold SledStorage.truncate_log
  dsimp only
  split
  · rename_i hpast
    refine h.relog ?_ ⟨b, hb.take _⟩
    rw [h.entries, hslice, List.filter_eq_self.mpr]
    intro e he
    have := h.mem_index he
    simp only [decide_eq_true_eq]
    omega
  · refine h.relog ?_ ⟨b, hb.take _⟩
    rw [h.filterKeys, hslice]
    congr 1
    refine List.filter_congr fun e he => ?_
    have := h.mem_index he
    simp only [decide_eq_decide]
    omega

theorem Mirrors.truncate_log_front (h : Mirrors m s) (up_to_index : Nat) :
    Mirrors (m.truncate_log_front up_to_index) (s.truncate_log_front up_to_index) := by
  obtain ⟨b, hb⟩ := h.contiguous
  have hvector : m.truncate_log_front up_to_index =
      { m with log := m.log.drop (up_to_index - b) } := by
    unfold MemoryStorage.truncate_log_front
    cases hlog : m.log with
    | nil =>
      dsimp only [List.head?_nil]
      rw [List.drop_nil, ← hlog]
    | cons x xs =>
      have hx : x.index = b + 1 := hb.head_index (by rw [hlog]; rfl)
      dsimp only [List.head?_cons]
      split
      · rw [show up_to_index - x.index + 1 = up_to_index - b by omega, ← List.drop_eq_drop_min]
      · rw [show up_to_index - b = 0 by omega, List.drop_zero, ← hlog]
  rw [hvector]
  refine h.relog ?_ ⟨_, hb.drop _⟩
  rw [h.filterKeys]
  congr 1
  have hslice : m.log.drop (up_to_index - b) = m.log.filter fun e => up_to_index + 1 ≤ e.index ∧
      e.index ≤ b + m.log.length := by
    rw [hb.filter_range, Nat.add_sub_cancel_left, List.take_length,
      Nat.add_sub_add_right]
  rw [hslice]
  refine List.filter_congr fun e he => ?_
  obtain ⟨i, hi⟩ := List.mem_iff_getElem?.mp he
  have hindex := hb.getElem? hi
  obtain ⟨hlt, -⟩ := List.getElem?_eq_some_iff.mp hi
  simp only [decide_eq_decide]
  omega

/-! ## Appends -/

theorem insert_past {t : OrdMap Nat (LogEntry α)} {k : Nat} {v : LogEntry α}
    (hlt : ∀ p ∈ t.entries, p.1 < k) : (t.insert k v).entries = t.entries ++ [(k, v)] := by
  have hkeep : t.entries.filter (fun e => e.1 < k) = t.entries := by
    rw [List.filter_eq_self]
    exact fun p hp => decide_eq_true (hlt p hp)
  have hnone : t.entries.filter (fun e => k < e.1) = [] := by
    rw [List.filter_eq_nil_iff]
    intro p hp
    have := hlt p hp
    simp only [decide_eq_true_eq]
    omega
  change t.entries.filter _ ++ (k, v) :: t.entries.filter _ = _
  rw [hkeep, hnone]

theorem insertAll_past {log entries : List (LogEntry α)} {t : OrdMap Nat (LogEntry α)} {n : Nat}
    (hentries : t.entries = log.map fun e => (e.index, e)) (hle : ∀ e ∈ log, e.index ≤ n)
    (hcon : Consecutive n entries) :
    (t.insertAll (entries.map fun e => (e.index, e))).entries =
      (log ++ entries).map fun e => (e.index, e) := by
  induction entries generalizing log t n with
  | nil =>
    rw [List.append_nil]
    exact hentries
  | cons e es ih =>
    obtain ⟨he, hes⟩ := hcon
    have hinsert : (t.insert e.index e).entries = (log ++ [e]).map fun e => (e.index, e) := by
      rw [insert_past, hentries, List.map_append]
      · rfl
      · rw [hentries]
        intro p hp
        obtain ⟨x, hx, rfl⟩ := List.mem_map.mp hp
        have := hle x hx
        dsimp only
        omega
    have hrest := ih hinsert (n := n + 1) (fun x hx => by
      rcases List.mem_append.mp hx with hx | hx
      · exact (hle x hx).trans (Nat.le_succ n)
      · rw [List.mem_singleton.mp hx, he]) hes
    rw [List.append_assoc] at hrest
    exact hrest

/-- The index after which the vector goes on. -/
def MemoryStorage.tail (m : MemoryStorage α) : Nat :=
  (m.log.getLast?.map LogEntry.index).getD m.last_included_index

theorem append_entries_ok {entries : List (LogEntry α)} (hcon : Consecutive m.tail entries)
    (hmax : entries ≠ [] → m.tail + entries.length ≤ u64Max) :
    m.append_entries entries = ({ m with log := m.log ++ entries }, .ok ()) := by
  induction entries generalizing m with
  | nil =>
    rw [List.append_nil]
    rfl
  | cons e es ih =>
    obtain ⟨he, hes⟩ := hcon
    have hmax := hmax (by simp)
    rw [List.length_cons] at hmax
    have hadd : checked_add "LogIndex" m.tail 1 = .ok (m.tail + 1) := if_pos (by omega)
    have htail : MemoryStorage.tail { m with log := m.log ++ [e] } = m.tail + 1 := by
      unfold MemoryStorage.tail
      rw [List.getLast?_concat]
      exact he
    have hrest := ih (m := { m with log := m.log ++ [e] }) (by rw [htail]; exact hes)
      (fun _ => by rw [htail]; omega)
    rw [List.append_assoc] at hrest
    unfold MemoryStorage.append_entries
    change (match checked_add "LogIndex" m.tail 1 with
      | .error e => _
      | .ok expected_idx => _ : MemoryStorage α × Except StorageError Unit) = _
    rw [hadd]
    dsimp only
    rw [if_neg (not_not.mpr he)]
    exact hrest

theorem tail_of_reaches (h : m.ReachesHorizon) : m.tail = m.last_log_index := by
  unfold MemoryStorage.tail MemoryStorage.last_log_index
  unfold MemoryStorage.ReachesHorizon at h
  cases hlast : m.log.getLast? with
  | none => simp
  | some last => simpa using h last hlast

theorem Mirrors.contiguous_tail (h : Mirrors m s) {entries : List (LogEntry α)}
    (hcon : Consecutive m.tail entries) : ∃ b, Consecutive b (m.log ++ entries) := by
  obtain ⟨b, hb⟩ := h.contiguous
  cases hlast : m.log.getLast? with
  | none =>
    rw [List.getLast?_eq_none_iff.mp hlast, List.nil_append]
    exact ⟨_, hcon⟩
  | some last =>
    refine ⟨b, hb.append ?_⟩
    rw [← hb.getLast_index hlast]
    unfold MemoryStorage.tail at hcon
    rw [hlast] at hcon
    exact hcon

/-- The vector takes the entries that follow its last index exactly when it goes at least as
far as the snapshot. -/
theorem Mirrors.append_entries (h : Mirrors m s) {entries : List (LogEntry α)}
    (hcon : Consecutive s.last_log_index entries)
    (hmax : s.last_log_index + entries.length ≤ u64Max) :
    (entries ≠ [] → m.ReachesHorizon) ∧ (m.append_entries entries).2 = .ok () ∧
        Mirrors (m.append_entries entries).1 (s.append_entries entries) ∨
      ¬(entries ≠ [] → m.ReachesHorizon) ∧ ∃ e, (m.append_entries entries).2 = .error e := by
  by_cases haligned : entries ≠ [] → m.ReachesHorizon
  · refine .inl ⟨haligned, ?_⟩
    have htail : entries ≠ [] → m.tail = s.last_log_index := fun hne =>
      (tail_of_reaches (haligned hne)).trans h.last_log_index.symm
    have hcon' : Consecutive m.tail entries := by
      cases entries with
      | nil => trivial
      | cons e es =>
        rw [htail (by simp)]
        exact hcon
    rw [append_entries_ok hcon' fun hne => by rw [htail hne]; exact hmax]
    exact ⟨rfl, h.relog (insertAll_past h.entries (fun e he => (h.mem_index he).2) hcon)
      (h.contiguous_tail hcon')⟩
  · refine .inr ⟨haligned, ?_⟩
    obtain ⟨hne, hshort⟩ := Classical.not_imp.mp haligned
    unfold MemoryStorage.ReachesHorizon at hshort
    simp only [not_forall, not_le] at hshort
    obtain ⟨last, hlast, hlt⟩ := hshort
    cases entries with
    | nil => exact absurd rfl hne
    | cons e es =>
      have htail : m.tail = last.index := by
        unfold MemoryStorage.tail
        rw [Option.mem_def.mp hlast]
        rfl
      have hindex : e.index ≠ last.index + 1 := by
        have hhorizon := horizon_le_last s
        rw [h.last_included_index] at hhorizon
        have := hcon.1
        omega
      unfold MemoryStorage.append_entries
      change ∃ e', (match checked_add "LogIndex" m.tail 1 with
        | .error e => _
        | .ok expected_idx => _ : MemoryStorage α × Except StorageError Unit).2 = .error e'
      rw [htail]
      cases hadd : checked_add "LogIndex" last.index 1 with
      | error e' => exact ⟨_, rfl⟩
      | ok expected_idx =>
        obtain ⟨rfl, -⟩ := checked_add_ok hadd
        dsimp only
        rw [if_pos hindex]
        exact ⟨_, rfl⟩

/-! ## Whole sequences -/

/-- One call: the stores answer alike and stay alike, or the vector cannot. -/
theorem Mirrors.on (h : Mirrors m s) {call : LogCall α} (hissued : call.Issued s) :
    call.Aligned m ∧ (call.on m).2 = (call.on s).2 ∧ Mirrors (call.on m).1 (call.on s).1 ∨
      ¬call.Aligned m ∧ (call.on m).2 ≠ (call.on s).2 := by
  have hnumber : ∀ {a b : Nat}, b = a → (.ok (.Number a) : Except StorageError (Answer α)) =
      .ok (.Number b) := fun hab => by rw [hab]
  cases call with
  | current_term => exact .inl ⟨trivial, hnumber h.current_term, h⟩
  | voted_for => exact .inl ⟨trivial, congrArg (Except.ok ∘ Answer.Vote) h.voted_for.symm, h⟩
  | last_log_index => exact .inl ⟨trivial, hnumber h.last_log_index, h⟩
  | last_log_term => exact .inl ⟨trivial, hnumber h.last_log_term, h⟩
  | last_committed => exact .inl ⟨trivial, hnumber h.last_committed, h⟩
  | last_included_index => exact .inl ⟨trivial, hnumber h.last_included_index, h⟩
  | last_included_term => exact .inl ⟨trivial, hnumber h.last_included_term, h⟩
  | read_entry index =>
    exact .inl ⟨trivial, congrArg (Except.ok ∘ Answer.Entry) (h.read_entry index).symm, h⟩
  | read_entries start «end» =>
    by_cases hhas : 0 < start → start ≤ «end» → m.HasRange start «end»
    · exact .inl ⟨hhas, congrArg (Except.map Answer.Entries) (h.read_entries_iff.mpr hhas), h⟩
    · refine .inr ⟨hhas, fun heq => hhas (h.read_entries_iff.mp ?_)⟩
      change (m.read_entries start «end»).map Answer.Entries =
        ((s.read_entries start «end»).mapError .Log).map Answer.Entries at heq
      generalize m.read_entries start «end» = r₁ at heq ⊢
      generalize (s.read_entries start «end»).mapError StorageError.Log = r₂ at heq ⊢
      cases r₁ <;> cases r₂ <;> simp_all [Except.map]
  | save_hard_state term vote =>
    exact .inl ⟨trivial, rfl, rfl, rfl, h.last_committed, h.last_included_index,
      h.last_included_term, h.entries, h.contiguous⟩
  | save_last_committed index =>
    exact .inl ⟨trivial, rfl, h.current_term, h.voted_for, rfl, h.last_included_index,
      h.last_included_term, h.entries, h.contiguous⟩
  | append_entries entries =>
    rcases h.append_entries hissued.1 hissued.2 with ⟨haligned, hok, hm⟩ | ⟨hno, e, herr⟩
    · refine .inl ⟨haligned, ?_, hm⟩
      change (m.append_entries entries).2.map _ = _
      rw [hok]
      rfl
    · refine .inr ⟨hno, fun heq => ?_⟩
      change (m.append_entries entries).2.map _ = _ at heq
      rw [herr] at heq
      cases heq
  | append_entries_and_advance_commit entries commit_index =>
    have hboth : LogStorage.append_entries_and_advance_commit entries commit_index m =
        match m.append_entries entries with
        | (m, .ok ()) => ({ m with last_committed := commit_index }, .ok ())
        | (m, .error e) => (m, .error e) := by
      unfold LogStorage.append_entries_and_advance_commit instLogStorageMemoryStorage
      dsimp only
      generalize m.append_entries entries = r
      obtain ⟨m', e | ⟨⟩⟩ := r <;> rfl
    rcases h.append_entries hissued.1 hissued.2 with ⟨haligned, hok, hm⟩ | ⟨hno, e, herr⟩
    · refine .inl ⟨haligned, ?_⟩
      unfold LogCall.on
      dsimp only
      rw [hboth]
      generalize m.append_entries entries = r at hok hm
      obtain ⟨m', res⟩ := r
      obtain rfl : res = .ok () := hok
      exact ⟨rfl, hm.current_term, hm.voted_for, rfl, hm.last_included_index,
        hm.last_included_term, hm.entries, hm.contiguous⟩
    · refine .inr ⟨hno, fun heq => ?_⟩
      unfold LogCall.on at heq
      dsimp only at heq
      rw [hboth] at heq
      generalize m.append_entries entries = r at herr heq
      obtain ⟨m', res⟩ := r
      obtain rfl : res = .error e := herr
      cases heq
  | truncate_log index => exact .inl ⟨trivial, rfl, h.truncate_log index⟩
  | truncate_log_front up_to_index => exact .inl ⟨trivial, rfl, h.truncate_log_front up_to_index⟩
  | save_snapshot_metadata index term =>
    exact .inl ⟨trivial, rfl, h.current_term, h.voted_for, h.last_committed, rfl, rfl,
      h.entries, h.contiguous⟩

theorem Mirrors.answers_iff (h : Mirrors m s) (calls : List (LogCall α))
    (hissued : Issued calls s) : answers calls m = answers calls s ↔ Aligned calls m := by
  induction calls generalizing m s with
  | nil => exact ⟨fun _ => trivial, fun _ => rfl⟩
  | cons call calls ih =>
    rcases h.on hissued.1 with ⟨haligned, heq, hnext⟩ | ⟨hno, hne⟩
    · have hrest := ih hnext hissued.2
      refine ⟨fun hall => ⟨haligned, hrest.mp (List.cons.inj hall).2⟩, fun hall => ?_⟩
      exact List.cons_eq_cons.mpr ⟨heq, hrest.mpr hall.2⟩
    · exact ⟨fun hall => absurd (List.cons.inj hall).1 hne, fun hall => absurd hall.1 hno⟩

/-- The stores, both empty at first, answer every call of the engine alike exactly when each
range that is read is one the vector has, and each append finds the vector at the horizon. -/
theorem stores_agree_iff (calls : List (LogCall α))
    (hissued : Issued calls (SledStorage.new : SledStorage α)) :
    answers calls (MemoryStorage.new : MemoryStorage α) =
        answers calls (SledStorage.new : SledStorage α) ↔
      Aligned calls (MemoryStorage.new : MemoryStorage α) :=
  Mirrors.new.answers_iff calls hissued

/-- A compaction between two appends. -/
def compacting : List (LogCall Unit) :=
  [.append_entries [⟨1, 1, ()⟩, ⟨2, 1, ()⟩], .save_snapshot_metadata 1 1, .truncate_log_front 1,
    .append_entries [⟨3, 1, ()⟩], .read_entries 2 3]

theorem stores_agree_compacting :
    answers compacting (MemoryStorage.new : MemoryStorage Unit) =
      answers compacting (SledStorage.new : SledStorage Unit) := by
  refine (stores_agree_iff compacting ?_).mpr ?_
  · exact ⟨⟨⟨rfl, rfl, trivial⟩, by decide⟩, trivial, trivial, ⟨⟨rfl, trivial⟩, by decide⟩,
      trivial, trivial⟩
  · refine ⟨fun _ => ?_, trivial, trivial, fun _ => ?_, fun _ _ => ?_, trivial⟩
    · unfold MemoryStorage.ReachesHorizon
      decide
    · unfold MemoryStorage.ReachesHorizon
      decide
    · unfold MemoryStorage.HasRange
      decide

/-- A follower with one entry installs the snapshot of a leader that is at index 3, and gets
the entry after it: the vector still waits for its own entry 2. -/
theorem stores_differ_after_snapshot :
    Issued [.append_entries [⟨1, 1, ()⟩], .save_snapshot_metadata 3 1,
        .append_entries [⟨4, 1, ()⟩]] (SledStorage.new : SledStorage Unit) ∧
      answers [.append_entries [⟨1, 1, ()⟩], .save_snapshot_metadata 3 1,
          .append_entries [⟨4, 1, ()⟩]] (MemoryStorage.new : MemoryStorage Unit) ≠
        answers [.append_entries [⟨1, 1, ()⟩], .save_snapshot_metadata 3 1,
          .append_entries [⟨4, 1, ()⟩]] (SledStorage.new : SledStorage Unit) := by
  refine ⟨⟨⟨⟨rfl, trivial⟩, by decide⟩, trivial, ⟨⟨rfl, trivial⟩, by decide⟩, trivial⟩, ?_⟩
  decide

end raft_engine.storage
