-- What the ledger means: each pair of client and sequence counts once, where it
-- first occurs. The inventory, the sessions and the clock are read off these
-- first occurrences, and the store keeps exactly that.
import Mathlib.Data.List.MinMax
import LactoSensus.LactoSnapshot

open common.types
open common.proto
open ordmap

namespace lacto_fsm

variable {α : Type} {c : Codec α} {ms : List CommittedMutation} {m : CommittedMutation}
  {s : LactoStore}

/-! ## First occurrences -/

def keyOf (m : CommittedMutation) : String × Nat := (m.client_id, m.sequence_id)

/-- The entries that repeat no earlier one, with their log indices. -/
def firsts (ms : List CommittedMutation) : List (Nat × CommittedMutation) :=
  (List.range ms.length).filterMap fun i =>
    ms[i]?.bind fun m => if keyOf m ∈ (ms.take i).map keyOf then none else some (i + 1, m)

theorem firsts_concat (ms : List CommittedMutation) (m : CommittedMutation) :
    firsts (ms ++ [m]) =
      firsts ms ++ if keyOf m ∈ ms.map keyOf then [] else [(ms.length + 1, m)] := by
  have hold : (List.range ms.length).filterMap (fun i => (ms ++ [m])[i]?.bind fun m' =>
      if keyOf m' ∈ ((ms ++ [m]).take i).map keyOf then none else some (i + 1, m')) =
      firsts ms := by
    apply List.filterMap_congr
    intro i hi
    have hlt := List.mem_range.mp hi
    rw [List.getElem?_append_left hlt, List.take_append_of_le_length hlt.le]
  unfold firsts at hold ⊢
  rw [List.length_append, List.length_singleton, List.range_succ, List.filterMap_append, hold]
  congr 1
  simp only [List.filterMap_cons, List.filterMap_nil, List.getElem?_concat_length,
    Option.bind_some, List.take_left']
  split <;> rename_i h <;> split at h <;> simp_all

/-! ## The reference state -/

/-- Put or delete of one committed entry. -/
def putOrDelete (inventory : OrdMap String GroceryItem) (p : Nat × CommittedMutation) :
    OrdMap String GroceryItem :=
  if p.2.is_delete then inventory.erase p.2.resolved_item_key
  else inventory.insert p.2.resolved_item_key (item_from_mutation p.1 p.2)

def inventoryOf (ms : List CommittedMutation) : OrdMap String GroceryItem :=
  ((firsts ms).filter fun p => p.2.status = MutationStatus.Committed.toInt).foldl putOrDelete
    .empty

/-- The first occurrence of the client's highest sequence. -/
def latest (ms : List CommittedMutation) (client_id : String) : Option (Nat × CommittedMutation) :=
  ((firsts ms).filter fun p => p.2.client_id = client_id).argmax fun p => p.2.sequence_id

def highest (ms : List CommittedMutation) (client_id : String) : Nat :=
  ((latest ms client_id).map fun p => p.2.sequence_id).getD 0

def sessionOf (p : Nat × CommittedMutation) : SessionRecord :=
  ⟨p.2.client_id, p.2.sequence_id, p.2.status, p.1, p.2.moral_justification, p.2.event_time⟩

def notAfter (t1 t2 : Timestamp) : Prop :=
  t1.seconds < t2.seconds ∨ t1.seconds = t2.seconds ∧ t1.nanos ≤ t2.nanos

/-- The latest of the times, or the zero time when that is later. -/
structure IsClock (times : List Timestamp) (t : Timestamp) : Prop where
  attained : t = ⟨0, 0⟩ ∨ t ∈ times
  zero : notAfter ⟨0, 0⟩ t
  upper : ∀ t' ∈ times, notAfter t' t

def timesOf (ms : List CommittedMutation) : List Timestamp :=
  (firsts ms).filterMap fun p => p.2.event_time

/-- The store holds what the ledger means. -/
structure Reference (ms : List CommittedMutation) (s : LactoStore) : Prop where
  inventory : s.inventory = inventoryOf ms
  sessions : ∀ client_id, s.sessions.get? client_id = (latest ms client_id).map sessionOf
  clock : IsClock (timesOf ms) s.last_effective_time
  applied : s.last_applied_index = .ok ms.length

/-- An entry that is no duplicate and skips ahead of its client, or has no time. -/
def Violates (ms : List CommittedMutation) (i : Nat) : Prop :=
  ∃ m, ms[i]? = some m ∧ keyOf m ∉ (ms.take i).map keyOf ∧
    (highest (ms.take i) m.client_id + 1 < m.sequence_id ∨ m.event_time = none)

/-- An entry as the gateway writes it: the id in its canonical text, a positive
sequence and a status that has a name. -/
structure WellFormed (c : Codec α) (m : CommittedMutation) : Prop where
  canonical : c.parse_uuid m.client_id = .ok m.client_id
  sequence_pos : 1 ≤ m.sequence_id
  status : MutationStatus.try_from m.status ≠ none

/-! ## A ledger that goes on -/

theorem firsts_duplicate (hdup : keyOf m ∈ ms.map keyOf) : firsts (ms ++ [m]) = firsts ms := by
  rw [firsts_concat, if_pos hdup, List.append_nil]

theorem firsts_new (hnew : keyOf m ∉ ms.map keyOf) :
    firsts (ms ++ [m]) = firsts ms ++ [(ms.length + 1, m)] := by
  rw [firsts_concat, if_neg hnew]

/-- Only the first occurrences count, so a duplicate leaves the meaning as it is. -/
theorem Reference.duplicate (h : Reference ms s) (hdup : keyOf m ∈ ms.map keyOf)
    (hpoison : s.poisoned = false) :
    Reference (ms ++ [m]) (s.advance_last_applied_for_duplicate (ms.length + 1)) := by
  have hfirsts := firsts_duplicate hdup
  refine ⟨?_, ?_, ?_, ?_⟩
  · unfold inventoryOf
    rw [hfirsts]
    exact h.inventory
  · intro client_id
    unfold latest
    rw [hfirsts]
    exact h.sessions client_id
  · unfold timesOf
    rw [hfirsts]
    exact h.clock
  · unfold LactoStore.last_applied_index LactoStore.check_not_poisoned
      LactoStore.advance_last_applied_for_duplicate
    simp [hpoison]

theorem latest_other (hnew : keyOf m ∉ ms.map keyOf) {client_id : String}
    (hne : m.client_id ≠ client_id) : latest (ms ++ [m]) client_id = latest ms client_id := by
  unfold latest
  rw [firsts_new hnew, List.filter_append]
  simp [hne]

theorem latest_new (hnew : keyOf m ∉ ms.map keyOf)
    (hhigh : highest ms m.client_id < m.sequence_id) :
    latest (ms ++ [m]) m.client_id = some (ms.length + 1, m) := by
  have hfilter : (firsts (ms ++ [m])).filter (fun p => p.2.client_id = m.client_id) =
      (firsts ms).filter (fun p => p.2.client_id = m.client_id) ++ [(ms.length + 1, m)] := by
    rw [firsts_new hnew, List.filter_append]
    simp
  unfold highest at hhigh
  unfold latest at hhigh ⊢
  rw [hfilter, List.argmax_concat]
  cases hmax : ((firsts ms).filter fun p => p.2.client_id = m.client_id).argmax
      fun p => p.2.sequence_id with
  | none => rfl
  | some p =>
    rw [hmax] at hhigh
    exact if_pos hhigh

theorem highest_new (hnew : keyOf m ∉ ms.map keyOf)
    (hhigh : highest ms m.client_id < m.sequence_id) (client_id : String) :
    highest (ms ++ [m]) client_id =
      if m.client_id = client_id then m.sequence_id else highest ms client_id := by
  unfold highest
  split
  · rename_i heq
    rw [← heq, latest_new hnew hhigh]
    rfl
  · rename_i hne
    rw [latest_other hnew hne]

theorem highest_duplicate (hdup : keyOf m ∈ ms.map keyOf) (client_id : String) :
    highest (ms ++ [m]) client_id = highest ms client_id := by
  unfold highest latest
  rw [firsts_duplicate hdup]

/-! ## The clock -/

/-- Every key of the ledger has a first occurrence. -/
theorem exists_first {key : String × Nat} (hmem : key ∈ ms.map keyOf) :
    ∃ p ∈ firsts ms, keyOf p.2 = key := by
  induction ms using List.reverseRecOn with
  | nil => cases hmem
  | append_singleton ms m ih =>
    rw [firsts_concat]
    by_cases hold : key ∈ ms.map keyOf
    · obtain ⟨p, hp, hkey⟩ := ih hold
      exact ⟨p, List.mem_append_left _ hp, hkey⟩
    · have hkey : keyOf m = key := by
        rw [List.map_append, List.mem_append] at hmem
        rcases hmem with hno | hnew
        · exact absurd hno hold
        · exact (List.mem_singleton.mp hnew).symm
      rw [if_neg (hkey ▸ hold)]
      exact ⟨_, List.mem_append_right _ (List.mem_singleton_self _), hkey⟩

/-- A first occurrence stands where it says. -/
theorem first_at {p : Nat × CommittedMutation} (hp : p ∈ firsts ms) :
    1 ≤ p.1 ∧ ms[p.1 - 1]? = some p.2 := by
  obtain ⟨i, -, hi⟩ := List.mem_filterMap.mp hp
  obtain ⟨m, hm, hif⟩ := Option.bind_eq_some_iff.mp hi
  split at hif
  · cases hif
  · obtain rfl := Option.some.inj hif
    exact ⟨Nat.succ_pos i, hm⟩

theorem first_unseen {p : Nat × CommittedMutation} (hp : p ∈ firsts ms) :
    keyOf p.2 ∉ (ms.take (p.1 - 1)).map keyOf := by
  obtain ⟨i, -, hi⟩ := List.mem_filterMap.mp hp
  obtain ⟨m, hm, hif⟩ := Option.bind_eq_some_iff.mp hi
  split at hif
  · cases hif
  · rename_i hnew
    obtain rfl := Option.some.inj hif
    exact hnew

theorem latest_mem {client_id : String} {p : Nat × CommittedMutation}
    (hp : latest ms client_id = some p) : p ∈ firsts ms ∧ p.2.client_id = client_id := by
  have hmem := List.argmax_mem hp
  obtain ⟨hfirst, hclient⟩ := List.mem_filter.mp hmem
  exact ⟨hfirst, by simpa using hclient⟩

theorem le_highest {client_id : String} {q : Nat} (hmem : (client_id, q) ∈ ms.map keyOf) :
    q ≤ highest ms client_id := by
  obtain ⟨p, hp, hkey⟩ := exists_first hmem
  obtain ⟨hclient, hseq⟩ := Prod.mk.inj hkey
  have hfilter : p ∈ (firsts ms).filter fun p => p.2.client_id = client_id :=
    List.mem_filter.mpr ⟨hp, by simpa using hclient⟩
  unfold highest
  cases hlatest : latest ms client_id with
  | none =>
    have hnil := List.argmax_eq_none.mp hlatest
    rw [hnil] at hfilter
    cases hfilter
  | some p' =>
    have hle := List.le_of_mem_argmax hfilter hlatest
    rw [← hseq]
    exact hle

theorem highest_mem {client_id : String} (hpos : 0 < highest ms client_id) :
    (client_id, highest ms client_id) ∈ ms.map keyOf := by
  unfold highest at hpos ⊢
  cases hlatest : latest ms client_id with
  | none =>
    rw [hlatest] at hpos
    cases hpos
  | some p =>
    obtain ⟨hfirst, rfl⟩ := latest_mem hlatest
    exact List.mem_map.mpr ⟨p.2, List.mem_of_getElem? (first_at hfirst).2, rfl⟩

/-- A longer ledger has seen no less. -/
theorem highest_mono {ms' : List CommittedMutation} (hpre : ms <+: ms') (client_id : String) :
    highest ms client_id ≤ highest ms' client_id := by
  rcases Nat.eq_zero_or_pos (highest ms client_id) with hzero | hpos
  · omega
  · exact le_highest ((hpre.map keyOf).subset (highest_mem hpos))

theorem notAfter_trans {t1 t2 t3 : Timestamp} (h₁ : notAfter t1 t2) (h₂ : notAfter t2 t3) :
    notAfter t1 t3 := by
  unfold notAfter at *
  omega

theorem max_timestamp_cases (t1 t2 : Timestamp) :
    (max_timestamp t1 t2 = t1 ∨ max_timestamp t1 t2 = t2) ∧
      notAfter t1 (max_timestamp t1 t2) ∧ notAfter t2 (max_timestamp t1 t2) := by
  unfold max_timestamp notAfter
  split
  · exact ⟨.inl rfl, by omega, by omega⟩
  · exact ⟨.inr rfl, by omega, by omega⟩

theorem IsClock.advance {times : List Timestamp} {t event_time : Timestamp}
    (h : IsClock times t) : IsClock (times ++ [event_time]) (max_timestamp event_time t) := by
  obtain ⟨hor, hevent, ht⟩ := max_timestamp_cases event_time t
  refine ⟨?_, notAfter_trans h.zero ht, ?_⟩
  · rcases hor with heq | heq
    · right
      rw [heq]
      simp
    · rw [heq]
      rcases h.attained with hz | hmem
      · exact .inl hz
      · exact .inr (List.mem_append_left _ hmem)
  · intro t' ht'
    rcases List.mem_append.mp ht' with hold | hnew
    · exact notAfter_trans (h.upper t' hold) ht
    · rw [List.mem_singleton.mp hnew]
      exact hevent

/-! ## The transaction -/

theorem try_from_toInt {i : Int} {status : MutationStatus}
    (h : MutationStatus.try_from i = some status) : status.toInt = i := by
  unfold MutationStatus.try_from at h
  split_ifs at h with h0 h1 h2 h3 <;> obtain rfl := Option.some.inj h <;>
    simp [MutationStatus.toInt, *]

theorem toInt_committed {status : MutationStatus} :
    status.toInt = MutationStatus.Committed.toInt ↔ status = .Committed := by
  cases status <;> simp [MutationStatus.toInt]

theorem inventoryOf_new (hnew : keyOf m ∉ ms.map keyOf) {status : MutationStatus}
    (hstatus : status.toInt = m.status) :
    inventoryOf (ms ++ [m]) = updateInventory (inventoryOf ms) (ms.length + 1) m status := by
  have hiff : m.status = MutationStatus.Committed.toInt ↔ status = .Committed := by
    rw [← hstatus, toInt_committed]
  unfold inventoryOf updateInventory
  rw [firsts_new hnew, List.filter_append, List.foldl_append]
  by_cases hc : status = .Committed
  · simp [hiff.mpr hc, hc, putOrDelete]
  · simp [mt hiff.mp hc, hc]

theorem Reference.commit (h : Reference ms s) (hnew : keyOf m ∉ ms.map keyOf)
    (hhigh : highest ms m.client_id < m.sequence_id) (hpoison : s.poisoned = false)
    {status : MutationStatus} (hstatus : status.toInt = m.status) {event_time : Timestamp}
    (htime : m.event_time = some event_time) :
    Reference (ms ++ [m]) (s.commit (ms.length + 1) m m.client_id status event_time) := by
  refine ⟨?_, ?_, ?_, ?_⟩
  · rw [inventoryOf_new hnew hstatus, ← h.inventory]
    rfl
  · intro client_id
    change (s.sessions.insert m.client_id _).get? client_id = _
    rw [OrdMap.get?_insert]
    split
    · rename_i heq
      rw [heq, latest_new hnew hhigh]
      simp [sessionOf, hstatus, htime]
    · rename_i hne
      rw [latest_other hnew (Ne.symm hne)]
      exact h.sessions client_id
  · have htimes : timesOf (ms ++ [m]) = timesOf ms ++ [event_time] := by
      unfold timesOf
      rw [firsts_new hnew, List.filterMap_append]
      simp [htime]
    rw [htimes]
    exact h.clock.advance
  · unfold LactoStore.last_applied_index LactoStore.check_not_poisoned LactoStore.commit
    simp [hpoison]

/-! ## One entry -/

/-- The store after a ledger without a violation: what a client has sent so far is
what it should have sent, without a gap. -/
structure Tidy (ms : List CommittedMutation) (s : LactoStore) : Prop where
  reference : Reference ms s
  healthy : s.poisoned = false
  dense : ∀ client_id q, (client_id, q) ∈ ms.map keyOf ↔ 1 ≤ q ∧ q ≤ highest ms client_id
  bound : ∀ client_id, highest ms client_id ≤ ms.length

theorem Tidy.new : Tidy [] LactoStore.new := by
  refine ⟨⟨rfl, fun _ => rfl, ⟨.inl rfl, ?_, by simp [timesOf, firsts]⟩, rfl⟩, rfl, ?_, ?_⟩
  · simp [notAfter, LactoStore.last_effective_time, LactoStore.new]
  · intro client_id q
    simp [highest, latest, firsts]
    omega
  · intro client_id
    simp [highest, latest, firsts]

theorem Tidy.last_seen (h : Tidy ms s) (client_id : String) :
    ((s.get_session_record client_id).map SessionRecord.last_sequence_id).getD 0 =
      highest ms client_id := by
  unfold LactoStore.get_session_record highest
  rw [h.reference.sessions client_id, Option.map_map]
  rfl

/-- Whatever comes before the sequence check succeeds on a well-formed entry. -/
theorem Tidy.apply_eq (h : Tidy ms s) (hm : WellFormed c m) (hlen : ms.length < u64Max) :
    s.apply c (ms.length + 1) (c.encode m) =
      s.applySequence (ms.length + 1) m m.client_id := by
  have happlied := h.reference.applied
  have hadd : checked_add "LogIndex" ms.length 1 = .ok (ms.length + 1) := if_pos hlen
  unfold LactoStore.apply LactoStore.validate_log_monotonicity LactoStore.parse_client_id
    LactoStore.check_not_poisoned
  rw [c.decode_encode, happlied]
  simp [h.healthy, hadd, hm.canonical]

/-- With no gap before it, an entry is a duplicate exactly when its sequence is seen. -/
theorem Tidy.duplicate_iff (h : Tidy ms s) (hpos : 1 ≤ m.sequence_id) :
    keyOf m ∈ ms.map keyOf ↔ m.sequence_id ≤ highest ms m.client_id := by
  have hdense := h.dense m.client_id m.sequence_id
  change (m.client_id, m.sequence_id) ∈ ms.map keyOf ↔ _
  rw [hdense]
  exact ⟨And.right, fun hle => ⟨hpos, hle⟩⟩

theorem Tidy.expected (h : Tidy ms s) (hlen : ms.length < u64Max) (client_id : String) :
    checked_add "SequenceId" (highest ms client_id) 1 = .ok (highest ms client_id + 1) := by
  have := h.bound client_id
  exact if_pos (by omega)

theorem Tidy.apply_duplicate (h : Tidy ms s) (hm : WellFormed c m) (hlen : ms.length < u64Max)
    (hdup : keyOf m ∈ ms.map keyOf) :
    s.apply c (ms.length + 1) (c.encode m) =
      (s.advance_last_applied_for_duplicate (ms.length + 1), .ok ()) ∧
    Tidy (ms ++ [m]) (s.advance_last_applied_for_duplicate (ms.length + 1)) := by
  have hle := (h.duplicate_iff hm.sequence_pos).mp hdup
  refine ⟨?_, h.reference.duplicate hdup h.healthy, h.healthy, ?_, ?_⟩
  · rw [h.apply_eq hm hlen]
    unfold LactoStore.applySequence
    rw [h.last_seen]
    dsimp only
    rw [h.expected hlen]
    exact if_pos hle
  · intro client_id q
    rw [highest_duplicate hdup, ← h.dense, List.map_append, List.mem_append]
    constructor
    · rintro (hold | hnew)
      · exact hold
      · rw [List.mem_singleton.mp hnew]
        exact hdup
    · exact Or.inl
  · intro client_id
    have := h.bound client_id
    rw [highest_duplicate hdup, List.length_append]
    omega

/-- A gap or a missing time sets the flag and changes nothing else. -/
theorem Tidy.apply_violation (h : Tidy ms s) (hm : WellFormed c m) (hlen : ms.length < u64Max)
    (hnew : keyOf m ∉ ms.map keyOf)
    (hbad : highest ms m.client_id + 1 < m.sequence_id ∨ m.event_time = none) :
    ∃ msg, s.apply c (ms.length + 1) (c.encode m) =
      ({ s with poisoned := true }, .error (.Invariant msg)) := by
  have hgt : ¬m.sequence_id ≤ highest ms m.client_id :=
    fun hle => hnew ((h.duplicate_iff hm.sequence_pos).mpr hle)
  rw [h.apply_eq hm hlen]
  unfold LactoStore.applySequence
  rw [h.last_seen]
  dsimp only
  rw [h.expected hlen]
  dsimp only
  rw [if_neg hgt]
  split
  · exact ⟨_, rfl⟩
  · rename_i hno
    rcases hbad with hgap | hnone
    · omega
    · rw [hnone]
      cases MutationStatus.try_from m.status with
      | none => exact ⟨_, rfl⟩
      | some status => exact ⟨_, rfl⟩

/-- The next entry of its client goes through the transaction. -/
theorem Tidy.apply_next (h : Tidy ms s) (hm : WellFormed c m) (hlen : ms.length < u64Max)
    (hnew : keyOf m ∉ ms.map keyOf) (hnext : ¬highest ms m.client_id + 1 < m.sequence_id)
    {event_time : Timestamp} (htime : m.event_time = some event_time) :
    ∃ s', s.apply c (ms.length + 1) (c.encode m) = (s', .ok ()) ∧ Tidy (ms ++ [m]) s' := by
  have hgt : ¬m.sequence_id ≤ highest ms m.client_id :=
    fun hle => hnew ((h.duplicate_iff hm.sequence_pos).mpr hle)
  have hhigh : highest ms m.client_id < m.sequence_id := not_le.mp hgt
  obtain ⟨status, hstatus⟩ := Option.ne_none_iff_exists'.mp hm.status
  refine ⟨s.commit (ms.length + 1) m m.client_id status event_time, ?_,
    h.reference.commit hnew hhigh h.healthy (try_from_toInt hstatus) htime, h.healthy, ?_, ?_⟩
  · rw [h.apply_eq hm hlen]
    unfold LactoStore.applySequence
    rw [h.last_seen]
    dsimp only
    rw [h.expected hlen]
    dsimp only
    rw [if_neg hgt, if_neg hnext, hstatus, htime]
  · intro client_id q
    rw [highest_new hnew hhigh, List.map_append, List.mem_append, h.dense, List.map_singleton,
      List.mem_singleton, keyOf, Prod.mk.injEq]
    split
    · rename_i heq
      subst heq
      have hpos := hm.sequence_pos
      constructor
      · rintro (hold | ⟨-, heq⟩) <;> omega
      · intro hq
        by_cases hold : q ≤ highest ms m.client_id
        · exact .inl ⟨hq.1, hold⟩
        · exact .inr ⟨rfl, by omega⟩
    · rename_i hne
      constructor
      · rintro (hold | ⟨heq, -⟩)
        · exact hold
        · exact absurd heq.symm hne
      · exact Or.inl
  · intro client_id
    have hb := h.bound client_id
    have hb' := h.bound m.client_id
    rw [highest_new hnew hhigh, List.length_append, List.length_singleton]
    split <;> omega

/-! ## The whole ledger -/

theorem applyLog_append (s : LactoStore) (applied : Nat) (log log' : List α) :
    s.applyLog c applied (log ++ log') =
      match s.applyLog c applied log with
      | (s, .error e) => (s, .error e)
      | (s, .ok ()) => s.applyLog c (applied + log.length) log' := by
  induction log generalizing s applied with
  | nil => rfl
  | cons data log ih =>
    simp only [List.cons_append, LactoStore.applyLog]
    generalize s.apply c (applied + 1) data = r
    obtain ⟨s', e | u⟩ := r
    · rfl
    · dsimp only
      rw [ih, List.length_cons, Nat.add_right_comm, Nat.add_assoc]

/-- The store after the entries of a ledger, as the log holds them. -/
def replay (c : Codec α) (ms : List CommittedMutation) : Applied Unit :=
  LactoStore.new.applyLog c 0 (ms.map c.encode)

theorem replay_concat {s : LactoStore} (h : replay c ms = (s, .ok ())) :
    replay c (ms ++ [m]) = s.apply c (ms.length + 1) (c.encode m) := by
  unfold replay at h ⊢
  rw [List.map_append, applyLog_append, h]
  dsimp only
  rw [List.length_map, Nat.zero_add, List.map_singleton]
  unfold LactoStore.applyLog
  generalize s.apply c (ms.length + 1) (c.encode m) = r
  obtain ⟨s', e | u⟩ := r <;> rfl

theorem replay_stops {s : LactoStore} {e : FsmError} (h : replay c ms = (s, .error e))
    (ms' : List CommittedMutation) : replay c (ms ++ ms') = (s, .error e) := by
  unfold replay at h ⊢
  rw [List.map_append, applyLog_append, h]

theorem replay_init {ms' : List CommittedMutation} (h : replay c (ms ++ ms') = (s, .ok ())) :
    ∃ s', replay c ms = (s', .ok ()) := by
  cases hreplay : replay c ms with
  | mk s' r =>
    cases r with
    | ok u => exact ⟨s', rfl⟩
    | error e =>
      rw [replay_stops hreplay] at h
      cases (Prod.mk.inj h).2

theorem violates_of_append {ms' : List CommittedMutation} {i : Nat} (hi : i < ms.length) :
    Violates (ms ++ ms') i ↔ Violates ms i := by
  unfold Violates
  rw [List.getElem?_append_left hi, List.take_append_of_le_length hi.le]

theorem violates_last :
    Violates (ms ++ [m]) ms.length ↔ keyOf m ∉ ms.map keyOf ∧
      (highest ms m.client_id + 1 < m.sequence_id ∨ m.event_time = none) := by
  unfold Violates
  rw [List.getElem?_concat_length, List.take_left']
  · simp
  · rfl

/-- Without a violation every entry is applied. -/
theorem replay_tidy (hms : ∀ m ∈ ms, WellFormed c m) (hlen : ms.length ≤ u64Max)
    (hok : ∀ i < ms.length, ¬Violates ms i) : ∃ s, replay c ms = (s, .ok ()) ∧ Tidy ms s := by
  induction ms using List.reverseRecOn with
  | nil => exact ⟨_, rfl, .new⟩
  | append_singleton ms m ih =>
    rw [List.length_append, List.length_singleton] at hlen hok
    obtain ⟨s, hs, htidy⟩ := ih (fun m' hm' => hms m' (List.mem_append_left _ hm')) (by omega)
      (fun i hi hv => hok i (by omega) ((violates_of_append hi).mpr hv))
    have hm := hms m (by simp)
    rw [replay_concat hs]
    by_cases hdup : keyOf m ∈ ms.map keyOf
    · exact ⟨_, htidy.apply_duplicate hm hlen hdup⟩
    · have hlast := hok ms.length (by omega)
      rw [violates_last, not_and_or, not_or] at hlast
      rcases hlast with hno | ⟨hnext, htime⟩
      · exact absurd hdup hno
      · obtain ⟨event_time, htime⟩ := Option.ne_none_iff_exists'.mp htime
        exact htidy.apply_next hm hlen hdup hnext htime

/-- The index counter is at its bound: nothing more is applied. -/
theorem Tidy.apply_full (h : Tidy ms s) (hlen : ms.length = u64Max) (m : CommittedMutation) :
    ∃ e, s.apply c (ms.length + 1) (c.encode m) = (s, .error (.Arithmetic e)) := by
  have happlied := h.reference.applied
  have hadd : checked_add "LogIndex" ms.length 1 = .error (.Overflow "LogIndex") :=
    if_neg (by omega)
  unfold LactoStore.apply LactoStore.validate_log_monotonicity LactoStore.check_not_poisoned
  rw [c.decode_encode, happlied]
  simp [h.healthy, hadd]

/-- A ledger that was applied to its end, without a violation in it. -/
theorem tidy_of_applied (hms : ∀ m ∈ ms, WellFormed c m) (hok : ∀ i < ms.length, ¬Violates ms i)
    (happlied : replay c ms = (s, .ok ())) : Tidy ms s ∧ ms.length ≤ u64Max := by
  by_cases hlen : ms.length ≤ u64Max
  · obtain ⟨s', hs', htidy⟩ := replay_tidy hms hlen hok
    obtain ⟨rfl, -⟩ := Prod.mk.inj (happlied.symm.trans hs')
    exact ⟨htidy, hlen⟩
  -- the entry at the bound of the counter would have failed
  have hfull : (ms.take u64Max).length = u64Max := List.length_take_of_le (by omega)
  have hget : ms[u64Max]? = some ms[u64Max] := List.getElem?_eq_getElem (by omega)
  obtain ⟨s', hs', htidy⟩ : ∃ s', replay c (ms.take u64Max) = (s', .ok ()) ∧
      Tidy (ms.take u64Max) s' := by
    refine replay_tidy (fun m hm => hms m (List.mem_of_mem_take hm)) hfull.le fun i hi hv => ?_
    refine hok i (by omega) ?_
    rw [← List.take_append_drop u64Max ms]
    exact (violates_of_append hi).mpr hv
  obtain ⟨e, he⟩ := htidy.apply_full (c := c) hfull ms[u64Max]
  have hsplit : ms = ms.take u64Max ++ [ms[u64Max]] ++ ms.drop (u64Max + 1) := by
    rw [← List.take_succ_eq_append_getElem (by omega), List.take_append_drop]
  rw [hsplit, replay_stops ((replay_concat hs').trans he)] at happlied
  cases (Prod.mk.inj happlied).2

/-- Nothing gets past the flag. -/
structure Halted (c : Codec α) (s : LactoStore) : Prop where
  apply : ∀ index data, s.apply c index data = (s, .error .Poisoned)
  last_applied_index : s.last_applied_index = .error .Poisoned
  current_version : s.current_version = .error .Poisoned
  get_inventory : s.get_inventory = .error .Poisoned
  check_session : ∀ client_id sequence_id,
    s.check_session client_id sequence_id = .error .Poisoned
  snapshot : ∀ sc : SnapshotCodec α, s.snapshot sc = .error .Poisoned
  install_snapshot : ∀ (sc : SnapshotCodec α) last_included_index data,
    s.install_snapshot sc last_included_index data = (s, .error .Poisoned)

theorem halted_of_poisoned (c : Codec α) (hp : s.poisoned = true) : Halted c s := by
  have hcheck : s.check_not_poisoned = .error .Poisoned := by
    simp [LactoStore.check_not_poisoned, hp]
  refine ⟨?_, ?_, ?_, ?_, ?_, ?_, ?_⟩
  · intro index data
    simp [LactoStore.apply, hcheck]
  · simp [LactoStore.last_applied_index, hcheck]
  · simp [LactoStore.current_version, hcheck]
  · simp [LactoStore.get_inventory, hcheck]
  · intro client_id sequence_id
    simp [LactoStore.check_session, hcheck]
  · intro sc
    simp [LactoStore.snapshot, hcheck]
  · intro sc last_included_index data
    simp [LactoStore.install_snapshot, lacto_fsm.install_snapshot, hcheck]

/-- Every ledger is applied exactly once: without a violation the store holds what the
ledger means, the clock being the latest time or zero; the first violation stops the
replay, changes nothing but the flag, and no later call gets past it; a duplicate
changes the applied index only. -/
theorem apply_exactly_once (c : Codec α) (ms : List CommittedMutation)
    (hms : ∀ m ∈ ms, WellFormed c m) (hlen : ms.length ≤ u64Max) :
    ((∀ i < ms.length, ¬Violates ms i) →
      ∃ s, replay c ms = (s, .ok ()) ∧ Reference ms s) ∧
    (∀ i, Violates ms i → (∀ j < i, ¬Violates ms j) →
      ∃ s msg, replay c (ms.take i) = (s, .ok ()) ∧ Reference (ms.take i) s ∧
        replay c ms = ({ s with poisoned := true }, .error (.Invariant msg)) ∧
        Halted c { s with poisoned := true }) ∧
    ∀ i m, ms[i]? = some m → keyOf m ∈ (ms.take i).map keyOf → (∀ j < i, ¬Violates ms j) →
      ∃ s, replay c (ms.take i) = (s, .ok ()) ∧
        replay c (ms.take (i + 1)) = ({ s with key_last_applied := some (i + 1) }, .ok ()) := by
  -- up to its first violation the ledger is tidy
  have hbefore : ∀ i, i < ms.length → (∀ j < i, ¬Violates ms j) →
      ∃ s, replay c (ms.take i) = (s, .ok ()) ∧ Tidy (ms.take i) s := by
    intro i hi hok
    have hlen_take : (ms.take i).length = i := List.length_take_of_le hi.le
    refine replay_tidy (fun m hm => hms m (List.mem_of_mem_take hm)) (by omega) ?_
    intro j hj hv
    rw [hlen_take] at hj
    refine hok j hj ?_
    rw [← List.take_append_drop i ms]
    exact (violates_of_append (by omega)).mpr hv
  have hsplit : ∀ {i m}, ms[i]? = some m → ms.take (i + 1) = ms.take i ++ [m] := by
    intro i m hi
    rw [List.take_add_one, hi]
    rfl
  refine ⟨?_, ?_, ?_⟩
  · intro hok
    obtain ⟨s, hs, htidy⟩ := replay_tidy hms hlen hok
    exact ⟨s, hs, htidy.reference⟩
  · rintro i ⟨m, hi, hnew, hbad⟩ hok
    have hlt := (List.getElem?_eq_some_iff.mp hi).1
    have hlen_take : (ms.take i).length = i := List.length_take_of_le hlt.le
    obtain ⟨s, hs, htidy⟩ := hbefore i hlt hok
    obtain ⟨msg, happly⟩ := htidy.apply_violation (hms m (List.mem_of_getElem? hi))
      (by omega) hnew hbad
    refine ⟨s, msg, hs, htidy.reference, ?_, halted_of_poisoned c rfl⟩
    rw [← replay_concat hs, ← hsplit hi] at happly
    rw [← List.take_append_drop (i + 1) ms]
    exact replay_stops happly _
  · intro i m hi hdup hok
    have hlt := (List.getElem?_eq_some_iff.mp hi).1
    have hlen_take : (ms.take i).length = i := List.length_take_of_le hlt.le
    obtain ⟨s, hs, htidy⟩ := hbefore i hlt hok
    obtain ⟨happly, -⟩ := htidy.apply_duplicate (hms m (List.mem_of_getElem? hi)) (by omega) hdup
    refine ⟨s, hs, ?_⟩
    rw [hsplit hi, replay_concat hs, happly, hlen_take]
    rfl

/-- The entries as they are, and ids that are already canonical. -/
def plain : Codec CommittedMutation := ⟨id, .ok, fun _ => rfl, .ok⟩

/-- One client puts one item into the inventory at the given second. -/
def putMilk (seconds : Int) : CommittedMutation where
  resolved_item_key := "milk"
  suggested_display_name := "Milk"
  updated_base_quantity := "1000"
  base_unit := "ml"
  display_unit := "ml"
  updated_category := "Dairy"
  client_id := "6ba7b810-9dad-11d1-80b4-00c04fd430c8"
  sequence_id := 1
  raw_user_input := "add milk"
  moral_justification := "Approved"
  event_time := some ⟨seconds, 0⟩
  is_delete := false
  status := 1

theorem putMilk_wellFormed (seconds : Int) : WellFormed plain (putMilk seconds) :=
  ⟨rfl, le_rfl, by simp [putMilk, MutationStatus.try_from]⟩

theorem apply_exactly_once_twice :
    ∃ s, replay plain [putMilk 7] = (s, .ok ()) ∧
      replay plain [putMilk 7, putMilk 7] = ({ s with key_last_applied := some 2 }, .ok ()) := by
  have hms : ∀ m ∈ [putMilk 7, putMilk 7], WellFormed plain m := by
    intro m hm
    obtain rfl : m = putMilk 7 := by simpa using hm
    exact putMilk_wellFormed 7
  refine (apply_exactly_once plain [putMilk 7, putMilk 7] hms (by decide)).2.2 1 (putMilk 7) rfl
    (by simp) ?_
  rintro j hj ⟨m, hm, -, hbad⟩
  obtain rfl : j = 0 := by omega
  obtain rfl := Option.some.inj hm
  rcases hbad with hgap | htime
  · exact absurd hgap (by decide)
  · cases htime

/-- The clock starts at zero and never goes back, so it can be later than every time
that the ledger holds. -/
theorem clock_before_epoch :
    WellFormed plain (putMilk (-5)) ∧ (replay plain [putMilk (-5)]).2 = .ok () ∧
      timesOf [putMilk (-5)] = [⟨-5, 0⟩] ∧
      (replay plain [putMilk (-5)]).1.last_effective_time = ⟨0, 0⟩ ∧
      (replay plain [putMilk (-5)]).1.last_effective_time ∉ timesOf [putMilk (-5)] := by
  refine ⟨putMilk_wellFormed _, rfl, rfl, rfl, ?_⟩
  rw [show timesOf [putMilk (-5)] = [⟨-5, 0⟩] from rfl,
    show (replay plain [putMilk (-5)]).1.last_effective_time = ⟨0, 0⟩ from rfl]
  decide

end lacto_fsm
