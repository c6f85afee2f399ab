-- A snapshot can hold more than its label says: entries that were applied after
-- the label was captured are applied once more by the store that is restored.
-- Each of them repeats a sequence that the snapshot has seen, so nothing but the
-- applied index moves.
import LactoSensus.Ledger
import LactoSensus.LactoSnapshot

open common.types
open common.proto
open ordmap

namespace lacto_fsm

variable {α : Type} {c : Codec α} {ms : List CommittedMutation} {m : CommittedMutation}
  {s t : LactoStore}

/-! ## Stores that read the same -/

def LactoStore.last_seen (s : LactoStore) (client_id : String) : Nat :=
  ((s.get_session_record client_id).map SessionRecord.last_sequence_id).getD 0

theorem LactoStore.applySequence_seen {index n : Nat} {client_id : String}
    (hadd : checked_add "SequenceId" (s.last_seen m.client_id) 1 = .ok n)
    (hseen : m.sequence_id ≤ s.last_seen m.client_id) :
    s.applySequence index m client_id = (s.advance_last_applied_for_duplicate index, .ok ()) := by
  unfold LactoStore.last_seen at hadd hseen
  simp [LactoStore.applySequence, hadd, hseen]

theorem LactoStore.applySequence_overflow {index : Nat} {client_id : String} {e : ArithmeticError}
    (hadd : checked_add "SequenceId" (s.last_seen m.client_id) 1 = .error e) :
    s.applySequence index m client_id = (s, .error (.Arithmetic e)) := by
  unfold LactoStore.last_seen at hadd
  simp [LactoStore.applySequence, hadd]

/-- The two stores differ in nothing that a call reads. -/
structure Same (s t : LactoStore) : Prop where
  inventory : t.inventory = s.inventory
  sessions : t.sessions = s.sessions
  clock : t.last_effective_time = s.last_effective_time
  applied : t.key_last_applied.getD 0 = s.key_last_applied.getD 0
  poisoned : t.poisoned = s.poisoned

theorem Same.trans {u : LactoStore} (h : Same s t) (h' : Same t u) : Same s u where
  inventory := h'.inventory.trans h.inventory
  sessions := h'.sessions.trans h.sessions
  clock := h'.clock.trans h.clock
  applied := h'.applied.trans h.applied
  poisoned := h'.poisoned.trans h.poisoned

theorem Same.last_applied_index (h : Same s t) : t.last_applied_index = s.last_applied_index := by
  unfold LactoStore.last_applied_index LactoStore.check_not_poisoned
  rw [h.poisoned, h.applied]

theorem Same.halt (h : Same s t) {X : Type} (msg : String) :
    Same (s.halt msg : Applied X).1 (t.halt msg : Applied X).1 :=
  ⟨h.inventory, h.sessions, h.clock, h.applied, rfl⟩

theorem Same.advance (h : Same s t) (index : Nat) :
    Same (s.advance_last_applied_for_duplicate index)
      (t.advance_last_applied_for_duplicate index) :=
  ⟨h.inventory, h.sessions, h.clock, rfl, h.poisoned⟩

theorem Same.commit (h : Same s t) (index : Nat) (m : CommittedMutation) (client_id : String)
    (status : MutationStatus) (event_time : Timestamp) :
    Same (s.commit index m client_id status event_time)
      (t.commit index m client_id status event_time) := by
  refine ⟨?_, ?_, ?_, rfl, h.poisoned⟩
  · simp [LactoStore.commit, h.inventory]
  · simp [LactoStore.commit, h.sessions]
  · simp only [LactoStore.commit, LactoStore.last_effective_time, Option.getD_some]
    have := h.clock
    unfold LactoStore.last_effective_time at this
    rw [this]

/-- The same call has the same outcome. -/
def Agree {X : Type} (r r' : Applied X) : Prop := Same r.1 r'.1 ∧ r'.2 = r.2

theorem Same.validate_log_monotonicity (h : Same s t) (index : Nat) :
    Agree (s.validate_log_monotonicity index) (t.validate_log_monotonicity index) := by
  unfold LactoStore.validate_log_monotonicity
  rw [h.last_applied_index]
  cases s.last_applied_index with
  | error e => exact ⟨h, rfl⟩
  | ok current_applied =>
    dsimp only
    cases checked_add "LogIndex" current_applied 1 with
    | error e => exact ⟨h, rfl⟩
    | ok expected =>
      dsimp only
      split
      · exact ⟨h.halt _, rfl⟩
      · exact ⟨h, rfl⟩

theorem Same.parse_client_id (h : Same s t) (raw_client_id : String) (index : Nat) :
    Agree (s.parse_client_id c raw_client_id index) (t.parse_client_id c raw_client_id index) := by
  unfold LactoStore.parse_client_id
  cases c.parse_uuid raw_client_id with
  | ok id => exact ⟨h, rfl⟩
  | error e => exact ⟨h.halt _, rfl⟩

theorem Same.applySequence (h : Same s t) (index : Nat) (m : CommittedMutation)
    (client_id : String) :
    Agree (s.applySequence index m client_id) (t.applySequence index m client_id) := by
  have hrecord : t.get_session_record m.client_id = s.get_session_record m.client_id := by
    unfold LactoStore.get_session_record
    rw [h.sessions]
  unfold LactoStore.applySequence
  rw [hrecord]
  dsimp only
  cases checked_add "SequenceId" _ 1 with
  | error e => exact ⟨h, rfl⟩
  | ok expected_seq =>
    dsimp only
    split
    · exact ⟨h.advance index, rfl⟩
    split
    · exact ⟨h.halt _, rfl⟩
    cases MutationStatus.try_from m.status with
    | none => exact ⟨h.halt _, rfl⟩
    | some status =>
      cases m.event_time with
      | none => exact ⟨h.halt _, rfl⟩
      | some event_time => exact ⟨h.commit index m client_id status event_time, rfl⟩

theorem Same.apply (h : Same s t) (index : Nat) (data : α) :
    Agree (s.apply c index data) (t.apply c index data) := by
  have hcheck : t.check_not_poisoned = s.check_not_poisoned := by
    unfold LactoStore.check_not_poisoned
    rw [h.poisoned]
  unfold LactoStore.apply
  rw [hcheck]
  cases s.check_not_poisoned with
  | error e => exact ⟨h, rfl⟩
  | ok u =>
    cases c.decode data with
    | error e => exact ⟨h, rfl⟩
    | ok mutation =>
      have hv := h.validate_log_monotonicity index
      dsimp only
      generalize s.validate_log_monotonicity index = r at hv
      generalize t.validate_log_monotonicity index = r' at hv
      obtain ⟨s₁, res⟩ := r
      obtain ⟨t₁, res'⟩ := r'
      obtain ⟨h₁, hres⟩ : Same s₁ t₁ ∧ res' = res := hv
      rw [hres]
      cases res with
      | error e => exact ⟨h₁, rfl⟩
      | ok u =>
        have hp := Same.parse_client_id (c := c) h₁ mutation.client_id index
        dsimp only
        generalize s₁.parse_client_id c mutation.client_id index = r at hp
        generalize t₁.parse_client_id c mutation.client_id index = r' at hp
        obtain ⟨s₂, res⟩ := r
        obtain ⟨t₂, res'⟩ := r'
        obtain ⟨h₂, hres⟩ : Same s₂ t₂ ∧ res' = res := hp
        rw [hres]
        cases res with
        | error e => exact ⟨h₂, rfl⟩
        | ok client_id => exact Same.applySequence h₂ index mutation client_id

theorem Same.applyLog (h : Same s t) (applied : Nat) (log : List α) :
    Agree (s.applyLog c applied log) (t.applyLog c applied log) := by
  induction log generalizing s t applied with
  | nil => exact ⟨h, rfl⟩
  | cons data log ih =>
    have ha := Same.apply (c := c) h (applied + 1) data
    unfold LactoStore.applyLog
    generalize s.apply c (applied + 1) data = r at ha
    generalize t.apply c (applied + 1) data = r' at ha
    obtain ⟨s₁, res⟩ := r
    obtain ⟨t₁, res'⟩ := r'
    obtain ⟨h₁, hres⟩ : Same s₁ t₁ ∧ res' = res := ha
    rw [hres]
    cases res with
    | error e => exact ⟨h₁, rfl⟩
    | ok u => exact ih h₁ (applied + 1)

/-! ## What an accepted ledger leaves -/

/-- The id is in its canonical text, as the gateway writes it. -/
def Canonical (c : Codec α) (m : CommittedMutation) : Prop :=
  c.parse_uuid m.client_id = .ok m.client_id

/-- Every value stands under the key it names. -/
structure Keyed (s : LactoStore) : Prop where
  inventory : ∀ k item, s.inventory.get? k = some item → item.item_key = k
  sessions : ∀ k record, s.sessions.get? k = some record → record.client_id = k

/-- The store has seen every sequence of the ledger, and one more for each at most. -/
structure Counted (ms : List CommittedMutation) (s : LactoStore) : Prop where
  healthy : s.poisoned = false
  applied : s.key_last_applied.getD 0 = ms.length
  seen : ∀ m ∈ ms, m.sequence_id ≤ s.last_seen m.client_id
  bound : ∀ client_id, s.last_seen client_id ≤ ms.length
  keyed : Keyed s

theorem Counted.new : Counted [] LactoStore.new :=
  ⟨rfl, rfl, by simp, fun _ => le_rfl, ⟨by simp [LactoStore.new], by simp [LactoStore.new]⟩⟩

theorem validate_log_monotonicity_ok {index : Nat}
    (h : s.validate_log_monotonicity index = (t, .ok ())) :
    t = s ∧ index = s.key_last_applied.getD 0 + 1 := by
  unfold LactoStore.validate_log_monotonicity at h
  cases hl : s.last_applied_index with
  | error e => simp [hl] at h
  | ok current_applied =>
    have hcurrent : current_applied = s.key_last_applied.getD 0 := by
      unfold LactoStore.last_applied_index at hl
      split at hl
      · cases hl
      · exact (Except.ok.inj hl).symm
    rw [hl] at h
    dsimp only at h
    cases hadd : checked_add "LogIndex" current_applied 1 with
    | error e => simp [hadd] at h
    | ok expected =>
      obtain ⟨rfl, -⟩ := checked_add_ok hadd
      rw [hadd] at h
      dsimp only at h
      split at h
      · cases h
      · rename_i hindex
        exact ⟨(Prod.mk.inj h).1.symm, by omega⟩

/-- An accepted entry is the next of the log, and it was a duplicate or the next of its
client. -/
theorem apply_ok {index : Nat} {data : α} (h : s.apply c index data = (t, .ok ())) :
    index = s.key_last_applied.getD 0 + 1 ∧ ∃ m client_id, c.decode data = .ok m ∧
      c.parse_uuid m.client_id = .ok client_id ∧
      (m.sequence_id ≤ s.last_seen m.client_id ∧ t = s.advance_last_applied_for_duplicate index ∨
        m.sequence_id = s.last_seen m.client_id + 1 ∧ ∃ status event_time,
          t = s.commit index m client_id status event_time) := by
  unfold LactoStore.apply at h
  split at h
  · cases h
  cases hdec : c.decode data with
  | error e => simp [hdec] at h
  | ok m =>
  rw [hdec] at h
  dsimp only at h
  have hnext : ∀ s₁, s.validate_log_monotonicity index = (s₁, .ok ()) → _ :=
    fun s₁ => validate_log_monotonicity_ok
  generalize s.validate_log_monotonicity index = r at h hnext
  obtain ⟨s₁, e | u⟩ := r
  · cases h
  obtain ⟨rfl, hindex⟩ := hnext s₁ rfl
  refine ⟨hindex, m, ?_⟩
  dsimp only at h
  unfold LactoStore.parse_client_id at h
  cases hparse : c.parse_uuid m.client_id with
  | error e => simp [hparse, LactoStore.halt] at h
  | ok client_id =>
  rw [hparse] at h
  refine ⟨client_id, rfl, rfl, ?_⟩
  dsimp only at h
  unfold LactoStore.applySequence at h
  unfold LactoStore.last_seen
  generalize ((s₁.get_session_record m.client_id).map SessionRecord.last_sequence_id).getD 0 =
    last_seen at h ⊢
  dsimp only at h
  cases hadd : checked_add "SequenceId" last_seen 1 with
  | error e => simp [hadd] at h
  | ok expected_seq =>
    obtain ⟨rfl, -⟩ := checked_add_ok hadd
    rw [hadd] at h
    dsimp only at h
    split at h
    · rename_i hle
      exact .inl ⟨hle, (Prod.mk.inj h).1.symm⟩
    split at h
    · cases h
    rename_i hgt hnext
    refine .inr ⟨?_, ?_⟩
    · omega
    · cases hst : MutationStatus.try_from m.status with
      | none => simp [hst, LactoStore.halt] at h
      | some status =>
        rw [hst] at h
        cases htime : m.event_time with
        | none => simp [htime, LactoStore.halt] at h
        | some event_time =>
          rw [htime] at h
          exact ⟨status, event_time, (Prod.mk.inj h).1.symm⟩

theorem apply_accepted {index : Nat} (hm : Canonical c m)
    (h : s.apply c index (c.encode m) = (t, .ok ())) :
    m.sequence_id ≤ s.last_seen m.client_id ∧ t = s.advance_last_applied_for_duplicate index ∨
    m.sequence_id = s.last_seen m.client_id + 1 ∧ ∃ status event_time,
      t = s.commit index m m.client_id status event_time := by
  obtain ⟨-, m', client_id, hdec, hparse, hcases⟩ := apply_ok h
  rw [c.decode_encode] at hdec
  obtain rfl := Except.ok.inj hdec
  rw [hm] at hparse
  obtain rfl := Except.ok.inj hparse
  exact hcases

theorem last_seen_commit (s : LactoStore) (index : Nat) (m : CommittedMutation)
    (status : MutationStatus) (event_time : Timestamp) (client_id : String) :
    (s.commit index m m.client_id status event_time).last_seen client_id =
      if client_id = m.client_id then m.sequence_id else s.last_seen client_id := by
  unfold LactoStore.last_seen LactoStore.get_session_record LactoStore.commit
  simp only [OrdMap.get?_insert]
  split <;> rfl

theorem Keyed.commit (h : Keyed s) (index : Nat) (m : CommittedMutation)
    (status : MutationStatus) (event_time : Timestamp) :
    Keyed (s.commit index m m.client_id status event_time) := by
  refine ⟨fun k item hk => ?_, fun k record hk => ?_⟩
  · simp only [LactoStore.commit, updateInventory] at hk
    split_ifs at hk with hstatus hdelete
    · rw [OrdMap.get?_erase] at hk
      split at hk
      · cases hk
      · exact h.inventory k item hk
    · rw [OrdMap.get?_insert] at hk
      split at hk
      · rename_i heq
        obtain rfl := Option.some.inj hk
        exact heq.symm
      · exact h.inventory k item hk
    · exact h.inventory k item hk
  · simp only [LactoStore.commit, OrdMap.get?_insert] at hk
    split at hk
    · rename_i heq
      obtain rfl := Option.some.inj hk
      exact heq.symm
    · exact h.sessions k record hk

theorem Counted.apply (h : Counted ms s) (hm : Canonical c m)
    (happly : s.apply c (ms.length + 1) (c.encode m) = (t, .ok ())) : Counted (ms ++ [m]) t := by
  have hmem : ∀ m' ∈ ms ++ [m], m' ∈ ms ∨ m' = m := by simp
  rcases apply_accepted hm happly with ⟨hle, rfl⟩ | ⟨hnext, status, event_time, rfl⟩
  · refine ⟨h.healthy, by simp [LactoStore.advance_last_applied_for_duplicate], ?_, ?_,
      ⟨h.keyed.inventory, h.keyed.sessions⟩⟩
    · intro m' hm'
      rcases hmem m' hm' with hold | rfl
      · exact h.seen m' hold
      · exact hle
    · intro client_id
      have := h.bound client_id
      change s.last_seen client_id ≤ _
      rw [List.length_append]
      omega
  · refine ⟨h.healthy, by simp [LactoStore.commit], ?_, ?_, h.keyed.commit _ m status event_time⟩
    · intro m' hm'
      rw [last_seen_commit]
      split
      · rename_i heq
        rcases hmem m' hm' with hold | rfl
        · have := h.seen m' hold
          rw [heq] at this
          omega
        · exact le_rfl
      · rename_i hne
        rcases hmem m' hm' with hold | rfl
        · exact h.seen m' hold
        · exact absurd rfl hne
    · intro client_id
      have hb := h.bound client_id
      have hb' := h.bound m.client_id
      rw [last_seen_commit, List.length_append, List.length_singleton]
      split <;> omega

/-- An accepted ledger is accepted up to any of its entries. -/
theorem replay_take (hs : replay c ms = (s, .ok ())) (k : Nat) :
    ∃ sₖ, replay c (ms.take k) = (sₖ, .ok ()) ∧
      sₖ.applyLog c (ms.take k).length ((ms.drop k).map c.encode) = (s, .ok ()) := by
  unfold replay at hs ⊢
  rw [← List.take_append_drop k ms, List.map_append, applyLog_append] at hs
  generalize LactoStore.new.applyLog c 0 ((ms.take k).map c.encode) = r at hs
  obtain ⟨sₖ, e | u⟩ := r
  · cases hs
  · refine ⟨sₖ, rfl, ?_⟩
    simpa using hs

theorem replay_counted (hms : ∀ m ∈ ms, Canonical c m) (hs : replay c ms = (s, .ok ())) :
    Counted ms s := by
  induction ms using List.reverseRecOn generalizing s with
  | nil =>
    obtain rfl := (Prod.mk.inj hs).1
    exact .new
  | append_singleton ms m ih =>
    obtain ⟨sₖ, hk, -⟩ := replay_take hs ms.length
    rw [List.take_left'] at hk
    · have hcount := ih (fun m' hm' => hms m' (List.mem_append_left _ hm')) hk
      rw [replay_concat hk] at hs
      exact hcount.apply (hms m (by simp)) hs
    · rfl

/-! ## Entries that are applied again -/

/-- Whatever the label, a sequence that the store has seen moves the applied index only. -/
theorem Counted.apply_again (h : Counted ms s) (hlen : ms.length < u64Max) (hm : m ∈ ms)
    (hcan : Canonical c m) {j : Nat} (hj : j < ms.length) :
    (s.advance_last_applied_for_duplicate j).apply c (j + 1) (c.encode m) =
      (s.advance_last_applied_for_duplicate (j + 1), .ok ()) := by
  have hindex : checked_add "LogIndex" j 1 = .ok (j + 1) := if_pos (by omega)
  have hseq : checked_add "SequenceId" (s.last_seen m.client_id) 1 =
      .ok (s.last_seen m.client_id + 1) := by
    have := h.bound m.client_id
    exact if_pos (by omega)
  have hseen := h.seen m hm
  unfold LactoStore.apply LactoStore.validate_log_monotonicity LactoStore.last_applied_index
    LactoStore.check_not_poisoned LactoStore.advance_last_applied_for_duplicate
  simp only [h.healthy, c.decode_encode, Option.getD_some, Bool.false_eq_true, if_false, hindex,
    ne_eq, not_true_eq_false]
  unfold LactoStore.parse_client_id
  rw [hcan]
  exact LactoStore.applySequence_seen hseq hseen

theorem Counted.applyLog_again (h : Counted ms s) (hlen : ms.length < u64Max)
    (again : List CommittedMutation) (hagain : ∀ m ∈ again, m ∈ ms ∧ Canonical c m) {j : Nat}
    (hj : j + again.length ≤ ms.length) :
    (s.advance_last_applied_for_duplicate j).applyLog c j (again.map c.encode) =
      (s.advance_last_applied_for_duplicate (j + again.length), .ok ()) := by
  induction again generalizing j with
  | nil => rfl
  | cons m again ih =>
    rw [List.length_cons] at hj
    obtain ⟨hm, hcan⟩ := hagain m List.mem_cons_self
    rw [List.map_cons, LactoStore.applyLog, h.apply_again hlen hm hcan (by omega)]
    dsimp only
    rw [ih (fun m' hm' => hagain m' (List.mem_cons_of_mem _ hm')) (by omega), List.length_cons,
      Nat.add_right_comm, Nat.add_assoc]

/-- What the message of a snapshot holds. -/
def snapshotOf (s : LactoStore) : SnapshotData :=
  ⟨s.inventory.values, s.sessions.values, some s.last_effective_time⟩

theorem snapshot_eq (c : SnapshotCodec α) (hp : s.poisoned = false) :
    s.snapshot c = .ok (c.encode_snapshot (snapshotOf s)) := by
  simp [LactoStore.snapshot, LactoStore.check_not_poisoned, LactoStore.get_inventory, hp,
    snapshotOf]

theorem restored_same (h : Keyed s) (hp : s.poisoned = false) (label : Nat) :
    Same (s.advance_last_applied_for_duplicate label) (restored label (snapshotOf s)) where
  inventory := restore_values s.inventory GroceryItem.item_key h.inventory
  sessions := restore_values s.sessions SessionRecord.client_id h.sessions
  clock := rfl
  applied := rfl
  poisoned := hp.symm

/-- From the label on, up to `k`: until the snapshot is reached only the applied index
moves, and from there on the store goes the way of the ledger. -/
theorem replay_skewed (hms : ∀ m ∈ ms, Canonical c m) (hs : replay c ms = (s, .ok ()))
    {l a k : Nat} (hla : l ≤ a) (han : a ≤ ms.length) (ha : a < u64Max) (hlk : l ≤ k)
    {sₐ : LactoStore} (hsₐ : replay c (ms.take a) = (sₐ, .ok ()))
    (hstart : Same (sₐ.advance_last_applied_for_duplicate l) t) :
    ∃ t', t.applyLog c l (((ms.take k).drop l).map c.encode) = (t', .ok ()) ∧
      (k ≤ a → Same (sₐ.advance_last_applied_for_duplicate k) t') ∧
      (a ≤ k → ∃ sₖ, replay c (ms.take k) = (sₖ, .ok ()) ∧ Same sₖ t') := by
  have hlen : (ms.take a).length = a := List.length_take_of_le han
  have hcount := replay_counted (fun m hm => hms m (List.mem_of_mem_take hm)) hsₐ
  have happlied : Same sₐ (sₐ.advance_last_applied_for_duplicate a) := by
    refine ⟨rfl, rfl, rfl, ?_, rfl⟩
    rw [hcount.applied, hlen]
    rfl
  -- the part that the snapshot already holds
  have hagain : ∀ j, l ≤ j → j ≤ a →
      (sₐ.advance_last_applied_for_duplicate l).applyLog c l (((ms.take j).drop l).map c.encode) =
        (sₐ.advance_last_applied_for_duplicate j, .ok ()) := by
    intro j hlj hja
    have hjlen : ((ms.take j).drop l).length = j - l := by
      rw [List.length_drop, List.length_take_of_le (by omega)]
    rw [hcount.applyLog_again (by omega) _ ?_ (by omega), hjlen]
    · congr 2
      omega
    · intro m hm
      have htake := List.mem_of_mem_drop hm
      refine ⟨?_, hms m (List.mem_of_mem_take htake)⟩
      rw [show ms.take j = (ms.take a).take j by rw [List.take_take, Nat.min_eq_left hja]] at htake
      exact List.mem_of_mem_take htake
  by_cases hka : k ≤ a
  · obtain ⟨hsame, hres⟩ := Same.applyLog (c := c) hstart l (((ms.take k).drop l).map c.encode)
    rw [hagain k hlk hka] at hsame hres
    refine ⟨_, Prod.ext rfl hres, fun _ => hsame, fun hak => ?_⟩
    obtain rfl : k = a := by omega
    exact ⟨sₐ, hsₐ, happlied.trans hsame⟩
  · have hak : a ≤ k := by omega
    obtain ⟨sₖ, hsₖ, -⟩ := replay_take hs k
    obtain ⟨sₐ', hsₐ', hrest⟩ := replay_take hsₖ a
    rw [List.take_take, Nat.min_eq_left hak] at hsₐ' hrest
    rw [hlen] at hrest
    obtain rfl : sₐ' = sₐ := by
      rw [hsₐ'] at hsₐ
      exact (Prod.mk.inj hsₐ).1
    have hsplit : (ms.take k).drop l = (ms.take a).drop l ++ (ms.take k).drop a := by
      have hpart : (ms.take k).drop l =
          ((ms.take k).take a).drop l ++ (ms.take k).drop a := by
        rw [← List.drop_append_of_le_length, List.take_append_drop]
        rw [List.length_take, List.length_take]
        omega
      rw [hpart, List.take_take, Nat.min_eq_left hak]
    have hwhole : (sₐ'.advance_last_applied_for_duplicate l).applyLog c l
        (((ms.take k).drop l).map c.encode) =
        (sₐ'.advance_last_applied_for_duplicate a).applyLog c a
          (((ms.take k).drop a).map c.encode) := by
      rw [hsplit, List.map_append, applyLog_append, hagain a hla le_rfl]
      dsimp only
      rw [List.length_map, List.length_drop, hlen, Nat.add_sub_cancel' hla]
    obtain ⟨hsame, hres⟩ := Same.applyLog (c := c) hstart l (((ms.take k).drop l).map c.encode)
    obtain ⟨hsame', hres'⟩ := Same.applyLog (c := c) happlied a (((ms.take k).drop a).map c.encode)
    rw [hrest] at hsame' hres'
    rw [hwhole] at hsame hres
    refine ⟨_, Prod.ext rfl (hres.trans hres'), fun hle => absurd hle hka, fun _ => ?_⟩
    exact ⟨sₖ, hsₖ, hsame'.trans hsame⟩

/-- A snapshot of the first `a` entries, installed under an older label on any store that
is not poisoned, is brought to the end of the ledger by the entries after the label, as
long as the sequence after the last is a number of 64 bits. -/
theorem label_skew_harmless (c : SnapshotCodec α) (ms : List CommittedMutation)
    (hms : ∀ m ∈ ms, Canonical c.toCodec m) {s : LactoStore}
    (hs : replay c.toCodec ms = (s, .ok ())) {l a : Nat} (hla : l ≤ a) (han : a ≤ ms.length)
    (ha : a < u64Max) {t : LactoStore} (ht : t.poisoned = false) :
    ∃ sₐ data t₁ t₂, replay c.toCodec (ms.take a) = (sₐ, .ok ()) ∧
      sₐ.snapshot c = .ok data ∧ t.install_snapshot c l data = (t₁, .ok ()) ∧
      t₁.applyLog c.toCodec l ((ms.drop l).map c.encode) = (t₂, .ok ()) ∧
      t₂.inventory = s.inventory ∧ t₂.sessions = s.sessions ∧
      t₂.last_effective_time = s.last_effective_time ∧
      t₂.last_applied_index = s.last_applied_index := by
  obtain ⟨sₐ, hsₐ, -⟩ := replay_take hs a
  have hcount := replay_counted (fun m hm => hms m (List.mem_of_mem_take hm)) hsₐ
  obtain ⟨t₂, happly, -, hend⟩ := replay_skewed hms hs hla han ha (hla.trans han) hsₐ
    (restored_same hcount.keyed hcount.healthy l)
  obtain ⟨s', hs', hsame⟩ := hend han
  rw [List.take_length] at happly hs'
  rw [hs] at hs'
  obtain rfl := (Prod.mk.inj hs').1
  refine ⟨sₐ, _, _, t₂, hsₐ, snapshot_eq c hcount.healthy, ?_, happly, hsame.inventory,
    hsame.sessions, hsame.clock, hsame.last_applied_index⟩
  exact LactoStore.install_snapshot_eq c ht l _ (c.decode_encode_snapshot _)

/-- Entries and snapshots as they are, and ids that are already canonical. -/
def plainSnapshots : SnapshotCodec (CommittedMutation ⊕ SnapshotData) where
  encode := .inl
  decode
    | .inl m => .ok m
    | .inr _ => .error "invalid wire type"
  decode_encode _ := rfl
  parse_uuid := .ok
  encode_snapshot := .inr
  decode_snapshot
    | .inl _ => .error "invalid wire type"
    | .inr d => .ok d
  decode_encode_snapshot _ := rfl

/-- One client puts the same item again and again. -/
def putMilkTimes (n : Nat) : List CommittedMutation :=
  (List.range n).map fun i => { putMilk 7 with sequence_id := i + 1 }

theorem label_skew_harmless_thrice :
    ∃ data t₁ t₂, (replay plainSnapshots.toCodec (putMilkTimes 2)).1.snapshot plainSnapshots =
        .ok data ∧
      LactoStore.new.install_snapshot plainSnapshots 1 data = (t₁, .ok ()) ∧
      t₁.applyLog plainSnapshots.toCodec 1 (((putMilkTimes 3).drop 1).map plainSnapshots.encode) =
        (t₂, .ok ()) ∧ t₂.last_applied_index = .ok 3 := by
  have hms : ∀ m ∈ putMilkTimes 3, Canonical plainSnapshots.toCodec m := fun _ _ => rfl
  obtain ⟨sₐ, data, t₁, t₂, hsₐ, hdata, hinstall, happly, -, -, -, happlied⟩ :=
    label_skew_harmless plainSnapshots (putMilkTimes 3) hms (Prod.ext rfl rfl) (l := 1) (a := 2)
      (by decide) (by decide) (by decide) (t := LactoStore.new) rfl
  have hsₐ' : replay plainSnapshots.toCodec (putMilkTimes 2) = (sₐ, .ok ()) := hsₐ
  rw [hsₐ']
  exact ⟨data, t₁, t₂, hdata, hinstall, happly, happlied⟩

/-! ## Where it ends -/

theorem putMilkTimes_succ (n : Nat) :
    putMilkTimes (n + 1) = putMilkTimes n ++ [{ putMilk 7 with sequence_id := n + 1 }] := by
  unfold putMilkTimes
  rw [List.range_succ, List.map_append, List.map_singleton]

/-- The client's sequences are accepted as far as there are numbers for them. -/
theorem putMilkTimes_accepted (c : Codec α) (hcan : Canonical c (putMilk 7)) {n : Nat}
    (hn : n ≤ u64Max) :
    ∃ s, replay c (putMilkTimes n) = (s, .ok ()) ∧ Tidy (putMilkTimes n) s ∧
      highest (putMilkTimes n) (putMilk 7).client_id = n := by
  induction n with
  | zero => exact ⟨_, rfl, .new, rfl⟩
  | succ n ih =>
    obtain ⟨s, hs, htidy, hhigh⟩ := ih (by omega)
    have hlen : (putMilkTimes n).length = n := by simp [putMilkTimes]
    have hwf : WellFormed c { putMilk 7 with sequence_id := n + 1 } :=
      ⟨hcan, Nat.succ_pos n, by simp [putMilk, MutationStatus.try_from]⟩
    have hnew : keyOf { putMilk 7 with sequence_id := n + 1 } ∉ (putMilkTimes n).map keyOf := by
      rw [htidy.duplicate_iff hwf.sequence_pos]
      change ¬n + 1 ≤ highest (putMilkTimes n) (putMilk 7).client_id
      omega
    have hnext : ¬highest (putMilkTimes n) (putMilk 7).client_id + 1 < n + 1 := by omega
    obtain ⟨s', happly, htidy'⟩ := htidy.apply_next hwf (by omega) hnew hnext rfl
    rw [putMilkTimes_succ]
    refine ⟨s', by rw [replay_concat hs, happly], htidy', ?_⟩
    rw [highest_new hnew (by change highest _ (putMilk 7).client_id < n + 1; omega)]
    exact if_pos rfl

/-- With the last number used up the client's sequence has no successor, and the check
of a repeated entry overflows. -/
theorem apply_again_overflows (c : SnapshotCodec α) (hcan : Canonical c.toCodec (putMilk 7))
    {n : Nat} (hn : n + 1 = u64Max) :
    ∃ s data t, replay c.toCodec (putMilkTimes (n + 1)) = (s, .ok ()) ∧ s.snapshot c = .ok data ∧
      LactoStore.new.install_snapshot c n data = (t, .ok ()) ∧
      (t.applyLog c.toCodec n (((putMilkTimes (n + 1)).drop n).map c.encode)).2 =
        .error (.Arithmetic (.Overflow "SequenceId")) := by
  obtain ⟨s, hs, htidy, hhigh⟩ := putMilkTimes_accepted c.toCodec hcan (n := n + 1) (by omega)
  have hmem : ∀ m ∈ putMilkTimes (n + 1), Canonical c.toCodec m := by
    intro m hm
    obtain ⟨i, -, rfl⟩ := List.mem_map.mp hm
    exact hcan
  have hcount := replay_counted hmem hs
  refine ⟨s, _, _, hs, snapshot_eq c hcount.healthy,
    LactoStore.install_snapshot_eq c rfl n _ (c.decode_encode_snapshot _), ?_⟩
  have hlast : (putMilkTimes (n + 1)).drop n = [{ putMilk 7 with sequence_id := n + 1 }] := by
    rw [putMilkTimes_succ, List.drop_left']
    simp [putMilkTimes]
  have hsame := restored_same hcount.keyed hcount.healthy n
  rw [(hsame.applyLog n _).2, hlast]
  have hseen : (s.advance_last_applied_for_duplicate n).last_seen (putMilk 7).client_id = n + 1 :=
    (htidy.last_seen _).trans hhigh
  have hindex : checked_add "LogIndex" n 1 = .ok (n + 1) := if_pos (by omega)
  have hover : checked_add "SequenceId" (n + 1) 1 = .error (.Overflow "SequenceId") :=
    if_neg (by omega)
  have happly : (s.advance_last_applied_for_duplicate n).apply c.toCodec (n + 1)
      (c.encode { putMilk 7 with sequence_id := n + 1 }) =
      (s.advance_last_applied_for_duplicate n, .error (.Arithmetic (.Overflow "SequenceId"))) := by
    unfold LactoStore.apply LactoStore.validate_log_monotonicity LactoStore.last_applied_index
      LactoStore.check_not_poisoned LactoStore.parse_client_id
    rw [c.decode_encode]
    simp only [LactoStore.advance_last_applied_for_duplicate, hcount.healthy, Option.getD_some,
      Bool.false_eq_true, if_false, hindex, ne_eq, not_true_eq_false]
    rw [show c.parse_uuid (putMilk 7).client_id = .ok (putMilk 7).client_id from hcan]
    dsimp only
    rw [LactoStore.applySequence_overflow (by rw [← hover, ← hseen]; rfl)]
  simp [LactoStore.applyLog, happly]

/-- A poisoned store takes no snapshot, and a client that has used up its sequences
cannot repeat one. -/
theorem label_skew_refused :
    (∃ data, (replay plainSnapshots.toCodec [putMilk 7]).1.snapshot plainSnapshots = .ok data ∧
      ({ LactoStore.new with poisoned := true } : LactoStore).install_snapshot plainSnapshots 1
        data = ({ LactoStore.new with poisoned := true }, .error .Poisoned)) ∧
    ∃ s data t, replay plainSnapshots.toCodec (putMilkTimes u64Max) = (s, .ok ()) ∧
      s.snapshot plainSnapshots = .ok data ∧
      LactoStore.new.install_snapshot plainSnapshots (u64Max - 1) data = (t, .ok ()) ∧
      (t.applyLog plainSnapshots.toCodec (u64Max - 1)
        (((putMilkTimes u64Max).drop (u64Max - 1)).map plainSnapshots.encode)).2 =
        .error (.Arithmetic (.Overflow "SequenceId")) := by
  refine ⟨⟨_, rfl, rfl⟩, ?_⟩
  have hmax : u64Max - 1 + 1 = u64Max := by simp [u64Max]
  have h := apply_again_overflows plainSnapshots rfl hmax
  rw [hmax] at h
  exact h

end lacto_fsm
