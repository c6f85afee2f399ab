-- A snapshot is the store it was taken of, wherever it is restored; and however
-- often a restoration and the purge after it are cut short, the first start that
-- gets through finds a whole store.
import LactoSensus.InstallCrash

open common.types
open common.proto
open ordmap
open journal
open raft_engine.recovery

namespace lacto_fsm

variable {α : Type} {c : SnapshotCodec α} {s t d d' : LactoStore}

/-! ## Round trip -/

/-- The stores that entries of the gateway lead to, applied under any indices, as long as
the store has not halted. -/
inductive Reached (c : Codec α) : LactoStore → Prop where
  | new : Reached c .new
  | apply {s : LactoStore} {index : Nat} {m : CommittedMutation} (h : Reached c s)
      (hm : Canonical c m) (hp : (s.apply c index (c.encode m)).1.poisoned = false) :
      Reached c (s.apply c index (c.encode m)).1

/-- A call that fails leaves the store as it was, or halts it. -/
def Refuses {X : Type} (s : LactoStore) (r : Applied X) : Prop :=
  ∀ e, r.2 = .error e → r.1 = s ∨ r.1.poisoned = true

theorem Refuses.unchanged {X : Type} (r : Except FsmError X) : Refuses s (s, r) :=
  fun _ _ => .inl rfl

theorem Refuses.halt {X : Type} (msg : String) : Refuses s (s.halt msg : Applied X) :=
  fun _ _ => .inr rfl

theorem validate_log_monotonicity_refuses (index : Nat) :
    Refuses s (s.validate_log_monotonicity index) := by
  unfold LactoStore.validate_log_monotonicity
  split
  · exact .unchanged _
  split
  · exact .unchanged _
  split
  · exact .halt _
  · exact .unchanged _

theorem parse_client_id_refuses (c : Codec α) (raw_client_id : String) (index : Nat) :
    Refuses s (s.parse_client_id c raw_client_id index) := by
  unfold LactoStore.parse_client_id
  split
  · exact .unchanged _
  · exact .halt _

theorem applySequence_refuses (index : Nat) (m : CommittedMutation) (client_id : String) :
    Refuses s (s.applySequence index m client_id) := by
  unfold LactoStore.applySequence
  dsimp only
  split
  · exact .unchanged _
  split
  · intro e he
    cases he
  split
  · exact .halt _
  split
  · exact .halt _
  split
  · exact .halt _
  · intro e he
    cases he

theorem apply_refuses (c : Codec α) (index : Nat) (data : α) :
    Refuses s (s.apply c index data) := by
  unfold LactoStore.apply
  split
  · exact .unchanged _
  cases c.decode data with
  | error e => exact .unchanged _
  | ok m =>
  have hindex := validate_log_monotonicity_refuses (s := s) index
  have hsame : ∀ t, s.validate_log_monotonicity index = (t, .ok ()) → _ :=
    fun t => validate_log_monotonicity_ok
  generalize s.validate_log_monotonicity index = r at hindex hsame
  obtain ⟨s₁, e | u⟩ := r
  · exact fun _ _ => hindex e rfl
  obtain ⟨rfl, -⟩ := hsame s₁ rfl
  dsimp only
  have hclient := parse_client_id_refuses (s := s₁) c m.client_id index
  unfold LactoStore.parse_client_id at hclient ⊢
  cases hparse : c.parse_uuid m.client_id with
  | error e =>
    rw [hparse] at hclient
    exact fun _ _ => hclient _ rfl
  | ok client_id => exact applySequence_refuses index m client_id

/-- Every value stands under the key it names, in each such store. -/
theorem Reached.keyed {c : Codec α} (h : Reached c s) : Keyed s ∧ s.poisoned = false := by
  induction h with
  | new => exact ⟨Counted.new.keyed, rfl⟩
  | @apply s index m _ hm hp ih =>
    refine ⟨?_, hp⟩
    cases happly : s.apply c index (c.encode m) with
    | mk t res =>
    rw [happly] at hp
    cases res with
    | error e =>
      rcases apply_refuses c index (c.encode m) e (by rw [happly]) with hsame | hhalted
      · rw [happly] at hsame
        obtain rfl : t = s := hsame
        exact ih.1
      · rw [happly, hp] at hhalted
        cases hhalted
    | ok u =>
      rcases apply_accepted hm happly with ⟨-, rfl⟩ | ⟨-, status, event_time, rfl⟩
      · exact ⟨ih.1.inventory, ih.1.sessions⟩
      · exact ih.1.commit index m status event_time

/-- A snapshot restores the store it was taken of, whatever stood in its place. -/
theorem snapshot_round_trip (h : Reached c.toCodec s) :
    ∃ data index, s.snapshot c = .ok data ∧ s.last_applied_index = .ok index ∧
      ∀ t : LactoStore, t.poisoned = false →
        ∃ t', t.install_snapshot c index data = (t', .ok ()) ∧
          t'.inventory = s.inventory ∧ t'.sessions = s.sessions ∧
          t'.last_effective_time = s.last_effective_time ∧
          t'.last_applied_index = .ok index ∧ t'.key_restore_in_progress = false := by
  obtain ⟨hkeyed, hp⟩ := h.keyed
  have hindex : s.last_applied_index = .ok (appliedOf s) := by
    simp [LactoStore.last_applied_index, LactoStore.check_not_poisoned, hp]
  refine ⟨_, _, snapshot_eq c hp, hindex, fun t ht => ?_⟩
  have hinstall := LactoStore.install_snapshot_eq c ht (appliedOf s) (snapshotOf s)
    (c.decode_encode_snapshot _)
  have hsame := restored_same hkeyed hp (appliedOf s)
  refine ⟨_, hinstall, hsame.inventory, hsame.sessions, rfl, ?_, rfl⟩
  simp [LactoStore.last_applied_index, LactoStore.check_not_poisoned, restored]

theorem putMilk_reached : Reached plainSnapshots.toCodec
    (LactoStore.new.apply plainSnapshots.toCodec 1 (.inl (putMilk 7))).1 :=
  .apply .new (putMilk_wellFormed 7).canonical rfl

theorem snapshot_round_trip_milk :
    ∃ data index,
      (LactoStore.new.apply plainSnapshots.toCodec 1 (.inl (putMilk 7))).1.snapshot plainSnapshots
        = .ok data ∧
      (LactoStore.new.apply plainSnapshots.toCodec 1 (.inl (putMilk 7))).1.last_applied_index =
        .ok index ∧
      ∃ t', LactoStore.new.install_snapshot plainSnapshots index data = (t', .ok ()) ∧
        t'.inventory =
          (LactoStore.new.apply plainSnapshots.toCodec 1 (.inl (putMilk 7))).1.inventory := by
  obtain ⟨data, index, hdata, hindex, hall⟩ := snapshot_round_trip putMilk_reached
  obtain ⟨t', hinstall, hinventory, -⟩ := hall .new rfl
  exact ⟨data, index, hdata, hindex, t', hinstall, hinventory⟩

/-! ## All or nothing -/

/-- What crashes leave of an installation: a point of it, or a point of the start after a
crash before. -/
inductive Crashed (c : SnapshotCodec α) (s : LactoStore) (last_included_index : Nat) (data : α) :
    LactoStore → Prop where
  | installing {d : LactoStore}
      (hd : d ∈ (install_snapshot c (.settled s) last_included_index data).1.crash_points) :
      Crashed c s last_included_index data d
  | starting {d d' : LactoStore} (h : Crashed c s last_included_index data d)
      (hd' : d' ∈ (reopen d).crash_points) : Crashed c s last_included_index data d'

theorem reopen_flagless (h : d.key_restore_in_progress = false) :
    reopen d = .settled { d with poisoned := false } := by
  unfold reopen
  rw [if_neg (by simp [h])]

/-- The tombstone is the last key that the purge removes. -/
theorem purge_points (h : d.key_restore_in_progress = true)
    (hd' : d' ∈ (reopen d).crash_points) : d'.key_restore_in_progress = true ∨ d' = .new := by
  have hnow := reopen_stale h
  unfold reopen at hd' hnow
  rw [if_pos h] at hd' hnow
  rcases List.mem_cons.mp hd' with rfl | hpast
  · exact .inr hnow
  have hstart : Since (.settled { d with poisoned := false }) (·.key_restore_in_progress = true)
      (Journal.settled { d with poisoned := false }) := .start h
  have hcleared := clear_sessions_stale (clear_inventory_stale hstart)
  have happlied := hcleared.write (f := fun s => { s with key_last_applied := none })
    hcleared.now
  have htime := happlied.write (f := fun s => { s with key_last_effective_time := none })
    happlied.now
  exact .inl (htime.crash_points hpast)

/-- A tombstone, or one of the three whole stores. -/
def Whole (s : LactoStore) (last_included_index : Nat) (snapshot : SnapshotData)
    (d : LactoStore) : Prop :=
  d.key_restore_in_progress = true ∨ { d with poisoned := false } = { s with poisoned := false } ∨
    d = .new ∨ d = restored last_included_index snapshot

theorem Crashed.whole {last_included_index : Nat} {data : α} {snapshot : SnapshotData}
    (hdata : c.decode_snapshot data = .ok snapshot)
    (h : Crashed c s last_included_index data d) : Whole s last_included_index snapshot d := by
  induction h with
  | @installing d hd =>
    cases hp : s.poisoned with
    | true =>
      -- a store that has halted writes nothing
      have hunwritten : (install_snapshot c (.settled s) last_included_index data).1 =
          .settled s := by
        unfold install_snapshot LactoStore.check_not_poisoned
        simp [hp]
      rw [hunwritten] at hd
      obtain rfl : d = s := List.mem_singleton.mp hd
      exact .inr (.inl rfl)
    | false =>
      rcases install_points c hp last_included_index hdata hd with rfl | hstale | hrestored
      · exact .inr (.inl rfl)
      · exact .inl hstale
      · exact .inr (.inr (.inr hrestored))
  | @starting d d' _ hd' ih =>
    cases hflag : d.key_restore_in_progress with
    | true =>
      rcases purge_points hflag hd' with hstale | hnew
      · exact .inl hstale
      · exact .inr (.inr (.inl hnew))
    | false =>
      rw [reopen_flagless hflag] at hd'
      obtain rfl := List.mem_singleton.mp hd'
      rcases ih with hstale | hsame | rfl | rfl
      · rw [hflag] at hstale
        cases hstale
      · exact .inr (.inl hsame)
      · exact .inr (.inr (.inl rfl))
      · exact .inr (.inr (.inr rfl))

/-- Wherever the installation, and any number of starts after it, were cut short: the next
start that gets through finds the store from before, an empty one, or the snapshot. -/
theorem restoration_all_or_nothing {last_included_index : Nat} {data : α}
    {snapshot : SnapshotData} (hdata : c.decode_snapshot data = .ok snapshot)
    (h : Crashed c s last_included_index data d) :
    (reopen d).now = { s with poisoned := false } ∨
      (reopen d).now = .new ∧ (reopen d).now.last_applied_index = .ok 0 ∨
      (reopen d).now = restored last_included_index snapshot := by
  cases hflag : d.key_restore_in_progress with
  | true =>
    rw [reopen_stale hflag]
    exact .inr (.inl ⟨rfl, rfl⟩)
  | false =>
    rw [reopen_flagless hflag, Journal.settled_now]
    rcases h.whole hdata with hstale | hsame | rfl | rfl
    · rw [hflag] at hstale
      cases hstale
    · exact .inl hsame
    · exact .inr (.inl ⟨rfl, rfl⟩)
    · exact .inr (.inr rfl)

/-- Everything was rewritten but the last batch: the next start purges it. -/
theorem restoration_all_or_nothing_unfinished :
    ∃ d, Crashed plainSnapshots LactoStore.new 1
        (.inr (snapshotOf (replay plain [putMilk 7]).1)) d ∧
      d.inventory.keys = ["milk"] ∧
      ((reopen d).now = .new ∨ (reopen d).now = .new ∧ (reopen d).now.last_applied_index = .ok 0 ∨
        (reopen d).now = restored 1 (snapshotOf (replay plain [putMilk 7]).1)) := by
  have hd : Crashed plainSnapshots LactoStore.new 1
      (.inr (snapshotOf (replay plain [putMilk 7]).1))
      (rewriteTrees (snapshotOf (replay plain [putMilk 7]).1) (.settled .new)).now :=
    .installing (List.mem_cons_of_mem _ (List.mem_cons_self ..))
  exact ⟨_, hd, rfl, restoration_all_or_nothing rfl hd⟩

end lacto_fsm
