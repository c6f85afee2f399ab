-- The log with a snapshot horizon: the tree may hold entries below the horizon,
-- the last index is the larger of the two. Each operation is described by what
-- it does to the last index and to the entries above the horizon.
import LactoSensus.LogView

open common.types
open journal
open ordmap
open raft_engine.storage
open raft (Entry)

namespace raft_engine.node

variable {α R : Type} {s : SledStorage α}

/-! ## The last index -/

theorem horizon_le_last (s : SledStorage α) : s.last_included_index ≤ s.last_log_index := by
  unfold SledStorage.last_log_index
  exact Nat.le_max_right _ _

theorem key_le_last {k : Nat} (hk : s.log.get? k ≠ none) : k ≤ s.last_log_index := by
  unfold SledStorage.last_log_index
  cases hl : s.log.last? with
  | none => exact absurd ((s.log.last?_eq_none_iff).mp hl k) hk
  | some p =>
    obtain ⟨j, e⟩ := p
    have := ((s.log.last?_eq_some_iff j e).mp hl).2 k hk
    simp
    omega

theorem last_is_key (h : s.last_log_index ≠ s.last_included_index) :
    s.log.get? s.last_log_index ≠ none := by
  have hle := horizon_le_last s
  cases hl : s.log.last? with
  | none =>
    simp only [SledStorage.last_log_index, hl] at h hle
    simp at h
  | some p =>
    obtain ⟨j, e⟩ := p
    have hget := ((s.log.last?_eq_some_iff j e).mp hl).1
    have hlast : s.last_log_index = max j s.last_included_index := by
      simp [SledStorage.last_log_index, hl]
    have hj : s.last_log_index = j := by omega
    rw [hj, hget]
    simp

theorem last_log_index_unique {n : Nat} (hh : s.last_included_index ≤ n)
    (hkeys : ∀ k, s.log.get? k ≠ none → k ≤ n)
    (hn : n = s.last_included_index ∨ s.log.get? n ≠ none) : s.last_log_index = n := by
  have hle := horizon_le_last s
  apply Nat.le_antisymm
  · by_cases heq : s.last_log_index = s.last_included_index
    · omega
    · exact hkeys _ (last_is_key heq)
  · rcases hn with rfl | hn
    · exact hle
    · exact key_le_last hn

/-! ## Coverage -/

/-- Every index above the horizon up to the last one has an entry. -/
def Covered (s : SledStorage α) : Prop :=
  ∀ k, s.last_included_index < k → k ≤ s.last_log_index → s.log.get? k ≠ none

/-- The entries carry the indices that follow `b`. -/
def Consecutive (b : Nat) : List (LogEntry α) → Prop
  | [] => True
  | e :: es => e.index = b + 1 ∧ Consecutive (b + 1) es

theorem Consecutive.mem_index {b : Nat} {es : List (LogEntry α)} (h : Consecutive b es)
    (k : Nat) : k ∈ es.map LogEntry.index ↔ b < k ∧ k ≤ b + es.length := by
  induction es generalizing b with
  | nil => simp
  | cons e es ih =>
    obtain ⟨he, hes⟩ := h
    simp only [List.map_cons, List.mem_cons, List.length_cons, ih hes, he]
    omega

theorem append_entries_get? (s : SledStorage α) (es : List (LogEntry α)) (k : Nat) :
    (s.append_entries es).log.get? k ≠ none ↔ s.log.get? k ≠ none ∨ k ∈ es.map LogEntry.index := by
  unfold SledStorage.append_entries
  rw [OrdMap.get?_insertAll_ne_none, List.map_map]
  rfl

theorem append_last {es : List (LogEntry α)} (hes : Consecutive s.last_log_index es) :
    (s.append_entries es).last_log_index = s.last_log_index + es.length := by
  have hle := horizon_le_last s
  apply last_log_index_unique
  · change s.last_included_index ≤ _
    omega
  · intro k hk
    rw [append_entries_get?, hes.mem_index] at hk
    rcases hk with hk | hk
    · have := key_le_last hk
      omega
    · omega
  · rw [append_entries_get?, hes.mem_index]
    by_cases hnil : es.length = 0
    · rw [hnil, Nat.add_zero]
      by_cases heq : s.last_log_index = s.last_included_index
      · exact .inl heq
      · exact .inr (.inl (last_is_key heq))
    · exact .inr (.inr ⟨by omega, le_rfl⟩)

theorem Covered.append (h : Covered s) {es : List (LogEntry α)}
    (hes : Consecutive s.last_log_index es) : Covered (s.append_entries es) := by
  intro k hk hkl
  rw [append_last hes] at hkl
  rw [append_entries_get?, hes.mem_index]
  by_cases hold : k ≤ s.last_log_index
  · exact .inl (h k hk hold)
  · exact .inr ⟨by omega, hkl⟩

theorem truncate_log_get? (s : SledStorage α) (c k : Nat) :
    (s.truncate_log c).log.get? k = if c ≤ k then none else s.log.get? k := by
  unfold SledStorage.truncate_log
  dsimp only
  split
  · rename_i hlt
    split
    · rename_i hck
      by_contra hne
      have := key_le_last hne
      omega
    · rfl
  · dsimp only
    rw [OrdMap.get?_filterKeys]
    by_cases hck : c ≤ k
    · rw [if_pos hck]
      split
      · rename_i hno
        simp only [hck, true_and, decide_eq_true_eq] at hno
        by_contra hne
        exact hno (key_le_last hne)
      · rfl
    · rw [if_neg hck, if_pos (by simp [hck])]

@[simp] theorem truncate_log_horizon (s : SledStorage α) (c : Nat) :
    (s.truncate_log c).last_included_index = s.last_included_index := by
  unfold SledStorage.truncate_log
  dsimp only
  split <;> rfl

/-- A cut above the horizon leaves the log just below it. -/
theorem Covered.truncate_last (h : Covered s) {c : Nat} (hc : s.last_included_index < c)
    (hcl : c ≤ s.last_log_index) : (s.truncate_log c).last_log_index = c - 1 := by
  apply last_log_index_unique
  · rw [truncate_log_horizon]
    omega
  · intro k hk
    rw [truncate_log_get?] at hk
    split at hk
    · exact absurd rfl hk
    · omega
  · rw [truncate_log_horizon, truncate_log_get?, if_neg (by omega)]
    by_cases heq : c - 1 = s.last_included_index
    · exact .inl heq
    · exact .inr (h (c - 1) (by omega) (by omega))

theorem Covered.truncate (h : Covered s) {c : Nat} (hc : s.last_included_index < c)
    (hcl : c ≤ s.last_log_index) : Covered (s.truncate_log c) := by
  intro k hk hkl
  rw [truncate_log_horizon] at hk
  rw [h.truncate_last hc hcl] at hkl
  rw [truncate_log_get?, if_neg (by omega)]
  exact h k hk (by omega)

theorem metadata_last {i q : Nat} (hi : s.last_included_index ≤ i) :
    (s.save_snapshot_metadata i q).last_log_index = max s.last_log_index i := by
  have hl : s.last_log_index = max ((s.log.last?.map Prod.fst).getD 0) s.last_included_index := rfl
  have hr : (s.save_snapshot_metadata i q).last_log_index =
      max ((s.log.last?.map Prod.fst).getD 0) i := rfl
  rw [hl, hr]
  omega

theorem Covered.metadata (h : Covered s) {i q : Nat} (hi : s.last_included_index ≤ i) :
    Covered (s.save_snapshot_metadata i q) := by
  intro k hk hkl
  rw [metadata_last hi] at hkl
  change i < k at hk
  exact h k (by omega) (by omega)

theorem truncate_log_front_get? (s : SledStorage α) (i k : Nat) :
    (s.truncate_log_front i).log.get? k = if 1 ≤ k ∧ k ≤ i then none else s.log.get? k := by
  unfold SledStorage.truncate_log_front
  rw [OrdMap.get?_filterKeys]
  by_cases hk : 1 ≤ k ∧ k ≤ i <;> simp [hk]

theorem front_last {i : Nat} (hi : i ≤ s.last_included_index) :
    (s.truncate_log_front i).last_log_index = s.last_log_index := by
  have hle := horizon_le_last s
  apply last_log_index_unique
  · exact hle
  · intro k hk
    rw [truncate_log_front_get?] at hk
    split at hk
    · exact absurd rfl hk
    · exact key_le_last hk
  · change s.last_log_index = s.last_included_index ∨ _
    by_cases heq : s.last_log_index = s.last_included_index
    · exact .inl heq
    · right
      rw [truncate_log_front_get?, if_neg (by omega)]
      exact last_is_key heq

theorem Covered.front (h : Covered s) {i : Nat} (hi : i ≤ s.last_included_index) :
    Covered (s.truncate_log_front i) := by
  intro k hk hkl
  rw [front_last hi] at hkl
  change s.last_included_index < k at hk
  rw [truncate_log_front_get?, if_neg (by omega)]
  exact h k hk hkl

/-! ## Reconciliation -/

/-- The log has an entry of another term at this index. -/
def RaftNode.conflicts (n : RaftNode α R) (entry : LogEntry α) : Bool :=
  n.get_term_at entry.index ≠ 0 ∧ n.get_term_at entry.index ≠ entry.term

/-- The first loop cuts the log at the first entry of another term, if there is one. -/
theorem RaftNode.truncateConflict_eq (n : RaftNode α Follower) (entries : List (LogEntry α)) :
    n.truncateConflict entries =
      match entries.find? n.conflicts with
      | none => n
      | some e => n.truncate_log e.index := by
  induction entries with
  | nil => rfl
  | cons e es ih =>
    unfold RaftNode.truncateConflict
    dsimp only
    rw [List.find?_cons]
    by_cases hconf : n.get_term_at e.index ≠ 0 ∧ n.get_term_at e.index ≠ e.term
    · rw [if_pos hconf, show n.conflicts e = true by simpa [RaftNode.conflicts] using hconf]
    · rw [if_neg hconf, show n.conflicts e = false by simpa [RaftNode.conflicts] using hconf]
      exact ih

/-- The second loop collects entries that follow the last index. -/
theorem gatherAppend_consecutive (entries : List (LogEntry α)) {b : Nat}
    {es : List (LogEntry α)} (h : gatherAppend (b + 1) entries = .ok (some es)) :
    Consecutive b es ∧ ∀ e ∈ es, e ∈ entries := by
  induction entries generalizing b es with
  | nil =>
    simp only [gatherAppend, Except.ok.injEq, Option.some.injEq] at h
    subst h
    exact ⟨trivial, by simp⟩
  | cons e entries ih =>
    simp only [gatherAppend] at h
    split at h
    · split at h
      · cases h
      rename_i heq
      cases hadd : checked_add "LogIndex" (b + 1) 1 with
      | error err =>
        rw [hadd] at h
        cases h
      | ok next =>
        obtain ⟨rfl, -⟩ := checked_add_ok hadd
        rw [hadd] at h
        dsimp only at h
        cases hrest : gatherAppend (b + 1 + 1) entries with
        | error err =>
          rw [hrest] at h
          cases h
        | ok rest =>
          rw [hrest] at h
          cases rest with
          | none => cases h
          | some rest =>
            simp only [Option.map_some, Except.ok.injEq, Option.some.injEq] at h
            subst h
            obtain ⟨hcons, hmem⟩ := ih hrest
            refine ⟨⟨not_not.mp heq, hcons⟩, ?_⟩
            intro e' he'
            rcases List.mem_cons.mp he' with rfl | he'
            · exact List.mem_cons_self
            · exact List.mem_cons_of_mem _ (hmem e' he')
    · obtain ⟨hcons, hmem⟩ := ih h
      exact ⟨hcons, fun e' he' => List.mem_cons_of_mem _ (hmem e' he')⟩

theorem Consecutive.last_index {b : Nat} {es : List (LogEntry α)} (h : Consecutive b es) :
    (es.getLast?.map LogEntry.index).getD b = b + es.length := by
  induction es generalizing b with
  | nil => rfl
  | cons e es ih =>
    obtain ⟨he, hes⟩ := h
    cases es with
    | nil => simp [he]
    | cons e' es =>
      have := ih hes
      rw [List.getLast?_cons_cons]
      simp only [List.length_cons] at this ⊢
      cases hl : (e' :: es).getLast? with
      | none => simp at hl
      | some x =>
        rw [hl] at this
        simp only [Option.map_some, Option.getD_some] at this ⊢
        omega

/-- What the one write of `reconcile_log` leaves: the entries appended, and a
commit index that is the old one or a new one within the log. -/
theorem RaftNode.persistAppend_log (n : RaftNode α Follower) {es : List (LogEntry α)}
    (hes : Consecutive n.last_log_index es) (leader_commit : Nat) :
    (n.persistAppend es leader_commit).disk.log = (n.disk.append_entries es).log ∧
    (n.persistAppend es leader_commit).disk.key_snapshot_index = n.disk.key_snapshot_index ∧
    (n.persistAppend es leader_commit).disk.key_snapshot_term = n.disk.key_snapshot_term ∧
    (n.persistAppend es leader_commit).last_applied = n.last_applied ∧
    ((n.persistAppend es leader_commit).last_committed = n.last_committed ∨
      n.last_committed < leader_commit ∧
      (n.persistAppend es leader_commit).last_committed =
        min leader_commit (n.last_log_index + es.length)) := by
  have hempty : es.isEmpty = true → (n.disk.append_entries es).log = n.disk.log := by
    intro h
    rw [List.isEmpty_iff.mp h]
    rfl
  unfold RaftNode.persistAppend
  rw [hes.last_index]
  by_cases hgt : leader_commit > n.last_committed
  · rw [if_pos hgt]
    cases hes' : es.isEmpty with
    | true => exact ⟨(hempty hes').symm, rfl, rfl, rfl, .inr ⟨hgt, rfl⟩⟩
    | false => exact ⟨rfl, rfl, rfl, rfl, .inr ⟨hgt, rfl⟩⟩
  · rw [if_neg hgt]
    cases hes' : es.isEmpty with
    | true => exact ⟨(hempty hes').symm, rfl, rfl, rfl, .inl rfl⟩
    | false => exact ⟨rfl, rfl, rfl, rfl, .inl rfl⟩

/-- Everything `reconcile_log` can do to a log with a horizon: cut it or not, then
append what follows or not. -/
inductive Merged (n : RaftNode α Follower) (entries : List (LogEntry α)) (leader_commit : Nat) :
    RaftNode α Follower → Prop where
  | kept : Merged n entries leader_commit n
  | cut (e : LogEntry α) (he : entries.find? n.conflicts = some e) :
      Merged n entries leader_commit (n.truncate_log e.index)
  | appended (es : List (LogEntry α)) (hes : Consecutive n.last_log_index es)
      (hsub : ∀ e ∈ es, e ∈ entries) :
      Merged n entries leader_commit (n.persistAppend es leader_commit)
  | replaced (e : LogEntry α) (he : entries.find? n.conflicts = some e)
      (es : List (LogEntry α)) (hes : Consecutive (n.truncate_log e.index).last_log_index es)
      (hsub : ∀ e ∈ es, e ∈ entries) :
      Merged n entries leader_commit ((n.truncate_log e.index).persistAppend es leader_commit)

/-- A reconciliation touches neither the applied index nor the horizon. -/
theorem Merged.frame {n n' : RaftNode α Follower} {entries : List (LogEntry α)}
    {leader_commit : Nat} (hm : Merged n entries leader_commit n') :
    n'.last_applied = n.last_applied ∧
      n'.disk.last_included_index = n.disk.last_included_index := by
  have hpersist : ∀ {n : RaftNode α Follower} {es : List (LogEntry α)},
      Consecutive n.last_log_index es →
      (n.persistAppend es leader_commit).last_applied = n.last_applied ∧
        (n.persistAppend es leader_commit).disk.last_included_index =
          n.disk.last_included_index := by
    intro n es hes
    obtain ⟨-, hsnap, -, happlied, -⟩ := n.persistAppend_log hes leader_commit
    refine ⟨happlied, ?_⟩
    unfold SledStorage.last_included_index
    rw [hsnap]
  cases hm with
  | kept => exact ⟨rfl, rfl⟩
  | cut e he => exact ⟨rfl, truncate_log_horizon _ _⟩
  | appended es hes hsub => exact hpersist hes
  | replaced e he es hes hsub =>
    obtain ⟨happlied, hhor⟩ := hpersist hes
    exact ⟨happlied, hhor.trans (truncate_log_horizon _ _)⟩

theorem truncate_log_term (s : SledStorage α) (c : Nat) :
    (s.truncate_log c).current_term = s.current_term := by
  unfold SledStorage.truncate_log
  dsimp only
  split <;> rfl

/-- A reconciliation is one of the log, not of the node. -/
theorem Merged.hard_state {n n' : RaftNode α Follower} {entries : List (LogEntry α)}
    {leader_commit : Nat} (hm : Merged n entries leader_commit n') :
    n'.node_id = n.node_id ∧ n'.current_term = n.current_term := by
  have hpersist : ∀ (n : RaftNode α Follower) (es : List (LogEntry α)),
      (n.persistAppend es leader_commit).node_id = n.node_id ∧
        (n.persistAppend es leader_commit).current_term = n.current_term := by
    intro n es
    unfold RaftNode.persistAppend
    dsimp only
    split <;> exact ⟨rfl, rfl⟩
  cases hm with
  | kept => exact ⟨rfl, rfl⟩
  | cut e he => exact ⟨rfl, truncate_log_term _ _⟩
  | appended es hes hsub => exact hpersist n es
  | replaced e he es hes hsub =>
    obtain ⟨hid, hterm⟩ := hpersist (n.truncate_log e.index) es
    exact ⟨hid, hterm.trans (truncate_log_term _ _)⟩

theorem truncate_log_keeps {c k : Nat} (hc : k < c) :
    (s.truncate_log c).read_entry k = s.read_entry k := by
  unfold SledStorage.read_entry
  rw [truncate_log_get?, if_neg (by omega)]

/-- Entries past the last one hide nothing. -/
theorem append_entries_keeps {es : List (LogEntry α)} (hes : Consecutive s.last_log_index es)
    {k : Nat} {e : LogEntry α} (he : s.read_entry k = some e) :
    (s.append_entries es).read_entry k = some e := by
  unfold SledStorage.read_entry at he ⊢
  have hle : k ≤ s.last_log_index := key_le_last (by rw [he]; simp)
  cases hget : (s.append_entries es).log.get? k with
  | none =>
    have hne := (append_entries_get? s es k).mpr (.inl (by rw [he]; simp))
    exact absurd hget hne
  | some e' =>
    rcases OrdMap.get?_insertAll_cases _ _ hget with hold | hnew
    · rw [← he]
      exact hold.symm
    · obtain ⟨e₁, he₁, heq⟩ := List.mem_map.mp hnew
      obtain ⟨rfl, rfl⟩ := Prod.mk.inj heq
      have := (hes.mem_index e₁.index).mp (List.mem_map_of_mem he₁)
      omega

/-- A reconciliation keeps every entry below its cut. -/
theorem Merged.keeps {n n' : RaftNode α Follower} {entries : List (LogEntry α)}
    {leader_commit k : Nat} {e : LogEntry α} (hm : Merged n entries leader_commit n')
    (hcut : ∀ e, entries.find? n.conflicts = some e → k < e.index)
    (he : n.disk.read_entry k = some e) : n'.disk.read_entry k = some e := by
  have hpersist : ∀ {n : RaftNode α Follower} {es : List (LogEntry α)},
      Consecutive n.last_log_index es → n.disk.read_entry k = some e →
      (n.persistAppend es leader_commit).disk.read_entry k = some e := by
    intro n es hes he
    have hlog := (n.persistAppend_log hes leader_commit).1
    have hkeep := append_entries_keeps hes he
    unfold SledStorage.read_entry at hkeep ⊢
    rw [hlog]
    exact hkeep
  cases hm with
  | kept => exact he
  | cut e₁ he₁ => exact (truncate_log_keeps (hcut e₁ he₁)).trans he
  | appended es hes hsub => exact hpersist hes he
  | replaced e₁ he₁ es hes hsub =>
    exact hpersist hes ((truncate_log_keeps (hcut e₁ he₁)).trans he)

theorem RaftNode.reconcile_log_merged (n : RaftNode α Follower) (prev_log_index prev_log_term : Nat)
    (entries : List (LogEntry α)) (leader_commit : Nat) :
    (n.reconcile_log prev_log_index prev_log_term entries leader_commit).1 = n ∨
    n.verify_log_consistency prev_log_index prev_log_term = true ∧
    Merged n entries leader_commit
      (n.reconcile_log prev_log_index prev_log_term entries leader_commit).1 := by
  unfold RaftNode.reconcile_log
  by_cases hv : n.verify_log_consistency prev_log_index prev_log_term = false
  · rw [if_pos hv]
    exact .inl rfl
  rw [if_neg hv]
  refine .inr ⟨by simpa using hv, ?_⟩
  rw [n.truncateConflict_eq]
  cases he : entries.find? n.conflicts with
  | none =>
    dsimp only
    cases hadd : checked_add "LogIndex" n.last_log_index 1 with
    | error err => exact .kept
    | ok next =>
      obtain ⟨rfl, -⟩ := checked_add_ok hadd
      dsimp only
      cases hg : gatherAppend (n.last_log_index + 1) entries with
      | error err => exact .kept
      | ok r =>
        cases r with
        | none => exact .kept
        | some es =>
          obtain ⟨hes, hsub⟩ := gatherAppend_consecutive entries hg
          exact .appended es hes hsub
  | some e =>
    dsimp only
    cases hadd : checked_add "LogIndex" (n.truncate_log e.index).last_log_index 1 with
    | error err => exact .cut e he
    | ok next =>
      obtain ⟨rfl, -⟩ := checked_add_ok hadd
      dsimp only
      cases hg : gatherAppend ((n.truncate_log e.index).last_log_index + 1) entries with
      | error err => exact .cut e he
      | ok r =>
        cases r with
        | none => exact .cut e he
        | some es =>
          obtain ⟨hes, hsub⟩ := gatherAppend_consecutive entries hg
          exact .replaced e he es hes hsub

end raft_engine.node
