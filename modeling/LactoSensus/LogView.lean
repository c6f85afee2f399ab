-- The log without snapshots: the tree of entries is a plain list, entry `k` of
-- the tree is entry `k - 1` of the list. Each storage and follower operation is
-- described by what it does to that list.
import LactoSensus.Node
import LactoSensus.Lib.Raft.Protocol

open common.types
open journal
open ordmap
open raft_engine.storage
open raft (Entry lastTerm)

namespace raft_engine.node

variable {α R : Type}

/-! ## Lists as log entries -/

/-- The entries of a list as log entries that follow index `b`. -/
def numbered (b : Nat) : List (Entry α) → List (LogEntry α)
  | [] => []
  | e :: es => ⟨b + 1, e.term, e.data⟩ :: numbered (b + 1) es

/-- The entry a list holds at a log index. -/
def entryAt (l : List (Entry α)) (k : Nat) : Option (LogEntry α) :=
  if k = 0 then none else l[k - 1]?.map fun e => ⟨k, e.term, e.data⟩

/-- The term a list holds at a log index, zero when there is none. -/
def termAt (l : List (Entry α)) (k : Nat) : Nat :=
  ((entryAt l k).map LogEntry.term).getD 0

@[simp] theorem numbered_length (b : Nat) (es : List (Entry α)) :
    (numbered b es).length = es.length := by
  induction es generalizing b with
  | nil => rfl
  | cons e es ih => simp [numbered, ih]

theorem numbered_append (b : Nat) (es fs : List (Entry α)) :
    numbered b (es ++ fs) = numbered b es ++ numbered (b + es.length) fs := by
  induction es generalizing b with
  | nil => rfl
  | cons e es ih =>
    simp only [List.cons_append, numbered, ih, List.length_cons]
    rw [show b + 1 + es.length = b + (es.length + 1) by omega]

theorem numbered_getElem? (b : Nat) (es : List (Entry α)) (i : Nat) :
    (numbered b es)[i]? = es[i]?.map fun e => ⟨b + i + 1, e.term, e.data⟩ := by
  induction es generalizing b i with
  | nil => simp [numbered]
  | cons e es ih =>
    cases i with
    | zero => simp [numbered]
    | succ i =>
      simp only [numbered, List.getElem?_cons_succ, ih]
      rw [show b + 1 + i + 1 = b + (i + 1) + 1 by omega]

theorem numbered_index {b : Nat} {es : List (Entry α)} {e : LogEntry α}
    (he : e ∈ numbered b es) : b < e.index ∧ e.index ≤ b + es.length := by
  obtain ⟨i, hi⟩ := List.mem_iff_getElem?.mp he
  rw [numbered_getElem?] at hi
  obtain ⟨a, ha, rfl⟩ := Option.map_eq_some_iff.mp hi
  have := (List.getElem?_eq_some_iff.mp ha).1
  dsimp only
  omega

theorem numbered_last_index (b : Nat) {es : List (Entry α)} (hne : es ≠ []) :
    (numbered b es).getLast?.map LogEntry.index = some (b + es.length) := by
  have hpos := List.length_pos_of_ne_nil hne
  rw [List.getLast?_eq_getElem?, numbered_getElem?, numbered_length,
    List.getElem?_eq_getElem (by omega)]
  simp only [Option.map_some, Option.some.injEq]
  omega

@[simp] theorem entryAt_zero (l : List (Entry α)) : entryAt l 0 = none := rfl

theorem entryAt_succ (l : List (Entry α)) (i : Nat) :
    entryAt l (i + 1) = l[i]?.map fun e => ⟨i + 1, e.term, e.data⟩ := by
  simp [entryAt]

theorem entryAt_ne_none_iff (l : List (Entry α)) (k : Nat) :
    entryAt l k ≠ none ↔ 0 < k ∧ k ≤ l.length := by
  cases k with
  | zero => simp
  | succ i =>
    rw [entryAt_succ, Ne, Option.map_eq_none_iff, List.getElem?_eq_none_iff]
    omega

@[simp] theorem termAt_zero (l : List (Entry α)) : termAt l 0 = 0 := rfl

theorem termAt_succ (l : List (Entry α)) (i : Nat) :
    termAt l (i + 1) = (l[i]?.map Entry.term).getD 0 := by
  rw [termAt, entryAt_succ, Option.map_map]
  rfl

theorem termAt_length (l : List (Entry α)) : termAt l l.length = lastTerm l := by
  rcases List.eq_nil_or_concat l with rfl | ⟨l', e, rfl⟩
  · rfl
  · simp only [List.concat_eq_append, List.length_append, List.length_singleton, termAt_succ,
      lastTerm]
    simp

theorem entryAt_extend {l l' : List (Entry α)} (hpre : l <+: l') {i : Nat}
    (hi : i ≤ l.length) : entryAt l' i = entryAt l i := by
  cases i with
  | zero => rfl
  | succ i =>
    have hget : l[i]? = some l[i] := List.getElem?_eq_getElem (by omega)
    rw [entryAt_succ, entryAt_succ, hget, raft.prefix_get hpre hget]

theorem termAt_extend {l l' : List (Entry α)} (hpre : l <+: l') {i : Nat}
    (hi : i ≤ l.length) : termAt l' i = termAt l i := by
  cases i with
  | zero => rfl
  | succ i =>
    have hget : l[i]? = some l[i] := List.getElem?_eq_getElem (by omega)
    rw [termAt_succ, termAt_succ, hget, raft.prefix_get hpre hget]

/-! ## The storage that holds a list -/

/-- The `log` tree with the entries of the list. -/
def treeOf (l : List (Entry α)) : OrdMap Nat (LogEntry α) where
  entries := (numbered 0 l).map fun e => (e.index, e)
  sorted := by
    rw [List.pairwise_iff_getElem]
    intro i j hi hj hij
    simp only [List.length_map, numbered_length] at hi hj
    have hget : ∀ k, (hk : k < l.length) →
        (numbered 0 l)[k]? = some ⟨k + 1, l[k].term, l[k].data⟩ := by
      intro k hk
      rw [numbered_getElem?, List.getElem?_eq_getElem hk]
      simp
    have hi' := List.getElem?_eq_some_iff.mp (hget i hi)
    have hj' := List.getElem?_eq_some_iff.mp (hget j hj)
    simp only [List.getElem_map, hi'.2, hj'.2]
    omega

theorem treeOf_get? (l : List (Entry α)) (k : Nat) : (treeOf l).get? k = entryAt l k := by
  have key : ∀ e, (treeOf l).get? k = some e ↔ entryAt l k = some e := by
    intro e
    rw [OrdMap.get?_eq_some_iff]
    simp only [treeOf, List.mem_map, Prod.mk.injEq]
    constructor
    · rintro ⟨a, ha, hk, rfl⟩
      obtain ⟨i, hi⟩ := List.mem_iff_getElem?.mp ha
      rw [numbered_getElem?] at hi
      obtain ⟨x, hx, rfl⟩ := Option.map_eq_some_iff.mp hi
      rw [← hk]
      simp only [Nat.zero_add, entryAt_succ, hx, Option.map_some]
    · intro he
      have hne := (entryAt_ne_none_iff l k).mp (by simp [he])
      obtain ⟨i, rfl⟩ : ∃ i, k = i + 1 := ⟨k - 1, by omega⟩
      rw [entryAt_succ] at he
      obtain ⟨x, hx, rfl⟩ := Option.map_eq_some_iff.mp he
      refine ⟨_, List.mem_iff_getElem?.mpr ⟨i, ?_⟩, rfl, rfl⟩
      rw [numbered_getElem?, hx]
      simp
  exact Option.ext key

/-- The storage holds exactly the list, and no snapshot. -/
structure Uncompacted (s : SledStorage α) (l : List (Entry α)) : Prop where
  index_zero : s.last_included_index = 0
  term_zero : s.last_included_term = 0
  tree : s.log = treeOf l

theorem Uncompacted.new : Uncompacted (SledStorage.new : SledStorage α) [] :=
  ⟨rfl, rfl, rfl⟩

variable {s : SledStorage α} {l : List (Entry α)}

theorem Uncompacted.get? (h : Uncompacted s l) (k : Nat) : s.log.get? k = entryAt l k := by
  rw [h.tree, treeOf_get?]

theorem Uncompacted.last? (h : Uncompacted s l) :
    s.log.last? = (entryAt l l.length).map fun e => (l.length, e) := by
  cases he : entryAt l l.length with
  | none =>
    rw [Option.map_none, OrdMap.last?_eq_none_iff]
    intro k
    rw [h.get?]
    by_contra hk
    have hk' := (entryAt_ne_none_iff l k).mp hk
    exact (entryAt_ne_none_iff l l.length).mpr ⟨by omega, le_rfl⟩ he
  | some e =>
    rw [Option.map_some, OrdMap.last?_eq_some_iff]
    refine ⟨by rw [h.get?, he], ?_⟩
    intro j hj
    rw [h.get?] at hj
    exact ((entryAt_ne_none_iff l j).mp hj).2

theorem Uncompacted.last_log_index (h : Uncompacted s l) : s.last_log_index = l.length := by
  unfold SledStorage.last_log_index
  rw [h.last?, h.index_zero]
  cases he : entryAt l l.length with
  | none =>
    have : ¬(0 < l.length ∧ l.length ≤ l.length) := by
      rw [← entryAt_ne_none_iff]
      simp [he]
    simp
    omega
  | some e => simp

theorem Uncompacted.last_log_term (h : Uncompacted s l) : s.last_log_term = lastTerm l := by
  unfold SledStorage.last_log_term
  rw [h.last?, h.term_zero, ← termAt_length, termAt, Option.map_map]
  cases he : entryAt l l.length with
  | none => simp
  | some e =>
    simp only [Option.map_some, Function.comp, Option.getD_some]
    split <;> omega

theorem Uncompacted.read_entries (h : Uncompacted s l) (b : Nat) :
    s.read_entries (b + 1) l.length = .ok (numbered b (l.drop b)) := by
  unfold SledStorage.read_entries
  rw [if_neg (by omega)]
  split
  · rename_i hlt
    rw [List.drop_of_length_le (by omega)]
    rfl
  · rename_i hle
    have hb : (l.take b).length = b := by
      rw [List.length_take]
      omega
    have hsplit : numbered 0 l = numbered 0 (l.take b) ++ numbered b (l.drop b) := by
      conv_lhs => rw [← List.take_append_drop b l, numbered_append, hb, Nat.zero_add]
    simp only [OrdMap.range, OrdMap.filterKeys, OrdMap.values, h.tree, treeOf, List.filter_map,
      List.map_map]
    rw [hsplit, List.filter_append]
    have hlow : (numbered 0 (l.take b)).filter
        ((fun e => decide (b + 1 ≤ e.1 ∧ e.1 ≤ l.length)) ∘ fun e => (e.index, e)) = [] := by
      rw [List.filter_eq_nil_iff]
      intro e he
      have := numbered_index he
      simp only [Function.comp, decide_eq_true_eq]
      omega
    have hhigh : (numbered b (l.drop b)).filter
        ((fun e => decide (b + 1 ≤ e.1 ∧ e.1 ≤ l.length)) ∘ fun e => (e.index, e)) =
        numbered b (l.drop b) := by
      rw [List.filter_eq_self]
      intro e he
      have := numbered_index he
      simp only [List.length_drop] at this
      simp only [Function.comp, decide_eq_true_eq]
      omega
    rw [hlow, hhigh, List.nil_append]
    simp [Function.comp_def]

theorem Uncompacted.of_log_eq (h : Uncompacted s l) (s' : SledStorage α)
    (hi : s'.key_snapshot_index = s.key_snapshot_index)
    (ht : s'.key_snapshot_term = s.key_snapshot_term) {l' : List (Entry α)}
    (hget : ∀ k, s'.log.get? k = entryAt l' k) : Uncompacted s' l' := by
  refine ⟨?_, ?_, ?_⟩
  · rw [SledStorage.last_included_index, hi]
    exact h.index_zero
  · rw [SledStorage.last_included_term, ht]
    exact h.term_zero
  · ext1 k
    rw [hget, treeOf_get?]

theorem Uncompacted.save_hard_state (h : Uncompacted s l) (term : Nat) (vote : Option NodeId) :
    Uncompacted (s.save_hard_state term vote) l :=
  h.of_log_eq _ (by rfl) (by rfl) h.get?

theorem Uncompacted.save_last_committed (h : Uncompacted s l) (index : Nat) :
    Uncompacted (s.save_last_committed index) l :=
  h.of_log_eq _ (by rfl) (by rfl) h.get?

theorem Uncompacted.truncate_log (h : Uncompacted s l) (i : Nat) :
    Uncompacted (s.truncate_log (i + 1)) (l.take i) := by
  unfold SledStorage.truncate_log
  rw [h.last_log_index]
  dsimp only
  split
  · rename_i hlt
    rw [List.take_of_length_le (by omega)]
    exact h
  · refine h.of_log_eq _ (by rfl) (by rfl) fun k => ?_
    rw [OrdMap.get?_filterKeys, h.get?]
    cases k with
    | zero => simp
    | succ j =>
      rw [entryAt_succ, entryAt_succ, List.getElem?_take]
      by_cases hj : j < i
      · rw [if_pos (by simp; omega), if_pos hj]
      · rw [if_neg hj]
        by_cases hjl : j < l.length
        · rw [if_neg (by simp; omega)]
          rfl
        · rw [List.getElem?_eq_none (by omega)]
          simp

theorem insertAll_numbered (m : OrdMap Nat (LogEntry α)) (b : Nat)
    (es : List (Entry α)) (k : Nat) :
    (m.insertAll ((numbered b es).map fun e => (e.index, e))).get? k =
      if b < k then (es[k - b - 1]?.map fun e => ⟨k, e.term, e.data⟩).or (m.get? k)
      else m.get? k := by
  induction es generalizing m b with
  | nil => simp [numbered, OrdMap.insertAll]
  | cons e es ih =>
    have hcons : m.insertAll ((numbered b (e :: es)).map fun e => (e.index, e)) =
        (m.insert (b + 1) ⟨b + 1, e.term, e.data⟩).insertAll
          ((numbered (b + 1) es).map fun e => (e.index, e)) := rfl
    rw [hcons, ih]
    by_cases hlt : b + 1 < k
    · rw [if_pos hlt, if_pos (by omega), OrdMap.get?_insert_of_ne _ (by omega)]
      rw [show k - b - 1 = (k - (b + 1) - 1) + 1 by omega, List.getElem?_cons_succ]
    · rw [if_neg hlt]
      by_cases heq : k = b + 1
      · subst heq
        simp
      · rw [if_neg (by omega), OrdMap.get?_insert_of_ne _ heq]

theorem Uncompacted.append_entries (h : Uncompacted s l) (es : List (Entry α)) :
    Uncompacted (s.append_entries (numbered l.length es)) (l ++ es) := by
  refine h.of_log_eq _ (by rfl) (by rfl) fun k => ?_
  simp only [SledStorage.append_entries, insertAll_numbered, h.get?]
  cases k with
  | zero => simp
  | succ j =>
    rw [entryAt_succ, entryAt_succ]
    by_cases hj : l.length < j + 1
    · rw [if_pos hj, List.getElem?_append_right (by omega),
        List.getElem?_eq_none (l := l) (by omega)]
      rw [show j + 1 - l.length - 1 = j - l.length by omega]
      simp
    · rw [if_neg hj, List.getElem?_append_left (by omega)]

/-! ## Reads of a node -/

variable {n : RaftNode α R}

theorem RaftNode.last_log_index_view (h : Uncompacted n.disk l) :
    n.last_log_index = l.length :=
  h.last_log_index

theorem RaftNode.last_log_term_view (h : Uncompacted n.disk l) :
    n.last_log_term = lastTerm l :=
  h.last_log_term

theorem RaftNode.get_term_at_view (h : Uncompacted n.disk l) (i : Nat) :
    n.get_term_at i = termAt l i := by
  unfold RaftNode.get_term_at
  split
  · rename_i hi
    rw [hi, termAt_zero]
  · rename_i hi
    rw [if_neg (by rw [RaftNode.last_included_index, h.index_zero]; exact hi),
      SledStorage.read_entry, h.get?, termAt]

theorem termAt_of_getElem? {i : Nat} {a : Entry α} (ha : l[i]? = some a) :
    termAt l (i + 1) = a.term := by
  rw [termAt_succ, ha]
  rfl

theorem termAt_of_length_lt {i : Nat} (hi : l.length < i) : termAt l i = 0 := by
  obtain ⟨j, rfl⟩ : ∃ j, i = j + 1 := ⟨i - 1, by omega⟩
  rw [termAt_succ, List.getElem?_eq_none (by omega)]
  rfl

theorem RaftNode.verify_log_consistency_view {n : RaftNode α Follower}
    (h : Uncompacted n.disk l) (prev_log_index prev_log_term : Nat) :
    n.verify_log_consistency prev_log_index prev_log_term = true ↔
      prev_log_index = 0 ∨
        prev_log_index ≤ l.length ∧ termAt l prev_log_index = prev_log_term := by
  unfold RaftNode.verify_log_consistency
  rw [RaftNode.last_log_index_view h, RaftNode.get_term_at_view h]
  by_cases h0 : prev_log_index = 0
  · simp [h0]
  · by_cases hlt : prev_log_index > l.length
    · simp only [h0, if_false, hlt, if_true, Bool.false_eq_true, false_or, false_iff]
      omega
    · simp only [h0, if_false, hlt, decide_eq_true_eq, false_or]
      constructor
      · exact fun ht => ⟨by omega, ht⟩
      · exact fun ht => ht.2

/-! ## Reconciliation -/

/-- The log agrees in its terms with the entries that follow index `b`, up to place `i`. -/
def AgreeBelow (l : List (Entry α)) (b : Nat) (es : List (Entry α)) (i : Nat) : Prop :=
  ∀ j a e, j < i → l[b + j]? = some a → es[j]? = some e → a.term = e.term

/-- The first loop leaves the log alone, or cuts it at the first term that differs. -/
theorem RaftNode.truncateConflict_cases {n : RaftNode α Follower} (h : Uncompacted n.disk l)
    (hpos : ∀ e ∈ l, 0 < e.term) (b : Nat) (es : List (Entry α)) :
    (n.truncateConflict (numbered b es) = n ∧ AgreeBelow l b es es.length) ∨
      ∃ i a e, l[b + i]? = some a ∧ es[i]? = some e ∧ a.term ≠ e.term ∧
        AgreeBelow l b es i ∧
        n.truncateConflict (numbered b es) = n.truncate_log (b + i + 1) := by
  induction es generalizing b with
  | nil =>
    refine .inl ⟨rfl, ?_⟩
    intro j a e hj
    simp at hj
  | cons e es ih =>
    simp only [numbered, RaftNode.truncateConflict, RaftNode.get_term_at_view h]
    split
    · rename_i hconf
      cases ha : l[b]? with
      | none =>
        rw [termAt_succ, ha] at hconf
        simp at hconf
      | some a =>
        rw [termAt_of_getElem? ha] at hconf
        refine .inr ⟨0, a, e, by simpa using ha, rfl, hconf.2, ?_, rfl⟩
        intro j _ _ hj
        omega
    · rename_i hconf
      have hhead : ∀ a, l[b]? = some a → a.term = e.term := by
        intro a ha
        rw [termAt_of_getElem? ha] at hconf
        have := hpos a (List.mem_of_getElem? ha)
        by_contra hne
        exact hconf ⟨by omega, hne⟩
      have hstep : ∀ i, AgreeBelow l (b + 1) es i → AgreeBelow l b (e :: es) (i + 1) := by
        intro i hag j a e' hj ha he
        cases j with
        | zero =>
          simp only [List.getElem?_cons_zero, Option.some.injEq] at he
          subst he
          exact hhead a (by simpa using ha)
        | succ j =>
          rw [List.getElem?_cons_succ] at he
          exact hag j a e' (by omega) (by rw [← ha]; congr 1; omega) he
      rcases ih (b + 1) with ⟨heq, hag⟩ | ⟨i, a, e', ha, he, hne, hag, heq⟩
      · exact .inl ⟨heq, hstep _ hag⟩
      · refine .inr ⟨i + 1, a, e', ?_, by simpa using he, hne, hstep i hag, ?_⟩
        · rw [← ha]
          congr 1
          omega
        · rw [heq]
          congr 1
          omega

/-- The second loop collects exactly the entries past the end of the log. -/
theorem gatherAppend_view (es : List (Entry α)) {b m : Nat} (hb : b ≤ m)
    {r : Option (List (LogEntry α))} (h : gatherAppend (m + 1) (numbered b es) = .ok r) :
    r = some (numbered m (es.drop (m - b))) := by
  induction es generalizing b m r with
  | nil =>
    simp only [numbered, gatherAppend] at h
    simp [numbered, ← Except.ok.inj h]
  | cons e es ih =>
    simp only [numbered, gatherAppend] at h
    rcases Nat.eq_or_lt_of_le hb with rfl | hlt
    · rw [if_pos (by omega), if_neg (by simp)] at h
      cases hadd : checked_add "LogIndex" (b + 1) 1 with
      | error e' =>
        rw [hadd] at h
        cases h
      | ok next =>
        obtain ⟨rfl, -⟩ := checked_add_ok hadd
        rw [hadd] at h
        dsimp only at h
        cases hrest : gatherAppend (b + 1 + 1) (numbered (b + 1) es) with
        | error e' =>
          rw [hrest] at h
          cases h
        | ok rest =>
          rw [hrest] at h
          have hr := ih le_rfl hrest
          subst hr
          simp only [Nat.sub_self, List.drop_zero, Option.map_some] at h ⊢
          exact (Except.ok.inj h).symm
    · rw [if_neg (by omega)] at h
      rw [ih (by omega) h, show m - b = (m - (b + 1)) + 1 by omega, List.drop_succ_cons]

/-- With indices below the limit the second loop never overflows. -/
theorem gatherAppend_ok (es : List (Entry α)) {c m : Nat} (hcm : c ≤ m)
    (hm : m < u64Max) (hc : c + es.length < u64Max) :
    ∃ res, gatherAppend (m + 1) (numbered c es) = .ok res := by
  induction es generalizing c m with
  | nil => exact ⟨_, rfl⟩
  | cons e es ih =>
    simp only [List.length_cons] at hc
    simp only [numbered, gatherAppend]
    rcases Nat.eq_or_lt_of_le hcm with rfl | hlt
    · rw [if_pos (by omega), if_neg (by simp), checked_add, if_pos (by omega)]
      dsimp only
      obtain ⟨res, hres⟩ := ih (c := c + 1) le_rfl (by omega) (by omega)
      rw [hres]
      exact ⟨_, rfl⟩
    · rw [if_neg (by omega)]
      exact ih (by omega) hm (by omega)

/-- The commit index a follower takes over, when it is new to it. -/
def takenCommit (l : List (Entry α)) (last_committed leader_commit : Nat) : Option Nat :=
  if leader_commit > last_committed then some (min leader_commit l.length) else none

/-- The node after the one write of `reconcile_log`: what it holds, and which
states of the disk the write went through. -/
structure Appended (n : RaftNode α Follower) (l es : List (Entry α)) (leader_commit : Nat)
    (n' : RaftNode α Follower) : Prop where
  log : Uncompacted n'.disk (l ++ es)
  node_id : n'.node_id = n.node_id
  last_applied : n'.last_applied = n.last_applied
  state : n'.state = n.state
  hard_state : n'.disk.key_hard_state = n.disk.key_hard_state
  last_committed : n'.last_committed =
    (takenCommit (l ++ es) n.last_committed leader_commit).getD n.last_committed
  disk_committed : n'.disk.key_last_committed =
    (takenCommit (l ++ es) n.last_committed leader_commit).or n.disk.key_last_committed
  past : ∀ d ∈ n'.log_store.past, d ∈ n.log_store.past ∨ d = n.disk ∨
    d = n.disk.append_entries (numbered l.length es)

theorem RaftNode.persistAppend_view {n : RaftNode α Follower} (h : Uncompacted n.disk l)
    (es : List (Entry α)) (leader_commit : Nat) :
    Appended n l es leader_commit (n.persistAppend (numbered l.length es) leader_commit) := by
  have hlast : ((numbered l.length es).getLast?.map LogEntry.index).getD n.last_log_index =
      (l ++ es).length := by
    rw [RaftNode.last_log_index_view h]
    by_cases hes : es = []
    · subst hes
      simp [numbered]
    · rw [numbered_last_index _ hes]
      simp
  have hemp : (numbered l.length es).isEmpty = es.isEmpty := by
    cases es <;> rfl
  have htaken : ∀ commit, takenCommit (l ++ es) n.last_committed leader_commit = commit →
      (if leader_commit > n.last_committed then some (min leader_commit (l ++ es).length)
        else none) = commit := fun _ h => h
  unfold RaftNode.persistAppend
  rw [hlast, hemp]
  cases hes : es.isEmpty with
  | true =>
    obtain rfl := List.isEmpty_iff.mp hes
    cases htc : takenCommit (l ++ []) n.last_committed leader_commit with
    | none =>
      rw [htaken none htc]
      dsimp only
      refine ⟨by simpa using h, rfl, rfl, rfl, rfl, by rw [htc]; rfl, by rw [htc]; rfl, ?_⟩
      exact fun d hd => .inl hd
    | some commit =>
      rw [htaken _ htc]
      dsimp only
      refine ⟨by rw [List.append_nil]; exact h.save_last_committed commit, rfl, rfl, rfl, rfl,
        by rw [htc]; rfl, by rw [htc]; rfl, ?_⟩
      intro d hd
      rcases List.mem_cons.mp hd with rfl | hd
      · exact .inr (.inl rfl)
      · exact .inl hd
  | false =>
    cases htc : takenCommit (l ++ es) n.last_committed leader_commit with
    | none =>
      rw [htaken none htc]
      dsimp only
      refine ⟨h.append_entries es, rfl, rfl, rfl, rfl, by rw [htc]; rfl, by rw [htc]; rfl, ?_⟩
      intro d hd
      rcases List.mem_cons.mp hd with rfl | hd
      · exact .inr (.inl rfl)
      · exact .inl hd
    | some commit =>
      rw [htaken _ htc]
      dsimp only
      refine ⟨(h.append_entries es).save_last_committed commit, rfl, rfl, rfl, rfl,
        by rw [htc]; rfl, by rw [htc]; rfl, ?_⟩
      intro d hd
      rcases List.mem_cons.mp hd with rfl | hd
      · exact .inr (.inr rfl)
      rcases List.mem_cons.mp hd with rfl | hd
      · exact .inr (.inl rfl)
      · exact .inl hd

/-- The node `n₁` and its log `l₁` after the first loop. -/
def Cut (n : RaftNode α Follower) (l : List (Entry α)) (b : Nat) (es : List (Entry α))
    (n₁ : RaftNode α Follower) (l₁ : List (Entry α)) : Prop :=
  (n₁ = n ∧ l₁ = l ∧ AgreeBelow l b es es.length) ∨
    ∃ i a e, l[b + i]? = some a ∧ es[i]? = some e ∧ a.term ≠ e.term ∧ AgreeBelow l b es i ∧
      n₁ = n.truncate_log (b + i + 1) ∧ l₁ = l.take (b + i)

theorem Cut.view {n n₁ : RaftNode α Follower} {l₁ : List (Entry α)} {b : Nat}
    {es : List (Entry α)} (h : Uncompacted n.disk l) (hcut : Cut n l b es n₁ l₁) :
    Uncompacted n₁.disk l₁ := by
  rcases hcut with ⟨rfl, rfl, -⟩ | ⟨i, a, e, -, -, -, -, rfl, rfl⟩
  · exact h
  · exact h.truncate_log (b + i)

/-- The log holds the entry the leader says stands before the new ones. -/
def Consistent (l : List (Entry α)) (prev_log_index prev_log_term : Nat) : Prop :=
  prev_log_index = 0 ∨ prev_log_index ≤ l.length ∧ termAt l prev_log_index = prev_log_term

theorem Consistent.le_length {b t : Nat} (h : Consistent l b t) : b ≤ l.length := by
  rcases h with rfl | h
  · exact Nat.zero_le _
  · exact h.1

theorem Cut.le_length {n n₁ : RaftNode α Follower} {l₁ : List (Entry α)} {b : Nat}
    {es : List (Entry α)} (hcut : Cut n l b es n₁ l₁) (hb : b ≤ l.length) : b ≤ l₁.length := by
  rcases hcut with ⟨-, rfl, -⟩ | ⟨i, a, e, ha, -, -, -, -, rfl⟩
  · exact hb
  · have := (List.getElem?_eq_some_iff.mp ha).1
    rw [List.length_take]
    omega

theorem Cut.length_le {n n₁ : RaftNode α Follower} {l₁ : List (Entry α)} {b : Nat}
    {es : List (Entry α)} (hcut : Cut n l b es n₁ l₁) : l₁.length ≤ l.length := by
  rcases hcut with ⟨-, rfl, -⟩ | ⟨i, a, e, -, -, -, -, -, rfl⟩
  · exact le_rfl
  · simp

/-- The first loop stops in front of the first term behind `b` that differs. -/
theorem Cut.reach {n n₁ : RaftNode α Follower} {f g l₁ : List (Entry α)} {b : Nat}
    (hcut : Cut n f b (g.drop b) n₁ l₁) {i : Nat} (hif : i ≤ f.length) (hig : i ≤ g.length) :
    i ≤ l₁.length ↔ ∀ j, b < j → j ≤ i → termAt f j = termAt g j := by
  have hbelow : ∀ m, AgreeBelow f b (g.drop b) m → i ≤ b + m →
      ∀ j, b < j → j ≤ i → termAt f j = termAt g j := by
    intro m hag him j hbj hji
    obtain ⟨k, rfl⟩ : ∃ k, j = b + k + 1 := ⟨j - b - 1, by omega⟩
    have hx : f[b + k]? = some f[b + k] := List.getElem?_eq_getElem (by omega)
    have hy : g[b + k]? = some g[b + k] := List.getElem?_eq_getElem (by omega)
    rw [termAt_of_getElem? hx, termAt_of_getElem? hy]
    exact hag k _ _ (by omega) hx (by rw [List.getElem?_drop, hy])
  rcases hcut with ⟨-, rfl, hag⟩ | ⟨m, x, y, hx, hy, hne, hag, -, rfl⟩
  · refine ⟨fun _ => hbelow _ hag ?_, fun _ => hif⟩
    rw [List.length_drop]
    omega
  · have hlt := (List.getElem?_eq_some_iff.mp hx).1
    rw [List.length_take]
    constructor
    · intro hle
      exact hbelow m hag (by omega)
    · intro hterms
      by_contra hgt
      rw [List.getElem?_drop] at hy
      have heq := hterms (b + m + 1) (by omega) (by omega)
      rw [termAt_of_getElem? hx, termAt_of_getElem? hy] at heq
      exact hne heq

theorem Cut.isPrefix {n n₁ : RaftNode α Follower} {f l₁ es : List (Entry α)} {b : Nat}
    (hcut : Cut n f b es n₁ l₁) : l₁ <+: f := by
  rcases hcut with ⟨-, rfl, -⟩ | ⟨i, -, -, -, -, -, -, -, rfl⟩
  · exact List.prefix_rfl
  · exact List.take_prefix _ _

theorem RaftNode.truncateConflict_cut {n : RaftNode α Follower} (h : Uncompacted n.disk l)
    (hpos : ∀ e ∈ l, 0 < e.term) (b : Nat) (es : List (Entry α)) :
    ∃ l₁, Cut n l b es (n.truncateConflict (numbered b es)) l₁ := by
  rcases RaftNode.truncateConflict_cases h hpos b es with ⟨heq, hag⟩ |
    ⟨i, a, e, ha, he, hne, hag, heq⟩
  · exact ⟨l, .inl ⟨heq, rfl, hag⟩⟩
  · exact ⟨_, .inr ⟨i, a, e, ha, he, hne, hag, heq, rfl⟩⟩

/-- Everything `reconcile_log` can do with the entries that follow index `b`. -/
inductive Reconciled (n : RaftNode α Follower) (l : List (Entry α)) (b t : Nat)
    (es : List (Entry α)) (leader_commit : Nat) :
    RaftNode α Follower × Except NodeError ReconciliationResult → Prop where
  | rejected (hno : ¬Consistent l b t) :
      Reconciled n l b t es leader_commit (n, .ok ⟨false, l.length⟩)
  | failed (n₁ : RaftNode α Follower) (l₁ : List (Entry α)) (e : NodeError)
      (hcons : Consistent l b t) (hcut : Cut n l b es n₁ l₁) :
      Reconciled n l b t es leader_commit (n₁, .error e)
  | done (n₁ n₂ : RaftNode α Follower) (l₁ : List (Entry α)) (hcons : Consistent l b t)
      (hcut : Cut n l b es n₁ l₁)
      (happ : Appended n₁ l₁ (es.drop (l₁.length - b)) leader_commit n₂) :
      Reconciled n l b t es leader_commit
        (n₂, .ok ⟨true, (l₁ ++ es.drop (l₁.length - b)).length⟩)

theorem RaftNode.reconcile_log_cases {n : RaftNode α Follower} (h : Uncompacted n.disk l)
    (hpos : ∀ e ∈ l, 0 < e.term) (b t : Nat) (es : List (Entry α)) (leader_commit : Nat) :
    Reconciled n l b t es leader_commit
      (n.reconcile_log b t (numbered b es) leader_commit) := by
  unfold RaftNode.reconcile_log
  split
  · rename_i hno
    rw [RaftNode.last_log_index_view h]
    refine .rejected ?_
    intro hyes
    rw [(RaftNode.verify_log_consistency_view h b t).mpr hyes] at hno
    cases hno
  · rename_i hyes
    have hcons : Consistent l b t :=
      (RaftNode.verify_log_consistency_view h b t).mp (by simpa using hyes)
    obtain ⟨l₁, hcut⟩ := RaftNode.truncateConflict_cut h hpos b es
    have hview := hcut.view h
    have hlen := hcut.le_length hcons.le_length
    dsimp only
    rw [RaftNode.last_log_index_view hview]
    cases hadd : checked_add "LogIndex" l₁.length 1 with
    | error e => exact .failed _ l₁ _ hcons hcut
    | ok next =>
      obtain ⟨rfl, -⟩ := checked_add_ok hadd
      dsimp only
      cases hgather : gatherAppend (l₁.length + 1) (numbered b es) with
      | error e => exact .failed _ l₁ _ hcons hcut
      | ok r =>
        obtain rfl := gatherAppend_view es hlen hgather
        dsimp only
        have happ := RaftNode.persistAppend_view hview (es.drop (l₁.length - b)) leader_commit
        rw [RaftNode.last_log_index_view happ.log]
        exact .done _ _ l₁ hcons hcut happ

/-! ## Reconciliation with a log that matches -/

/-- Where the two logs have an entry of the same term, they are the same up to there. -/
def LogsMatch (l g : List (Entry α)) : Prop :=
  ∀ i x y, l[i]? = some x → g[i]? = some y → x.term = y.term → l.take (i + 1) = g.take (i + 1)

/-- A log that agrees in its terms with a window of a matching one is the same up to there. -/
theorem agree_window {l g : List (Entry α)} (hmatch : LogsMatch l g) {b i m : Nat}
    (hcons : Consistent l b (termAt g b)) (hag : AgreeBelow l b ((g.take m).drop b) i)
    (hil : b + i ≤ l.length) (him : b + i ≤ m) (hm : m ≤ g.length) :
    l.take (b + i) = g.take (b + i) := by
  cases i with
  | zero =>
    rcases hcons with rfl | ⟨-, hterm⟩
    · simp
    cases b with
    | zero => simp
    | succ k =>
      have hx : l[k]? = some l[k] := List.getElem?_eq_getElem (by omega)
      have hy : g[k]? = some g[k] := List.getElem?_eq_getElem (by omega)
      rw [termAt_of_getElem? hx, termAt_of_getElem? hy] at hterm
      exact hmatch k _ _ hx hy hterm
  | succ i =>
    have hx : l[b + i]? = some l[b + i] := List.getElem?_eq_getElem (by omega)
    have hy : g[b + i]? = some g[b + i] := List.getElem?_eq_getElem (by omega)
    apply hmatch (b + i) _ _ hx hy
    apply hag i _ _ (by omega) hx
    rw [List.getElem?_drop, List.getElem?_take_of_lt (by omega), hy]

/-- What the first loop leaves is a part of the window, or goes past it. -/
theorem Cut.agrees {l g l₁ : List (Entry α)} (hmatch : LogsMatch l g) {b m : Nat}
    (hb : b ≤ m) (hm : m ≤ g.length) (hcons : Consistent l b (termAt g b))
    {n n₁ : RaftNode α Follower} (hcut : Cut n l b ((g.take m).drop b) n₁ l₁) :
    l₁ <+: g.take m ∨ g.take m <+: l₁ := by
  have hbl := hcons.le_length
  rcases hcut with ⟨-, rfl, hag⟩ | ⟨i, x, y, hx, hy, -, hag, -, rfl⟩
  · have hwin : ((g.take m).drop b).length = m - b := by
      rw [List.length_drop, List.length_take]
      omega
    have hag' : ∀ i, i ≤ m - b → AgreeBelow l₁ b ((g.take m).drop b) i := by
      intro i hi j x y hj
      exact hag j x y (by omega)
    rcases Nat.le_total l₁.length m with hle | hle
    · left
      have heq := agree_window hmatch hcons (hag' (l₁.length - b) (by omega)) (by omega)
        (by omega) hm
      rw [show b + (l₁.length - b) = l₁.length by omega, List.take_of_length_le le_rfl] at heq
      rw [heq]
      exact List.take_prefix_take_left hle
    · right
      have heq := agree_window hmatch hcons (hag' (m - b) le_rfl) (by omega) (by omega) hm
      rw [show b + (m - b) = m by omega] at heq
      rw [← heq]
      exact List.take_prefix _ _
  · left
    rw [List.getElem?_drop] at hy
    have hlt : b + i < m := by
      have := (List.getElem?_eq_some_iff.mp hy).1
      rw [List.length_take] at this
      omega
    have hxl := (List.getElem?_eq_some_iff.mp hx).1
    rw [agree_window hmatch hcons hag (by omega) (by omega) hm]
    exact List.take_prefix_take_left (by omega)

/-- After the append the log is the window, or it went past it before. -/
theorem append_window {l w : List (Entry α)} {b : Nat} (hb : b ≤ l.length)
    (hor : l <+: w ∨ w <+: l) :
    (l <+: w ∧ l ++ (w.drop b).drop (l.length - b) = w) ∨
      (w <+: l ∧ l ++ (w.drop b).drop (l.length - b) = l) := by
  have hdrop : (w.drop b).drop (l.length - b) = w.drop l.length := by
    rw [List.drop_drop]
    congr 1
    omega
  rw [hdrop]
  rcases hor with hpre | hpre
  · left
    refine ⟨hpre, ?_⟩
    obtain ⟨r, rfl⟩ := hpre
    rw [List.drop_left]
  · right
    refine ⟨hpre, ?_⟩
    rw [List.drop_of_length_le hpre.length_le, List.append_nil]

end raft_engine.node
