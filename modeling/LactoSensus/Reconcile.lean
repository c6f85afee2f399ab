-- What the follower makes of an append: over a log with a horizon it is the
-- merge of the log with the entries of the request, as long as the index counter
-- does not run out. The commit index is capped by the end of the merged log,
-- which can lie behind what the request has shown.
import LactoSensus.HorizonLog
import LactoSensus.Lib.Raft.Merge

open common.types
open journal
open ordmap
open raft_engine.storage
open raft (Entry merge firstDiff)

namespace raft_engine.node

variable {α R : Type} {s : SledStorage α} {h d : Nat} {l es : List (Entry α)}

/-! ## A log above its horizon -/

/-- The store has the horizon `h`, and after it exactly the entries of the list. -/
structure Windowed (s : SledStorage α) (h : Nat) (l : List (Entry α)) : Prop where
  horizon : s.last_included_index = h
  get? : ∀ k, s.log.get? k =
    if h < k then l[k - h - 1]?.map fun e => ⟨k, e.term, e.data⟩ else none

theorem Windowed.get_ne_none (hw : Windowed s h l) (k : Nat) :
    s.log.get? k ≠ none ↔ h < k ∧ k ≤ h + l.length := by
  rw [hw.get?]
  split
  · rw [Ne, Option.map_eq_none_iff, List.getElem?_eq_none_iff]
    omega
  · simp
    omega

theorem Windowed.last_log_index (hw : Windowed s h l) : s.last_log_index = h + l.length := by
  apply last_log_index_unique
  · rw [hw.horizon]
    omega
  · exact fun k hk => ((hw.get_ne_none k).mp hk).2
  · rw [hw.horizon, hw.get_ne_none]
    omega

theorem Windowed.of_log_eq (hw : Windowed s h l) {s' : SledStorage α} (hlog : s'.log = s.log)
    (hindex : s'.key_snapshot_index = s.key_snapshot_index) : Windowed s' h l := by
  refine ⟨?_, by rw [hlog]; exact hw.get?⟩
  rw [SledStorage.last_included_index, hindex]
  exact hw.horizon

theorem Windowed.truncate (hw : Windowed s h l) (i : Nat) :
    Windowed (s.truncate_log (h + i + 1)) h (l.take i) := by
  refine ⟨(truncate_log_horizon _ _).trans hw.horizon, fun k => ?_⟩
  rw [truncate_log_get?, hw.get?]
  by_cases hk : h < k
  · rw [if_pos hk, if_pos hk]
    by_cases hik : h + i + 1 ≤ k
    · rw [if_pos hik, List.getElem?_take_eq_none (by omega)]
      rfl
    · rw [if_neg hik, List.getElem?_take_of_lt (by omega)]
  · rw [if_neg hk, if_neg hk, if_neg (by omega)]

theorem Windowed.append (hw : Windowed s h l) (es : List (Entry α)) :
    Windowed (s.append_entries (numbered (h + l.length) es)) h (l ++ es) := by
  refine ⟨hw.horizon, fun k => ?_⟩
  simp only [SledStorage.append_entries, insertAll_numbered, hw.get?]
  by_cases hk : h < k
  · rw [if_pos hk, if_pos hk]
    by_cases hlast : h + l.length < k
    · rw [if_pos hlast, List.getElem?_append_right (by omega),
        List.getElem?_eq_none (l := l) (by omega)]
      rw [show k - (h + l.length) - 1 = k - h - 1 - l.length by omega]
      simp
    · rw [if_neg hlast, List.getElem?_append_left (by omega)]
  · rw [if_neg hk, if_neg (by omega), if_neg hk]

/-- A cut touches the tree of entries only. -/
theorem truncate_log_meta (s : SledStorage α) (i : Nat) :
    s.truncate_log i = { s with log := (s.truncate_log i).log } := by
  unfold SledStorage.truncate_log
  dsimp only
  split <;> rfl

variable {n : RaftNode α Follower}

theorem Windowed.term_in (hw : Windowed n.disk h l) (i : Nat) :
    n.get_term_at (h + i + 1) = (l[i]?.map Entry.term).getD 0 := by
  unfold RaftNode.get_term_at SledStorage.read_entry
  rw [if_neg (by omega), if_neg (by rw [RaftNode.last_included_index, hw.horizon]; omega),
    hw.get?, if_pos (by omega), show h + i + 1 - h - 1 = i by omega, Option.map_map]
  rfl

/-- The first loop cuts where the merge does. -/
theorem Windowed.truncateConflict (hw : Windowed n.disk h l) (hpos : ∀ e ∈ l, 0 < e.term)
    (d : Nat) (es : List (Entry α)) :
    n.truncateConflict (numbered (h + d) es) =
      match firstDiff (l.drop d) es with
      | some i => n.truncate_log (h + (d + i) + 1)
      | none => n := by
  induction es generalizing d with
  | nil => rw [raft.firstDiff_nil_right]; rfl
  | cons e es ih =>
    simp only [numbered, RaftNode.truncateConflict, hw.term_in]
    have ih' := ih (d + 1)
    rw [← Nat.add_assoc] at ih'
    cases ha : l[d]? with
    | none =>
      have hdrop : ∀ d', d ≤ d' → l.drop d' = [] := by
        intro d' hd'
        have := List.getElem?_eq_none_iff.mp ha
        exact List.drop_eq_nil_of_le (by omega)
      rw [if_neg (by simp), ih', hdrop d le_rfl, hdrop (d + 1) (by omega),
        raft.firstDiff_nil_left, raft.firstDiff_nil_left]
    | some a =>
      have hlt := (List.getElem?_eq_some_iff.mp ha).1
      have hdrop : l.drop d = a :: l.drop (d + 1) := by
        rw [List.drop_eq_getElem_cons hlt, (List.getElem?_eq_some_iff.mp ha).2]
      have hterm := hpos a (List.mem_of_getElem? ha)
      rw [hdrop, raft.firstDiff]
      simp only [Option.map_some, Option.getD_some]
      by_cases heq : a.term = e.term
      · rw [if_neg (by simp [heq]), if_pos heq, ih']
        cases firstDiff (l.drop (d + 1)) es with
        | none => rfl
        | some i =>
          change n.truncate_log (h + (d + 1 + i) + 1) = n.truncate_log (h + (d + (i + 1)) + 1)
          rw [Nat.add_assoc d 1 i, Nat.add_comm 1 i]
      · rw [if_pos ⟨by omega, heq⟩, if_neg heq]
        rfl

/-- What the follower takes over as committed. -/
def capped (last_committed leader_commit last : Nat) : Nat :=
  if leader_commit > last_committed then min leader_commit last else last_committed

/-- The node after the one write. -/
structure Written (n : RaftNode α Follower) (h : Nat) (l : List (Entry α)) (leader_commit : Nat)
    (n' : RaftNode α Follower) : Prop where
  log : Windowed n'.disk h l
  index : n'.disk.key_snapshot_index = n.disk.key_snapshot_index
  term : n'.disk.key_snapshot_term = n.disk.key_snapshot_term
  hard_state : n'.disk.key_hard_state = n.disk.key_hard_state
  last_committed : n'.last_committed = capped n.last_committed leader_commit (h + l.length)
  disk_committed : n'.disk.key_last_committed =
    if leader_commit > n.last_committed then some (min leader_commit (h + l.length))
    else n.disk.key_last_committed
  last_applied : n'.last_applied = n.last_applied
  state : n'.state = n.state
  node_id : n'.node_id = n.node_id

theorem Windowed.persistAppend (hw : Windowed n.disk h l) (es : List (Entry α))
    (leader_commit : Nat) :
    Written n h (l ++ es) leader_commit
      (n.persistAppend (numbered (h + l.length) es) leader_commit) := by
  have hlast : ((numbered (h + l.length) es).getLast?.map LogEntry.index).getD n.last_log_index =
      h + (l ++ es).length := by
    rw [RaftNode.last_log_index, hw.last_log_index]
    by_cases hes : es = []
    · subst hes
      simp [numbered]
    · rw [numbered_last_index _ hes]
      simp
      omega
  have hemp : (numbered (h + l.length) es).isEmpty = es.isEmpty := by
    cases es <;> rfl
  have happ := hw.append es
  unfold RaftNode.persistAppend
  rw [hlast, hemp]
  by_cases hgt : leader_commit > n.last_committed
  · rw [if_pos hgt]
    have hcap : min leader_commit (h + (l ++ es).length) =
        capped n.last_committed leader_commit (h + (l ++ es).length) := (if_pos hgt).symm
    cases hes : es.isEmpty with
    | true =>
      obtain rfl := List.isEmpty_iff.mp hes
      rw [List.append_nil] at hcap ⊢
      exact ⟨hw.of_log_eq rfl rfl, rfl, rfl, rfl, hcap, (if_pos hgt).symm, rfl, rfl, rfl⟩
    | false =>
      exact ⟨happ.of_log_eq rfl rfl, rfl, rfl, rfl, hcap, (if_pos hgt).symm, rfl, rfl, rfl⟩
  · rw [if_neg hgt]
    have hcap : n.last_committed =
        capped n.last_committed leader_commit (h + (l ++ es).length) := (if_neg hgt).symm
    cases hes : es.isEmpty with
    | true =>
      obtain rfl := List.isEmpty_iff.mp hes
      rw [List.append_nil] at hcap ⊢
      exact ⟨hw, rfl, rfl, rfl, hcap, (if_neg hgt).symm, rfl, rfl, rfl⟩
    | false => exact ⟨happ, rfl, rfl, rfl, hcap, (if_neg hgt).symm, rfl, rfl, rfl⟩

/-! ## The merge -/

/-- The log has the entry that the request continues. -/
def Continues (n : RaftNode α R) (prev_log_index prev_log_term : Nat) : Prop :=
  prev_log_index = 0 ∨
    prev_log_index ≤ n.last_log_index ∧ n.get_term_at prev_log_index = prev_log_term

theorem verify_log_consistency_iff (n : RaftNode α Follower) (b t : Nat) :
    n.verify_log_consistency b t = true ↔ Continues n b t := by
  unfold RaftNode.verify_log_consistency Continues
  split_ifs with hzero hgt
  · simp [hzero]
  · simp only [false_iff]
    omega
  · simp [hzero, not_lt.mp hgt]

theorem reconcile_log_mismatch {b t leader_commit : Nat} (entries : List (LogEntry α))
    (hno : ¬Continues n b t) :
    n.reconcile_log b t entries leader_commit = (n, .ok ⟨false, n.last_log_index⟩) := by
  rw [← verify_log_consistency_iff, Bool.not_eq_true] at hno
  unfold RaftNode.reconcile_log
  rw [if_pos hno]

/-- From the end of the first loop on: the entries past the log are appended. -/
theorem Windowed.appendRest (hw : Windowed n.disk h l) {b : Nat} (hb : b ≤ h + l.length)
    (es : List (Entry α)) (leader_commit : Nat)
    (hbound : h + (l ++ es.drop (h + l.length - b)).length < u64Max) :
    ∃ to_append, checked_add "LogIndex" n.last_log_index 1 = .ok (h + l.length + 1) ∧
      gatherAppend (h + l.length + 1) (numbered b es) = .ok (some to_append) ∧
      Written n h (l ++ es.drop (h + l.length - b)) leader_commit
        (n.persistAppend to_append leader_commit) := by
  rw [List.length_append, List.length_drop] at hbound
  have hlast : n.last_log_index = h + l.length := hw.last_log_index
  obtain ⟨res, hres⟩ := gatherAppend_ok es hb (by omega) (by omega)
  obtain rfl := gatherAppend_view es hb hres
  refine ⟨_, ?_, hres, hw.persistAppend _ leader_commit⟩
  rw [hlast]
  exact if_pos (by omega)

theorem reconcile_log_merges (hw : Windowed n.disk h l) (hpos : ∀ e ∈ l, 0 < e.term) {b t : Nat}
    (hb : h ≤ b) (es : List (Entry α)) (leader_commit : Nat) (hcont : Continues n b t)
    (hbound : h + (merge l (b - h) es).length < u64Max) :
    ∃ n', n.reconcile_log b t (numbered b es) leader_commit =
        (n', .ok ⟨true, h + (merge l (b - h) es).length⟩) ∧
      Written n h (merge l (b - h) es) leader_commit n' := by
  obtain ⟨d, rfl⟩ := Nat.exists_eq_add_of_le hb
  have hlast : n.last_log_index = h + l.length := hw.last_log_index
  have hd : h + d ≤ h + l.length := by
    rcases hcont with hzero | ⟨hle, -⟩ <;> omega
  have hverify := (verify_log_consistency_iff n (h + d) t).mpr hcont
  rw [Nat.add_sub_cancel_left] at hbound ⊢
  unfold RaftNode.reconcile_log
  rw [if_neg (by simp [hverify])]
  dsimp only
  rw [hw.truncateConflict hpos d es]
  cases hdiff : firstDiff (l.drop d) es with
  | none =>
    have hdrop : h + l.length - (h + d) = l.length - d := by omega
    rw [raft.merge_of_agree hdiff, ← hdrop] at hbound ⊢
    obtain ⟨to_append, hadd, hgather, hwritten⟩ := hw.appendRest hd es leader_commit hbound
    simp only [hadd, hgather]
    refine ⟨_, ?_, hwritten⟩
    rw [RaftNode.last_log_index, hwritten.log.last_log_index]
  | some i =>
    obtain ⟨hil, -⟩ := raft.firstDiff_lt hdiff
    have hcut : Windowed (n.truncate_log (h + (d + i) + 1)).disk h (l.take (d + i)) :=
      hw.truncate (d + i)
    have hlen : (l.take (d + i)).length = d + i := List.length_take_of_le hil.le
    have hdrop : h + (l.take (d + i)).length - (h + d) = i := by omega
    rw [raft.merge_of_differ hdiff] at hbound ⊢
    obtain ⟨to_append, hadd, hgather, hwritten⟩ := hcut.appendRest (b := h + d) (by omega) es
      leader_commit (by rw [hdrop]; exact hbound)
    rw [hdrop] at hwritten
    simp only [hadd, hgather]
    have hmeta : (n.truncate_log (h + (d + i) + 1)).disk =
        { n.disk with log := (n.truncate_log (h + (d + i) + 1)).disk.log } :=
      truncate_log_meta _ _
    refine ⟨_, ?_, ⟨hwritten.log, ?_, ?_, ?_, hwritten.last_committed, ?_, hwritten.last_applied,
      hwritten.state, hwritten.node_id⟩⟩
    · rw [RaftNode.last_log_index, hwritten.log.last_log_index]
    · rw [hwritten.index, hmeta]
    · rw [hwritten.term, hmeta]
    · rw [hwritten.hard_state, hmeta]
    · rw [hwritten.disk_committed, hmeta]
      rfl

theorem capped_le {last_committed leader_commit last : Nat} (hle : last_committed ≤ last) :
    capped last_committed leader_commit last = max last_committed (min leader_commit last) := by
  unfold capped
  split <;> omega

theorem merge_positive (hpos : ∀ e ∈ l, 0 < e.term) (hes : ∀ e ∈ es, 0 < e.term) :
    ∀ e ∈ merge l d es, 0 < e.term := by
  intro e he
  cases hdiff : firstDiff (l.drop d) es with
  | none =>
    rw [raft.merge_of_agree hdiff] at he
    rcases List.mem_append.mp he with hold | hnew
    · exact hpos e hold
    · exact hes e (List.mem_of_mem_drop hnew)
  | some i =>
    rw [raft.merge_of_differ hdiff] at he
    rcases List.mem_append.mp he with hold | hnew
    · exact hpos e (List.mem_of_mem_take hold)
    · exact hes e (List.mem_of_mem_drop hnew)

/-- A request whose entries the log has, with their terms, leaves the log as it is. -/
theorem reconcile_log_known (hw : Windowed n.disk h l) (hpos : ∀ e ∈ l, 0 < e.term)
    (hcommitted : n.last_committed ≤ h + l.length) (hfull : h + l.length < u64Max) {b : Nat}
    (t : Nat) (hb : h ≤ b) (leader_commit : Nat)
    (hagree : firstDiff (l.drop (b - h)) es = none)
    (hlen : b ≤ h + l.length → b - h + es.length ≤ l.length) :
    n.reconcile_log b t (numbered b es) leader_commit = (n, .ok ⟨false, h + l.length⟩) ∨
      ∃ n', n.reconcile_log b t (numbered b es) leader_commit = (n', .ok ⟨true, h + l.length⟩) ∧
        Written n h l leader_commit n' ∧ n.last_committed ≤ n'.last_committed := by
  have hlast : n.last_log_index = h + l.length := hw.last_log_index
  by_cases hcont : Continues n b t
  · have hbl : b ≤ h + l.length := by
      rcases hcont with hzero | ⟨hle, -⟩ <;> omega
    have hknown : merge l (b - h) es = l := raft.merge_known hagree (hlen hbl)
    obtain ⟨n', heq, hwritten⟩ := reconcile_log_merges hw hpos hb es leader_commit hcont
      (by rw [hknown]; exact hfull)
    rw [hknown] at heq hwritten
    refine .inr ⟨n', heq, hwritten, ?_⟩
    rw [hwritten.last_committed, capped_le hcommitted]
    exact Nat.le_max_left _ _
  · rw [reconcile_log_mismatch _ hcont, hlast]
    exact .inl rfl

/-- After a merge the log has the window, with its terms. -/
theorem firstDiff_merged (hd : d ≤ l.length) : firstDiff ((merge l d es).drop d) es = none := by
  refine raft.firstDiff_none_iff.mpr fun j x y hx hy => ?_
  obtain ⟨x', hx', hterm⟩ := raft.merge_window hd hy
  rw [List.getElem?_drop, hx'] at hx
  rw [← Option.some.inj hx]
  exact hterm

/-- A window of a log that the merged one agrees with, up to where it does. -/
theorem firstDiff_delayed {g : List (Entry α)} {e₁ e₂ d' : Nat} (hd : d ≤ l.length)
    (hes : es = (g.take e₁).drop d)
    (hbelow : ∀ k x y, k < d → l[k]? = some x → g[k]? = some y → x.term = y.term)
    (he : e₂ ≤ e₁) : firstDiff ((merge l d es).drop d') ((g.take e₂).drop d') = none := by
  refine raft.firstDiff_none_iff.mpr fun j x y hx hy => ?_
  rw [List.getElem?_drop] at hx hy
  have hlt : d' + j < e₂ := by
    have := (List.getElem?_eq_some_iff.mp hy).1
    rw [List.length_take] at this
    omega
  rw [List.getElem?_take_of_lt hlt] at hy
  by_cases hk : d' + j < d
  · refine hbelow (d' + j) x y hk ?_ hy
    rw [← List.getElem?_take_of_lt hk, ← raft.merge_below hd,
      List.getElem?_take_of_lt hk]
    exact hx
  · have hwindow : es[d' + j - d]? = some y := by
      rw [hes, List.getElem?_drop, show d + (d' + j - d) = d' + j by omega,
        List.getElem?_take_of_lt (by omega)]
      exact hy
    obtain ⟨x', hx', hterm⟩ := raft.merge_window hd hwindow
    rw [show d + (d' + j - d) = d' + j by omega, hx] at hx'
    rw [Option.some.inj hx']
    exact hterm

/-- What a request leaves that the log does continue. -/
structure MergedInto (n : RaftNode α Follower) (h : Nat) (l : List (Entry α))
    (leader_commit : Nat) (r : RaftNode α Follower × Except NodeError ReconciliationResult) :
    Prop where
  answer : r.2 = .ok ⟨true, h + l.length⟩
  log : Windowed r.1.disk h l
  last_committed : r.1.last_committed = max n.last_committed (min leader_commit (h + l.length))

/-- The same request once more changes nothing. -/
def Repeatable (r : RaftNode α Follower × Except NodeError ReconciliationResult) (b t : Nat)
    (es : List (Entry α)) (leader_commit : Nat) : Prop :=
  ∃ again, r.1.reconcile_log b t (numbered b es) leader_commit = (again, r.2) ∧
    again.disk = r.1.disk ∧ again.last_committed = r.1.last_committed

/-- A request that was cut from the first `m` entries that the leader has above the horizon,
and comes late, neither shortens the log nor lowers the commit index. -/
def OutlastsDelayed (n : RaftNode α Follower) (h : Nat) (l g : List (Entry α)) (m : Nat) : Prop :=
  ∀ e b t leader_commit, e ≤ m → h ≤ b →
    Windowed (n.reconcile_log b t (numbered b ((g.take e).drop (b - h))) leader_commit).1.disk
        h l ∧
      n.last_committed ≤
        (n.reconcile_log b t (numbered b ((g.take e).drop (b - h))) leader_commit).1.last_committed

theorem Written.again {n' n'' : RaftNode α Follower} {leader_commit : Nat}
    (hw : Written n h l leader_commit n') (hw' : Written n' h l leader_commit n'')
    (hcommitted : n.last_committed ≤ h + l.length) :
    n''.disk = n'.disk ∧ n''.last_committed = n'.last_committed := by
  have hcap := hw.last_committed
  rw [capped_le hcommitted] at hcap
  have hcap' := hw'.last_committed
  rw [capped_le (by omega)] at hcap'
  have hlog : n''.disk.log = n'.disk.log := by
    ext1 k
    rw [hw'.log.get?, hw.log.get?]
  have hkey : n''.disk.key_last_committed = n'.disk.key_last_committed := by
    rw [hw'.disk_committed, hw.disk_committed]
    split_ifs <;> first | rfl | omega
  refine ⟨?_, by omega⟩
  obtain ⟨hindex, hterm, hhard⟩ := And.intro hw'.index (And.intro hw'.term hw'.hard_state)
  revert hlog hkey hindex hterm hhard
  cases n''.disk
  cases n'.disk
  rintro rfl rfl rfl rfl rfl
  rfl

/-- Up to where the lists agree the terms are as before. -/
theorem Written.term_at {n' : RaftNode α Follower} {l' : List (Entry α)} {leader_commit b : Nat}
    (hw' : Written n h l' leader_commit n') (hw : Windowed n.disk h l) (hb : h ≤ b)
    (htake : l'.take (b - h) = l.take (b - h)) : n'.get_term_at b = n.get_term_at b := by
  rcases Nat.eq_or_lt_of_le hb with rfl | hlt
  · have hindex' : n'.last_included_index = h := hw'.log.horizon
    have hindex : n.last_included_index = h := hw.horizon
    unfold RaftNode.get_term_at RaftNode.last_included_term SledStorage.last_included_term
    rw [hindex', hindex, if_pos rfl, if_pos rfl, hw'.term]
  · obtain ⟨i, rfl⟩ : ∃ i, b = h + i + 1 := ⟨b - h - 1, by omega⟩
    have hget : l'[i]? = l[i]? := by
      rw [← List.getElem?_take_of_lt (show i < h + i + 1 - h by omega), htake,
        List.getElem?_take_of_lt (by omega)]
    rw [hw'.log.term_in, hw.term_in, hget]

theorem Written.outlasts {n' : RaftNode α Follower} {leader_commit m b : Nat}
    {g : List (Entry α)} (hw : Written n h (merge l (b - h) es) leader_commit n')
    (hpos : ∀ e ∈ merge l (b - h) es, 0 < e.term) (hbl : b - h ≤ l.length)
    (hcommitted : n'.last_committed ≤ h + (merge l (b - h) es).length)
    (hfull : h + (merge l (b - h) es).length < u64Max) (hes : es = (g.take m).drop (b - h))
    (hbelow : ∀ k x y, k < b - h → l[k]? = some x → g[k]? = some y → x.term = y.term) :
    OutlastsDelayed n' h (merge l (b - h) es) g m := by
  intro e b' t leader_commit' he hb'
  have hlen : b - h + es.length ≤ (merge l (b - h) es).length := raft.le_merge_length hbl
  have hes' : es.length = min m g.length - (b - h) := by
    rw [hes, List.length_drop, List.length_take]
  have hshort : b' ≤ h + (merge l (b - h) es).length →
      b' - h + ((g.take e).drop (b' - h)).length ≤ (merge l (b - h) es).length := by
    intro hb
    rw [List.length_drop, List.length_take]
    have hold : l.length ≤ (merge l (b - h) es).length ∨ b - h + es.length =
        (merge l (b - h) es).length := by
      cases hdiff : firstDiff (l.drop (b - h)) es with
      | none =>
        rw [raft.merge_length_agree hdiff hbl]
        exact .inl (Nat.le_max_left _ _)
      | some i => exact .inr (raft.merge_length_differ hdiff).symm
    omega
  rcases reconcile_log_known hw.log hpos hcommitted hfull t hb' leader_commit'
      (firstDiff_delayed hbl hes hbelow he) hshort with heq | ⟨n'', heq, hwritten, hle⟩
  · rw [heq]
    exact ⟨hw.log, le_rfl⟩
  · rw [heq]
    exact ⟨hwritten.log, hle⟩

/-- An append is refused, and changes nothing, exactly when the log does not have the entry
that it continues. Otherwise the log becomes the merge with the entries of the request: cut
at the first one of another term and continued with the rest. -/
theorem reconcile_log_is_merge (hw : Windowed n.disk h l) (hpos : ∀ e ∈ l, 0 < e.term)
    (hcommitted : n.last_committed ≤ h + l.length) {b t : Nat} (hb : h ≤ b)
    (hes : ∀ e ∈ es, 0 < e.term) (leader_commit : Nat)
    (hsafe : ∀ i, firstDiff (l.drop (b - h)) es = some i → n.last_committed ≤ b + i)
    (hbound : Continues n b t → h + (merge l (b - h) es).length < u64Max) :
    ((n.reconcile_log b t (numbered b es) leader_commit).2 = .ok ⟨false, h + l.length⟩ ↔
      ¬Continues n b t) ∧
    (¬Continues n b t → (n.reconcile_log b t (numbered b es) leader_commit).1 = n) ∧
    (Continues n b t →
      MergedInto n h (merge l (b - h) es) leader_commit
        (n.reconcile_log b t (numbered b es) leader_commit) ∧
      Repeatable (n.reconcile_log b t (numbered b es) leader_commit) b t es leader_commit ∧
      ∀ (g : List (Entry α)) (m : Nat), es = (g.take m).drop (b - h) →
        (∀ k x y, k < b - h → l[k]? = some x → g[k]? = some y → x.term = y.term) →
        OutlastsDelayed (n.reconcile_log b t (numbered b es) leader_commit).1 h
          (merge l (b - h) es) g m) := by
  have hlast : n.last_log_index = h + l.length := hw.last_log_index
  by_cases hcont : Continues n b t
  swap
  · rw [reconcile_log_mismatch _ hcont, hlast]
    exact ⟨⟨fun _ => hcont, fun _ => rfl⟩, fun _ => rfl, fun h => absurd h hcont⟩
  have hbl : b - h ≤ l.length := by
    rcases hcont with hzero | ⟨hle, -⟩ <;> omega
  have hfull := hbound hcont
  obtain ⟨n', heq, hwritten⟩ := reconcile_log_merges hw hpos hb es leader_commit hcont hfull
  have hend : n.last_committed ≤ h + (merge l (b - h) es).length := by
    cases hdiff : firstDiff (l.drop (b - h)) es with
    | none =>
      rw [raft.merge_length_agree hdiff hbl]
      omega
    | some i =>
      have hcut := hsafe i hdiff
      have hlt := (raft.firstDiff_lt hdiff).2
      rw [raft.merge_length_differ hdiff]
      omega
  have hcap := hwritten.last_committed
  rw [capped_le hend] at hcap
  have hpos' : ∀ e ∈ merge l (b - h) es, 0 < e.term := merge_positive hpos hes
  rw [heq]
  refine ⟨⟨fun hno => ?_, fun hno => absurd hcont hno⟩, fun hno => absurd hcont hno, fun _ =>
    ⟨⟨rfl, hwritten.log, hcap⟩, ?_, fun g m hg hbelow => ?_⟩⟩
  · cases hno
  · -- the log still has the entry that the request continues, and now all of its entries
    have hlen : b - h + es.length ≤ (merge l (b - h) es).length := raft.le_merge_length hbl
    have hknown : merge (merge l (b - h) es) (b - h) es = merge l (b - h) es :=
      raft.merge_known (firstDiff_merged hbl) hlen
    have hcont' : Continues n' b t := by
      refine hcont.imp_right fun ⟨_, hterm⟩ => ⟨?_, ?_⟩
      · rw [RaftNode.last_log_index, hwritten.log.last_log_index]
        omega
      · rw [hwritten.term_at hw hb (raft.merge_below hbl), hterm]
    obtain ⟨n'', heq', hwritten'⟩ := reconcile_log_merges hwritten.log hpos' hb es leader_commit
      hcont' (by rw [hknown]; exact hfull)
    rw [hknown] at heq' hwritten'
    exact ⟨n'', heq', hwritten.again hwritten' hend⟩
  · exact hwritten.outlasts hpos' hbl (by omega) hfull hg hbelow

/-- A follower with the horizon 2 of term 1, and the entries after it of these terms. -/
def shortFollower (terms : List Nat) (last_committed : Nat) : RaftNode Unit Follower :=
  ⟨1, .settled { (SledStorage.new : SledStorage Unit) with
      log := OrdMap.empty.insertAll
        ((numbered 2 (terms.map fun t => ⟨t, ()⟩)).map fun e => (e.index, e))
      key_last_committed := some last_committed
      key_snapshot_index := some 2
      key_snapshot_term := some 1 }, last_committed, 2, ⟨none, 0, 100⟩⟩

theorem shortFollower_windowed (terms : List Nat) (last_committed : Nat) :
    Windowed (shortFollower terms last_committed).disk 2 (terms.map fun t => ⟨t, ()⟩) := by
  refine ⟨rfl, fun k => ?_⟩
  change (OrdMap.empty.insertAll _ : OrdMap Nat (LogEntry Unit)).get? k = _
  rw [insertAll_numbered]
  split <;> simp

/-- The entry at 4 is of another term: the log is cut there and goes on as the leader's. -/
theorem reconcile_log_is_merge_conflict :
    MergedInto (shortFollower [1, 1, 1] 3) 2 [⟨1, ()⟩, ⟨2, ()⟩] 9
      ((shortFollower [1, 1, 1] 3).reconcile_log 2 1 (numbered 2 [⟨1, ()⟩, ⟨2, ()⟩]) 9) := by
  have hpos : ∀ e ∈ ([⟨1, ()⟩, ⟨2, ()⟩] : List (Entry Unit)), 0 < e.term := by decide
  have hmerge := reconcile_log_is_merge (shortFollower_windowed [1, 1, 1] 3) (by decide)
    (by decide) (b := 2) (t := 1) le_rfl hpos 9 (by decide) (fun _ => by decide)
  exact (hmerge.2.2 (.inr ⟨by decide, by decide⟩)).1

/-- At the last index that there is, a request with nothing to append is not answered. And
where the follower's entry in front of `prev_log_index` is not the leader's, a delayed request
of the same leader cuts the log, here from 5 back to 3. -/
theorem reconcile_log_falls_short :
    (∃ n : RaftNode Unit Follower, Windowed n.disk u64Max [] ∧ n.last_committed = u64Max ∧
      Continues n u64Max 1 ∧
      ∃ e, (n.reconcile_log u64Max 1 [] u64Max).2 = .error (.Arithmetic e)) ∧
    ∃ (n : RaftNode Unit Follower) (l g : List (Entry Unit)), Windowed n.disk 2 l ∧
      (∀ e ∈ l ++ g, 0 < e.term) ∧ n.last_committed = 2 ∧ Continues n 4 2 ∧
      (n.reconcile_log 4 2 (numbered 4 ((g.take 3).drop 2)) 2).2 = .ok ⟨true, 5⟩ ∧
      ((n.reconcile_log 4 2 (numbered 4 ((g.take 3).drop 2)) 2).1.reconcile_log 2 1
        (numbered 2 ((g.take 1).drop 0)) 2).2 = .ok ⟨true, 3⟩ := by
  constructor
  · refine ⟨⟨1, .settled { SledStorage.new with
        key_last_committed := some u64Max
        key_snapshot_index := some u64Max
        key_snapshot_term := some 1 }, u64Max, u64Max, ⟨none, 0, 100⟩⟩, ⟨rfl, fun k => ?_⟩, rfl,
      .inr ⟨le_rfl, rfl⟩, .Overflow "LogIndex", rfl⟩
    split <;> rfl
  · exact ⟨shortFollower [1, 2] 2, [⟨1, ()⟩, ⟨2, ()⟩], [⟨2, ()⟩, ⟨2, ()⟩, ⟨2, ()⟩],
      shortFollower_windowed [1, 2] 2, by decide, rfl, .inr ⟨by decide, by decide⟩, by decide,
      by decide⟩

/-! ## What is committed -/

/-- Nothing that was accepted lies behind the new end of the log. -/
theorem gatherAppend_covers (entries : List (LogEntry α)) {b : Nat} {to_append : List (LogEntry α)}
    (hg : gatherAppend (b + 1) entries = .ok (some to_append)) :
    ∀ e ∈ entries, e.index ≤ b + to_append.length := by
  induction entries generalizing b to_append with
  | nil => simp
  | cons e entries ih =>
    unfold gatherAppend at hg
    split at hg
    · split at hg
      · cases hg
      rename_i heq
      cases hadd : checked_add "LogIndex" (b + 1) 1 with
      | error err =>
        rw [hadd] at hg
        cases hg
      | ok next =>
        obtain ⟨rfl, -⟩ := checked_add_ok hadd
        rw [hadd] at hg
        dsimp only at hg
        cases hrest : gatherAppend (b + 1 + 1) entries with
        | error err =>
          rw [hrest] at hg
          cases hg
        | ok rest =>
          rw [hrest] at hg
          cases rest with
          | none => cases hg
          | some rest =>
            simp only [Option.map_some, Except.ok.injEq, Option.some.injEq] at hg
            subst hg
            intro e' he'
            rw [List.length_cons]
            rcases List.mem_cons.mp he' with rfl | he'
            · have := not_not.mp heq
              omega
            · have := ih hrest e' he'
              omega
    · rename_i hold
      intro e' he'
      rcases List.mem_cons.mp he' with rfl | he'
      · omega
      · exact ih hg e' he'

theorem persistAppend_committed (n : RaftNode α Follower) {to_append : List (LogEntry α)}
    (happ : Consecutive n.last_log_index to_append) (leader_commit : Nat) :
    (n.persistAppend to_append leader_commit).last_committed =
      capped n.last_committed leader_commit (n.last_log_index + to_append.length) := by
  unfold RaftNode.persistAppend capped
  rw [happ.last_index]
  by_cases hgt : leader_commit > n.last_committed
  · rw [if_pos hgt, if_pos hgt]
    cases to_append.isEmpty <;> rfl
  · rw [if_neg hgt, if_neg hgt]
    cases to_append.isEmpty <;> rfl

/-- An accepted request: after the first loop the entries that follow are appended. -/
theorem reconcile_log_accepted {b t leader_commit last : Nat} {entries : List (LogEntry α)}
    (hok : (n.reconcile_log b t entries leader_commit).2 = .ok ⟨true, last⟩) :
    ∃ to_append, gatherAppend ((n.truncateConflict entries).last_log_index + 1) entries =
        .ok (some to_append) ∧
      (n.reconcile_log b t entries leader_commit).1 =
        (n.truncateConflict entries).persistAppend to_append leader_commit := by
  unfold RaftNode.reconcile_log at hok ⊢
  split at hok
  · cases hok
  rename_i hverify
  rw [if_neg hverify]
  dsimp only at hok ⊢
  cases hadd : checked_add "LogIndex" (n.truncateConflict entries).last_log_index 1 with
  | error e =>
    rw [hadd] at hok
    cases hok
  | ok next =>
    obtain ⟨rfl, -⟩ := checked_add_ok hadd
    rw [hadd] at hok
    dsimp only at hok ⊢
    cases hg : gatherAppend ((n.truncateConflict entries).last_log_index + 1) entries with
    | error e =>
      rw [hg] at hok
      cases hok
    | ok res =>
      rw [hg] at hok
      cases res with
      | none => cases hok
      | some to_append => exact ⟨to_append, rfl, rfl⟩

/-- The largest index that the request vouches for, or that was committed before. -/
def vouched (n : RaftNode α Follower) (prev_log_index : Nat) (entries : List (LogEntry α)) : Nat :=
  max n.last_committed (prev_log_index + entries.length)

/-- The leader commits no more than the request shows, or nothing stands behind that: the log
ends there, or is cut at an entry of the request. -/
def Shown (n : RaftNode α Follower) (prev_log_index : Nat) (entries : List (LogEntry α))
    (leader_commit : Nat) : Prop :=
  leader_commit ≤ vouched n prev_log_index entries ∨
    n.last_included_index ≤ vouched n prev_log_index entries ∧
    (∀ e ∈ entries, e.index ≤ vouched n prev_log_index entries) ∧
    ((∃ e ∈ entries, n.conflicts e = true) ∨ n.last_log_index ≤ vouched n prev_log_index entries)

theorem truncate_last_le (s : SledStorage α) (c : Nat) :
    (s.truncate_log c).last_log_index ≤ max s.last_included_index (c - 1) := by
  have hhorizon := truncate_log_horizon s c
  by_cases heq : (s.truncate_log c).last_log_index = (s.truncate_log c).last_included_index
  · omega
  · have hkey := last_is_key heq
    rw [truncate_log_get?] at hkey
    split at hkey
    · exact absurd rfl hkey
    · omega

/-- Where the log ends after the first loop. -/
theorem truncateConflict_last_le (n : RaftNode α Follower) {entries : List (LogEntry α)} {k : Nat}
    (hentries : ∀ e ∈ entries, e.index ≤ k) :
    (n.truncateConflict entries).last_log_index ≤ k ↔ n.last_included_index ≤ k ∧
      ((∃ e ∈ entries, n.conflicts e = true) ∨ n.last_log_index ≤ k) := by
  have hhorizon : n.last_included_index ≤ n.last_log_index := horizon_le_last n.disk
  rw [n.truncateConflict_eq]
  cases hfind : entries.find? n.conflicts with
  | none =>
    have hnone : ¬∃ e ∈ entries, n.conflicts e = true := by
      rintro ⟨e, he, hc⟩
      exact (List.find?_eq_none.mp hfind e he) hc
    simp only [hnone, false_or]
    omega
  | some e =>
    have he := List.mem_of_find?_eq_some hfind
    have hc := List.find?_some hfind
    have hle := truncate_last_le n.disk e.index
    have hge := horizon_le_last (n.disk.truncate_log e.index)
    rw [truncate_log_horizon] at hge
    have hek := hentries e he
    have hex : ∃ e ∈ entries, n.conflicts e = true := ⟨e, he, hc⟩
    simp only [hex, true_or, and_true]
    change (n.disk.truncate_log e.index).last_log_index ≤ k ↔ n.disk.last_included_index ≤ k
    omega

/-- An accepted append commits no more than the request has shown, and what was committed
before, exactly when the leader commits no more than that or nothing is left behind it. -/
theorem commits_what_is_shown_iff {b t leader_commit last : Nat} {entries : List (LogEntry α)}
    (hok : (n.reconcile_log b t entries leader_commit).2 = .ok ⟨true, last⟩) :
    (n.reconcile_log b t entries leader_commit).1.last_committed ≤
        max n.last_committed (min leader_commit (b + entries.length)) ↔
      Shown n b entries leader_commit := by
  obtain ⟨to_append, hgather, heq⟩ := reconcile_log_accepted hok
  obtain ⟨happ, hmem⟩ := gatherAppend_consecutive entries hgather
  have hcovers := gatherAppend_covers entries hgather
  have hkept : (n.truncateConflict entries).last_committed = n.last_committed := by
    rw [n.truncateConflict_eq]
    split <;> rfl
  rw [heq, persistAppend_committed _ happ, hkept]
  generalize hend : (n.truncateConflict entries).last_log_index + to_append.length = new_end
    at hcovers
  -- the new end is behind what is vouched for, or everything is in front of it
  have hbehind : new_end ≤ vouched n b entries ↔ n.last_included_index ≤ vouched n b entries ∧
      (∀ e ∈ entries, e.index ≤ vouched n b entries) ∧
      ((∃ e ∈ entries, n.conflicts e = true) ∨ n.last_log_index ≤ vouched n b entries) := by
    constructor
    · intro hle
      have hall : ∀ e ∈ entries, e.index ≤ vouched n b entries :=
        fun e he => (hcovers e he).trans hle
      obtain ⟨hhorizon, hor⟩ := (truncateConflict_last_le n hall).mp (by omega)
      exact ⟨hhorizon, hall, hor⟩
    · rintro ⟨hhorizon, hall, hor⟩
      have hcut := (truncateConflict_last_le n hall).mpr ⟨hhorizon, hor⟩
      by_cases hnil : to_append.length = 0
      · omega
      · have hlast : new_end ∈ to_append.map LogEntry.index := (happ.mem_index new_end).mpr
          ⟨by omega, by omega⟩
        obtain ⟨e, he, heq⟩ := List.mem_map.mp hlast
        have := hall e (hmem e he)
        omega
  unfold Shown
  rw [← hbehind]
  unfold capped vouched
  split <;> omega

/-- A probe that commits no further than it is anchored. -/
theorem commits_what_is_shown_probe :
    ((shortFollower [1, 1] 2).reconcile_log 3 1 [] 3).1.last_committed ≤ max 2 (min 3 (3 + 0)) := by
  have hdone : ((shortFollower [1, 1] 2).reconcile_log 3 1 [] 3).2 = .ok ⟨true, 4⟩ := rfl
  exact (commits_what_is_shown_iff hdone).mpr (.inl (by decide))

/-- A probe at the horizon shows nothing behind it, and an entry behind it is committed. -/
theorem unverified_suffix_committed :
    ((shortFollower [1, 1] 2).reconcile_log 2 1 [] 4).2 = .ok ⟨true, 4⟩ ∧
      ¬((shortFollower [1, 1] 2).reconcile_log 2 1 [] 4).1.last_committed ≤
        max (shortFollower [1, 1] 2).last_committed (min 4 (2 + 0)) := by
  decide

end raft_engine.node
