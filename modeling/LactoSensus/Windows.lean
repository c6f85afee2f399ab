-- The window of the history that a leader sends: what is left of the log above
-- its horizon, whether it is whole, and which of the requests that are built
-- while rounds wait and compactions go on show a stretch of it.
import LactoSensus.Station

open common.types
open common.proto
open machine
open journal
open ordmap
open raft_engine.storage
open raft_engine.node
open raft_engine.engine
open raft_engine.consensus
open raft_engine.shell
open raft_engine.cluster
open raft_engine.orchestration
open raft_engine.recovery
open lacto_fsm
open raft (Entry)

namespace raft_engine.node

variable {α : Type} {d d' : SledStorage α}

/-! ## A log without holes -/

/-- Above the horizon nothing is missing, every entry stands under its own index, and a log
without a snapshot has no term for one. -/
structure Whole (d : SledStorage α) : Prop where
  covered : Covered d
  indexed : ∀ k e, d.log.get? k = some e → e.index = k ∧ 0 < k
  unlabelled : d.last_included_index = 0 → d.last_included_term = 0

theorem Whole.new : Whole (SledStorage.new : SledStorage α) := by
  refine ⟨fun k hk hkl => ?_, fun k e he => ?_, fun _ => rfl⟩
  · have hk' : 0 < k := hk
    have hkl' : k ≤ 0 := hkl
    omega
  · cases he

/-- The log and the snapshot say whether it is whole. -/
theorem Whole.of_same (hw : Whole d) (hlog : d'.log = d.log)
    (hindex : d'.key_snapshot_index = d.key_snapshot_index)
    (hterm : d'.key_snapshot_term = d.key_snapshot_term) : Whole d' := by
  have hhor : d'.last_included_index = d.last_included_index := by
    unfold SledStorage.last_included_index
    rw [hindex]
  have hlast : d'.last_log_index = d.last_log_index := by
    unfold SledStorage.last_log_index
    rw [hlog, hhor]
  refine ⟨fun k hk hkl => ?_, fun k e he => ?_, fun h => ?_⟩
  · rw [hhor] at hk
    rw [hlast] at hkl
    rw [hlog]
    exact hw.covered k hk hkl
  · rw [hlog] at he
    exact hw.indexed k e he
  · unfold SledStorage.last_included_term
    rw [hterm]
    exact hw.unlabelled (hhor.symm.trans h)

theorem Whole.quiet (hw : Whole d) (hq : QuietDisk d d') : Whole d' :=
  hw.of_same hq.log hq.snapshot_index hq.snapshot_term

/-- A cut may go below the horizon: then nothing above it is left. -/
theorem Whole.truncate (hw : Whole d) (i : Nat) : Whole (d.truncate_log i) := by
  refine ⟨?_, fun k e he => ?_, fun h => ?_⟩
  · by_cases hlast : d.last_log_index < i
    · have hsame : d.truncate_log i = d := by
        unfold SledStorage.truncate_log
        exact if_pos hlast
      rw [hsame]
      exact hw.covered
    by_cases hbelow : d.last_included_index < i
    · exact hw.covered.truncate hbelow (not_lt.mp hlast)
    · intro k hk hkl
      have hend : (d.truncate_log i).last_log_index = d.last_included_index := by
        apply last_log_index_unique
        · rw [truncate_log_horizon]
        · intro j hj
          rw [truncate_log_get?] at hj
          split at hj
          · exact absurd rfl hj
          · omega
        · rw [truncate_log_horizon]
          exact .inl rfl
      rw [truncate_log_horizon] at hk
      omega
  · rw [truncate_log_get?] at he
    split at he
    · cases he
    · exact hw.indexed k e he
  · rw [truncate_log_horizon] at h
    have hterm : (d.truncate_log i).last_included_term = d.last_included_term := by
      unfold SledStorage.truncate_log
      dsimp only
      split <;> rfl
    rw [hterm]
    exact hw.unlabelled h

theorem Whole.append (hw : Whole d) {es : List (LogEntry α)}
    (hes : Consecutive d.last_log_index es) : Whole (d.append_entries es) := by
  refine ⟨hw.covered.append hes, fun k e he => ?_, hw.unlabelled⟩
  rcases OrdMap.get?_insertAll_cases _ _ he with hold | hnew
  · exact hw.indexed k e hold
  · obtain ⟨e', he', heq⟩ := List.mem_map.mp hnew
    obtain ⟨rfl, rfl⟩ := Prod.mk.inj heq
    have := (hes.mem_index e'.index).mp (List.mem_map_of_mem he')
    exact ⟨rfl, by omega⟩

theorem Whole.commit (hw : Whole d) (i : Nat) : Whole (d.save_last_committed i) :=
  hw.of_same rfl rfl rfl

/-- The horizon goes up, and never to zero under a term. -/
theorem Whole.metadata (hw : Whole d) {i q : Nat} (hi : d.last_included_index ≤ i)
    (hq : i = 0 → q = 0) : Whole (d.save_snapshot_metadata i q) :=
  ⟨hw.covered.metadata hi, hw.indexed, hq⟩

theorem Whole.front (hw : Whole d) {i : Nat} (hi : i ≤ d.last_included_index) :
    Whole (d.truncate_log_front i) := by
  refine ⟨hw.covered.front hi, fun k e he => ?_, hw.unlabelled⟩
  rw [truncate_log_front_get?] at he
  split at he
  · cases he
  · exact hw.indexed k e he

/-! ## The writes of the handlers -/

theorem Whole.persist {R : Journal (SledStorage α)} {n : RaftNode α Follower}
    (hw : Since R Whole n.log_store) (hcached : n.last_committed = n.disk.last_committed)
    {es : List (LogEntry α)} (hes : Consecutive n.last_log_index es) (leader_commit : Nat) :
    Since R Whole (n.persistAppend es leader_commit).log_store ∧
      (n.persistAppend es leader_commit).last_committed =
        (n.persistAppend es leader_commit).disk.last_committed := by
  have hnow : Whole n.disk := hw.now
  have happended : Whole (n.disk.append_entries es) := hnow.append hes
  unfold RaftNode.persistAppend
  by_cases hgt : leader_commit > n.last_committed
  · rw [if_pos hgt]
    cases es.isEmpty with
    | true => exact ⟨hw.write (hnow.commit _), rfl⟩
    | false => exact ⟨(hw.write happended).write (happended.commit _), rfl⟩
  · rw [if_neg hgt]
    cases es.isEmpty with
    | true => exact ⟨hw, hcached⟩
    | false => exact ⟨hw.write happended, hcached⟩

theorem Whole.merged {R : Journal (SledStorage α)} {n n' : RaftNode α Follower}
    (hw : Since R Whole n.log_store) (hcached : n.last_committed = n.disk.last_committed)
    {entries : List (LogEntry α)} {leader_commit : Nat} (hm : Merged n entries leader_commit n') :
    Since R Whole n'.log_store ∧ n'.last_committed = n'.disk.last_committed := by
  have htruncate : ∀ i, Since R Whole (n.truncate_log i).log_store ∧
      (n.truncate_log i).last_committed = (n.truncate_log i).disk.last_committed := by
    intro i
    have hnow : Whole n.disk := hw.now
    refine ⟨hw.write (hnow.truncate i), ?_⟩
    change n.last_committed = (n.disk.truncate_log i).last_committed
    rw [hcached]
    unfold SledStorage.truncate_log
    dsimp only
    split <;> rfl
  cases hm with
  | kept => exact ⟨hw, hcached⟩
  | cut e he => exact htruncate e.index
  | appended es hes hsub => exact Whole.persist hw hcached hes leader_commit
  | replaced e he es hes hsub =>
    obtain ⟨hw₁, hcached₁⟩ := htruncate e.index
    exact Whole.persist hw₁ hcached₁ hes leader_commit

/-! ## The history behind a log -/

/-- A history that ends where the log ends, has its entries above the horizon, and at the
horizon the term of the snapshot. What the snapshot stands for is not known beyond that. -/
structure Remembers (d : SledStorage α) (H : List (Entry α)) : Prop where
  length : H.length = d.last_log_index
  above : ∀ k, d.last_included_index < k → d.log.get? k = entryAt H k
  horizon : termAt H d.last_included_index = d.last_included_term

/-- The history with these entries where the log has none. -/
def historyOf (d : SledStorage α) (below : Nat → Entry α) : List (Entry α) :=
  (List.range d.last_log_index).map fun i =>
    if d.last_included_index < i + 1 then
      ((d.read_entry (i + 1)).map fun e => ⟨e.term, e.data⟩).getD (below (i + 1))
    else below (i + 1)

theorem historyOf_length (d : SledStorage α) (below : Nat → Entry α) :
    (historyOf d below).length = d.last_log_index := by
  simp [historyOf]

theorem historyOf_below {below : Nat → Entry α} {k : Nat} (hk : 0 < k)
    (hkh : k ≤ d.last_included_index) :
    entryAt (historyOf d below) k = some ⟨k, (below k).term, (below k).data⟩ := by
  have hle := horizon_le_last d
  obtain ⟨i, rfl⟩ : ∃ i, k = i + 1 := ⟨k - 1, by omega⟩
  rw [entryAt_succ]
  unfold historyOf
  rw [List.getElem?_map, List.getElem?_range (by omega), Option.map_some, if_neg (by omega)]
  rfl

theorem historyOf_remembers (hw : Whole d) {below : Nat → Entry α}
    (hbelow : (below d.last_included_index).term = d.last_included_term) :
    Remembers d (historyOf d below) := by
  refine ⟨historyOf_length d below, fun k hk => ?_, ?_⟩
  · obtain ⟨i, rfl⟩ : ∃ i, k = i + 1 := ⟨k - 1, by omega⟩
    rw [entryAt_succ]
    unfold historyOf
    by_cases hlast : i < d.last_log_index
    · rw [List.getElem?_map, List.getElem?_range hlast, Option.map_some, if_pos hk]
      obtain ⟨e, he⟩ := Option.ne_none_iff_exists'.mp (hw.covered (i + 1) hk hlast)
      have hindex := (hw.indexed _ _ he).1
      unfold SledStorage.read_entry
      rw [he, ← hindex]
      rfl
    · rw [List.getElem?_eq_none (by simpa using hlast), Option.map_none]
      by_contra hne
      have := key_le_last hne
      omega
  · by_cases hzero : d.last_included_index = 0
    · rw [hzero, termAt_zero, hw.unlabelled hzero]
    · unfold termAt
      rw [historyOf_below (by omega) le_rfl]
      exact hbelow

/-- A whole log has a history. -/
theorem Whole.remembered [Inhabited α] (hw : Whole d) : ∃ H, Remembers d H :=
  ⟨historyOf d fun _ => ⟨d.last_included_term, default⟩, historyOf_remembers hw rfl⟩

variable {R : Type} {n : RaftNode α R} {H : List (Entry α)}

/-- From the horizon on the node knows the terms of its history. -/
theorem Remembers.get_term_at (hm : Remembers n.disk H) {i : Nat}
    (hi : n.last_included_index ≤ i) : n.get_term_at i = termAt H i := by
  unfold RaftNode.get_term_at
  by_cases hzero : i = 0
  · rw [if_pos hzero, hzero, termAt_zero]
  rw [if_neg hzero]
  by_cases hhor : i = n.last_included_index
  · rw [if_pos hhor, hhor]
    exact hm.horizon.symm
  · rw [if_neg hhor]
    have habove := hm.above i (lt_of_le_of_ne hi (Ne.symm hhor))
    unfold SledStorage.read_entry termAt
    rw [habove]

/-- A read above the horizon is a stretch of the history. -/
theorem Remembers.read_entries (hm : Remembers d H) {b : Nat} (hb : d.last_included_index ≤ b) :
    d.read_entries (b + 1) d.last_log_index = .ok (numbered b (H.drop b)) := by
  have hfull : Uncompacted (⟨treeOf H, none, none, none, none⟩ : SledStorage α) H :=
    ⟨rfl, rfl, rfl⟩
  have hread := hfull.read_entries b
  have hrange : d.log.range (b + 1) d.last_log_index = (treeOf H).range (b + 1) H.length := by
    unfold OrdMap.range
    rw [hm.length]
    congr 1
    ext1 k
    rw [OrdMap.get?_filterKeys, OrdMap.get?_filterKeys]
    by_cases hk : b + 1 ≤ k
    · rw [hm.above k (by omega), treeOf_get?]
    · rw [if_neg (by simp [hk]), if_neg (by simp [hk])]
  unfold SledStorage.read_entries at hread ⊢
  rw [hrange, ← hm.length]
  exact hread

end raft_engine.node

namespace raft_engine.station

variable {α : Type}

/-! ## The requests -/

/-- The request that a call waits with. -/
def PeerCall.request : PeerCall α → Option (AppendEntriesRequest α)
  | .Append req => some req
  | .Probing req => some req
  | _ => none

/-- The request shows the entries of the history that follow `prev_log_index`, the term of the
one before them, and the term of its sender. -/
structure Faithful (H : List (Entry α)) (term : Nat) (req : AppendEntriesRequest α) : Prop where
  prev_log_term : req.prev_log_term = termAt H req.prev_log_index
  entries : req.entries = numbered req.prev_log_index
    ((H.drop req.prev_log_index).take req.entries.length)
  term : req.term = term

/-- Where `build_append_entries_request` begins. -/
def next_idx_of (ln : LogicalNode α) (peer_id : NodeId) : Nat :=
  match ln.node.state with
  | .Leader l => (l.next_index.get? peer_id).getD 1
  | _ => 1

/-- The round is of the node's term, and a heartbeat in place of a snapshot begins above the
horizon, or on a log that has no entries at the first index. -/
def Anchored (ln : LogicalNode α) (params : ReplicationRoundParams) (peer : NodeId) :
    PeerCall α → Prop
  | .Downgraded =>
    params.term = ln.current_term ∧
      (ln.node.last_included_index < next_idx_of ln peer ∨
        next_idx_of ln peer = 1 ∧ ∀ k, ln.node.disk.log.get? k = none)
  | _ => params.term = ln.current_term

/-- The request that a lock section of `prepare_and_replicate_to_peer` builds. -/
inductive Built (ln : LogicalNode α) (params : ReplicationRoundParams) (peer : NodeId) :
    PeerCall α → AppendEntriesRequest α → Prop where
  | window {call : PeerCall α} {b : Nat} {entries : List (LogEntry α)}
      (hnext : next_idx_of ln peer = b + 1)
      (hread : ln.node.disk.read_entries (b + 1) ln.last_log_index = .ok entries)
      (hcall : call = .Downgraded ∨ call = .Unsent ∧ ln.node.last_included_index ≤ b) :
      Built ln params peer call
        ⟨params.term, params.node_id, b, ln.get_term_at b, entries, params.last_committed⟩
  | probe : Built ln params peer .Unsent
      ⟨params.term, params.node_id, ln.node.last_included_index, ln.node.last_included_term, [],
        params.last_committed⟩

variable {ln : LogicalNode α} {params : ReplicationRoundParams} {peer : NodeId}
  {req : AppendEntriesRequest α} {call call' : PeerCall α}

theorem build_append_entries_request_eq (ln : LogicalNode α) (peer_id : NodeId) (term : Nat)
    (node_id : NodeId) (last_committed : Nat) :
    build_append_entries_request ln peer_id term node_id last_committed =
      if ln.is_poisoned then (ln, .error .NodePoisoned)
      else match checked_sub (next_idx_of ln peer_id) 1 with
        | .error e => (ln, .ok (.error (.Arithmetic e)))
        | .ok b =>
          match ln.node.disk.read_entries (next_idx_of ln peer_id) ln.last_log_index with
          | .error (.Invariant msg) => ln.apply_fatal (.Protocol msg)
          | .ok entries =>
            (ln, .ok (.ok ⟨term, node_id, b, ln.get_term_at b, entries, last_committed⟩)) := rfl

theorem build_append_entries_request_ok {term : Nat} {node_id : NodeId} {last_committed : Nat}
    (h : (build_append_entries_request ln peer term node_id last_committed).2 = .ok (.ok req)) :
    ∃ b entries, next_idx_of ln peer = b + 1 ∧
      ln.node.disk.read_entries (b + 1) ln.last_log_index = .ok entries ∧
      req = ⟨term, node_id, b, ln.get_term_at b, entries, last_committed⟩ := by
  rw [build_append_entries_request_eq] at h
  split at h
  · cases h
  split at h
  · cases h
  rename_i b hsub
  have hb : next_idx_of ln peer = b + 1 := by
    unfold checked_sub at hsub
    split at hsub
    · have := Except.ok.inj hsub
      omega
    · cases hsub
  split at h
  · cases h
  rename_i entries hread
  obtain rfl := Except.ok.inj (Except.ok.inj h)
  refine ⟨b, entries, hb, ?_, rfl⟩
  rw [← hb]
  exact hread

theorem determine_replication_strategy_cases {s : ReplicationStrategy α}
    (h : (determine_replication_strategy ln peer params).2 = .ok (.ok (some s))) :
    (s = .InstallSnapshot ln.node.last_included_index ln.node.last_included_term) ∨
      ∃ req, s = .AppendEntries req ∧ ln.node.last_included_index < next_idx_of ln peer ∧
        (build_append_entries_request ln peer params.term params.node_id
          params.last_committed).2 = .ok (.ok req) := by
  unfold determine_replication_strategy at h
  split at h
  · rename_i l hl
    have hnext : next_idx_of ln peer = (l.next_index.get? peer).getD 1 := by
      unfold next_idx_of
      rw [hl]
    dsimp only at h
    split at h
    · exact .inl (Option.some.inj (Except.ok.inj (Except.ok.inj h))).symm
    · rename_i hlt
      split at h
      · rename_i ln' req heq
        refine .inr ⟨req, (Option.some.inj (Except.ok.inj (Except.ok.inj h))).symm, ?_, ?_⟩
        · rw [hnext]
          exact not_le.mp hlt
        · rw [heq]
      · cases h
      · cases h
  · cases h

theorem prepare_replication_some {s : ReplicationStrategy α}
    (h : (prepare_replication ln peer params).2 = .ok (some s)) :
    (determine_replication_strategy ln peer params).2 = .ok (.ok (some s)) := by
  unfold prepare_replication at h
  split at h
  · rename_i heq
    rw [heq]
    exact congrArg _ (congrArg _ (Except.ok.inj h))
  · cases h
  · cases h

/-! ## Which requests are faithful -/

variable {H : List (Entry α)}

theorem first_of_range {b last : Nat} {d : SledStorage α} {entries : List (LogEntry α)}
    (hread : d.read_entries (b + 1) last = .ok entries) {k : Nat} (hk : d.log.get? k ≠ none)
    (hbk : b < k) (hkl : k ≤ last) : entries ≠ [] := by
  obtain ⟨e, he⟩ := Option.ne_none_iff_exists'.mp hk
  unfold SledStorage.read_entries at hread
  rw [if_neg (by omega), if_neg (by omega)] at hread
  obtain rfl := Except.ok.inj hread
  apply List.ne_nil_of_mem (a := e)
  unfold OrdMap.range OrdMap.values
  refine List.mem_map.mpr ⟨(k, e), ?_, rfl⟩
  apply (OrdMap.get?_eq_some_iff _ _ _).mp
  rw [OrdMap.get?_filterKeys, if_pos (by simp; omega)]
  exact he

/-- A window above the horizon is faithful to whatever the node remembers. -/
theorem window_above (hm : Remembers ln.node.disk H) {b : Nat} {entries : List (LogEntry α)}
    (hread : ln.node.disk.read_entries (b + 1) ln.last_log_index = .ok entries)
    (hb : ln.node.last_included_index ≤ b) (hterm : params.term = ln.current_term) :
    Faithful H ln.current_term
      ⟨params.term, params.node_id, b, ln.get_term_at b, entries, params.last_committed⟩ := by
  have hsame := hm.read_entries hb
  rw [show ln.node.disk.last_log_index = ln.last_log_index from rfl, hread] at hsame
  obtain rfl := Except.ok.inj hsame
  refine ⟨hm.get_term_at hb, ?_, hterm⟩
  dsimp only
  rw [numbered_length, List.take_length]

/-- A window that begins below the horizon shows entries and a term that the snapshot stands
for: some history has others. -/
theorem window_below [Nontrivial α] (params : ReplicationRoundParams)
    (hw : Whole ln.node.disk) {b : Nat} {entries : List (LogEntry α)}
    (hread : ln.node.disk.read_entries (b + 1) ln.last_log_index = .ok entries)
    (hb : b < ln.node.last_included_index)
    (hshows : b = 0 → ∃ k, ln.node.disk.log.get? k ≠ none) :
    ∃ H, Remembers ln.node.disk H ∧ ¬Faithful H ln.current_term
      ⟨params.term, params.node_id, b, ln.get_term_at b, entries, params.last_committed⟩ := by
  obtain ⟨x, y, hxy⟩ := exists_pair_ne α
  have hhor := horizon_le_last ln.node.disk
  have hb' : b < ln.node.disk.last_included_index := hb
  by_cases hzero : b = 0
  · subst hzero
    obtain ⟨k, hk⟩ := hshows rfl
    obtain ⟨e, he⟩ := Option.ne_none_iff_exists'.mp hk
    have hne := first_of_range hread hk (hw.indexed k e he).2 (key_le_last hk)
    obtain ⟨e₁, rest, rfl⟩ := List.exists_cons_of_ne_nil hne
    -- the entry at index one may have been any other
    obtain ⟨z, hz⟩ : ∃ z, z ≠ e₁.data := by
      by_cases hx : x = e₁.data
      · exact ⟨y, fun hy => hxy (hx.trans hy.symm)⟩
      · exact ⟨x, hx⟩
    refine ⟨historyOf ln.node.disk fun _ => ⟨ln.node.disk.last_included_term, z⟩,
      historyOf_remembers hw rfl, fun hf => ?_⟩
    have hentries := congrArg (fun l => l[0]?) hf.entries
    have hone : entryAt (historyOf ln.node.disk fun _ => ⟨ln.node.disk.last_included_term, z⟩)
        (0 + 1) = some ⟨1, ln.node.disk.last_included_term, z⟩ :=
      historyOf_below Nat.one_pos (by omega)
    rw [entryAt_succ] at hone
    obtain ⟨e₂, he₂, hsame⟩ := Option.map_eq_some_iff.mp hone
    have hdata : e₂.data = z := congrArg LogEntry.data hsame
    simp only [List.getElem?_cons_zero, List.drop_zero, numbered_getElem?, List.length_cons,
      List.getElem?_take_of_lt (Nat.zero_lt_succ _), he₂, Option.map_some] at hentries
    rw [Option.some.inj hentries] at hz
    exact hz hdata.symm
  · let below : Nat → Entry α := fun k =>
      if k = ln.node.disk.last_included_index then ⟨ln.node.disk.last_included_term, x⟩
      else ⟨ln.get_term_at b + 1, x⟩
    refine ⟨historyOf ln.node.disk below, historyOf_remembers hw ?_, fun hf => ?_⟩
    · simp [below]
    · have hterm := hf.prev_log_term
      dsimp only at hterm
      unfold termAt at hterm
      rw [historyOf_below (Nat.pos_of_ne_zero hzero) hb'.le] at hterm
      have hother : below b = ⟨ln.get_term_at b + 1, x⟩ := if_neg hb'.ne
      rw [hother] at hterm
      simp at hterm

theorem Built.faithful_iff [Nontrivial α] (hb : Built ln params peer call req)
    (hw : Whole ln.node.disk) :
    (∀ H, Remembers ln.node.disk H → Faithful H ln.current_term req) ↔
      Anchored ln params peer call := by
  obtain ⟨x, -⟩ := exists_pair_ne α
  have : Inhabited α := ⟨x⟩
  obtain ⟨H₀, hH₀⟩ := hw.remembered
  cases hb with
  | @window call b entries hnext hread hcall =>
    constructor
    · intro hall
      have hterm := (hall H₀ hH₀).term
      rcases hcall with rfl | ⟨rfl, -⟩
      · refine ⟨hterm, ?_⟩
        by_contra hno
        rw [not_or] at hno
        obtain ⟨hlow, hempty⟩ := hno
        obtain ⟨H, hH, hnot⟩ := window_below params hw hread (by omega) fun hzero => by
          by_contra hnone
          refine hempty ⟨by omega, fun k => ?_⟩
          by_contra hk
          exact hnone ⟨k, hk⟩
        exact hnot (hall H hH)
      · exact hterm
    · intro htimely H hH
      rcases hcall with rfl | ⟨rfl, hle⟩
      · obtain ⟨hterm, habove | ⟨hone, hempty⟩⟩ := htimely
        · exact window_above hH hread (by omega) hterm
        · -- a heartbeat without entries at the very beginning
          obtain rfl : b = 0 := by omega
          have hnil : entries = [] := by
            unfold SledStorage.read_entries at hread
            rw [if_neg (by omega)] at hread
            split at hread
            · exact (Except.ok.inj hread).symm
            · obtain rfl := Except.ok.inj hread
              apply List.eq_nil_iff_forall_not_mem.mpr
              intro e he
              unfold OrdMap.range OrdMap.values at he
              obtain ⟨⟨k, e'⟩, hmem, rfl⟩ := List.mem_map.mp he
              have hget := (OrdMap.get?_eq_some_iff _ _ _).mpr hmem
              rw [OrdMap.get?_filterKeys, hempty k] at hget
              split at hget <;> cases hget
          subst hnil
          exact ⟨rfl, rfl, hterm⟩
      · exact window_above hH hread hle htimely
  | probe =>
    refine ⟨fun hall => (hall H₀ hH₀).term, fun hterm H hH => ⟨?_, ?_, hterm⟩⟩
    · exact hH.horizon.symm
    · exact (congrArg (numbered _) List.take_zero).symm

/-! ## The host -/

/-- The horizon that a step of the host writes is not below the one that is there. -/
def Raises (h : SnapshotHost α LactoStore) : HostAct α → Prop
  | .SaveMetadata k =>
    ∀ i q, h.compactions[k]? = some (.Captured i q) → h.disk.last_included_index ≤ i
  | .Finalize k =>
    ∀ params, h.installations[k]? = some (.Restored params (.ok ())) →
      h.disk.last_included_index ≤ params.last_included_index
  | _ => True

/-- Everything that was on disk is whole, and so is what the compactions and installations
under way are about to leave. -/
structure Kept (h : SnapshotHost α LactoStore) : Prop where
  whole : ∀ d ∈ h.node.node.log_store.crash_points, Whole d
  cached : h.node.last_committed = h.disk.last_committed
  captured : ∀ q, .Captured 0 q ∈ h.compactions → q = 0
  saved : ∀ i, .Saved i ∈ h.compactions → i ≤ h.disk.last_included_index
  installations : ∀ x ∈ h.installations, 0 < x.params.last_included_index

variable {h h' : SnapshotHost α LactoStore} {a : HostAct α} {ln' : LogicalNode α}

theorem Kept.now (hk : Kept h) : Whole h.disk := hk.whole _ List.mem_cons_self

theorem Kept.since (hk : Kept h) {j : Journal (SledStorage α)}
    (hs : Since h.node.node.log_store Whole j) : ∀ d ∈ j.crash_points, Whole d := by
  intro d hd
  rcases List.mem_cons.mp hd with rfl | hd
  · exact hs.now
  · rcases hs.past d hd with hold | hnew
    · exact hk.whole d (List.mem_cons_of_mem _ hold)
    · exact hnew

/-- An advance of the applied index writes no more than the commit index. -/
theorem Whole.advanced {R : Journal (SledStorage α)} {n n' : RaftNode α RoleState} {index : Nat}
    (hw : Since R Whole n.log_store) (hadv : Advanced n index n') :
    Since R Whole n'.log_store := by
  rcases hadv.store with hsame | ⟨-, hwrite⟩
  · rw [hsame]
    exact hw
  · rw [hwrite]
    exact hw.write (Whole.commit hw.now index)

/-- What one change of the log leaves on disk, and at every point on the way. -/
theorem Kept.log (hk : Kept h) (hok : Raises h a) (hlog : LogStep h a ln') :
    Since h.node.node.log_store Whole ln'.node.log_store ∧
      ln'.last_committed = ln'.node.disk.last_committed ∧
      h.disk.last_included_index ≤ ln'.node.disk.last_included_index := by
  have hstart : Since h.node.node.log_store Whole h.node.node.log_store := .start hk.now
  have hquiet : ∀ {ln ln' : LogicalNode α}, Quiet ln ln' →
      Since h.node.node.log_store Whole ln.node.log_store →
      ln.last_committed = ln.node.disk.last_committed →
      Since h.node.node.log_store Whole ln'.node.log_store ∧
        ln'.last_committed = ln'.node.disk.last_committed := by
    intro ln ln' hq hs hc
    obtain ⟨hc', hs'⟩ := hq.disks hc
    exact ⟨hs.trans hs' fun d hd => Whole.quiet hs.now hd, hc'⟩
  cases hlog with
  | quiet hq =>
    obtain ⟨hs, hc⟩ := hquiet hq hstart hk.cached
    exact ⟨hs, hc, hq.horizon.ge⟩
  | proposed data l hl =>
    have hes : Consecutive h.disk.last_log_index
        [⟨h.node.last_log_index + 1, h.node.current_term, data⟩] := ⟨rfl, trivial⟩
    exact ⟨hstart.write (hk.now.append hes), hk.cached, le_rfl⟩
  | @merged dst req timeout ln₁ _ f n hq hst hc ht hv hm hln =>
    obtain ⟨hs₁, hc₁⟩ := hquiet hq hstart hk.cached
    obtain ⟨hs₂, hc₂⟩ := Whole.merged (n := ln₁.node.transition f) hs₁ hc₁ hm
    obtain ⟨hs₃, hc₃⟩ := hquiet hln hs₂ hc₂
    exact ⟨hs₃, hc₃, (hln.horizon.trans (hm.frame.2.trans hq.horizon)).ge⟩
  | @applied index n hadv =>
    refine ⟨Whole.advanced hstart hadv, hadv.durable hk.cached, ?_⟩
    change _ ≤ n.disk.last_included_index
    unfold SledStorage.last_included_index
    rw [hadv.snapshot_index]
    exact le_rfl
  | saved k i q hget =>
    have hi := hok i q hget
    refine ⟨hstart.write (hk.now.metadata hi fun hzero => ?_), hk.cached, hi⟩
    subst hzero
    exact hk.captured q (List.mem_of_getElem? hget)
  | front k i hget =>
    have hi := hk.saved i (List.mem_of_getElem? hget)
    exact ⟨hstart.write (hk.now.front hi), hk.cached, le_rfl⟩
  | @finalized k params n hget hadv =>
    have hi := hok params hget
    have hpos := hk.installations _ (List.mem_of_getElem? hget)
    change 0 < params.last_included_index at hpos
    have hsaved : Whole (h.disk.save_snapshot_metadata params.last_included_index
        params.last_included_term) := hk.now.metadata hi fun hzero => by omega
    refine ⟨Whole.advanced (hstart.write hsaved) hadv, hadv.durable hk.cached, ?_⟩
    change _ ≤ n.disk.last_included_index
    unfold SledStorage.last_included_index
    rw [hadv.snapshot_index]
    exact hi

theorem Kept.host [DecidableEq α] {cfg : HostConfig} {sm : SnapshotMachine α LactoStore}
    (hk : Kept h) (hok : Raises h a) (hs : hostStep cfg sm h a = some h') : Kept h' := by
  obtain ⟨hlog, hcomp, hinst⟩ := hostStep_cases hs
  obtain ⟨hsince, hcached, hhor⟩ := hk.log hok hlog
  refine ⟨hk.since hsince, hcached, fun q hmem => ?_, fun i hmem => ?_, fun x hmem => ?_⟩
  · rcases hcomp _ hmem with hold | hno | hnew | ⟨i, hno, -⟩
    · exact hk.captured q hold
    · cases hno
    · obtain ⟨hzero, rfl⟩ := Compaction.Captured.inj hnew
      rw [← hzero]
      rfl
    · cases hno
  · rcases hcomp _ hmem with hold | hno | hno | ⟨i', hnew, hi⟩
    · exact (hk.saved i hold).trans hhor
    · cases hno
    · cases hno
    · obtain rfl := Compaction.Saved.inj hnew
      exact hi.ge
  · rcases hinst x hmem with ⟨y, hy, hsame⟩ | hpos
    · rw [← hsame]
      exact hk.installations y hy
    · exact hpos

variable [DecidableEq α] {cfg : HostConfig} {c : SnapshotCodec α} {st st' : Station α}

theorem runCall_built {reply : Option PeerReply} {timeout : Nat} {h : SnapshotHost α LactoStore}
    (hrun : runCall cfg c st params peer reply timeout call = some (h, .Continues call'))
    (hnew : call.request = none) (hreq : call'.request = some req) :
    Built st.node params peer call req := by
  cases call with
  | Unsent =>
    simp only [runCall] at hrun
    have hres := st.host.process.shell.write_result fun ln => prepare_replication ln peer params
    generalize st.host.process.shell.write _ = w at hrun hres
    obtain ⟨sh, res⟩ := w
    split at hrun <;> rename_i heq <;> obtain ⟨rfl, rfl⟩ := Prod.mk.inj heq
    · obtain ⟨-, hcont⟩ := Prod.mk.inj (Option.some.inj hrun)
      obtain rfl := CallResult.Continues.inj hcont
      obtain rfl := Option.some.inj hreq
      rcases determine_replication_strategy_cases (prepare_replication_some hres.symm) with
        hno | ⟨req', hsame, hlt, hbuild⟩
      · cases hno
      obtain rfl := ReplicationStrategy.AppendEntries.inj hsame
      obtain ⟨b, entries, hnext, hread, rfl⟩ := build_append_entries_request_ok hbuild
      exact .window hnext hread (.inr ⟨rfl, by rw [hnext] at hlt; exact Nat.le_of_lt_succ hlt⟩)
    · obtain ⟨-, hcont⟩ := Prod.mk.inj (Option.some.inj hrun)
      obtain rfl := CallResult.Continues.inj hcont
      rcases determine_replication_strategy_cases (prepare_replication_some hres.symm) with
        hsame | ⟨req', hno, -⟩
      · obtain ⟨rfl, rfl⟩ := ReplicationStrategy.InstallSnapshot.inj hsame
        split at hreq
        · cases hreq
        · obtain rfl := Option.some.inj hreq
          exact .probe
      · cases hno
    · cases hrun
    · cases hrun
  | Downgraded =>
    simp only [runCall] at hrun
    have hres := st.host.process.shell.write_result fun ln =>
      build_append_entries_request ln peer params.term params.node_id params.last_committed
    generalize st.host.process.shell.write _ = w at hrun hres
    obtain ⟨sh, res⟩ := w
    split at hrun <;> rename_i heq <;> obtain ⟨rfl, rfl⟩ := Prod.mk.inj heq
    · obtain ⟨-, hcont⟩ := Prod.mk.inj (Option.some.inj hrun)
      obtain rfl := CallResult.Continues.inj hcont
      obtain rfl := Option.some.inj hreq
      obtain ⟨b, entries, hnext, hread, rfl⟩ := build_append_entries_request_ok hres.symm
      exact .window hnext hread (.inl rfl)
    · cases hrun
    · cases hrun
  | Append req' => cases hnew
  | Probing req' => cases hnew
  | Reached i t =>
    obtain ⟨h', -, heq⟩ := Option.map_eq_some_iff.mp hrun
    obtain ⟨-, hcont⟩ := Prod.mk.inj heq
    split at hcont
    · cases hcont
    · obtain rfl := CallResult.Continues.inj hcont
      cases hreq
  | Frozen i t =>
    simp only [runCall] at hrun
    split at hrun
    · cases hrun
    · obtain ⟨-, hcont⟩ := Prod.mk.inj (Option.some.inj hrun)
      obtain rfl := CallResult.Continues.inj hcont
      cases hreq
  | Serialized i t out =>
    obtain ⟨h', -, heq⟩ := Option.map_eq_some_iff.mp hrun
    obtain ⟨-, hcont⟩ := Prod.mk.inj heq
    split at hcont
    · cases hcont
    · cases out with
      | ok data =>
        obtain rfl := CallResult.Continues.inj hcont
        cases hreq
      | error e => cases hcont
  | Sending sent =>
    simp only [runCall] at hrun
    split at hrun
    · cases hrun
    · unfold respond at hrun
      split at hrun <;> cases hrun
    · cases hrun

/-! ## Every log of a node is whole -/

/-- A compaction or an installation writes no horizon below the one that is there. -/
def KeepsHorizon (st : Station α) : StationAct α → Prop
  | .Host a => Raises st.host a
  | _ => True

/-- A node after a start on this disk. -/
def StartedOn (cfg : HostConfig) (c : SnapshotCodec α) (disk : SledStorage α) (st : Station α) :
    Prop :=
  ∃ timeout db fsm ln,
    reboot c.toCodec cfg.node_id cfg.cluster.heartbeat_interval timeout db disk =
      some (fsm, ln) ∧
    st = ⟨⟨⟨.new ln, .Idle, []⟩, fsm, 0, [], [], 0⟩, [], false, .Waiting, 0, none⟩

/-- A node from its first start on, through crashes: the next start finds the log as it stood
at some moment of the run before. -/
inductive Life (cfg : HostConfig) (c : SnapshotCodec α)
    (P : Station α → StationAct α → Prop) : Station α → Prop where
  | first {st : Station α} (hst : StartedOn cfg c .new st) : Life cfg c P st
  | step {st st' : Station α} {a : StationAct α} (hlife : Life cfg c P st) (hok : P st a)
      (hs : stationStep cfg c st a = some st') : Life cfg c P st'
  | restart {st st' : Station α} {disk : SledStorage α} (hlife : Life cfg c P st)
      (hdisk : disk ∈ st.node.node.log_store.crash_points) (hst : StartedOn cfg c disk st') :
      Life cfg c P st'

theorem Life.run {P : Station α → StationAct α → Prop} (hlife : Life cfg c P st)
    (hrun : StationRun cfg c P st st') : Life cfg c P st' := by
  induction hrun with
  | refl => exact hlife
  | tail _ hok hs ih => exact ih.step hok hs

omit [DecidableEq α] in
theorem reboot_store {codec : Codec α} {node_id : NodeId} {heartbeat_interval timeout : Nat}
    {db fsm : LactoStore} {disk : SledStorage α} {ln : LogicalNode α}
    (hboot : reboot codec node_id heartbeat_interval timeout db disk = some (fsm, ln)) :
    ln.node.log_store = .settled disk ∧ ln.last_committed = disk.last_committed := by
  unfold reboot at hboot
  split at hboot
  · cases hboot
  split at hboot
  · rename_i hnew
    obtain ⟨rfl, rfl⟩ := Prod.mk.inj (Option.some.inj hboot)
    unfold LogicalNode.try_new at hnew
    split at hnew
    · cases hnew
    · obtain rfl := Except.ok.inj hnew
      exact ⟨rfl, rfl⟩
  · cases hboot

omit [DecidableEq α] in
theorem Kept.started {disk : SledStorage α} (hw : Whole disk) (hst : StartedOn cfg c disk st) :
    Kept st.host := by
  obtain ⟨timeout, db, fsm, ln, hboot, rfl⟩ := hst
  obtain ⟨hstore, hcommitted⟩ := reboot_store hboot
  have hdisk : ln.node.disk = disk := congrArg Journal.now hstore
  refine ⟨fun d hd => ?_, ?_, by simp, by simp, by simp⟩
  · change d ∈ ln.node.log_store.crash_points at hd
    rw [hstore] at hd
    obtain rfl := List.mem_singleton.mp hd
    exact hw
  · change ln.last_committed = ln.node.disk.last_committed
    rw [hdisk]
    exact hcommitted

theorem Kept.step {a : StationAct α} (hk : Kept st.host) (hok : KeepsHorizon st a)
    (hs : stationStep cfg c st a = some st') : Kept st'.host := by
  have hadopt : ∀ {h : SnapshotHost α LactoStore} (tasks : List (SpawnedTask α)), Kept h →
      Kept (st.adopt (withTasks h tasks)).host :=
    fun tasks hk => ⟨hk.whole, hk.cached, hk.captured, hk.saved, hk.installations⟩
  have hshell : ∀ {sh : ConsensusShell α}, Stepped st.host.process.shell sh →
      Kept (st.host.withShell sh) := by
    intro sh hstep
    obtain ⟨hsince, hcached, hhor⟩ := hk.log (a := .Probe) trivial (.quiet hstep.quiet)
    exact ⟨hk.since hsince, hcached, hk.captured, fun i hi => (hk.saved i hi).trans hhor,
      hk.installations⟩
  cases a with
  | Host a =>
    obtain ⟨-, -, h, hstep, rfl⟩ := host_cases hs
    exact hadopt [] (hk.host hok hstep)
  | Call r k reply timeout =>
    obtain ⟨round, peer, call, h, res, -, -, hstep, rfl⟩ := call_cases hs
    apply hadopt res.tasks
    cases hstep with
    | continued hdone hf => exact hshell hdone
    | finished hdone hf => exact hshell hdone
    | demoted hdone hreply ht hf => exact hshell hdone
    | failed hdone hhalt => exact hshell hdone
    | froze i t hdone hp => exact hk.host (a := .BeginTransfer) trivial hdone
    | freezeFailed i t hdone hp => exact hk.host (a := .BeginTransfer) trivial hdone
    | thawed i t hdone hp => exact hk.host (a := .EndTransfer) trivial hdone
    | thawFailed i t hdone hhalt => exact hk.host (a := .EndTransfer) trivial hdone
  | Wake =>
    simp only [stationStep] at hs
    split at hs
    · obtain rfl := Option.some.inj hs
      exact hk
    · cases hs
  | CheckFrozen =>
    simp only [stationStep] at hs
    split at hs
    · obtain rfl := Option.some.inj hs
      exact hk
    · cases hs
  | Enter caller =>
    simp only [stationStep] at hs
    repeat' split at hs
    all_goals
      cases hs <;> exact hk
  | Loop =>
    obtain ⟨caller, -, ⟨-, rfl⟩ | ⟨h, hstep, ⟨-, rfl⟩ | ⟨-, rfl⟩⟩⟩ := loop_cases hs
    · exact hk
    · exact hadopt [] (hk.host (a := .Apply) trivial hstep)
    · exact hadopt [] (hk.host (a := .Apply) trivial hstep)

theorem Life.kept (hlife : Life cfg c KeepsHorizon st) : Kept st.host := by
  induction hlife with
  | first hst => exact .started .new hst
  | step _ hok hs ih => exact ih.step hok hs
  | restart _ hdisk hst ih => exact .started (ih.whole _ hdisk) hst

/-- As long as no horizon is lowered, a request of any round is a window of the history of its
sender exactly when its round is of the sender's term and a heartbeat in place of a snapshot
begins above the horizon. -/
theorem request_faithful_iff [Nontrivial α] (hlife : Life cfg c KeepsHorizon st)
    {params : ReplicationRoundParams} {peer : NodeId} {call call' : PeerCall α}
    {reply : Option PeerReply} {timeout : Nat} {h : SnapshotHost α LactoStore}
    (hrun : runCall cfg c st params peer reply timeout call = some (h, .Continues call'))
    (hnew : call.request = none) {req : AppendEntriesRequest α} (hreq : call'.request = some req) :
    (∃ H, Remembers st.host.disk H) ∧
    ((∀ H, Remembers st.host.disk H → Faithful H st.node.current_term req) ↔
      Anchored st.node params peer call) := by
  have hw := hlife.kept.now
  obtain ⟨x, -⟩ := exists_pair_ne α
  have : Inhabited α := ⟨x⟩
  exact ⟨hw.remembered, (runCall_built hrun hnew hreq).faithful_iff hw⟩

/-! ## A heartbeat in place of a snapshot -/

/-- The leader has compacted two entries; its probe of node 3 waits for an answer, a third
entry is proposed, and the next round finds the permit for node 3 taken. -/
def proposeWhileProbing : List (StationAct Bytes) :=
  leadAndCompact ++ [.Call 0 1 none 5, .Host (.Propose (milk 3)), .Host (.Tick 5),
    .Call 0 1 none 5]

theorem proposeWhileProbing_life :
    Life firstOfThree plainSnapshots KeepsHorizon (stationAfter proposeWhileProbing) := by
  have hfirst : Life firstOfThree plainSnapshots KeepsHorizon firstStart :=
    .first ⟨1, .new, _, _, rfl, rfl⟩
  have hbefore : StationRun firstOfThree plainSnapshots KeepsHorizon firstStart
      (stationAfter (proposeWhileProbing.take 19)) :=
    stationAfter_run (by simp [proposeWhileProbing, leadAndCompact, KeepsHorizon, Raises])
      (by decide +kernel)
  have hsaved : StationRun firstOfThree plainSnapshots KeepsHorizon firstStart
      (stationAfter (proposeWhileProbing.take 19 ++ [.Host (.SaveMetadata 0)])) := by
    refine stationAfter_tail hbefore (fun i q _ => ?_) (by decide +kernel)
    have hzero : (stationAfter (proposeWhileProbing.take 19)).host.disk.last_included_index = 0 :=
      by decide +kernel
    rw [hzero]
    exact Nat.zero_le i
  have hrest : StationRun firstOfThree plainSnapshots KeepsHorizon firstStart
      (stationAfter (proposeWhileProbing.take 19 ++ [.Host (.SaveMetadata 0)] ++
        proposeWhileProbing.drop 20)) :=
    stationAfter_append hsaved _
      (by simp [proposeWhileProbing, leadAndCompact, KeepsHorizon, Raises]) (by decide +kernel)
  exact hfirst.run hrest

/-- The request for node 2 shows the third entry after the horizon. -/
theorem request_faithful_iff_regular : ∃ h,
    runCall firstOfThree plainSnapshots (stationAfter proposeWhileProbing) ⟨1, 1, 2⟩ 2 none 5
      .Unsent = some (h, .Continues (.Append ⟨1, 1, 2, 1, [⟨3, 1, milk 3⟩], 2⟩)) ∧
    ∀ H, Remembers (stationAfter proposeWhileProbing).host.disk H →
      Faithful H 1 ⟨1, 1, 2, 1, [⟨3, 1, milk 3⟩], 2⟩ := by
  have : Nontrivial Bytes := ⟨.inl (putMilk 7), .inl (putMilk 8), by decide⟩
  obtain ⟨h, hrun⟩ : ∃ h, runCall firstOfThree plainSnapshots (stationAfter proposeWhileProbing)
      ⟨1, 1, 2⟩ 2 none 5 .Unsent =
        some (h, .Continues (.Append ⟨1, 1, 2, 1, [⟨3, 1, milk 3⟩], 2⟩)) := ⟨_, rfl⟩
  have hterm : (stationAfter proposeWhileProbing).node.current_term = 1 := by decide +kernel
  have hboth := request_faithful_iff proposeWhileProbing_life hrun rfl rfl
  rw [hterm] at hboth
  exact ⟨h, hrun, hboth.2.mpr hterm.symm⟩

/-- The heartbeat for node 3 says that the third entry follows index zero. -/
theorem heartbeat_skips_entries :
    Life firstOfThree plainSnapshots KeepsHorizon (stationAfter proposeWhileProbing) ∧
    (stationAfter proposeWhileProbing).node.node_role = .Leader ∧
    (∃ round ∈ (stationAfter proposeWhileProbing).rounds, round.params = ⟨1, 1, 2⟩ ∧
      (3, .Downgraded) ∈ round.calls) ∧
    (∃ H, Remembers (stationAfter proposeWhileProbing).host.disk H) ∧
    ∃ h req, runCall firstOfThree plainSnapshots (stationAfter proposeWhileProbing) ⟨1, 1, 2⟩ 3
        none 5 .Downgraded = some (h, .Continues (.Append req)) ∧
      ∀ H, ¬Faithful H (stationAfter proposeWhileProbing).node.current_term req := by
  have : Inhabited Bytes := ⟨.inl (putMilk 7)⟩
  refine ⟨proposeWhileProbing_life, by decide +kernel, ?_,
    proposeWhileProbing_life.kept.now.remembered, _, ⟨1, 1, 0, 0, [⟨3, 1, milk 3⟩], 2⟩, rfl, ?_⟩
  · exact ⟨_, List.mem_cons_self, rfl, List.mem_cons_of_mem _ List.mem_cons_self⟩
  · intro H hf
    have hentries := hf.entries
    cases H with
    | nil => cases hentries
    | cons e H =>
      have hhead := congrArg (fun l => l[0]?.map LogEntry.index) hentries
      cases hhead

end raft_engine.station
