-- The commit index of a leader during its term: it moves to an index of the term
-- that most of the cluster has, and to the last such index, as soon as there is
-- a peer to answer. A leader without peers is never asked to look again.
import LactoSensus.Handlers
import LactoSensus.HorizonLog
import LactoSensus.Lib.Machine

open common.types
open journal
open machine
open ordmap
open quorum
open raft_engine.storage
open raft_engine.node
open raft_engine.engine

namespace raft_engine.consensus

variable {α : Type} {ln ln' : LogicalNode α} {l l' : Leader} {peers : List NodeId}

/-! ## One leadership -/

inductive LeaderAct (α : Type) where
  | Propose (command : α)
  /-- A round of the term takes over the outcome of a peer. -/
  | Respond (term : Nat) (peer_id : NodeId) (outcome : ReplicationOutcome) (timeout : Nat)

/-- An error that a round gets is fatal. -/
def leaderStep (ln : LogicalNode α) : LeaderAct α → Option (LogicalNode α)
  | .Propose command => some (ln.propose command).1
  | .Respond term peer_id outcome timeout =>
    match process_replication_response ln term peer_id outcome timeout with
    | (ln, .ok (.error _)) => some ln.poison
    | (ln, _) => some ln

/-- What a peer says to have, when it has taken over what it was sent. -/
def ReplicationOutcome.matched : ReplicationOutcome → Nat
  | .AppendEntries sent_prev_index sent_entries_len response =>
    if response.success then sent_prev_index + sent_entries_len else 0
  | .InstallSnapshot last_included_index _ => last_included_index

/-- Peers answer in a term for what its leader has sent them. -/
def HonestPeers (peers : List NodeId) (ln : LogicalNode α) : LeaderAct α → Prop
  | .Propose _ => True
  | .Respond term peer_id outcome _ => term = ln.current_term →
      peer_id ∈ peers ∧ outcome.matched ≤ ln.last_log_index

/-- How far the members of the cluster are, as the leader knows it; it counts itself. -/
def counters (ln : LogicalNode α) (l : Leader) : List Nat :=
  l.match_index.values ++ [ln.last_log_index]

/-- A strict majority has the index. -/
def HeldByMost (ln : LogicalNode α) (l : Leader) (i : Nat) : Prop :=
  (counters ln l).length < 2 * ((counters ln l).filter fun x => i ≤ x).length

/-- The terms never go down along the log, up to the current one. -/
structure TermsOrdered (ln : LogicalNode α) : Prop where
  mono : ∀ i j, ln.node.last_included_index ≤ i → i ≤ j → j ≤ ln.last_log_index →
    ln.get_term_at i ≤ ln.get_term_at j
  le_current : ∀ i, ln.node.last_included_index ≤ i → i ≤ ln.last_log_index →
    ln.get_term_at i ≤ ln.current_term

/-- Every index of the current term that most members have is committed. -/
def Complete (ln : LogicalNode α) (l : Leader) : Prop :=
  ∀ i, ln.node.last_included_index ≤ i → ln.get_term_at i = ln.current_term →
    HeldByMost ln l i → i ≤ ln.last_committed

structure Leads (peers : List NodeId) (ln : LogicalNode α) (l : Leader) : Prop where
  state : ln.node.state = .Leader l
  tracked : ∀ p, l.match_index.get? p ≠ none ↔ p ∈ peers
  bounded : ∀ p i, l.match_index.get? p = some i → i ≤ ln.last_log_index
  ordered : TermsOrdered ln
  complete : Complete ln l

theorem counters_le (h : ∀ p i, l.match_index.get? p = some i → i ≤ ln.last_log_index) :
    ∀ x ∈ counters ln l, x ≤ ln.last_log_index := by
  intro x hx
  rcases List.mem_append.mp hx with hold | hself
  · obtain ⟨⟨p, i⟩, hmem, rfl⟩ := List.mem_map.mp hold
    exact h p i ((l.match_index.get?_eq_some_iff p i).mpr hmem)
  · rw [List.mem_singleton.mp hself]

theorem HeldByMost.le_last (h : ∀ p i, l.match_index.get? p = some i → i ≤ ln.last_log_index)
    {i : Nat} (hi : HeldByMost ln l i) : i ≤ ln.last_log_index := by
  have hne : (counters ln l).filter (fun x => i ≤ x) ≠ [] := by
    intro hnil
    unfold HeldByMost at hi
    rw [hnil] at hi
    simp at hi
  obtain ⟨x, hx⟩ := List.exists_mem_of_ne_nil _ hne
  obtain ⟨hmem, hle⟩ := List.mem_filter.mp hx
  exact (of_decide_eq_true hle).trans (counters_le h x hmem)

/-- With a peer that has not got so far, the leader alone is no majority. -/
theorem not_heldByMost (hpeers : peers ≠ [])
    (htracked : ∀ p, l.match_index.get? p ≠ none ↔ p ∈ peers) {i : Nat}
    (hbelow : ∀ p j, l.match_index.get? p = some j → j < i) : ¬HeldByMost ln l i := by
  have hnone : l.match_index.values.filter (fun x => i ≤ x) = [] := by
    rw [List.filter_eq_nil_iff]
    intro x hx
    obtain ⟨⟨p, j⟩, hmem, rfl⟩ := List.mem_map.mp hx
    have := hbelow p j ((l.match_index.get?_eq_some_iff p j).mpr hmem)
    simp only [decide_eq_true_eq]
    omega
  have hpos : 0 < l.match_index.values.length := by
    obtain ⟨p, hp⟩ := List.exists_mem_of_ne_nil peers hpeers
    obtain ⟨j, hj⟩ := Option.ne_none_iff_exists'.mp ((htracked p).mpr hp)
    have hmem := (l.match_index.get?_eq_some_iff p j).mp hj
    exact List.length_pos_of_mem (List.mem_map_of_mem hmem)
  have hself : ([ln.last_log_index].filter fun x => i ≤ x).length ≤ 1 := List.length_filter_le _ _
  unfold HeldByMost counters
  rw [List.filter_append, hnone, List.nil_append, List.length_append, List.length_singleton]
  omega

/-- The two nodes read the same history in the same term. -/
structure SameHistory (ln ln' : LogicalNode α) : Prop where
  log : ln'.node.disk.log = ln.node.disk.log
  snapshot_index : ln'.node.disk.key_snapshot_index = ln.node.disk.key_snapshot_index
  snapshot_term : ln'.node.disk.key_snapshot_term = ln.node.disk.key_snapshot_term
  current_term : ln'.current_term = ln.current_term

theorem SameHistory.horizon (h : SameHistory ln ln') :
    ln'.node.last_included_index = ln.node.last_included_index :=
  congrArg (Option.getD · 0) h.snapshot_index

theorem SameHistory.last_log_index (h : SameHistory ln ln') :
    ln'.last_log_index = ln.last_log_index := by
  have hhorizon : ln'.node.disk.last_included_index = ln.node.disk.last_included_index := h.horizon
  change ln'.node.disk.last_log_index = ln.node.disk.last_log_index
  unfold SledStorage.last_log_index
  rw [h.log, hhorizon]

theorem SameHistory.get_term_at (h : SameHistory ln ln') (i : Nat) :
    ln'.get_term_at i = ln.get_term_at i := by
  have hterm : ln'.node.last_included_term = ln.node.last_included_term :=
    congrArg (Option.getD · 0) h.snapshot_term
  have hread : ln'.node.disk.read_entry i = ln.node.disk.read_entry i :=
    congrArg (OrdMap.get? · i) h.log
  unfold LogicalNode.get_term_at RaftNode.get_term_at
  rw [h.horizon, hterm, hread]

theorem TermsOrdered.same (h : TermsOrdered ln) (hsame : SameHistory ln ln') :
    TermsOrdered ln' := by
  constructor
  · simpa only [hsame.get_term_at, hsame.horizon, hsame.last_log_index] using h.mono
  · simpa only [hsame.get_term_at, hsame.horizon, hsame.last_log_index, hsame.current_term]
      using h.le_current

theorem SameHistory.heldByMost (h : SameHistory ln ln') (hmatch : l'.match_index = l.match_index)
    (i : Nat) : HeldByMost ln' l' i ↔ HeldByMost ln l i := by
  unfold HeldByMost counters
  rw [hmatch, h.last_log_index]

/-- Nothing that the leader keeps for the term has changed. -/
theorem Leads.same (h : Leads peers ln l) (hstate : ln'.node.state = .Leader l')
    (hmatch : l'.match_index = l.match_index) (hsame : SameHistory ln ln')
    (hcommitted : ln'.last_committed = ln.last_committed) : Leads peers ln' l' := by
  refine ⟨hstate, by rw [hmatch]; exact h.tracked,
    by rw [hmatch, hsame.last_log_index]; exact h.bounded, h.ordered.same hsame, ?_⟩
  intro i hi hcur hheld
  rw [hsame.horizon] at hi
  rw [hsame.get_term_at, hsame.current_term] at hcur
  rw [hcommitted]
  exact h.complete i hi hcur ((hsame.heldByMost hmatch i).mp hheld)

/-! ## A proposal -/

/-- A new entry leaves the terms of the others as they are. -/
theorem append_term (ln : LogicalNode α) (command : α) (i : Nat) :
    LogicalNode.get_term_at { ln with
        node := ln.node.append_entries [⟨ln.last_log_index + 1, ln.current_term, command⟩] } i =
      if i = ln.last_log_index + 1 then ln.current_term else ln.get_term_at i := by
  have hhorizon : ln.node.last_included_index ≤ ln.last_log_index := horizon_le_last ln.node.disk
  have hread : (ln.node.append_entries
      [⟨ln.last_log_index + 1, ln.current_term, command⟩]).disk.read_entry i =
      if i = ln.last_log_index + 1 then some ⟨ln.last_log_index + 1, ln.current_term, command⟩
      else ln.node.disk.read_entry i := by
    change (ln.node.disk.log.insertAll
      [(ln.last_log_index + 1, ⟨ln.last_log_index + 1, ln.current_term, command⟩)]).get? i = _
    unfold OrdMap.insertAll
    rw [List.foldl_cons, List.foldl_nil, OrdMap.get?_insert]
    rfl
  unfold LogicalNode.get_term_at RaftNode.get_term_at
  dsimp only
  rw [hread]
  change (if i = 0 then 0 else if i = ln.node.last_included_index then ln.node.last_included_term
    else _) = _
  by_cases hnew : i = ln.last_log_index + 1
  · rw [if_neg (by omega), if_neg (by omega), if_pos hnew, if_pos hnew]
    rfl
  · rw [if_neg hnew, if_neg hnew]

theorem Leads.propose (h : Leads peers ln l) (hpeers : peers ≠ []) (command : α) :
    Leads peers { ln with
      node := ln.node.append_entries [⟨ln.last_log_index + 1, ln.current_term, command⟩] } l := by
  set ln' : LogicalNode α := { ln with
    node := ln.node.append_entries [⟨ln.last_log_index + 1, ln.current_term, command⟩] } with hln'
  have hhorizon : ln.node.last_included_index ≤ ln.last_log_index := horizon_le_last ln.node.disk
  have hnext : Consecutive ln.node.disk.last_log_index
      [⟨ln.last_log_index + 1, ln.current_term, command⟩] := ⟨rfl, trivial⟩
  have hlast : ln'.last_log_index = ln.last_log_index + 1 := append_last hnext
  have hhorizon' : ln'.node.last_included_index = ln.node.last_included_index := rfl
  have hcurrent : ln'.current_term = ln.current_term := rfl
  have hterm := append_term ln command
  rw [← hln'] at hterm
  refine ⟨h.state, h.tracked, fun p i hp => ?_, ⟨fun i j hi hij hj => ?_, fun i hi hle => ?_⟩,
    fun i hi hcur hheld => ?_⟩
  · rw [hlast]
    exact (h.bounded p i hp).trans (Nat.le_succ _)
  · rw [hlast] at hj
    rw [hhorizon'] at hi
    rw [hterm i, hterm j]
    by_cases hnew : j = ln.last_log_index + 1
    · rw [if_pos hnew]
      split
      · exact le_rfl
      · exact h.ordered.le_current i hi (by omega)
    · rw [if_neg hnew, if_neg (by omega)]
      exact h.ordered.mono i j hi hij (by omega)
  · rw [hlast] at hle
    rw [hhorizon'] at hi
    rw [hterm i, hcurrent]
    split
    · exact le_rfl
    · exact h.ordered.le_current i hi (by omega)
  · have hle : i ≤ ln'.last_log_index := hheld.le_last fun p j hp => by
      rw [hlast]
      exact (h.bounded p j hp).trans (Nat.le_succ _)
    rw [hlast] at hle
    rw [hhorizon'] at hi
    rw [hterm i, hcurrent] at hcur
    by_cases hnew : i = ln.last_log_index + 1
    · -- no peer has the new entry
      exact absurd hheld (not_heldByMost hpeers h.tracked fun p j hp => by
        have := h.bounded p j hp
        omega)
    · rw [if_neg hnew] at hcur
      refine h.complete i hi hcur ?_
      have hself : ([ln'.last_log_index].filter fun x => i ≤ x).length =
          ([ln.last_log_index].filter fun x => i ≤ x).length := by
        rw [List.filter_cons_of_pos (by simpa [hlast] using hle),
          List.filter_cons_of_pos (by simp only [decide_eq_true_eq]; omega)]
        rfl
      unfold HeldByMost counters at hheld ⊢
      simp only [List.filter_append, List.length_append, List.length_singleton, hself]
        at hheld ⊢
      exact hheld

/-! ## A response -/

/-- What a step does to the commit index of a leader. -/
structure Commits (ln ln' : LogicalNode α) : Prop where
  mono : ln.last_committed ≤ ln'.last_committed
  sound : ln.last_committed < ln'.last_committed → ∃ l', ln'.node.state = .Leader l' ∧
    ln'.get_term_at ln'.last_committed = ln'.current_term ∧ HeldByMost ln' l' ln'.last_committed

theorem Commits.of_eq (h : ln'.last_committed = ln.last_committed) : Commits ln ln' :=
  ⟨h.ge, fun hlt => absurd hlt (by omega)⟩

/-- The commit index moves to an index of the log past it. -/
theorem advance_last_committed_up (hp : ln.is_poisoned = false) {index : Nat}
    (hup : ln.last_committed < index) (hle : index ≤ ln.last_log_index) :
    ln.advance_last_committed index = ({ ln with
      node := { ln.node.write (SledStorage.save_last_committed index) with
        last_committed := index } }, .ok ()) := by
  have hup : index > ln.node.last_committed := hup
  have hlow : ¬index < ln.node.last_committed := not_lt.mpr hup.le
  have hhigh : ¬index > ln.node.last_log_index := not_lt.mpr hle
  unfold LogicalNode.advance_last_committed RaftNode.advance_last_committed
    RaftNode.update_commit_index_only
  rw [if_neg (by simp [hp]), if_neg hlow]
  dsimp only
  rw [if_neg hhigh, if_pos hup]

/-- The commit index takes the median when that is past it and of the current term. -/
theorem update_leader_last_committed_eq (hstate : ln.node.state = .Leader l) :
    update_leader_last_committed ln =
      if median (counters ln l) > ln.last_committed ∧
          ln.get_term_at (median (counters ln l)) = ln.current_term then
        ln.advance_last_committed (median (counters ln l))
      else (ln, .ok ()) := by
  unfold update_leader_last_committed
  rw [if_neg (by simp [not_poisoned hstate (by simp)]), hstate]
  rfl

/-- A look at the median takes every index that can be committed. -/
theorem update_leader_last_committed_leads (hstate : ln.node.state = .Leader l)
    (htracked : ∀ p, l.match_index.get? p ≠ none ↔ p ∈ peers)
    (hbounded : ∀ p i, l.match_index.get? p = some i → i ≤ ln.last_log_index)
    (hordered : TermsOrdered ln) :
    Leads peers (update_leader_last_committed ln).1 l ∧
      Commits ln (update_leader_last_committed ln).1 ∧
      (update_leader_last_committed ln).2 = .ok () := by
  have hne : counters ln l ≠ [] := by simp [counters]
  have hmost : HeldByMost ln l (median (counters ln l)) := median_le_of_most _ hne
  have hle : median (counters ln l) ≤ ln.last_log_index := hmost.le_last hbounded
  -- whatever is held by most and is of the term, the median is of the term as well
  have hmedian : ∀ i, ln.node.last_included_index ≤ i → ln.get_term_at i = ln.current_term →
      HeldByMost ln l i → i ≤ median (counters ln l) ∧
        ln.get_term_at (median (counters ln l)) = ln.current_term := by
    intro i hi hcur hheld
    have him := le_median_of_most _ hheld
    refine ⟨him, le_antisymm (hordered.le_current _ (hi.trans him) hle) ?_⟩
    rw [← hcur]
    exact hordered.mono i _ hi him hle
  rw [update_leader_last_committed_eq hstate]
  split
  · rename_i hcond
    obtain ⟨hgt, hterm⟩ := hcond
    rw [advance_last_committed_up (not_poisoned hstate (by simp)) hgt hle]
    have hsame : SameHistory ln { ln with
        node := { ln.node.write (SledStorage.save_last_committed (median (counters ln l))) with
          last_committed := median (counters ln l) } } := ⟨rfl, rfl, rfl, rfl⟩
    refine ⟨⟨hstate, htracked, ?_, hordered.same hsame, fun i hi hcur hheld => ?_⟩,
      ⟨hgt.le, fun _ => ⟨l, hstate, ?_, (hsame.heldByMost rfl _).mpr hmost⟩⟩, rfl⟩
    · rw [hsame.last_log_index]
      exact hbounded
    · exact (hmedian i hi hcur ((hsame.heldByMost rfl i).mp hheld)).1
    · exact (hsame.get_term_at _).trans hterm
  · rename_i hcond
    refine ⟨⟨hstate, htracked, hbounded, hordered, fun i hi hcur hheld => ?_⟩, .of_eq rfl, rfl⟩
    obtain ⟨him, hterm⟩ := hmedian i hi hcur hheld
    by_contra hlt
    exact hcond ⟨lt_of_lt_of_le (not_le.mp hlt) him, hterm⟩

theorem acknowledge_match (l : Leader) (peer_id : NodeId) (quorum_size : Nat) :
    (l.acknowledge_heartbeat peer_id quorum_size).match_index = l.match_index := by
  unfold Leader.acknowledge_heartbeat
  dsimp only
  split <;> rfl

/-- The answer of a peer leaves its match index or replaces it by what the peer has. -/
theorem reconcile_peer_match {peer_id : NodeId} {term : Nat} {outcome : ReplicationOutcome}
    {updated : Bool} (hrec : reconcile_peer l peer_id term outcome = .ok (l', updated)) :
    updated = false ∧ l'.match_index = l.match_index ∨
      updated = true ∧ l'.match_index = l.match_index.insert peer_id outcome.matched := by
  cases outcome with
  | AppendEntries sent_prev_index sent_entries_len response =>
    simp only [reconcile_peer] at hrec
    split at hrec
    · rename_i hsuccess
      split at hrec
      · cases hrec
      rename_i new_match hmatch
      obtain ⟨rfl, -⟩ := checked_add_ok hmatch
      split at hrec
      · cases hrec
      split at hrec
      · obtain ⟨rfl, rfl⟩ := Prod.mk.inj (Except.ok.inj hrec)
        refine .inr ⟨rfl, ?_⟩
        rw [ReplicationOutcome.matched, if_pos hsuccess]
      · obtain ⟨rfl, rfl⟩ := Prod.mk.inj (Except.ok.inj hrec)
        exact .inl ⟨rfl, rfl⟩
    · split at hrec
      · split at hrec
        · cases hrec
        · obtain ⟨rfl, rfl⟩ := Prod.mk.inj (Except.ok.inj hrec)
          exact .inl ⟨rfl, rfl⟩
      · split at hrec
        · cases hrec
        · obtain ⟨rfl, rfl⟩ := Prod.mk.inj (Except.ok.inj hrec)
          exact .inl ⟨rfl, rfl⟩
  | InstallSnapshot last_included_index response_term =>
    simp only [reconcile_peer] at hrec
    split at hrec
    · cases hrec
    · obtain ⟨rfl, rfl⟩ := Prod.mk.inj (Except.ok.inj hrec)
      exact .inr ⟨rfl, rfl⟩

/-- What holds of the node as long as it leads. -/
def Leading (peers : List NodeId) (ln : LogicalNode α) : Prop :=
  ∀ l, ln.node.state = .Leader l → Leads peers ln l

theorem leading_of_role (hrole : ln.node_role ≠ .Leader) : Leading peers ln := by
  intro l hl
  simp [LogicalNode.node_role, hl, RoleState.node_role] at hrole

/-- A response of a peer that is ahead of the leader's term ends the leadership. -/
theorem into_follower_leading (ln : LogicalNode α) (term timeout : Nat) :
    Leading peers (ln.into_follower term none timeout).1 := by
  apply leading_of_role
  cases hp : ln.is_poisoned with
  | false => exact into_follower_role ln term none timeout hp
  | true => exact poisoned_role ((into_follower_quiet ln term none timeout).halted hp)

theorem leaderStep_respond {term : Nat} {peer_id : NodeId} {outcome : ReplicationOutcome}
    {timeout : Nat} (hlead : Leading peers ln)
    (hhonest : HonestPeers peers ln (.Respond term peer_id outcome timeout))
    (hs : leaderStep ln (.Respond term peer_id outcome timeout) = some ln') :
    Leading peers ln' ∧ Commits ln ln' := by
  simp only [leaderStep, process_replication_response] at hs
  by_cases hterm : outcome.term > term
  · rw [if_pos hterm] at hs
    have hnext : Leading peers (ln.into_follower outcome.term none timeout).1 :=
      into_follower_leading ln outcome.term timeout
    have hcommitted := into_follower_committed ln outcome.term none timeout
    generalize ln.into_follower outcome.term none timeout = r at hs hnext hcommitted
    obtain ⟨ln₁, res⟩ := r
    cases res <;> obtain rfl := Option.some.inj hs <;> exact ⟨hnext, .of_eq hcommitted⟩
  rw [if_neg hterm] at hs
  by_cases hp : ln.is_poisoned = true
  · rw [if_pos hp] at hs
    obtain rfl := Option.some.inj hs
    exact ⟨hlead, .of_eq rfl⟩
  rw [if_neg hp] at hs
  cases hst : ln.node.state with
  | Leader l =>
    rw [hst] at hs
    dsimp only at hs
    have h := hlead l hst
    by_cases hcur : ln.current_term = term
    · rw [if_pos hcur] at hs
      obtain ⟨hpeer, hmatched⟩ := hhonest hcur.symm
      have hack := acknowledge_match l peer_id ((l.next_index.entries.length + 1) / 2 + 1)
      generalize l.acknowledge_heartbeat peer_id ((l.next_index.entries.length + 1) / 2 + 1) = l₁
        at hs hack
      cases hrec : reconcile_peer l₁ peer_id term outcome with
      | error e =>
        rw [hrec] at hs
        obtain rfl := Option.some.inj hs
        refine ⟨leading_of_role (poisoned_role (is_poisoned_poison _)), .of_eq rfl⟩
      | ok r =>
        obtain ⟨l₂, updated⟩ := r
        rw [hrec] at hs
        dsimp only at hs
        have hsame : SameHistory ln (ln.withRole (ln.node.transition l₂) .Leader) :=
          ⟨rfl, rfl, rfl, rfl⟩
        rcases reconcile_peer_match hrec with ⟨rfl, hmatch⟩ | ⟨rfl, hmatch⟩
        · obtain rfl := Option.some.inj hs
          refine ⟨fun l' hl' => ?_, .of_eq rfl⟩
          obtain rfl := RoleState.Leader.inj hl'
          exact h.same rfl (hmatch.trans hack) hsame rfl
        · -- the match index has moved, so the median is looked at
          have htracked : ∀ p, l₂.match_index.get? p ≠ none ↔ p ∈ peers := by
            intro p
            rw [hmatch, hack, OrdMap.get?_insert]
            split
            · rename_i heq
              simp [heq, hpeer]
            · exact h.tracked p
          have hbounded : ∀ p i, l₂.match_index.get? p = some i → i ≤ ln.last_log_index := by
            intro p i hp
            rw [hmatch, hack, OrdMap.get?_insert] at hp
            split at hp
            · obtain rfl := Option.some.inj hp
              exact hmatched
            · exact h.bounded p i hp
          have hstate : (ln.withRole (ln.node.transition l₂) .Leader).node.state = .Leader l₂ :=
            rfl
          obtain ⟨hleads, hcommits, hok⟩ :=
            update_leader_last_committed_leads hstate htracked hbounded (h.ordered.same hsame)
          have hagain : (ln.withRole (ln.node.transition l₁) .Leader).withRole
              ((ln.withRole (ln.node.transition l₁) .Leader).node.transition l₂) .Leader =
              ln.withRole (ln.node.transition l₂) .Leader := rfl
          rw [if_pos rfl, hagain] at hs
          generalize update_leader_last_committed
            (ln.withRole (ln.node.transition l₂) .Leader) = r at hs hleads hcommits hok
          obtain ⟨ln₁, res⟩ := r
          obtain rfl : res = .ok () := hok
          obtain rfl := Option.some.inj hs
          refine ⟨fun l' hl' => ?_, ⟨hcommits.mono, hcommits.sound⟩⟩
          obtain rfl := RoleState.Leader.inj (hl'.symm.trans hleads.state)
          exact hleads
    · rw [if_neg hcur] at hs
      obtain rfl := Option.some.inj hs
      exact ⟨hlead, .of_eq rfl⟩
  | Follower f =>
    rw [hst] at hs
    obtain rfl := Option.some.inj hs
    exact ⟨hlead, .of_eq rfl⟩
  | PreCandidate p =>
    rw [hst] at hs
    obtain rfl := Option.some.inj hs
    exact ⟨hlead, .of_eq rfl⟩
  | Candidate c =>
    rw [hst] at hs
    obtain rfl := Option.some.inj hs
    exact ⟨hlead, .of_eq rfl⟩
  | Poisoned =>
    rw [hst] at hs
    obtain rfl := Option.some.inj hs
    exact ⟨hlead, .of_eq rfl⟩

/-- A proposal is refused, or appended, or the log is full and the node halts. -/
theorem propose_result (ln : LogicalNode α) (command : α) :
    (ln.propose command).1 = ln ∨
    (ln.propose command).1.is_poisoned = true ∧
      (ln.propose command).1.last_committed = ln.last_committed ∨
    (∃ l, ln.node.state = .Leader l) ∧ (ln.propose command).1 = { ln with
      node := ln.node.append_entries [⟨ln.last_log_index + 1, ln.current_term, command⟩] } := by
  rcases propose_cases ln command with ⟨hno, -⟩ | ⟨hl, -, heq⟩
  · unfold LogicalNode.propose at hno ⊢
    split at hno
    · dsimp only [RaftNode.propose] at hno ⊢
      split at hno
      · exact absurd rfl (hno _)
      · rename_i hres
        split at hres
        · cases hres
          exact .inr (.inl ⟨is_poisoned_poison _, rfl⟩)
        · cases hres
    · exact .inl rfl
    · exact .inl rfl
  · exact .inr (.inr ⟨hl, heq⟩)

theorem leaderStep_leading {a : LeaderAct α} (hlead : Leading peers ln)
    (hhonest : HonestPeers peers ln a) (hasked : peers ≠ [] ∨ ∀ command, a ≠ .Propose command)
    (hs : leaderStep ln a = some ln') : Leading peers ln' ∧ Commits ln ln' := by
  cases a with
  | Respond term peer_id outcome timeout => exact leaderStep_respond hlead hhonest hs
  | Propose command =>
    have hpeers := hasked.resolve_right fun hno => hno command rfl
    obtain rfl := Option.some.inj hs
    rcases propose_result ln command with heq | ⟨hp, hcommitted⟩ | ⟨⟨l, hst⟩, heq⟩
    · rw [heq]
      exact ⟨hlead, .of_eq rfl⟩
    · exact ⟨leading_of_role (poisoned_role hp), .of_eq hcommitted⟩
    · rw [heq]
      refine ⟨fun l' hl' => ?_, .of_eq rfl⟩
      obtain rfl := RoleState.Leader.inj (hst.symm.trans hl')
      exact (hlead _ hst).propose hpeers command

/-! ## The whole leadership -/

/-- More than half of the cluster has the index: the peers that the leader has seen to have it,
and the leader itself. -/
def HasMajority (peers : List NodeId) (ln : LogicalNode α) (l : Leader) (i : Nat) : Prop :=
  peers.toFinset.card + 1 <
    2 * ((peers.toFinset.filter fun p => i ≤ (l.match_index.get? p).getD 0).card +
      if i ≤ ln.last_log_index then 1 else 0)

instance (peers : List NodeId) (ln : LogicalNode α) (l : Leader) (i : Nat) :
    Decidable (HasMajority peers ln l i) := inferInstanceAs (Decidable (_ < _))

theorem heldByMost_iff (htracked : ∀ p, l.match_index.get? p ≠ none ↔ p ∈ peers) (i : Nat) :
    HeldByMost ln l i ↔ HasMajority peers ln l i := by
  have hall : l.match_index.keysWhere (fun _ => true) = peers.toFinset := by
    ext p
    rw [OrdMap.mem_keysWhere, List.mem_toFinset, ← htracked, Option.ne_none_iff_exists']
    simp
  have hhave : l.match_index.keysWhere (fun x => i ≤ x) =
      peers.toFinset.filter fun p => i ≤ (l.match_index.get? p).getD 0 := by
    ext p
    rw [OrdMap.mem_keysWhere, Finset.mem_filter, List.mem_toFinset, ← htracked]
    cases l.match_index.get? p with
    | none => simp
    | some v => simp
  have hlength := l.match_index.card_keysWhere fun _ => true
  have hcount := l.match_index.card_keysWhere fun x => i ≤ x
  rw [hall, List.filter_true] at hlength
  rw [hhave] at hcount
  have hself : ([ln.last_log_index].filter fun x => i ≤ x).length =
      if i ≤ ln.last_log_index then 1 else 0 := by
    by_cases hi : i ≤ ln.last_log_index
    · rw [if_pos hi, List.filter_cons_of_pos (by simpa using hi)]
      rfl
    · rw [if_neg hi, List.filter_cons_of_neg (by simpa using hi)]
      rfl
  unfold HeldByMost HasMajority counters
  rw [List.filter_append, List.length_append, List.length_append, List.length_singleton, hself,
    hlength, hcount]

theorem leader_new_match {last_log_index last_heartbeat : Nat}
    (hnew : Leader.new peers last_log_index last_heartbeat = .ok l) (p : NodeId) :
    l.match_index.get? p = if p ∈ peers then some 0 else none := by
  unfold Leader.new at hnew
  dsimp only at hnew
  split at hnew
  · rename_i hnil
    obtain rfl := Except.ok.inj hnew
    simp [hnil]
  · split at hnew
    · cases hnew
    · obtain rfl := Except.ok.inj hnew
      rw [OrdMap.get?_insertAll_const, OrdMap.get?_empty]

/-- At the start no peer has anything, as far as the leader knows. -/
theorem into_leader_leading {c : Candidate} (hcand : ln.node.state = .Candidate c)
    (hordered : TermsOrdered ln)
    (hstart : peers ≠ [] ∨ ∀ i, ln.node.last_included_index ≤ i → i ≤ ln.last_log_index →
      ln.get_term_at i = ln.current_term → i ≤ ln.last_committed) :
    Leading peers (ln.into_leader peers).1 := by
  intro l hl
  unfold LogicalNode.into_leader at hl ⊢
  rw [hcand] at hl ⊢
  dsimp only [RaftNode.try_into_leader] at hl ⊢
  cases hnew : Leader.new peers (ln.node.transition c).last_log_index ln.current_tick with
  | error e =>
    rw [hnew] at hl
    cases hl
  | ok leader =>
    rw [hnew] at hl
    obtain rfl := RoleState.Leader.inj hl
    have hmatch := leader_new_match hnew
    have htracked : ∀ p, leader.match_index.get? p ≠ none ↔ p ∈ peers := by
      intro p
      rw [hmatch]
      split <;> simp_all
    have hzero : ∀ p i, leader.match_index.get? p = some i → i = 0 := by
      intro p i hp
      rw [hmatch] at hp
      split at hp
      · exact (Option.some.inj hp).symm
      · cases hp
    have hsame : SameHistory ln (ln.withRole ((ln.node.transition c).transition leader) .Leader) :=
      ⟨rfl, rfl, rfl, rfl⟩
    refine ⟨rfl, htracked, fun p i hp => ?_, hordered.same hsame, fun i hi hcur hheld => ?_⟩
    · rw [hzero p i hp]
      exact Nat.zero_le _
    rw [hsame.horizon] at hi
    rw [hsame.get_term_at, hsame.current_term] at hcur
    have hle : i ≤ ln.last_log_index := hheld.le_last fun p j hp => by
      rw [hzero p j hp]
      exact Nat.zero_le _
    rcases hstart with hpeers | hcommitted
    · by_contra hlt
      refine not_heldByMost hpeers htracked (fun p j hp => ?_) hheld
      rw [hzero p j hp]
      exact Nat.pos_of_ne_zero fun h => hlt (h ▸ Nat.zero_le _)
    · exact hcommitted i hi hle hcur

/-- A leader with a peer has committed every index of its term that most of the cluster has;
it takes its commit index to nothing else, and never back. -/
theorem commit_rule {ln₀ : LogicalNode α} {c : Candidate} (hcand : ln₀.node.state = .Candidate c)
    (hordered : TermsOrdered ln₀)
    (hstart : peers ≠ [] ∨ ∀ i, ln₀.node.last_included_index ≤ i → i ≤ ln₀.last_log_index →
      ln₀.get_term_at i = ln₀.current_term → i ≤ ln₀.last_committed)
    (hrun : Run leaderStep (fun ln a => HonestPeers peers ln a ∧
      (peers ≠ [] ∨ ∀ command, a ≠ .Propose command)) (ln₀.into_leader peers).1 ln) :
    (∀ l, ln.node.state = .Leader l → ∀ i, ln.node.last_included_index ≤ i →
      ln.get_term_at i = ln.current_term → HasMajority peers ln l i → i ≤ ln.last_committed) ∧
    ∀ a ln', HonestPeers peers ln a → (peers ≠ [] ∨ ∀ command, a ≠ .Propose command) →
      leaderStep ln a = some ln' →
      ln.last_committed ≤ ln'.last_committed ∧
      (ln.last_committed < ln'.last_committed → ∃ l', ln'.node.state = .Leader l' ∧
        ln'.get_term_at ln'.last_committed = ln'.current_term ∧
        HasMajority peers ln' l' ln'.last_committed) := by
  have hleading := hrun.invariant (I := Leading peers)
    (fun _ _ _ h hp hs => (leaderStep_leading h hp.1 hp.2 hs).1)
    (into_leader_leading hcand hordered hstart)
  refine ⟨fun l hl i hi hcur hmaj => ?_, fun a ln' hhonest hasked hs => ?_⟩
  · have h := hleading l hl
    exact h.complete i hi hcur ((heldByMost_iff h.tracked i).mpr hmaj)
  · obtain ⟨hnext, hcommits⟩ := leaderStep_leading hleading hhonest hasked hs
    refine ⟨hcommits.mono, fun hlt => ?_⟩
    obtain ⟨l', hl', hterm, hmost⟩ := hcommits.sound hlt
    exact ⟨l', hl', hterm, (heldByMost_iff (hnext l' hl').tracked _).mp hmost⟩

/-- A node with an empty log that stands for the first term. -/
def standing : LogicalNode Unit :=
  campaigning ⟨⟨0, .settled .new, 0, 0, .Follower ⟨none, 0, 20⟩⟩, 20, 5⟩ 20

theorem commit_rule_proposed :
    ∃ ln, exec leaderStep (standing.into_leader [1, 2]).1
        [.Propose (), .Respond 1 2 (.AppendEntries 0 1 ⟨1, true, 1⟩) 20] = some ln ∧
      ln.last_committed = 1 ∧
      ∀ l, ln.node.state = .Leader l → ∀ i, ln.node.last_included_index ≤ i →
        ln.get_term_at i = ln.current_term → HasMajority [1, 2] ln l i → i ≤ 1 := by
  have hempty : ∀ i, standing.get_term_at i = 0 := fun i => by
    unfold LogicalNode.get_term_at RaftNode.get_term_at
    split
    · rfl
    · split <;> rfl
  have hordered : TermsOrdered standing :=
    ⟨fun i j _ _ _ => by rw [hempty, hempty], fun i _ _ => by rw [hempty]; exact Nat.zero_le _⟩
  have hpeers : ([1, 2] : List NodeId) ≠ [] := by decide
  have hproposed : Run leaderStep (fun ln a => HonestPeers [1, 2] ln a ∧
      (([1, 2] : List NodeId) ≠ [] ∨ ∀ command, a ≠ .Propose command))
      (standing.into_leader [1, 2]).1 ((standing.into_leader [1, 2]).1.propose ()).1 :=
    .tail (a := LeaderAct.Propose ()) (.refl _) ⟨trivial, .inl hpeers⟩ rfl
  have hhonest : HonestPeers [1, 2] ((standing.into_leader [1, 2]).1.propose ()).1
      (.Respond 1 2 (.AppendEntries 0 1 ⟨1, true, 1⟩) 20) := fun _ => ⟨by decide, by decide⟩
  have hrun := hproposed.tail ⟨hhonest, .inl hpeers⟩ rfl
  exact ⟨_, rfl, by decide, (commit_rule rfl hordered (.inl hpeers) hrun).1⟩

/-- Nobody answers a node without peers, so it never looks at its own proposal. -/
theorem lone_proposal_uncommitted :
    ∃ ln l, exec leaderStep (standing.into_leader []).1 [.Propose ()] = some ln ∧
      ln.node.state = .Leader l ∧ ln.node.last_included_index ≤ 1 ∧
      ln.get_term_at 1 = ln.current_term ∧ HasMajority [] ln l 1 ∧ ln.last_committed = 0 := by
  refine ⟨_, _, rfl, rfl, ?_⟩
  decide

end raft_engine.consensus
