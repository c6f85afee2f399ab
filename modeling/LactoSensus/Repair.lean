-- The repair of a follower's log: the leader sends what follows `next_index`,
-- the follower takes it or reports its last index, and the leader moves
-- `next_index`. The backoff never goes below the follower's last index, so a
-- follower whose last entry is of another term is never repaired; and the round
-- that succeeds looks at nothing in front of the entry it is anchored at.
import LactoSensus.Consensus
import LactoSensus.LogView

open common.types
open ordmap
open quorum
open raft_engine.storage
open raft_engine.node
open raft_engine.engine
open raft (Entry)

namespace raft_engine.consensus

variable {α : Type}

/-- A leader and one of its followers, in the same term. -/
structure Repair (α : Type) where
  leader : LogicalNode α
  follower : RaftNode α Follower
deriving DecidableEq

/-- The `next_index` the leader keeps for the peer. -/
def Repair.next_index (r : Repair α) (peer : NodeId) : Nat :=
  match r.leader.node.state with
  | .Leader l => (l.next_index.get? peer).getD 1
  | _ => 1

/-- One round: request, reconciliation, response. Nothing when one of them halts. -/
def exchange (peer : NodeId) (term : Nat) (r : Repair α) :
    Option (Repair α × AppendEntriesResponse) :=
  match build_append_entries_request r.leader peer term r.leader.node_id
    r.leader.last_committed with
  | (ln, .ok (.ok req)) =>
    match r.follower.reconcile_log req.prev_log_index req.prev_log_term req.entries
      req.leader_commit with
    | (fo, .ok result) =>
      let resp : AppendEntriesResponse := ⟨term, result.success, result.last_index⟩
      match process_replication_response ln term peer
        (.AppendEntries req.prev_log_index req.entries.length resp) 0 with
      | (ln, .ok (.ok .Continue)) => some (⟨ln, fo⟩, resp)
      | _ => none
    | _ => none
  | _ => none

/-- Rounds up to the first success; each rejection before it lowers `next_index`. -/
inductive Repaired (peer : NodeId) (term : Nat) : Repair α → Repair α → Prop where
  | success {r r' : Repair α} {resp : AppendEntriesResponse}
      (hex : exchange peer term r = some (r', resp)) (hok : resp.success = true) :
      Repaired peer term r r'
  | reject {r r₁ r' : Repair α} {resp : AppendEntriesResponse}
      (hex : exchange peer term r = some (r₁, resp)) (hno : resp.success = false)
      (hlower : r₁.next_index peer < r.next_index peer) (hrest : Repaired peer term r₁ r') :
      Repaired peer term r r'

/-- The logs of the two are `g` and `f`, as a run of the cluster leaves them. -/
structure Repairing (peer : NodeId) (term next : Nat) (g f : List (Entry α)) (r : Repair α) :
    Prop where
  role : ∃ l, r.leader.node.state = .Leader l ∧ l.next_index.get? peer = some next
  current : r.leader.current_term = term
  term_pos : 0 < term
  leader_log : Uncompacted r.leader.node.disk g
  follower_log : Uncompacted r.follower.disk f
  follower_terms : ∀ e ∈ f, 0 < e.term
  next_pos : 1 ≤ next
  next_le : next ≤ g.length + 1
  leader_bound : g.length < u64Max
  follower_bound : f.length < u64Max

variable {peer : NodeId} {term next b : Nat} {g f : List (Entry α)} {r r' : Repair α}

theorem Repairing.next_index_eq (h : Repairing peer term next g f r) :
    r.next_index peer = next := by
  obtain ⟨l, hl, hget⟩ := h.role
  simp [Repair.next_index, hl, hget]

/-! ## The parts of a round -/

theorem Repairing.build (h : Repairing peer term (b + 1) g f r) (node_id : NodeId)
    (last_committed : Nat) :
    build_append_entries_request r.leader peer term node_id last_committed =
      (r.leader, .ok (.ok
        ⟨term, node_id, b, termAt g b, numbered b (g.drop b), last_committed⟩)) := by
  obtain ⟨l, hl, hget⟩ := h.role
  have hp : r.leader.is_poisoned = false := by
    simp [LogicalNode.is_poisoned, hl, RoleState.node_role]
  have hlast : r.leader.last_log_index = g.length := h.leader_log.last_log_index
  have hterm : r.leader.get_term_at b = termAt g b :=
    RaftNode.get_term_at_view h.leader_log b
  simp [build_append_entries_request, hp, hl, hget, hlast, hterm, checked_sub,
    h.leader_log.read_entries b]

theorem reconcile_log_ok {n : RaftNode α Follower} {l : List (Entry α)}
    (h : Uncompacted n.disk l) (hpos : ∀ e ∈ l, 0 < e.term) (hl : l.length < u64Max)
    (b t : Nat) (es : List (Entry α)) (leader_commit : Nat) (hes : b + es.length < u64Max)
    (e : NodeError) :
    (n.reconcile_log b t (numbered b es) leader_commit).2 ≠ .error e := by
  unfold RaftNode.reconcile_log
  split
  · simp
  rename_i hyes
  have hcons : Consistent l b t :=
    (RaftNode.verify_log_consistency_view h b t).mp (by simpa using hyes)
  obtain ⟨l₁, hcut⟩ := RaftNode.truncateConflict_cut h hpos b es
  have hlen : (n.truncateConflict (numbered b es)).last_log_index = l₁.length :=
    RaftNode.last_log_index_view (hcut.view h)
  have hle : l₁.length ≤ l.length := hcut.length_le
  have hb := hcut.le_length hcons.le_length
  dsimp only
  rw [hlen, checked_add, if_pos (by omega)]
  dsimp only
  obtain ⟨res, hres⟩ := gatherAppend_ok es hb (by omega) hes
  rw [hres]
  cases res <;> simp

/-- A leader with a positive term never finds its median past its log. -/
theorem update_leader_last_committed_ok (ln : LogicalNode α) {l : Leader}
    (hst : ln.node.state = .Leader l) (hlog : Uncompacted ln.node.disk g)
    (hpos : 0 < ln.current_term) : (update_leader_last_committed ln).2 = .ok () := by
  have hp : ln.is_poisoned = false := by
    simp [LogicalNode.is_poisoned, hst, RoleState.node_role]
  have hlast : ln.node.last_log_index = g.length := hlog.last_log_index
  unfold update_leader_last_committed
  rw [if_neg (by simp [hp]), hst]
  dsimp only
  split
  swap
  · rfl
  rename_i hcond
  obtain ⟨hgt, hterm⟩ := hcond
  have hle : median (l.match_index.values ++ [ln.last_log_index]) ≤ g.length := by
    by_contra hlt
    rw [LogicalNode.get_term_at, RaftNode.get_term_at_view hlog,
      termAt_of_length_lt (by omega)] at hterm
    omega
  simp only [LogicalNode.advance_last_committed, hp, Bool.false_eq_true, if_false,
    RaftNode.advance_last_committed, RaftNode.update_commit_index_only, hlast]
  have hgt' : ln.node.last_committed < median (l.match_index.values ++ [ln.last_log_index]) := hgt
  rw [if_neg (by omega), if_neg (by omega), if_pos hgt']

/-! ## One round -/

/-- The leader after a rejection: only its counters for the peer have changed. -/
theorem Repairing.rejected (h : Repairing peer term (b + 1) g f r) (len : Nat) :
    ∃ ln l', process_replication_response r.leader term peer
        (.AppendEntries b len ⟨term, false, f.length⟩) 0 = (ln, .ok (.ok .Continue)) ∧
      ln.node.state = .Leader l' ∧ ln.current_term = term ∧ ln.node.disk = r.leader.node.disk ∧
      l'.next_index.get? peer =
        some (if 0 < f.length then min (b + 1) (f.length + 1) else max b 1) := by
  obtain ⟨l, hl, hget⟩ := h.role
  have hp : r.leader.is_poisoned = false := by
    simp [LogicalNode.is_poisoned, hl, RoleState.node_role]
  have hbound := h.follower_bound
  set q := (l.next_index.entries.length + 1) / 2 + 1 with hq
  have hnext : (l.acknowledge_heartbeat peer q).next_index.get? peer = some (b + 1) := by
    rw [← hget]
    unfold Leader.acknowledge_heartbeat
    dsimp only
    split <;> rfl
  unfold process_replication_response
  rw [if_neg (by simp [ReplicationOutcome.term]), if_neg (by simp [hp]), hl]
  dsimp only
  rw [if_pos h.current, ← hq]
  by_cases hf : 0 < f.length
  · have hrec : reconcile_peer (l.acknowledge_heartbeat peer q) peer term
        (.AppendEntries b len ⟨term, false, f.length⟩) =
        .ok ({ l.acknowledge_heartbeat peer q with
          next_index := (l.acknowledge_heartbeat peer q).next_index.insert peer
            (min (b + 1) (f.length + 1)) }, false) := by
      have hadd : f.length + 1 ≤ u64Max := hbound
      simp [reconcile_peer, hnext, hf, checked_add, hadd]
    rw [hrec]
    refine ⟨_, _, rfl, rfl, h.current, rfl, ?_⟩
    rw [if_pos hf]
    simp [LogicalNode.withRole, RaftNode.transition]
  · have hrec : reconcile_peer (l.acknowledge_heartbeat peer q) peer term
        (.AppendEntries b len ⟨term, false, f.length⟩) =
        .ok ({ l.acknowledge_heartbeat peer q with
          next_index := (l.acknowledge_heartbeat peer q).next_index.insert peer (max b 1) },
          false) := by
      simp [reconcile_peer, hnext, hf, checked_sub]
    rw [hrec]
    refine ⟨_, _, rfl, rfl, h.current, rfl, ?_⟩
    rw [if_neg hf]
    simp [LogicalNode.withRole, RaftNode.transition]

/-- The leader takes a success without an error. -/
theorem Repairing.accepted (h : Repairing peer term (b + 1) g f r) (len : Nat)
    (hlen : b + len < u64Max) (last_log_index : Nat) :
    ∃ ln, process_replication_response r.leader term peer
      (.AppendEntries b len ⟨term, true, last_log_index⟩) 0 = (ln, .ok (.ok .Continue)) := by
  obtain ⟨l, hl, hget⟩ := h.role
  have hp : r.leader.is_poisoned = false := by
    simp [LogicalNode.is_poisoned, hl, RoleState.node_role]
  unfold process_replication_response
  rw [if_neg (by simp [ReplicationOutcome.term]), if_neg (by simp [hp]), hl]
  dsimp only
  rw [if_pos h.current]
  set l₁ := l.acknowledge_heartbeat peer ((l.next_index.entries.length + 1) / 2 + 1)
  have hadd : b + len + 1 ≤ u64Max := hlen
  have hadd' : b + len ≤ u64Max := by omega
  have hrec : ∃ l₂ moved, reconcile_peer l₁ peer term
      (.AppendEntries b len ⟨term, true, last_log_index⟩) = .ok (l₂, moved) := by
    simp only [reconcile_peer, if_true, checked_add, hadd, hadd']
    split
    · exact ⟨_, _, rfl⟩
    · exact ⟨_, _, rfl⟩
  obtain ⟨l₂, moved, hrec⟩ := hrec
  rw [hrec]
  dsimp only
  cases moved with
  | false => exact ⟨_, rfl⟩
  | true =>
    have hpos : 0 < r.leader.current_term := h.current ▸ h.term_pos
    have hok := update_leader_last_committed_ok
      ((r.leader.withRole (r.leader.node.transition l₁) .Leader).withRole
        ((r.leader.withRole (r.leader.node.transition l₁) .Leader).node.transition l₂)
          .Leader) rfl h.leader_log hpos
    rw [if_pos rfl]
    generalize update_leader_last_committed _ = res at hok
    obtain ⟨ln, res⟩ := res
    dsimp only at hok
    rw [hok]
    exact ⟨_, rfl⟩

/-- The follower's log after a success: what the first loop leaves of it, and the rest of
the leader's. -/
def Spliced (b : Nat) (g f f' : List (Entry α)) : Prop :=
  ∃ (n n₁ : RaftNode α Follower) (l₁ : List (Entry α)), Cut n f b (g.drop b) n₁ l₁ ∧
    f' = l₁ ++ (g.drop b).drop (l₁.length - b)

/-- Everything a round can do. -/
theorem exchange_cases (h : Repairing peer term (b + 1) g f r) :
    (¬Consistent f b (termAt g b) ∧
      ∃ r', exchange peer term r = some (r', ⟨term, false, f.length⟩) ∧
        Repairing peer term
          (if 0 < f.length then min (b + 1) (f.length + 1) else max b 1) g f r') ∨
    (Consistent f b (termAt g b) ∧
      ∃ r' f', exchange peer term r = some (r', ⟨term, true, f'.length⟩) ∧
        Uncompacted r'.follower.disk f' ∧ Spliced b g f f') := by
  have hb : b ≤ g.length := by
    have := h.next_le
    omega
  have hgb := h.leader_bound
  have hcases := RaftNode.reconcile_log_cases h.follower_log h.follower_terms b (termAt g b)
    (g.drop b) r.leader.last_committed
  have herr := reconcile_log_ok h.follower_log h.follower_terms h.follower_bound b (termAt g b)
    (g.drop b) r.leader.last_committed (by rw [List.length_drop]; omega)
  unfold exchange
  rw [h.build]
  dsimp only
  generalize r.follower.reconcile_log b (termAt g b) (numbered b (g.drop b))
    r.leader.last_committed = res at hcases herr
  cases hcases with
  | failed n₁ l₁ e hcons hcut => exact absurd rfl (herr e)
  | rejected hno =>
    left
    obtain ⟨ln, l', hproc, hst, hcur, hdisk, hnext⟩ :=
      h.rejected (numbered b (g.drop b)).length
    dsimp only
    rw [hproc]
    refine ⟨hno, _, rfl, ?_⟩
    have hnp := h.next_le
    have hnext_pos : 1 ≤ if 0 < f.length then min (b + 1) (f.length + 1) else max b 1 := by
      split <;> omega
    have hnext_le : (if 0 < f.length then min (b + 1) (f.length + 1) else max b 1) ≤
        g.length + 1 := by
      split <;> omega
    exact ⟨⟨l', hst, hnext⟩, hcur, h.term_pos, hdisk ▸ h.leader_log, h.follower_log,
      h.follower_terms, hnext_pos, hnext_le, h.leader_bound, h.follower_bound⟩
  | done n₁ n₂ l₁ hcons hcut happ =>
    right
    obtain ⟨ln, hproc⟩ := h.accepted (numbered b (g.drop b)).length
      (by rw [numbered_length, List.length_drop]; omega)
      (l₁ ++ (g.drop b).drop (l₁.length - b)).length
    dsimp only
    rw [hproc]
    exact ⟨hcons, _, _, rfl, happ.log, r.follower, n₁, l₁, hcut, rfl⟩

/-! ## What a success leaves -/

/-- The follower keeps its entries up to the first term that differs, and has the leader's
behind it. -/
theorem Spliced.entryAt {f' : List (Entry α)} (hs : Spliced b g f f') (hbf : b ≤ f.length)
    {i : Nat} (hi : i ≤ g.length) :
    entryAt f' i = entryAt g i ∨
      i ≤ f.length ∧ (∀ j, b < j → j ≤ i → termAt f j = termAt g j) ∧
        entryAt f' i = entryAt f i := by
  obtain ⟨n, n₁, l₁, hcut, rfl⟩ := hs
  have hbl := hcut.le_length hbf
  rcases Nat.lt_or_ge l₁.length i with hlt | hle
  · left
    obtain ⟨k, rfl⟩ : ∃ k, i = k + 1 := ⟨i - 1, by omega⟩
    rw [entryAt_succ, entryAt_succ, List.getElem?_append_right (by omega), List.drop_drop,
      List.getElem?_drop, show b + (l₁.length - b) + (k - l₁.length) = k by omega]
  · right
    have hif : i ≤ f.length := hle.trans hcut.length_le
    refine ⟨hif, (hcut.reach hif hi).mp hle, ?_⟩
    rw [entryAt_extend (List.prefix_append _ _) hle, entryAt_extend hcut.isPrefix hle]

/-- The two logs have the same entries up to `p`, and behind it as far as their terms
agree. -/
def SameEntries (p : Nat) (g f : List (Entry α)) : Prop :=
  ∀ i ≤ min f.length g.length, (∀ j, p < j → j ≤ i → termAt f j = termAt g j) →
    entryAt f i = entryAt g i

/-- After a success the follower has the leader's entries exactly when those it has kept are
the leader's. -/
theorem Spliced.repairs_iff {f' : List (Entry α)} (hs : Spliced b g f f') (hbf : b ≤ f.length) :
    (∀ i ≤ g.length, node.entryAt f' i = node.entryAt g i) ↔ SameEntries b g f := by
  constructor
  · intro hall i hi hterms
    obtain ⟨n, n₁, l₁, hcut, rfl⟩ := hs
    have hle := (hcut.reach (by omega) (by omega)).mpr hterms
    rw [← hall i (by omega), entryAt_extend (List.prefix_append _ _) hle,
      entryAt_extend hcut.isPrefix hle]
  · intro hsame i hi
    rcases hs.entryAt hbf hi with heq | ⟨hif, hterms, heq⟩
    · exact heq
    · rw [heq]
      exact hsame i (by omega) hterms

/-! ## All rounds -/

/-- The index the rounds end at: one before `next_index`, or the follower's last. -/
def anchor (next : Nat) (f : List (Entry α)) : Nat := min (next - 1) f.length

/-- A rejection leaves the anchor where it is. -/
theorem anchor_rejected (b : Nat) (f : List (Entry α)) :
    anchor (if 0 < f.length then min (b + 1) (f.length + 1) else max b 1) f =
      anchor (b + 1) f := by
  unfold anchor
  split <;> omega

theorem SameEntries.term_at {p : Nat} (hsame : SameEntries p g f) (hpf : p ≤ f.length)
    (hpg : p ≤ g.length) : termAt f p = termAt g p := by
  unfold termAt
  rw [hsame p (by omega) (fun j _ _ => by omega)]

/-- Where the two logs have the same entries the rounds end with a success, and the follower
has the leader's log. -/
theorem Repairing.repaired (h : Repairing peer term (b + 1) g f r)
    (hsame : SameEntries (anchor (b + 1) f) g f) :
    ∃ r' f', Repaired peer term r r' ∧ Uncompacted r'.follower.disk f' ∧
      ∀ i ≤ g.length, entryAt f' i = entryAt g i := by
  -- each rejection lowers `b` and leaves the anchor
  induction b using Nat.strong_induction_on generalizing r with
  | _ b ih =>
    have hbg : b ≤ g.length := by
      have := h.next_le
      omega
    rcases exchange_cases h with ⟨hno, r₁, hex, h₁⟩ | ⟨hcons, r', f', hex, hlog, hs⟩
    · have hlt : f.length < b := by
        by_contra hle
        have hb : anchor (b + 1) f = b := by
          unfold anchor
          omega
        rw [hb] at hsame
        exact hno (.inr ⟨by omega, hsame.term_at (by omega) hbg⟩)
      obtain ⟨c, hc, hcb⟩ : ∃ c,
          (if 0 < f.length then min (b + 1) (f.length + 1) else max b 1) = c + 1 ∧ c < b := by
        by_cases hf : 0 < f.length
        · exact ⟨f.length, by rw [if_pos hf]; omega, hlt⟩
        · exact ⟨b - 1, by rw [if_neg hf]; omega, by omega⟩
      rw [← anchor_rejected, hc] at hsame
      rw [hc] at h₁
      obtain ⟨r', f', hrep, hlog, hall⟩ := ih c hcb h₁ hsame
      refine ⟨r', f', .reject hex rfl ?_ hrep, hlog, hall⟩
      rw [h₁.next_index_eq, h.next_index_eq]
      omega
    · have hbf := hcons.le_length
      have hb : anchor (b + 1) f = b := by
        unfold anchor
        omega
      rw [hb] at hsame
      exact ⟨r', f', .success hex rfl, hlog, (hs.repairs_iff hbf).mpr hsame⟩

/-- Rounds that end with a success end at the anchor. -/
theorem Repairing.spliced (h : Repairing peer term (b + 1) g f r)
    (hrep : Repaired peer term r r') :
    Consistent f (anchor (b + 1) f) (termAt g (anchor (b + 1) f)) ∧
      ∃ f', Uncompacted r'.follower.disk f' ∧ Spliced (anchor (b + 1) f) g f f' := by
  induction hrep generalizing b with
  | success hex hok =>
    rcases exchange_cases h with ⟨-, r₁, hex', -⟩ | ⟨hcons, r₁, f', hex', hlog, hs⟩
    · rw [hex] at hex'
      obtain ⟨-, rfl⟩ := Prod.mk.inj (Option.some.inj hex')
      cases hok
    · rw [hex] at hex'
      obtain ⟨rfl, -⟩ := Prod.mk.inj (Option.some.inj hex')
      have hb : anchor (b + 1) f = b := by
        have := hcons.le_length
        unfold anchor
        omega
      rw [hb]
      exact ⟨hcons, f', hlog, hs⟩
  | reject hex hno hlower hrest ih =>
    rcases exchange_cases h with ⟨-, r₁, hex', h₁⟩ | ⟨-, r', f', hex', -⟩
    · rw [hex] at hex'
      obtain ⟨rfl, -⟩ := Prod.mk.inj (Option.some.inj hex')
      have hanchor := anchor_rejected b f
      have hpos := h₁.next_pos
      generalize (if 0 < f.length then min (b + 1) (f.length + 1) else max b 1) = next'
        at h₁ hanchor hpos
      obtain ⟨c, rfl⟩ := Nat.exists_eq_add_of_le' hpos
      rw [← hanchor]
      exact ih h₁
    · rw [hex] at hex'
      obtain ⟨-, rfl⟩ := Prod.mk.inj (Option.some.inj hex')
      cases hno

/-- The rounds repair the follower exactly when the two logs have the same entries up to the
anchor, and behind it as far as their terms agree. -/
theorem follower_repaired_iff (h : Repairing peer term next g f r) :
    (∃ r', Repaired peer term r r' ∧
      ∀ i ≤ g.length, r'.follower.disk.read_entry i = r.leader.node.disk.read_entry i) ↔
    ∀ i ≤ min r.follower.last_log_index r.leader.last_log_index,
      (∀ j, min (next - 1) r.follower.last_log_index < j → j ≤ i →
        r.follower.get_term_at j = r.leader.get_term_at j) →
      r.follower.disk.read_entry i = r.leader.node.disk.read_entry i := by
  obtain ⟨b, rfl⟩ := Nat.exists_eq_add_of_le' h.next_pos
  have hlast : r.follower.last_log_index = f.length :=
    RaftNode.last_log_index_view h.follower_log
  have hlast' : r.leader.last_log_index = g.length := h.leader_log.last_log_index
  have hfollower := RaftNode.get_term_at_view h.follower_log
  have hleader : ∀ i, r.leader.get_term_at i = termAt g i :=
    RaftNode.get_term_at_view h.leader_log
  have hread : ∀ i, r.leader.node.disk.read_entry i = entryAt g i := h.leader_log.get?
  have hread' : ∀ i, r.follower.disk.read_entry i = entryAt f i := h.follower_log.get?
  simp only [hlast, hlast', hfollower, hleader, hread, hread']
  change _ ↔ SameEntries (anchor (b + 1) f) g f
  constructor
  · rintro ⟨r', hrep, hall⟩
    obtain ⟨-, f', hlog, hs⟩ := h.spliced hrep
    refine (hs.repairs_iff (Nat.min_le_right _ _)).mp fun i hi => ?_
    rw [← hall i hi, SledStorage.read_entry, hlog.get?]
  · intro hsame
    obtain ⟨r', f', hrep, hlog, hall⟩ := h.repaired hsame
    refine ⟨r', hrep, fun i hi => ?_⟩
    rw [SledStorage.read_entry, hlog.get?, hall i hi]

/-- A leader of term 3 just elected with the log `g`, and a follower with the log `f`. -/
def newLeader (g f : List (Entry Nat)) : Repair Nat :=
  let disk (l : List (Entry Nat)) : SledStorage Nat :=
    ⟨treeOf l, some (3, none), none, none, none⟩
  ⟨⟨⟨1, .settled (disk g), 0, 0,
      .Leader ⟨OrdMap.empty.insert 2 (g.length + 1), OrdMap.empty.insert 2 0, 0, 0, 0, ∅⟩⟩, 0, 1⟩,
    ⟨2, .settled (disk f), 0, 0, ⟨some 1, 0, 5⟩⟩⟩

theorem newLeader_repairing {g f : List (Entry Nat)} (hf : ∀ e ∈ f, 0 < e.term)
    (hg : g.length < u64Max) (hfl : f.length < u64Max) :
    Repairing 2 3 (g.length + 1) g f (newLeader g f) where
  role := ⟨_, rfl, OrdMap.get?_insert_self _ _ _⟩
  current := rfl
  term_pos := by decide
  leader_log := ⟨rfl, rfl, rfl⟩
  follower_log := ⟨rfl, rfl, rfl⟩
  follower_terms := hf
  next_pos := by omega
  next_le := le_rfl
  leader_bound := hg
  follower_bound := hfl

/-- The follower has an entry of term 1 where the leader has one of term 2. -/
theorem newLeader_never_repairs :
    ¬∃ r', Repaired 2 3 (newLeader [⟨1, 10⟩, ⟨2, 20⟩] [⟨1, 10⟩, ⟨1, 11⟩]) r' := by
  rintro ⟨r', hrep⟩
  have h := newLeader_repairing (g := [⟨1, 10⟩, ⟨2, 20⟩]) (f := [⟨1, 10⟩, ⟨1, 11⟩])
    (by simp) (by decide) (by decide)
  obtain ⟨hno, -⟩ := h.spliced hrep
  rcases hno with hzero | ⟨-, hterm⟩
  · exact absurd hzero (by decide)
  · exact absurd hterm (by decide)

/-- A follower that lacks the last entry is repaired. -/
theorem newLeader_repairs :
    ∃ r', Repaired 2 3 (newLeader [⟨1, 10⟩, ⟨2, 20⟩] [⟨1, 10⟩]) r' ∧
      ∀ i ≤ 2, r'.follower.disk.read_entry i =
        (treeOf [(⟨1, 10⟩ : Entry Nat), ⟨2, 20⟩]).get? i := by
  have h := newLeader_repairing (g := [⟨1, 10⟩, ⟨2, 20⟩]) (f := [⟨1, 10⟩])
    (by simp) (by decide) (by decide)
  refine (follower_repaired_iff h).mpr fun i hi _ => ?_
  match i, (hi.trans (by decide) : i ≤ 1) with
  | 0, _ => rfl
  | 1, _ => rfl

end raft_engine.consensus
