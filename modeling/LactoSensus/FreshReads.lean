-- A query that is prompt misses nothing that was answered before it came. What a
-- leader has counted is below the horizon of the probe, unless the probe fails; the
-- store has got there before the query reads, and what it reads later is newer still.
import LactoSensus.Acknowledged
import LactoSensus.Reads
import LactoSensus.Replicas
import LactoSensus.Sequencing

open common.types
open common.proto
open machine
open ordmap
open raft_engine.node
open raft_engine.engine
open raft_engine.shell
open raft_engine.cluster
open raft_engine.recovery
open raft_engine.refinement
open raft_engine.roles
open raft_engine.origins
open raft_engine.replicas
open raft_engine.cluster_probes
open raft_engine.service (await_commit_ok)
open raft_engine.fleet (ReadCall Reached)
open gateway.ingress (check_session_zero enforce_sequence_firewall)
open gateway.queries (asStored QueryStateRequest QueryStateResponse Display NodeAct nodeStep)
open lacto_fsm
open raft (Grows Settled)

namespace gateway.reads

variable {α : Type} {cfg : Config} {c : SnapshotCodec α} {d : Display} {s s' : Service α}
  {cl cl' : Cluster α LactoStore} {a a' : Protocol α} {n : NodeId} {p : Process α}

/-! ## The horizon -/

theorem le_horizon (hdisk : Uncompacted p.shell.inner.node.disk (a.log n)) {k : Nat}
    {e : LogEntry α} (he : p.shell.inner.node.disk.read_entry (k + 1) = some e)
    (hterm : e.term < p.shell.inner.current_term) : k + 1 ≤ horizonOf p.shell.inner := by
  refine le_trans ?_ (le_max_right _ _)
  have hindex : e.index = k + 1 := by
    have hentry : entryAt (a.log n) (k + 1) = some e := (hdisk.get? _).symm.trans he
    rw [entryAt_succ] at hentry
    obtain ⟨x, -, rfl⟩ := Option.map_eq_some_iff.mp hentry
    rfl
  have hmem : e ∈ p.shell.inner.node.disk.log.values :=
    List.mem_map.mpr ⟨(k + 1, e), (OrdMap.get?_eq_some_iff _ _ _).mp he, rfl⟩
  refine List.le_max?_getD_of_mem (List.mem_map.mpr ⟨e, ?_, hindex⟩)
  simpa using ⟨hmem, hterm⟩

/-- A term with a leader was reached by a majority. -/
theorem reached_of_leader (hr : Refines cfg cl a) {t : Nat} (hlead : a.leader t = some n) :
    Reached cfg (fun m => (cl.hosts m).current_term) t := by
  have helection := hr.safe.election
  refine ⟨a.electors t, helection.electors_majority t n hlead, fun m hm => ?_⟩
  dsimp only
  rw [hr.current_term]
  exact helection.voted_le m t _ (helection.electors_voted t n hlead m hm)

/-- Settled entries are of no later term than the one they are settled in. -/
theorem settled_term_le (hsafe : raft.Safe (voters cfg) a) {t : Nat} {l : List (raft.Entry α)}
    (hset : Settled (voters cfg) a t l) {k : Nat} {x : raft.Entry α} (hx : l[k]? = some x) :
    x.term ≤ t := by
  rcases hset with rfl | ⟨u, j, hu, hcommitted, hpre⟩
  · cases hx
  · refine le_trans ?_ hu
    obtain ⟨e, hpos, hget, hterm⟩ := hcommitted.ends
    have hx' := raft.prefix_get hpre hx
    have hlt : k < j := by
      have hlen := (List.getElem?_eq_some_iff.mp hx').1
      rw [List.length_take] at hlen
      omega
    rw [List.getElem?_take_of_lt hlt] at hx'
    rw [← hterm]
    exact hsafe.matching.terms_sorted (hsafe.matching.glog_traced u) hx' hget (by omega)

/-- What a leader has counted is below the horizon of every leader of its term or a later
one. -/
theorem horizon_covers (hr : Refines cfg cl a) (hp : cl.process n = some p) {l : Leader}
    (hl : p.shell.inner.node.state = .Leader l) {v : Nat} (hled : Led cfg a v) :
    v ≤ horizonOf p.shell.inner ∨ ∃ t, p.shell.inner.current_term < t ∧
      Reached cfg (fun m => (cl.hosts m).current_term) t := by
  rcases hled with rfl | ⟨t, m, hlead, ⟨q, hq, hset⟩, hholds⟩
  · exact .inl (Nat.zero_le _)
  have hnode := (hr.up hp).node
  have hterm : p.shell.inner.current_term = a.term n := hnode.disk.term
  obtain ⟨hown, hlog⟩ := hr.safe.election.role_leader n (hnode.role_of hl).role
  rcases lt_trichotomy t (a.term n) with hlt | heq | hgt
  · -- an earlier leader counted it, so the log of this one has it, with an earlier term
    refine .inl ?_
    cases v with
    | zero => exact Nat.zero_le _
    | succ k =>
      obtain ⟨x, hx⟩ : ∃ x, q[k]? = some x := ⟨_, List.getElem?_eq_getElem (by omega)⟩
      have hpre := hr.safe.complete.settled_in_leader hset hlt.le (by rw [hown]; simp)
      rw [hlog] at hpre
      have hread : p.shell.inner.node.disk.read_entry (k + 1) =
          some ⟨k + 1, x.term, x.data⟩ := by
        refine (hnode.disk.log.get? _).trans ?_
        rw [entryAt_succ, raft.prefix_get hpre hx]
        rfl
      refine le_horizon hnode.disk.log hread ?_
      rw [hterm]
      exact (settled_term_le hr.safe hset hx).trans_lt hlt
  · -- this leader counted it itself
    subst heq
    obtain rfl := Option.some.inj (hlead.symm.trans hown)
    refine .inl ((hholds rfl).trans ?_)
    rw [← hnode.commit]
    exact le_max_left _ _
  · -- a later leader did, and the probe will not find a majority
    refine .inr ⟨t, ?_, reached_of_leader hr hlead⟩
    rw [hterm]
    exact hgt

/-! ## What a query has read -/

theorem shown_key (d : Display) (item : GroceryItem) : (d.shown item).item_key = item.item_key := by
  unfold Display.shown
  split
  · split <;> rfl
  · rfl

/-- What is listed under a key is what the entries up to some index between the two have made
of it. -/
def Includes (c : SnapshotCodec α) (d : Display) (data : List α) (lo hi : Nat)
    (items : List GroceryItem) (key : String) : Prop :=
  ∃ k s, lo ≤ k ∧ k ≤ hi ∧ Replays c.toCodec (data.take k) s ∧
    items.filter (fun item => item.item_key = key) = (s.inventory.get? key).toList.map d.shown

/-- What the walk has copied is the inventory that the entries up to some index between the two
have made. -/
def Copied (c : SnapshotCodec α) (data : List α) (lo hi : Nat)
    (leaf : OrdMap String GroceryItem) : Prop :=
  ∃ k s, lo ≤ k ∧ k ≤ hi ∧ Replays c.toCodec (data.take k) s ∧ s.inventory = leaf ∧
    ∀ key item, leaf.get? key = some item → item.item_key = key

/-- What a query has read holds the effect of every entry up to its horizon, and of none that
the node has not committed. -/
def Holds (c : SnapshotCodec α) (d : Display) (data : List α) (horizon committed : Nat)
    (store : LactoStore) : queries.Stage → Prop
  | .Walk _ leaf seen items => Copied c data horizon (appliedOf store) leaf ∧
    (∀ item ∈ items, ¬Past seen item.item_key) ∧ ∀ key, ¬Past seen key →
      Includes c d data horizon (appliedOf store) (items.map d.shown) key
  | .Version _ items => horizon ≤ appliedOf store ∧
    ∀ key, Includes c d data horizon (appliedOf store) items key
  | .Answered req response => horizon ≤ response.current_state_version ∧
    response.current_state_version ≤ committed ∧ (req.query_filter = none →
      ∀ key, Includes c d data horizon response.current_state_version response.items key)
  | _ => True

variable {data data' : List α} {lo hi hi' horizon committed committed' last_applied : Nat}
  {items : List GroceryItem} {key : String} {store store' : LactoStore}
  {stage stage' : queries.Stage}

theorem Includes.grow (h : Includes c d data lo hi items key)
    (hdata : ∀ k ≤ hi, data'.take k = data.take k) (hle : hi ≤ hi') :
    Includes c d data' lo hi' items key := by
  obtain ⟨k, s, hlo, hk, hreplays, hitems⟩ := h
  refine ⟨k, s, hlo, hk.trans hle, ?_, hitems⟩
  rw [hdata k hk]
  exact hreplays

theorem Copied.grow {leaf : OrdMap String GroceryItem} (h : Copied c data lo hi leaf)
    (hdata : ∀ k ≤ hi, data'.take k = data.take k) (hle : hi ≤ hi') :
    Copied c data' lo hi' leaf := by
  obtain ⟨k, s, hlo, hk, hreplays, hleaf⟩ := h
  refine ⟨k, s, hlo, hk.trans hle, ?_, hleaf⟩
  rw [hdata k hk]
  exact hreplays

/-- A key that the walk goes past shows what the copy has under it. -/
theorem Copied.includes {leaf : OrdMap String GroceryItem} (h : Copied c data lo hi leaf)
    (hitems : items.filter (fun item => item.item_key = key) =
      (leaf.get? key).toList.map d.shown) : Includes c d data lo hi items key := by
  obtain ⟨k, s, hlo, hk, hreplays, rfl, -⟩ := h
  exact ⟨k, s, hlo, hk, hreplays, hitems⟩

/-- What the node commits and applies later changes nothing that was read. -/
theorem Holds.grow (h : Holds c d data horizon committed store stage)
    (hdata : ∀ k ≤ committed, data'.take k = data.take k) (hstore : appliedOf store ≤ committed)
    (hcommit : committed ≤ committed') (happlied : appliedOf store ≤ appliedOf store') :
    Holds c d data' horizon committed' store' stage := by
  have hprefix : ∀ k ≤ appliedOf store, data'.take k = data.take k := fun k hk =>
    hdata k (hk.trans hstore)
  cases stage with
  | Walk req leaf seen items =>
    obtain ⟨hleaf, hkeys, hread⟩ := h
    exact ⟨hleaf.grow hprefix happlied, hkeys,
      fun key hkey => (hread key hkey).grow hprefix happlied⟩
  | Version req items =>
    obtain ⟨hle, hread⟩ := h
    exact ⟨hle.trans happlied, fun key => (hread key).grow hprefix happlied⟩
  | Answered req response =>
    obtain ⟨hle, hversion, hread⟩ := h
    exact ⟨hle, hversion.trans hcommit, fun hnone key =>
      (hread hnone key).grow (fun k hk => hdata k (hk.trans hversion)) le_rfl⟩
  | Absent | Fence | Fetch | Failed => trivial

/-! ## One step of a query that reads -/

/-- The store has applied the log up to its index. -/
structure Stands (c : SnapshotCodec α) (data : List α) (committed : Nat) (store : LactoStore) :
    Prop where
  applied : appliedOf store ≤ committed
  replays : Replays c.toCodec (data.take (appliedOf store)) store
  orderly : Orderly (appliedOf store) store

/-- A copy that is made now is what the store has. -/
theorem Stands.copied (h : Stands c data committed store) (hle : horizon ≤ appliedOf store) :
    Copied c data horizon (appliedOf store) store.inventory :=
  ⟨appliedOf store, store, hle, le_rfl, h.replays, rfl, h.orderly.keyed⟩

theorem filter_shown (items : List GroceryItem) (key : String) :
    (items.map d.shown).filter (fun item => item.item_key = key) =
      (items.filter fun item => item.item_key = key).map d.shown := by
  rw [List.filter_map]
  congr 1
  refine List.filter_congr fun item _ => ?_
  simp [shown_key]

theorem filter_unseen {seen : Option String} (hkeys : ∀ item ∈ items, ¬Past seen item.item_key)
    (hpast : Past seen key) : items.filter (fun item => item.item_key = key) = [] := by
  refine List.filter_eq_nil_iff.mpr fun item hitem heq => ?_
  obtain rfl : item.item_key = key := by simpa using heq
  exact hkeys item hitem hpast

theorem Holds.load (h : Stands c data committed store) {req : QueryStateRequest}
    {leaf : OrdMap String GroceryItem} {seen : Option String}
    (hread : Holds c d data horizon committed store (.Walk req leaf seen items)) :
    Holds c d data horizon committed store (.Walk req store.inventory seen items) := by
  obtain ⟨⟨k, -, hlo, hk, -⟩, hkeys, hread⟩ := hread
  exact ⟨h.copied (hlo.trans hk), hkeys, hread⟩

theorem Holds.next {req : QueryStateRequest} {leaf : OrdMap String GroceryItem}
    {seen : Option String}
    (hread : Holds c d data horizon committed store (.Walk req leaf seen items))
    {item : GroceryItem} (hnext : leaf.next? seen = some (key, item)) :
    Holds c d data horizon committed store (.Walk req leaf (some key) (items ++ [item])) := by
  obtain ⟨hleaf, hkeys, hread⟩ := hread
  obtain ⟨hget, hpast, hnone⟩ := OrdMap.next?_some hnext
  have hitem : item.item_key = key := by
    obtain ⟨k, s, -, -, -, -, hkeyed⟩ := hleaf
    exact hkeyed key item hget
  refine ⟨hleaf, fun i hi => ?_, fun j hj => ?_⟩
  · rcases List.mem_append.mp hi with hold | hnew
    · exact not_past_some.mpr (le_of_not_gt fun hlt => hkeys i hold (hpast.trans hlt))
    · obtain rfl := List.mem_singleton.mp hnew
      exact not_past_some.mpr hitem.le
  · have hjle : j ≤ key := not_past_some.mp hj
    rw [List.map_append]
    -- the keys that the walk goes past now are as the copy has them; those before stay
    by_cases hjpast : Past seen j
    · refine hleaf.includes ?_
      rw [List.filter_append, filter_shown, filter_unseen hkeys hjpast]
      rcases hjle.lt_or_eq with hlt | rfl
      · rw [hnone j hjpast hlt]
        simp [shown_key, hitem, hlt.ne']
      · rw [hget]
        simp [shown_key, hitem]
    · obtain ⟨k, s, hlo, hk, hreplays, hitems⟩ := hread j hjpast
      refine ⟨k, s, hlo, hk, hreplays, ?_⟩
      have hne : key ≠ j := fun heq => hjpast (heq ▸ hpast)
      rw [List.filter_append, hitems]
      simp [shown_key, hitem, hne]

theorem Holds.ended {req : QueryStateRequest} {leaf : OrdMap String GroceryItem}
    {seen : Option String}
    (hread : Holds c d data horizon committed store (.Walk req leaf seen items))
    (hend : leaf.next? seen = none) :
    Holds c d data horizon committed store (.Version req (items.map d.shown)) := by
  obtain ⟨hleaf, hkeys, hread⟩ := hread
  have hle : horizon ≤ appliedOf store := by
    obtain ⟨k, -, hlo, hk, -⟩ := hleaf
    exact hlo.trans hk
  refine ⟨hle, fun j => ?_⟩
  by_cases hjpast : Past seen j
  · refine hleaf.includes ?_
    rw [filter_shown, filter_unseen hkeys hjpast, OrdMap.next?_none hend hjpast]
    rfl
  · exact hread j hjpast

theorem Holds.answered (h : Stands c data committed store) {req : QueryStateRequest}
    (hread : Holds c d data horizon committed store (.Version req items)) {version : Nat}
    (hversion : store.current_version = .ok version) :
    Holds c d data horizon committed store (.Answered req (d.response req items version)) := by
  obtain ⟨hle, hread⟩ := hread
  obtain rfl : appliedOf store = version := by
    simpa [LactoStore.current_version, LactoStore.last_applied_index,
      LactoStore.check_not_poisoned, h.orderly.healthy] using hversion
  refine ⟨hle, h.applied, fun hnone key => ?_⟩
  have hall : (d.response req items (appliedOf store)).items = items := by
    unfold Display.response Display.filtered
    rw [hnone]
  rw [hall]
  exact hread key

theorem passFence_cases {req : QueryStateRequest} {last_committed : Nat}
    (h : queries.passFence req last_committed last_applied = some stage) :
    stage = .Fetch req ∨ stage = .Failed := by
  unfold queries.passFence at h
  split at h
  · exact .inl (Option.some.inj h).symm
  split at h
  · exact .inr (Option.some.inj h).symm
  split at h
  · exact .inl (Option.some.inj h).symm
  · cases h

/-- The query goes on; it begins to read when the store is at its horizon. -/
theorem Holds.read (h : Stands c data committed store)
    (hread : Holds c d data horizon committed store stage) {act : NodeAct}
    (hstep : readStep c d store last_applied stage act = some stage')
    (hready : act = .Fetch → horizon ≤ appliedOf store) :
    Holds c d data horizon committed store stage' := by
  unfold readStep at hstep
  split at hstep
  swap
  · cases hstep
  rename_i hreads
  obtain ⟨node, hnode, rfl⟩ := Option.map_eq_some_iff.mp hstep
  cases act with
  | PassFence =>
    simp only [nodeStep] at hnode
    split at hnode
    · obtain ⟨stage', hpass, rfl⟩ := Option.map_eq_some_iff.mp hnode
      rcases passFence_cases hpass with rfl | rfl <;> trivial
    · cases hnode
  | TimeOut =>
    simp only [nodeStep] at hnode
    split at hnode
    · obtain rfl := Option.some.inj hnode
      trivial
    · cases hnode
  | Fetch =>
    simp only [nodeStep] at hnode
    split at hnode
    · split at hnode
      · obtain rfl := Option.some.inj hnode
        trivial
      · obtain rfl := Option.some.inj hnode
        exact ⟨h.copied (hready rfl), fun item hitem => (by cases hitem),
          fun key hkey => absurd (past_none key) hkey⟩
    · cases hnode
  | LoadLeaf =>
    simp only [nodeStep] at hnode
    split at hnode
    · obtain rfl := Option.some.inj hnode
      exact Holds.load h hread
    · cases hnode
  | Next =>
    simp only [nodeStep] at hnode
    split at hnode
    · rename_i req leaf seen items
      split at hnode
      · rename_i key item hnext
        obtain rfl := Option.some.inj hnode
        exact Holds.next hread hnext
      · rename_i hend
        obtain rfl := Option.some.inj hnode
        exact Holds.ended hread hend
    · cases hnode
  | ReadVersion =>
    simp only [nodeStep] at hnode
    split at hnode
    · rename_i req items
      split at hnode
      · obtain rfl := Option.some.inj hnode
        trivial
      · rename_i version hversion
        obtain rfl := Option.some.inj hnode
        exact Holds.answered h hread hversion
    · cases hnode
  | _ => cases hreads

/-! ## The cluster under a query -/

/-- What the cluster has of its protocol, and its stores of its logs. -/
structure Grounded (cfg : Config) (c : SnapshotCodec α) (cl : Cluster α LactoStore)
    (a : Protocol α) : Prop where
  refines : Refines cfg cl a
  backed : Backed cfg cl a
  replicas : ∀ n, Replica c.toCodec a n (cl.hosts n)
  announced : Announced cl

/-- What a step of the cluster leaves to those who wait. -/
structure Onward (cfg : Config) (cl cl' : Cluster α LactoStore) (a a' : Protocol α) : Prop where
  led : ∀ v, Led cfg a v → Led cfg a' v
  same : ∀ n, SamePrefix a a' n
  applied : ∀ n, appliedOf (cl.hosts n).fsm ≤ appliedOf (cl'.hosts n).fsm

theorem Grounded.init :
    Grounded cfg c (Cluster.init (lactoMachine c.toCodec)) (raft.State.init : Protocol α) where
  refines := Refines.init cfg _
  backed := .init
  replicas n := ⟨⟨0, le_rfl, rfl⟩, fun p hp => by cases hp⟩
  announced n p hp := by cases hp

theorem Grounded.step [DecidableEq α] (h : Grounded cfg c cl a) {act : Action α}
    (hs : step cfg (lactoMachine c.toCodec) cl act = some cl') :
    ∃ a', Grows a a' ∧ Grounded cfg c cl' a' ∧ Onward cfg cl cl' a a' := by
  have hr := h.refines
  obtain ⟨a', hg, hr'⟩ := step_refines hr hs
  have hsame := step_samePrefix hr hr' hg hs
  exact ⟨a', hg,
    ⟨hr', h.backed.step hr hr' hg hs, Replica.step hr hr' hg hs h.replicas,
      h.announced.after hs⟩,
    ⟨fun v hled => hled.grow hr.safe hg fun n => (hsame n).commit_le, hsame, step_applied hs⟩⟩

theorem Grounded.stands (h : Grounded cfg c cl a) (n : NodeId) :
    Stands c (dataOf (a.log n)) (a.commit n) (cl.hosts n).fsm := by
  obtain ⟨happlied, hreplays, horderly⟩ :=
    (h.replicas n).applied (h.refines.safe.complete.commit_le n)
  exact ⟨happlied, hreplays, horderly⟩

/-- What a host has committed goes back to a leader. -/
theorem Grounded.led (h : Grounded cfg c cl a) (hp : cl.process n = some p) {v : Nat}
    (hle : v ≤ p.shell.inner.last_committed) : Led cfg a v := by
  have hhost := h.backed.hosts n
  unfold Host.last_committed at hhost
  rw [process_up hp] at hhost
  exact hhost.mono hle

/-! ## The queries -/

/-- What a query knows of the answers that were given before it came. -/
def Sees (cfg : Config) (c : SnapshotCodec α) (d : Display) (cl : Cluster α LactoStore)
    (a : Protocol α) (q : Query) : Prop :=
  match q.stage with
  | .Authorized _ _ => ∀ r ∈ q.answers, Led cfg a r.state_version
  | .Probing _ _ call horizon => call.node = q.node ∧ ∀ r ∈ q.answers,
    r.state_version ≤ horizon ∨ ∃ t, call.probe.term < t ∧ Reached cfg call.terms t
  | .Reading horizon stage => (∀ r ∈ q.answers, r.state_version ≤ horizon) ∧
    Holds c d (dataOf (a.log q.node)) horizon (a.commit q.node) (cl.hosts q.node).fsm stage

theorem Sees.onward {q : Query} (h : Sees cfg c d cl a q) (hground : Grounded cfg c cl a)
    (ho : Onward cfg cl cl' a a') : Sees cfg c d cl' a' q := by
  unfold Sees at h ⊢
  split at h
  · exact fun r hr => ho.led _ (h r hr)
  · exact h
  · have hsame := ho.same q.node
    exact ⟨h.1, h.2.grow (fun k hk => hsame.take hk) (hground.stands q.node).applied
      hsame.commit_le (ho.applied q.node)⟩

/-- The invariant of the service, but for the calls that wait. -/
structure Upheld (cfg : Config) (c : SnapshotCodec α) (d : Display) (s : Service α)
    (a : Protocol α) : Prop where
  grounded : Grounded cfg c s.cluster a
  answers : ∀ r ∈ s.answers, Led cfg a r.state_version
  queries : ∀ q ∈ s.queries, Sees cfg c d s.cluster a q

theorem Upheld.init : Upheld cfg c d (Service.init c) raft.State.init :=
  ⟨.init, fun r hr => (by cases hr), fun q hq => (by cases hq)⟩

theorem Upheld.onto [DecidableEq α] (h : Upheld cfg c d s a) {act : Action α}
    (hs : step cfg (lactoMachine c.toCodec) s.cluster act = some cl') :
    ∃ a', Grows a a' ∧ Upheld cfg c d (s.onto cl') a' := by
  obtain ⟨a', hg, hground, ho⟩ := h.grounded.step hs
  exact ⟨a', hg, hground, fun r hr => ho.led _ (h.answers r hr), fun q hq =>
    (h.queries q (List.mem_filter.mp hq).1).onward h.grounded ho⟩

/-- Some of the handlers are gone. -/
theorem Upheld.fewer (h : Upheld cfg c d s a) {queries : List Query}
    (hsub : ∀ q ∈ queries, q ∈ s.queries) : Upheld cfg c d { s with queries := queries } a :=
  ⟨h.grounded, h.answers, fun q hq => h.queries q (hsub q hq)⟩

theorem Upheld.withStage (h : Upheld cfg c d s a) {i : Nat} {q : Query} {stage : Stage}
    (hsees : Sees cfg c d s.cluster a { q with stage := stage }) :
    Upheld cfg c d (s.withStage i q stage) a := by
  refine ⟨h.grounded, h.answers, fun q' hq' => ?_⟩
  rcases List.mem_or_eq_of_mem_set hq' with hold | rfl
  · exact h.queries q' hold
  · exact hsees

/-- One more answer is given, of an index that the host has committed. -/
theorem Upheld.answer (h : Upheld cfg c d s a) (hp : s.cluster.process n = some p)
    {response : ProposeMutationResponse} {waiting : List Waiting}
    (hle : response.state_version ≤ p.shell.inner.last_committed) :
    Upheld cfg c d { s with waiting := waiting, answers := response :: s.answers } a := by
  refine ⟨h.grounded, fun r hr => ?_, h.queries⟩
  rcases List.mem_cons.mp hr with rfl | hold
  · exact h.grounded.led hp hle
  · exact h.answers r hold

theorem firewall_version {store : LactoStore} {client_id : String} {sequence_id : Nat}
    {response : ProposeMutationResponse}
    (h : enforce_sequence_firewall store client_id sequence_id = .ok (some response)) :
    response.state_version = 0 ∨ ∃ record, store.sessions.get? client_id = some record ∧
      response.state_version = record.log_index := by
  unfold enforce_sequence_firewall at h
  split at h
  · obtain rfl := Option.some.inj (Except.ok.inj h)
    exact .inl rfl
  split at h
  · cases h
  · rename_i record hcheck
    have hrecord := check_session_zero hcheck
    split at h
    · obtain rfl := Option.some.inj (Except.ok.inj h)
      exact .inr ⟨record, hrecord, rfl⟩
    split at h
    · obtain rfl := Option.some.inj (Except.ok.inj h)
      exact .inr ⟨record, hrecord, rfl⟩
    split at h
    · obtain rfl := Option.some.inj (Except.ok.inj h)
      exact .inl rfl
    · cases h
  · split at h
    · obtain rfl := Option.some.inj (Except.ok.inj h)
      exact .inl rfl
    · cases h

/-- The firewall answers with nothing newer than what its host has committed. -/
theorem Grounded.firewall (h : Grounded cfg c cl a) (hp : cl.process n = some p)
    {client_id : String} {sequence_id : Nat} {response : ProposeMutationResponse}
    (hwall : enforce_sequence_firewall (cl.hosts n).fsm client_id sequence_id =
      .ok (some response)) : response.state_version ≤ p.shell.inner.last_committed := by
  rcases firewall_version hwall with hzero | ⟨record, hrecord, hversion⟩
  · rw [hzero]
    exact Nat.zero_le _
  · have hstands := h.stands n
    have hcommit : p.shell.inner.last_committed = a.commit n := (h.refines.up hp).node.commit
    rw [hversion, hcommit]
    exact (hstands.orderly.indices _ _ hrecord).trans hstands.applied

/-! ## Steps -/

theorem mem_calls {w : ReadCall} :
    w ∈ s.calls ↔ ∃ q ∈ s.queries, ∃ req last_committed horizon,
      q.stage = .Probing req last_committed w horizon := by
  constructor
  · intro hw
    obtain ⟨q, hq, hcall⟩ := List.mem_filterMap.mp hw
    unfold Query.call? at hcall
    split at hcall
    · rename_i req last_committed call horizon hstage
      obtain rfl := Option.some.inj hcall
      exact ⟨q, hq, req, last_committed, horizon, hstage⟩
    · cases hcall
  · rintro ⟨q, hq, req, last_committed, horizon, hstage⟩
    refine List.mem_filterMap.mpr ⟨q, hq, ?_⟩
    unfold Query.call?
    rw [hstage]

theorem calls_fewer {queries : List Query} (hsub : ∀ q ∈ queries, q ∈ s.queries) :
    ∀ w ∈ ({ s with queries := queries } : Service α).calls, w ∈ s.calls := by
  intro w hw
  obtain ⟨q, hq, hstage⟩ := mem_calls.mp hw
  exact mem_calls.mpr ⟨q, hsub q hq, hstage⟩

theorem erased {i : Nat} : ∀ q ∈ s.queries.eraseIdx i, q ∈ s.queries :=
  fun _ hq => List.mem_of_mem_eraseIdx hq

theorem calls_withStage {i : Nat} {q : Query} {stage : Stage} :
    ∀ w ∈ (s.withStage i q stage).calls,
      w ∈ s.calls ∨
        ∃ req last_committed horizon, stage = .Probing req last_committed w horizon := by
  intro w hw
  obtain ⟨q', hq', hstage⟩ := mem_calls.mp hw
  rcases List.mem_or_eq_of_mem_set hq' with hold | rfl
  · exact .inl (mem_calls.mpr ⟨q', hold, hstage⟩)
  · exact .inr hstage

theorem calls_onto : ∀ w ∈ (s.onto cl').calls, w ∈ s.calls :=
  calls_fewer fun _ hq => (List.mem_filter.mp hq).1

theorem Upheld.into [DecidableEq α] (h : Upheld cfg c d s a) {act : Action α}
    (hs : step cfg (lactoMachine c.toCodec) s.cluster act = some cl') {calls : List ReadCall}
    (hacc : Accounted cfg cl' calls) (hsub : ∀ w ∈ s.calls, w ∈ calls) :
    ∃ a', Upheld cfg c d (s.onto cl') a' ∧ Accounted cfg cl' (s.onto cl').calls := by
  obtain ⟨a', -, hnext⟩ := h.onto hs
  exact ⟨a', hnext, hacc.fewer fun w hw => hsub w (calls_onto w hw)⟩

/-- A step of the cluster that is no probe. -/
theorem Upheld.move [DecidableEq α] (h : Upheld cfg c d s a)
    (hacc : Accounted cfg s.cluster s.calls) {act : Action α}
    (hs : step cfg (lactoMachine c.toCodec) s.cluster act = some cl')
    (hprobe : ∀ n, act ≠ .Act (.Probe n)) (ht : ∀ b, act = .Act b → Timely s.cluster s.calls b) :
    ∃ a', Upheld cfg c d (s.onto cl') a' ∧ Accounted cfg cl' (s.onto cl').calls := by
  obtain ⟨a', hg, hnext⟩ := h.onto hs
  have hstep := hacc.step h.grounded.refines hnext.grounded.refines hg hs hprobe ht
  exact h.into hs hstep fun w hw => hw

/-- A query begins its probe: what was counted is below its horizon, or the probe will fail. -/
theorem Upheld.begun (h : Upheld cfg c d s a) {i : Nat} {q : Query} {req : QueryStateRequest}
    {last_committed : Nat} (hq : s.queries[i]? = some q)
    (hstage : q.stage = .Authorized req last_committed) (hp : s.cluster.process q.node = some p)
    {probe : ReadProbe} (hprobe : p.shell.prepare_probe.2 = .ok (.ok probe)) :
    Upheld cfg c d (s.withStage i q (.Probing req last_committed
      (callOf s.cluster q.node probe) (horizonOf p.shell.inner))) a := by
  have hsees := h.queries q (List.mem_of_getElem? hq)
  unfold Sees at hsees
  rw [hstage] at hsees
  rcases prepare_probe_cases p.shell with ⟨l, probe', hl, hres, hterm, -⟩ | ⟨⟨e, hres⟩, -⟩
  · obtain rfl := Except.ok.inj (Except.ok.inj (hres.symm.trans hprobe))
    refine h.withStage ⟨rfl, fun r hr => ?_⟩
    have hcovers := horizon_covers h.grounded.refines hp hl (hsees r hr)
    rw [← hterm] at hcovers
    exact hcovers
  · rw [hres] at hprobe
    cases hprobe

/-- A probe returns: every answer that was given before the query came is below its horizon. -/
theorem Upheld.returned (h : Upheld cfg c d s a) (hacc : Accounted cfg s.cluster s.calls)
    {i : Nat} {q : Query} {req : QueryStateRequest} {last_committed horizon : Nat}
    {call : ReadCall} (hq : s.queries[i]? = some q)
    (hstage : q.stage = .Probing req last_committed call horizon)
    (hp : s.cluster.process q.node = some p)
    (hok : await_probe p.shell.progress call.probe = some (.ok ())) :
    Upheld cfg c d (s.withStage i q (.Reading horizon (.Fence req last_committed))) a := by
  have hmem := List.mem_of_getElem? hq
  have hsees := h.queries q hmem
  unfold Sees at hsees
  rw [hstage] at hsees
  obtain ⟨hnode, hbelow⟩ := hsees
  have hcall : call ∈ s.calls := mem_calls.mpr ⟨q, hmem, req, last_committed, horizon, hstage⟩
  refine h.withStage ⟨fun r hr => ?_, trivial⟩
  rcases hbelow r hr with hle | ⟨t, ht, hreached⟩
  · exact hle
  · exact absurd hreached (hacc.returned h.grounded.announced hcall (hnode ▸ hp) hok ht)

theorem Upheld.moves [DecidableEq α] (h : Upheld cfg c d s a)
    (hacc : Accounted cfg s.cluster s.calls) {act : Action α} (hprompt : Prompt s (.Raft act))
    (hs : serviceStep cfg c d s (.Raft act) = some s') :
    ∃ a', Upheld cfg c d s' a' ∧ Accounted cfg s'.cluster s'.calls := by
  simp only [serviceStep] at hs
  split at hs
  · cases hs
  rename_i hprobe
  obtain ⟨cl', hstep, rfl⟩ := Option.map_eq_some_iff.mp hs
  refine h.move hacc hstep (fun n hact => ?_) fun b hact => ?_
  · rw [hact] at hprobe
    exact hprobe rfl
  · rw [hact] at hprompt
    exact hprompt

theorem Upheld.proposes [DecidableEq α] (h : Upheld cfg c d s a)
    (hacc : Accounted cfg s.cluster s.calls) {mutation : CommittedMutation}
    {status : gateway.ingress.ProposalStatus} {moral_justification : String}
    (hs : serviceStep cfg c d s (.Propose n mutation status moral_justification) = some s') :
    ∃ a', Upheld cfg c d s' a' ∧ Accounted cfg s'.cluster s'.calls := by
  obtain ⟨p, hp, hs⟩ := Option.bind_eq_some_iff.mp hs
  obtain ⟨cl', hstep, rfl⟩ := Option.map_eq_some_iff.mp hs
  have hmove : ∀ waiting : List Waiting, ∃ a',
      Upheld cfg c d ({ s with waiting := waiting }.onto cl') a' ∧
        Accounted cfg cl' ({ s with waiting := waiting }.onto cl').calls := by
    intro waiting
    have hwaiting : Upheld cfg c d { s with waiting := waiting } a :=
      ⟨h.grounded, h.answers, h.queries⟩
    exact hwaiting.move hacc hstep (fun m hact => by cases hact) fun b hact => by
      cases hact
      trivial
  split
  · exact hmove _
  · exact hmove s.waiting

/-- A mutation is answered once its entry is committed. -/
theorem Upheld.awaited [DecidableEq α] (h : Upheld cfg c d s a)
    (hacc : Accounted cfg s.cluster s.calls) {i : Nat}
    (hs : serviceStep cfg c d s (.AwaitCommit i) = some s') :
    ∃ a', Upheld cfg c d s' a' ∧ Accounted cfg s'.cluster s'.calls := by
  obtain ⟨w, hw, hs⟩ := Option.bind_eq_some_iff.mp hs
  obtain ⟨p, hp, hs⟩ := Option.bind_eq_some_iff.mp hs
  split at hs
  · rename_i hok
    obtain rfl := Option.some.inj hs
    obtain ⟨-, hle⟩ := await_commit_ok (h.grounded.announced _ p hp) hok
    exact ⟨a, h.answer hp hle, hacc⟩
  · obtain rfl := Option.some.inj hs
    exact ⟨a, ⟨h.grounded, h.answers, h.queries⟩, hacc⟩
  · cases hs

/-- A query sees what was answered when it came. -/
theorem Upheld.received [DecidableEq α] (h : Upheld cfg c d s a)
    (hacc : Accounted cfg s.cluster s.calls) {req : QueryStateRequest}
    (hs : serviceStep cfg c d s (.Receive n req) = some s') :
    ∃ a', Upheld cfg c d s' a' ∧ Accounted cfg s'.cluster s'.calls := by
  obtain ⟨p, hp, hs⟩ := Option.bind_eq_some_iff.mp hs
  split at hs
  · obtain rfl := Option.some.inj hs
    refine ⟨a, ⟨h.grounded, h.answers, fun q hq => ?_⟩, hacc⟩
    rcases List.mem_cons.mp hq with rfl | hold
    · exact h.answers
    · exact h.queries q hold
  · cases hs

theorem Upheld.verified [DecidableEq α] (h : Upheld cfg c d s a)
    (hacc : Accounted cfg s.cluster s.calls) {i : Nat} (hprompt : Prompt s (.Verify i))
    (hs : serviceStep cfg c d s (.Verify i) = some s') :
    ∃ a', Upheld cfg c d s' a' ∧ Accounted cfg s'.cluster s'.calls := by
  obtain ⟨q, hq, hs⟩ := Option.bind_eq_some_iff.mp hs
  split at hs
  · rename_i req last_committed hstage
    obtain ⟨p, hp, hs⟩ := Option.bind_eq_some_iff.mp hs
    obtain ⟨cl', hstep, rfl⟩ := Option.map_eq_some_iff.mp hs
    obtain ⟨hwaits, hover⟩ :=
      hacc.verify h.grounded.refines hstep hp (hprompt q p hq hp)
    split
    · rename_i probe hprobe
      refine (h.begun hq hstage hp hprobe).into hstep (hwaits probe hprobe) fun w hw => ?_
      rcases calls_withStage w hw with hold | ⟨_, _, _, hnew⟩
      · exact List.mem_cons_of_mem _ hold
      · obtain ⟨-, -, rfl, -⟩ := Stage.Probing.inj hnew
        exact List.mem_cons_self
    · rename_i hno
      exact (h.fewer erased).into hstep (hover fun probe hprobe => hno probe hprobe)
        (calls_fewer erased)
  · cases hs

theorem Upheld.probed [DecidableEq α] (h : Upheld cfg c d s a)
    (hacc : Accounted cfg s.cluster s.calls) {i : Nat}
    (hs : serviceStep cfg c d s (.AwaitProbe i) = some s') :
    ∃ a', Upheld cfg c d s' a' ∧ Accounted cfg s'.cluster s'.calls := by
  obtain ⟨q, hq, hs⟩ := Option.bind_eq_some_iff.mp hs
  split at hs
  · rename_i req last_committed call horizon hstage
    obtain ⟨p, hp, hs⟩ := Option.bind_eq_some_iff.mp hs
    split at hs
    · rename_i hok
      obtain rfl := Option.some.inj hs
      refine ⟨a, h.returned hacc hq hstage hp hok, hacc.fewer fun w hw => ?_⟩
      rcases calls_withStage w hw with hold | ⟨_, _, _, hnew⟩
      · exact hold
      · cases hnew
    · obtain rfl := Option.some.inj hs
      exact ⟨a, h.fewer erased, hacc.fewer (calls_fewer erased)⟩
    · cases hs
  · cases hs

theorem Upheld.hasRead [DecidableEq α] (h : Upheld cfg c d s a)
    (hacc : Accounted cfg s.cluster s.calls) {i : Nat} {act : NodeAct}
    (hprompt : Prompt s (.Read i act)) (hs : serviceStep cfg c d s (.Read i act) = some s') :
    ∃ a', Upheld cfg c d s' a' ∧ Accounted cfg s'.cluster s'.calls := by
  obtain ⟨q, hq, hs⟩ := Option.bind_eq_some_iff.mp hs
  split at hs
  · rename_i horizon stage hstage
    obtain ⟨p, hp, hs⟩ := Option.bind_eq_some_iff.mp hs
    obtain ⟨stage', hstep, rfl⟩ := Option.map_eq_some_iff.mp hs
    have hsees := h.queries q (List.mem_of_getElem? hq)
    unfold Sees at hsees
    rw [hstage] at hsees
    refine ⟨a, h.withStage ⟨hsees.1, hsees.2.read (h.grounded.stands q.node) hstep ?_⟩,
      hacc.fewer fun w hw => ?_⟩
    · rintro rfl
      exact hprompt q horizon stage hq hstage
    · rcases calls_withStage w hw with hold | ⟨_, _, _, hnew⟩
      · exact hold
      · cases hnew
  · cases hs

/-- Every action upholds what the queries see; one that forgets a call changes nothing else. -/
theorem Upheld.step [DecidableEq α] (h : Upheld cfg c d s a)
    (hacc : Accounted cfg s.cluster s.calls) {act : ServiceAct α} (hprompt : Prompt s act)
    (hs : serviceStep cfg c d s act = some s') :
    ∃ a', Upheld cfg c d s' a' ∧ Accounted cfg s'.cluster s'.calls := by
  cases act with
  | Raft act => exact h.moves hacc hprompt hs
  | Propose n mutation status moral_justification => exact h.proposes hacc hs
  | AwaitCommit i => exact h.awaited hacc hs
  | Abandon i =>
    obtain rfl := Option.some.inj hs
    exact ⟨a, ⟨h.grounded, h.answers, h.queries⟩, hacc⟩
  | Firewall n client_id sequence_id =>
    obtain ⟨p, hp, hs⟩ := Option.bind_eq_some_iff.mp hs
    split at hs
    · rename_i response hwall
      obtain rfl := Option.some.inj hs
      exact ⟨a, h.answer hp (h.grounded.firewall hp hwall), hacc⟩
    · cases hs
  | Receive n req => exact h.received hacc hs
  | Verify i => exact h.verified hacc hprompt hs
  | AwaitProbe i => exact h.probed hacc hs
  | Read i act => exact h.hasRead hacc hprompt hs
  | Leave i =>
    obtain rfl := Option.some.inj hs
    exact ⟨a, h.fewer erased, hacc.fewer (calls_fewer erased)⟩

theorem Upheld.run [DecidableEq α] (hrun : ServiceRun cfg c d Prompt (Service.init c) s) :
    ∃ a, Upheld cfg c d s a ∧ Accounted cfg s.cluster s.calls := by
  have hstep : ∀ s act s', (∃ a, Upheld cfg c d s a ∧ Accounted cfg s.cluster s.calls) →
      Prompt s act → serviceStep cfg c d s act = some s' →
      ∃ a, Upheld cfg c d s' a ∧ Accounted cfg s'.cluster s'.calls := by
    rintro s act s' ⟨a, h, hacc⟩ hprompt hs
    exact h.step hacc hprompt hs
  exact Run.invariant hstep hrun ⟨_, .init, .init⟩

/-! ## Reads after writes -/

theorem Includes.lists {h : Host α LactoStore} (hdisk : Uncompacted h.disk (a.log n))
    (hlen : hi ≤ (a.log n).length) (hread : Includes c d (dataOf (a.log n)) lo hi items key) :
    Lists c d h lo hi items key := by
  obtain ⟨k, s, hlo, hk, hreplays, hitems⟩ := hread
  exact ⟨k, s, hlo, hk, replay_committed_entries_of_replays hdisk (hk.trans hlen) hreplays, hitems⟩

/-- A query reads what was answered before it came. -/
theorem acknowledged_writes_are_read [DecidableEq α]
    (hrun : ServiceRun cfg c d Prompt (Service.init c) s) {q : Query} (hq : q ∈ s.queries)
    {horizon : Nat} {req : QueryStateRequest} {response : QueryStateResponse}
    (hstage : q.stage = .Reading horizon (.Answered req response)) :
    ∀ r ∈ q.answers, r.state_version ≤ response.current_state_version ∧
      (req.query_filter = none → ∀ key, Lists c d (s.cluster.hosts q.node) r.state_version
        response.current_state_version response.items key) := by
  obtain ⟨a, h, -⟩ := Upheld.run hrun
  have hsees := h.queries q hq
  unfold Sees at hsees
  rw [hstage] at hsees
  obtain ⟨hbelow, hle, hversion, hread⟩ := hsees
  have hr := h.grounded.refines
  intro r hanswered
  have hbefore := hbelow r hanswered
  refine ⟨hbefore.trans hle, fun hnone key => ?_⟩
  obtain ⟨k, s, hlo, hk, hreplays, hitems⟩ :=
    (hread hnone key).lists (hr.disk q.node).log
      (hversion.trans (hr.safe.complete.commit_le q.node))
  exact ⟨k, s, hbefore.trans hlo, hk, hreplays, hitems⟩

/-! ## Three nodes -/

def serviceAfter (as : List (ServiceAct (CommittedMutation ⊕ SnapshotData))) :
    Service (CommittedMutation ⊕ SnapshotData) :=
  (exec (serviceStep threeNodes plainSnapshots asStored) (Service.init plainSnapshots) as).getD
    (Service.init plainSnapshots)

/-- Node 1 is elected with the vote of node 2. The milk is put on it, and answered when node 2
has it too. -/
def putFirst : List (ServiceAct (CommittedMutation ⊕ SnapshotData)) :=
  [.Raft (.Restart 1 1), .Raft (.Restart 2 9), .Raft (.Restart 3 9), .Raft (.Act (.Tick 1 5)),
    .Raft (.Act (.Deliver 0 5)), .Raft (.Act (.RunTask 1 0 2 (some 2) 5)),
    .Raft (.Act (.RunTask 1 0 2 none 5)), .Raft (.Act (.Deliver 3 1)),
    .Raft (.Act (.RunTask 1 0 2 (some 5) 5)), .Propose 1 (putMilk 7) .Committed "",
    .Raft (.Act (.Tick 1 5)), .Raft (.Act (.RunTask 1 0 2 none 5)), .Raft (.Act (.Deliver 6 5)),
    .Raft (.Act (.RunTask 1 0 2 (some 7) 5)), .AwaitCommit 0]

/-- Then a query comes to node 1, and node 2 answers its probe. -/
def probeFirst : List (ServiceAct (CommittedMutation ⊕ SnapshotData)) :=
  putFirst ++ [.Receive 1 ⟨none, none⟩, .Verify 0, .Raft (.Act (.RunTask 1 0 2 none 5)),
    .Raft (.Act (.Deliver 8 5)), .Raft (.Act (.RunTask 1 0 2 (some 9) 5)), .AwaitProbe 0,
    .Read 0 .PassFence]

/-- The applier of node 1 takes the milk up, and the query reads it. -/
def readMilk : List (ServiceAct (CommittedMutation ⊕ SnapshotData)) :=
  probeFirst ++ [.Raft (.Act (.Apply 1)), .Raft (.Act (.Apply 1)), .Raft (.Act (.Apply 1)),
    .Read 0 .Fetch, .Read 0 .Next, .Read 0 .Next, .Read 0 .ReadVersion]

theorem prompt_of_before {n peer : NodeId} {k i timeout : Nat} (h : ∀ w ∈ s.calls, w.before ≤ i) :
    Prompt s (.Raft (.Act (.RunTask n k peer (some i) timeout))) :=
  fun _ _ _ _ _ _ _ _ _ _ _ _ _ _ w hw _ _ _ => h w hw

theorem acknowledged_writes_are_read_milk :
    ∃ q ∈ (serviceAfter readMilk).queries, ∃ horizon req response,
      q.stage = .Reading horizon (.Answered req response) ∧
      ∃ r ∈ q.answers, r.state_version = 1 ∧ r.state_version ≤ response.current_state_version ∧
        ∀ key, Lists plainSnapshots asStored ((serviceAfter readMilk).cluster.hosts q.node)
          r.state_version response.current_state_version response.items key := by
  have hrun : ServiceRun threeNodes plainSnapshots asStored Prompt (Service.init plainSnapshots)
      (serviceAfter readMilk) := by
    refine run_of_takes readMilk (fun k a ha => ?_) (by decide +kernel)
    have hk : k < 29 := (List.getElem?_eq_some_iff.mp ha).1
    interval_cases k <;> obtain rfl := Option.some.inj ha
    all_goals try exact trivial
    all_goals try exact prompt_of_before (by decide +kernel)
    · obtain ⟨q, p, l, hq, hp, hl, hclosed⟩ : ∃ q p l,
          (serviceAfter (readMilk.take 16)).queries[0]? = some q ∧
          (serviceAfter (readMilk.take 16)).cluster.process q.node = some p ∧
          p.shell.inner.node.state = .Leader l ∧
          l.confirmed_read_epoch = l.current_read_epoch := ⟨_, _, _, rfl, rfl, rfl, rfl⟩
      intro q' p' hq' hp' l' hl' hopen
      obtain rfl := Option.some.inj (hq.symm.trans hq')
      obtain rfl := Option.some.inj (hp.symm.trans hp')
      obtain rfl := RoleState.Leader.inj (hl.symm.trans hl')
      exact absurd hclosed hopen
    · obtain ⟨q, horizon, stage, hq, hstage, hle⟩ : ∃ q horizon stage,
          (serviceAfter (readMilk.take 25)).queries[0]? = some q ∧
          q.stage = .Reading horizon stage ∧
          horizon ≤ appliedOf ((serviceAfter (readMilk.take 25)).cluster.hosts q.node).fsm :=
        ⟨_, _, _, rfl, rfl, by decide +kernel⟩
      intro q' horizon' stage' hq' hstage'
      obtain rfl := Option.some.inj (hq.symm.trans hq')
      obtain ⟨rfl, -⟩ := Stage.Reading.inj (hstage.symm.trans hstage')
      exact hle
  obtain ⟨q, hq, horizon, req, response, hstage, hnone, r, hr, hversion⟩ :
      ∃ q ∈ (serviceAfter readMilk).queries, ∃ horizon req response,
        q.stage = .Reading horizon (.Answered req response) ∧ req.query_filter = none ∧
        ∃ r ∈ q.answers, r.state_version = 1 :=
    ⟨_, .head _, _, _, _, rfl, rfl, _, .head _, rfl⟩
  obtain ⟨hle, hlists⟩ := acknowledged_writes_are_read hrun hq hstage r hr
  exact ⟨q, hq, horizon, req, response, hstage, r, hr, hversion, hle, hlists hnone⟩

/-- The query reads before the applier has taken the milk up. -/
def readEarly : List (ServiceAct (CommittedMutation ⊕ SnapshotData)) :=
  probeFirst ++ [.Read 0 .Fetch, .Read 0 .Next, .Read 0 .ReadVersion]

/-- The milk was committed and answered, and a query that came later does not show it. -/
theorem acknowledged_write_is_missed :
    ServiceRun threeNodes plainSnapshots asStored (fun _ _ => True) (Service.init plainSnapshots)
      (serviceAfter readEarly) ∧
    ∃ q ∈ (serviceAfter readEarly).queries, ∃ horizon req response,
      q.stage = .Reading horizon (.Answered req response) ∧ req = ⟨none, none⟩ ∧
      response.status = .Success ∧ response.current_state_version = 0 ∧ response.items = [] ∧
      ∃ r ∈ q.answers, r.status = MutationStatus.Committed.toInt ∧ r.state_version = 1 :=
  ⟨run_of_takes readEarly (fun _ _ _ => trivial) (by decide +kernel),
    _, .head _, _, _, _, rfl, rfl, rfl, rfl, rfl, _, .head _, rfl, rfl⟩

end gateway.reads
