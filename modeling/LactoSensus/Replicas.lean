-- What the hosts have applied. The store of a host has gone through a beginning
-- of the log that its node takes as committed, entry by entry; no step takes a
-- committed entry back, and a crash or a recovery only moves where it stands.
import LactoSensus.LogRecovery
import LactoSensus.Rounds

open common.types
open ordmap
open raft_engine.storage
open raft_engine.node
open raft_engine.cluster
open raft_engine.recovery
open raft_engine.refinement
open raft_engine.origins
open lacto_fsm
open raft (Entry Grows)

namespace raft_engine.replicas

variable {α : Type} {c : Codec α} {s t : LactoStore} {log : List α} {data : α}

/-! ## A store and the entries it has applied -/

/-- The store has applied exactly these entries. -/
def Replays (c : Codec α) (log : List α) (s : LactoStore) : Prop :=
  LactoStore.new.applyLog c 0 log = (s, .ok ())

theorem Replays.nil : Replays c [] .new := rfl

theorem Replays.concat (h : Replays c log s)
    (happly : s.apply c (log.length + 1) data = (t, .ok ())) : Replays c (log ++ [data]) t := by
  unfold Replays at h ⊢
  rw [applyLog_append, h]
  simp only [Nat.zero_add, LactoStore.applyLog, happly]

theorem Replays.last (h : Replays c (log ++ [data]) t) :
    ∃ s, Replays c log s ∧ s.apply c (log.length + 1) data = (t, .ok ()) := by
  unfold Replays at h ⊢
  rw [applyLog_append] at h
  generalize LactoStore.new.applyLog c 0 log = r at h
  obtain ⟨s, e | u⟩ := r
  · cases h
  refine ⟨s, rfl, ?_⟩
  simp only [Nat.zero_add, LactoStore.applyLog] at h
  generalize s.apply c (log.length + 1) data = r at h
  obtain ⟨s', e | u⟩ := r
  · cases h
  · exact h

/-- It has gone through every beginning of them. -/
theorem Replays.beginning {log' : List α} (h : Replays c (log ++ log') s) :
    ∃ s', Replays c log s' := by
  unfold Replays at h ⊢
  rw [applyLog_append] at h
  generalize LactoStore.new.applyLog c 0 log = r at h
  obtain ⟨s', e | u⟩ := r
  · cases h
  · exact ⟨s', rfl⟩

theorem Replays.unique (h : Replays c log s) (h' : Replays c log t) : s = t :=
  (Prod.mk.inj (h.symm.trans h')).1

/-- What such a store looks like: every item stands under its key, and no session names an
entry that is not applied. -/
structure Orderly (n : Nat) (s : LactoStore) : Prop where
  healthy : s.poisoned = false
  applied : appliedOf s = n
  keyed : ∀ key item, s.inventory.get? key = some item → item.item_key = key
  indices : ∀ id record, s.sessions.get? id = some record → record.log_index ≤ n

theorem Orderly.new : Orderly 0 .new :=
  ⟨rfl, rfl, by simp [LactoStore.new], by simp [LactoStore.new]⟩

theorem Orderly.apply {n : Nat} (h : Orderly n s)
    (happly : s.apply c (n + 1) data = (t, .ok ())) : Orderly (n + 1) t := by
  obtain ⟨-, m, client_id, -, -, hcases⟩ := apply_ok happly
  have hindices : ∀ id record, s.sessions.get? id = some record → record.log_index ≤ n + 1 :=
    fun id record hget => (h.indices id record hget).trans (Nat.le_succ n)
  rcases hcases with ⟨-, rfl⟩ | ⟨-, status, event_time, rfl⟩
  · exact ⟨h.healthy, rfl, h.keyed, hindices⟩
  refine ⟨h.healthy, rfl, fun key item hget => ?_, fun id record hget => ?_⟩
  · simp only [LactoStore.commit, updateInventory] at hget
    split_ifs at hget with hstatus hdelete
    · rw [OrdMap.get?_erase] at hget
      split at hget
      · cases hget
      · exact h.keyed key item hget
    · rw [OrdMap.get?_insert] at hget
      split at hget
      · rename_i heq
        obtain rfl := Option.some.inj hget
        exact heq.symm
      · exact h.keyed key item hget
    · exact h.keyed key item hget
  · simp only [LactoStore.commit, OrdMap.get?_insert] at hget
    split at hget
    · obtain rfl := Option.some.inj hget
      exact le_rfl
    · exact hindices id record hget

theorem Replays.orderly (h : Replays c log s) : Orderly log.length s := by
  induction log using List.reverseRecOn generalizing s with
  | nil =>
    obtain rfl := (Prod.mk.inj h).1
    exact .new
  | append_singleton log data ih =>
    obtain ⟨s', hs', happly⟩ := h.last
    rw [List.length_append, List.length_singleton]
    exact (ih hs').apply happly

/-! ## The log of a host -/

/-- The data of a log, as the state machine is given it. -/
def dataOf (l : List (Entry α)) : List α := l.map Entry.data

theorem dataOf_take (l : List (Entry α)) (k : Nat) : dataOf (l.take k) = (dataOf l).take k :=
  List.map_take

theorem dataOf_length (l : List (Entry α)) : (dataOf l).length = l.length := List.length_map _

theorem entryAt_data {l : List (Entry α)} {i : Nat} {e : LogEntry α}
    (h : entryAt l (i + 1) = some e) : (dataOf l)[i]? = some e.data := by
  rw [entryAt_succ] at h
  obtain ⟨x, hx, rfl⟩ := Option.map_eq_some_iff.mp h
  unfold dataOf
  rw [List.getElem?_map, hx]
  rfl

theorem take_succ_of_get {l : List α} {k : Nat} (h : l[k]? = some data) :
    l.take (k + 1) = l.take k ++ [data] := by
  obtain ⟨hlt, hget⟩ := List.getElem?_eq_some_iff.mp h
  rw [List.take_succ_eq_append_getElem hlt, hget]

/-- The next entry of the log is applied. -/
theorem Replays.next {l : List α} {k : Nat} (h : Replays c (l.take k) s)
    (hget : l[k]? = some data) (happly : s.apply c (k + 1) data = (t, .ok ())) :
    Replays c (l.take (k + 1)) t := by
  have hlt := (List.getElem?_eq_some_iff.mp hget).1
  rw [take_succ_of_get hget]
  refine h.concat ?_
  rw [List.length_take_of_le hlt.le]
  exact happly

/-! ## Recovery -/

variable {disk : SledStorage α} {l : List (Entry α)}

/-- The replay of a recovery gets some way, and the store has what it got to. -/
theorem replay_committed_entries_replays (hdisk : Uncompacted disk l) {missing k : Nat}
    (hlen : k + missing ≤ l.length) (h : Replays c ((dataOf l).take k) s) :
    ∃ k', k ≤ k' ∧ k' ≤ k + missing ∧
      Replays c ((dataOf l).take k')
        (replay_committed_entries (lactoMachine c) disk missing k s).1 := by
  induction missing generalizing k s with
  | zero => exact ⟨k, le_rfl, le_rfl, h⟩
  | succ missing ih =>
    unfold replay_committed_entries
    cases hread : disk.read_entry (k + 1) with
    | none => exact ⟨k, le_rfl, Nat.le_add_right _ _, h⟩
    | some entry =>
      dsimp only
      cases happly : (lactoMachine c).apply s (k + 1) entry.data with
      | error e => exact ⟨k, le_rfl, Nat.le_add_right _ _, h⟩
      | ok t =>
        have hget : (dataOf l)[k]? = some entry.data := by
          refine entryAt_data ?_
          rw [← hdisk.get? (k + 1)]
          exact hread
        have hnext := h.next hget (lactoMachine_apply.mp happly)
        obtain ⟨k', hle, hle', hk'⟩ := ih (by omega) hnext
        exact ⟨k', by omega, by omega, hk'⟩

/-- Entries that a store has applied can be replayed from the disk. -/
theorem replay_committed_entries_of_replays (hdisk : Uncompacted disk l) {k : Nat}
    (hlen : k ≤ l.length) (h : Replays c ((dataOf l).take k) s) :
    replay_committed_entries (lactoMachine c) disk k 0 .new = (s, true) := by
  have hsplit : ∀ (missing done : Nat) (s₀ : LactoStore), done + missing = k →
      Replays c ((dataOf l).take done) s₀ →
      replay_committed_entries (lactoMachine c) disk missing done s₀ = (s, true) := by
    intro missing
    induction missing with
    | zero =>
      intro done s₀ hsum hs₀
      obtain rfl : done = k := hsum
      obtain ⟨rfl, -⟩ := Prod.mk.inj (hs₀.symm.trans h)
      rfl
    | succ missing ih =>
      intro done s₀ hsum hs₀
      obtain ⟨entry, hentry⟩ := Option.ne_none_iff_exists'.mp
        ((entryAt_ne_none_iff l (done + 1)).mpr ⟨by omega, by omega⟩)
      have hget := entryAt_data hentry
      have hlt := (List.getElem?_eq_some_iff.mp hget).1
      -- the store has gone through the next entry as well
      have hmore : Replays c ((dataOf l).take (done + 1) ++
          ((dataOf l).take k).drop (done + 1)) s := by
        rw [show (dataOf l).take (done + 1) = ((dataOf l).take k).take (done + 1) by
          rw [List.take_take, min_eq_left (by omega)], List.take_append_drop]
        exact h
      obtain ⟨t, ht⟩ := hmore.beginning
      have hlast : Replays c ((dataOf l).take done ++ [entry.data]) t := by
        rw [← take_succ_of_get hget]
        exact ht
      obtain ⟨s', hs', happly⟩ := hlast.last
      obtain rfl := hs'.unique hs₀
      rw [List.length_take_of_le hlt.le] at happly
      unfold replay_committed_entries
      rw [show disk.read_entry (done + 1) = some entry from (hdisk.get? _).trans hentry]
      dsimp only
      rw [lactoMachine_apply.mpr happly]
      exact ih (done + 1) t (by omega) ht
  exact hsplit k 0 .new (Nat.zero_add k) .nil

/-! ## Hosts -/

variable {cfg : Config} {a a' : Protocol α} {cl cl' : Cluster α LactoStore} {n : NodeId}

/-- The entry that the applier holds is one that the node takes as committed. -/
def HoldsCommitted (a : Protocol α) (n : NodeId) (applier : Applier α) : Prop :=
  ∀ i data, applier = .Fetched i data →
    ∃ k, i = k + 1 ∧ k < a.commit n ∧ (dataOf (a.log n))[k]? = some data

/-- The store of the host has applied a beginning of what its node takes as committed. -/
structure Replica (c : Codec α) (a : Protocol α) (n : NodeId) (h : Host α LactoStore) : Prop where
  store : ∃ k ≤ a.commit n, Replays c ((dataOf (a.log n)).take k) h.fsm
  applier : ∀ p, h.state = .Up p → HoldsCommitted a n p.applier

/-- The committed part of the log is the same afterwards. -/
structure SamePrefix (a a' : Protocol α) (n : NodeId) : Prop where
  commit_le : a.commit n ≤ a'.commit n
  log : (a'.log n).take (a.commit n) = (a.log n).take (a.commit n)

theorem SamePrefix.take (h : SamePrefix a a' n) {k : Nat} (hk : k ≤ a.commit n) :
    (dataOf (a'.log n)).take k = (dataOf (a.log n)).take k := by
  have hshorter : ∀ l : List (Entry α), (l.take (a.commit n)).take k = l.take k := fun l => by
    rw [List.take_take, min_eq_left hk]
  rw [← dataOf_take, ← dataOf_take, ← hshorter, h.log, hshorter]

theorem SamePrefix.get (h : SamePrefix a a' n) {k : Nat} (hk : k < a.commit n) :
    (dataOf (a'.log n))[k]? = (dataOf (a.log n))[k]? := by
  have htake := congrArg (·[k]?) (h.take (Nat.succ_le_of_lt hk))
  simpa [List.getElem?_take_of_lt (Nat.lt_succ_self k)] using htake

theorem step_samePrefix [DecidableEq α] {S : Type} {sm : StateMachine α S} {c c' : Cluster α S}
    (hr : Refines cfg c a) (hr' : Refines cfg c' a') (hg : Grows a a') {act : Action α}
    (hs : step cfg sm c act = some c') (n : NodeId) : SamePrefix a a' n := by
  have hle : a.commit n ≤ a'.commit n := by
    rw [← hr.last_committed, ← hr'.last_committed]
    exact (step_moved hr hs n).le
  refine ⟨hle, ?_⟩
  have hset := (hr.safe.complete.settled n).grow hg
  have hset' := hr'.safe.complete.settled n
  have hlen := hr.safe.complete.commit_le n
  have hlen' := hr'.safe.complete.commit_le n
  have hbefore : ((a.log n).take (a.commit n)).length = a.commit n := List.length_take_of_le hlen
  have hafter : ((a'.log n).take (a'.commit n)).length = a'.commit n := List.length_take_of_le hlen'
  have hpre : (a.log n).take (a.commit n) <+: (a'.log n).take (a'.commit n) := by
    rcases hr'.safe.complete.settled_agree hr'.safe.matching hset hset' with hpre | hpre
    · exact hpre
    · rw [hpre.eq_of_length (by have := hpre.length_le; omega)]
  have htake := List.prefix_iff_eq_take.mp hpre
  rw [hbefore, List.take_take, min_eq_left hle] at htake
  exact htake.symm

theorem HoldsCommitted.grow {applier : Applier α} (h : HoldsCommitted a n applier)
    (hsame : SamePrefix a a' n) : HoldsCommitted a' n applier := by
  intro i data happ
  obtain ⟨k, hi, hk, hget⟩ := h i data happ
  exact ⟨k, hi, hk.trans_le hsame.commit_le, (hsame.get hk).trans hget⟩

theorem Replica.grow {h : Host α LactoStore} (hrep : Replica c a n h) (hsame : SamePrefix a a' n) :
    Replica c a' n h := by
  refine ⟨?_, fun p hp => (hrep.applier p hp).grow hsame⟩
  obtain ⟨k, hk, hreplays⟩ := hrep.store
  refine ⟨k, hk.trans hsame.commit_le, ?_⟩
  rw [hsame.take hk]
  exact hreplays

/-- The applied index of a host is a committed one, and its store has gone through the log up
to there. -/
theorem Replica.applied {h : Host α LactoStore} (hrep : Replica c a n h)
    (hcommit : a.commit n ≤ (a.log n).length) :
    appliedOf h.fsm ≤ a.commit n ∧ Replays c ((dataOf (a.log n)).take (appliedOf h.fsm)) h.fsm ∧
      Orderly (appliedOf h.fsm) h.fsm := by
  obtain ⟨k, hk, hreplays⟩ := hrep.store
  have horderly := hreplays.orderly
  rw [List.length_take_of_le (by rw [dataOf_length]; exact hk.trans hcommit)] at horderly
  obtain rfl := horderly.applied
  exact ⟨hk, hreplays, horderly⟩

/-! ## Steps -/

/-- Only the applier writes to the store. -/
theorem perform_store [DecidableEq α] {S : Type} {sm : StateMachine α S} {c : Cluster α S}
    {act : Act α} {e : Effect α S} (he : perform cfg sm c act = some e) :
    ∃ p, c.process e.host = some p ∧
      (e.fsm = (c.hosts e.host).fsm ∧ e.process.applier = p.applier ∨
        ApplierStep sm p (c.hosts e.host).fsm e.process e.fsm) := by
  obtain ⟨p, hp, hacted⟩ := perform_acted he
  refine ⟨p, hp, ?_⟩
  cases hacted with
  | applied hrun => exact .inr (runApplier_step hrun)
  | _ => exact .inl ⟨rfl, rfl⟩

/-- One turn of the applier, on the log it works on. -/
theorem ApplierStep.replica {p p' : Process α} {fsm fsm' : LactoStore}
    (h : ApplierStep (lactoMachine c) p fsm p' fsm') (hproc : ProcessRel cfg a a n p)
    (hcommit : a.commit n ≤ (a.log n).length) (hrep : Replica c a n ⟨fsm, .Up p⟩) :
    (∃ k ≤ a.commit n, Replays c ((dataOf (a.log n)).take k) fsm') ∧
      HoldsCommitted a n p'.applier := by
  have hstore := hrep.store
  cases h with
  | start | finish | advance | fatal => exact ⟨hstore, fun _ _ happ => by cases happ⟩
  | @fetch applied committed e hloop hlt he =>
    refine ⟨hstore, fun i data happ => ?_⟩
    obtain ⟨rfl, rfl⟩ := Applier.Fetched.inj happ
    have hle : committed ≤ a.commit n := by
      have := hproc.applier
      rwa [hloop] at this
    exact ⟨applied, rfl, by omega, entryAt_data ((hproc.node.disk.log.get? _).symm.trans he)⟩
  | @apply next_idx data fsm' hfetched happly =>
    obtain ⟨-, hreplays, -⟩ := hrep.applied hcommit
    obtain ⟨j, rfl, hj, hget⟩ := hrep.applier p rfl next_idx data hfetched
    have happly := lactoMachine_apply.mp happly
    have hindex : j + 1 = appliedOf fsm + 1 := (apply_ok happly).1
    obtain rfl : j = appliedOf fsm := by omega
    exact ⟨⟨_, hj, hreplays.next hget happly⟩, fun _ _ happ => by cases happ⟩

/-- What a recovery has made of the store. -/
theorem Replica.recover {disk : SledStorage α} {fsm : LactoStore} (hdisk : DiskRel a n disk)
    (hcommit : a.commit n ≤ (a.log n).length) (hrep : Replica c a n ⟨fsm, .Down disk⟩) :
    ∃ k ≤ a.commit n,
      Replays c ((dataOf (a.log n)).take k) (recover (lactoMachine c) disk fsm).1 := by
  obtain ⟨hk, hreplays, -⟩ := hrep.applied hcommit
  dsimp only at hk hreplays
  have happlied : (lactoMachine c).last_applied_index fsm = appliedOf fsm := rfl
  have hlen : appliedOf fsm + (a.commit n - appliedOf fsm) ≤ (a.log n).length := by omega
  unfold cluster.recover
  rw [happlied, hdisk.commit]
  dsimp only
  rw [if_neg (not_lt.mpr hk)]
  obtain ⟨k', -, hle, hk'⟩ := replay_committed_entries_replays hdisk.log hlen hreplays
  exact ⟨k', by omega, hk'⟩

theorem Replica.step [DecidableEq α] (hr : Refines cfg cl a) (hr' : Refines cfg cl' a')
    (hg : Grows a a') {act : Action α} (hs : step cfg (lactoMachine c) cl act = some cl')
    (h : ∀ n, Replica c a n (cl.hosts n)) (n : NodeId) : Replica c a' n (cl'.hosts n) := by
  have hsame := step_samePrefix hr hr' hg hs
  have hother : ∀ (m : NodeId) (host : Host α LactoStore),
      Replica c a m host → Replica c a' n (if n = m then host else cl.hosts n) := by
    intro m host hhost
    split
    · rename_i heq
      rw [heq]
      exact hhost.grow (hsame m)
    · exact (h n).grow (hsame n)
  have hcommit := hr.safe.complete.commit_le
  cases step_after hs with
  | @acted act e he =>
    refine hother e.host ⟨e.fsm, .Up e.process.settle⟩ ?_
    obtain ⟨p, hp, hcases⟩ := perform_store he
    have hrep := h e.host
    have hup := process_up hp
    rcases hcases with ⟨hfsm, happ⟩ | happlies
    · refine ⟨?_, fun p' hp' => ?_⟩
      · rw [hfsm]
        exact hrep.store
      · obtain rfl := HostState.Up.inj hp'
        have hkept := hrep.applier p hup
        rw [← happ] at hkept
        exact hkept
    · have hhost : cl.hosts e.host = ⟨(cl.hosts e.host).fsm, .Up p⟩ := by rw [← hup]
      rw [hhost] at hrep
      obtain ⟨hstore, happ⟩ := ApplierStep.replica happlies (hr.up hp) (hcommit _) hrep
      refine ⟨hstore, fun p' hp' => ?_⟩
      obtain rfl := HostState.Up.inj hp'
      exact happ
  | @crashedIn act e point disk he hdisk =>
    exact hother e.host ⟨_, .Down disk⟩ ⟨(h e.host).store, fun _ hp => by cases hp⟩
  | @crashed m p hp =>
    exact hother m ⟨_, .Down _⟩ ⟨(h m).store, fun _ hp => by cases hp⟩
  | @stopped m timeout disk hdown =>
    have hhost : cl.hosts m = ⟨(cl.hosts m).fsm, .Down disk⟩ := by rw [← hdown]
    have hrep := h m
    have hdisk := hr.disk m
    rw [hhost] at hrep hdisk
    exact hother m ⟨_, .Down disk⟩ ⟨hrep.recover hdisk (hcommit m), fun _ hp => by cases hp⟩
  | @booted m timeout disk ln hdown hmem hnew =>
    have hhost : cl.hosts m = ⟨(cl.hosts m).fsm, .Down disk⟩ := by rw [← hdown]
    have hrep := h m
    have hdisk := hr.disk m
    rw [hhost] at hrep hdisk
    refine hother m ⟨_, .Up ⟨.new ln, .Idle, []⟩⟩ ⟨hrep.recover hdisk (hcommit m), fun p hp => ?_⟩
    obtain rfl := HostState.Up.inj hp
    intro i data happ
    cases happ

/-! ## The applied index -/

theorem replay_committed_entries_applied (disk : SledStorage α) (missing k : Nat)
    (s : LactoStore) :
    appliedOf s ≤ appliedOf (replay_committed_entries (lactoMachine c) disk missing k s).1 := by
  induction missing generalizing k s with
  | zero => exact le_rfl
  | succ missing ih =>
    unfold replay_committed_entries
    cases disk.read_entry (k + 1) with
    | none => exact le_rfl
    | some entry =>
      dsimp only
      cases happly : (lactoMachine c).apply s (k + 1) entry.data with
      | error e => exact le_rfl
      | ok t =>
        obtain ⟨hindex, happlied, -⟩ := apply_moves (lactoMachine_apply.mp happly)
        exact le_trans (by omega) (ih (k + 1) t)

theorem recover_applied (disk : SledStorage α) (s : LactoStore) :
    appliedOf s ≤ appliedOf (recover (lactoMachine c) disk s).1 := by
  unfold cluster.recover
  dsimp only
  split
  · exact le_rfl
  · exact replay_committed_entries_applied _ _ _ _

theorem ApplierStep.applied {p p' : Process α} {fsm fsm' : LactoStore}
    (h : ApplierStep (lactoMachine c) p fsm p' fsm') : appliedOf fsm ≤ appliedOf fsm' := by
  cases h with
  | start | finish | advance | fatal | fetch => exact le_rfl
  | apply hfetched happly =>
    obtain ⟨hindex, happlied, -⟩ := apply_moves (lactoMachine_apply.mp happly)
    omega

/-- No store goes back. -/
theorem step_applied [DecidableEq α] {act : Action α}
    (hs : step cfg (lactoMachine c) cl act = some cl') (n : NodeId) :
    appliedOf (cl.hosts n).fsm ≤ appliedOf (cl'.hosts n).fsm := by
  have hother : ∀ (m : NodeId) (host : Host α LactoStore),
      appliedOf (cl.hosts m).fsm ≤ appliedOf host.fsm →
      appliedOf (cl.hosts n).fsm ≤ appliedOf (if n = m then host else cl.hosts n).fsm := by
    intro m host hhost
    split
    · rename_i heq
      rw [heq]
      exact hhost
    · exact le_rfl
  cases step_after hs with
  | @acted act e he =>
    obtain ⟨p, -, hcases⟩ := perform_store he
    refine hother e.host ⟨e.fsm, _⟩ ?_
    rcases hcases with ⟨hfsm, -⟩ | happlies
    · exact (congrArg appliedOf hfsm).ge
    · exact ApplierStep.applied happlies
  | @crashedIn act e point disk he hdisk => exact hother e.host ⟨_, _⟩ le_rfl
  | @crashed m p hp => exact hother m ⟨_, _⟩ le_rfl
  | @stopped m timeout disk hdown => exact hother m ⟨_, _⟩ (recover_applied disk _)
  | @booted m timeout disk ln hdown hmem hnew =>
    exact hother m ⟨_, _⟩ (recover_applied disk _)

end raft_engine.replicas
