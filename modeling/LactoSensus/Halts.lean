-- What can halt a member of the cluster on its way from the log to the store. The
-- applier and the recovery check the order of the indices, look for the entry and
-- count one further; in no reachable cluster does one of these checks fail. A
-- committed entry that the store refuses is all that is left.
import LactoSensus.Promises
import LactoSensus.Proposals

open common.types
open common.proto
open machine
open ordmap
open raft_engine.storage
open raft_engine.node
open raft_engine.engine
open raft_engine.shell
open raft_engine.cluster
open raft_engine.refinement
open raft_engine.recovery
open raft_engine.replicas
open raft_engine.promises
open raft_engine.proposals (Recorded index_of_holds)
open lacto_fsm
open raft (Entry Grows)

namespace raft_engine.halts

variable {α : Type} {cfg : Config} {codec : Codec α} {cl cl' : Cluster α LactoStore}
  {a a' : Protocol α} {n : NodeId} {p p' : Process α} {fsm fsm' : LactoStore}

/-! ## The applier and its store -/

/-- The index that the applier is at belongs to the store it writes to. -/
def AtStore (ln : LogicalNode α) (applied : Nat) : Applier α → Prop
  | .Idle => ln.is_poisoned = false → ln.last_applied = applied
  | .Looping k _ => k = applied ∧ (ln.is_poisoned = false → ln.last_applied = applied)
  | .Fetched i _ => i = applied + 1
  | .Applied i => i = applied

def InStep (h : Host α LactoStore) : Prop :=
  ∀ p, h.state = .Up p → AtStore p.shell.inner (appliedOf h.fsm) p.applier

/-- A handler that leaves the applied index alone, and heals no node. -/
structure Still (ln ln' : LogicalNode α) : Prop where
  applied : ln'.last_applied = ln.last_applied
  halted : ln.is_poisoned = true → ln'.is_poisoned = true

theorem Still.of_quiet {ln ln' : LogicalNode α} (h : Quiet ln ln') : Still ln ln' :=
  ⟨h.applied, h.halted⟩

theorem Still.awake {ln ln' : LogicalNode α} (h : Still ln ln')
    (hp : ln'.is_poisoned = false) : ln.is_poisoned = false := by
  cases hst : ln.is_poisoned with
  | false => rfl
  | true => exact absurd (h.halted hst) (by rw [hp]; simp)

theorem AtStore.still {ln ln' : LogicalNode α} (h : Still ln ln') {applied : Nat} {app : Applier α}
    (hat : AtStore ln applied app) : AtStore ln' applied app := by
  cases app with
  | Idle => exact fun hp => h.applied.trans (hat (h.awake hp))
  | Looping k committed => exact ⟨hat.1, fun hp => h.applied.trans (hat.2 (h.awake hp))⟩
  | Fetched i data => exact hat
  | Applied i => exact hat

theorem Served.still {msg : Message α} {ln ln' : LogicalNode α} (h : Served ln msg ln') :
    Still ln ln' := by
  cases h with
  | quiet hq => exact .of_quiet hq
  | @merged dst req ln₁ _ f m hq hst hc ht hv hm hln =>
    refine ⟨?_, fun hp => ?_⟩
    · rw [hln.applied]
      exact hm.frame.1.trans hq.applied
    · -- the node that merges is a follower
      have hp₁ := hq.halted hp
      unfold LogicalNode.is_poisoned at hp₁
      rw [hst] at hp₁
      cases hp₁

theorem propose_still (sh : ConsensusShell α) (data : α) :
    Still sh.inner (sh.propose data).1.inner := by
  rcases (propose_stepped sh data).1 with ⟨-, hq⟩ | ⟨-, -, heq⟩
  · exact .of_quiet hq
  · rw [heq]
    exact ⟨rfl, id⟩

theorem ApplierStep.atStore (h : ApplierStep (lactoMachine codec) p fsm p' fsm')
    (hat : AtStore p.shell.inner (appliedOf fsm) p.applier) :
    AtStore p'.shell.inner (appliedOf fsm') p'.applier := by
  cases h with
  | start hidle hp hle =>
    rw [hidle] at hat
    exact ⟨hat hp, hat⟩
  | fetch hloop hlt he =>
    rw [hloop] at hat
    exact congrArg (· + 1) hat.1
  | finish hloop hge =>
    rw [hloop] at hat
    exact hat.2
  | apply hfetched happly =>
    obtain ⟨-, happlied, -⟩ := apply_moves (lactoMachine_apply.mp happly)
    exact happlied.symm
  | advance happlied hadv hsh hpub =>
    rw [happlied] at hat
    refine ⟨hat, fun _ => ?_⟩
    dsimp only
    rw [hsh]
    exact hadv.applied.trans hat
  | fatal hs hp =>
    intro hno
    rw [hp] at hno
    cases hno

theorem perform_atStore [DecidableEq α] {act : Act α} {e : Effect α LactoStore}
    (he : perform cfg (lactoMachine codec) cl act = some e) (h : InStep (cl.hosts e.host)) :
    AtStore e.process.shell.inner (appliedOf e.fsm) e.process.applier := by
  obtain ⟨p, hp, hperf⟩ := perform_cases he
  have hat := h p (process_up hp)
  obtain ⟨q, hq, hcases⟩ := perform_store he
  obtain rfl := Option.some.inj (hq.symm.trans hp)
  rcases hcases with ⟨hfsm, happ⟩ | happlies
  swap
  · exact ApplierStep.atStore happlies hat
  rw [hfsm, happ]
  cases hperf with
  | stepped hs => exact hat.still (.of_quiet hs.quiet)
  | proposed data hsh =>
    rw [hsh]
    exact hat.still (propose_still _ data)
  | served hmsg hdst hserved hpub => exact hat.still (Served.still hserved)
  | applied happlies =>
    have hdone := ApplierStep.atStore happlies hat
    rwa [hfsm, happ] at hdone

theorem InStep.step [DecidableEq α] {act : Action α}
    (hs : step cfg (lactoMachine codec) cl act = some cl') (h : ∀ n, InStep (cl.hosts n)) :
    ∀ n, InStep (cl'.hosts n) := by
  intro n
  have hother : ∀ {m : NodeId} {host : Host α LactoStore}, InStep host →
      InStep (if n = m then host else cl.hosts n) := by
    intro m host hhost
    split
    · exact hhost
    · exact h n
  have hdown : ∀ {m : NodeId} {fsm : LactoStore} {disk : SledStorage α},
      InStep (if n = m then ⟨fsm, .Down disk⟩ else cl.hosts n) :=
    hother fun _ hp => by cases hp
  cases step_after hs with
  | acted he =>
    refine hother fun p hp => ?_
    obtain rfl := HostState.Up.inj hp
    exact perform_atStore he (h _)
  | crashedIn he hdisk => exact hdown
  | crashed hp => exact hdown
  | stopped hdisk => exact hdown
  | booted hdisk hmem hnew =>
    refine hother fun p hp => ?_
    obtain rfl := HostState.Up.inj hp
    intro _
    unfold LogicalNode.try_new at hnew
    split at hnew
    · cases hnew
    · obtain rfl := Except.ok.inj hnew
      rfl

/-! ## The checks of the applier -/

/-- The next entry of the log is one that the store does not take. -/
structure Refused (codec : Codec α) (disk : SledStorage α) (fsm : LactoStore) (data : α) :
    Prop where
  committed : appliedOf fsm < disk.last_committed
  entry : ∃ e, disk.read_entry (appliedOf fsm + 1) = some e ∧ e.data = data
  refused : ∃ err, (lactoMachine codec).apply fsm (appliedOf fsm + 1) data = .error err

theorem read_entries_one {d : SledStorage α} {k : Nat} {e : LogEntry α}
    (h : d.read_entry (k + 1) = some e) :
    ∃ rest, d.read_entries (k + 1) (k + 1) = .ok (e :: rest) := by
  have hmem : e ∈ d.log.range (k + 1) (k + 1) := by
    unfold OrdMap.range OrdMap.values
    refine List.mem_map.mpr ⟨(k + 1, e), List.mem_filter.mpr ⟨?_, by simp⟩, rfl⟩
    exact (d.log.get?_eq_some_iff (k + 1) e).mp h
  have hread : d.read_entries (k + 1) (k + 1) = .ok (d.log.range (k + 1) (k + 1)) := by
    unfold SledStorage.read_entries
    rw [if_neg (Nat.succ_ne_zero k), if_neg (lt_irrefl _)]
  cases hrange : d.log.range (k + 1) (k + 1) with
  | nil =>
    rw [hrange] at hmem
    cases hmem
  | cons e' rest =>
    have hfirst := read_one d (k + 1) e' rest (hread.trans (congrArg _ hrange))
    obtain rfl := Option.some.inj (hfirst.symm.trans h)
    exact ⟨rest, hread.trans (congrArg _ hrange)⟩

/-- The log of a host is no longer than its indices reach. -/
theorem log_bound {h : List (proposals.Proposal α)} (hr : Refines cfg cl a)
    (hrec : Recorded a cl h) (n : NodeId) : (a.log n).length ≤ u64Max := by
  cases hlen : (a.log n).length with
  | zero => exact Nat.zero_le _
  | succ k =>
    obtain ⟨e, he⟩ := Option.ne_none_iff_exists'.mp
      ((entryAt_ne_none_iff (a.log n) (k + 1)).mpr ⟨Nat.succ_pos k, hlen.ge⟩)
    have hread := (hr.read_entry n (k + 1)).trans he
    obtain ⟨w, hw, rfl⟩ := hrec.hosts n e ⟨k + 1, hread⟩
    obtain ⟨j, hj, hindex, -⟩ := index_of_holds hr hread
    have hbound := (hrec.placed w hw).bound
    omega

/-- What is known of a host that is up. -/
structure Ready (codec : Codec α) (a : Protocol α) (n : NodeId) (p : Process α)
    (fsm : LactoStore) : Prop where
  disk : DiskRel a n p.shell.inner.node.disk
  commit : p.shell.inner.last_committed = a.commit n
  applier : ApplierRel a n p.applier
  holds : HoldsCommitted a n p.applier
  applied : appliedOf fsm ≤ a.commit n
  logged : a.commit n ≤ (a.log n).length
  bound : (a.log n).length ≤ u64Max
  atStore : AtStore p.shell.inner (appliedOf fsm) p.applier

/-- The applier halts a node for a refusal and for nothing else. -/
theorem runApplier_refused (h : Ready codec a n p fsm) (hp : p.shell.inner.is_poisoned = false)
    (hrun : runApplier (lactoMachine codec) p fsm = some (p', fsm'))
    (hhalt : p'.shell.inner.is_poisoned = true) :
    ∃ data, p.applier = .Fetched (appliedOf fsm + 1) data ∧
      Refused codec p.shell.inner.node.disk fsm data := by
  obtain ⟨hdisk, hcommit, happlier, hholds, happlied, hlogged, hbound, hat⟩ := h
  have hawake : ∀ {applier : Applier α}, ¬({ p with applier } : Process α).shell.inner.is_poisoned =
      true := by
    intro applier hno
    exact absurd (hp.symm.trans hno) (by simp)
  cases happ : p.applier with
  | Idle =>
    rw [happ] at hat
    have hlast : p.shell.inner.last_applied = appliedOf fsm := hat hp
    unfold runApplier at hrun
    rw [happ] at hrun
    dsimp only at hrun
    rw [if_neg (by simp [hp]), if_neg (by omega)] at hrun
    obtain ⟨rfl, -⟩ := Prod.mk.inj (Option.some.inj hrun)
    exact absurd hhalt hawake
  | Looping k committed =>
    rw [happ] at hat happlier
    have hle : committed ≤ a.commit n := happlier
    unfold runApplier at hrun
    rw [happ] at hrun
    dsimp only at hrun
    split at hrun
    swap
    · obtain ⟨rfl, -⟩ := Prod.mk.inj (Option.some.inj hrun)
      exact absurd hhalt hawake
    rename_i hlt
    have hadd : checked_add "LogIndex" k 1 = .ok (k + 1) := by
      unfold checked_add
      rw [if_pos (by omega)]
    obtain ⟨e, he⟩ := Option.ne_none_iff_exists'.mp
      ((entryAt_ne_none_iff (a.log n) (k + 1)).mpr ⟨Nat.succ_pos k, by omega⟩)
    obtain ⟨rest, hread⟩ := read_entries_one ((hdisk.log.get? (k + 1)).trans he)
    rw [hadd] at hrun
    dsimp only at hrun
    rw [hread] at hrun
    obtain ⟨rfl, -⟩ := Prod.mk.inj (Option.some.inj hrun)
    exact absurd hhalt hawake
  | Fetched i data =>
    rw [happ] at hat
    obtain rfl : i = appliedOf fsm + 1 := hat
    refine ⟨data, rfl, ?_⟩
    obtain ⟨k, hk, hlt, hget⟩ := hholds _ _ happ
    obtain rfl : appliedOf fsm = k := by omega
    unfold runApplier at hrun
    rw [happ] at hrun
    dsimp only at hrun
    cases happly : (lactoMachine codec).apply fsm (appliedOf fsm + 1) data with
    | ok t =>
      rw [happly] at hrun
      obtain ⟨rfl, -⟩ := Prod.mk.inj (Option.some.inj hrun)
      exact absurd hhalt hawake
    | error err =>
      obtain ⟨e, he⟩ := Option.ne_none_iff_exists'.mp
        ((entryAt_ne_none_iff (a.log n) (appliedOf fsm + 1)).mpr ⟨Nat.succ_pos _, by omega⟩)
      refine ⟨by rw [hdisk.commit]; exact hlt, ⟨e, (hdisk.log.get? _).trans he, ?_⟩, err, happly⟩
      exact Option.some.inj ((entryAt_data he).symm.trans hget)
  | Applied i =>
    rw [happ] at hat
    obtain rfl : i = appliedOf fsm := hat
    rw [runApplier_applied happ] at hrun
    have hlast : appliedOf fsm ≤ p.shell.inner.last_log_index := by
      change _ ≤ p.shell.inner.node.disk.last_log_index
      rw [hdisk.log.last_log_index]
      omega
    -- the index is in the log, so the node takes it over
    obtain ⟨m, hwrite, hstate⟩ : ∃ m, recordApplied (appliedOf fsm) p.shell.inner =
        (onto p.shell.inner m, .ok m.last_committed) ∧ m.state = p.shell.inner.node.state := by
      rcases node_advance_cases p.shell.inner (appliedOf fsm) with
        ⟨hno, -⟩ | ⟨e, -, hlt⟩ | ⟨m, heq, hadv⟩
      · rw [hp] at hno
        cases hno
      · omega
      · refine ⟨m, ?_, hadv.state⟩
        unfold recordApplied
        rw [heq]
        rfl
    have hinner := p.shell.write_inner (recordApplied (appliedOf fsm))
    have hres := p.shell.write_result (recordApplied (appliedOf fsm))
    rw [hwrite] at hinner hres
    generalize p.shell.write _ = w at hrun hinner hres
    obtain ⟨sh, res⟩ := w
    obtain rfl : res = .ok m.last_committed := hres
    obtain ⟨rfl, -⟩ := Prod.mk.inj (Option.some.inj hrun)
    change sh.inner.is_poisoned = true at hhalt
    rw [show sh.inner = onto p.shell.inner m from hinner] at hhalt
    unfold LogicalNode.is_poisoned onto at hhalt
    rw [hstate] at hhalt
    exact absurd (hp.symm.trans hhalt) (by simp)

/-! ## The checks of the recovery -/

variable {disk : SledStorage α}

/-- A replay is through, or it has come to an entry that the store refuses. -/
theorem replay_refused (hdisk : Uncompacted disk (a.log n)) {missing : Nat}
    (hcommit : disk.last_committed ≤ (a.log n).length)
    (hsum : appliedOf fsm + missing = disk.last_committed)
    (hreplay : replay_committed_entries (lactoMachine codec) disk missing (appliedOf fsm) fsm =
      (fsm', ok)) :
    ok = true ∧ appliedOf fsm' = disk.last_committed ∨
      ok = false ∧ ∃ data, Refused codec disk fsm' data := by
  induction missing generalizing fsm with
  | zero =>
    obtain ⟨rfl, rfl⟩ := Prod.mk.inj hreplay
    exact .inl ⟨rfl, hsum⟩
  | succ missing ih =>
    obtain ⟨e, he⟩ := Option.ne_none_iff_exists'.mp
      ((entryAt_ne_none_iff (a.log n) (appliedOf fsm + 1)).mpr ⟨Nat.succ_pos _, by omega⟩)
    have hread : disk.read_entry (appliedOf fsm + 1) = some e := (hdisk.get? _).trans he
    unfold replay_committed_entries at hreplay
    rw [hread] at hreplay
    dsimp only at hreplay
    cases happly : (lactoMachine codec).apply fsm (appliedOf fsm + 1) e.data with
    | error err =>
      rw [happly] at hreplay
      obtain ⟨rfl, rfl⟩ := Prod.mk.inj hreplay
      exact .inr ⟨rfl, e.data, by omega, ⟨e, hread, rfl⟩, err, happly⟩
    | ok t =>
      rw [happly] at hreplay
      obtain ⟨-, happlied, -⟩ := apply_moves (lactoMachine_apply.mp happly)
      have hrest : appliedOf t + missing = disk.last_committed := by omega
      exact ih hrest (by rw [happlied]; exact hreplay)

/-- A member that starts comes up with everything applied that it takes as committed, or the
store has refused an entry. -/
theorem restart_refused [DecidableEq α] (hr : Refines cfg cl a)
    (hrep : Replica codec a n (cl.hosts n)) {timeout : Nat}
    (hs : step cfg (lactoMachine codec) cl (.Restart n timeout) = some cl') :
    (∃ p, cl'.process n = some p ∧ p.shell.inner.is_poisoned = false ∧
      appliedOf (cl'.hosts n).fsm = p.shell.inner.last_committed) ∨
    ∃ data, Refused codec (cl'.hosts n).disk (cl'.hosts n).fsm data := by
  have hcommit := hr.safe.complete.commit_le n
  obtain ⟨happlied, -, -⟩ := hrep.applied hcommit
  have hdisk := hr.disk n
  simp only [step] at hs
  cases hst : (cl.hosts n).state with
  | Up p =>
    rw [hst] at hs
    cases hs
  | Down disk =>
    have heq : (cl.hosts n).disk = disk := by
      unfold Host.disk
      rw [hst]
    rw [heq] at hdisk
    rw [hst] at hs
    dsimp only at hs
    split at hs
    · cases hs
    have hle : appliedOf (cl.hosts n).fsm ≤ disk.last_committed := by
      rw [hdisk.commit]
      exact happlied
    have hrec : recover (lactoMachine codec) disk (cl.hosts n).fsm =
        replay_committed_entries (lactoMachine codec) disk
          (disk.last_committed - appliedOf (cl.hosts n).fsm) (appliedOf (cl.hosts n).fsm)
          (cl.hosts n).fsm := if_neg (not_lt.mpr hle)
    have hhost : ∀ host : Host α LactoStore, (cl.setHost n host).hosts n = host :=
      fun _ => if_pos rfl
    rw [hrec] at hs
    generalize hreplay : replay_committed_entries _ _ _ _ _ = r at hs
    obtain ⟨fsm, ok⟩ := r
    have hcases := replay_refused hdisk.log (hdisk.commit.trans_le hcommit) (by omega) hreplay
    rcases hcases with ⟨rfl, hdone⟩ | ⟨rfl, data, href⟩
    · obtain ⟨ln, hnew, hawake, hcommitted⟩ : ∃ ln, LogicalNode.try_new n
          ((lactoMachine codec).last_applied_index fsm) disk cfg.heartbeat_interval timeout =
            .ok ln ∧ ln.is_poisoned = false ∧ ln.last_committed = disk.last_committed :=
        ⟨_, if_neg (not_lt.mpr hdone.le), rfl, rfl⟩
      dsimp only at hs
      rw [hnew] at hs
      obtain rfl := Option.some.inj hs
      refine .inl ⟨⟨.new ln, .Idle, []⟩, ?_, hawake, ?_⟩
      · unfold Cluster.process
        rw [hhost]
      · rw [hhost]
        exact hdone.trans hcommitted.symm
    · obtain rfl := Option.some.inj hs
      refine .inr ⟨data, ?_⟩
      unfold Host.disk
      rw [hhost]
      exact href

/-! ## Every cluster that is reached -/

theorem reachable_ready [DecidableEq α] (hc : Reachable cfg (lactoMachine codec) cl) :
    ∃ a, Replicated cfg codec cl a ∧ ∀ n p, cl.process n = some p →
      Ready codec a n p (cl.hosts n).fsm := by
  obtain ⟨h, hrecorded⟩ := proposals.Reachable.recorded hc
  obtain ⟨a₁, -, hr₁, hrec⟩ := proposals.run_recorded hrecorded (.init cfg _) .init
  obtain ⟨a, -, hr, hrep⟩ := run_replicated hc .init
  have hat : ∀ n, InStep (cl.hosts n) :=
    machine.Run.invariant (fun _ _ _ h _ hs => InStep.step hs h) hc fun _ _ hp => by cases hp
  refine ⟨a, ⟨hr, hrep⟩, fun n p hp => ?_⟩
  have hcommit := hr.safe.complete.commit_le n
  have hproc := hr.up hp
  have hup := process_up hp
  obtain ⟨happlied, -, -⟩ := (hrep n).applied hcommit
  refine ⟨hproc.node.disk, hproc.node.commit, hproc.applier, (hrep n).applier p hup, happlied,
    hcommit, ?_, hat n p hup⟩
  -- both protocol states have the log of the disk
  have hlast := (hr.disk n).log.last_log_index
  rw [(hr₁.disk n).log.last_log_index] at hlast
  rw [← hlast]
  exact log_bound hr₁ hrec n

/-- In no run does the applier meet a gap, a missing entry or an index out of order: it halts its
node only at a committed entry that the store refuses, and a start fails only there. A start that
gets through has applied all that its node takes as committed. -/
theorem only_refusals_halt [DecidableEq α] (hc : Reachable cfg (lactoMachine codec) cl)
    (n : NodeId) :
    (∀ p p' fsm', cl.process n = some p → p.shell.inner.is_poisoned = false →
      runApplier (lactoMachine codec) p (cl.hosts n).fsm = some (p', fsm') →
      p'.shell.inner.is_poisoned = true →
      ∃ data, p.applier = .Fetched (appliedOf (cl.hosts n).fsm + 1) data ∧
        Refused codec (cl.hosts n).disk (cl.hosts n).fsm data) ∧
    ∀ timeout cl', step cfg (lactoMachine codec) cl (.Restart n timeout) = some cl' →
      (∃ p, cl'.process n = some p ∧ p.shell.inner.is_poisoned = false ∧
        appliedOf (cl'.hosts n).fsm = p.shell.inner.last_committed) ∨
      ∃ data, Refused codec (cl'.hosts n).disk (cl'.hosts n).fsm data := by
  obtain ⟨a, ⟨hr, hrep⟩, hready⟩ := reachable_ready hc
  refine ⟨fun p p' fsm' hp hawake hrun hhalt => ?_, fun timeout cl' hs => ?_⟩
  · obtain ⟨data, happ, href⟩ := runApplier_refused (hready n p hp) hawake hrun hhalt
    refine ⟨data, happ, ?_⟩
    unfold Host.disk
    rw [process_up hp]
    exact href
  · exact restart_refused hr (hrep n) hs

/-- A command of another format is committed, and the applier has fetched it. -/
def fetchSnapshot : List (Action (CommittedMutation ⊕ SnapshotData)) :=
  (commitOne (.inr ⟨[], [], none⟩)).take 16

theorem only_refusals_halt_snapshot :
    (∃ data, Refused plainSnapshots.toCodec ((stored fetchSnapshot).hosts 1).disk
        ((stored fetchSnapshot).hosts 1).fsm data ∧ data = .inr ⟨[], [], none⟩) ∧
      ((∃ p, (stored [.Restart 1 1]).process 1 = some p ∧ p.shell.inner.is_poisoned = false ∧
          appliedOf ((stored [.Restart 1 1]).hosts 1).fsm = p.shell.inner.last_committed) ∨
        ∃ data, Refused plainSnapshots.toCodec ((stored [.Restart 1 1]).hosts 1).disk
          ((stored [.Restart 1 1]).hosts 1).fsm data) := by
  have hfirst : Reachable threeNodes (lactoMachine plainSnapshots.toCodec) (stored fetchSnapshot) :=
    reachable_stored (by decide +kernel)
  have hstart : Reachable threeNodes (lactoMachine plainSnapshots.toCodec) (stored []) :=
    reachable_stored rfl
  obtain ⟨p, p', fsm', hp, happ, hawake, hrun, hhalt⟩ : ∃ p p' fsm',
      (stored fetchSnapshot).process 1 = some p ∧
      p.applier = .Fetched 1 (.inr ⟨[], [], none⟩) ∧ p.shell.inner.is_poisoned = false ∧
      runApplier (lactoMachine plainSnapshots.toCodec) p ((stored fetchSnapshot).hosts 1).fsm =
        some (p', fsm') ∧ p'.shell.inner.is_poisoned = true := ⟨_, _, _, rfl, rfl, rfl, rfl, rfl⟩
  obtain ⟨data, hfetched, href⟩ := (only_refusals_halt hfirst 1).1 p p' fsm' hp hawake hrun hhalt
  refine ⟨⟨data, href, ?_⟩, (only_refusals_halt hstart 1).2 1 _ rfl⟩
  exact (Applier.Fetched.inj (hfetched.symm.trans happ)).2

end raft_engine.halts
