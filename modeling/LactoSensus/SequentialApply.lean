-- The state machine and the index that the node caches for it. The two move
-- together under the lock of the state machine, except that a snapshot is
-- restored under one lock and published under the other: between the two the
-- state machine is ahead, and a call of `apply_committed` that begins there
-- begins at the wrong index.
import LactoSensus.LogRecovery
import LactoSensus.Station

open common.types
open machine
open raft_engine.storage
open raft_engine.node
open raft_engine.engine
open raft_engine.consensus
open raft_engine.shell
open raft_engine.cluster
open raft_engine.orchestration
open raft_engine.recovery
open lacto_fsm

namespace raft_engine.station

variable {α : Type} {st st' : Station α}

/-! ## What the steps are asked for -/

/-- A snapshot of this index is restored and not finalised. -/
def Unpublished (h : SnapshotHost α LactoStore) (i : Nat) : Prop :=
  ∃ params, .Restored params (.ok ()) ∈ h.installations ∧ params.last_included_index = i

/-- No request cuts the entry that is being applied: it is committed. -/
def KeepsFetched (st : Station α) (req : AppendEntriesRequest α) : Prop :=
  ∀ next_idx data, st.host.process.applier = .Fetched next_idx data →
    CutsAbove next_idx st.node req

/-- Snapshots are restored and published in order, and no call of `apply_committed` gets
the lock while one that is ahead of the node waits to be published. -/
def Staged (c : SnapshotCodec α) (st : Station α) : StationAct α → Prop
  | .Host (.Restore k) =>
    ∀ params fsm, st.host.installations[k]? = some (.Accepted params) →
      (lactoSnapshots c).install_snapshot st.host.fsm params.last_included_index params.data =
        .ok fsm → appliedOf st.host.fsm ≤ params.last_included_index
  | .Host (.Finalize k) =>
    ∀ params, st.host.installations[k]? = some (.Restored params (.ok ())) →
      st.node.is_poisoned = false → st.node.last_applied ≤ params.last_included_index
  | .Host (.Deliver (.AppendEntries _ req) _) => KeepsFetched st req
  | .Enter _ => st.node.is_poisoned = false → ∀ i, Unpublished st.host i →
      i ≤ st.node.last_applied
  | _ => True

/-- A snapshot is restored, and published, when its index is the applied one already. -/
def Settled (c : SnapshotCodec α) (st : Station α) : StationAct α → Prop
  | .Host (.Restore k) =>
    ∀ params fsm, st.host.installations[k]? = some (.Accepted params) →
      (lactoSnapshots c).install_snapshot st.host.fsm params.last_included_index params.data =
        .ok fsm → appliedOf st.host.fsm ≤ params.last_included_index ∧
          (st.node.is_poisoned = false → params.last_included_index = st.node.last_applied)
  | .Host (.Finalize k) =>
    ∀ params, st.host.installations[k]? = some (.Restored params (.ok ())) →
      st.node.is_poisoned = false → st.node.last_applied = params.last_included_index
  | .Host (.Deliver (.AppendEntries _ req) _) => KeepsFetched st req
  | _ => True

/-! ## What a step of the host does -/

theorem install_snapshot_applied {c : SnapshotCodec α} {fsm fsm' : LactoStore} {i : Nat}
    {data : α} (h : (lactoSnapshots c).install_snapshot fsm i data = .ok fsm') :
    appliedOf fsm' = i := by
  unfold lactoSnapshots LactoStore.install_snapshot lacto_fsm.install_snapshot at h
  dsimp only at h
  split at h <;> rename_i heq <;> simp only [Except.ok.injEq, reduceCtorEq] at h
  subst h
  split at heq
  · cases heq
  split at heq
  · cases heq
  · obtain ⟨rfl, -⟩ := Prod.mk.inj heq
    rfl

theorem apply_applied {c : Codec α} {fsm fsm' : LactoStore} {i : Nat} {data : α}
    (h : (lactoMachine c).apply fsm i data = .ok fsm') :
    i = appliedOf fsm + 1 ∧ appliedOf fsm' = i := by
  obtain ⟨hindex, happlied, -⟩ := apply_moves (lactoMachine_apply.mp h)
  exact ⟨hindex, happlied⟩

variable {h h' : SnapshotHost α LactoStore}

/-- A step that touches neither of the two indices, nor what waits to be published, nor the
entry that is being applied. -/
structure Beside (h h' : SnapshotHost α LactoStore) : Prop where
  applied : h'.node.last_applied = h.node.last_applied
  fsm : h'.fsm = h.fsm
  applier : h'.process.applier = h.process.applier
  unpublished : ∀ i, Unpublished h' i ↔ Unpublished h i
  targets : (∀ c ∈ h.compactions, c.target ≤ h.node.last_applied) →
    ∀ c ∈ h'.compactions, c.target ≤ h.node.last_applied
  entry : (∀ c ∈ h.compactions, c.target ≤ h.node.last_applied) →
    ∀ next_idx data e, h.process.applier = .Fetched next_idx data →
      h.node.last_applied < next_idx → h.disk.read_entry next_idx = some e →
      h'.disk.read_entry next_idx = some e
  healthy : h'.node.is_poisoned = false → h.node.is_poisoned = false

theorem Beside.shell {sh : ConsensusShell α} (hs : Stepped h.process.shell sh) :
    Beside h (h.withShell sh) where
  applied := hs.quiet.applied
  fsm := rfl
  applier := rfl
  unpublished _ := Iff.rfl
  targets hold := hold
  entry _ next_idx data _ _ _ he := by
    change sh.inner.node.disk.read_entry next_idx = _
    unfold SledStorage.read_entry
    rw [hs.quiet.log]
    exact he
  healthy hp := by
    by_contra hno
    have hhalted : sh.inner.is_poisoned = true := hs.quiet.halted (Bool.not_eq_false _ ▸ hno)
    rw [show sh.inner.is_poisoned = false from hp] at hhalted
    cases hhalted

/-! ## The invariant -/

/-- Where the call with the lock is, against the node and the state machine. -/
def InStep (h : SnapshotHost α LactoStore) : Prop :=
  match h.process.applier with
  | .Idle => True
  | .Looping applied _ => applied = h.node.last_applied ∧ applied = appliedOf h.fsm
  | .Fetched next_idx data =>
    next_idx = appliedOf h.fsm + 1 ∧ next_idx = h.node.last_applied + 1 ∧
      ∃ e, h.disk.read_entry next_idx = some e ∧ e.data = data
  | .Applied next_idx => next_idx = appliedOf h.fsm ∧ next_idx = h.node.last_applied + 1

theorem InStep.congr (hin : InStep h) (happlier : h'.process.applier = h.process.applier)
    (happlied : h'.node.last_applied = h.node.last_applied) (hfsm : h'.fsm = h.fsm)
    (hentry : ∀ next_idx data e, h.process.applier = .Fetched next_idx data →
      h.node.last_applied < next_idx → h.disk.read_entry next_idx = some e →
      h'.disk.read_entry next_idx = some e) : InStep h' := by
  unfold InStep at hin ⊢
  rw [happlier, happlied, hfsm]
  cases hcall : h.process.applier with
  | Idle => trivial
  | Looping applied committed =>
    rw [hcall] at hin
    exact hin
  | Fetched next_idx data =>
    rw [hcall] at hin
    obtain ⟨hnext, hnext', e, he, hdata⟩ := hin
    exact ⟨hnext, hnext', e, hentry next_idx data e hcall (by omega) he, hdata⟩
  | Applied next_idx =>
    rw [hcall] at hin
    exact hin

structure Sequential (holder : Option Caller) (h : SnapshotHost α LactoStore) : Prop where
  idle : holder = none → h.process.applier = .Idle
  inStep : InStep h
  /-- A call that has the lock and has not begun finds the two level. -/
  entered : holder.isSome = true → h.process.applier = .Idle → h.node.is_poisoned = false →
    h.node.last_applied = appliedOf h.fsm
  published : holder.isSome = true → h.node.is_poisoned = false →
    ∀ i, Unpublished h i → i ≤ h.node.last_applied
  /-- Without the lock the state machine is ahead by a snapshot that waits, or not at all. -/
  ahead : holder = none → h.node.is_poisoned = false →
    h.node.last_applied ≤ appliedOf h.fsm ∧ (∀ i, Unpublished h i → i ≤ appliedOf h.fsm) ∧
      (h.node.last_applied = appliedOf h.fsm ∨ Unpublished h (appliedOf h.fsm))
  targets : ∀ c ∈ h.compactions, c.target ≤ h.node.last_applied

variable {holder : Option Caller}

/-- A call that has the lock, and is past its beginning. -/
theorem Sequential.held (hsome : holder.isSome = true) (hnot : h.process.applier ≠ .Idle)
    (hin : InStep h) (hpub : h.node.is_poisoned = false → ∀ i, Unpublished h i →
      i ≤ h.node.last_applied) (htargets : ∀ c ∈ h.compactions, c.target ≤ h.node.last_applied) :
    Sequential holder h where
  idle hnone := by
    rw [hnone] at hsome
    cases hsome
  inStep := hin
  entered _ hidle := absurd hidle hnot
  published _ := hpub
  ahead hnone := by
    rw [hnone] at hsome
    cases hsome
  targets := htargets

/-- The lock is free again. -/
theorem Sequential.released (hidle : h.process.applier = .Idle)
    (hlevel : h.node.is_poisoned = false → h.node.last_applied = appliedOf h.fsm)
    (hpub : h.node.is_poisoned = false → ∀ i, Unpublished h i → i ≤ h.node.last_applied)
    (htargets : ∀ c ∈ h.compactions, c.target ≤ h.node.last_applied) : Sequential none h where
  idle _ := hidle
  inStep := by
    unfold InStep
    rw [hidle]
    trivial
  entered hno := by cases hno
  published hno := by cases hno
  ahead _ hp := by
    rw [← hlevel hp]
    exact ⟨le_rfl, hpub hp, .inl rfl⟩
  targets := htargets

theorem Sequential.tasks (hseq : Sequential holder h) (tasks : List (SpawnedTask α)) :
    Sequential holder { h with process := { h.process with tasks := tasks } } :=
  ⟨hseq.idle, hseq.inStep, hseq.entered, hseq.published, hseq.ahead, hseq.targets⟩

theorem Sequential.beside (hseq : Sequential holder h) (hb : Beside h h') :
    Sequential holder h' := by
  refine ⟨?_, ?_, ?_, ?_, ?_, ?_⟩
  · rw [hb.applier]
    exact hseq.idle
  · exact hseq.inStep.congr hb.applier hb.applied hb.fsm (hb.entry hseq.targets)
  · rw [hb.applier, hb.fsm, hb.applied]
    exact fun hsome hidle hp => hseq.entered hsome hidle (hb.healthy hp)
  · rw [hb.applied]
    exact fun hsome hp i hi => hseq.published hsome (hb.healthy hp) i ((hb.unpublished i).mp hi)
  · rw [hb.applied, hb.fsm]
    intro hnone hp
    obtain ⟨hle, hall, hlevel⟩ := hseq.ahead hnone (hb.healthy hp)
    exact ⟨hle, fun i hi => hall i ((hb.unpublished i).mp hi),
      hlevel.imp id (hb.unpublished _).mpr⟩
  · rw [hb.applied]
    exact hb.targets hseq.targets

/-- What was restored before waits on. -/
theorem unpublished_set {k i : Nat} {params : SnapshotParams α} {x : Installation α}
    (hk : h.installations[k]? = some (.Accepted params)) (hi : Unpublished h i) :
    Unpublished { h with installations := h.installations.set k x } i := by
  obtain ⟨params', hmem, hindex⟩ := hi
  obtain ⟨j, hj⟩ := List.mem_iff_getElem?.mp hmem
  have hne : k ≠ j := by
    rintro rfl
    rw [hk] at hj
    cases hj
  refine ⟨params', List.mem_of_getElem? (i := j) ?_, hindex⟩
  rw [List.getElem?_set_ne hne]
  exact hj

/-- Neither index has gone down. -/
def Grows (h h' : SnapshotHost α LactoStore) : Prop :=
  h.node.last_applied ≤ h'.node.last_applied ∧ appliedOf h.fsm ≤ appliedOf h'.fsm

theorem Beside.grows (hb : Beside h h') : Grows h h' :=
  ⟨hb.applied.ge, by rw [hb.fsm]⟩

/-! ## The steps -/

variable [DecidableEq α] {cfg : HostConfig} {c : SnapshotCodec α} {a : HostAct α}

/-- Only the two steps of an installation change what waits to be published. -/
theorem hostStep_unpublished {sm : SnapshotMachine α LactoStore}
    (hs : hostStep cfg sm h a = some h') (hres : ∀ k, a ≠ .Restore k)
    (hfin : ∀ k, a ≠ .Finalize k) (i : Nat) : Unpublished h' i ↔ Unpublished h i := by
  cases hostStep_moves hs with
  | @restored k params fsm hk hidle hfsm => exact absurd rfl (hres k)
  | @unrestored k params e hk hidle hfsm => exact absurd rfl (hres k)
  | @finalized k params res sh res' hk hw => exact absurd rfl (hfin k)
  | accepted hw => simp [Unpublished]
  | _ => exact Iff.rfl

theorem Beside.host (hs : hostStep cfg (lactoSnapshots c) h a = some h') (happly : a ≠ .Apply)
    (hres : ∀ k, a ≠ .Restore k) (hfin : ∀ k, a ≠ .Finalize k)
    (hcut : ∀ dst req timeout, a = .Deliver (.AppendEntries dst req) timeout →
      ∀ next_idx data, h.process.applier = .Fetched next_idx data →
        CutsAbove next_idx h.node req) : Beside h h' where
  applied := (hostStep_cases hs).1.last_applied happly hfin
  fsm := (hostStep_aside hs happly).2 hres
  applier := (hostStep_aside hs happly).1
  unpublished := hostStep_unpublished hs hres hfin
  targets hold := hostStep_targets hs le_rfl hold
  entry hold next_idx data _ happlier hlt he :=
    (hostStep_cases hs).1.keeps he
      (fun i hi => (hold (.Saved i) hi).trans_lt hlt)
      fun dst req timeout ha => hcut dst req timeout ha next_idx data happlier
  healthy := hostStep_healthy hs

theorem Beside.call {term : Nat} {reply : Option PeerReply} {call : PeerCall α}
    {res : CallResult α} (hstep : CallStep cfg c h term reply call h' res) : Beside h h' := by
  cases hstep with
  | continued hs hf => exact .shell hs
  | finished hs hf => exact .shell hs
  | demoted hs hreply ht hf => exact .shell hs
  | failed hs hhalt => exact .shell hs
  | froze i t hs _ => exact .host hs (by simp) (by simp) (by simp) (by simp)
  | freezeFailed i t hs _ => exact .host hs (by simp) (by simp) (by simp) (by simp)
  | thawed i t hs _ => exact .host hs (by simp) (by simp) (by simp) (by simp)
  | thawFailed i t hs _ => exact .host hs (by simp) (by simp) (by simp) (by simp)

theorem restore_cases {k : Nat} {sm : SnapshotMachine α LactoStore}
    (hs : hostStep cfg sm h (.Restore k) = some h') :
    ∃ params, h.installations[k]? = some (.Accepted params) ∧
      ((∃ fsm, sm.install_snapshot h.fsm params.last_included_index params.data = .ok fsm ∧
          h' = { h with
            fsm := fsm
            installations := h.installations.set k (.Restored params (.ok ())) }) ∨
        ∃ e, h' = { h with
          installations := h.installations.set k (.Restored params (.error e)) }) := by
  cases hostStep_moves hs with
  | restored hk hidle hfsm => exact ⟨_, hk, .inl ⟨_, hfsm, rfl⟩⟩
  | unrestored hk hidle hfsm => exact ⟨_, hk, .inr ⟨_, rfl⟩⟩

/-- The snapshot is in the state machine, and waits to be published. -/
theorem Sequential.restore {k : Nat} (hseq : Sequential none h)
    (hok : ∀ params fsm, h.installations[k]? = some (.Accepted params) →
      (lactoSnapshots c).install_snapshot h.fsm params.last_included_index params.data = .ok fsm →
      appliedOf h.fsm ≤ params.last_included_index)
    (hs : hostStep cfg (lactoSnapshots c) h (.Restore k) = some h') :
    Sequential none h' ∧ Grows h h' := by
  have hidle := hseq.idle rfl
  obtain ⟨params, hk, ⟨fsm, hinstall, rfl⟩ | ⟨e, rfl⟩⟩ := restore_cases hs
  · have hle := hok params fsm hk hinstall
    have happlied := install_snapshot_applied hinstall
    refine ⟨⟨fun _ => hidle, ?_, by simp, by simp, fun _ hp => ?_, hseq.targets⟩, le_rfl, ?_⟩
    · unfold InStep
      rw [show _ = Applier.Idle from hidle]
      trivial
    · obtain ⟨hle₀, hall, -⟩ := hseq.ahead rfl hp
      change h.node.last_applied ≤ appliedOf fsm ∧ (∀ i, _ → i ≤ appliedOf fsm) ∧
        (_ ∨ Unpublished _ (appliedOf fsm))
      rw [happlied]
      refine ⟨hle₀.trans hle, ?_, .inr ⟨params, List.mem_of_getElem? (i := k) ?_, rfl⟩⟩
      · rintro i ⟨params', hmem, rfl⟩
        rcases List.mem_or_eq_of_mem_set hmem with hold | heq
        · exact (hall _ ⟨params', hold, rfl⟩).trans hle
        · obtain ⟨rfl, -⟩ := Installation.Restored.inj heq
          exact le_rfl
      · exact List.getElem?_set_self (List.getElem?_eq_some_iff.mp hk).1
    · change appliedOf h.fsm ≤ appliedOf fsm
      rw [happlied]
      exact hle
  · have hb : Beside h { h with
        installations := h.installations.set k (.Restored params (.error e)) } := by
      refine ⟨rfl, rfl, rfl, fun i => ⟨?_, unpublished_set hk⟩, id, fun _ _ _ _ _ _ he => he, id⟩
      rintro ⟨params', hmem, hindex⟩
      rcases List.mem_or_eq_of_mem_set hmem with hold | hno
      · exact ⟨params', hold, hindex⟩
      · cases hno
    exact ⟨hseq.beside hb, hb.grows⟩

/-- The snapshot is published, or the node is poisoned. -/
theorem Sequential.finalize {k : Nat} (hseq : Sequential holder h)
    (hok : ∀ params, h.installations[k]? = some (.Restored params (.ok ())) →
      h.node.is_poisoned = false → h.node.last_applied ≤ params.last_included_index)
    (hs : hostStep cfg (lactoSnapshots c) h (.Finalize k) = some h') :
    Sequential holder h' ∧ Grows h h' := by
  obtain ⟨happlier, hfsm⟩ := hostStep_aside hs (by simp)
  have hfsm := hfsm (by simp)
  obtain ⟨params, res, hk, hinst, hcase⟩ := finalize_cases hs
  have hsub : ∀ i, Unpublished h' i → Unpublished h i := by
    rintro i ⟨params', hmem, hindex⟩
    rw [hinst] at hmem
    exact ⟨params', List.mem_of_mem_eraseIdx hmem, hindex⟩
  rcases hcase with ⟨hq, hp'⟩ | ⟨rfl, hp, n, hadv, hnode⟩
  · have hhalted : h'.node.is_poisoned ≠ false := by simp [hp']
    have happlied : h'.node.last_applied = h.node.last_applied := hq.applied
    refine ⟨⟨fun hnone => happlier.trans (hseq.idle hnone), ?_, fun _ _ hno => absurd hno hhalted,
      fun _ hno => absurd hno hhalted, fun _ hno => absurd hno hhalted, ?_⟩, happlied.ge, ?_⟩
    · refine hseq.inStep.congr happlier happlied hfsm fun next_idx data e _ _ he => ?_
      unfold SledStorage.read_entry SnapshotHost.disk
      rw [hq.log]
      exact he
    · rw [happlied]
      exact hostStep_targets hs le_rfl hseq.targets
    · rw [hfsm]
  have hle := hok params hk hp
  have happlied : h'.node.last_applied = params.last_included_index := by
    rw [hnode]
    exact hadv.applied
  have hwaits : Unpublished h params.last_included_index :=
    ⟨params, List.mem_of_getElem? hk, rfl⟩
  have hgrows : Grows h h' := ⟨happlied ▸ hle, by rw [hfsm]⟩
  have htargets : ∀ c ∈ h'.compactions, c.target ≤ h'.node.last_applied := by
    rw [happlied]
    exact hostStep_targets hs hle fun c hc => (hseq.targets c hc).trans hle
  refine ⟨?_, hgrows⟩
  cases hholder : holder with
  | none =>
    subst hholder
    have hidle : h'.process.applier = .Idle := happlier.trans (hseq.idle rfl)
    obtain ⟨-, hall, hlevel⟩ := hseq.ahead rfl hp
    refine ⟨fun _ => hidle, ?_, by simp, by simp, fun _ _ => ?_, htargets⟩
    · unfold InStep
      rw [hidle]
      trivial
    rw [happlied, hfsm]
    refine ⟨hall _ hwaits, fun i hi => hall i (hsub i hi), ?_⟩
    rcases hlevel with hlevel | ⟨params', hmem, hindex⟩
    · have := hall _ hwaits
      exact .inl (by omega)
    · -- the snapshot that is ahead is this one, or it still waits
      obtain ⟨j, hj⟩ := List.mem_iff_getElem?.mp hmem
      by_cases hjk : j = k
      · subst hjk
        rw [hk] at hj
        obtain ⟨rfl, -⟩ := Installation.Restored.inj (Option.some.inj hj)
        exact .inl hindex
      · refine .inr ⟨params', ?_, hindex⟩
        rw [hinst]
        exact List.mem_eraseIdx_iff_getElem?.mpr ⟨j, hjk, hj⟩
  | some caller =>
    -- whoever has the lock began after everything up to its index was published
    have hsome : holder.isSome = true := by rw [hholder]; rfl
    have hlast : h'.node.last_applied = h.node.last_applied := by
      have := hseq.published hsome hp _ hwaits
      omega
    refine ⟨by simp, ?_, fun _ hidle _ => ?_, fun _ _ i hi => ?_, by simp, htargets⟩
    · refine hseq.inStep.congr happlier hlast hfsm fun next_idx data e _ _ he => ?_
      unfold SledStorage.read_entry SnapshotHost.disk
      rw [hnode]
      change n.disk.log.get? next_idx = some e
      rw [hadv.log]
      exact he
    · rw [hlast, hfsm]
      exact hseq.entered hsome (happlier ▸ hidle) hp
    · rw [hlast]
      exact hseq.published hsome hp i (hsub i hi)

/-- The call that holds the lock goes on, and keeps it unless it ends. -/
theorem Sequential.apply (hseq : Sequential holder h) (hsome : holder.isSome = true)
    (hs : hostStep cfg (lactoSnapshots c) h .Apply = some h') :
    (h'.process.applier = .Idle → Sequential none h') ∧
      (h'.process.applier ≠ .Idle → Sequential holder h') ∧ Grows h h' := by
  obtain ⟨⟨p, fsm⟩, hrun, rfl⟩ := Option.map_eq_some_iff.mp hs
  have hin := hseq.inStep
  unfold InStep at hin
  have hpub := hseq.published hsome
  cases runApplier_step hrun with
  | start hidle hp hle =>
    exact ⟨fun hno => (by cases hno), fun hnot => .held hsome hnot
      ⟨rfl, hseq.entered hsome hidle hp⟩ hpub hseq.targets, le_rfl, le_rfl⟩
  | @fetch applied committed e hloop hlt he =>
    rw [hloop] at hin
    obtain ⟨happlied, hlevel⟩ := hin
    refine ⟨fun hno => (by cases hno), fun hnot => .held hsome hnot ?_ hpub hseq.targets, le_rfl,
      le_rfl⟩
    exact ⟨congrArg (· + 1) hlevel, congrArg (· + 1) happlied, e, he, rfl⟩
  | finish hloop hge =>
    rw [hloop] at hin
    exact ⟨fun hidle => .released hidle (fun _ => hin.1.symm.trans hin.2) hpub hseq.targets,
      fun hnot => absurd rfl hnot, le_rfl, le_rfl⟩
  | apply hfetched happly =>
    rw [hfetched] at hin
    obtain ⟨hnext, hnext', -⟩ := hin
    obtain ⟨-, happlied⟩ := apply_applied happly
    refine ⟨fun hno => (by cases hno), fun hnot => .held hsome hnot ⟨happlied.symm, hnext'⟩ hpub
      hseq.targets, le_rfl, ?_⟩
    change appliedOf h.fsm ≤ appliedOf fsm
    omega
  | @advance next_idx n sh happlied hadv hsh hpub' =>
    rw [happlied] at hin
    obtain ⟨hfsm, hnext⟩ := hin
    have hlast : sh.inner.last_applied = next_idx := by
      rw [hsh]
      exact hadv.applied
    have hle : h.node.last_applied ≤ sh.inner.last_applied := by omega
    have hhealthy : sh.inner.is_poisoned = false → h.node.is_poisoned = false := by
      rw [hsh]
      unfold LogicalNode.is_poisoned onto
      rw [hadv.state]
      exact id
    refine ⟨fun hno => (by cases hno), fun hnot => .held hsome hnot ⟨hlast.symm, hfsm⟩
      (fun hp i hi => (hpub (hhealthy hp) i hi).trans hle)
      (fun c hc => (hseq.targets c hc).trans hle), hle, le_rfl⟩
  | @fatal sh hstep hp =>
    have hlast : sh.inner.last_applied = h.node.last_applied := hstep.quiet.applied
    have hhalted : ∀ {P : Prop}, sh.inner.is_poisoned = false → P := by
      intro P hno
      rw [hno] at hp
      cases hp
    refine ⟨fun hidle => .released hidle hhalted hhalted ?_, fun hnot => absurd rfl hnot,
      hlast.ge, le_rfl⟩
    intro c hc
    change c.target ≤ sh.inner.last_applied
    rw [hlast]
    exact hseq.targets c hc

/-- A step of the host beside the applier. -/
theorem Sequential.host (hseq : Sequential st.holder st.host)
    (hok : Staged c st (.Host a)) (hs : stationStep cfg c st (.Host a) = some st') :
    Sequential st'.holder st'.host ∧ Grows st.host st'.host := by
  obtain ⟨honly, hlock, h', hstep, rfl⟩ := host_cases hs
  have hdone : Sequential st.holder h' ∧ Grows st.host h' →
      Sequential st.holder (st.adopt h').host ∧ Grows st.host (st.adopt h').host :=
    fun ⟨hseq', hgrows⟩ => ⟨hseq'.tasks _, hgrows⟩
  apply hdone
  have hbeside : ∀ a, a ≠ .Apply → (∀ k, a ≠ .Restore k) → (∀ k, a ≠ .Finalize k) →
      (∀ dst req timeout, a = .Deliver (.AppendEntries dst req) timeout → KeepsFetched st req) →
      hostStep cfg (lactoSnapshots c) st.host a = some h' →
      Sequential st.holder h' ∧ Grows st.host h' := by
    intro a happly hres hfin hcut hs
    have hb : Beside st.host h' := .host hs happly hres hfin hcut
    exact ⟨hseq.beside hb, hb.grows⟩
  cases a with
  | Apply => cases honly
  | Restore k =>
    have hfree : st.holder = none := hlock rfl
    rw [hfree] at hseq ⊢
    exact hseq.restore hok hstep
  | Finalize k => exact hseq.finalize hok hstep
  | Deliver msg timeout =>
    refine hbeside _ (by simp) (by simp) (by simp) ?_ hstep
    intro dst req timeout' heq
    obtain ⟨rfl, -⟩ := HostAct.Deliver.inj heq
    exact hok
  | _ => exact hbeside _ (by simp) (by simp) (by simp) (by simp) hstep

theorem Sequential.step {a : StationAct α} (hseq : Sequential st.holder st.host)
    (hok : Staged c st a) (hs : stationStep cfg c st a = some st') :
    Sequential st'.holder st'.host ∧ Grows st.host st'.host := by
  have hsame : Grows st.host st.host := ⟨le_rfl, le_rfl⟩
  cases a with
  | Host a => exact hseq.host hok hs
  | Call r k reply timeout =>
    obtain ⟨round, peer, call, h', res, -, -, hstep, rfl⟩ := call_cases hs
    have hb : Beside st.host h' := .call hstep
    exact ⟨(hseq.beside hb).tasks _, hb.grows⟩
  | Wake =>
    simp only [stationStep] at hs
    split at hs
    · obtain rfl := Option.some.inj hs
      exact ⟨hseq, hsame⟩
    · cases hs
  | CheckFrozen =>
    simp only [stationStep] at hs
    split at hs
    · obtain rfl := Option.some.inj hs
      exact ⟨hseq, hsame⟩
    · cases hs
  | Enter caller =>
    simp only [stationStep] at hs
    split at hs
    · cases hs
    rename_i hfree
    have hnone : st.holder = none := by simpa using hfree
    rw [hnone] at hseq
    have hidle := hseq.idle rfl
    have hentered : ∀ caller, Sequential (some caller) st.host := by
      intro caller
      have hlevel : st.node.is_poisoned = false →
          st.node.last_applied = appliedOf st.host.fsm := by
        intro hp
        obtain ⟨hle, -, hlevel | hwaits⟩ := hseq.ahead rfl hp
        · exact hlevel
        · exact le_antisymm hle (hok hp _ hwaits)
      exact ⟨by simp, hseq.inStep, fun _ _ => hlevel, fun _ => hok, by simp, hseq.targets⟩
    repeat' split at hs
    all_goals
      cases hs <;> exact ⟨hentered _, hsame⟩
  | Loop =>
    obtain ⟨caller, hholder, ⟨hnone, rfl⟩ | ⟨h', hstep, hcase⟩⟩ := loop_cases hs
    · obtain ⟨hidle, hp⟩ := runApplier_none (Option.map_eq_none_iff.mp hnone)
      have hhalted : ∀ {P : Prop}, st.host.node.is_poisoned = false → P := by
        intro P hno
        rw [show st.host.process.shell.inner.is_poisoned = false from hno] at hp
        cases hp
      exact ⟨.released hidle hhalted hhalted hseq.targets, hsame⟩
    · obtain ⟨hended, hgoes, hgrows⟩ := hseq.apply (by rw [hholder]; rfl) hstep
      rcases hcase with ⟨hidle, rfl⟩ | ⟨hnot, rfl⟩
      · exact ⟨(hended hidle).tasks _, hgrows⟩
      · exact ⟨(hgoes hnot).tasks _, hgrows⟩

/-! ## Runs -/

omit [DecidableEq α] in
theorem reboot_applied {codec : Codec α} {node_id : NodeId} {heartbeat_interval timeout : Nat}
    {db fsm : LactoStore} {disk : SledStorage α} {ln : LogicalNode α}
    (hboot : reboot codec node_id heartbeat_interval timeout db disk = some (fsm, ln)) :
    ln.last_applied = appliedOf fsm := by
  unfold reboot at hboot
  split at hboot
  · cases hboot
  split at hboot
  · rename_i hnew
    obtain ⟨rfl, rfl⟩ := Prod.mk.inj (Option.some.inj hboot)
    unfold LogicalNode.try_new at hnew
    split at hnew
    · cases hnew
    · obtain rfl := Except.ok.inj hnew
      rfl
  · cases hboot

omit [DecidableEq α] in
theorem Sequential.started (hst : Started cfg c st) : Sequential st.holder st.host := by
  obtain ⟨timeout, db, disk, fsm, ln, hboot, rfl⟩ := hst
  refine .released rfl (fun _ => reboot_applied hboot) (fun _ i hi => ?_) (by simp)
  obtain ⟨params, hno, -⟩ := hi
  cases hno

theorem Sequential.run (hseq : Sequential st.holder st.host)
    (hrun : StationRun cfg c (Staged c) st st') :
    Sequential st'.holder st'.host ∧ Grows st.host st'.host := by
  refine Run.invariant (I := fun st' => Sequential st'.holder st'.host ∧ Grows st.host st'.host)
    ?_ hrun ⟨hseq, le_rfl, le_rfl⟩
  rintro st₁ a st₂ ⟨hseq₁, ha₁, hf₁⟩ hok hs
  obtain ⟨hseq₂, ha₂, hf₂⟩ := hseq₁.step hok hs
  exact ⟨hseq₂, ha₁.trans ha₂, hf₁.trans hf₂⟩

/-- When snapshots are published before the next call begins, every entry is applied in its
turn, and only a snapshot that waits to be published separates the two indices. -/
theorem staged_application {st₀ : Station α} (hst : Started cfg c st₀)
    (hrun : StationRun cfg c (Staged c) st₀ st) :
    (∀ next_idx data, st.host.process.applier = .Fetched next_idx data →
      next_idx = appliedOf st.host.fsm + 1 ∧
        ∃ e, st.host.disk.read_entry next_idx = some e ∧ e.data = data) ∧
    (st.holder = none → st.node.is_poisoned = false →
      (∀ i, Unpublished st.host i → i ≤ st.node.last_applied) →
      st.node.last_applied = appliedOf st.host.fsm) ∧
    ∀ st', StationRun cfg c (Staged c) st st' → Grows st.host st'.host := by
  have hseq := (Sequential.run (.started hst) hrun).1
  refine ⟨fun next_idx data happlier => ?_, fun hnone hp hpub => ?_, fun st' hlater =>
    (hseq.run hlater).2⟩
  · have hin := hseq.inStep
    unfold InStep at hin
    rw [happlier] at hin
    exact ⟨hin.1, hin.2.2⟩
  · obtain ⟨hle, -, hlevel | hwaits⟩ := hseq.ahead hnone hp
    · exact hlevel
    · exact le_antisymm hle (hpub _ hwaits)

/-! ## Snapshots of what is applied already -/

def Published (h : SnapshotHost α LactoStore) : Prop :=
  h.node.is_poisoned = false → ∀ i, Unpublished h i → i ≤ h.node.last_applied

omit [DecidableEq α] in
theorem Settled.staged {a : StationAct α} (hok : Settled c st a) (hpub : Published st.host) :
    Staged c st a := by
  cases a with
  | Enter caller => exact hpub
  | Host a =>
    cases a with
    | Restore k => exact fun params fsm hk hinstall => (hok params fsm hk hinstall).1
    | Finalize k => exact fun params hk hp => (hok params hk hp).le
    | Deliver msg timeout => cases msg <;> exact hok
    | _ => trivial
  | _ => trivial

/-- Nothing waits to be published that is ahead of the node. -/
theorem Published.step {a : StationAct α} (hpub : Published st.host) (hok : Settled c st a)
    (hs : stationStep cfg c st a = some st') (hgrows : Grows st.host st'.host) :
    Published st'.host := by
  have hkept : (st'.node.is_poisoned = false → st.node.is_poisoned = false) →
      (∀ i, Unpublished st'.host i → Unpublished st.host i) → Published st'.host :=
    fun hhealthy hsub hp i hi => (hpub (hhealthy hp) i (hsub i hi)).trans hgrows.1
  cases a with
  | Host a =>
    obtain ⟨honly, -, h', hstep, rfl⟩ := host_cases hs
    by_cases hres : ∃ k, a = .Restore k
    · obtain ⟨k, rfl⟩ := hres
      intro hp i hi
      have hp₀ := hostStep_healthy hstep hp
      obtain ⟨params, hk, ⟨fsm, hinstall, rfl⟩ | ⟨e, rfl⟩⟩ := restore_cases hstep
      · obtain ⟨params', hmem, rfl⟩ := hi
        rcases List.mem_or_eq_of_mem_set hmem with hold | heq
        · exact hpub hp₀ _ ⟨params', hold, rfl⟩
        · obtain ⟨rfl, -⟩ := Installation.Restored.inj heq
          exact ((hok _ fsm hk hinstall).2 hp₀).le
      · obtain ⟨params', hmem, rfl⟩ := hi
        rcases List.mem_or_eq_of_mem_set hmem with hold | hno
        · exact hpub hp₀ _ ⟨params', hold, rfl⟩
        · cases hno
    by_cases hfin : ∃ k, a = .Finalize k
    · obtain ⟨k, rfl⟩ := hfin
      obtain ⟨params, res, -, hinst, -⟩ := finalize_cases hstep
      refine hkept (fun hp => hostStep_healthy hstep hp) ?_
      rintro i ⟨params', hmem, hindex⟩
      change _ ∈ h'.installations at hmem
      rw [hinst] at hmem
      exact ⟨params', List.mem_of_mem_eraseIdx hmem, hindex⟩
    · exact hkept (fun hp => hostStep_healthy hstep hp) fun i hi =>
        (hostStep_unpublished hstep (by simpa using hres) (by simpa using hfin) i).mp hi
  | Call r k reply timeout =>
    obtain ⟨round, peer, call, h', res, -, -, hstep, rfl⟩ := call_cases hs
    have hb : Beside st.host h' := .call hstep
    exact hkept hb.healthy fun i hi => (hb.unpublished i).mp hi
  | Loop =>
    obtain ⟨caller, -, ⟨-, rfl⟩ | ⟨h', hstep, ⟨-, rfl⟩ | ⟨-, rfl⟩⟩⟩ := loop_cases hs
    · exact hpub
    all_goals
      exact hkept (fun hp => hostStep_healthy hstep hp) fun i hi =>
        (hostStep_unpublished hstep (by simp) (by simp) i).mp hi
  | _ =>
    simp only [stationStep] at hs
    repeat' split at hs
    all_goals
      cases hs <;> exact hpub

theorem Settled.run (hrun : StationRun cfg c (Settled c) st st')
    (hseq : Sequential st.holder st.host) (hpub : Published st.host) :
    StationRun cfg c (Staged c) st st' ∧ Published st'.host := by
  induction hrun with
  | refl => exact ⟨.refl st, hpub⟩
  | tail hrun hok hs ih =>
    obtain ⟨hstaged, hpub₁⟩ := ih
    have hok₁ := hok.staged hpub₁
    have hgrows := ((hseq.run hstaged).1.step hok₁ hs).2
    exact ⟨.tail hstaged hok₁ hs, hpub₁.step hok hs hgrows⟩

omit [DecidableEq α] in
theorem Published.started (hst : Started cfg c st) : Published st.host := by
  obtain ⟨timeout, db, disk, fsm, ln, -, rfl⟩ := hst
  rintro - i ⟨params, hno, -⟩
  cases hno

/-- In every run in which a snapshot is restored, and published, only when its index is the
applied one already, entries are applied in their turn, the two indices agree whenever no
lock is held, and neither goes down. -/
theorem sequential_application {st₀ : Station α} (hst : Started cfg c st₀)
    (hrun : StationRun cfg c (Settled c) st₀ st) :
    (∀ next_idx data, st.host.process.applier = .Fetched next_idx data →
      next_idx = appliedOf st.host.fsm + 1 ∧
        ∃ e, st.host.disk.read_entry next_idx = some e ∧ e.data = data) ∧
    (st.holder = none → st.node.is_poisoned = false →
      st.node.last_applied = appliedOf st.host.fsm) ∧
    ∀ st', StationRun cfg c (Settled c) st st' →
      st.node.last_applied ≤ st'.node.last_applied ∧
        appliedOf st.host.fsm ≤ appliedOf st'.host.fsm := by
  obtain ⟨hstaged, hpub⟩ := Settled.run hrun (.started hst) (.started hst)
  obtain ⟨hturn, hlevel, hgrows⟩ := staged_application hst hstaged
  refine ⟨hturn, fun hnone hp => hlevel hnone hp (hpub hp), fun st' hlater => ?_⟩
  exact hgrows st' (Settled.run hlater (Sequential.run (.started hst) hstaged).1 hpub).1

deriving instance DecidableEq for Installation

/-- What a peer that has applied the same two entries sends. -/
def snapshotOfTwo : SnapshotParams Bytes :=
  ⟨2, 1, 2, 1, .inr (snapshotOf (stationAfter applyTwo).host.fsm)⟩

/-- Before any of its two committed entries is applied the node accepts a snapshot of both; it
applies them, and restores and publishes the snapshot then. -/
def restoreWhenApplied : List (StationAct Bytes) :=
  applyTwo.take 1 ++ [.Host (.InstallSnapshot snapshotOfTwo 10)] ++ applyTwo.drop 1 ++
    [.Host (.Restore 0)] ++ [.Host (.Finalize 0)]

/-- Both entries of the leader are applied, and the node knows. -/
theorem sequential_application_two :
    (stationAfter restoreWhenApplied).host.installations = [] ∧
    (stationAfter restoreWhenApplied).holder = none ∧
    (stationAfter restoreWhenApplied).node.last_applied =
      appliedOf (stationAfter restoreWhenApplied).host.fsm ∧
    (stationAfter restoreWhenApplied).node.last_applied = 2 := by
  have hdelivered : StationRun firstOfThree plainSnapshots (Settled plainSnapshots) firstStart
      (stationAfter ([] ++ applyTwo.take 1)) := by
    have hnone : StationRun firstOfThree plainSnapshots (Settled plainSnapshots) firstStart
        (stationAfter []) := .refl _
    exact stationAfter_tail hnone (fun _ _ hno => nomatch hno) (by decide +kernel)
  have haccepted := stationAfter_tail hdelivered (a := .Host (.InstallSnapshot snapshotOfTwo 10))
    trivial (by decide +kernel)
  have happlied := stationAfter_append haccepted (applyTwo.drop 1)
    (by simp [applyTwo, Settled]) (by decide +kernel)
  have hrestored := stationAfter_tail happlied (a := .Host (.Restore 0)) ?_ (by decide +kernel)
  · have hrun : StationRun firstOfThree plainSnapshots (Settled plainSnapshots) firstStart
        (stationAfter restoreWhenApplied) :=
      stationAfter_tail hrestored (a := .Host (.Finalize 0)) ?_ (by decide +kernel)
    · have hfree : (stationAfter restoreWhenApplied).holder = none := by decide +kernel
      exact ⟨List.eq_nil_of_length_eq_zero (by decide +kernel), hfree,
        (sequential_application started_first hrun).2.1 hfree (by decide +kernel),
        by decide +kernel⟩
    · have hkept : (stationAfter (applyTwo.take 1 ++ [.Host (.InstallSnapshot snapshotOfTwo 10)] ++
          applyTwo.drop 1 ++ [.Host (.Restore 0)])).host.installations[0]? =
            some (.Restored snapshotOfTwo (.ok ())) := by decide +kernel
      rintro params hk -
      obtain ⟨rfl, -⟩ := Installation.Restored.inj (Option.some.inj (hkept.symm.trans hk))
      decide +kernel
  · have hkept : (stationAfter (applyTwo.take 1 ++ [.Host (.InstallSnapshot snapshotOfTwo 10)] ++
        applyTwo.drop 1)).host.installations[0]? = some (.Accepted snapshotOfTwo) := by
      decide +kernel
    rintro params - hk -
    obtain rfl := Installation.Accepted.inj (Option.some.inj (hkept.symm.trans hk))
    exact ⟨by decide +kernel, fun _ => by decide +kernel⟩

def snapshotOfFive : SnapshotParams Bytes := ⟨2, 1, 5, 1, .inr (snapshotOf .new)⟩

/-- The applier has seen that nothing is frozen; before it gets the lock, a snapshot is
accepted and restored. -/
def restoreWhileWaiting : List (StationAct Bytes) :=
  [.Enter .Background, .Loop, .Loop,
    .Host (.Deliver (.AppendEntries 1 ⟨1, 2, 0, 0, [⟨1, 1, milk 1⟩, ⟨2, 1, milk 2⟩], 2⟩) 10),
    .Wake, .CheckFrozen, .Host (.InstallSnapshot snapshotOfFive 10), .Host (.Restore 0)]

/-- The state machine is at index 5, the node at 0; the applier fetches the first entry, and
the node halts. -/
theorem restored_applied_again :
    Started firstOfThree plainSnapshots firstStart ∧
    StationRun firstOfThree plainSnapshots (fun _ _ => True) firstStart
      (stationAfter restoreWhileWaiting) ∧
    (stationAfter restoreWhileWaiting).holder = none ∧
    (stationAfter restoreWhileWaiting).node.is_poisoned = false ∧
    (stationAfter restoreWhileWaiting).node.last_applied = 0 ∧
    appliedOf (stationAfter restoreWhileWaiting).host.fsm = 5 ∧
    StationRun firstOfThree plainSnapshots (fun _ _ => True) firstStart
      (stationAfter (restoreWhileWaiting ++ [.Enter .Background, .Loop, .Loop])) ∧
    (∃ data, (stationAfter (restoreWhileWaiting ++
      [.Enter .Background, .Loop, .Loop])).host.process.applier = .Fetched 1 data) ∧
    appliedOf (stationAfter (restoreWhileWaiting ++
      [.Enter .Background, .Loop, .Loop])).host.fsm = 5 ∧
    (stationAfter (restoreWhileWaiting ++
      [.Enter .Background, .Loop, .Loop, .Loop])).node.is_poisoned = true := by
  refine ⟨started_first, stationAfter_run (fun _ _ _ => trivial) (by decide +kernel),
    by decide +kernel, by decide +kernel, by decide +kernel, by decide +kernel,
    stationAfter_run (fun _ _ _ => trivial) (by decide +kernel), ⟨milk 1, by decide +kernel⟩,
    by decide +kernel, by decide +kernel⟩

end raft_engine.station
