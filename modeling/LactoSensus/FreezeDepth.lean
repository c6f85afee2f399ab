-- The freeze depth counts the operations that are frozen. The count is kept by
-- every step but one: a round that is demoted drops its other calls where they
-- wait, and one that waits between its freeze and its thaw never thaws.
import LactoSensus.Station
import Mathlib.Algebra.GroupWithZero.Nat

open common.types
open machine
open raft_engine.node
open raft_engine.engine
open raft_engine.consensus
open raft_engine.shell
open raft_engine.cluster
open raft_engine.orchestration
open raft_engine.recovery
open lacto_fsm

namespace raft_engine.station

variable {α : Type} {st st' : Station α}

/-! ## Counting -/

/-- The calls that are between their freeze and their thaw. -/
def Round.frozen (r : Round α) : Nat := (r.calls.map fun call => call.2.isFrozen.toNat).sum

def frozenCalls (rounds : List (Round α)) : Nat := (rounds.map Round.frozen).sum

section

variable {β : Type} (f : β → Nat) {l : List β} {i : Nat} {x : β}

theorem sum_map_set (h : l[i]? = some x) (y : β) :
    ((l.set i y).map f).sum + f x = (l.map f).sum + f y := by
  induction l generalizing i with
  | nil => cases h
  | cons z l ih =>
    cases i with
    | zero =>
      obtain rfl := Option.some.inj h
      simp only [List.set_cons_zero, List.map_cons, List.sum_cons]
      omega
    | succ i =>
      have := ih (i := i) h
      simp only [List.set_cons_succ, List.map_cons, List.sum_cons]
      omega

theorem sum_map_eraseIdx (h : l[i]? = some x) :
    ((l.eraseIdx i).map f).sum + f x = (l.map f).sum := by
  induction l generalizing i with
  | nil => cases h
  | cons z l ih =>
    cases i with
    | zero =>
      obtain rfl := Option.some.inj h
      simp only [List.eraseIdx_cons_zero, List.map_cons, List.sum_cons]
      omega
    | succ i =>
      have := ih (i := i) h
      simp only [List.eraseIdx_cons_succ, List.map_cons, List.sum_cons]
      omega

end

/-- New rounds have sent nothing. -/
theorem frozenCalls_spawned (tasks : List (SpawnedTask α)) :
    frozenCalls (tasks.filterMap asRound) = 0 := by
  induction tasks with
  | nil => rfl
  | cons t tasks ih =>
    rw [List.filterMap_cons]
    cases hr : asRound t with
    | none => exact ih
    | some r =>
      have hzero : r.frozen = 0 := by
        cases t <;> simp only [asRound, Option.some.injEq, reduceCtorEq] at hr
        subst hr
        unfold Round.frozen
        simp [Function.comp_def, PeerCall.isFrozen]
      unfold frozenCalls at ih ⊢
      dsimp only
      rw [List.map_cons, List.sum_cons, hzero, ih]

theorem frozenCalls_append (rs rs' : List (Round α)) :
    frozenCalls (rs ++ rs') = frozenCalls rs + frozenCalls rs' := by
  simp [frozenCalls]

/-! ## A node that halts -/

/-- The node is poisoned, or a task that failed is about to poison it. -/
def Halting (h : SnapshotHost α LactoStore) : Prop :=
  h.node.is_poisoned = true ∨ ∃ err, .Fatal err ∈ h.process.tasks

variable {cfg : HostConfig} {c : SnapshotCodec α}
  {h h' : SnapshotHost α LactoStore} {a : HostAct α}

/-- Whoever is to halt still is, or has. -/
theorem Halting.step [DecidableEq α] {sm : SnapshotMachine α LactoStore} (hhalt : Halting h)
    (hs : hostStep cfg sm h a = some h') : Halting h' := by
  rcases hhalt with hp | ⟨err, herr⟩
  · exact .inl ((hostStep_cases hs).1.halted hp)
  cases a with
  | Tick timeout =>
    obtain rfl := Option.some.inj hs
    exact .inr ⟨err, List.mem_append_right _ herr⟩
  | RunTask k peer reply timeout =>
    obtain ⟨task, hk, hrun⟩ := Option.bind_eq_some_iff.mp hs
    obtain ⟨⟨sh, tasks, sends⟩, htask, rfl⟩ := Option.map_eq_some_iff.mp hrun
    by_cases heq : task = .Fatal err
    · subst heq
      simp only [runTask, Option.some.injEq, Prod.mk.injEq] at htask
      obtain ⟨rfl, -⟩ := htask
      refine .inl ?_
      change LogicalNode.is_poisoned (ConsensusShell.inner _) = true
      rw [ConsensusShell.write_inner]
      exact is_poisoned_poison _
    · obtain ⟨j, hj⟩ := List.mem_iff_getElem?.mp herr
      have hne : j ≠ k := by
        rintro rfl
        rw [hk] at hj
        exact heq (Option.some.inj hj)
      refine .inr ⟨err, List.mem_append_right _ ?_⟩
      exact List.mem_eraseIdx_iff_getElem?.mpr ⟨j, hne, hj⟩
  | Deliver msg timeout =>
    obtain ⟨r, -, rfl⟩ := Option.map_eq_some_iff.mp hs
    exact .inr ⟨err, herr⟩
  | Apply =>
    obtain ⟨⟨p, fsm⟩, hrun, rfl⟩ := Option.map_eq_some_iff.mp hs
    refine .inr ⟨err, ?_⟩
    cases runApplier_step hrun <;> exact herr
  | Probe =>
    simp only [hostStep] at hs
    split at hs <;> obtain rfl := Option.some.inj hs
    · exact .inr ⟨err, List.mem_append_right _ herr⟩
    · exact .inr ⟨err, herr⟩
  | TransferReply term peer index response_term timeout =>
    simp only [hostStep] at hs
    split at hs <;> obtain rfl := Option.some.inj hs
    · exact .inr ⟨err, List.mem_cons_of_mem _ herr⟩
    · exact .inr ⟨err, herr⟩
  | _ =>
    simp only [hostStep] at hs
    repeat' split at hs
    all_goals
      cases hs <;> exact .inr ⟨err, herr⟩

theorem Halting.call [DecidableEq α] {term : Nat} {reply : Option PeerReply} {call : PeerCall α}
    {res : CallResult α} (hhalt : Halting h) (hstep : CallStep cfg c h term reply call h' res) :
    Halting (withTasks h' res.tasks) := by
  have hkeep : ∀ {h' : SnapshotHost α LactoStore}, Halting h' →
      Halting (withTasks h' res.tasks) := by
    rintro h' (hp | ⟨err, herr⟩)
    · exact .inl hp
    · exact .inr ⟨err, List.mem_append_right _ herr⟩
  have hshell : ∀ {sh : ConsensusShell α}, Stepped h.process.shell sh →
      Halting (h.withShell sh) := by
    intro sh hs
    rcases hhalt with hp | herr
    · exact .inl (hs.quiet.halted hp)
    · exact .inr herr
  cases hstep with
  | continued hs hf => exact hkeep (hshell hs)
  | finished hs hf => exact hkeep (hshell hs)
  | demoted hs hreply ht hf => exact hkeep (hshell hs)
  | failed hs hhalt => exact hkeep (hshell hs)
  | froze i t hs hp => exact hkeep (hhalt.step hs)
  | freezeFailed i t hs hp => exact hkeep (hhalt.step hs)
  | thawed i t hs hp => exact hkeep (hhalt.step hs)
  | thawFailed i t hs hhalt' => exact hkeep (hhalt.step hs)

/-- Only the two ends of a serialisation touch the transfers. -/
theorem hostStep_transfers [DecidableEq α] {sm : SnapshotMachine α LactoStore}
    (hs : hostStep cfg sm h a = some h') (hb : a ≠ .BeginTransfer)
    (he : a ≠ .EndTransfer) : h'.transfers = h.transfers := by
  cases hostStep_moves hs with
  | begun hw => exact absurd rfl hb
  | ended hpos hw => exact absurd rfl he
  | _ => rfl

theorem begin_transfers [DecidableEq α] {sm : SnapshotMachine α LactoStore}
    (hs : hostStep cfg sm h .BeginTransfer = some h') (hp : h'.node.is_poisoned = false) :
    h'.transfers = h.transfers + 1 := by
  cases hostStep_moves hs with
  | begun hw => rfl
  | @unbegun sh p hw =>
    have hpoison : sh.inner.is_poisoned = true := write_error_poisoned hw
    rw [show sh.inner.is_poisoned = false from hp] at hpoison
    cases hpoison

theorem end_transfers [DecidableEq α] {sm : SnapshotMachine α LactoStore}
    (hs : hostStep cfg sm h .EndTransfer = some h') : h'.transfers + 1 = h.transfers := by
  cases hostStep_moves hs with
  | ended hpos hw =>
    dsimp only
    omega

/-! ## The balance -/

/-- What is counted is what is under way. -/
structure Balanced (st : Station α) : Prop where
  depth : st.host.inProgress = st.host.fsm_freeze_depth
  transfers : st.host.transfers = frozenCalls st.rounds

/-- No round is told of a higher term while one of its calls is frozen. -/
def Undisturbed (st : Station α) : StationAct α → Prop
  | .Call r _ (some reply) _ =>
    ∀ round, st.rounds[r]? = some round → round.params.term < reply.term →
      ∀ call ∈ round.calls, call.2.isFrozen = false
  | _ => True

theorem Undisturbed.current {r k timeout : Nat} {reply : PeerReply}
    (hterm : (st.rounds[r]?).all fun round => reply.term ≤ round.params.term) :
    Undisturbed st (.Call r k (some reply) timeout) := by
  intro round hround hlt
  rw [hround] at hterm
  exact absurd hlt (by simpa using hterm)

theorem Undisturbed.unfrozen {r k timeout : Nat} {reply : PeerReply}
    (hnone : (st.rounds[r]?).all fun round => round.calls.all fun call => !call.2.isFrozen) :
    Undisturbed st (.Call r k (some reply) timeout) := by
  intro round hround _ call hcall
  rw [hround, Option.all_some, List.all_eq_true] at hnone
  simpa using hnone call hcall

theorem Halting.adopt (st : Station α) (hhalt : Halting h) : Halting (st.adopt h).host := by
  rcases hhalt with hp | ⟨err, herr⟩
  · exact .inl hp
  · exact .inr ⟨err, List.mem_filter.mpr ⟨herr, rfl⟩⟩

theorem Balanced.adopt (hin : h.inProgress = h.fsm_freeze_depth)
    (ht : h.transfers = frozenCalls st.rounds) : Balanced (st.adopt h) := by
  refine ⟨hin, ?_⟩
  change h.transfers = frozenCalls (h.process.tasks.filterMap asRound ++ st.rounds)
  rw [frozenCalls_append, frozenCalls_spawned, Nat.zero_add]
  exact ht

/-- A call goes on in its round. -/
theorem frozenCalls_continued {rounds : List (Round α)} {r k : Nat} {round : Round α}
    {peer : NodeId} {call : PeerCall α} (hr : rounds[r]? = some round)
    (hk : round.calls[k]? = some (peer, call)) (call' : PeerCall α) :
    frozenCalls (roundsAfter rounds r k round peer (.Continues call')) + call.isFrozen.toNat =
      frozenCalls rounds + call'.isFrozen.toNat := by
  have hrounds :=
    sum_map_set Round.frozen hr { round with calls := round.calls.set k (peer, call') }
  have hcalls := sum_map_set (fun x : NodeId × PeerCall α => x.2.isFrozen.toNat) hk (peer, call')
  unfold frozenCalls roundsAfter
  simp only [Round.frozen] at hrounds hcalls ⊢
  omega

theorem frozenCalls_finished {rounds : List (Round α)} {r k : Nat} {round : Round α}
    {peer : NodeId} {call : PeerCall α} (hr : rounds[r]? = some round)
    (hk : round.calls[k]? = some (peer, call)) :
    frozenCalls (roundsAfter rounds r k round peer .Finished) + call.isFrozen.toNat =
      frozenCalls rounds := by
  have hrounds := sum_map_set Round.frozen hr { round with calls := round.calls.eraseIdx k }
  have hcalls := sum_map_eraseIdx (fun x : NodeId × PeerCall α => x.2.isFrozen.toNat) hk
  unfold frozenCalls roundsAfter
  simp only [Round.frozen] at hrounds hcalls ⊢
  omega

/-- A round without a frozen call can be dropped. -/
theorem frozenCalls_dropped {rounds : List (Round α)} {r : Nat} {round : Round α}
    (hr : rounds[r]? = some round) (hnone : ∀ call ∈ round.calls, call.2.isFrozen = false) :
    frozenCalls (rounds.eraseIdx r) = frozenCalls rounds := by
  have hrounds := sum_map_eraseIdx Round.frozen hr
  have hzero : round.frozen = 0 := by
    unfold Round.frozen
    have hmap : round.calls.map (fun call => call.2.isFrozen.toNat) =
        round.calls.map fun _ => 0 :=
      List.map_congr_left fun call hcall => by rw [hnone call hcall]; rfl
    rw [hmap]
    simp
  unfold frozenCalls
  omega

theorem Balanced.call [DecidableEq α] {r k : Nat} {reply : Option PeerReply} {timeout : Nat}
    {round : Round α} {peer : NodeId} {call : PeerCall α} {res : CallResult α} (hb : Balanced st)
    (hok : Undisturbed st (.Call r k reply timeout)) (hr : st.rounds[r]? = some round)
    (hk : round.calls[k]? = some (peer, call))
    (hstep : CallStep cfg c st.host round.params.term reply call h res)
    (hgo : ¬Halting (withTasks h res.tasks)) :
    h.inProgress = h.fsm_freeze_depth ∧
      h.transfers = frozenCalls (roundsAfter st.rounds r k round peer res) := by
  have hmem : (peer, call) ∈ round.calls := List.mem_of_getElem? hk
  cases hstep with
  | @continued _ call' sh hs hf =>
    have := frozenCalls_continued hr hk call'
    rw [hf] at this
    refine ⟨hb.depth, ?_⟩
    change st.host.transfers = _
    rw [hb.transfers]
    omega
  | @finished _ sh hs hf =>
    have := frozenCalls_finished hr hk
    rw [hf] at this
    refine ⟨hb.depth, ?_⟩
    change st.host.transfers = _
    rw [hb.transfers]
    simpa using this.symm
  | @demoted _ sh reply' hs hreply ht hf =>
    subst hreply
    refine ⟨hb.depth, ?_⟩
    change st.host.transfers = frozenCalls (st.rounds.eraseIdx r)
    rw [hb.transfers, frozenCalls_dropped hr (hok round hr ht)]
  | @failed _ sh tasks hs hhalt =>
    refine absurd ?_ hgo
    rcases hhalt with hp | ⟨err, herr⟩
    · exact .inl hp
    · exact .inr ⟨err, List.mem_append_left _ herr⟩
  | froze i t hs hp =>
    have hcount := frozenCalls_continued hr hk (.Frozen i t)
    refine ⟨(hostStep_depth hs).eq hp hb.depth, ?_⟩
    rw [begin_transfers hs hp, hb.transfers]
    exact hcount.symm
  | freezeFailed i t hs hp => exact absurd (.inl hp) hgo
  | @thawed i t out sent _ hs hp =>
    have hcount := frozenCalls_continued hr hk (.Sending sent)
    have hend := end_transfers hs
    refine ⟨(hostStep_depth hs).eq hp hb.depth, ?_⟩
    rw [hb.transfers] at hend
    simp only [PeerCall.isFrozen, Bool.toNat_true, Bool.toNat_false] at hcount
    omega
  | thawFailed i t hs hhalt =>
    refine absurd ?_ hgo
    rcases hhalt with hp | ⟨err, herr⟩
    · exact .inl hp
    · exact .inr ⟨err, List.mem_append_left _ herr⟩

theorem Balanced.host [DecidableEq α] (hb : ¬Halting st.host → Balanced st)
    (hs : hostStep cfg (lactoSnapshots c) st.host a = some h) (hbegin : a ≠ .BeginTransfer)
    (hend : a ≠ .EndTransfer) (hgo : ¬Halting h) : Balanced (st.adopt h) := by
  have hb' := hb fun hhalt => hgo (hhalt.step hs)
  have hp : h.node.is_poisoned = false := by
    by_contra hne
    exact hgo (.inl (by simpa using hne))
  exact .adopt ((hostStep_depth hs).eq hp hb'.depth)
    ((hostStep_transfers hs hbegin hend).trans hb'.transfers)

theorem Balanced.step [DecidableEq α] {a : StationAct α} (hb : ¬Halting st.host → Balanced st)
    (hok : Undisturbed st a) (hs : stationStep cfg c st a = some st') :
    ¬Halting st'.host → Balanced st' := by
  intro hgo
  cases a with
  | Host a =>
    obtain ⟨honly, -, h, hstep, rfl⟩ := host_cases hs
    have hbal := Balanced.host hb hstep (by rintro rfl; cases honly) (by rintro rfl; cases honly)
      fun hhalt => hgo (Halting.adopt st hhalt)
    exact ⟨hbal.depth, hbal.transfers⟩
  | Call r k reply timeout =>
    obtain ⟨round, peer, call, h, res, hr, hk, hstep, rfl⟩ := call_cases hs
    have hgo' : ¬Halting (withTasks h res.tasks) := fun hhalt => hgo (Halting.adopt st hhalt)
    obtain ⟨hdepth, htransfers⟩ :=
      (hb fun hhalt => hgo' (hhalt.call hstep)).call hok hr hk hstep hgo'
    exact ⟨hdepth, htransfers⟩
  | Wake =>
    simp only [stationStep] at hs
    split at hs
    · obtain rfl := Option.some.inj hs
      exact ⟨(hb hgo).depth, (hb hgo).transfers⟩
    · cases hs
  | CheckFrozen =>
    simp only [stationStep] at hs
    split at hs
    · obtain rfl := Option.some.inj hs
      exact ⟨(hb hgo).depth, (hb hgo).transfers⟩
    · cases hs
  | Enter caller =>
    simp only [stationStep] at hs
    repeat' split at hs
    all_goals
      cases hs <;> exact ⟨(hb hgo).depth, (hb hgo).transfers⟩
  | Loop =>
    obtain ⟨caller, -, ⟨-, rfl⟩ | ⟨h, hstep, ⟨-, rfl⟩ | ⟨-, rfl⟩⟩⟩ := loop_cases hs
    · exact ⟨(hb hgo).depth, (hb hgo).transfers⟩
    · have hbal := Balanced.host hb hstep (by simp) (by simp)
        fun hhalt => hgo (Halting.adopt st hhalt)
      exact ⟨hbal.depth, hbal.transfers⟩
    · exact Balanced.host hb hstep (by simp) (by simp) fun hhalt => hgo (Halting.adopt st hhalt)

theorem Balanced.started (hst : Started cfg c st) : Balanced st := by
  obtain ⟨timeout, db, disk, fsm, ln, -, rfl⟩ := hst
  exact ⟨rfl, rfl⟩

/-- In every run in which no round is told of a higher term while one of its calls is frozen,
the depth is the number of operations under way on a node that does not halt, and whoever
thaws finds it above zero. -/
theorem freeze_depth_balanced [DecidableEq α] {st₀ : Station α} (hst : Started cfg c st₀)
    (hrun : StationRun cfg c Undisturbed st₀ st) (hgo : ¬Halting st.host) :
    st.host.fsm_freeze_depth =
      st.host.compactions.length + frozenCalls st.rounds + st.host.installations.length ∧
    (0 < st.host.compactions.length + frozenCalls st.rounds + st.host.installations.length →
      ∃ depth, thaw st.host.fsm_freeze_depth = .ok depth) := by
  have hinv : ¬Halting st.host → Balanced st :=
    Run.invariant (I := fun st => ¬Halting st.host → Balanced st)
      (fun _ _ _ hb hok hs => Balanced.step hb hok hs) hrun fun _ => .started hst
  have hb := hinv hgo
  have hdepth : st.host.fsm_freeze_depth =
      st.host.compactions.length + frozenCalls st.rounds + st.host.installations.length := by
    rw [← hb.depth, ← hb.transfers]
    rfl
  refine ⟨hdepth, fun hpos => ?_⟩
  rw [← hdepth] at hpos
  exact ⟨_, thaw_pos hpos⟩

/-- A snapshot for node 3 is being serialised for one round when node 2 answers the next round
with a higher term. -/
def demotedNextRound : List (StationAct Bytes) :=
  leadAndCompact ++ freezeForThree ++ [.Host (.Tick 5), .Call 0 0 none 5] ++
    [.Call 0 0 (some (.Append ⟨2, false, 0⟩)) 5]

theorem freeze_depth_balanced_compacting :
    (stationAfter demotedNextRound).node.current_term = 2 ∧
    frozenCalls (stationAfter demotedNextRound).rounds = 1 ∧
    (stationAfter demotedNextRound).host.fsm_freeze_depth = 1 := by
  have hsent : StationRun firstOfThree plainSnapshots Undisturbed firstStart
      (stationAfter (leadAndCompact.take 8)) :=
    stationAfter_run (by simp [leadAndCompact, Undisturbed]) (by decide +kernel)
  have hacked := stationAfter_tail hsent (a := .Call 0 0 (some (.Append ⟨1, true, 2⟩)) 5)
    (.current (by decide +kernel)) (by decide +kernel)
  have hprobing := stationAfter_append hacked (leadAndCompact.drop 9 ++ freezeForThree.take 1)
    (by simp [leadAndCompact, freezeForThree, Undisturbed]) (by decide +kernel)
  have hprobed := stationAfter_tail hprobing (a := .Call 0 1 (some (.Append ⟨1, false, 0⟩)) 5)
    (.current (by decide +kernel)) (by decide +kernel)
  have hfrozen : StationRun firstOfThree plainSnapshots Undisturbed firstStart
      (stationAfter (leadAndCompact ++ freezeForThree ++
        [.Host (.Tick 5), .Call 0 0 none 5])) :=
    stationAfter_append hprobed [.Call 0 1 none 5, .Host (.Tick 5), .Call 0 0 none 5]
      (by simp [Undisturbed]) (by decide +kernel)
  have hrun : StationRun firstOfThree plainSnapshots Undisturbed firstStart
      (stationAfter demotedNextRound) :=
    stationAfter_tail hfrozen (.unfrozen (by decide +kernel)) (by decide +kernel)
  have hgo : ¬Halting (stationAfter demotedNextRound).host := by
    rintro (hp | ⟨err, herr⟩)
    · exact absurd hp (by decide +kernel)
    · have hnone : (stationAfter demotedNextRound).host.process.tasks = [] := by decide +kernel
      rw [hnone] at herr
      cases herr
  have hdepth := (freeze_depth_balanced started_first hrun hgo).1
  refine ⟨by decide +kernel, by decide +kernel, hdepth.trans ?_⟩
  decide +kernel

/-- Node 2 answers with a higher term while the snapshot for node 3 is being serialised. -/
def demotedWhileFrozen : List (StationAct Bytes) :=
  leadAndCompact ++ freezeForThree ++
    [.Call 0 0 none 5, .Call 0 0 (some (.Append ⟨2, false, 0⟩)) 5]

/-- The round ends, nothing is under way any more, and the state machine stays frozen. -/
theorem demoted_round_leaks :
    Started firstOfThree plainSnapshots firstStart ∧
    StationRun firstOfThree plainSnapshots (fun _ _ => True) firstStart
      (stationAfter demotedWhileFrozen) ∧
    ¬Halting (stationAfter demotedWhileFrozen).host ∧
    (stationAfter demotedWhileFrozen).host.compactions = [] ∧
    frozenCalls (stationAfter demotedWhileFrozen).rounds = 0 ∧
    (stationAfter demotedWhileFrozen).host.installations.length = 0 ∧
    (stationAfter demotedWhileFrozen).host.fsm_freeze_depth = 1 := by
  have hidle : (stationAfter demotedWhileFrozen).host.process.tasks = [] := by decide +kernel
  refine ⟨started_first, stationAfter_run (fun _ _ _ => trivial) (by decide +kernel), ?_,
    by decide +kernel, by decide +kernel, by decide +kernel, by decide +kernel⟩
  rintro (hp | ⟨err, herr⟩)
  · exact absurd hp (by decide +kernel)
  · rw [hidle] at herr
    cases herr

end raft_engine.station
