-- No committed entry waits for an applier that sleeps. What is to be shown is
-- that somebody is still on the way to the log: a signal that was not seen, a
-- call that waits for the lock or holds it, an operation that ends with a signal
-- or a call of its own. Two steps break the chain: a signal that is dropped while
-- a snapshot for a peer is being serialised, whose end tells nobody, and an
-- installation that ends where the applier already is.
import LactoSensus.FreezeDepth

open common.types
open machine
open raft_engine.storage
open raft_engine.node
open raft_engine.engine
open raft_engine.consensus
open raft_engine.shell
open raft_engine.cluster
open raft_engine.orchestration
open raft_engine.recovery
open lacto_fsm

namespace raft_engine.station

variable {α : Type} {st st' : Station α}

/-! ## Rest -/

/-- The applier sleeps, and nothing is under way that freezes the state machine or holds
its lock. -/
structure Quiescent (st : Station α) : Prop where
  parked : st.background = .Parked
  seen : st.unseen = false
  thawed : st.host.fsm_freeze_depth = 0
  compactions : st.host.compactions = []
  serializations : frozenCalls st.rounds = 0
  installations : st.host.installations = []
  catchups : st.catchups = 0
  unlocked : st.holder = none

/-- Committed entries are not applied yet; a poisoned node has no indices. -/
def Behind (ln : LogicalNode α) : Prop :=
  ln.is_poisoned = false ∧ ln.last_applied < ln.last_committed

/-- No signal is dropped for a serialisation alone, and no installation ends at the index
that is applied already. -/
def Attended (st : Station α) : StationAct α → Prop
  | .CheckFrozen => is_frozen st.host.fsm_freeze_depth = true → Behind st.node →
      st.host.compactions ≠ [] ∨ st.host.installations ≠ []
  | .Host (.Finalize k) =>
    ∀ params res, st.host.installations[k]? = some (.Restored params res) →
      params.last_included_index < st.node.last_committed →
      st.node.last_applied ≠ params.last_included_index
  | _ => True

theorem Attended.thawed (hthawed : is_frozen st.host.fsm_freeze_depth = false) :
    Attended st .CheckFrozen := by
  intro hno
  rw [hthawed] at hno
  cases hno

/-! ## Who is on the way -/

/-- Somebody will look at the log who has not looked yet. -/
def Stirring (st : Station α) : Prop :=
  st.unseen = true ∨ st.background = .Woken ∨ st.background = .Waiting ∨ 0 < st.catchups ∨
    st.host.compactions ≠ [] ∨ st.host.installations ≠ []

/-- The call that holds the lock knows how far it has to go. -/
def Informed (st : Station α) : Prop :=
  st.holder.isSome = true ∧ ∀ applied committed,
    st.host.process.applier = .Looping applied committed →
    st.node.last_applied = applied ∧ st.node.last_committed = committed

structure Attentive (st : Station α) : Prop where
  idle : st.holder = none → st.host.process.applier = .Idle
  running : st.holder = some .Background → st.background = .Running
  behind : Behind st.node → Stirring st ∨ Informed st

theorem Attentive.started {cfg : HostConfig} {c : SnapshotCodec α}
    (hst : Started cfg c st) : Attentive st := by
  obtain ⟨timeout, db, disk, fsm, ln, -, rfl⟩ := hst
  exact ⟨fun _ => rfl, by simp, fun _ => .inl (.inr (.inr (.inl rfl)))⟩

theorem Attentive.awake (hatt : Attentive st) (hrest : Quiescent st) : ¬Behind st.node := by
  intro hbehind
  rcases hatt.behind hbehind with hstir | ⟨hholder, -⟩
  · simp [Stirring, hrest.parked, hrest.seen, hrest.compactions, hrest.installations,
      hrest.catchups] at hstir
  · simp [hrest.unlocked] at hholder

/-! ## Signals -/

/-- Whoever moves an index of a healthy node is heard. -/
theorem signals_of_moved {ln ln' : LogicalNode α} (hp : ln.is_poisoned = false)
    (hp' : ln'.is_poisoned = false)
    (hmoved : ¬(ln'.last_applied = ln.last_applied ∧ ln'.last_committed = ln.last_committed)) :
    signals ln ln' = true := by
  have hindices : ∀ {ln : LogicalNode α}, ln.is_poisoned = false →
      ln.try_consensus_progress.last_applied = ln.last_applied ∧
        ln.try_consensus_progress.last_committed = ln.last_committed := by
    intro ln hp
    unfold LogicalNode.try_consensus_progress
    split
    · rename_i hst
      simp [LogicalNode.is_poisoned, hst, RoleState.node_role] at hp
    all_goals exact ⟨rfl, rfl⟩
  unfold signals
  simp only [decide_eq_true_eq, afterDrop, hp', Bool.false_eq_true, if_false]
  intro heq
  apply hmoved
  rw [← (hindices hp).1, ← (hindices hp).2, ← (hindices hp').1, ← (hindices hp').2, heq]
  exact ⟨rfl, rfl⟩

/-- A step beside the applier: it moves an index and is heard, or whoever was on the way
still is. -/
theorem Attentive.beside (hatt : Attentive st)
    (hback : st'.node.is_poisoned = false → st.node.is_poisoned = false)
    (happlier : st'.host.process.applier = st.host.process.applier)
    (hholder : st'.holder = st.holder) (hbackground : st'.background = st.background)
    (hmove : Behind st'.node → Stirring st' ∨ (st'.node.last_applied = st.node.last_applied ∧
      st'.node.last_committed = st.node.last_committed) ∧ (Stirring st → Stirring st')) :
    Attentive st' := by
  refine ⟨fun hnone => ?_, fun hsome => ?_, fun hbehind => ?_⟩
  · rw [happlier]
    exact hatt.idle (hholder ▸ hnone)
  · rw [hbackground]
    exact hatt.running (hholder ▸ hsome)
  · rcases hmove hbehind with hstir | ⟨⟨ha, hc⟩, hkeep⟩
    · exact .inl hstir
    · have hbehind₀ : Behind st.node := ⟨hback hbehind.1, by
        rw [← ha, ← hc]
        exact hbehind.2⟩
      refine (hatt.behind hbehind₀).imp hkeep fun ⟨hsome, hinformed⟩ => ?_
      refine ⟨by rw [hholder]; exact hsome, fun applied committed hloop => ?_⟩
      rw [happlier] at hloop
      rw [ha, hc]
      exact hinformed applied committed hloop

/-! ## The steps -/

variable [DecidableEq α] {cfg : HostConfig} {c : SnapshotCodec α}
  {h h' : SnapshotHost α LactoStore}

theorem truncateFront_indices {k : Nat} {sm : SnapshotMachine α LactoStore}
    (hs : hostStep cfg sm h (.TruncateFront k) = some h') :
    h'.node.last_applied = h.node.last_applied ∧
      h'.node.last_committed = h.node.last_committed := by
  cases hostStep_moves hs with
  | truncated hk => exact ⟨rfl, rfl⟩

/-- What a step of the host leaves of those who are on the way. -/
theorem Stirring.host {a : HostAct α} (hstir : Stirring st) (hok : Attended st (.Host a))
    (hs : hostStep cfg (lactoSnapshots c) st.host a = some h') (hbehind : Behind h'.node)
    (hsame : h'.node.last_applied = st.node.last_applied ∧
      h'.node.last_committed = st.node.last_committed) :
    Stirring { st.adopt h' with
      unseen := st.unseen || (guarded a && signals st.node h'.node)
      catchups := catchupsAfter st.catchups h' a } := by
  obtain ⟨hcomp, hinst⟩ := hostStep_pending hs hbehind.1
  have hcatch : st.catchups ≤ catchupsAfter st.catchups h' a := by
    unfold catchupsAfter
    split
    · split <;> omega
    · exact le_rfl
  rcases hstir with hs | hs | hs | hs | hs | hs
  · exact .inl (by simp [hs])
  · exact .inr (.inl hs)
  · exact .inr (.inr (.inl hs))
  · exact .inr (.inr (.inr (.inl (hs.trans_le hcatch))))
  · by_cases hthaw : ∃ k, a = .ThawCompaction k
    · obtain ⟨k, rfl⟩ := hthaw
      refine .inr (.inr (.inr (.inl ?_)))
      simp [catchupsAfter, hbehind.1]
    · exact .inr (.inr (.inr (.inr (.inl (hcomp (by simpa using hthaw) hs)))))
  · by_cases hfin : ∃ k, a = .Finalize k
    · -- the installation ends where the applier is, and below the commit index
      obtain ⟨k, rfl⟩ := hfin
      obtain ⟨params, res, hk, -, ⟨-, hp⟩ | ⟨-, -, n, hadv, hnode⟩⟩ := finalize_cases ‹_›
      · rw [hbehind.1] at hp
        cases hp
      have ha : h'.node.last_applied = params.last_included_index := by
        rw [hnode]
        exact hadv.applied
      have hlt := hbehind.2
      rw [ha, hsame.2] at hlt
      exact absurd (hsame.1.symm.trans ha) (hok params _ hk hlt)
    · exact .inr (.inr (.inr (.inr (.inr (hinst (by simpa using hfin) hs)))))

theorem Attentive.host {a : HostAct α} (hatt : Attentive st) (hok : Attended st (.Host a))
    (hs : stationStep cfg c st (.Host a) = some st') : Attentive st' := by
  obtain ⟨honly, -, h', hstep, rfl⟩ := host_cases hs
  have haside := hostStep_aside hstep (by rintro rfl; cases honly)
  refine hatt.beside (fun hp => hostStep_healthy hstep hp) haside.1 rfl rfl fun hbehind => ?_
  change Behind h'.node at hbehind
  by_cases hsame : h'.node.last_applied = st.node.last_applied ∧
      h'.node.last_committed = st.node.last_committed
  · exact .inr ⟨hsame, fun hstir => hstir.host hok hstep hbehind hsame⟩
  · have hguarded : guarded a = true := by
      cases a with
      | TruncateFront k => exact absurd (truncateFront_indices hstep) hsame
      | _ => rfl
    have hheard := signals_of_moved (hostStep_healthy hstep hbehind.1) hbehind.1 hsame
    exact .inl (.inl (by simp [hguarded, show signals st.node h'.node = true from hheard]))

theorem CallStep.applier {term : Nat} {reply : Option PeerReply} {call : PeerCall α}
    {res : CallResult α} (hstep : CallStep cfg c h term reply call h' res) :
    h'.process.applier = h.process.applier := by
  cases hstep with
  | continued hs hf => rfl
  | finished hs hf => rfl
  | demoted hs hreply ht hf => rfl
  | failed hs hhalt => rfl
  | froze i t hs _ => exact (hostStep_aside hs (by simp)).1
  | freezeFailed i t hs _ => exact (hostStep_aside hs (by simp)).1
  | thawed i t hs _ => exact (hostStep_aside hs (by simp)).1
  | thawFailed i t hs _ => exact (hostStep_aside hs (by simp)).1

/-- A call that leaves the node healthy leaves what is pending. -/
theorem CallStep.pending {term : Nat} {reply : Option PeerReply} {call : PeerCall α}
    {res : CallResult α} (hstep : CallStep cfg c h term reply call h' res)
    (hp : h'.node.is_poisoned = false) :
    h.node.is_poisoned = false ∧ (h.compactions ≠ [] → h'.compactions ≠ []) ∧
      (h.installations ≠ [] → h'.installations ≠ []) := by
  have hshell : ∀ {sh : ConsensusShell α}, Stepped h.process.shell sh →
      (h.withShell sh).node.is_poisoned = false → h.node.is_poisoned = false := by
    intro sh hs hp
    by_contra hno
    have hhalted : sh.inner.is_poisoned = true := hs.quiet.halted (Bool.not_eq_false _ ▸ hno)
    rw [show sh.inner.is_poisoned = false from hp] at hhalted
    cases hhalted
  have hhost : ∀ {a : HostAct α}, a = .BeginTransfer ∨ a = .EndTransfer →
      hostStep cfg (lactoSnapshots c) h a = some h' →
      h.node.is_poisoned = false ∧ (h.compactions ≠ [] → h'.compactions ≠ []) ∧
        (h.installations ≠ [] → h'.installations ≠ []) := by
    intro a ha hs
    obtain ⟨hcomp, hinst⟩ := hostStep_pending hs hp
    refine ⟨hostStep_healthy hs hp, hcomp ?_, hinst ?_⟩ <;>
      rcases ha with rfl | rfl <;> simp
  cases hstep with
  | continued hs hf => exact ⟨hshell hs hp, id, id⟩
  | finished hs hf => exact ⟨hshell hs hp, id, id⟩
  | demoted hs hreply ht hf => exact ⟨hshell hs hp, id, id⟩
  | failed hs hhalt => exact ⟨hshell hs hp, id, id⟩
  | froze i t hs _ => exact hhost (.inl rfl) hs
  | freezeFailed i t hs _ => exact hhost (.inl rfl) hs
  | thawed i t hs _ => exact hhost (.inr rfl) hs
  | thawFailed i t hs _ => exact hhost (.inr rfl) hs

theorem Attentive.call {r k : Nat} {reply : Option PeerReply} {timeout : Nat}
    (hatt : Attentive st) (hs : stationStep cfg c st (.Call r k reply timeout) = some st') :
    Attentive st' := by
  obtain ⟨round, peer, call, h', res, -, -, hstep, rfl⟩ := call_cases hs
  refine hatt.beside (fun hp => (hstep.pending hp).1) hstep.applier rfl rfl fun hbehind => ?_
  change Behind h'.node at hbehind
  obtain ⟨hhealthy, hcomp, hinst⟩ := hstep.pending hbehind.1
  by_cases hsame : h'.node.last_applied = st.node.last_applied ∧
      h'.node.last_committed = st.node.last_committed
  · refine .inr ⟨hsame, fun hstir => ?_⟩
    rcases hstir with hs | hs | hs | hs | hs | hs
    · exact .inl (by simp [Station.adopt, hs])
    · exact .inr (.inl hs)
    · exact .inr (.inr (.inl hs))
    · exact .inr (.inr (.inr (.inl hs)))
    · exact .inr (.inr (.inr (.inr (.inl (hcomp hs)))))
    · exact .inr (.inr (.inr (.inr (.inr (hinst hs)))))
  · have hheard : signals st.node h'.node = true :=
      signals_of_moved hhealthy hbehind.1 hsame
    refine .inl (.inl ?_)
    change (st.unseen || signals st.node h'.node) = true
    rw [hheard, Bool.or_true]

/-- The call with the lock goes on with what it knows, or it has seen the end of the log. -/
theorem Attentive.loop (hatt : Attentive st) (hs : stationStep cfg c st .Loop = some st') :
    Attentive st' := by
  obtain ⟨caller, hholder, ⟨hnone, rfl⟩ | ⟨h', hstep, hcase⟩⟩ := loop_cases hs
  · obtain ⟨hidle, hp⟩ := runApplier_none (Option.map_eq_none_iff.mp hnone)
    refine ⟨fun _ => hidle, by simp, fun hbehind => ?_⟩
    rw [show st.host.process.shell.inner.is_poisoned = false from hbehind.1] at hp
    cases hp
  obtain ⟨⟨p, fsm⟩, hrun, rfl⟩ := Option.map_eq_some_iff.mp hstep
  rcases hcase with ⟨hidle, rfl⟩ | ⟨hnot, rfl⟩
  · refine ⟨fun _ => hidle, by simp, fun hbehind => .inl ?_⟩
    cases runApplier_step hrun with
    | start => cases hidle
    | fetch => cases hidle
    | apply => cases hidle
    | advance => cases hidle
    | finish hloop hge =>
      rcases hatt.behind hbehind with hstir | ⟨-, hinformed⟩
      · -- whoever is on the way is not the call that ends here
        have hsleeps : ∀ b, b ≠ .Running → st.background = b →
            backgroundAfter st.background st.node.is_poisoned caller = b := by
          intro b hb hst
          cases caller with
          | Background => exact absurd (hst.symm.trans (hatt.running hholder)) hb
          | CatchUp => exact hst
        rcases hstir with hs | hs | hs | hs
        · exact .inl (by simp [Station.adopt, hs])
        · exact .inr (.inl (hsleeps _ (by simp) hs))
        · exact .inr (.inr (.inl (hsleeps _ (by simp) hs)))
        · exact .inr (.inr (.inr hs))
      · obtain ⟨ha, hc⟩ := hinformed _ _ hloop
        have hlt : st.node.last_applied < st.node.last_committed := hbehind.2
        omega
    | fatal hs hp =>
      have hhealthy : LogicalNode.is_poisoned _ = false := hbehind.1
      exact absurd hp (Bool.eq_false_iff.mp hhealthy)
  · have hsome : st.holder.isSome = true := by rw [hholder]; rfl
    refine ⟨fun hno => ?_, hatt.running, fun hbehind => ?_⟩
    · rw [show st.holder = none from hno] at hsome
      cases hsome
    cases runApplier_step hrun with
    | finish => exact absurd rfl hnot
    | fatal => exact absurd rfl hnot
    | start hidle hp hle =>
      refine .inr ⟨hsome, fun applied committed hloop => ?_⟩
      obtain ⟨rfl, rfl⟩ := Applier.Looping.inj hloop
      exact ⟨rfl, rfl⟩
    | fetch hloop hlt he => exact .inr ⟨hsome, fun _ _ hno => nomatch hno⟩
    | apply hfetched happly => exact .inr ⟨hsome, fun _ _ hno => nomatch hno⟩
    | advance happlied hadv hsh hpub =>
      refine .inr ⟨hsome, fun applied committed hloop => ?_⟩
      obtain ⟨rfl, rfl⟩ := Applier.Looping.inj hloop
      rename_i n sh
      have hnode : sh.inner = onto st.node n := hsh
      change sh.inner.last_applied = _ ∧ sh.inner.last_committed = _
      rw [hnode]
      exact ⟨hadv.applied, rfl⟩

theorem Attentive.step {a : StationAct α} (hatt : Attentive st) (hok : Attended st a)
    (hs : stationStep cfg c st a = some st') : Attentive st' := by
  cases a with
  | Host a => exact hatt.host hok hs
  | Call r k reply timeout => exact hatt.call hs
  | Wake =>
    simp only [stationStep] at hs
    split at hs
    · rename_i hwake
      obtain rfl := Option.some.inj hs
      refine ⟨hatt.idle, fun hsome => ?_, fun _ => .inl (.inr (.inl rfl))⟩
      have hrunning := hatt.running hsome
      rw [hwake.1] at hrunning
      cases hrunning
    · cases hs
  | CheckFrozen =>
    simp only [stationStep] at hs
    split at hs
    · rename_i hwoken
      obtain rfl := Option.some.inj hs
      refine ⟨hatt.idle, fun hsome => ?_, fun hbehind => .inl ?_⟩
      · have hrunning := hatt.running hsome
        rw [hwoken] at hrunning
        cases hrunning
      · by_cases hfrozen : is_frozen st.host.fsm_freeze_depth = true
        · rcases hok hfrozen hbehind with hc | hi
          · exact .inr (.inr (.inr (.inr (.inl hc))))
          · exact .inr (.inr (.inr (.inr (.inr hi))))
        · exact .inr (.inr (.inl (if_neg hfrozen)))
    · cases hs
  | Enter caller =>
    simp only [stationStep] at hs
    split at hs
    · cases hs
    rename_i hfree
    have hidle := hatt.idle (by simpa using hfree)
    have hinformed : ∀ {st' : Station α}, st'.holder.isSome = true →
        st'.host.process.applier = .Idle → Informed st' := by
      intro st' hsome happlier
      refine ⟨hsome, fun applied committed hloop => ?_⟩
      rw [happlier] at hloop
      cases hloop
    split at hs
    · split at hs
      · obtain rfl := Option.some.inj hs
        exact ⟨by simp, fun _ => rfl, fun _ => .inr (hinformed rfl hidle)⟩
      · cases hs
    · split at hs
      · cases hs
      · obtain rfl := Option.some.inj hs
        exact ⟨by simp, by simp,
          fun _ => .inr (hinformed rfl hidle)⟩
  | Loop => exact hatt.loop hs

/-- In every run in which signals are dropped only while a compaction or an installation is
under way, and no installation ends where the applier already is, no station at rest is
behind. -/
theorem no_lost_wake_up {st₀ : Station α} (hst : Started cfg c st₀)
    (hrun : StationRun cfg c Attended st₀ st) (hrest : Quiescent st) : ¬Behind st.node :=
  (Run.invariant (fun _ _ _ hatt hok hs => Attentive.step hatt hok hs) hrun
    (.started hst)).awake hrest

/-- Node 2 acknowledges a third entry while the log is being compacted; the applier wakes, finds
the state machine frozen, and goes back to sleep. -/
def committedWhileCompacting : List (StationAct Bytes) :=
  leadAndCompact.take 19 ++
    [.Host (.Propose (milk 3)), .Call 0 0 none 5, .Call 0 0 (some (.Append ⟨1, true, 3⟩)) 5, .Wake]

/-- The compaction ends, and whoever ended it applies the third entry; then the applier looks
once more. -/
def catchUpThird : List (StationAct Bytes) :=
  [.Host (.SaveMetadata 0), .Host (.TruncateFront 0), .Host (.ThawCompaction 0),
    .Enter .CatchUp] ++ List.replicate 5 .Loop ++ [.Wake]

def restAfterThird : List (StationAct Bytes) :=
  committedWhileCompacting ++ [.CheckFrozen] ++ catchUpThird ++ [.CheckFrozen] ++
    [.Enter .Background, .Loop, .Loop]

theorem quiescent_afterThird : Quiescent (stationAfter restAfterThird) := by
  have hrest : (stationAfter restAfterThird).background = .Parked ∧
      (stationAfter restAfterThird).unseen = false ∧
      (stationAfter restAfterThird).host.fsm_freeze_depth = 0 ∧
      (stationAfter restAfterThird).host.compactions = [] ∧
      frozenCalls (stationAfter restAfterThird).rounds = 0 ∧
      (stationAfter restAfterThird).host.installations.length = 0 ∧
      (stationAfter restAfterThird).catchups = 0 ∧
      (stationAfter restAfterThird).holder = none := by decide +kernel
  obtain ⟨hparked, hseen, hthawed, hnone, hcalls, hinst, hcatch, hfree⟩ := hrest
  exact ⟨hparked, hseen, hthawed, hnone, hcalls, List.eq_nil_of_length_eq_zero hinst, hcatch,
    hfree⟩

theorem attended_whileCompacting : StationRun firstOfThree plainSnapshots Attended firstStart
    (stationAfter (committedWhileCompacting ++ [.CheckFrozen])) := by
  have hcommitted : StationRun firstOfThree plainSnapshots Attended firstStart
      (stationAfter committedWhileCompacting) :=
    stationAfter_run (by simp [committedWhileCompacting, leadAndCompact, Attended])
      (by decide +kernel)
  have hcompacting : (stationAfter committedWhileCompacting).host.compactions ≠ [] := by
    decide +kernel
  exact stationAfter_tail hcommitted (fun _ _ => .inl hcompacting) (by decide +kernel)

theorem attended_catchUp : StationRun firstOfThree plainSnapshots Attended firstStart
    (stationAfter (committedWhileCompacting ++ [.CheckFrozen] ++ catchUpThird)) :=
  stationAfter_append attended_whileCompacting _ (by simp [catchUpThird, Attended])
    (by decide +kernel)

theorem attended_checked : StationRun firstOfThree plainSnapshots Attended firstStart
    (stationAfter (committedWhileCompacting ++ [.CheckFrozen] ++ catchUpThird ++
      [.CheckFrozen])) :=
  stationAfter_tail attended_catchUp (.thawed (by decide +kernel)) (by decide +kernel)

theorem attended_afterThird : StationRun firstOfThree plainSnapshots Attended firstStart
    (stationAfter restAfterThird) :=
  stationAfter_append attended_checked _ (by simp [Attended]) (by decide +kernel)

/-- The signal of the third entry was dropped, and yet the entry is applied in the end. -/
theorem no_lost_wake_up_applied :
    (is_frozen (stationAfter committedWhileCompacting).host.fsm_freeze_depth = true ∧
      Behind (stationAfter committedWhileCompacting).node) ∧
    (stationAfter restAfterThird).node.last_committed = 3 ∧
    ¬Behind (stationAfter restAfterThird).node :=
  ⟨⟨by decide +kernel, by decide +kernel, by decide +kernel⟩, by decide +kernel,
    no_lost_wake_up started_first attended_afterThird quiescent_afterThird⟩

/-- Node 2 acknowledges a third entry while the snapshot for node 3 is being serialised; the
applier wakes, finds the state machine frozen, and goes back to sleep. -/
def committedWhileFrozen : List (StationAct Bytes) :=
  leadAndCompact ++ freezeForThree ++
    [.Host (.Propose (milk 3)), .Call 0 0 none 5, .Call 0 0 (some (.Append ⟨1, true, 3⟩)) 5,
      .Wake, .CheckFrozen, .Call 0 0 none 5, .Call 0 0 none 5, .Call 0 0 none 5]

theorem frozen_signal_lost :
    Started firstOfThree plainSnapshots firstStart ∧
    StationRun firstOfThree plainSnapshots (fun _ _ => True) firstStart
      (stationAfter committedWhileFrozen) ∧
    Quiescent (stationAfter committedWhileFrozen) ∧
    (stationAfter committedWhileFrozen).node.last_applied = 2 ∧
    (stationAfter committedWhileFrozen).node.last_committed = 3 ∧
    Behind (stationAfter committedWhileFrozen).node := by
  refine ⟨started_first, stationAfter_run (fun _ _ _ => trivial) (by decide +kernel),
    ⟨by decide +kernel, by decide +kernel, by decide +kernel, by decide +kernel,
      by decide +kernel, ?_, by decide +kernel, by decide +kernel⟩,
    by decide +kernel, by decide +kernel, by decide +kernel, by decide +kernel⟩
  exact List.eq_nil_of_length_eq_zero (by decide +kernel)

end raft_engine.station
