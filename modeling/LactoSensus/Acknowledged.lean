-- What an answer of `await_commit` is worth. The handle keeps the index of a
-- proposal and not its term: as long as nothing cuts the log at or below that
-- index, the entry there is the proposal, and it is the one that is committed.
import LactoSensus.ClusterSteps
import LactoSensus.Safety

open common.types
open machine
open ordmap
open raft_engine.storage
open raft_engine.node
open raft_engine.engine
open raft_engine.consensus
open raft_engine.shell
open raft_engine.cluster
open raft_engine.refinement

namespace raft_engine.service

variable {α S : Type} {cfg : Config} {sm : StateMachine α S} {c c' : Cluster α S}

/-! ## The entry of a proposal -/

theorem read_appended (s : SledStorage α) (e : LogEntry α) :
    (s.append_entries [e]).read_entry e.index = some e := by
  unfold SledStorage.read_entry SledStorage.append_entries
  exact OrdMap.get?_insert_self _ _ _

theorem propose_entry {sh : ConsensusShell α} {data : α} {i : Nat}
    (hok : (sh.propose data).2 = .ok (.ok i)) :
    (sh.propose data).1.inner.node.disk.read_entry i = some ⟨i, sh.inner.current_term, data⟩ := by
  rcases (propose_stepped sh data).1 with ⟨hno, -⟩ | ⟨-, hindex, heq⟩
  · exact absurd hok (hno i)
  · obtain rfl : i = sh.inner.last_log_index + 1 := by
      rw [hindex] at hok
      exact (Except.ok.inj (Except.ok.inj hok)).symm
    rw [heq]
    exact read_appended sh.inner.node.disk ⟨_, _, data⟩

/-! ## What keeps it -/

/-- No request that the node takes up cuts its log at or below `i`. -/
def Uncut (n : NodeId) (i : Nat) (c : Cluster α S) : Action α → Prop
  | .Act (.Deliver k _) => ∀ p req, c.process n = some p →
      c.network[k]? = some (.AppendEntries n req) → CutsAbove i p.shell.inner req
  | _ => True

/-- The node holds the entry `e` at `i`, in the process that has the handle. -/
def Holding (n : NodeId) (i : Nat) (e : LogEntry α) (c : Cluster α S) : Prop :=
  ∃ p, c.process n = some p ∧ p.shell.inner.node.disk.read_entry i = some e

theorem Performed.keeps {n : NodeId} {p p' : Process α} {a : Act α} {fsm : S} {i : Nat}
    {e : LogEntry α} (h : Performed sm c n p a p' fsm) (hcut : Uncut n i c (.Act a))
    (hp : c.process n = some p) (he : p.shell.inner.node.disk.read_entry i = some e) :
    p'.shell.inner.node.disk.read_entry i = some e := by
  have hquiet : ∀ {ln ln' : LogicalNode α}, Quiet ln ln' →
      ln.node.disk.read_entry i = some e → ln'.node.disk.read_entry i = some e := by
    intro ln ln' hq he
    unfold SledStorage.read_entry
    rw [hq.log]
    exact he
  cases h with
  | stepped hs => exact hquiet hs.quiet he
  | proposed data hsh =>
    rw [hsh]
    rcases (propose_stepped p.shell data).1 with ⟨-, hq⟩ | ⟨-, -, heq⟩
    · exact hquiet hq he
    · rw [heq]
      have hes : Consecutive p.shell.inner.node.disk.last_log_index
          [⟨p.shell.inner.last_log_index + 1, p.shell.inner.current_term, data⟩] := ⟨rfl, trivial⟩
      exact append_entries_keeps hes he
  | served hmsg hdst hserved hpub =>
    cases hserved with
    | quiet hq => exact hquiet hq he
    | merged dst req hq hst hc ht hv hm hln =>
      obtain rfl : dst = n := hdst
      refine hquiet hln (hm.keeps (fun e₁ he₁ => ?_) (hquiet hq he))
      exact (hcut p req hp hmsg).after hq ht hv he₁
  | applied happly =>
    cases happly with
    | start => exact he
    | fetch => exact he
    | finish => exact he
    | apply => exact he
    | @advance next_idx n' sh _ hadv hsh =>
      rw [hsh]
      unfold SledStorage.read_entry
      change n'.disk.log.get? i = some e
      rw [hadv.log]
      exact he
    | fatal hs hpoison => exact hquiet hs.quiet he

variable [DecidableEq α]

theorem Holding.step {n : NodeId} {i : Nat} {e : LogEntry α} {a : Action α}
    (h : Holding n i e c) (hn : ¬crashes cfg sm c n a) (hcut : Uncut n i c a)
    (hs : step cfg sm c a = some c') : Holding n i e c' := by
  obtain ⟨p, hp, he⟩ := h
  rcases step_process hs hn hp with hsame | ⟨act, eff, rfl, -, hperf, hp'⟩
  · exact ⟨p, hsame, he⟩
  · have hkept := Performed.keeps hperf hcut hp he
    exact ⟨_, hp', hkept⟩

/-! ## The answer -/

omit [DecidableEq α] in
theorem await_commit_ok {sh : ConsensusShell α} {i : Nat} (hpub : Published sh)
    (hok : await_commit sh.progress i = some (.ok ())) :
    sh.inner.node_role = .Leader ∧ i ≤ sh.inner.last_committed :=
  (hpub.reflects ConsensusProgress.last_committed).await_commit_ok hok

/-- The node takes the entry as committed. From then on every node that takes its index as
committed holds the entry there, and so does every leader of a later term. -/
def AgreedOn (cfg : Config) (sm : StateMachine α S) (c : Cluster α S) (n : NodeId)
    (e : LogEntry α) : Prop :=
  e.index ≤ (c.hosts n).last_committed ∧
    ∀ c', Later cfg sm c c' → ∀ m,
      (e.index ≤ (c'.hosts m).last_committed → (c'.hosts m).read_entry e.index = some e) ∧
      ((c'.hosts m).role = some .Leader →
        (c.hosts n).current_term < (c'.hosts m).current_term →
        (c'.hosts m).read_entry e.index = some e)

/-- When a proposal got the index `i`, the handle has lived on, nothing has cut the log of its
node at or below `i`, and `await_commit` returns: the proposal is committed. -/
theorem acknowledged_agreed {c₁ c₂ : Cluster α S} {n : NodeId} {data : α} {p q : Process α}
    {i : Nat} (hc : Reachable cfg sm c) (hp : c.process n = some p)
    (hpropose : (p.shell.propose data).2 = .ok (.ok i))
    (hs : step cfg sm c (.Act (.Propose n data)) = some c₁)
    (hrun : Run (step cfg sm) (fun c a => ¬crashes cfg sm c n a ∧ Uncut n i c a) c₁ c₂)
    (hq : c₂.process n = some q) (hok : await_commit q.shell.progress i = some (.ok ())) :
    AgreedOn cfg sm c₂ n ⟨i, p.shell.inner.current_term, data⟩ := by
  have hlater : Later cfg sm c c₂ :=
    .head trivial hs (hrun.weaken fun _ _ _ => trivial)
  have hheld : Holding n i ⟨i, p.shell.inner.current_term, data⟩ c₁ := by
    obtain ⟨e, he, rfl⟩ := Option.map_eq_some_iff.mp hs
    obtain ⟨p', hp', rfl⟩ := Option.map_eq_some_iff.mp he
    obtain rfl := Option.some.inj (hp'.symm.trans hp)
    refine ⟨Process.settle { p' with shell := (p'.shell.propose data).1 }, ?_,
      propose_entry hpropose⟩
    simp [Cluster.process, Cluster.setHost]
  obtain ⟨q', hq', he⟩ : Holding n i ⟨i, p.shell.inner.current_term, data⟩ c₂ :=
    Run.invariant (fun _ _ _ hheld hstep hs => hheld.step hstep.1 hstep.2 hs) hrun hheld
  obtain rfl := Option.some.inj (hq'.symm.trans hq)
  have hreach : Reachable cfg sm c₂ := Run.trans hc hlater
  obtain ⟨-, hle⟩ := await_commit_ok (Announced.run hreach n q' hq) hok
  have hup := process_up hq
  have hcommitted : i ≤ (c₂.hosts n).last_committed := by
    unfold Host.last_committed
    rw [hup]
    exact hle
  have hread : (c₂.hosts n).read_entry i = some ⟨i, p.shell.inner.current_term, data⟩ := by
    unfold Host.read_entry Host.disk
    rw [hup]
    exact he
  refine ⟨hcommitted, fun c₃ hlater₃ m => ?_⟩
  obtain ⟨a, ha⟩ := Reachable.refines hreach
  obtain ⟨a', hgrow, ha'⟩ := run_refines hlater₃ ha
  exact ⟨fun hm => (ha.committed_agree ha' hgrow hcommitted hm).trans hread,
    fun hm hlt => (ha.leader_holds ha' hgrow hcommitted hm hlt).trans hread⟩

/-- What the handle of a node answers for an index. -/
def answer (c : Cluster Nat (Nat × List Nat)) (n : NodeId) (i : Nat) :
    Option (Except ConsensusError Unit) :=
  (c.process n).bind fun p => await_commit p.shell.progress i

/-- Node 1 proposes 77 as leader of term 1. Node 2 leads term 2 with the vote of node 3, and
commits 88 at the same index; node 1 takes it over. -/
def overwrittenByTwo : List (Action Nat) :=
  [.Act (.Tick 2 1), .Act (.Deliver 7 5), .Act (.RunTask 2 0 3 (some 8) 5),
    .Act (.RunTask 2 0 3 none 5), .Act (.Deliver 10 5), .Act (.RunTask 2 0 3 (some 11) 5),
    .Act (.Propose 2 88), .Act (.Tick 2 5), .Act (.RunTask 2 0 3 none 5), .Act (.Deliver 12 5),
    .Act (.RunTask 2 0 3 (some 13) 5), .Act (.Tick 2 5), .Act (.RunTask 2 0 1 none 5),
    .Act (.Deliver 14 1)]

/-- Node 1 leads again, in term 3. -/
def leadAgain : List (Action Nat) :=
  [.Act (.Tick 1 5), .Act (.Deliver 17 5), .Act (.RunTask 1 0 3 (some 18) 5),
    .Act (.RunTask 1 0 3 none 5), .Act (.Deliver 20 5), .Act (.RunTask 1 0 3 (some 21) 5)]

/-- The handle answers that index 1 is committed, and it is, but it is not what was proposed. -/
theorem overwritten_acknowledged :
    Reachable threeNodes notebook (after (commitByFirst.take 9)) ∧
    ((after (commitByFirst.take 9)).process 1).map (fun p => (p.shell.propose 77).2) =
      some (.ok (.ok 1)) ∧
    Run (step threeNodes notebook) (fun c a => ¬crashes threeNodes notebook c 1 a)
      (after (commitByFirst.take 10))
      (after (commitByFirst.take 10 ++ (overwrittenByTwo ++ leadAgain))) ∧
    answer (after (commitByFirst.take 10 ++ (overwrittenByTwo ++ leadAgain))) 1 1 =
      some (.ok ()) ∧
    ((after (commitByFirst.take 10 ++ (overwrittenByTwo ++ leadAgain))).hosts 1).last_committed =
      1 ∧
    ((after (commitByFirst.take 10 ++ (overwrittenByTwo ++ leadAgain))).hosts 1).read_entry 1 =
      some ⟨1, 2, 88⟩ := by
  refine ⟨after_run [] (commitByFirst.take 9) (fun _ _ _ => trivial) (by decide +kernel),
    by decide +kernel, after_run (commitByFirst.take 10) (overwrittenByTwo ++ leadAgain)
      (fun k a ha => ?_) (by decide +kernel), by decide +kernel, by decide +kernel,
    by decide +kernel⟩
  -- every step is one of a host that stays up
  have hup : ∀ a ∈ overwrittenByTwo ++ leadAgain, ∃ act, a = .Act act := by
    simp [overwrittenByTwo, leadAgain]
  obtain ⟨act, rfl⟩ := hup a (List.mem_of_getElem? ha)
  exact id

end raft_engine.service
