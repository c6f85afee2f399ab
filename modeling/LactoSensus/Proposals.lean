-- Every entry was proposed once. Beside the cluster stands the list of the entries
-- that leaders have written for a proposal; no other step makes one. A log, a
-- request in the network and a disk that a crash leaves hold entries of this list
-- only, and the list has no term and index twice.
import LactoSensus.Rounds
import LactoSensus.Safety
import LactoSensus.Lib.Raft.Written

open common.types
open journal
open machine
open ordmap
open raft_engine.storage
open raft_engine.node
open raft_engine.engine
open raft_engine.consensus
open raft_engine.shell
open raft_engine.cluster
open raft_engine.refinement
open raft_engine.origins
open raft_engine.station (prepare_replication_some determine_replication_strategy_cases
  build_append_entries_request_ok)
open raft (Entry Grows)

namespace raft_engine.proposals

variable {α S : Type} {cfg : Config} {sm : StateMachine α S} {c c' : Cluster α S}
  {a a' : Protocol α} {n : NodeId} {act : Act α}

/-! ## The entries on a disk -/

/-- The entry is somewhere in the log of the disk. -/
def Holds (d : SledStorage α) (e : LogEntry α) : Prop := ∃ i, d.read_entry i = some e

theorem Holds.of_log {d d' : SledStorage α} (hlog : d'.log = d.log) {e : LogEntry α}
    (h : Holds d' e) : Holds d e := by
  obtain ⟨i, hi⟩ := h
  refine ⟨i, ?_⟩
  unfold SledStorage.read_entry at hi ⊢
  rwa [hlog] at hi

theorem Holds.of_truncate {d : SledStorage α} {i : Nat} {e : LogEntry α}
    (h : Holds (d.truncate_log i) e) : Holds d e := by
  obtain ⟨k, hk⟩ := h
  refine ⟨k, ?_⟩
  unfold SledStorage.read_entry at hk ⊢
  rw [truncate_log_get?] at hk
  split at hk
  · cases hk
  · exact hk

theorem Holds.of_append {d : SledStorage α} {es : List (LogEntry α)} {e : LogEntry α}
    (h : Holds (d.append_entries es) e) : Holds d e ∨ e ∈ es := by
  obtain ⟨k, hk⟩ := h
  unfold SledStorage.read_entry SledStorage.append_entries at hk
  rcases OrdMap.get?_insertAll_cases _ _ hk with hold | hnew
  · exact .inl ⟨k, hold⟩
  · obtain ⟨e', he', heq⟩ := List.mem_map.mp hnew
    obtain rfl := (Prod.mk.inj heq).2
    exact .inr he'

/-- What a reconciliation leaves on disk comes from the log or from the request, also
between its writes. -/
theorem Merged.holds {m m' : RaftNode α Follower} {entries : List (LogEntry α)}
    {leader_commit : Nat} (hm : Merged m entries leader_commit m') :
    Since m.log_store (fun d => ∀ e, Holds d e → Holds m.disk e ∨ e ∈ entries) m'.log_store := by
  have hpersist : ∀ {k : RaftNode α Follower} {es : List (LogEntry α)}, (∀ e ∈ es, e ∈ entries) →
      Since k.log_store (fun d => ∀ e, Holds d e → Holds k.disk e ∨ e ∈ entries)
        (k.persistAppend es leader_commit).log_store := by
    intro k es hsub
    have hstart : Since k.log_store (fun d => ∀ e, Holds d e → Holds k.disk e ∨ e ∈ entries)
        k.log_store := .start fun e he => .inl he
    have happended : ∀ e, Holds (k.disk.append_entries es) e → Holds k.disk e ∨ e ∈ entries :=
      fun e he => he.of_append.imp id (hsub e)
    unfold RaftNode.persistAppend
    dsimp only
    split
    · exact hstart
    · exact hstart.write fun e he => .inl (he.of_log rfl)
    · exact hstart.write happended
    · exact (hstart.write happended).write fun e he => happended e (he.of_log rfl)
  cases hm with
  | kept => exact .start fun e he => .inl he
  | cut e he => exact (Since.start fun e he => .inl he).write fun e he => .inl he.of_truncate
  | appended es hes hsub => exact hpersist hsub
  | replaced e he es hes hsub =>
    have hcut : Since m.log_store (fun d => ∀ e, Holds d e → Holds m.disk e ∨ e ∈ entries)
        (m.truncate_log e.index).log_store :=
      (Since.start fun e he => .inl he).write fun e he => .inl he.of_truncate
    exact hcut.trans (hpersist hsub) fun d hd e he => (hd e he).imp Holds.of_truncate id

/-! ## What a step brings to a disk -/

/-- The entry that a proposal is written as. -/
def draft (ln : LogicalNode α) (data : α) : LogEntry α :=
  ⟨ln.last_log_index + 1, ln.current_term, data⟩

/-- The host of a proposal, and its data. -/
def proposalOf : Act α → Option (NodeId × α)
  | .Propose n data => some (n, data)
  | _ => none

/-- Where an entry on the disk of the host can come from. -/
inductive Source (c : Cluster α S) (p : Process α) (n : NodeId) (proposal : Option (NodeId × α)) :
    LogEntry α → Prop where
  | kept {e : LogEntry α} (h : Holds p.shell.inner.node.disk e) : Source c p n proposal e
  | sent {e : LogEntry α} (dst : NodeId) (req : AppendEntriesRequest α) (hno : proposal = none)
      (hreq : .AppendEntries dst req ∈ c.network) (he : e ∈ req.entries) : Source c p n proposal e
  | proposed {data : α} (l : Leader) (hprop : proposal = some (n, data))
      (hlead : p.shell.inner.node.state = .Leader l)
      (hle : p.shell.inner.last_log_index + 1 ≤ u64Max) :
      Source c p n proposal (draft p.shell.inner data)

theorem Quiet.holds {ln ln' : LogicalNode α} (hq : Quiet ln ln')
    (hc : ln.last_committed = ln.node.disk.last_committed) :
    Since ln.node.log_store (fun d => ∀ e, Holds d e → Holds ln.node.disk e)
      ln'.node.log_store := by
  obtain ⟨-, hsince⟩ := hq.disks hc
  exact ⟨fun e he => he.of_log hsince.now.log,
    fun d hd => (hsince.past d hd).imp id fun hq e he => he.of_log hq.log⟩

/-- A reconciliation keeps the commit index of the node on disk. -/
theorem Merged.durable {m m' : RaftNode α Follower} {entries : List (LogEntry α)}
    {leader_commit : Nat} (hm : Merged m entries leader_commit m')
    (h : m.last_committed = m.disk.last_committed) :
    m'.last_committed = m'.disk.last_committed := by
  have hpersist : ∀ {k : RaftNode α Follower} (es : List (LogEntry α)),
      k.last_committed = k.disk.last_committed →
      (k.persistAppend es leader_commit).last_committed =
        (k.persistAppend es leader_commit).disk.last_committed := by
    intro k es hk
    unfold RaftNode.persistAppend
    dsimp only
    split
    · exact hk
    · rfl
    · exact hk
    · rfl
  have hcut : ∀ i, (m.truncate_log i).last_committed = (m.truncate_log i).disk.last_committed :=
    fun i => h.trans (truncate_log_committed i m.disk).symm
  cases hm with
  | kept => exact h
  | cut e he => exact hcut e.index
  | appended es hes hsub => exact hpersist es h
  | replaced e he es hes hsub => exact hpersist es (hcut e.index)

theorem Served.holds {msg : Message α} {ln ln' : LogicalNode α} (h : Served ln msg ln')
    (hc : ln.last_committed = ln.node.disk.last_committed) :
    Since ln.node.log_store (fun d => ∀ e, Holds d e → Holds ln.node.disk e ∨
      ∃ dst req, msg = .AppendEntries dst req ∧ e ∈ req.entries) ln'.node.log_store := by
  cases h with
  | quiet hq =>
    exact (Since.start fun e he => .inl he).trans (Quiet.holds hq hc)
      fun d hd e he => .inl (hd e he)
  | @merged dst req ln₁ _ f m hq hst hcommit ht hv hm hln =>
    have hc₁ : ln₁.last_committed = ln₁.node.disk.last_committed := (hq.disks hc).1
    have hbefore := Quiet.holds hq hc
    have hmerged := Merged.holds hm
    -- the handler is over then, or it halts the node: the log stays
    have hafter := Quiet.holds hln (Merged.durable hm hc₁)
    refine ((Since.start fun e he => .inl he).trans hbefore fun d hd e he => .inl (hd e he)).trans
      (hmerged.trans hafter fun d hd e he => hmerged.now e (hd e he)) fun d hd e he => ?_
    rcases hd e he with hold | hnew
    · exact .inl (hbefore.now e hold)
    · exact .inr ⟨dst, req, rfl, hnew⟩

theorem propose_index_le {sh : ConsensusShell α} {data : α} {i : Nat}
    (hok : (sh.propose data).2 = .ok (.ok i)) : i ≤ u64Max := by
  have hres := sh.write_result fun ln => ln.propose data
  unfold ConsensusShell.propose at hok
  generalize sh.write _ = r at hok hres
  obtain ⟨sh₁, p | err | index⟩ := r
  · cases hok
  · cases err <;> cases hok
  obtain rfl := Except.ok.inj (Except.ok.inj hok)
  replace hres : (sh.inner.propose data).2 = .ok (.ok index) := hres.symm
  unfold LogicalNode.propose at hres
  split at hres
  · rename_i l hl
    unfold RaftNode.propose at hres
    cases hadd : checked_add "LogIndex" (sh.inner.node.transition l).last_log_index 1 with
    | error e =>
      rw [hadd] at hres
      cases hres
    | ok next =>
      rw [hadd] at hres
      obtain ⟨rfl, hle⟩ := checked_add_ok hadd
      obtain rfl := Except.ok.inj (Except.ok.inj hres)
      exact hle
  all_goals cases hres

/-- What a step of a host leaves on its disk, also between its writes. -/
theorem Performed.holds {p p' : Process α} {fsm : S} (h : Performed sm c n p act p' fsm)
    (hc : p.shell.inner.last_committed = p.shell.inner.node.disk.last_committed) :
    Since p.shell.inner.node.log_store (fun d => ∀ e, Holds d e → Source c p n (proposalOf act) e)
      p'.shell.inner.node.log_store := by
  have hquiet : ∀ {sh : ConsensusShell α}, Quiet p.shell.inner sh.inner →
      Since p.shell.inner.node.log_store (fun d => ∀ e, Holds d e → Source c p n (proposalOf act) e)
        sh.inner.node.log_store :=
    fun hq => (Since.start fun e he => .kept he).trans (Quiet.holds hq hc) fun d hd e he =>
      .kept (hd e he)
  cases h with
  | stepped hs => exact hquiet hs.quiet
  | proposed data hsh =>
    rw [hsh]
    rcases (propose_stepped p.shell data).1 with ⟨-, hq⟩ | ⟨⟨l, hlead⟩, hok, heq⟩
    · exact hquiet hq
    · have hle := propose_index_le hok
      rw [heq]
      refine (Since.start fun e he => .kept he).write fun e he => ?_
      rcases he.of_append with hold | hnew
      · exact .kept hold
      · obtain rfl := List.mem_singleton.mp hnew
        exact .proposed l rfl hlead hle
  | served hmsg hdst hserved hpub =>
    refine (Since.start fun e he => .kept he).trans (Served.holds hserved hc) fun d hd e he => ?_
    rcases hd e he with hold | ⟨dst, req, rfl, hnew⟩
    · exact .kept hold
    · exact .sent dst req rfl (List.mem_of_getElem? hmsg) hnew
  | applied happly =>
    cases happly with
    | start | fetch | finish | apply => exact .start fun e he => .kept he
    | @advance next_idx m sh happlied hadv hsh =>
      rw [hsh]
      change Since _ _ m.log_store
      rcases hadv.store with hsame | ⟨-, hwrite⟩
      · rw [hsame]
        exact .start fun e he => .kept he
      · rw [hwrite]
        exact (Since.start fun e he => .kept he).write fun e he => .kept (he.of_log rfl)
    | fatal hs hp => exact hquiet hs.quiet

/-! ## What a host sends -/

/-- A request shows entries of the log of its sender. -/
theorem prepare_replication_entries {ln : LogicalNode α} {peer : NodeId}
    {params : ReplicationRoundParams} {req : AppendEntriesRequest α}
    (h : (prepare_replication ln peer params).2 = .ok (some (.AppendEntries req))) :
    ∀ e ∈ req.entries, Holds ln.node.disk e := by
  rcases determine_replication_strategy_cases (prepare_replication_some h) with
    hno | ⟨req', hsame, -, hbuild⟩
  · cases hno
  obtain rfl := ReplicationStrategy.AppendEntries.inj hsame
  obtain ⟨b, entries, -, hread, rfl⟩ := build_append_entries_request_ok hbuild
  intro e he
  unfold SledStorage.read_entries at hread
  rw [if_neg (Nat.succ_ne_zero b)] at hread
  split at hread
  · rw [← Except.ok.inj hread] at he
    cases he
  · rw [← Except.ok.inj hread] at he
    unfold OrdMap.range OrdMap.values at he
    obtain ⟨⟨k, e'⟩, hk, rfl⟩ := List.mem_map.mp he
    exact ⟨k, (OrdMap.get?_eq_some_iff _ _ _).mpr (List.mem_filter.mp hk).1⟩

theorem runTask_entries [DecidableEq α] {sh sh' : ConsensusShell α} {peer : NodeId}
    {reply : Option (Message α)} {timeout : Nat} {task : SpawnedTask α}
    {tasks : List (SpawnedTask α)} {sends : List (Message α)}
    (hrun : runTask cfg n sh peer reply timeout task = some (sh', tasks, sends))
    {dst : NodeId} {req : AppendEntriesRequest α} (hm : .AppendEntries dst req ∈ sends) :
    ∀ e ∈ req.entries, Holds sh.inner.node.disk e := by
  cases task with
  | Replication params unsent awaiting =>
    simp only [runTask] at hrun
    split at hrun
    · have hres := sh.write_result fun ln => prepare_replication ln peer params
      generalize sh.write _ = w at hrun hres
      obtain ⟨sh₁, p | (none | strategy)⟩ := w
      · obtain ⟨-, -, rfl⟩ := by simpa using hrun
        cases hm
      · obtain ⟨-, -, rfl⟩ := by simpa using hrun
        cases hm
      · cases strategy with
        | InstallSnapshot i q => cases hrun
        | AppendEntries req' =>
          obtain ⟨-, -, rfl⟩ := by simpa using hrun
          obtain ⟨-, rfl⟩ := Message.AppendEntries.inj (List.mem_singleton.mp hm)
          exact prepare_replication_entries hres.symm
    · repeat' split at hrun
      all_goals cases hrun <;> cases hm
  | BecomeCandidate =>
    simp only [runTask] at hrun
    split at hrun <;> obtain ⟨-, -, rfl⟩ := by simpa using hrun
    · obtain ⟨q, -, hq⟩ := List.mem_map.mp hm
      cases hq
    · cases hm
  | PreVote req pending granted =>
    simp only [runTask] at hrun
    repeat' split at hrun
    all_goals cases hrun <;> cases hm
  | Election params pending granted =>
    simp only [runTask] at hrun
    repeat' split at hrun
    all_goals cases hrun <;> cases hm
  | StepDown | Tally | Promote | Fatal =>
    obtain ⟨-, -, rfl⟩ := by simpa [runTask] using hrun
    cases hm

/-- Nothing but a task of a round sends entries, and those of its node. -/
theorem perform_entries [DecidableEq α] {e : Effect α S} (he : perform cfg sm c act = some e)
    {p : Process α} (hp : c.process e.host = some p) {dst : NodeId} {req : AppendEntriesRequest α}
    (hm : .AppendEntries dst req ∈ e.sends) :
    ∀ x ∈ req.entries, Holds p.shell.inner.node.disk x := by
  obtain ⟨p', hp', hacted⟩ := perform_acted he
  obtain rfl := Option.some.inj (hp'.symm.trans hp)
  cases hacted with
  | ticked hres =>
    rename_i spawn
    cases spawn with
    | Campaign params =>
      obtain ⟨q, -, hq⟩ := List.mem_map.mp hm
      cases hq
    | PreVote params =>
      obtain ⟨q, -, hq⟩ := List.mem_map.mp hm
      cases hq
    | Nothing | StepDown | Round => cases hm
  | ran htask hrun => exact runTask_entries hrun hm
  | @delivered i timeout msg sh sends hmsg hserve =>
    have hsends := serve_sends hserve _ hm
    cases hsends with
    | append ht hcommit =>
      -- a request is answered, and an answer carries no entries
      cases msg with
      | PreVote | RequestVote | AppendEntries =>
        simp only [serve] at hserve
        split at hserve <;> obtain ⟨-, -, rfl⟩ := by simpa using hserve
        · cases List.mem_singleton.mp hm
        · cases hm
      | PreVoteReply | VoteReply | AppendReply => cases hserve
  | halted | proposed | probed | joined | applied => cases hm

/-! ## The record -/

/-- A host that goes down in a proposal may have written it. -/
def proposal : Action α → Option (NodeId × α)
  | .Act act => proposalOf act
  | .CrashIn act _ => proposalOf act
  | _ => none

structure Proposal (α : Type) where
  host : NodeId
  entry : LogEntry α
deriving DecidableEq

/-- The entry that a step has written for a proposal: it is on the disk of the host now. -/
def written [DecidableEq α] (c c' : Cluster α S) (act : Action α) : List (Proposal α) :=
  match proposal act with
  | none => []
  | some (n, data) =>
    match c.process n with
    | none => []
    | some p =>
      let entry := draft p.shell.inner data
      if (c'.hosts n).read_entry entry.index = some entry then [⟨n, entry⟩] else []

/-- The cluster, with the entries of all proposals so far. -/
def recordStep [DecidableEq α] (cfg : Config) (sm : StateMachine α S) :
    Cluster α S × List (Proposal α) → Action α → Option (Cluster α S × List (Proposal α))
  | (c, h), act => (step cfg sm c act).map fun c' => (c', h ++ written c c' act)

/-- The entry is one of the record. -/
def Known (h : List (Proposal α)) (e : LogEntry α) : Prop := ∃ w ∈ h, w.entry = e

/-- The leader of the term has the entry at its index. -/
structure Placed (a : Protocol α) (w : Proposal α) : Prop where
  index : 1 ≤ w.entry.index
  bound : w.entry.index ≤ u64Max
  leader : a.leader w.entry.term = some w.host
  glog : (a.glog w.entry.term)[w.entry.index - 1]? = some ⟨w.entry.term, w.entry.data⟩

theorem Placed.grow (hg : Grows a a') {w : Proposal α} (h : Placed a w) : Placed a' w where
  index := h.index
  bound := h.bound
  leader := hg.leader_keep _ _ h.leader
  glog := raft.prefix_get (hg.glog_grow _) h.glog

structure Recorded (a : Protocol α) (c : Cluster α S) (h : List (Proposal α)) : Prop where
  hosts : ∀ n e, Holds (c.hosts n).disk e → Known h e
  network : ∀ dst req, .AppendEntries dst req ∈ c.network → ∀ e ∈ req.entries, Known h e
  placed : ∀ w ∈ h, Placed a w
  distinct : (h.map fun w => (w.entry.term, w.entry.index)).Nodup

theorem Recorded.init : Recorded raft.State.init (Cluster.init sm : Cluster α S) [] where
  hosts n e he := by
    obtain ⟨i, hi⟩ := he
    cases hi
  network dst req hreq := by cases hreq
  placed w hw := by cases hw
  distinct := .nil

variable [DecidableEq α]

/-- Where an entry on the disk of a host can come from in a step of the cluster. -/
theorem step_holds (hr : Refines cfg c a) {act : Action α} (hs : step cfg sm c act = some c')
    {m : NodeId} {e : LogEntry α} (he : Holds (c'.hosts m).disk e) :
    Holds (c.hosts m).disk e ∨
      ∃ p, c.process m = some p ∧ Source c p m (proposal act) e := by
  have hother : ∀ {k : NodeId} {host : Host α S} {P : Prop},
      (k = m → Holds host.disk e → Holds (c.hosts m).disk e ∨ P) →
      Holds (if m = k then host else c.hosts m).disk e → Holds (c.hosts m).disk e ∨ P := by
    intro k host P hhost hin
    split at hin
    · rename_i heq
      exact hhost heq.symm hin
    · exact .inl hin
  have hsource : ∀ {act : Act α} {e : Effect α S} {d : SledStorage α},
      perform cfg sm c act = some e → d ∈ e.process.shell.inner.node.log_store.crash_points →
      ∀ x, Holds d x → ∃ p, c.process e.host = some p ∧ Source c p e.host (proposalOf act) x := by
    intro act e d he hd x hx
    obtain ⟨p, hp, hperf⟩ := perform_cases he
    have hnode := (hr.up hp).node
    have hsince := Performed.holds hperf (hnode.commit.trans hnode.disk.commit.symm)
    refine ⟨p, hp, ?_⟩
    rcases List.mem_cons.mp hd with rfl | hpast
    · exact hsince.now x hx
    · rcases hsince.past d hpast with hold | hnew
      · rw [Refines.settled hr hp] at hold
        cases hold
      · exact hnew x hx
  cases step_after hs with
  | @acted act eff hperf =>
    refine hother (fun heq hin => .inr ?_) he
    subst heq
    exact hsource hperf List.mem_cons_self e hin
  | @crashedIn act eff point disk hperf hdisk =>
    refine hother (fun heq hin => .inr ?_) he
    subst heq
    exact hsource hperf hdisk e hin
  | @crashed k p hp =>
    refine hother (fun heq hin => .inl ?_) he
    subst heq
    unfold Host.disk
    rw [process_up hp]
    exact hin
  | @stopped k timeout disk hdown =>
    refine hother (fun heq hin => .inl ?_) he
    subst heq
    unfold Host.disk
    rw [hdown]
    exact hin
  | @booted k timeout disk ln hdown hmem hnew =>
    refine hother (fun heq hin => .inl ?_) he
    subst heq
    unfold Host.disk
    rw [hdown]
    unfold LogicalNode.try_new at hnew
    split at hnew
    · cases hnew
    · obtain rfl := Except.ok.inj hnew
      exact hin

omit [DecidableEq α] in
theorem index_of_holds (hr : Refines cfg c a) {m : NodeId} {i : Nat} {e : LogEntry α}
    (he : (c.hosts m).read_entry i = some e) :
    ∃ k, i = k + 1 ∧ e.index = k + 1 ∧ (a.log m)[k]? = some ⟨e.term, e.data⟩ := by
  rw [hr.read_entry] at he
  cases i with
  | zero => cases he
  | succ k =>
    rw [entryAt_succ] at he
    obtain ⟨x, hx, rfl⟩ := Option.map_eq_some_iff.mp he
    exact ⟨k, rfl, rfl, hx⟩

/-- What a step has written, it has written for a leader, in the place after its last entry. -/
theorem written_cases (hr : Refines cfg c a) {act : Action α}
    (hs : step cfg sm c act = some c') :
    written c c' act = [] ∨
    ∃ n p data l, proposal act = some (n, data) ∧ c.process n = some p ∧
      p.shell.inner.node.state = .Leader l ∧ p.shell.inner.last_log_index + 1 ≤ u64Max ∧
      (c'.hosts n).read_entry (p.shell.inner.last_log_index + 1) =
        some (draft p.shell.inner data) ∧
      written c c' act = [⟨n, draft p.shell.inner data⟩] := by
  unfold written
  cases hprop : proposal act with
  | none => exact .inl rfl
  | some np =>
    obtain ⟨n, data⟩ := np
    dsimp only
    cases hp : c.process n with
    | none => exact .inl rfl
    | some p =>
      dsimp only
      split
      swap
      · exact .inl rfl
      rename_i hread
      -- the place after the last entry was free
      have hfree : ¬Holds p.shell.inner.node.disk (draft p.shell.inner data) := by
        rintro ⟨i, hi⟩
        have hlast := (hr.up hp).node.disk.log.last_log_index
        have hread' : (c.hosts n).read_entry i = some (draft p.shell.inner data) := by
          unfold Host.read_entry Host.disk
          rw [process_up hp]
          exact hi
        obtain ⟨k, -, hk, hget⟩ := index_of_holds hr hread'
        have hlt := (List.getElem?_eq_some_iff.mp hget).1
        have hidx : p.shell.inner.node.disk.last_log_index + 1 = k + 1 := hk
        omega
      have hdisk : (c.hosts n).disk = p.shell.inner.node.disk := by
        unfold Host.disk
        rw [process_up hp]
      rcases step_holds hr hs (m := n) ⟨_, hread⟩ with hold | ⟨q, hq, hsource⟩
      · rw [hdisk] at hold
        exact absurd hold hfree
      obtain rfl := Option.some.inj (hq.symm.trans hp)
      generalize hd : draft q.shell.inner data = e at hsource
      cases hsource with
      | kept hkept => exact absurd (hd ▸ hkept) hfree
      | sent dst req hno => exact absurd (hno.symm.trans hprop) (by simp)
      | proposed l hprop' hlead hle =>
        obtain ⟨-, rfl⟩ := Prod.mk.inj (Option.some.inj (hprop.symm.trans hprop'))
        exact .inr ⟨n, q, data, l, rfl, hp, hlead, hle, hread, rfl⟩

theorem Recorded.step {h : List (Proposal α)} (hrec : Recorded a c h) (hr : Refines cfg c a)
    (hr' : Refines cfg c' a') (hg : Grows a a') {act : Action α}
    (hs : step cfg sm c act = some c') : Recorded a' c' (h ++ written c c' act) := by
  have hgrow : ∀ {e : LogEntry α}, Known h e → Known (h ++ written c c' act) e := by
    rintro e ⟨w, hw, rfl⟩
    exact ⟨w, List.mem_append_left _ hw, rfl⟩
  have hwritten := written_cases hr hs
  refine ⟨?_, ?_, ?_, ?_⟩
  · intro m e he
    rcases step_holds hr hs he with hold | ⟨p, hp, hsource⟩
    · exact hgrow (hrec.hosts m e hold)
    cases hsource with
    | kept hkept =>
      refine hgrow (hrec.hosts m e ?_)
      unfold Host.disk
      rw [process_up hp]
      exact hkept
    | sent dst req hno hreq hin => exact hgrow (hrec.network dst req hreq e hin)
    | @proposed data l hprop hlead hle =>
      -- an entry is found at its index only, so the proposal is on record
      refine ⟨⟨m, draft p.shell.inner data⟩, List.mem_append_right _ ?_, rfl⟩
      obtain ⟨i, hi⟩ := he
      obtain ⟨k, rfl, hk, -⟩ := index_of_holds hr' hi
      rw [← hk] at hi
      change (c'.hosts m).read_entry _ = _ at hi
      unfold written
      rw [hprop]
      dsimp only
      rw [hp]
      dsimp only
      rw [if_pos hi]
      exact List.mem_singleton_self _
  · intro dst req hreq e he
    cases step_after hs with
    | @acted act eff hperf =>
      rcases List.mem_append.mp hreq with hold | hnew
      · exact hgrow (hrec.network dst req hold e he)
      · obtain ⟨p, hp, -⟩ := perform_acted hperf
        refine hgrow (hrec.hosts eff.host e ?_)
        unfold Host.disk
        rw [process_up hp]
        exact perform_entries hperf hp hnew e he
    | crashedIn hperf hdisk => exact hgrow (hrec.network dst req hreq e he)
    | crashed hp => exact hgrow (hrec.network dst req hreq e he)
    | stopped hdown => exact hgrow (hrec.network dst req hreq e he)
    | booted hdown hmem hnew => exact hgrow (hrec.network dst req hreq e he)
  · intro w hw
    rcases List.mem_append.mp hw with hold | hnew
    · exact (hrec.placed w hold).grow hg
    rcases hwritten with hnil | ⟨n, p, data, l, hprop, hp, hlead, hle, hread, heq⟩
    · rw [hnil] at hnew
      cases hnew
    rw [heq] at hnew
    obtain rfl := List.mem_singleton.mp hnew
    have hnode := (hr.up hp).node
    have hrole : a.role n = .leader := LeaderRel.role (hnode.role_of hlead)
    obtain ⟨hleader, -⟩ := hr.safe.election.role_leader n hrole
    have hterm : p.shell.inner.current_term = a.term n := hnode.disk.term
    obtain ⟨k, hk, -, hget⟩ := index_of_holds hr' hread
    obtain rfl : p.shell.inner.last_log_index = k := by omega
    refine ⟨Nat.succ_pos _, hle, ?_, ?_⟩
    · change a'.leader p.shell.inner.current_term = some n
      rw [hterm]
      exact hg.leader_keep _ n hleader
    · have hpre := hr'.safe.matching.log_traced n _ _ hget
      refine raft.prefix_get hpre ?_
      change ((a'.log n).take (p.shell.inner.last_log_index + 1))[p.shell.inner.last_log_index]? = _
      rw [List.getElem?_take_of_lt (Nat.lt_succ_self _)]
      exact hget
  · rcases hwritten with hnil | ⟨n, p, data, l, hprop, hp, hlead, hle, hread, heq⟩
    · rw [hnil, List.append_nil]
      exact hrec.distinct
    rw [heq, List.map_append]
    refine List.nodup_append.mpr ⟨hrec.distinct, List.nodup_singleton _, ?_⟩
    rintro x hx y hy rfl
    obtain ⟨w, hw, hsame⟩ := List.mem_map.mp hx
    obtain rfl := List.mem_singleton.mp hy
    obtain ⟨hterm, hindex⟩ := Prod.mk.inj hsame
    have hnode := (hr.up hp).node
    have hrole : a.role n = .leader := LeaderRel.role (hnode.role_of hlead)
    have hplaced := hrec.placed w hw
    have hlt := raft.own_entry_lt hr.safe.election hr.safe.matching hrole hplaced.glog
      (hterm.trans hnode.disk.term)
    have hlast : p.shell.inner.last_log_index = (a.log n).length := hnode.disk.log.last_log_index
    have hidx : w.entry.index = p.shell.inner.last_log_index + 1 := hindex
    omega

/-- Every run has a record, and the record keeps up with it. -/
theorem run_recorded {h h' : List (Proposal α)}
    {P : Cluster α S × List (Proposal α) → Action α → Prop}
    (hrun : Run (recordStep cfg sm) P (c, h) (c', h')) (hr : Refines cfg c a)
    (hrec : Recorded a c h) : ∃ a', Grows a a' ∧ Refines cfg c' a' ∧ Recorded a' c' h' := by
  have hstep : ∀ s act s' (t : Protocol α), Refines cfg s.1 t ∧ Recorded t s.1 s.2 → P s act →
      recordStep cfg sm s act = some s' →
      ∃ t', Grows t t' ∧ Refines cfg s'.1 t' ∧ Recorded t' s'.1 s'.2 := by
    rintro ⟨c, h⟩ act s' t ⟨hr, hrec⟩ - hs
    obtain ⟨c', hstep, rfl⟩ := Option.map_eq_some_iff.mp hs
    obtain ⟨t', hg, hr'⟩ := step_refines hr hstep
    exact ⟨t', hg, hr', hrec.step hr hr' hg hstep⟩
  exact hrun.simulates (R := fun s t => Refines cfg s.1 t ∧ Recorded t s.1 s.2) .refl .trans hstep
    ⟨hr, hrec⟩

/-- A host never stands in the way of its record. -/
theorem Reachable.recorded (hc : Reachable cfg sm c) :
    ∃ h, Run (recordStep cfg sm) (fun _ _ => True) (Cluster.init sm, []) (c, h) := by
  induction hc with
  | refl => exact ⟨[], .refl _⟩
  | @tail c₁ c₂ act _ _ hs ih =>
    obtain ⟨h, hh⟩ := ih
    refine ⟨h ++ written c₁ c₂ act, hh.tail (a := act) trivial ?_⟩
    unfold recordStep
    dsimp only
    rw [hs]
    rfl

/-- Every entry of every log was written for one proposal, and no two proposals are written
with one term and index; the proposals of a term are all of one host. -/
theorem entries_proposed_once {h : List (Proposal α)}
    (hrun : Run (recordStep cfg sm) (fun _ _ => True) (Cluster.init sm, []) (c, h)) :
    (∀ n i e, (c.hosts n).read_entry i = some e →
      ∃ w ∈ h, w.entry = e ∧ ∀ w' ∈ h, w'.entry.term = e.term → w'.entry.index = i → w' = w) ∧
    (h.map fun w => (w.entry.term, w.entry.index)).Nodup ∧
    (∀ w ∈ h, ∀ w' ∈ h, w.entry.term = w'.entry.term → w.host = w'.host) ∧
    ∀ w ∈ h, 1 ≤ w.entry.index ∧ w.entry.index ≤ u64Max := by
  obtain ⟨a, -, hr, hrec⟩ := run_recorded hrun (.init cfg sm) .init
  refine ⟨fun n i e he => ?_, hrec.distinct, fun w hw w' hw' hterm => ?_,
    fun w hw => ⟨(hrec.placed w hw).index, (hrec.placed w hw).bound⟩⟩
  · obtain ⟨w, hw, rfl⟩ := hrec.hosts n e ⟨i, he⟩
    refine ⟨w, hw, rfl, fun w' hw' hterm hindex => ?_⟩
    obtain ⟨k, rfl, hk, -⟩ := index_of_holds hr he
    exact List.inj_on_of_nodup_map hrec.distinct hw' hw
      (Prod.ext hterm (hindex.trans hk.symm))
  · have hlead := (hrec.placed w hw).leader
    rw [hterm, (hrec.placed w' hw').leader] at hlead
    exact (Option.some.inj hlead).symm

/-- The run of the three nodes with its record. -/
def recorded (acts : List (Action Nat)) : Cluster Nat (Nat × List Nat) × List (Proposal Nat) :=
  (exec (recordStep threeNodes notebook) (Cluster.init notebook, []) acts).getD
    (Cluster.init notebook, [])

/-- Node 2 leads term 2 while node 1 still leads term 1; both propose their second entry. -/
def proposeByBoth : List (Action Nat) :=
  commitByFirst ++ electSecond ++ [.Act (.Propose 1 78), .Act (.Propose 2 88)]

/-- The two second entries come of two proposals, one of each leader. -/
theorem entries_proposed_once_three :
    (recorded proposeByBoth).2 = [⟨1, 1, 1, 77⟩, ⟨1, 2, 1, 78⟩, ⟨2, 2, 2, 88⟩] ∧
      (∃ w ∈ (recorded proposeByBoth).2, w.entry = ⟨2, 1, 78⟩ ∧
        ∀ w' ∈ (recorded proposeByBoth).2, w'.entry.term = 1 → w'.entry.index = 2 → w' = w) ∧
      ∃ w ∈ (recorded proposeByBoth).2, w.entry = ⟨2, 2, 88⟩ ∧
        ∀ w' ∈ (recorded proposeByBoth).2, w'.entry.term = 2 → w'.entry.index = 2 → w' = w := by
  have hrun : Run (recordStep threeNodes notebook) (fun _ _ => True) (Cluster.init notebook, [])
      ((recorded proposeByBoth).1, (recorded proposeByBoth).2) :=
    run_of_exec proposeByBoth (fun _ _ _ => trivial) rfl
  exact ⟨rfl, (entries_proposed_once hrun).1 1 2 ⟨2, 1, 78⟩ rfl,
    (entries_proposed_once hrun).1 2 2 ⟨2, 2, 88⟩ rfl⟩

end raft_engine.proposals
