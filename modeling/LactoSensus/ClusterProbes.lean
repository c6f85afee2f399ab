-- Read probes in the cluster. A call of one of its nodes waits for answers; each
-- answer that was ever given has a place in the network, so an answer was given
-- after a call began when its place comes later. What is sound of a probe among
-- stations is sound here, over crashes and restarts as well.
import LactoSensus.Probes
import LactoSensus.Rounds

open common.types
open raft_engine.storage
open raft_engine.node
open raft_engine.engine
open raft_engine.consensus
open raft_engine.shell
open raft_engine.cluster
open raft_engine.roles
open raft_engine.refinement
open raft_engine.fleet
open raft_engine.origins

namespace raft_engine.cluster_probes

variable {α S : Type}

/-! ## The nodes and the answers of a cluster -/

/-- A node that has just started from a disk. -/
def resting (n : NodeId) (disk : SledStorage α) : LogicalNode α :=
  let nd := RaftNode.try_new_with_applied n disk 0 0 0
  ⟨nd.transition (.Follower nd.state), 0, 0⟩

/-- The node of a host; one that is down rests on its disk. -/
def nodeOf (c : Cluster α S) (n : NodeId) : LogicalNode α :=
  match (c.hosts n).state with
  | .Up p => p.shell.inner
  | .Down disk => resting n disk

/-- A place in the network that holds no answer stands for a request that nobody answers. -/
def requestOf : Message α → Sent α
  | .AppendReply src req _ => ⟨req.leader_id, req.term, src, .AppendEntries req⟩
  | _ => ⟨0, 0, 0, .AppendEntries ⟨0, 0, 0, 0, [], 0⟩⟩

def answerAt (network : List (Message α)) (i : Nat) : Option Answer :=
  match network[i]? with
  | some (.AppendReply _ _ resp) => some ⟨i, .Append resp⟩
  | _ => none

/-- The answers in the network, each with its place there, and the calls that wait. -/
def recordOf (network : List (Message α)) (calls : List ReadCall) : fleet.Record α :=
  ⟨network.map requestOf, (List.range network.length).filterMap (answerAt network), calls⟩

theorem mem_answers {network : List (Message α)} {calls : List ReadCall} {a : Answer} :
    a ∈ (recordOf network calls).answers ↔
      ∃ src req resp, network[a.request]? = some (.AppendReply src req resp) ∧
        a.reply = .Append resp := by
  constructor
  · intro ha
    obtain ⟨i, -, hi⟩ := List.mem_filterMap.mp ha
    unfold answerAt at hi
    split at hi
    · rename_i src req resp hget
      obtain rfl := Option.some.inj hi
      exact ⟨src, req, resp, hget, rfl⟩
    · cases hi
  · rintro ⟨src, req, resp, hget, hreply⟩
    refine List.mem_filterMap.mpr ⟨a.request, ?_, ?_⟩
    · exact List.mem_range.mpr (List.getElem?_eq_some_iff.mp hget).1
    · obtain ⟨request, reply⟩ := a
      obtain rfl : reply = .Append resp := hreply
      unfold answerAt
      rw [hget]

theorem sent_at {network : List (Message α)} {calls : List ReadCall} {i : Nat} {msg : Message α}
    (h : network[i]? = some msg) :
    (recordOf network calls).sent[i]? = some (requestOf msg) := by
  unfold recordOf
  dsimp only
  rw [List.getElem?_map, h]
  rfl

theorem record_extends (network sends : List (Message α)) (calls calls' : List ReadCall) :
    Extends (recordOf network calls) (recordOf (network ++ sends) calls') := by
  have happ : ∀ {i : Nat} {msg : Message α}, network[i]? = some msg →
      (network ++ sends)[i]? = some msg := fun hi =>
    (List.getElem?_append_left (List.getElem?_eq_some_iff.mp hi).1).trans hi
  refine ⟨fun i req hi => ?_, fun a ha => ?_⟩
  · unfold recordOf at hi
    dsimp only at hi
    rw [List.getElem?_map] at hi
    obtain ⟨msg, hmsg, rfl⟩ := Option.map_eq_some_iff.mp hi
    exact sent_at (happ hmsg)
  · obtain ⟨src, req, resp, hget, hreply⟩ := mem_answers.mp ha
    exact mem_answers.mpr ⟨src, req, resp, happ hget, hreply⟩

theorem nodeOf_up {c : Cluster α S} {n : NodeId} {p : Process α} (hp : c.process n = some p) :
    nodeOf c n = p.shell.inner := by
  unfold nodeOf
  rw [process_up hp]

theorem nodeOf_term (c : Cluster α S) (n : NodeId) :
    (nodeOf c n).current_term = (c.hosts n).current_term := by
  unfold nodeOf Host.current_term Host.disk
  cases (c.hosts n).state <;> rfl

/-- One host has another state. -/
theorem nodeOf_setHost (c : Cluster α S) (n : NodeId) (h : Host α S)
    (network : List (Message α)) :
    nodeOf { c.setHost n h with network := network } =
      Function.update (nodeOf c) n (nodeOf (⟨fun _ => h, network⟩ : Cluster α S) n) := by
  funext m
  unfold nodeOf Cluster.setHost
  by_cases hm : m = n
  · subst hm
    simp
  · simp [hm]

/-! ## What a step makes of a role -/

variable {cfg : Config} {sm : StateMachine α S} {c c' : Cluster α S} {a a' : Protocol α}
  {n peer : NodeId} {sh sh' : ConsensusShell α} {reply : Option (Message α)} {timeout : Nat}
  {task : SpawnedTask α} {tasks : List (SpawnedTask α)} {sends : List (Message α)}
  {network : List (Message α)} {calls : List ReadCall}

/-- The leader of the term has counted the answer of the peer to a request of its own. -/
inductive Heard (n peer : NodeId) (reply : Option (Message α)) (sh : ConsensusShell α)
    (task : SpawnedTask α) (sh' : ConsensusShell α) : Prop where
  | counted {params : ReplicationRoundParams} {unsent : List NodeId}
      {awaiting : List (NodeId × AppendEntriesRequest α)} {req : AppendEntriesRequest α}
      {resp : AppendEntriesResponse} {l : Leader}
      (htask : task = .Replication params unsent awaiting) (hsent : peer ∉ unsent)
      (hreply : reply = some (.AppendReply peer req resp)) (hown : req.leader_id = n)
      (hterm : req.term = params.term) (hl : sh.inner.node.state = .Leader l)
      (hcurrent : sh.inner.current_term = params.term) (hwithin : resp.term ≤ params.term)
      (hheld : Held (acknowledged sh.inner l peer) sh'.inner)

theorem runTask_responded [DecidableEq α] {params : ReplicationRoundParams}
    {unsent : List NodeId} {awaiting : List (NodeId × AppendEntriesRequest α)} {src : NodeId}
    {req : AppendEntriesRequest α} {resp : AppendEntriesResponse}
    (hrun : runTask cfg n sh peer (some (.AppendReply src req resp)) timeout
      (.Replication params unsent awaiting) = some (sh', tasks, sends)) (hsent : peer ∉ unsent) :
    src = peer ∧ (peer, req) ∈ awaiting := by
  simp only [runTask] at hrun
  rw [if_neg hsent] at hrun
  split at hrun
  · cases hrun
  rename_i call hfind
  split at hrun
  · rename_i hfits
    obtain ⟨rfl, rfl⟩ := hfits
    have hpeer : call.1 = src := by simpa using List.find?_some hfind
    refine ⟨rfl, ?_⟩
    rw [← hpeer]
    exact List.mem_of_find?_eq_some hfind
  · cases hrun

theorem runTask_prepared [DecidableEq α] {params : ReplicationRoundParams}
    {unsent : List NodeId} {awaiting : List (NodeId × AppendEntriesRequest α)}
    (hrun : runTask cfg n sh peer reply timeout (.Replication params unsent awaiting) =
      some (sh', tasks, sends)) (hsent : peer ∈ unsent) :
    sh' = (sh.write fun ln => prepare_replication ln peer params).1 := by
  simp only [runTask] at hrun
  rw [if_pos hsent] at hrun
  generalize sh.write _ = w at hrun ⊢
  obtain ⟨sh₁, p | (none | strategy)⟩ := w
  · exact (congrArg Prod.fst (Option.some.inj hrun)).symm
  · exact (congrArg Prod.fst (Option.some.inj hrun)).symm
  · cases strategy with
    | AppendEntries req => exact (congrArg Prod.fst (Option.some.inj hrun)).symm
    | InstallSnapshot i q => cases hrun

theorem runTask_turned [DecidableEq α] (hrel : TaskRel cfg a n task)
    (hrun : runTask cfg n sh peer reply timeout task = some (sh', tasks, sends)) :
    Turn (cfg.peer_ids n) sh.inner sh'.inner ∨ Heard n peer reply sh task sh' := by
  have hstep := (runTask_ran hrun).step
  by_cases happend : ∃ src req resp, reply = some (.AppendReply src req resp)
  swap
  · exact .inl (hstep.turned fun src req resp heq => happend ⟨src, req, resp, heq⟩).turn
  -- with no answer at all the task would have done the same, unless it counts this one
  have hsilent : ∀ {task : SpawnedTask α} {sh' : ConsensusShell α},
      TaskStep cfg n peer none timeout sh task sh' → Turn (cfg.peer_ids n) sh.inner sh'.inner :=
    fun h => (h.turned fun _ _ _ heq => by cases heq).turn
  obtain ⟨src, req, resp, rfl⟩ := happend
  cases hstep with
  | idle task => exact .inl (hsilent (.idle task))
  | steppedDown => exact .inl (hsilent .steppedDown)
  | observed req' pending granted resp' hreply hgt => cases hreply
  | stood => exact .inl (hsilent .stood)
  | counted params pending granted resp' hreply => cases hreply
  | promoted => exact .inl (hsilent .promoted)
  | prepared params unsent awaiting => exact .inl (hsilent (.prepared params unsent awaiting))
  | failed err => exact .inl (hsilent (.failed err))
  | responded params unsent awaiting req' resp' hreply =>
    cases hreply
    by_cases hsent : peer ∈ unsent
    · refine .inl ?_
      rw [runTask_prepared hrun hsent]
      exact hsilent (.prepared params unsent awaiting)
    obtain ⟨-, hcall⟩ := runTask_responded hrun hsent
    obtain ⟨-, hterm, hown⟩ := hrel.2.2 _ hcall
    by_cases hcounts : Counts sh.inner params.term
      (.AppendEntries req.prev_log_index req.entries.length resp)
    swap
    · refine .inl ?_
      rw [ConsensusShell.write_inner]
      exact (Turn.held (process_replication_response_uncounted hcounts).toHeld).afterHandler
    obtain ⟨hwithin, hrole, hcurrent⟩ := hcounts
    cases hl : sh.inner.node.state with
    | Leader l =>
      refine .inr (.counted rfl hsent rfl hown hterm hl hcurrent hwithin ?_)
      rw [ConsensusShell.write_inner]
      exact (process_replication_response_counted hl hwithin hcurrent).toHeld.afterHandler
    | _ => simp [LogicalNode.node_role, hl, RoleState.node_role] at hrole

/-- What the step makes of the role of its host: only an answer that counts, and a probe, are
more than a turn. -/
theorem perform_turned [DecidableEq α] (hr : Refines cfg c a) {act : Act α} {e : Effect α S}
    (he : perform cfg sm c act = some e) (hprobe : ∀ n, act ≠ .Probe n) :
    ∃ p, c.process e.host = some p ∧
      (Turn (cfg.peer_ids e.host) p.shell.inner e.process.shell.inner ∨
        ∃ k peer i timeout task, act = .RunTask e.host k peer (some i) timeout ∧
          p.tasks[k]? = some task ∧
          Heard e.host peer c.network[i]? p.shell task e.process.shell) := by
  obtain ⟨p, hp, hacted⟩ := perform_acted he
  refine ⟨p, hp, ?_⟩
  have htick : ∀ n timeout, Turn (cfg.peer_ids n) p.shell.inner
      (p.shell.write fun ln => tickLocked ln timeout).1.inner := by
    intro n timeout
    rw [ConsensusShell.write_inner]
    exact (tickLocked_turn _ timeout).afterHandler
  cases hacted with
  | halted hres => exact .inl (htick _ _)
  | ticked hres => exact .inl (htick _ _)
  | @ran n peer k timeout reply task sh tasks sends htask hrun =>
    have hrel := (hr.up hp).tasks task (List.mem_of_getElem? htask)
    rcases runTask_turned hrel hrun with hturn | hheard
    · exact .inl hturn
    · cases reply with
      | none =>
        cases hheard with
        | counted htask hsent hreply => cases hreply
      | some i => exact .inr ⟨k, peer, i, timeout, task, rfl, htask, hheard⟩
  | delivered hmsg hserve => exact .inl (serve_step hserve).turned.turn
  | proposed n data =>
    refine .inl ?_
    dsimp only
    rw [p.shell.propose_shell, ConsensusShell.write_inner]
    exact (Turn.held (propose_steady _ data).toHeld).afterHandler
  | probed => exact absurd rfl (hprobe _)
  | joined n => exact absurd rfl (hprobe n)
  | applied hrun => exact .inl (runApplier_turned hrun).turn

theorem Turn.settle {peers : List NodeId} {ln ln' : LogicalNode α} (h : Turn peers ln ln') :
    Turn peers ln ln'.settle := by
  cases h with
  | held h => exact .held (h.trans (.onto rfl rfl rfl))
  | stood hid hlt hrole => exact .stood hid hlt hrole
  | elected hid hterm hrole hst hnew => exact .elected hid hterm hrole hst hnew

/-! ## The account of the calls -/

/-- While a call waits, no answer counts for it but one that was given after it had begun. -/
def Timely (c : Cluster α S) (calls : List ReadCall) : Act α → Prop
  | .RunTask n k peer (some i) _ =>
    ∀ p l params unsent awaiting req resp, c.process n = some p →
      p.shell.inner.node.state = .Leader l →
      p.tasks[k]? = some (.Replication params unsent awaiting) → peer ∉ unsent →
      params.term = p.shell.inner.current_term →
      c.network[i]? = some (.AppendReply peer req resp) → resp.term ≤ params.term →
      ∀ w ∈ calls, w.node = n → w.probe.term = params.term →
        l.confirmed_read_epoch < w.probe.target_epoch → w.before ≤ i
  | _ => True

/-- The calls of the cluster are accounted for. -/
def Accounted (cfg : Config) (c : Cluster α S) (calls : List ReadCall) : Prop :=
  Sound cfg (nodeOf c) (recordOf c.network calls)

/-- More answers are in the network, and fewer calls wait. -/
theorem Accounted.extend [DecidableEq α] (h : Accounted cfg c calls) (hr : Refines cfg c a)
    {act : Act α} {e : Effect α S} (he : perform cfg sm c act = some e) :
    Sound cfg (nodeOf c) (recordOf (c.network ++ e.sends) calls) := by
  refine Sound.extend h (record_extends _ _ _ _) (fun w hw => hw) fun ans hans hnew => ?_
  obtain ⟨src, req, resp, hget, hreply⟩ := mem_answers.mp hans
  -- the answer is one that was sent in this step
  have hge : c.network.length ≤ ans.request := by
    by_contra hlt
    rw [List.getElem?_append_left (not_le.mp hlt)] at hget
    exact hnew (mem_answers.mpr ⟨src, req, resp, hget, hreply⟩)
  rw [List.getElem?_append_right hge] at hget
  obtain ⟨p, hp, hsends⟩ := perform_sends he
  cases hsends _ (List.mem_of_getElem? hget) with
  | reply _ hterm =>
    refine ⟨requestOf (.AppendReply e.host req resp), sent_at ?_, (hr.up hp).member,
      fun w hw _ => ?_⟩
    · rw [List.getElem?_append_right hge]
      exact hget
    · have hpast := (Sound.calls h w hw).past e.host
      rw [nodeOf_up hp] at hpast
      rw [hreply]
      exact hpast.trans hterm

theorem nodeOf_acted (c : Cluster α S) (e : Effect α S) (network : List (Message α)) :
    nodeOf { c.setHost e.host ⟨e.fsm, .Up e.process.settle⟩ with network := network } =
      Function.update (nodeOf c) e.host e.process.shell.inner.settle := by
  rw [nodeOf_setHost]
  rfl

theorem Accounted.act [DecidableEq α] (h : Accounted cfg c calls) (hr : Refines cfg c a)
    {act : Act α} {e : Effect α S} (he : perform cfg sm c act = some e)
    (hprobe : ∀ n, act ≠ .Probe n) (ht : Timely c calls act) :
    Accounted cfg { c.setHost e.host ⟨e.fsm, .Up e.process.settle⟩ with
      network := c.network ++ e.sends } calls := by
  have hext := h.extend hr he
  unfold Accounted
  rw [nodeOf_acted]
  obtain ⟨p, hp, hcases⟩ := perform_turned hr he hprobe
  have hmem := (hr.up hp).member
  have hnode := nodeOf_up hp
  rcases hcases with hturn | ⟨k, peer, i, timeout, task, rfl, htask, hheard⟩
  · rw [← hnode] at hturn
    exact hext.turn hmem (Turn.settle hturn)
  · cases hheard with
    | @counted params unsent awaiting req resp l htsk hsent hreply hown hterm hl hcurrent hwithin
        hheld =>
      subst htsk
      have hanswer : ({ request := i, reply := .Append resp } : Answer) ∈
          (recordOf (c.network ++ e.sends) calls).answers :=
        (record_extends _ _ calls calls).answers _ (mem_answers.mpr ⟨peer, req, resp, hreply, rfl⟩)
      have hasked := (record_extends c.network e.sends calls calls).sent _ _ (sent_at hreply)
      have hcurrent' : (nodeOf c e.host).current_term = params.term := by
        rw [hnode]
        exact hcurrent
      have hrequest : requestOf (.AppendReply peer req resp) =
          ⟨e.host, (nodeOf c e.host).current_term, peer, .AppendEntries req⟩ := by
        rw [hcurrent', ← hterm, ← hown]
        rfl
      rw [hrequest] at hasked
      have hl' : (nodeOf c e.host).node.state = .Leader l := by
        rw [hnode]
        exact hl
      have hsound := Sound.counted hext hmem hl' hanswer hasked (hcurrent' ▸ hwithin)
        fun w hw hwn hwt hlt => ht p l params unsent awaiting req resp hp hl htask hsent
          hcurrent.symm hreply hwithin w hw hwn (hwt.trans hcurrent') hlt
      have hturn : Turn (cfg.peer_ids e.host)
          (Function.update (nodeOf c) e.host (acknowledged (nodeOf c e.host) l peer) e.host)
          e.process.shell.inner.settle := by
        rw [Function.update_self, hnode]
        exact Turn.settle (.held hheld)
      have hturned := hsound.turn hmem hturn
      rw [Function.update_idem] at hturned
      exact hturned

theorem Accounted.fewer (h : Accounted cfg c calls) {calls' : List ReadCall}
    (hsub : ∀ w ∈ calls', w ∈ calls) : Accounted cfg c calls' := by
  have hext := record_extends c.network [] calls calls'
  rw [List.append_nil] at hext
  refine Sound.extend h hext hsub fun a ha hnew => absurd ?_ hnew
  exact mem_answers.mpr (mem_answers.mp ha)

/-- A host that stops, or starts again. -/
theorem Accounted.rests (h : Accounted cfg c calls) (hmem : n ∈ cfg.members)
    (ln : LogicalNode α) (hid : ln.node_id = n)
    (hterm : (c.hosts n).current_term ≤ ln.current_term) (hidle : Idles ln)
    (hnodes : nodeOf c' = Function.update (nodeOf c) n ln) (hnetwork : c'.network = c.network) :
    Accounted cfg c' calls := by
  unfold Accounted
  rw [hnodes, hnetwork]
  rw [← nodeOf_term] at hterm
  exact Sound.turn h hmem (.held (.out (hid.trans (Sound.node_id h n hmem).symm) hterm hidle))

theorem resting_idles (n : NodeId) (disk : SledStorage α) : Idles (resting n disk) :=
  idles_follower rfl

theorem booted_idles {applied heartbeat_interval timeout : Nat} {disk : SledStorage α}
    {ln : LogicalNode α}
    (hnew : LogicalNode.try_new n applied disk heartbeat_interval timeout = .ok ln) :
    ln.node_id = n ∧ ln.current_term = disk.current_term ∧ Idles ln := by
  unfold LogicalNode.try_new at hnew
  split at hnew
  · cases hnew
  · obtain rfl := Except.ok.inj hnew
    exact ⟨rfl, rfl, idles_follower rfl⟩

/-- Any step but a probe, with timely answers. -/
theorem Accounted.step [DecidableEq α] (h : Accounted cfg c calls) (hr : Refines cfg c a)
    (hr' : Refines cfg c' a') (hg : raft.Grows a a') {act : Action α}
    (hs : step cfg sm c act = some c') (hprobe : ∀ n, act ≠ .Act (.Probe n))
    (ht : ∀ b, act = .Act b → Timely c calls b) : Accounted cfg c' calls := by
  have hterm : ∀ m, (c.hosts m).current_term ≤ (c'.hosts m).current_term := by
    intro m
    rw [hr.current_term, hr'.current_term]
    exact hg.term_le m
  cases step_after hs with
  | @acted b e he => exact h.act hr he (fun n hb => hprobe n (congrArg _ hb)) (ht b rfl)
  | @crashedIn b e point disk he hdisk =>
    obtain ⟨p, hp, -⟩ := perform_sends he
    have hafter := hterm e.host
    rw [show (c.setHost e.host ⟨(c.hosts e.host).fsm, .Down disk⟩).hosts e.host =
      ⟨(c.hosts e.host).fsm, .Down disk⟩ from if_pos rfl] at hafter
    exact h.rests (hr.up hp).member (resting e.host disk) rfl hafter (resting_idles _ _)
      (nodeOf_setHost c e.host _ c.network) rfl
  | @crashed m p hp =>
    have hafter := hterm m
    rw [show (c.setHost m ⟨(c.hosts m).fsm, .Down p.shell.inner.node.disk⟩).hosts m =
      ⟨(c.hosts m).fsm, .Down p.shell.inner.node.disk⟩ from if_pos rfl] at hafter
    exact h.rests (hr.up hp).member (resting m p.shell.inner.node.disk) rfl hafter
      (resting_idles _ _) (nodeOf_setHost c m _ c.network) rfl
  | @stopped m timeout disk hdown =>
    have hnodes : nodeOf (c.setHost m ⟨(recover sm disk (c.hosts m).fsm).1, .Down disk⟩) =
        nodeOf c := by
      refine (nodeOf_setHost c m _ c.network).trans ?_
      rw [show nodeOf (⟨fun _ => ⟨_, .Down disk⟩, c.network⟩ : Cluster α S) m = nodeOf c m by
        unfold nodeOf
        rw [hdown], Function.update_eq_self]
    unfold Accounted
    rw [hnodes]
    exact h
  | @booted m timeout disk ln hdown hmem hnew =>
    obtain ⟨hid, hsame, hidle⟩ := booted_idles hnew
    refine h.rests hmem ln hid ?_ hidle (nodeOf_setHost c m _ c.network) rfl
    rw [hsame]
    unfold Host.current_term Host.disk
    rw [hdown]

/-! ## Calls -/

/-- A call of the node joins no epoch that has been answered already. -/
def JoinsFresh (n : NodeId) (p : Process α) : Prop :=
  ∀ l, p.shell.inner.node.state = .Leader l → l.confirmed_read_epoch ≠ l.current_read_epoch →
    l.heartbeat_acks = {n}

/-- `verify_leadership_quorum` has begun, with what it is to wait for. -/
def callOf (c : Cluster α S) (n : NodeId) (probe : ReadProbe) : ReadCall :=
  ⟨n, probe, c.network.length, fun m => (c.hosts m).current_term⟩

/-- The probe of a call: the call waits, or it is over at once. -/
theorem Accounted.verify [DecidableEq α] (h : Accounted cfg c calls) (hr : Refines cfg c a)
    (hs : cluster.step cfg sm c (.Act (.Probe n)) = some c') {p : Process α}
    (hp : c.process n = some p) (hfresh : JoinsFresh n p) :
    (∀ probe, p.shell.prepare_probe.2 = .ok (.ok probe) →
      Accounted cfg c' (callOf c n probe :: calls)) ∧
    ((∀ probe, p.shell.prepare_probe.2 ≠ .ok (.ok probe)) → Accounted cfg c' calls) := by
  have hmem := (hr.up hp).member
  have hnode := nodeOf_up hp
  have hsent : c'.network = c.network ∧
      nodeOf c' = Function.update (nodeOf c) n p.shell.prepare_probe.1.inner.settle := by
    obtain ⟨e, he, rfl⟩ := Option.map_eq_some_iff.mp hs
    obtain ⟨p', hp', hacted⟩ := perform_acted he
    cases hacted with
    | probed hres hround =>
      obtain rfl := Option.some.inj (hp'.symm.trans hp)
      exact ⟨List.append_nil _, nodeOf_acted c ⟨n, _, _, _⟩ _⟩
    | joined n =>
      obtain rfl := Option.some.inj (hp'.symm.trans hp)
      exact ⟨List.append_nil _, nodeOf_acted c ⟨n, _, _, _⟩ _⟩
  obtain ⟨hnetwork, hnodes⟩ := hsent
  have hsettled : ∀ ln : LogicalNode α, Turn (cfg.peer_ids n) ln ln.settle := fun ln =>
    Turn.settle (.held (.refl ln))
  have hsound : Sound cfg (nodeOf c) (recordOf c.network calls) := h
  unfold Accounted
  rw [hnodes, hnetwork]
  rcases prepare_probe_cases p.shell with
    ⟨l, probe, hl, hres, hterm, htarget, hinner⟩ | ⟨⟨err, hres⟩, hinner⟩
  · rw [hres]
    refine ⟨fun probe' hprobe => ?_, fun hno => absurd rfl (hno probe)⟩
    obtain rfl := Except.ok.inj (Except.ok.inj hprobe)
    have hid : p.shell.inner.node_id = n := hnode ▸ hsound.node_id n hmem
    rw [hid] at htarget hinner
    have hl' : (nodeOf c n).node.state = .Leader l := hnode ▸ hl
    obtain ⟨hcounted, hwaits, hcurrent, hacks⟩ :=
      (hsound.leads n hmem l hl').probe (hfresh l hl)
    have hleads := hsound.relead hmem hcounted
    rw [hnode, ← hinner] at hleads
    generalize hnow : Function.update (nodeOf c) n p.shell.prepare_probe.1.inner = now at hleads
    have hterms : ∀ m, (now m).current_term = (c.hosts m).current_term := by
      intro m
      rw [← hnow, ← nodeOf_term]
      by_cases hm : m = n
      · rw [hm, Function.update_self, hinner, hnode]
        rfl
      · rw [Function.update_of_ne hm]
    have hstate : (now n).node.state = .Leader (l.prepare_read_probe n).1 := by
      rw [← hnow, Function.update_self, hinner]
      rfl
    have hsame : probe.term = (now n).current_term := by
      rw [hterm, hterms, ← nodeOf_term, hnode]
    rw [← htarget] at hwaits hcurrent
    have hbegun := hleads.begin hmem hstate hsame hwaits hcurrent hacks
    have hlength : (recordOf c.network calls).sent.length = c.network.length :=
      List.length_map _
    rw [hlength, funext hterms] at hbegun
    have hturned := hbegun.turn hmem (hsettled (now n))
    rw [← hnow, Function.update_self, Function.update_idem] at hturned
    exact hturned
  · rw [hres]
    refine ⟨fun probe hprobe => (by cases hprobe), fun _ => ?_⟩
    rw [hinner, ← hnode]
    exact hsound.turn hmem (hsettled (nodeOf c n))

theorem Shown.of_published (h : Published sh) : Shown sh := by
  cases hp : sh.inner.is_poisoned with
  | true =>
    exact ⟨(h.1 hp).trans (sh.inner.is_poisoned_iff.mp hp).symm, fun hno => by
      rw [hp] at hno
      cases hno⟩
  | false =>
    have hsame := h.2 hp
    refine ⟨?_, fun _ => ⟨?_, congrArg _ hsame⟩⟩
    · rw [hsame, try_consensus_progress_role]
    · rw [hsame, try_consensus_progress_term hp]

/-- Nobody has come to lead a later term before a call began that returns. -/
theorem Accounted.returned (h : Accounted cfg c calls) (hall : Announced c) {w : ReadCall}
    (hw : w ∈ calls) {p : Process α} (hp : c.process w.node = some p)
    (hok : await_probe p.shell.progress w.probe = some (.ok ())) {t : Nat}
    (ht : w.probe.term < t) : ¬Reached cfg w.terms t := by
  have hsound : Sound cfg (nodeOf c) (recordOf c.network calls) := h
  have hmem := (hsound.calls w hw).member
  obtain ⟨l, hl, hterm, hle⟩ := await_probe_ok (Shown.of_published (hall _ p hp)) hok
  rw [← nodeOf_up hp] at hl hterm
  exact ((hsound.leads w.node hmem l hl).confirmed w hw rfl hterm.symm hle).unreached hsound hw ht

theorem Accounted.init : Accounted cfg (Cluster.init sm) [] where
  node_id n hn := rfl
  answers a ha := by
    obtain ⟨src, req, resp, hget, -⟩ := mem_answers.mp ha
    cases hget
  calls w hw := by cases hw
  leads n hn l hl := by cases hl

end raft_engine.cluster_probes
