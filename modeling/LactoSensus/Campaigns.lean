-- The votes of a station in its steps: campaigns ask members for the node they run
-- on, a vote is told only when it is on disk, and nothing else that goes on at the
-- station (rounds, compactions, installations, the applier) touches a vote.
import LactoSensus.Voting

open ballots
open common.types
open journal
open raft_engine.storage
open raft_engine.node
open raft_engine.engine
open raft_engine.consensus
open raft_engine.shell
open raft_engine.cluster
open raft_engine.orchestration
open raft_engine.station
open raft_engine.refinement (voters mem_peer_ids one_vote_is_short handle_pre_vote_fst)
open raft_engine.roles
open lacto_fsm

namespace raft_engine.voting

variable {α S : Type} {cfg : Config} {n : NodeId} {b₀ b b' : Ballots NodeId}
  {sh sh' : ConsensusShell α} {ln ln' : LogicalNode α}

/-! ## Tasks -/

/-- A campaign asks members for its own node, and goes on alone only if it is alone. -/
def Faithful (cfg : Config) (n : NodeId) : SpawnedTask α → Prop
  | .Election params pending granted | .Tally params pending granted =>
    params.node_id = n ∧ (∀ p ∈ pending, p ∈ cfg.members) ∧
      (granted < quorumOf (cfg.peer_ids n) ∨ quorumOf (cfg.peer_ids n) = 1)
  | .Promote => quorumOf (cfg.peer_ids n) = 1
  | _ => True

/-- What an answer says of the ballots. -/
def Told (b : Ballots NodeId) : Message α → Prop
  | .VoteReply src req resp =>
    resp.vote_granted = true → b src req.term = some req.candidate_id
  | _ => True

theorem Told.keep {m : NodeId} {msg : Message α} (h : Told b msg) (ha : Adds m b b') :
    Told b' msg := by
  cases msg with
  | VoteReply src req resp => exact fun hg => ha.keeps src req.term _ (h hg)
  | _ => trivial

theorem Polled.write {X : Type} {f : LogicalNode α → Handled α X}
    (h : Polled cfg n b₀ b (f sh.inner).1) : Polled cfg n b₀ b (sh.write f).1.inner := by
  rw [ConsensusShell.write_inner]
  exact h.afterHandler

/-- What is left of a campaign after its first vote is counted. -/
theorem campaign_faithful {params : ElectionCampaignParams}
    (hid : params.node_id = n) :
    Faithful cfg n (.Election params (cfg.peer_ids n) 1 : SpawnedTask α) :=
  ⟨hid, fun _ hp => (mem_peer_ids.mp hp).1, one_vote_is_short cfg n⟩

theorem spawn_faithful {spawn : TickSpawn}
    (hid : ∀ params, spawn = .Campaign params → params.node_id = n) :
    ∀ task ∈ (spawn.tasks (cfg.peer_ids n) : List (SpawnedTask α)), Faithful cfg n task := by
  intro task ht
  cases spawn with
  | Nothing => cases ht
  | Campaign params =>
    obtain rfl := List.mem_singleton.mp ht
    exact campaign_faithful (hid params rfl)
  | _ =>
    obtain rfl := List.mem_singleton.mp ht
    trivial

/-- A task that counts no votes. -/
theorem taskStep_polled {peer : NodeId} {reply : Option (Message α)} {timeout : Nat}
    {task : SpawnedTask α} (hmem : n ∈ cfg.members) (h : Polled cfg n b₀ b sh.inner)
    (htask : Faithful cfg n task)
    (hother : ∀ params pending granted, task ≠ .Election params pending granted)
    (hs : TaskStep cfg n peer reply timeout sh task sh') :
    ∃ b', Polled cfg n b₀ b' sh'.inner := by
  cases hs with
  | idle => exact ⟨b, h⟩
  | steppedDown => exact ⟨b, .write (h.abstain (stepDown_abstains _ timeout))⟩
  | observed req pending granted resp hreply hgt =>
    exact ⟨b, .write (h.abstain (observe_pre_vote_term_abstains _ _ _))⟩
  | stood =>
    obtain ⟨b', hb', -⟩ := begin_campaign_polled hmem h timeout
    exact ⟨b', .write hb'⟩
  | counted params pending granted resp hreply => exact absurd rfl (hother params pending granted)
  | promoted => exact ⟨b, .write (promote_polled hmem h htask)⟩
  | prepared params unsent awaiting =>
    exact ⟨b, .write (h.abstain (prepare_replication_abstains _ _ _))⟩
  | responded params unsent awaiting req resp hreply =>
    exact ⟨b, .write (h.abstain (process_replication_response_abstains _ _ _ _ _))⟩
  | failed err => exact ⟨b, .write h.poison⟩

/-- A task that neither stands nor counts leaves no campaign behind. -/
theorem follows_faithful {reply : Option (Message α)} {task next : SpawnedTask α}
    (hf : Follows cfg n reply task next) (hstands : task ≠ .BecomeCandidate)
    (hcounts : ∀ params pending granted, task ≠ .Election params pending granted)
    (htallies : ∀ params pending granted, task ≠ .Tally params pending granted) :
    Faithful cfg n next := by
  cases hf with
  | polled => trivial
  | granted req pending pending' votes src resp hreply hgrant =>
    unfold countPreVote
    rw [if_pos rfl]
    split <;> trivial
  | stood => trivial
  | campaign => exact absurd rfl hstands
  | asked params pending pending' votes => exact absurd rfl (hcounts params pending votes)
  | seen params pending votes => exact absurd rfl (hcounts params pending votes)
  | tallied params pending votes votes' => exact absurd rfl (htallies params pending votes)
  | replicated => trivial
  | failed => trivial

/-! ## Requests -/

/-- A vote is told only when it is on disk. -/
theorem serve_polled {timeout : Nat} {msg : Message α} {dst : NodeId}
    {sends : List (Message α)} (h : Polled cfg n b₀ b sh.inner) (hdst : msg.dst = n)
    (hs : serve sh timeout msg = some (dst, sh', sends)) :
    ∃ b', Polled cfg n b₀ b' sh'.inner ∧ ∀ answer ∈ sends, Told b' answer := by
  cases msg with
  | PreVote dst' req =>
    have hserved : Polled cfg n b₀ b
        (sh.write fun ln => ln.handle_pre_vote req.term req.last_log_index
          req.last_log_term).1.inner := by
      refine .write ?_
      rw [handle_pre_vote_fst]
      exact h
    simp only [serve] at hs
    generalize sh.write _ = r at hs hserved
    obtain ⟨sh₁, p | res⟩ := r <;> obtain ⟨-, rfl, rfl⟩ := by simpa using hs
    · exact ⟨b, hserved, by simp⟩
    · exact ⟨b, hserved, by simp [Told]⟩
  | RequestVote dst' req =>
    obtain ⟨b', hb', htold⟩ := handle_request_vote_polled h req.candidate_id req.term
      req.last_log_index req.last_log_term timeout
    have hserved : Polled cfg n b₀ b' (sh.write fun ln => ln.handle_request_vote req.candidate_id
        req.term req.last_log_index req.last_log_term timeout).1.inner := .write hb'
    have hres := sh.write_result fun ln => ln.handle_request_vote req.candidate_id
      req.term req.last_log_index req.last_log_term timeout
    refine ⟨b', ?_⟩
    simp only [serve] at hs
    generalize sh.write _ = r at hs hserved hres
    obtain ⟨sh₁, p | res⟩ := r <;> obtain ⟨-, rfl, rfl⟩ := by simpa using hs
    · exact ⟨hserved, by simp⟩
    · refine ⟨hserved, fun answer hanswer => ?_⟩
      obtain rfl := List.mem_singleton.mp hanswer
      obtain rfl : dst' = n := hdst
      exact fun hg => htold res hres.symm hg
  | AppendEntries dst' req =>
    have hserved : Polled cfg n b₀ b (sh.write fun ln => ln.handle_append_entries req.leader_id
        req.term req.prev_log_index req.prev_log_term req.entries req.leader_commit
        timeout).1.inner := .write (h.abstain (handle_append_entries_abstains _ _ _ _ _ _ _ _))
    simp only [serve] at hs
    generalize sh.write _ = r at hs hserved
    obtain ⟨sh₁, p | res⟩ := r <;> obtain ⟨-, rfl, rfl⟩ := by simpa using hs
    · exact ⟨b, hserved, by simp⟩
    · exact ⟨b, hserved, by simp [Told]⟩
  | _ => cases hs

/-! ## Campaigns -/

variable [DecidableEq α]

/-- The campaign task takes up the answer of a member that it still waits for. -/
theorem election_polled {peer : NodeId} {reply : Option (Message α)} {timeout : Nat}
    {params : ElectionCampaignParams} {pending : List NodeId} {granted : Nat}
    {tasks : List (SpawnedTask α)} {sends : List (Message α)} (hmem : n ∈ cfg.members)
    (h : Polled cfg n b₀ b sh.inner)
    (htask : Faithful cfg n (.Election params pending granted : SpawnedTask α))
    (hreply : ∀ msg, reply = some msg → Told b msg)
    (hrun : runTask cfg n sh peer reply timeout (.Election params pending granted) =
      some (sh', tasks, sends)) :
    Polled cfg n b₀ b sh'.inner ∧ ∀ next ∈ tasks, Faithful cfg n next := by
  obtain ⟨hid, hpending, hshort⟩ := htask
  simp only [runTask] at hrun
  split at hrun
  · split at hrun <;> obtain ⟨rfl, rfl, -⟩ := by simpa using hrun
    · -- who has a quorum of counted votes and has not been promoted is alone
      rename_i hquorum
      refine ⟨h, fun next hnext => ?_⟩
      obtain rfl := List.mem_singleton.mp hnext
      exact hshort.resolve_left (not_lt.mpr hquorum.1)
    · exact ⟨h, by simp⟩
  split at hrun
  swap
  · cases hrun
  rename_i hpeer
  have htally : Faithful cfg n (.Tally params (pending.erase peer) granted : SpawnedTask α) :=
    ⟨hid, fun p hp => hpending p (List.mem_of_mem_erase hp), hshort⟩
  split at hrun
  · obtain ⟨rfl, rfl, -⟩ := by simpa using hrun
    exact ⟨h, by simpa using htally⟩
  · split at hrun
    swap
    · cases hrun
    rename_i src _ resp hfits
    obtain ⟨rfl, rfl⟩ := hfits
    have hvote : resp.vote_granted = true → b src params.term = some n := by
      have htold : Told b _ := hreply _ rfl
      rw [← hid]
      exact htold
    have hcounted : Polled cfg n b₀ b (sh.write fun ln => process_vote_response ln params.term
        (cfg.peer_ids n) src resp timeout).1.inner :=
      .write (process_vote_response_polled hmem h timeout (hpending src hpeer) hvote)
    generalize sh.write _ = r at hrun hcounted
    obtain ⟨sh₁, p | action⟩ := r
    · obtain ⟨rfl, rfl, -⟩ := by simpa using hrun
      exact ⟨hcounted, by simp⟩
    · cases action <;> obtain ⟨rfl, rfl, -⟩ := by simpa using hrun
      · exact ⟨hcounted, by simp⟩
      · exact ⟨hcounted, by simp⟩
      · exact ⟨hcounted, by simpa using htally⟩
  · cases hrun

theorem runTask_polled {peer : NodeId} {reply : Option (Message α)} {timeout : Nat}
    {task : SpawnedTask α} {tasks : List (SpawnedTask α)} {sends : List (Message α)}
    (hmem : n ∈ cfg.members) (h : Polled cfg n b₀ b sh.inner) (htask : Faithful cfg n task)
    (hreply : ∀ msg, reply = some msg → Told b msg)
    (hrun : runTask cfg n sh peer reply timeout task = some (sh', tasks, sends)) :
    ∃ b', Polled cfg n b₀ b' sh'.inner ∧ ∀ next ∈ tasks, Faithful cfg n next := by
  have hran := runTask_ran hrun
  cases task with
  | BecomeCandidate =>
    obtain ⟨b', hb', hparams⟩ := begin_campaign_polled hmem h timeout
    have hstood : Polled cfg n b₀ b' (sh.write fun ln => begin_campaign ln timeout).1.inner :=
      .write hb'
    have hres := sh.write_result fun ln => begin_campaign ln timeout
    refine ⟨b', ?_⟩
    simp only [runTask] at hrun
    generalize sh.write _ = r at hrun hstood hres
    obtain ⟨sh₁, p | params⟩ := r <;> obtain ⟨rfl, rfl, -⟩ := by simpa using hrun
    · exact ⟨hstood, by simp⟩
    · refine ⟨hstood, fun next hnext => ?_⟩
      obtain rfl := List.mem_singleton.mp hnext
      exact campaign_faithful (hparams params hres.symm)
  | Election params pending granted => exact ⟨b, election_polled hmem h htask hreply hrun⟩
  | Tally params pending granted =>
    obtain ⟨hid, hpending, hshort⟩ := htask
    obtain ⟨rfl, rfl, -⟩ := by simpa [runTask] using hrun
    refine ⟨b, h, fun next hnext => ?_⟩
    obtain rfl := List.mem_singleton.mp hnext
    refine ⟨hid, hpending, ?_⟩
    have hrole := h.role
    split
    · rename_i c hst
      rw [hst] at hrole
      exact hrole.short
    · exact hshort
  | _ =>
    obtain ⟨b', hb'⟩ := taskStep_polled hmem h htask (by simp) hran.step
    exact ⟨b', hb', fun next hnext => follows_faithful (hran.follows next hnext) (by simp)
      (by simp) (by simp)⟩

/-! ## Steps of the host -/

variable {hcfg : HostConfig} {sm : SnapshotMachine α S} {h h' : SnapshotHost α S}

/-- A host whose ballots and campaigns are in order. -/
structure Upright (cfg : HostConfig) (b₀ b : Ballots NodeId) (h : SnapshotHost α S) : Prop where
  polled : Polled cfg.cluster cfg.node_id b₀ b h.node
  faithful : ∀ task ∈ h.process.tasks, Faithful cfg.cluster cfg.node_id task

/-- What a step has to be told of, and whom it is for. -/
def Admits (b : Ballots NodeId) (n : NodeId) : HostAct α → Prop
  | .RunTask _ _ reply _ => ∀ msg, reply = some msg → Told b msg
  | .Deliver msg _ => msg.dst = n
  | _ => True

/-- The answers that a step sends. -/
def told (sh : ConsensusShell α) : HostAct α → List (Message α)
  | .Deliver msg timeout => ((serve sh timeout msg).map fun r => r.2.2).getD []
  | _ => []

omit [DecidableEq α] in
theorem Upright.abstain (hu : Upright hcfg b₀ b h) (ha : Abstains h.node h'.node)
    (htasks : ∀ task ∈ h'.process.tasks, task ∈ h.process.tasks ∨
      Faithful hcfg.cluster hcfg.node_id task) : Upright hcfg b₀ b h' :=
  ⟨hu.polled.abstain ha, fun task ht => (htasks task ht).elim (hu.faithful task) id⟩

omit [DecidableEq α] in
theorem runApplier_tasks {sm : StateMachine α S} {p p' : Process α} {fsm fsm' : S}
    (hrun : runApplier sm p fsm = some (p', fsm')) : p'.tasks = p.tasks := by
  cases runApplier_step hrun <;> rfl

theorem hostStep_upright {a : HostAct α} (hmem : hcfg.node_id ∈ hcfg.cluster.members)
    (hu : Upright hcfg b₀ b h) (hgate : Admits b hcfg.node_id a)
    (hs : hostStep hcfg sm h a = some h') :
    ∃ b', Upright hcfg b₀ b' h' ∧ ∀ msg ∈ told h.process.shell a, Told b' msg := by
  have hsame : ∀ task ∈ h.process.tasks, task ∈ h.process.tasks ∨
      Faithful hcfg.cluster hcfg.node_id task := fun _ ht => .inl ht
  cases hostStep_moves hs with
  | @ticked timeout sh res hw =>
    obtain ⟨b', hb', hparams⟩ := tickLocked_polled hmem hu.polled timeout
    have hticked : Polled hcfg.cluster hcfg.node_id b₀ b'
        (h.process.shell.write fun ln => tickLocked ln timeout).1.inner := .write hb'
    have hres := h.process.shell.write_result fun ln => tickLocked ln timeout
    rw [hw] at hticked hres
    refine ⟨b', ⟨hticked, fun task ht => ?_⟩, by simp [told]⟩
    rcases List.mem_append.mp ht with hnew | hold
    · cases res with
      | error p => cases hnew
      | ok spawn =>
        refine spawn_faithful (fun params heq => hparams params ?_) task hnew
        rw [← heq]
        exact hres.symm
    · exact hu.faithful task hold
  | ran hk hrun =>
    obtain ⟨b', hb', hnext⟩ := runTask_polled hmem hu.polled
      (hu.faithful _ (List.mem_of_getElem? hk)) hgate hrun
    refine ⟨b', ⟨hb', fun next hin => ?_⟩, by simp [told]⟩
    rcases List.mem_append.mp hin with hnew | hold
    · exact hnext next hnew
    · exact hu.faithful next (List.mem_of_mem_eraseIdx hold)
  | served hserve =>
    obtain ⟨b', hb', hsends⟩ := serve_polled hu.polled hgate hserve
    refine ⟨b', ⟨hb', hu.faithful⟩, fun answer hanswer => hsends answer ?_⟩
    simpa [told, hserve] using hanswer
  | proposed data =>
    refine ⟨b, hu.abstain ?_ hsame, by simp [told]⟩
    change Abstains _ (h.process.shell.propose data).1.inner
    rw [ConsensusShell.propose_shell]
    exact .write (propose_abstains _ _)
  | probed hprobe =>
    have habstains := prepare_probe_abstains h.process.shell
    rw [hprobe] at habstains
    refine ⟨b, hu.abstain habstains fun task ht => ?_, by simp [told]⟩
    rcases List.mem_append.mp ht with hnew | hold
    · obtain ⟨_, rfl⟩ := mem_probeTasks hnew
      exact .inr trivial
    · exact .inl hold
  | unprobed hprobe hno =>
    have habstains := prepare_probe_abstains h.process.shell
    rw [hprobe] at habstains
    exact ⟨b, hu.abstain habstains hsame, by simp [told]⟩
  | applied hrun =>
    have htasks := runApplier_tasks hrun
    refine ⟨b, hu.abstain (runApplier_abstains hrun) fun task ht => .inl ?_, by simp [told]⟩
    rw [← htasks]
    exact ht
  | saved hk hw =>
    exact ⟨b, hu.abstain (write_abstains hw (save_snapshot_metadata_abstains _ _ _)) hsame,
      by simp [told]⟩
  | unsaved hk hw =>
    exact ⟨b, hu.abstain (write_abstains hw (save_snapshot_metadata_abstains _ _ _)) hsame,
      by simp [told]⟩
  | truncated hk => exact ⟨b, hu.abstain (.writes fun _ => rfl) hsame, by simp [told]⟩
  | thawed hk hw =>
    exact ⟨b, hu.abstain (write_abstains hw (changeDepth_abstains _ _)) hsame, by simp [told]⟩
  | accepted hw =>
    exact ⟨b, hu.abstain (write_abstains hw (acceptSnapshot_abstains _ _ _ _)) hsame,
      by simp [told]⟩
  | declined hw hno =>
    exact ⟨b, hu.abstain (write_abstains hw (acceptSnapshot_abstains _ _ _ _)) hsame,
      by simp [told]⟩
  | restored hk hidle hfsm => exact ⟨b, hu.abstain (.refl _) hsame, by simp [told]⟩
  | unrestored hk hidle hfsm => exact ⟨b, hu.abstain (.refl _) hsame, by simp [told]⟩
  | finalized hk hw =>
    exact ⟨b, hu.abstain (write_abstains hw (finalizeSnapshot_abstains _ _ _ _)) hsame,
      by simp [told]⟩
  | begun hw =>
    exact ⟨b, hu.abstain (write_abstains hw (changeDepth_abstains _ _)) hsame, by simp [told]⟩
  | unbegun hw =>
    exact ⟨b, hu.abstain (write_abstains hw (changeDepth_abstains _ _)) hsame, by simp [told]⟩
  | ended hpos hw =>
    exact ⟨b, hu.abstain (write_abstains hw (changeDepth_abstains _ _)) hsame, by simp [told]⟩
  | answered hw hno =>
    exact ⟨b, hu.abstain (write_abstains hw (process_replication_response_abstains _ _ _ _ _))
      hsame, by simp [told]⟩
  | unanswered hw =>
    refine ⟨b, hu.abstain (write_abstains hw (process_replication_response_abstains _ _ _ _ _))
      fun task ht => ?_, by simp [told]⟩
    rcases List.mem_cons.mp ht with rfl | hold
    · exact .inr trivial
    · exact .inl hold

/-! ## Steps of the station -/

variable {c : SnapshotCodec α} {st st' : Station α}

omit [DecidableEq α] in
theorem respond_upright {h : SnapshotHost α LactoStore} (hu : Upright hcfg b₀ b h) (term : Nat)
    (peer : NodeId) (outcome : ReplicationOutcome) (timeout : Nat) :
    Upright hcfg b₀ b (respond h term peer outcome timeout).1 := by
  have habstains : Abstains h.node (h.process.shell.write fun ln =>
      process_replication_response ln term peer outcome timeout).1.inner :=
    .write (process_replication_response_abstains _ _ _ _ _)
  unfold respond
  generalize h.process.shell.write _ = r at habstains
  obtain ⟨sh, p | e | action⟩ := r
  · exact hu.abstain habstains fun _ ht => .inl ht
  · exact hu.abstain habstains fun _ ht => .inl ht
  · cases action <;> exact hu.abstain habstains fun _ ht => .inl ht

/-- A call of a round only ever leaves a failure behind. -/
theorem runCall_upright {params : ReplicationRoundParams} {peer : NodeId}
    {reply : Option PeerReply} {timeout : Nat} {call : PeerCall α}
    {h : SnapshotHost α LactoStore} {res : CallResult α}
    (hmem : hcfg.node_id ∈ hcfg.cluster.members) (hu : Upright hcfg b₀ b st.host)
    (hrun : runCall hcfg c st params peer reply timeout call = some (h, res)) :
    ∃ b', Upright hcfg b₀ b' h ∧ ∀ task ∈ res.tasks, Faithful hcfg.cluster hcfg.node_id task := by
  obtain ⟨hmove, hleft⟩ := runCall_moves hrun
  have hfaithful : ∀ task ∈ res.tasks, Faithful hcfg.cluster hcfg.node_id task := by
    intro task ht
    obtain ⟨err, rfl⟩ := hleft task ht
    trivial
  cases hmove with
  | idle => exact ⟨b, hu, hfaithful⟩
  | prepared hw =>
    have habstains := write_abstains hw (prepare_replication_abstains _ _ _)
    exact ⟨b, hu.abstain habstains fun _ ht => .inl ht, hfaithful⟩
  | built hw =>
    have habstains := write_abstains hw (build_append_entries_request_abstains _ _ _ _ _)
    exact ⟨b, hu.abstain habstains fun _ ht => .inl ht, hfaithful⟩
  | appended req response hreply => exact ⟨b, respond_upright hu _ _ _ _, hfaithful⟩
  | overtaken req response hreply hgt => exact ⟨b, respond_upright hu _ _ _ _, hfaithful⟩
  | froze i t hs =>
    obtain ⟨b', hu', -⟩ := hostStep_upright hmem hu (a := .BeginTransfer) trivial hs
    exact ⟨b', hu', hfaithful⟩
  | thawed i t out hs =>
    obtain ⟨b', hu', -⟩ := hostStep_upright hmem hu (a := .EndTransfer) trivial hs
    exact ⟨b', hu', hfaithful⟩
  | installed sent response_term hreply => exact ⟨b, respond_upright hu _ _ _ _, hfaithful⟩

omit [DecidableEq α] in
/-- What becomes a round is no campaign, so only tasks are lost. -/
theorem Upright.adopt (st : Station α) {h : SnapshotHost α LactoStore} (hu : Upright hcfg b₀ b h) :
    Upright hcfg b₀ b (st.adopt h).host :=
  ⟨hu.polled, fun task ht => hu.faithful task (List.mem_of_mem_filter ht)⟩

def AdmitsStation (b : Ballots NodeId) (n : NodeId) : StationAct α → Prop
  | .Host a => Admits b n a
  | _ => True

def toldBy (st : Station α) : StationAct α → List (Message α)
  | .Host a => told st.host.process.shell a
  | _ => []

theorem stationStep_upright {a : StationAct α} (hmem : hcfg.node_id ∈ hcfg.cluster.members)
    (hu : Upright hcfg b₀ b st.host) (hgate : AdmitsStation b hcfg.node_id a)
    (hs : stationStep hcfg c st a = some st') :
    ∃ b', Upright hcfg b₀ b' st'.host ∧ ∀ msg ∈ toldBy st a, Told b' msg := by
  cases a with
  | Host a =>
    obtain ⟨-, -, h', hstep, rfl⟩ := host_cases hs
    obtain ⟨b', hu', htold⟩ := hostStep_upright hmem hu hgate hstep
    exact ⟨b', hu'.adopt st, htold⟩
  | Call r k reply timeout =>
    obtain ⟨round, -, hcall⟩ := Option.bind_eq_some_iff.mp hs
    obtain ⟨⟨peer, call⟩, -, hmap⟩ := Option.bind_eq_some_iff.mp hcall
    dsimp only at hmap
    obtain ⟨⟨h, res⟩, hrun, rfl⟩ := Option.map_eq_some_iff.mp hmap
    obtain ⟨b', hu', htasks⟩ := runCall_upright hmem hu hrun
    refine ⟨b', Upright.adopt st ⟨hu'.polled, fun task ht => ?_⟩, by simp [toldBy]⟩
    rcases List.mem_append.mp ht with hnew | hold
    · exact htasks task hnew
    · exact hu'.faithful task hold
  | Wake =>
    simp only [stationStep] at hs
    split at hs
    · obtain rfl := Option.some.inj hs
      exact ⟨b, hu, by simp [toldBy]⟩
    · cases hs
  | CheckFrozen =>
    simp only [stationStep] at hs
    split at hs
    · obtain rfl := Option.some.inj hs
      exact ⟨b, hu, by simp [toldBy]⟩
    · cases hs
  | Enter caller =>
    simp only [stationStep] at hs
    split at hs
    · cases hs
    cases caller with
    | Background =>
      dsimp only at hs
      split at hs
      · obtain rfl := Option.some.inj hs
        exact ⟨b, hu, by simp [toldBy]⟩
      · cases hs
    | CatchUp =>
      dsimp only at hs
      split at hs
      · cases hs
      · obtain rfl := Option.some.inj hs
        exact ⟨b, hu, by simp [toldBy]⟩
  | Loop =>
    obtain ⟨caller, -, ⟨-, rfl⟩ | ⟨h', hstep, hcases⟩⟩ := loop_cases hs
    · exact ⟨b, hu, by simp [toldBy]⟩
    · obtain ⟨b', hu', -⟩ := hostStep_upright hmem hu (a := .Apply) trivial hstep
      refine ⟨b', ?_, by simp [toldBy]⟩
      rcases hcases with ⟨-, rfl⟩ | ⟨-, rfl⟩ <;> exact hu'.adopt st

/-! ## Members that go down and come back -/

omit [DecidableEq α] in
/-- Between two handlers the ballots only need to fit what is on disk. -/
theorem Upright.settle {h : SnapshotHost α S} (hu : Upright hcfg b₀ b h) :
    Upright hcfg b b { h with process := h.process.settle } where
  polled := ⟨.refl _ _, hu.polled.node_id, hu.polled.disk, by simp [Process.settle,
    SnapshotHost.node, LogicalNode.settle], hu.polled.role⟩
  faithful := hu.faithful

omit [DecidableEq α] in
/-- The ballots of another member change nothing. -/
theorem Upright.frame {m : NodeId} {h : SnapshotHost α S} (hu : Upright hcfg b b h)
    (hpast : h.node.node.log_store.past = []) (ha : Adds m b b') (hne : hcfg.node_id ≠ m) :
    Upright hcfg b' b' h where
  polled := ⟨.refl _ _, hu.polled.node_id, hu.polled.disk.frame ha hne, by simp [hpast],
    hu.polled.role.keep ha⟩
  faithful := hu.faithful

end raft_engine.voting
