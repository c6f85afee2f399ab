-- Read probes among the nodes of a cluster, with every request of a round and
-- every answer to one on record. An answer counts for the epoch that is open
-- when it is taken up, whenever its request was sent; so a call is sound when
-- no answer counts for it but to a request that was sent after it began.
import LactoSensus.Turns
import LactoSensus.Safety
import Mathlib.Tactic.IntervalCases

open common.types
open machine
open quorum
open raft_engine.storage
open raft_engine.node
open raft_engine.engine
open raft_engine.consensus
open raft_engine.shell
open raft_engine.cluster
open raft_engine.orchestration
open raft_engine.recovery
open raft_engine.refinement
open raft_engine.station
open raft_engine.roles
open lacto_fsm

namespace raft_engine.fleet

variable {α : Type}

/-! ## What is on record -/

inductive Rpc (α : Type) where
  | AppendEntries (req : AppendEntriesRequest α)
  | InstallSnapshot (params : SnapshotParams α)
deriving DecidableEq

/-- The request whose answer a call waits for. -/
def awaited : PeerCall α → Option (Rpc α)
  | .Append req => some (.AppendEntries req)
  | .Probing req => some (.AppendEntries req)
  | .Sending params => some (.InstallSnapshot params)
  | _ => none

/-- A request of a round of the term. -/
structure Sent (α : Type) where
  leader : NodeId
  term : Nat
  peer : NodeId
  rpc : Rpc α
deriving DecidableEq

structure Answer where
  /-- Where the request is on record. -/
  request : Nat
  reply : PeerReply
deriving DecidableEq, Repr

/-- A call of `verify_leadership_quorum` that has neither returned nor timed out. -/
structure ReadCall where
  node : NodeId
  probe : ReadProbe
  /-- How many requests had been sent when the call began. -/
  before : Nat
  /-- The terms of the nodes when the call began. -/
  terms : NodeId → Nat

structure Record (α : Type) where
  sent : List (Sent α)
  answers : List Answer
  calls : List ReadCall

structure Fleet (α : Type) where
  stations : NodeId → Station α
  record : Record α

structure FleetConfig where
  cluster : Config
  snapshot_threshold : Nat

def FleetConfig.host (cfg : FleetConfig) (n : NodeId) : HostConfig :=
  ⟨cfg.cluster, n, cfg.snapshot_threshold⟩

def Fleet.node (f : Fleet α) (n : NodeId) : LogicalNode α := (f.stations n).node

def Fleet.shell (f : Fleet α) (n : NodeId) : ConsensusShell α := (f.stations n).host.process.shell

/-- What becomes of one station, and of the record. -/
def Fleet.after (f : Fleet α) (n : NodeId) (st : Station α) (record : Record α) : Fleet α :=
  ⟨Function.update f.stations n st, record⟩

/-! ## Steps -/

/-- What goes on at a node besides its probes, the requests of rounds that it serves and
the calls of its own rounds. -/
def isErrand : StationAct α → Bool
  | .Host (.Deliver (.AppendEntries _ _) _) => false
  | .Host (.InstallSnapshot _ _) => false
  | .Host a => isWork a
  | .Call _ _ _ _ => false
  | _ => true

/-- What a node answers to a request; a panic answers nothing. -/
def answer (h : SnapshotHost α LactoStore) (timeout : Nat) : Rpc α → Option PeerReply
  | .AppendEntries req =>
    match (h.node.handle_append_entries req.leader_id req.term req.prev_log_index
      req.prev_log_term req.entries req.leader_commit timeout).2 with
    | .ok r => some (.Append ⟨r.term, r.success, r.conflict_index⟩)
    | .error _ => none
  | .InstallSnapshot params =>
    match (acceptSnapshot h.fsm_freeze_depth params timeout h.node).2,
      (h.node.handle_install_snapshot params.leader_id params.term params.last_included_index
        timeout).2 with
    | .ok _, .ok res => some (.InstallSnapshot res.term)
    | _, _ => none

/-- The step in which a node serves a request. -/
def Sent.delivery (req : Sent α) (timeout : Nat) : HostAct α :=
  match req.rpc with
  | .AppendEntries r => .Deliver (.AppendEntries req.peer r) timeout
  | .InstallSnapshot params => .InstallSnapshot params timeout

/-- The request that a call sends as it goes on. -/
def requested : CallResult α → Option (Rpc α)
  | .Continues call => awaited call
  | _ => none

inductive FleetAct (α : Type) where
  | Work (n : NodeId) (a : StationAct α)
  /-- Call `k` of round `r` goes on, with an answer on record or with none. -/
  | Call (n : NodeId) (r k : Nat) (answer : Option Nat) (timeout : Nat)
  /-- A request is served, however late and however often. -/
  | Serve (i timeout : Nat)
  /-- `verify_leadership_quorum` is called. -/
  | Verify (n : NodeId)
  /-- A call returns or times out. -/
  | Leave (i : Nat)
  /-- The node crashes and starts again. -/
  | Restart (n : NodeId) (timeout : Nat) (db : LactoStore) (disk : SledStorage α)

/-- The answer, when it is one to this request. -/
def Record.answerTo [DecidableEq α] (record : Record α) (i : Nat) (req : Sent α) :
    Option Answer :=
  record.answers[i]?.filter fun a => record.sent[a.request]? = some req

/-- The call at this place, with the term of its round and its peer. -/
def Fleet.callAt (f : Fleet α) (n : NodeId) (r k : Nat) :
    Option (ReplicationRoundParams × NodeId × PeerCall α) :=
  (f.stations n).rounds[r]?.bind fun round => round.calls[k]?.map fun call => (round.params, call)

/-- The answer that a call is given: one to the very request it has sent. -/
def Fleet.answerFor [DecidableEq α] (f : Fleet α) (n : NodeId) (r k i : Nat) : Option Answer :=
  (f.callAt n r k).bind fun (params, peer, call) =>
    (awaited call).bind fun rpc => f.record.answerTo i ⟨n, params.term, peer, rpc⟩

/-- A station that has just started. -/
def booted (fsm : LactoStore) (ln : LogicalNode α) : Station α :=
  ⟨⟨⟨.new ln, .Idle, []⟩, fsm, 0, [], [], 0⟩, [], false, .Waiting, 0, none⟩

def fleetStep [DecidableEq α] (cfg : FleetConfig) (c : SnapshotCodec α) (f : Fleet α) :
    FleetAct α → Option (Fleet α)
  | .Work n a =>
    if n ∈ cfg.cluster.members ∧ isErrand a = true then
      (stationStep (cfg.host n) c (f.stations n) a).map fun st => f.after n st f.record
    else none
  | .Call n r k i timeout =>
    let given := i.bind (f.answerFor n r k)
    if n ∈ cfg.cluster.members ∧ (i.isSome → given.isSome) then
      let reply := given.map Answer.reply
      (f.callAt n r k).bind fun (params, peer, call) =>
        (runCall (cfg.host n) c (f.stations n) params peer reply timeout call).bind fun (_, res) =>
          (stationStep (cfg.host n) c (f.stations n) (.Call r k reply timeout)).map fun st =>
            f.after n st { f.record with
              sent := f.record.sent ++
                (requested res).toList.map (Sent.mk n params.term peer) }
    else none
  | .Serve i timeout =>
    f.record.sent[i]?.bind fun req =>
      if req.peer ∈ cfg.cluster.members then
        (stationStep (cfg.host req.peer) c (f.stations req.peer)
          (.Host (req.delivery timeout))).map fun st =>
            f.after req.peer st { f.record with
              answers := f.record.answers ++
                (answer (f.stations req.peer).host timeout req.rpc).toList.map (Answer.mk i) }
      else none
  | .Verify n =>
    if n ∈ cfg.cluster.members then
      (stationStep (cfg.host n) c (f.stations n) (.Host .Probe)).map fun st =>
        f.after n st <|
          match (f.shell n).prepare_probe.2 with
          | .ok (.ok probe) =>
            { f.record with
              calls := ⟨n, probe, f.record.sent.length, fun m => (f.node m).current_term⟩ ::
                f.record.calls }
          | _ => f.record
    else none
  | .Leave i => some { f with record := { f.record with calls := f.record.calls.eraseIdx i } }
  | .Restart n timeout db disk =>
    -- what the node had saved of its term it finds again
    if n ∈ cfg.cluster.members ∧ (f.node n).current_term ≤ disk.current_term then
      (reboot c.toCodec n cfg.cluster.heartbeat_interval timeout db disk).map fun (fsm, ln) =>
        f.after n (booted fsm ln)
          { f.record with calls := f.record.calls.filter fun w => w.node ≠ n }
    else none

/-- Every member has just started, and nothing is on record. -/
structure FleetStarted (cfg : FleetConfig) (c : SnapshotCodec α) (f : Fleet α) : Prop where
  stations : ∀ n ∈ cfg.cluster.members, Started (cfg.host n) c (f.stations n)
  record : f.record = ⟨[], [], []⟩

def FleetRun [DecidableEq α] (cfg : FleetConfig) (c : SnapshotCodec α)
    (P : Fleet α → FleetAct α → Prop) : Fleet α → Fleet α → Prop :=
  machine.Run (fleetStep cfg c) P

/-! ## Punctual answers -/

/-- The call waits for the epoch that is open at the leader. -/
def Awaits (f : Fleet α) (n : NodeId) (l : Leader) (w : ReadCall) : Prop :=
  w.node = n ∧ w.probe.term = (f.node n).current_term ∧
    l.confirmed_read_epoch < w.probe.target_epoch

/-- A call joins no epoch that has been answered already, and while a call waits no answer
counts but one to a request that was sent after the call had begun. -/
def Punctual [DecidableEq α] (f : Fleet α) : FleetAct α → Prop
  | .Verify n =>
    ∀ l, (f.node n).node.state = .Leader l → l.confirmed_read_epoch ≠ l.current_read_epoch →
      l.heartbeat_acks = {n}
  | .Call n r k (some i) _ =>
    ∀ l params peer call a, (f.node n).node.state = .Leader l →
      f.callAt n r k = some (params, peer, call) → isProbing call = false →
      params.term = (f.node n).current_term → f.answerFor n r k i = some a →
      a.reply.term ≤ params.term → ∀ w ∈ f.record.calls, Awaits f n l w → w.before ≤ a.request
  | _ => True

/-! ## What a call is told -/

/-- The peer has answered, within the term, a request of the term that was sent after the
call had begun. -/
def Acknowledged (record : Record α) (w : ReadCall) (peer : NodeId) : Prop :=
  ∃ a ∈ record.answers, ∃ rpc, w.before ≤ a.request ∧
    record.sent[a.request]? = some ⟨w.node, w.probe.term, peer, rpc⟩ ∧
    a.reply.term ≤ w.probe.term

/-- A majority with the node itself has acknowledged the call. -/
def Vouched (cfg : Config) (record : Record α) (w : ReadCall) : Prop :=
  ∃ Q, Majority (voters cfg) Q ∧ w.node ∈ Q ∧ ∀ m ∈ Q, m ≠ w.node → Acknowledged record w m

/-- A majority has come to the term; without one nobody is elected in it, since a vote is cast
in the term of the voter. -/
def Reached (cfg : Config) (terms : NodeId → Nat) (t : Nat) : Prop :=
  ∃ Q, Majority (voters cfg) Q ∧ ∀ m ∈ Q, t ≤ terms m

/-- What the answers on record say of the calls. -/
structure Witnessed (cfg : Config) (record : Record α) (a : Answer) (req : Sent α) : Prop where
  sent : record.sent[a.request]? = some req
  member : req.peer ∈ cfg.members
  past : ∀ w ∈ record.calls, w.before ≤ a.request → w.terms req.peer ≤ a.reply.term

/-- A call and the nodes after it. -/
structure Begun (cfg : Config) (nodes : NodeId → LogicalNode α) (w : ReadCall) : Prop where
  member : w.node ∈ cfg.members
  own : w.terms w.node = w.probe.term
  past : ∀ m, w.terms m ≤ (nodes m).current_term
  stands : (nodes w.node).current_term = w.probe.term → (nodes w.node).node_role ≠ .Candidate

/-- The epochs of a leader of the term, and the calls that wait for them. -/
structure Counted (cfg : Config) (record : Record α) (n : NodeId) (term : Nat) (l : Leader) :
    Prop where
  peers : (cfg.peer_ids n).length ≤ l.next_index.entries.length
  epoch : l.confirmed_read_epoch = l.current_read_epoch ∨
    l.confirmed_read_epoch + 1 = l.current_read_epoch ∧ n ∈ l.heartbeat_acks
  target : ∀ w ∈ record.calls, w.node = n → w.probe.term = term →
    w.probe.target_epoch ≤ l.current_read_epoch
  confirmed : ∀ w ∈ record.calls, w.node = n → w.probe.term = term →
    w.probe.target_epoch ≤ l.confirmed_read_epoch → Vouched cfg record w
  acks : ∀ w ∈ record.calls, w.node = n → w.probe.term = term →
    l.confirmed_read_epoch < w.probe.target_epoch →
    ∀ m ∈ l.heartbeat_acks, m ≠ n → Acknowledged record w m

structure Sound (cfg : Config) (nodes : NodeId → LogicalNode α) (record : Record α) : Prop where
  node_id : ∀ n ∈ cfg.members, (nodes n).node_id = n
  answers : ∀ a ∈ record.answers, ∃ req, Witnessed cfg record a req
  calls : ∀ w ∈ record.calls, Begun cfg nodes w
  leads : ∀ n ∈ cfg.members, ∀ l, (nodes n).node.state = .Leader l →
    Counted cfg record n (nodes n).current_term l

variable {cfg : Config} {nodes : NodeId → LogicalNode α} {record : Record α} {n : NodeId}
  {ln : LogicalNode α} {l l' : Leader} {w : ReadCall}

/-! ## A turn of a node -/

theorem Counted.alike {term : Nat} (h : Counted cfg record n term l) (halike : Alike l l') :
    Counted cfg record n term l' where
  peers := h.peers.trans halike.peers
  epoch := by
    rw [halike.confirmed, halike.current, halike.acks]
    exact h.epoch
  target := by
    rw [halike.current]
    exact h.target
  confirmed := by
    rw [halike.confirmed]
    exact h.confirmed
  acks := by
    rw [halike.confirmed, halike.acks]
    exact h.acks

/-- A new leader has no call of its term, since nobody calls a candidate. -/
theorem Counted.elected {term last_log_index last_heartbeat : Nat}
    (hnew : Leader.new (cfg.peer_ids n) last_log_index last_heartbeat = .ok l)
    (hno : ∀ w ∈ record.calls, w.node = n → w.probe.term ≠ term) :
    Counted cfg record n term l where
  peers := by
    rcases leader_new_cases (cfg.peer_ids n) last_log_index last_heartbeat with
      ⟨e, he⟩ | ⟨l₁, hl₁, -, hnext⟩
    · rw [he] at hnew
      cases hnew
    · obtain rfl := Except.ok.inj (hl₁.symm.trans hnew)
      refine ordmap.OrdMap.length_le_of_keys (cfg.nodup.filter _) fun p hp => ?_
      rw [hnext, if_pos hp]
      simp
  epoch := by
    refine .inl ?_
    unfold Leader.new at hnew
    split at hnew
    · obtain rfl := Except.ok.inj hnew
      rfl
    · split at hnew
      · cases hnew
      · obtain rfl := Except.ok.inj hnew
        rfl
  target := fun w hw hn ht => absurd ht (hno w hw hn)
  confirmed := fun w hw hn ht => absurd ht (hno w hw hn)
  acks := fun w hw hn ht => absurd ht (hno w hw hn)

theorem Sound.turn (h : Sound cfg nodes record) (hmem : n ∈ cfg.members)
    (hturn : Turn (cfg.peer_ids n) (nodes n) ln) :
    Sound cfg (Function.update nodes n ln) record := by
  obtain ⟨hid, hterm⟩ := hturn.frame
  have hmono : ∀ m, (nodes m).current_term ≤ (Function.update nodes n ln m).current_term := by
    intro m
    by_cases hm : m = n
    · rw [hm, Function.update_self]
      exact hterm
    · rw [Function.update_of_ne hm]
  -- at its term the node of a call has never stood, and does not stand now
  have hstands : ∀ w ∈ record.calls, w.node = n → ln.current_term = w.probe.term →
      (nodes n).current_term = w.probe.term ∧ (nodes n).node_role ≠ .Candidate := by
    rintro w hw rfl heq
    have hbegun := h.calls w hw
    have hle : w.probe.term ≤ (nodes w.node).current_term := hbegun.own ▸ hbegun.past w.node
    have hsame : (nodes w.node).current_term = w.probe.term := by omega
    exact ⟨hsame, hbegun.stands hsame⟩
  refine ⟨fun m hm => ?_, h.answers, fun w hw => ?_, fun m hm l' hl' => ?_⟩
  · by_cases hmn : m = n
    · rw [hmn, Function.update_self, hid]
      exact h.node_id n hmem
    · rw [Function.update_of_ne hmn]
      exact h.node_id m hm
  · obtain ⟨hmember, hown, hpast, hstood⟩ := h.calls w hw
    refine ⟨hmember, hown, fun m => (hpast m).trans (hmono m), ?_⟩
    by_cases hwn : w.node = n
    · rw [hwn, Function.update_self]
      intro heq
      obtain ⟨hsame, hnot⟩ := hstands w hw hwn heq
      cases hturn with
      | held hheld => exact fun hrole => hnot (hheld.stands hrole).1
      | stood hid hlt hrole => omega
      | elected hid hterm hrole hst hnew => exact absurd hrole hnot
    · rw [Function.update_of_ne hwn]
      exact hstood
  · by_cases hmn : m = n
    swap
    · rw [Function.update_of_ne hmn] at hl' ⊢
      exact h.leads m hm l' hl'
    subst hmn
    rw [Function.update_self] at hl' ⊢
    cases hturn with
    | held hheld =>
      obtain ⟨l, hl, halike, heq⟩ := hheld.leads l' hl'
      rw [heq]
      exact (h.leads m hm l hl).alike halike
    | stood hid hlt hrole => simp [LogicalNode.node_role, hl', RoleState.node_role] at hrole
    | elected hid heq hrole hst hnew =>
      obtain rfl := RoleState.Leader.inj (hst.symm.trans hl')
      refine .elected hnew fun w hw hwm ht => ?_
      exact (hstands w hw hwm ht.symm).2 hrole

/-! ## The record grows -/

/-- More is on record. -/
structure Extends (record record' : Record α) : Prop where
  sent : ∀ (i : Nat) (req : Sent α), record.sent[i]? = some req → record'.sent[i]? = some req
  answers : ∀ a ∈ record.answers, a ∈ record'.answers

variable {record' : Record α}

theorem Acknowledged.extend {m : NodeId} (h : Acknowledged record w m)
    (hext : Extends record record') : Acknowledged record' w m := by
  obtain ⟨a, ha, rpc, hbefore, hsent, hle⟩ := h
  exact ⟨a, hext.answers a ha, rpc, hbefore, hext.sent _ _ hsent, hle⟩

theorem Vouched.extend (h : Vouched cfg record w) (hext : Extends record record') :
    Vouched cfg record' w := by
  obtain ⟨Q, hmaj, hown, hacks⟩ := h
  exact ⟨Q, hmaj, hown, fun m hm hne => (hacks m hm hne).extend hext⟩

/-- No call begins, and the answers are ones to requests on record. -/
theorem Sound.extend (h : Sound cfg nodes record) (hext : Extends record record')
    (hcalls : ∀ w ∈ record'.calls, w ∈ record.calls)
    (hanswers : ∀ a ∈ record'.answers, a ∉ record.answers → ∃ req, Witnessed cfg record' a req) :
    Sound cfg nodes record' := by
  refine ⟨h.node_id, fun a ha => ?_, fun w hw => h.calls w (hcalls w hw), fun n hn l hl => ?_⟩
  · by_cases hold : a ∈ record.answers
    · obtain ⟨req, hwit⟩ := h.answers a hold
      exact ⟨req, hext.sent _ _ hwit.sent, hwit.member, fun w hw => hwit.past w (hcalls w hw)⟩
    · exact hanswers a ha hold
  · have hcounted := h.leads n hn l hl
    exact ⟨hcounted.peers, hcounted.epoch, fun w hw => hcounted.target w (hcalls w hw),
      fun w hw hwn ht hle => (hcounted.confirmed w (hcalls w hw) hwn ht hle).extend hext,
      fun w hw hwn ht hlt m hm hne =>
        (hcounted.acks w (hcalls w hw) hwn ht hlt m hm hne).extend hext⟩

theorem Acknowledged.member {m : NodeId} (h : Sound cfg nodes record)
    (hack : Acknowledged record w m) : m ∈ cfg.members := by
  obtain ⟨a, ha, rpc, -, hsent, -⟩ := hack
  obtain ⟨req, hwit⟩ := h.answers a ha
  obtain rfl := Option.some.inj (hwit.sent.symm.trans hsent)
  exact hwit.member

/-! ## An answer counts -/

/-- One answer more for the open epoch, and perhaps the last. -/
theorem Counted.acknowledge {term q : Nat} {peer : NodeId} (hsound : Sound cfg nodes record)
    (hmem : n ∈ cfg.members) (h : Counted cfg record n term l)
    (hq : quorumOf (cfg.peer_ids n) ≤ q)
    (hack : ∀ w ∈ record.calls, w.node = n → w.probe.term = term →
      l.confirmed_read_epoch < w.probe.target_epoch → Acknowledged record w peer) :
    Counted cfg record n term (l.acknowledge_heartbeat peer q) := by
  have hacks : ∀ w ∈ record.calls, w.node = n → w.probe.term = term →
      l.confirmed_read_epoch < w.probe.target_epoch →
      ∀ m ∈ insert peer l.heartbeat_acks, m ≠ n → Acknowledged record w m := by
    intro w hw hwn ht hlt m hm hne
    rcases Finset.mem_insert.mp hm with rfl | hm
    · exact hack w hw hwn ht hlt
    · exact h.acks w hw hwn ht hlt m hm hne
  unfold Leader.acknowledge_heartbeat
  dsimp only
  split
  · rename_i hcard
    refine ⟨h.peers, .inl rfl, h.target, fun w hw hwn ht hle => ?_, fun w hw hwn ht hlt => ?_⟩
    · by_cases hold : w.probe.target_epoch ≤ l.confirmed_read_epoch
      · exact h.confirmed w hw hwn ht hold
      have hlt : l.confirmed_read_epoch < w.probe.target_epoch := by omega
      have hown : n ∈ l.heartbeat_acks := by
        rcases h.epoch with heq | ⟨-, hown⟩
        · have hle : w.probe.target_epoch ≤ l.current_read_epoch := hle
          omega
        · exact hown
      have hsub : insert peer l.heartbeat_acks ⊆ voters cfg := by
        intro m hm
        refine List.mem_toFinset.mpr ?_
        by_cases hmn : m = n
        · exact hmn ▸ hmem
        · exact (hacks w hw hwn ht hlt m hm hmn).member hsound
      exact ⟨_, majority_of_quorum hmem hsub (hq.trans hcard),
        hwn ▸ Finset.mem_insert_of_mem hown, fun m hm hne =>
          hacks w hw hwn ht hlt m hm (hwn ▸ hne)⟩
    · have hle := h.target w hw hwn ht
      have hlt : l.current_read_epoch < w.probe.target_epoch := hlt
      omega
  · exact ⟨h.peers, h.epoch.imp id fun hopen => ⟨hopen.1, Finset.mem_insert_of_mem hopen.2⟩,
      h.target, h.confirmed, hacks⟩

/-- The leader's data changes as long as it stays a sound account of its calls. -/
theorem Sound.relead (h : Sound cfg nodes record) (hmem : n ∈ cfg.members)
    (hcounted : Counted cfg record n (nodes n).current_term l') :
    Sound cfg (Function.update nodes n
      ((nodes n).withRole ((nodes n).node.transition l') .Leader)) record := by
  have hterm : ∀ m, (Function.update nodes n
      ((nodes n).withRole ((nodes n).node.transition l') .Leader) m).current_term =
      (nodes m).current_term := by
    intro m
    by_cases hm : m = n
    · rw [hm, Function.update_self]
      rfl
    · rw [Function.update_of_ne hm]
  refine ⟨fun m hm => ?_, h.answers, fun w hw => ?_, fun m hm l₁ hl₁ => ?_⟩
  · by_cases hmn : m = n
    · rw [hmn, Function.update_self]
      exact h.node_id n hmem
    · rw [Function.update_of_ne hmn]
      exact h.node_id m hm
  · obtain ⟨hmember, hown, hpast, hstood⟩ := h.calls w hw
    refine ⟨hmember, hown, fun m => (hterm m).symm ▸ hpast m, ?_⟩
    by_cases hwn : w.node = n
    · rw [hwn, Function.update_self]
      intro heq hrole
      cases hrole
    · rw [Function.update_of_ne hwn]
      exact hstood
  · rw [hterm]
    by_cases hmn : m = n
    · subst hmn
      rw [Function.update_self] at hl₁
      obtain rfl := RoleState.Leader.inj hl₁
      exact hcounted
    · rw [Function.update_of_ne hmn] at hl₁
      exact h.leads m hm l₁ hl₁

theorem Sound.counted {a : Answer} {peer : NodeId} {rpc : Rpc α} (h : Sound cfg nodes record)
    (hmem : n ∈ cfg.members) (hl : (nodes n).node.state = .Leader l) (ha : a ∈ record.answers)
    (hsent : record.sent[a.request]? = some ⟨n, (nodes n).current_term, peer, rpc⟩)
    (hle : a.reply.term ≤ (nodes n).current_term)
    (hfresh : ∀ w ∈ record.calls, w.node = n → w.probe.term = (nodes n).current_term →
      l.confirmed_read_epoch < w.probe.target_epoch → w.before ≤ a.request) :
    Sound cfg (Function.update nodes n (acknowledged (nodes n) l peer)) record := by
  have hcounted := h.leads n hmem l hl
  have hq : quorumOf (cfg.peer_ids n) ≤ (l.next_index.entries.length + 1) / 2 + 1 := by
    have hpeers := hcounted.peers
    unfold quorumOf
    dsimp only
    omega
  refine h.relead hmem (hcounted.acknowledge h hmem hq fun w hw hwn ht hlt => ?_)
  refine ⟨a, ha, rpc, hfresh w hw hwn ht hlt, ?_, ht ▸ hle⟩
  rw [hwn, ht]
  exact hsent

/-! ## A call begins -/

/-- A new epoch unless one is open, and the call waits for it. -/
theorem Counted.probe {term : Nat} (h : Counted cfg record n term l)
    (hopen : l.confirmed_read_epoch ≠ l.current_read_epoch → l.heartbeat_acks = {n}) :
    Counted cfg record n term (l.prepare_read_probe n).1 ∧
      (l.prepare_read_probe n).1.confirmed_read_epoch < (l.prepare_read_probe n).2 ∧
      (l.prepare_read_probe n).1.current_read_epoch = (l.prepare_read_probe n).2 ∧
      (l.prepare_read_probe n).1.heartbeat_acks = {n} := by
  unfold Leader.prepare_read_probe
  dsimp only
  split
  · rename_i hclosed
    refine ⟨⟨h.peers, .inr ⟨congrArg (· + 1) hclosed, Finset.mem_singleton_self n⟩,
      fun w hw hwn ht => (h.target w hw hwn ht).trans (Nat.le_succ _), h.confirmed,
      fun w hw hwn ht hlt => ?_⟩, ?_, rfl, rfl⟩
    · have hle := h.target w hw hwn ht
      have hlt : l.confirmed_read_epoch < w.probe.target_epoch := hlt
      omega
    · dsimp only
      omega
  · rename_i hnot
    have hepoch := h.epoch
    refine ⟨h, ?_, rfl, hopen hnot⟩
    omega

/-- A call of a leader of the term joins an epoch that nobody has answered. -/
theorem Sound.begin (h : Sound cfg nodes record) (hmem : n ∈ cfg.members)
    (hl : (nodes n).node.state = .Leader l) {probe : ReadProbe}
    (hterm : probe.term = (nodes n).current_term)
    (hwaits : l.confirmed_read_epoch < probe.target_epoch)
    (htarget : l.current_read_epoch = probe.target_epoch) (hacks : l.heartbeat_acks = {n}) :
    Sound cfg nodes { record with
      calls := ⟨n, probe, record.sent.length, fun m => (nodes m).current_term⟩ ::
        record.calls } := by
  have hext : Extends record { record with
      calls := ⟨n, probe, record.sent.length, fun m => (nodes m).current_term⟩ ::
        record.calls } := ⟨fun _ _ hi => hi, fun a ha => ha⟩
  refine ⟨h.node_id, fun a ha => ?_, fun w hw => ?_, fun m hm l₁ hl₁ => ?_⟩
  · obtain ⟨req, hsent, hmember, hpast⟩ := h.answers a ha
    refine ⟨req, hsent, hmember, fun w hw hbefore => ?_⟩
    rcases List.mem_cons.mp hw with rfl | hw
    · have hlt := (List.getElem?_eq_some_iff.mp hsent).1
      have hge : record.sent.length ≤ a.request := hbefore
      omega
    · exact hpast w hw hbefore
  · rcases List.mem_cons.mp hw with rfl | hw
    · refine ⟨hmem, hterm.symm, fun m => le_rfl, fun _ => ?_⟩
      simp [LogicalNode.node_role, hl, RoleState.node_role]
    · exact h.calls w hw
  · have hcounted := h.leads m hm l₁ hl₁
    have hnew : n = m → l₁ = l := by
      rintro rfl
      exact RoleState.Leader.inj (hl₁.symm.trans hl)
    refine ⟨hcounted.peers, hcounted.epoch, fun w hw hwm ht => ?_, fun w hw hwm ht hle => ?_,
      fun w hw hwm ht hlt p hp hne => ?_⟩ <;> rcases List.mem_cons.mp hw with rfl | hw
    · rw [hnew hwm]
      exact htarget.ge
    · exact hcounted.target w hw hwm ht
    · rw [hnew hwm] at hle
      exact absurd hwaits (not_lt.mpr hle)
    · exact (hcounted.confirmed w hw hwm ht hle).extend hext
    · obtain rfl := hnew hwm
      rw [hacks] at hp
      exact absurd ((Finset.mem_singleton.mp hp).trans hwm) hne
    · exact (hcounted.acks w hw hwm ht hlt p hp hne).extend hext

/-! ## A call that returns -/

theorem Vouched.unreached (hsound : Sound cfg nodes record) (hw : w ∈ record.calls)
    (h : Vouched cfg record w) {t : Nat} (ht : w.probe.term < t) : ¬Reached cfg w.terms t := by
  rintro ⟨Q', hmaj', hreached⟩
  obtain ⟨Q, hmaj, -, hacks⟩ := h
  obtain ⟨m, hm, hm'⟩ := hmaj.meet hmaj'
  have hle := hreached m hm'
  by_cases hown : m = w.node
  · rw [hown, (hsound.calls w hw).own] at hle
    omega
  · obtain ⟨a, ha, rpc, hbefore, hsent, hwithin⟩ := hacks m hm hown
    obtain ⟨req, hreq, -, hpast⟩ := hsound.answers a ha
    obtain rfl := Option.some.inj (hreq.symm.trans hsent)
    have hpast : w.terms m ≤ a.reply.term := hpast w hw hbefore
    omega

/-- What a call has seen at a channel that shows its node. -/
theorem await_probe_ok {sh : ConsensusShell α} (hshown : Shown sh) {probe : ReadProbe}
    (hok : await_probe sh.progress probe = some (.ok ())) :
    ∃ l, sh.inner.node.state = .Leader l ∧ sh.inner.current_term = probe.term ∧
      probe.target_epoch ≤ l.confirmed_read_epoch := by
  unfold await_probe at hok
  split at hok
  · cases hok
  rename_i hstill
  split at hok
  swap
  · cases hok
  rename_i hconfirmed
  obtain ⟨hrole, hterm⟩ := not_or.mp hstill
  have hrole : sh.inner.node_role = .Leader := hshown.role.symm.trans (not_not.mp hrole)
  have hhealthy : sh.inner.is_poisoned = false := by
    unfold LogicalNode.is_poisoned
    rw [show sh.inner.node.state.node_role = .Leader from hrole]
    rfl
  obtain ⟨hsame, hepoch⟩ := hshown.healthy hhealthy
  cases hl : sh.inner.node.state with
  | Leader l =>
    refine ⟨l, rfl, hsame.symm.trans (not_not.mp hterm), ?_⟩
    have hshows : sh.inner.try_consensus_progress.confirmed_read_epoch =
        l.confirmed_read_epoch := by
      unfold LogicalNode.try_consensus_progress
      rw [hl]
    rw [← hshows, ← hepoch]
    exact hconfirmed
  | _ => simp [LogicalNode.node_role, hl, RoleState.node_role] at hrole

/-! ## Steps of the fleet -/

/-- The record is a sound account, and the channels of the members show their nodes. -/
structure Good (cfg : FleetConfig) (f : Fleet α) : Prop where
  sound : Sound cfg.cluster f.node f.record
  shown : ∀ n ∈ cfg.cluster.members, Shown (f.shell n)

theorem Fleet.after_stations (f : Fleet α) (n : NodeId) (st : Station α) (record : Record α)
    (m : NodeId) : (f.after n st record).stations m = if m = n then st else f.stations m :=
  Function.update_apply f.stations n st m

theorem Fleet.after_node (f : Fleet α) (n : NodeId) (st : Station α) (record : Record α) :
    (f.after n st record).node = Function.update f.node n st.node := by
  funext m
  unfold Fleet.node
  rw [Fleet.after_stations, Function.update_apply]
  split <;> rfl

section
variable {cfg : FleetConfig} {f f' : Fleet α} {st : Station α}

theorem Good.after (h : Good cfg f)
    (hsound : Sound cfg.cluster (Function.update f.node n st.node) record)
    (hshown : n ∈ cfg.cluster.members → Shown st.host.process.shell) :
    Good cfg (f.after n st record) := by
  refine ⟨?_, fun m hm => ?_⟩
  · rw [Fleet.after_node]
    exact hsound
  · unfold Fleet.shell
    rw [Fleet.after_stations]
    split
    · rename_i hmn
      exact hshown (hmn ▸ hm)
    · exact h.shown m hm

theorem Good.turned (h : Good cfg f) (hmem : n ∈ cfg.cluster.members)
    (hturned : Turned (cfg.cluster.peer_ids n) (f.shell n) st.host.process.shell)
    (hrecord : Sound cfg.cluster f.node record) : Good cfg (f.after n st record) :=
  h.after (hrecord.turn hmem hturned.turn) fun _ => hturned.shown (h.shown n hmem)

theorem isErrand_host {b : HostAct α} (h : isErrand (.Host b) = true) : isWork b = true := by
  cases b with
  | Deliver msg timeout => rfl
  | InstallSnapshot params timeout => rfl
  | _ => exact h

variable [DecidableEq α] {c : SnapshotCodec α}

theorem Good.work {a : StationAct α} (h : Good cfg f)
    (hs : fleetStep cfg c f (.Work n a) = some f') : Good cfg f' := by
  simp only [fleetStep] at hs
  split at hs
  swap
  · cases hs
  rename_i hwork
  obtain ⟨hmem, herrand⟩ := hwork
  obtain ⟨st, hstep, rfl⟩ := Option.map_eq_some_iff.mp hs
  refine h.turned hmem (station_turned (fun r k reply timeout => ?_) (fun b => ?_) hstep) h.sound
  · rintro rfl
    cases herrand
  · rintro rfl
    exact isErrand_host herrand

omit [DecidableEq α] in
theorem answer_term {h : SnapshotHost α LactoStore} {timeout : Nat} {rpc : Rpc α}
    {reply : PeerReply} (hans : answer h timeout rpc = some reply) :
    h.node.current_term ≤ reply.term := by
  cases rpc with
  | AppendEntries req =>
    simp only [answer] at hans
    split at hans
    · rename_i r hres
      obtain rfl := Option.some.inj hans
      exact handle_append_entries_term hres
    · cases hans
  | InstallSnapshot params =>
    simp only [answer] at hans
    split at hans
    · rename_i hres
      obtain rfl := Option.some.inj hans
      exact handle_install_snapshot_term hres
    · cases hans

theorem Good.serve {i timeout : Nat} (h : Good cfg f)
    (hs : fleetStep cfg c f (.Serve i timeout) = some f') : Good cfg f' := by
  obtain ⟨req, hreq, hserve⟩ := Option.bind_eq_some_iff.mp hs
  split at hserve
  swap
  · cases hserve
  rename_i hmem
  obtain ⟨st, hstep, rfl⟩ := Option.map_eq_some_iff.mp hserve
  refine h.turned hmem (host_turned ?_ hstep) ?_
  · unfold Sent.delivery
    cases req.rpc <;> rfl
  refine h.sound.extend ⟨fun _ _ hi => hi, fun a ha => List.mem_append_left _ ha⟩
    (fun w hw => hw) fun a ha hnew => ?_
  obtain ⟨reply, hans, rfl⟩ := List.mem_map.mp ((List.mem_append.mp ha).resolve_left hnew)
  refine ⟨req, hreq, hmem, fun w hw _ => ?_⟩
  exact ((h.sound.calls w hw).past req.peer).trans (answer_term (Option.mem_toList.mp hans))

theorem Good.verify (h : Good cfg f) (hp : Punctual f (.Verify n))
    (hs : fleetStep cfg c f (.Verify n) = some f') : Good cfg f' := by
  simp only [fleetStep] at hs
  split at hs
  swap
  · cases hs
  rename_i hmem
  obtain ⟨st, hstep, rfl⟩ := Option.map_eq_some_iff.mp hs
  have hshell : st.host.process.shell = (f.shell n).prepare_probe.1 := probe_shell hstep
  have hshown : Shown st.host.process.shell := by
    rw [hshell]
    exact (h.shown n hmem).write _
  have hnode : st.node = (f.shell n).prepare_probe.1.inner := congrArg (·.inner) hshell
  rcases prepare_probe_cases (f.shell n) with
    ⟨l, probe, hl, hres, hterm, htarget, hinner⟩ | ⟨⟨e, hres⟩, hinner⟩
  · rw [hres]
    have hid : (f.shell n).inner.node_id = n := h.sound.node_id n hmem
    rw [hid] at htarget hinner
    obtain ⟨hcounted, hwaits, hcurrent, hacks⟩ :=
      (h.sound.leads n hmem l hl).probe (hp l hl)
    have hsound := h.sound.relead hmem hcounted
    rw [show (f.node n).withRole ((f.node n).node.transition (l.prepare_read_probe n).1) .Leader =
      st.node from (hnode.trans hinner).symm] at hsound
    have hleads : (Function.update f.node n st.node n).node.state =
        .Leader (l.prepare_read_probe n).1 := by
      rw [Function.update_self, hnode, hinner]
      rfl
    have hsame : probe.term = (Function.update f.node n st.node n).current_term := by
      rw [Function.update_self, hnode, hinner, hterm]
      rfl
    rw [← htarget] at hwaits hcurrent
    have hbegun := hsound.begin hmem hleads hsame hwaits hcurrent hacks
    refine h.after ?_ fun _ => hshown
    have hterms : (fun m => (Function.update f.node n st.node m).current_term) =
        fun m => (f.node m).current_term := by
      funext m
      by_cases hm : m = n
      · rw [hm, Function.update_self, hnode, hinner]
        rfl
      · rw [Function.update_of_ne hm]
    rw [hterms] at hbegun
    exact hbegun
  · rw [hres]
    refine h.after ?_ fun _ => hshown
    rw [show st.node = f.node n from hnode.trans hinner, Function.update_eq_self]
    exact h.sound

theorem Good.leave {i : Nat} (h : Good cfg f)
    (hs : fleetStep cfg c f (.Leave i) = some f') : Good cfg f' := by
  obtain rfl := Option.some.inj hs
  exact ⟨h.sound.extend ⟨fun _ _ hi => hi, fun a ha => ha⟩
    (fun w hw => List.mem_of_mem_eraseIdx hw) fun a ha hnew => absurd ha hnew, h.shown⟩

theorem answerFor_some {r k i : Nat} {params : ReplicationRoundParams} {peer : NodeId}
    {call : PeerCall α} {a : Answer} (hat : f.callAt n r k = some (params, peer, call))
    (hans : f.answerFor n r k i = some a) :
    a ∈ f.record.answers ∧
      ∃ rpc, f.record.sent[a.request]? = some ⟨n, params.term, peer, rpc⟩ := by
  unfold Fleet.answerFor at hans
  rw [hat, Option.bind_some] at hans
  obtain ⟨rpc, -, hto⟩ := Option.bind_eq_some_iff.mp hans
  obtain ⟨hi, hsent⟩ := Option.filter_eq_some_iff.mp hto
  exact ⟨List.mem_of_getElem? hi, rpc, by simpa using hsent⟩

theorem Good.call {r k timeout : Nat} {i : Option Nat} (h : Good cfg f)
    (hp : Punctual f (.Call n r k i timeout))
    (hs : fleetStep cfg c f (.Call n r k i timeout) = some f') : Good cfg f' := by
  simp only [fleetStep] at hs
  split at hs
  swap
  · cases hs
  rename_i hguard
  have hmem := hguard.1
  obtain ⟨⟨params, peer, call⟩, hat, hrest⟩ := Option.bind_eq_some_iff.mp hs
  obtain ⟨⟨h₁, res⟩, -, hmap⟩ := Option.bind_eq_some_iff.mp hrest
  obtain ⟨st, hstep, rfl⟩ := Option.map_eq_some_iff.mp hmap
  have hext : Extends f.record { f.record with
      sent := f.record.sent ++ (requested res).toList.map (Sent.mk n params.term peer) } :=
    ⟨fun j req hj => (List.getElem?_append_left (List.getElem?_eq_some_iff.mp hj).1).trans hj,
      fun a ha => ha⟩
  obtain ⟨round, peer₁, call₁, hr, hk, hturned | ⟨hprobing, reply, hreply, hcounted⟩⟩ :=
    call_turned hstep
  · exact h.turned hmem hturned
      (h.sound.extend hext (fun w hw => hw) fun a ha hnew => absurd ha hnew)
  have hsame : f.callAt n r k = some (round.params, peer₁, call₁) := by
    unfold Fleet.callAt
    rw [hr, Option.bind_some, hk]
    rfl
  obtain ⟨rfl, hpair⟩ := Prod.mk.inj (Option.some.inj (hsame.symm.trans hat))
  obtain ⟨rfl, rfl⟩ := Prod.mk.inj hpair
  obtain ⟨a, hgiven, rfl⟩ := Option.map_eq_some_iff.mp hreply
  obtain ⟨j, rfl, hans⟩ := Option.bind_eq_some_iff.mp hgiven
  obtain ⟨ha, rpc, hsent⟩ := answerFor_some hat hans
  obtain ⟨hcurrent, hwithin, ⟨l, hl, hheld⟩, hshown⟩ := hcounted
  have hterm : (f.node n).current_term = round.params.term := hcurrent
  rw [← hterm] at hsent hwithin
  have hsound := h.sound.counted hmem hl ha hsent hwithin fun w hw hwn ht hlt =>
    hp l _ _ _ a hl hat hprobing hterm.symm hans (hterm ▸ hwithin) w hw ⟨hwn, ht, hlt⟩
  have hturn : Turn (cfg.cluster.peer_ids n)
      (Function.update f.node n (acknowledged (f.node n) l peer₁) n) st.node := by
    rw [Function.update_self]
    exact .held hheld
  have hsound := (hsound.extend hext (fun w hw => hw)
    fun a ha hnew => absurd ha hnew).turn hmem hturn
  rw [Function.update_idem] at hsound
  exact h.after hsound fun _ => hshown (h.shown n hmem)

omit [DecidableEq α] in
theorem reboot_boots {codec : Codec α} {node_id heartbeat_interval timeout : Nat}
    {db fsm : LactoStore} {disk : SledStorage α} {ln : LogicalNode α}
    (hboot : reboot codec node_id heartbeat_interval timeout db disk = some (fsm, ln)) :
    ln.node_id = node_id ∧ ln.current_term = disk.current_term ∧ Idles ln := by
  unfold reboot LogicalNode.try_new at hboot
  split at hboot
  · cases hboot
  dsimp only at hboot
  split_ifs at hboot
  obtain ⟨rfl, rfl⟩ := Prod.mk.inj (Option.some.inj hboot)
  exact ⟨rfl, rfl, idles_follower rfl⟩

theorem Good.restart {timeout : Nat} {db : LactoStore} {disk : SledStorage α} (h : Good cfg f)
    (hs : fleetStep cfg c f (.Restart n timeout db disk) = some f') : Good cfg f' := by
  simp only [fleetStep] at hs
  split at hs
  swap
  · cases hs
  rename_i hguard
  obtain ⟨hmem, hsaved⟩ := hguard
  obtain ⟨⟨fsm, ln⟩, hboot, rfl⟩ := Option.map_eq_some_iff.mp hs
  obtain ⟨hid, hterm, hidle⟩ := reboot_boots hboot
  have hheld : Held (f.node n) ln :=
    .out (hid.trans (h.sound.node_id n hmem).symm) (hterm ▸ hsaved) hidle
  have hsound : Sound cfg.cluster f.node { f.record with
      calls := f.record.calls.filter fun w => w.node ≠ n } :=
    h.sound.extend ⟨fun _ _ hi => hi, fun a ha => ha⟩ (fun w hw => (List.mem_filter.mp hw).1)
      fun a ha hnew => absurd ha hnew
  have hturned := hsound.turn hmem (.held hheld)
  exact h.after hturned fun _ => Shown.new ln

theorem Good.step {a : FleetAct α} (h : Good cfg f) (hp : Punctual f a)
    (hs : fleetStep cfg c f a = some f') : Good cfg f' := by
  cases a with
  | Work n a => exact h.work hs
  | Call n r k answer timeout => exact h.call hp hs
  | Serve i timeout => exact h.serve hs
  | Verify n => exact h.verify hp hs
  | Leave i => exact h.leave hs
  | Restart n timeout db disk => exact h.restart hs

omit [DecidableEq α] in
theorem FleetStarted.good (hstart : FleetStarted cfg c f) : Good cfg f := by
  have hbooted : ∀ n ∈ cfg.cluster.members,
      (f.node n).node_id = n ∧ Idles (f.node n) ∧ Shown (f.shell n) := by
    intro n hn
    obtain ⟨timeout, db, disk, fsm, ln, hboot, heq⟩ := hstart.stations n hn
    obtain ⟨hid, -, hidle⟩ := reboot_boots hboot
    unfold Fleet.node Fleet.shell
    rw [heq]
    exact ⟨hid, hidle, Shown.new ln⟩
  have hrecord := hstart.record
  refine ⟨⟨fun n hn => (hbooted n hn).1, ?_, ?_, fun n hn l hl => ?_⟩,
    fun n hn => (hbooted n hn).2.2⟩
  · rw [hrecord]
    intro a ha
    cases ha
  · rw [hrecord]
    intro w hw
    cases hw
  · refine absurd ?_ (hbooted n hn).2.1.1
    simp [LogicalNode.node_role, hl, RoleState.node_role]

/-- A call that returns was acknowledged after it had begun, by a majority that no later term
has reached before. -/
theorem verify_leadership_quorum_sound {f₀ : Fleet α} (hstart : FleetStarted cfg c f₀)
    (hrun : FleetRun cfg c Punctual f₀ f) (hw : w ∈ f.record.calls)
    (hok : await_probe (f.shell w.node).progress w.probe = some (.ok ())) :
    (f.node w.node).node_role = .Leader ∧ (f.node w.node).current_term = w.probe.term ∧
      Vouched cfg.cluster f.record w ∧
      ∀ t, w.probe.term < t → ¬Reached cfg.cluster w.terms t := by
  have hg : Good cfg f :=
    hrun.invariant (fun f a f' hg hp hs => hg.step hp hs) hstart.good
  have hmem := (hg.sound.calls w hw).member
  obtain ⟨l, hl, hterm, hle⟩ := await_probe_ok (hg.shown w.node hmem) hok
  have hvouched := (hg.sound.leads w.node hmem l hl).confirmed w hw rfl hterm.symm hle
  refine ⟨?_, hterm, hvouched, fun t ht => hvouched.unreached hg.sound hw ht⟩
  unfold LogicalNode.node_role
  rw [show (f.node w.node).node.state = .Leader l from hl]
  rfl

end

/-! ## Three nodes -/

def threeNodes : FleetConfig := ⟨firstOfThree.cluster, firstOfThree.snapshot_threshold⟩

def threeStart : Fleet Bytes :=
  let fresh (n : NodeId) : RaftNode Bytes Follower :=
    RaftNode.try_new_with_applied n SledStorage.new 0 0 1
  ⟨fun n => booted .new ⟨(fresh n).transition (.Follower (fresh n).state), 0, 1⟩, ⟨[], [], []⟩⟩

theorem started_three : FleetStarted threeNodes plainSnapshots threeStart :=
  ⟨fun _ _ => ⟨1, .new, .new, _, _, rfl, rfl⟩, rfl⟩

def fleetAfter (as : List (FleetAct Bytes)) : Fleet Bytes :=
  (exec (fleetStep threeNodes plainSnapshots) threeStart as).getD threeStart

/-- Node 1 is elected in term 1 with the vote of node 2. -/
def electFirst : List (FleetAct Bytes) :=
  [.Work 1 (.Host (.Tick 1)), .Work 2 (.Host (.Deliver (.PreVote 2 ⟨0, 1, 0, 0⟩) 1)),
    .Work 1 (.Host (.RunTask 0 2 (some (.PreVoteReply 2 ⟨0, 1, 0, 0⟩ ⟨0, true⟩)) 1)),
    .Work 1 (.Host (.RunTask 0 2 none 5)),
    .Work 2 (.Host (.Deliver (.RequestVote 2 ⟨1, 1, 0, 0⟩) 1)),
    .Work 1 (.Host (.RunTask 0 2 (some (.VoteReply 2 ⟨1, 1, 0, 0⟩ ⟨1, true⟩)) 5))]

/-- A call sends a heartbeat to node 2, and the answer to it counts. -/
def verifyFirst : List (FleetAct Bytes) :=
  electFirst ++ [.Verify 1, .Call 1 0 0 none 5, .Serve 0 1, .Call 1 0 0 (some 0) 5]

theorem verify_leadership_quorum_sound_first :
    ∃ w ∈ (fleetAfter verifyFirst).record.calls,
      await_probe ((fleetAfter verifyFirst).shell w.node).progress w.probe = some (.ok ()) ∧
      Vouched threeNodes.cluster (fleetAfter verifyFirst).record w := by
  have hrun : FleetRun threeNodes plainSnapshots Punctual threeStart
      (fleetAfter verifyFirst) := by
    refine run_of_takes verifyFirst (fun k a ha => ?_) (by decide +kernel)
    have hk : k < 10 := (List.getElem?_eq_some_iff.mp ha).1
    interval_cases k <;> obtain rfl := Option.some.inj ha
    all_goals try exact trivial
    · obtain ⟨l, hl, hclosed⟩ : ∃ l, ((fleetAfter electFirst).node 1).node.state = .Leader l ∧
          l.confirmed_read_epoch = l.current_read_epoch := ⟨_, rfl, rfl⟩
      intro l' hl' hopen
      obtain rfl := RoleState.Leader.inj (hl.symm.trans hl')
      exact absurd hclosed hopen
    · -- nothing had been sent when the call began
      have hfirst : ∀ w ∈ (fleetAfter (verifyFirst.take 9)).record.calls, w.before = 0 := by
        decide +kernel
      intro l params peer call a _ _ _ _ _ _ w hw _
      rw [hfirst w hw]
      exact Nat.zero_le _
  have hcalls : ∃ w, w ∈ (fleetAfter verifyFirst).record.calls ∧
      await_probe ((fleetAfter verifyFirst).shell w.node).progress w.probe = some (.ok ()) :=
    ⟨_, .head _, rfl⟩
  obtain ⟨w, hw, hok⟩ := hcalls
  exact ⟨w, hw, hok, (verify_leadership_quorum_sound started_three hrun hw hok).2.2.1⟩

/-- Node 1 sends a heartbeat and node 2 answers it. Then node 2 is elected in term 2 with the
vote of node 3; node 1 is asked to verify that it leads, and takes up the old answer. -/
def verifyLate : List (FleetAct Bytes) :=
  electFirst ++ [.Work 1 (.Host (.Tick 5)), .Call 1 0 0 none 5, .Serve 0 1,
    .Work 2 (.Host (.Tick 1)), .Work 3 (.Host (.Deliver (.PreVote 3 ⟨1, 2, 0, 0⟩) 1)),
    .Work 2 (.Host (.RunTask 0 3 (some (.PreVoteReply 3 ⟨1, 2, 0, 0⟩ ⟨0, true⟩)) 1)),
    .Work 2 (.Host (.RunTask 0 3 none 5)),
    .Work 3 (.Host (.Deliver (.RequestVote 3 ⟨2, 2, 0, 0⟩) 1)),
    .Work 2 (.Host (.RunTask 0 3 (some (.VoteReply 3 ⟨2, 2, 0, 0⟩ ⟨2, true⟩)) 5)),
    .Verify 1, .Call 1 1 0 (some 0) 5]

/-- The call returns, although nobody has acknowledged it and node 2 leads term 2. -/
theorem verify_leadership_quorum_stale :
    FleetStarted threeNodes plainSnapshots threeStart ∧
      FleetRun threeNodes plainSnapshots (fun _ _ => True) threeStart (fleetAfter verifyLate) ∧
      ((fleetAfter verifyLate).node 2).node_role = .Leader ∧
      ((fleetAfter verifyLate).node 2).current_term = 2 ∧
      ∃ w ∈ (fleetAfter verifyLate).record.calls,
        await_probe ((fleetAfter verifyLate).shell w.node).progress w.probe = some (.ok ()) ∧
        w.probe.term = 1 ∧ Reached threeNodes.cluster w.terms 2 ∧
        ¬Vouched threeNodes.cluster (fleetAfter verifyLate).record w := by
  have hcalls : ∃ w ∈ (fleetAfter verifyLate).record.calls,
      await_probe ((fleetAfter verifyLate).shell w.node).progress w.probe = some (.ok ()) ∧
      w.probe.term = 1 ∧ w.before = 1 ∧ w.terms 2 = 2 ∧ w.terms 3 = 2 :=
    ⟨_, .head _, rfl, rfl, rfl, rfl, rfl⟩
  have hold : ∀ a ∈ (fleetAfter verifyLate).record.answers, a.request = 0 := by decide +kernel
  obtain ⟨w, hw, hok, hterm, hbefore, htwo, hthree⟩ := hcalls
  refine ⟨started_three, run_of_takes verifyLate (fun _ _ _ => trivial) (by decide +kernel),
    by decide +kernel, by decide +kernel, w, hw, hok, hterm,
    ⟨{2, 3}, ⟨by decide, by decide⟩, ?_⟩, ?_⟩
  · intro m hm
    rcases Finset.mem_insert.mp hm with rfl | hm
    · exact htwo.ge
    · rw [Finset.mem_singleton.mp hm]
      exact hthree.ge
  · rintro ⟨Q, hmaj, -, hacks⟩
    have hcard : 1 < Q.card := by
      have hmost : 3 < 2 * Q.card := hmaj.more_than_half
      omega
    obtain ⟨m, hm, hne⟩ := Finset.exists_mem_ne hcard w.node
    obtain ⟨a, ha, rpc, hlater, -⟩ := hacks m hm hne
    rw [hold a ha, hbefore] at hlater
    omega

end raft_engine.fleet
