-- The requests of one client over all its lives: an id is given to one request and to no
-- other, whatever becomes of the state file and of the log, and a request goes out a bounded
-- number of times for each start of the process. What may still be sent is a reserve, which
-- a start fills and an attempt draws on.
import LactoSensus.ClientSession

open common.types
open machine
open ordmap

namespace client_cli

variable {s : ClientState} {client client' : Client} {p p' : Process}
  {drawn : List ProposeMutationRequest} {starts : Nat}

/-! ## Reserves -/

def ClientAct.isStart : ClientAct → Bool
  | .Start _ _ _ => true
  | _ => false

/-- The requests that a call has in hand. -/
def Call.requests : Call → List ProposeMutationRequest
  | .Propose payload => [payload]
  | .Repropose _ payload pending => payload :: pending.map Prod.snd
  | .Query => []

def Stage.requests : Stage → List ProposeMutationRequest
  | .Recovering pending => pending.map Prod.snd
  | .Ready => []
  | .Drawn payload => [payload]
  | .Retrying call _ _ => call.requests
  | .Awaiting call _ _ => call.requests
  | .Removing call => call.requests

/-- The most attempts of one call. -/
def MAX_ATTEMPTS : Nat := 2 * MAX_KNOWN_NODES

/-- What the call leaves for later. -/
def Call.rest : Call → List ProposeMutationRequest
  | .Repropose _ _ pending => pending.map Prod.snd
  | _ => []

/-- How often the call may still send the request, and how often what comes after it may. -/
def Call.reserve (call : Call) (attempts : Nat) (r : ProposeMutationRequest) : Nat :=
  (if call.payload? = some r then attempts else 0) + MAX_ATTEMPTS * call.rest.count r

/-- How often a process at the stage may still send the request, if it asks for nothing new. -/
def Stage.reserve (r : ProposeMutationRequest) : Stage → Nat
  | .Recovering pending => MAX_ATTEMPTS * (pending.map Prod.snd).count r
  | .Ready => 0
  | .Drawn payload => if payload = r then MAX_ATTEMPTS else 0
  | .Retrying call retry_count max_retries => call.reserve (max_retries - retry_count) r
  | .Awaiting call retry_count max_retries => call.reserve (max_retries - retry_count) r
  | .Removing call => call.reserve 0 r

def Client.reserve (client : Client) (r : ProposeMutationRequest) : Nat :=
  match client.process with
  | none => 0
  | some p => p.stage.reserve r

/-! ## The invariant -/

/-- The state has the client's id, and a number that no request is above. -/
structure Counts (s : ClientState) (drawn : List ProposeMutationRequest) (state : ClientState) :
    Prop where
  client_id : state.client_id = s.client_id
  first : s.sequence_id ≤ state.sequence_id
  last : ∀ r ∈ drawn, r.sequence_id ≤ state.sequence_id

/-- What a process has in hand. -/
structure Holds (s : ClientState) (drawn : List ProposeMutationRequest) (p : Process) : Prop where
  counts : Counts s drawn p.state
  nodes : p.state.known_nodes.length ≤ MAX_KNOWN_NODES
  requests : ∀ r ∈ p.stage.requests, r ∈ drawn

/-- What has been asked for so far, by how many processes. -/
structure Numbered (s : ClientState) (drawn : List ProposeMutationRequest) (starts : Nat)
    (client : Client) : Prop where
  own : ∀ r ∈ drawn, r.client_id = s.client_id ∧ s.sequence_id < r.sequence_id
  unique : ∀ r ∈ drawn, ∀ r' ∈ drawn, r.sequence_id = r'.sequence_id → r = r'
  sent : ∀ r ∈ client.sent, r ∈ drawn
  wal : ∀ id r, client.wal.get? id = some r → r ∈ drawn ∧ r.sequence_id = id
  file : ∀ state, client.file = .Saved state → Counts s drawn state
  process : ∀ p, client.process = some p → Holds s drawn p ∧ 0 < starts
  reserve : ∀ r, client.sent.count r + client.reserve r ≤ MAX_ATTEMPTS * starts

theorem Numbered.init (s : ClientState) : Numbered s [] 0 (.init s) where
  own := by simp
  unique := by simp
  sent := by simp [Client.init]
  wal id r h := by cases h
  file state h := by
    cases h
    exact ⟨rfl, le_refl _, by simp⟩
  process p h := by cases h
  reserve r := by simp [Client.init, Client.reserve]

/-- A step that asks for nothing new. -/
theorem Numbered.onward (h : Numbered s drawn starts client)
    (hsent : ∀ r ∈ client'.sent, r ∈ drawn)
    (hwal : ∀ id r, client'.wal.get? id = some r → r ∈ drawn ∧ r.sequence_id = id)
    (hfile : ∀ state, client'.file = .Saved state → Counts s drawn state)
    (hprocess : ∀ p', client'.process = some p' → Holds s drawn p' ∧ 0 < starts)
    (hreserve : ∀ r, client'.sent.count r + client'.reserve r ≤
      client.sent.count r + client.reserve r) : Numbered s drawn starts client' :=
  ⟨h.own, h.unique, hsent, hwal, hfile, hprocess, fun r => (hreserve r).trans (h.reserve r)⟩

/-- The process goes on with what it has in hand. -/
theorem Numbered.goto (h : Numbered s drawn starts client) (hstarts : 0 < starts) {stage : Stage}
    (hcounts : Counts s drawn p.state) (hnodes : p.state.known_nodes.length ≤ MAX_KNOWN_NODES)
    (hrequests : ∀ r ∈ stage.requests, r ∈ drawn)
    (hreserve : ∀ r, stage.reserve r ≤ client.reserve r) :
    Numbered s drawn starts (client.goto p stage) := by
  refine h.onward h.sent h.wal h.file (fun p' hp' => ?_) fun r => ?_
  · obtain rfl := Option.some.inj hp'
    exact ⟨⟨hcounts, hnodes, hrequests⟩, hstarts⟩
  · exact Nat.add_le_add_left (hreserve r) _

/-- The process is back at the prompt, with nothing in hand. -/
theorem Numbered.ready (h : Numbered s drawn starts client) (hstarts : 0 < starts)
    (hcounts : Counts s drawn p.state) (hnodes : p.state.known_nodes.length ≤ MAX_KNOWN_NODES) :
    Numbered s drawn starts (client.goto p .Ready) :=
  h.goto hstarts hcounts hnodes (fun _ hr => by cases hr) fun _ => Nat.zero_le _

theorem Numbered.halt (h : Numbered s drawn starts client) :
    Numbered s drawn starts { client with process := none } :=
  h.onward h.sent h.wal h.file (fun p' hp' => by cases hp') fun r => by simp [Client.reserve]

theorem Numbered.save (h : Numbered s drawn starts client) {state : ClientState}
    (hcounts : Counts s drawn state) (io : Io) :
    Numbered s drawn starts { client with file := client.file.save state io } := by
  refine h.onward h.sent h.wal (fun state' hstate' => ?_) h.process fun r => le_refl _
  cases io with
  | Written =>
    cases hstate'
    exact hcounts
  | Kept => exact h.file state' hstate'
  | Torn => cases hstate'

/-- The log has other entries. -/
theorem Numbered.rewrite (h : Numbered s drawn starts client)
    {wal : OrdMap Nat ProposeMutationRequest}
    (hwal : ∀ id r, wal.get? id = some r → r ∈ drawn ∧ r.sequence_id = id) :
    Numbered s drawn starts { client with wal := wal } :=
  h.onward h.sent hwal h.file h.process fun _ => le_refl _

theorem Numbered.fail (h : Numbered s drawn starts client) (hstarts : 0 < starts)
    (hcounts : Counts s drawn p.state) (hnodes : p.state.known_nodes.length ≤ MAX_KNOWN_NODES)
    (call : Call) : Numbered s drawn starts (client.fail p call) := by
  cases call with
  | Propose payload => exact h.ready hstarts hcounts hnodes
  | Repropose sequence_id payload pending => exact h.halt
  | Query => exact h.ready hstarts hcounts hnodes

theorem Numbered.succeed (h : Numbered s drawn starts client) (hstarts : 0 < starts)
    (hcounts : Counts s drawn p.state) (hnodes : p.state.known_nodes.length ≤ MAX_KNOWN_NODES)
    {call : Call} (hrequests : ∀ r ∈ call.requests, r ∈ drawn)
    (hreserve : ∀ r, MAX_ATTEMPTS * call.rest.count r ≤ client.reserve r) :
    Numbered s drawn starts (client.succeed p call) := by
  cases call with
  | Propose payload => exact h.ready hstarts hcounts hnodes
  | Repropose sequence_id payload pending =>
    exact h.goto hstarts hcounts hnodes
      (fun r hr => hrequests r (List.mem_cons_of_mem _ hr)) hreserve
  | Query => exact h.ready hstarts hcounts hnodes

/-- A call begins with all its attempts. -/
theorem Numbered.dispatch (h : Numbered s drawn starts client) (hstarts : 0 < starts)
    (hcounts : Counts s drawn p.state) (hnodes : p.state.known_nodes.length ≤ MAX_KNOWN_NODES)
    {call : Call} (hrequests : ∀ r ∈ call.requests, r ∈ drawn)
    (hreserve : ∀ r, call.reserve MAX_ATTEMPTS r ≤ client.reserve r) :
    Numbered s drawn starts (client.dispatch p call) := by
  refine h.goto hstarts hcounts hnodes hrequests fun r => ?_
  have hmax : p.state.known_nodes.length + MAX_KNOWN_NODES - 0 ≤ MAX_ATTEMPTS := by
    unfold MAX_ATTEMPTS
    omega
  refine le_trans ?_ (hreserve r)
  change call.reserve _ r ≤ _
  unfold Call.reserve
  split <;> omega

/-! ## The list of nodes -/

theorem record_success_length {state state' : ClientState} {addr : String}
    (h : state.record_success addr = some state') :
    state'.known_nodes.length ≤ MAX_KNOWN_NODES := by
  unfold ClientState.record_success at h
  split at h
  · cases h
  · obtain rfl := Option.some.inj h
    exact List.length_take_le _ _

theorem rotate_nodes_length {state state' : ClientState} (h : state.rotate_nodes = some state') :
    state'.known_nodes.length = state.known_nodes.length := by
  unfold ClientState.rotate_nodes at h
  split at h
  · rename_i current next rest heq
    obtain rfl := Option.some.inj h
    simp [heq]
  · cases h

theorem reroute_length {state state' : ClientState} {leader_hint : Option String}
    (h : state.reroute leader_hint = some state')
    (hnodes : state.known_nodes.length ≤ MAX_KNOWN_NODES) :
    state'.known_nodes.length ≤ MAX_KNOWN_NODES := by
  unfold ClientState.reroute at h
  split at h
  · split at h
    · exact record_success_length h
    · exact (rotate_nodes_length h).trans_le hnodes
  · exact (rotate_nodes_length h).trans_le hnodes

theorem load_length (state : ClientState) (seeds : List String) :
    (state.load seeds).1.known_nodes.length ≤ MAX_KNOWN_NODES := by
  unfold ClientState.load
  dsimp only
  split <;> exact List.length_take_le _ _

theorem Counts.of_same {state state' : ClientState} (h : Counts s drawn state)
    (hsame : state'.client_id = state.client_id ∧ state'.sequence_id = state.sequence_id) :
    Counts s drawn state' := by
  obtain ⟨hclient, hsequence⟩ := hsame
  exact ⟨hclient.trans h.client_id, hsequence ▸ h.first, hsequence ▸ h.last⟩

/-! ## The steps -/

section

variable {call : Call} {retry_count max_retries : Nat}

theorem Numbered.reconcile (h : Numbered s drawn starts client) (hp : client.process = some p)
    (hstage : p.stage = .Awaiting call retry_count max_retries) (leader_hint : Option String)
    (io : Io) : Numbered s drawn starts
      (client.reconcile_routing_failure p call retry_count max_retries leader_hint io) := by
  obtain ⟨⟨hcounts, hnodes, hrequests⟩, hstarts⟩ := h.process p hp
  rw [hstage] at hrequests
  have hreserve : ∀ r, (Stage.Retrying call retry_count max_retries).reserve r ≤
      client.reserve r := fun r => by rw [Client.reserve, hp]; simp [hstage, Stage.reserve]
  unfold Client.reconcile_routing_failure
  cases hroute : p.state.reroute leader_hint with
  | none => exact h.goto hstarts hcounts hnodes hrequests hreserve
  | some state =>
    have hcounts' := hcounts.of_same (reroute_same hroute)
    have hnodes' := reroute_length hroute hnodes
    dsimp only
    split
    · exact (h.save hcounts' io).goto hstarts hcounts' hnodes' hrequests hreserve
    · exact (h.save hcounts' io).fail hstarts hcounts' hnodes' call

theorem Numbered.receive (h : Numbered s drawn starts client) (hp : client.process = some p)
    (hstage : p.stage = .Awaiting call retry_count max_retries) (io : Io) (reply : Reply) :
    Numbered s drawn starts (client.receive p call retry_count max_retries io reply) := by
  obtain ⟨⟨hcounts, hnodes, hrequests⟩, hstarts⟩ := h.process p hp
  rw [hstage] at hrequests
  have hrest : ∀ r, MAX_ATTEMPTS * call.rest.count r ≤ client.reserve r := fun r => by
    rw [Client.reserve, hp]
    simp [hstage, Stage.reserve, Call.reserve]
  have hsucceed := h.succeed hstarts hcounts hnodes hrequests hrest
  have hfail := h.fail hstarts hcounts hnodes call
  cases reply with
  | Mutation res =>
    rw [Client.receive]
    split
    · exact h.reconcile hp hstage _ io
    · unfold Client.conclude
      split
      · refine h.goto hstarts hcounts hnodes hrequests fun r => ?_
        simpa [Stage.reserve, Call.reserve] using hrest r
      · exact hsucceed
  | Query rejected leader_hint =>
    rw [Client.receive]
    split
    · exact h.reconcile hp hstage _ io
    · exact hsucceed
  | Status code =>
    cases code with
    | Other => exact h.reconcile hp hstage none io
    | InvalidArgument => exact hfail
    | FailedPrecondition => exact hfail

/-- An attempt draws on the reserve of its request. -/
theorem Numbered.attempt (h : Numbered s drawn starts client) (hp : client.process = some p)
    (hstage : p.stage = .Retrying call retry_count max_retries) (reachable : Bool) :
    Numbered s drawn starts (client.attempt p call retry_count max_retries reachable) := by
  obtain ⟨⟨hcounts, hnodes, hrequests⟩, hstarts⟩ := h.process p hp
  rw [hstage] at hrequests
  have hfail := h.fail hstarts hcounts hnodes call
  unfold Client.attempt
  split
  · exact hfail
  split
  · exact hfail
  rename_i hleft _
  refine h.onward (fun r hr => ?_) h.wal h.file (fun p' hp' => ?_) fun r => ?_
  · rcases List.mem_append.mp hr with hnew | hold
    · apply hrequests r
      cases call with
      | Query => cases hnew
      | _ => exact (List.mem_singleton.mp hnew) ▸ List.mem_cons_self
    · exact h.sent r hold
  · obtain rfl := Option.some.inj hp'
    exact ⟨⟨hcounts, hnodes, hrequests⟩, hstarts⟩
  · have hbefore : client.reserve r = call.reserve (max_retries - retry_count) r := by
      rw [Client.reserve, hp]
      simp [hstage, Stage.reserve]
    rw [hbefore]
    change (call.payload?.toList ++ client.sent).count r +
      call.reserve (max_retries - (retry_count + 1)) r ≤ _
    unfold Call.reserve
    rw [List.count_append]
    rcases hpayload : call.payload? with _ | payload
    · simp
    · by_cases heq : payload = r
      · simp [heq]
        omega
      · simp [heq]

end

theorem next_sequence_id_ok {state state' : ClientState}
    (h : state.next_sequence_id = .ok state') :
    state'.client_id = state.client_id ∧ state'.sequence_id = state.sequence_id + 1 ∧
      state'.known_nodes = state.known_nodes := by
  unfold ClientState.next_sequence_id at h
  cases hadd : checked_add "SequenceId" state.sequence_id 1 with
  | error e =>
    rw [hadd] at h
    cases h
  | ok n =>
    rw [hadd] at h
    obtain ⟨rfl, -⟩ := checked_add_ok hadd
    obtain rfl := Except.ok.inj h
    exact ⟨rfl, rfl, rfl⟩

/-- A new request has an id of its own. -/
theorem Numbered.draw (h : Numbered s drawn starts client) (hp : client.process = some p)
    {state : ClientState} (hnext : p.state.next_sequence_id = .ok state) (intent : MutationIntent) :
    Numbered s (.new state.client_id state.sequence_id intent :: drawn) starts
      ({ client with file := .Saved state }.goto { p with state := state }
        (.Drawn (.new state.client_id state.sequence_id intent))) := by
  obtain ⟨⟨hcounts, hnodes, -⟩, hstarts⟩ := h.process p hp
  obtain ⟨hclient, hsequence, hknown⟩ := next_sequence_id_ok hnext
  generalize hnew : ProposeMutationRequest.new state.client_id state.sequence_id intent = new
  have hnewid : new.sequence_id = p.state.sequence_id + 1 := by
    rw [← hnew]
    exact hsequence
  have hfresh : ∀ r ∈ drawn, r.sequence_id ≠ new.sequence_id := fun r hr => by
    have := hcounts.last r hr
    omega
  have hmem {P : ProposeMutationRequest → Prop} (hP : P new) (hrest : ∀ r ∈ drawn, P r) :
      ∀ r ∈ new :: drawn, P r := List.forall_mem_cons.mpr ⟨hP, hrest⟩
  have hcounts' : Counts s (new :: drawn) state := by
    refine ⟨hclient.trans hcounts.client_id, ?_, hmem (by omega) fun r hr => ?_⟩
    · have := hcounts.first
      omega
    · have := hcounts.last r hr
      omega
  refine ⟨hmem ⟨?_, ?_⟩ h.own, ?_, fun r hr => List.mem_cons_of_mem _ (h.sent r hr),
    fun id r hr => ?_, fun state' hstate' => ?_, fun p' hp' => ?_, fun r => ?_⟩
  · rw [← hnew]
    exact hclient.trans hcounts.client_id
  · have := hcounts.first
    omega
  · refine hmem (hmem (fun _ => rfl) fun r hr heq => absurd heq.symm (hfresh r hr)) fun r hr => ?_
    exact hmem (fun heq => absurd heq (hfresh r hr)) (h.unique r hr)
  · exact ⟨List.mem_cons_of_mem _ (h.wal id r hr).1, (h.wal id r hr).2⟩
  · cases hstate'
    exact hcounts'
  · obtain rfl := Option.some.inj hp'
    refine ⟨⟨hcounts', hknown ▸ hnodes, fun r hr => ?_⟩, hstarts⟩
    rw [List.mem_singleton.mp hr]
    exact List.mem_cons_self
  · change client.sent.count r + (if new = r then MAX_ATTEMPTS else 0) ≤ _
    by_cases heq : new = r
    · -- it has never been sent
      have hno : client.sent.count r = 0 :=
        List.count_eq_zero.mpr fun hin => hfresh r (h.sent r hin) (heq ▸ rfl)
      rw [if_pos heq, hno, Nat.zero_add]
      exact Nat.le_mul_of_pos_right _ hstarts
    · rw [if_neg heq]
      exact (Nat.le_add_right _ _).trans (h.reserve r)

theorem Numbered.propose (h : Numbered s drawn starts client) (hp : client.process = some p)
    (intent : MutationIntent) (io : Io) :
    ∃ drawn', Numbered s drawn' starts (client.propose_mutation p intent io) := by
  obtain ⟨⟨hcounts, hnodes, -⟩, hstarts⟩ := h.process p hp
  unfold Client.propose_mutation
  cases hnext : p.state.next_sequence_id with
  | error e => exact ⟨drawn, h.ready hstarts hcounts hnodes⟩
  | ok state =>
    obtain ⟨hclient, hsequence, hknown⟩ := next_sequence_id_ok hnext
    have hcounts' : Counts s drawn state := by
      refine ⟨hclient.trans hcounts.client_id, ?_, fun r hr => ?_⟩
      · have := hcounts.first
        omega
      · have := hcounts.last r hr
        omega
    dsimp only
    split
    · rename_i hio
      subst hio
      exact ⟨_, h.draw hp hnext intent⟩
    · exact ⟨drawn, (h.save hcounts' io).ready hstarts hcounts' (hknown ▸ hnodes)⟩

/-- The log has a request under its own id only. -/
theorem Numbered.logged (h : Numbered s drawn starts client) (r : ProposeMutationRequest) :
    (client.wal.entries.map Prod.snd).count r ≤ 1 := by
  refine List.nodup_iff_count_le_one.mp ?_ r
  have hkeys : (client.wal.entries.map Prod.snd).map ProposeMutationRequest.sequence_id =
      client.wal.keys := by
    unfold OrdMap.keys
    rw [List.map_map]
    refine List.map_congr_left fun entry hentry => ?_
    obtain ⟨id, req⟩ := entry
    exact (h.wal id req ((OrdMap.get?_eq_some_iff _ _ _).mpr hentry)).2
  exact List.Nodup.of_map _ (hkeys ▸ client.wal.nodup_keys)

/-- A process begins with a reserve for each request in its log. -/
theorem Numbered.run (h : Numbered s drawn starts client) {state : ClientState}
    (hcounts : Counts s drawn state) (hnodes : state.known_nodes.length ≤ MAX_KNOWN_NODES) :
    Numbered s drawn (starts + 1)
      { client with process := some ⟨state, false, false, .Recovering client.wal.entries⟩ } := by
  refine ⟨h.own, h.unique, h.sent, h.wal, h.file, fun p hp => ?_, fun r => ?_⟩
  · obtain rfl := Option.some.inj hp
    refine ⟨⟨hcounts, hnodes, fun r hr => ?_⟩, Nat.succ_pos _⟩
    obtain ⟨⟨id, req⟩, hentry, rfl⟩ := List.mem_map.mp hr
    exact (h.wal id req ((OrdMap.get?_eq_some_iff _ _ _).mpr hentry)).1
  · change client.sent.count r + MAX_ATTEMPTS * (client.wal.entries.map Prod.snd).count r ≤ _
    have hsent : client.sent.count r ≤ MAX_ATTEMPTS * starts :=
      (Nat.le_add_right _ _).trans (h.reserve r)
    have hlogged := Nat.mul_le_mul_left MAX_ATTEMPTS (h.logged r)
    rw [Nat.mul_succ]
    omega

theorem Numbered.later (h : Numbered s drawn starts client) :
    Numbered s drawn (starts + 1) client :=
  ⟨h.own, h.unique, h.sent, h.wal, h.file,
    fun p hp => ⟨(h.process p hp).1, Nat.succ_pos _⟩,
    fun r => (h.reserve r).trans (Nat.mul_le_mul_left _ (Nat.le_succ _))⟩

theorem Numbered.start (h : Numbered s drawn starts client) {cluster_id : String}
    {seeds : List String} {io : Io} (hs : client.start cluster_id seeds io = some client') :
    Numbered s drawn (starts + 1) client' := by
  unfold Client.start at hs
  split at hs
  · rename_i state hnone hfile
    have hcounts := (h.file state hfile).of_same (load_same state seeds)
    have hnodes := load_length state seeds
    split at hs
    · cases hs
    dsimp only at hs
    split at hs
    · rename_i loaded heq
      rw [heq] at hcounts hnodes
      rw [← Option.some.inj hs]
      exact h.run hcounts hnodes
    · rename_i loaded heq
      rw [heq] at hcounts hnodes
      rw [← Option.some.inj hs]
      split
      · exact (h.save hcounts io).run hcounts hnodes
      · exact (h.save hcounts io).later
  · cases hs

theorem Numbered.works {a : ClientAct} (h : Numbered s drawn starts client)
    (hp : client.process = some p) (hs : Works client p a client') :
    ∃ drawn', Numbered s drawn' starts client' := by
  obtain ⟨⟨hcounts, hnodes, hrequests⟩, hstarts⟩ := h.process p hp
  have hreserve : ∀ r, client.reserve r = p.stage.reserve r := fun r => by
    rw [Client.reserve, hp]
  cases hs with
  | stop => exact ⟨drawn, h.halt⟩
  | ready hstage => exact ⟨drawn, h.ready hstarts hcounts hnodes⟩
  | @recover seq req pending hstage =>
    rw [hstage] at hrequests hreserve
    refine ⟨drawn, h.dispatch hstarts hcounts hnodes hrequests fun r => ?_⟩
    rw [hreserve]
    simp only [Call.reserve, Call.payload?, Call.rest, Stage.reserve, List.map_cons,
      List.count_cons, Option.some.injEq, beq_iff_eq]
    split <;> simp [Nat.mul_add, Nat.add_comm]
  | command hstage => exact h.propose hp _ _
  | ask hstage =>
    refine ⟨drawn, h.dispatch hstarts hcounts hnodes (fun r hr => by cases hr) fun r => ?_⟩
    simp [Call.reserve, Call.payload?, Call.rest]
  | @append payload ok durable logged hstage hlogged =>
    rw [hstage] at hrequests hreserve
    have hpayload := hrequests payload List.mem_cons_self
    have hlog : Numbered s drawn starts logged := by
      rw [hlogged]
      split
      · refine h.rewrite fun id r hr => ?_
        rw [OrdMap.get?_insert] at hr
        split at hr
        · rename_i hid
          rw [← Option.some.inj hr]
          exact ⟨hpayload, hid.symm⟩
        · exact h.wal id r hr
      · exact h
    have hsame : logged.process = client.process := by
      rw [hlogged]
      split <;> rfl
    split
    · refine ⟨drawn, hlog.dispatch hstarts hcounts hnodes hrequests fun r => ?_⟩
      rw [Client.reserve, hsame, hp]
      simp [hstage, Call.reserve, Call.payload?, Call.rest, Stage.reserve]
    · exact ⟨drawn, hlog.ready hstarts hcounts hnodes⟩
  | attempt hstage => exact ⟨drawn, h.attempt hp hstage _⟩
  | receive hstage hfits => exact ⟨drawn, h.receive hp hstage _ _⟩
  | @remove call ok durable removed hstage hremoved =>
    rw [hstage] at hrequests hreserve
    have hlog : Numbered s drawn starts removed := by
      rw [hremoved]
      split
      · refine h.rewrite fun id r hr => ?_
        rw [OrdMap.get?_erase] at hr
        split at hr
        · cases hr
        · exact h.wal id r hr
      · exact h
    have hsame : removed.process = client.process := by
      rw [hremoved]
      split <;> rfl
    split
    · refine ⟨drawn, hlog.succeed hstarts hcounts hnodes hrequests fun r => ?_⟩
      rw [Client.reserve, hsame, hp]
      simp [hstage, Stage.reserve, Call.reserve]
    · exact ⟨drawn, hlog.fail hstarts hcounts hnodes call⟩

theorem Numbered.step {a : ClientAct} (h : Numbered s drawn starts client)
    (hs : clientStep client a = some client') :
    ∃ drawn', Numbered s drawn' (starts + if a.isStart then 1 else 0) client' := by
  rcases clientStep_cases hs with ⟨cluster_id, seeds, io, rfl, hstart⟩ | ⟨p, hp, hworks⟩
  · exact ⟨drawn, h.start hstart⟩
  · have hact : a.isStart = false := by
      cases hworks <;> rfl
    rw [hact]
    exact h.works hp hworks

theorem Numbered.runs {acts : List ClientAct} (h : Numbered s drawn starts client)
    (hrun : exec clientStep client acts = some client') :
    ∃ drawn', Numbered s drawn' (starts + acts.countP ClientAct.isStart) client' := by
  induction acts generalizing client drawn starts with
  | nil =>
    obtain rfl := Option.some.inj hrun
    exact ⟨drawn, h⟩
  | cons a acts ih =>
    obtain ⟨next, hs, hrest⟩ := Option.bind_eq_some_iff.mp hrun
    obtain ⟨drawn₁, h₁⟩ := h.step hs
    obtain ⟨drawn₂, h₂⟩ := ih h₁ hrest
    refine ⟨drawn₂, ?_⟩
    rwa [List.countP_cons, Nat.add_comm (acts.countP _), ← Nat.add_assoc]

/-- Whatever comes back from the cluster, wherever the process ends and however its writes end:
the client has asked for nothing under the ids that were drawn before, an id names one request
for all time, sent or still in the log, and no request has gone out more than twenty times for
each start. -/
theorem requests_numbered {acts : List ClientAct}
    (hrun : exec clientStep (.init s) acts = some client) :
    (∀ a ∈ client.sent, a.client_id = s.client_id ∧ s.sequence_id < a.sequence_id) ∧
    (∀ a ∈ client.sent, ∀ b ∈ client.sent, a.sequence_id = b.sequence_id → a = b) ∧
    (∀ id r, client.wal.get? id = some r → r.client_id = s.client_id ∧ r.sequence_id = id ∧
      ∀ a ∈ client.sent, a.sequence_id = id → a = r) ∧
    ∀ a, client.sent.count a ≤ MAX_ATTEMPTS * acts.countP ClientAct.isStart := by
  obtain ⟨drawn, h⟩ := (Numbered.init s).runs hrun
  rw [Nat.zero_add] at h
  refine ⟨fun a ha => h.own a (h.sent a ha), fun a ha b hb => ?_, fun id r hr => ?_, fun a => ?_⟩
  · exact h.unique a (h.sent a ha) b (h.sent b hb)
  · obtain ⟨hr, hid⟩ := h.wal id r hr
    refine ⟨(h.own r hr).1, hid, fun a ha heq => ?_⟩
    exact h.unique a (h.sent a ha) r hr (heq.trans hid.symm)
  · exact (Nat.le_add_right _ _).trans (h.reserve a)

def fourDrawn : ClientState :=
  ⟨"home", "6ba7b810-9dad-11d1-80b4-00c04fd430c8", 4, ["10.0.0.1", "10.0.0.2"]⟩

/-- An attempt that fails, a crash while the next one is on the way, and the recovery. -/
def milkTwice : List ClientAct :=
  [.Start "home" [] .Written, .Recover, .Command milkIntent .Written, .Append true true,
    .Attempt true, .Receive (.Status .Other) .Kept, .Stop, .Start "home" [] .Written, .Recover,
    .Attempt true, .Receive (.Status .Other) .Written, .Attempt true]

def milkAsked : ProposeMutationRequest := .new fourDrawn.client_id 5 milkIntent

theorem milkTwice_sent :
    (exec clientStep (.init fourDrawn) milkTwice).map Client.sent =
      some [milkAsked, milkAsked, milkAsked] := by
  decide +kernel

theorem requests_numbered_twice :
    ∃ client, exec clientStep (.init fourDrawn) milkTwice = some client ∧
      (∀ a ∈ client.sent, a.client_id = fourDrawn.client_id ∧
        fourDrawn.sequence_id < a.sequence_id) ∧
      (∀ a ∈ client.sent, ∀ b ∈ client.sent, a.sequence_id = b.sequence_id → a = b) ∧
      (∀ id r, client.wal.get? id = some r → r.client_id = fourDrawn.client_id ∧
        r.sequence_id = id ∧ ∀ a ∈ client.sent, a.sequence_id = id → a = r) ∧
      ∀ a, client.sent.count a ≤ MAX_ATTEMPTS * milkTwice.countP ClientAct.isStart := by
  obtain ⟨client, hrun, -⟩ := Option.map_eq_some_iff.mp milkTwice_sent
  exact ⟨client, hrun, requests_numbered hrun⟩

end client_cli
