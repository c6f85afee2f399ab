-- The session of one client, over both processes and their crashes: as long as
-- no id is lost between the file and the log, nothing is asked for after a
-- mutation that failed, and an acknowledged entry is still there, a new id is
-- the one that the sequence firewall waits for.
import LactoSensus.Client
import LactoSensus.Outcomes

open common.types
open common.proto
open lacto_fsm
open machine
open ordmap
open gateway.ingress
open raft (Each Written Settled Grows)

namespace client_cli

variable {α : Type} {c : Codec α} {members : Finset NodeId} {oracle : Oracle} {me : String}
  {g g' : Gateway} {client client' : Client} {F : Nat}

/-! ## The client and its cluster -/

structure System where
  client : Client
  gateway : Gateway

def System.init (s : ClientState) : System := ⟨.init s, .init⟩

inductive SystemAct where
  | Client (a : ClientAct)
  | Gateway (a : GatewayAct)
  | Deliver (n : NodeId)
deriving DecidableEq, Repr

/-- The call whose attempt is on the way. -/
def Client.awaits (client : Client) (call : Call) : Prop :=
  ∃ p retry_count max_retries, client.process = some p ∧
    p.stage = .Awaiting call retry_count max_retries

/-- A rejection can come from any node at any time; any other answer to a mutation is one that
the gateway has given to this request. -/
def Replied (me : String) (s : System) : ClientAct → Prop
  | .Receive (.Mutation res) _ =>
    res.status = MutationStatus.Rejected.toInt ∨ ∃ call payload, s.client.awaits call ∧
      call.payload? = some payload ∧ ⟨me, payload.sequence_id, res⟩ ∈ s.gateway.answers
  | _ => True

/-- The client `me` and the gateway, with everybody else who uses it. -/
inductive SystemMoves (members : Finset NodeId) (c : Codec α) (oracle : Oracle) (me : String)
    (s : System) : SystemAct → System → Prop where
  | client {a : ClientAct} {client' : Client} (hs : clientStep s.client a = some client')
      (hreply : Replied me s a) :
      SystemMoves members c oracle me s (.Client a) ⟨client', s.gateway⟩
  | gateway {a : GatewayAct} {g' : Gateway} (hs : Moves members c oracle s.gateway a g')
      (hother : ∀ n r, a = .Arrive n → g'.requests.head? = some r → r.client_id ≠ me) :
      SystemMoves members c oracle me s (.Gateway a) ⟨s.client, g'⟩
  /-- What the client has sent may reach a leader at any time, or never. -/
  | deliver {n : NodeId} {payload : ProposeMutationRequest} {client_id : String}
      {intent : ScrubbedIntent} {raw_user_input : String} (hsent : payload ∈ s.client.sent)
      (hrole : s.gateway.raft.role n = .leader)
      (hid : c.parse_uuid payload.client_id = .ok client_id) :
      SystemMoves members c oracle me s (.Deliver n) ⟨s.client, { s.gateway with
        requests := ⟨n, client_id, payload.sequence_id, intent, raw_user_input, .Authorized⟩ ::
          s.gateway.requests }⟩

/-- The runs of both whose steps meet a condition on the state before them. -/
def SystemRun (members : Finset NodeId) (c : Codec α) (oracle : Oracle) (me : String)
    (P : System → SystemAct → Prop) : System → System → Prop :=
  Trail (SystemMoves members c oracle me) P

/-! ## The session -/

/-- The session of the cluster has taken the id: an entry with it is settled. -/
def Accepted (members : Finset NodeId) (s : raft.State NodeId CommittedMutation) (me : String)
    (i : Nat) : Prop :=
  ∃ t p, Settled members s t p ∧ (me, i) ∈ (mutations p).map keyOf

/-- The firewall lets the id through, or has it as the last one. -/
def Expects (store : LactoStore) (me : String) (n : Nat) : Prop :=
  enforce_sequence_firewall store me n = .ok none ∨ lastSeen store me = n

/-- The conditions on the steps. An id that was drawn gets into the log; after a mutation that
failed nothing is asked for in the same process, unless the cluster has the failed one; and an
acknowledged entry of the client is still where it was proposed. -/
def Meets (members : Finset NodeId) (me : String) (s : System) : SystemAct → Prop
  | .Client .Stop => ∀ p payload, s.client.process = some p → p.stage ≠ .Drawn payload
  | .Client (.Command _ io) => io = .Written ∧ ∀ p, s.client.process = some p →
      p.failed = true → Accepted members s.gateway.raft me p.state.sequence_id
  | .Client (.Append ok durable) => ok = true ∨ durable = true
  | .Gateway (.Acknowledge i) => ∀ r proposal_index status moral_justification entry,
      s.gateway.requests[i]? = some r → r.client_id = me →
      r.stage = .Waiting proposal_index status moral_justification entry →
      (s.gateway.raft.log r.node)[proposal_index - 1]? = some entry
  | _ => True

theorem Accepted.grow {s s' : raft.State NodeId CommittedMutation} {i : Nat}
    (h : Accepted members s me i) (hgrow : Grows s s') : Accepted members s' me i := by
  obtain ⟨t, p, hp, hmem⟩ := h
  exact ⟨t, p, hp.grow hgrow, hmem⟩

/-- An entry in what a node has applied. -/
theorem accepted_of_entry {t : Nat} {s : raft.State NodeId CommittedMutation}
    {p q : List (raft.Entry CommittedMutation)} {e : raft.Entry CommittedMutation} {i : Nat}
    (hp : Settled members s t p) (hpre : q ++ [e] <+: p) (hkey : keyOf e.data = (me, i)) :
    Accepted members s me i := by
  refine ⟨t, p, hp, ?_⟩
  rw [← hkey]
  exact List.mem_map_of_mem (List.mem_map_of_mem (hpre.subset (by simp)))

/-! ## What the gateway keeps -/

/-- The entries of the client have no id above `F`. -/
def Below (me : String) (F : Nat) (_before : List (raft.Entry CommittedMutation))
    (e : raft.Entry CommittedMutation) : Prop :=
  e.data.client_id = me → e.data.sequence_id ≤ F

/-- What the gateway has of the client, which has drawn no id above `F`. -/
structure Serves (members : Finset NodeId) (c : Codec α) (me : String) (g : Gateway)
    (F : Nat) : Prop where
  sequenced : Sequenced members c g
  proposed : ∀ r ∈ g.requests, r.stage.proposes r
  asked : ∀ r ∈ g.requests, r.client_id = me → r.sequence_id ≤ F
  written : Written (Below me F) g.raft
  answered : ∀ a ∈ g.answers, a.client_id = me →
    a.response.status ≠ MutationStatus.Rejected.toInt → Accepted members g.raft me a.sequence_id

theorem Serves.init : Serves members c me Gateway.init 0 :=
  ⟨.init, by simp [Gateway.init], by simp [Gateway.init], .init, by simp [Gateway.init]⟩

theorem Serves.mono {F' : Nat} (h : Serves members c me g F) (hle : F ≤ F') :
    Serves members c me g F' :=
  ⟨h.sequenced, h.proposed, fun r hr hme => (h.asked r hr hme).trans hle,
    fun t k e he hme => (h.written t k e he hme).trans hle, h.answered⟩

theorem Moves.grows {a : GatewayAct} (h : Sequenced members c g)
    (hs : Moves members c oracle g a g') : Grows g.raft g'.raft := by
  cases hs with
  | replicate hs => exact hs.1.grows h.safe.election h.safe.matching
  | @propose i r status stabilized now m hr hstage hrole hm =>
    have hstep : raft.Step members r.node g.raft (proposeOn g.raft r.node m) :=
      .propose g.raft m hrole
    exact hstep.grows h.safe.election h.safe.matching
  | _ => exact .refl _

/-- A handler goes on to a stage that names no entry, or the right one. -/
theorem Serves.stage {i : Nat} {r : Request} {stage : gateway.ingress.Stage}
    (h : Serves members c me g F) (hseq : Sequenced members c (g.withStage i r stage))
    (hr : g.requests[i]? = some r) (hnew : stage.proposes r) :
    Serves members c me (g.withStage i r stage) F := by
  refine ⟨hseq, fun r' hr' => ?_, fun r' hr' => ?_, h.written, h.answered⟩
  · rcases List.mem_or_eq_of_mem_set hr' with hold | rfl
    · exact h.proposed r' hold
    · unfold gateway.ingress.Stage.proposes at hnew ⊢
      exact hnew
  · rcases List.mem_or_eq_of_mem_set hr' with hold | rfl
    · exact h.asked r' hold
    · exact h.asked r (List.mem_of_getElem? hr)

/-- A handler ends with a rejection, or with an answer for an id that is accepted. -/
theorem Serves.finish {i : Nat} {r : Request} {response : ProposeMutationResponse}
    (h : Serves members c me g F) (hseq : Sequenced members c (g.finish i r response))
    (hnew : r.client_id = me → response.status ≠ MutationStatus.Rejected.toInt →
      Accepted members g.raft me r.sequence_id) :
    Serves members c me (g.finish i r response) F := by
  refine ⟨hseq, fun r' hr' => h.proposed r' (List.mem_of_mem_eraseIdx hr'),
    fun r' hr' => h.asked r' (List.mem_of_mem_eraseIdx hr'), h.written, fun a ha => ?_⟩
  rcases List.mem_cons.mp ha with rfl | hold
  · exact hnew
  · exact h.answered a hold

theorem Serves.step {a : GatewayAct} (hcanonical : ∀ raw id, c.parse_uuid raw = .ok id →
      c.parse_uuid id = .ok id) (h : Serves members c me g F) {client : Client}
    (hok : Meets members me ⟨client, g⟩ (.Gateway a)) (hs : Moves members c oracle g a g')
    (hask : ∀ n r, a = .Arrive n → g'.requests.head? = some r → r.client_id = me →
      r.sequence_id ≤ F) : Serves members c me g' F := by
  have hseq := h.sequenced.step hcanonical hs
  have hsafe := h.sequenced.safe
  have hgrow := Moves.grows h.sequenced hs
  have hanswered : ∀ a ∈ g.answers, a.client_id = me →
      a.response.status ≠ MutationStatus.Rejected.toInt →
      Accepted members g'.raft me a.sequence_id :=
    fun a ha hme hst => (h.answered a ha hme hst).grow hgrow
  cases hs with
  | replicate hs =>
    exact ⟨hseq, h.proposed, h.asked,
      h.written.keep hsafe.election hsafe.matching hs.1 hs.2, hanswered⟩
  | arrive hrole hid =>
    refine ⟨hseq, fun r hr => ?_, fun r hr hme => ?_, h.written, h.answered⟩
    · rcases List.mem_cons.mp hr with rfl | hold
      · trivial
      · exact h.proposed r hold
    · rcases List.mem_cons.mp hr with rfl | hold
      · exact hask _ _ rfl rfl hme
      · exact h.asked r hold hme
  | @answer i k r store response hr hstage hstore hwall =>
    refine h.finish hseq fun hme hstatus => ?_
    rcases firewall_answers hwall with hrejected | ⟨record, hrecord, hlast, -, -⟩
    · exact absurd hrejected hstatus
    · obtain ⟨p, e, hpre, -, -, hkey, -⟩ := hstore.record h.sequenced hrecord
      rw [hme, hlast] at hkey
      exact accepted_of_entry (hstore.settled hsafe) hpre hkey
  | pass hr hstage hstore hwall => exact h.stage hseq hr trivial
  | lock hr hstage hfree hstore hread => exact h.stage hseq hr trivial
  | resolve hr hstage horacle => exact h.stage hseq hr trivial
  | @propose i r status stabilized now m hr hstage hrole hm =>
    have hmem := List.mem_of_getElem? hr
    have hkey : keyOf m = (r.client_id, r.sequence_id) := by
      subst hm
      rfl
    have hbelow : Below me F (g.raft.log r.node) ⟨g.raft.term r.node, m⟩ := by
      intro hme
      obtain ⟨hclient, hsequence⟩ := Prod.mk.inj hkey
      rw [hsequence]
      exact h.asked r hmem (hclient.symm.trans hme)
    refine ⟨hseq, fun r' hr' => ?_, fun r' hr' => ?_, h.written.write hsafe.matching hbelow,
      hanswered⟩
    · rcases List.mem_or_eq_of_mem_set hr' with hold | rfl
      · exact h.proposed r' hold
      · refine ⟨Nat.succ_pos _, hkey, ?_⟩
        subst hm
        rfl
    · rcases List.mem_or_eq_of_mem_set hr' with hold | rfl
      · exact h.asked r' hold
      · exact h.asked r hmem
  | @acknowledge i index r status text entry hr hstage hrole hle =>
    refine h.finish hseq fun hme _ => ?_
    have hproposes := h.proposed r (List.mem_of_getElem? hr)
    rw [hstage] at hproposes
    obtain ⟨hpos, hkey, -⟩ := hproposes
    have hentry := hok r index status text entry hr hme hstage
    have hsplit : (g.raft.log r.node).take (index - 1) ++ [entry] =
        (g.raft.log r.node).take index := by
      have htake := List.take_add_one (l := g.raft.log r.node) (i := index - 1)
      rw [hentry, Nat.sub_add_cancel hpos] at htake
      exact htake.symm
    rw [hme] at hkey
    have hpre : (g.raft.log r.node).take (index - 1) ++ [entry] <+:
        (g.raft.log r.node).take (g.raft.commit r.node) := by
      rw [hsplit]
      exact List.take_prefix_take_left hle
    exact accepted_of_entry (hsafe.complete.settled r.node) hpre hkey
  | drop =>
    exact ⟨hseq, fun r' hr' => h.proposed r' (List.mem_of_mem_eraseIdx hr'),
      fun r' hr' => h.asked r' (List.mem_of_mem_eraseIdx hr'), h.written, h.answered⟩

/-! ## What the client keeps -/

/-- The steps of a process, stage by stage. -/
inductive Works (client : Client) (p : Process) : ClientAct → Client → Prop where
  | stop : Works client p .Stop { client with process := none }
  | ready (hstage : p.stage = .Recovering []) : Works client p .Recover (client.goto p .Ready)
  | recover {seq : Nat} {req : ProposeMutationRequest}
      {pending : List (Nat × ProposeMutationRequest)}
      (hstage : p.stage = .Recovering ((seq, req) :: pending)) :
      Works client p .Recover (client.dispatch p (.Repropose seq req pending))
  | command {intent : MutationIntent} {io : Io} (hstage : p.stage = .Ready) :
      Works client p (.Command intent io) (client.propose_mutation p intent io)
  | ask (hstage : p.stage = .Ready) : Works client p .Ask (client.dispatch p .Query)
  | append {payload : ProposeMutationRequest} {ok durable : Bool} {logged : Client}
      (hstage : p.stage = .Drawn payload)
      (hlogged : logged = if ok ∨ durable then
        { client with wal := client.wal.insert payload.sequence_id payload } else client) :
      Works client p (.Append ok durable) (if ok then logged.dispatch p (.Propose payload)
        else logged.goto { p with failed := true } .Ready)
  | attempt {call : Call} {retry_count max_retries : Nat} {reachable : Bool}
      (hstage : p.stage = .Retrying call retry_count max_retries) :
      Works client p (.Attempt reachable)
        (client.attempt p call retry_count max_retries reachable)
  | receive {call : Call} {retry_count max_retries : Nat} {reply : Reply} {io : Io}
      (hstage : p.stage = .Awaiting call retry_count max_retries) (hfits : reply.fits call) :
      Works client p (.Receive reply io)
        (client.receive p call retry_count max_retries io reply)
  | remove {call : Call} {ok durable : Bool} {removed : Client} (hstage : p.stage = .Removing call)
      (hremoved : removed = if ok ∨ durable then
        { client with wal := client.wal.erase call.sequence_id } else client) :
      Works client p (.Remove ok durable)
        (if ok then removed.succeed p call else removed.fail p call)

theorem clientStep_cases {a : ClientAct} (hs : clientStep client a = some client') :
    (∃ cluster_id seeds io, a = .Start cluster_id seeds io ∧
      client.start cluster_id seeds io = some client') ∨
    ∃ p, client.process = some p ∧ Works client p a client' := by
  unfold clientStep at hs
  split at hs
  · exact .inl ⟨_, _, _, rfl, hs⟩
  · obtain ⟨p, hp, rfl⟩ := Option.map_eq_some_iff.mp hs
    exact .inr ⟨p, hp, .stop⟩
  · obtain ⟨p, hp, hstep⟩ := Option.bind_eq_some_iff.mp hs
    refine .inr ⟨p, hp, ?_⟩
    split at hstep
    · cases hstep
      exact .ready ‹_›
    · cases hstep
      exact .recover ‹_›
    · cases hstep
      exact .command ‹_›
    · cases hstep
      exact .ask ‹_›
    · cases hstep
      exact .append ‹_› rfl
    · cases hstep
      exact .attempt ‹_›
    · split at hstep
      · cases hstep
        exact .receive ‹_› ‹_›
      · cases hstep
    · cases hstep
      exact .remove ‹_› rfl
    · cases hstep

/-- The request is the client's own, for the id. -/
structure Own (me : String) (F : Nat) (sequence_id : Nat) (payload : ProposeMutationRequest) :
    Prop where
  sender : payload.client_id = me
  id : payload.sequence_id = sequence_id
  drawn : sequence_id ≤ F

variable {cluster cluster' : raft.State NodeId CommittedMutation}

/-- Nothing is open: no id was drawn yet, or the cluster has the last one. -/
def Done (members : Finset NodeId) (cluster : raft.State NodeId CommittedMutation) (me : String)
    (F : Nat) : Prop :=
  F = 0 ∨ Accepted members cluster me F

/-- What is left to recover is the client's own, and includes the last id if that is open. -/
def Recovers (done : Prop) (me : String) (F : Nat)
    (pending : List (Nat × ProposeMutationRequest)) : Prop :=
  (∀ x ∈ pending, Own me F x.1 x.2) ∧ (done ∨ F ∈ pending.map Prod.fst)

def Call.sound (done : Prop) (me : String) (F : Nat) (failed : Bool) : Call → Prop
  | .Propose payload => Own me F F payload ∧ 1 ≤ F
  | .Repropose sequence_id payload pending => Own me F sequence_id payload ∧
      (∀ x ∈ pending, Own me F x.1 x.2) ∧
      (done ∨ F = sequence_id ∨ F ∈ pending.map Prod.fst)
  | .Query => failed = false → done

/-- What is open when the process is not at the prompt after a mutation that failed. -/
def Stage.sound (members : Finset NodeId) (cluster : raft.State NodeId CommittedMutation)
    (me : String) (F : Nat) (failed : Bool) : Stage → Prop
  | .Recovering pending => Recovers (Done members cluster me F) me F pending
  | .Ready => failed = false → Done members cluster me F
  | .Drawn payload => Own me F F payload ∧ 1 ≤ F
  | .Retrying call _ _ => call.sound (Done members cluster me F) me F failed
  | .Awaiting call _ _ => call.sound (Done members cluster me F) me F failed
  | .Removing call => call.sound (Done members cluster me F) me F failed ∧
      Accepted members cluster me call.sequence_id

structure Running (members : Finset NodeId) (cluster : raft.State NodeId CommittedMutation)
    (me : String) (F : Nat) (p : Process) : Prop where
  sender : p.state.client_id = me
  last : p.state.sequence_id = F
  stage : p.stage.sound members cluster me F p.failed

/-- The last id that was drawn is `F`, everything below it has an outcome, and it is in the log
itself unless it has one. -/
structure Kept (members : Finset NodeId) (me : String)
    (cluster : raft.State NodeId CommittedMutation) (client : Client) (F : Nat) : Prop where
  file : ∀ s, client.file = .Saved s → s.client_id = me ∧ s.sequence_id = F
  wal : ∀ k req, client.wal.get? k = some req → Own me F k req
  sent : ∀ req ∈ client.sent, req.client_id = me ∧ req.sequence_id ≤ F
  below : ∀ i, 1 ≤ i → i < F → Accepted members cluster me i
  logged : Done members cluster me F ∨ client.wal.get? F ≠ none ∨
    ∃ p payload, client.process = some p ∧ p.stage = .Drawn payload
  process : ∀ p, client.process = some p → Running members cluster me F p

/-! ### As the cluster goes on -/

theorem Done.grow (h : Done members cluster me F) (hgrow : Grows cluster cluster') :
    Done members cluster' me F :=
  h.imp id fun hacc => hacc.grow hgrow

theorem Call.sound.weaken {done done' : Prop} {failed : Bool} {call : Call}
    (h : call.sound done me F failed) (hdone : done → done') : call.sound done' me F failed := by
  cases call with
  | Propose payload => exact h
  | Repropose sequence_id payload pending =>
    obtain ⟨hown, hpending, hopen⟩ := h
    exact ⟨hown, hpending, hopen.imp hdone id⟩
  | Query => exact fun hfailed => hdone (h hfailed)

theorem Stage.sound.grow {failed : Bool} {stage : Stage}
    (h : stage.sound members cluster me F failed) (hgrow : Grows cluster cluster') :
    stage.sound members cluster' me F failed := by
  cases stage with
  | Recovering pending => exact ⟨h.1, h.2.imp (·.grow hgrow) id⟩
  | Ready => exact fun hfailed => Done.grow (h hfailed) hgrow
  | Drawn payload => exact h
  | Retrying call retry_count max_retries => exact Call.sound.weaken h (·.grow hgrow)
  | Awaiting call retry_count max_retries => exact Call.sound.weaken h (·.grow hgrow)
  | Removing call => exact ⟨Call.sound.weaken h.1 (·.grow hgrow), h.2.grow hgrow⟩

theorem Kept.grow (h : Kept members me cluster client F) (hgrow : Grows cluster cluster') :
    Kept members me cluster' client F where
  file := h.file
  wal := h.wal
  sent := h.sent
  below i hi hlt := (h.below i hi hlt).grow hgrow
  logged := h.logged.imp (·.grow hgrow) id
  process p hp :=
    ⟨(h.process p hp).sender, (h.process p hp).last, (h.process p hp).stage.grow hgrow⟩

/-! ### As the process goes on -/

/-- Outside of `propose_mutation` the last id is in the log unless it has an outcome. -/
theorem Kept.inLog (h : Kept members me cluster client F) {p : Process}
    (hp : client.process = some p) (hstage : ∀ payload, p.stage ≠ .Drawn payload) :
    Done members cluster me F ∨ client.wal.get? F ≠ none := by
  rcases h.logged with hdone | hlog | ⟨p', payload, hp', hdrawn⟩
  · exact .inl hdone
  · exact .inr hlog
  · obtain rfl := Option.some.inj (hp.symm.trans hp')
    exact absurd hdrawn (hstage payload)

theorem Kept.run (h : Kept members me cluster client F) {p : Process}
    (hlog : Done members cluster me F ∨ client.wal.get? F ≠ none)
    (hp : Running members cluster me F p) :
    Kept members me cluster { client with process := some p } F where
  file := h.file
  wal := h.wal
  sent := h.sent
  below := h.below
  logged := hlog.imp id .inl
  process p' hp' := by
    obtain rfl := Option.some.inj hp'
    exact hp

theorem Kept.goto (h : Kept members me cluster client F) {p : Process} {stage : Stage}
    (hlog : Done members cluster me F ∨ client.wal.get? F ≠ none)
    (hstate : p.state.client_id = me ∧ p.state.sequence_id = F)
    (hstage : stage.sound members cluster me F p.failed) :
    Kept members me cluster (client.goto p stage) F :=
  h.run hlog ⟨hstate.1, hstate.2, hstage⟩

theorem Kept.halt (h : Kept members me cluster client F)
    (hlog : Done members cluster me F ∨ client.wal.get? F ≠ none) :
    Kept members me cluster { client with process := none } F where
  file := h.file
  wal := h.wal
  sent := h.sent
  below := h.below
  logged := hlog.imp id .inl
  process p hp := by cases hp

theorem Kept.save (h : Kept members me cluster client F) {s : ClientState}
    (hs : s.client_id = me ∧ s.sequence_id = F) (io : Io) :
    Kept members me cluster { client with file := client.file.save s io } F where
  file s' hs' := by
    cases io with
    | Written =>
      obtain rfl := StateFile.Saved.inj hs'
      exact hs
    | Kept => exact h.file s' hs'
    | Torn => cases hs'
  wal := h.wal
  sent := h.sent
  below := h.below
  logged := h.logged
  process := h.process

theorem Kept.fail (h : Kept members me cluster client F) {p : Process} {call : Call}
    (hlog : Done members cluster me F ∨ client.wal.get? F ≠ none)
    (hstate : p.state.client_id = me ∧ p.state.sequence_id = F)
    (hcall : call.sound (Done members cluster me F) me F p.failed) :
    Kept members me cluster (client.fail p call) F := by
  cases call with
  | Propose payload => exact h.goto (p := { p with failed := true }) hlog hstate nofun
  | Repropose sequence_id payload pending => exact h.halt hlog
  | Query => exact h.goto hlog hstate hcall

/-- A call for an id that the cluster has returns a response. -/
theorem Kept.succeed (h : Kept members me cluster client F) {p : Process} {call : Call}
    (hlog : Done members cluster me F ∨ client.wal.get? F ≠ none)
    (hstate : p.state.client_id = me ∧ p.state.sequence_id = F)
    (hcall : call.sound (Done members cluster me F) me F p.failed)
    (hacc : ∀ payload, call.payload? = some payload →
      Accepted members cluster me payload.sequence_id) :
    Kept members me cluster (client.succeed p call) F := by
  cases call with
  | Propose payload =>
    refine h.goto (p := { p with failed := false }) hlog hstate fun _ => .inr ?_
    rw [← hcall.1.id]
    exact hacc payload rfl
  | Repropose sequence_id payload pending =>
    obtain ⟨hown, hpending, hopen⟩ := hcall
    refine h.goto hlog hstate ⟨hpending, ?_⟩
    rcases hopen with hdone | rfl | hrest
    · exact .inl hdone
    · left
      right
      rw [← hown.id]
      exact hacc payload rfl
    · exact .inr hrest
  | Query => exact h.goto hlog hstate hcall

theorem Kept.reconcile (h : Kept members me cluster client F) {p : Process} {call : Call}
    (hlog : Done members cluster me F ∨ client.wal.get? F ≠ none)
    (hstate : p.state.client_id = me ∧ p.state.sequence_id = F)
    (hcall : call.sound (Done members cluster me F) me F p.failed) (retry_count max_retries : Nat)
    (leader_hint : Option String) (io : Io) :
    Kept members me cluster
      (client.reconcile_routing_failure p call retry_count max_retries leader_hint io) F := by
  unfold Client.reconcile_routing_failure
  split
  · exact h.goto (p := { p with connected := false }) hlog hstate hcall
  · rename_i state hto
    have hsame : state.client_id = me ∧ state.sequence_id = F := by
      rw [← hstate.1, ← hstate.2]
      exact reroute_same hto
    dsimp only
    split
    · exact (h.save hsame io).goto (p := { p with state := state, connected := false }) hlog
        hsame hcall
    · exact (h.save hsame io).fail (p := { p with state := state }) hlog hsame hcall

theorem Kept.receive (h : Kept members me cluster client F) {p : Process} {call : Call}
    {reply : Reply} (hlog : Done members cluster me F ∨ client.wal.get? F ≠ none)
    (hstate : p.state.client_id = me ∧ p.state.sequence_id = F)
    (hcall : call.sound (Done members cluster me F) me F p.failed) (retry_count max_retries : Nat)
    (io : Io) (hfits : reply.fits call)
    (hacc : ∀ res payload, reply = .Mutation res → call.payload? = some payload →
      res.status ≠ MutationStatus.Rejected.toInt →
      Accepted members cluster me payload.sequence_id) :
    Kept members me cluster (client.receive p call retry_count max_retries io reply) F := by
  have hreconcile := h.reconcile hlog hstate hcall retry_count max_retries
  cases reply with
  | Status code =>
    cases code with
    | Other => exact hreconcile none io
    | InvalidArgument => exact h.fail hlog hstate hcall
    | FailedPrecondition => exact h.fail hlog hstate hcall
  | Mutation res =>
    unfold Client.receive
    dsimp only
    split
    · exact hreconcile (some res.leader_hint) io
    rename_i hstatus
    have hpayload : ∀ payload, call.payload? = some payload →
        Accepted members cluster me payload.sequence_id :=
      fun payload hp => hacc res payload rfl hp hstatus
    unfold Client.conclude
    split
    · refine h.goto hlog hstate ⟨hcall, ?_⟩
      cases call with
      | Propose payload => exact hpayload payload rfl
      | Repropose sequence_id payload pending =>
        change Accepted members cluster me sequence_id
        rw [← hcall.1.id]
        exact hpayload payload rfl
      | Query => cases hfits
    · exact h.succeed hlog hstate hcall hpayload
  | Query rejected leader_hint =>
    unfold Client.receive
    dsimp only
    split
    · exact hreconcile (some leader_hint) io
    · refine h.succeed hlog hstate hcall fun payload hp => ?_
      cases call with
      | Query => cases hp
      | Propose payload => cases hfits
      | Repropose sequence_id payload pending => cases hfits

theorem Kept.send (h : Kept members me cluster client F) {call : Call} {failed : Bool}
    (hcall : call.sound (Done members cluster me F) me F failed) :
    Kept members me cluster { client with sent := call.payload?.toList ++ client.sent } F where
  file := h.file
  wal := h.wal
  sent req hreq := by
    rcases List.mem_append.mp hreq with hnew | hold
    · cases call with
      | Propose payload =>
        obtain rfl := List.mem_singleton.mp hnew
        exact ⟨hcall.1.sender, hcall.1.id.le⟩
      | Repropose sequence_id payload pending =>
        obtain rfl := List.mem_singleton.mp hnew
        exact ⟨hcall.1.sender, hcall.1.id.le.trans hcall.1.drawn⟩
      | Query => cases hnew
    · exact h.sent req hold
  below := h.below
  logged := h.logged
  process := h.process

theorem Kept.attempt (h : Kept members me cluster client F) {p : Process} {call : Call}
    (hlog : Done members cluster me F ∨ client.wal.get? F ≠ none)
    (hstate : p.state.client_id = me ∧ p.state.sequence_id = F)
    (hcall : call.sound (Done members cluster me F) me F p.failed) (retry_count max_retries : Nat)
    (reachable : Bool) :
    Kept members me cluster (client.attempt p call retry_count max_retries reachable) F := by
  unfold Client.attempt
  split
  · exact h.fail hlog hstate hcall
  split
  · exact h.fail hlog hstate hcall
  · exact (h.send hcall).goto (p := { p with connected := true }) hlog hstate hcall

theorem logged_insert (client : Client) {payload : ProposeMutationRequest}
    (hown : Own me F F payload) :
    (client.wal.insert payload.sequence_id payload).get? F ≠ none := by
  rw [hown.id, OrdMap.get?_insert, if_pos rfl]
  nofun

theorem logged_erase {i : Nat} (hlog : Done members cluster me F ∨ client.wal.get? F ≠ none)
    (hacc : Accepted members cluster me i) :
    Done members cluster me F ∨ (client.wal.erase i).get? F ≠ none := by
  by_cases heq : F = i
  · subst heq
    exact .inl (.inr hacc)
  · rw [OrdMap.get?_erase, if_neg heq]
    exact hlog

/-- The intent of the last id gets into the log. -/
theorem Kept.insert (h : Kept members me cluster client F) {payload : ProposeMutationRequest}
    (hown : Own me F F payload) :
    Kept members me cluster
      { client with wal := client.wal.insert payload.sequence_id payload } F where
  file := h.file
  wal k req hk := by
    rw [OrdMap.get?_insert, hown.id] at hk
    split at hk
    · rename_i heq
      obtain rfl := Option.some.inj hk
      rw [heq]
      exact hown
    · exact h.wal k req hk
  sent := h.sent
  below := h.below
  logged := .inr (.inl (logged_insert _ hown))
  process := h.process

/-- An intent leaves the log when the cluster has it. -/
theorem Kept.erase (h : Kept members me cluster client F) {i : Nat}
    (hlog : Done members cluster me F ∨ client.wal.get? F ≠ none)
    (hacc : Accepted members cluster me i) :
    Kept members me cluster { client with wal := client.wal.erase i } F where
  file := h.file
  wal k req hk := by
    rw [OrdMap.get?_erase] at hk
    split at hk
    · cases hk
    · exact h.wal k req hk
  sent := h.sent
  below := h.below
  logged := (logged_erase hlog hacc).imp id .inl
  process := h.process

/-- The next id is drawn when nothing is open. -/
theorem Kept.draw (h : Kept members me cluster client F) {p : Process} {state : ClientState}
    {intent : MutationIntent} (hstate : p.state.client_id = me ∧ p.state.sequence_id = F)
    (hnext : p.state.next_sequence_id = .ok state) (hdone : Done members cluster me F) :
    Kept members me cluster ({ client with file := .Saved state }.goto { p with state := state }
      (.Drawn (.new state.client_id state.sequence_id intent))) (F + 1) := by
  have hsame : state.client_id = me ∧ state.sequence_id = F + 1 := by
    unfold ClientState.next_sequence_id at hnext
    cases hadd : checked_add "SequenceId" p.state.sequence_id 1 with
    | error e =>
      rw [hadd] at hnext
      cases hnext
    | ok n =>
      rw [hadd] at hnext
      obtain rfl := Except.ok.inj hnext
      exact ⟨hstate.1, (checked_add_ok hadd).1.trans (by rw [hstate.2])⟩
  refine ⟨fun s hs => ?_, fun k req hk => ?_, fun req hreq => ?_, fun i hi hlt => ?_,
    .inr (.inr ⟨_, _, rfl, rfl⟩), fun p' hp' => ?_⟩
  · obtain rfl := StateFile.Saved.inj hs
    exact hsame
  · obtain ⟨hsender, hid, hdrawn⟩ := h.wal k req hk
    exact ⟨hsender, hid, by omega⟩
  · exact ⟨(h.sent req hreq).1, (h.sent req hreq).2.trans (Nat.le_succ F)⟩
  · rcases Nat.eq_or_lt_of_le (Nat.le_of_lt_succ hlt) with rfl | hlt
    · exact hdone.resolve_left (by omega)
    · exact h.below i hi hlt
  · obtain rfl := Option.some.inj hp'
    exact ⟨hsame.1, hsame.2, ⟨hsame.1, hsame.2, le_rfl⟩, Nat.succ_pos F⟩

theorem Kept.start (h : Kept members me cluster client F) {cluster_id : String}
    {seeds : List String} {io : Io} (hs : client.start cluster_id seeds io = some client') :
    Kept members me cluster client' F := by
  unfold Client.start at hs
  split at hs
  swap
  · cases hs
  rename_i s hnone hfile
  split at hs
  · cases hs
  have hlog : Done members cluster me F ∨ client.wal.get? F ≠ none := by
    rcases h.logged with hdone | hlog | ⟨p, payload, hp, -⟩
    · exact .inl hdone
    · exact .inr hlog
    · rw [hnone] at hp
      cases hp
  have hrecovers : Recovers (Done members cluster me F) me F client.wal.entries := by
    refine ⟨fun x hx => h.wal x.1 x.2 ((OrdMap.get?_eq_some_iff _ _ _).mpr hx), ?_⟩
    refine hlog.imp id fun hlog => ?_
    obtain ⟨req, hreq⟩ := Option.ne_none_iff_exists'.mp hlog
    exact List.mem_map_of_mem ((OrdMap.get?_eq_some_iff _ _ _).mp hreq)
  have hload := load_same s seeds
  rw [(h.file s hfile).1, (h.file s hfile).2] at hload
  dsimp only at hs
  split at hs
  · rename_i state heq
    rw [heq] at hload
    obtain rfl := Option.some.inj hs
    exact h.run hlog ⟨hload.1, hload.2, hrecovers⟩
  · rename_i state heq
    rw [heq] at hload
    obtain rfl := Option.some.inj hs
    split
    · exact (h.save hload io).run hlog ⟨hload.1, hload.2, hrecovers⟩
    · exact h.save hload io

theorem Kept.step {a : ClientAct} (h : Kept members me g.raft client F)
    (hserves : Serves members c me g F) (hok : Meets members me ⟨client, g⟩ (.Client a))
    (hreply : Replied me ⟨client, g⟩ a) (hs : clientStep client a = some client') :
    ∃ F', F ≤ F' ∧ Kept members me g.raft client' F' := by
  rcases clientStep_cases hs with ⟨cluster_id, seeds, io, rfl, hstart⟩ | ⟨p, hp, hworks⟩
  · exact ⟨F, le_rfl, h.start hstart⟩
  obtain ⟨hsender, hlast, hsound⟩ := h.process p hp
  have hstate : p.state.client_id = me ∧ p.state.sequence_id = F := ⟨hsender, hlast⟩
  have hlog : (∀ payload, p.stage ≠ .Drawn payload) →
      Done members g.raft me F ∨ client.wal.get? F ≠ none := h.inLog hp
  cases hworks with
  | stop => exact ⟨F, le_rfl, h.halt (hlog fun payload => hok p payload hp)⟩
  | ready hstage =>
    rw [hstage] at hsound hlog
    have hdone : Done members g.raft me F := hsound.2.resolve_right nofun
    exact ⟨F, le_rfl, h.goto (hlog nofun) hstate fun _ => hdone⟩
  | @recover seq req pending hstage =>
    rw [hstage] at hsound hlog
    obtain ⟨hown, hopen⟩ := hsound
    refine ⟨F, le_rfl, h.goto (hlog nofun) hstate ⟨hown _ (List.mem_cons_self ..),
      fun x hx => hown x (List.mem_cons_of_mem _ hx), hopen.imp id List.mem_cons.mp⟩⟩
  | @command intent io hstage =>
    rw [hstage] at hsound hlog
    have hdone : Done members g.raft me F := by
      by_cases hfailed : p.failed = true
      · right
        rw [← hlast]
        exact hok.2 p hp hfailed
      · exact hsound (Bool.eq_false_of_not_eq_true hfailed)
    unfold Client.propose_mutation
    obtain rfl : io = .Written := hok.1
    cases hnext : p.state.next_sequence_id with
    | error e =>
      exact ⟨F, le_rfl, h.goto (p := { p with failed := true }) (hlog nofun) hstate nofun⟩
    | ok state => exact ⟨F + 1, Nat.le_succ F, h.draw hstate hnext hdone⟩
  | ask hstage =>
    rw [hstage] at hsound hlog
    exact ⟨F, le_rfl, h.goto (hlog nofun) hstate hsound⟩
  | @append payload ok durable logged hstage hlogged =>
    rw [hstage] at hsound
    have hdurable : ok = true ∨ durable = true := hok
    rw [if_pos hdurable] at hlogged
    subst hlogged
    have hkept := h.insert hsound.1
    have hin := logged_insert client hsound.1
    refine ⟨F, le_rfl, ?_⟩
    split
    · exact hkept.goto (.inr hin) hstate hsound
    · exact hkept.goto (p := { p with failed := true }) (.inr hin) hstate nofun
  | @attempt call retry_count max_retries reachable hstage =>
    rw [hstage] at hsound hlog
    exact ⟨F, le_rfl, h.attempt (hlog nofun) hstate hsound _ _ _⟩
  | @receive call retry_count max_retries reply io hstage hfits =>
    rw [hstage] at hsound hlog
    refine ⟨F, le_rfl, h.receive (hlog nofun) hstate hsound _ _ io hfits ?_⟩
    intro res payload hmutation hpayload hstatus
    subst hmutation
    obtain ⟨call', payload', ⟨p', _, _, hp', hawait⟩, hpayload', hanswer⟩ :=
      hreply.resolve_left hstatus
    obtain rfl := Option.some.inj (hp.symm.trans hp')
    obtain ⟨rfl, -, -⟩ := Stage.Awaiting.inj (hstage.symm.trans hawait)
    obtain rfl := Option.some.inj (hpayload.symm.trans hpayload')
    exact hserves.answered _ hanswer rfl hstatus
  | @remove call ok durable removed hstage hremoved =>
    rw [hstage] at hsound hlog
    obtain ⟨hcall, hacc⟩ := hsound
    have hkept : Kept members me g.raft removed F ∧
        (Done members g.raft me F ∨ removed.wal.get? F ≠ none) := by
      subst hremoved
      split
      · exact ⟨h.erase (hlog nofun) hacc, logged_erase (hlog nofun) hacc⟩
      · exact ⟨h, hlog nofun⟩
    refine ⟨F, le_rfl, ?_⟩
    split
    · refine hkept.1.succeed hkept.2 hstate hcall fun payload hpayload => ?_
      cases call with
      | Propose payload' =>
        obtain rfl := Option.some.inj hpayload
        exact hacc
      | Repropose sequence_id payload' pending =>
        obtain rfl := Option.some.inj hpayload
        rw [hcall.1.id]
        exact hacc
      | Query => cases hpayload
    · exact hkept.1.fail hkept.2 hstate hcall

/-! ## Fresh ids -/

/-- What holds of the client and its cluster together. -/
def Stands (members : Finset NodeId) (c : Codec α) (me : String) (s : System) : Prop :=
  ∃ F, Serves members c me s.gateway F ∧ Kept members me s.gateway.raft s.client F

theorem Stands.init {s : ClientState} (hme : s.client_id = me) (hzero : s.sequence_id = 0) :
    Stands members c me (System.init s) := by
  refine ⟨0, .init, ?_, ?_, ?_, ?_, .inl (.inl rfl), ?_⟩
  · intro s' hs'
    obtain rfl := StateFile.Saved.inj hs'
    exact ⟨hme, hzero⟩
  · intro k req hk
    cases hk
  · intro req hreq
    cases hreq
  · intro i hi hlt
    omega
  · intro p hp
    cases hp

theorem Stands.step {s s' : System} {a : SystemAct}
    (hcanonical : ∀ raw id, c.parse_uuid raw = .ok id → c.parse_uuid id = .ok id)
    (h : Stands members c me s) (hok : Meets members me s a)
    (hs : SystemMoves members c oracle me s a s') : Stands members c me s' := by
  obtain ⟨F, hserves, hkept⟩ := h
  cases hs with
  | client hs hreply =>
    obtain ⟨F', hle, hkept'⟩ := hkept.step hserves hok hreply hs
    exact ⟨F', hserves.mono hle, hkept'⟩
  | gateway hs hother =>
    refine ⟨F, hserves.step hcanonical hok hs fun n r ha hr hme => ?_,
      hkept.grow (Moves.grows hserves.sequenced hs)⟩
    exact absurd hme (hother n r ha hr)
  | @deliver n payload client_id intent raw_user_input hsent hrole hid =>
    refine ⟨F, ?_, hkept⟩
    have hmeets : Meets members me ⟨s.client, s.gateway⟩ (.Gateway (.Arrive n)) := trivial
    refine hserves.step hcanonical hmeets
      (show Moves members c oracle s.gateway (.Arrive n) _ from .arrive hrole hid)
      fun n' r _ hr _ => ?_
    obtain rfl := Option.some.inj hr
    exact (hkept.sent payload hsent).2

theorem firewall_next {store : LactoStore} {n : Nat} (hhealthy : store.poisoned = false)
    (hn : n = lastSeen store me + 1) : enforce_sequence_firewall store me n = .ok none := by
  have hzero : n ≠ SEQUENCE_FIREWALL_ZERO := by
    rw [hn]
    exact Nat.succ_ne_zero _
  unfold enforce_sequence_firewall
  rw [if_neg hzero]
  unfold lastSeen at hn
  unfold LactoStore.check_session LactoStore.check_not_poisoned
  rw [hhealthy]
  cases hrecord : store.get_session_record me with
  | none =>
    rw [hrecord] at hn
    simp only [Option.map_none, Option.getD_none, Nat.zero_add] at hn
    simp [hn, NEW_CLIENT_FIRST_SEQUENCE]
  | some record =>
    rw [hrecord] at hn
    simp only [Option.map_some, Option.getD_some] at hn
    subst hn
    simp [SEQUENCE_STEP]

/-- A node that has applied what the cluster has of the client. -/
theorem expects_last {n : NodeId} {k : Nat} {store : LactoStore}
    (hserves : Serves members c me g F) (hpos : 1 ≤ F)
    (hbelow : ∀ i, 1 ≤ i → i < F → Accepted members g.raft me i)
    (hstore : Serving c g.raft n k store)
    (hseen : ∀ i, Accepted members g.raft me i → i ≤ lastSeen store me) :
    Expects store me F := by
  have htraced := hserves.sequenced.safe.matching.log_traced n
  have hfits : Each (Fits c) ((g.raft.log n).take k) :=
    (hserves.sequenced.written.traced htraced).shorter (List.take_prefix _ _)
  have hown : Each (Below me F) ((g.raft.log n).take k) :=
    (hserves.written.traced htraced).shorter (List.take_prefix _ _)
  obtain ⟨htidy, -⟩ := Each.tidy hfits hstore.applied
  have hlast : lastSeen store me = highest (mutations ((g.raft.log n).take k)) me :=
    htidy.last_seen me
  have hupper : lastSeen store me ≤ F := by
    rcases Nat.eq_zero_or_pos (lastSeen store me) with hzero | hsome
    · omega
    · rw [hlast] at hsome ⊢
      obtain ⟨m, hm, hkey⟩ := List.mem_map.mp (highest_mem hsome)
      obtain ⟨e, he, rfl⟩ := List.mem_map.mp hm
      obtain ⟨i, hi⟩ := List.mem_iff_getElem?.mp he
      obtain ⟨hclient, hsequence⟩ := Prod.mk.inj hkey
      rw [← hsequence]
      exact hown i e hi hclient
  have hlower : F ≤ lastSeen store me + 1 := by
    rcases Nat.eq_or_lt_of_le hpos with hone | hlt
    · omega
    · have hprev := hseen (F - 1) (hbelow (F - 1) (by omega) (by omega))
      omega
  by_cases heq : lastSeen store me = F
  · exact .inr heq
  · exact .inl (firewall_next htidy.healthy (by omega))

/-- Whatever the client is told and wherever either side crashes: while an attempt of a new
mutation is on the way, every earlier id has been accepted, and a node that knows it expects
the new one or has it as the last. -/
theorem fresh_id_expected {state : ClientState} {s : System}
    (hcanonical : ∀ raw id, c.parse_uuid raw = .ok id → c.parse_uuid id = .ok id)
    (hzero : state.sequence_id = 0)
    (hrun : SystemRun members c oracle state.client_id (Meets members state.client_id)
      (System.init state) s) {payload : ProposeMutationRequest}
    (hsent : s.client.awaits (.Propose payload)) :
    payload.client_id = state.client_id ∧
    (∀ i, 1 ≤ i → i < payload.sequence_id →
      Accepted members s.gateway.raft state.client_id i) ∧
    ∀ n k store, Serving c s.gateway.raft n k store →
      (∀ i, Accepted members s.gateway.raft state.client_id i →
        i ≤ lastSeen store state.client_id) →
      Expects store state.client_id payload.sequence_id := by
  obtain ⟨F, hserves, hkept⟩ : Stands members c state.client_id s :=
    Trail.invariant (fun _ _ _ h hok hs => h.step hcanonical hok hs) hrun (.init rfl hzero)
  obtain ⟨p, retry_count, max_retries, hp, hstage⟩ := hsent
  have hsound := (hkept.process p hp).stage
  rw [hstage] at hsound
  obtain ⟨hown, hpos⟩ := hsound
  rw [hown.id]
  exact ⟨hown.sender, hkept.below, fun n k store hstore hseen =>
    expects_last hserves hpos hkept.below hstore hseen⟩

/-! ## Two runs -/

def home : ClientState := ⟨"lacto", milkRequest.client_id, 0, ["node-1:50051"]⟩

def milkIntent : MutationIntent := ⟨"milk", some "1", some "l", none, .Add⟩

variable {P : System → SystemAct → Prop} {s : System}

def milkPayload (sequence_id : Nat) : ProposeMutationRequest :=
  .new home.client_id sequence_id milkIntent

/-- The client has the first intent in its log and nothing sent. -/
def asked : Client where
  file := .Saved { home with sequence_id := 1 }
  wal := OrdMap.empty.insert 1 (milkPayload 1)
  process := some ⟨{ home with sequence_id := 1 }, false, false,
    .Retrying (.Propose (milkPayload 1)) 0 11⟩
  sent := []

/-- One more step of the client. -/
theorem stepped {s₀ s : System} {client' : Client}
    (h : SystemRun members c oracle me P s₀ s) (a : ClientAct) (hok : P s (.Client a))
    (hreply : Replied me s a) (hs : clientStep s.client a = some client') :
    SystemRun members c oracle me P s₀ ⟨client', s.gateway⟩ :=
  .tail h hok (.client hs hreply)

theorem asked_run (hstart : ∀ s, P s (.Client (.Start "lacto" [] .Written)))
    (hrecover : ∀ s, P s (.Client .Recover))
    (hcommand : ∀ s, (∀ p, s.client.process = some p → p.failed = false) →
      P s (.Client (.Command milkIntent .Written)))
    (happend : ∀ s, P s (.Client (.Append true true))) :
    SystemRun members c oracle home.client_id P (System.init home) ⟨asked, .init⟩ := by
  have hinit : SystemRun members c oracle home.client_id P (System.init home)
      (System.init home) := .refl _
  have hup := stepped hinit (.Start "lacto" [] .Written) (hstart _) trivial rfl
  have hready := stepped hup .Recover (hrecover _) trivial rfl
  have hdrawn := stepped hready (.Command milkIntent .Written)
    (hcommand _ fun p hp => by cases hp; rfl) trivial rfl
  exact stepped hdrawn (.Append true true) (happend _) trivial rfl

/-- No node can be reached, and the next command takes the next id all the same. -/
theorem fresh_id_stranded :
    ∃ s payload, SystemRun {1, 2, 3} plain (fun _ _ _ => True) home.client_id (fun _ _ => True)
      (System.init home) s ∧ s.client.awaits (.Propose payload) ∧ payload.sequence_id = 2 ∧
      ¬Accepted {1, 2, 3} s.gateway.raft home.client_id 1 ∧
      enforce_sequence_firewall LactoStore.new home.client_id payload.sequence_id =
        .ok (some (rejected 0 "Secure Clinical: Session Initialization Violation")) := by
  have hasked : SystemRun {1, 2, 3} plain (fun _ _ _ => True) home.client_id (fun _ _ => True)
      (System.init home) ⟨asked, .init⟩ :=
    asked_run (fun _ => trivial) (fun _ => trivial) (fun _ _ => trivial) fun _ => trivial
  have hfailed := stepped hasked (.Attempt false) trivial trivial rfl
  have hdrawn := stepped hfailed (.Command milkIntent .Written) trivial trivial rfl
  have hlogged := stepped hdrawn (.Append true true) trivial trivial rfl
  have hsent := stepped hlogged (.Attempt true) trivial trivial rfl
  refine ⟨_, milkPayload 2, hsent, ⟨_, _, _, rfl, rfl⟩, rfl, ?_, rfl⟩
  rintro ⟨t, p, hp, hmem⟩
  have hwritten : Written (fun _ _ => False)
      (raft.State.init : raft.State NodeId CommittedMutation) := .init
  obtain ⟨e, he, -⟩ := List.mem_map.mp hmem
  obtain ⟨e, he, -⟩ := List.mem_map.mp he
  obtain ⟨i, hi⟩ := List.mem_iff_getElem?.mp he
  exact hwritten.settled hp i e hi

/-- What the gateway does of its own accord. -/
theorem gateway_run {s₀ : System} {client : Client}
    (h : SystemRun members c oracle me P s₀ ⟨client, g⟩)
    (hrun : GatewayRun members c oracle
      (fun g a => P ⟨client, g⟩ (.Gateway a) ∧ ∀ n, a ≠ .Arrive n) g g') :
    SystemRun members c oracle me P s₀ ⟨client, g'⟩ := by
  induction hrun with
  | refl => exact h
  | tail _ hp hs ih => exact .tail ih hp.1 (.gateway hs fun n r ha => absurd ha (hp.2 n))

/-- A request of the client arrives. -/
theorem delivered {s₀ : System} {client : Client} {requests : List Request}
    {answers : List Answer} (r : Request) (payload : ProposeMutationRequest)
    (h : SystemRun members c oracle me P s₀ ⟨client, ⟨cluster, requests, answers⟩⟩)
    (hok : P ⟨client, ⟨cluster, requests, answers⟩⟩ (.Deliver r.node))
    (hsent : payload ∈ client.sent) (hrole : cluster.role r.node = .leader)
    (hid : c.parse_uuid payload.client_id = .ok r.client_id)
    (hseq : payload.sequence_id = r.sequence_id) (hstage : r.stage = .Authorized) :
    SystemRun members c oracle me P s₀ ⟨client, ⟨cluster, r :: requests, answers⟩⟩ := by
  obtain ⟨n, client_id, sequence_id, intent, raw_user_input, stage⟩ := r
  dsimp only at hrole hid hseq hstage
  subst hseq hstage
  exact .tail h hok (.deliver hsent hrole hid)

/-- One more step of the gateway. -/
theorem served {s₀ : System} {client : Client}
    (h : SystemRun members c oracle me P s₀ ⟨client, g⟩) (a : GatewayAct)
    (hok : P ⟨client, g⟩ (.Gateway a)) (hquiet : ∀ n, a ≠ .Arrive n)
    (hs : Moves members c oracle g a g') : SystemRun members c oracle me P s₀ ⟨client, g'⟩ :=
  .tail h hok (.gateway hs fun n _ ha => absurd ha (hquiet n))

/-- The first intent is committed and goes from the log, and the second one is sent. -/
theorem fresh_id_expected_second :
    ∃ s payload, SystemRun {1, 2, 3} plain (fun _ _ _ => True) home.client_id
      (Meets {1, 2, 3} home.client_id) (System.init home) s ∧
      s.client.awaits (.Propose payload) ∧ payload.sequence_id = 2 ∧
      Accepted {1, 2, 3} s.gateway.raft home.client_id 1 := by
  have hcommand : ∀ s : System, (∀ p, s.client.process = some p → p.failed = false) →
      Meets {1, 2, 3} home.client_id s (.Client (.Command milkIntent .Written)) :=
    fun s hp => ⟨rfl, fun p hsome hfailed => by rw [hp p hsome] at hfailed; cases hfailed⟩
  have hasked : SystemRun {1, 2, 3} plain (fun _ _ _ => True) home.client_id
      (Meets {1, 2, 3} home.client_id) (System.init home) ⟨asked, .init⟩ :=
    asked_run (fun _ => trivial) (fun _ => trivial) hcommand fun _ => .inl rfl
  have hsent := stepped hasked (.Attempt true) trivial trivial rfl
  have hled := gateway_run hsent (ledByOne_run fun _ _ => ⟨trivial, by simp⟩)
  have harrived := delivered milkRequest (milkPayload 1) hled trivial
    (List.mem_cons_self ..) rfl rfl rfl rfl
  -- the gateway takes it to the commit
  have hpassed := served harrived (.Firewall 0) trivial (by simp)
    (.pass rfl rfl (serving_new (n := 1)) rfl)
  have hlocked := served hpassed (.Lock 0) trivial (by simp)
    (.lock rfl rfl (by simp [Gateway.lockFree, Gateway.withStage, milkRequest, Stage.hasLock])
      (serving_new (n := 1)) rfl)
  have hresolved := served hlocked (.Resolve 0) trivial (by simp)
    (@Moves.resolve _ _ _ _ _ _ _ _ .Committed moreMilk rfl rfl trivial)
  have hproposed := served hresolved (.Propose 0) trivial (by simp)
    (@Moves.propose _ _ _ _ _ _ _ _ _ ⟨7, 0⟩ _ rfl rfl rfl rfl)
  have hagreed := gateway_run hproposed
    ((ledByOne_leading.propose (milkMutation .Committed)).agreed_run (by simp [proposeOn])
      (show GatewayRun _ _ _ _ ⟨_, [milkWaiting 1 .Committed], []⟩
        ⟨_, [milkWaiting 1 .Committed], []⟩ from .refl _)
      fun _ _ => ⟨trivial, by simp⟩)
  have hanswered := served hagreed (.Acknowledge 0)
    (fun r index status text entry hr _ hstage => by
      obtain rfl := Option.some.inj hr
      cases hstage
      rfl) (by simp) (.acknowledge (r := milkWaiting 1 .Committed) rfl rfl rfl (by decide))
  -- the client hears of it and goes on
  have hreceived := stepped hanswered
    (.Receive (.Mutation (build_mutation_response 1 .Committed "Approved")) .Written) trivial
    (.inr ⟨.Propose (milkPayload 1), milkPayload 1, ⟨_, _, _, rfl, rfl⟩, rfl,
      List.mem_cons_self ..⟩) rfl
  have hremoved := stepped hreceived (.Remove true true) trivial trivial rfl
  have hdrawn := stepped hremoved (.Command milkIntent .Written)
    (hcommand _ fun p hp => by cases hp; rfl) trivial rfl
  have hlogged := stepped hdrawn (.Append true true) (.inl rfl) trivial rfl
  have hagain := stepped hlogged (.Attempt true) trivial trivial rfl
  refine ⟨_, milkPayload 2, hagain, ⟨_, _, _, rfl, rfl⟩, rfl, ?_⟩
  exact (fresh_id_expected (fun _ _ _ => rfl) rfl hagain
    (show Client.awaits _ (.Propose (milkPayload 2)) from ⟨_, _, _, rfl, rfl⟩)).2.1 1 le_rfl
    (by decide)

end client_cli
