-- The gateway: what becomes of a proposed mutation from the firewall to the
-- answer. Every node runs one handler for each request, and one lock for the
-- part from the oracle to the commit. Below it is the protocol, which agrees on
-- one log; a node has applied some part of what it takes as committed.
import LactoSensus.Ledger
import LactoSensus.Lib.Machine
import LactoSensus.Lib.Raft.Completeness

open common.types
open common.proto
open lacto_fsm
open machine
open Function (update)

namespace common.taxonomy

inductive GroceryCategory where
  | PrimaryFlora
  | AnimalSecretions
  | FleshAndMarrow
  | ShelfStableCarbohydrates
  | CulturedDoughs
  | LiquefiedHydration
  | CondimentsAndCatalysts
  | NutrientSparseCommodities
  | EthanolSolutions
  | BiomedicalMaintenance
  | SanitizationAndUtility
  | AnomalousInputs
deriving DecidableEq, Repr

def GroceryCategory.to_string : GroceryCategory → String
  | .PrimaryFlora => "Primary Flora"
  | .AnimalSecretions => "Animal Secretions"
  | .FleshAndMarrow => "Flesh And Marrow"
  | .ShelfStableCarbohydrates => "Shelf Stable Carbohydrates"
  | .CulturedDoughs => "Cultured Doughs"
  | .LiquefiedHydration => "Liquefied Hydration"
  | .CondimentsAndCatalysts => "Condiments And Catalysts"
  | .NutrientSparseCommodities => "Nutrient Sparse Commodities"
  | .EthanolSolutions => "Ethanol Solutions"
  | .BiomedicalMaintenance => "Biomedical Maintenance"
  | .SanitizationAndUtility => "Sanitization And Utility"
  | .AnomalousInputs => "Anomalous Inputs"

end common.taxonomy

namespace gateway.ingress

open common.taxonomy

/-! ## Requests and answers -/

inductive Operation where
  | Add
  | Subtract
  | Set
  | Delete
deriving DecidableEq, Repr

inductive ProposalStatus where
  | Committed
  | Vetoed
deriving DecidableEq, Repr

def ProposalStatus.to_proto : ProposalStatus → MutationStatus
  | .Committed => .Committed
  | .Vetoed => .Vetoed

structure ScrubbedIntent where
  item_key : String
  operation : Operation
  quantity : Option String
  unit : Option String
  category : Option String
deriving DecidableEq, Repr

structure StabilizedMutation where
  resolved_item_key : String
  suggested_display_name : String
  updated_base_quantity : String
  base_unit : String
  display_unit : String
  category : GroceryCategory
  moral_justification : String
deriving DecidableEq, Repr

/-- `tonic::Status`, as far as the firewall returns one. -/
inductive Status where
  | InvalidArgument (msg : String)
deriving DecidableEq, Repr

def SEQUENCE_FIREWALL_ZERO : Nat := 0
def SEQUENCE_STEP : Nat := 1
def NEW_CLIENT_FIRST_SEQUENCE : Nat := 1

def rejected (state_version : Nat) (error_message : String) : ProposeMutationResponse :=
  ⟨MutationStatus.Rejected.toInt, state_version, "", error_message⟩

/-- No answer lets the request through. -/
def enforce_sequence_firewall (session_provider : LactoStore) (client_id : String)
    (sequence_id : Nat) : Except Status (Option ProposeMutationResponse) :=
  if sequence_id = SEQUENCE_FIREWALL_ZERO then
    .ok (some (rejected 0 "Secure Clinical: Protocol Violation (Sequence ID 0)"))
  else
    match session_provider.check_session client_id 0 with
    | .error _ => .error (.InvalidArgument "Request validation failed")
    | .ok (some record) =>
      if sequence_id = record.last_sequence_id then
        .ok (some ⟨record.status, record.log_index, "",
          if record.status = MutationStatus.Vetoed.toInt then record.moral_justification else ""⟩)
      else if sequence_id < record.last_sequence_id then
        .ok (some (rejected record.log_index "Secure Clinical: Stale Sequence"))
      else if sequence_id > record.last_sequence_id + SEQUENCE_STEP then
        .ok (some (rejected 0 "Secure Clinical: Sequence Continuity Violation"))
      else .ok none
    | .ok none =>
      if sequence_id ≠ NEW_CLIENT_FIRST_SEQUENCE then
        .ok (some (rejected 0 "Secure Clinical: Session Initialization Violation"))
      else .ok none

/-- What `commit_to_consensus` hands to the log. -/
def proposedMutation (client_id : String) (sequence_id : Nat) (intent : ScrubbedIntent)
    (stabilized : StabilizedMutation) (raw_user_input : String) (status : ProposalStatus)
    (now : Timestamp) : CommittedMutation :=
  .new client_id sequence_id stabilized.resolved_item_key stabilized.suggested_display_name
    stabilized.updated_base_quantity stabilized.base_unit stabilized.display_unit
    stabilized.category.to_string raw_user_input stabilized.moral_justification
    (intent.operation = .Delete) status.to_proto now

def build_mutation_response (index : Nat) (status : ProposalStatus)
    (moral_justification : String) : ProposeMutationResponse :=
  ⟨status.to_proto.toInt, index, "", if status = .Vetoed then moral_justification else ""⟩

/-! ## The handlers -/

/-- `handle_propose_mutation` at the points where it waits. -/
inductive Stage where
  /-- The node was the leader when the request came. -/
  | Authorized
  /-- The firewall has let the request through; it waits for the mutation lock. -/
  | Passed
  /-- It holds the lock, and has the inventory that the oracle is shown. -/
  | Evaluating (inventory : List GroceryItem)
  | Resolved (status : ProposalStatus) (stabilized : StabilizedMutation)
  /-- In `commit_to_consensus`, waiting for the index; the entry is the one it has proposed. -/
  | Waiting (proposal_index : Nat) (status : ProposalStatus) (moral_justification : String)
      (entry : raft.Entry CommittedMutation)
deriving DecidableEq

/-- The lock is held from the inventory to the answer. -/
def Stage.hasLock : Stage → Bool
  | .Authorized => false
  | .Passed => false
  | _ => true

structure Request where
  node : NodeId
  client_id : String
  sequence_id : Nat
  intent : ScrubbedIntent
  raw_user_input : String
  stage : Stage
deriving DecidableEq

/-- An answer that a client got for a request of its own. -/
structure Answer where
  client_id : String
  sequence_id : Nat
  response : ProposeMutationResponse
deriving DecidableEq, Repr

structure Gateway where
  raft : raft.State NodeId CommittedMutation
  requests : List Request
  answers : List Answer

def Gateway.init : Gateway := ⟨raft.State.init, [], []⟩

/-- The entries of a log, as the state machine is given them. -/
def mutations (log : List (raft.Entry CommittedMutation)) : List CommittedMutation :=
  log.map raft.Entry.data

/-- The state machine of the node has applied the first `k` entries that it takes as
committed. -/
structure Serving (c : Codec α) (s : raft.State NodeId CommittedMutation) (n : NodeId) (k : Nat)
    (store : LactoStore) : Prop where
  committed : k ≤ s.commit n
  applied : replay c (mutations ((s.log n).take k)) = (store, .ok ())

/-- A step of the protocol that is no proposal: the logs of the leaders stay as they are. -/
def Replicates (members : Finset NodeId) (n : NodeId)
    (s s' : raft.State NodeId CommittedMutation) : Prop :=
  raft.Step members n s s' ∧ ∀ t, s.leader t ≠ none → s'.glog t = s.glog t

def Gateway.lockFree (g : Gateway) (n : NodeId) : Prop :=
  ∀ r ∈ g.requests, r.node = n → r.stage.hasLock = false

def Gateway.withStage (g : Gateway) (i : Nat) (r : Request) (stage : Stage) : Gateway :=
  { g with requests := g.requests.set i { r with stage := stage } }

/-- The handler is over, with this answer for the client. -/
def Gateway.finish (g : Gateway) (i : Nat) (r : Request) (response : ProposeMutationResponse) :
    Gateway :=
  { g with
    requests := g.requests.eraseIdx i
    answers := ⟨r.client_id, r.sequence_id, response⟩ :: g.answers }

/-- The log of the leader with one more entry. -/
def proposeOn (s : raft.State NodeId CommittedMutation) (n : NodeId) (m : CommittedMutation) :
    raft.State NodeId CommittedMutation :=
  { s with
    log := Function.update s.log n (s.log n ++ [⟨s.term n, m⟩])
    glog := Function.update s.glog (s.term n) (s.log n ++ [⟨s.term n, m⟩])
    ack := raft.update₂ s.ack n (s.term n) ((s.log n).length + 1) }

inductive GatewayAct where
  | Replicate (n : NodeId)
  | Arrive (n : NodeId)
  | Firewall (i : Nat)
  | Lock (i : Nat)
  | Resolve (i : Nat)
  | Propose (i : Nat)
  | Acknowledge (i : Nat)
  | Drop (i : Nat)
deriving DecidableEq, Repr

/-- What the oracle and the stabilizer can make of an intent, given the inventory. -/
abbrev Oracle := List GroceryItem → ScrubbedIntent → ProposalStatus × StabilizedMutation → Prop

inductive Moves (members : Finset NodeId) (c : Codec α) (oracle : Oracle) (g : Gateway) :
    GatewayAct → Gateway → Prop where
  | replicate {n : NodeId} {s : raft.State NodeId CommittedMutation}
      (hs : Replicates members n g.raft s) :
      Moves members c oracle g (.Replicate n) { g with raft := s }
  /-- `authorize_mutation`; the id is the canonical text of what the client sent. -/
  | arrive {n : NodeId} {raw client_id : String} {sequence_id : Nat} {intent : ScrubbedIntent}
      {raw_user_input : String} (hrole : g.raft.role n = .leader)
      (hid : c.parse_uuid raw = .ok client_id) :
      Moves members c oracle g (.Arrive n) { g with
        requests :=
          ⟨n, client_id, sequence_id, intent, raw_user_input, .Authorized⟩ :: g.requests }
  | answer {i k : Nat} {r : Request} {store : LactoStore} {response : ProposeMutationResponse}
      (hr : g.requests[i]? = some r) (hstage : r.stage = .Authorized)
      (hstore : Serving c g.raft r.node k store)
      (hwall : enforce_sequence_firewall store r.client_id r.sequence_id = .ok (some response)) :
      Moves members c oracle g (.Firewall i) (g.finish i r response)
  | pass {i k : Nat} {r : Request} {store : LactoStore}
      (hr : g.requests[i]? = some r) (hstage : r.stage = .Authorized)
      (hstore : Serving c g.raft r.node k store)
      (hwall : enforce_sequence_firewall store r.client_id r.sequence_id = .ok none) :
      Moves members c oracle g (.Firewall i) (g.withStage i r .Passed)
  | lock {i k : Nat} {r : Request} {store : LactoStore} {inventory : List GroceryItem}
      (hr : g.requests[i]? = some r) (hstage : r.stage = .Passed) (hfree : g.lockFree r.node)
      (hstore : Serving c g.raft r.node k store) (hread : store.get_inventory = .ok inventory) :
      Moves members c oracle g (.Lock i) (g.withStage i r (.Evaluating inventory))
  | resolve {i : Nat} {r : Request} {inventory : List GroceryItem} {status : ProposalStatus}
      {stabilized : StabilizedMutation} (hr : g.requests[i]? = some r)
      (hstage : r.stage = .Evaluating inventory)
      (horacle : oracle inventory r.intent (status, stabilized)) :
      Moves members c oracle g (.Resolve i) (g.withStage i r (.Resolved status stabilized))
  | propose {i : Nat} {r : Request} {status : ProposalStatus} {stabilized : StabilizedMutation}
      {now : Timestamp} {m : CommittedMutation} (hr : g.requests[i]? = some r)
      (hstage : r.stage = .Resolved status stabilized) (hrole : g.raft.role r.node = .leader)
      (hm : m = proposedMutation r.client_id r.sequence_id r.intent stabilized r.raw_user_input
        status now) :
      Moves members c oracle g (.Propose i)
        { g.withStage i r (.Waiting ((g.raft.log r.node).length + 1) status
            stabilized.moral_justification ⟨g.raft.term r.node, m⟩) with
          raft := proposeOn g.raft r.node m }
  /-- A look of `await_commit` that finds the index committed. -/
  | acknowledge {i proposal_index : Nat} {r : Request} {status : ProposalStatus}
      {moral_justification : String} {entry : raft.Entry CommittedMutation}
      (hr : g.requests[i]? = some r)
      (hstage : r.stage = .Waiting proposal_index status moral_justification entry)
      (hrole : g.raft.role r.node = .leader) (hle : proposal_index ≤ g.raft.commit r.node) :
      Moves members c oracle g (.Acknowledge i)
        (g.finish i r (build_mutation_response proposal_index status moral_justification))
  /-- The handler ends without an answer of interest: an error, a redirection, a timeout, a
  client that is gone, a host that has crashed. -/
  | drop {i : Nat} : Moves members c oracle g (.Drop i)
      { g with requests := g.requests.eraseIdx i }

/-- The runs of the gateway whose steps meet a condition on the state before them. -/
def GatewayRun (members : Finset NodeId) (c : Codec α) (oracle : Oracle)
    (P : Gateway → GatewayAct → Prop) : Gateway → Gateway → Prop :=
  Trail (Moves members c oracle) P

/-! ## Three nodes -/

/-- Node 1 leads term 1 with the votes of nodes 1 and 2. -/
def ledByOne : raft.State NodeId CommittedMutation :=
  { raft.State.init with
    term := update (update (fun _ => 0) 1 1) 2 1
    role := update (update (update (fun _ => .follower) 1 .candidate) 2 .follower) 1 .leader
    voted := raft.update₂ (raft.update₂ (fun _ _ => none) 1 1 (some 1)) 2 1 (some 1)
    cand := raft.update₂ (fun _ _ => none) 1 1 (some [])
    leader := update (fun _ => none) 1 (some 1)
    electors := update (fun _ => ∅) 1 {1, 2}
    glog := update (fun _ => []) 1 []
    ack := raft.update₂ (fun _ _ => 0) 1 1 0 }

variable {members : Finset NodeId} {c : Codec α} {oracle : Oracle} {P : Gateway → GatewayAct → Prop}
  {g : Gateway} {s s' : raft.State NodeId CommittedMutation} {n : NodeId}
  {requests : List Request} {answers : List Answer}

/-- One more step of the protocol, which is no proposal. -/
theorem replicated (h : GatewayRun members c oracle P g ⟨s, requests, answers⟩)
    (hP : ∀ g n, P g (.Replicate n)) (hs : raft.Step members n s s')
    (hglog : ∀ t, s.leader t ≠ none → s'.glog t = s.glog t) :
    GatewayRun members c oracle P g ⟨s', requests, answers⟩ :=
  .tail h (hP _ n) (.replicate ⟨hs, hglog⟩)

theorem ledByOne_run (hP : ∀ g n, P g (.Replicate n)) :
    GatewayRun {1, 2, 3} c oracle P Gateway.init ⟨ledByOne, [], []⟩ := by
  have hstart : GatewayRun {1, 2, 3} c oracle P Gateway.init ⟨raft.State.init, [], []⟩ := .refl _
  have hcampaign := replicated hstart hP (.campaign (n := 1) _) fun _ _ => rfl
  have hobserve := replicated hcampaign hP (.observe (n := 2) _ 1 (by decide)) fun _ _ => rfl
  have hgrant := replicated hobserve hP
    (.grant (n := 2) _ 1 [] (.inl rfl) rfl fun _ => .inr ⟨rfl, le_rfl⟩) fun _ _ => rfl
  have hnone : ∀ t, (raft.State.init : raft.State NodeId CommittedMutation).leader t = none :=
    fun _ => rfl
  exact replicated hgrant hP
    (.elect (n := 1) _ {1, 2} rfl ⟨by decide, by decide⟩ (by decide))
    fun t hno => absurd (hnone t) hno

/-- Node 1 leads term 1, and node 2 follows it. -/
structure Leading (s : raft.State NodeId CommittedMutation) : Prop where
  term₁ : s.term 1 = 1
  term₂ : s.term 2 = 1
  role₁ : s.role 1 = .leader
  role₂ : s.role 2 = .follower
  leader : s.leader 1 = some 1
  glog : s.glog 1 = s.log 1
  follows : s.log 2 <+: s.log 1
  ack : s.ack 1 1 = (s.log 1).length
  entries : ∀ e ∈ s.log 1, e.term = 1

/-- Node 2 has the log of node 1, which takes all of it as committed. -/
def agreed (s : raft.State NodeId CommittedMutation) : raft.State NodeId CommittedMutation :=
  { s with
    log := update s.log 2 (s.log 1)
    ack := raft.update₂ s.ack 2 1 (max (s.ack 2 1) (s.log 1).length)
    commit := update s.commit 1 (s.log 1).length }

theorem ledByOne_leading : Leading ledByOne := by
  constructor <;> simp [ledByOne, raft.State.init, raft.update₂]

theorem Leading.propose (h : Leading s) (m : CommittedMutation) : Leading (proposeOn s 1 m) := by
  refine ⟨h.term₁, h.term₂, h.role₁, h.role₂, h.leader, ?_, ?_, ?_, ?_⟩
  · simp [proposeOn, h.term₁]
  · have hfollows : s.log 2 <+: s.log 1 ++ [⟨s.term 1, m⟩] :=
      h.follows.trans (List.prefix_append _ _)
    simpa [proposeOn] using hfollows
  · simp [proposeOn, raft.update₂, h.term₁]
  · intro e he
    simp only [proposeOn, Function.update_self, List.mem_append, List.mem_singleton] at he
    rcases he with hold | rfl
    · exact h.entries e hold
    · exact h.term₁

theorem Leading.agreed (h : Leading s) : Leading (agreed s) := by
  refine ⟨h.term₁, h.term₂, h.role₁, h.role₂, h.leader, ?_, ?_, ?_, ?_⟩
  · simpa [ingress.agreed] using h.glog
  · simp [ingress.agreed]
  · simpa [ingress.agreed, raft.update₂] using h.ack
  · simpa [ingress.agreed] using h.entries

/-- Node 2 takes over what it lacks and confirms it, and node 1 commits it. -/
theorem Leading.agreed_run (h : Leading s) (hne : s.log 1 ≠ [])
    (hrun : GatewayRun {1, 2, 3} c oracle P g ⟨s, requests, answers⟩)
    (hP : ∀ g n, P g (.Replicate n)) :
    GatewayRun {1, 2, 3} c oracle P g ⟨ingress.agreed s, requests, answers⟩ := by
  have hlead : s.leader 1 ≠ none := by
    rw [h.leader]
    simp
  have htake : (s.glog 1).take (s.log 1).length = s.log 1 := by rw [h.glog, List.take_length]
  have hextend := replicated hrun hP
    (.extend (n := 2) _ 1 (s.log 1).length h.role₂ hlead h.term₂.le
      (by rw [htake]; exact h.follows)) fun _ _ => rfl
  rw [htake] at hextend
  have hconfirm := replicated hextend hP
    (.confirm (n := 2) _ (s.log 1).length (by simp [h.term₂, h.glog])
      (by simp [h.term₂, htake])) fun _ _ => rfl
  simp only [h.term₂] at hconfirm
  have hends : raft.EndsIn s 1 (s.log 1).length := by
    obtain ⟨l, e, hl⟩ := List.eq_nil_or_concat (s.log 1) |>.resolve_left hne
    rw [List.concat_eq_append] at hl
    refine ⟨e, ?_, ?_, h.entries e (by rw [hl]; simp)⟩
    · rw [hl]
      simp
    · rw [h.glog, hl]
      simp
  have hacks : ∀ q ∈ ({1, 2} : Finset NodeId), (s.log 1).length ≤ (ingress.agreed s).ack q 1 := by
    intro q hq
    rcases Finset.mem_insert.mp hq with rfl | hq
    · simp [ingress.agreed, raft.update₂, h.ack]
    · rw [Finset.mem_singleton.mp hq]
      simp [ingress.agreed, raft.update₂]
  refine replicated hconfirm hP (.learn (n := 1) _ (s.log 1).length (by simp) ?_) fun _ _ => rfl
  refine .inr ⟨1, (s.log 1).length, h.term₁.ge,
    ⟨hends, {1, 2}, ⟨by decide, by decide⟩, hacks⟩, ?_⟩
  simp [htake]

/-! ## One request -/

/-- The firewall lets a request through. -/
theorem passed_run (r : Request) {k : Nat} {store : LactoStore}
    (hrun : GatewayRun members c oracle P g ⟨s, requests, answers⟩)
    (hP : ∀ g a, (∀ i, a ≠ .Acknowledge i) → P g a) (hrole : s.role r.node = .leader)
    (hid : c.parse_uuid r.client_id = .ok r.client_id) (hstore : Serving c s r.node k store)
    (hwall : enforce_sequence_firewall store r.client_id r.sequence_id = .ok none) :
    GatewayRun members c oracle P g ⟨s, { r with stage := .Passed } :: requests, answers⟩ := by
  have harrive : GatewayRun members c oracle P g
      ⟨s, { r with stage := .Authorized } :: requests, answers⟩ :=
    .tail hrun (hP _ (.Arrive r.node) (fun _ => nofun)) (.arrive hrole hid)
  exact .tail harrive (hP _ (.Firewall 0) (fun _ => nofun))
    (.pass (r := { r with stage := .Authorized }) rfl rfl hstore hwall)

/-- The first request takes the lock, gets its verdict and is proposed. -/
theorem proposed_run (r : Request) (status : ProposalStatus) (stabilized : StabilizedMutation)
    (now : Timestamp) {k : Nat} {store : LactoStore} {inventory : List GroceryItem}
    (hrun : GatewayRun members c oracle P g
      ⟨s, { r with stage := .Passed } :: requests, answers⟩)
    (hP : ∀ g a, (∀ i, a ≠ .Acknowledge i) → P g a) (hrole : s.role r.node = .leader)
    (hfree : ∀ r' ∈ requests, r'.node = r.node → r'.stage.hasLock = false)
    (hstore : Serving c s r.node k store) (hread : store.get_inventory = .ok inventory)
    (horacle : oracle inventory r.intent (status, stabilized)) {m : CommittedMutation}
    (hm : m = proposedMutation r.client_id r.sequence_id r.intent stabilized r.raw_user_input
      status now) :
    GatewayRun members c oracle P g
      ⟨proposeOn s r.node m,
        { r with
          stage := .Waiting ((s.log r.node).length + 1) status stabilized.moral_justification
            ⟨s.term r.node, m⟩ } :: requests, answers⟩ := by
  have hlock : GatewayRun members c oracle P g
      ⟨s, { r with stage := .Evaluating inventory } :: requests, answers⟩ :=
    .tail hrun (hP _ (.Lock 0) (fun _ => nofun)) (.lock (r := { r with stage := .Passed })
      rfl rfl (List.forall_mem_cons.mpr ⟨fun _ => rfl, hfree⟩) hstore hread)
  have hresolve : GatewayRun members c oracle P g
      ⟨s, { r with stage := .Resolved status stabilized } :: requests, answers⟩ :=
    .tail hlock (hP _ (.Resolve 0) (fun _ => nofun))
      (.resolve (r := { r with stage := .Evaluating inventory }) rfl rfl horacle)
  exact .tail hresolve (hP _ (.Propose 0) (fun _ => nofun))
    (.propose (r := { r with stage := .Resolved status stabilized }) rfl rfl hrole hm)

/-- The first request has its index committed, and is answered. -/
theorem acknowledged_run (r : Request) {index : Nat} {status : ProposalStatus} {text : String}
    {entry : raft.Entry CommittedMutation}
    (hrun : GatewayRun members c oracle P g
      ⟨s, { r with stage := .Waiting index status text entry } :: requests, answers⟩)
    (hok : P ⟨s, { r with stage := .Waiting index status text entry } :: requests, answers⟩
      (.Acknowledge 0))
    (hrole : s.role r.node = .leader) (hle : index ≤ s.commit r.node) :
    GatewayRun members c oracle P g ⟨s, requests,
      ⟨r.client_id, r.sequence_id, build_mutation_response index status text⟩ :: answers⟩ :=
  .tail hrun hok
    (.acknowledge (r := { r with stage := .Waiting index status text entry }) rfl rfl hrole hle)

def addMilk : ScrubbedIntent := ⟨"milk", .Add, some "1", some "l", none⟩

def moreMilk : StabilizedMutation :=
  ⟨"milk", "Milk", "1000", "ml", "l", .AnimalSecretions, "Approved"⟩

def milkRequest : Request :=
  ⟨1, "6ba7b810-9dad-11d1-80b4-00c04fd430c8", 1, addMilk, "add milk", .Authorized⟩

def milkMutation (status : ProposalStatus) : CommittedMutation :=
  proposedMutation milkRequest.client_id 1 addMilk moreMilk "add milk" status ⟨7, 0⟩

/-- What waits for the index to be committed, whatever the oracle has said. -/
def milkWaiting (index : Nat) (status : ProposalStatus) : Request :=
  { milkRequest with
    stage := .Waiting index status moreMilk.moral_justification ⟨1, milkMutation status⟩ }

/-- A node that has applied nothing yet. -/
theorem serving_new : Serving c s n 0 LactoStore.new :=
  ⟨Nat.zero_le _, rfl⟩

/-- Node 1 is asked for milk, and asked again before it has the first answer. -/
theorem askedTwice_run (hP : ∀ g a, (∀ i, a ≠ .Acknowledge i) → P g a) :
    GatewayRun {1, 2, 3} plain (fun _ _ _ => True) P Gateway.init
      ⟨proposeOn ledByOne 1 (milkMutation .Committed),
        [milkWaiting 1 .Committed, { milkRequest with stage := .Passed }], []⟩ := by
  have hled : GatewayRun {1, 2, 3} plain (fun _ _ _ => True) P Gateway.init ⟨ledByOne, [], []⟩ :=
    ledByOne_run fun g n => hP g (.Replicate n) fun _ => nofun
  have hpassed := passed_run milkRequest hled hP rfl rfl serving_new rfl
  have hagain := passed_run milkRequest hpassed hP rfl rfl serving_new rfl
  exact proposed_run milkRequest .Committed moreMilk ⟨7, 0⟩ hagain hP rfl
    (by simp [Stage.hasLock]) serving_new rfl trivial rfl

end gateway.ingress
