-- The way of a request from one node to another: the identity of the cluster and of the
-- node that is meant go with it as headers, and so does the trace. However the nodes of
-- several clusters call each other, over whatever addresses, a node handles what members
-- of its own cluster have sent to it, in the order in which it came, and nothing else.
import LactoSensus.Cluster
import LactoSensus.Identity
import Mathlib.Data.String.Basic

open common.types
open ordmap
open raft_engine.engine
open raft_engine.consensus
open raft_engine.shell
open raft_engine.cluster

namespace raft_engine.transport

variable {α V U : Type}

/-! ## Headers -/

/-- The codes that are used here. -/
inductive Code where
  | Internal
  | Unauthenticated
  | FailedPrecondition
  | InvalidArgument
  | DataLoss
deriving DecidableEq, Repr

/-- An error over the wire. -/
structure Status where
  code : Code
  message : String
deriving DecidableEq, Repr

/-- The cluster that a request is for. -/
def HEADER_CLUSTER_ID : String := "x-cluster-id"

/-- The node that a request is for. -/
def HEADER_TARGET_NODE_ID : String := "x-target-node-id"

/-- The trace that a request and its response belong to. -/
def HEADER_TRACE_ID : String := "x-trace-id"

/-- The characters that `HeaderValue::to_str` lets through. -/
def Visible (s : String) : Prop := ∀ c ∈ s.toList, 32 ≤ c.toNat ∧ c.toNat < 127 ∨ c = '\t'

instance (s : String) : Decidable (Visible s) :=
  List.decidableBAll _ s.toList

/-- A cluster id that was accepted can stand in a header exactly when it is ASCII. -/
theorem visible_cluster_id {beyond : Char → Bool} {raw id : String}
    (h : ClusterId.try_new beyond raw = .ok id) : Visible id ↔ ∀ c ∈ id.toList, c.toNat < 128 := by
  constructor
  · intro hvisible c hc
    rcases hvisible c hc with ⟨-, hlt⟩ | rfl
    · omega
    · decide
  · intro hascii c hc
    left
    rcases ClusterId.try_new_chars h c hc with halnum | rfl | rfl
    · unfold is_alphanumeric at halnum
      rw [if_pos (hascii c hc)] at halnum
      have hranges : c.isAlphanum =
          (decide ('A' ≤ c ∧ c ≤ 'Z') || (decide ('a' ≤ c) && decide (c ≤ 'z')) ||
            (decide ('0' ≤ c) && decide (c ≤ '9'))) := rfl
      rw [hranges] at halnum
      simp only [Bool.or_eq_true, Bool.and_eq_true, decide_eq_true_eq, Char.le_def,
        UInt32.le_iff_toNat_le] at halnum
      simp at halnum
      omega
    · decide
    · decide

/-- Header values and trace ids, as far as they are used here. A text of visible characters
is read as it was written; any other one is refused, when it is written or when it is read. -/
structure Headers (V U : Type) where
  parse : String → Option V
  to_str : V → Option String
  uuid_text : U → String
  parse_uuid : String → Option U
  visible : ∀ s, Visible s → ∃ v, parse s = some v ∧ to_str v = some s
  unseen : ∀ s v, ¬Visible s → parse s = some v → to_str v = none
  status_text : Status → String
  uuid_visible : ∀ u, Visible (uuid_text u)
  uuid_back : ∀ u, parse_uuid (uuid_text u) = some u

/-- A request or a response: what goes over the wire, and the extension that does not. -/
structure Carried (V U X : Type) where
  «metadata» : OrdMap String V
  trace : Option U
  body : X

/-- Who a node is. -/
structure NodeIdentity where
  cluster_id : String
  node_id : NodeId
deriving DecidableEq, Repr

variable {X Y : Type}

/-! ### Identity -/

/-- The error of a header that is not there. -/
def missing (header : String) : Status :=
  ⟨.Unauthenticated, s!"Missing mandatory {header} header"⟩

/-- `IdentityInterceptor::inject_identity_into_request`. -/
def inject_identity_into_request (h : Headers V U) (cluster_id : String)
    (target_node_id : NodeId) (req : Carried V U X) : Except Status (Carried V U X) :=
  match h.parse cluster_id with
  | none => .error ⟨.Internal, "Failed to parse cluster_id for outbound header"⟩
  | some cluster_val =>
    match h.parse (toString target_node_id) with
    | none => .error ⟨.Internal, "Failed to parse target_node_id for outbound header"⟩
    | some node_val =>
      .ok { req with
        «metadata» := (req.metadata.insert HEADER_CLUSTER_ID cluster_val).insert
          HEADER_TARGET_NODE_ID node_val }

/-- The cluster of the header is the cluster of the node. -/
def verify_cluster_id (h : Headers V U) (identity : NodeIdentity) (req : Carried V U X) :
    Except Status Unit :=
  match req.metadata.get? HEADER_CLUSTER_ID with
  | none => .error (missing HEADER_CLUSTER_ID)
  | some v =>
    match h.to_str v with
    | none => .error ⟨.Unauthenticated, "Invalid cluster ID encoding"⟩
    | some cluster_id_header =>
      if cluster_id_header ≠ identity.cluster_id then
        .error ⟨.Unauthenticated, "Cluster identity mismatch"⟩
      else .ok ()

/-- The target of the header is the node itself. -/
def verify_target_node_id (h : Headers V U) (identity : NodeIdentity) (req : Carried V U X) :
    Except Status Unit :=
  match req.metadata.get? HEADER_TARGET_NODE_ID with
  | none => .error (missing HEADER_TARGET_NODE_ID)
  | some v =>
    match h.to_str v with
    | none => .error ⟨.Unauthenticated, "Invalid node ID encoding"⟩
    | some node_id_str =>
      match NodeId.from_str node_id_str with
      | .error _ => .error ⟨.Unauthenticated, "Invalid node ID format"⟩
      | .ok target_node_id =>
        if target_node_id ≠ identity.node_id then
          .error ⟨.Unauthenticated, "Target node identity mismatch"⟩
        else .ok ()

/-- The guard in front of a service. -/
structure IdentityInterceptor where
  identity : NodeIdentity
  enforce_target_node : Bool
deriving DecidableEq, Repr

/-- The guard of the consensus service. -/
def IdentityInterceptor.new (identity : NodeIdentity) : IdentityInterceptor := ⟨identity, true⟩

/-- The guard of the ingress, whose clients know the cluster only. -/
def IdentityInterceptor.without_node_check (identity : NodeIdentity) : IdentityInterceptor :=
  ⟨identity, false⟩

/-- The cluster is checked before the node. -/
def IdentityInterceptor.call (h : Headers V U) (i : IdentityInterceptor)
    (req : Carried V U X) : Except Status (Carried V U X) :=
  match verify_cluster_id h i.identity req with
  | .error e => .error e
  | .ok () =>
    if i.enforce_target_node then (verify_target_node_id h i.identity req).map fun _ => req
    else .ok req

/-! ### Traces -/

/-- `inject_trace_id_into_request`, and the same for a response. -/
def inject_trace_id (h : Headers V U) (trace_id : U) (c : Carried V U X) :
    Except Status (Carried V U X) :=
  match h.parse (h.uuid_text trace_id) with
  | none => .error ⟨.Internal, "Failed to parse TraceId for outbound header"⟩
  | some trace_val => .ok { c with «metadata» := c.metadata.insert HEADER_TRACE_ID trace_val }

/-- The trace among the headers, if it can be read. -/
def trace_of (h : Headers V U) (c : Carried V U X) : Option U :=
  ((c.metadata.get? HEADER_TRACE_ID).bind h.to_str).bind h.parse_uuid

/-- `TraceInterceptor::call`; an authoritative one generates a new id. -/
def traceInterceptor (h : Headers V U) (authoritative : Option U) (req : Carried V U X) :
    Except Status (Carried V U X) :=
  match authoritative with
  | some generated => .ok { req with trace := some generated }
  | none =>
    match trace_of h req with
    | none =>
      .error ⟨.FailedPrecondition, "Missing or malformed TraceId for distributed correlation"⟩
    | some trace_id => .ok { req with trace := some trace_id }

/-- A handler needs the trace that the interceptor has put beside the request. -/
def require_trace_id (req : Carried V U X) : Except Status U :=
  match req.trace with
  | none => .error ⟨.FailedPrecondition, "Missing TraceId for distributed correlation"⟩
  | some trace_id => .ok trace_id

/-- `verify_trace_integrity` of the caller. -/
def verify_trace_integrity [DecidableEq U] (h : Headers V U) (response : Carried V U X)
    (expected_id : U) : Except Status Unit :=
  match trace_of h response with
  | some returned_id =>
    if returned_id = expected_id then .ok ()
    else .error ⟨.DataLoss, "Causal Integrity Violation"⟩
  | none => .error ⟨.DataLoss, "Trace ID Missing in Response"⟩

/-! ## Requests -/

/-- What one node asks of another. -/
inductive PeerRequest (α : Type) where
  | PreVote (req : RequestVoteRequest)
  | RequestVote (req : RequestVoteRequest)
  | AppendEntries (req : AppendEntriesRequest α)
deriving DecidableEq

/-- The node that asks. -/
def PeerRequest.sender : PeerRequest α → NodeId
  | .PreVote req => req.candidate_id
  | .RequestVote req => req.candidate_id
  | .AppendEntries req => req.leader_id

/-- The request as a message of the network. -/
def PeerRequest.message (dst : NodeId) : PeerRequest α → Message α
  | .PreVote req => .PreVote dst req
  | .RequestVote req => .RequestVote dst req
  | .AppendEntries req => .AppendEntries dst req

/-- `RequestVoteRequest` and `PreVoteRequest` on the wire: the id of the sender is a text. -/
structure VoteWire where
  term : Nat
  candidate_id : String
  last_log_index : Nat
  last_log_term : Nat
deriving DecidableEq, Repr

/-- `AppendEntriesRequest` on the wire. -/
structure AppendWire (α : Type) where
  term : Nat
  leader_id : String
  prev_log_index : Nat
  prev_log_term : Nat
  entries : List (LogEntry α)
  leader_commit : Nat
deriving DecidableEq, Repr

/-- A request on the wire. -/
inductive PeerWire (α : Type) where
  | PreVote (req : VoteWire)
  | RequestVote (req : VoteWire)
  | AppendEntries (req : AppendWire α)
deriving DecidableEq

/-- The wire form of a request for a vote. -/
def VoteWire.new (req : RequestVoteRequest) : VoteWire :=
  ⟨req.term, toString req.candidate_id, req.last_log_index, req.last_log_term⟩

/-- The wire form of a request to append. -/
def AppendWire.new (req : AppendEntriesRequest α) : AppendWire α :=
  ⟨req.term, toString req.leader_id, req.prev_log_index, req.prev_log_term, req.entries,
    req.leader_commit⟩

/-- What is sent for a request. -/
def PeerRequest.to_wire : PeerRequest α → PeerWire α
  | .PreVote req => .PreVote (.new req)
  | .RequestVote req => .RequestVote (.new req)
  | .AppendEntries req => .AppendEntries (.new req)

/-- The id of a sender is read as a number. -/
def sender_of (id : String) : Except Status NodeId :=
  (NodeId.from_str id).mapError fun _ => ⟨.InvalidArgument, s!"Invalid NodeId: '{id}'"⟩

/-- `VoteParams::try_from_proto` and `PreVoteParams::try_from_proto`. -/
def VoteWire.try_from_proto (req : VoteWire) : Except Status RequestVoteRequest :=
  (sender_of req.candidate_id).map fun candidate_id =>
    ⟨req.term, candidate_id, req.last_log_index, req.last_log_term⟩

/-- `AppendParams::try_from_proto`. -/
def AppendWire.try_from_proto (req : AppendWire α) : Except Status (AppendEntriesRequest α) :=
  (sender_of req.leader_id).map fun leader_id =>
    ⟨req.term, leader_id, req.prev_log_index, req.prev_log_term, req.entries, req.leader_commit⟩

/-- What is handled of what was sent. -/
def PeerWire.try_from_proto : PeerWire α → Except Status (PeerRequest α)
  | .PreVote req => req.try_from_proto.map .PreVote
  | .RequestVote req => req.try_from_proto.map .RequestVote
  | .AppendEntries req => req.try_from_proto.map .AppendEntries

/-! ## The two ends of a call -/

/-- The caller: who it is, and the addresses of its peers. -/
structure PeerManager where
  identity : NodeIdentity
  peers : OrdMap NodeId String
deriving DecidableEq

/-- The caller: a client of the peer manager, the trace, and the interceptor of the client. -/
def outbound (h : Headers V U) (pm : PeerManager) (peer_id : NodeId) (trace_id : U)
    (req : PeerRequest α) : Except Status (String × Carried V U (PeerWire α)) :=
  match pm.peers.get? peer_id with
  | none => .error ⟨.Internal, s!"Node ID {peer_id} not found in peer map"⟩
  | some address =>
    match inject_trace_id h trace_id ⟨.empty, none, req.to_wire⟩ with
    | .error e => .error ⟨.Internal, s!"Telemetry injection failed: {h.status_text e}"⟩
    | .ok req =>
      match inject_identity_into_request h pm.identity.cluster_id peer_id req with
      | .error e => .error e
      | .ok req =>
        match req.trace with
        | none => .ok (address, req)
        | some trace_id => (inject_trace_id h trace_id req).map (address, ·)

/-- The callee: who it is, and its node. -/
structure Server (α : Type) where
  identity : NodeIdentity
  shell : ConsensusShell α
deriving DecidableEq

/-- The dispatcher; a handler that panics answers nothing. -/
def dispatch (h : Headers V U) (s : Server α) (timeout : Nat) (req : Carried V U (PeerWire α)) :
    Server α × Option (Except Status (Carried V U (Message α))) :=
  match require_trace_id req with
  | .error e => (s, some (.error e))
  | .ok trace_id =>
    match req.body.try_from_proto with
    | .error e => (s, some (.error e))
    | .ok params =>
      match serve s.shell timeout (params.message s.identity.node_id) with
      | some (_, shell, [reply]) =>
        ({ s with shell := shell }, some (inject_trace_id h trace_id ⟨.empty, none, reply⟩))
      | some (_, shell, _) => ({ s with shell := shell }, none)
      | none => (s, none)

/-- The consensus service with its interceptors. -/
def receive (h : Headers V U) (s : Server α) (timeout : Nat) (req : Carried V U (PeerWire α)) :
    Server α × Option (Except Status (Carried V U (Message α))) :=
  match (IdentityInterceptor.new s.identity).call h req with
  | .error e => (s, some (.error e))
  | .ok req =>
    match traceInterceptor h none req with
    | .error e => (s, some (.error e))
    | .ok req => dispatch h s timeout req

/-- What the caller is left with. Nothing comes back from an address where no one listens and
from a handler that panics. -/
inductive Outcome (α : Type) where
  | Answered (reply : Message α)
  | Failed (e : Status)
  | Lost
deriving DecidableEq

/-- A call from one node to another. -/
structure Call (α U : Type) where
  caller : PeerManager
  peer_id : NodeId
  trace_id : U
  request : PeerRequest α
  timeout : Nat

/-- The servers by their addresses, of one cluster or of several. -/
abbrev World (α : Type) := String → Option (Server α)

/-- The whole way of a call, and back. -/
def callPeer [DecidableEq U] (h : Headers V U) (w : World α) (c : Call α U) :
    World α × Outcome α :=
  match outbound h c.caller c.peer_id c.trace_id c.request with
  | .error e => (w, .Failed e)
  | .ok (address, req) =>
    match w address with
    | none => (w, .Lost)
    | some s =>
      -- the extension stays with the caller
      match receive h s c.timeout { req with trace := none } with
      | (s, answer) =>
        (Function.update w address (some s),
          match answer with
          | none => .Lost
          | some (.error e) => .Failed e
          | some (.ok response) =>
            match verify_trace_integrity h response c.trace_id with
            | .error e => .Failed e
            | .ok () => .Answered response.body)

/-! ## What goes through -/

variable {h : Headers V U}

theorem visible_digits (n : Nat) : Visible (toString n) := by
  have htext : (toString n).toList = Nat.toDigits 10 n := by
    change (Nat.repr n).toList = _
    simp [Nat.repr]
  intro c hc
  rw [htext] at hc
  have hdigit := Nat.isDigit_of_mem_toDigits (by norm_num) le_rfl hc
  simp only [Char.isDigit, Bool.and_eq_true, decide_eq_true_eq] at hdigit
  refine .inl ⟨?_, ?_⟩
  · have := hdigit.1
    change 48 ≤ c.toNat at this
    omega
  · have := hdigit.2
    change c.toNat ≤ 57 at this
    omega

theorem sender_back {id : NodeId} (hid : NodeId.Valid id) : sender_of (toString id) = .ok id := by
  unfold sender_of
  rw [from_str_text hid]
  rfl

theorem VoteWire.back {req : RequestVoteRequest} (h : NodeId.Valid req.candidate_id) :
    (VoteWire.new req).try_from_proto = .ok req := by
  unfold VoteWire.try_from_proto VoteWire.new
  rw [sender_back h]
  rfl

theorem AppendWire.back {req : AppendEntriesRequest α} (h : NodeId.Valid req.leader_id) :
    (AppendWire.new req).try_from_proto = .ok req := by
  unfold AppendWire.try_from_proto AppendWire.new
  rw [sender_back h]
  rfl

theorem wire_back {r : PeerRequest α} (hr : NodeId.Valid r.sender) :
    r.to_wire.try_from_proto = .ok r := by
  unfold PeerRequest.to_wire PeerWire.try_from_proto
  cases r with
  | PreVote req => simp only [VoteWire.back hr, Except.map]
  | RequestVote req => simp only [VoteWire.back hr, Except.map]
  | AppendEntries req => simp only [AppendWire.back hr, Except.map]

/-- The trace that was put among the headers is read there. -/
theorem inject_trace_ok (h : Headers V U) (trace_id : U) (c : Carried V U X) :
    ∃ v, h.to_str v = some (h.uuid_text trace_id) ∧ inject_trace_id h trace_id c =
      .ok { c with «metadata» := c.metadata.insert HEADER_TRACE_ID v } := by
  obtain ⟨v, hparse, hread⟩ := h.visible _ (h.uuid_visible trace_id)
  refine ⟨v, hread, ?_⟩
  unfold inject_trace_id
  rw [hparse]

/-- What goes over the wire when a call is made. -/
structure Signed (h : Headers V U) (c : Call α U) (req : Carried V U (PeerWire α)) : Prop where
  body : req.body = c.request.to_wire
  trace : trace_of h req = some c.trace_id
  cluster : ∃ v, req.metadata.get? HEADER_CLUSTER_ID = some v ∧
    h.to_str v = if Visible c.caller.identity.cluster_id then some c.caller.identity.cluster_id
      else none
  target : ∃ v, req.metadata.get? HEADER_TARGET_NODE_ID = some v ∧
    h.to_str v = some (toString c.peer_id)

theorem outbound_cases (h : Headers V U) (c : Call α U) {address : String}
    (hpeer : c.caller.peers.get? c.peer_id = some address) :
    (∃ e, ¬Visible c.caller.identity.cluster_id ∧
      outbound h c.caller c.peer_id c.trace_id c.request = .error e) ∨
    ∃ req, outbound h c.caller c.peer_id c.trace_id c.request = .ok (address, req) ∧
      Signed h c req := by
  obtain ⟨t, ht, hinject⟩ := inject_trace_ok h c.trace_id
    (⟨.empty, none, c.request.to_wire⟩ : Carried V U (PeerWire α))
  obtain ⟨n, hn, hnread⟩ := h.visible _ (visible_digits c.peer_id)
  unfold outbound
  rw [hpeer, hinject]
  dsimp only
  unfold inject_identity_into_request
  cases hparse : h.parse c.caller.identity.cluster_id with
  | none =>
    refine .inl ⟨_, fun hvis => ?_, rfl⟩
    obtain ⟨v, hv, -⟩ := h.visible _ hvis
    rw [hparse] at hv
    cases hv
  | some v =>
    dsimp only
    rw [hn]
    refine .inr ⟨_, rfl, rfl, ?_, ⟨v, ?_, ?_⟩, n, ?_, hnread⟩
    · unfold trace_of
      dsimp only
      rw [OrdMap.get?_insert_of_ne _ (by decide), OrdMap.get?_insert_of_ne _ (by decide),
        OrdMap.get?_insert_self, Option.bind_some, ht, Option.bind_some, h.uuid_back]
    · rw [OrdMap.get?_insert_of_ne _ (by decide), OrdMap.get?_insert_self]
    · split
      · rename_i hvis
        obtain ⟨v', hv', hread⟩ := h.visible _ hvis
        rw [hparse] at hv'
        obtain rfl := Option.some.inj hv'
        exact hread
      · rename_i hvis
        exact h.unseen _ _ hvis hparse
    · rw [OrdMap.get?_insert_self]

/-- The calls that a node is to handle: those of its own cluster that name it. -/
def Meant (identity : NodeIdentity) (c : Call α U) : Prop :=
  c.caller.identity.cluster_id = identity.cluster_id ∧ Visible identity.cluster_id ∧
    c.peer_id = identity.node_id

instance (identity : NodeIdentity) (c : Call α U) : Decidable (Meant identity c) := by
  unfold Meant
  infer_instance

variable {c : Call α U} {req : Carried V U (PeerWire α)} {s : Server α}

/-- The interceptors let through what is meant, and only that. -/
theorem Signed.verified (hs : Signed h c req) (hpeer : NodeId.Valid c.peer_id)
    (identity : NodeIdentity) :
    (Meant identity c ∧ (IdentityInterceptor.new identity).call h req = .ok req) ∨
    (¬Meant identity c ∧ ∃ e, (IdentityInterceptor.new identity).call h req = .error e) := by
  obtain ⟨v, hv, hread⟩ := hs.cluster
  obtain ⟨n, hn, hnread⟩ := hs.target
  unfold IdentityInterceptor.call IdentityInterceptor.new verify_cluster_id
    verify_target_node_id Meant
  simp only [hv, hn, hnread, from_str_text hpeer]
  by_cases hvis : Visible c.caller.identity.cluster_id
  · rw [hread, if_pos hvis]
    dsimp only
    by_cases hcl : c.caller.identity.cluster_id = identity.cluster_id
    · rw [hcl] at hvis
      by_cases hid : c.peer_id = identity.node_id
      · simp [hcl, hid, hvis, Except.map]
      · simp [hcl, hid, Except.map]
    · simp [hcl]
  · rw [hread, if_neg hvis]
    refine .inr ⟨fun hmeant => ?_, _, rfl⟩
    rw [hmeant.1] at hvis
    exact hvis hmeant.2.1

/-! ## Runs -/

/-- The call as the network has it: it is served, and the reply comes back. -/
def handled (id : NodeId) (shell : ConsensusShell α) (c : Call α U) :
    ConsensusShell α × Outcome α :=
  match serve shell c.timeout (c.request.message id) with
  | some (_, shell, [reply]) => (shell, .Answered reply)
  | some (_, shell, _) => (shell, .Lost)
  | none => (shell, .Lost)

/-- The address that the caller has for the peer. -/
def Call.address (c : Call α U) : Option String := c.caller.peers.get? c.peer_id

/-- What the type of an id promises. -/
structure Call.Fits (c : Call α U) : Prop where
  peer : NodeId.Valid c.peer_id
  sender : NodeId.Valid c.request.sender

variable [DecidableEq U] {w : World α} {a : String}

theorem callPeer_meant (hc : c.Fits) (ha : c.address = some a) (hw : w a = some s)
    (hmeant : Meant s.identity c) :
    callPeer h w c = (Function.update w a
        (some { s with shell := (handled s.identity.node_id s.shell c).1 }),
      (handled s.identity.node_id s.shell c).2) := by
  obtain ⟨e, hvis, -⟩ | ⟨req, hout, hsigned⟩ := outbound_cases h c ha
  · rw [hmeant.1] at hvis
    exact absurd hmeant.2.1 hvis
  have hsent : Signed h c { req with trace := none } := { hsigned with }
  obtain ⟨-, hverified⟩ | ⟨hother, -⟩ := hsent.verified hc.peer s.identity
  · unfold callPeer
    rw [hout]
    dsimp only
    rw [hw]
    dsimp only
    unfold receive traceInterceptor dispatch
    rw [hverified]
    dsimp only
    rw [hsent.trace]
    dsimp only [require_trace_id]
    rw [hsigned.body, wire_back hc.sender]
    unfold handled
    dsimp only
    split
    · rename_i shell reply hserve
      obtain ⟨v, hread, hinject⟩ := inject_trace_ok h c.trace_id
        (⟨.empty, none, reply⟩ : Carried V U (Message α))
      have hback : verify_trace_integrity h
          { «metadata» := OrdMap.empty.insert HEADER_TRACE_ID v, trace := none, body := reply }
          c.trace_id = .ok () := by
        unfold verify_trace_integrity trace_of
        rw [OrdMap.get?_insert_self, Option.bind_some, hread, Option.bind_some, h.uuid_back]
        exact if_pos rfl
      rw [hinject]
      dsimp only
      rw [hback]
    · rfl
    · rfl
  · exact absurd hmeant hother

theorem callPeer_other (hc : c.Fits) (ha : c.address = some a) (hw : w a = some s)
    (hother : ¬Meant s.identity c) : ∃ e, callPeer h w c = (w, .Failed e) := by
  obtain ⟨e, -, hout⟩ | ⟨req, hout, hsigned⟩ := outbound_cases h c ha
  · refine ⟨e, ?_⟩
    unfold callPeer
    rw [hout]
  have hsent : Signed h c { req with trace := none } := { hsigned with }
  obtain ⟨hmeant, -⟩ | ⟨-, e, hrefused⟩ := hsent.verified hc.peer s.identity
  · exact absurd hmeant hother
  · refine ⟨e, ?_⟩
    unfold callPeer
    rw [hout]
    dsimp only
    rw [hw]
    dsimp only
    unfold receive
    rw [hrefused]
    dsimp only
    rw [← hw, Function.update_eq_self]

/-- A call to another address. -/
theorem callPeer_frame (h : Headers V U) (w : World α) (c : Call α U) (ha : c.address ≠ some a) :
    (callPeer h w c).1 a = w a := by
  unfold callPeer
  cases hout : outbound h c.caller c.peer_id c.trace_id c.request with
  | error e => rfl
  | ok r =>
    obtain ⟨address, req⟩ := r
    have haddress : c.address = some address := by
      cases hpeer : c.caller.peers.get? c.peer_id with
      | none =>
        unfold outbound at hout
        rw [hpeer] at hout
        cases hout
      | some found =>
        obtain ⟨e, -, he⟩ | ⟨req', hreq, -⟩ := outbound_cases h c hpeer
        · rw [he] at hout
          cases hout
        · rw [hreq] at hout
          rw [Call.address, hpeer, (Prod.mk.inj (Except.ok.inj hout)).1]
    dsimp only
    cases w address with
    | none => rfl
    | some s =>
      have hne : a ≠ address := fun heq => ha (heq ▸ haddress)
      dsimp only
      exact Function.update_of_ne hne _ _

/-- The servers after calls one after the other. -/
def runCalls (h : Headers V U) (w : World α) (calls : List (Call α U)) : World α :=
  calls.foldl (fun w c => (callPeer h w c).1) w

/-- Whoever calls whom over whatever addresses, a node has handled the calls of its own cluster
that named it, in their order, and no other. The next call that reaches it is answered as the
network has it, or it fails. -/
theorem own_calls_handled (h : Headers V U) (calls : List (Call α U))
    (hcalls : ∀ c ∈ calls, c.Fits) (hw : w a = some s) :
    ∃ s', runCalls h w calls a = some s' ∧ s'.identity = s.identity ∧
      s'.shell = (calls.filter fun c => c.address = some a ∧ Meant s.identity c).foldl
        (fun shell c => (handled s.identity.node_id shell c).1) s.shell ∧
      ∀ c : Call α U, c.Fits → c.address = some a →
        if Meant s.identity c then
          (callPeer h (runCalls h w calls) c).2 = (handled s.identity.node_id s'.shell c).2
        else ∃ e, (callPeer h (runCalls h w calls) c).2 = .Failed e := by
  induction calls generalizing w s with
  | nil =>
    refine ⟨s, hw, rfl, rfl, fun c hc ha => ?_⟩
    split
    · rename_i hmeant
      change (callPeer h w c).2 = _
      rw [callPeer_meant hc ha hw hmeant]
    · rename_i hother
      obtain ⟨e, he⟩ := callPeer_other hc ha hw hother
      exact ⟨e, congrArg Prod.snd he⟩
  | cons c calls ih =>
    have hc := hcalls c List.mem_cons_self
    have hrest : ∀ d ∈ calls, d.Fits := fun d hd => hcalls d (List.mem_cons_of_mem _ hd)
    by_cases ha : c.address = some a
    · by_cases hmeant : Meant s.identity c
      · have hstep : (callPeer h w c).1 a =
            some { s with shell := (handled s.identity.node_id s.shell c).1 } := by
          rw [callPeer_meant hc ha hw hmeant]
          exact Function.update_self _ _ _
        rw [List.filter_cons_of_pos (by simp [ha, hmeant])]
        exact ih hrest hstep
      · have hstep : (callPeer h w c).1 a = some s := by
          obtain ⟨e, he⟩ := callPeer_other (h := h) hc ha hw hmeant
          rw [he]
          exact hw
        rw [List.filter_cons_of_neg (by simp [hmeant])]
        exact ih hrest hstep
    · rw [List.filter_cons_of_neg (by simp [ha])]
      exact ih hrest ((callPeer_frame h w c ha).trans hw)

/-- Headers are texts, and there are two traces. -/
def plainHeaders : Headers String Bool where
  parse := some
  to_str s := if Visible s then some s else none
  uuid_text u := if u then "1" else "0"
  parse_uuid s := some (s = "1")
  status_text e := e.message
  visible s hs := ⟨s, rfl, if_pos hs⟩
  unseen s v hs hv := by
    obtain rfl := Option.some.inj hv
    exact if_neg hs
  uuid_visible u := by
    cases u <;> decide
  uuid_back u := by
    cases u <;> decide

/-- Node 1 of a cluster, a follower that has heard nothing. -/
def idleServer (cluster_id : String) : Server Nat :=
  ⟨⟨cluster_id, 1⟩, .new ⟨⟨1, .settled .new, 0, 0, .Follower ⟨none, 0, 10⟩⟩, 0, 5⟩⟩

/-- Two nodes of one number in two clusters. -/
def twoClusters : World Nat
  | "10.0.0.1" => some (idleServer "home")
  | "10.0.0.2" => some (idleServer "shop")
  | _ => none

/-- Node 2 of a cluster asks node 1 for its vote, at the address of the node at home. -/
def askVote (cluster_id : String) (term : Nat) : Call Nat Bool :=
  ⟨⟨⟨cluster_id, 2⟩, OrdMap.empty.insert 1 "10.0.0.1"⟩, 1, true, .RequestVote ⟨term, 2, 0, 0⟩, 10⟩

theorem askVote_fits (cluster_id : String) (term : Nat) : (askVote cluster_id term).Fits := by
  constructor <;> simp [askVote, PeerRequest.sender, NodeId.Valid, u64Max]

theorem own_calls_handled_home :
    ∃ s', runCalls plainHeaders twoClusters [askVote "shop" 7, askVote "home" 3] "10.0.0.1" =
        some s' ∧ s'.shell.inner.current_term = 3 ∧
      ∃ e, (callPeer plainHeaders (runCalls plainHeaders twoClusters
        [askVote "shop" 7, askVote "home" 3]) (askVote "shop" 8)).2 = .Failed e := by
  have hcalls : ∀ c ∈ [askVote "shop" 7, askVote "home" 3], c.Fits := by
    simp [askVote_fits]
  obtain ⟨s', hs', -, hshell, hnext⟩ :=
    own_calls_handled plainHeaders [askVote "shop" 7, askVote "home" 3] hcalls
      (show twoClusters "10.0.0.1" = some (idleServer "home") from rfl)
  refine ⟨s', hs', ?_, ?_⟩
  · rw [hshell]
    rfl
  · have hfailed := hnext (askVote "shop" 8) (askVote_fits _ _) rfl
    rwa [if_neg (by decide)] at hfailed

end raft_engine.transport
