-- The policy service and the way to it: the gateway scrubs an intent, the relay sends it,
-- the service has a language model write an answer, and what the model writes goes through
-- a guard before it comes back. Nothing is assumed of the model.
import LactoSensus.Lib.Utf8
import LactoSensus.Lib.Words
import LactoSensus.Resolution
import LactoSensus.Transport

open common.proto
open common.taxonomy
open common.types (NodeId)
open common.units
open ordmap
open words

namespace common.proto.v1.app

/-! ## Messages -/

inductive OperationType where
  | Unspecified
  | Add
  | Subtract
  | Set
  | Delete
deriving DecidableEq, Repr

def OperationType.toInt : OperationType → Int
  | .Unspecified => 0
  | .Add => 1
  | .Subtract => 2
  | .Set => 3
  | .Delete => 4

def OperationType.try_from (i : Int) : Option OperationType :=
  if i = 0 then some .Unspecified
  else if i = 1 then some .Add
  else if i = 2 then some .Subtract
  else if i = 3 then some .Set
  else if i = 4 then some .Delete
  else none

/-- The name that the format `{:?}` shows. -/
def OperationType.debug : OperationType → String
  | .Unspecified => "Unspecified"
  | .Add => "Add"
  | .Subtract => "Subtract"
  | .Set => "Set"
  | .Delete => "Delete"

theorem OperationType.try_from_toInt (op : OperationType) : try_from op.toInt = some op := by
  cases op <;> rfl

/-- An intent as a client sends it. -/
structure MutationIntent where
  item_key : String
  quantity : Option String
  unit : Option String
  category : Option String
  operation : Int
deriving DecidableEq, Repr

def MutationIntent.new (item_key : String) (quantity unit category : Option String)
    (operation : OperationType) : MutationIntent :=
  ⟨item_key, quantity, unit, category, operation.toInt⟩

structure EvaluateProposalRequest where
  client_id : String
  intent : Option MutationIntent
  current_inventory : List GroceryItem
  request_context : String
deriving DecidableEq, Repr

def EvaluateProposalRequest.new (client_id : String) (intent : MutationIntent)
    (current_inventory : List GroceryItem) (request_context : String) :
    EvaluateProposalRequest :=
  ⟨client_id, some intent, current_inventory, request_context⟩

structure EvaluateProposalResponse where
  is_approved : Bool
  category_assignment : String
  moral_justification : String
  resolved_item_key : String
  suggested_display_name : String
  resolved_unit : String
  conversion_multiplier_to_base : String
deriving DecidableEq, Repr

end common.proto.v1.app

open common.proto.v1.app (OperationType EvaluateProposalRequest EvaluateProposalResponse)

namespace common.units

/-! ## Texts -/

/-- `str::trim`. -/
def trimmed (s : String) : String := String.ofList (trim s.toList)

/-- `str::to_lowercase`. -/
def lowercase (lower : Lower) (s : String) : String :=
  String.ofList (to_lowercase lower [] s.toList)

end common.units

namespace gateway.ingress.scrubber

open gateway.ingress (Operation ScrubbedIntent)
open gateway.ingress.stabilizer (invalid_argument)

variable {D : Type}

/-! ## The scrubber -/

/-- The operation of an intent; there is none for the number 0. -/
def operationOf : OperationType → Option Operation
  | .Unspecified => none
  | .Add => some .Add
  | .Subtract => some .Subtract
  | .Set => some .Set
  | .Delete => some .Delete

/-- A field that is blank counts as missing. -/
def present (field : Option String) : Option String := (field.map trimmed).filter (· ≠ "")

def normalize_quantity (L : DecimalLib D) (quantity : Option String) :
    Except tonic.Status (Option String) :=
  match present quantity with
  | none => .ok none
  | some q =>
    match L.from_str q with
    | none => invalid_argument s!"Invalid quantity format: '{q}'"
    | some val =>
      if L.is_sign_negative val then
        invalid_argument "quantity cannot be negative. Use SUBTRACT or DELETE for removals."
      else .ok (some q)

def normalize_category (category : Option String) : Except tonic.Status (Option String) :=
  match present category with
  | none => .ok none
  | some cat =>
    match GroceryCategory.from_str cat with
    | none =>
      invalid_argument
        s!"Invalid category hint: '{cat}'. Must be one of the 12 clinical categories."
    | some _ => .ok (some cat)

def normalize_intent (L : DecimalLib D) (lower : Lower)
    (intent : common.proto.v1.app.MutationIntent) : Except tonic.Status ScrubbedIntent :=
  let item_key := lowercase lower (trimmed intent.item_key)
  match normalize_quantity L intent.quantity with
  | .error e => .error e
  | .ok quantity =>
    let unit := (present intent.unit).map (lowercase lower)
    match normalize_category intent.category with
    | .error e => .error e
    | .ok category =>
      if item_key = "" then invalid_argument "item_key cannot be empty"
      else
        match (OperationType.try_from intent.operation).bind operationOf with
        | none => invalid_argument "Unknown operation type"
        | some operation =>
          if operation = .Delete ∧ quantity ≠ none then
            invalid_argument "DELETE operations must not contain a quantity string"
          else if operation ≠ .Delete ∧ quantity = none then
            invalid_argument "quantity is required for this operation"
          else .ok ⟨item_key, operation, quantity, unit, category⟩

/-- The intent as it was typed, for the ledger. -/
def format_raw_input_from_proto (intent : common.proto.v1.app.MutationIntent) : String :=
  let op := match OperationType.try_from intent.operation with
    | some .Add => "Add"
    | some .Subtract => "Sub"
    | some .Set => "Set"
    | some .Delete => "Delete"
    | _ => "Unknown"
  let text := op ++ " " ++ intent.quantity.getD "" ++ " " ++ intent.unit.getD "" ++ " " ++
    intent.item_key
  String.ofList ([' '].intercalate (maximalRuns (fun c => !is_whitespace c) text.toList))

end gateway.ingress.scrubber

namespace ai_veto.service

open raft_engine.transport (Carried Headers Status inject_trace_id require_trace_id
  traceInterceptor)

variable {D V U : Type}

/-! ## The service -/

/-- What the language model has to write, as JSON. -/
structure LlmResponse where
  is_approved : Bool
  category_assignment : String
  moral_justification : String
  resolved_item_key : String
  suggested_display_name : String
  resolved_unit : String
  custom_multiplier : Option String
deriving DecidableEq, Repr

def internal {X : Type} (message : String) : Except Status X := .error ⟨.Internal, message⟩

/-- One item of the inventory in the prompt. -/
def describeItem (i : GroceryItem) : String :=
  let key := i.item_key
  let quantity := i.quantity
  let unit := i.unit
  let category := i.category
  s!"{key}: {quantity} {unit} ({category})"

/-- The prompt for an operation that is specified. -/
def user_prompt (op : OperationType) (intent : common.proto.v1.app.MutationIntent)
    (current_inventory : List GroceryItem) : String :=
  let name := op.debug
  let key := intent.item_key
  let quantity := intent.quantity.getD "N/A"
  let unit := intent.unit.getD "N/A"
  let category := intent.category.getD "N/A"
  let mutation_desc := s!"OP: {name}, Item: {key}, Qty: {quantity}, Unit: {unit}, Cat: {category}"
  let inventory_summary := ", ".intercalate (current_inventory.map describeItem)
  s!"### EVALUATION REQUEST\nMutation: {mutation_desc}\n" ++
    s!"Inventory Context: [{inventory_summary}]"

def build_user_prompt (req : EvaluateProposalRequest) : Except Status String :=
  match req.intent with
  | none => .error ⟨.InvalidArgument, "Evaluation request is missing mutation intent"⟩
  | some intent =>
    match OperationType.try_from intent.operation with
    | none =>
      let code := intent.operation
      .error ⟨.InvalidArgument, s!"Unknown operation code: {code}"⟩
    | some op =>
      if op = .Unspecified then
        .error ⟨.InvalidArgument,
          "Operation type must be explicitly specified (Add, Sub, Set, or Delete)"⟩
      else .ok (user_prompt op intent req.current_inventory)

/-- `trim_start_matches` for a pattern that is not empty. -/
def trim_start_matches (pattern cs : List Char) : List Char :=
  go cs.length cs
where
  go : Nat → List Char → List Char
    | 0, cs => cs
    | n + 1, cs => if pattern.isPrefixOf cs then go n (cs.drop pattern.length) else cs

def trim_end_matches (pattern cs : List Char) : List Char :=
  (trim_start_matches pattern.reverse cs.reverse).reverse

/-- The fences of a code block go. -/
def scrub_json_response (raw : String) : String :=
  let text := trim raw.toList
  if "```".toList.isPrefixOf text then
    String.ofList (trim (trim_end_matches "```".toList
      (trim_start_matches "```".toList (trim_start_matches "```json".toList text))))
  else String.ofList text

/-- Of the unit and of the key only the letters count for the guard, not their case. -/
def slugOf (lower : Lower) (s : String) : List Char := (lowercase lower (trimmed s)).toList

def validate_semantic_integrity (L : DecimalLib D) (lower : Lower) (res : LlmResponse) :
    Except Status Unit :=
  match GroceryCategory.from_str res.category_assignment with
  | none => internal "AI Hallucination: Invalid Category"
  | some _ =>
    match resolve_symbol L lower res.resolved_unit with
    | .error _ => internal "AI Hallucination: Invalid Unit"
    | .ok entry =>
      if trimmed res.resolved_item_key = "" then internal "AI Hallucination: Empty Item Key"
      else if entry.dimension = .Anomalous ∧
          ¬('_' :: slugOf lower res.resolved_unit) <:+ slugOf lower res.resolved_item_key then
        internal "AI Hallucination: Identity Split required for anomalous unit."
      else .ok ()

/-- From the text of the model to an answer that has passed the guard. -/
def read_response (L : DecimalLib D) (lower : Lower) (from_json : String → Option LlmResponse)
    (content : String) : Except Status LlmResponse :=
  let clean_json := scrub_json_response content
  if clean_json = "" then internal "AI Hallucination: Empty response"
  else
    match from_json clean_json with
    | none => internal "AI Hallucination: Malformed response format"
    | some llm_res => (validate_semantic_integrity L lower llm_res).map fun _ => llm_res

def LlmResponse.respond (L : DecimalLib D) (lower : Lower) (res : LlmResponse) :
    EvaluateProposalResponse :=
  let multiplier := match res.custom_multiplier with
    | some custom => custom
    | none =>
      match resolve_symbol L lower res.resolved_unit with
      | .ok entry => L.to_string entry.multiplier
      | .error _ => "1.0"
  ⟨res.is_approved, res.category_assignment, res.moral_justification, res.resolved_item_key,
    res.suggested_display_name, res.resolved_unit, multiplier⟩

/-- The libraries that the service reads with: client ids, and the JSON of the model. -/
structure Readers where
  parse_client_id : String → Except String String
  from_json : String → Option LlmResponse

/-- `evaluate_proposal`; `chat` is what the model answers to a prompt, if it does. -/
def evaluate_proposal (h : Headers V U) (L : DecimalLib D) (lower : Lower) (readers : Readers)
    (chat : String → Option String) (request : Carried V U EvaluateProposalRequest) :
    Except Status (Carried V U EvaluateProposalResponse) :=
  match require_trace_id request with
  | .error e => .error e
  | .ok trace_id =>
    match readers.parse_client_id request.body.client_id with
    | .error _ =>
      let raw := request.body.client_id
      .error ⟨.InvalidArgument, s!"Malformed Client ID: {raw}"⟩
    | .ok _ =>
      match build_user_prompt request.body with
      | .error e => .error e
      | .ok prompt =>
        match chat prompt with
        | none => internal "Clinical Oracle evaluation failed."
        | some content =>
          match read_response L lower readers.from_json content with
          | .error e => .error e
          | .ok llm_res => inject_trace_id h trace_id ⟨.empty, none, llm_res.respond L lower⟩

/-- The service behind its interceptor; the extension of the caller has stayed there. -/
def serve (h : Headers V U) (L : DecimalLib D) (lower : Lower) (readers : Readers)
    (chat : String → Option String) (request : Carried V U EvaluateProposalRequest) :
    Except Status (Carried V U EvaluateProposalResponse) :=
  match traceInterceptor h none { request with trace := none } with
  | .error e => .error e
  | .ok request => evaluate_proposal h L lower readers chat request

end ai_veto.service

namespace gateway.veto

open ai_veto.service
open gateway.ingress (Operation ScrubbedIntent)
open gateway.ingress.ai_oracle (Reply VetoError)
open raft_engine.transport (Carried Headers Status inject_identity_into_request inject_trace_id
  inject_trace_ok trace_of Visible visible_digits)

variable {D U V : Type} {L : DecimalLib D} {lower : Lower}

/-! ## The relay -/

/-- `ai_oracle::intent_to_proto`. -/
def intent_to_proto (intent : ScrubbedIntent) : common.proto.v1.app.MutationIntent :=
  let operation := match intent.operation with
    | .Add => OperationType.Add
    | .Subtract => .Subtract
    | .Set => .Set
    | .Delete => .Delete
  .new intent.item_key intent.quantity intent.unit intent.category operation

/-- The text is cut between two characters. -/
def trim_justification (s : String) (max_len : Nat) : String :=
  if utf8.size s.toList ≤ max_len then s
  else String.ofList (utf8.cut s.toList max_len) ++ "..."

/-- What can go wrong between the relay and the service. -/
inductive Fault where
  | DeadlineExceeded
  | Other (text : String)
deriving DecidableEq, Repr

structure GrpcVetoRelay where
  cluster_id : String
  node_id : NodeId
deriving DecidableEq, Repr

def GrpcVetoRelay.request (h : Headers V U) (relay : GrpcVetoRelay) (client_id : String)
    (intent : common.proto.v1.app.MutationIntent) (current_inventory : List GroceryItem)
    (trace_id : U) : Except VetoError (Carried V U EvaluateProposalRequest) :=
  let body := EvaluateProposalRequest.new client_id intent current_inventory
    "AI Policy Evaluation"
  match inject_identity_into_request h relay.cluster_id relay.node_id ⟨.empty, none, body⟩ with
  | .error e =>
    let text := h.status_text e
    .error (.RpcFailure s!"Identity injection failed: {text}")
  | .ok request =>
    match inject_trace_id h trace_id request with
    | .error e =>
      let text := h.status_text e
      .error (.RpcFailure s!"Telemetry injection failed: {text}")
    | .ok request => .ok request

def outcomeOf (max_justification_len : Nat) (response : EvaluateProposalResponse) :
    VetoOutcome :=
  ⟨response.is_approved, response.category_assignment,
    trim_justification response.moral_justification max_justification_len,
    response.resolved_item_key, response.suggested_display_name, response.resolved_unit,
    response.conversion_multiplier_to_base⟩

/-- `evaluate`; the call goes over the network. -/
def GrpcVetoRelay.evaluate [DecidableEq U] (h : Headers V U) (relay : GrpcVetoRelay)
    (call : Carried V U EvaluateProposalRequest →
      Except Fault (Carried V U EvaluateProposalResponse))
    (client_id : String) (intent : common.proto.v1.app.MutationIntent)
    (current_inventory : List GroceryItem) (timeout max_justification_len : Nat)
    (trace_id : U) : Reply :=
  match relay.request h client_id intent current_inventory trace_id with
  | .error e => .error e
  | .ok request =>
    match call request with
    | .error .DeadlineExceeded => .error (.Timeout timeout)
    | .error (.Other text) => .error (.RpcFailure text)
    | .ok response =>
      if trace_of h response = some trace_id then
        .ok (outcomeOf max_justification_len response.body)
      else .error .CausalIntegrityViolation

/-! ## The policy service at its other end -/

/-- What becomes of one call: a fault of the network, or what the model says to a prompt. -/
structure Attempt where
  fault : Option Fault
  chat : String → Option String

/-- The two ends of the calls, as they are configured. -/
structure PolicyLink (V U : Type) where
  headers : Headers V U
  readers : Readers
  relay : GrpcVetoRelay
  veto_timeout : Nat
  max_justification_len : Nat

variable (L lower) in
def PolicyLink.call (p : PolicyLink V U) (a : Attempt)
    (request : Carried V U EvaluateProposalRequest) :
    Except Fault (Carried V U EvaluateProposalResponse) :=
  match a.fault with
  | some fault => .error fault
  | none =>
    match serve p.headers L lower p.readers a.chat request with
    | .error e => .error (.Other (p.headers.status_text e))
    | .ok response => .ok response

variable (L lower) in
/-- The reply to the gateway, when the repository's own service is at the other end. -/
def PolicyLink.reply [DecidableEq U] (p : PolicyLink V U) (client_id : String)
    (intent : ScrubbedIntent) (current_inventory : List GroceryItem) (trace_id : U)
    (a : Attempt) : Reply :=
  p.relay.evaluate p.headers (p.call L lower a) client_id (intent_to_proto intent)
    current_inventory p.veto_timeout p.max_justification_len trace_id

/-! ## What comes through -/

theorem size_trim_justification (s : String) (max_len : Nat) :
    utf8.size (trim_justification s max_len).toList ≤ max_len + 3 := by
  unfold trim_justification
  split
  · omega
  · have hcut := utf8.size_cut_le s.toList max_len
    rw [String.toList_append, utf8.size_append, String.toList_ofList]
    exact Nat.add_le_add hcut (by decide)

/-- What the guard and the relay promise of an answer. -/
structure Vetted (L : DecimalLib D) (lower : Lower) (max_justification_len : Nat)
    (veto : VetoOutcome) : Prop where
  category : ∃ category, GroceryCategory.from_str veto.category_assignment = some category
  key : trimmed veto.resolved_item_key ≠ ""
  split : ∃ entry, resolve_symbol L lower veto.resolved_unit = .ok entry ∧
    (entry.dimension = .Anomalous →
      ('_' :: slugOf lower veto.resolved_unit) <:+ slugOf lower veto.resolved_item_key)
  justification : utf8.size veto.moral_justification.toList ≤ max_justification_len + 3

theorem validate_ok {res : LlmResponse} (h : validate_semantic_integrity L lower res = .ok ())
    (max_justification_len : Nat) :
    Vetted L lower max_justification_len
      (outcomeOf max_justification_len (res.respond L lower)) := by
  unfold validate_semantic_integrity internal at h
  split at h
  · cases h
  rename_i category hcategory
  split at h
  · cases h
  rename_i entry hentry
  split at h
  · cases h
  rename_i hkey
  split at h
  · cases h
  rename_i hsplit
  refine ⟨⟨category, hcategory⟩, hkey, ⟨entry, hentry, fun hdim => ?_⟩,
    size_trim_justification _ _⟩
  by_contra hno
  exact hsplit ⟨hdim, hno⟩

theorem read_response_ok {from_json : String → Option LlmResponse} {content : String}
    {res : LlmResponse} (h : read_response L lower from_json content = .ok res) :
    validate_semantic_integrity L lower res = .ok () := by
  unfold read_response internal at h
  dsimp only at h
  split at h
  · cases h
  split at h
  · cases h
  rename_i llm_res hjson
  cases hguard : validate_semantic_integrity L lower llm_res with
  | error e =>
    rw [hguard] at h
    cases h
  | ok u =>
    rw [hguard] at h
    rw [← Except.ok.inj h]
    exact hguard

theorem evaluate_proposal_ok {h : Headers V U} {readers : Readers} {chat : String → Option String}
    {request : Carried V U EvaluateProposalRequest} {response : Carried V U EvaluateProposalResponse}
    (hs : evaluate_proposal h L lower readers chat request = .ok response) :
    ∃ res, validate_semantic_integrity L lower res = .ok () ∧
      response.body = res.respond L lower := by
  unfold evaluate_proposal internal at hs
  split at hs
  · cases hs
  split at hs
  · cases hs
  split at hs
  · cases hs
  split at hs
  · cases hs
  split at hs
  · cases hs
  rename_i llm_res hread
  refine ⟨llm_res, read_response_ok hread, ?_⟩
  unfold inject_trace_id at hs
  split at hs
  · cases hs
  · rw [← Except.ok.inj hs]

/-- Whatever the model writes, what the gateway gets has passed the guard. -/
theorem reply_vetted [DecidableEq U] {p : PolicyLink V U} {client_id : String}
    {intent : ScrubbedIntent} {inventory : List GroceryItem} {trace_id : U} {a : Attempt}
    {veto : VetoOutcome}
    (h : p.reply L lower client_id intent inventory trace_id a = .ok veto) :
    Vetted L lower p.max_justification_len veto := by
  unfold PolicyLink.reply GrpcVetoRelay.evaluate at h
  split at h
  · cases h
  split at h
  · cases h
  · cases h
  rename_i response hcall
  split at h
  · rw [← Except.ok.inj h]
    unfold PolicyLink.call at hcall
    split at hcall
    · cases hcall
    split at hcall
    · cases hcall
    rename_i served hserve
    obtain rfl := Except.ok.inj hcall
    unfold serve at hserve
    split at hserve
    · cases hserve
    obtain ⟨res, hguard, hbody⟩ := evaluate_proposal_ok hserve
    rw [hbody]
    exact validate_ok hguard _
  · cases h

/-! ## An honest service -/

variable (L lower) in
/-- What comes of an attempt when only the network and the model have a say. -/
def PolicyLink.answered (p : PolicyLink V U) (prompt : String) (a : Attempt) : Reply :=
  let failed (e : Status) : Reply := .error (.RpcFailure (p.headers.status_text e))
  match a.fault with
  | some .DeadlineExceeded => .error (.Timeout p.veto_timeout)
  | some (.Other text) => .error (.RpcFailure text)
  | none =>
    match a.chat prompt with
    | none => failed ⟨.Internal, "Clinical Oracle evaluation failed."⟩
    | some content =>
      match read_response L lower p.readers.from_json content with
      | .error e => failed e
      | .ok res => .ok (outcomeOf p.max_justification_len (res.respond L lower))

theorem trace_of_injected {X : Type} (h : Headers V U) (trace_id : U) (c : Carried V U X) :
    ∃ c', inject_trace_id h trace_id c = .ok c' ∧ trace_of h c' = some trace_id ∧
      c'.body = c.body := by
  obtain ⟨v, hread, heq⟩ := inject_trace_ok h trace_id c
  exact ⟨_, heq, by simp [trace_of, hread, h.uuid_back], rfl⟩

theorem request_sent {h : Headers V U} {relay : GrpcVetoRelay} (hvisible : Visible relay.cluster_id)
    (client_id : String) (intent : common.proto.v1.app.MutationIntent)
    (inventory : List GroceryItem) (trace_id : U) :
    ∃ request, relay.request h client_id intent inventory trace_id = .ok request ∧
      trace_of h request = some trace_id ∧
      request.body = .new client_id intent inventory "AI Policy Evaluation" := by
  obtain ⟨v, hv, -⟩ := h.visible _ hvisible
  obtain ⟨w, hw, -⟩ := h.visible _ (visible_digits relay.node_id)
  unfold GrpcVetoRelay.request inject_identity_into_request
  simp only [hv, hw]
  obtain ⟨request, heq, htrace, hbody⟩ := trace_of_injected h trace_id
    (⟨(OrdMap.empty.insert raft_engine.transport.HEADER_CLUSTER_ID v).insert
      raft_engine.transport.HEADER_TARGET_NODE_ID w, none,
      EvaluateProposalRequest.new client_id intent inventory "AI Policy Evaluation"⟩ :
      Carried V U EvaluateProposalRequest)
  exact ⟨request, by rw [heq], htrace, hbody⟩

theorem reply_answered [DecidableEq U] {p : PolicyLink V U}
    (hvisible : Visible p.relay.cluster_id) {client_id : String}
    (hclient : p.readers.parse_client_id client_id = .ok client_id) {intent : ScrubbedIntent}
    {inventory : List GroceryItem} {prompt : String}
    (hprompt : build_user_prompt
      (.new client_id (intent_to_proto intent) inventory "AI Policy Evaluation") = .ok prompt)
    (trace_id : U) (a : Attempt) :
    p.reply L lower client_id intent inventory trace_id a = p.answered L lower prompt a := by
  obtain ⟨request, hrequest, htrace, hbody⟩ := request_sent (h := p.headers) hvisible client_id
    (intent_to_proto intent) inventory trace_id
  unfold PolicyLink.reply GrpcVetoRelay.evaluate PolicyLink.answered PolicyLink.call
  rw [hrequest]
  dsimp only
  rcases hfault : a.fault with _ | ⟨_ | text⟩
  · -- the interceptor of the service finds the trace that was sent
    have hserve : serve p.headers L lower p.readers a.chat request =
        evaluate_proposal p.headers L lower p.readers a.chat
          { request with trace := some trace_id } := by
      have htrace' : trace_of p.headers { request with trace := none } = some trace_id := htrace
      unfold serve raft_engine.transport.traceInterceptor
      simp only [htrace']
    dsimp only
    rw [hserve]
    unfold evaluate_proposal raft_engine.transport.require_trace_id
    simp only [hbody, EvaluateProposalRequest.new, hclient]
    rw [EvaluateProposalRequest.new] at hprompt
    rw [hprompt]
    dsimp only
    cases hchat : a.chat prompt with
    | none => rfl
    | some content =>
      dsimp only
      cases hread : read_response L lower p.readers.from_json content with
      | error e => rfl
      | ok res =>
        obtain ⟨response, heq, hback, hresponse⟩ := trace_of_injected p.headers trace_id
          (⟨.empty, none, res.respond L lower⟩ : Carried V U EvaluateProposalResponse)
        simp only [heq, hback, hresponse, if_true]
  · rfl
  · rfl

/-! ## One request -/

open gateway.ingress (StabilizedMutation)
open gateway.ingress.ai_oracle (resolve_semantic_mutation resolve_ends resultOf resultOf_error)
open gateway.ingress.scrubber

theorem normalize_quantity_error {quantity : Option String} {e : tonic.Status}
    (h : normalize_quantity L quantity = .error e) : e.code = .InvalidArgument := by
  unfold normalize_quantity gateway.ingress.stabilizer.invalid_argument at h
  split at h
  · cases h
  split at h
  · rw [← Except.error.inj h]
  split at h
  · rw [← Except.error.inj h]
  · cases h

theorem normalize_category_error {category : Option String} {e : tonic.Status}
    (h : normalize_category category = .error e) : e.code = .InvalidArgument := by
  unfold normalize_category gateway.ingress.stabilizer.invalid_argument at h
  split at h
  · cases h
  split at h
  · rw [← Except.error.inj h]
  · cases h

/-- The scrubber blames the client, or keeps the operation. -/
theorem normalize_intent_cases (L : DecimalLib D) (lower : Lower)
    (raw : common.proto.v1.app.MutationIntent) :
    (∃ e, normalize_intent L lower raw = .error e ∧ e.code = .InvalidArgument) ∨
    ∃ intent op, normalize_intent L lower raw = .ok intent ∧
      OperationType.try_from raw.operation = some op ∧ operationOf op = some intent.operation := by
  unfold normalize_intent gateway.ingress.stabilizer.invalid_argument
  dsimp only
  split
  · rename_i e heq
    exact .inl ⟨e, rfl, normalize_quantity_error heq⟩
  split
  · rename_i e heq
    exact .inl ⟨e, rfl, normalize_category_error heq⟩
  split
  · exact .inl ⟨_, rfl, rfl⟩
  split
  · exact .inl ⟨_, rfl, rfl⟩
  rename_i operation hop
  obtain ⟨op, hnumber, hoperation⟩ := Option.bind_eq_some_iff.mp hop
  split
  · exact .inl ⟨_, rfl, rfl⟩
  split
  · exact .inl ⟨_, rfl, rfl⟩
  · exact .inr ⟨_, op, rfl, hnumber, hoperation⟩

theorem user_prompt_relayed {op : OperationType} {intent : ScrubbedIntent}
    (hop : operationOf op = some intent.operation) (client_id : String)
    (inventory : List GroceryItem) (context : String) :
    build_user_prompt (.new client_id (intent_to_proto intent) inventory context) =
      .ok (user_prompt op (intent_to_proto intent) inventory) := by
  unfold build_user_prompt intent_to_proto EvaluateProposalRequest.new
  cases op <;> simp only [operationOf, reduceCtorEq, Option.some.injEq] at hop <;>
    rw [← hop] <;> rfl

variable (L lower) in
/-- A request from the scrubber to the end of the loop: how often the model has been asked, and
what has come of it. -/
def PolicyLink.handle [DecidableEq U] (p : PolicyLink V U) (veto_max_retries : Nat)
    (client_id : String) (raw : common.proto.v1.app.MutationIntent)
    (current_inventory : List GroceryItem) (trace_id : U) (attempts : Nat → Attempt) :
    Nat × Except tonic.Status (MutationStatus × StabilizedMutation) :=
  match normalize_intent L lower raw with
  | .error e => (0, .error e)
  | .ok intent =>
    resolve_semantic_mutation L lower veto_max_retries intent current_inventory
      fun i => p.reply L lower client_id intent current_inventory trace_id (attempts i)

theorem answered_error {p : PolicyLink V U} {prompt : String} {a : Attempt} {err : VetoError}
    (h : p.answered L lower prompt a = .error err) :
    err.status.code = .Internal ∨ err.status.code = .DeadlineExceeded := by
  cases err with
  | Timeout timeout => exact .inr rfl
  | RpcFailure msg => exact .inl rfl
  | CausalIntegrityViolation =>
    exfalso
    unfold PolicyLink.answered at h
    dsimp only at h
    split at h
    · cases h
    · cases h
    split at h
    · cases h
    split at h <;> cases h

/-- What the client sends is refused before the model is asked, with no one else to blame; or
the model is shown the operation that the client has named, and the answer to the client depends
on the texts of the model and the faults of the network alone, whoever asks under whatever
trace. -/
theorem request_decided [DecidableEq U] (p : PolicyLink V U)
    (hvisible : Visible p.relay.cluster_id) (raw : common.proto.v1.app.MutationIntent)
    (inventory : List GroceryItem) :
    (∃ e, e.code = .InvalidArgument ∧ ∀ veto_max_retries client_id trace_id attempts,
      p.handle L lower veto_max_retries client_id raw inventory trace_id attempts =
        (0, .error e)) ∨
    ∃ intent op, normalize_intent L lower raw = .ok intent ∧
      OperationType.try_from raw.operation = some op ∧
      ∀ veto_max_retries client_id trace_id attempts,
        p.readers.parse_client_id client_id = .ok client_id →
        p.handle L lower veto_max_retries client_id raw inventory trace_id attempts =
          resolve_semantic_mutation L lower veto_max_retries intent inventory (fun i =>
            p.answered L lower (user_prompt op (intent_to_proto intent) inventory)
              (attempts i)) ∧
        ∀ e, (p.handle L lower veto_max_retries client_id raw inventory trace_id attempts).2 =
            .error e →
          e.code = .Internal ∨ e.code = .DeadlineExceeded := by
  unfold PolicyLink.handle
  rcases normalize_intent_cases L lower raw with
    ⟨e, hnorm, hcode⟩ | ⟨intent, op, hnorm, hnumber, hop⟩
  · left
    refine ⟨e, hcode, fun _ _ _ _ => ?_⟩
    rw [hnorm]
  · right
    refine ⟨intent, op, hnorm, hnumber, ?_⟩
    intro veto_max_retries client_id trace_id attempts hclient
    have hreplies : (fun i => p.reply L lower client_id intent inventory trace_id (attempts i)) =
        fun i => p.answered L lower (user_prompt op (intent_to_proto intent) inventory)
          (attempts i) := by
      funext i
      exact reply_answered hvisible hclient (user_prompt_relayed hop client_id inventory _)
        trace_id (attempts i)
    rw [hnorm]
    dsimp only
    rw [hreplies]
    refine ⟨rfl, fun e he => ?_⟩
    obtain ⟨i, -, heq⟩ := resolve_ends L lower veto_max_retries intent inventory fun i =>
      p.answered L lower (user_prompt op (intent_to_proto intent) inventory) (attempts i)
    rw [heq] at he
    obtain ⟨err, hreply, rfl⟩ := resultOf_error.mp he
    exact answered_error hreply

/-! ## A bunch of spinach -/

def spinachJson : String :=
  "\x7b\"is_approved\":true,\"category_assignment\":\"Primary Flora\"," ++
    "\"moral_justification\":\"Iron and folate.\",\"resolved_item_key\":\"spinach_bunch\"," ++
    "\"suggested_display_name\":\"Spinach\",\"resolved_unit\":\"bunch\"," ++
    "\"custom_multiplier\":\"1\"\x7d"

def readSpinach (json : String) : Option LlmResponse :=
  if json = spinachJson then
    some ⟨true, "Primary Flora", "Iron and folate.", "spinach_bunch", "Spinach", "bunch",
      some "1"⟩
  else none

def spinachLink : PolicyLink String Bool :=
  ⟨raft_engine.transport.plainHeaders, ⟨.ok, readSpinach⟩, ⟨"home", 1⟩, 30, 8⟩

def rawSpinach : common.proto.v1.app.MutationIntent :=
  ⟨" Spinach", some "1 ", some "Bunch", none, 1⟩

/-- The first call takes too long. -/
def spinachAttempts : Nat → Attempt
  | 0 => ⟨some .DeadlineExceeded, fun _ => none⟩
  | _ + 1 => ⟨none, fun _ => some ("```json\n" ++ spinachJson ++ "\n```")⟩

example : spinachLink.handle fixedPoint unchanged 2 "6ba7b810" rawSpinach [] true
    spinachAttempts =
      (2, .ok (.Committed, ⟨"spinach_bunch", "Spinach", "1", "misc", "bunch", .PrimaryFlora,
        "Iron and..."⟩)) := by
  decide +kernel

theorem request_decided_spinach :
    (∃ e : tonic.Status, e.code = .InvalidArgument ∧
      ∀ veto_max_retries client_id trace_id attempts,
        spinachLink.handle fixedPoint unchanged veto_max_retries client_id rawSpinach [] trace_id
          attempts = (0, .error e)) ∨
    ∃ intent op, normalize_intent fixedPoint unchanged rawSpinach = .ok intent ∧
      OperationType.try_from rawSpinach.operation = some op ∧
      ∀ veto_max_retries client_id trace_id attempts,
        spinachLink.readers.parse_client_id client_id = .ok client_id →
        spinachLink.handle fixedPoint unchanged veto_max_retries client_id rawSpinach [] trace_id
            attempts =
          resolve_semantic_mutation fixedPoint unchanged veto_max_retries intent [] (fun i =>
            spinachLink.answered fixedPoint unchanged
              (user_prompt op (intent_to_proto intent) []) (attempts i)) ∧
        ∀ e, (spinachLink.handle fixedPoint unchanged veto_max_retries client_id rawSpinach []
            trace_id attempts).2 = .error e →
          e.code = .Internal ∨ e.code = .DeadlineExceeded := by
  have hid : common.types.ClusterId.try_new (fun _ => false) " home" = .ok "home" := by
    decide +kernel
  have hascii : "home".toList.all (fun c => c.toNat < 128) = true := by decide +kernel
  have hvisible := (raft_engine.transport.visible_cluster_id hid).mpr fun c hc =>
    of_decide_eq_true (List.all_eq_true.mp hascii c hc)
  exact request_decided spinachLink hvisible rawSpinach []

end gateway.veto
