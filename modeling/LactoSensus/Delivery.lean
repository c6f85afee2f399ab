-- From the prompt to the stores: on every host the mutations of a client that have taken
-- effect are those of its commands, in the order in which it has drawn their ids, each once,
-- with the operation and the text of the command, whatever was sent again, lost, answered
-- wrongly or restarted in between.
import LactoSensus.Numbering
import LactoSensus.Vetting

open common.proto
open common.proto.v1.app (OperationType)
open common.types
open common.units
open lacto_fsm
open machine
open raft (Each)

namespace lacto_fsm

variable {α : Type} {c : Codec α} {ms ms' : List CommittedMutation} {client_id : String}

/-! ## What has taken effect -/

/-- The mutations of the client that have taken effect, with their log indices. -/
def taken (ms : List CommittedMutation) (client_id : String) : List (Nat × CommittedMutation) :=
  (firsts ms).filter fun p => p.2.client_id = client_id

theorem mem_taken {p : Nat × CommittedMutation} :
    p ∈ taken ms client_id ↔ p ∈ firsts ms ∧ p.2.client_id = client_id := by
  simp [taken]

/-- A ledger that goes on repeats nothing of what has taken effect. -/
theorem firsts_extend (hpre : ms <+: ms') : firsts ms <+: firsts ms' := by
  obtain ⟨rest, rfl⟩ := hpre
  induction rest using List.reverseRecOn with
  | nil => rw [List.append_nil]
  | append_singleton rest m ih =>
    rw [← List.append_assoc, firsts_concat]
    exact ih.trans (List.prefix_append _ _)

theorem taken_extend (hpre : ms <+: ms') (client_id : String) :
    taken ms client_id <+: taken ms' client_id :=
  (firsts_extend hpre).filter _

end lacto_fsm

namespace gateway.ingress

variable {α : Type} {c : Codec α} {store : LactoStore}

/-- In a log without gaps the ids of a client take effect in order, none twice. -/
theorem taken_in_order {l : List (raft.Entry CommittedMutation)} (h : Each (Fits c) l)
    (happlied : replay c (mutations l) = (store, .ok ())) (client_id : String) :
    (taken (mutations l) client_id).map (fun p => p.2.sequence_id) =
      List.range' 1 (highest (mutations l) client_id) := by
  induction l using List.reverseRecOn generalizing store with
  | nil => rfl
  | append_singleton l e ih =>
    have hmutations : mutations (l ++ [e]) = mutations l ++ [e.data] := List.map_append
    rw [hmutations] at happlied ⊢
    obtain ⟨before, hbefore⟩ := replay_init happlied
    have hl : Each (Fits c) l := h.shorter (List.prefix_append _ _)
    obtain ⟨htidy, -⟩ := Each.tidy hl hbefore
    obtain ⟨hwell, -, hnext⟩ := h l.length e List.getElem?_concat_length
    rw [List.take_left] at hnext
    have hrest := ih hl hbefore
    unfold taken at hrest ⊢
    by_cases hdup : keyOf e.data ∈ (mutations l).map keyOf
    · rw [highest_duplicate hdup, firsts_duplicate hdup]
      exact hrest
    · have hhigh : highest (mutations l) e.data.client_id < e.data.sequence_id :=
        not_le.mp (mt (htidy.duplicate_iff hwell.sequence_pos).mpr hdup)
      rw [highest_new hdup hhigh, firsts_new hdup, List.filter_append]
      by_cases hclient : e.data.client_id = client_id
      · -- the entry is the next one of the client
        subst hclient
        have hid : e.data.sequence_id = highest (mutations l) e.data.client_id + 1 := by omega
        rw [if_pos rfl, hid, List.range'_1_concat, List.map_append]
        simp [hrest, hid, Nat.add_comm]
      · rw [if_neg hclient]
        simpa [hclient] using hrest

end gateway.ingress

namespace client_cli

open gateway.ingress
open gateway.ingress.scrubber (format_raw_input_from_proto normalize_intent)

variable {α D : Type} {L : DecimalLib D} {lower : Lower} {c : Codec α} {members : Finset NodeId}
  {oracle : Oracle} {me : String} {s : ClientState} {client client' : Client}
  {sent sent' : List ProposeMutationRequest}

/-! ## On the wire -/

def operation_type : Operation → OperationType
  | .Add => .Add
  | .Subtract => .Subtract
  | .Set => .Set
  | .Delete => .Delete

/-- The intent as it is in the request. -/
def MutationIntent.to_proto (intent : MutationIntent) : v1.app.MutationIntent :=
  .new intent.item_key intent.quantity intent.unit intent.category
    (operation_type intent.operation)

theorem scrubbed_operation {typed : MutationIntent} {intent : ScrubbedIntent}
    (h : normalize_intent L lower typed.to_proto = .ok intent) :
    intent.operation = typed.operation := by
  rcases gateway.veto.normalize_intent_cases L lower typed.to_proto with
    ⟨e, herror, -⟩ | ⟨intent', op, hok, hnumber, hop⟩
  · rw [herror] at h
    cases h
  · obtain rfl := Except.ok.inj (hok.symm.trans h)
    obtain rfl := Option.some.inj ((OperationType.try_from_toInt _).symm.trans hnumber)
    cases hop' : typed.operation <;> rw [hop'] at hop <;> exact (Option.some.inj hop).symm

/-! ## The client and the cluster -/

/-- The client `me` and the gateway, with everybody else who uses it. Any reply may come back to
the client. What it has sent may reach a leader at any time, again and again, or never; a
request that the scrubber refuses ends there. -/
inductive Exchange (L : DecimalLib D) (lower : Lower) (members : Finset NodeId) (c : Codec α)
    (oracle : Oracle) (me : String) (s : System) : SystemAct → System → Prop where
  | client {a : ClientAct} {client' : Client} (hs : clientStep s.client a = some client') :
      Exchange L lower members c oracle me s (.Client a) ⟨client', s.gateway⟩
  | gateway {a : GatewayAct} {g' : Gateway} (hs : Moves members c oracle s.gateway a g')
      (hother : ∀ n r, a = .Arrive n → g'.requests.head? = some r → r.client_id ≠ me) :
      Exchange L lower members c oracle me s (.Gateway a) ⟨s.client, g'⟩
  | deliver {n : NodeId} {payload : ProposeMutationRequest} {client_id : String}
      {typed : MutationIntent} {intent : ScrubbedIntent} (hsent : payload ∈ s.client.sent)
      (htyped : payload.intent = some typed)
      (hintent : normalize_intent L lower typed.to_proto = .ok intent)
      (hrole : s.gateway.raft.role n = .leader)
      (hid : c.parse_uuid payload.client_id = .ok client_id) :
      Exchange L lower members c oracle me s (.Deliver n) ⟨s.client, { s.gateway with
        requests := ⟨n, client_id, payload.sequence_id, intent,
          format_raw_input_from_proto typed.to_proto, .Authorized⟩ :: s.gateway.requests }⟩

def ExchangeRun (L : DecimalLib D) (lower : Lower) (members : Finset NodeId) (c : Codec α)
    (oracle : Oracle) (me : String) : System → System → Prop :=
  Trail (Exchange L lower members c oracle me) fun _ _ => True

/-! ## What the client has sent -/

theorem sent_fail (client : Client) (p : Process) (call : Call) :
    (client.fail p call).sent = client.sent := by
  cases call <;> rfl

theorem sent_succeed (client : Client) (p : Process) (call : Call) :
    (client.succeed p call).sent = client.sent := by
  cases call <;> rfl

theorem sent_reconcile (client : Client) (p : Process) (call : Call)
    (retry_count max_retries : Nat) (leader_hint : Option String) (io : Io) :
    (client.reconcile_routing_failure p call retry_count max_retries leader_hint io).sent =
      client.sent := by
  unfold Client.reconcile_routing_failure
  split
  · rfl
  · dsimp only
    split
    · rfl
    · exact sent_fail _ _ _

theorem sent_receive (client : Client) (p : Process) (call : Call) (retry_count max_retries : Nat)
    (io : Io) (reply : Reply) :
    (client.receive p call retry_count max_retries io reply).sent = client.sent := by
  unfold Client.receive
  split
  · exact sent_reconcile _ _ _ _ _ _ _
  · exact sent_fail _ _ _
  · split
    · exact sent_reconcile _ _ _ _ _ _ _
    · unfold Client.conclude
      split
      · rfl
      · exact sent_succeed _ _ _
  · split
    · exact sent_reconcile _ _ _ _ _ _ _
    · exact sent_succeed _ _ _

theorem sent_start {cluster_id : String} {seeds : List String} {io : Io}
    (hs : client.start cluster_id seeds io = some client') : client'.sent = client.sent := by
  unfold Client.start at hs
  split at hs
  · split at hs
    · cases hs
    dsimp only at hs
    split at hs
    · rw [← Option.some.inj hs]
    · rw [← Option.some.inj hs]
      split <;> rfl
  · cases hs

/-- What is on the network cannot be called back. -/
theorem sent_subset {a : ClientAct} (hs : clientStep client a = some client') :
    client.sent ⊆ client'.sent := by
  rcases clientStep_cases hs with ⟨cluster_id, seeds, io, rfl, hstart⟩ | ⟨p, hp, hworks⟩
  · rw [sent_start hstart]
    exact List.Subset.refl _
  cases hworks with
  | command hstage =>
    unfold Client.propose_mutation
    split
    · exact List.Subset.refl _
    · dsimp only
      split <;> exact List.Subset.refl _
  | append hstage hlogged =>
    subst hlogged
    split <;> split <;> exact List.Subset.refl _
  | attempt hstage =>
    unfold Client.attempt
    split
    · rw [sent_fail]
      exact List.Subset.refl _
    split
    · rw [sent_fail]
      exact List.Subset.refl _
    · exact List.subset_append_right _ _
  | receive hstage hfits =>
    rw [sent_receive]
    exact List.Subset.refl _
  | @remove call ok durable removed hstage hremoved =>
    have hsent : removed.sent = client.sent := by
      rw [hremoved]
      split <;> rfl
    rw [← hsent]
    split
    · rw [sent_succeed]
      exact List.Subset.refl _
    · rw [sent_fail]
      exact List.Subset.refl _
  | _ => exact List.Subset.refl _

/-! ## What the cluster makes of it -/

/-- A request under the client's id is one that it has sent: its intent is scrubbed, and its
text is kept. -/
def Typed (L : DecimalLib D) (lower : Lower) (me : String) (sent : List ProposeMutationRequest) :
    Asked := fun client_id sequence_id intent raw_user_input =>
  client_id = me → ∃ payload ∈ sent, ∃ typed, payload.sequence_id = sequence_id ∧
    payload.intent = some typed ∧ normalize_intent L lower typed.to_proto = .ok intent ∧
    raw_user_input = format_raw_input_from_proto typed.to_proto

theorem Typed.mono (hsub : sent ⊆ sent') (client_id : String) (sequence_id : Nat)
    (intent : ScrubbedIntent) (raw_user_input : String)
    (h : Typed L lower me sent client_id sequence_id intent raw_user_input) :
    Typed L lower me sent' client_id sequence_id intent raw_user_input := fun hme =>
  let ⟨payload, hpayload, hrest⟩ := h hme
  ⟨payload, hsub hpayload, hrest⟩

/-- The oracle has been shown some inventory and has said this. -/
def Judged (oracle : Oracle) : Verdict := fun intent status stabilized =>
  ∃ inventory, oracle inventory intent (status, stabilized)

structure Delivered (L : DecimalLib D) (lower : Lower) (members : Finset NodeId) (c : Codec α)
    (oracle : Oracle) (me : String) (s : ClientState) (sys : System) : Prop where
  numbered : ∃ drawn starts, Numbered s drawn starts sys.client
  sequenced : Sequenced members c sys.gateway
  ruling : Ruling (Typed L lower me sys.client.sent) (Judged oracle) members sys.gateway

theorem Delivered.init : Delivered L lower members c oracle me s (System.init s) :=
  ⟨⟨[], 0, .init s⟩, .init, .init⟩

theorem Delivered.step (hcanonical : ∀ raw id, c.parse_uuid raw = .ok id → c.parse_uuid id = .ok id)
    {sys sys' : System} {a : SystemAct} (h : Delivered L lower members c oracle me s sys)
    (hs : Exchange L lower members c oracle me sys a sys') :
    Delivered L lower members c oracle me s sys' := by
  obtain ⟨⟨drawn, starts, hnumbered⟩, hsequenced, hruling⟩ := h
  have hjudged : ∀ inventory intent status stabilized,
      oracle inventory intent (status, stabilized) → Judged oracle intent status stabilized :=
    fun inventory _ _ _ horacle => ⟨inventory, horacle⟩
  cases hs with
  | client hs =>
    obtain ⟨drawn', hnumbered'⟩ := hnumbered.step hs
    exact ⟨⟨drawn', _, hnumbered'⟩, hsequenced, hruling.imp (Typed.mono (sent_subset hs))⟩
  | gateway hs hother =>
    refine ⟨⟨drawn, starts, hnumbered⟩, hsequenced.step hcanonical hs,
      hruling.step hjudged hs fun n r ha hr hme => ?_⟩
    exact absurd hme (hother n r ha hr)
  | @deliver n payload client_id typed intent hsent htyped hintent hrole hid =>
    have harrive : Moves members c oracle sys.gateway (.Arrive n) { sys.gateway with
        requests := ⟨n, client_id, payload.sequence_id, intent,
          format_raw_input_from_proto typed.to_proto, .Authorized⟩ :: sys.gateway.requests } :=
      .arrive hrole hid
    refine ⟨⟨drawn, starts, hnumbered⟩, hsequenced.step hcanonical harrive,
      hruling.ask rfl fun _ => ?_⟩
    exact ⟨_, hsent, _, rfl, htyped, hintent, rfl⟩

/-- What the gateway makes of a command: the text as it was typed, its operation, and what the
oracle says to the scrubbed intent. -/
def Makes (L : DecimalLib D) (lower : Lower) (oracle : Oracle) (me : String) (sequence_id : Nat)
    (typed : MutationIntent) (m : CommittedMutation) : Prop :=
  ∃ intent inventory status stabilized now, normalize_intent L lower typed.to_proto = .ok intent ∧
    intent.operation = typed.operation ∧ oracle inventory intent (status, stabilized) ∧
    m = proposedMutation me sequence_id intent stabilized
      (format_raw_input_from_proto typed.to_proto) status now

/-- Whatever comes back to the client, wherever either side crashes, whatever is sent again or
lost, and whoever leads: a host that has applied its log so far holds what these entries mean;
the ids of the client have taken effect in order from 1, none twice; each of them is of the one
request that the client has sent under it, and is what the gateway makes of that command; and
a host that is further on has the same mutations of the client in front. -/
theorem delivered_in_order {sys : System}
    (hcanonical : ∀ raw id, c.parse_uuid raw = .ok id → c.parse_uuid id = .ok id)
    (hrun : ExchangeRun L lower members c oracle s.client_id (System.init s) sys) {n : NodeId}
    {k : Nat} {store : LactoStore} (hstore : Serving c sys.gateway.raft n k store) :
    store.inventory = inventoryOf (mutations ((sys.gateway.raft.log n).take k)) ∧
    (taken (mutations ((sys.gateway.raft.log n).take k)) s.client_id).map
      (fun p => p.2.sequence_id) = List.range' 1 (lastSeen store s.client_id) ∧
    (∀ p ∈ taken (mutations ((sys.gateway.raft.log n).take k)) s.client_id,
      ∃ payload ∈ sys.client.sent, payload.sequence_id = p.2.sequence_id ∧
        (∀ other ∈ sys.client.sent, other.sequence_id = p.2.sequence_id → other = payload) ∧
        ∃ typed, payload.intent = some typed ∧
          Makes L lower oracle s.client_id payload.sequence_id typed p.2) ∧
    ∀ n' k' store', Serving c sys.gateway.raft n' k' store' → k ≤ k' →
      taken (mutations ((sys.gateway.raft.log n).take k)) s.client_id <+:
        taken (mutations ((sys.gateway.raft.log n').take k')) s.client_id := by
  obtain ⟨⟨drawn, starts, hnumbered⟩, hsequenced, hruling⟩ :
      Delivered L lower members c oracle s.client_id s sys :=
    Trail.invariant (fun _ _ _ h _ hs => h.step hcanonical hs) hrun .init
  have hsafe := hsequenced.safe
  have hfits : Each (Fits c) ((sys.gateway.raft.log n).take k) :=
    (hsequenced.written.traced (hsafe.matching.log_traced n)).shorter (List.take_prefix _ _)
  obtain ⟨htidy, -⟩ := Each.tidy hfits hstore.applied
  refine ⟨htidy.reference.inventory, ?_, fun p hp => ?_, fun n' k' store' hstore' hle => ?_⟩
  · rw [taken_in_order hfits hstore.applied]
    exact congrArg (List.range' 1) (htidy.last_seen s.client_id).symm
  · obtain ⟨hfirst, hclient⟩ := mem_taken.mp hp
    obtain ⟨e, he, hdata⟩ := List.mem_map.mp (List.mem_of_getElem? (first_at hfirst).2)
    obtain ⟨client_id, sequence_id, intent, status, stabilized, raw, now, htyped,
      ⟨inventory, horacle⟩, hm⟩ := hruling.log n e (List.mem_of_mem_take he)
    rw [← hdata, hm] at hclient ⊢
    obtain rfl : client_id = s.client_id := hclient
    obtain ⟨payload, hsent, typed, rfl, hpayload, hintent, rfl⟩ := htyped rfl
    refine ⟨payload, hsent, rfl, fun other hother heq => ?_, typed, hpayload, intent, inventory,
      status, stabilized, now, hintent, scrubbed_operation hintent, horacle, rfl⟩
    exact hnumbered.unique other (hnumbered.sent other hother) payload
      (hnumbered.sent payload hsent) heq
  · refine taken_extend (mutations_mono ?_) s.client_id
    rcases hsafe.complete.settled_agree hsafe.matching (hstore.settled hsafe)
      (hstore'.settled hsafe) with hpre | hpre
    · exact hpre
    · -- it is no longer, so it is the same
      refine (hpre.eq_of_length_le ?_).symm ▸ List.prefix_refl _
      rw [List.length_take_of_le (hstore.committed.trans (hsafe.complete.commit_le n)),
        List.length_take_of_le (hstore'.committed.trans (hsafe.complete.commit_le n'))]
      exact hle

/-! ## A request that is sent twice and written twice -/

variable {g g' : Gateway} {sys : System}

theorem client_run {acts : List ClientAct}
    (h : ExchangeRun L lower members c oracle me sys ⟨client, g⟩)
    (hrun : exec clientStep client acts = some client') :
    ExchangeRun L lower members c oracle me sys ⟨client', g⟩ := by
  induction acts generalizing client with
  | nil =>
    obtain rfl := Option.some.inj hrun
    exact h
  | cons a acts ih =>
    obtain ⟨next, hs, hrest⟩ := Option.bind_eq_some_iff.mp hrun
    exact ih (.tail h trivial (.client hs)) hrest

/-- What the gateway does of its own accord. -/
theorem quiet_run (h : ExchangeRun L lower members c oracle me sys ⟨client, g⟩)
    (hrun : GatewayRun members c oracle (fun _ a => ∀ n, a ≠ .Arrive n) g g') :
    ExchangeRun L lower members c oracle me sys ⟨client, g'⟩ := by
  induction hrun with
  | refl => exact h
  | tail _ hquiet hs ih =>
    exact .tail ih trivial (.gateway hs fun n _ ha => absurd ha (hquiet n))

/-- A command, an attempt that seems to fail, and another one. -/
def milkAgain : List ClientAct :=
  [.Start "lacto" [] .Written, .Recover, .Command milkIntent .Written, .Append true true,
    .Attempt true, .Receive (.Status .Other) .Kept, .Attempt true]

def milkDelivered : Request :=
  ⟨1, home.client_id, 1, addMilk, "Add 1 l milk", .Passed⟩

def milkWritten : CommittedMutation :=
  proposedMutation home.client_id 1 addMilk moreMilk "Add 1 l milk" .Committed ⟨7, 0⟩

/-- Both attempts have reached node 1 before either was proposed, and both are in its log. -/
def milkDoubled : Gateway :=
  ⟨agreed (proposeOn (proposeOn ledByOne 1 milkWritten) 1 milkWritten),
    [{ milkDelivered with
      stage := .Waiting 2 .Committed moreMilk.moral_justification ⟨1, milkWritten⟩ }], []⟩

theorem milkAgain_sent :
    (exec clientStep (.init home) milkAgain).map Client.sent =
      some [milkPayload 1, milkPayload 1] := by
  decide +kernel

theorem milk_scrubbed :
    normalize_intent fixedPoint unchanged milkIntent.to_proto = .ok addMilk ∧
      format_raw_input_from_proto milkIntent.to_proto = "Add 1 l milk" := by
  decide +kernel

/-- The first of two requests for milk is proposed, or the only one. -/
theorem milk_proposed {raft : raft.State NodeId CommittedMutation} {requests : List Request}
    (hrole : raft.role 1 = .leader) (hfree : ∀ r ∈ requests, r.stage.hasLock = false) :
    GatewayRun members plain (fun _ _ _ => True) (fun _ a => ∀ n, a ≠ .Arrive n)
      ⟨raft, milkDelivered :: requests, []⟩
      ⟨proposeOn raft 1 milkWritten, { milkDelivered with
        stage := .Waiting ((raft.log 1).length + 1) .Committed moreMilk.moral_justification
          ⟨raft.term 1, milkWritten⟩ } :: requests, []⟩ := by
  have hstart : GatewayRun members plain (fun _ _ _ => True) (fun _ a => ∀ n, a ≠ .Arrive n)
      ⟨raft, milkDelivered :: requests, []⟩ ⟨raft, milkDelivered :: requests, []⟩ := .refl _
  have hlocked := hstart.tail (a := .Lock 0) (fun _ => nofun)
    (.lock rfl rfl (List.forall_mem_cons.mpr ⟨fun _ => rfl, fun r hr _ => hfree r hr⟩)
      serving_new rfl)
  have hresolved := hlocked.tail (a := .Resolve 0) (fun _ => nofun)
    (@Moves.resolve _ _ _ _ _ _ _ _ .Committed moreMilk rfl rfl trivial)
  exact hresolved.tail (a := .Propose 0) (fun _ => nofun)
    (@Moves.propose _ _ _ _ _ _ { milkDelivered with stage := .Resolved .Committed moreMilk }
      _ _ ⟨7, 0⟩ _ rfl rfl hrole rfl)

/-- What can become of the client and its cluster when the oracle says what it likes. -/
abbrev HomeRun : System → Prop :=
  ExchangeRun fixedPoint unchanged {1, 2, 3} plain (fun _ _ _ => True) home.client_id
    (System.init home)

theorem milkDoubled_run :
    ∃ client, client.sent = [milkPayload 1, milkPayload 1] ∧ HomeRun ⟨client, milkDoubled⟩ := by
  obtain ⟨client, hsent, hclient⟩ := Option.map_eq_some_iff.mp milkAgain_sent
  have hstart : HomeRun (System.init home) := .refl _
  have hled := quiet_run (client_run hstart hsent) (ledByOne_run fun _ _ _ => nofun)
  have harrives {requests : List Request} (h : HomeRun ⟨client, ⟨ledByOne, requests, []⟩⟩) :
      HomeRun ⟨client, ⟨ledByOne, milkDelivered :: requests, []⟩⟩ := by
    have hmem : milkPayload 1 ∈ client.sent := by
      rw [hclient]
      exact List.mem_cons_self
    have harrive := h.tail trivial (.deliver (n := 1) hmem rfl milk_scrubbed.1 rfl rfl)
    rw [milk_scrubbed.2] at harrive
    exact harrive.tail trivial (.gateway (a := .Firewall 0)
      (.pass (r := { milkDelivered with stage := .Authorized }) rfl rfl serving_new rfl)
      fun _ _ => nofun)
  have hboth := harrives (harrives hled)
  have hfirst := quiet_run hboth (milk_proposed rfl fun r hr => by
    obtain rfl := List.mem_singleton.mp hr
    rfl)
  -- the first handler is over, and its lock is free
  have hdropped := hfirst.tail (a := .Gateway (.Drop 0)) trivial (.gateway .drop fun _ _ => nofun)
  have hsecond := quiet_run hdropped (milk_proposed rfl fun r hr => by cases hr)
  have hleading := (ledByOne_leading.propose milkWritten).propose milkWritten
  have hagreed := quiet_run hsecond (hleading.agreed_run (by simp [proposeOn]) (.refl _)
    fun _ _ _ => nofun)
  exact ⟨client, hclient, hagreed⟩

theorem milkDoubled_serving :
    ∃ store, Serving plain milkDoubled.raft 1 2 store ∧ lastSeen store home.client_id = 1 := by
  refine ⟨(replay plain [milkWritten, milkWritten]).1, ⟨le_rfl, ?_⟩, ?_⟩
  · rfl
  · rfl

/-- The log has the mutation twice, and it has taken effect once. -/
theorem delivered_in_order_twice :
    ∃ sys store, HomeRun sys ∧
      Serving plain sys.gateway.raft 1 2 store ∧
      mutations ((sys.gateway.raft.log 1).take 2) = [milkWritten, milkWritten] ∧
      (taken (mutations ((sys.gateway.raft.log 1).take 2)) home.client_id).map
        (fun p => p.2.sequence_id) = [1] := by
  obtain ⟨client, -, hrun⟩ := milkDoubled_run
  obtain ⟨store, hstore, hlast⟩ := milkDoubled_serving
  refine ⟨_, store, hrun, hstore, rfl, ?_⟩
  rw [(delivered_in_order (fun _ _ _ => rfl) hrun hstore).2.1, hlast]
  rfl

end client_cli
