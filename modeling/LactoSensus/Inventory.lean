-- What may stand in an inventory: whatever the oracle answers, an item that the
-- store writes has gone through the stabilizer. Whether it is well formed does
-- not depend on what was there before it.
import LactoSensus.Resolution
import LactoSensus.Sequencing

open common.proto
open common.slug
open common.taxonomy
open common.types
open common.units
open decimal
open lacto_fsm
open machine
open ordmap
open raft (Each Safe Written)

namespace gateway.ingress

open gateway.veto
open gateway.ingress.ai_oracle (Reply)
open gateway.ingress.stabilizer

variable {α D : Type} {L : DecimalLib D} {lower : Lower} {c : Codec α} {members : Finset NodeId}
  {g g' : Gateway}

/-! ## The oracle of the gateway -/

/-- `IngressDispatcher::resolve_semantic_mutation`. -/
def resolve_semantic_mutation (L : DecimalLib D) (lower : Lower) (veto_max_retries : Nat)
    (intent : ScrubbedIntent) (current_inventory : List GroceryItem) (replies : Nat → Reply) :
    Except tonic.Status (ProposalStatus × StabilizedMutation) :=
  match (ai_oracle.resolve_semantic_mutation L lower veto_max_retries intent current_inventory
      replies).2 with
  | .error e => .error e
  | .ok (.Committed, stabilized) => .ok (.Committed, stabilized)
  | .ok (.Vetoed, stabilized) => .ok (.Vetoed, stabilized)
  | .ok _ => .error ⟨.Internal, "Request rejected"⟩

/-- What the loop can return, whatever the oracle replies. -/
def resolvedBy (L : DecimalLib D) (lower : Lower) : Oracle := fun inventory intent out =>
  ∃ veto_max_retries replies,
    resolve_semantic_mutation L lower veto_max_retries intent inventory replies = .ok out

/-- What is committed has passed the stabilizer, as one reply of the oracle had it. -/
theorem resolvedBy_committed {inventory : List GroceryItem} {intent : ScrubbedIntent}
    {s : StabilizedMutation} (h : resolvedBy L lower inventory intent (.Committed, s)) :
    ∃ veto, validate_and_stabilize L lower intent veto inventory = .ok s := by
  obtain ⟨veto_max_retries, replies, h⟩ := h
  obtain ⟨i, -, heq⟩ := ai_oracle.resolve_ends L lower veto_max_retries intent inventory replies
  unfold resolve_semantic_mutation at h
  rw [heq] at h
  cases hresult : ai_oracle.resultOf L lower intent inventory (replies i) with
  | error e =>
    rw [hresult] at h
    cases h
  | ok out =>
    obtain ⟨status, s'⟩ := out
    rw [hresult] at h
    cases status <;> simp only [Except.ok.injEq, Prod.mk.injEq, reduceCtorEq, false_and] at h
    obtain ⟨veto, -, -, hvalid⟩ := ai_oracle.resultOf_committed.mp hresult
    exact ⟨veto, by rw [hvalid, h.2]⟩

/-! ## Well-formed items -/

/-- The quantity is a number that is not negative and has few places. -/
def QuantityOk (L : DecimalLib D) (quantity : String) : Prop :=
  ∃ q, L.from_str quantity = some q ∧ 0 ≤ L.value q ∧ L.scale q ≤ SI_STABILIZATION_PRECISION

/-- The unit is the base unit of the dimension that it has itself and that the display unit
has. -/
def UnitsOk (L : DecimalLib D) (lower : Lower) (unit display_unit : String) : Prop :=
  ∃ dimension base display, unit = dimension.base_unit ∧
    resolve_symbol L lower unit = .ok base ∧ base.dimension = dimension ∧
    resolve_symbol L lower display_unit = .ok display ∧ display.dimension = dimension

structure ItemOk (L : DecimalLib D) (lower : Lower) (item : GroceryItem) : Prop where
  key : slugify item.item_key = item.item_key
  category : ∃ category, GroceryCategory.from_str item.category = some category
  units : UnitsOk L lower item.unit item.display_unit
  quantity : QuantityOk L item.quantity

/-- The dimension is that of the item that the inventory has under the key. -/
def KeepsDimension (L : DecimalLib D) (lower : Lower) (inventory : List GroceryItem)
    (intent : ScrubbedIntent) (s : StabilizedMutation) : Prop :=
  intent.operation = .Add ∨ intent.operation = .Subtract →
    ∀ item, existing inventory s.resolved_item_key = some item →
      ∃ entry, resolve_symbol L lower item.unit = .ok entry ∧
        s.base_unit = entry.dimension.base_unit

theorem normalize_base_unit (dimension : Dimension) :
    normalize_symbol lower dimension.base_unit = dimension.base_unit := by
  cases dimension <;> rfl

variable (L lower) in
theorem resolve_base_unit (dimension : Dimension) :
    ∃ entry, resolve_symbol L lower dimension.base_unit = .ok entry ∧
      entry.dimension = dimension := by
  unfold resolve_symbol
  rw [normalize_base_unit]
  cases dimension <;> exact ⟨_, rfl, rfl⟩

/-- The result of the accumulation is a well-formed quantity, whatever was there before. -/
theorem accumulated_ok (hL : L.Lawful) {intent : ScrubbedIntent} {veto : VetoOutcome}
    {inventory : List GroceryItem} {s : StabilizedMutation} {q_str : String}
    {base total : PhysicalQuantity D}
    (h : Behind L lower intent veto inventory s q_str base total) :
    total.dimension = base.dimension ∧ 0 ≤ L.value total.value ∧
      L.scale total.value ≤ SI_STABILIZATION_PRECISION := by
  obtain ⟨-, multiplier, -, -, hconv, -⟩ := verify_unit_stabilization_ok h.converted
  have hbase := hL.base_scale hconv
  rcases apply_arithmetic_accumulation_ok h.accumulated with
    ⟨-, rfl⟩ | ⟨op, item, held, hop, -, hheld, hresult, hsign⟩
  · exact ⟨rfl, (verified_positive hL h.converted).le, hbase⟩
  · obtain ⟨entry, -, -, hheldConv⟩ := parse_and_convert_ok hheld
    have hmax : max (L.scale held.value) (L.scale base.value) ≤ SI_STABILIZATION_PRECISION :=
      max_le (hL.base_scale hheldConv) hbase
    refine ⟨arithmetic_dimension hop hresult, hL.sign _ hsign, ?_⟩
    cases hintent : intent.operation with
    | Add =>
      rw [hintent] at hop
      obtain rfl := Option.some.inj hop
      exact (hL.add_scale _ _ _ (fenced_ok hresult).2.2).trans hmax
    | Subtract =>
      rw [hintent] at hop
      obtain rfl := Option.some.inj hop
      exact (hL.sub_scale _ _ _ (fenced_ok hresult).2.2).trans hmax
    | Set =>
      rw [hintent] at hop
      cases hop
    | Delete =>
      rw [hintent] at hop
      cases hop

/-- What is stabilized and no deletion becomes a well-formed item. -/
theorem stabilized_ok (hL : L.Lawful) {intent : ScrubbedIntent} {veto : VetoOutcome}
    {inventory : List GroceryItem} {s : StabilizedMutation}
    (hs : validate_and_stabilize L lower intent veto inventory = .ok s)
    (hdelete : intent.operation ≠ .Delete) :
    UnitsOk L lower s.base_unit s.display_unit ∧ QuantityOk L s.updated_base_quantity := by
  obtain ⟨-, -, hdel | ⟨-, q_str, base, total, h⟩⟩ := validate_and_stabilize_ok hs
  · exact absurd hdel hdelete
  obtain ⟨hdim, hpos, hscale⟩ := accumulated_ok hL h
  obtain ⟨display, -, hdisplay, hdisplayDim, -⟩ := verify_unit_stabilization_ok h.converted
  obtain ⟨base_entry, hbase, hbaseDim⟩ := resolve_base_unit L lower total.dimension
  obtain ⟨q, hq, hsame⟩ := hL.read_back total.value
  constructor
  · refine ⟨total.dimension, base_entry, display, h.unit, by rw [h.unit, hbase], hbaseDim, ?_, ?_⟩
    · rw [h.display, hdisplay]
    · rw [← hdisplayDim, hdim]
  · refine ⟨q, by rw [h.updated, hq], ?_, ?_⟩
    · rw [hsame.value]
      exact hpos
    · rw [hsame.scale]
      exact hscale

theorem stabilized_keeps_dimension {intent : ScrubbedIntent} {veto : VetoOutcome}
    {inventory : List GroceryItem} {s : StabilizedMutation}
    (hs : validate_and_stabilize L lower intent veto inventory = .ok s) :
    KeepsDimension L lower inventory intent s := by
  intro hop item hitem
  obtain ⟨hkey, -, hdelete | ⟨-, q_str, base, total, h⟩⟩ := validate_and_stabilize_ok hs
  · rcases hop with hop | hop <;>
    · rw [hop] at hdelete
      cases hdelete
  rw [hkey] at hitem
  obtain ⟨entry, hentry, hdim⟩ := enforce_physical_invariants_ok h.fenced hop hitem
  refine ⟨entry, hentry, ?_⟩
  rw [h.unit, hdim]
  rcases apply_arithmetic_accumulation_ok h.accumulated with
    ⟨-, rfl⟩ | ⟨op, _, held, hop', -, -, hresult, -⟩
  · rfl
  · rw [arithmetic_dimension hop' hresult]

/-! ## The store -/

/-- The mutation is what the loop has returned for the intent and the inventory. -/
def ProposedFrom (L : DecimalLib D) (lower : Lower) (inventory : List GroceryItem)
    (intent : ScrubbedIntent) (status : ProposalStatus) (s : StabilizedMutation)
    (m : CommittedMutation) : Prop :=
  resolvedBy L lower inventory intent (status, s) ∧
    ∃ client_id sequence_id raw_user_input now,
      m = proposedMutation client_id sequence_id intent s raw_user_input status now

/-- The inventory that the mutation was computed from has well-formed items only. -/
def Proposed (L : DecimalLib D) (lower : Lower) (m : CommittedMutation) : Prop :=
  ∃ inventory intent status s, (∀ item ∈ inventory, ItemOk L lower item) ∧
    ProposedFrom L lower inventory intent status s m ∧
    (status = .Committed → KeepsDimension L lower inventory intent s)

def InventoryOk (L : DecimalLib D) (lower : Lower) (inventory : OrdMap String GroceryItem) : Prop :=
  ∀ key item, inventory.get? key = some item → item.item_key = key ∧ ItemOk L lower item

theorem applySequence_inventory (s : LactoStore) (index : Nat) (mutation : CommittedMutation)
    (client_id : String) :
    (s.applySequence index mutation client_id).1.inventory = s.inventory ∨
      ∃ status, MutationStatus.try_from mutation.status = some status ∧
        (s.applySequence index mutation client_id).1.inventory =
          updateInventory s.inventory index mutation status := by
  unfold LactoStore.applySequence
  dsimp only
  split
  · exact .inl rfl
  split
  · exact .inl rfl
  split
  · exact .inl rfl
  split
  · exact .inl rfl
  rename_i status hstatus
  split
  · exact .inl rfl
  · exact .inr ⟨status, hstatus, rfl⟩

/-- One entry leaves the inventory as it is, or writes what the mutation says. -/
theorem apply_inventory (s : LactoStore) (index : Nat) (data : α) :
    (s.apply c index data).1.inventory = s.inventory ∨
      ∃ mutation status, c.decode data = .ok mutation ∧
        MutationStatus.try_from mutation.status = some status ∧
        (s.apply c index data).1.inventory = updateInventory s.inventory index mutation status := by
  unfold LactoStore.apply
  split
  · exact .inl rfl
  split
  · exact .inl rfl
  rename_i mutation hdecode
  have hmono : (s.validate_log_monotonicity index).1.inventory = s.inventory := by
    unfold LactoStore.validate_log_monotonicity
    split
    · rfl
    split
    · rfl
    split <;> rfl
  split
  · rename_i s' e heq
    rw [heq] at hmono
    exact .inl hmono
  rename_i s' heq
  rw [heq] at hmono
  have hclient : (s'.parse_client_id c mutation.client_id index).1.inventory = s'.inventory := by
    unfold LactoStore.parse_client_id
    split <;> rfl
  split
  · rename_i s'' e heq'
    rw [heq'] at hclient
    exact .inl (hclient.trans hmono)
  rename_i s'' client_id heq'
  rw [heq'] at hclient
  rw [← hmono, ← hclient]
  rcases applySequence_inventory s'' index mutation client_id with hsame | ⟨status, hstatus, heq''⟩
  · exact .inl hsame
  · exact .inr ⟨mutation, status, hdecode, hstatus, heq''⟩

/-- What a proposal writes is well formed. -/
theorem Proposed.item_ok (hL : L.Lawful) {m : CommittedMutation} (hm : Proposed L lower m)
    (hstatus : MutationStatus.try_from m.status = some .Committed) (hdelete : m.is_delete = false)
    (index : Nat) : ItemOk L lower (item_from_mutation index m) := by
  obtain ⟨inventory, intent, status, s, -, ⟨hresolved, client_id, sequence_id, raw, now, rfl⟩, -⟩ :=
    hm
  have hcommitted : status = .Committed := by
    cases status with
    | Committed => rfl
    | Vetoed => cases hstatus
  subst hcommitted
  obtain ⟨veto, hvalid⟩ := resolvedBy_committed hresolved
  have hop : intent.operation ≠ .Delete := of_decide_eq_false hdelete
  obtain ⟨hunits, hquantity⟩ := stabilized_ok hL hvalid hop
  exact ⟨(validate_and_stabilize_ok hvalid).2.1, ⟨s.category, from_str_to_string s.category⟩,
    hunits, hquantity⟩

theorem InventoryOk.apply (hL : L.Lawful) {s : LactoStore} (h : InventoryOk L lower s.inventory)
    {m : CommittedMutation} (hm : Proposed L lower m) (index : Nat) :
    InventoryOk L lower (s.apply c index (c.encode m)).1.inventory := by
  rcases apply_inventory (c := c) s index (c.encode m) with hsame | ⟨m', status, hdecode, hst, heq⟩
  · rw [hsame]
    exact h
  rw [c.decode_encode m] at hdecode
  obtain rfl := Except.ok.inj hdecode
  rw [heq]
  unfold updateInventory
  by_cases hcommitted : status = .Committed
  · rw [if_pos hcommitted]
    rw [hcommitted] at hst
    cases hdelete : m.is_delete with
    | true =>
      intro key item hitem
      rw [if_pos rfl, OrdMap.get?_erase] at hitem
      split at hitem
      · cases hitem
      · exact h key item hitem
    | false =>
      intro key item hitem
      rw [if_neg (by simp), OrdMap.get?_insert] at hitem
      split at hitem
      · rename_i hkey
        rw [← Option.some.inj hitem, hkey]
        exact ⟨rfl, hm.item_ok hL hst hdelete index⟩
      · exact h key item hitem
  · rw [if_neg hcommitted]
    exact h

/-- The store that is fed with proposals, up to the first that it refuses. -/
theorem InventoryOk.applyLog (hL : L.Lawful) {s : LactoStore} (h : InventoryOk L lower s.inventory)
    {ms : List CommittedMutation} (hms : ∀ m ∈ ms, Proposed L lower m) (applied : Nat) :
    InventoryOk L lower (s.applyLog c applied (ms.map c.encode)).1.inventory := by
  induction ms generalizing s applied with
  | nil => exact h
  | cons m ms ih =>
    have hone := h.apply (c := c) hL (hms m List.mem_cons_self) (applied + 1)
    rw [List.map_cons, LactoStore.applyLog]
    generalize s.apply c (applied + 1) (c.encode m) = r at hone ⊢
    obtain ⟨s', e | u⟩ := r
    · exact hone
    · exact ih hone (fun m' hm' => hms m' (List.mem_cons_of_mem _ hm')) _

theorem InventoryOk.replay (hL : L.Lawful) {ms : List CommittedMutation}
    (hms : ∀ m ∈ ms, Proposed L lower m) : InventoryOk L lower (replay c ms).1.inventory :=
  InventoryOk.applyLog hL (fun key item hitem => by cases hitem) hms 0

/-! ## The system -/

/-- What the gateway keeps: the logs hold proposals, and what a request has been given to work
with is well formed. -/
structure Stocked (L : DecimalLib D) (lower : Lower) (members : Finset NodeId) (g : Gateway) :
    Prop where
  safe : Safe members g.raft
  written : Written (fun _ e => Proposed L lower e.data) g.raft
  evaluating : ∀ r ∈ g.requests, ∀ inventory, r.stage = .Evaluating inventory →
    ∀ item ∈ inventory, ItemOk L lower item
  resolved : ∀ r ∈ g.requests, ∀ status s, r.stage = .Resolved status s →
    ∃ inventory, (∀ item ∈ inventory, ItemOk L lower item) ∧
      resolvedBy L lower inventory r.intent (status, s)

theorem Stocked.init : Stocked L lower members Gateway.init :=
  ⟨.init members, .init, by simp [Gateway.init], by simp [Gateway.init]⟩

theorem Stocked.log (h : Stocked L lower members g) (n : NodeId) :
    ∀ e ∈ g.raft.log n, Proposed L lower e.data := by
  intro e he
  obtain ⟨k, hk⟩ := List.mem_iff_getElem?.mp he
  exact h.written.traced (h.safe.matching.log_traced n) k e hk

theorem Stocked.store (hL : L.Lawful) (h : Stocked L lower members g) (n : NodeId) (k : Nat) :
    InventoryOk L lower (replay c (mutations ((g.raft.log n).take k))).1.inventory := by
  apply InventoryOk.replay hL
  intro m hm
  obtain ⟨e, he, rfl⟩ := List.mem_map.mp hm
  exact h.log n e (List.mem_of_mem_take he)

theorem Stocked.stage (h : Stocked L lower members g) {i : Nat} {r : Request} {stage : Stage}
    (hevaluating : ∀ inventory, stage = .Evaluating inventory →
      ∀ item ∈ inventory, ItemOk L lower item)
    (hresolved : ∀ status s, stage = .Resolved status s →
      ∃ inventory, (∀ item ∈ inventory, ItemOk L lower item) ∧
        resolvedBy L lower inventory r.intent (status, s)) :
    Stocked L lower members (g.withStage i r stage) := by
  refine ⟨h.safe, h.written, fun r' hr' => ?_, fun r' hr' => ?_⟩
  · rcases List.mem_or_eq_of_mem_set hr' with hold | rfl
    · exact h.evaluating r' hold
    · exact hevaluating
  · rcases List.mem_or_eq_of_mem_set hr' with hold | rfl
    · exact h.resolved r' hold
    · exact hresolved

theorem Stocked.erase (h : Stocked L lower members g) (i : Nat) (answers : List Answer) :
    Stocked L lower members ⟨g.raft, g.requests.eraseIdx i, answers⟩ :=
  ⟨h.safe, h.written, fun r hr => h.evaluating r (List.mem_of_mem_eraseIdx hr),
    fun r hr => h.resolved r (List.mem_of_mem_eraseIdx hr)⟩

theorem Stocked.step (hL : L.Lawful) {a : GatewayAct} (h : Stocked L lower members g)
    (hs : Moves members c (resolvedBy L lower) g a g') : Stocked L lower members g' := by
  cases hs with
  | replicate hs =>
    obtain ⟨hstep, hglog⟩ := hs
    exact ⟨h.safe.step hstep, h.written.keep h.safe.election h.safe.matching hstep hglog,
      h.evaluating, h.resolved⟩
  | arrive hrole hid =>
    refine ⟨h.safe, h.written, fun r hr => ?_, fun r hr => ?_⟩
    · rcases List.mem_cons.mp hr with rfl | hold
      · exact fun inventory hno => by cases hno
      · exact h.evaluating r hold
    · rcases List.mem_cons.mp hr with rfl | hold
      · exact fun status s hno => by cases hno
      · exact h.resolved r hold
  | answer hr hstage hstore hwall => exact h.erase _ _
  | pass hr hstage hstore hwall =>
    exact h.stage (fun inventory hno => by cases hno) fun status s hno => by cases hno
  | @lock i k r store inventory hr hstage hfree hstore hread =>
    refine h.stage (fun inventory' heq item hitem => ?_) fun status s hno => by cases hno
    cases heq
    -- the inventory is that of a store that was fed with proposals
    have hok := h.store (c := c) hL r.node k
    rw [hstore.applied] at hok
    unfold LactoStore.get_inventory at hread
    split at hread
    · cases hread
    · rw [← Except.ok.inj hread] at hitem
      obtain ⟨⟨key, item'⟩, hentry, rfl⟩ := List.mem_map.mp hitem
      exact (hok key item' ((OrdMap.get?_eq_some_iff _ _ _).mpr hentry)).2
  | @resolve i r inventory status stabilized hr hstage horacle =>
    refine h.stage (fun inventory hno => by cases hno) fun status' s' heq => ?_
    cases heq
    exact ⟨inventory, h.evaluating r (List.mem_of_getElem? hr) inventory hstage, horacle⟩
  | @propose i r status stabilized now m hr hstage hrole hm =>
    obtain ⟨inventory, hitems, hresolved⟩ :=
      h.resolved r (List.mem_of_getElem? hr) status stabilized hstage
    have hproposed : Proposed L lower m := by
      refine ⟨inventory, r.intent, status, stabilized, hitems, ⟨hresolved, _, _, _, _, hm⟩, ?_⟩
      rintro rfl
      obtain ⟨veto, hvalid⟩ := resolvedBy_committed hresolved
      exact stabilized_keeps_dimension hvalid
    have hwaiting : Stocked L lower members (g.withStage i r (.Waiting
        ((g.raft.log r.node).length + 1) status stabilized.moral_justification
        ⟨g.raft.term r.node, m⟩)) :=
      h.stage (fun inventory hno => by cases hno) fun status s hno => by cases hno
    exact ⟨h.safe.step (.propose g.raft m hrole), h.written.write h.safe.matching hproposed,
      hwaiting.evaluating, hwaiting.resolved⟩
  | acknowledge hr hstage hrole hle => exact h.erase _ _
  | drop => exact h.erase _ _

/-- Whatever clients ask and whatever the oracle replies, whoever leads: every item of every
store is well formed, each entry of a log has been computed from such items, and an addition or
a subtraction stays in the dimension of the item that it finds. -/
theorem inventory_well_formed (hL : L.Lawful)
    (hrun : GatewayRun members c (resolvedBy L lower) (fun _ _ => True) Gateway.init g)
    (n : NodeId) :
    (∀ k store result, replay c (mutations ((g.raft.log n).take k)) = (store, result) →
      ∀ key item, store.inventory.get? key = some item →
        item.item_key = key ∧ ItemOk L lower item) ∧
    (∀ e ∈ g.raft.log n, Proposed L lower e.data) ∧
    ∀ r ∈ g.requests, ∀ inventory s, r.stage = .Evaluating inventory →
      resolvedBy L lower inventory r.intent (.Committed, s) →
      KeepsDimension L lower inventory r.intent s := by
  have h : Stocked L lower members g :=
    Trail.invariant (fun _ _ _ h _ hs => h.step hL hs) hrun .init
  refine ⟨fun k store result heq => ?_, h.log n, fun r hr inventory s hstage hresolved => ?_⟩
  · have hok := h.store (c := c) hL n k
    rwa [heq] at hok
  · obtain ⟨veto, hvalid⟩ := resolvedBy_committed hresolved
    exact stabilized_keeps_dimension hvalid

/-- The oracle approves of the milk. -/
def approvedMilk : VetoOutcome :=
  ⟨true, "Animal Secretions", "Approved", "milk", "Milk", "l", "1000"⟩

theorem approvedMilk_resolved :
    resolvedBy fixedPoint unchanged [] addMilk (.Committed, moreMilk) :=
  ⟨1, fun _ => .ok approvedMilk, by decide +kernel⟩

/-- Node 1 has been asked for milk. -/
def milkProposed : Gateway :=
  ⟨proposeOn ledByOne 1 (milkMutation .Committed), [milkWaiting 1 .Committed], []⟩

theorem milkProposed_run :
    GatewayRun {1, 2, 3} plain (resolvedBy fixedPoint unchanged) (fun _ _ => True) Gateway.init
      milkProposed := by
  have hled : GatewayRun {1, 2, 3} plain (resolvedBy fixedPoint unchanged) (fun _ _ => True)
      Gateway.init ⟨ledByOne, [], []⟩ := ledByOne_run fun _ _ => trivial
  have hpassed := passed_run milkRequest hled (fun _ _ _ => trivial) rfl rfl serving_new rfl
  exact proposed_run milkRequest .Committed moreMilk ⟨7, 0⟩ hpassed (fun _ _ _ => trivial) rfl
    (by simp) serving_new rfl approvedMilk_resolved rfl

theorem inventory_well_formed_once :
    (∀ k store result, replay plain (mutations ((milkProposed.raft.log 1).take k)) =
        (store, result) →
      ∀ key item, store.inventory.get? key = some item →
        item.item_key = key ∧ ItemOk fixedPoint unchanged item) ∧
    (∀ e ∈ milkProposed.raft.log 1, Proposed fixedPoint unchanged e.data) ∧
    ∀ r ∈ milkProposed.requests, ∀ inventory s, r.stage = .Evaluating inventory →
      resolvedBy fixedPoint unchanged inventory r.intent (.Committed, s) →
      KeepsDimension fixedPoint unchanged inventory r.intent s :=
  inventory_well_formed fixedPoint_exact.toLawful milkProposed_run 1

end gateway.ingress
