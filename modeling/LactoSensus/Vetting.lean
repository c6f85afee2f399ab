-- What the ledger holds when the repository's own policy service is the oracle: keys that
-- are not blank, justifications of bounded length, and, for what is counted in a unit of
-- no dimension, the unit at the end of the key. No key is ever counted in two such units.
import LactoSensus.Inventory
import LactoSensus.Policy
import LactoSensus.Slugs

open ai_veto.service (slugOf)
open common.proto
open common.slug
open common.types
open common.units
open lacto_fsm
open machine
open ordmap
open raft (Safe Written)
open words

namespace gateway.ingress

open gateway.ingress.ai_oracle (Reply mismatchJustification vetoedMutation)
open gateway.ingress.scrubber (normalize_intent)
open gateway.ingress.stabilizer
open gateway.veto

variable {α D U V : Type} {L : DecimalLib D} {lower : Lower} {c : Codec α}
  {members : Finset NodeId} {g g' : Gateway}

/-! ## Slugs and units -/

/-- The key ends in the unit, behind a separator. -/
def NamesUnit (lower : Lower) (key unit : String) : Prop :=
  ('_' :: (normalize_symbol lower unit).toList) <:+ key.toList

theorem suffix_unique {u v k : List Char} (hu : '_' ∉ u) (hv : '_' ∉ v)
    (h : ('_' :: u) <:+ k) (h' : ('_' :: v) <:+ k) : u = v := by
  rcases List.suffix_or_suffix_of_suffix h h' with hs | hs
  · rcases List.suffix_cons_iff.mp hs with heq | hin
    · exact (List.cons.inj heq).2
    · exact absurd (hin.subset List.mem_cons_self) hv
  · rcases List.suffix_cons_iff.mp hs with heq | hin
    · exact (List.cons.inj heq).2.symm
    · exact absurd (hin.subset List.mem_cons_self) hu

theorem slug_letters {key : String} (h : slugify key = key) :
    ∀ ch ∈ key.toList, SlugChar ch ∨ ch = '_' := by
  obtain ⟨ws, hws, heq⟩ := canonical_iff.mp (slugify_fixed_iff.mp h)
  have hword : ∀ w ∈ ws, ∀ ch ∈ w, SlugChar ch := fun w hw => (mem_word.mp (hws w hw)).2
  intro ch hch
  rw [heq] at hch
  cases ws with
  | nil => cases hch
  | cons w ws =>
    rw [intercalate_cons, List.mem_append, List.mem_flatMap] at hch
    rcases hch with hin | ⟨v, hv, hin⟩
    · exact .inl (hword w List.mem_cons_self ch hin)
    · rcases List.mem_cons.mp hin with rfl | hin
      · exact .inr rfl
      · exact .inl (hword v (List.mem_cons_of_mem _ hv) ch hin)

theorem slugLike_toLower {ch : Char} (h : SlugChar ch ∨ ch = '_') : ch.toLower = ch := by
  rcases h with h | rfl
  · exact h.toLower
  · rfl

theorem slugLike_range {ch : Char} (h : SlugChar ch ∨ ch = '_') :
    48 ≤ ch.toNat ∧ ch.toNat < 123 := by
  rcases h with h | rfl
  · simp only [SlugChar, Char.le_def, UInt32.le_iff_toNat_le] at h
    simp at h
    omega
  · decide

theorem slugLike_visible {ch : Char} (h : SlugChar ch ∨ ch = '_') : ¬is_whitespace ch = true := by
  have hrange := slugLike_range h
  simp only [is_whitespace, Bool.or_eq_true, Bool.and_eq_true, decide_eq_true_eq, beq_iff_eq]
  omega

theorem to_lowercase_id {cs : List Char} (h : ∀ ch ∈ cs, SlugChar ch ∨ ch = '_')
    (before : List Char) : to_lowercase lower before cs = cs := by
  induction cs generalizing before with
  | nil => rfl
  | cons ch cs ih =>
    obtain ⟨hch, hrest⟩ := List.forall_mem_cons.mp h
    rw [to_lowercase, ih hrest, slugLike_toLower hch, if_pos (by
      have := slugLike_range hch
      omega)]
    rfl

theorem trim_id {cs : List Char} (h : ∀ ch ∈ cs, SlugChar ch ∨ ch = '_') : trim cs = cs := by
  have hdrop : ∀ ds : List Char, (∀ ch ∈ ds, SlugChar ch ∨ ch = '_') →
      ds.dropWhile is_whitespace = ds := by
    intro ds hds
    cases ds with
    | nil => rfl
    | cons ch ds =>
      exact List.dropWhile_cons_of_neg (slugLike_visible (hds ch List.mem_cons_self))
  unfold trim
  rw [hdrop cs h, hdrop cs.reverse fun ch hch => h ch (List.mem_reverse.mp hch),
    List.reverse_reverse]

/-- The guard looks at a slug as it is. -/
theorem slugOf_slug {key : String} (h : slugify key = key) : slugOf lower key = key.toList := by
  unfold slugOf lowercase trimmed
  rw [String.toList_ofList, String.toList_ofList, trim_id (slug_letters h),
    to_lowercase_id (slug_letters h)]

/-- A unit of no dimension is one word. -/
theorem anomalous_word {unit : String} {entry : UnitRegistryEntry D}
    (h : resolve_symbol L lower unit = .ok entry) (hdim : entry.dimension = .Anomalous) :
    '_' ∉ (normalize_symbol lower unit).toList := by
  unfold resolve_symbol at h
  dsimp only at h
  split at h
  · rename_i arm hfind
    have hsymbol := List.find?_some hfind
    have harm := List.mem_of_find?_eq_some hfind
    rw [← Except.ok.inj h] at hdim
    generalize normalize_symbol lower unit = symbol at hsymbol ⊢
    simp only [registry, List.mem_cons, List.not_mem_nil, or_false] at harm
    rcases harm with rfl | rfl | rfl | rfl | rfl | rfl | rfl | rfl | rfl | rfl | rfl | rfl
    case inr.inr.inr.inr.inr.inr.inr.inr.inr.inr.inr =>
      simp at hsymbol
      rcases hsymbol with rfl | rfl | rfl | rfl | rfl <;> decide
    all_goals cases hdim
  · cases h

theorem map_unchanged {f : Char → Char} {cs : List Char}
    (hf : ∀ ch ∈ cs, f ch = ch ∨ f ch = '_') (h : '_' ∉ cs.map f) : cs.map f = cs := by
  induction cs with
  | nil => rfl
  | cons ch cs ih =>
    rw [List.map_cons, List.mem_cons, not_or] at h
    rw [List.map_cons, ih (fun ch' hch' => hf ch' (List.mem_cons_of_mem _ hch')) h.2]
    rcases hf ch List.mem_cons_self with heq | hsep
    · rw [heq]
    · exact absurd hsep.symm h.1

theorem slugOf_unit {unit : String} (h : '_' ∉ (normalize_symbol lower unit).toList) :
    slugOf lower unit = (normalize_symbol lower unit).toList := by
  unfold normalize_symbol at h ⊢
  rw [String.toList_ofList] at h ⊢
  have hsame := map_unchanged (fun ch _ => ?_) h
  · rw [hsame, slugOf, lowercase, trimmed, String.toList_ofList, String.toList_ofList]
  · by_cases hsep : ch = '-' ∨ ch = ' '
    · exact .inr (if_pos hsep)
    · exact .inl (if_neg hsep)

/-! ## The oracle -/

/-- The oracle of the gateway when the policy service is the repository's own: a scrubbed
intent, any client and trace, any texts of the model and any faults of the network. -/
def policyOracle [DecidableEq U] (L : DecimalLib D) (lower : Lower) (p : PolicyLink V U) :
    Oracle := fun inventory intent out =>
  ∃ (raw : common.proto.v1.app.MutationIntent) (veto_max_retries : Nat) (client_id : String)
      (trace_id : U) (attempts : Nat → Attempt),
    normalize_intent L lower raw = .ok intent ∧
      resolve_semantic_mutation L lower veto_max_retries intent inventory
        (fun i => p.reply L lower client_id intent inventory trace_id (attempts i)) = .ok out

/-- What the loop returns is what one of the replies says. -/
theorem resolved_from {veto_max_retries : Nat} {intent : ScrubbedIntent}
    {inventory : List GroceryItem} {replies : Nat → Reply} {status : ProposalStatus}
    {s : StabilizedMutation}
    (h : resolve_semantic_mutation L lower veto_max_retries intent inventory replies =
      .ok (status, s)) :
    ∃ i veto, replies i = .ok veto ∧
      (status = .Committed ∧ validate_and_stabilize L lower intent veto inventory = .ok s ∨
        status = .Vetoed ∧ ∃ text, (text = veto.moral_justification ∨
          text = mismatchJustification) ∧ s = vetoedMutation veto text) := by
  obtain ⟨i, -, heq⟩ := ai_oracle.resolve_ends L lower veto_max_retries intent inventory replies
  unfold resolve_semantic_mutation at h
  rw [heq] at h
  cases hreply : replies i with
  | error e =>
    rw [hreply] at h
    cases h
  | ok veto =>
    refine ⟨i, veto, hreply, ?_⟩
    rw [hreply] at h
    simp only [ai_oracle.resultOf] at h
    by_cases hveto : veto.is_approved = false
    · rw [if_pos hveto] at h
      obtain ⟨rfl, rfl⟩ := Prod.mk.inj (Except.ok.inj h)
      exact .inr ⟨rfl, _, .inl rfl, rfl⟩
    · rw [if_neg hveto] at h
      cases hvalid : validate_and_stabilize L lower intent veto inventory with
      | ok s' =>
        rw [hvalid] at h
        obtain ⟨rfl, rfl⟩ := Prod.mk.inj (Except.ok.inj h)
        exact .inl ⟨rfl, rfl⟩
      | error e =>
        rw [hvalid] at h
        obtain ⟨rfl, rfl⟩ := Prod.mk.inj (Except.ok.inj h)
        exact .inr ⟨rfl, _, .inr rfl, rfl⟩

theorem stabilized_justification {intent : ScrubbedIntent} {veto : VetoOutcome}
    {inventory : List GroceryItem} {s : StabilizedMutation}
    (h : validate_and_stabilize L lower intent veto inventory = .ok s) :
    s.moral_justification = veto.moral_justification := by
  unfold validate_and_stabilize at h
  split at h
  · cases h
  split at h
  · cases h
  split at h
  · rw [← Except.ok.inj h]
  split at h
  · cases h
  split at h
  · cases h
  split at h
  · cases h
  split at h
  · cases h
  · rw [← Except.ok.inj h]

theorem base_unit_injective {d d' : Dimension} (h : d.base_unit = d'.base_unit) : d = d' := by
  revert h
  cases d <;> cases d' <;> decide

/-- What is counted in no dimension was resolved in such a unit. -/
theorem stabilized_anomalous {intent : ScrubbedIntent} {veto : VetoOutcome}
    {inventory : List GroceryItem} {s : StabilizedMutation}
    (h : validate_and_stabilize L lower intent veto inventory = .ok s)
    (hop : intent.operation ≠ .Delete) (hmisc : s.base_unit = Dimension.Anomalous.base_unit) :
    s.display_unit = veto.resolved_unit ∧
      ∃ entry, resolve_symbol L lower veto.resolved_unit = .ok entry ∧
        entry.dimension = .Anomalous := by
  obtain ⟨-, -, hdelete | ⟨-, q_str, base, total, hb⟩⟩ := validate_and_stabilize_ok h
  · exact absurd hdelete hop
  obtain ⟨entry, _, hentry, hdim, -⟩ := verify_unit_stabilization_ok hb.converted
  have htotal : total.dimension = base.dimension := by
    rcases apply_arithmetic_accumulation_ok hb.accumulated with
      ⟨-, rfl⟩ | ⟨op, _, held, hop', -, -, hresult, -⟩
    · rfl
    · exact arithmetic_dimension hop' hresult
  refine ⟨hb.display, entry, hentry, ?_⟩
  rw [← hdim, ← htotal]
  exact base_unit_injective (hb.unit.symm.trans hmisc)

/-- What the guard leaves of an answer in the mutation. -/
structure Passed (lower : Lower) (max_justification_len : Nat) (intent : ScrubbedIntent)
    (status : ProposalStatus) (s : StabilizedMutation) : Prop where
  key : trimmed s.resolved_item_key ≠ ""
  justification : utf8.size s.moral_justification.toList ≤
    max (max_justification_len + 3) (utf8.size mismatchJustification.toList)
  split : status = .Committed → intent.operation ≠ .Delete →
    s.base_unit = Dimension.Anomalous.base_unit →
      '_' ∉ (normalize_symbol lower s.display_unit).toList ∧
        NamesUnit lower s.resolved_item_key s.display_unit

theorem policy_passed [DecidableEq U] {p : PolicyLink V U} {inventory : List GroceryItem}
    {intent : ScrubbedIntent} {status : ProposalStatus} {s : StabilizedMutation}
    (h : policyOracle L lower p inventory intent (status, s)) :
    Passed lower p.max_justification_len intent status s := by
  obtain ⟨raw, veto_max_retries, client_id, trace_id, attempts, -, h⟩ := h
  obtain ⟨i, veto, hreply, ⟨rfl, hvalid⟩ | ⟨rfl, text, htext, rfl⟩⟩ := resolved_from h
  · have hv := reply_vetted hreply
    obtain ⟨hkey, hslug, -⟩ := validate_and_stabilize_ok hvalid
    refine ⟨hkey ▸ hv.key, ?_, fun _ hop hmisc => ?_⟩
    · rw [stabilized_justification hvalid]
      exact le_max_of_le_left hv.justification
    · obtain ⟨hdisplay, entry, hentry, hdim⟩ := stabilized_anomalous hvalid hop hmisc
      have hword := anomalous_word hentry hdim
      obtain ⟨entry', hentry', hsplit⟩ := hv.split
      obtain rfl := Except.ok.inj (hentry.symm.trans hentry')
      have hends := hsplit hdim
      rw [slugOf_unit hword, ← hkey, slugOf_slug hslug] at hends
      rw [hdisplay]
      exact ⟨hword, hends⟩
  · have hv := reply_vetted hreply
    refine ⟨hv.key, ?_, fun hno => by cases hno⟩
    rcases htext with rfl | rfl
    · exact le_max_of_le_left hv.justification
    · exact le_max_right _ _

/-! ## The ledger -/

/-- What may be said of a request: its client, its id, its intent and what was typed. -/
abbrev Asked := String → Nat → ScrubbedIntent → String → Prop

/-- What may be said of an intent and of what the oracle has made of it. -/
abbrev Verdict := ScrubbedIntent → ProposalStatus → StabilizedMutation → Prop

/-- The entry was proposed for a request of the kind, with a result of which the verdict
holds. -/
def Ruled (R : Asked) (Q : Verdict) (m : CommittedMutation) : Prop :=
  ∃ client_id sequence_id intent status s raw_user_input now,
    R client_id sequence_id intent raw_user_input ∧ Q intent status s ∧
    m = proposedMutation client_id sequence_id intent s raw_user_input status now

/-- All requests are of the kind, and the verdict holds of all that the oracle has returned, in
the logs and on the way there. -/
structure Ruling (R : Asked) (Q : Verdict) (members : Finset NodeId) (g : Gateway) : Prop where
  safe : Safe members g.raft
  written : Written (fun _ e => Ruled R Q e.data) g.raft
  asked : ∀ r ∈ g.requests, R r.client_id r.sequence_id r.intent r.raw_user_input
  resolved : ∀ r ∈ g.requests, ∀ status s, r.stage = .Resolved status s → Q r.intent status s

section

variable {R R' : Asked} {Q : Verdict} {oracle : Oracle}

theorem Ruling.init : Ruling R Q members Gateway.init :=
  ⟨.init members, .init, by simp [Gateway.init], by simp [Gateway.init]⟩

theorem Ruling.imp (h : Ruling R Q members g)
    (himp : ∀ client_id sequence_id intent raw_user_input,
      R client_id sequence_id intent raw_user_input →
      R' client_id sequence_id intent raw_user_input) : Ruling R' Q members g := by
  refine ⟨h.safe, h.written.imp fun t k e _ he => ?_,
    fun r hr => himp _ _ _ _ (h.asked r hr), h.resolved⟩
  obtain ⟨client_id, sequence_id, intent, status, s, raw, now, hasked, hrest⟩ := he
  exact ⟨client_id, sequence_id, intent, status, s, raw, now, himp _ _ _ _ hasked, hrest⟩

theorem Ruling.log (h : Ruling R Q members g) (n : NodeId) :
    ∀ e ∈ g.raft.log n, Ruled R Q e.data := by
  intro e he
  obtain ⟨k, hk⟩ := List.mem_iff_getElem?.mp he
  exact h.written.traced (h.safe.matching.log_traced n) k e hk

/-- A request arrives. -/
theorem Ruling.ask (h : Ruling R Q members g) {r : Request} (hstage : r.stage = .Authorized)
    (hr : R r.client_id r.sequence_id r.intent r.raw_user_input) :
    Ruling R Q members { g with requests := r :: g.requests } := by
  refine ⟨h.safe, h.written, List.forall_mem_cons.mpr ⟨hr, h.asked⟩, fun r' hr' status s heq => ?_⟩
  rcases List.mem_cons.mp hr' with rfl | hold
  · rw [hstage] at heq
    cases heq
  · exact h.resolved r' hold status s heq

theorem Ruling.stage (h : Ruling R Q members g) {i : Nat} {r : Request} {stage : Stage}
    (hr : g.requests[i]? = some r)
    (hstage : ∀ status s, stage = .Resolved status s → Q r.intent status s) :
    Ruling R Q members (g.withStage i r stage) := by
  refine ⟨h.safe, h.written, fun r' hr' => ?_, fun r' hr' => ?_⟩
  · rcases List.mem_or_eq_of_mem_set hr' with hold | rfl
    · exact h.asked r' hold
    · exact h.asked r (List.mem_of_getElem? hr)
  · rcases List.mem_or_eq_of_mem_set hr' with hold | rfl
    · exact h.resolved r' hold
    · exact hstage

theorem Ruling.erase (h : Ruling R Q members g) (i : Nat) (answers : List Answer) :
    Ruling R Q members ⟨g.raft, g.requests.eraseIdx i, answers⟩ :=
  ⟨h.safe, h.written, fun r hr => h.asked r (List.mem_of_mem_eraseIdx hr),
    fun r hr => h.resolved r (List.mem_of_mem_eraseIdx hr)⟩

theorem Ruling.step {a : GatewayAct}
    (horacle : ∀ inventory intent status s, oracle inventory intent (status, s) →
      Q intent status s)
    (h : Ruling R Q members g) (hs : Moves members c oracle g a g')
    (hask : ∀ n r, a = .Arrive n → g'.requests.head? = some r →
      R r.client_id r.sequence_id r.intent r.raw_user_input) : Ruling R Q members g' := by
  cases hs with
  | replicate hs =>
    obtain ⟨hstep, hglog⟩ := hs
    exact ⟨h.safe.step hstep, h.written.keep h.safe.election h.safe.matching hstep hglog,
      h.asked, h.resolved⟩
  | arrive hrole hid => exact h.ask rfl (hask _ _ rfl rfl)
  | answer hr hstage hstore hwall => exact h.erase _ _
  | pass hr hstage hstore hwall => exact h.stage hr fun status s hno => by cases hno
  | lock hr hstage hfree hstore hread => exact h.stage hr fun status s hno => by cases hno
  | @resolve i r inventory status stabilized hr hstage hresult =>
    refine h.stage hr fun status' s' heq => ?_
    cases heq
    exact horacle inventory r.intent status stabilized hresult
  | @propose i r status stabilized now m hr hstage hrole hm =>
    have hmem := List.mem_of_getElem? hr
    have hruled : Ruled R Q m :=
      ⟨r.client_id, r.sequence_id, r.intent, status, stabilized, r.raw_user_input, now,
        h.asked r hmem, h.resolved r hmem status stabilized hstage, hm⟩
    have hwaiting : Ruling R Q members (g.withStage i r (.Waiting
        ((g.raft.log r.node).length + 1) status stabilized.moral_justification
        ⟨g.raft.term r.node, m⟩)) :=
      h.stage hr fun status s hno => by cases hno
    exact ⟨h.safe.step (.propose g.raft m hrole), h.written.write h.safe.matching hruled,
      hwaiting.asked, hwaiting.resolved⟩
  | acknowledge hr hstage hrole hle => exact h.erase _ _
  | drop => exact h.erase _ _

end

/-! ## The stores -/

/-- Every item was written by a mutation of the kind, under the key of the mutation. -/
def Stocks (P : CommittedMutation → Prop) (inventory : OrdMap String GroceryItem) : Prop :=
  ∀ key item, inventory.get? key = some item →
    ∃ m index, P m ∧ MutationStatus.try_from m.status = some .Committed ∧ m.is_delete = false ∧
      m.resolved_item_key = key ∧ item = item_from_mutation index m

section

variable {P : CommittedMutation → Prop}

theorem Stocks.apply {s : LactoStore} (h : Stocks P s.inventory) {m : CommittedMutation} (hm : P m)
    (index : Nat) : Stocks P (s.apply c index (c.encode m)).1.inventory := by
  rcases apply_inventory (c := c) s index (c.encode m) with hsame | ⟨m', status, hdecode, hst, heq⟩
  · rw [hsame]
    exact h
  rw [c.decode_encode m] at hdecode
  obtain rfl := Except.ok.inj hdecode
  rw [heq]
  unfold updateInventory
  by_cases hcommitted : status = .Committed
  · rw [if_pos hcommitted]
    rw [hcommitted] at hst
    intro key item hitem
    cases hdelete : m.is_delete with
    | true =>
      rw [hdelete, if_pos rfl, OrdMap.get?_erase] at hitem
      split at hitem
      · cases hitem
      · exact h key item hitem
    | false =>
      rw [hdelete, if_neg (by simp), OrdMap.get?_insert] at hitem
      split at hitem
      · rename_i hkey
        exact ⟨m, index, hm, hst, hdelete, hkey.symm, (Option.some.inj hitem).symm⟩
      · exact h key item hitem
  · rw [if_neg hcommitted]
    exact h

theorem Stocks.applyLog {s : LactoStore} (h : Stocks P s.inventory) {ms : List CommittedMutation}
    (hms : ∀ m ∈ ms, P m) (applied : Nat) :
    Stocks P (s.applyLog c applied (ms.map c.encode)).1.inventory := by
  induction ms generalizing s applied with
  | nil => exact h
  | cons m ms ih =>
    have hone := h.apply (c := c) (hms m List.mem_cons_self) (applied + 1)
    rw [List.map_cons, LactoStore.applyLog]
    generalize s.apply c (applied + 1) (c.encode m) = r at hone ⊢
    obtain ⟨s', e | u⟩ := r
    · exact hone
    · exact ih hone (fun m' hm' => hms m' (List.mem_cons_of_mem _ hm')) _

theorem Stocks.replay {ms : List CommittedMutation} (hms : ∀ m ∈ ms, P m) :
    Stocks P (replay c ms).1.inventory :=
  Stocks.applyLog (fun key item hitem => by cases hitem) hms 0

end

/-! ## The system -/

/-- What an item tells of the mutation that it is from. -/
theorem item_passed {max_justification_len : Nat} {inventory : OrdMap String GroceryItem}
    (h : Stocks (Ruled (fun _ _ _ _ => True) (Passed lower max_justification_len)) inventory)
    {key : String}
    {item : GroceryItem} (hitem : inventory.get? key = some item) :
    key ≠ "" ∧ (item.unit = Dimension.Anomalous.base_unit →
      '_' ∉ (normalize_symbol lower item.display_unit).toList ∧
        NamesUnit lower key item.display_unit) := by
  obtain ⟨m, index, ⟨client_id, sequence_id, intent, status, s, raw, now, -, hpassed, rfl⟩, hst,
    hdelete, hkey, rfl⟩ := h key item hitem
  obtain rfl : s.resolved_item_key = key := hkey
  refine ⟨fun hempty => ?_, fun hmisc => ?_⟩
  · apply hpassed.key
    rw [hempty]
    rfl
  · have hcommitted : status = .Committed := by
      cases status with
      | Committed => rfl
      | Vetoed => cases hst
    exact hpassed.split hcommitted (of_decide_eq_false hdelete) hmisc

/-- With the repository's own policy service as the oracle, whatever its model writes and
whatever clients ask, whoever leads: no key of the ledger is blank, no justification in it is
longer than configured, an item that is counted in a unit of no dimension has this unit at the
end of its key, and a key is never counted in two such units, in no two stores at no two
times. -/
theorem ledger_vetted [DecidableEq U] (p : PolicyLink V U)
    (hrun : GatewayRun members c (policyOracle L lower p) (fun _ _ => True) Gateway.init g) :
    (∀ n, ∀ e ∈ g.raft.log n, trimmed e.data.resolved_item_key ≠ "" ∧
      utf8.size e.data.moral_justification.toList ≤
        max (p.max_justification_len + 3) (utf8.size mismatchJustification.toList)) ∧
    (∀ n k store result, replay c (mutations ((g.raft.log n).take k)) = (store, result) →
      ∀ key item, store.inventory.get? key = some item →
        key ≠ "" ∧ (item.unit = Dimension.Anomalous.base_unit →
          NamesUnit lower key item.display_unit)) ∧
    ∀ n k store result n' k' store' result',
      replay c (mutations ((g.raft.log n).take k)) = (store, result) →
      replay c (mutations ((g.raft.log n').take k')) = (store', result') →
      ∀ key item item', store.inventory.get? key = some item →
        store'.inventory.get? key = some item' →
        item.unit = Dimension.Anomalous.base_unit →
        item'.unit = Dimension.Anomalous.base_unit →
        normalize_symbol lower item.display_unit = normalize_symbol lower item'.display_unit := by
  have h : Ruling (fun _ _ _ _ => True) (Passed lower p.max_justification_len) members g :=
    Trail.invariant (fun _ _ _ h _ hs => h.step (fun _ _ _ _ => policy_passed) hs
      fun _ _ _ _ => trivial) hrun .init
  have hstore : ∀ n k store result, replay c (mutations ((g.raft.log n).take k)) =
      (store, result) →
      Stocks (Ruled (fun _ _ _ _ => True) (Passed lower p.max_justification_len))
        store.inventory := by
    intro n k store result heq
    have hruled : ∀ m ∈ mutations ((g.raft.log n).take k),
        Ruled (fun _ _ _ _ => True) (Passed lower p.max_justification_len) m := by
      intro m hm
      obtain ⟨e, he, rfl⟩ := List.mem_map.mp hm
      exact h.log n e (List.mem_of_mem_take he)
    have hstocks := Stocks.replay (c := c) hruled
    rwa [heq] at hstocks
  refine ⟨fun n e he => ?_, fun n k store result heq key item hitem => ?_, ?_⟩
  · obtain ⟨client_id, sequence_id, intent, status, s, raw, now, -, hpassed, hdata⟩ :=
      h.log n e he
    rw [hdata]
    exact ⟨hpassed.key, hpassed.justification⟩
  · obtain ⟨hkey, hmisc⟩ := item_passed (hstore n k store result heq) hitem
    exact ⟨hkey, fun hunit => (hmisc hunit).2⟩
  · intro n k store result n' k' store' result' heq heq' key item item' hitem hitem' hunit hunit'
    obtain ⟨hword, hends⟩ := (item_passed (hstore n k store result heq) hitem).2 hunit
    obtain ⟨hword', hends'⟩ := (item_passed (hstore n' k' store' result' heq') hitem').2 hunit'
    exact String.toList_inj.mp (suffix_unique hword hword' hends hends')

def addSpinach : ScrubbedIntent := ⟨"spinach", .Add, some "1", some "bunch", none⟩

def moreSpinach : StabilizedMutation :=
  ⟨"spinach_bunch", "Spinach", "1", "misc", "bunch", .PrimaryFlora, "Iron and..."⟩

def spinachRequest : Request :=
  ⟨1, "6ba7b810-9dad-11d1-80b4-00c04fd430c8", 1, addSpinach, "Add 1 Bunch Spinach", .Authorized⟩

def spinachMutation : CommittedMutation :=
  proposedMutation spinachRequest.client_id 1 addSpinach moreSpinach "Add 1 Bunch Spinach"
    .Committed ⟨7, 0⟩

/-- Node 1 has been asked for spinach; the policy service has answered the second call. -/
def spinachProposed : Gateway :=
  ⟨proposeOn ledByOne 1 spinachMutation,
    [{ spinachRequest with
      stage := .Waiting 1 .Committed "Iron and..." ⟨1, spinachMutation⟩ }], []⟩

theorem spinach_resolved :
    policyOracle fixedPoint unchanged spinachLink [] addSpinach (.Committed, moreSpinach) :=
  ⟨rawSpinach, 2, spinachRequest.client_id, true, spinachAttempts, by decide +kernel,
    by decide +kernel⟩

theorem spinachProposed_run :
    GatewayRun {1, 2, 3} plain (policyOracle fixedPoint unchanged spinachLink) (fun _ _ => True)
      Gateway.init spinachProposed := by
  have hled : GatewayRun {1, 2, 3} plain (policyOracle fixedPoint unchanged spinachLink)
      (fun _ _ => True) Gateway.init ⟨ledByOne, [], []⟩ := ledByOne_run fun _ _ => trivial
  have hpassed := passed_run spinachRequest hled (fun _ _ _ => trivial) rfl rfl serving_new rfl
  exact proposed_run spinachRequest .Committed moreSpinach ⟨7, 0⟩ hpassed (fun _ _ _ => trivial)
    rfl (by simp) serving_new rfl spinach_resolved rfl

theorem ledger_vetted_spinach :
    (∀ n, ∀ e ∈ spinachProposed.raft.log n, trimmed e.data.resolved_item_key ≠ "" ∧
      utf8.size e.data.moral_justification.toList ≤
        max (spinachLink.max_justification_len + 3) (utf8.size mismatchJustification.toList)) ∧
    (∀ n k store result, replay plain (mutations ((spinachProposed.raft.log n).take k)) =
        (store, result) →
      ∀ key item, store.inventory.get? key = some item →
        key ≠ "" ∧ (item.unit = Dimension.Anomalous.base_unit →
          NamesUnit unchanged key item.display_unit)) ∧
    ∀ n k store result n' k' store' result',
      replay plain (mutations ((spinachProposed.raft.log n).take k)) = (store, result) →
      replay plain (mutations ((spinachProposed.raft.log n').take k')) = (store', result') →
      ∀ key item item', store.inventory.get? key = some item →
        store'.inventory.get? key = some item' →
        item.unit = Dimension.Anomalous.base_unit →
        item'.unit = Dimension.Anomalous.base_unit →
        normalize_symbol unchanged item.display_unit =
          normalize_symbol unchanged item'.display_unit :=
  ledger_vetted spinachLink spinachProposed_run

end gateway.ingress
