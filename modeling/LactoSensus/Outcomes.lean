-- One outcome for each request of a client: as long as what is acknowledged is
-- still in the log, and is the first entry of its request there, every answer
-- names the one entry that the store keeps as the outcome.
import LactoSensus.Sequencing

open common.types
open common.proto
open common.taxonomy
open lacto_fsm
open machine
open Function (update)
open raft (Each Written Settled Grows Safe)

namespace gateway.ingress

variable {α : Type} {c : Codec α} {members : Finset NodeId} {oracle : Oracle} {g g' : Gateway}
  {s s' : raft.State NodeId CommittedMutation}

/-! ## What an answer refers to -/

/-- A status that a client takes as the outcome of its request. -/
def Terminal (status : Int) : Prop :=
  status = MutationStatus.Committed.toInt ∨ status = MutationStatus.Vetoed.toInt

/-- The entry repeats the key of no earlier one. -/
def New (before : List (raft.Entry CommittedMutation)) (e : raft.Entry CommittedMutation) : Prop :=
  keyOf e.data ∉ (mutations before).map keyOf

/-- The answer names the first settled entry of its client and sequence, and its status. -/
def Recorded (members : Finset NodeId) (s : raft.State NodeId CommittedMutation) (a : Answer) :
    Prop :=
  ∃ t p e, Settled members s t (p ++ [e]) ∧ New p e ∧ a.response.state_version = p.length + 1 ∧
    keyOf e.data = (a.client_id, a.sequence_id) ∧ e.data.status = a.response.status

theorem Recorded.grow {a : Answer} (h : Recorded members s a) (hgrow : Grows s s') :
    Recorded members s' a := by
  obtain ⟨t, p, e, hp, hrest⟩ := h
  exact ⟨t, p, e, hp.grow hgrow, hrest⟩

theorem firewall_answers {store : LactoStore} {client_id : String} {sequence_id : Nat}
    {response : ProposeMutationResponse}
    (hwall : enforce_sequence_firewall store client_id sequence_id = .ok (some response)) :
    response.status = MutationStatus.Rejected.toInt ∨
    ∃ record, store.sessions.get? client_id = some record ∧
      record.last_sequence_id = sequence_id ∧ response.status = record.status ∧
      response.state_version = record.log_index := by
  unfold enforce_sequence_firewall at hwall
  split at hwall
  · obtain rfl := Option.some.inj (Except.ok.inj hwall)
    exact .inl rfl
  split at hwall
  · cases hwall
  · rename_i record hcheck
    have hrecord := check_session_zero hcheck
    split at hwall
    · rename_i heq
      obtain rfl := Option.some.inj (Except.ok.inj hwall)
      exact .inr ⟨record, hrecord, heq.symm, rfl, rfl⟩
    · repeat' split at hwall
      all_goals
        cases hwall <;> exact .inl rfl
  · split at hwall
    · obtain rfl := Option.some.inj (Except.ok.inj hwall)
      exact .inl rfl
    · cases hwall

/-- The record that a node has of a client is that of an applied entry, the first of its key. -/
theorem Serving.record {n : NodeId} {k : Nat} {store : LactoStore} {client_id : String}
    {record : SessionRecord} (hseq : Sequenced members c g) (hstore : Serving c g.raft n k store)
    (hrecord : store.sessions.get? client_id = some record) :
    ∃ p e, p ++ [e] <+: (g.raft.log n).take k ∧ New p e ∧ record.log_index = p.length + 1 ∧
      keyOf e.data = (client_id, record.last_sequence_id) ∧ e.data.status = record.status := by
  have hfits : Each (Fits c) ((g.raft.log n).take k) :=
    (hseq.written.traced (hseq.safe.matching.log_traced n)).shorter (List.take_prefix _ _)
  obtain ⟨htidy, -⟩ := Each.tidy hfits hstore.applied
  rw [htidy.reference.sessions client_id] at hrecord
  obtain ⟨⟨i, m⟩, hlatest, rfl⟩ := Option.map_eq_some_iff.mp hrecord
  obtain ⟨hfirst, hclient⟩ := latest_mem hlatest
  obtain ⟨hpos, hat⟩ := first_at hfirst
  have hunseen := first_unseen hfirst
  unfold mutations at hat hunseen
  rw [List.getElem?_map] at hat
  obtain ⟨e, he, rfl⟩ := Option.map_eq_some_iff.mp hat
  have hlt := (List.getElem?_eq_some_iff.mp he).1
  dsimp only at hpos he hclient hlt hunseen
  rw [← List.map_take] at hunseen
  refine ⟨((g.raft.log n).take k).take (i - 1), e, ?_, hunseen, ?_, ?_, rfl⟩
  · have hsplit : ((g.raft.log n).take k).take (i - 1) ++ [e] =
        ((g.raft.log n).take k).take (i - 1 + 1) := by
      rw [List.take_add_one, he]
      rfl
    rw [hsplit]
    exact List.take_prefix _ _
  · rw [List.length_take_of_le hlt.le]
    change i = i - 1 + 1
    omega
  · exact Prod.ext hclient rfl

/-! ## What the gateway keeps -/

/-- The entry that a handler waits for is the one it has proposed. -/
def Stage.proposes (r : Request) : Stage → Prop
  | .Waiting proposal_index status _ entry => 1 ≤ proposal_index ∧
      keyOf entry.data = (r.client_id, r.sequence_id) ∧ entry.data.status = status.to_proto.toInt
  | _ => True

structure Settling (members : Finset NodeId) (c : Codec α) (g : Gateway) : Prop where
  sequenced : Sequenced members c g
  proposed : ∀ r ∈ g.requests, r.stage.proposes r
  recorded : ∀ a ∈ g.answers, Terminal a.response.status → Recorded members g.raft a

/-- What is acknowledged is still in the log, and nothing before it has its key. -/
def Unrepeated (g : Gateway) : GatewayAct → Prop
  | .Acknowledge i => ∀ r proposal_index status moral_justification entry,
      g.requests[i]? = some r →
      r.stage = .Waiting proposal_index status moral_justification entry →
      (g.raft.log r.node)[proposal_index - 1]? = some entry ∧
        New ((g.raft.log r.node).take (proposal_index - 1)) entry
  | _ => True

theorem Settling.init : Settling members c Gateway.init :=
  ⟨.init, by simp [Gateway.init], by simp [Gateway.init]⟩

/-- What the stages and answers refer to stays, when the protocol goes on. -/
theorem Settling.recorded_grow (h : Settling members c g) (hgrow : Grows g.raft s) :
    ∀ a ∈ g.answers, Terminal a.response.status → Recorded members s a :=
  fun a ha hstatus => (h.recorded a ha hstatus).grow hgrow

theorem Settling.stage (h : Settling members c g) {i : Nat} {r : Request} {stage : Stage}
    (hseq : Sequenced members c (g.withStage i r stage)) (hnew : stage.proposes r) :
    Settling members c (g.withStage i r stage) := by
  refine ⟨hseq, fun r' hr' => ?_, h.recorded⟩
  rcases List.mem_or_eq_of_mem_set hr' with hold | rfl
  · exact h.proposed r' hold
  · unfold Stage.proposes at hnew ⊢
    exact hnew

/-- A handler that ends with an answer which names a settled entry, or is no outcome. -/
theorem Settling.finish (h : Settling members c g) {i : Nat} {r : Request}
    {response : ProposeMutationResponse} (hseq : Sequenced members c (g.finish i r response))
    (hnew : Terminal response.status →
      Recorded members g.raft ⟨r.client_id, r.sequence_id, response⟩) :
    Settling members c (g.finish i r response) := by
  refine ⟨hseq, fun r' hr' => h.proposed r' (List.mem_of_mem_eraseIdx hr'), ?_⟩
  intro a ha
  rcases List.mem_cons.mp ha with rfl | hold
  · exact hnew
  · exact h.recorded a hold

theorem Settling.step {a : GatewayAct} (hcanonical : ∀ raw id, c.parse_uuid raw = .ok id →
    c.parse_uuid id = .ok id) (h : Settling members c g) (hok : Unrepeated g a)
    (hs : Moves members c oracle g a g') : Settling members c g' := by
  have hseq := h.sequenced.step hcanonical hs
  have hsafe := h.sequenced.safe
  cases hs with
  | replicate hs =>
    exact ⟨hseq, h.proposed, h.recorded_grow (hs.1.grows hsafe.election hsafe.matching)⟩
  | arrive hrole hid =>
    refine ⟨hseq, fun r hr => ?_, h.recorded⟩
    rcases List.mem_cons.mp hr with rfl | hold
    · trivial
    · exact h.proposed r hold
  | @answer i k r store response hr hstage hstore hwall =>
    refine h.finish hseq fun hstatus => ?_
    rcases firewall_answers hwall with hrejected | ⟨record, hrecord, hlast, hst, hversion⟩
    · rw [hrejected] at hstatus
      rcases hstatus with hno | hno <;> cases hno
    · obtain ⟨p, e, hpre, hnew, hindex, hkey, hdata⟩ := hstore.record h.sequenced hrecord
      refine ⟨_, p, e, (hstore.settled hsafe).shorter hpre, hnew, hversion.trans hindex, ?_,
        hdata.trans hst.symm⟩
      rw [hkey, hlast]
  | pass hr hstage hstore hwall => exact h.stage hseq trivial
  | lock hr hstage hfree hstore hread => exact h.stage hseq trivial
  | resolve hr hstage horacle => exact h.stage hseq trivial
  | @propose i r status stabilized now m hr hstage hrole hm =>
    have hstep : raft.Step members r.node g.raft (proposeOn g.raft r.node m) :=
      .propose g.raft m hrole
    have hkey : keyOf m = (r.client_id, r.sequence_id) := by
      subst hm
      rfl
    refine ⟨hseq, fun r' hr' => ?_, h.recorded_grow (hstep.grows hsafe.election hsafe.matching)⟩
    rcases List.mem_or_eq_of_mem_set hr' with hold | rfl
    · exact h.proposed r' hold
    · refine ⟨Nat.succ_pos _, hkey, ?_⟩
      subst hm
      rfl
  | @acknowledge i index r status text entry hr hstage hrole hle =>
    refine h.finish hseq fun _ => ?_
    have hproposes := h.proposed r (List.mem_of_getElem? hr)
    rw [hstage] at hproposes
    obtain ⟨hpos, hkey, hstatus⟩ := hproposes
    obtain ⟨hentry, hnew⟩ := hok r index status text entry hr hstage
    have hlt := (List.getElem?_eq_some_iff.mp hentry).1
    have hsplit : (g.raft.log r.node).take (index - 1) ++ [entry] =
        (g.raft.log r.node).take index := by
      have htake := List.take_add_one (l := g.raft.log r.node) (i := index - 1)
      rw [hentry, Nat.sub_add_cancel hpos] at htake
      exact htake.symm
    refine ⟨g.raft.term r.node, (g.raft.log r.node).take (index - 1), entry, ?_, hnew, ?_,
      hkey, hstatus⟩
    · rw [hsplit]
      exact (hsafe.complete.settled r.node).shorter (List.take_prefix_take_left hle)
    · rw [List.length_take_of_le hlt.le]
      exact (Nat.sub_add_cancel hpos).symm
  | drop =>
    exact ⟨hseq, fun r' hr' => h.proposed r' (List.mem_of_mem_eraseIdx hr'), h.recorded⟩

/-! ## One outcome -/

/-- Two settled lists that end with the first entry of a key are the same list. -/
theorem Sequenced.unique (h : Sequenced members c g) {t₁ t₂ : Nat}
    {p₁ p₂ : List (raft.Entry CommittedMutation)} {e₁ e₂ : raft.Entry CommittedMutation}
    (h₁ : Settled members g.raft t₁ (p₁ ++ [e₁])) (h₂ : Settled members g.raft t₂ (p₂ ++ [e₂]))
    (hnew₁ : New p₁ e₁) (hnew₂ : New p₂ e₂) (hkey : keyOf e₁.data = keyOf e₂.data) :
    p₁ = p₂ ∧ e₁ = e₂ := by
  -- the shorter list would stand before the end of the longer one
  have hlonger : ∀ {p q : List (raft.Entry CommittedMutation)}
      {e e' : raft.Entry CommittedMutation}, New q e' → p ++ [e] <+: q ++ [e'] →
      keyOf e.data = keyOf e'.data → p ++ [e] = q ++ [e'] := by
    intro p q e e' hnew hpre hkey
    refine hpre.eq_of_length_le ?_
    by_contra hlt
    have hle : (p ++ [e]).length ≤ q.length := by
      simp only [List.length_append, List.length_singleton] at hlt ⊢
      omega
    have hbefore : p ++ [e] <+: q :=
      List.prefix_of_prefix_length_le hpre (List.prefix_append _ _) hle
    refine hnew ?_
    rw [← hkey]
    exact List.mem_map_of_mem (List.mem_map_of_mem (hbefore.subset (by simp)))
  have heq : p₁ ++ [e₁] = p₂ ++ [e₂] := by
    rcases h.safe.complete.settled_agree h.safe.matching h₁ h₂ with hpre | hpre
    · exact hlonger hnew₂ hpre hkey
    · exact (hlonger hnew₁ hpre hkey.symm).symm
  obtain ⟨hp, he⟩ := List.append_inj' heq rfl
  exact ⟨hp, List.singleton_inj.mp he⟩

/-- A node that has applied the first entry of a key has it as the record of the client. -/
theorem Serving.recorded {n : NodeId} {k t : Nat} {store : LactoStore}
    {p : List (raft.Entry CommittedMutation)} {e : raft.Entry CommittedMutation}
    (hseq : Sequenced members c g) (hstore : Serving c g.raft n k store)
    (hp : Settled members g.raft t (p ++ [e])) (hnew : New p e) (hk : k = p.length + 1) :
    ∃ record, store.sessions.get? e.data.client_id = some record ∧
      record.last_sequence_id = e.data.sequence_id := by
  have hsettled := hstore.settled hseq.safe
  have hlen : ((g.raft.log n).take k).length = (p ++ [e]).length := by
    rw [List.length_take_of_le (hstore.committed.trans (hseq.safe.complete.commit_le n)), hk]
    simp
  have htake : (g.raft.log n).take k = p ++ [e] := by
    rcases hseq.safe.complete.settled_agree hseq.safe.matching hsettled hp with hpre | hpre
    · exact hpre.eq_of_length hlen
    · exact (hpre.eq_of_length hlen.symm).symm
  have hfits : Each (Fits c) (p ++ [e]) := hseq.written.settled hp
  have hmutations : mutations (p ++ [e]) = mutations p ++ [e.data] := List.map_append
  have happlied := hstore.applied
  rw [htake] at happlied
  obtain ⟨htidy, -⟩ := Each.tidy hfits happlied
  rw [hmutations] at htidy happlied
  -- an entry with a new key comes after all that was seen of its client
  have hhigh : highest (mutations p) e.data.client_id < e.data.sequence_id := by
    obtain ⟨before, hbefore⟩ := replay_init happlied
    obtain ⟨hearlier, -⟩ := Each.tidy (hfits.shorter (List.prefix_append p [e])) hbefore
    obtain ⟨hwell, -, -⟩ := hfits p.length e List.getElem?_concat_length
    exact not_le.mp (mt (hearlier.duplicate_iff hwell.sequence_pos).mpr hnew)
  refine ⟨sessionOf (p.length + 1, e.data), ?_, rfl⟩
  rw [htidy.reference.sessions, latest_new hnew hhigh]
  simp [mutations]

/-- Whatever the oracle says to each attempt, all final answers for one request of a client
agree, and are what every node records for it. -/
theorem one_outcome (hcanonical : ∀ raw id, c.parse_uuid raw = .ok id →
      c.parse_uuid id = .ok id)
    (hrun : GatewayRun members c oracle Unrepeated Gateway.init g) :
    (∀ a ∈ g.answers, ∀ b ∈ g.answers, Terminal a.response.status → Terminal b.response.status →
      a.client_id = b.client_id → a.sequence_id = b.sequence_id →
      a.response.status = b.response.status ∧
        a.response.state_version = b.response.state_version) ∧
    ∀ a ∈ g.answers, Terminal a.response.status →
      ∀ n k store, Serving c g.raft n k store →
        (∀ record, store.get_session_record a.client_id = some record →
          record.last_sequence_id = a.sequence_id →
          record.status = a.response.status ∧ record.log_index = a.response.state_version) ∧
        (k = a.response.state_version → ∃ record,
          store.get_session_record a.client_id = some record ∧
            record.last_sequence_id = a.sequence_id) := by
  have h : Settling members c g :=
    Trail.invariant (fun _ _ _ h hok hs => h.step hcanonical hok hs) hrun .init
  have hseq := h.sequenced
  refine ⟨fun a ha b hb hfinal hfinal' hclient hsequence => ?_,
    fun a ha hfinal n k store hstore => ⟨fun record hrecord hlast => ?_, fun hk => ?_⟩⟩
  · obtain ⟨t₁, p₁, e₁, hp₁, hnew₁, hversion₁, hkey₁, hstatus₁⟩ := h.recorded a ha hfinal
    obtain ⟨t₂, p₂, e₂, hp₂, hnew₂, hversion₂, hkey₂, hstatus₂⟩ := h.recorded b hb hfinal'
    have hkey : keyOf e₁.data = keyOf e₂.data := by rw [hkey₁, hkey₂, hclient, hsequence]
    obtain ⟨rfl, rfl⟩ := hseq.unique hp₁ hp₂ hnew₁ hnew₂ hkey
    exact ⟨hstatus₁.symm.trans hstatus₂, hversion₁.trans hversion₂.symm⟩
  · obtain ⟨t₁, p₁, e₁, hp₁, hnew₁, hversion₁, hkey₁, hstatus₁⟩ := h.recorded a ha hfinal
    obtain ⟨p₂, e₂, hpre, hnew₂, hindex, hkey₂, hstatus₂⟩ := hstore.record hseq hrecord
    have hkey : keyOf e₁.data = keyOf e₂.data := by rw [hkey₁, hkey₂, hlast]
    obtain ⟨rfl, rfl⟩ :=
      hseq.unique hp₁ ((hstore.settled hseq.safe).shorter hpre) hnew₁ hnew₂ hkey
    exact ⟨hstatus₂.symm.trans hstatus₁, hindex.trans hversion₁.symm⟩
  · obtain ⟨t, p, e, hp, hnew, hversion, hkey, -⟩ := h.recorded a ha hfinal
    obtain ⟨record, hrecord, hlast⟩ := hstore.recorded hseq hp hnew (hk.trans hversion)
    obtain ⟨hclient, hsequence⟩ := Prod.mk.inj hkey
    rw [hclient] at hrecord
    exact ⟨record, hrecord, hlast.trans hsequence⟩

/-- The first attempt is committed and answered; the second waits for the lock. -/
theorem answeredOnce_run {P : Gateway → GatewayAct → Prop}
    (hP : ∀ g a, (∀ i, a ≠ .Acknowledge i) → P g a)
    (hok : P ⟨agreed (proposeOn ledByOne 1 (milkMutation .Committed)),
      [milkWaiting 1 .Committed, { milkRequest with stage := .Passed }], []⟩ (.Acknowledge 0)) :
    GatewayRun {1, 2, 3} plain (fun _ _ _ => True) P Gateway.init
      ⟨agreed (proposeOn ledByOne 1 (milkMutation .Committed)),
        [{ milkRequest with stage := .Passed }],
        [⟨milkRequest.client_id, 1, build_mutation_response 1 .Committed "Approved"⟩]⟩ := by
  have hleading := ledByOne_leading.propose (milkMutation .Committed)
  have hagreed := hleading.agreed_run (by simp [proposeOn]) (askedTwice_run hP)
    fun g n => hP g (.Replicate n) fun _ => nofun
  exact acknowledged_run milkRequest hagreed hok rfl (by decide)

/-- A client that repeats its request after the commit gets the same answer from the session. -/
theorem one_outcome_repeated :
    ∃ g a b, GatewayRun {1, 2, 3} plain (fun _ _ _ => True) Unrepeated Gateway.init g ∧
      g.answers = [b, a] ∧ a.response.status = MutationStatus.Committed.toInt ∧
      a.response.status = b.response.status ∧
      a.response.state_version = b.response.state_version := by
  have hok : Unrepeated ⟨agreed (proposeOn ledByOne 1 (milkMutation .Committed)),
      [milkWaiting 1 .Committed, { milkRequest with stage := .Passed }], []⟩ (.Acknowledge 0) := by
    intro r index status text entry hr hstage
    obtain rfl := Option.some.inj hr
    cases hstage
    exact ⟨rfl, by simp [New, mutations]⟩
  have hP : ∀ g a, (∀ i, a ≠ .Acknowledge i) → Unrepeated g a := by
    intro g a ha
    cases a <;> first | trivial | exact absurd rfl (ha _)
  have hrun := answeredOnce_run hP hok
  have hstore : Serving plain (agreed (proposeOn ledByOne 1 (milkMutation .Committed))) 1 1
      (replay plain [milkMutation .Committed]).1 := ⟨by decide, rfl⟩
  have hasked : GatewayRun {1, 2, 3} plain (fun _ _ _ => True) Unrepeated Gateway.init
      ⟨agreed (proposeOn ledByOne 1 (milkMutation .Committed)),
        [milkRequest, { milkRequest with stage := .Passed }],
        [⟨milkRequest.client_id, 1, build_mutation_response 1 .Committed "Approved"⟩]⟩ :=
    .tail hrun (hP _ (.Arrive 1) fun _ => nofun) (.arrive rfl rfl)
  have hanswered := Trail.tail hasked (hP _ (.Firewall 0) fun _ => nofun)
    (.answer rfl rfl hstore rfl)
  obtain ⟨hstatus, hversion⟩ := (one_outcome (fun _ _ _ => rfl) hanswered).1
    _ (List.mem_cons_of_mem _ (List.mem_cons_self ..)) _ (List.mem_cons_self ..)
    (.inl rfl) (.inl rfl) rfl rfl
  exact ⟨_, _, _, hanswered, rfl, rfl, hstatus, hversion⟩

/-- The second attempt is proposed before the first one is applied, and vetoed after it
was committed. -/
theorem two_outcomes :
    ∃ g a b, GatewayRun {1, 2, 3} plain (fun _ _ _ => True) (fun _ _ => True) Gateway.init g ∧
      a ∈ g.answers ∧ b ∈ g.answers ∧ a.client_id = b.client_id ∧
      a.sequence_id = b.sequence_id ∧ a.response.status = MutationStatus.Committed.toInt ∧
      b.response.status = MutationStatus.Vetoed.toInt ∧
      a.response.state_version ≠ b.response.state_version := by
  have hP : ∀ (g : Gateway) (a : GatewayAct), (∀ i, a ≠ .Acknowledge i) → True :=
    fun _ _ _ => trivial
  have honce := answeredOnce_run (P := fun _ _ => True) hP trivial
  have hleading := (ledByOne_leading.propose (milkMutation .Committed)).agreed
  have hproposed := proposed_run milkRequest .Vetoed moreMilk ⟨7, 0⟩ honce hP rfl (by simp)
    serving_new rfl trivial rfl
  have hagreed := (hleading.propose (milkMutation .Vetoed)).agreed_run (by simp [proposeOn])
    hproposed fun _ _ => trivial
  have htwice := acknowledged_run milkRequest hagreed trivial rfl (by decide)
  refine ⟨_, _, _, htwice, List.mem_cons_of_mem _ (List.mem_cons_self ..),
    List.mem_cons_self .., rfl, rfl, rfl, rfl, by decide⟩

end gateway.ingress
