-- The resolution loop: the oracle is asked until it vetoes or approves what the
-- stabilizer accepts. Errors and approvals that fail validation use up the same
-- retries; what the last of them is decides the answer.
import LactoSensus.Stabilizer

open common.proto
open common.taxonomy
open common.units
open decimal

namespace gateway.ingress.ai_oracle

open gateway.veto
open gateway.ingress (Operation ProposalStatus ScrubbedIntent StabilizedMutation)
open gateway.ingress.stabilizer

variable {D : Type} {L : DecimalLib D} {lower : Lower}

/-! ## One consultation -/

inductive VetoError where
  | Timeout (timeout : Nat)
  | RpcFailure (msg : String)
  | CausalIntegrityViolation
deriving DecidableEq, Repr

/-- What the relay has returned for one request. -/
abbrev Reply := Except VetoError VetoOutcome

def VetoError.status : VetoError → tonic.Status
  | .CausalIntegrityViolation => ⟨.FailedPrecondition, "Causal Integrity Violation"⟩
  | .Timeout _ => ⟨.DeadlineExceeded, "AI evaluation timed out. Please retry shortly."⟩
  | .RpcFailure _ => ⟨.Internal, "Internal policy engine failure"⟩

def evaluate_policy : Reply → Except tonic.Status VetoOutcome
  | .ok v => .ok v
  | .error e => .error e.status

/-- The record of a mutation that changes nothing. -/
def vetoedMutation (veto : VetoOutcome) (moral_justification : String) : StabilizedMutation :=
  ⟨veto.resolved_item_key, veto.suggested_display_name, "0", "units", "units", .AnomalousInputs,
    moral_justification⟩

def mismatchJustification : String :=
  "A physical unit mismatch was detected between this request and the existing inventory " ++
    "record for this item. Please ensure the units are compatible with previous entries."

/-! ## The loop -/

/-- The two variables that the iterations share. -/
structure Resolving where
  stabilized_mutation : Option StabilizedMutation
  final_status : MutationStatus
deriving DecidableEq, Repr

/-- How an iteration ends. -/
inductive Flow where
  | Continue (vars : Resolving)
  | Break (vars : Resolving)
  | Return (e : tonic.Status)

def resolveAttempt (L : DecimalLib D) (lower : Lower) (veto_max_retries : Nat)
    (intent : ScrubbedIntent) (current_inventory : List GroceryItem) (attempt : Nat)
    (vars : Resolving) (reply : Reply) : Flow :=
  match evaluate_policy reply with
  | .error e => if attempt < veto_max_retries then .Continue vars else .Return e
  | .ok veto =>
    if veto.is_approved = false then
      .Break ⟨some (vetoedMutation veto veto.moral_justification), .Vetoed⟩
    else
      match validate_and_stabilize L lower intent veto current_inventory with
      | .ok s => .Break { vars with stabilized_mutation := some s }
      | .error _ =>
        if attempt < veto_max_retries then .Continue vars
        else .Break ⟨some (vetoedMutation veto mismatchJustification), .Vetoed⟩

def Resolving.finish (vars : Resolving) :
    Except tonic.Status (MutationStatus × StabilizedMutation) :=
  match vars.stabilized_mutation with
  | some stabilized => .ok (vars.final_status, stabilized)
  | none => .error ⟨.Internal, "Retry loop failed to produce an outcome record"⟩

/-- The iterations that are left, from an attempt on, with the number of consultations. -/
def resolveFrom (L : DecimalLib D) (lower : Lower) (veto_max_retries : Nat)
    (intent : ScrubbedIntent) (current_inventory : List GroceryItem) (replies : Nat → Reply) :
    Nat → Nat → Resolving → Nat × Except tonic.Status (MutationStatus × StabilizedMutation)
  | 0, _, vars => (0, vars.finish)
  | left + 1, attempt, vars =>
    match resolveAttempt L lower veto_max_retries intent current_inventory attempt vars
        (replies attempt) with
    | .Continue vars =>
      let (consulted, result) := resolveFrom L lower veto_max_retries intent current_inventory
        replies left (attempt + 1) vars
      (consulted + 1, result)
    | .Break vars => (1, vars.finish)
    | .Return e => (1, .error e)

/-- The oracle answers the requests in turn; how often it has been asked stands beside the
result. -/
def resolve_semantic_mutation (L : DecimalLib D) (lower : Lower) (veto_max_retries : Nat)
    (intent : ScrubbedIntent) (current_inventory : List GroceryItem) (replies : Nat → Reply) :
    Nat × Except tonic.Status (MutationStatus × StabilizedMutation) :=
  resolveFrom L lower veto_max_retries intent current_inventory replies (veto_max_retries + 1) 0
    ⟨none, .Committed⟩

/-! ## The decisive reply -/

/-- A veto, or an approval that the stabilizer accepts. -/
def Decisive (L : DecimalLib D) (lower : Lower) (intent : ScrubbedIntent)
    (inventory : List GroceryItem) (reply : Reply) : Prop :=
  ∃ veto, reply = .ok veto ∧
    (veto.is_approved = false ∨ ∃ s, validate_and_stabilize L lower intent veto inventory = .ok s)

/-- What the loop returns when it ends with the reply. -/
def resultOf (L : DecimalLib D) (lower : Lower) (intent : ScrubbedIntent)
    (inventory : List GroceryItem) :
    Reply → Except tonic.Status (MutationStatus × StabilizedMutation)
  | .error e => .error e.status
  | .ok veto =>
    if veto.is_approved = false then
      .ok (.Vetoed, vetoedMutation veto veto.moral_justification)
    else
      match validate_and_stabilize L lower intent veto inventory with
      | .ok s => .ok (.Committed, s)
      | .error _ => .ok (.Vetoed, vetoedMutation veto mismatchJustification)

section

variable {veto_max_retries : Nat} {intent : ScrubbedIntent} {inventory : List GroceryItem}
  {replies : Nat → Reply}

variable (L lower veto_max_retries intent inventory) in
/-- An iteration goes on, with the variables as they were, when its reply is not decisive and
there is a retry left; else the loop ends with the reply. -/
theorem resolveAttempt_cases (attempt : Nat) (reply : Reply) :
    ¬Decisive L lower intent inventory reply ∧ attempt < veto_max_retries ∧
        resolveAttempt L lower veto_max_retries intent inventory attempt ⟨none, .Committed⟩ reply =
          .Continue ⟨none, .Committed⟩ ∨
      (Decisive L lower intent inventory reply ∨ ¬attempt < veto_max_retries) ∧
        ((∃ vars, resolveAttempt L lower veto_max_retries intent inventory attempt
            ⟨none, .Committed⟩ reply = .Break vars ∧
          vars.finish = resultOf L lower intent inventory reply) ∨
        ∃ e, resolveAttempt L lower veto_max_retries intent inventory attempt
            ⟨none, .Committed⟩ reply = .Return e ∧
          resultOf L lower intent inventory reply = .error e) := by
  unfold resolveAttempt
  cases reply with
  | error e =>
    have hnot : ¬Decisive L lower intent inventory (.error e) := fun ⟨_, heq, _⟩ => by cases heq
    by_cases hleft : attempt < veto_max_retries
    · exact .inl ⟨hnot, hleft, by simp [evaluate_policy, hleft]⟩
    · exact .inr ⟨.inr hleft, .inr ⟨e.status, by simp [evaluate_policy, hleft], rfl⟩⟩
  | ok veto =>
    simp only [evaluate_policy, resultOf]
    by_cases hveto : veto.is_approved = false
    · refine .inr ⟨.inl ⟨veto, rfl, .inl hveto⟩, .inl ⟨_, if_pos hveto, ?_⟩⟩
      rw [if_pos hveto]
      rfl
    · rw [if_neg hveto, if_neg hveto]
      cases hvalid : validate_and_stabilize L lower intent veto inventory with
      | ok s => exact .inr ⟨.inl ⟨veto, rfl, .inr ⟨s, hvalid⟩⟩, .inl ⟨_, rfl, rfl⟩⟩
      | error e =>
        have hnot : ¬Decisive L lower intent inventory (.ok veto) := by
          rintro ⟨_, heq, hno | ⟨s, hs⟩⟩
          · exact hveto (Except.ok.inj heq ▸ hno)
          · rw [← Except.ok.inj heq, hvalid] at hs
            cases hs
        by_cases hleft : attempt < veto_max_retries
        · exact .inl ⟨hnot, hleft, if_pos hleft⟩
        · exact .inr ⟨.inr hleft, .inl ⟨_, if_neg hleft, rfl⟩⟩

variable (L lower veto_max_retries intent inventory replies) in
theorem resolveFrom_step (left attempt : Nat) :
    ¬Decisive L lower intent inventory (replies attempt) ∧ attempt < veto_max_retries ∧
        resolveFrom L lower veto_max_retries intent inventory replies (left + 1) attempt
            ⟨none, .Committed⟩ =
          ((resolveFrom L lower veto_max_retries intent inventory replies left (attempt + 1)
              ⟨none, .Committed⟩).1 + 1,
            (resolveFrom L lower veto_max_retries intent inventory replies left (attempt + 1)
              ⟨none, .Committed⟩).2) ∨
      (Decisive L lower intent inventory (replies attempt) ∨ ¬attempt < veto_max_retries) ∧
        resolveFrom L lower veto_max_retries intent inventory replies (left + 1) attempt
            ⟨none, .Committed⟩ =
          (1, resultOf L lower intent inventory (replies attempt)) := by
  rw [resolveFrom]
  rcases resolveAttempt_cases L lower veto_max_retries intent inventory attempt
    (replies attempt) with
    ⟨hnot, hlt, heq⟩ | ⟨hend, ⟨vars, heq, hfinish⟩ | ⟨e, heq, hresult⟩⟩
  · rw [heq]
    exact .inl ⟨hnot, hlt, rfl⟩
  · rw [heq, ← hfinish]
    exact .inr ⟨hend, rfl⟩
  · rw [heq, hresult]
    exact .inr ⟨hend, rfl⟩

variable (L lower veto_max_retries intent inventory replies) in
/-- The loop ends at the first decisive reply, or at the last one. -/
theorem resolveFrom_ends : ∀ (left attempt : Nat), attempt + left = veto_max_retries →
    ∃ i, attempt ≤ i ∧ i ≤ veto_max_retries ∧
      (∀ j, attempt ≤ j → j < i → ¬Decisive L lower intent inventory (replies j)) ∧
      (Decisive L lower intent inventory (replies i) ∨ i = veto_max_retries) ∧
      resolveFrom L lower veto_max_retries intent inventory replies (left + 1) attempt
          ⟨none, .Committed⟩ =
        (i + 1 - attempt, resultOf L lower intent inventory (replies i)) := by
  intro left
  induction left with
  | zero =>
    intro attempt hleft
    rcases resolveFrom_step L lower veto_max_retries intent inventory replies 0 attempt with
      ⟨-, hlt, -⟩ | ⟨-, heq⟩
    · omega
    · refine ⟨attempt, le_refl _, by omega, fun j hj hj' => by omega, .inr (by omega), ?_⟩
      rw [heq, Nat.add_sub_cancel_left]
  | succ left ih =>
    intro attempt hleft
    rcases resolveFrom_step L lower veto_max_retries intent inventory replies (left + 1)
      attempt with
      ⟨hnot, hlt, heq⟩ | ⟨hend, heq⟩
    · obtain ⟨i, hi, hle, hbefore, hlast, hrest⟩ := ih (attempt + 1) (by omega)
      refine ⟨i, by omega, hle, fun j hj hj' => ?_, hlast, ?_⟩
      · rcases Nat.eq_or_lt_of_le hj with rfl | hj
        · exact hnot
        · exact hbefore j hj hj'
      · rw [heq, hrest]
        congr 1
        omega
    · have hdecisive := hend.resolve_right (not_not.mpr (by omega))
      refine ⟨attempt, le_refl _, by omega, fun j hj hj' => by omega, .inl hdecisive, ?_⟩
      rw [heq, Nat.add_sub_cancel_left]

variable (L lower veto_max_retries intent inventory replies) in
/-- The first decisive reply stands at the index. -/
def FirstDecisive (i : Nat) : Prop :=
  i ≤ veto_max_retries ∧ Decisive L lower intent inventory (replies i) ∧
    ∀ j < i, ¬Decisive L lower intent inventory (replies j)

variable (L lower veto_max_retries intent inventory replies) in
def NoneDecisive : Prop :=
  ∀ i ≤ veto_max_retries, ¬Decisive L lower intent inventory (replies i)

variable (L lower veto_max_retries intent inventory replies) in
/-- The loop ends at the first decisive reply, or at the last one when there is none. -/
theorem resolve_ends :
    ∃ i, (FirstDecisive L lower veto_max_retries intent inventory replies i ∨
        NoneDecisive L lower veto_max_retries intent inventory replies ∧ i = veto_max_retries) ∧
      resolve_semantic_mutation L lower veto_max_retries intent inventory replies =
        (i + 1, resultOf L lower intent inventory (replies i)) := by
  obtain ⟨i, -, hle, hbefore, hlast, heq⟩ := resolveFrom_ends L lower veto_max_retries intent
    inventory replies veto_max_retries 0 (Nat.zero_add _)
  refine ⟨i, ?_, heq⟩
  by_cases hdecisive : Decisive L lower intent inventory (replies i)
  · exact .inl ⟨hle, hdecisive, fun j hj => hbefore j (Nat.zero_le j) hj⟩
  · have hi := hlast.resolve_left hdecisive
    refine .inr ⟨fun j hj => ?_, hi⟩
    rcases Nat.lt_or_eq_of_le hj with hlt | rfl
    · exact hbefore j (Nat.zero_le j) (by omega)
    · exact hi ▸ hdecisive

theorem FirstDecisive.unique {i j : Nat}
    (hi : FirstDecisive L lower veto_max_retries intent inventory replies i)
    (hj : FirstDecisive L lower veto_max_retries intent inventory replies j) : i = j := by
  rcases Nat.lt_trichotomy i j with hlt | heq | hlt
  · exact absurd hi.2.1 (hj.2.2 i hlt)
  · exact heq
  · exact absurd hj.2.1 (hi.2.2 j hlt)

theorem resultOf_committed {reply : Reply} {s : StabilizedMutation} :
    resultOf L lower intent inventory reply = .ok (.Committed, s) ↔
      ∃ veto, reply = .ok veto ∧ veto.is_approved = true ∧
        validate_and_stabilize L lower intent veto inventory = .ok s := by
  cases reply with
  | error e => simp [resultOf]
  | ok veto =>
    cases hvalid : validate_and_stabilize L lower intent veto inventory <;>
      cases happroved : veto.is_approved <;>
      simp [resultOf, hvalid, happroved]

theorem resultOf_vetoed {reply : Reply} :
    (∃ s, resultOf L lower intent inventory reply = .ok (.Vetoed, s)) ↔
      ∃ veto, reply = .ok veto ∧ (veto.is_approved = false ∨
        ∀ s, validate_and_stabilize L lower intent veto inventory ≠ .ok s) := by
  cases reply with
  | error e => simp [resultOf]
  | ok veto =>
    cases hvalid : validate_and_stabilize L lower intent veto inventory <;>
      cases happroved : veto.is_approved <;>
      simp [resultOf, hvalid, happroved]

theorem resultOf_error {reply : Reply} {e : tonic.Status} :
    resultOf L lower intent inventory reply = .error e ↔
      ∃ err : VetoError, reply = .error err ∧ e = err.status := by
  cases reply with
  | error e =>
    simp only [resultOf, Except.error.injEq, exists_eq_left']
    exact eq_comm
  | ok veto =>
    cases hvalid : validate_and_stabilize L lower intent veto inventory <;>
      cases happroved : veto.is_approved <;>
      simp [resultOf, hvalid, happroved]

end

/-- How often the oracle is asked and what the loop returns, by the first decisive reply. -/
structure Resolves (L : DecimalLib D) (lower : Lower) (veto_max_retries : Nat)
    (intent : ScrubbedIntent) (inventory : List GroceryItem) (replies : Nat → Reply)
    (consulted : Nat) (result : Except tonic.Status (MutationStatus × StabilizedMutation)) :
    Prop where
  bounded : consulted ≤ veto_max_retries + 1
  stops : ∀ i, FirstDecisive L lower veto_max_retries intent inventory replies i →
    consulted = i + 1
  exhausts : NoneDecisive L lower veto_max_retries intent inventory replies →
    consulted = veto_max_retries + 1
  committed : ∀ s, result = .ok (.Committed, s) ↔
    ∃ i veto, FirstDecisive L lower veto_max_retries intent inventory replies i ∧
      replies i = .ok veto ∧ veto.is_approved = true ∧
      validate_and_stabilize L lower intent veto inventory = .ok s
  vetoed : (∃ s, result = .ok (.Vetoed, s)) ↔
    (∃ i veto, FirstDecisive L lower veto_max_retries intent inventory replies i ∧
        replies i = .ok veto ∧ veto.is_approved = false) ∨
      NoneDecisive L lower veto_max_retries intent inventory replies ∧
        ∃ veto, replies veto_max_retries = .ok veto
  failed : ∀ e, result = .error e ↔
    NoneDecisive L lower veto_max_retries intent inventory replies ∧
      ∃ err : VetoError, replies veto_max_retries = .error err ∧ e = err.status
  recorded : result ≠ .error ⟨.Internal, "Retry loop failed to produce an outcome record"⟩

theorem resolution_decided (veto_max_retries : Nat) (intent : ScrubbedIntent)
    (inventory : List GroceryItem) (replies : Nat → Reply) :
    Resolves L lower veto_max_retries intent inventory replies
      (resolve_semantic_mutation L lower veto_max_retries intent inventory replies).1
      (resolve_semantic_mutation L lower veto_max_retries intent inventory replies).2 := by
  obtain ⟨i, hwhere, heq⟩ := resolve_ends L lower veto_max_retries intent inventory replies
  rw [heq]
  have hrecorded : resultOf L lower intent inventory (replies i) ≠
      .error ⟨.Internal, "Retry loop failed to produce an outcome record"⟩ := by
    rw [ne_eq, resultOf_error]
    rintro ⟨err, -, herr⟩
    cases err <;> simp [VetoError.status] at herr
  rcases hwhere with hfirst | ⟨hnone, rfl⟩
  · have hsome : ¬NoneDecisive L lower veto_max_retries intent inventory replies :=
      fun hnone => hnone i hfirst.1 hfirst.2.1
    refine ⟨Nat.succ_le_succ hfirst.1, fun j hj => by rw [hfirst.unique hj],
      fun hnone => absurd hnone hsome, fun s => ?_, ?_, fun e => ?_, hrecorded⟩
    · rw [resultOf_committed]
      refine ⟨fun ⟨veto, h⟩ => ⟨i, veto, hfirst, h⟩, fun ⟨j, veto, hj, h⟩ => ?_⟩
      rw [hfirst.unique hj]
      exact ⟨veto, h⟩
    · rw [resultOf_vetoed]
      constructor
      · rintro ⟨veto, hreply, hveto | hinvalid⟩
        · exact .inl ⟨i, veto, hfirst, hreply, hveto⟩
        · -- it is decisive, so it is the veto
          obtain ⟨veto', hreply', hveto | ⟨s, hs⟩⟩ := hfirst.2.1
          · exact .inl ⟨i, veto', hfirst, hreply', hveto⟩
          · rw [hreply] at hreply'
            exact absurd (Except.ok.inj hreply' ▸ hs) (hinvalid s)
      · rintro (⟨j, veto, hj, hreply, hveto⟩ | ⟨hnone, -⟩)
        · rw [hfirst.unique hj]
          exact ⟨veto, hreply, .inl hveto⟩
        · exact absurd hnone hsome
    · rw [resultOf_error]
      refine ⟨fun ⟨err, hreply, _⟩ => ?_, fun h => absurd h.1 hsome⟩
      obtain ⟨veto, hreply', -⟩ := hfirst.2.1
      rw [hreply] at hreply'
      cases hreply'
  · have hnofirst : ∀ j, ¬FirstDecisive L lower i intent inventory replies j :=
      fun j hj => hnone j hj.1 hj.2.1
    refine ⟨le_refl _, fun j hj => absurd hj (hnofirst j), fun _ => rfl, fun s => ?_, ?_,
      fun e => ?_, hrecorded⟩
    · rw [resultOf_committed]
      refine ⟨fun ⟨veto, hreply, _, hs⟩ => ?_, fun ⟨j, _, hj, _⟩ => absurd hj (hnofirst j)⟩
      exact absurd ⟨veto, hreply, .inr ⟨s, hs⟩⟩ (hnone i (le_refl _))
    · rw [resultOf_vetoed]
      constructor
      · rintro ⟨veto, hreply, -⟩
        exact .inr ⟨hnone, veto, hreply⟩
      · rintro (⟨j, -, hj, -⟩ | ⟨-, veto, hreply⟩)
        · exact absurd hj (hnofirst j)
        · refine ⟨veto, hreply, .inr fun s hs => ?_⟩
          exact hnone i (le_refl _) ⟨veto, hreply, .inr ⟨s, hs⟩⟩
    · rw [resultOf_error]
      exact ⟨fun h => ⟨hnone, h⟩, fun h => h.2⟩

end gateway.ingress.ai_oracle
