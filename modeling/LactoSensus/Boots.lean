-- The guard of the start: the identity of a node is written to its disk by the first
-- start and compared by every later one, so a disk belongs to one node of one cluster
-- for good, whatever starts are cut short.
import LactoSensus.Transport

open ordmap
open raft_engine.transport (NodeIdentity)

namespace raft_engine.identity

variable {B : Type}

/-- The texts of identities. What is written is read back. -/
structure Json (B : Type) where
  to_vec : NodeIdentity → B
  from_slice : B → Except String NodeIdentity
  back : ∀ identity, from_slice (to_vec identity) = .ok identity

/-- Why a node does not start on a disk. -/
inductive IdentityError where
  | Corruption (msg : String)
  | Mismatch (disk config : String)
deriving DecidableEq, Repr

/-- The text of the error, as it is shown. -/
def IdentityError.text : IdentityError → String
  | .Corruption msg => s!"Identity metadata corruption: {msg}"
  | .Mismatch disk config =>
    s!"Safety Violation: Config ID ({config}) does not match Disk ID ({disk})"

/-- The key of the identity in the system database. -/
def IDENTITY_KEY : String := "node_identity"

/-- The tree of the system database. -/
abbrev Tree (B : Type) := OrdMap String B

/-- An identity as the error shows it. -/
def idText (identity : NodeIdentity) : String := s!"({identity.cluster_id}, {identity.node_id})"

/-- A disk without an identity takes that of the configuration. -/
def initialize_node_identity (j : Json B) (tree : Tree B) (config : NodeIdentity) :
    Tree B × Except IdentityError NodeIdentity :=
  match tree.get? IDENTITY_KEY with
  | some bytes =>
    match j.from_slice bytes with
    | .error e => (tree, .error (.Corruption e))
    | .ok existing =>
      if existing.cluster_id ≠ config.cluster_id ∨ existing.node_id ≠ config.node_id then
        (tree, .error (.Mismatch (idText existing) (idText config)))
      else (tree, .ok existing)
  | none => (tree.insert IDENTITY_KEY (j.to_vec config), .ok config)

/-! ## Starts -/

/-- What can happen to a disk. -/
inductive Start where
  | Boot (config : NodeIdentity)
  /-- A start that is cut short; without the flush its write may be lost. -/
  | Crash (config : NodeIdentity) (kept : Bool)
deriving DecidableEq, Repr

/-- A start that was not cut short, and what the guard said. -/
abbrev Booted := NodeIdentity × Except IdentityError NodeIdentity

/-- One start over the disk. -/
def startStep (j : Json B) (s : Tree B × List Booted) : Start → Tree B × List Booted
  | .Boot config =>
    match initialize_node_identity j s.1 config with
    | (tree, res) => (tree, s.2 ++ [(config, res)])
  | .Crash config kept =>
    (if kept then (initialize_node_identity j s.1 config).1 else s.1, s.2)

/-- Starts one after the other, over a disk that was new. -/
def starts (j : Json B) (acts : List Start) : Tree B × List Booted :=
  acts.foldl (startStep j) (.empty, [])

/-- The disk is new, or it is of one node; the guard has let through that node alone. -/
def Pinned (j : Json B) (s : Tree B × List Booted) : Prop :=
  s = (.empty, []) ∨ ∃ identity, s.1 = OrdMap.empty.insert IDENTITY_KEY (j.to_vec identity) ∧
    ∀ b ∈ s.2, b.2 = if b.1 = identity then .ok identity
      else .error (.Mismatch (idText identity) (idText b.1))

variable {j : Json B} {s : Tree B × List Booted}

theorem initialize_pinned (j : Json B) (identity config : NodeIdentity) :
    initialize_node_identity j (OrdMap.empty.insert IDENTITY_KEY (j.to_vec identity)) config =
      (OrdMap.empty.insert IDENTITY_KEY (j.to_vec identity),
        if config = identity then .ok identity
        else .error (.Mismatch (idText identity) (idText config))) := by
  obtain ⟨cluster, node⟩ := identity
  obtain ⟨cluster', node'⟩ := config
  unfold initialize_node_identity
  rw [OrdMap.get?_insert_self]
  dsimp only
  rw [j.back]
  by_cases hc : cluster = cluster' <;> by_cases hn : node = node' <;> simp [hc, hn, eq_comm]

theorem Pinned.step (h : Pinned j s) (act : Start) : Pinned j (startStep j s act) := by
  obtain rfl | ⟨identity, htree, hlog⟩ := h
  · cases act with
    | Boot config =>
      refine .inr ⟨config, rfl, fun b hb => ?_⟩
      obtain rfl := List.mem_singleton.mp hb
      exact (if_pos rfl).symm
    | Crash config kept =>
      cases kept with
      | false => exact .inl rfl
      | true => exact .inr ⟨config, rfl, nofun⟩
  · obtain ⟨tree, log⟩ := s
    obtain rfl : tree = _ := htree
    refine .inr ⟨identity, ?_, ?_⟩
    · cases act with
      | Boot config => rw [startStep, initialize_pinned]
      | Crash config kept =>
        rw [startStep, initialize_pinned]
        exact ite_self _
    · cases act with
      | Boot config =>
        rw [startStep, initialize_pinned]
        intro b hb
        rcases List.mem_append.mp hb with hold | hnew
        · exact hlog b hold
        · obtain rfl := List.mem_singleton.mp hnew
          rfl
      | Crash config kept => exact hlog

theorem starts_pinned (j : Json B) (acts : List Start) : Pinned j (starts j acts) := by
  have hall : ∀ s, Pinned j s → Pinned j (acts.foldl (startStep j) s) := by
    induction acts with
    | nil => exact fun _ h => h
    | cons act acts ih => exact fun s h => ih _ (h.step act)
  exact hall _ (.inl rfl)

/-- Once a start has got through, the disk stays as it is, and every start, before it or after
it, got through under the same identity or was refused with the texts of the two. -/
theorem disk_of_one_node (j : Json B) (acts later : List Start) {config identity : NodeIdentity}
    (hbooted : (config, .ok identity) ∈ (starts j acts).2) :
    config = identity ∧ (starts j (acts ++ later)).1 = (starts j acts).1 ∧
      ∀ b ∈ (starts j (acts ++ later)).2, b.2 = if b.1 = identity then .ok identity
        else .error (.Mismatch (idText identity) (idText b.1)) := by
  have hkept : (config, .ok identity) ∈ (starts j (acts ++ later)).2 := by
    unfold starts at hbooted ⊢
    rw [List.foldl_append]
    generalize acts.foldl (startStep j) (.empty, []) = s at hbooted
    induction later generalizing s with
    | nil => exact hbooted
    | cons act later ih =>
      refine ih _ ?_
      cases act with
      | Boot config => exact List.mem_append_left _ hbooted
      | Crash config kept => exact hbooted
  have hpinned : ∀ {s : Tree B × List Booted}, Pinned j s → (config, .ok identity) ∈ s.2 →
      config = identity ∧ s.1 = OrdMap.empty.insert IDENTITY_KEY (j.to_vec identity) ∧
        ∀ b ∈ s.2, b.2 = if b.1 = identity then .ok identity
          else .error (.Mismatch (idText identity) (idText b.1)) := by
    intro s hs hmem
    obtain rfl | ⟨pinned, htree, hlog⟩ := hs
    · cases hmem
    · have hok := hlog _ hmem
      dsimp only at hok
      split at hok
      · rename_i hconfig
        obtain rfl := Except.ok.inj hok
        exact ⟨hconfig, htree, hlog⟩
      · cases hok
  obtain ⟨hconfig, htree, -⟩ := hpinned (starts_pinned j acts) hbooted
  obtain ⟨-, htree', hlog⟩ := hpinned (starts_pinned j (acts ++ later)) hkept
  exact ⟨hconfig, htree'.trans htree.symm, hlog⟩

/-- Identities that are their own text. -/
def plainJson : Json NodeIdentity where
  to_vec := id
  from_slice := .ok
  back _ := rfl

/-- A start that was cut short has already claimed the disk. -/
theorem disk_of_one_node_claimed :
    (starts plainJson [.Crash ⟨"home", 1⟩ true, .Boot ⟨"home", 2⟩, .Boot ⟨"home", 1⟩,
      .Boot ⟨"shop", 1⟩]).2 =
      [(⟨"home", 2⟩, .error (.Mismatch "(home, 1)" "(home, 2)")), (⟨"home", 1⟩, .ok ⟨"home", 1⟩),
        (⟨"shop", 1⟩, .error (.Mismatch "(home, 1)" "(shop, 1)"))] ∧
    (starts plainJson ([.Crash ⟨"home", 1⟩ true, .Boot ⟨"home", 2⟩, .Boot ⟨"home", 1⟩] ++
      [.Boot ⟨"shop", 1⟩])).1 = OrdMap.empty.insert IDENTITY_KEY ⟨"home", 1⟩ := by
  have hbooted : ((⟨"home", 1⟩, .ok ⟨"home", 1⟩) : Booted) ∈ (starts plainJson
      [.Crash ⟨"home", 1⟩ true, .Boot ⟨"home", 2⟩, .Boot ⟨"home", 1⟩]).2 := by
    decide
  obtain ⟨-, htree, -⟩ := disk_of_one_node plainJson _ [.Boot ⟨"shop", 1⟩] hbooted
  refine ⟨by decide, ?_⟩
  rw [htree]
  rfl

end raft_engine.identity
