-- A query of the whole inventory: it waits for its fence, walks over the tree
-- item by item, and reads the version afterwards. The walk goes by copies of the
-- tree that it makes as it goes on, and nothing says when. The applier and the
-- restoration of a snapshot write to the trees at any point between.
import LactoSensus.Recovery
import LactoSensus.Restoration
import LactoSensus.Lib.Machine

open common.types
open common.proto
open journal
open machine
open ordmap
open lacto_fsm
open raft_engine.recovery

namespace gateway.queries

variable {α : Type}

/-! ## The query -/

inductive QueryStatus where
  | Unspecified
  | Success
  | Rejected
  | Error
deriving DecidableEq, Repr

structure QueryStateRequest where
  query_filter : Option String
  min_state_version : Option Nat
deriving DecidableEq, Repr

structure QueryStateResponse where
  items : List GroceryItem
  current_state_version : Nat
  status : QueryStatus
  leader_hint : String
  error_message : String
deriving DecidableEq, Repr

/-- What the handler takes from elsewhere: the conversion of a base quantity, and the search
in a key, both lower-cased. -/
structure Display where
  convert_to_display_value : String → String → Option String
  matchesKey : String → String → Bool

/-- Display conversion: an item in its preferred unit, where that can be had. -/
def Display.shown (d : Display) (item : GroceryItem) : GroceryItem :=
  if item.display_unit ≠ "" ∧ item.display_unit ≠ item.unit then
    match d.convert_to_display_value item.quantity item.display_unit with
    | some display_qty => { item with quantity := display_qty, unit := item.display_unit }
    | none => item
  else item

def Display.filtered (d : Display) (query_filter : Option String) (items : List GroceryItem) :
    List GroceryItem :=
  match query_filter with
  | some filter => items.filter fun item => d.matchesKey item.item_key filter
  | none => items

def Display.response (d : Display) (req : QueryStateRequest) (items : List GroceryItem)
    (version : Nat) : QueryStateResponse :=
  ⟨d.filtered req.query_filter items, version, .Success, "", ""⟩

/-- `handle_query_state` on a leader that has just verified its leadership. -/
inductive Stage where
  | Absent
  /-- Before the fence; the commit index is the one it was authorized with. -/
  | Fence (req : QueryStateRequest) (last_committed : Nat)
  | Fetch (req : QueryStateRequest)
  /-- `get_inventory` has passed some of the keys, and reads on from what it has copied. -/
  | Walk (req : QueryStateRequest) (leaf : OrdMap String GroceryItem) (seen : Option String)
    (items : List GroceryItem)
  | Version (req : QueryStateRequest) (items : List GroceryItem)
  | Answered (req : QueryStateRequest) (response : QueryStateResponse)
  | Failed
deriving DecidableEq

/-! ## The node -/

/-- The store, the applied index that the progress channel shows, and one query. -/
structure Node where
  store : LactoStore
  /-- The stores that a restoration under way has still to go through. -/
  restoring : List LactoStore
  last_applied : Nat
  stage : Stage
deriving DecidableEq

def Node.init : Node := ⟨.new, [], 0, .Absent⟩

/-- The stores of an installation, after each of its writes. -/
def installStores (c : SnapshotCodec α) (s : LactoStore) (last_included_index : Nat) (data : α) :
    List LactoStore :=
  (install_snapshot c (.settled s) last_included_index data).1.crash_points.reverse.tail

inductive NodeAct where
  | Ask (req : QueryStateRequest) (last_committed : Nat)
  | PassFence
  | TimeOut
  | Fetch
  /-- The iterator copies a leaf of the tree, at any time of the walk. -/
  | LoadLeaf
  | Next
  | ReadVersion
  /-- The applier has the permit of the store, and applies an entry of the log. -/
  | Apply (index : Nat)
  /-- The node has taken over an index that the store has applied. -/
  | Publish (index : Nat)
  /-- A restoration gets the permit, with a snapshot of a store after `taken` entries; the
  label can be an older index. -/
  | Restore (taken last_included_index : Nat)
  | RestoreStep
deriving DecidableEq

/-- The fence of a query: nothing while it has to wait. -/
def passFence (req : QueryStateRequest) (last_committed last_applied : Nat) : Option Stage :=
  match req.min_state_version with
  | none => some (.Fetch req)
  | some version =>
    if version > last_committed then some .Failed
    else if last_applied ≥ version then some (.Fetch req)
    else none

def nodeStep (c : SnapshotCodec α) (d : Display) (log : List CommittedMutation) (n : Node) :
    NodeAct → Option Node
  | .Ask req last_committed =>
    match n.stage with
    | .Absent => some { n with stage := .Fence req last_committed }
    | _ => none
  | .PassFence =>
    match n.stage with
    | .Fence req last_committed =>
      (passFence req last_committed n.last_applied).map fun stage => { n with stage := stage }
    | _ => none
  | .TimeOut =>
    match n.stage with
    | .Fence _ _ => some { n with stage := .Failed }
    | _ => none
  | .Fetch =>
    match n.stage with
    | .Fetch req =>
      match n.store.check_not_poisoned with
      | .error _ => some { n with stage := .Failed }
      | .ok () => some { n with stage := .Walk req n.store.inventory none [] }
    | _ => none
  | .LoadLeaf =>
    match n.stage with
    | .Walk req _ seen items => some { n with stage := .Walk req n.store.inventory seen items }
    | _ => none
  | .Next =>
    match n.stage with
    | .Walk req leaf seen items =>
      match leaf.next? seen with
      | some (key, item) => some { n with stage := .Walk req leaf (some key) (items ++ [item]) }
      | none => some { n with stage := .Version req (items.map d.shown) }
    | _ => none
  | .ReadVersion =>
    match n.stage with
    | .Version req items =>
      match n.store.current_version with
      | .error _ => some { n with stage := .Failed }
      | .ok version =>
        some { n with stage := .Answered req (d.response req items version) }
    | _ => none
  | .Apply index =>
    if n.restoring = [] then
      log[index - 1]?.map fun m =>
        { n with store := (n.store.apply c.toCodec index (c.encode m)).1 }
    else none
  | .Publish index =>
    if n.restoring = [] ∧ index ≤ appliedOf n.store then some { n with last_applied := index }
    else none
  | .Restore taken last_included_index =>
    if n.restoring = [] ∧ last_included_index ≤ taken ∧ taken ≤ log.length then
      match replay c.toCodec (log.take taken) with
      | (_, .error _) => none
      | (s, .ok ()) =>
        match s.snapshot c with
        | .error _ => none
        | .ok data =>
          some { n with restoring := installStores c n.store last_included_index data }
    else none
  | .RestoreStep =>
    match n.restoring with
    | [] => none
    | store :: rest => some { n with store := store, restoring := rest }

/-! ## What a query may not meet -/

/-- Between its first item and the version. -/
def Stage.reading : Stage → Bool
  | .Walk _ _ _ _ => true
  | .Version _ _ => true
  | _ => false

/-- No entry changes an item, and no restoration writes, while the query reads; a restoration
has the label its content deserves, and never takes the store back. -/
def Undisturbed (c : SnapshotCodec α) (log : List CommittedMutation) (n : Node) : NodeAct → Prop
  | .PassFence => n.restoring = []
  | .Fetch => n.restoring = []
  | .Apply index => n.stage.reading = true → ∀ m, log[index - 1]? = some m →
    (n.store.apply c.toCodec index (c.encode m)).1.inventory = n.store.inventory
  | .Restore taken last_included_index =>
    last_included_index = taken ∧ appliedOf n.store ≤ last_included_index
  | .RestoreStep => n.stage.reading = false
  | _ => True

/-- The response lists the inventory of exactly the entries up to its version, and is not
older than the query asked for. -/
def AnswersVersion (c : SnapshotCodec α) (d : Display) (log : List CommittedMutation)
    (req : QueryStateRequest) (response : QueryStateResponse) : Prop :=
  (∃ s, response.current_state_version ≤ log.length ∧
    replay c.toCodec (log.take response.current_state_version) = (s, .ok ()) ∧
    (req.query_filter = none → response.items = s.inventory.values.map d.shown)) ∧
  ∀ version, req.min_state_version = some version → version ≤ response.current_state_version

/-! ## The invariant -/

variable {c : SnapshotCodec α} {d : Display} {log : List CommittedMutation} {n n' : Node}
  {s t : LactoStore} {res : Except FsmError Unit}

/-- The store has what the entries up to its index lead to, unless it has halted. -/
def Faithful (c : SnapshotCodec α) (log : List CommittedMutation) (s : LactoStore) : Prop :=
  s.poisoned = false → ∃ t, appliedOf s ≤ log.length ∧
    replay c.toCodec (log.take (appliedOf s)) = (t, .ok ()) ∧ Same t s

theorem Faithful.new : Faithful c log .new :=
  fun _ => ⟨.new, Nat.zero_le _, rfl, rfl, rfl, rfl, rfl, rfl⟩

/-- An entry that the store takes is the next one, and one that it refuses changes nothing,
or halts it. -/
theorem Faithful.apply (h : Faithful c log s) {index : Nat} {m : CommittedMutation}
    (hm : log[index - 1]? = some m) (happly : s.apply c.toCodec index (c.encode m) = (t, res)) :
    Faithful c log t ∧ (t.poisoned = false → s.poisoned = false ∧ appliedOf s ≤ appliedOf t) := by
  cases res with
  | error e =>
    rcases apply_refuses c.toCodec index (c.encode m) e (by rw [happly]) with hsame | hhalted
    · rw [happly] at hsame
      obtain rfl : t = s := hsame
      exact ⟨h, fun hp => ⟨hp, le_rfl⟩⟩
    · rw [happly] at hhalted
      refine ⟨fun hp => ?_, fun hp => ?_⟩ <;> rw [hp] at hhalted <;> cases hhalted
  | ok u =>
    obtain ⟨hindex, m', client_id, hdec, -, hcases⟩ := apply_ok happly
    have happlied : appliedOf t = index ∧ t.poisoned = s.poisoned := by
      rcases hcases with ⟨-, rfl⟩ | ⟨-, status, event_time, rfl⟩
      · exact ⟨rfl, rfl⟩
      · exact ⟨rfl, rfl⟩
    have hindex : index = appliedOf s + 1 := hindex
    subst hindex
    refine ⟨fun hp => ?_, fun hp => ⟨happlied.2 ▸ hp, by omega⟩⟩
    obtain ⟨r, hle, hreplay, hsame⟩ := h (happlied.2 ▸ hp)
    rw [Nat.add_sub_cancel] at hm
    obtain ⟨hlt, hget⟩ := List.getElem?_eq_some_iff.mp hm
    have hlen : (log.take (appliedOf s)).length = appliedOf s := List.length_take_of_le hle
    have hagree := Same.apply (c := c.toCodec) hsame (appliedOf s + 1) (c.encode m)
    rw [happly] at hagree
    refine ⟨(r.apply c.toCodec (appliedOf s + 1) (c.encode m)).1, by omega, ?_, hagree.1⟩
    rw [happlied.1, List.take_succ_eq_append_getElem hlt, hget, replay_concat hreplay, hlen]
    exact Prod.ext rfl hagree.2.symm

/-- The query is past its fence on a store that has come far enough. -/
def FenceMet (req : QueryStateRequest) (s : LactoStore) : Prop :=
  s.poisoned = false → ∀ version, req.min_state_version = some version → version ≤ appliedOf s

/-- The store when the restoration under way is through. -/
def Node.settled (n : Node) : LactoStore := n.restoring.getLastD n.store

/-- What the query has read is what the store it stands on has. -/
def Reads (c : SnapshotCodec α) (d : Display) (log : List CommittedMutation) (n : Node) :
    Stage → Prop
  | .Fetch req => FenceMet req n.settled
  | .Walk req leaf seen items =>
    Faithful c log n.store ∧ FenceMet req n.store ∧ leaf = n.store.inventory ∧
      items = leaf.seenValues seen
  | .Version req items =>
    Faithful c log n.store ∧ FenceMet req n.store ∧
      items = n.store.inventory.values.map d.shown
  | .Answered req response => AnswersVersion c d log req response
  | _ => True

structure Consistent (c : SnapshotCodec α) (d : Display) (log : List CommittedMutation) (n : Node) :
    Prop where
  faithful : Faithful c log n.settled
  published : n.settled.poisoned = false → n.last_applied ≤ appliedOf n.settled
  reads : Reads c d log n n.stage

theorem Consistent.init : Consistent c d log .init :=
  ⟨.new, fun _ => Nat.zero_le _, trivial⟩

theorem Node.settled_of_restored (h : n.restoring = []) : n.settled = n.store := by
  unfold Node.settled
  rw [h]
  rfl

theorem last_point (x y : LactoStore) (l : List LactoStore) (s : LactoStore) :
    (x :: y :: l).reverse.tail.getLastD s = x := by
  rw [List.reverse_cons, List.tail_append_of_ne_nil (by simp), List.getLastD_eq_getLast?,
    List.getLast?_concat]
  rfl

/-- The store that a restoration ends with is the one its snapshot was taken of. -/
theorem installStores_last (hlog : ∀ m ∈ log, Canonical c.toCodec m) {taken : Nat}
    (hle : taken ≤ log.length) (hp : s.poisoned = false)
    (hreplay : replay c.toCodec (log.take taken) = (t, .ok ())) {data : α}
    (hdata : t.snapshot c = .ok data) :
    ∃ r, (installStores c s taken data).getLastD s = r ∧ Faithful c log r ∧
      appliedOf r = taken := by
  have hcount := replay_counted (fun m hm => hlog m (List.mem_of_mem_take hm)) hreplay
  rw [snapshot_eq c hcount.healthy] at hdata
  obtain rfl := Except.ok.inj hdata
  have hdecode := c.decode_encode_snapshot (snapshotOf t)
  have hnow := (install_snapshot_now c (.settled s) hp taken (snapshotOf t) hdecode).2
  have hlast : (installStores c s taken (c.encode_snapshot (snapshotOf t))).getLastD s =
      restored taken (snapshotOf t) := by
    rw [← hnow]
    unfold installStores install_snapshot LactoStore.check_not_poisoned
    rw [Journal.settled_now, hp, hdecode]
    exact last_point _ _ _ _
  refine ⟨_, hlast, fun _ => ⟨t, hle, hreplay, ?_⟩, rfl⟩
  have happlied : t.key_last_applied.getD 0 = taken := by
    rw [hcount.applied, List.length_take_of_le hle]
  have hadvanced : Same t (t.advance_last_applied_for_duplicate taken) :=
    ⟨rfl, rfl, rfl, happlied.symm, rfl⟩
  exact hadvanced.trans (restored_same hcount.keyed hcount.healthy taken)

theorem Reads.of_store {stage : Stage} (h : Reads c d log n stage) (hstore : n'.store = n.store)
    (hsettled : ∀ req, FenceMet req n.settled → FenceMet req n'.settled) :
    Reads c d log n' stage := by
  cases stage with
  | Fetch req => exact hsettled req h
  | Walk req leaf seen items =>
    unfold Reads at h ⊢
    rw [hstore]
    exact h
  | Version req items =>
    unfold Reads at h ⊢
    rw [hstore]
    exact h
  | Answered req response => exact h
  | _ => trivial

/-- Only the query itself has moved. -/
theorem Consistent.onto (h : Consistent c d log n) {stage : Stage}
    (hreads : Reads c d log n stage) :
    Consistent c d log { n with stage := stage } := by
  refine ⟨h.faithful, h.published, ?_⟩
  exact Reads.of_store (n := n) hreads rfl fun _ hf => hf

/-- The query has the fence behind it: its version is published, so the store has it. -/
theorem Consistent.passFence (h : Consistent c d log n) {req : QueryStateRequest}
    {last_committed : Nat} {stage : Stage}
    (hpass : passFence req last_committed n.last_applied = some stage) :
    Consistent c d log { n with stage := stage } := by
  refine h.onto ?_
  unfold gateway.queries.passFence at hpass
  cases hmin : req.min_state_version with
  | none =>
    rw [hmin] at hpass
    obtain rfl := Option.some.inj hpass
    intro _ version hversion
    rw [hmin] at hversion
    cases hversion
  | some version =>
    rw [hmin] at hpass
    dsimp only at hpass
    split at hpass
    · obtain rfl := Option.some.inj hpass
      trivial
    split at hpass
    · rename_i hreached
      obtain rfl := Option.some.inj hpass
      intro hp v hv
      obtain rfl := Option.some.inj (hmin.symm.trans hv)
      exact le_trans hreached (h.published hp)
    · cases hpass

/-- The walk goes on to the next key, or has passed all of them. -/
theorem Consistent.next (h : Consistent c d log n) {req : QueryStateRequest}
    {leaf : OrdMap String GroceryItem} {seen : Option String} {items : List GroceryItem}
    (hstage : n.stage = .Walk req leaf seen items) :
    (∀ key item, leaf.next? seen = some (key, item) →
      Consistent c d log { n with stage := .Walk req leaf (some key) (items ++ [item]) }) ∧
    (leaf.next? seen = none →
      Consistent c d log { n with stage := .Version req (items.map d.shown) }) := by
  have hreads := h.reads
  rw [hstage] at hreads
  obtain ⟨hfaithful, hmet, hleaf, hitems⟩ := hreads
  refine ⟨fun key item hnext => h.onto ⟨hfaithful, hmet, hleaf, ?_⟩,
    fun hend => h.onto ⟨hfaithful, hmet, ?_⟩⟩
  · rw [hitems, OrdMap.seenValues_next hnext]
  · rw [hitems, OrdMap.seenValues_end hend, hleaf]

/-- The version belongs to what was read. -/
theorem Consistent.readVersion (h : Consistent c d log n) {req : QueryStateRequest}
    {items : List GroceryItem} {version : Nat} (hstage : n.stage = .Version req items)
    (hversion : n.store.current_version = .ok version) :
    Consistent c d log { n with stage := .Answered req (d.response req items version) } := by
  have hreads := h.reads
  rw [hstage] at hreads
  obtain ⟨hfaithful, hmet, hitems⟩ := hreads
  have hp : n.store.poisoned = false := by
    cases hp : n.store.poisoned with
    | false => rfl
    | true =>
      rw [(halted_of_poisoned c.toCodec hp).current_version] at hversion
      cases hversion
  have happlied : version = appliedOf n.store := by
    simp [LactoStore.current_version, LactoStore.last_applied_index,
      LactoStore.check_not_poisoned, hp] at hversion
    exact hversion.symm
  subst happlied
  obtain ⟨t, hle, hreplay, hsame⟩ := hfaithful hp
  refine h.onto ⟨⟨t, hle, hreplay, fun hnone => ?_⟩, hmet hp⟩
  unfold Display.response
  rw [hnone, hitems, hsame.inventory]
  rfl

/-- While the query reads, the applier changes no item. -/
theorem Consistent.apply (h : Consistent c d log n) (hrestored : n.restoring = []) {index : Nat}
    {m : CommittedMutation} (hm : log[index - 1]? = some m)
    (hquiet : Undisturbed c log n (.Apply index)) :
    Consistent c d log
      { n with store := (n.store.apply c.toCodec index (c.encode m)).1 } := by
  have hquiet : n.stage.reading = true → _ := fun hreading => hquiet hreading m hm
  have hfaithful := h.faithful
  have hpublished := h.published
  have hreads := h.reads
  have hsettled := n.settled_of_restored hrestored
  rw [hsettled] at hfaithful hpublished
  cases happly : n.store.apply c.toCodec index (c.encode m) with
  | mk t res =>
  rw [happly] at hquiet
  obtain ⟨hnext, hmono⟩ := hfaithful.apply hm happly
  have hsettled' : ∀ stage, Node.settled ⟨t, n.restoring, n.last_applied, stage⟩ = t :=
    fun _ => Node.settled_of_restored hrestored
  have hmet : ∀ req, FenceMet req n.store → FenceMet req t := fun req hmet hp version hv =>
    (hmet (hmono hp).1 version hv).trans (hmono hp).2
  refine ⟨by rw [hsettled']; exact hnext, fun hp => ?_, ?_⟩
  · rw [hsettled'] at hp ⊢
    exact (hpublished (hmono hp).1).trans (hmono hp).2
  · dsimp only
    cases hstage : n.stage with
    | Fetch req =>
      rw [hstage] at hreads
      unfold Reads at hreads ⊢
      rw [hsettled] at hreads
      rw [hsettled']
      exact hmet req hreads
    | Walk req leaf seen items =>
      rw [hstage] at hreads hquiet
      obtain ⟨-, hfence, hleaf, hitems⟩ := hreads
      exact ⟨hnext, hmet req hfence, hleaf.trans (hquiet rfl).symm, hitems⟩
    | Version req items =>
      rw [hstage] at hreads hquiet
      obtain ⟨-, hfence, hitems⟩ := hreads
      refine ⟨hnext, hmet req hfence, ?_⟩
      rw [hitems]
      exact congrArg (fun inventory => (OrdMap.values inventory).map d.shown) (hquiet rfl).symm
    | Answered req response =>
      rw [hstage] at hreads
      exact hreads
    | Absent => trivial
    | Fence req last_committed => trivial
    | Failed => trivial

/-- A restoration begins; the store it ends with is not older. -/
theorem Consistent.restore (hlog : ∀ m ∈ log, Canonical c.toCodec m) (h : Consistent c d log n)
    (hrestored : n.restoring = []) {taken : Nat} (hle : taken ≤ log.length)
    (hahead : appliedOf n.store ≤ taken)
    (hreplay : replay c.toCodec (log.take taken) = (t, .ok ())) {data : α}
    (hdata : t.snapshot c = .ok data) :
    Consistent c d log { n with restoring := installStores c n.store taken data } := by
  have hsettled := n.settled_of_restored hrestored
  cases hp : n.store.poisoned with
  | true =>
    -- a store that has halted writes nothing
    have hnothing : installStores c n.store taken data = [] := by
      unfold installStores install_snapshot LactoStore.check_not_poisoned
      rw [Journal.settled_now, hp]
      rfl
    rw [hnothing, ← hrestored]
    exact h
  | false =>
    obtain ⟨r, hlast, hfaithful, happlied⟩ := installStores_last hlog hle hp hreplay hdata
    have hsettled' : Node.settled { n with restoring := installStores c n.store taken data } = r :=
      hlast
    have hpublished := h.published
    rw [hsettled] at hpublished
    refine ⟨by rw [hsettled']; exact hfaithful, fun _ => ?_,
      Reads.of_store (n := n) h.reads rfl fun req hmet _ version hv => ?_⟩
    · rw [hsettled', happlied]
      exact (hpublished hp).trans hahead
    · rw [hsettled', happlied]
      rw [hsettled] at hmet
      exact (hmet hp version hv).trans hahead

theorem Consistent.restoreStep (h : Consistent c d log n) {store : LactoStore}
    {rest : List LactoStore} (hrestoring : n.restoring = store :: rest)
    (hquiet : Undisturbed c log n .RestoreStep) :
    Consistent c d log { n with store := store, restoring := rest } := by
  have hsettled : ∀ stage, Node.settled ⟨store, rest, n.last_applied, stage⟩ = n.settled := by
    intro stage
    unfold Node.settled
    rw [hrestoring, List.getLastD_cons]
  have hreads := h.reads
  refine ⟨by rw [hsettled]; exact h.faithful, by rw [hsettled]; exact h.published, ?_⟩
  unfold Undisturbed at hquiet
  dsimp only at hquiet ⊢
  cases hstage : n.stage with
  | Fetch req =>
    rw [hstage] at hreads
    unfold Reads at hreads ⊢
    rw [hsettled]
    exact hreads
  | Walk req leaf seen items =>
    rw [hstage] at hquiet
    cases hquiet
  | Version req items =>
    rw [hstage] at hquiet
    cases hquiet
  | Answered req response =>
    rw [hstage] at hreads
    exact hreads
  | Absent => trivial
  | Fence req last_committed => trivial
  | Failed => trivial

theorem Consistent.step (hlog : ∀ m ∈ log, Canonical c.toCodec m) {a : NodeAct}
    (h : Consistent c d log n) (hquiet : Undisturbed c log n a)
    (hs : nodeStep c d log n a = some n') : Consistent c d log n' := by
  cases a with
  | Ask req last_committed =>
    simp only [nodeStep] at hs
    split at hs
    · obtain rfl := Option.some.inj hs
      exact h.onto trivial
    · cases hs
  | PassFence =>
    simp only [nodeStep] at hs
    split at hs
    · obtain ⟨stage, hpass, rfl⟩ := Option.map_eq_some_iff.mp hs
      exact h.passFence hpass
    · cases hs
  | TimeOut =>
    simp only [nodeStep] at hs
    split at hs
    · obtain rfl := Option.some.inj hs
      exact h.onto trivial
    · cases hs
  | Fetch =>
    simp only [nodeStep] at hs
    split at hs
    · rename_i req hstage
      split at hs
      · obtain rfl := Option.some.inj hs
        exact h.onto trivial
      · obtain rfl := Option.some.inj hs
        have hsettled := n.settled_of_restored hquiet
        have hfaithful := h.faithful
        have hreads := h.reads
        rw [hstage] at hreads
        unfold Reads at hreads
        rw [hsettled] at hfaithful hreads
        exact h.onto ⟨hfaithful, hreads, rfl, (n.store.inventory.seenValues_none).symm⟩
    · cases hs
  | LoadLeaf =>
    simp only [nodeStep] at hs
    split at hs
    · rename_i req leaf seen items hstage
      obtain rfl := Option.some.inj hs
      have hreads := h.reads
      rw [hstage] at hreads
      obtain ⟨hfaithful, hmet, rfl, hitems⟩ := hreads
      exact h.onto ⟨hfaithful, hmet, rfl, hitems⟩
    · cases hs
  | Next =>
    simp only [nodeStep] at hs
    split at hs
    · rename_i req leaf seen items hstage
      split at hs
      · rename_i key item hnext
        obtain rfl := Option.some.inj hs
        exact (h.next hstage).1 key item hnext
      · rename_i hend
        obtain rfl := Option.some.inj hs
        exact (h.next hstage).2 hend
    · cases hs
  | ReadVersion =>
    simp only [nodeStep] at hs
    split at hs
    · rename_i req items hstage
      split at hs
      · obtain rfl := Option.some.inj hs
        exact h.onto trivial
      · rename_i version hversion
        obtain rfl := Option.some.inj hs
        exact h.readVersion hstage hversion
    · cases hs
  | Apply index =>
    simp only [nodeStep] at hs
    split at hs
    · rename_i hrestored
      obtain ⟨m, hm, rfl⟩ := Option.map_eq_some_iff.mp hs
      exact h.apply hrestored hm hquiet
    · cases hs
  | Publish index =>
    simp only [nodeStep] at hs
    split at hs
    · rename_i hcond
      obtain ⟨hrestored, hle⟩ := hcond
      obtain rfl := Option.some.inj hs
      refine ⟨h.faithful, fun _ => ?_, Reads.of_store (n := n) h.reads rfl fun _ hf => hf⟩
      have hsettled : Node.settled { n with last_applied := index } = n.store :=
        Node.settled_of_restored hrestored
      rw [hsettled]
      exact hle
    · cases hs
  | Restore taken last_included_index =>
    obtain ⟨rfl, hahead⟩ := hquiet
    simp only [nodeStep] at hs
    split at hs
    · rename_i hcond
      obtain ⟨hrestored, -, hle⟩ := hcond
      split at hs
      · cases hs
      rename_i t hreplay
      split at hs
      · cases hs
      rename_i data hdata
      obtain rfl := Option.some.inj hs
      exact h.restore hlog hrestored hle hahead hreplay hdata
    · cases hs
  | RestoreStep =>
    simp only [nodeStep] at hs
    split at hs
    · cases hs
    · rename_i store rest hrestoring
      obtain rfl := Option.some.inj hs
      exact h.restoreStep hrestoring hquiet

/-- A query that nothing disturbs lists the inventory of its own version. -/
theorem query_answers_version (hlog : ∀ m ∈ log, Canonical c.toCodec m)
    (hrun : Run (nodeStep c d log) (Undisturbed c log) .init n) {req : QueryStateRequest}
    {response : QueryStateResponse} (hanswered : n.stage = .Answered req response) :
    AnswersVersion c d log req response := by
  have hreads := (hrun.invariant (fun _ _ _ h hq hs => Consistent.step hlog h hq hs)
    (Consistent.init (c := c) (d := d))).reads
  rw [hanswered] at hreads
  exact hreads

/-! ## A write between the reads -/

/-- Quantities are shown as they are stored. -/
def asStored : Display := ⟨fun _ _ => none, fun _ _ => true⟩

/-- The milk is put, and then put again in another quantity. -/
def milkTwice : List CommittedMutation :=
  [putMilk 7, { putMilk 8 with sequence_id := 2, updated_base_quantity := "2000" }]

def everything : QueryStateRequest := ⟨none, some 1⟩

/-- The first entry is applied, and a query of the whole inventory gets as far as its version. -/
def untilVersion : List NodeAct :=
  [.Apply 1, .Publish 1, .Ask everything 2, .PassFence, .Fetch, .Next, .Next]

def served (acts : List NodeAct) : Node :=
  (exec (nodeStep plainSnapshots asStored milkTwice) .init acts).getD .init

theorem served_untilVersion :
    Run (nodeStep plainSnapshots asStored milkTwice) (Undisturbed plainSnapshots milkTwice) .init
      (served (untilVersion ++ [.ReadVersion])) := by
  refine run_of_prefixes (untilVersion ++ [.ReadVersion]) ?_ rfl
  rintro (_ | _ | _ | _ | _ | _ | _ | _ | k) a s ha hs
  · obtain rfl := Option.some.inj ha
    obtain rfl := Option.some.inj hs
    exact fun hreading => (by cases hreading)
  · obtain rfl := Option.some.inj ha
    trivial
  · obtain rfl := Option.some.inj ha
    trivial
  · obtain rfl := Option.some.inj ha
    obtain rfl := Option.some.inj hs
    rfl
  · obtain rfl := Option.some.inj ha
    obtain rfl := Option.some.inj hs
    rfl
  · obtain rfl := Option.some.inj ha
    trivial
  · obtain rfl := Option.some.inj ha
    trivial
  · obtain rfl := Option.some.inj ha
    trivial
  · cases ha

theorem query_answers_version_milk :
    ∃ response, (served (untilVersion ++ [.ReadVersion])).stage = .Answered everything response ∧
      response.current_state_version = 1 ∧
      AnswersVersion plainSnapshots asStored milkTwice everything response := by
  have hlog : ∀ m ∈ milkTwice, Canonical plainSnapshots.toCodec m := by
    intro m hm
    rcases List.mem_pair.mp hm with rfl | rfl <;> rfl
  exact ⟨_, rfl, rfl, query_answers_version hlog served_untilVersion rfl⟩

/-- The second entry is applied after the milk was read, and before the version is. -/
theorem query_mixes_versions :
    ∃ response, exec (nodeStep plainSnapshots asStored milkTwice) .init
        (untilVersion ++ [.Apply 2, .ReadVersion]) =
          some (served (untilVersion ++ [.Apply 2, .ReadVersion])) ∧
      (served (untilVersion ++ [.Apply 2, .ReadVersion])).stage = .Answered everything response ∧
      response.current_state_version = 2 ∧ response.items.map GroceryItem.quantity = ["1000"] ∧
      ¬AnswersVersion plainSnapshots asStored milkTwice everything response := by
  refine ⟨_, rfl, rfl, rfl, rfl, fun hanswers => ?_⟩
  obtain ⟨⟨s, -, hreplay, hitems⟩, -⟩ := hanswers
  have hs : s = (replay plainSnapshots.toCodec milkTwice).1 := (Prod.mk.inj hreplay).1.symm
  have hquantities := congrArg (List.map GroceryItem.quantity) (hitems rfl)
  rw [hs] at hquantities
  revert hquantities
  decide

end gateway.queries
