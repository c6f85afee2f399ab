-- The canonical form of a slug: words of lower-case letters and digits with one
-- underscore between any two of them. The loop keeps the words that are over,
-- each with its separator, and the one that it is in; its flag says that it is
-- in none.
import LactoSensus.Lib.Words
import LactoSensus.Stabilizer
import Mathlib.Computability.Language

open common.proto
open common.taxonomy
open common.units
open gateway.ingress (ScrubbedIntent StabilizedMutation)
open gateway.ingress.stabilizer
open gateway.veto
open words
open Computability

namespace common.slug

/-! ## The grammar -/

/-- `[a-z0-9]` -/
def SlugChar (ch : Char) : Prop := 'a' ≤ ch ∧ ch ≤ 'z' ∨ '0' ≤ ch ∧ ch ≤ '9'

def letter : Language Char := {w | ∃ ch, SlugChar ch ∧ w = [ch]}

/-- `[a-z0-9]+` -/
def word : Language Char := letter * letter∗

/-- `[a-z0-9]+(_[a-z0-9]+)*` -/
def slugGrammar : Language Char := word * ({['_']} * word)∗

/-- Empty, or of the grammar. -/
def Canonical (s : String) : Prop := s = "" ∨ s.toList ∈ slugGrammar

/-! ## Letters and digits -/

theorem isAlphanum_iff {ch : Char} :
    ch.isAlphanum = true ↔ ('A' ≤ ch ∧ ch ≤ 'Z') ∨ SlugChar ch := by
  have hranges : ch.isAlphanum =
      (decide ('A' ≤ ch ∧ ch ≤ 'Z') || (decide ('a' ≤ ch) && decide (ch ≤ 'z')) ||
        (decide ('0' ≤ ch) && decide (ch ≤ '9'))) := rfl
  rw [hranges, Bool.or_eq_true, Bool.or_eq_true, Bool.and_eq_true, Bool.and_eq_true, or_assoc]
  simp only [decide_eq_true_eq, SlugChar]

/-- Lower case is of ASCII letters only, in the source as here. -/
theorem slugChar_toLower {ch : Char} (h : ch.isAlphanum = true) : SlugChar ch.toLower := by
  have h := isAlphanum_iff.mp h
  unfold SlugChar Char.toLower
  split
  · rename_i hupper
    refine .inl ?_
    simp only [Char.le_def, UInt32.le_iff_toNat_le, UInt32.toNat_add] at hupper ⊢
    simp at hupper ⊢
    omega
  · rename_i hupper
    exact h.resolve_left hupper

theorem SlugChar.isAlphanum {ch : Char} (h : SlugChar ch) : ch.isAlphanum = true :=
  isAlphanum_iff.mpr (.inr h)

theorem SlugChar.toLower {ch : Char} (h : SlugChar ch) : ch.toLower = ch := by
  refine dif_neg fun hupper => ?_
  simp only [SlugChar, Char.le_def, UInt32.le_iff_toNat_le, ge_iff_le] at h hupper
  simp at h hupper
  omega

/-! ## Words of the grammar -/

theorem mem_word {w : List Char} : w ∈ word ↔ w ≠ [] ∧ ∀ ch ∈ w, SlugChar ch := by
  unfold word
  rw [Language.mem_mul]
  constructor
  · rintro ⟨_, ⟨ch, hch, rfl⟩, rest, hrest, rfl⟩
    obtain ⟨ls, rfl, hls⟩ := Language.mem_kstar.mp hrest
    refine ⟨by simp, List.forall_mem_cons.mpr ⟨hch, fun ch' hmem => ?_⟩⟩
    obtain ⟨l, hl, hmem⟩ := List.mem_flatten.mp hmem
    obtain ⟨ch'', hch'', rfl⟩ := hls l hl
    rw [List.mem_singleton.mp hmem]
    exact hch''
  · rintro ⟨hne, hall⟩
    obtain ⟨ch, rest, rfl⟩ := List.exists_cons_of_ne_nil hne
    obtain ⟨hch, hrest⟩ := List.forall_mem_cons.mp hall
    refine ⟨[ch], ⟨ch, hch, rfl⟩, rest, ?_, rfl⟩
    refine Language.mem_kstar.mpr ⟨rest.map fun ch => [ch], ?_, fun l hl => ?_⟩
    · rw [← List.flatMap_def, List.flatMap_singleton']
    · obtain ⟨ch', hmem, rfl⟩ := List.mem_map.mp hl
      exact ⟨ch', hrest ch' hmem, rfl⟩

/-- More words, each behind its separator. -/
theorem mem_more {l : List Char} :
    l ∈ ({['_']} * word)∗ ↔
      ∃ ws : List (List Char), (∀ w ∈ ws, w ∈ word) ∧ l = ws.flatMap fun w => '_' :: w := by
  rw [Language.mem_kstar]
  constructor
  · rintro ⟨ls, rfl, hls⟩
    induction ls with
    | nil => exact ⟨[], by simp, rfl⟩
    | cons l ls ih =>
      obtain ⟨hl, hrest⟩ := List.forall_mem_cons.mp hls
      obtain ⟨ws, hws, heq⟩ := ih hrest
      obtain ⟨sep, hsep, w, hw, rfl⟩ := Language.mem_mul.mp hl
      obtain rfl : sep = ['_'] := hsep
      exact ⟨w :: ws, List.forall_mem_cons.mpr ⟨hw, hws⟩, by rw [List.flatten_cons, heq]; rfl⟩
  · rintro ⟨ws, hws, rfl⟩
    refine ⟨ws.map fun w => '_' :: w, List.flatMap_def, fun l hl => ?_⟩
    obtain ⟨w, hw, rfl⟩ := List.mem_map.mp hl
    exact Language.mem_mul.mpr ⟨['_'], rfl, w, hws w hw, rfl⟩

/-- The grammar in terms of its words. -/
theorem canonical_iff {s : String} :
    Canonical s ↔ ∃ ws, (∀ w ∈ ws, w ∈ word) ∧ s.toList = ['_'].intercalate ws := by
  unfold Canonical slugGrammar
  constructor
  · rintro (rfl | hs)
    · exact ⟨[], by simp, rfl⟩
    · obtain ⟨w, hw, l, hl, heq⟩ := Language.mem_mul.mp hs
      obtain ⟨ws, hws, rfl⟩ := mem_more.mp hl
      exact ⟨w :: ws, List.forall_mem_cons.mpr ⟨hw, hws⟩, by rw [intercalate_cons, heq]⟩
  · rintro ⟨ws, hws, heq⟩
    cases ws with
    | nil => exact .inl (String.toList_inj.mp (by simpa using heq))
    | cons w ws =>
      obtain ⟨hw, hrest⟩ := List.forall_mem_cons.mp hws
      rw [intercalate_cons] at heq
      refine .inr (Language.mem_mul.mpr ⟨w, hw, _, mem_more.mpr ⟨ws, hrest, rfl⟩, heq.symm⟩)

/-! ## The loop -/

/-- The runs of ASCII letters and digits, in lower case. -/
def slugWords (input : String) : List (List Char) :=
  (maximalRuns Char.isAlphanum input.toList).map (List.map Char.toLower)

/-- Every word that is over stands with a separator behind it, and the one that is going on
without; the flag says that none is going on. -/
theorem slugify_loop (input : List Char) :
    ∃ ended going, input.splitOnP (fun ch => !ch.isAlphanum) = ended ++ [going] ∧
      input.foldl slugifyStep ([], true) =
        (((ended.filter fun w => !w.isEmpty).map (List.map Char.toLower)).flatMap
            (fun w => w ++ ['_']) ++ going.map Char.toLower, going.isEmpty) := by
  induction input using List.reverseRecOn with
  | nil => exact ⟨[], [], by simp, rfl⟩
  | append_singleton input ch ih =>
    obtain ⟨ended, going, hsplit, hfold⟩ := ih
    rw [List.foldl_append, hfold]
    by_cases hch : ch.isAlphanum = true
    · refine ⟨ended, going ++ [ch], splitOnP_concat hsplit (by simp [hch]), ?_⟩
      simp [slugifyStep, hch]
    · refine ⟨ended ++ [going], [], ?_, ?_⟩
      · rw [splitOnP_concat_sep input (by simpa using hch), hsplit]
      · cases going with
        | nil => simp [slugifyStep, hch]
        | cons first rest => simp [slugifyStep, hch]

/-- A slug is its words with a separator between them. -/
theorem slugify_words (input : String) :
    (slugify input).toList = ['_'].intercalate (slugWords input) := by
  obtain ⟨ended, going, hsplit, hfold⟩ := slugify_loop input.toList
  have hruns : slugWords input = ((ended.filter fun w => !w.isEmpty).map (List.map Char.toLower)) ++
      (([going].filter fun w => !w.isEmpty).map (List.map Char.toLower)) := by
    unfold slugWords maximalRuns
    rw [hsplit, List.filter_append, List.map_append]
  unfold slugify
  rw [hfold, String.toList_ofList, hruns]
  generalize (ended.filter fun w => !w.isEmpty).map (List.map Char.toLower) = done
  cases hgoing : going with
  | nil =>
    rcases List.eq_nil_or_concat done with rfl | ⟨front, last, rfl⟩
    · rfl
    · simp [List.concat_eq_append, intercalate_concat]
  | cons first rest =>
    -- the slug ends in a letter or a digit, so nothing is cut off
    have hkept : (done.flatMap (fun w => w ++ ['_']) ++
        (first :: rest).map Char.toLower).getLast? ≠ some '_' := by
      rw [List.getLast?_append_of_ne_nil _ (by simp)]
      intro hlast
      obtain ⟨ch, hch, hlower⟩ := List.mem_map.mp (List.mem_of_getLast? hlast)
      have hmem : first :: rest ∈ input.toList.splitOnP fun ch => !ch.isAlphanum := by
        rw [hsplit, hgoing]
        simp
      have halnum : ch.isAlphanum = true := by simpa using mem_splitOnP hmem ch hch
      exact absurd (hlower ▸ slugChar_toLower halnum) (by unfold SlugChar; decide)
    rw [if_neg hkept]
    exact (intercalate_concat '_' done _).symm

theorem slugWords_word {input : String} {w : List Char} (hw : w ∈ slugWords input) :
    w ∈ word := by
  obtain ⟨run, hrun, rfl⟩ := List.mem_map.mp hw
  obtain ⟨hne, hcounts⟩ := run_of_mem hrun
  refine mem_word.mpr ⟨by simpa using hne, fun ch hch => ?_⟩
  obtain ⟨ch', hch', rfl⟩ := List.mem_map.mp hch
  exact slugChar_toLower (hcounts ch' hch')

/-- Words of the grammar stay as they are. -/
theorem slugWords_of_words {input : String} {ws : List (List Char)} (hws : ∀ w ∈ ws, w ∈ word)
    (hinput : input.toList = ['_'].intercalate ws) : slugWords input = ws := by
  have hruns : ∀ w ∈ ws, Run Char.isAlphanum w := fun w hw =>
    ⟨(mem_word.mp (hws w hw)).1, fun ch hch => ((mem_word.mp (hws w hw)).2 ch hch).isAlphanum⟩
  unfold slugWords
  rw [hinput, maximalRuns_intercalate (by decide) hruns]
  have hlower : ∀ w ∈ ws, w.map Char.toLower = w := by
    intro w hw
    have hsame : ∀ ch ∈ w, ch.toLower = id ch := fun ch hch =>
      ((mem_word.mp (hws w hw)).2 ch hch).toLower
    rw [List.map_congr_left hsame, List.map_id]
  rw [List.map_congr_left (g := id) hlower, List.map_id]

/-! ## Canonical keys -/

theorem slugify_canonical (input : String) : Canonical (slugify input) :=
  canonical_iff.mpr ⟨slugWords input, fun _ hw => slugWords_word hw, slugify_words input⟩

/-- The slug has the words of the text. -/
theorem slugWords_slugify (input : String) : slugWords (slugify input) = slugWords input :=
  slugWords_of_words (fun _ hw => slugWords_word hw) (slugify_words input)

theorem slugify_eq_iff {input other : String} :
    slugify input = slugify other ↔ slugWords input = slugWords other := by
  constructor
  · intro heq
    rw [← slugWords_slugify input, heq, slugWords_slugify]
  · intro heq
    refine String.toList_inj.mp ?_
    rw [slugify_words, slugify_words, heq]

theorem slugify_fixed_iff {input : String} : slugify input = input ↔ Canonical input := by
  constructor
  · intro heq
    exact heq ▸ slugify_canonical input
  · intro hcanonical
    obtain ⟨ws, hws, hinput⟩ := canonical_iff.mp hcanonical
    refine String.toList_inj.mp ?_
    rw [slugify_words, slugWords_of_words hws hinput, hinput]

/-- Whatever the stabilizer lets through has a canonical key. -/
theorem stabilized_key {D : Type} {L : DecimalLib D} {lower : Lower} {intent : ScrubbedIntent}
    {veto : VetoOutcome} {inventory : List GroceryItem} {s : StabilizedMutation}
    (hs : validate_and_stabilize L lower intent veto inventory = .ok s) :
    Canonical veto.resolved_item_key := by
  obtain ⟨hkey, hslug, -⟩ := validate_and_stabilize_ok hs
  rw [hkey] at hslug
  exact slugify_fixed_iff.mp hslug

/-- A deletion is asked for nothing but its category and its key. -/
theorem deletion_stabilized {D : Type} {L : DecimalLib D} {lower : Lower} {intent : ScrubbedIntent}
    {veto : VetoOutcome} {inventory : List GroceryItem} {category : GroceryCategory}
    (hcategory : verify_category_registry veto.category_assignment = .ok category)
    (hop : intent.operation = .Delete) (hkey : Canonical veto.resolved_item_key) :
    ∃ s, validate_and_stabilize L lower intent veto inventory = .ok s := by
  unfold validate_and_stabilize
  rw [hcategory]
  dsimp only
  rw [if_neg (not_not.mpr (slugify_fixed_iff.mpr hkey)), if_pos hop]
  exact ⟨_, rfl⟩

/-- Slugs are canonical and stay as they are, the keys that the stabilizer lets through are just
the canonical ones, and a slug tells no more of a text than its words. -/
theorem slug_canonical_form :
    (∀ input, Canonical (slugify input)) ∧
      (∀ input, slugify (slugify input) = slugify input) ∧
      (∀ input, slugify input = input ↔ Canonical input) ∧
      (∀ input other, slugify input = slugify other ↔ slugWords input = slugWords other) ∧
      ∀ (D : Type) (L : DecimalLib D) (lower : Lower) (intent : ScrubbedIntent)
        (veto : VetoOutcome) (inventory : List GroceryItem),
        (∀ s, validate_and_stabilize L lower intent veto inventory = .ok s →
          Canonical veto.resolved_item_key) ∧
        ∀ category, verify_category_registry veto.category_assignment = .ok category →
          intent.operation = .Delete → Canonical veto.resolved_item_key →
            ∃ s, validate_and_stabilize L lower intent veto inventory = .ok s := by
  refine ⟨slugify_canonical, fun input => slugify_fixed_iff.mpr (slugify_canonical input),
    fun _ => slugify_fixed_iff, fun _ _ => slugify_eq_iff, ?_⟩
  intro D L lower intent veto inventory
  exact ⟨fun _ hs => stabilized_key hs,
    fun _ hcategory hop hkey => deletion_stabilized hcategory hop hkey⟩

end common.slug
