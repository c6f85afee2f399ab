-- Text as bytes. Two texts are in the same order as their bytes, so a tree whose keys
-- are texts is walked in the order of the texts.
import Mathlib.Data.List.Lex
import Mathlib.Data.Fin.Basic
import Mathlib.Data.String.Basic
import Mathlib.Order.Fin.Basic

namespace utf8

/-- The bytes of one character: one to four of them. -/
def ofChar (c : Char) : List (Fin 256) := (String.utf8EncodeChar c).map UInt8.toFin

def encode (s : String) : List (Fin 256) := s.toByteArray.data.toList.map UInt8.toFin

def decode (cs : List (Fin 256)) : Except String String :=
  let data := ByteArray.mk (cs.map UInt8.ofFin).toArray
  if h : data.IsValidUTF8 then .ok ⟨data, h⟩
  else .error "invalid string value: data is not UTF-8 encoded"

theorem decode_encode (s : String) : decode (encode s) = .ok s := by
  have hid : UInt8.ofFin ∘ UInt8.toFin = id := by
    funext c
    rfl
  have hbytes : ByteArray.mk ((encode s).map UInt8.ofFin).toArray = s.toByteArray := by
    unfold encode
    rw [List.map_map, hid, List.map_id]
  have hvalid : (ByteArray.mk ((encode s).map UInt8.ofFin).toArray).IsValidUTF8 := by
    rw [hbytes]
    exact s.isValidUTF8
  unfold decode
  dsimp only
  rw [dif_pos hvalid]
  congr 1
  exact String.toByteArray_inj.mp hbytes

theorem encode_eq (s : String) : encode s = s.toList.flatMap ofChar := by
  unfold encode ofChar
  rw [← List.map_flatMap, ← String.utf8Encode_toList, List.utf8Encode, List.toList_data_toByteArray]

/-- The first of the six-bit groups in which two numbers differ decides. -/
theorem group_lt {v w : Nat} (h : v < w) :
    v / 64 < w / 64 ∨ v / 64 = w / 64 ∧ v % 64 < w % 64 := by
  omega

theorem val_ofNat (n : Nat) : (UInt8.ofNat n).toFin.val = n % 256 := rfl

/-- The smaller one of two characters decides, whatever follows. -/
theorem ofChar_lt {c d : Char} (h : c < d) (r r' : List (Fin 256)) :
    ofChar c ++ r < ofChar d ++ r' := by
  have hlt : c.val.toNat < d.val.toNat := h
  have hd : d.val.toNat < 1114112 := by
    have := d.valid
    unfold UInt32.isValidChar Nat.isValidChar at this
    omega
  unfold ofChar String.utf8EncodeChar
  dsimp only
  generalize c.val.toNat = v at *
  generalize d.val.toNat = w at *
  have hgroups : v / 64 / 64 / 64 < w / 64 / 64 / 64 ∨ v / 64 / 64 / 64 = w / 64 / 64 / 64 ∧
      (v / 64 / 64 % 64 < w / 64 / 64 % 64 ∨ v / 64 / 64 % 64 = w / 64 / 64 % 64 ∧
        (v / 64 % 64 < w / 64 % 64 ∨ v / 64 % 64 = w / 64 % 64 ∧ v % 64 < w % 64)) := by
    rcases group_lt hlt with h₁ | ⟨h₁, h₁'⟩
    · rcases group_lt h₁ with h₂ | ⟨h₂, h₂'⟩
      · rcases group_lt h₂ with h₃ | ⟨h₃, h₃'⟩
        · exact .inl h₃
        · exact .inr ⟨h₃, .inl h₃'⟩
      · exact .inr ⟨by rw [h₂], .inr ⟨by rw [h₂], .inl h₂'⟩⟩
    · exact .inr ⟨by rw [h₁], .inr ⟨by rw [h₁], .inr ⟨by rw [h₁], h₁'⟩⟩⟩
  have h₁ (n : Nat) : n / 4096 = n / 64 / 64 := by omega
  have h₂ (n : Nat) : n / 262144 = n / 64 / 64 / 64 := by omega
  -- by the number of bytes that either takes
  split_ifs <;>
    simp only [List.map_cons, List.map_nil, List.cons_append, List.nil_append,
      List.cons_lt_cons_iff, Fin.lt_def, Fin.ext_iff, val_ofNat, h₁, h₂] <;>
    omega

theorem flatMap_ofChar_lt {cs ds : List Char} (h : cs < ds) :
    cs.flatMap ofChar < ds.flatMap ofChar := by
  induction cs generalizing ds with
  | nil =>
    cases ds with
    | nil => exact absurd h (lt_irrefl _)
    | cons d ds =>
      have hne : (d :: ds).flatMap ofChar ≠ [] := by
        simp [ofChar, String.utf8EncodeChar_ne_nil]
      obtain ⟨b, bs, hbs⟩ := List.exists_cons_of_ne_nil hne
      rw [hbs]
      exact List.nil_lt_cons b bs
  | cons c cs ih =>
    cases ds with
    | nil => cases h
    | cons d ds =>
      rw [List.flatMap_cons, List.flatMap_cons]
      rcases List.cons_lt_cons_iff.mp h with hlt | ⟨rfl, hlt⟩
      · exact ofChar_lt hlt _ _
      · exact List.append_left_lt (ih hlt)

theorem encode_strictMono : StrictMono encode := by
  intro s t h
  rw [encode_eq, encode_eq]
  exact flatMap_ofChar_lt (String.lt_iff_toList_lt.mp h)

theorem encode_ne {s t : String} (h : s ≠ t) : encode s ≠ encode t :=
  encode_strictMono.injective.ne h

/-! ## Cuts -/

/-- The number of bytes that the characters take. -/
def size (cs : List Char) : Nat := (cs.flatMap ofChar).length

@[simp] theorem size_nil : size [] = 0 := rfl

@[simp] theorem size_append (cs ds : List Char) : size (cs ++ ds) = size cs + size ds := by
  simp [size]

@[simp] theorem size_cons (c : Char) (cs : List Char) :
    size (c :: cs) = (ofChar c).length + size cs := by
  simp [size]

theorem ofChar_length_pos (c : Char) : 0 < (ofChar c).length := by
  have hne := String.utf8EncodeChar_ne_nil (c := c)
  simpa [ofChar] using List.length_pos_of_ne_nil hne

/-- The characters before a place in the bytes, unless the place is inside of a character or
beyond the end. -/
def before : List Char → Nat → Option (List Char)
  | _, 0 => some []
  | [], _ + 1 => none
  | c :: cs, n + 1 =>
    if (ofChar c).length ≤ n + 1 then
      (before cs (n + 1 - (ofChar c).length)).map (c :: ·)
    else none

theorem before_eq_some_iff {cs ds : List Char} {n : Nat} :
    before cs n = some ds ↔ ds <+: cs ∧ size ds = n := by
  induction cs generalizing n ds with
  | nil =>
    cases n with
    | zero => cases ds <;> simp [before]
    | succ n =>
      simp only [before, reduceCtorEq, List.prefix_nil, false_iff, not_and]
      rintro rfl
      simp
  | cons c cs ih =>
    cases ds with
    | nil =>
      cases n with
      | zero => simp [before]
      | succ n => simp [before]
    | cons d ds =>
      have hpos := ofChar_length_pos c
      cases n with
      | zero =>
        have hpos' := ofChar_length_pos d
        simp only [before, Option.some.injEq, reduceCtorEq, size_cons, false_iff, not_and]
        omega
      | succ n =>
        rw [before, List.cons_prefix_cons, size_cons]
        split
        · simp only [Option.map_eq_some_iff, ih, List.cons.injEq, existsAndEq, and_true]
          constructor
          · rintro ⟨⟨hpre, hsize⟩, rfl⟩
            exact ⟨⟨rfl, hpre⟩, by omega⟩
          · rintro ⟨⟨rfl, hpre⟩, hsize⟩
            exact ⟨⟨hpre, by omega⟩, rfl⟩
        · simp only [reduceCtorEq, false_iff, not_and]
          rintro ⟨rfl, -⟩
          omega

def is_char_boundary (cs : List Char) (n : Nat) : Bool := (before cs n).isSome

theorem is_char_boundary_iff {cs : List Char} {n : Nat} :
    is_char_boundary cs n = true ↔ ∃ ds, ds <+: cs ∧ size ds = n := by
  simp only [is_char_boundary, Option.isSome_iff_exists, before_eq_some_iff]

/-- The last boundary up to a place. -/
def floor_boundary (cs : List Char) : Nat → Nat
  | 0 => 0
  | n + 1 => if is_char_boundary cs (n + 1) then n + 1 else floor_boundary cs n

theorem floor_boundary_is (cs : List Char) (n : Nat) :
    is_char_boundary cs (floor_boundary cs n) = true := by
  induction n with
  | zero => exact is_char_boundary_iff.mpr ⟨[], List.nil_prefix, rfl⟩
  | succ n ih =>
    rw [floor_boundary]
    split
    · assumption
    · exact ih

theorem floor_boundary_le (cs : List Char) (n : Nat) : floor_boundary cs n ≤ n := by
  induction n with
  | zero => exact le_refl _
  | succ n ih =>
    rw [floor_boundary]
    split
    · exact le_refl _
    · exact ih.trans (Nat.le_succ n)

/-- The whole characters that fit into a number of bytes. -/
def cut (cs : List Char) (n : Nat) : List Char :=
  (before cs (floor_boundary cs n)).get (floor_boundary_is cs n)

theorem cut_spec (cs : List Char) (n : Nat) :
    cut cs n <+: cs ∧ size (cut cs n) = floor_boundary cs n :=
  before_eq_some_iff.mp (Option.some_get _).symm

theorem size_cut_le (cs : List Char) (n : Nat) : size (cut cs n) ≤ n :=
  (cut_spec cs n).2 ▸ floor_boundary_le cs n

end utf8
