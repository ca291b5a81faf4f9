import Mathlib.Data.List.GetD
import Mathlib.Data.List.Infix
import Mathlib.Tactic.Ring

namespace PluginSearch.Memory

/-- `memcmp`: zero for equal ranges, else the sign of the first difference. -/
def memcmp (left right : Nat → UInt8) : Nat → Int
  | 0 => 0
  | count + 1 =>
    if left 0 = right 0 then memcmp (fun i => left (i + 1)) (fun i => right (i + 1)) count
    else (left 0).toNat - (right 0).toNat

theorem memcmp_eq_zero_iff (left right : Nat → UInt8) (count : Nat) :
    memcmp left right count = 0 ↔ ∀ i < count, left i = right i := by
  induction count generalizing left right with
  | zero => simp [memcmp]
  | succ count ih =>
    simp only [memcmp]
    split
    · rename_i same
      rw [ih]
      constructor
      · intro tail i below
        cases i with
        | zero => exact same
        | succ i => exact tail i (by omega)
      · intro all i below
        exact all (i + 1) (by omega)
    · rename_i differ
      have apart : (left 0).toNat ≠ (right 0).toNat := fun same => differ (UInt8.toNat_inj.mp same)
      constructor
      · omega
      · intro all
        exact absurd (all 0 (by omega)) differ

def imageBytes (image : Nat → UInt8) (count : Nat) : List UInt8 := (List.range count).map image

@[simp] theorem imageBytes_length (image : Nat → UInt8) (count : Nat) :
    (imageBytes image count).length = count := by
  simp [imageBytes]

/-- The needle stands in the buffer at this offset. -/
def OccursAt (needle buffer : List UInt8) (offset : Nat) : Prop := needle <+: buffer.drop offset

theorem infix_iff_occursAt (needle buffer : List UInt8) :
    needle <:+: buffer ↔ ∃ offset, offset + needle.length ≤ buffer.length ∧ OccursAt needle buffer offset := by
  constructor
  · intro found
    obtain ⟨before, after, rfl⟩ := found
    refine ⟨before.length, by simp, ?_⟩
    simp [OccursAt]
  · intro found
    obtain ⟨offset, -, occurs⟩ := found
    exact occurs.isInfix.trans (List.drop_suffix offset buffer).isInfix

theorem occursAt_image_iff (image : Nat → UInt8) (buffer : List UInt8) (offset count : Nat)
    (room : offset + count ≤ buffer.length) :
    OccursAt (imageBytes image count) buffer offset ↔
      ∀ i < count, buffer.getD (offset + i) 0 = image i := by
  simp only [OccursAt, List.prefix_iff_getElem, imageBytes_length]
  constructor
  · intro found i below
    obtain ⟨bound, same⟩ := found
    have here := same i below
    simp only [imageBytes, List.getElem_map, List.getElem_range, List.getElem_drop] at here
    rw [here, List.getD_eq_getElem _ _ (by omega)]
  · intro same
    refine ⟨by simp; omega, ?_⟩
    intro i below
    have here := same i below
    rw [List.getD_eq_getElem _ _ (by omega)] at here
    simp [imageBytes, here]

/-- The low bytes of a number, least significant first. -/
def littleEndian (number count : Nat) : List UInt8 :=
  (List.range count).map (fun place => UInt8.ofNat (number / 256 ^ place % 256))

theorem littleEndian_concat (small : low < 256 ^ count) (byte : high < 256) :
    littleEndian (high * 256 ^ count + low) (count + 1) = littleEndian low count ++ [UInt8.ofNat high] := by
  simp only [littleEndian, List.range_succ, List.map_append, List.map_singleton]
  congr 1
  · apply List.map_congr_left
    intro place member
    have below : place < count := List.mem_range.mp member
    obtain ⟨gap, rfl⟩ : ∃ gap, count = place + (gap + 1) := ⟨count - place - 1, by omega⟩
    have split : high * 256 ^ (place + (gap + 1)) = 256 ^ place * (256 * (high * 256 ^ gap)) := by ring
    rw [split, Nat.mul_add_div (Nat.pow_pos (by decide)), Nat.mul_add_mod]
  · rw [Nat.mul_comm, Nat.mul_add_div (Nat.pow_pos (by decide)), Nat.div_eq_of_lt small, Nat.add_zero,
      Nat.mod_eq_of_lt byte]

end PluginSearch.Memory
