import PluginSearch.Basis.Numeral

namespace PluginSearch.Numeral

theorem toDigits_length_mono (low : 1 < base) (more : base ≤ larger) (number : Nat) :
    (Nat.toDigits larger number).length ≤ (Nat.toDigits base number).length := by
  have positive : 0 < (Nat.toDigits base number).length := Nat.length_toDigits_pos
  have fits := (Nat.length_toDigits_le_iff low positive).mp (Nat.le_refl _)
  exact (Nat.length_toDigits_le_iff (by omega) positive).mpr (fits.trans_le (Nat.pow_le_pow_left more _))

theorem toDigits_length_le (low : 1 < base) {digits : CString} (nonempty : digits ≠ [])
    (valid : ∀ c ∈ digits, isDigitOf base c = true) (bound : number ≤ valueOf base digits) :
    (Nat.toDigits base number).length ≤ digits.length :=
  (Nat.length_toDigits_le_iff low (List.length_pos_of_ne_nil nonempty)).mpr
    (bound.trans_lt (valueOf_lt base digits valid))

theorem llx_nonneg {number : Int} (low : 0 ≤ number) (high : number < 2 ^ 63) :
    llx number = Nat.toDigits 16 number.toNat := by
  rw [llx, Int.emod_eq_of_lt low (by omega)]

theorem llx_length (number : Int) : (llx number).length ≤ 16 := by
  have bound : (number % 2 ^ 64).toNat < 16 ^ 16 := by omega
  exact (Nat.length_toDigits_le_iff (by decide) (by decide)).mpr bound

/-- A negative number is printed with all of its sixteen hexadecimal digits. -/
theorem llx_negative {number : Int} (low : -2 ^ 63 ≤ number) (high : number < 0) : (llx number).length = 16 := by
  refine Nat.le_antisymm (llx_length number) ?_
  have large : ¬ (number % 2 ^ 64).toNat < 16 ^ 15 := by omega
  have longer := mt (Nat.length_toDigits_le_iff (by decide : 1 < 16) (by decide : 0 < 15)).mp large
  rw [llx]
  omega

theorem digitValue_toLower (c : Char) : digitValue c.toLower = digitValue c := by
  by_cases upper : 'A' ≤ c ∧ c ≤ 'Z'
  · have low : 65 ≤ c.toNat := upper.1
    have high : c.toNat ≤ 90 := upper.2
    have same : c = Char.ofNat c.toNat := (Char.ofNat_toNat c).symm
    generalize c.toNat = code at low high same
    subst same
    interval_cases code <;> decide
  · have kept : c.toLower = c := dif_neg upper
    rw [kept]

theorem valueOf_map_toLower (base : Nat) (digits : CString) :
    valueOf base (digits.map Char.toLower) = valueOf base digits := by
  simp only [valueOf, List.foldl_map, digitValue_toLower]

/-- Digits of which a group makes one byte, rounded up to bytes, are the bytes
of the number, and one byte for zero. -/
theorem toDigits_length_grouped (low : 1 < base) (power : base ^ group = 256) (number size : Nat)
    (rounds : ∀ count, size ≤ count ↔ (Nat.toDigits base number).length ≤ group * count) :
    size = max 1 (Nat.digits 256 number).length := by
  have grouped : 0 < group := by
    by_contra ungrouped
    simp [Nat.eq_zero_of_not_pos ungrouped] at power
  apply eq_of_forall_ge_iff
  intro count
  cases count with
  | zero =>
    have positive : 0 < (Nat.toDigits base number).length := Nat.length_toDigits_pos
    rw [rounds]
    omega
  | succ count =>
    rw [rounds, Nat.length_toDigits_le_iff low (Nat.mul_pos grouped count.succ_pos), pow_mul, power, max_le_iff,
      Nat.digits_length_le_iff (by decide)]
    simp

/-- The text denotes a number below zero: a minus sign and a digit other than 0. -/
def BelowZero (arg : CString) : Prop := '-' ∈ arg ∧ ∃ c ∈ arg, 0 < digitValue c ∧ digitValue c < 10

instance (arg : CString) : Decidable (BelowZero arg) := inferInstanceAs (Decidable (_ ∧ _))

theorem Spells.minus_iff (spells : Spells 10 arg blanks sign digits) : '-' ∈ arg ↔ sign = ['-'] := by
  have noBlank : '-' ∉ blanks := by
    intro member
    exact absurd (spells.blank _ member) (by decide)
  have noDigit : '-' ∉ digits := by
    intro member
    exact absurd (spells.valid _ member) (by decide)
  rw [spells.parts, List.mem_append, List.mem_append]
  rcases spells.known with rfl | rfl | rfl <;> simp [noBlank, noDigit]

theorem Spells.nonzero_iff (spells : Spells 10 arg blanks sign digits) :
    (∃ c ∈ arg, 0 < digitValue c ∧ digitValue c < 10) ↔ 0 < valueOf 10 digits := by
  rw [valueOf_pos_iff (by decide)]
  constructor
  · rintro ⟨c, member, positive, small⟩
    rw [spells.parts, List.mem_append, List.mem_append] at member
    rcases member with blank | sign | digit
    · have foreign := digitValue_blank (spells.blank c blank)
      omega
    · have foreign := digitValue_sign spells.known sign
      omega
    · exact ⟨c, digit, by omega⟩
  · rintro ⟨c, digit, positive⟩
    have small : digitValue c < 10 := by simpa [isDigitOf] using spells.valid c digit
    refine ⟨c, ?_, Nat.pos_of_ne_zero positive, small⟩
    rw [spells.parts]
    exact List.mem_append_right _ (List.mem_append_right _ digit)

theorem Spells.belowZero_iff (spells : Spells 10 arg blanks sign digits) :
    BelowZero arg ↔ sign = ['-'] ∧ 0 < valueOf 10 digits := by
  rw [BelowZero, spells.minus_iff, spells.nonzero_iff]

private theorem renderings_nonneg {digits : CString} (nonempty : digits ≠ [])
    (valid : ∀ c ∈ digits, isDigitOf 10 c = true) {number : Int} (low : 0 ≤ number)
    (high : number < 2 ^ 63) (bound : number ≤ valueOf 10 digits) :
    (llx number).length ≤ digits.length ∧ (lld number).length ≤ digits.length := by
  have decimal : (Nat.toDigits 10 number.toNat).length ≤ digits.length :=
    toDigits_length_le (by decide) nonempty valid (by omega)
  constructor
  · rw [llx_nonneg low high]
    exact (toDigits_length_mono (by decide) (by decide) _).trans decimal
  · rw [lld, if_neg (by omega)]
    exact decimal

private theorem lld_negative {digits : CString} (nonempty : digits ≠ [])
    (valid : ∀ c ∈ digits, isDigitOf 10 c = true) (positive : 0 < valueOf 10 digits) :
    saturate (-(valueOf 10 digits : Int)) < 0 ∧
      (lld (saturate (-(valueOf 10 digits : Int)))).length ≤ digits.length + 1 := by
  have value : saturate (-(valueOf 10 digits : Int)) < 0 ∧
      (-saturate (-(valueOf 10 digits : Int))).toNat ≤ valueOf 10 digits := by
    unfold saturate
    omega
  refine ⟨value.1, ?_⟩
  rw [lld, if_pos value.1, List.length_cons]
  exact Nat.succ_le_succ (toDigits_length_le (by decide) nonempty valid value.2)

private theorem denotes_nonneg {digits : CString} (above : ¬ (sign = ['-'] ∧ 0 < valueOf 10 digits)) :
    (0 : Int) ≤ (if sign = ['-'] then -(valueOf 10 digits : Int) else valueOf 10 digits) ∧
      (if sign = ['-'] then -(valueOf 10 digits : Int) else valueOf 10 digits) ≤ valueOf 10 digits := by
  split
  · rename_i minus
    have zero : valueOf 10 digits = 0 := by
      by_contra positive
      exact above ⟨minus, Nat.pos_of_ne_zero positive⟩
    omega
  · omega

/-- Both renderings of a decimal argument fit in its place exactly when there
is a place at all, and sixteen characters of it for a number below zero. -/
theorem renderings_fit_iff (consumed : (strtoll arg 10).2 = []) :
    ((llx (strtoll arg 10).1).length ≤ arg.length ∧ (lld (strtoll arg 10).1).length ≤ arg.length) ↔
      arg ≠ [] ∧ (BelowZero arg → 16 ≤ arg.length) := by
  rcases strtoll_consumed (by decide) consumed with rfl | ⟨blanks, sign, digits, spells⟩
  · decide
  · have size : blanks.length + (sign.length + digits.length) = arg.length := by simp [spells.parts]
    have written : 0 < digits.length := List.length_pos_of_ne_nil spells.nonempty
    have nonempty : arg ≠ [] := List.ne_nil_of_length_pos (by omega)
    have below := spells.belowZero_iff
    rw [spells.strtoll_eq (by decide) (by decide)]
    by_cases negative : sign = ['-'] ∧ 0 < valueOf 10 digits
    · obtain ⟨under, decimal⟩ := lld_negative spells.nonempty spells.valid negative.2
      have signs : sign.length = 1 := by rw [negative.1]; rfl
      have printed : (lld (saturate (-(valueOf 10 digits : Int)))).length ≤ arg.length := by omega
      have hex := llx_negative (saturate_range (-(valueOf 10 digits : Int))).1 under
      simp [negative.1, hex, printed, nonempty, below, negative]
    · have value := denotes_nonneg negative
      generalize (if sign = ['-'] then -(valueOf 10 digits : Int) else valueOf 10 digits) = number at value ⊢
      have clamped : 0 ≤ saturate number ∧ saturate number ≤ valueOf 10 digits := by
        unfold saturate
        omega
      have fits := renderings_nonneg spells.nonempty spells.valid clamped.1 (saturate_range number).2 clamped.2
      have room : digits.length ≤ arg.length := by omega
      simp [fits.1.trans room, fits.2.trans room, nonempty, below, negative]

end PluginSearch.Numeral
