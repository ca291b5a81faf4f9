import Mathlib.Data.List.TakeWhile
import Mathlib.Data.Nat.Digits.Lemmas
import Mathlib.Tactic.IntervalCases

namespace PluginSearch

/-- The characters of a C string before its terminator. -/
abbrev CString := List Char

namespace Numeral

/-- Value of a digit character of either case; 36 stands for no digit. -/
def digitValue (c : Char) : Nat :=
  if '0' ≤ c ∧ c ≤ '9' then c.toNat - 48
  else if 'a' ≤ c ∧ c ≤ 'z' then c.toNat - 87
  else if 'A' ≤ c ∧ c ≤ 'Z' then c.toNat - 55
  else 36

def isDigitOf (base : Nat) (c : Char) : Bool := digitValue c < base

def valueOf (base : Nat) (digits : CString) : Nat :=
  digits.foldl (fun number c => number * base + digitValue c) 0

def isSpace (c : Char) : Bool := c ∈ [' ', '\t', '\n', '\x0b', '\x0c', '\r']

def saturate (number : Int) : Int := max (-2 ^ 63) (min number (2 ^ 63 - 1))

/-- An optional sign: whether it was a minus, and what follows. -/
def signed : CString → Bool × CString
  | '-' :: rest => (true, rest)
  | '+' :: rest => (false, rest)
  | rest => (false, rest)

/-- The prefix of base 16 is read only in front of a hexadecimal digit. -/
def stripHexPrefix : CString → CString
  | '0' :: mark :: digit :: rest =>
    if (mark = 'x' ∨ mark = 'X') ∧ isDigitOf 16 digit then digit :: rest
    else '0' :: mark :: digit :: rest
  | text => text

/-- `strtoll(nptr, &endptr, base)`: the saturated value and the text at
`endptr`, which is all of `nptr` when there is no digit to convert. -/
def strtoll (nptr : CString) (base : Nat) : Int × CString :=
  let (negative, body) := signed (nptr.dropWhile isSpace)
  let body := if base = 16 then stripHexPrefix body else body
  let digits := body.takeWhile (isDigitOf base)
  if digits.isEmpty then (0, nptr)
  else (saturate (if negative then -valueOf base digits else valueOf base digits),
    body.dropWhile (isDigitOf base))

/-- The base that base 0 stands for: a prefix `0x` or `0` tells it. -/
def detectedBase (nptr : CString) : Nat :=
  match (signed (nptr.dropWhile isSpace)).2 with
  | '0' :: mark :: _ => if mark = 'x' ∨ mark = 'X' then 16 else 8
  | ['0'] => 8
  | _ => 10

/-- `strtol(nptr, &endptr, 0)`, where `long` has 64 bits. -/
def strtol (nptr : CString) : Int × CString := strtoll nptr (detectedBase nptr)

/-- `%llx`: the two's complement bits in hexadecimal. -/
def llx (number : Int) : CString := Nat.toDigits 16 (number % 2 ^ 64).toNat

def lld (number : Int) : CString :=
  if number < 0 then '-' :: Nat.toDigits 10 (-number).toNat else Nat.toDigits 10 number.toNat

theorem valueOf_append (base : Nat) (front back : CString) :
    valueOf base (front ++ back) = valueOf base front * base ^ back.length + valueOf base back := by
  induction back using List.reverseRecOn with
  | nil => simp [valueOf]
  | append_singleton back c ih =>
    have step (digits : CString) : valueOf base (digits ++ [c]) = valueOf base digits * base + digitValue c := by
      simp [valueOf]
    rw [← List.append_assoc, step, step, ih, List.length_append, List.length_singleton, pow_succ]
    ring

theorem valueOf_singleton (base : Nat) (c : Char) : valueOf base [c] = digitValue c := by
  simp [valueOf]

theorem valueOf_cons (base : Nat) (c : Char) (digits : CString) :
    valueOf base (c :: digits) = digitValue c * base ^ digits.length + valueOf base digits := by
  rw [← List.singleton_append, valueOf_append, valueOf_singleton]

theorem valueOf_lt (base : Nat) (digits : CString) (valid : ∀ c ∈ digits, isDigitOf base c = true) :
    valueOf base digits < base ^ digits.length := by
  induction digits with
  | nil => simp [valueOf]
  | cons c rest ih =>
    have head : digitValue c < base := by simpa [isDigitOf] using valid c (by simp)
    have tail := ih (fun other member => valid other (by simp [member]))
    rw [valueOf_cons, List.length_cons, pow_succ]
    calc digitValue c * base ^ rest.length + valueOf base rest
        < digitValue c * base ^ rest.length + base ^ rest.length := by omega
      _ = (digitValue c + 1) * base ^ rest.length := by ring
      _ ≤ base * base ^ rest.length := Nat.mul_le_mul_right _ head
      _ = base ^ rest.length * base := by ring

theorem valueOf_pos_iff (positive : 0 < base) (digits : CString) :
    0 < valueOf base digits ↔ ∃ c ∈ digits, digitValue c ≠ 0 := by
  induction digits with
  | nil => simp [valueOf]
  | cons c rest ih =>
    have place : 0 < base ^ rest.length := Nat.pow_pos positive
    rw [valueOf_cons, Nat.add_pos_iff_pos_or_pos, ih, Nat.mul_pos_iff_of_pos_right place]
    simp [Nat.pos_iff_ne_zero]

theorem isSpace_digit (within : base ≤ 36) (digit : isDigitOf base c = true) : isSpace c = false := by
  by_contra space
  simp only [isSpace, Bool.not_eq_false, decide_eq_true_eq, List.mem_cons, List.not_mem_nil,
    or_false] at space
  have large : 36 ≤ digitValue c := by
    rcases space with rfl | rfl | rfl | rfl | rfl | rfl <;> decide
  simp only [isDigitOf, decide_eq_true_eq] at digit
  omega

theorem signed_digit {base : Nat} (within : base ≤ 36) (digit : isDigitOf base c = true) (rest : CString) :
    signed (c :: rest) = (false, c :: rest) := by
  unfold signed
  split
  · rename_i same
    cases same
    simp [isDigitOf, digitValue] at digit
    omega
  · rename_i same
    cases same
    simp [isDigitOf, digitValue] at digit
    omega
  · rfl

private theorem takeWhile_all {digits : CString} (valid : ∀ c ∈ digits, isDigitOf base c = true) :
    digits.takeWhile (isDigitOf base) = digits ∧ digits.dropWhile (isDigitOf base) = [] :=
  ⟨List.takeWhile_eq_self_iff.mpr valid, List.dropWhile_eq_nil_iff.mpr valid⟩

/-- A text that is a numeral to its end: white space, an optional sign, digits. -/
structure Spells (base : Nat) (text blanks sign digits : CString) : Prop where
  parts : text = blanks ++ (sign ++ digits)
  blank : ∀ c ∈ blanks, isSpace c = true
  known : sign = [] ∨ sign = ['+'] ∨ sign = ['-']
  nonempty : digits ≠ []
  valid : ∀ c ∈ digits, isDigitOf base c = true

theorem Spells.of_digits {digits : CString} (nonempty : digits ≠ [])
    (valid : ∀ c ∈ digits, isDigitOf base c = true) : Spells base digits [] [] digits :=
  ⟨rfl, by simp, .inl rfl, nonempty, valid⟩

theorem Spells.strtoll_eq (spells : Spells base text blanks sign digits) (within : base ≤ 36) (plain : base ≠ 16) :
    strtoll text base =
      (saturate (if sign = ['-'] then -valueOf base digits else valueOf base digits), []) := by
  obtain ⟨rfl, blank, sign, nonempty, valid⟩ := spells
  obtain ⟨taken, dropped⟩ := takeWhile_all valid
  obtain ⟨c, rest, rfl⟩ := List.exists_cons_of_ne_nil nonempty
  have head := valid c (by simp)
  have passed (first : Char) (visible : isSpace first = false) (more : CString) :
      (blanks ++ first :: more).dropWhile isSpace = first :: more := by
    rw [List.dropWhile_append_of_pos blank]
    exact List.dropWhile_cons_of_neg (by simp [visible])
  rcases sign with rfl | rfl | rfl
  · simp only [strtoll, List.nil_append, passed c (isSpace_digit within head), signed_digit within head, ↓reduceIte,
      plain, taken, dropped]
    simp
  · simp only [strtoll, List.singleton_append, passed '+' (by decide), signed, ↓reduceIte, plain, taken, dropped]
    simp
  · simp only [strtoll, List.singleton_append, passed '-' (by decide), signed, ↓reduceIte, plain, taken, dropped]
    simp

theorem digitValue_blank (blank : isSpace c = true) : digitValue c = 36 := by
  simp only [isSpace, decide_eq_true_eq, List.mem_cons, List.not_mem_nil, or_false] at blank
  rcases blank with rfl | rfl | rfl | rfl | rfl | rfl <;> decide

theorem digitValue_sign (known : sign = [] ∨ sign = ['+'] ∨ sign = ['-']) (member : c ∈ sign) : digitValue c = 36 := by
  rcases known with rfl | rfl | rfl
  · cases member
  · rw [List.mem_singleton.mp member]
    decide
  · rw [List.mem_singleton.mp member]
    decide

theorem Spells.leading (spells : Spells base text blanks sign digits) (leads : blanks ++ sign ≠ []) :
    ∃ first rest, text = first :: rest ∧ digitValue first = 36 := by
  obtain ⟨rfl, blank, known, _, _⟩ := spells
  cases blanks with
  | cons first more => exact ⟨first, _, rfl, digitValue_blank (blank first (by simp))⟩
  | nil =>
    cases sign with
    | nil => exact absurd rfl leads
    | cons first more => exact ⟨first, _, rfl, digitValue_sign known (by simp)⟩

theorem signed_split (text : CString) :
    ∃ sign, (sign = [] ∨ sign = ['+'] ∨ sign = ['-']) ∧ text = sign ++ (signed text).2 := by
  unfold signed
  split
  · exact ⟨['-'], by simp, rfl⟩
  · exact ⟨['+'], by simp, rfl⟩
  · exact ⟨[], by simp, rfl⟩

/-- Only the empty text and a numeral are converted to their end. -/
theorem strtoll_consumed (plain : base ≠ 16) (consumed : (strtoll text base).2 = []) :
    text = [] ∨ ∃ blanks sign digits, Spells base text blanks sign digits := by
  obtain ⟨sign, known, split⟩ := signed_split (text.dropWhile isSpace)
  simp only [strtoll, plain, ↓reduceIte] at consumed
  split at consumed
  · exact .inl consumed
  · rename_i digits
    have all := List.dropWhile_eq_nil_iff.mp consumed
    refine .inr ⟨text.takeWhile isSpace, sign, (signed (text.dropWhile isSpace)).2, ?_, ?_, known, ?_, all⟩
    · rw [← split, List.takeWhile_append_dropWhile]
    · exact fun c member => List.mem_takeWhile_imp member
    · intro empty
      simp [empty] at digits

theorem strtoll_digits (within : base ≤ 36) (plain : base ≠ 16) {digits : CString}
    (nonempty : digits ≠ []) (valid : ∀ c ∈ digits, isDigitOf base c = true) :
    strtoll digits base = (saturate (valueOf base digits), []) :=
  (Spells.of_digits nonempty valid).strtoll_eq within plain

theorem strtoll_minus (within : base ≤ 36) (plain : base ≠ 16) {digits : CString}
    (nonempty : digits ≠ []) (valid : ∀ c ∈ digits, isDigitOf base c = true) :
    strtoll ('-' :: digits) base = (saturate (-valueOf base digits), []) := by
  have spells : Spells base ('-' :: digits) [] ['-'] digits := ⟨rfl, by simp, .inr (.inr rfl), nonempty, valid⟩
  exact spells.strtoll_eq within plain

theorem strtoll_hex {mark : Char} (marked : mark = 'x' ∨ mark = 'X') {digits : CString}
    (nonempty : digits ≠ []) (valid : ∀ c ∈ digits, isDigitOf 16 c = true) :
    strtoll ('0' :: mark :: digits) 16 = (saturate (valueOf 16 digits), []) := by
  obtain ⟨c, rest, rfl⟩ := List.exists_cons_of_ne_nil nonempty
  have head := valid c (by simp)
  obtain ⟨taken, dropped⟩ := takeWhile_all valid
  have start : ('0' :: mark :: c :: rest).dropWhile isSpace = '0' :: mark :: c :: rest :=
    List.dropWhile_cons_of_neg (by decide)
  have sign : signed ('0' :: mark :: c :: rest) = (false, '0' :: mark :: c :: rest) :=
    signed_digit (by decide : 16 ≤ 36) (by decide) _
  have stripped : stripHexPrefix ('0' :: mark :: c :: rest) = c :: rest := by
    simp [stripHexPrefix, marked, head]
  simp only [strtoll, start, sign, ↓reduceIte, stripped, taken, dropped, Bool.false_eq_true]
  simp

/-- Behind its prefix a hexadecimal text is converted to its end only if
digits, and nothing else, follow: a bare prefix is read as the digit 0. -/
theorem strtoll_hex_consumed {mark : Char} (marked : mark = 'x' ∨ mark = 'X') {rest : CString}
    (consumed : (strtoll ('0' :: mark :: rest) 16).2 = []) :
    rest ≠ [] ∧ ∀ c ∈ rest, isDigitOf 16 c = true := by
  have start : ('0' :: mark :: rest).dropWhile isSpace = '0' :: mark :: rest :=
    List.dropWhile_cons_of_neg (by decide)
  have sign : signed ('0' :: mark :: rest) = (false, '0' :: mark :: rest) :=
    signed_digit (by decide : 16 ≤ 36) (by decide) _
  have letter : isDigitOf 16 mark = false := by
    rcases marked with rfl | rfl <;> decide
  have zero : isDigitOf 16 '0' = true := by decide
  by_cases digit : ∃ c more, rest = c :: more ∧ isDigitOf 16 c = true
  · obtain ⟨c, more, rfl, digit⟩ := digit
    have stripped : stripHexPrefix ('0' :: mark :: c :: more) = c :: more := by
      simp [stripHexPrefix, marked, digit]
    simp only [strtoll, start, sign, ↓reduceIte, stripped] at consumed
    refine ⟨by simp, List.dropWhile_eq_nil_iff.mp ?_⟩
    simpa [digit] using consumed
  · have kept : stripHexPrefix ('0' :: mark :: rest) = '0' :: mark :: rest := by
      cases rest with
      | nil => rfl
      | cons c more =>
        have foreign : ¬ isDigitOf 16 c = true := fun valid => digit ⟨c, more, rfl, valid⟩
        simp [stripHexPrefix, foreign]
    simp [strtoll, start, sign, kept, zero, letter] at consumed

theorem saturate_of_range {number : Int} (low : -2 ^ 63 ≤ number) (high : number < 2 ^ 63) :
    saturate number = number := by
  unfold saturate
  omega

theorem saturate_range (number : Int) : -2 ^ 63 ≤ saturate number ∧ saturate number < 2 ^ 63 := by
  unfold saturate
  omega

theorem strtoll_range (text : CString) (base : Nat) :
    -2 ^ 63 ≤ (strtoll text base).1 ∧ (strtoll text base).1 < 2 ^ 63 := by
  simp only [strtoll]
  generalize (if base = 16 then stripHexPrefix (signed (text.dropWhile isSpace)).2
    else (signed (text.dropWhile isSpace)).2) = body
  split
  · norm_num
  · exact saturate_range _

theorem digitValue_digitChar (small : digit < 16) : digitValue (Nat.digitChar digit) = digit := by
  interval_cases digit <;> decide

theorem valueOf_toDigits (low : 1 < base) (high : base ≤ 16) (number : Nat) :
    valueOf base (Nat.toDigits base number) = number := by
  induction number using Nat.strongRecOn with
  | ind number ih =>
    rcases Nat.lt_or_ge number base with small | large
    · rw [Nat.toDigits_of_lt_base small, valueOf_singleton, digitValue_digitChar (by omega)]
    · have smaller : number / base < number := Nat.div_lt_self (by omega) low
      have last : number % base < 16 := lt_of_lt_of_le (Nat.mod_lt _ (by omega)) high
      rw [Nat.toDigits_of_base_le low large, valueOf_append, ih _ smaller, valueOf_singleton,
        digitValue_digitChar last, List.length_singleton, pow_one, Nat.mul_comm]
      exact Nat.div_add_mod number base

theorem toDigits_valid (low : 1 < base) (high : base ≤ 16) (number : Nat) :
    ∀ c ∈ Nat.toDigits base number, isDigitOf base c = true := by
  induction number using Nat.strongRecOn with
  | ind number ih =>
    intro c member
    rcases Nat.lt_or_ge number base with small | large
    · rw [Nat.toDigits_of_lt_base small, List.mem_singleton] at member
      subst member
      simpa [isDigitOf, digitValue_digitChar (by omega : number < 16)] using small
    · have smaller : number / base < number := Nat.div_lt_self (by omega) low
      have last : number % base < base := Nat.mod_lt _ (by omega)
      rw [Nat.toDigits_of_base_le low large] at member
      rcases List.mem_append.mp member with front | back
      · exact ih _ smaller c front
      · rw [List.mem_singleton] at back
        subst back
        simpa [isDigitOf, digitValue_digitChar (by omega : number % base < 16)] using last

theorem strtoll_lld {number : Int} (low : -2 ^ 63 ≤ number) (high : number < 2 ^ 63) :
    strtoll (lld number) 10 = (number, []) := by
  have valid (n : Nat) := toDigits_valid (by decide : 1 < 10) (by decide) n
  have value (n : Nat) := valueOf_toDigits (by decide : 1 < 10) (by decide) n
  unfold lld
  split
  · rename_i negative
    have magnitude : (((-number).toNat : Nat) : Int) = -number := Int.toNat_of_nonneg (by omega)
    rw [strtoll_minus (by decide) (by decide) Nat.toDigits_ne_nil (valid _), value, magnitude, neg_neg,
      saturate_of_range low high]
  · rename_i positive
    have magnitude : ((number.toNat : Nat) : Int) = number := Int.toNat_of_nonneg (by omega)
    rw [strtoll_digits (by decide) (by decide) Nat.toDigits_ne_nil (valid _), value, magnitude,
      saturate_of_range low high]

end Numeral

end PluginSearch
