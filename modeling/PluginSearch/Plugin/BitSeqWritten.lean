import PluginSearch.Basis.Rendering
import PluginSearch.Plugin.BitSeqInvariant

namespace PluginSearch.BitSeq

open Numeral Memory

inductive Radix where
  | hex
  | bin
  | dec
  deriving DecidableEq, Repr

def Radix.base : Radix → Nat
  | .hex => 16
  | .bin => 2
  | .dec => 10

def Radix.mark : Radix → CString
  | .hex => "0x".toList
  | .bin => "0b".toList
  | .dec => []

/-- The size the plugin computes from the digits, or from the saturated value. -/
def Radix.patSize (digits : CString) : Radix → Nat
  | .hex => (digits.length + 1) / 2
  | .bin => (digits.length + 7) / 8
  | .dec => ((llx (saturate (valueOf 10 digits))).length + 1) / 2

theorem numeralBase_digits {digits : CString} (valid : ∀ c ∈ digits, isDigitOf 10 c = true) :
    numeralBase digits = 10 := by
  apply numeralBase_plain
  intro mark letter member
  have digit := valid mark member
  simp only [List.mem_cons, List.not_mem_nil, or_false] at letter
  rcases letter with rfl | rfl | rfl | rfl <;> exact absurd digit (by decide)

/-- Every well-written argument is accepted, with a saturated value and a size
that counts its digits. -/
theorem readArgument_digits (radix : Radix) {digits : CString} (nonempty : digits ≠ [])
    (valid : ∀ c ∈ digits, isDigitOf radix.base c = true) :
    ∃ reading, readArgument (radix.mark ++ digits) = some reading ∧
      reading.pattern = saturate (valueOf radix.base digits) ∧ reading.patSize = radix.patSize digits := by
  cases radix with
  | hex =>
    have base : numeralBase ('0' :: 'x' :: digits) = 16 := by simp [numeralBase]
    have converted := strtoll_hex (Or.inl rfl : 'x' = 'x' ∨ 'x' = 'X') nonempty valid
    simp [readArgument, Radix.mark, base, converted, Radix.base, Radix.patSize]
  | bin =>
    have base : numeralBase ('0' :: 'b' :: digits) = 2 := by simp [numeralBase]
    have converted := strtoll_digits (by decide : 2 ≤ 36) (by decide) nonempty valid
    simp [readArgument, Radix.mark, base, converted, Radix.base, Radix.patSize]
  | dec =>
    have base := numeralBase_digits valid
    have converted := strtoll_digits (by decide : 10 ≤ 36) (by decide) nonempty valid
    simp [readArgument, Radix.mark, base, converted, Radix.base, Radix.patSize]

def pairBytes : CString → List UInt8
  | high :: low :: rest => UInt8.ofNat (digitValue high * 16 + digitValue low) :: pairBytes rest
  | _ => []

/-- The bytes a hexadecimal digit string writes from left to right; an odd
string gets one leading zero digit. -/
def writtenBytes (digits : CString) : List UInt8 :=
  pairBytes (if digits.length % 2 = 0 then digits else '0' :: digits)

private theorem exists_pair {digits : CString} (size : digits.length = 2 * (count + 1)) :
    ∃ high low rest, digits = high :: low :: rest ∧ rest.length = 2 * count := by
  cases digits with
  | nil => simp at size
  | cons high digits =>
    cases digits with
    | nil =>
      simp only [List.length_singleton] at size
      omega
    | cons low rest =>
      simp only [List.length_cons] at size
      exact ⟨high, low, rest, rfl, by omega⟩

private theorem pairBytes_reverse (count : Nat) : ∀ digits : CString, digits.length = 2 * count →
    (∀ c ∈ digits, isDigitOf 16 c = true) →
    (pairBytes digits).reverse = littleEndian (valueOf 16 digits) count := by
  induction count with
  | zero =>
    intro digits size valid
    simp [List.eq_nil_of_length_eq_zero size, pairBytes, littleEndian]
  | succ count ih =>
    intro digits size valid
    obtain ⟨high, low, rest, rfl, restSize⟩ := exists_pair size
    have restValid : ∀ c ∈ rest, isDigitOf 16 c = true := fun c member => valid c (by simp [member])
    have highDigit : digitValue high < 16 := by simpa [isDigitOf] using valid high (by simp)
    have lowDigit : digitValue low < 16 := by simpa [isDigitOf] using valid low (by simp)
    have small : valueOf 16 rest < 256 ^ count := by
      have bound := valueOf_lt 16 rest restValid
      rwa [restSize, pow_mul] at bound
    have value : valueOf 16 (high :: low :: rest) =
        (digitValue high * 16 + digitValue low) * 256 ^ count + valueOf 16 rest := by
      rw [valueOf_cons, valueOf_cons, List.length_cons, restSize, pow_succ, pow_mul]
      ring
    rw [pairBytes, List.reverse_cons, ih rest restSize restValid, value,
      littleEndian_concat small (by omega)]

theorem writtenBytes_length (digits : CString) : (writtenBytes digits).length = (digits.length + 1) / 2 := by
  have pairs (count : Nat) : ∀ digits : CString, digits.length = 2 * count →
      (pairBytes digits).length = count := by
    induction count with
    | zero =>
      intro digits size
      simp [List.eq_nil_of_length_eq_zero size, pairBytes]
    | succ count ih =>
      intro digits size
      obtain ⟨high, low, rest, rfl, restSize⟩ := exists_pair size
      simp [pairBytes, ih rest restSize]
  unfold writtenBytes
  split
  · rw [pairs (digits.length / 2) digits (by omega)]
    omega
  · rw [pairs ((digits.length + 1) / 2) _ (by simp; omega)]

/-- A small pattern lies in memory with its bytes in the reverse of the order
in which its hexadecimal digits write them. -/
theorem needle_eq_reverse {digits : CString} (valid : ∀ c ∈ digits, isDigitOf 16 c = true)
    (short : digits.length ≤ 16) (beyond : Nat → UInt8) :
    needle (valueOf 16 digits) beyond ((digits.length + 1) / 2) = (writtenBytes digits).reverse := by
  have bound := valueOf_lt 16 digits valid
  have fits : valueOf 16 digits < 2 ^ 64 := lt_of_lt_of_le bound
    ((Nat.pow_le_pow_right (by decide) short).trans (by decide))
  have memory : needle (valueOf 16 digits) beyond ((digits.length + 1) / 2) =
      littleEndian (valueOf 16 digits) ((digits.length + 1) / 2) := by
    apply List.map_congr_left
    intro place member
    have below : place < (digits.length + 1) / 2 := List.mem_range.mp member
    have inside : place < 8 := by omega
    have value : ((valueOf 16 digits : Int) % 2 ^ 64).toNat = valueOf 16 digits := by omega
    simp only [patternImage, inside, ↓reduceIte, value]
  rw [memory, writtenBytes]
  split
  · rw [pairBytes_reverse ((digits.length + 1) / 2) digits (by omega) valid]
  · have padded : ∀ c ∈ '0' :: digits, isDigitOf 16 c = true := by
      intro c member
      rcases List.mem_cons.mp member with rfl | digit
      · decide
      · exact valid c digit
    have zero : valueOf 16 ('0' :: digits) = valueOf 16 digits := by
      rw [valueOf_cons]
      simp [digitValue]
    rw [pairBytes_reverse ((digits.length + 1) / 2) ('0' :: digits) (by simp; omega) padded, zero]

theorem hexSearch_ret {digits : CString} (nonempty : digits ≠ [])
    (valid : ∀ c ∈ digits, isDigitOf 16 c = true) (short : digits.length ≤ 16)
    (small : valueOf 16 digits < 2 ^ 63) (file : FileAccess) (readable : file.Readable)
    (filled : file.content ≠ []) (block : Nat) :
    (pluginProcessFile file [bitSeqOption block (Radix.hex.mark ++ digits)] 1).map Outcome.ret =
      some (if (writtenBytes digits).reverse <:+: file.content then 1 else 0) := by
  obtain ⟨opens, measures, maps⟩ := readable
  obtain ⟨reading, read, pattern, size⟩ := readArgument_digits .hex nonempty valid
  have exactly : saturate (valueOf 16 digits) = valueOf 16 digits :=
    saturate_of_range (by omega) (by exact_mod_cast small)
  have bytes := needle_eq_reverse valid short file.beyond
  rw [pluginProcessFile_single]
  simp [outcomeOf, opens, measures, maps, filled, read, pattern, size, Radix.base, Radix.patSize, exactly, bytes]

/-- A hexadecimal argument is matched as written on exactly the files that
contain its bytes in both orders or in neither; on every file, only when its
bytes read the same in both directions. -/
theorem hexSearch_written_iff (digits : CString) (nonempty : digits ≠ [])
    (valid : ∀ c ∈ digits, isDigitOf 16 c = true) (short : digits.length ≤ 16)
    (small : valueOf 16 digits < 2 ^ 63) (block : Nat) :
    (∀ file : FileAccess, file.Readable → file.content ≠ [] →
      ((pluginProcessFile file [bitSeqOption block (Radix.hex.mark ++ digits)] 1).map Outcome.ret =
          some (if writtenBytes digits <:+: file.content then 1 else 0) ↔
        (writtenBytes digits <:+: file.content ↔ (writtenBytes digits).reverse <:+: file.content))) ∧
    ((∀ file : FileAccess, file.Readable → file.content ≠ [] →
      (pluginProcessFile file [bitSeqOption block (Radix.hex.mark ++ digits)] 1).map Outcome.ret =
          some (if writtenBytes digits <:+: file.content then 1 else 0)) ↔
      (writtenBytes digits).reverse = writtenBytes digits) := by
  have each (file : FileAccess) (readable : file.Readable) (filled : file.content ≠ []) :
      (pluginProcessFile file [bitSeqOption block (Radix.hex.mark ++ digits)] 1).map Outcome.ret =
          some (if writtenBytes digits <:+: file.content then 1 else 0) ↔
        (writtenBytes digits <:+: file.content ↔ (writtenBytes digits).reverse <:+: file.content) := by
    rw [hexSearch_ret nonempty valid short small file readable filled block]
    by_cases forward : writtenBytes digits <:+: file.content <;>
      by_cases backward : (writtenBytes digits).reverse <:+: file.content <;>
      simp [forward, backward]
  refine ⟨each, ?_, ?_⟩
  · intro always
    have size := writtenBytes_length digits
    have written : 0 < digits.length := List.length_pos_of_ne_nil nonempty
    let file : FileAccess := ⟨none, none, none, writtenBytes digits, by omega, fun _ => 0⟩
    have filled : file.content ≠ [] := List.ne_nil_of_length_pos (by show 0 < (writtenBytes digits).length; omega)
    have both := (each file ⟨rfl, rfl, rfl⟩ filled).mp (always file ⟨rfl, rfl, rfl⟩ filled)
    exact (both.mp (List.infix_refl _)).eq_of_length List.length_reverse
  · intro palindrome file readable filled
    exact (each file readable filled).mpr (by rw [palindrome])

/-- The documented invocation and the word it was taken from, in UTF-8. -/
def documentedFile : FileAccess :=
  ⟨none, none, none,
    [0xd0, 0xb2, 0xd0, 0xba, 0xd0, 0xbb, 0xd1, 0x8e, 0xd1, 0x87, 0xd0, 0xb0, 0xd1, 0x8f], by decide, fun _ => 0⟩

theorem hexSearch_misses_documented :
    writtenBytes "8ed187d0b0d1".toList <:+: documentedFile.content ∧
      (pluginProcessFile documentedFile [bitSeqOption 0 "0x8ed187d0b0d1".toList] 1).map Outcome.ret = some 0 := by
  decide

theorem hexSearch_written_one_byte :
    (pluginProcessFile documentedFile [bitSeqOption 0 (Radix.hex.mark ++ "b0".toList)] 1).map Outcome.ret =
      some (if writtenBytes "b0".toList <:+: documentedFile.content then 1 else 0) :=
  ((hexSearch_written_iff "b0".toList (by decide) (List.all_eq_true.mp (by decide)) (by decide) (by decide) 0).1
    documentedFile ⟨rfl, rfl, rfl⟩ (by decide)).mpr (by decide)

/-- The digits denote a number below 2^63 and, where the size is counted from
the digits, there are at most eight bytes of them. -/
def Radix.Exact (digits : CString) : Radix → Prop
  | .hex => valueOf 16 digits < 2 ^ 63 ∧ digits.length ≤ 16
  | .bin => valueOf 2 digits < 2 ^ 63 ∧ digits.length ≤ 64
  | .dec => valueOf 10 digits < 2 ^ 63

/-- The call fails, or it compares at most the eight bytes of a pattern that is
the number given. -/
def Faithful (number : Nat) (outcome : Outcome) : Prop :=
  outcome.ret = -1 ∨ ∃ pattern pSize, PluginEvent.searched pattern pSize ∈ outcome.events ∧
    pSize ≤ 8 ∧ pattern % 2 ^ 64 = number

private theorem saturate_exact_iff (number : Nat) :
    saturate number % 2 ^ 64 = (number : Int) ↔ number < 2 ^ 63 := by
  unfold saturate
  omega

theorem Radix.exact_iff (radix : Radix) (digits : CString) :
    radix.Exact digits ↔
      radix.patSize digits ≤ 8 ∧ saturate (valueOf radix.base digits) % 2 ^ 64 = valueOf radix.base digits := by
  rw [saturate_exact_iff]
  cases radix with
  | hex => simp only [Radix.Exact, Radix.patSize, Radix.base]; omega
  | bin => simp only [Radix.Exact, Radix.patSize, Radix.base]; omega
  | dec =>
    have bound := llx_length (saturate (valueOf 10 digits))
    simp only [Radix.Exact, Radix.patSize, Radix.base]
    omega

private theorem searched_not_written (read : readArgument arg = some reading) :
    PluginEvent.searched pattern pSize ∉ reading.writes := by
  rcases readArgument_cases read with ⟨_, _, rfl⟩ | ⟨_, _, rfl⟩ | ⟨_, _, rfl⟩ <;> simp

theorem outcomeOf_searched (read : readArgument arg = some reading) (file : FileAccess)
    (readable : file.Readable) (filled : file.content ≠ []) (block : Nat) :
    (outcomeOf file block arg).ret ≠ -1 ∧
      ∀ pattern pSize, PluginEvent.searched pattern pSize ∈ (outcomeOf file block arg).events ↔
        pattern = reading.pattern ∧ pSize = reading.patSize := by
  obtain ⟨opens, measures, maps⟩ := readable
  have noWrite (pattern : Int) (pSize : Nat) : PluginEvent.searched pattern pSize ∉ reading.writes :=
    searched_not_written read
  simp only [outcomeOf, opens, measures, maps, List.length_eq_zero_iff, filled, ↓reduceIte, read]
  refine ⟨by split <;> decide, ?_⟩
  intro pattern pSize
  simp [noWrite]

theorem outcomeOf_unreadable (file : FileAccess) (unreadable : ¬ file.Readable) (block : Nat) (arg : CString) :
    (outcomeOf file block arg).ret = -1 := by
  unfold outcomeOf
  cases opens : file.openErrno with
  | some errno => rfl
  | none =>
    cases measures : file.fstatErrno with
    | some errno => rfl
    | none =>
      cases maps : file.mmapErrno with
      | some errno =>
        simp only
        split
        · rfl
        · cases readArgument arg <;> rfl
      | none => exact absurd ⟨opens, measures, maps⟩ unreadable

/-- A well-written argument is never searched for under another value or
beyond the eight bytes of the pattern exactly when its digits are in range. -/
theorem search_faithful_iff (radix : Radix) (digits : CString) (nonempty : digits ≠ [])
    (valid : ∀ c ∈ digits, isDigitOf radix.base c = true) (file : FileAccess)
    (filled : file.content ≠ []) (block : Nat) :
    (∃ outcome, pluginProcessFile file [bitSeqOption block (radix.mark ++ digits)] 1 = some outcome ∧
      Faithful (valueOf radix.base digits) outcome) ↔
    (¬ file.Readable ∨ radix.Exact digits) := by
  obtain ⟨reading, read, pattern, size⟩ := readArgument_digits radix nonempty valid
  simp only [pluginProcessFile_single, Option.some.injEq, exists_eq_left']
  by_cases readable : file.Readable
  · obtain ⟨returned, searched⟩ := outcomeOf_searched read file readable filled block
    simp only [Faithful, returned, searched, readable, not_true_eq_false, false_or, Radix.exact_iff]
    constructor
    · intro holds
      obtain ⟨_, _, ⟨rfl, rfl⟩, short, same⟩ := holds
      exact ⟨size ▸ short, pattern ▸ same⟩
    · intro holds
      obtain ⟨short, same⟩ := holds
      exact ⟨_, _, ⟨rfl, rfl⟩, size.symm ▸ short, pattern.symm ▸ same⟩
  · have failed := outcomeOf_unreadable file readable block (radix.mark ++ digits)
    simp [Faithful, failed, readable]

theorem search_faithful_eight_bytes :
    ∃ outcome, pluginProcessFile documentedFile [bitSeqOption 0 (Radix.hex.mark ++ "7fffffffffffffff".toList)] 1 =
      some outcome ∧ Faithful (2 ^ 63 - 1) outcome :=
  (search_faithful_iff .hex "7fffffffffffffff".toList (by decide) (List.all_eq_true.mp (by decide)) documentedFile
    (by decide) 0).mpr (.inr ⟨by decide, by decide⟩)

/-- Eight bytes with the top bit set: the pattern searched for is another one. -/
theorem search_saturates :
    ∃ outcome, pluginProcessFile documentedFile [bitSeqOption 0 "0xffffffffffffffff".toList] 1 = some outcome ∧
      ¬ Faithful (valueOf 16 "ffffffffffffffff".toList) outcome := by
  have computed : pluginProcessFile documentedFile [bitSeqOption 0 "0xffffffffffffffff".toList] 1 =
      some ⟨0, .zero, [bitSeqOption 0 "0xffffffffffffffff".toList],
        [.opened, .mapped, .searched (2 ^ 63 - 1) 8, .closed, .unmapped]⟩ := by decide
  refine ⟨_, computed, ?_⟩
  intro faithful
  rcases faithful with failed | ⟨pattern, pSize, searched, _, value⟩
  · exact absurd failed (by decide)
  · simp only [List.mem_cons, reduceCtorEq, PluginEvent.searched.injEq, List.not_mem_nil, or_false,
      false_or] at searched
    obtain ⟨rfl, rfl⟩ := searched
    exact absurd value (by decide)

end PluginSearch.BitSeq
