import PluginSearch.Plugin.BitSeqWritten

namespace PluginSearch.BitSeq

open Numeral

/-- The documented notations of a number. -/
inductive WellWritten : CString → Prop where
  | hex (marked : mark = 'x' ∨ mark = 'X') (nonempty : digits ≠ [])
      (valid : ∀ c ∈ digits, isDigitOf 16 c = true) : WellWritten ('0' :: mark :: digits)
  | bin (marked : mark = 'b' ∨ mark = 'B') (nonempty : digits ≠ [])
      (valid : ∀ c ∈ digits, isDigitOf 2 c = true) : WellWritten ('0' :: mark :: digits)
  | dec (nonempty : digits ≠ []) (valid : ∀ c ∈ digits, isDigitOf 10 c = true) : WellWritten digits

/-- Texts that are none of them, but that `strtoll` leaves nothing of: no digit
at all, or white space or a sign in front of decimal or binary digits. -/
inductive Tolerated : CString → Prop where
  | empty : Tolerated []
  | bare (marked : mark = 'b' ∨ mark = 'B') : Tolerated ['0', mark]
  | decimal (spells : Spells 10 arg blanks sign digits) (leads : blanks ++ sign ≠ []) : Tolerated arg
  | binary (marked : mark = 'b' ∨ mark = 'B') (spells : Spells 2 body blanks sign digits)
      (leads : blanks ++ sign ≠ []) : Tolerated ('0' :: mark :: body)

theorem numeralBase_hex (marked : mark = 'x' ∨ mark = 'X') (rest : CString) :
    numeralBase ('0' :: mark :: rest) = 16 := by
  rcases marked with rfl | rfl <;> simp [numeralBase]

theorem numeralBase_bin (marked : mark = 'b' ∨ mark = 'B') (rest : CString) :
    numeralBase ('0' :: mark :: rest) = 2 := by
  rcases marked with rfl | rfl <;> simp [numeralBase]

theorem numeralBase_prefixed (arg : CString) (other : numeralBase arg ≠ 10) :
    ∃ mark rest, arg = '0' :: mark :: rest ∧
      ((numeralBase arg = 16 ∧ (mark = 'x' ∨ mark = 'X')) ∨ (numeralBase arg = 2 ∧ (mark = 'b' ∨ mark = 'B'))) := by
  have split (mark : Char) (taken : arg.take 2 = ['0', mark]) : arg = '0' :: mark :: arg.drop 2 := by
    have whole := List.take_append_drop 2 arg
    rw [taken] at whole
    exact whole.symm
  unfold numeralBase at other ⊢
  split
  · rename_i hex
    rcases hex with lower | upper
    · exact ⟨'x', arg.drop 2, split 'x' lower, .inl ⟨rfl, .inl rfl⟩⟩
    · exact ⟨'X', arg.drop 2, split 'X' upper, .inl ⟨rfl, .inr rfl⟩⟩
  · rename_i hex
    split
    · rename_i bin
      rcases bin with lower | upper
      · exact ⟨'b', arg.drop 2, split 'b' lower, .inr ⟨rfl, .inl rfl⟩⟩
      · exact ⟨'B', arg.drop 2, split 'B' upper, .inr ⟨rfl, .inr rfl⟩⟩
    · rename_i bin
      exact absurd (by rw [if_neg hex, if_neg bin]) other

theorem numeralBase_leading (foreign : digitValue first = 36) (rest : CString) :
    numeralBase (first :: rest) = 10 := by
  by_contra other
  obtain ⟨mark, more, same, _⟩ := numeralBase_prefixed _ other
  cases same
  exact absurd foreign (by decide)

theorem readArgument_isSome_iff (arg : CString) :
    (readArgument arg).isSome = true ↔
      (strtoll (if numeralBase arg = 2 then arg.drop 2 else arg) (numeralBase arg)).2 = [] := by
  unfold readArgument
  by_cases consumed : (strtoll (if numeralBase arg = 2 then arg.drop 2 else arg) (numeralBase arg)).2 = []
  · simp only [consumed, ne_eq, not_true_eq_false, ↓reduceIte, iff_true]
    split
    · rfl
    · split <;> rfl
  · simp [consumed]

private theorem consumed_plain (spells : Spells base text blanks sign digits) (within : base ≤ 36)
    (plain : base ≠ 16) : (strtoll text base).2 = [] := by
  rw [spells.strtoll_eq within plain]

private theorem consumed_cases (consumed : (strtoll text base).2 = []) (plain : base ≠ 16) :
    text = [] ∨ (text ≠ [] ∧ ∀ c ∈ text, isDigitOf base c = true) ∨
      ∃ blanks sign digits, Spells base text blanks sign digits ∧ blanks ++ sign ≠ [] := by
  rcases strtoll_consumed plain consumed with empty | ⟨blanks, sign, digits, spells⟩
  · exact .inl empty
  · by_cases leads : blanks ++ sign = []
    · obtain ⟨rfl, rfl⟩ := List.append_eq_nil_iff.mp leads
      obtain ⟨rfl, _, _, nonempty, valid⟩ := spells
      exact .inr (.inl ⟨nonempty, valid⟩)
    · exact .inr (.inr ⟨blanks, sign, digits, spells, leads⟩)

theorem written_or_tolerated (accepted : (readArgument arg).isSome = true) : WellWritten arg ∨ Tolerated arg := by
  have consumed := (readArgument_isSome_iff arg).mp accepted
  by_cases ten : numeralBase arg = 10
  · simp only [ten, Nat.reduceEqDiff, ↓reduceIte] at consumed
    rcases consumed_cases consumed (by decide) with rfl | ⟨nonempty, valid⟩ | ⟨blanks, sign, digits, spells, leads⟩
    · exact .inr .empty
    · exact .inl (.dec nonempty valid)
    · exact .inr (.decimal spells leads)
  · obtain ⟨mark, rest, rfl, ⟨base, marked⟩ | ⟨base, marked⟩⟩ := numeralBase_prefixed arg ten
    · simp only [base, Nat.reduceEqDiff, ↓reduceIte] at consumed
      obtain ⟨nonempty, valid⟩ := strtoll_hex_consumed marked consumed
      exact .inl (.hex marked nonempty valid)
    · simp only [base, ↓reduceIte, List.drop_succ_cons, List.drop_zero] at consumed
      rcases consumed_cases consumed (by decide) with rfl | ⟨nonempty, valid⟩ | ⟨blanks, sign, digits, spells, leads⟩
      · exact .inr (.bare marked)
      · exact .inl (.bin marked nonempty valid)
      · exact .inr (.binary marked spells leads)

theorem WellWritten.accepted (written : WellWritten arg) : (readArgument arg).isSome = true := by
  rw [readArgument_isSome_iff]
  cases written with
  | hex marked nonempty valid => simp [numeralBase_hex marked, strtoll_hex marked nonempty valid]
  | bin marked nonempty valid =>
    simp [numeralBase_bin marked, strtoll_digits (by decide : 2 ≤ 36) (by decide) nonempty valid]
  | dec nonempty valid =>
    simp [numeralBase_digits valid, strtoll_digits (by decide : 10 ≤ 36) (by decide) nonempty valid]

theorem Tolerated.accepted (tolerated : Tolerated arg) : (readArgument arg).isSome = true := by
  rw [readArgument_isSome_iff]
  cases tolerated with
  | empty => decide
  | bare marked => rcases marked with rfl | rfl <;> decide
  | decimal spells leads =>
    obtain ⟨first, rest, rfl, foreign⟩ := spells.leading leads
    simp [numeralBase_leading foreign, consumed_plain spells (by decide) (by decide)]
  | binary marked spells leads =>
    simp [numeralBase_bin marked, consumed_plain spells (by decide) (by decide)]

/-- The option loop takes the documented notations and the tolerated texts. -/
theorem readArgument_accepts_iff (arg : CString) :
    (readArgument arg).isSome = true ↔ WellWritten arg ∨ Tolerated arg := by
  constructor
  · exact written_or_tolerated
  · intro taken
    rcases taken with written | tolerated
    · exact written.accepted
    · exact tolerated.accepted

def Unmarked (text : CString) : Prop := text = [] ∨ ∃ first rest, text = first :: rest ∧ digitValue first = 36

theorem Tolerated.unmarked (tolerated : Tolerated arg) :
    Unmarked arg ∨ ∃ mark body, arg = '0' :: mark :: body ∧ (mark = 'b' ∨ mark = 'B') ∧ Unmarked body := by
  cases tolerated with
  | empty => exact .inl (.inl rfl)
  | bare marked => exact .inr ⟨_, [], rfl, marked, .inl rfl⟩
  | decimal spells leads => exact .inl (.inr (spells.leading leads))
  | binary marked spells leads => exact .inr ⟨_, _, rfl, marked, .inr (spells.leading leads)⟩

private theorem not_unmarked {digits : CString} (within : base ≤ 36) (nonempty : digits ≠ [])
    (valid : ∀ c ∈ digits, isDigitOf base c = true) : ¬ Unmarked digits := by
  intro unmarked
  rcases unmarked with empty | ⟨first, rest, rfl, foreign⟩
  · exact nonempty empty
  · have digit := valid first (by simp)
    simp only [isDigitOf, foreign, decide_eq_true_eq] at digit
    omega

private theorem not_unmarked_zero (rest : CString) : ¬ Unmarked ('0' :: rest) := by
  intro unmarked
  rcases unmarked with empty | ⟨first, more, same, foreign⟩
  · cases empty
  · cases same
    exact absurd foreign (by decide)

theorem WellWritten.not_tolerated (written : WellWritten arg) : ¬ Tolerated arg := by
  intro tolerated
  have shape := tolerated.unmarked
  cases written with
  | hex marked nonempty valid =>
    rcases shape with unmarked | ⟨mark, body, same, binary, _⟩
    · exact not_unmarked_zero _ unmarked
    · cases same
      rcases marked with rfl | rfl <;> exact absurd binary (by decide)
  | bin marked nonempty valid =>
    rcases shape with unmarked | ⟨mark, body, same, _, unmarked⟩
    · exact not_unmarked_zero _ unmarked
    · cases same
      exact not_unmarked (by decide) nonempty valid unmarked
  | dec nonempty valid =>
    rcases shape with unmarked | ⟨mark, body, rfl, binary, _⟩
    · exact not_unmarked (by decide) nonempty valid unmarked
    · have digit := valid mark (by simp)
      rcases binary with rfl | rfl <;> exact absurd digit (by decide)

/-- The call does not end with the error of a rejected argument. -/
def GetsPast (file : FileAccess) (block : Nat) (arg : CString) : Prop :=
  ∃ outcome, pluginProcessFile file [bitSeqOption block arg] 1 = some outcome ∧
    ¬ (outcome.ret = -1 ∧ outcome.errno = .einval)

theorem getsPast_iff (file : FileAccess) (readable : file.Readable) (filled : file.content ≠ []) (block : Nat)
    (arg : CString) : GetsPast file block arg ↔ (readArgument arg).isSome = true := by
  obtain ⟨opens, measures, maps⟩ := readable
  simp only [GetsPast, pluginProcessFile_single, Option.some.injEq, exists_eq_left']
  cases read : readArgument arg with
  | none => simp [outcomeOf, opens, measures, filled, read]
  | some reading => simp [outcomeOf, opens, measures, maps, filled, read]

/-- The parser accepts exactly the documented notations on every argument but
the tolerated ones, each of which it takes as well. -/
theorem parser_accepts_documented_iff (file : FileAccess) (readable : file.Readable) (filled : file.content ≠ [])
    (block : Nat) (arg : CString) :
    (GetsPast file block arg ↔ WellWritten arg) ↔ ¬ Tolerated arg := by
  rw [getsPast_iff file readable filled, readArgument_accepts_iff]
  constructor
  · intro same tolerated
    exact (same.mp (.inr tolerated)).not_tolerated tolerated
  · intro strict
    constructor
    · intro taken
      exact taken.resolve_right strict
    · intro written
      exact .inl written

theorem parser_accepts_documented_hex :
    GetsPast documentedFile 0 "0xB0".toList ↔ WellWritten "0xB0".toList := by
  refine (parser_accepts_documented_iff documentedFile ⟨rfl, rfl, rfl⟩ (by decide) 0 "0xB0".toList).mpr ?_
  have written : WellWritten "0xB0".toList := .hex (.inl rfl) (by decide) (List.all_eq_true.mp (by decide))
  exact written.not_tolerated

/-- A prefix without digits is accepted, and its empty pattern matches. -/
theorem parser_accepts_bare_prefix :
    GetsPast documentedFile 0 "0b".toList ∧ ¬ WellWritten "0b".toList ∧
      (pluginProcessFile documentedFile [bitSeqOption 0 "0b".toList] 1).map Outcome.ret = some 1 := by
  refine ⟨⟨_, rfl, by decide⟩, ?_, by decide⟩
  intro written
  exact written.not_tolerated (.bare (.inl rfl))

/-- The three notations of one number, without leading zeros. -/
inductive Writes (n : Nat) : CString → Prop where
  | hex (marked : mark = 'x' ∨ mark = 'X') (cased : digits.map Char.toLower = Nat.toDigits 16 n) :
      Writes n ('0' :: mark :: digits)
  | bin (marked : mark = 'b' ∨ mark = 'B') : Writes n ('0' :: mark :: Nat.toDigits 2 n)
  | dec : Writes n (Nat.toDigits 10 n)

private theorem readArgument_hex {digits : CString} (small : n < 2 ^ 63) (marked : mark = 'x' ∨ mark = 'X')
    (cased : digits.map Char.toLower = Nat.toDigits 16 n) :
    readArgument ('0' :: mark :: digits) = some ⟨n, (digits.length + 1) / 2, '0' :: mark :: digits, []⟩ := by
  have exactly : saturate (n : Int) = n := saturate_of_range (by omega) (by exact_mod_cast small)
  have value : valueOf 16 digits = n := by
    rw [← valueOf_map_toLower, cased, valueOf_toDigits (by decide) (by decide)]
  have valid : ∀ c ∈ digits, isDigitOf 16 c = true := by
    intro c member
    have lower : c.toLower ∈ Nat.toDigits 16 n := cased ▸ List.mem_map_of_mem member
    simpa [isDigitOf, digitValue_toLower] using toDigits_valid (by decide) (by decide) n _ lower
  have nonempty : digits ≠ [] := by
    rintro rfl
    exact Nat.toDigits_ne_nil cased.symm
  simp [readArgument, numeralBase_hex marked, strtoll_hex marked nonempty valid, value, exactly]

private theorem strtoll_toDigits (small : n < 2 ^ 63) (low : 1 < base) (high : base < 16) :
    strtoll (Nat.toDigits base n) base = ((n : Int), []) := by
  have exactly : saturate (n : Int) = n := saturate_of_range (by omega) (by exact_mod_cast small)
  rw [strtoll_digits (by omega) (by omega) Nat.toDigits_ne_nil (toDigits_valid low (by omega) n),
    valueOf_toDigits low (by omega), exactly]

theorem readArgument_writes (small : n < 2 ^ 63) (writes : Writes n arg) :
    ∃ reading, readArgument arg = some reading ∧ reading.pattern = n ∧
      reading.patSize = max 1 (Nat.digits 256 n).length := by
  cases writes with
  | @hex mark digits marked cased =>
    have size : digits.length = (Nat.toDigits 16 n).length := by rw [← cased, List.length_map]
    have bytes : (digits.length + 1) / 2 = max 1 (Nat.digits 256 n).length :=
      toDigits_length_grouped (by decide) (by decide : 16 ^ 2 = 256) n _ (fun count => by rw [size]; omega)
    exact ⟨_, readArgument_hex small marked cased, rfl, bytes⟩
  | @bin mark marked =>
    have bytes : ((Nat.toDigits 2 n).length + 7) / 8 = max 1 (Nat.digits 256 n).length :=
      toDigits_length_grouped (by decide) (by decide : 2 ^ 8 = 256) n _ (fun count => by omega)
    refine ⟨⟨n, ((Nat.toDigits 2 n).length + 7) / 8, '0' :: mark :: Nat.toDigits 2 n, []⟩, ?_, rfl, bytes⟩
    simp [readArgument, numeralBase_bin marked, strtoll_toDigits small (by decide : 1 < 2) (by decide)]
  | dec =>
    have bytes : ((llx n).length + 1) / 2 = max 1 (Nat.digits 256 n).length := by
      rw [llx_nonneg (by omega) (by exact_mod_cast small), Int.toNat_natCast]
      exact toDigits_length_grouped (by decide) (by decide : 16 ^ 2 = 256) n _ (fun count => by omega)
    refine ⟨⟨n, ((llx n).length + 1) / 2, lld n, [.wrote 0 0 (llx n), .wrote 0 0 (lld n)]⟩, ?_, rfl, bytes⟩
    simp [readArgument, numeralBase_digits (toDigits_valid (by decide) (by decide) n),
      strtoll_toDigits small (by decide : 1 < 10) (by decide)]

theorem outcomeOf_ret_eq (read : readArgument arg = some reading) (readOther : readArgument other = some second)
    (pattern : reading.pattern = second.pattern) (size : reading.patSize = second.patSize) (file : FileAccess)
    (block : Nat) : (outcomeOf file block arg).ret = (outcomeOf file block other).ret := by
  unfold outcomeOf
  cases file.openErrno with
  | some errno => rfl
  | none =>
    cases file.fstatErrno with
    | some errno => rfl
    | none =>
      simp only [read, readOther]
      split
      · rfl
      · cases file.mmapErrno with
        | some errno => rfl
        | none => simp only [pattern, size]

/-- The three notations of a number below 2^63 agree: the option loop computes
the number and its bytes from each of them, and every file gets one verdict. -/
theorem spellings_agree (n : Nat) (small : n < 2 ^ 63) (block : Nat) :
    (∀ arg, Writes n arg →
      ∃ state, parseOptions (List.range 1) (Parse.start [bitSeqOption block arg]) = some (.accepted state) ∧
        state.pattern = n ∧ state.patSize = max 1 (Nat.digits 256 n).length) ∧
    ∀ file : FileAccess, file.content ≠ [] → ∃ verdict, ∀ arg, Writes n arg →
      (pluginProcessFile file [bitSeqOption block arg] 1).map Outcome.ret = some verdict := by
  constructor
  · intro arg writes
    obtain ⟨reading, read, pattern, size⟩ := readArgument_writes small writes
    obtain ⟨state, parsed, _, statePattern, stateSize, _⟩ := parse_accepted read block
    exact ⟨state, parsed, statePattern.trans pattern, stateSize.trans size⟩
  · intro file _
    obtain ⟨first, decimal, firstPattern, firstSize⟩ := readArgument_writes small Writes.dec
    refine ⟨(outcomeOf file block (Nat.toDigits 10 n)).ret, ?_⟩
    intro arg writes
    obtain ⟨reading, read, pattern, size⟩ := readArgument_writes small writes
    rw [pluginProcessFile_single, Option.map_some,
      outcomeOf_ret_eq read decimal (pattern.trans firstPattern.symm) (size.trans firstSize.symm)]

theorem spellings_agree_two_bytes :
    ∃ verdict, ∀ arg ∈ ["0xD18e".toList, "0B1101000110001110".toList, "53646".toList],
      (pluginProcessFile documentedFile [bitSeqOption 0 arg] 1).map Outcome.ret = some verdict := by
  obtain ⟨verdict, same⟩ := (spellings_agree 53646 (by decide) 0).2 documentedFile (by decide)
  refine ⟨verdict, ?_⟩
  intro arg member
  apply same
  simp only [List.mem_cons, List.not_mem_nil, or_false] at member
  rcases member with rfl | rfl | rfl
  · exact .hex (.inl rfl) (by decide)
  · exact .bin (.inr rfl)
  · exact .dec

/-- What an accepted decimal argument is overwritten with, by every call that
gets as far as reading it. -/
theorem outcomeOf_wrote_iff (base : numeralBase arg = 10) (consumed : (strtoll arg 10).2 = []) (file : FileAccess)
    (opens : file.openErrno = none) (measures : file.fstatErrno = none) (filled : file.content ≠ []) (block : Nat)
    (option offset : Nat) (text : CString) :
    PluginEvent.wrote option offset text ∈ (outcomeOf file block arg).events ↔
      option = 0 ∧ offset = 0 ∧ (text = llx (strtoll arg 10).1 ∨ text = lld (strtoll arg 10).1) := by
  have read : readArgument arg = some ⟨(strtoll arg 10).1, ((llx (strtoll arg 10).1).length + 1) / 2,
      lld (strtoll arg 10).1, [.wrote 0 0 (llx (strtoll arg 10).1), .wrote 0 0 (lld (strtoll arg 10).1)]⟩ := by
    simp [readArgument, base, consumed]
  cases maps : file.mmapErrno with
  | some errno => simp [outcomeOf, opens, measures, maps, filled, read, and_or_left]
  | none => simp [outcomeOf, opens, measures, maps, filled, read, and_or_left]

/-- Both strings printed over a decimal argument fit into the block that was
allocated for it exactly when it is not empty and, if it denotes a number
below zero, has sixteen characters or more. -/
theorem rewrite_fits_iff (arg : CString) (base : numeralBase arg = 10) (consumed : (strtoll arg 10).2 = [])
    (file : FileAccess) (opens : file.openErrno = none) (measures : file.fstatErrno = none)
    (filled : file.content ≠ []) (block : Nat) :
    ∃ outcome, pluginProcessFile file [bitSeqOption block arg] 1 = some outcome ∧
      PluginEvent.wrote 0 0 (llx (strtoll arg 10).1) ∈ outcome.events ∧
      PluginEvent.wrote 0 0 (lld (strtoll arg 10).1) ∈ outcome.events ∧
      ((∀ option offset text, PluginEvent.wrote option offset text ∈ outcome.events →
          option = 0 ∧ offset + text.length ≤ arg.length) ↔
        arg ≠ [] ∧ (BelowZero arg → 16 ≤ arg.length)) := by
  have wrote := outcomeOf_wrote_iff base consumed file opens measures filled block
  refine ⟨_, pluginProcessFile_single file block arg, (wrote _ _ _).mpr ⟨rfl, rfl, .inl rfl⟩,
    (wrote _ _ _).mpr ⟨rfl, rfl, .inr rfl⟩, ?_⟩
  rw [← renderings_fit_iff consumed]
  constructor
  · intro fits
    have hex := (fits _ _ _ ((wrote _ _ _).mpr ⟨rfl, rfl, .inl rfl⟩)).2
    have dec := (fits _ _ _ ((wrote _ _ _).mpr ⟨rfl, rfl, .inr rfl⟩)).2
    omega
  · intro fits option offset text written
    obtain ⟨rfl, rfl, same⟩ := (wrote _ _ _).mp written
    refine ⟨rfl, ?_⟩
    rw [Nat.zero_add]
    rcases same with rfl | rfl
    · exact fits.1
    · exact fits.2

theorem rewrite_fits_leading_zeros :
    ∃ outcome, pluginProcessFile documentedFile [bitSeqOption 0 "-000000000000017".toList] 1 = some outcome ∧
      ∀ option offset text, PluginEvent.wrote option offset text ∈ outcome.events →
        option = 0 ∧ offset + text.length ≤ 16 := by
  obtain ⟨outcome, called, _, _, fits⟩ := rewrite_fits_iff "-000000000000017".toList rfl rfl documentedFile rfl rfl
    (by decide) 0
  exact ⟨outcome, called, fits.mpr ⟨by decide, fun _ => by decide⟩⟩

/-- The argument `-1` has room for two characters and gets sixteen. -/
theorem rewrite_overflows :
    (pluginProcessFile documentedFile [bitSeqOption 0 "-1".toList] 1).map Outcome.events =
      some [.opened, .wrote 0 0 "ffffffffffffffff".toList, .wrote 0 0 "-1".toList, .mapped, .searched (-1) 8, .closed,
        .unmapped] ∧
    ¬ "ffffffffffffffff".toList.length ≤ "-1".toList.length := by
  decide

end PluginSearch.BitSeq
