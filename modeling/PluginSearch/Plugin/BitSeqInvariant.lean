import PluginSearch.Plugin.BitSeq

namespace PluginSearch.BitSeq

open Numeral Memory Loop

/-- The searched bytes, as the first `patSize` bytes in memory. -/
def needle (pattern : Int) (beyond : Nat → UInt8) (patSize : Nat) : List UInt8 :=
  imageBytes (patternImage pattern beyond) patSize

/-- The position never passes the file size and no earlier offset matches. -/
def ScanValid (buffer : List UInt8) (image : Nat → UInt8) (pSize : Nat) (pos : UInt64) : Prop :=
  pos.toNat ≤ buffer.length ∧ ∀ offset < pos.toNat, ¬ OccursAt (imageBytes image pSize) buffer offset

section Scan

variable {buffer : List UInt8} {image : Nat → UInt8} {pSize : Nat} {fSize pos : UInt64}

private theorem remaining (size : fSize.toNat = buffer.length) (within : pos.toNat ≤ buffer.length) :
    (fSize - pos).toNat = buffer.length - pos.toNat := by
  rw [UInt64.toNat_sub_of_le _ _ (UInt64.le_iff_toNat_le.mpr (by omega)), size]

private theorem compare_iff (room : pos.toNat + pSize ≤ buffer.length) :
    memcmp (fun i => buffer.getD (pos.toNat + i) 0) image pSize = 0 ↔
      OccursAt (imageBytes image pSize) buffer pos.toNat := by
  rw [memcmp_eq_zero_iff, occursAt_image_iff image buffer pos.toNat pSize room]

theorem bitSeqTurn_cases (size : fSize.toNat = buffer.length) (valid : ScanValid buffer image pSize pos) :
    (bitSeqTurn buffer image pSize fSize pos = .leave 1 ∧ pos.toNat + pSize ≤ buffer.length ∧
      OccursAt (imageBytes image pSize) buffer pos.toNat) ∨
    (bitSeqTurn buffer image pSize fSize pos = .again (pos + 1) ∧ pos.toNat + pSize ≤ buffer.length ∧
      ¬ OccursAt (imageBytes image pSize) buffer pos.toNat) ∨
    (bitSeqTurn buffer image pSize fSize pos = .leave 0 ∧ buffer.length < pos.toNat + pSize) := by
  have left := remaining size valid.1
  have within := valid.1
  unfold bitSeqTurn
  rw [left]
  by_cases room : pSize ≤ buffer.length - pos.toNat
  · have fits : pos.toNat + pSize ≤ buffer.length := by omega
    by_cases same : memcmp (fun i => buffer.getD (pos.toNat + i) 0) image pSize = 0
    · exact .inl ⟨by simp only [ge_iff_le, room, ↓reduceIte, same], fits, (compare_iff fits).mp same⟩
    · exact .inr (.inl ⟨by simp only [ge_iff_le, room, ↓reduceIte, same], fits,
        fun occurs => same ((compare_iff fits).mpr occurs)⟩)
  · exact .inr (.inr ⟨by simp [room], by omega⟩)

private theorem next_valid (size : fSize.toNat = buffer.length) (valid : ScanValid buffer image pSize pos)
    (room : pos.toNat + pSize ≤ buffer.length)
    (absent : ¬ OccursAt (imageBytes image pSize) buffer pos.toNat) :
    (pos + 1).toNat = pos.toNat + 1 ∧ ScanValid buffer image pSize (pos + 1) := by
  have positive : 0 < pSize := by
    by_contra empty
    have zero : pSize = 0 := by omega
    subst zero
    exact absent (List.nil_prefix)
  have bound := fSize.toNat_lt
  have step : (pos + 1).toNat = pos.toNat + 1 := by
    rw [UInt64.toNat_add, UInt64.toNat_one, Nat.mod_eq_of_lt (by omega)]
  refine ⟨step, by omega, ?_⟩
  intro offset below
  rcases Nat.lt_succ_iff_lt_or_eq.mp (step ▸ below) with earlier | here
  · exact valid.2 offset earlier
  · exact here ▸ absent

theorem bitSeqTurn_variant (size : fSize.toNat = buffer.length) :
    Variant (bitSeqTurn buffer image pSize fSize) (ScanValid buffer image pSize)
      (fun pos => buffer.length - pos.toNat) := by
  have advance (pos next : UInt64) (valid : ScanValid buffer image pSize pos)
      (taken : bitSeqTurn buffer image pSize fSize pos = .again next) :
      next = pos + 1 ∧ next.toNat = pos.toNat + 1 ∧ ScanValid buffer image pSize next := by
    rcases bitSeqTurn_cases size valid with ⟨turn, _⟩ | ⟨turn, room, absent⟩ | ⟨turn, _⟩
    · simp [turn] at taken
    · have same : pos + 1 = next := Turn.again.inj (turn.symm.trans taken)
      subst same
      exact ⟨rfl, next_valid size valid room absent⟩
    · simp [turn] at taken
  refine ⟨fun pos next valid taken => (advance pos next valid taken).2.2, ?_⟩
  intro pos next valid taken
  obtain ⟨_, step, bound, _⟩ := advance pos next valid taken
  omega

/-- `bit_seq_match` is exact substring search: it terminates, and returns 1
for the buffers that contain the image and 0 for the others. -/
theorem bitSeqMatch_eq (buffer : List UInt8) (image : Nat → UInt8) (pSize : Nat)
    (fits : buffer.length < 2 ^ 64) :
    bitSeqMatch buffer image pSize (UInt64.ofNat buffer.length) =
      some (if imageBytes image pSize <:+: buffer then 1 else 0) := by
  have size : (UInt64.ofNat buffer.length).toNat = buffer.length := UInt64.toNat_ofNat_of_lt' fits
  have start : ScanValid buffer image pSize 0 := ⟨by simp, by simp⟩
  have variant : Variant (bitSeqTurn buffer image pSize (UInt64.ofNat buffer.length))
      (ScanValid buffer image pSize) (fun pos => buffer.length - pos.toNat) := bitSeqTurn_variant size
  have establishes : ∀ pos result, ScanValid buffer image pSize pos →
      bitSeqTurn buffer image pSize (UInt64.ofNat buffer.length) pos = .leave result →
      result = if imageBytes image pSize <:+: buffer then 1 else 0 := by
    intro pos result valid left
    rcases bitSeqTurn_cases size valid with ⟨turn, room, occurs⟩ | ⟨turn, _⟩ | ⟨turn, short⟩
    · have same : 1 = result := Turn.leave.inj (turn.symm.trans left)
      have found : imageBytes image pSize <:+: buffer :=
        (infix_iff_occursAt _ _).mpr ⟨pos.toNat, by simpa using room, occurs⟩
      simp [found, same]
    · simp [turn] at left
    · have zero : 0 = result := Turn.leave.inj (turn.symm.trans left)
      have missing : ¬ imageBytes image pSize <:+: buffer := by
        rw [infix_iff_occursAt]
        intro found
        obtain ⟨offset, room, occurs⟩ := found
        rw [imageBytes_length] at room
        exact valid.2 offset (by omega) occurs
      simp [missing, zero]
  have enough : buffer.length - (0 : UInt64).toNat < (UInt64.ofNat buffer.length).toNat + 1 := by simp [size]
  obtain ⟨result, reached, same⟩ := variant.total _ establishes start enough
  rw [bitSeqMatch, reached, same]

/-- `bit_seq_match` terminates, compares no byte outside of the buffer, and
finds exactly the offsets at which the bytes of the pattern stand. -/
theorem bitSeqMatch_exact (buffer : List UInt8) (fits : buffer.length < 2 ^ 64) (pattern : Int)
    (beyond : Nat → UInt8) (pSize : Nat) (short : pSize ≤ 8) :
    (∃ result, bitSeqMatch buffer (patternImage pattern beyond) pSize (UInt64.ofNat buffer.length) = some result ∧
      (result = 0 ∨ result = 1) ∧
      (result = 1 ↔ ∃ p, p + pSize ≤ buffer.length ∧ ∀ j < pSize,
        (buffer.getD (p + j) 0).toNat = (pattern % 2 ^ 64).toNat / 256 ^ j % 256)) ∧
    ∀ pos, Passes (bitSeqTurn buffer (patternImage pattern beyond) pSize (UInt64.ofNat buffer.length)) 0 pos →
      (UInt64.ofNat buffer.length - pos).toNat ≥ pSize → pos.toNat + pSize ≤ buffer.length := by
  have size : (UInt64.ofNat buffer.length).toNat = buffer.length := UInt64.toNat_ofNat_of_lt' fits
  have byte (j : Nat) (below : j < pSize) (value : UInt8) :
      value = patternImage pattern beyond j ↔ value.toNat = (pattern % 2 ^ 64).toNat / 256 ^ j % 256 := by
    have inside : j < 8 := by omega
    rw [patternImage, if_pos inside, ← UInt8.toNat_inj, UInt8.toNat_ofNat', Nat.mod_mod]
  refine ⟨⟨_, bitSeqMatch_eq buffer _ pSize fits, by split <;> simp, ?_⟩, ?_⟩
  · have found : imageBytes (patternImage pattern beyond) pSize <:+: buffer ↔ ∃ p, p + pSize ≤ buffer.length ∧
        ∀ j < pSize, (buffer.getD (p + j) 0).toNat = (pattern % 2 ^ 64).toNat / 256 ^ j % 256 := by
      rw [infix_iff_occursAt, imageBytes_length]
      constructor
      · intro occurs
        obtain ⟨p, room, here⟩ := occurs
        refine ⟨p, room, fun j below => (byte j below _).mp ?_⟩
        exact (occursAt_image_iff _ buffer p pSize room).mp here j below
      · intro stands
        obtain ⟨p, room, bytes⟩ := stands
        refine ⟨p, room, (occursAt_image_iff _ buffer p pSize room).mpr fun j below => ?_⟩
        exact (byte j below _).mpr (bytes j below)
    rw [← found]
    by_cases occurs : imageBytes (patternImage pattern beyond) pSize <:+: buffer
    · simp only [occurs, ↓reduceIte]
    · simp only [occurs, ↓reduceIte, Int.zero_ne_one]
  · intro pos passes room
    have begun : ScanValid buffer (patternImage pattern beyond) pSize 0 := ⟨by simp, by simp⟩
    have within := ((bitSeqTurn_variant size).passes begun passes).1
    rw [remaining size within] at room
    omega

theorem bitSeqMatch_exact_last_byte :
    bitSeqMatch [0x01, 0xb0] (patternImage 0xb0 (fun _ => 0)) 1 2 = some 1 ∧
      bitSeqMatch [0x01] (patternImage 0xb0 (fun _ => 0)) 2 1 = some 0 := by
  obtain ⟨⟨ret, found, _, meaning⟩, _⟩ :=
    bitSeqMatch_exact [0x01, 0xb0] (by decide) 0xb0 (fun _ => 0) 1 (by decide)
  obtain ⟨⟨retToo, missed, zeroOrOne, absent⟩, _⟩ :=
    bitSeqMatch_exact [0x01] (by decide) 0xb0 (fun _ => 0) 2 (by decide)
  have matched : ret = 1 := meaning.mpr ⟨1, by decide, by decide⟩
  have unmatched : retToo ≠ 1 := by
    intro same
    obtain ⟨p, room, _⟩ := absent.mp same
    simp only [List.length_singleton] at room
    omega
  refine ⟨?_, ?_⟩
  · rw [← matched]
    exact found
  · rw [← zeroOrOne.resolve_right unmatched]
    exact missed

end Scan

/-- The only option of the plugin's table, with its argument in a heap block. -/
def bitSeqOption (block : Nat) (arg : CString) : Opt := ⟨optBitSeq, 1, .heap block arg, 0⟩

/-- What the option loop reads from an accepted argument, the text it leaves in
the argument's buffer, and the writes that put it there. -/
structure Reading where
  pattern : Int
  patSize : Nat
  text : CString
  writes : List PluginEvent

/-- One argument through the option loop; `none` is the `EINVAL` return. -/
def readArgument (arg : CString) : Option Reading :=
  let base := numeralBase arg
  let text := if base = 2 then arg.drop 2 else arg
  let pattern := (strtoll text base).1
  if (strtoll text base).2 ≠ [] then none
  else if base = 16 then some ⟨pattern, ((text.drop 2).length + 1) / 2, arg, []⟩
  else if base = 2 then some ⟨pattern, (text.length + 7) / 8, arg, []⟩
  else some ⟨pattern, ((llx pattern).length + 1) / 2, lld pattern,
    [.wrote 0 0 (llx pattern), .wrote 0 0 (lld pattern)]⟩

/-- A call with the plugin's single option, without the option loop. -/
def outcomeOf (file : FileAccess) (block : Nat) (arg : CString) : Outcome :=
  match file.openErrno, file.fstatErrno with
  | some errno, _ => ⟨-1, errno, [bitSeqOption block arg], []⟩
  | none, some errno => ⟨-1, errno, [bitSeqOption block arg], [.opened, .closed]⟩
  | none, none =>
    if file.content.length = 0 then ⟨-1, .erange, [bitSeqOption block arg], [.opened, .closed]⟩
    else match readArgument arg with
      | none => ⟨-1, .einval, [bitSeqOption block arg], [.opened]⟩
      | some reading => match file.mmapErrno with
        | some errno =>
          ⟨-1, errno, [bitSeqOption block reading.text], .opened :: reading.writes ++ [.closed]⟩
        | none =>
          ⟨if needle reading.pattern file.beyond reading.patSize <:+: file.content then 1 else 0, .zero,
            [bitSeqOption block reading.text], .opened :: reading.writes ++
              [.mapped, .searched reading.pattern reading.patSize, .closed, .unmapped]⟩

theorem numeralBase_cases (pat : CString) :
    numeralBase pat = 16 ∨ numeralBase pat = 2 ∨ numeralBase pat = 10 := by
  unfold numeralBase
  split
  · exact .inl rfl
  · split
    · exact .inr (.inl rfl)
    · exact .inr (.inr rfl)

theorem numeralBase_plain {pat : CString} (plain : ∀ mark ∈ ['x', 'X', 'b', 'B'], mark ∉ pat) :
    numeralBase pat = 10 := by
  have second {mark : Char} (letter : mark ∈ ['x', 'X', 'b', 'B']) : pat.take 2 ≠ ['0', mark] := by
    intro same
    exact plain mark letter (List.mem_of_mem_take (i := 2) (by simp [same]))
  have lowerHex := @second 'x' (by decide)
  have upperHex := @second 'X' (by decide)
  have lowerBin := @second 'b' (by decide)
  have upperBin := @second 'B' (by decide)
  simp [numeralBase, lowerHex, upperHex, lowerBin, upperBin]

private theorem textAt_single (block : Nat) (arg : CString) : textAt [bitSeqOption block arg] (0, 0) = some arg := by
  simp [textAt, bitSeqOption]

private theorem overwrite_single (block : Nat) (arg written : CString) :
    { bitSeqOption block arg with flag := Flag.overwrite 0 written (bitSeqOption block arg).flag } =
      bitSeqOption block written := rfl

private theorem parseOptions_single (block : Nat) (arg : CString) :
    parseOptions [0] (Parse.start [bitSeqOption block arg]) =
      convertAt (0, 0) (Parse.start [bitSeqOption block arg]) := by
  have first : parseOption 0 (Parse.start [bitSeqOption block arg]) =
      convertAt (0, 0) (Parse.start [bitSeqOption block arg]) := by
    simp [parseOption, Parse.start, bitSeqOption]
  rw [parseOptions, first]
  cases convertAt (0, 0) (Parse.start [bitSeqOption block arg]) with
  | none => rfl
  | some parsed => cases parsed <;> rfl

private theorem parse_rejected (rejected : readArgument arg = none) (block : Nat) :
    ∃ state, parseOptions [0] (Parse.start [bitSeqOption block arg]) = some (.rejected state) ∧
      state.inOpts = [bitSeqOption block arg] ∧ state.writes = [] := by
  have failed : (strtoll (if numeralBase arg = 2 then arg.drop 2 else arg) (numeralBase arg)).2 ≠ [] := by
    intro consumed
    simp only [readArgument, consumed, ne_eq, not_true_eq_false, ↓reduceIte] at rejected
    split at rejected
    · cases rejected
    · split at rejected <;> cases rejected
  rw [parseOptions_single]
  simp [convertAt, Parse.start, textAt_single, failed]

theorem readArgument_cases (accepted : readArgument arg = some reading) :
    (numeralBase arg = 16 ∧ (strtoll arg 16).2 = [] ∧
      reading = ⟨(strtoll arg 16).1, ((arg.drop 2).length + 1) / 2, arg, []⟩) ∨
    (numeralBase arg = 2 ∧ (strtoll (arg.drop 2) 2).2 = [] ∧
      reading = ⟨(strtoll (arg.drop 2) 2).1, ((arg.drop 2).length + 7) / 8, arg, []⟩) ∨
    (numeralBase arg = 10 ∧ (strtoll arg 10).2 = [] ∧
      reading = ⟨(strtoll arg 10).1, ((llx (strtoll arg 10).1).length + 1) / 2, lld (strtoll arg 10).1,
        [.wrote 0 0 (llx (strtoll arg 10).1), .wrote 0 0 (lld (strtoll arg 10).1)]⟩) := by
  have consumed : (strtoll (if numeralBase arg = 2 then arg.drop 2 else arg) (numeralBase arg)).2 = [] := by
    by_contra failed
    simp [readArgument, failed] at accepted
  simp only [readArgument, consumed, ne_eq, not_true_eq_false, ↓reduceIte] at accepted
  rcases numeralBase_cases arg with base | base | base
  all_goals simp only [base, ↓reduceIte, Nat.reduceEqDiff, Option.some.injEq] at accepted consumed
  · exact .inl ⟨base, consumed, accepted.symm⟩
  · exact .inr (.inl ⟨base, consumed, accepted.symm⟩)
  · exact .inr (.inr ⟨base, consumed, accepted.symm⟩)

theorem parse_accepted (accepted : readArgument arg = some reading) (block : Nat) :
    ∃ state, parseOptions [0] (Parse.start [bitSeqOption block arg]) = some (.accepted state) ∧
      state.gotBitSeq = true ∧ state.pattern = reading.pattern ∧ state.patSize = reading.patSize ∧
      state.inOpts = [bitSeqOption block reading.text] ∧ state.writes = reading.writes := by
  rw [parseOptions_single]
  rcases readArgument_cases accepted with ⟨base, consumed, rfl⟩ | ⟨base, consumed, rfl⟩ | ⟨base, consumed, rfl⟩
  · simp [convertAt, Parse.start, textAt_single, base, consumed]
  · simp [convertAt, Parse.start, textAt_single, base, consumed]
  · simp [convertAt, Parse.start, textAt_single, base, consumed, Parse.sprintf, overwrite_single]

/-- Every call with the plugin's single option returns, with this outcome. -/
theorem pluginProcessFile_single (file : FileAccess) (block : Nat) (arg : CString) :
    pluginProcessFile file [bitSeqOption block arg] 1 = some (outcomeOf file block arg) := by
  unfold pluginProcessFile outcomeOf
  cases file.openErrno with
  | some errno => rfl
  | none =>
    cases file.fstatErrno with
    | some errno => rfl
    | none =>
      simp only [Nat.one_ne_zero, ↓reduceIte, List.range_one]
      split
      · rfl
      · cases read : readArgument arg with
        | none =>
          obtain ⟨state, parsed, opts, writes⟩ := parse_rejected read block
          simp [parsed, opts, writes]
        | some reading =>
          obtain ⟨state, parsed, got, pattern, size, opts, writes⟩ := parse_accepted read block
          have fits : file.content.length < 2 ^ 64 := lt_trans file.sizeFits (by decide)
          have found := bitSeqMatch_eq file.content (patternImage reading.pattern file.beyond)
            reading.patSize fits
          cases file.mmapErrno with
          | some errno => simp [parsed, got, opts, writes]
          | none =>
            simp [parsed, got, found, opts, writes, needle, pattern, size]
            rfl

section Paths

variable (file : FileAccess) (inOpts : List Opt) (inOptsLen : Nat)

/-- The ways through the plugin's call, one for each `return` and `goto END`. -/
inductive Processed : Outcome → Prop where
  | unopened (opens : file.openErrno = some errno) : Processed ⟨-1, errno, inOpts, []⟩
  | unmeasured (opens : file.openErrno = none) (measures : file.fstatErrno = some errno) :
      Processed ⟨-1, errno, inOpts, [.opened, .closed]⟩
  | empty (opens : file.openErrno = none) (measures : file.fstatErrno = none) (empty : file.content = []) :
      Processed ⟨-1, .erange, inOpts, [.opened, .closed]⟩
  | unasked (opens : file.openErrno = none) (measures : file.fstatErrno = none) (filled : file.content ≠ [])
      (ungiven : inOptsLen = 0) : Processed ⟨-1, .einval, inOpts, [.opened]⟩
  | rejected (opens : file.openErrno = none) (measures : file.fstatErrno = none) (filled : file.content ≠ [])
      (given : inOptsLen ≠ 0)
      (parsed : parseOptions (List.range inOptsLen) (Parse.start inOpts) = some (.rejected state)) :
      Processed ⟨-1, .einval, state.inOpts, .opened :: state.writes⟩
  | unsupplied (opens : file.openErrno = none) (measures : file.fstatErrno = none) (filled : file.content ≠ [])
      (given : inOptsLen ≠ 0)
      (parsed : parseOptions (List.range inOptsLen) (Parse.start inOpts) = some (.accepted state))
      (missing : state.gotBitSeq = false) : Processed ⟨-1, .einval, state.inOpts, .opened :: state.writes⟩
  | unmapped (opens : file.openErrno = none) (measures : file.fstatErrno = none) (filled : file.content ≠ [])
      (given : inOptsLen ≠ 0)
      (parsed : parseOptions (List.range inOptsLen) (Parse.start inOpts) = some (.accepted state))
      (maps : file.mmapErrno = some errno) :
      Processed ⟨-1, errno, state.inOpts, .opened :: state.writes ++ [.closed]⟩
  | searched (opens : file.openErrno = none) (measures : file.fstatErrno = none) (filled : file.content ≠ [])
      (given : inOptsLen ≠ 0)
      (parsed : parseOptions (List.range inOptsLen) (Parse.start inOpts) = some (.accepted state))
      (maps : file.mmapErrno = none)
      (found : bitSeqMatch file.content (patternImage state.pattern file.beyond) state.patSize
        (UInt64.ofNat file.content.length) = some ret) :
      Processed ⟨ret, .zero, state.inOpts, .opened :: state.writes ++
        [.mapped, .searched state.pattern state.patSize, .closed, .unmapped]⟩

end Paths

theorem pluginProcessFile_processed (called : pluginProcessFile file inOpts inOptsLen = some outcome) :
    Processed file inOpts inOptsLen outcome := by
  unfold pluginProcessFile at called
  cases opens : file.openErrno with
  | some errno =>
    simp only [opens] at called
    cases called
    exact .unopened opens
  | none =>
    cases measures : file.fstatErrno with
    | some errno =>
      simp only [opens, measures] at called
      cases called
      exact .unmeasured opens measures
    | none =>
      simp only [opens, measures, List.length_eq_zero_iff] at called
      split at called
      · rename_i empty
        cases called
        exact .empty opens measures empty
      · rename_i filled
        split at called
        · rename_i unasked
          cases called
          exact .unasked opens measures filled unasked
        · rename_i asked
          simp only [Option.bind_eq_bind, Option.bind_eq_some_iff] at called
          obtain ⟨parsed, ran, called⟩ := called
          cases parsed with
          | rejected last =>
            cases called
            exact .rejected opens measures filled asked ran
          | accepted last =>
            simp only [Bool.not_eq_true'] at called
            split at called
            · rename_i missing
              cases called
              exact .unsupplied opens measures filled asked ran missing
            · cases maps : file.mmapErrno with
              | some errno =>
                simp only [maps] at called
                cases called
                exact .unmapped opens measures filled asked ran maps
              | none =>
                simp only [maps, Option.bind_eq_some_iff] at called
                obtain ⟨ret, found, called⟩ := called
                cases called
                exact .searched opens measures filled asked ran maps found

end PluginSearch.BitSeq
