import PluginSearch.Plugin.BitSeqInvariant

/-! Option arrays of any length. An option of another name is taken for one
whose argument is what the option before it left, so the loop gets through an
array exactly if each of these texts is read to its end. -/

namespace PluginSearch.BitSeq

open Numeral

def argument (opt : Opt) : Option CString :=
  match opt.flag with
  | .heap _ text => some text
  | _ => none

def readThrough (text : CString) : Bool :=
  (strtoll (if numeralBase text = 2 then text.drop 2 else text) (numeralBase text)).2 = []

/-- What the loop leaves where its pointer leads: the digits behind a prefix,
or the decimal number it has written. -/
def residue (text : CString) : CString :=
  if numeralBase text = 10 then lld (strtoll text 10).1 else text.drop 2

/-- Every numeral of the array is there and read to its end. -/
def accepts : Option CString → List Opt → Bool
  | _, [] => true
  | last, opt :: rest =>
    match if opt.name = optBitSeq then argument opt else last with
    | none => false
    | some text => readThrough text && accepts (some (residue text)) rest

theorem textAt_start (inOpts : List Opt) (index : Nat) :
    textAt inOpts (index, 0) = inOpts[index]?.bind argument := by
  cases found : inOpts[index]? with
  | none => simp [textAt, found]
  | some opt =>
    obtain ⟨name, hasArg, flag, val⟩ := opt
    cases flag <;> simp [textAt, found, argument]

theorem textAt_cases (found : textAt inOpts pointer = some text) :
    ∃ opt block whole, inOpts[pointer.1]? = some opt ∧ opt.flag = .heap block whole ∧ pointer.2 ≤ whole.length ∧
      text = whole.drop pointer.2 := by
  obtain ⟨opt, present, found⟩ := Option.bind_eq_some_iff.mp found
  cases kind : opt.flag with
  | null => simp [kind] at found
  | static address => simp [kind] at found
  | heap block whole =>
    simp only [kind] at found
    split at found
    · rename_i inside
      exact ⟨opt, block, whole, present, kind, inside, (Option.some.inj found).symm⟩
    · cases found

theorem textAt_drop (found : textAt inOpts pointer = some text) (inside : skip ≤ text.length) :
    textAt inOpts (pointer.1, pointer.2 + skip) = some (text.drop skip) := by
  obtain ⟨opt, block, whole, present, kind, room, rfl⟩ := textAt_cases found
  rw [List.length_drop] at inside
  have further : pointer.2 + skip ≤ whole.length := by omega
  simp [textAt, present, kind, further]

theorem textAt_sprintf {state : Parse} (found : textAt state.inOpts pointer = some text) (written : CString) :
    textAt (state.sprintf pointer written).inOpts pointer = some written := by
  obtain ⟨opt, block, whole, present, kind, room, rfl⟩ := textAt_cases found
  have size : (whole.take pointer.2).length = pointer.2 := List.length_take_of_le room
  have now : (state.sprintf pointer written).inOpts[pointer.1]? =
      some { opt with flag := .heap block (whole.take pointer.2 ++ written) } := by
    simp [Parse.sprintf, present, kind, Flag.overwrite]
  have inside : pointer.2 ≤ (whole.take pointer.2 ++ written).length := by
    rw [List.length_append, size]
    exact Nat.le_add_right _ _
  have rest : (whole.take pointer.2 ++ written).drop pointer.2 = written := by
    rw [List.drop_append_of_le_length size.ge, List.drop_of_length_le size.le, List.nil_append]
  simp only [textAt, now, Option.bind_eq_bind, Option.bind_some, if_pos inside, rest]

theorem sprintf_other (state : Parse) (pointer : Nat × Nat) (written : CString) (other : index ≠ pointer.1) :
    (state.sprintf pointer written).inOpts[index]? = state.inOpts[index]? := by
  simp [Parse.sprintf, Ne.symm other]

def OnlyWrites (events : List PluginEvent) : Prop :=
  ∀ event ∈ events, ∃ option offset text, event = .wrote option offset text

theorem OnlyWrites.sprintf {state : Parse} (writes : OnlyWrites state.writes) (pointer : Nat × Nat)
    (written : CString) : OnlyWrites (state.sprintf pointer written).writes := by
  intro event member
  rcases List.mem_append.mp member with earlier | last
  · exact writes event earlier
  · exact ⟨_, _, _, List.mem_singleton.mp last⟩

theorem numeralBase_short (marked : numeralBase text ≠ 10) : 2 ≤ text.length := by
  by_contra short
  have prefixes : text.take 2 = text := List.take_of_length_le (by omega)
  have length (mark : CString) (letters : mark.length = 2) : text ≠ mark := by
    rintro rfl
    omega
  apply marked
  simp [numeralBase, prefixes, length]

/-- Everything the conversion of one argument can do: it turns the text down,
or goes on with what it left at the pointer, writing to this argument only. -/
theorem convertAt_cases (parsed : convertAt pointer state = some result) (writes : OnlyWrites state.writes) :
    ∃ text, textAt state.inOpts pointer = some text ∧
      ((readThrough text = false ∧ ∃ last, result = .rejected last ∧ OnlyWrites last.writes) ∨
        (readThrough text = true ∧ ∃ next offset, result = .accepted next ∧ OnlyWrites next.writes ∧
          next.gotBitSeq = true ∧ next.pat = some (pointer.1, offset) ∧
          textAt next.inOpts (pointer.1, offset) = some (residue text) ∧
          ∀ index, index ≠ pointer.1 → next.inOpts[index]? = state.inOpts[index]?)) := by
  simp only [convertAt, Option.bind_eq_bind, Option.bind_eq_some_iff] at parsed
  obtain ⟨text, found, parsed⟩ := parsed
  refine ⟨text, found, ?_⟩
  by_cases consumed : readThrough text = true
  · have all : (strtoll (if numeralBase text = 2 then text.drop 2 else text) (numeralBase text)).2 = [] := by
      simpa [readThrough] using consumed
    refine .inr ⟨consumed, ?_⟩
    simp only [all, ne_eq, not_true_eq_false, ↓reduceIte] at parsed
    rcases numeralBase_cases text with base | base | base
    · have behind := textAt_drop found (numeralBase_short (by simp [base]))
      simp only [base, ↓reduceIte, Nat.reduceEqDiff, Option.pure_def, Option.some.injEq] at parsed
      subst parsed
      exact ⟨_, _, rfl, writes, rfl, rfl, by simpa [residue, base] using behind, fun _ _ => rfl⟩
    · have behind := textAt_drop found (numeralBase_short (by simp [base]))
      simp only [base, ↓reduceIte, Nat.reduceEqDiff, Option.pure_def, Option.some.injEq] at parsed
      subst parsed
      exact ⟨_, _, rfl, writes, rfl, rfl, by simpa [residue, base] using behind, fun _ _ => rfl⟩
    · simp only [base, ↓reduceIte, Nat.reduceEqDiff, Option.pure_def, Option.bind_eq_some_iff] at parsed
      obtain ⟨hex, measured, parsed⟩ := parsed
      cases parsed
      refine ⟨_, _, rfl, (writes.sprintf _ _).sprintf _ _, rfl, rfl, ?_, ?_⟩
      · rw [residue, if_pos base]
        exact textAt_sprintf measured _
      · intro index other
        exact (sprintf_other _ _ _ other).trans (sprintf_other _ _ _ other)
  · have some_left : (strtoll (if numeralBase text = 2 then text.drop 2 else text) (numeralBase text)).2 ≠ [] := by
      simpa [readThrough] using consumed
    simp only [ne_eq, some_left, not_false_eq_true, ↓reduceIte, Option.pure_def, Option.some.injEq] at parsed
    subst parsed
    exact .inl ⟨by simpa using consumed, _, rfl, writes⟩

theorem convertAt_defined (found : textAt state.inOpts pointer = some text) :
    ∃ result, convertAt pointer state = some result := by
  simp only [convertAt, found, Option.bind_eq_bind, Option.bind_some]
  by_cases binary : numeralBase text = 2
  · simp only [binary, ↓reduceIte]
    split
    · exact ⟨_, rfl⟩
    · exact ⟨_, rfl⟩
  · simp only [binary, ↓reduceIte]
    split
    · exact ⟨_, rfl⟩
    · split
      · exact ⟨_, rfl⟩
      · exact ⟨_, Option.bind_eq_some_iff.mpr ⟨llx (strtoll text (numeralBase text)).1, textAt_sprintf found _, rfl⟩⟩

theorem parseOption_cases (stepped : parseOption index state = some result) :
    ∃ opt pointer, state.inOpts[index]? = some opt ∧
      (if opt.name = optBitSeq then some (index, 0) else state.pat) = some pointer ∧
      convertAt pointer state = some result := by
  obtain ⟨opt, present, stepped⟩ := Option.bind_eq_some_iff.mp stepped
  split at stepped
  · rename_i named
    exact ⟨opt, (index, 0), present, by simp [named], stepped⟩
  · rename_i other
    obtain ⟨pointer, left, stepped⟩ := Option.bind_eq_some_iff.mp stepped
    exact ⟨opt, pointer, present, by simp [other, left], stepped⟩

def sourceOf (state : Parse) (opt : Opt) : Option CString :=
  if opt.name = optBitSeq then argument opt else state.pat.bind (textAt state.inOpts)

/-- The state before option `i`: the pointer leads to an earlier option, so the
options that are still to come are as they were. -/
structure Before (i : Nat) (state : Parse) : Prop where
  behind : ∀ pointer, state.pat = some pointer → pointer.1 < i
  writes : OnlyWrites state.writes

/-- Everything the body of the loop can do. -/
theorem parseOption_tells (present : state.inOpts[i]? = some opt) (before : Before i state)
    (stepped : parseOption i state = some first) :
    ∃ text, sourceOf state opt = some text ∧
      ((readThrough text = false ∧ ∃ last, first = .rejected last ∧ OnlyWrites last.writes) ∨
        (readThrough text = true ∧ ∃ next, first = .accepted next ∧ Before (i + 1) next ∧ next.gotBitSeq = true ∧
          next.pat.bind (textAt next.inOpts) = some (residue text) ∧
          next.inOpts.drop (i + 1) = state.inOpts.drop (i + 1))) := by
  obtain ⟨same, pointer, found, chosen, converted⟩ := parseOption_cases stepped
  cases present.symm.trans found
  obtain ⟨text, here, outcome⟩ := convertAt_cases converted before.writes
  have own : pointer.1 ≤ i := by
    split at chosen
    · cases chosen
      exact Nat.le_refl i
    · exact Nat.le_of_lt (before.behind pointer chosen)
  have source : sourceOf state opt = some text := by
    by_cases named : opt.name = optBitSeq
    · rw [if_pos named] at chosen
      cases chosen
      rw [textAt_start, present] at here
      simpa [sourceOf, named] using here
    · rw [if_neg named] at chosen
      simpa [sourceOf, named, chosen] using here
  refine ⟨text, source, ?_⟩
  rcases outcome with rejected | ⟨read, next, offset, accepted, writes, got, pat, left, same⟩
  · exact .inl rejected
  · refine .inr ⟨read, next, accepted, ⟨?_, writes⟩, got, by rw [pat, Option.bind_some, left], ?_⟩
    · intro other here
      cases pat.symm.trans here
      exact Nat.lt_succ_of_le own
    · apply List.ext_getElem?
      intro index
      rw [List.getElem?_drop, List.getElem?_drop, same _ (by omega)]

theorem parseOption_defined (present : state.inOpts[i]? = some opt) (source : sourceOf state opt = some text) :
    ∃ first, parseOption i state = some first := by
  obtain ⟨pointer, chosen, found⟩ : ∃ pointer,
      (if opt.name = optBitSeq then some (i, 0) else state.pat) = some pointer ∧
        textAt state.inOpts pointer = some text := by
    by_cases named : opt.name = optBitSeq
    · refine ⟨(i, 0), by simp [named], ?_⟩
      rw [textAt_start, present]
      simpa [sourceOf, named] using source
    · rw [sourceOf, if_neg named] at source
      obtain ⟨pointer, pat, found⟩ := Option.bind_eq_some_iff.mp source
      exact ⟨pointer, by simp [named, pat], found⟩
  obtain ⟨result, converted⟩ := convertAt_defined found
  refine ⟨result, ?_⟩
  simp only [parseOption, present, Option.bind_eq_bind, Option.bind_some]
  split at chosen
  · rename_i named
    cases chosen
    simpa [named] using converted
  · rename_i other
    simpa [other, chosen] using converted

/-- How the option loop ends, given whether the array is accepted. -/
def Parsed.Tells (parsed : Parsed) (accepted : Bool) : Prop :=
  match parsed with
  | .rejected last => accepted = false ∧ OnlyWrites last.writes
  | .accepted last => accepted = true ∧ OnlyWrites last.writes

theorem options_succ {inOpts : List Opt} (present : inOpts[i]? = some opt) (count : Nat) :
    (inOpts.drop i).take (count + 1) = opt :: (inOpts.drop (i + 1)).take count := by
  obtain ⟨inside, same⟩ := List.getElem?_eq_some_iff.mp present
  rw [List.drop_eq_getElem_cons inside, List.take_succ_cons, same]

theorem accepts_cons (state : Parse) (opt : Opt) (rest : List Opt) (source : sourceOf state opt = some text) :
    accepts (state.pat.bind (textAt state.inOpts)) (opt :: rest) =
      (readThrough text && accepts (some (residue text)) rest) := by
  rw [sourceOf] at source
  simp only [accepts, source]

/-- The loop from index `i` on. -/
theorem parseOptions_tells (count i : Nat) (state : Parse) (before : Before i state)
    (parsed : parseOptions (List.range' i count) state = some result) :
    result.Tells (accepts (state.pat.bind (textAt state.inOpts)) ((state.inOpts.drop i).take count)) ∧
      (0 < count ∨ state.gotBitSeq = true → ∀ last, result = .accepted last → last.gotBitSeq = true) := by
  induction count generalizing i state with
  | zero =>
    cases parsed
    refine ⟨⟨by simp [accepts], before.writes⟩, ?_⟩
    rintro (absurdity | got) last same
    · exact absurd absurdity (Nat.lt_irrefl 0)
    · cases same
      exact got
  | succ count ih =>
    rw [List.range'_succ] at parsed
    simp only [parseOptions, Option.bind_eq_bind, Option.bind_eq_some_iff] at parsed
    obtain ⟨first, stepped, parsed⟩ := parsed
    obtain ⟨opt, present, _⟩ := Option.bind_eq_some_iff.mp stepped
    obtain ⟨text, source, outcome⟩ := parseOption_tells present before stepped
    rw [options_succ present, accepts_cons state opt _ source]
    rcases outcome with ⟨unread, last, rfl, kept⟩ | ⟨read, next, rfl, later, got, left, rest⟩
    · cases parsed
      refine ⟨⟨?_, kept⟩, by simp⟩
      rw [unread, Bool.false_and]
    · have told := ih (i + 1) next later parsed
      rw [left, rest] at told
      refine ⟨?_, fun _ => told.2 (.inr got)⟩
      simpa only [read, Bool.true_and] using told.1

theorem parseOptions_defined (count i : Nat) (state : Parse) (before : Before i state)
    (room : count ≤ (state.inOpts.drop i).length)
    (accepted : accepts (state.pat.bind (textAt state.inOpts)) ((state.inOpts.drop i).take count) = true) :
    ∃ result, parseOptions (List.range' i count) state = some result := by
  induction count generalizing i state with
  | zero => exact ⟨_, rfl⟩
  | succ count ih =>
    have inside : i < state.inOpts.length := by
      rw [List.length_drop] at room
      omega
    have present : state.inOpts[i]? = some state.inOpts[i] := List.getElem?_eq_getElem inside
    have readable : sourceOf state state.inOpts[i] ≠ none := by
      intro unread
      rw [options_succ present] at accepted
      rw [sourceOf] at unread
      simp [accepts, unread] at accepted
    obtain ⟨text, source⟩ := Option.ne_none_iff_exists'.mp readable
    rw [options_succ present, accepts_cons state _ _ source, Bool.and_eq_true] at accepted
    obtain ⟨first, stepped⟩ := parseOption_defined present source
    obtain ⟨same, again, outcome⟩ := parseOption_tells present before stepped
    cases source.symm.trans again
    rcases outcome with ⟨unread, _⟩ | ⟨_, next, rfl, later, _, left, rest⟩
    · exact absurd accepted.1 (by simp [unread])
    · have enough : count ≤ (next.inOpts.drop (i + 1)).length := by
        rw [rest, List.length_drop]
        rw [List.length_drop] at room
        omega
      obtain ⟨result, parsed⟩ := ih (i + 1) next later enough (by rw [left, rest]; exact accepted.2)
      refine ⟨result, ?_⟩
      simp [List.range'_succ, parseOptions, stepped, parsed]

theorem Parse.start_before (inOpts : List Opt) : Before 0 (Parse.start inOpts) :=
  ⟨by simp [Parse.start], by simp [Parse.start, OnlyWrites]⟩

/-- The option loop of a call gets through exactly the accepted arrays. -/
theorem parseOptions_start (parsed : parseOptions (List.range count) (Parse.start inOpts) = some result) :
    result.Tells (accepts none (inOpts.take count)) ∧
      (0 < count → ∀ last, result = .accepted last → last.gotBitSeq = true) := by
  rw [List.range_eq_range'] at parsed
  have told := parseOptions_tells count 0 (Parse.start inOpts) (Parse.start_before inOpts) parsed
  exact ⟨by simpa [Parse.start] using told.1, fun nonempty => told.2 (.inl nonempty)⟩

theorem parseOptions_start_defined (accepted : accepts none inOpts = true) :
    ∃ result, parseOptions (List.range inOpts.length) (Parse.start inOpts) = some result := by
  rw [List.range_eq_range']
  apply parseOptions_defined _ 0 (Parse.start inOpts) (Parse.start_before inOpts)
  · simp [Parse.start]
  · simpa [Parse.start] using accepted

end PluginSearch.BitSeq
