import PluginSearch.Basis.Rendering
import PluginSearch.Plugin.BitSeqInvariant

/-! The option array outlives a call and the plugin rewrites its argument, so
every later call parses what an earlier one left there. -/

namespace PluginSearch.BitSeq

open Numeral Memory

/-- Calls on a sequence of files with one and the same option array. -/
def processFiles : List FileAccess → List Opt → Option (List (Int × Errno) × List Opt)
  | [], inOpts => some ([], inOpts)
  | file :: rest, inOpts => do
    let outcome ← pluginProcessFile file inOpts inOpts.length
    let (results, inOpts) ← processFiles rest outcome.inOpts
    return ((outcome.ret, outcome.errno) :: results, inOpts)

/-- Two texts that the option loop turns into the same search. -/
def SameSearch (text arg : CString) : Prop :=
  (readArgument text).map (fun reading => (reading.pattern, reading.patSize)) =
    (readArgument arg).map (fun reading => (reading.pattern, reading.patSize))

theorem numeralBase_lld (number : Int) : numeralBase (lld number) = 10 := by
  apply numeralBase_plain
  intro mark letter member
  have foreign : isDigitOf 10 mark = false ∧ mark ≠ '-' := by
    simp only [List.mem_cons, List.not_mem_nil, or_false] at letter
    rcases letter with rfl | rfl | rfl | rfl <;> decide
  have noDigit (n : Nat) : mark ∉ Nat.toDigits 10 n := by
    intro digit
    have valid := toDigits_valid (by decide : 1 < 10) (by decide) n mark digit
    simp [foreign.1] at valid
  unfold lld at member
  split at member
  · rcases List.mem_cons.mp member with minus | digit
    · exact foreign.2 minus
    · exact noDigit _ digit
  · exact noDigit _ member

theorem Reading.text_sameSearch (accepted : readArgument arg = some reading) :
    SameSearch reading.text arg := by
  rcases readArgument_cases accepted with ⟨_, _, same⟩ | ⟨_, _, same⟩ | ⟨_, _, same⟩
  · rw [same]
    rfl
  · rw [same]
    rfl
  · obtain ⟨low, high⟩ := strtoll_range arg 10
    have again := strtoll_lld low high
    rw [SameSearch, accepted, same]
    simp [readArgument, numeralBase_lld, again]

/-- One call: a buffer that asks for the original search gives the original
result, and is left asking for it still. -/
theorem outcomeOf_sameSearch (same : SameSearch text arg) (file : FileAccess) (block : Nat) :
    (outcomeOf file block text).ret = (outcomeOf file block arg).ret ∧
      (outcomeOf file block text).errno = (outcomeOf file block arg).errno ∧
      ∃ after, (outcomeOf file block text).inOpts = [bitSeqOption block after] ∧ SameSearch after arg := by
  unfold outcomeOf
  cases file.openErrno with
  | some errno => exact ⟨rfl, rfl, text, rfl, same⟩
  | none =>
    cases file.fstatErrno with
    | some errno => exact ⟨rfl, rfl, text, rfl, same⟩
    | none =>
      simp only
      split
      · exact ⟨rfl, rfl, text, rfl, same⟩
      · have shared := same
        unfold SameSearch at shared
        cases now : readArgument text with
        | none =>
          cases fresh : readArgument arg with
          | none => exact ⟨rfl, rfl, text, rfl, same⟩
          | some other => simp [now, fresh] at shared
        | some reading =>
          cases fresh : readArgument arg with
          | none => simp [now, fresh] at shared
          | some other =>
            simp only [now, fresh, Option.map_some, Option.some.injEq, Prod.mk.injEq] at shared
            have kept : SameSearch reading.text arg := (Reading.text_sameSearch now).trans same
            cases file.mmapErrno with
            | some errno => exact ⟨rfl, rfl, reading.text, rfl, kept⟩
            | none =>
              refine ⟨?_, rfl, reading.text, rfl, kept⟩
              simp only [shared.1, shared.2]

private theorem processFiles_sameSearch (files : List FileAccess) (block : Nat) (arg : CString) :
    ∀ text, SameSearch text arg →
      ∃ final, processFiles files [bitSeqOption block text] =
        some (files.map (fun file => ((outcomeOf file block arg).ret, (outcomeOf file block arg).errno)), final) := by
  induction files with
  | nil => exact fun text _ => ⟨[bitSeqOption block text], rfl⟩
  | cons file rest ih =>
    intro text same
    obtain ⟨ret, errno, after, opts, kept⟩ := outcomeOf_sameSearch same file block
    obtain ⟨final, later⟩ := ih after kept
    refine ⟨final, ?_⟩
    simp [processFiles, pluginProcessFile_single, opts, later, ret, errno]

/-- Two calls on one file; what lies behind `pattern` on the stack is left over
from the calls before and is each call's own. -/
structure SameFile (file other : FileAccess) : Prop where
  opening : other.openErrno = file.openErrno
  measuring : other.fstatErrno = file.fstatErrno
  mapping : other.mmapErrno = file.mmapErrno
  content : other.content = file.content

/-- Every call of a sequence with one option array returns what a call with a
fresh copy of the argument returns on the same file. -/
def FreshVerdicts (block : Nat) (arg : CString) : Prop :=
  ∀ files others, List.Forall₂ SameFile files others →
    ∃ results final, processFiles files [bitSeqOption block arg] = some (results, final) ∧
      List.Forall₂ (fun other result => (pluginProcessFile other [bitSeqOption block arg] 1).map
        (fun outcome => (outcome.ret, outcome.errno)) = some result) others results

/-- At most 16 characters behind `0x`, and at most 64 behind `0b`. -/
def FewDigits (arg : CString) : Prop :=
  (numeralBase arg = 16 → (arg.drop 2).length ≤ 16) ∧ (numeralBase arg = 2 → (arg.drop 2).length ≤ 64)

instance (arg : CString) : Decidable (FewDigits arg) := inferInstanceAs (Decidable (_ ∧ _))

/-- So many characters that no file is as long as the sequence. -/
def Endless (arg : CString) : Prop :=
  (numeralBase arg = 16 ∧ 2 ^ 64 ≤ (arg.drop 2).length + 1) ∨ (numeralBase arg = 2 ∧ 2 ^ 66 ≤ (arg.drop 2).length + 7)

theorem patSize_cases (accepted : readArgument arg = some reading) :
    (FewDigits arg ↔ reading.patSize ≤ 8) ∧ (Endless arg ↔ 2 ^ 63 ≤ reading.patSize) := by
  rcases readArgument_cases accepted with ⟨base, _, rfl⟩ | ⟨base, _, rfl⟩ | ⟨base, _, rfl⟩
  · simp [FewDigits, Endless, base]
    omega
  · simp [FewDigits, Endless, base]
    omega
  · have bound := llx_length (strtoll arg 10).1
    simp [FewDigits, Endless, base]
    omega

theorem needle_short (short : patSize ≤ 8) (pattern : Int) (beyond others : Nat → UInt8) :
    needle pattern beyond patSize = needle pattern others patSize := by
  apply List.map_congr_left
  intro offset member
  have inside : offset < 8 := lt_of_lt_of_le (List.mem_range.mp member) short
  simp [patternImage, inside]

theorem needle_length (pattern : Int) (beyond : Nat → UInt8) (patSize : Nat) :
    (needle pattern beyond patSize).length = patSize := imageBytes_length _ _

/-- From the ninth byte on the stack decides. -/
theorem needle_long (long : 8 < patSize) (pattern : Int) :
    needle pattern (fun _ => 0) patSize ≠ needle pattern (fun _ => 1) patSize := by
  intro same
  have ninth := congrArg (fun bytes => bytes[8]?) same
  simp [needle, imageBytes, patternImage, long] at ninth

def SameVerdict (block : Nat) (arg : CString) : Prop :=
  ∀ file other, SameFile file other →
    (outcomeOf other block arg).ret = (outcomeOf file block arg).ret ∧
      (outcomeOf other block arg).errno = (outcomeOf file block arg).errno

theorem freshVerdicts_iff (block : Nat) (arg : CString) : FreshVerdicts block arg ↔ SameVerdict block arg := by
  constructor
  · intro fresh file other same
    obtain ⟨results, final, ran, verdicts⟩ := fresh [file] [other] (.cons same .nil)
    obtain ⟨_, ranToo⟩ := processFiles_sameSearch [file] block arg arg rfl
    cases ran.symm.trans ranToo
    cases verdicts with
    | cons verdict _ =>
      rw [pluginProcessFile_single] at verdict
      exact Prod.mk.inj (Option.some.inj verdict)
  · intro verdict files others same
    obtain ⟨final, ran⟩ := processFiles_sameSearch files block arg arg rfl
    refine ⟨_, final, ran, ?_⟩
    rw [List.forall₂_map_right_iff]
    refine same.flip.imp ?_
    intro other file same
    obtain ⟨ret, errno⟩ := verdict file other same
    rw [pluginProcessFile_single]
    exact congrArg some (Prod.ext ret errno)

theorem outcomeOf_same (same : SameFile file other) (block : Nat) (arg : CString)
    (searches : ∀ reading, readArgument arg = some reading →
      (needle reading.pattern other.beyond reading.patSize <:+: file.content ↔
        needle reading.pattern file.beyond reading.patSize <:+: file.content)) :
    (outcomeOf other block arg).ret = (outcomeOf file block arg).ret ∧
      (outcomeOf other block arg).errno = (outcomeOf file block arg).errno := by
  unfold outcomeOf
  rw [same.opening, same.measuring, same.mapping, same.content]
  cases file.openErrno with
  | some errno => exact ⟨rfl, rfl⟩
  | none =>
    cases file.fstatErrno with
    | some errno => exact ⟨rfl, rfl⟩
    | none =>
      dsimp only
      split
      · exact ⟨rfl, rfl⟩
      · cases read : readArgument arg with
        | none => exact ⟨rfl, rfl⟩
        | some reading =>
          cases file.mmapErrno with
          | some errno => exact ⟨rfl, rfl⟩
          | none => exact ⟨if_congr (searches reading read) rfl rfl, rfl⟩

/-- The file that holds the sequence as a call with zeros behind its pattern sees it. -/
def zerosFile (pattern : Int) (patSize : Nat) (fits : patSize < 2 ^ 63) : FileAccess :=
  ⟨none, none, none, needle pattern (fun _ => 0) patSize, by rwa [needle_length], fun _ => 0⟩

theorem sameVerdict_iff (accepted : readArgument arg = some reading) (block : Nat) :
    SameVerdict block arg ↔ reading.patSize ≤ 8 ∨ 2 ^ 63 ≤ reading.patSize := by
  constructor
  · intro verdict
    by_contra between
    obtain ⟨long, fits⟩ : 8 < reading.patSize ∧ reading.patSize < 2 ^ 63 := by omega
    let file := zerosFile reading.pattern reading.patSize fits
    obtain ⟨ret, _⟩ := verdict file { file with beyond := fun _ => 1 } ⟨rfl, rfl, rfl, rfl⟩
    have size : (needle reading.pattern (fun _ => 0) reading.patSize).length ≠ 0 := by
      rw [needle_length]
      omega
    have missing : ¬ needle reading.pattern (fun _ => 1) reading.patSize <:+:
        needle reading.pattern (fun _ => 0) reading.patSize := by
      intro inside
      have same := inside.eq_of_length (by rw [needle_length, needle_length])
      exact needle_long long reading.pattern same.symm
    simp [outcomeOf, file, zerosFile, size, accepted, missing] at ret
  · intro size file other same
    apply outcomeOf_same same
    intro other' read
    cases accepted.symm.trans read
    rcases size with short | long
    · rw [needle_short short reading.pattern other.beyond file.beyond]
    · have absent (beyond : Nat → UInt8) : ¬ needle reading.pattern beyond reading.patSize <:+: file.content := by
        intro inside
        have fits := inside.length_le
        rw [needle_length] at fits
        exact absurd (lt_of_le_of_lt (long.trans fits) file.sizeFits) (lt_irrefl _)
      exact iff_of_false (absent _) (absent _)

/-- Whatever files were processed before it, and whatever they left in the
argument's buffer and on the stack, a call returns what a fresh call would: for
exactly those arguments that are refused or do not reach behind the pattern. -/
theorem processFiles_fresh_iff (block : Nat) (arg : CString) :
    FreshVerdicts block arg ↔ readArgument arg = none ∨ FewDigits arg ∨ Endless arg := by
  rw [freshVerdicts_iff]
  cases read : readArgument arg with
  | none =>
    refine iff_of_true ?_ (.inl rfl)
    intro file other same
    apply outcomeOf_same same
    intro reading accepted
    cases read.symm.trans accepted
  | some reading =>
    obtain ⟨few, endless⟩ := patSize_cases read
    rw [sameVerdict_iff read, few, endless]
    simp

/-- Eighteen digits make nine bytes, the last of which is not the pattern's. -/
theorem processFiles_stale : ¬ FreshVerdicts 0 "0x000000000000000041".toList := by
  intro fresh
  have verdict := (freshVerdicts_iff 0 "0x000000000000000041".toList).mp fresh
  let file : FileAccess := ⟨none, none, none, [0x41, 0, 0, 0, 0, 0, 0, 0, 7], by decide, fun _ => 7⟩
  have differ := (verdict file { file with beyond := fun _ => 0 } ⟨rfl, rfl, rfl, rfl⟩).1
  revert differ
  decide

end PluginSearch.BitSeq
