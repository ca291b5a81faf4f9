import PluginSearch.Host.Walk
import PluginSearch.Plugin.BitSeqReuse
import PluginSearch.Plugin.TypeFile

namespace PluginSearch

namespace BitSeq

open Numeral

theorem Flag.overwrite_pointer (offset : Nat) (written : CString) (flag : Flag) :
    (Flag.overwrite offset written flag).pointer = flag.pointer := by
  cases flag <;> rfl

theorem Parse.sprintf_pointers (state : Parse) (pointer : Nat × Nat) (written : CString) :
    (state.sprintf pointer written).inOpts.map Opt.pointers = state.inOpts.map Opt.pointers := by
  apply List.ext_getElem?
  intro index
  simp only [Parse.sprintf, List.getElem?_map, List.getElem?_modify]
  split
  · cases state.inOpts[index]? <;> simp [Opt.pointers, Flag.overwrite_pointer]
  · simp

def Parsed.state : Parsed → Parse
  | .rejected state => state
  | .accepted state => state

theorem convertAt_pointers (parsed : convertAt pointer state = some result) :
    result.state.inOpts.map Opt.pointers = state.inOpts.map Opt.pointers := by
  simp only [convertAt, Option.bind_eq_bind, Option.bind_eq_some_iff, Option.pure_def] at parsed
  obtain ⟨text, _, parsed⟩ := parsed
  generalize (if numeralBase text = 2 then (pointer.1, pointer.2 + 2) else pointer) = place at parsed
  generalize (if numeralBase text = 2 then text.drop 2 else text) = digits at parsed
  split at parsed
  · cases parsed
    rfl
  · split at parsed
    · cases parsed
      rfl
    · split at parsed
      · cases parsed
        rfl
      · simp only [Option.bind_eq_some_iff] at parsed
        obtain ⟨hex, _, parsed⟩ := parsed
        cases parsed
        simp only [Parsed.state, Parse.sprintf_pointers]

/-- The option loop writes into arguments, never over a pointer to one. -/
theorem parseOption_pointers (parsed : parseOption index state = some result) :
    result.state.inOpts.map Opt.pointers = state.inOpts.map Opt.pointers := by
  obtain ⟨opt, _, parsed⟩ := Option.bind_eq_some_iff.mp parsed
  split at parsed
  · exact convertAt_pointers parsed
  · obtain ⟨pointer, _, parsed⟩ := Option.bind_eq_some_iff.mp parsed
    exact convertAt_pointers parsed

theorem parseOptions_pointers (indices : List Nat) (parsed : parseOptions indices state = some result) :
    result.state.inOpts.map Opt.pointers = state.inOpts.map Opt.pointers := by
  induction indices generalizing state with
  | nil =>
    cases parsed
    rfl
  | cons index rest ih =>
    simp only [parseOptions, Option.bind_eq_bind, Option.bind_eq_some_iff] at parsed
    obtain ⟨first, stepped, parsed⟩ := parsed
    have kept := parseOption_pointers stepped
    cases first with
    | rejected last =>
      cases parsed
      exact kept
    | accepted next => exact (ih parsed).trans kept

theorem pluginProcessFile_pointers (called : pluginProcessFile file inOpts inOptsLen = some outcome) :
    outcome.inOpts.map Opt.pointers = inOpts.map Opt.pointers := by
  cases pluginProcessFile_processed called with
  | unopened => rfl
  | unmeasured => rfl
  | empty => rfl
  | unasked => rfl
  | rejected _ _ _ _ parsed => exact parseOptions_pointers _ parsed
  | unsupplied _ _ _ _ parsed => exact parseOptions_pointers _ parsed
  | unmapped _ _ _ _ parsed => exact parseOptions_pointers _ parsed
  | searched _ _ _ _ parsed => exact parseOptions_pointers _ parsed

/-- The plugin as the host calls it, over a fixed state of the file system. -/
def ppfFunc (files : CString → FileAccess) : PpfFunc where
  call := fun fname inOpts inOptsLen =>
    (pluginProcessFile (files fname) inOpts inOptsLen).map (fun outcome => (outcome.ret, outcome.inOpts))
  keepsPointers := by
    intro fname opts len ret after called
    obtain ⟨outcome, processed, same⟩ := Option.map_eq_some_iff.mp called
    cases same
    exact pluginProcessFile_pointers processed

/-- The plugin with its argument: its verdict is a function of the file, since
what it leaves in the argument's buffer asks for the same search. -/
def plugin (files : CString → FileAccess) (block : Nat) (arg : CString) : Plugin where
  lib := ⟨[bitSeqOption block arg], [⟨optBitSeq, 1, .null, 0⟩], ppfFunc files⟩
  verdict := fun fname => (outcomeOf (files fname) block arg).ret
  Valid := fun opts => ∃ text, opts = [bitSeqOption block text] ∧ SameSearch text arg
  initial := ⟨arg, rfl, rfl⟩
  answers := by
    rintro fname _ ⟨text, rfl, same⟩
    obtain ⟨ret, _, after, opts, kept⟩ := outcomeOf_sameSearch same (files fname) block
    refine ⟨[bitSeqOption block after], ?_, after, rfl, kept⟩
    simp [ppfFunc, Lib.optsToPassLen, pluginProcessFile_single, ret, opts]

theorem outcomeOf_ret (read : readArgument arg = some reading) (file : FileAccess) (readable : file.Readable)
    (filled : file.content ≠ []) (block : Nat) :
    (outcomeOf file block arg).ret =
      if needle reading.pattern file.beyond reading.patSize <:+: file.content then 1 else 0 := by
  obtain ⟨opens, measures, maps⟩ := readable
  simp [outcomeOf, opens, measures, maps, filled, read]

end BitSeq

namespace TypeFile

/-- The plugin as the host calls it; it never writes to its options. -/
def ppfFunc (files : CString → FileAccess) : PpfFunc where
  call := fun fname inOpts inOptsLen =>
    (pluginProcessFile (files fname) fname inOpts inOptsLen).map (fun outcome => (outcome.ret, outcome.inOpts))
  keepsPointers := by
    intro fname opts len ret after called
    obtain ⟨outcome, processed, same⟩ := Option.map_eq_some_iff.mp called
    cases same
    rw [pluginProcessFile_inOpts processed]

def plugin (files : CString → FileAccess) : Plugin where
  lib := ⟨[txtOption], [txtOption], ppfFunc files⟩
  verdict := fun fname => verdictOf (files fname) fname
  Valid := fun opts => opts = [txtOption]
  initial := rfl
  answers := by
    rintro fname _ rfl
    obtain ⟨outcome, called, ret, kept⟩ := pluginProcessFile_single (files fname) fname
    refine ⟨[txtOption], ?_, rfl⟩
    simp [ppfFunc, Lib.optsToPassLen, called, ret, kept]

theorem verdictOf_readable (file : FileAccess) (readable : file.Readable) (filled : file.content ≠ [])
    (fname : CString) : verdictOf file fname = if getFilenameExt fname = ".txt".toList then 1 else 0 := by
  simp [verdictOf, isTxt, readable.1, readable.2.1, filled]

theorem verdictOf_joinPath (file : FileAccess) (readable : file.Readable) (filled : file.content ≠ [])
    (folder name : CString) :
    verdictOf file (joinPath folder name) = if ".txt".toList <:+ name then 1 else 0 := by
  have extension : getFilenameExt (joinPath folder name) = ".txt".toList ↔ ".txt".toList <:+ name :=
    getFilenameExt_joinPath (by decide) (by decide) folder name
  simp only [verdictOf_readable file readable filled, extension]

end TypeFile

section Search

open Forest (files reported)

variable {access : CString → FileAccess} {arg : CString} {reading : BitSeq.Reading}

/-- The file holds what the plugin searches for: the converted value as it lies
in memory, its lowest byte first, and behind its eight bytes what follows them. -/
def HoldsNeedle (reading : BitSeq.Reading) (file : FileAccess) : Prop :=
  BitSeq.needle reading.pattern file.beyond reading.patSize <:+: file.content

instance (reading : BitSeq.Reading) (file : FileAccess) : Decidable (HoldsNeedle reading file) :=
  inferInstanceAs (Decidable (_ <:+: _))

/-- What both plugins ask for: both properties, or one of them. -/
def wanted (all : Bool) (reading : BitSeq.Reading) (access : CString → FileAccess) (path : CString) : Bool :=
  if all then HoldsNeedle reading (access path) ∧ getFilenameExt path = ".txt".toList
  else HoldsNeedle reading (access path) ∨ getFilenameExt path = ".txt".toList

theorem activeVerdicts_shipped (block : Nat) (read : BitSeq.readArgument arg = some reading)
    (readable : (access path).Readable) (filled : (access path).content ≠ []) :
    activeVerdicts [BitSeq.plugin access block arg, TypeFile.plugin access] path =
      [if HoldsNeedle reading (access path) then 1 else 0,
        if getFilenameExt path = ".txt".toList then 1 else 0] := by
  have called : activeVerdicts [BitSeq.plugin access block arg, TypeFile.plugin access] path =
      [(BitSeq.outcomeOf (access path) block arg).ret, TypeFile.verdictOf (access path) path] := rfl
  rw [called, BitSeq.outcomeOf_ret read _ readable filled, TypeFile.verdictOf_readable _ readable filled]
  rfl

theorem judge_shipped (block : Nat) (read : BitSeq.readArgument arg = some reading)
    (readable : (access path).Readable) (filled : (access path).content ≠ []) (flags : Flags)
    (either : flags.aflag ≠ flags.oflag) (plain : flags.nflag = false) :
    judge flags [BitSeq.plugin access block arg, TypeFile.plugin access] path =
      some (wanted flags.aflag reading access path) := by
  obtain ⟨aflag, oflag, nflag⟩ := flags
  simp only at either plain
  subst plain
  rw [judge, activeVerdicts_shipped block read readable filled, wanted]
  by_cases sequence : HoldsNeedle reading (access path) <;>
    by_cases extension : getFilenameExt path = ".txt".toList <;>
    simp only [sequence, extension, ↓reduceIte] <;>
    cases aflag <;> cases oflag <;> first | exact absurd rfl either | rfl

end Search

end PluginSearch
