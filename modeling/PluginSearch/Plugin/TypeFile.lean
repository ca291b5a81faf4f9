import PluginSearch.Api
import PluginSearch.FileName

namespace PluginSearch.TypeFile

def optText : CString := "txt".toList

/-- The only option of the plugin's table; it takes no argument. -/
def txtOption : Opt := ⟨optText, 0, .null, 0⟩

/-- The option loop: the last `txt` option sets the result. -/
def checkOptions (fname : CString) (inOpts : List Opt) : List Nat → Int → Option Int
  | [], ret => some ret
  | index :: rest, ret => do
    let opt ← inOpts[index]?
    checkOptions fname inOpts rest (if opt.name = optText then isTxt fname else ret)

/-- `plugin_process_file`. The file is opened and measured, never read. -/
def pluginProcessFile (file : FileAccess) (fname : CString) (inOpts : List Opt) (inOptsLen : Nat) :
    Option Outcome :=
  if inOptsLen = 0 then some ⟨-1, .einval, inOpts, []⟩
  else match file.openErrno with
    | some errno => some ⟨-1, errno, inOpts, []⟩
    | none => match file.fstatErrno with
      | some errno => some ⟨-1, errno, inOpts, [.opened, .closed]⟩
      | none =>
        if file.content.length = 0 then some ⟨-1, .erange, inOpts, [.opened, .closed]⟩
        else do
          let ret ← checkOptions fname inOpts (List.range inOptsLen) (-1)
          return ⟨ret, .zero, inOpts, [.opened, .closed]⟩

/-- The verdict with the plugin's single option: the file must open, be
measured and have a byte, and then its name decides. -/
def verdictOf (file : FileAccess) (fname : CString) : Int :=
  if file.openErrno ≠ none ∨ file.fstatErrno ≠ none ∨ file.content = [] then -1 else isTxt fname

theorem pluginProcessFile_single (file : FileAccess) (fname : CString) :
    ∃ outcome, pluginProcessFile file fname [txtOption] 1 = some outcome ∧
      outcome.ret = verdictOf file fname ∧ outcome.inOpts = [txtOption] := by
  cases opens : file.openErrno with
  | some errno => simp [pluginProcessFile, verdictOf, opens]
  | none =>
    cases measures : file.fstatErrno with
    | some errno => simp [pluginProcessFile, verdictOf, opens, measures]
    | none =>
      by_cases empty : file.content = []
      · simp [pluginProcessFile, verdictOf, opens, measures, empty]
      · simp [pluginProcessFile, verdictOf, opens, measures, empty, checkOptions, txtOption, List.range_one]

theorem pluginProcessFile_inOpts (called : pluginProcessFile file fname inOpts inOptsLen = some outcome) :
    outcome.inOpts = inOpts := by
  unfold pluginProcessFile at called
  split at called
  · cases called
    rfl
  · split at called
    · cases called
      rfl
    · split at called
      · cases called
        rfl
      · split at called
        · cases called
          rfl
        · obtain ⟨ret, _, called⟩ := Option.bind_eq_some_iff.mp called
          cases called
          rfl

end PluginSearch.TypeFile
