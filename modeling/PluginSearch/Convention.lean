import PluginSearch.Shipped

namespace PluginSearch

/-- The plugin interface says 0 for a match, the host counts 1: it follows the
interface for a verdict of 2 or more only, and neither plugin ever does. -/
theorem convention_inverted (lib : Lib) (plugin : Plugin) (tracks : Tracks lib plugin)
    (active : plugin.active = true) (fname : CString) (judged : 0 ≤ plugin.verdict fname) (tally : Tally)
    (file : FileAccess) (readable : file.Readable) (filled : file.content ≠ [])
    (block : Nat) (arg : CString) (reading : BitSeq.Reading) (read : BitSeq.readArgument arg = some reading)
    (folder name : CString) :
    (∃ after counted, (∀ rest, callPlugins fname (lib :: rest) tally =
          (callPlugins fname rest ⟨tally.call + 1, counted⟩).map (fun result => (after :: result.1, result.2))) ∧
        ((counted = tally.returnTrue + 1 ↔ plugin.verdict fname = 0) ↔ 2 ≤ plugin.verdict fname)) ∧
    (∃ outcome, BitSeq.pluginProcessFile file [BitSeq.bitSeqOption block arg] 1 = some outcome ∧
      ¬ (outcome.ret = 0 ↔ BitSeq.needle reading.pattern file.beyond reading.patSize <:+: file.content)) ∧
    ∃ outcome, TypeFile.pluginProcessFile file (joinPath folder name) [TypeFile.txtOption] 1 = some outcome ∧
      ¬ (outcome.ret = 0 ↔ ".txt".toList <:+ name) := by
  refine ⟨?_, ?_, ?_⟩
  · obtain ⟨after, _, stepped⟩ := callPlugins_step tracks active judged tally
    refine ⟨after, _, stepped, ?_⟩
    by_cases counts : plugin.verdict fname = 1
    · simp [counts]
    · simp only [counts, ↓reduceIte, Nat.left_eq_add, Nat.one_ne_zero, false_iff]
      omega
  · refine ⟨_, BitSeq.pluginProcessFile_single file block arg, ?_⟩
    rw [BitSeq.outcomeOf_ret read file readable filled]
    split <;> rename_i found <;> simp [found]
  · obtain ⟨outcome, called, ret, _⟩ := TypeFile.pluginProcessFile_single file (joinPath folder name)
    refine ⟨outcome, called, ?_⟩
    rw [ret, TypeFile.verdictOf_joinPath file readable filled]
    split <;> rename_i found <;> simp only [found] <;> decide

def oneByteFile : FileAccess := ⟨none, none, none, [0xb0], by decide, fun _ => 0⟩

theorem convention_inverted_one_byte :
    (∃ after counted, (∀ rest, callPlugins "f".toList ((Plugin.constant 2).lib :: rest) ⟨0, 0⟩ =
        (callPlugins "f".toList rest ⟨1, counted⟩).map (fun result => (after :: result.1, result.2))) ∧
      (counted = 1 ↔ (Plugin.constant 2).verdict "f".toList = 0)) ∧
    (∃ outcome, BitSeq.pluginProcessFile oneByteFile [BitSeq.bitSeqOption 0 "0xb0".toList] 1 = some outcome ∧
      ¬ (outcome.ret = 0 ↔ BitSeq.needle 0xb0 oneByteFile.beyond 1 <:+: oneByteFile.content)) ∧
    ∃ outcome, TypeFile.pluginProcessFile oneByteFile (joinPath "d".toList "a.txt".toList) [TypeFile.txtOption] 1 =
      some outcome ∧ ¬ (outcome.ret = 0 ↔ ".txt".toList <:+ "a.txt".toList) := by
  have read : BitSeq.readArgument "0xb0".toList = some ⟨0xb0, 1, "0xb0".toList, []⟩ := rfl
  obtain ⟨⟨after, counted, stepped, follows⟩, sequence, extension⟩ :=
    convention_inverted (Plugin.constant 2).lib (Plugin.constant 2) (Plugin.tracks _) rfl "f".toList (by decide)
      ⟨0, 0⟩ oneByteFile ⟨rfl, rfl, rfl⟩ (by decide) 0 "0xb0".toList ⟨0xb0, 1, "0xb0".toList, []⟩ read
      "d".toList "a.txt".toList
  exact ⟨⟨after, counted, stepped, follows.mpr (by decide)⟩, sequence, extension⟩

/-- A plugin that follows the interface and answers 0 is not counted, one that
answers 1 is, and both shipped plugins answer 1 on a file that meets their criterion. -/
theorem convention_read_backwards :
    (∃ libs, callPlugins "f".toList [(Plugin.constant 0).lib] ⟨0, 0⟩ = some (libs, some ⟨1, 0⟩)) ∧
    (∃ libs, callPlugins "f".toList [(Plugin.constant 1).lib] ⟨0, 0⟩ = some (libs, some ⟨1, 1⟩)) ∧
    (BitSeq.pluginProcessFile oneByteFile [BitSeq.bitSeqOption 0 "0xb0".toList] 1).map Outcome.ret = some 1 ∧
    (TypeFile.pluginProcessFile oneByteFile "d/a.txt".toList [TypeFile.txtOption] 1).map Outcome.ret = some 1 :=
  ⟨⟨_, rfl⟩, ⟨_, rfl⟩, by decide, by decide⟩

end PluginSearch
